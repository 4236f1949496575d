-- SUMMARY: Codes whose words announce their own end, and the decoders that read one word from the front of their input.
import Mathlib.Data.List.Basic
import Mathlib.Tactic.Common

/-!
# Self-delimiting codes

`word a w` says that the sequence `w` is the word for `a`. A decoder delimits the code
when it accepts exactly the inputs that start with a word, and says which. From that
alone: no word is a proper prefix of another, a word is read back whatever follows it,
and nothing that stops short of the end of a word is accepted.
-/

variable {α β ε : Type}

/-- The decoder reads the word at the front of its input. -/
def Delimits (word : α → List β → Prop) (decode : List β → Except ε α) : Prop :=
  ∀ a d, decode d = .ok a ↔ ∃ w t, word a w ∧ d = w ++ t

namespace Delimits

variable {word : α → List β → Prop} {decode : List β → Except ε α}

theorem decode_append (h : Delimits word decode) {a : α} {w : List β} (hw : word a w) (t : List β) :
    decode (w ++ t) = .ok a :=
  (h a (w ++ t)).mpr ⟨w, t, hw, rfl⟩

theorem decode_word (h : Delimits word decode) {a : α} {w : List β} (hw : word a w) :
    decode w = .ok a := by
  have hdecode := h.decode_append hw []
  rwa [List.append_nil] at hdecode

/-- A word that starts with a word stands for the same thing. -/
theorem eq_of_prefix (h : Delimits word decode) {a b : α} {v w : List β} (hv : word a v)
    (hw : word b w) (hpre : v <+: w) : a = b := by
  obtain ⟨t, rfl⟩ := hpre
  have hdecode := h.decode_append hv t
  rw [h.decode_word hw] at hdecode
  exact (Except.ok.inj hdecode).symm

/-- No proper prefix of a word is accepted, if everything has one word at most. -/
theorem not_ok_of_prefix (h : Delimits word decode)
    (hunique : ∀ {a v w}, word a v → word a w → v = w) {a b : α} {p w : List β} (hw : word a w)
    (hpre : p <+: w) (hne : p ≠ w) : decode p ≠ .ok b := by
  intro hok
  obtain ⟨v, t, hv, rfl⟩ := (h b p).mp hok
  have hvw : v <+: w := (List.prefix_append v t).trans hpre
  obtain rfl := h.eq_of_prefix hv hw hvw
  obtain rfl := hunique hv hw
  -- The prefix holds the whole word, so it is the word.
  exact hne (hpre.eq_of_length_le (by simp))

end Delimits
