-- SUMMARY: Splitting a text at the first match of a pattern, and decimal numbers of 64 bits.
import Mathlib.Data.List.Basic
import Mathlib.Tactic.Common

/-!
# Splitting and decimal numbers

`splitFirst pat l` is a search for `pat` from the left together with the slices
around the match. `parseU64` and `decimal` are the reader and the writer of an
unsigned 64-bit number in base ten; the reader also takes a leading `+` and
leading zeros, so it undoes the writer and not conversely.
-/

namespace Text

variable {α : Type} [DecidableEq α]

/-! ## Splitting at the first match -/

/-- The parts of `l` before and after the first match of `pat`. -/
def splitFirst (pat : List α) : List α → Option (List α × List α)
  | [] => if pat = [] then some ([], []) else none
  | x :: xs =>
    if pat.isPrefixOf (x :: xs) then some ([], (x :: xs).drop pat.length)
    else (splitFirst pat xs).map fun p => (x :: p.1, p.2)

theorem splitFirst_eq_append {pat l a b : List α} (h : splitFirst pat l = some (a, b)) :
    l = a ++ pat ++ b := by
  induction l generalizing a with
  | nil =>
    simp only [splitFirst] at h
    split at h
    · cases h; simp_all
    · cases h
  | cons x xs ih =>
    simp only [splitFirst] at h
    split at h
    · next hpat =>
      cases h
      obtain ⟨t, ht⟩ := List.isPrefixOf_iff_prefix.mp hpat
      rw [← ht]
      simp
    · simp only [Option.map_eq_some_iff, Prod.mk.injEq, Prod.exists] at h
      obtain ⟨a', b', hsplit, rfl, rfl⟩ := h
      rw [ih hsplit]
      simp

/-- A match is found where the text in front cannot hold the pattern's first
    element. -/
theorem splitFirst_append {p : α} {pat a : List α} (ha : p ∉ a) (b : List α) :
    splitFirst (p :: pat) (a ++ (p :: pat) ++ b) = some (a, b) := by
  induction a with
  | nil =>
    have hpre : (p :: pat).isPrefixOf ((p :: pat) ++ b) :=
      List.isPrefixOf_iff_prefix.mpr (List.prefix_append _ _)
    simp only [List.nil_append, List.cons_append] at hpre ⊢
    simp [splitFirst, hpre]
  | cons x a ih =>
    have hx : p ≠ x := fun h => ha (h ▸ List.mem_cons_self ..)
    have ih' := ih fun h => ha (List.mem_cons_of_mem x h)
    simp only [List.append_assoc, List.cons_append] at ih' ⊢
    simp [splitFirst, List.isPrefixOf, hx, ih']

theorem splitFirst_singleton_append {c : α} {a : List α} (ha : c ∉ a) (b : List α) :
    splitFirst [c] (a ++ c :: b) = some (a, b) := by
  have h : splitFirst [c] (a ++ [c] ++ b) = some (a, b) := splitFirst_append ha b
  rwa [List.append_assoc] at h

theorem splitFirst_eq_none {p : α} {pat l : List α} (h : p ∉ l) :
    splitFirst (p :: pat) l = none := by
  induction l with
  | nil => rfl
  | cons x xs ih =>
    have hx : p ≠ x := fun heq => h (heq ▸ List.mem_cons_self ..)
    simp [splitFirst, List.isPrefixOf, hx, ih fun hmem => h (List.mem_cons_of_mem x hmem)]

theorem splitFirst_singleton {c : α} {l a b : List α} (h : splitFirst [c] l = some (a, b)) :
    l = a ++ c :: b ∧ c ∉ a := by
  refine ⟨by simpa using splitFirst_eq_append h, ?_⟩
  induction l generalizing a with
  | nil => cases h
  | cons x xs ih =>
    simp only [splitFirst] at h
    split at h
    · cases h; exact List.not_mem_nil
    · next hpat =>
      simp only [Option.map_eq_some_iff, Prod.mk.injEq, Prod.exists] at h
      obtain ⟨a', b', hsplit, rfl, rfl⟩ := h
      have hx : c ≠ x := by simpa [List.isPrefixOf] using hpat
      simp only [List.mem_cons, not_or]
      exact ⟨hx, ih hsplit⟩

theorem splitFirst_singleton_isSome {c : α} {l : List α} (h : c ∈ l) :
    ∃ a b, splitFirst [c] l = some (a, b) := by
  obtain ⟨a, b, rfl, ha⟩ := List.eq_append_cons_of_mem h
  exact ⟨a, b, splitFirst_singleton_append ha b⟩

/-- The first occurrence of `pat` in `l` has `a` in front of it and `b` behind it. -/
def FirstMatch (pat l a b : List α) : Prop :=
  l = a ++ pat ++ b ∧ ∀ a' b', l = a' ++ pat ++ b' → a.length ≤ a'.length

omit [DecidableEq α] in
theorem FirstMatch.cons {pat xs a b : List α} {x : α} (hpat : ¬ pat <+: x :: xs)
    (h : FirstMatch pat xs a b) : FirstMatch pat (x :: xs) (x :: a) b := by
  obtain ⟨rfl, hfirst⟩ := h
  refine ⟨rfl, fun a' b' heq => ?_⟩
  cases a' with
  | nil =>
    rw [List.nil_append] at heq
    exact absurd (heq ▸ List.prefix_append pat b') hpat
  | cons y a' =>
    simp only [List.cons_append, List.cons.injEq] at heq
    exact Nat.succ_le_succ (hfirst a' b' heq.2)

theorem splitFirst_firstMatch {pat l a b : List α} (h : splitFirst pat l = some (a, b)) :
    FirstMatch pat l a b := by
  induction l generalizing a with
  | nil =>
    refine ⟨splitFirst_eq_append h, fun a' b' _ => ?_⟩
    simp only [splitFirst] at h
    split at h
    · cases h; exact Nat.zero_le _
    · cases h
  | cons x xs ih =>
    have happend := splitFirst_eq_append h
    simp only [splitFirst] at h
    split at h
    · cases h
      exact ⟨happend, fun _ _ _ => Nat.zero_le _⟩
    · next hpat =>
      simp only [Option.map_eq_some_iff, Prod.mk.injEq, Prod.exists] at h
      obtain ⟨a', b', hsplit, rfl, rfl⟩ := h
      exact (ih hsplit).cons fun hpre => hpat (List.isPrefixOf_iff_prefix.mpr hpre)

theorem splitFirst_eq_none_iff {pat l : List α} : splitFirst pat l = none ↔ ¬ pat <:+: l := by
  induction l with
  | nil => simp [splitFirst]
  | cons x xs ih =>
    simp only [splitFirst, List.infix_cons_iff, not_or]
    split
    · next hpat => simp [List.isPrefixOf_iff_prefix.mp hpat]
    · next hpat =>
      rw [Option.map_eq_none_iff, ih]
      simp [mt List.isPrefixOf_iff_prefix.mpr hpat]

/-- The search finds the first occurrence. -/
theorem splitFirst_eq_some_iff {pat l a b : List α} :
    splitFirst pat l = some (a, b) ↔ FirstMatch pat l a b := by
  constructor
  · exact splitFirst_firstMatch
  · intro h
    cases hsplit : splitFirst pat l with
    | none => exact absurd ⟨a, b, h.1.symm⟩ (splitFirst_eq_none_iff.mp hsplit)
    | some p =>
      obtain ⟨a', b'⟩ := p
      obtain ⟨heq, hfirst⟩ := splitFirst_firstMatch hsplit
      have hlen : a'.length = a.length := Nat.le_antisymm (hfirst a b h.1) (h.2 a' b' heq)
      have happend := heq.symm.trans h.1
      simp only [List.append_assoc] at happend
      obtain ⟨rfl, hrest⟩ := List.append_inj happend hlen
      rw [List.append_cancel_left hrest]

/-- `l` without a leading `pat`. -/
def stripPrefix (pat l : List α) : Option (List α) :=
  if pat.isPrefixOf l then some (l.drop pat.length) else none

@[simp] theorem stripPrefix_append (pat l : List α) : stripPrefix pat (pat ++ l) = some l := by
  simp [stripPrefix]

theorem stripPrefix_eq_some_iff {pat l r : List α} : stripPrefix pat l = some r ↔ l = pat ++ r := by
  constructor
  · intro h
    simp only [stripPrefix] at h
    split at h
    · next hpat =>
      obtain ⟨t, rfl⟩ := List.isPrefixOf_iff_prefix.mp hpat
      simpa using h
    · cases h
  · rintro rfl
    exact stripPrefix_append pat r

/-! ## Decimal numbers -/

/-- One more digit of a number below 2^64. -/
def pushDigit (acc : Nat) (c : Char) : Option Nat :=
  if c.isDigit then
    let n := 10 * acc + (c.toNat - '0'.toNat)
    if n < UInt64.size then some n else none
  else none

/-- The digits of `s`, without a leading `+`. -/
def unsigned : List Char → List Char
  | '+' :: ds => ds
  | ds => ds

/-- Parse an unsigned 64-bit number in base ten. -/
def parseU64 (s : List Char) : Option Nat :=
  if unsigned s = [] then none else (unsigned s).foldlM pushDigit 0

/-- Write a number in base ten. -/
def decimal (n : Nat) : List Char := Nat.toDigits 10 n

theorem le_ofDigitChars (ds : List Char) (acc : Nat) : acc ≤ Nat.ofDigitChars 10 ds acc := by
  induction ds generalizing acc with
  | nil => exact Nat.le_refl acc
  | cons d ds ih =>
    have := ih (10 * acc + (d.toNat - '0'.toNat))
    simp only [Nat.ofDigitChars, List.foldl_cons] at this ⊢
    omega

theorem foldlM_pushDigit {ds : List Char} {acc n : Nat} (hacc : acc < UInt64.size) :
    ds.foldlM pushDigit acc = some n ↔
      (∀ c ∈ ds, c.isDigit) ∧ Nat.ofDigitChars 10 ds acc = n ∧ n < UInt64.size := by
  induction ds generalizing acc with
  | nil =>
    simp only [List.foldlM_nil, pure, Nat.ofDigitChars, List.foldl_nil, Option.some.injEq]
    constructor
    · rintro rfl; exact ⟨by simp, rfl, hacc⟩
    · exact fun h => h.2.1
  | cons d ds ih =>
    have hmono := le_ofDigitChars ds (10 * acc + (d.toNat - '0'.toNat))
    have hcons : Nat.ofDigitChars 10 (d :: ds) acc =
        Nat.ofDigitChars 10 ds (10 * acc + (d.toNat - '0'.toNat)) := rfl
    rw [List.foldlM_cons, hcons]
    simp only [pushDigit, List.forall_mem_cons]
    split
    · next hd =>
      split
      · next hlt =>
        simp only [Option.bind_eq_bind, Option.bind_some, ih hlt, hd, true_and]
      · next hge =>
        simp only [Option.bind_eq_bind, Option.bind_none, reduceCtorEq, false_iff]
        rintro ⟨-, rfl, hn⟩
        omega
    · next hd => simp [hd]

/-- What `parseU64` accepts. -/
theorem parseU64_eq_some_iff {s : List Char} {n : Nat} :
    parseU64 s = some n ↔ unsigned s ≠ [] ∧ (∀ c ∈ unsigned s, c.isDigit) ∧
      Nat.ofDigitChars 10 (unsigned s) 0 = n ∧ n < UInt64.size := by
  simp only [parseU64]
  split
  · next h => simp [h]
  · next h => simp only [h, foldlM_pushDigit (by decide : 0 < UInt64.size), ne_eq, not_false_eq_true, true_and]

/-- Decimal digits that stand for `n`, with an optional `+` in front. -/
def Numeral (s : List Char) (n : Nat) : Prop :=
  ∃ digits, (s = digits ∨ s = '+' :: digits) ∧ digits ≠ [] ∧ (∀ c ∈ digits, c.isDigit) ∧
    Nat.ofDigitChars 10 digits 0 = n

theorem unsigned_eq_or (s : List Char) : s = unsigned s ∨ s = '+' :: unsigned s := by
  unfold unsigned
  split
  · exact .inr rfl
  · exact .inl rfl

theorem unsigned_of_digits {digits : List Char} (h : ∀ c ∈ digits, c.isDigit) :
    unsigned digits = digits := by
  unfold unsigned
  split
  · next ds =>
    have hplus := h '+' (List.mem_cons_self ..)
    exact absurd hplus (by decide)
  · rfl

/-- The accepted texts are the numerals below 2^64. -/
theorem parseU64_iff_numeral {s : List Char} {n : Nat} :
    parseU64 s = some n ↔ Numeral s n ∧ n < UInt64.size := by
  rw [parseU64_eq_some_iff]
  constructor
  · rintro ⟨hne, hdigits, hvalue, hlt⟩
    exact ⟨⟨unsigned s, unsigned_eq_or s, hne, hdigits, hvalue⟩, hlt⟩
  · rintro ⟨⟨digits, hs, hne, hdigits, hvalue⟩, hlt⟩
    have hunsigned : unsigned s = digits := by
      cases hs with
      | inl h => rw [h, unsigned_of_digits hdigits]
      | inr h => rw [h]; rfl
    rw [hunsigned]
    exact ⟨hne, hdigits, hvalue, hlt⟩

/-- A numeral stands for one number. -/
theorem Numeral.unique {s : List Char} {n n' : Nat} (h : Numeral s n) (h' : Numeral s n') : n = n' := by
  have hvalue : ∀ {m}, Numeral s m → Nat.ofDigitChars 10 (unsigned s) 0 = m := by
    rintro m ⟨digits, hs, -, hdigits, hm⟩
    cases hs with
    | inl heq => rw [heq, unsigned_of_digits hdigits, hm]
    | inr heq => rw [heq, unsigned, hm]
  exact (hvalue h).symm.trans (hvalue h')

theorem mem_of_unsigned {s : List Char} {c : Char} (hc : c ∈ s) : c = '+' ∨ c ∈ unsigned s := by
  unfold unsigned
  split
  · exact List.mem_cons.mp hc
  · exact .inr hc

/-- An accepted number holds digits and `+` only. -/
theorem not_mem_of_parseU64 {s : List Char} {n : Nat} (h : parseU64 s = some n) {c : Char}
    (hplus : c ≠ '+') (hdigit : c.isDigit = false) : c ∉ s := by
  intro hc
  obtain ⟨-, hds, -, -⟩ := parseU64_eq_some_iff.mp h
  have := hds c ((mem_of_unsigned hc).resolve_left hplus)
  simp [hdigit] at this

theorem isDigit_of_mem_decimal {n : Nat} {c : Char} (h : c ∈ decimal n) : c.isDigit :=
  Nat.isDigit_of_mem_toDigits (by decide) (by decide) h

@[simp] theorem unsigned_decimal (n : Nat) : unsigned (decimal n) = decimal n := by
  unfold unsigned
  split
  · next ds h =>
    have : '+' ∈ decimal n := by rw [h]; exact List.mem_cons_self ..
    exact absurd (isDigit_of_mem_decimal this) (by decide)
  · rfl

/-- The reader undoes the writer. -/
theorem parseU64_decimal {n : Nat} (h : n < UInt64.size) : parseU64 (decimal n) = some n := by
  rw [parseU64_eq_some_iff, unsigned_decimal]
  exact ⟨Nat.toDigits_ne_nil, fun c hc => isDigit_of_mem_decimal hc,
    Nat.ofDigitChars_ten_toDigits, h⟩

end Text
