-- SUMMARY: UTF-8 encoding, and decoding under a policy for the byte sequences that are not UTF-8.
import Mathlib.Data.List.Basic
import Mathlib.Tactic.Common

/-!
# UTF-8 with a policy for broken input

Runtimes agree on which byte sequences are characters and disagree on what to do
with the others: one substitutes a replacement character, another smuggles the
byte through as a lone surrogate. `Policy` is that choice, and `decode` is the
one decoding loop. What is proved for every policy: encoded text decodes to
itself, and an ASCII prefix can be tested before or after decoding.
-/

namespace Utf8

/-! ## Characters -/

/-- The bytes of a text. -/
def encode (cs : List Char) : List UInt8 := cs.flatMap String.utf8EncodeChar

@[simp] theorem encode_nil : encode [] = [] := rfl

@[simp] theorem encode_cons (c : Char) (cs : List Char) :
    encode (c :: cs) = String.utf8EncodeChar c ++ encode cs := rfl

@[simp] theorem encode_append (cs ds : List Char) : encode (cs ++ ds) = encode cs ++ encode ds :=
  List.flatMap_append

/-- The character whose encoding starts the byte sequence, if any. -/
def next? (l : List UInt8) : Option Char := ByteArray.utf8DecodeChar? l.toByteArray 0

theorem next?_eq_some_iff {l : List UInt8} {c : Char} :
    next? l = some c ↔ ∃ t, l = String.utf8EncodeChar c ++ t := by
  constructor
  · intro h
    obtain ⟨b, hb⟩ := ByteArray.exists_of_utf8DecodeChar?_eq_some h
    refine ⟨b.data.toList, ?_⟩
    have := congrArg (fun b => b.data.toList) hb
    simpa using this
  · rintro ⟨t, rfl⟩
    rw [next?, List.toByteArray_append]
    exact ByteArray.utf8DecodeChar?_utf8EncodeChar_append

@[simp] theorem next?_encodeChar (c : Char) (t : List UInt8) :
    next? (String.utf8EncodeChar c ++ t) = some c :=
  next?_eq_some_iff.mpr ⟨t, rfl⟩

/-! ## ASCII -/

def Ascii (c : Char) : Prop := c.toNat < 128

instance : DecidablePred Ascii := fun c => inferInstanceAs (Decidable (c.toNat < 128))

theorem ascii_of_all {cs : List Char} (h : cs.all (fun c => c.toNat < 128) = true) :
    ∀ c ∈ cs, Ascii c := by
  intro c hc
  exact of_decide_eq_true (List.all_eq_true.mp h c hc)

theorem encodeChar_ascii {c : Char} (h : Ascii c) :
    String.utf8EncodeChar c = [UInt8.ofNat c.toNat] := by
  have h' : c.val.toNat ≤ 127 := Nat.le_of_lt_succ h
  simp only [String.utf8EncodeChar, if_pos h']
  rfl

/-- Outside ASCII every encoding starts with a byte from `0x80` on. -/
theorem encodeChar_head {c : Char} (h : ¬ Ascii c) :
    ∃ b bs, String.utf8EncodeChar c = b :: bs ∧ 128 ≤ b.toNat := by
  have h' : ¬ c.val.toNat ≤ 127 := fun hle => h (Nat.lt_succ_of_le hle)
  simp only [String.utf8EncodeChar, if_neg h']
  split
  · exact ⟨_, _, rfl, by rw [UInt8.toNat_ofNat']; omega⟩
  · split
    · exact ⟨_, _, rfl, by rw [UInt8.toNat_ofNat']; omega⟩
    · exact ⟨_, _, rfl, by rw [UInt8.toNat_ofNat']; omega⟩

theorem le_of_mem_encodeChar {c : Char} (h : ¬ Ascii c) {b : UInt8}
    (hb : b ∈ String.utf8EncodeChar c) : 128 ≤ b.toNat := by
  have h' : ¬ c.val.toNat ≤ 127 := fun hle => h (Nat.lt_succ_of_le hle)
  simp only [String.utf8EncodeChar, if_neg h'] at hb
  split at hb
  · simp only [List.mem_cons, List.not_mem_nil, or_false] at hb
    rcases hb with rfl | rfl <;> rw [UInt8.toNat_ofNat'] <;> omega
  · split at hb
    · simp only [List.mem_cons, List.not_mem_nil, or_false] at hb
      rcases hb with rfl | rfl | rfl <;> rw [UInt8.toNat_ofNat'] <;> omega
    · simp only [List.mem_cons, List.not_mem_nil, or_false] at hb
      rcases hb with rfl | rfl | rfl | rfl <;> rw [UInt8.toNat_ofNat'] <;> omega

theorem ascii_toNat_ofNat {c : Char} (h : Ascii c) : (UInt8.ofNat c.toNat).toNat = c.toNat := by
  have : c.toNat < 128 := h
  simp; omega

/-- Text holds a NUL exactly if its bytes do. -/
theorem zero_mem_encode_iff {cs : List Char} : (0 : UInt8) ∈ encode cs ↔ '\x00' ∈ cs := by
  have key : ∀ c, (0 : UInt8) ∈ String.utf8EncodeChar c ↔ '\x00' = c := by
    intro c
    by_cases hc : Ascii c
    · rw [encodeChar_ascii hc, List.mem_singleton]
      constructor
      · intro h
        have := congrArg UInt8.toNat h
        rw [ascii_toNat_ofNat hc] at this
        exact Char.toNat_inj.mp this
      · intro h
        subst h
        rfl
    · refine iff_of_false (fun h => ?_) (fun h => hc (h ▸ by decide))
      exact absurd (le_of_mem_encodeChar hc h) (by decide)
  simp [encode, List.mem_flatMap, key]

/-- A byte below `0x80` is a character by itself. -/
theorem next?_ascii {b : UInt8} (h : b.toNat < 128) (bs : List UInt8) :
    next? (b :: bs) = some (Char.ofNat b.toNat) := by
  have hnat : (Char.ofNat b.toNat).toNat = b.toNat := by
    rw [Char.ofNat, dif_pos (Or.inl (by omega))]
    rfl
  have hc : Ascii (Char.ofNat b.toNat) := by rw [Ascii, hnat]; exact h
  rw [next?_eq_some_iff]
  refine ⟨bs, ?_⟩
  rw [encodeChar_ascii hc, hnat]
  simp

/-! ## Strict decoding -/

/-- The text a byte sequence encodes, if it is valid UTF-8. -/
def decode? (l : List UInt8) : Option (List Char) :=
  (ByteArray.utf8Decode? l.toByteArray).map Array.toList

@[simp] theorem decode?_encode (cs : List Char) : decode? (encode cs) = some cs := by
  have h : (encode cs).toByteArray = cs.utf8Encode := rfl
  simp [decode?, h]

theorem decode?_isSome_iff {l : List UInt8} : (decode? l).isSome ↔ ∃ cs, l = encode cs := by
  constructor
  · intro h
    rw [decode?, Option.isSome_map, ByteArray.isSome_utf8Decode?_iff] at h
    obtain ⟨cs, hcs⟩ := h
    refine ⟨cs, ?_⟩
    have hbytes : l.toByteArray = (encode cs).toByteArray := hcs
    have hdata := congrArg (fun b => b.data.toList) hbytes
    simpa only [List.toList_data_toByteArray] using hdata
  · rintro ⟨cs, rfl⟩
    rw [decode?_encode]
    rfl

/-! ## Decoding under a policy -/

/-- What a runtime emits while decoding: for a character, and for bytes that start
    no character (the units emitted, and how many bytes after the first one are
    consumed with it). -/
structure Policy (β : Type) where
  char : Char → List β
  broken : List UInt8 → List β × Nat

variable {β : Type}

/-- The decoding loop. Every round consumes a byte, so the length of the input is
    enough rounds. -/
def decodeRounds (p : Policy β) : Nat → List UInt8 → List β
  | 0, _ => []
  | _ + 1, [] => []
  | fuel + 1, b :: bs =>
    match next? (b :: bs) with
    | some c => p.char c ++ decodeRounds p fuel ((b :: bs).drop c.utf8Size)
    | none => (p.broken (b :: bs)).1 ++ decodeRounds p fuel (bs.drop (p.broken (b :: bs)).2)

def decode (p : Policy β) (l : List UInt8) : List β := decodeRounds p l.length l

theorem decodeRounds_eq (p : Policy β) {fuel : Nat} {l : List UInt8} (h : l.length ≤ fuel) :
    decodeRounds p fuel l = decode p l := by
  -- Both sides agree with the loop run on one round less; induct on the larger fuel.
  have key : ∀ m n (l : List UInt8), l.length ≤ m → l.length ≤ n →
      decodeRounds p m l = decodeRounds p n l := by
    intro m
    induction m with
    | zero =>
      intro n l hm _
      obtain rfl : l = [] := List.length_eq_zero_iff.mp (by omega)
      cases n <;> rfl
    | succ m ih =>
      intro n l hm hn
      cases l with
      | nil => cases n <;> rfl
      | cons b bs =>
        cases n with
        | zero => simp at hn
        | succ n =>
          have hm' : bs.length ≤ m := by simpa using hm
          have hn' : bs.length ≤ n := by simpa using hn
          simp only [decodeRounds]
          split
          · next c _ =>
            have hpos := c.utf8Size_pos
            rw [ih n] <;> simp only [List.length_drop, List.length_cons] <;> omega
          · rw [ih n] <;> simp only [List.length_drop] <;> omega
  exact key fuel l.length l h (Nat.le_refl _)

@[simp] theorem decode_nil (p : Policy β) : decode p [] = [] := rfl

theorem decode_char (p : Policy β) (c : Char) (t : List UInt8) :
    decode p (String.utf8EncodeChar c ++ t) = p.char c ++ decode p t := by
  have hlen := String.length_utf8EncodeChar c
  have hpos := c.utf8Size_pos
  cases hl : String.utf8EncodeChar c ++ t with
  | nil =>
    have := congrArg List.length hl
    rw [List.length_append, hlen] at this
    simp at this
    omega
  | cons b bs =>
    have hnext : next? (b :: bs) = some c := by rw [← hl]; simp
    have hdrop : (b :: bs).drop c.utf8Size = t := by rw [← hl, ← hlen, List.drop_left]
    have hle : t.length ≤ bs.length := by
      have := congrArg List.length hl
      simp only [List.length_append, hlen, List.length_cons] at this
      omega
    simp only [decode, List.length_cons, decodeRounds, hnext, hdrop]
    rw [decodeRounds_eq p hle, decode]

theorem decode_broken (p : Policy β) {b : UInt8} {bs : List UInt8} (h : next? (b :: bs) = none) :
    decode p (b :: bs) =
      (p.broken (b :: bs)).1 ++ decode p (bs.drop (p.broken (b :: bs)).2) := by
  simp only [decode, List.length_cons, decodeRounds, h]
  rw [decodeRounds_eq p (by simp), decode]

theorem decode_encode_append (p : Policy β) (cs : List Char) (t : List UInt8) :
    decode p (encode cs ++ t) = cs.flatMap p.char ++ decode p t := by
  induction cs with
  | nil => rfl
  | cons c cs ih => rw [encode_cons, List.append_assoc, decode_char, ih]; simp

theorem decode_encode (p : Policy β) (cs : List Char) : decode p (encode cs) = cs.flatMap p.char := by
  simpa using decode_encode_append p cs []

/-! ## Testing an ASCII prefix -/

/-- The policy emits the unit `unit c` for an ASCII character `c`, and starts
    everything else with a unit that stands for no ASCII character. -/
structure Policy.AsciiSafe (p : Policy β) (unit : Char → β) : Prop where
  char_ascii : ∀ c, Ascii c → p.char c = [unit c]
  unit_inj : ∀ a c, Ascii a → Ascii c → unit a = unit c → a = c
  char_other : ∀ c, ¬ Ascii c → ∃ u us, p.char c = u :: us ∧ ∀ a, Ascii a → unit a ≠ u
  broken_other : ∀ b bs, 128 ≤ b.toNat →
    ∃ u us, (p.broken (b :: bs)).1 = u :: us ∧ ∀ a, Ascii a → unit a ≠ u

theorem not_prefix_of_head_ne {x y : β} {xs ys : List β} (h : x ≠ y) : ¬ (x :: xs) <+: (y :: ys) := by
  rw [List.cons_prefix_cons]
  exact fun hp => h hp.1

/-- Whether a text starts with an ASCII word does not depend on the policy: it is
    whether the bytes start with the bytes of the word. -/
theorem decode_prefix_iff {p : Policy β} {unit : Char → β} (hp : p.AsciiSafe unit)
    {w : List Char} (hw : ∀ c ∈ w, Ascii c) (l : List UInt8) :
    w.map unit <+: decode p l ↔ encode w <+: l := by
  induction w generalizing l with
  | nil => simp
  | cons a w ih =>
    have ha : Ascii a := hw a (List.mem_cons_self ..)
    have hw' : ∀ c ∈ w, Ascii c := fun c hc => hw c (List.mem_cons_of_mem a hc)
    rw [List.map_cons, encode_cons, encodeChar_ascii ha]
    cases l with
    | nil => simp
    | cons b bs =>
      cases hnext : next? (b :: bs) with
      | none =>
        have hb : 128 ≤ b.toNat := by
          by_contra hlt
          rw [next?_ascii (by omega) bs] at hnext
          cases hnext
        obtain ⟨u, us, hu, hne⟩ := hp.broken_other b bs hb
        rw [decode_broken p hnext, hu]
        refine iff_of_false (not_prefix_of_head_ne (hne a ha)) (not_prefix_of_head_ne ?_)
        rintro rfl
        have hlt : a.toNat < 128 := ha
        rw [ascii_toNat_ofNat ha] at hb
        omega
      | some c =>
        obtain ⟨t, ht⟩ := next?_eq_some_iff.mp hnext
        rw [ht, decode_char]
        by_cases hc : Ascii c
        · rw [hp.char_ascii c hc, encodeChar_ascii hc]
          simp only [List.cons_append, List.nil_append, List.cons_prefix_cons, ih hw']
          refine and_congr_left fun _ => ⟨fun h => ?_, fun h => ?_⟩
          · rw [hp.unit_inj a c ha hc h]
          · have := congrArg UInt8.toNat h
            rw [ascii_toNat_ofNat ha, ascii_toNat_ofNat hc] at this
            rw [Char.toNat_inj.mp this]
        · obtain ⟨u, us, hu, hne⟩ := hp.char_other c hc
          obtain ⟨d, ds, hd, hge⟩ := encodeChar_head hc
          rw [hu, hd]
          refine iff_of_false (not_prefix_of_head_ne (hne a ha)) (not_prefix_of_head_ne ?_)
          rintro rfl
          have hlt : a.toNat < 128 := ha
          rw [ascii_toNat_ofNat ha] at hge
          omega

/-! ## Replacing broken sequences -/

/-- A continuation byte: `0x80` to `0xBF`. -/
def isContinuation (b : UInt8) : Bool := 0x80 ≤ b && b ≤ 0xBF

/-- The second byte a three- or four-byte sequence may go on with. -/
def secondByteOk (b₀ b₁ : UInt8) : Bool :=
  if b₀ = 0xE0 then 0xA0 ≤ b₁ && b₁ ≤ 0xBF
  else if b₀ = 0xED then 0x80 ≤ b₁ && b₁ ≤ 0x9F
  else if 0xE1 ≤ b₀ && b₀ ≤ 0xEF then isContinuation b₁
  else if b₀ = 0xF0 then 0x90 ≤ b₁ && b₁ ≤ 0xBF
  else if 0xF1 ≤ b₀ && b₀ ≤ 0xF3 then isContinuation b₁
  else if b₀ = 0xF4 then 0x80 ≤ b₁ && b₁ ≤ 0x8F
  else false

/-- How many bytes after the first belong to the longest start of a character that
    the broken sequence begins with. -/
def brokenTail : List UInt8 → Nat
  | b₀ :: b₁ :: rest =>
    if secondByteOk b₀ b₁ then
      match rest with
      | b₂ :: _ => if 0xF0 ≤ b₀ && isContinuation b₂ then 2 else 1
      | [] => 1
    else 0
  | _ => 0

/-- One replacement character for each broken sequence. -/
def replacing : Policy Char where
  char := fun c => [c]
  broken := fun l => (['\uFFFD'], brokenTail l)

theorem replacing_asciiSafe : replacing.AsciiSafe id where
  char_ascii := fun _ _ => rfl
  unit_inj := fun _ _ _ _ h => h
  char_other := fun c hc => ⟨c, [], rfl, fun a ha h => hc (h ▸ ha)⟩
  broken_other := fun _ _ _ => ⟨'\uFFFD', [], rfl, fun a ha h => by
    subst h
    exact absurd ha (by decide)⟩

/-- The text of a byte sequence, every broken sequence replaced. -/
def lossy (l : List UInt8) : List Char := decode replacing l

@[simp] theorem lossy_encode (cs : List Char) : lossy (encode cs) = cs := by
  rw [lossy, decode_encode]
  exact List.flatMap_singleton' cs

theorem lossy_prefix_iff {w : List Char} (hw : ∀ c ∈ w, Ascii c) (l : List UInt8) :
    w <+: lossy l ↔ encode w <+: l := by
  simpa [lossy] using decode_prefix_iff replacing_asciiSafe hw l

/-! ## What replacing loses -/

theorem lossy_encodeChar (c : Char) (t : List UInt8) :
    lossy (String.utf8EncodeChar c ++ t) = c :: lossy t :=
  decode_char replacing c t

theorem lossy_broken {b : UInt8} {bs : List UInt8} (h : next? (b :: bs) = none) :
    lossy (b :: bs) = '\uFFFD' :: lossy (bs.drop (brokenTail (b :: bs))) :=
  decode_broken replacing h

theorem encodeChar_head_lt (c : Char) :
    ∃ b bs, String.utf8EncodeChar c = b :: bs ∧ b.toNat < 0xF8 := by
  have hmax : c.val.toNat < 0x110000 := by
    cases c.valid with
    | inl h => omega
    | inr h => omega
  simp only [String.utf8EncodeChar]
  split
  · exact ⟨_, _, rfl, by rw [UInt8.toNat_ofNat']; omega⟩
  · split
    · exact ⟨_, _, rfl, by rw [UInt8.toNat_ofNat']; omega⟩
    · split
      · exact ⟨_, _, rfl, by rw [UInt8.toNat_ofNat']; omega⟩
      · exact ⟨_, _, rfl, by rw [UInt8.toNat_ofNat']; omega⟩

/-- No character starts with a byte from `0xF8` on. -/
theorem next?_of_le {b : UInt8} (h : 0xF8 ≤ b.toNat) (bs : List UInt8) : next? (b :: bs) = none := by
  rw [Option.eq_none_iff_forall_ne_some]
  intro c hc
  obtain ⟨t, ht⟩ := next?_eq_some_iff.mp hc
  obtain ⟨b', bs', hbytes, hlt⟩ := encodeChar_head_lt c
  rw [hbytes, List.cons_append, List.cons.injEq] at ht
  rw [ht.1] at h
  omega

/-- The two bytes that are never part of a character, whatever is around them. -/
theorem lossy_stray {b : UInt8} (h : b = 0xFE ∨ b = 0xFF) (t : List UInt8) :
    lossy (b :: t) = '\uFFFD' :: lossy t := by
  have hnext : next? (b :: t) = none := by
    cases h with
    | inl h => exact next?_of_le (h ▸ by decide) t
    | inr h => exact next?_of_le (h ▸ by decide) t
  have htail : brokenTail (b :: t) = 0 := by
    cases t with
    | nil => rfl
    | cons b₁ rest =>
      have hsecond : secondByteOk b b₁ = false := by
        cases h with
        | inl h => subst h; rfl
        | inr h => subst h; rfl
      simp only [brokenTail, hsecond, Bool.false_eq_true, if_false]
  rw [lossy_broken hnext, htail, List.drop_zero]

/-- Induction along the decoding loop: a character, or bytes that start none. -/
@[elab_as_elim]
theorem decodeInduction {P : List UInt8 → Prop} (nil : P [])
    (char : ∀ c t, P t → P (String.utf8EncodeChar c ++ t))
    (broken : ∀ b bs, next? (b :: bs) = none → (∀ n, P (bs.drop n)) → P (b :: bs))
    (l : List UInt8) : P l := by
  induction hn : l.length using Nat.strongRecOn generalizing l with
  | ind n ih =>
    cases l with
    | nil => exact nil
    | cons b bs =>
      rw [List.length_cons] at hn
      cases hnext : next? (b :: bs) with
      | none => exact broken b bs hnext fun m => ih _ (by rw [List.length_drop]; omega) _ rfl
      | some c =>
        obtain ⟨t, ht⟩ := next?_eq_some_iff.mp hnext
        have hlen := congrArg List.length ht
        rw [List.length_append, String.length_utf8EncodeChar, List.length_cons] at hlen
        have hpos := c.utf8Size_pos
        rw [ht]
        exact char c t (ih _ (by omega) t rfl)

/-- What is decoded without a replacement is what was encoded. -/
theorem encode_lossy {l : List UInt8} (h : '\uFFFD' ∉ lossy l) : encode (lossy l) = l := by
  induction l using decodeInduction with
  | nil => rfl
  | char c t ih =>
    rw [lossy_encodeChar] at h ⊢
    rw [encode_cons, ih fun hmem => h (List.mem_cons_of_mem c hmem)]
  | broken b bs hnext ih =>
    rw [lossy_broken hnext] at h
    exact absurd List.mem_cons_self h

/-- The first byte of a replaced sequence can be exchanged for a stray one. -/
theorem exists_ne_of_replaced_head {b : UInt8} {bs t : List UInt8}
    (hlossy : lossy (b :: bs) = '\uFFFD' :: lossy t) (hlen : t.length ≤ bs.length) :
    ∃ l', l' ≠ b :: bs ∧ l'.length ≤ (b :: bs).length ∧ lossy l' = lossy (b :: bs) := by
  by_cases hb : b = 0xFF
  · refine ⟨0xFE :: t, ?_, Nat.succ_le_succ hlen, ?_⟩
    · intro heq
      rw [hb] at heq
      cases heq
    · rw [lossy_stray (.inl rfl), hlossy]
  · refine ⟨0xFF :: t, ?_, Nat.succ_le_succ hlen, ?_⟩
    · intro heq
      exact hb (List.cons.inj heq).1.symm
    · rw [lossy_stray (.inr rfl), hlossy]

/-- A text with a replacement character in it has other bytes, and no more of them. -/
theorem exists_ne_of_replaced {l : List UInt8} (h : '\uFFFD' ∈ lossy l) :
    ∃ l', l' ≠ l ∧ l'.length ≤ l.length ∧ lossy l' = lossy l := by
  induction l using decodeInduction with
  | nil => cases h
  | char c t ih =>
    by_cases hc : c = '\uFFFD'
    · have hlossy : lossy (String.utf8EncodeChar c ++ t) = '\uFFFD' :: lossy t := by
        rw [lossy_encodeChar, hc]
      have hlen : (String.utf8EncodeChar c ++ t).length = c.utf8Size + t.length := by
        rw [List.length_append, String.length_utf8EncodeChar]
      have hpos := c.utf8Size_pos
      cases hl : String.utf8EncodeChar c ++ t with
      | nil =>
        rw [hl, List.length_nil] at hlen
        omega
      | cons b bs =>
        rw [hl] at hlossy hlen
        rw [List.length_cons] at hlen
        exact exists_ne_of_replaced_head hlossy (by omega)
    · rw [lossy_encodeChar, List.mem_cons] at h
      obtain ⟨t', hne, hle, hsame⟩ := ih (h.resolve_left (Ne.symm hc))
      refine ⟨String.utf8EncodeChar c ++ t', ?_, ?_, ?_⟩
      · exact fun heq => hne (List.append_cancel_left heq)
      · rw [List.length_append, List.length_append]
        exact Nat.add_le_add_left hle _
      · rw [lossy_encodeChar, lossy_encodeChar, hsame]
  | broken b bs hnext ih =>
    exact exists_ne_of_replaced_head (lossy_broken hnext) (by rw [List.length_drop]; omega)

end Utf8
