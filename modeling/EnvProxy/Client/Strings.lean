-- SUMMARY: How Python and Java hold text, and how they turn the bytes of the environment and the wire into it and back.
import EnvProxy.Proto.Wire

/-!
# Strings of the managed clients

A Python string is a list of code points, surrogates included; a byte that is not
UTF-8 is kept as a lone surrogate, and written back as the byte. A Java string is a
list of UTF-16 code units; what is not UTF-8 is read as U+FFFD, and what is not
text is written as a question mark.
-/

namespace EnvProxy

/-! ## Python -/

abbrev CodePoint := Fin 0x110000

abbrev PyStr := List CodePoint

namespace PyStr

def point (c : Char) : CodePoint :=
  ⟨c.toNat, by
    have : c.toNat.isValidChar := c.valid
    simp only [Nat.isValidChar] at this
    omega⟩

/-- The string of a text. -/
def ofStr (s : Str) : PyStr := s.map point

/-- The surrogate a byte outside ASCII is kept as. -/
def escaped (b : UInt8) : CodePoint := ⟨0xDC00 + b.toNat, by have := b.toNat_lt; omega⟩

/-- The handler `surrogateescape` of a decoder. -/
def surrogateescape : Utf8.Policy CodePoint where
  char := fun c => [point c]
  broken := fun l => ([escaped (l.headD 0)], 0)

/-- `bytes.decode("utf-8", errors="surrogateescape")`. -/
def decode (b : Bytes) : PyStr := Utf8.decode surrogateescape b

/-- The bytes of one code point, unless it is a surrogate that stands for no byte. -/
def encodePoint (p : CodePoint) : Option Bytes :=
  if h : p.val.isValidChar then some (String.utf8EncodeChar (Char.ofNatAux p.val h))
  else if 0xDC80 ≤ p.val ∧ p.val ≤ 0xDCFF then some [UInt8.ofNat p.val]
  else none

/-- `str.encode("utf-8", errors="surrogateescape")`; `none` is a `UnicodeEncodeError`. -/
def encode : PyStr → Option Bytes
  | [] => some []
  | p :: ps => do
    let b ← encodePoint p
    let bs ← encode ps
    some (b ++ bs)

/-- `str.startswith` for an ASCII word. -/
def startsWith (s : PyStr) (w : Str) : Bool := (ofStr w).isPrefixOf s

theorem point_injective {a b : Char} (h : point a = point b) : a = b :=
  Char.toNat_inj.mp (Fin.mk.inj h)

theorem surrogateescape_asciiSafe : surrogateescape.AsciiSafe point where
  char_ascii := fun _ _ => rfl
  unit_inj := fun _ _ _ _ h => point_injective h
  char_other := fun c hc => ⟨point c, [], rfl, fun a ha h => hc (point_injective h ▸ ha)⟩
  broken_other := fun b bs hb => by
    refine ⟨_, [], rfl, fun a ha h => ?_⟩
    have hval : a.toNat = 0xDC00 + b.toNat := congrArg Fin.val h
    have ha' : a.toNat < 128 := ha
    omega

/-- A decoded string starts with an ASCII word exactly if the bytes do. -/
theorem startsWith_decode {w : Str} (hw : ∀ c ∈ w, Utf8.Ascii c) (b : Bytes) :
    (decode b).startsWith w ↔ Utf8.encode w <+: b := by
  rw [startsWith, List.isPrefixOf_iff_prefix, ofStr, decode,
    Utf8.decode_prefix_iff surrogateescape_asciiSafe hw]

theorem encodePoint_point (c : Char) : encodePoint (point c) = some (String.utf8EncodeChar c) := by
  have h : (point c).val.isValidChar := c.valid
  rw [encodePoint, dif_pos h]
  rfl

theorem encodePoint_escaped {b : UInt8} (h : 128 ≤ b.toNat) : encodePoint (escaped b) = some [b] := by
  have hlt := b.toNat_lt
  have hsurrogate : ¬ (escaped b).val.isValidChar := by
    simp only [escaped, Nat.isValidChar]
    omega
  have hrange : 0xDC80 ≤ (escaped b).val ∧ (escaped b).val ≤ 0xDCFF := by
    simp only [escaped]
    omega
  rw [encodePoint, dif_neg hsurrogate, if_pos hrange]
  simp [escaped]

theorem decode_char (c : Char) (t : Bytes) :
    decode (String.utf8EncodeChar c ++ t) = point c :: decode t :=
  Utf8.decode_char surrogateescape c t

theorem decode_broken {b : UInt8} {bs : Bytes} (h : Utf8.next? (b :: bs) = none) :
    decode (b :: bs) = escaped b :: decode bs :=
  Utf8.decode_broken surrogateescape h

/-- Decoding loses nothing: every byte sequence is written back as it was. -/
theorem encode_decode (b : Bytes) : encode (decode b) = some b := by
  induction hn : b.length using Nat.strongRecOn generalizing b with
  | ind n ih =>
    cases b with
    | nil => rfl
    | cons x xs =>
      cases hnext : Utf8.next? (x :: xs) with
      | some c =>
        obtain ⟨t, ht⟩ := Utf8.next?_eq_some_iff.mp hnext
        have hlt : t.length < n := by
          have hlen := congrArg List.length ht
          have hpos := c.utf8Size_pos
          rw [List.length_append, String.length_utf8EncodeChar] at hlen
          omega
        rw [ht, decode_char, encode, encodePoint_point, ih t.length hlt t rfl]
        rfl
      | none =>
        have hx : 128 ≤ x.toNat := by
          by_contra hlt
          rw [Utf8.next?_ascii (by omega) xs] at hnext
          cases hnext
        have hlt : xs.length < n := by rw [← hn, List.length_cons]; omega
        rw [decode_broken hnext, encode, encodePoint_escaped hx, ih xs.length hlt xs rfl]
        rfl

end PyStr

/-! ## Java -/

abbrev JStr := List UInt16

namespace JStr

/-- The code units of a character: one, or a surrogate pair. -/
def units (c : Char) : List UInt16 :=
  if c.toNat < 0x10000 then [UInt16.ofNat c.toNat]
  else [UInt16.ofNat (0xD800 + (c.toNat - 0x10000) / 0x400),
    UInt16.ofNat (0xDC00 + (c.toNat - 0x10000) % 0x400)]

/-- The string of a text. -/
def ofStr (s : Str) : JStr := s.flatMap units

/-- How many bytes after the first the JDK skips with a broken sequence. It reads an
    encoded surrogate as one broken sequence of up to three bytes. -/
def malformedTail : Bytes → Nat
  | b₀ :: b₁ :: rest =>
    if b₀ = 0xED ∧ 0xA0 ≤ b₁ ∧ b₁ ≤ 0xBF then
      match rest with
      | b₂ :: _ => if Utf8.isContinuation b₂ then 2 else 1
      | [] => 1
    else Utf8.brokenTail (b₀ :: b₁ :: rest)
  | l => Utf8.brokenTail l

def replacing : Utf8.Policy UInt16 where
  char := units
  broken := fun l => ([0xFFFD], malformedTail l)

/-- `new String(bytes, UTF_8)`. -/
def decode (b : Bytes) : JStr := Utf8.decode replacing b

def isHigh (u : UInt16) : Bool := 0xD800 ≤ u && u ≤ 0xDBFF

def isLow (u : UInt16) : Bool := 0xDC00 ≤ u && u ≤ 0xDFFF

/-- The character a surrogate pair stands for. -/
def pair (hi lo : UInt16) : Char :=
  Char.ofNat (0x10000 + (hi.toNat - 0xD800) * 0x400 + (lo.toNat - 0xDC00))

/-- `getBytes(UTF_8)`: a surrogate without its partner becomes a question mark. -/
def getBytes : JStr → Bytes
  | [] => []
  | [u] => if isHigh u || isLow u then [63] else String.utf8EncodeChar (Char.ofNat u.toNat)
  | u :: v :: rest =>
    if isHigh u && isLow v then String.utf8EncodeChar (pair u v) ++ getBytes rest
    else if isHigh u || isLow u then 63 :: getBytes (v :: rest)
    else String.utf8EncodeChar (Char.ofNat u.toNat) ++ getBytes (v :: rest)

/-- `String.startsWith` for an ASCII word. -/
def startsWith (s : JStr) (w : Str) : Bool := (ofStr w).isPrefixOf s

def unit (c : Char) : UInt16 := UInt16.ofNat c.toNat

theorem units_ascii {c : Char} (h : Utf8.Ascii c) : units c = [unit c] := by
  have h' : c.toNat < 128 := h
  rw [units, if_pos (by omega)]
  rfl

theorem unit_toNat {c : Char} (h : c.toNat < 0x10000) : (unit c).toNat = c.toNat := by
  rw [unit, UInt16.toNat_ofNat']
  omega

theorem replacing_asciiSafe : replacing.AsciiSafe unit where
  char_ascii := fun _ hc => units_ascii hc
  unit_inj := fun a c ha hc h => by
    have ha' : a.toNat < 128 := ha
    have hc' : c.toNat < 128 := hc
    have hnat := congrArg UInt16.toNat h
    rw [unit_toNat (by omega), unit_toNat (by omega)] at hnat
    exact Char.toNat_inj.mp hnat
  char_other := fun c hc => by
    have hc' : ¬ c.toNat < 128 := hc
    by_cases hbmp : c.toNat < 0x10000
    · refine ⟨unit c, [], if_pos hbmp, fun a ha h => ?_⟩
      have ha' : a.toNat < 128 := ha
      have hnat := congrArg UInt16.toNat h
      rw [unit_toNat (by omega), unit_toNat hbmp] at hnat
      omega
    · refine ⟨_, _, if_neg hbmp, fun a ha h => ?_⟩
      have ha' : a.toNat < 128 := ha
      have hvalid : c.toNat < 0x110000 := (PyStr.point c).isLt
      have hnat := congrArg UInt16.toNat h
      rw [unit_toNat (by omega), UInt16.toNat_ofNat'] at hnat
      omega
  broken_other := fun b bs _ => by
    refine ⟨0xFFFD, [], rfl, fun a ha h => ?_⟩
    have ha' : a.toNat < 128 := ha
    have hnat := congrArg UInt16.toNat h
    rw [unit_toNat (by omega)] at hnat
    exact absurd hnat (by simp; omega)

/-- A decoded string starts with an ASCII word exactly if the bytes do. -/
theorem startsWith_decode {w : Str} (hw : ∀ c ∈ w, Utf8.Ascii c) (b : Bytes) :
    (decode b).startsWith w ↔ Utf8.encode w <+: b := by
  have hof : ofStr w = w.map unit := by
    rw [ofStr, ← List.flatMap_singleton' (w.map unit), List.flatMap_map]
    exact List.flatMap_congr fun c hc => units_ascii (hw c hc)
  rw [startsWith, List.isPrefixOf_iff_prefix, hof, decode,
    Utf8.decode_prefix_iff replacing_asciiSafe hw]

end JStr

end EnvProxy
