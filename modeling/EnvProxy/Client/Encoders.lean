-- SUMMARY: The requests the managed clients put on the socket, against the frames of the protocol.
import EnvProxy.Client.Python
import EnvProxy.Client.Java
import EnvProxy.Proto.Frames

/-!
# Request encoders

Python checks the lengths of the key and of the value, Java checks the length of the
key and casts the length of the value to a `short`. A reference of 2^16 bytes or more
leaves the JVM in a frame of its first bytes.
-/

namespace EnvProxy

/-! ## Texts in the managed clients -/

theorem PyStr.encode_ofStr (s : Str) : PyStr.encode (.ofStr s) = some (Utf8.encode s) := by
  induction s with
  | nil => rfl
  | cons c cs ih =>
    change PyStr.encode (point c :: ofStr cs) = some (Utf8.encode (c :: cs))
    rw [PyStr.encode, encodePoint_point, ih]
    rfl

/-- A string that starts with a text is encoded to bytes that start with its bytes. -/
theorem PyStr.encode_prefix {w : Str} {s : PyStr} {b : Bytes} (h : ofStr w <+: s)
    (hs : s.encode = some b) : Utf8.encode w <+: b := by
  induction w generalizing s b with
  | nil => exact List.nil_prefix
  | cons c cs ih =>
    obtain ⟨rest, rfl⟩ := h
    change PyStr.encode (point c :: (ofStr cs ++ rest)) = some b at hs
    rw [PyStr.encode, encodePoint_point] at hs
    cases hrest : PyStr.encode (ofStr cs ++ rest) with
    | none =>
      rw [hrest] at hs
      cases hs
    | some bs =>
      rw [hrest] at hs
      cases hs
      rw [Utf8.encode_cons]
      exact (List.prefix_append_right_inj _).mpr (ih (List.prefix_append _ _) hrest)

namespace JStr

theorem ofStr_cons (c : Char) (cs : Str) : ofStr (c :: cs) = units c ++ ofStr cs := List.flatMap_cons

theorem ofStr_append (s t : Str) : ofStr (s ++ t) = ofStr s ++ ofStr t := List.flatMap_append

theorem isHigh_iff {u : UInt16} : isHigh u = true ↔ 0xD800 ≤ u.toNat ∧ u.toNat ≤ 0xDBFF := by
  simp [isHigh, UInt16.le_iff_toNat_le]

theorem isLow_iff {u : UInt16} : isLow u = true ↔ 0xDC00 ≤ u.toNat ∧ u.toNat ≤ 0xDFFF := by
  simp [isLow, UInt16.le_iff_toNat_le]

theorem toNat_lt_surrogates {c : Char} : c.toNat < 0xD800 ∨ (0xDFFF < c.toNat ∧ c.toNat < 0x110000) :=
  c.valid

/-- A character of the basic plane is one unit, and no surrogate. -/
theorem getBytes_unit {c : Char} (h : c.toNat < 0x10000) (t : JStr) :
    getBytes (unit c :: t) = String.utf8EncodeChar c ++ getBytes t := by
  have hvalid := @toNat_lt_surrogates c
  have hnat := unit_toNat h
  have hhigh : isHigh (unit c) = false := by
    rw [Bool.eq_false_iff, Ne, isHigh_iff, hnat]
    omega
  have hlow : isLow (unit c) = false := by
    rw [Bool.eq_false_iff, Ne, isLow_iff, hnat]
    omega
  cases t with
  | nil => simp [getBytes, hhigh, hlow, hnat]
  | cons v rest => simp [getBytes, hhigh, hlow, hnat]

/-- Every other character is a surrogate pair. -/
theorem getBytes_pair {c : Char} (h : ¬ c.toNat < 0x10000) (t : JStr) :
    getBytes (units c ++ t) = String.utf8EncodeChar c ++ getBytes t := by
  have hvalid := @toNat_lt_surrogates c
  have hhi : (UInt16.ofNat (0xD800 + (c.toNat - 0x10000) / 0x400)).toNat =
      0xD800 + (c.toNat - 0x10000) / 0x400 := by
    rw [UInt16.toNat_ofNat']
    omega
  have hlo : (UInt16.ofNat (0xDC00 + (c.toNat - 0x10000) % 0x400)).toNat =
      0xDC00 + (c.toNat - 0x10000) % 0x400 := by
    rw [UInt16.toNat_ofNat']
    omega
  have hhigh : isHigh (UInt16.ofNat (0xD800 + (c.toNat - 0x10000) / 0x400)) = true := by
    rw [isHigh_iff, hhi]
    omega
  have hlow : isLow (UInt16.ofNat (0xDC00 + (c.toNat - 0x10000) % 0x400)) = true := by
    rw [isLow_iff, hlo]
    omega
  have hpair : pair (UInt16.ofNat (0xD800 + (c.toNat - 0x10000) / 0x400))
      (UInt16.ofNat (0xDC00 + (c.toNat - 0x10000) % 0x400)) = c := by
    have hcode : 0x10000 + (0xD800 + (c.toNat - 0x10000) / 0x400 - 0xD800) * 0x400 +
        (0xDC00 + (c.toNat - 0x10000) % 0x400 - 0xDC00) = c.toNat := by
      omega
    rw [pair, hhi, hlo, hcode, Char.ofNat_toNat]
  rw [units, if_neg h]
  simp only [List.cons_append, List.nil_append, getBytes, hhigh, hlow, hpair, Bool.and_self, if_true]

theorem getBytes_ofStr (s : Str) : getBytes (ofStr s) = Utf8.encode s := by
  induction s with
  | nil => rfl
  | cons c cs ih =>
    rw [ofStr_cons, Utf8.encode_cons, ← ih]
    by_cases h : c.toNat < 0x10000
    · have hunits : units c = [unit c] := if_pos h
      rw [hunits]
      exact getBytes_unit h (ofStr cs)
    · exact getBytes_pair h (ofStr cs)

theorem startsWith_ofStr {w s : Str} (h : w <+: s) : (ofStr s).startsWith w = true := by
  obtain ⟨t, rfl⟩ := h
  rw [startsWith, List.isPrefixOf_iff_prefix, ofStr_append]
  exact List.prefix_append _ _

end JStr

/-! ## What is sent -/

/-- The frame the protocol has for a lookup, if it has one. -/
def protocolRequest (key : Str) : Option Str → Option Bytes
  | some value => encodeRequestV2 (Utf8.encode key) (Utf8.encode value)
  | none => encodeRequest (Utf8.encode key)

/-- The frames a query puts on the socket. -/
def Python.sent {Time : Type} (o : Oracle Time) (key sockPath : PyStr) (current : Option PyStr) :
    List Bytes :=
  (Recorded.exec (Python.queryAgent o.world key sockPath current) .start).2.requests.map Request.frame

def Java.sent (o : Oracle Int64) (self : EnvProxyMap) (key : JStr) (current : Option JStr) :
    List Bytes :=
  (Recorded.exec (Java.queryAgent o.world self key current) .start).2.requests.map Request.frame

theorem Python.encode_ofStr (key : Str) (value : Option Str) :
    encode (.ofStr key) (value.map .ofStr) = .ok (protocolRequest key value) := by
  cases value with
  | none =>
    simp only [encode, PyStr.encode_ofStr, Option.map_none, protocolRequest, encodeRequest_eq]
    split
    · next h =>
      have hlong : ¬ (Utf8.encode key).length ≤ maxKeyLen := Nat.not_le.mpr h
      rw [if_neg hlong]
    · next h =>
      have hshort : (Utf8.encode key).length ≤ maxKeyLen := Nat.le_of_not_lt h
      rw [if_pos hshort]
      rfl
  | some value =>
    simp only [encode, PyStr.encode_ofStr, Option.map_some, protocolRequest, encodeRequestV2_eq]
    split
    · next h => rw [if_neg fun hle => Nat.not_le.mpr h hle.1]
    · next h =>
      split
      · next h' => rw [if_neg fun hle => Nat.not_le.mpr h' hle.2]
      · next h' =>
        rw [if_pos ⟨Nat.le_of_not_lt h, Nat.le_of_not_lt h'⟩]
        simp [protocolFrame]

/-- Python sends the frame of the protocol. -/
theorem Python.sent_eq {Time : Type} (o : Oracle Time) {sockPath : PyStr} {path : Bytes}
    (hpath : sockPath.encode = some path) (key : Str) (value : Option Str) :
    sent o (.ofStr key) sockPath (value.map .ofStr) = (protocolRequest key value).toList := by
  simp only [sent, queryAgent, encode_ofStr]
  cases protocolRequest key value with
  | none => rfl
  | some frame => simp [hpath, Trace.start]

/-- The frame Java builds for a key that is not too long. -/
def Java.frame (key : Str) : Option Str → Bytes
  | some value => protocolV2 :: (toBeBytes (Utf8.encode key).length ++ Utf8.encode key ++
      (toBeBytes (Utf8.encode value).length ++ Utf8.encode value))
  | none => protocolV1 :: (toBeBytes (Utf8.encode key).length ++ Utf8.encode key)

theorem Java.sent_eq (o : Oracle Int64) (self : EnvProxyMap) (key : Str) {value : Option Str}
    (hvalue : ∀ v, value = some v → vaultPrefix <+: v) :
    sent o self (.ofStr key) (value.map .ofStr) =
      if (Utf8.encode key).length > maxKeyLen then [] else [frame key value] := by
  have hencode : encode (.ofStr key) (value.map .ofStr) =
      if (Utf8.encode key).length > maxKeyLen then none else some (frame key value) := by
    cases value with
    | none => simp [encode, JStr.getBytes_ofStr, frame, maxKeyLen]
    | some v =>
      simp [encode, JStr.getBytes_ofStr, frame, maxKeyLen, Option.filter,
        JStr.startsWith_ofStr (hvalue v rfl)]
  simp only [sent, queryAgent, hencode]
  by_cases hlong : (Utf8.encode key).length > maxKeyLen
  · rw [if_pos hlong, if_pos hlong]
    rfl
  · rw [if_neg hlong, if_neg hlong]
    rfl

/-- It is the frame of the protocol, as long as the value fits. -/
theorem Java.frame_eq {key : Str} {value : Option Str} (hkey : (Utf8.encode key).length ≤ maxKeyLen) :
    protocolRequest key value = some (frame key value) ↔
      ∀ v, value = some v → (Utf8.encode v).length ≤ maxValueLen := by
  cases value with
  | none => simp [protocolRequest, encodeRequest_eq, hkey, frame]
  | some v => simp [protocolRequest, encodeRequestV2_eq, hkey, frame]

/-- A lookup sends the frame of the protocol from both clients. -/
def EncodersAgree {Time : Type} (python : Oracle Time) (java : Oracle Int64) (sockPath : PyStr)
    (self : Java.EnvProxyMap) (key : Str) (value : Option Str) : Prop :=
  Python.sent python (.ofStr key) sockPath (value.map .ofStr) = (protocolRequest key value).toList ∧
    Java.sent java self (.ofStr key) (value.map .ofStr) = (protocolRequest key value).toList

/-- The encoders agree on every lookup but those with a key that fits and a reference
    that does not. -/
theorem encoders_agree_iff {Time : Type} (python : Oracle Time) (java : Oracle Int64)
    {sockPath : PyStr} {path : Bytes} (hpath : sockPath.encode = some path) (self : Java.EnvProxyMap)
    (key : Str) (value : Option Str) (hvalue : ∀ v, value = some v → vaultPrefix <+: v) :
    EncodersAgree python java sockPath self key value ↔
      ((Utf8.encode key).length ≤ 65535 →
        ∀ v, value = some v → (Utf8.encode v).length ≤ 65535) := by
  rw [EncodersAgree, Python.sent_eq python hpath, Java.sent_eq java self key hvalue]
  simp only [true_and]
  split
  · next hlong =>
    have hnone : protocolRequest key value = none := by
      cases value with
      | none => rw [protocolRequest, encodeRequest_eq, if_neg (Nat.not_le.mpr hlong)]
      | some v => rw [protocolRequest, encodeRequestV2_eq, if_neg fun h => Nat.not_le.mpr hlong h.1]
    rw [hnone]
    exact iff_of_true rfl fun hshort => absurd hshort (Nat.not_le.mpr hlong)
  · next hshort =>
    have hkey : (Utf8.encode key).length ≤ 65535 := Nat.le_of_not_lt hshort
    rw [forall_prop_of_true hkey]
    refine Iff.trans ?_ (Java.frame_eq hkey)
    constructor
    · intro h
      cases hframe : protocolRequest key value with
      | none => rw [hframe] at h; cases h
      | some frame => rw [hframe] at h; cases h; rfl
    · intro h
      rw [h]
      rfl

/-! ## Truncated references -/

theorem toBeBytes_mod (n : Nat) : toBeBytes n = toBeBytes (n % 65536) := by
  have hhi : UInt8.ofNat (n / 256) = UInt8.ofNat (n % 65536 / 256) := by
    apply UInt8.toNat_inj.mp
    rw [UInt8.toNat_ofNat', UInt8.toNat_ofNat']
    omega
  have hlo : UInt8.ofNat n = UInt8.ofNat (n % 65536) := by
    apply UInt8.toNat_inj.mp
    rw [UInt8.toNat_ofNat', UInt8.toNat_ofNat']
    omega
  rw [toBeBytes, toBeBytes, hhi, hlo]

/-- The agent reads the first bytes of a reference that does not fit, as many as the
    cast length says. -/
theorem Java.decode_frame (key : Str) (value first : Bytes) (v : Str)
    (hkey : (Utf8.encode key).length ≤ maxKeyLen) (hv : Utf8.encode v = first ++ value)
    (hfirst : first.length = (Utf8.encode v).length % 65536) :
    decodeRequest (frame key (some v)) =
      .ok { version := protocolV2, key := Utf8.encode key,
            value := if first.isEmpty then none else some first } := by
  have hlen : first.length ≤ maxValueLen := by
    have := Nat.mod_lt (Utf8.encode v).length (by decide : 0 < 65536)
    simp only [maxValueLen]
    omega
  have hencode : encodeRequestV2 (Utf8.encode key) first =
      some (protocolV2 :: (toBeBytes (Utf8.encode key).length ++ Utf8.encode key ++
        (toBeBytes first.length ++ first))) := by
    rw [encodeRequestV2_eq, if_pos ⟨hkey, hlen⟩]
  have hframe : frame key (some v) = protocolV2 :: (toBeBytes (Utf8.encode key).length ++
      Utf8.encode key ++ (toBeBytes first.length ++ first)) ++ value := by
    rw [frame, toBeBytes_mod (Utf8.encode v).length, ← hfirst, hv]
    simp
  rw [hframe]
  exact (requestFrame_v2 hencode).framed.1 value

/-- A reference, and text to bring it past 2^16 bytes. -/
def shortReference : Str := "vault:m/p#k".toList

def longReference : Str := shortReference ++ List.replicate 65536 'x'

theorem encode_replicate (n : Nat) : Utf8.encode (List.replicate n 'x') = List.replicate n 120 := by
  induction n with
  | zero => rfl
  | succ n ih => rw [List.replicate_succ, Utf8.encode_cons, ih]; rfl

theorem encode_longReference :
    Utf8.encode longReference = Utf8.encode shortReference ++ List.replicate 65536 120 := by
  rw [longReference, Utf8.encode_append, encode_replicate]

theorem length_longReference : (Utf8.encode longReference).length = 65547 := by
  have hshort : (Utf8.encode shortReference).length = 11 := by decide
  rw [encode_longReference, List.length_append, List.length_replicate, hshort]

/-- The clients of a process with the socket at the root. -/
def rootMap : Java.EnvProxyMap where
  original := []
  socketPath := .ofStr "/s".toList
  cacheTtlMs := 30000
  cache := fun _ => none

theorem encoders_agree_short :
    EncodersAgree (.always .refused ()) (.always .refused 0) (.ofStr "/s".toList) rootMap ['A']
      (some shortReference) := by
  refine (encoders_agree_iff _ _ (PyStr.encode_ofStr _) rootMap ['A'] (some shortReference) ?_).mpr ?_
  · rintro v ⟨⟩
    decide
  · rintro - v ⟨⟩
    decide

/-- Java asks for another reference than the variable holds. -/
theorem encoders_disagree :
    ¬ EncodersAgree (.always .refused ()) (.always .refused 0) (.ofStr "/s".toList) rootMap ['A']
        (some longReference) ∧
      ∃ frame, Java.sent (.always .refused 0) rootMap (.ofStr ['A']) (some (.ofStr longReference)) =
          [frame] ∧
        decodeRequest frame = .ok
          { version := protocolV2, key := Utf8.encode ['A'],
            value := some (Utf8.encode shortReference) } := by
  have hvault : ∀ v, some longReference = some v → vaultPrefix <+: v := by
    rintro v ⟨⟩
    have hshort : vaultPrefix <+: shortReference := by decide
    exact hshort.trans (List.prefix_append _ _)
  have hsent := Java.sent_eq (.always .refused 0) rootMap ['A'] hvault
  rw [if_neg (by decide)] at hsent
  have hdecode := Java.decode_frame ['A'] _ (Utf8.encode shortReference) longReference (by decide)
    encode_longReference (by rw [length_longReference]; decide)
  refine ⟨fun h => ?_, _, hsent, hdecode⟩
  have hnone : protocolRequest ['A'] (some longReference) = none := by
    rw [protocolRequest, encodeRequestV2_eq, length_longReference]
    rfl
  rw [EncodersAgree, hnone] at h
  rw [hsent] at h
  cases h.2

end EnvProxy
