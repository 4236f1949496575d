-- SUMMARY: The frames of the wire protocol as a self-delimiting code, in both directions.
import EnvProxy.Library.PrefixCode
import EnvProxy.Proto.Wire

/-!
# Frames

What the two decoders accept, said once: a buffer that starts with the frame the
encoder builds for the decoded fields. `decodeRequest` takes any version, and reads
every version but the first in the layout of the second.
-/

namespace EnvProxy

/-! ## Fields -/

theorem fromBeBytes_le (hi lo : UInt8) : fromBeBytes hi lo ≤ 65535 := by
  have hhi := hi.toNat_lt
  have hlo := lo.toNat_lt
  simp only [fromBeBytes]
  omega

/-- Every two bytes are the bytes of the length they say. -/
theorem toBeBytes_fromBeBytes (hi lo : UInt8) : toBeBytes (fromBeBytes hi lo) = [hi, lo] := by
  have hhi := hi.toNat_lt
  have hlo := lo.toNat_lt
  simp only [toBeBytes, fromBeBytes, List.cons.injEq, and_true]
  constructor
  · apply UInt8.toNat_inj.mp
    rw [UInt8.toNat_ofNat']
    omega
  · apply UInt8.toNat_inj.mp
    rw [UInt8.toNat_ofNat']
    omega

/-- A length and at least as many bytes are a field and what follows it. -/
theorem exists_field {hi lo : UInt8} {rest : Bytes} (h : ¬ rest.length < fromBeBytes hi lo) :
    ∃ field t, rest = field ++ t ∧ fromBeBytes hi lo = field.length ∧
      [hi, lo] = toBeBytes field.length ∧ field.length ≤ 65535 := by
  have hlen : (rest.take (fromBeBytes hi lo)).length = fromBeBytes hi lo := by
    rw [List.length_take]
    omega
  refine ⟨rest.take (fromBeBytes hi lo), rest.drop (fromBeBytes hi lo),
    (List.take_append_drop _ rest).symm, hlen.symm, ?_, ?_⟩
  · rw [hlen, toBeBytes_fromBeBytes]
  · rw [hlen]
    exact fromBeBytes_le hi lo

/-! ## Requests -/

theorem encodeRequestVersioned_eq_some_iff {version : UInt8} {key value frame : Bytes} :
    encodeRequestVersioned version key value = some frame ↔ key.length ≤ maxKeyLen ∧
      ((version = protocolV1 ∧ frame = version :: (toBeBytes key.length ++ key)) ∨
        (version ≠ protocolV1 ∧ value.length ≤ maxValueLen ∧
          frame = version :: (toBeBytes key.length ++ (key ++ (toBeBytes value.length ++ value))))) := by
  unfold encodeRequestVersioned
  split
  · next hlong => simp [Nat.not_le.mpr hlong]
  · next hshort =>
    simp only [Nat.le_of_not_lt hshort, true_and]
    split
    · next hversion => simp [hversion, eq_comm]
    · next hversion =>
      split
      · next hlong => simp [hversion, Nat.not_le.mpr hlong]
      · next hshort' => simp [hversion, Nat.le_of_not_lt hshort', eq_comm]

/-- The frame of a decoded request. A decoded value is never empty, and the first
    version has none. -/
def RequestFrame (r : DecodedRequest) (frame : Bytes) : Prop :=
  encodeRequestVersioned r.version r.key (r.value.getD []) = some frame ∧
    r.value ≠ some [] ∧ (r.version = protocolV1 → r.value = none)

/-- How a decoded request holds the value of a frame. -/
theorem getD_of_isEmpty (value : Bytes) :
    (if value.isEmpty then none else some value).getD [] = value := by
  cases value <;> rfl

/-- What decodes starts with the frame of what it decodes to. -/
theorem exists_requestFrame {r : DecodedRequest} {d : Bytes} (h : decodeRequest d = .ok r) :
    ∃ frame t, RequestFrame r frame ∧ d = frame ++ t := by
  match d, h with
  | version :: hi :: lo :: rest, h =>
    simp only [decodeRequest] at h
    split at h
    · cases h
    · next hkey =>
      obtain ⟨key, t, rfl, hlen, hbytes, hshort⟩ := exists_field hkey
      rw [hlen, List.take_left, List.drop_left] at h
      split at h
      · next hversion =>
        cases h
        refine ⟨version :: (toBeBytes key.length ++ key), t,
          ⟨?_, (fun he => by cases he), fun _ => rfl⟩, ?_⟩
        · exact encodeRequestVersioned_eq_some_iff.mpr ⟨hshort, .inl ⟨hversion, rfl⟩⟩
        · rw [← hbytes]
          rfl
      · next hversion =>
        split at h
        · next vhi vlo vrest =>
          split at h
          · cases h
          · next hvalue =>
            obtain ⟨value, t, rfl, hvlen, hvbytes, hvshort⟩ := exists_field hvalue
            rw [hvlen, List.take_left] at h
            cases h
            refine ⟨version :: (toBeBytes key.length ++ (key ++ (toBeBytes value.length ++ value))), t,
              ⟨?_, ?_, fun h => absurd h hversion⟩, ?_⟩
            · rw [getD_of_isEmpty]
              exact encodeRequestVersioned_eq_some_iff.mpr ⟨hshort, .inr ⟨hversion, hvshort, rfl⟩⟩
            · cases value <;> simp
            · rw [← hbytes, ← hvbytes]
              simp
        · cases h

/-- A frame decodes with anything behind it. -/
theorem RequestFrame.decode_append {r : DecodedRequest} {frame : Bytes} (h : RequestFrame r frame)
    (t : Bytes) : decodeRequest (frame ++ t) = .ok r := by
  obtain ⟨hencode, hne, hnone⟩ := h
  obtain ⟨version, key, value⟩ := r
  obtain ⟨hshort, ⟨hversion, rfl⟩ | ⟨hversion, hvshort, rfl⟩⟩ :=
    encodeRequestVersioned_eq_some_iff.mp hencode
  · obtain rfl := hnone hversion
    simp only [toBeBytes, List.cons_append, List.nil_append, decodeRequest,
      fromBeBytes_toBeBytes (show key.length ≤ 65535 from hshort)]
    rw [if_neg (by simp), if_pos hversion, List.take_left]
  · simp only [toBeBytes, List.cons_append, List.nil_append, List.append_assoc, decodeRequest,
      fromBeBytes_toBeBytes (show key.length ≤ 65535 from hshort)]
    rw [if_neg (by simp), if_neg hversion, List.take_left, List.drop_left]
    simp only [fromBeBytes_toBeBytes (show (value.getD []).length ≤ 65535 from hvshort)]
    rw [if_neg (by simp), List.take_left]
    cases value with
    | none => rfl
    | some value =>
      cases value with
      | nil => exact absurd rfl hne
      | cons b bs => rfl

theorem decodeRequest_delimits : Delimits RequestFrame decodeRequest := by
  intro r d
  constructor
  · exact exists_requestFrame
  · rintro ⟨frame, t, hframe, rfl⟩
    exact hframe.decode_append t

theorem RequestFrame.unique {r : DecodedRequest} {f g : Bytes} (hf : RequestFrame r f)
    (hg : RequestFrame r g) : f = g :=
  Option.some.inj (hf.1.symm.trans hg.1)

theorem decodeRequest_error {d : Bytes} {e : DecodeError} (h : decodeRequest d = .error e) :
    e = .incomplete := by
  match d, h with
  | [], h | [_], h | [_, _], h => exact (Except.error.inj h).symm
  | version :: hi :: lo :: rest, h =>
    simp only [decodeRequest] at h
    split at h
    · exact (Except.error.inj h).symm
    · split at h
      · cases h
      · split at h
        · split at h
          · exact (Except.error.inj h).symm
          · cases h
        · exact (Except.error.inj h).symm

/-! ## Responses -/

def ResponseFrame (r : DecodedResponse) (frame : Bytes) : Prop :=
  encodeResponse r.status r.value = some frame

theorem encodeResponse_eq_some_iff {status : Status} {value frame : Bytes} :
    encodeResponse status value = some frame ↔
      value.length ≤ maxValueLen ∧ frame = status.toByte :: (toBeBytes value.length ++ value) := by
  rw [encodeResponse_eq]
  split
  · next h => simp [h, eq_comm]
  · next h => simp [h]

theorem Status.toByte_of_fromByte {b : UInt8} {status : Status} (h : Status.fromByte b = some status) :
    status.toByte = b := by
  unfold Status.fromByte at h
  split at h
  · next hb => cases h; exact hb.symm
  · split at h
    · next hb => cases h; exact hb.symm
    · split at h
      · next hb => cases h; exact hb.symm
      · split at h
        · next hb => cases h; exact hb.symm
        · cases h

theorem decodeResponse_delimits : Delimits ResponseFrame decodeResponse := by
  intro r d
  constructor
  · intro h
    match d, h with
    | b :: hi :: lo :: rest, h =>
      simp only [decodeResponse] at h
      split at h
      · cases h
      · next status hstatus =>
        split at h
        · cases h
        · next hvalue =>
          obtain ⟨value, t, rfl, hlen, hbytes, hshort⟩ := exists_field hvalue
          rw [hlen, List.take_left] at h
          cases h
          refine ⟨b :: (toBeBytes value.length ++ value), t, ?_, ?_⟩
          · rw [← Status.toByte_of_fromByte hstatus]
            exact encodeResponse_eq_some_iff.mpr ⟨hshort, rfl⟩
          · rw [← hbytes]
            rfl
  · rintro ⟨frame, t, hframe, rfl⟩
    exact decodeResponse_encode hframe t

theorem ResponseFrame.unique {r : DecodedResponse} {f g : Bytes} (hf : ResponseFrame r f)
    (hg : ResponseFrame r g) : f = g :=
  Option.some.inj (hf.symm.trans hg)

/-- A buffer is refused because it is short or because of its status byte. -/
theorem decodeResponse_error {d : Bytes} {e : DecodeError} (h : decodeResponse d = .error e) :
    e = .incomplete ∨ ∃ b rest, d = b :: rest ∧ Status.fromByte b = none := by
  match d, h with
  | [], h | [_], h | [_, _], h => exact .inl (Except.error.inj h).symm
  | b :: hi :: lo :: rest, h =>
    simp only [decodeResponse] at h
    split at h
    · next hstatus => exact .inr ⟨b, _, rfl, hstatus⟩
    · split at h
      · exact .inl (Except.error.inj h).symm
      · cases h

/-! ## The format -/

/-- The frame decodes to `r` whatever follows it, and what stops short of its end is
    incomplete. -/
def Framed {α : Type} (decode : Bytes → Except DecodeError α) (frame : Bytes) (r : α) : Prop :=
  (∀ s, decode (frame ++ s) = .ok r) ∧
    ∀ p, p <+: frame → p ≠ frame → decode p = .error .incomplete

theorem RequestFrame.framed {r : DecodedRequest} {frame : Bytes} (h : RequestFrame r frame) :
    Framed decodeRequest frame r := by
  refine ⟨decodeRequest_delimits.decode_append h, fun p hpre hne => ?_⟩
  cases hp : decodeRequest p with
  | ok r' => exact absurd hp (decodeRequest_delimits.not_ok_of_prefix RequestFrame.unique h hpre hne)
  | error e => rw [decodeRequest_error hp]

theorem ResponseFrame.framed {r : DecodedResponse} {frame : Bytes} (h : ResponseFrame r frame) :
    Framed decodeResponse frame r := by
  refine ⟨decodeResponse_delimits.decode_append h, fun p hpre hne => ?_⟩
  cases hp : decodeResponse p with
  | ok r' => exact absurd hp (decodeResponse_delimits.not_ok_of_prefix ResponseFrame.unique h hpre hne)
  | error e =>
    obtain rfl | ⟨b, rest, rfl, hstatus⟩ := decodeResponse_error hp
    · rfl
    · -- The first byte of a frame is the byte of a status.
      obtain ⟨-, rfl⟩ := encodeResponse_eq_some_iff.mp h
      obtain ⟨rfl, -⟩ := List.cons_prefix_cons.mp hpre
      rw [Status.fromByte_toByte] at hstatus
      cases hstatus

theorem requestFrame_v1 {key frame : Bytes} (h : encodeRequest key = some frame) :
    RequestFrame { version := protocolV1, key, value := none } frame :=
  ⟨h, nofun, fun _ => rfl⟩

theorem requestFrame_v2 {key value frame : Bytes} (h : encodeRequestV2 key value = some frame) :
    RequestFrame
      { version := protocolV2, key, value := if value.isEmpty then none else some value } frame := by
  refine ⟨?_, ?_, fun hversion => absurd hversion (show protocolV2 ≠ protocolV1 by decide)⟩
  · rw [getD_of_isEmpty]
    exact h
  · cases value <;> simp

/-- The format is an exact code: the encoders fail for parts that are too long and for
    nothing else, every frame is read back, and every accepted buffer starts with the
    frame of what was read. -/
theorem wire_format_exact :
    ((∀ key, encodeRequest key = none ↔ 65535 < key.length) ∧
      (∀ key value, encodeRequestV2 key value = none ↔ 65535 < key.length ∨ 65535 < value.length) ∧
      ∀ status value, encodeResponse status value = none ↔ 65535 < value.length) ∧
    ((∀ key frame, encodeRequest key = some frame →
        Framed decodeRequest frame { version := protocolV1, key, value := none }) ∧
      (∀ key value frame, encodeRequestV2 key value = some frame →
        Framed decodeRequest frame
          { version := protocolV2, key, value := if value = [] then none else some value }) ∧
      ∀ status value frame, encodeResponse status value = some frame →
        Framed decodeResponse frame { status, value }) ∧
    (∀ buf r, decodeRequest buf = .ok r →
      (r.version = protocolV1 →
        r.value = none ∧ ∃ frame, encodeRequest r.key = some frame ∧ frame <+: buf) ∧
      (r.version = protocolV2 →
        ∃ frame, encodeRequestV2 r.key (r.value.getD []) = some frame ∧ frame <+: buf)) ∧
    ∀ buf r, decodeResponse buf = .ok r →
      ∃ frame, encodeResponse r.status r.value = some frame ∧ frame <+: buf := by
  refine ⟨⟨fun key => ?_, fun key value => ?_, fun status value => ?_⟩,
    ⟨fun key frame h => (requestFrame_v1 h).framed, fun key value frame h => ?_,
      fun status value frame h => ResponseFrame.framed h⟩, fun buf r h => ?_, fun buf r h => ?_⟩
  · rw [encodeRequest_eq]
    split <;> simp_all [maxKeyLen]
  · rw [encodeRequestV2_eq]
    split
    · next hle => simp only [reduceCtorEq, false_iff, not_or, Nat.not_lt]; exact hle
    · next hgt => simp only [true_iff]; simp only [maxKeyLen, maxValueLen] at hgt; omega
  · rw [encodeResponse_eq]
    split <;> simp_all [maxValueLen]
  · simpa using (requestFrame_v2 h).framed
  · obtain ⟨frame, t, ⟨hencode, -, hnone⟩, rfl⟩ := (decodeRequest_delimits r buf).mp h
    constructor
    · intro hversion
      have hvalue := hnone hversion
      rw [hversion, hvalue] at hencode
      exact ⟨hvalue, frame, hencode, List.prefix_append frame t⟩
    · intro hversion
      rw [hversion] at hencode
      exact ⟨frame, hencode, List.prefix_append frame t⟩
  · obtain ⟨frame, t, hencode, rfl⟩ := (decodeResponse_delimits r buf).mp h
    exact ⟨frame, hencode, List.prefix_append frame t⟩

end EnvProxy
