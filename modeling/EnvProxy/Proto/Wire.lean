-- SUMMARY: The wire protocol between the clients and the agent: constants, frames, encoders and decoders.
import EnvProxy.Library.Utf8

/-!
# Wire protocol

```
Request v1:  [version=1] [key_len: 2, BE] [key]
Request v2:  [version=2] [key_len: 2, BE] [key] [val_len: 2, BE] [value]
Response:    [status]    [val_len: 2, BE] [value]
```
-/

namespace EnvProxy

abbrev Bytes := List UInt8

/-- The characters of a Rust `String`. -/
abbrev Str := List Char

def protocolV1 : UInt8 := 1
def protocolV2 : UInt8 := 2
def vaultPrefix : Str := "vault:".toList
def maxKeyLen : Nat := 65535
def maxValueLen : Nat := 65535
def defaultSocketPath : Str := "/tmp/envproxy/agent.sock".toList

theorem vaultPrefix_ascii : ∀ c ∈ vaultPrefix, Utf8.Ascii c := Utf8.ascii_of_all rfl

/-! ## Status -/

inductive Status where
  | found
  | notFound
  | error
  | passthrough
  deriving DecidableEq, Repr

def Status.toByte : Status → UInt8
  | .found       => 0x00
  | .notFound    => 0x01
  | .error       => 0x02
  | .passthrough => 0x03

def Status.fromByte (b : UInt8) : Option Status :=
  if b = 0x00 then some .found
  else if b = 0x01 then some .notFound
  else if b = 0x02 then some .error
  else if b = 0x03 then some .passthrough
  else none

@[simp] theorem Status.fromByte_toByte (s : Status) : fromByte s.toByte = some s := by
  cases s <;> rfl

theorem Status.fromByte_eq_found_iff {b : UInt8} : fromByte b = some .found ↔ b = 0x00 := by
  unfold fromByte
  split
  · next h => simp [h]
  · next h =>
    refine iff_of_false ?_ h
    split
    · simp
    · split
      · simp
      · split <;> simp

/-! ## Lengths -/

/-- `(n as u16).to_be_bytes()`: the cast drops the bits from 2^16 on. -/
def toBeBytes (n : Nat) : Bytes := [UInt8.ofNat (n / 256), UInt8.ofNat n]

/-- `u16::from_be_bytes([hi, lo])`. -/
def fromBeBytes (hi lo : UInt8) : Nat := hi.toNat * 256 + lo.toNat

theorem fromBeBytes_toBeBytes {n : Nat} (h : n ≤ 65535) :
    fromBeBytes (UInt8.ofNat (n / 256)) (UInt8.ofNat n) = n := by
  simp only [fromBeBytes, UInt8.toNat_ofNat']
  omega

/-! ## Encoders -/

def encodeRequestVersioned (version : UInt8) (key value : Bytes) : Option Bytes :=
  if key.length > maxKeyLen then none
  else if version = protocolV1 then
    some ([version] ++ toBeBytes key.length ++ key)
  else if value.length > maxValueLen then none
  else
    some ([version] ++ toBeBytes key.length ++ key ++ toBeBytes value.length ++ value)

/-- Encode a v1 request (key only). -/
def encodeRequest (key : Bytes) : Option Bytes :=
  encodeRequestVersioned protocolV1 key []

/-- Encode a v2 request (key and current value). -/
def encodeRequestV2 (key value : Bytes) : Option Bytes :=
  encodeRequestVersioned protocolV2 key value

def encodeResponse (status : Status) (value : Bytes) : Option Bytes :=
  if value.length > maxValueLen then none
  else some ([status.toByte] ++ toBeBytes value.length ++ value)

theorem encodeRequest_eq (key : Bytes) :
    encodeRequest key =
      if key.length ≤ maxKeyLen then some (protocolV1 :: (toBeBytes key.length ++ key)) else none := by
  unfold encodeRequest encodeRequestVersioned
  split
  · next h => rw [if_neg (by omega)]
  · next h => rw [if_pos rfl, if_pos (by omega)]; rfl

theorem encodeRequestV2_eq (key value : Bytes) :
    encodeRequestV2 key value =
      if key.length ≤ maxKeyLen ∧ value.length ≤ maxValueLen then
        some (protocolV2 :: (toBeBytes key.length ++ key ++ (toBeBytes value.length ++ value)))
      else none := by
  unfold encodeRequestV2 encodeRequestVersioned
  split
  · next h => rw [if_neg (by omega)]
  · next h =>
    rw [if_neg (by decide)]
    split
    · next h' => rw [if_neg (by omega)]
    · next h' => rw [if_pos (by omega)]; simp

theorem encodeResponse_eq (status : Status) (value : Bytes) :
    encodeResponse status value =
      if value.length ≤ maxValueLen then some (status.toByte :: (toBeBytes value.length ++ value))
      else none := by
  simp only [encodeResponse]
  split
  · next h => rw [if_neg (by omega)]
  · next h => rw [if_pos (by omega)]; rfl

/-! ## Decoders -/

structure DecodedRequest where
  version : UInt8
  key : Bytes
  value : Option Bytes
  deriving DecidableEq, Repr

structure DecodedResponse where
  status : Status
  value : Bytes
  deriving DecidableEq, Repr

inductive DecodeError where
  | incomplete
  | invalidStatus (b : UInt8)
  deriving DecidableEq, Repr

def decodeRequest : Bytes → Except DecodeError DecodedRequest
  | version :: hi :: lo :: rest =>
    let keyLen := fromBeBytes hi lo
    if rest.length < keyLen then .error .incomplete
    else
      let key := rest.take keyLen
      if version = protocolV1 then .ok { version, key, value := none }
      else
        match rest.drop keyLen with
        | hi :: lo :: rest =>
          let valLen := fromBeBytes hi lo
          if rest.length < valLen then .error .incomplete
          else
            let value := rest.take valLen
            .ok { version, key, value := if value.isEmpty then none else some value }
        | _ => .error .incomplete
  | _ => .error .incomplete

def decodeResponse : Bytes → Except DecodeError DecodedResponse
  | b :: hi :: lo :: rest =>
    match Status.fromByte b with
    | none => .error (.invalidStatus b)
    | some status =>
      let valLen := fromBeBytes hi lo
      if rest.length < valLen then .error .incomplete
      else .ok { status, value := rest.take valLen }
  | _ => .error .incomplete

/-- A response frame is decoded to what was encoded, whatever follows it. -/
theorem decodeResponse_encode {status : Status} {value frame : Bytes}
    (h : encodeResponse status value = some frame) (t : Bytes) :
    decodeResponse (frame ++ t) = .ok { status, value } := by
  rw [encodeResponse_eq] at h
  split at h
  · next hlen =>
    cases h
    simp only [toBeBytes, List.cons_append, List.nil_append, decodeResponse,
      Status.fromByte_toByte, fromBeBytes_toBeBytes (show value.length ≤ 65535 from hlen)]
    rw [if_neg (by simp), List.take_left]
  · cases h

end EnvProxy
