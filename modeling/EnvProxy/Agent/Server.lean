-- SUMMARY: The agent's connection handler: reading one request, choosing the backend call, writing the response.
import EnvProxy.Library.Stream
import EnvProxy.Library.Text
import EnvProxy.Agent.Backend

/-!
# Server

`handleConnection` reads one request from the client's byte stream, makes at most
one backend call and writes at most one response. `readRequest`, `selectCall` and
`respond` are its three parts.
-/

namespace EnvProxy

/-- What the handler has read before it resolves anything. -/
inductive Incoming where
  | unsupported (version : UInt8)
  | request (key : Bytes) (value : Option Bytes)
  deriving DecidableEq, Repr

/-- Read the header, the key and, for v2, the value. -/
def readRequest (stream : Chunked UInt8) : Except Ending Incoming := do
  let (header, stream) ← stream.readExact 3
  let version := header.getD 0 0
  if version ≠ protocolV1 ∧ version ≠ protocolV2 then
    .ok (.unsupported version)
  else do
    let (key, stream) ← stream.readExact (fromBeBytes (header.getD 1 0) (header.getD 2 0))
    if version = protocolV2 then do
      let (valHeader, stream) ← stream.readExact 2
      let (value, _) ← stream.readExact (fromBeBytes (valHeader.getD 0 0) (valHeader.getD 1 0))
      .ok (.request key (some value))
    else
      .ok (.request key none)

/-- Determine which resolve method to call. -/
def selectCall (key : Str) (value : Option Bytes) : Call :=
  match value with
  | some val =>
    if val.isEmpty then .resolve key
    else
      let valStr := Utf8.lossy val
      if vaultPrefix.isPrefixOf valStr then .resolveWithValue key valStr else .resolve key
  | none => .resolve key

/-- The response for a resolve result, if it can be encoded. -/
def respond : ResolveResult → Option Bytes
  | .ok (some value) => encodeResponse .found (Utf8.encode value)
  | .ok none         => encodeResponse .notFound []
  | .error e         => encodeResponse .error (Utf8.encode e.toStr)

def unsupportedVersion (version : UInt8) : Str :=
  "unsupported protocol version: ".toList ++ Text.decimal version.toNat

/-- What a handled connection leaves behind: the bytes written to the client before
    it is closed, and the result of the handler. -/
structure Handled where
  written : Bytes
  result : Except Ending Unit
  deriving Repr

def handleConnection {m : Type → Type} [Monad m] (backend : Backend m)
    (stream : Chunked UInt8) : m Handled :=
  match readRequest stream with
  | .error e => pure { written := [], result := .error e }
  | .ok (.unsupported version) =>
    let response := encodeResponse .error (Utf8.encode (unsupportedVersion version))
    pure { written := response.getD [], result := .ok () }
  | .ok (.request key value) => do
    let r ← backend.answer (selectCall (Utf8.lossy key) value)
    pure { written := (respond r).getD [], result := .ok () }

/-! ## Reading what a client sends -/

theorem readRequest_v1 {stream : Chunked UInt8} {key frame t : Bytes}
    (h : encodeRequest key = some frame) (hdata : stream.data = frame ++ t) :
    readRequest stream = .ok (.request key none) := by
  rw [encodeRequest_eq] at h
  split at h
  · next hlen =>
    cases h
    obtain ⟨s₁, hread₁, hdata₁, -⟩ :=
      Chunked.readExact_append (a := protocolV1 :: toBeBytes key.length) (b := key ++ t)
        (by rw [hdata]; simp)
    obtain ⟨s₂, hread₂, -, -⟩ := Chunked.readExact_append hdata₁
    have hread₁' : stream.readExact 3 = .ok (protocolV1 :: toBeBytes key.length, s₁) := hread₁
    simp [readRequest, hread₁', hread₂, toBeBytes, protocolV1, protocolV2, bind, Except.bind,
      fromBeBytes_toBeBytes (show key.length ≤ 65535 from hlen)]
  · cases h

theorem readRequest_v2 {stream : Chunked UInt8} {key value frame t : Bytes}
    (h : encodeRequestV2 key value = some frame) (hdata : stream.data = frame ++ t) :
    readRequest stream = .ok (.request key (some value)) := by
  rw [encodeRequestV2_eq] at h
  split at h
  · next hlen =>
    cases h
    obtain ⟨s₁, hread₁, hdata₁, -⟩ :=
      Chunked.readExact_append (a := protocolV2 :: toBeBytes key.length)
        (b := key ++ (toBeBytes value.length ++ (value ++ t))) (by rw [hdata]; simp)
    obtain ⟨s₂, hread₂, hdata₂, -⟩ := Chunked.readExact_append hdata₁
    obtain ⟨s₃, hread₃, hdata₃, -⟩ := Chunked.readExact_append hdata₂
    obtain ⟨s₄, hread₄, -, -⟩ := Chunked.readExact_append hdata₃
    have hread₁' : stream.readExact 3 = .ok (protocolV2 :: toBeBytes key.length, s₁) := hread₁
    have hread₃' : s₂.readExact 2 = .ok (toBeBytes value.length, s₃) := hread₃
    simp [readRequest, hread₁', hread₂, hread₃', hread₄, toBeBytes, protocolV1, protocolV2, bind,
      Except.bind, fromBeBytes_toBeBytes (show key.length ≤ 65535 from hlen.1),
      fromBeBytes_toBeBytes (show value.length ≤ 65535 from hlen.2)]
  · cases h

theorem readRequest_unsupported {stream : Chunked UInt8} {version hi lo : UInt8} {t : Bytes}
    (h : version ≠ protocolV1 ∧ version ≠ protocolV2) (hdata : stream.data = version :: hi :: lo :: t) :
    readRequest stream = .ok (.unsupported version) := by
  obtain ⟨s₁, hread₁, -, -⟩ := Chunked.readExact_append (a := [version, hi, lo]) hdata
  have hread₁' : stream.readExact 3 = .ok ([version, hi, lo], s₁) := hread₁
  simp [readRequest, hread₁', h, bind, Except.bind]

theorem selectCall_vault {key val : Str} (h : vaultPrefix <+: val) :
    selectCall key (some (Utf8.encode val)) = .resolveWithValue key val := by
  have hne : (Utf8.encode val).isEmpty = false := by
    obtain ⟨t, rfl⟩ := h
    rfl
  simp [selectCall, hne, List.isPrefixOf_iff_prefix.mpr h]

/-- A request that was read completely makes exactly the selected call, and the
    connection carries the response to its result. -/
theorem handleConnection_request {m : Type → Type} [Monad m] (backend : Backend m)
    {stream : Chunked UInt8} {key : Bytes} {value : Option Bytes}
    (h : readRequest stream = .ok (.request key value)) :
    handleConnection backend stream =
      backend.answer (selectCall (Utf8.lossy key) value) >>= fun r =>
        pure { written := (respond r).getD [], result := .ok () } := by
  simp only [handleConnection, h]

end EnvProxy
