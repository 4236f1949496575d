-- SUMMARY: The requests the connection handler takes, against the decoder, and the responses it owes them.
import EnvProxy.Agent.Server
import EnvProxy.Agent.Vault
import EnvProxy.Proto.Frames

/-!
# Requests and responses

The handler reads a request field by field from the stream. It takes what the decoder
accepts, as long as the version is one of the two it knows; an unknown version is
answered after the header. Every request is answered, unless the answer does not fit
into a response.
-/

namespace EnvProxy

/-! ## Complete requests -/

/-- What a byte string asks for, if it starts with a complete request. -/
inductive Requests : Bytes → Incoming → Prop where
  | v1 {key frame t : Bytes} :
      encodeRequest key = some frame → Requests (frame ++ t) (.request key none)
  | v2 {key value frame t : Bytes} :
      encodeRequestV2 key value = some frame → Requests (frame ++ t) (.request key (some value))
  | unsupported {version hi lo : UInt8} {t : Bytes} :
      version ≠ protocolV1 ∧ version ≠ protocolV2 →
      Requests (version :: hi :: lo :: t) (.unsupported version)

/-- A read field is one the stream starts with. -/
theorem readExact_field {s s' : Chunked UInt8} {hi lo : UInt8} {field : Bytes}
    (h : s.readExact (fromBeBytes hi lo) = .ok (field, s')) :
    s.data = field ++ s'.data ∧ [hi, lo] = toBeBytes field.length ∧ field.length ≤ 65535 := by
  obtain ⟨hlen, hdata, -⟩ := Chunked.readExact_ok h
  refine ⟨hdata, ?_, ?_⟩
  · rw [hlen, toBeBytes_fromBeBytes]
  · rw [hlen]
    exact fromBeBytes_le hi lo

theorem bind_eq_ok {α β : Type} {x : Except Ending α} {f : α → Except Ending β} {r : β}
    (h : x >>= f = .ok r) : ∃ a, x = .ok a ∧ f a = .ok r := by
  cases x with
  | error e => cases h
  | ok a => exact ⟨a, rfl, h⟩

/-- What the handler takes off the stream: a header, a key and, for v2, a value behind a
    header of its own. -/
theorem readRequest_cases {s : Chunked UInt8} {incoming : Incoming}
    (h : readRequest s = .ok incoming) :
    (∃ version hi lo t, s.data = version :: hi :: lo :: t ∧
      (version ≠ protocolV1 ∧ version ≠ protocolV2) ∧ incoming = .unsupported version) ∨
    ∃ (version : UInt8) (key t : Bytes), s.data = version :: (toBeBytes key.length ++ key ++ t) ∧
      key.length ≤ 65535 ∧
      (version = protocolV1 ∧ incoming = .request key none ∨
        version = protocolV2 ∧ ∃ (value t' : Bytes), t = toBeBytes value.length ++ value ++ t' ∧
          value.length ≤ 65535 ∧ incoming = .request key (some value)) := by
  obtain ⟨⟨header, s₁⟩, hheader, h⟩ := bind_eq_ok h
  obtain ⟨hlen, hdata, -⟩ := Chunked.readExact_ok hheader
  obtain ⟨version, hi, lo, rfl⟩ := List.length_eq_three.mp hlen
  simp only [List.getD_cons_zero, List.getD_cons_succ] at h
  split at h
  · next hversion => exact .inl ⟨version, hi, lo, s₁.data, hdata, hversion, (Except.ok.inj h).symm⟩
  · next hversion =>
    obtain ⟨⟨key, s₂⟩, hkey, h⟩ := bind_eq_ok h
    obtain ⟨hdata₁, hbytes, hshort⟩ := readExact_field hkey
    refine .inr ⟨version, key, s₂.data, ?_, hshort, ?_⟩
    · rw [hdata, hdata₁, ← hbytes]
      rfl
    simp only at h
    split at h
    · next hv2 =>
      obtain ⟨⟨vheader, s₃⟩, hvheader, h⟩ := bind_eq_ok h
      obtain ⟨hvlen, hdata₂, -⟩ := Chunked.readExact_ok hvheader
      obtain ⟨vhi, vlo, rfl⟩ := List.length_eq_two.mp hvlen
      obtain ⟨⟨value, s₄⟩, hvalue, h⟩ := bind_eq_ok h
      obtain ⟨hdata₃, hvbytes, hvshort⟩ := readExact_field hvalue
      refine .inr ⟨hv2, value, s₄.data, ?_, hvshort, (Except.ok.inj h).symm⟩
      rw [hdata₂, hdata₃, ← hvbytes]
      rfl
    · next hv2 =>
      have hv1 : version = protocolV1 := by
        by_contra hne
        exact hversion ⟨hne, hv2⟩
      exact .inl ⟨hv1, (Except.ok.inj h).symm⟩

/-- The handler reads what the stream asks for. -/
theorem readRequest_iff {s : Chunked UInt8} {incoming : Incoming} :
    readRequest s = .ok incoming ↔ Requests s.data incoming := by
  constructor
  · intro h
    obtain ⟨version, hi, lo, t, hdata, hversion, rfl⟩ | ⟨version, key, t, hdata, hshort, hrest⟩ :=
      readRequest_cases h
    · rw [hdata]
      exact .unsupported hversion
    obtain ⟨rfl, rfl⟩ | ⟨rfl, value, t, rfl, hvshort, rfl⟩ := hrest
    · rw [hdata]
      exact .v1 ((encodeRequest_eq key).trans (if_pos hshort))
    · have hstart : s.data = protocolV2 :: (toBeBytes key.length ++ key ++
          (toBeBytes value.length ++ value)) ++ t := by
        rw [hdata]
        simp only [List.cons_append, List.append_assoc]
      rw [hstart]
      exact .v2 ((encodeRequestV2_eq key value).trans (if_pos ⟨hshort, hvshort⟩))
  · intro h
    generalize hd : s.data = d at h
    cases h with
    | v1 hframe => exact readRequest_v1 hframe hd
    | v2 hframe => exact readRequest_v2 hframe hd
    | unsupported hversion => exact readRequest_unsupported hversion hd

theorem bind_eq_error {α β : Type} {x : Except Ending α} {f : α → Except Ending β} {e : Ending}
    (h : x >>= f = .error e) : x = .error e ∨ ∃ a, x = .ok a ∧ f a = .error e := by
  cases x with
  | error e' => cases h; exact .inl rfl
  | ok a => exact .inr ⟨a, rfl, h⟩

/-- A handler that gets no request has met the end of the stream. -/
theorem readRequest_error {s : Chunked UInt8} {e : Ending} (h : readRequest s = .error e) :
    e = s.ending := by
  rcases bind_eq_error h with hheader | ⟨⟨header, s₁⟩, hheader, h⟩
  · exact (Chunked.readExact_error hheader).2
  have hend₁ := (Chunked.readExact_ok hheader).2.2
  simp only at h
  split at h
  · cases h
  rcases bind_eq_error h with hkey | ⟨⟨key, s₂⟩, hkey, h⟩
  · exact (Chunked.readExact_error hkey).2.trans hend₁
  have hend₂ := (Chunked.readExact_ok hkey).2.2.trans hend₁
  simp only at h
  split at h
  · rcases bind_eq_error h with hvheader | ⟨⟨vheader, s₃⟩, hvheader, h⟩
    · exact (Chunked.readExact_error hvheader).2.trans hend₂
    have hend₃ := (Chunked.readExact_ok hvheader).2.2.trans hend₂
    rcases bind_eq_error h with hvalue | ⟨_, -, h⟩
    · exact (Chunked.readExact_error hvalue).2.trans hend₃
    · cases h
  · cases h

/-- What follows a complete request does not change it. -/
theorem Requests.append {d : Bytes} {incoming : Incoming} (h : Requests d incoming) (t : Bytes) :
    Requests (d ++ t) incoming := by
  cases h with
  | v1 hframe => rw [List.append_assoc]; exact .v1 hframe
  | v2 hframe => rw [List.append_assoc]; exact .v2 hframe
  | unsupported hversion => exact .unsupported hversion

/-- A handler that waits for more, or has met the end, has not got a request. -/
theorem not_requests_of_error {s : Chunked UInt8} {e : Ending} (h : readRequest s = .error e)
    (incoming : Incoming) : ¬ Requests s.data incoming := by
  intro hrequests
  have hread := readRequest_iff.mpr hrequests
  rw [h] at hread
  cases hread

/-! ## The handler and the decoder -/

/-- The versions the handler serves. -/
def Supported (version : UInt8) : Prop := version = protocolV1 ∨ version = protocolV2

/-- A complete request of a supported version is one the decoder accepts. -/
theorem requests_iff_decode {d key : Bytes} {value : Option Bytes} :
    Requests d (.request key value) ↔
      ∃ req, decodeRequest d = .ok req ∧ req.key = key ∧
        ((req.version = protocolV1 ∧ value = none) ∨
          (req.version = protocolV2 ∧ value = some (req.value.getD []))) := by
  constructor
  · intro h
    cases h with
    | v1 hframe =>
      exact ⟨_, (requestFrame_v1 hframe).framed.1 _, rfl, .inl ⟨rfl, rfl⟩⟩
    | v2 hframe =>
      exact ⟨_, (requestFrame_v2 hframe).framed.1 _, rfl, .inr ⟨rfl, by rw [getD_of_isEmpty]⟩⟩
  · rintro ⟨req, hdecode, rfl, hversion⟩
    obtain ⟨frame, t, ⟨hencode, -, hnone⟩, rfl⟩ := (decodeRequest_delimits req d).mp hdecode
    cases hversion with
    | inl hv1 =>
      obtain ⟨hversion, rfl⟩ := hv1
      rw [hversion, hnone hversion] at hencode
      exact .v1 hencode
    | inr hv2 =>
      obtain ⟨hversion, rfl⟩ := hv2
      rw [hversion] at hencode
      exact .v2 hencode

/-- The calls the handler makes for what a client sends. -/
def callsMade (B : Backend Id) (stream : Chunked UInt8) : List Call :=
  ((handleConnection B.logged stream).run []).2

/-- The call a decoded request is for. -/
def DecodedRequest.call (req : DecodedRequest) : Call :=
  match req.value with
  | some value =>
    if vaultPrefix.isPrefixOf (Utf8.lossy value) then
      .resolveWithValue (Utf8.lossy req.key) (Utf8.lossy value)
    else .resolve (Utf8.lossy req.key)
  | none => .resolve (Utf8.lossy req.key)

theorem callsMade_request (B : Backend Id) {s : Chunked UInt8} {key : Bytes} {value : Option Bytes}
    (h : readRequest s = .ok (.request key value)) :
    callsMade B s = [selectCall (Utf8.lossy key) value] := by
  rw [callsMade, handleConnection_request _ h, StateT.run_bind, Backend.logged_answer]
  rfl

/-- Without a request there is no call. -/
theorem callsMade_none (B : Backend Id) {s : Chunked UInt8}
    (h : ∀ key value, readRequest s ≠ .ok (.request key value)) : callsMade B s = [] := by
  cases hread : readRequest s with
  | error e => simp only [callsMade, handleConnection, hread]; rfl
  | ok incoming =>
    cases incoming with
    | unsupported version => simp only [callsMade, handleConnection, hread]; rfl
    | request key value => exact absurd hread (h key value)

/-- The request the decoder accepts selects the call of the request. -/
theorem DecodedRequest.selectCall_eq {d : Bytes} {req : DecodedRequest}
    (h : decodeRequest d = .ok req) :
    selectCall (Utf8.lossy req.key) (some (req.value.getD [])) = req.call := by
  obtain ⟨frame, t, ⟨-, hne, -⟩, rfl⟩ := (decodeRequest_delimits req d).mp h
  obtain ⟨version, key, value⟩ := req
  match value, hne with
  | none, _ => rfl
  | some (b :: bs), _ => rfl
  | some [], hne => exact absurd rfl hne

theorem callsMade_decoded (B : Backend Id) {s : Chunked UInt8} {req : DecodedRequest}
    (h : decodeRequest s.data = .ok req) (hversion : Supported req.version) :
    callsMade B s = [req.call] := by
  cases hversion with
  | inl hv1 =>
    have hread := readRequest_iff.mpr (requests_iff_decode.mpr ⟨req, h, rfl, .inl ⟨hv1, rfl⟩⟩)
    obtain ⟨frame, t, ⟨-, -, hnone⟩, -⟩ := (decodeRequest_delimits req s.data).mp h
    rw [callsMade_request B hread, DecodedRequest.call, hnone hv1]
    rfl
  | inr hv2 =>
    have hread := readRequest_iff.mpr (requests_iff_decode.mpr ⟨req, h, rfl, .inr ⟨hv2, rfl⟩⟩)
    rw [callsMade_request B hread, DecodedRequest.selectCall_eq h]

/-- The handler makes a call for exactly the byte strings the decoder accepts in a
    supported version: one call, the one the decoded request is for. -/
theorem handler_calls_decoded (B : Backend Id) (s : Chunked UInt8) :
    (callsMade B s ≠ [] ↔ ∃ req, decodeRequest s.data = .ok req ∧ Supported req.version) ∧
      ∀ req, decodeRequest s.data = .ok req → Supported req.version →
        callsMade B s = [req.call] := by
  refine ⟨⟨fun hcalls => ?_, ?_⟩, fun req h hversion => callsMade_decoded B h hversion⟩
  · by_contra hnone
    refine hcalls (callsMade_none B fun key value hread => hnone ?_)
    obtain ⟨req, hdecode, -, hversion⟩ := requests_iff_decode.mp (readRequest_iff.mp hread)
    exact ⟨req, hdecode, hversion.imp And.left And.left⟩
  · rintro ⟨req, hdecode, hversion⟩
    rw [callsMade_decoded B hdecode hversion]
    exact List.cons_ne_nil _ _

/-- A frame of version 3 in the layout of version 2 is decoded, and makes no call. -/
theorem decoder_takes_more :
    ¬ ∀ (B : Backend Id) (s : Chunked UInt8), s.ending = .closed →
      (callsMade B s ≠ [] ↔ ∃ req, decodeRequest s.data = .ok req) := by
  intro h
  have hiff := h (.ofResolve fun _ => .ok none) (.whole [3, 0, 0, 0, 0] .closed) rfl
  have hdecode : decodeRequest (Chunked.whole [3, 0, 0, 0, 0] .closed).data =
      .ok { version := 3, key := [], value := none } := by
    decide
  exact hiff.mpr ⟨_, hdecode⟩ rfl

/-! ## Responses -/

/-- The status and the bytes that answer a result. -/
def ResolveResult.status : ResolveResult → Status
  | .ok (some _) => .found
  | .ok none     => .notFound
  | .error _     => .error

def ResolveResult.text : ResolveResult → Bytes
  | .ok (some value) => Utf8.encode value
  | .ok none         => []
  | .error e         => Utf8.encode e.toStr

theorem respond_eq (r : ResolveResult) : respond r = encodeResponse r.status r.text := by
  match r with
  | .ok (some _) | .ok none | .error _ => rfl

/-- The response a complete request is owed. -/
def Incoming.owed (B : Backend Id) : Incoming → DecodedResponse
  | .unsupported version => { status := .error, value := Utf8.encode (unsupportedVersion version) }
  | .request key value =>
    let r := B.answer (selectCall (Utf8.lossy key) value)
    { status := r.status, value := r.text }

theorem handleConnection_written (B : Backend Id) {s : Chunked UInt8} {incoming : Incoming}
    (h : readRequest s = .ok incoming) :
    (handleConnection B s).written =
      (encodeResponse (incoming.owed B).status (incoming.owed B).value).getD [] := by
  cases incoming with
  | unsupported version =>
    simp only [handleConnection, h]
    rfl
  | request key value =>
    rw [handleConnection_request B h]
    simp only [Incoming.owed, ← respond_eq]
    rfl

/-- What is written is one frame, and the decoder finds the response in it. -/
def Answers (written : Bytes) (response : DecodedResponse) : Prop :=
  encodeResponse response.status response.value = some written ∧
    decodeResponse written = .ok response

theorem answers_getD_iff {response : DecodedResponse} :
    Answers ((encodeResponse response.status response.value).getD []) response ↔
      response.value.length ≤ maxValueLen := by
  constructor
  · intro h
    exact (encodeResponse_eq_some_iff.mp h.1).1
  · intro h
    have hframe : encodeResponse response.status response.value = _ :=
      encodeResponse_eq_some_iff.mpr ⟨h, rfl⟩
    rw [hframe]
    exact ⟨hframe, decodeResponse_delimits.decode_word hframe⟩

theorem length_encode_le (cs : Str) : (Utf8.encode cs).length ≤ 4 * cs.length := by
  induction cs with
  | nil => exact Nat.le_refl 0
  | cons c cs ih =>
    have hsize := c.utf8Size_le_four
    rw [Utf8.encode_cons, List.length_append, String.length_utf8EncodeChar, List.length_cons]
    omega

/-- The answer to an unsupported version is short. -/
theorem unsupportedVersion_fits (version : UInt8) :
    (Utf8.encode (unsupportedVersion version)).length ≤ maxValueLen := by
  have hdigits : (Text.decimal version.toNat).length ≤ 3 :=
    (Nat.length_toDigits_le_iff (by decide) (by decide)).mpr (by have := version.toNat_lt; omega)
  have htext : (Utf8.encode "unsupported protocol version: ".toList).length = 30 := by decide
  unfold unsupportedVersion
  generalize Text.decimal version.toNat = digits at hdigits
  have hlen := length_encode_le digits
  rw [Utf8.encode_append, List.length_append, htext, maxValueLen]
  omega

/-- A complete request is answered, with the status and the text of the result, exactly
    if the text fits into a response. A request of an unsupported version always is. -/
theorem request_answered_iff (B : Backend Id) (s : Chunked UInt8) (incoming : Incoming)
    (h : Requests s.data incoming) :
    Answers (handleConnection B s).written (incoming.owed B) ↔
      ∀ key value, incoming = .request key value →
        (B.answer (selectCall (Utf8.lossy key) value)).text.length ≤ 65535 := by
  rw [handleConnection_written B (readRequest_iff.mpr h), answers_getD_iff]
  cases incoming with
  | unsupported version => simp [Incoming.owed, unsupportedVersion_fits]
  | request key value =>
    constructor
    · rintro hfits key' value' ⟨⟩
      exact hfits
    · intro hfits
      exact hfits key value rfl

theorem request_answered_not_found :
    Answers (handleConnection (Backend.ofResolve fun _ => .ok none : Backend Id)
        (.whole [1, 0, 1, 65] .closed)).written { status := .notFound, value := [] } := by
  have hframe : encodeRequest [65] = some [1, 0, 1, 65] := by decide
  have hrequest : Requests (Chunked.whole [1, 0, 1, 65] .closed).data (.request [65] none) :=
    .v1 hframe
  refine (request_answered_iff (.ofResolve fun _ => .ok none) _ _ hrequest).mpr ?_
  rintro key value ⟨⟩
  decide

/-! ## An answer that does not fit -/

/-- A reference without a key. -/
def brokenReference (n : Nat) : Str := vaultPrefix ++ List.replicate n 'x'

theorem parse_brokenReference (n : Nat) : parseVaultRef (brokenReference n) = none := by
  have hhash : '#' ∉ List.replicate n 'x' := fun h => absurd (List.eq_of_mem_replicate h) (by decide)
  simp only [parseVaultRef, brokenReference, Text.stripPrefix_append, Text.splitFirst_eq_none hhash]

theorem length_brokenReference (n : Nat) : (Utf8.encode (brokenReference n)).length = 6 + n := by
  have hx : (Utf8.encode (List.replicate n 'x')).length = n := by
    induction n with
    | zero => rfl
    | succ n ih =>
      rw [List.replicate_succ, Utf8.encode_cons, List.length_append, ih]
      exact Nat.add_comm 1 n
  have hprefix : (Utf8.encode vaultPrefix).length = 6 := by decide
  rw [brokenReference, Utf8.encode_append, List.length_append, hx, hprefix]

theorem vault_brokenReference (n : Nat) : vaultPrefix <+: brokenReference n :=
  List.prefix_append _ _

theorem resolve_brokenReference (n ttl : Nat) (read : Vault.Reader) (now later : Nat)
    (cache : Vault.Cache) :
    (Vault.resolveWithValue ttl read now later (brokenReference n) cache).1 =
      some (.error (Vault.invalidReference (brokenReference n))) := by
  simp only [Vault.resolveWithValue, parse_brokenReference]

/-- The backend quotes the reference behind a text of its own. -/
theorem length_invalidReference (value : Str) :
    (Utf8.encode (Vault.invalidReference value).toStr).length = 38 + (Utf8.encode value).length := by
  have htext : (Vault.invalidReference value).toStr =
      "parse error: ".toList ++ ("invalid vault reference: ".toList ++ value) := rfl
  have hparse : (Utf8.encode "parse error: ".toList).length = 13 := by decide
  have hinvalid : (Utf8.encode "invalid vault reference: ".toList).length = 25 := by decide
  rw [htext, Utf8.encode_append, Utf8.encode_append, List.length_append, List.length_append, hparse,
    hinvalid]
  omega

/-- A reference that cannot be parsed and fills the request is not answered. -/
theorem unanswered_of_broken {reference : Str} (hlen : (Utf8.encode reference).length = 65535)
    (hvault : vaultPrefix <+: reference) :
    ∃ s : Chunked UInt8, Requests s.data (.request [65] (some (Utf8.encode reference))) ∧
      ∀ B : Backend Id, B.resolveWithValue ['A'] reference = .error (Vault.invalidReference reference) →
        (handleConnection B s).written = [] := by
  obtain ⟨frame, hframe⟩ : ∃ frame, encodeRequestV2 [65] (Utf8.encode reference) = some frame :=
    ⟨_, (encodeRequestV2_eq _ _).trans (if_pos ⟨by decide, Nat.le_of_eq hlen⟩)⟩
  have hrequest : Requests (Chunked.whole frame .closed).data
      (.request [65] (some (Utf8.encode reference))) := by
    rw [Chunked.whole_data, ← List.append_nil frame]
    exact .v2 hframe
  refine ⟨.whole frame .closed, hrequest, fun B hB => ?_⟩
  have hanswer : B.answer (selectCall (Utf8.lossy [65]) (some (Utf8.encode reference))) =
      .error (Vault.invalidReference reference) := by
    rw [selectCall_vault hvault]
    exact hB
  have htext : ¬ (Utf8.encode (Vault.invalidReference reference).toStr).length ≤ maxValueLen := by
    rw [length_invalidReference, hlen]
    decide
  rw [handleConnection_written B (readRequest_iff.mpr hrequest), Incoming.owed, hanswer]
  simp only [ResolveResult.status, ResolveResult.text, encodeResponse_eq, if_neg htext, Option.getD_none]

/-- The Vault backend quotes the reference in its error, which is too long then: the
    connection is closed without a response. -/
theorem request_unanswered :
    ∃ (s : Chunked UInt8) (reference : Str),
      Requests s.data (.request [65] (some (Utf8.encode reference))) ∧
      (∀ ttl read now later cache, (Vault.resolveWithValue ttl read now later reference cache).1 =
        some (.error (Vault.invalidReference reference))) ∧
      ∀ B : Backend Id, B.resolveWithValue ['A'] reference = .error (Vault.invalidReference reference) →
        ∀ response, ¬ Answers (handleConnection B s).written response := by
  obtain ⟨s, hrequest, hwritten⟩ :=
    unanswered_of_broken (length_brokenReference 65529) (vault_brokenReference 65529)
  refine ⟨s, _, hrequest, resolve_brokenReference 65529, fun B hB response h => ?_⟩
  rw [hwritten B hB] at h
  obtain ⟨-, hempty⟩ := encodeResponse_eq_some_iff.mp h.1
  cases hempty

end EnvProxy
