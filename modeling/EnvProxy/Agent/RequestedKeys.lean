-- SUMMARY: Whether requests for different keys, or with different references, reach the backend as different calls.
import EnvProxy.Agent.Requests

/-!
# Requested keys

Keys and references are bytes on the wire and text in the backend. The handler replaces
what is not UTF-8 in them, so that different bytes can become one text.
`requests_distinct_iff` says which keys and references no others are taken for.
-/

namespace EnvProxy

open Utf8

/-- The key a call is for. -/
def Call.key : Call → Str
  | .resolve key => key
  | .resolveWithValue key _ => key

/-- The reference a call resolves. -/
def Call.reference : Call → Option Str
  | .resolve _ => none
  | .resolveWithValue _ value => some value

/-- The response says that there is no value. -/
def Denied (written : Bytes) : Prop :=
  ∃ response, Answers written response ∧ (response.status = .notFound ∨ response.status = .error)

/-- A request for the key asks the backend for this very key or is answered without a
    value, and a request for another key never makes the same call. -/
structure KeyDistinct (key : Bytes) : Prop where
  exact : ∀ (B : Backend Id) (s : Chunked UInt8) (value : Option Bytes),
    Requests s.data (.request key value) →
      (∀ c ∈ callsMade B s, encode c.key = key) ∨ Denied (handleConnection B s).written
  unshared : ∀ (B B' : Backend Id) (s s' : Chunked UInt8) (value value' : Option Bytes) (key' : Bytes),
    key' ≠ key → Requests s.data (.request key value) → Requests s'.data (.request key' value') →
      ∀ c ∈ callsMade B s, ∀ c' ∈ callsMade B' s', c.key ≠ c'.key

/-- The same of a reference. -/
structure ReferenceDistinct (reference : Bytes) : Prop where
  exact : ∀ (B : Backend Id) (s : Chunked UInt8) (key : Bytes),
    Requests s.data (.request key (some reference)) →
      (∀ c ∈ callsMade B s, c.reference.map encode = some reference) ∨
        Denied (handleConnection B s).written
  unshared : ∀ (B B' : Backend Id) (s s' : Chunked UInt8) (key key' reference' : Bytes),
    reference' ≠ reference → Requests s.data (.request key (some reference)) →
      Requests s'.data (.request key' (some reference')) →
      ∀ c ∈ callsMade B s, ∀ c' ∈ callsMade B' s', c.reference ≠ c'.reference

/-! ## The call of a request -/

theorem selectCall_key (key : Str) (value : Option Bytes) : (selectCall key value).key = key := by
  cases value with
  | none => rfl
  | some val =>
    simp only [selectCall]
    split
    · rfl
    · split <;> rfl

/-- Only a reference is resolved as one. -/
theorem selectCall_reference (key : Str) (val : Bytes) :
    (selectCall key (some val)).reference =
      if encode vaultPrefix <+: val then some (lossy val) else none := by
  have hlossy := lossy_prefix_iff vaultPrefix_ascii val
  simp only [selectCall, List.isEmpty_iff]
  by_cases hvault : encode vaultPrefix <+: val
  · have hne : val ≠ [] := by
      rintro rfl
      exact absurd (List.prefix_nil.mp hvault) (by decide)
    have hstarts : vaultPrefix.isPrefixOf (lossy val) = true :=
      List.isPrefixOf_iff_prefix.mpr (hlossy.mpr hvault)
    rw [if_neg hne, if_pos hstarts, if_pos hvault]
    rfl
  · have hstarts : ¬ vaultPrefix.isPrefixOf (lossy val) = true := fun h =>
      hvault (hlossy.mp (List.isPrefixOf_iff_prefix.mp h))
    rw [if_neg hvault, if_neg hstarts]
    split <;> rfl

theorem call_of_requests {B : Backend Id} {s : Chunked UInt8} {key : Bytes} {value : Option Bytes}
    (h : Requests s.data (.request key value)) {c : Call} (hc : c ∈ callsMade B s) :
    c = selectCall (lossy key) value := by
  rw [callsMade_request B (readRequest_iff.mpr h), List.mem_singleton] at hc
  exact hc

theorem callsMade_requests (B : Backend Id) {s : Chunked UInt8} {key : Bytes} {value : Option Bytes}
    (h : Requests s.data (.request key value)) :
    selectCall (lossy key) value ∈ callsMade B s := by
  rw [callsMade_request B (readRequest_iff.mpr h)]
  exact List.mem_singleton_self _

/-! ## Requests to be made -/

theorem exists_request {key : Bytes} (h : key.length ≤ 65535) :
    ∃ s : Chunked UInt8, Requests s.data (.request key none) := by
  obtain ⟨frame, hframe⟩ : ∃ frame, encodeRequest key = some frame :=
    ⟨_, (encodeRequest_eq key).trans (if_pos h)⟩
  refine ⟨.whole frame .closed, ?_⟩
  rw [Chunked.whole_data, ← List.append_nil frame]
  exact .v1 hframe

theorem exists_request_v2 {reference : Bytes} (h : reference.length ≤ 65535) :
    ∃ s : Chunked UInt8, Requests s.data (.request [] (some reference)) := by
  obtain ⟨frame, hframe⟩ : ∃ frame, encodeRequestV2 [] reference = some frame :=
    ⟨_, (encodeRequestV2_eq [] reference).trans (if_pos ⟨Nat.zero_le _, h⟩)⟩
  refine ⟨.whole frame .closed, ?_⟩
  rw [Chunked.whole_data, ← List.append_nil frame]
  exact .v2 hframe

/-! ## Which are distinct -/

/-- Text without a replacement character in it. -/
def Faithful (bytes : Bytes) : Prop := ∃ s : Str, bytes = encode s ∧ '\uFFFD' ∉ s

theorem faithful_iff {bytes : Bytes} : Faithful bytes ↔ '\uFFFD' ∉ lossy bytes := by
  constructor
  · rintro ⟨s, rfl, hs⟩
    rwa [lossy_encode]
  · intro h
    exact ⟨lossy bytes, (encode_lossy h).symm, h⟩

/-- Faithful bytes are the only ones of their text. -/
theorem Faithful.unique {bytes bytes' : Bytes} (h : Faithful bytes)
    (heq : lossy bytes = lossy bytes') : bytes' = bytes := by
  have hmem := faithful_iff.mp h
  rw [← encode_lossy hmem, heq, encode_lossy (heq ▸ hmem)]

/-- All others share their text with bytes that are no longer. -/
theorem faithful_of_unshared {bytes : Bytes}
    (h : ∀ bytes', bytes' ≠ bytes → bytes'.length ≤ bytes.length → lossy bytes ≠ lossy bytes') :
    Faithful bytes := by
  rw [faithful_iff]
  intro hmem
  obtain ⟨bytes', hne, hle, hsame⟩ := exists_ne_of_replaced hmem
  exact h bytes' hne hle hsame.symm

/-- A backend without values. -/
def emptyBackend : Backend Id := .ofResolve fun _ => .ok none

theorem key_distinct_iff {key : Bytes} (hlen : key.length ≤ 65535) :
    KeyDistinct key ↔ Faithful key := by
  constructor
  · intro h
    apply faithful_of_unshared
    intro key' hne hle hsame
    obtain ⟨s, hs⟩ := exists_request hlen
    obtain ⟨s', hs'⟩ := exists_request (Nat.le_trans hle hlen)
    apply h.unshared emptyBackend emptyBackend s s' none none key' hne hs hs' _
      (callsMade_requests emptyBackend hs) _ (callsMade_requests emptyBackend hs')
    rw [selectCall_key, selectCall_key, hsame]
  · intro h
    constructor
    · intro B s value hs
      left
      intro c hc
      rw [call_of_requests hs hc, selectCall_key]
      exact encode_lossy (faithful_iff.mp h)
    · intro B B' s s' value value' key' hne hs hs' c hc c' hc' hsame
      rw [call_of_requests hs hc, call_of_requests hs' hc', selectCall_key, selectCall_key] at hsame
      exact hne (h.unique hsame)

theorem reference_distinct_iff {reference : Bytes} (hlen : reference.length ≤ 65535)
    (hvault : encode vaultPrefix <+: reference) :
    ReferenceDistinct reference ↔ Faithful reference := by
  constructor
  · intro h
    apply faithful_of_unshared
    intro reference' hne hle hsame
    -- What has the text of a reference is one.
    have hvault' : encode vaultPrefix <+: reference' := by
      rw [← lossy_prefix_iff vaultPrefix_ascii, ← hsame]
      exact (lossy_prefix_iff vaultPrefix_ascii _).mpr hvault
    obtain ⟨s, hs⟩ := exists_request_v2 hlen
    obtain ⟨s', hs'⟩ := exists_request_v2 (Nat.le_trans hle hlen)
    apply h.unshared emptyBackend emptyBackend s s' [] [] reference' hne hs hs' _
      (callsMade_requests emptyBackend hs) _ (callsMade_requests emptyBackend hs')
    rw [selectCall_reference, selectCall_reference, if_pos hvault, if_pos hvault', hsame]
  · intro h
    constructor
    · intro B s key hs
      left
      intro c hc
      rw [call_of_requests hs hc, selectCall_reference, if_pos hvault, Option.map_some,
        encode_lossy (faithful_iff.mp h)]
    · intro B B' s s' key key' reference' hne hs hs' c hc c' hc' hsame
      rw [call_of_requests hs hc, call_of_requests hs' hc', selectCall_reference,
        selectCall_reference, if_pos hvault] at hsame
      split at hsame
      · exact hne (h.unique (Option.some.inj hsame))
      · cases hsame

/-- No other key is taken for a key, and no other reference for a reference, exactly if
    they are UTF-8 without a replacement character. -/
theorem requests_distinct_iff (key reference : Bytes) (hkey : key.length ≤ 65535)
    (hreference : reference.length ≤ 65535) (hvault : encode vaultPrefix <+: reference) :
    (KeyDistinct key ↔ ∃ s : Str, key = encode s ∧ '\uFFFD' ∉ s) ∧
      (ReferenceDistinct reference ↔ ∃ s : Str, reference = encode s ∧ '\uFFFD' ∉ s) :=
  ⟨key_distinct_iff hkey, reference_distinct_iff hreference hvault⟩

/-- Text of the user's is requested as what it is. -/
theorem text_requests_distinct :
    KeyDistinct (encode ['K']) ∧ ReferenceDistinct (encode vaultPrefix) := by
  have h := requests_distinct_iff (encode ['K']) (encode vaultPrefix) (by decide) (by decide)
    (List.prefix_refl _)
  exact ⟨h.1.mpr ⟨_, rfl, by decide⟩, h.2.mpr ⟨_, rfl, by decide⟩⟩

/-- A backend with one value, under the replacement character. -/
def replacementBackend : Backend Id :=
  .ofResolve fun key => .ok (if key = ['\uFFFD'] then some ['x'] else none)

/-- Two keys of one byte each, which are not text: both requests make one and the same
    call, and both get the value of a third key. -/
theorem keys_conflated :
    Requests (Chunked.whole [1, 0, 1, 0xFE] .closed).data (.request [0xFE] none) ∧
    Requests (Chunked.whole [1, 0, 1, 0xFF] .closed).data (.request [0xFF] none) ∧
    (∀ key ∈ [[0xFE], [0xFF]], ∀ s : Chunked UInt8, Requests s.data (.request key none) →
      callsMade replacementBackend s = [.resolve ['\uFFFD']] ∧
        Answers (handleConnection replacementBackend s).written ⟨.found, encode ['x']⟩) ∧
    ¬ KeyDistinct [0xFE] := by
  have hlossy : ∀ key ∈ [[0xFE], [0xFF]], lossy key = ['\uFFFD'] := by
    intro key hkey
    rcases List.mem_pair.mp hkey with rfl | rfl
    · exact lossy_stray (.inl rfl) []
    · exact lossy_stray (.inr rfl) []
  have hframe : ∀ key : Bytes, key.length = 1 →
      Requests (Chunked.whole ([1, 0, 1] ++ key) .closed).data (.request key none) := by
    intro key hlen
    have hencode : encodeRequest key = some ([1, 0, 1] ++ key) := by
      rw [encodeRequest_eq, if_pos (hlen ▸ by decide), hlen]
      rfl
    rw [Chunked.whole_data, ← List.append_nil ([1, 0, 1] ++ key)]
    exact .v1 hencode
  refine ⟨hframe [0xFE] rfl, hframe [0xFF] rfl, ?_, ?_⟩
  · intro key hkey s hs
    have hread := readRequest_iff.mpr hs
    constructor
    · rw [callsMade_request _ hread, hlossy key hkey]
      rfl
    · rw [handleConnection_request _ hread, hlossy key hkey]
      exact answers_getD_iff.mpr (by decide)
  · rw [key_distinct_iff (by decide), faithful_iff, hlossy [0xFE] (.head _)]
    exact fun h => h (.head _)

end EnvProxy
