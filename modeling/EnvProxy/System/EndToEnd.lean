-- SUMMARY: A lookup of the C client, through the wire and the agent's handler to the backend and back.
import EnvProxy.Agent.Server
import EnvProxy.Client.Getenv

/-!
# End to end

`Network` carries the bytes of the two directions of a connection, cut into chunks
in any way. `serving` is the world of a client whose agent handles every
connection with `handleConnection`. What the composition is for is said by
`expected`: the value of one backend call, or the real value.
-/

namespace EnvProxy

/-- A connection that delivers all bytes within the timeouts. The agent closes it
    after the response. -/
structure Network where
  toAgent : Bytes → Chunked UInt8
  toClient : Bytes → Chunked UInt8
  toAgent_data : ∀ d, (toAgent d).data = d
  toClient_data : ∀ d, (toClient d).data = d
  toClient_ending : ∀ d, (toClient d).ending = .closed

/-- The network that delivers everything in one piece. -/
def Network.direct : Network where
  toAgent := fun d => .whole d .silent
  toClient := fun d => .whole d .closed
  toAgent_data := fun d => Chunked.whole_data d .silent
  toClient_data := fun d => Chunked.whole_data d .closed
  toClient_ending := fun _ => rfl

/-- The surroundings of a client while an agent with this backend listens. -/
def serving {Time : Type} {m : Type → Type} [Monad m] (net : Network) (backend : Backend m)
    (clock : m Time) : World Time m where
  agent := fun _ frame => do
    let handled ← handleConnection backend (net.toAgent frame)
    pure (.stream (net.toClient handled.written))
  clock := clock

/-! ## The response -/

/-- The bytes of a value that fits into a response. -/
def fitting (value : Str) : Option Bytes :=
  if (Utf8.encode value).length ≤ maxValueLen then some (Utf8.encode value) else none

/-- The bytes a resolve result carries to the client. -/
def ResolveResult.carried : ResolveResult → Option Bytes
  | .ok (some value) => fitting value
  | _ => none

theorem Reply.found_of_encode {status : Status} {value frame : Bytes} {s : Chunked UInt8}
    (h : encodeResponse status value = some frame) (hdata : s.data = frame) :
    (Reply.stream s).found = if status = .found then some value else none := by
  have hdecode := decodeResponse_encode h []
  rw [List.append_nil, ← hdata] at hdecode
  cases status <;> simp [Reply.found, hdecode]

/-- A connection closed without a response is no reply. -/
theorem Reply.found_of_empty {s : Chunked UInt8} (h : s.data = []) : (Reply.stream s).found = none := by
  simp [Reply.found, h, decodeResponse]

theorem found_respond {s : Chunked UInt8} {r : ResolveResult} (hdata : s.data = (respond r).getD []) :
    (Reply.stream s).found = r.carried := by
  match r with
  | .ok (some value) =>
    simp only [ResolveResult.carried, fitting]
    split
    · next hlen =>
      have hframe := (encodeResponse_eq .found (Utf8.encode value)).trans (if_pos hlen)
      exact Reply.found_of_encode hframe (hdata.trans (by simp only [respond, hframe, Option.getD_some]))
    · next hlen =>
      have hnone := (encodeResponse_eq .found (Utf8.encode value)).trans (if_neg hlen)
      exact Reply.found_of_empty (hdata.trans (by simp only [respond, hnone, Option.getD_none]))
  | .ok none =>
    have hframe : encodeResponse .notFound [] = some ((respond (.ok none)).getD []) := rfl
    exact Reply.found_of_encode hframe hdata
  | .error e =>
    cases hframe : encodeResponse .error (Utf8.encode e.toStr) with
    | none => exact Reply.found_of_empty (hdata.trans (by simp only [respond, hframe, Option.getD_none]))
    | some frame =>
      exact Reply.found_of_encode hframe (hdata.trans (by simp only [respond, hframe, Option.getD_some]))

/-! ## The request -/

/-- What the handler reads from the frame of a lookup. -/
theorem readRequest_encode {key frame : Bytes} {current : Option Bytes} {s : Chunked UInt8}
    (h : Libenvproxy.encode key current = some frame) (hdata : s.data = frame) :
    readRequest s = .ok (.request key current) := by
  have hdata' : s.data = frame ++ [] := hdata.trans (List.append_nil frame).symm
  cases current with
  | none => exact readRequest_v1 h hdata'
  | some value => exact readRequest_v2 h hdata'

theorem encode_isSome_iff {key : Bytes} {current : Option Bytes} :
    (Libenvproxy.encode key current).isSome ↔
      key.length ≤ maxKeyLen ∧ ∀ value ∈ current, value.length ≤ maxValueLen := by
  cases current with
  | none => simp only [Libenvproxy.encode, encodeRequest_eq]; split <;> simp [*]
  | some value => simp only [Libenvproxy.encode, encodeRequestV2_eq]; split <;> simp_all

/-- A served request makes the selected backend call, and its result is what the
    client finds in the reply. -/
theorem serving_agent {Time : Type} {m : Type → Type} [Monad m] [LawfulMonad m] (net : Network)
    (backend : Backend m) (clock : m Time) (path : Bytes) {key frame : Bytes}
    {current : Option Bytes} (h : Libenvproxy.encode key current = some frame) :
    (serving net backend clock).agent path frame =
      backend.answer (selectCall (Utf8.lossy key) current) >>= fun r =>
        pure (.stream (net.toClient ((respond r).getD []))) := by
  have hread := readRequest_encode h (net.toAgent_data frame)
  simp [serving, handleConnection_request backend hread]

/-! ## The whole lookup -/

/-- The backend call a lookup of `key` selects when the environment holds `e`. -/
def selected (key : Str) : Option Str → Call
  | some value => .resolveWithValue key value
  | none => .resolve key

/-- Key and reference fit into a request. -/
def Sendable (key : Str) (e : Option Str) : Prop :=
  (Utf8.encode key).length ≤ maxKeyLen ∧ ∀ value ∈ e, (Utf8.encode value).length ≤ maxValueLen

instance (key : Str) (e : Option Str) : Decidable (Sendable key e) :=
  inferInstanceAs (Decidable (_ ∧ _))

/-- What a lookup is for: the value the selected call resolves to, if request and
    value can travel and the value is a C string, and the real value otherwise. -/
def expected (B : Backend Id) (key : Str) (e : Option Str) : Option Str :=
  match B.answer (selected key e) with
  | .ok (some v) =>
    if Sendable key e ∧ '\x00' ∉ v ∧ (Utf8.encode v).length ≤ maxValueLen then some v else e
  | _ => e

theorem selectCall_selected {key : Str} {e : Option Str} (h : ∀ value ∈ e, vaultPrefix <+: value) :
    selectCall (Utf8.lossy (Utf8.encode key)) (e.map Utf8.encode) = selected key e := by
  rw [Utf8.lossy_encode]
  cases e with
  | none => rfl
  | some value => exact selectCall_vault (h value rfl)

theorem currentValue_vault {real : Option CStr} {e : Option Str}
    (hreal : real.map CStr.bytes = e.map Utf8.encode) (h : ∀ value ∈ e, vaultPrefix <+: value) :
    Libenvproxy.currentValue real = e.map Utf8.encode := by
  cases real with
  | none => exact hreal
  | some c =>
    cases e with
    | none => cases hreal
    | some value =>
      have hbytes : c.bytes = Utf8.encode value := Option.some.inj hreal
      have hprefix : c.startsWith vaultPrefix := by
        obtain ⟨t, ht⟩ := h value rfl
        rw [CStr.startsWith_iff, hbytes, ← ht, Utf8.encode_append]
        exact List.prefix_append _ _
      simp [Libenvproxy.currentValue, Option.filter, hprefix, hbytes]

/-- A lookup against an agent with backend `B`: its result and the backend calls it made. -/
def servedGetenv (B : Backend Id) (net : Network) (env : Environ) (statics : Libenvproxy.Statics)
    (name : CStr) : Option CStr × List Call :=
  let run := ((Libenvproxy.getenv (serving net B.logged (pure ())) env name).run statics).run []
  (run.1.1, run.2)

theorem servedGetenv_enabled {B : Backend Id} {net : Network} {env : Environ}
    {statics : Libenvproxy.Statics} {name : CStr} {current : Option Bytes}
    (hname : ¬ name.startsWith configPrefix) (hon : statics.enabledIn env = true)
    (hcurrent : Libenvproxy.currentValue (env.get name.bytes) = current) :
    servedGetenv B net env statics name =
      if (Libenvproxy.encode name.bytes current).isSome then
        let call := selectCall (Utf8.lossy name.bytes) current
        (((B.answer call).carried.bind CStr.new).or (env.get name.bytes), [call])
      else (env.get name.bytes, []) := by
  simp only [servedGetenv, Libenvproxy.getenv_run_enabled _ _ hname hon, hcurrent]
  cases hframe : Libenvproxy.encode name.bytes current with
  | none => rfl
  | some frame =>
    simp only [serving_agent net B.logged _ _ hframe, Libenvproxy.received_eq]
    simp only [bind_assoc, pure_bind, StateT.run_bind, Backend.logged_answer]
    simp only [found_respond (net.toClient_data _)]
    rfl

/-- The C string a resolve result arrives as. -/
theorem carried_bytes (r : ResolveResult) :
    (r.carried.bind CStr.new).map CStr.bytes =
      match r with
      | .ok (some v) =>
        if '\x00' ∉ v ∧ (Utf8.encode v).length ≤ maxValueLen then some (Utf8.encode v) else none
      | _ => none := by
  match r with
  | .ok (some v) =>
    simp only [ResolveResult.carried, fitting]
    by_cases hlen : (Utf8.encode v).length ≤ maxValueLen
    · rw [if_pos hlen, Option.bind_some]
      cases hnew : CStr.new (Utf8.encode v) with
      | none =>
        have hnul : '\x00' ∈ v := Utf8.zero_mem_encode_iff.mp (CStr.new_eq_none_iff.mp hnew)
        simp [hnul]
      | some c =>
        have hbytes := CStr.new_eq_some_iff.mp hnew
        have hnul : '\x00' ∉ v := by
          rw [← Utf8.zero_mem_encode_iff, ← hbytes]
          exact c.nulFree
        simp [hnul, hlen, hbytes]
    · simp [hlen]
  | .ok none => rfl
  | .error e => rfl

/-- The composition of client, wire, handler and backend does what a lookup is for,
    with one backend call if the request can be sent and none otherwise. -/
theorem getenv_end_to_end (B : Backend Id) (net : Network) (env : Environ)
    (statics : Libenvproxy.Statics) (name : CStr) (key : Str) (e : Option Str)
    (hname : name.bytes = Utf8.encode key) (hkey : ¬ configPrefix <+: key)
    (hreal : (env.get name.bytes).map CStr.bytes = e.map Utf8.encode)
    (hvault : ∀ value ∈ e, vaultPrefix <+: value) (hon : statics.enabledIn env = true) :
    (servedGetenv B net env statics name).1.map CStr.bytes = (expected B key e).map Utf8.encode ∧
      (servedGetenv B net env statics name).2 =
        if Sendable key e then [selected key e] else [] := by
  have hconfig : ¬ name.startsWith configPrefix := by
    rw [CStr.startsWith_iff, hname, ← Utf8.lossy_prefix_iff configPrefix_ascii, Utf8.lossy_encode]
    exact hkey
  have hcall : selectCall (Utf8.lossy name.bytes) (e.map Utf8.encode) = selected key e := by
    rw [hname]
    exact selectCall_selected hvault
  have hsendable : (Libenvproxy.encode name.bytes (e.map Utf8.encode)).isSome ↔ Sendable key e := by
    rw [encode_isSome_iff, hname]
    simp [Sendable]
  rw [servedGetenv_enabled hconfig hon (currentValue_vault hreal hvault), hcall]
  simp only [hsendable]
  by_cases hsend : Sendable key e
  · rw [if_pos hsend, if_pos hsend]
    refine ⟨?_, rfl⟩
    rw [Option.map_or, carried_bytes, hreal, expected]
    match B.answer (selected key e) with
    | .ok (some v) => simp only [hsend, true_and]; split <;> rfl
    | .ok none => rfl
    | .error err => rfl
  · rw [if_neg hsend, if_neg hsend]
    refine ⟨?_, rfl⟩
    rw [hreal, expected]
    match B.answer (selected key e) with
    | .ok (some v) => simp only [hsend, false_and, if_false]
    | .ok none => rfl
    | .error err => rfl

/-- A reference in the environment, resolved to a value of the backend. -/
theorem getenv_end_to_end_resolved :
    (servedGetenv { resolve := fun _ => .ok none, resolveWithValue := fun _ _ => .ok (some ['s']) }
        .direct [(.lit "A", .lit "vault:b#c")] .new (.lit "A")).1.map CStr.bytes = some [115] :=
  (getenv_end_to_end { resolve := fun _ => .ok none, resolveWithValue := fun _ _ => .ok (some ['s']) }
    .direct [(.lit "A", .lit "vault:b#c")] .new (.lit "A") ['A'] (some "vault:b#c".toList)
    (by decide) (by decide) (by decide) (by decide) (by decide)).1

end EnvProxy
