-- SUMMARY: The command line tool at a shared agent: what `get` reports, and whether `status` finds the agent.
import EnvProxy.Agent.RequestedKeys
import EnvProxy.Cli.Query
import EnvProxy.System.Served

/-!
# The tool at the socket

`envproxy get` asks for a key alone, without what the environment holds for it, and
decodes what its first read returns. So it reports the result of a call, but only if the
response comes in one piece, and a reference is never resolved for it.
-/

namespace EnvProxy

open Server

namespace CommandLine

/-- The tool has not understood a response. -/
def Unread (e : Str) : Prop :=
  e = "failed to read response".toList ∨ e = "decode error: incomplete message: not enough bytes".toList

/-- The tool has not got its request to the agent. -/
def Unasked (socket e : Str) : Prop :=
  e = "key too long".toList ∨ e = "failed to connect to agent at ".toList ++ socket ∨
    e = "failed to send request".toList

/-- What `envproxy get` reports of a result. -/
def reported (key : Str) : ResolveResult → Output
  | .ok (some v) => .line v
  | .ok none => .failure ("key not found: ".toList ++ key)
  | .error e => .failure ("error: ".toList ++ e.toStr)

section

variable {agent : Str → Bytes → Exchange} {socket : Str} {stream : Chunked UInt8}

theorem readOnce_prefix {n : Nat} {front : Bytes} (h : readOnce stream n = some front) :
    front <+: stream.data := by
  unfold readOnce at h
  split at h
  · next hread =>
    cases h
    rw [(Chunked.read_ok hread).1]
    exact List.prefix_append _ _
  · cases h
    exact List.nil_prefix
  · cases h

/-- A read that returns all there is. -/
theorem chunks_of_readOnce {n : Nat} {front : Bytes} (h : readOnce stream n = some front)
    (hall : stream.data = front) (hne : front ≠ []) : stream.chunks = [front] := by
  subst hall
  cases hchunks : stream.chunks with
  | nil => exact absurd (by rw [Chunked.data, hchunks, List.flatten_nil]) hne
  | cons piece rest =>
    obtain ⟨chunks, ending, nonempty⟩ := stream
    cases hchunks
    have htake : piece.take n = piece ++ rest.flatten := Option.some.inj h
    have hpiece : piece ++ rest.flatten = piece := by
      refine ((List.prefix_append _ _).eq_of_length_le ?_).symm
      rw [← htake]
      exact List.length_take_le' n piece
    have hdata : (⟨piece :: rest, ending, nonempty⟩ : Chunked UInt8).data = piece := hpiece
    rw [hdata]
    exact chunks_eq_singleton rfl hdata

/-- A response that is one chunk is returned. -/
theorem queryAgent_whole {key request frame : Bytes} {response : DecodedResponse}
    (hrequest : encodeRequest key = some request) (hagent : agent socket request = .answered stream)
    (hframe : ResponseFrame response frame) (hchunks : stream.chunks = [frame]) :
    queryAgent agent key socket = .ok response := by
  obtain ⟨hne, hlen⟩ := responseFrame_length hframe
  have hdata : stream.data = frame := by rw [Chunked.data, hchunks, List.flatten_singleton]
  obtain ⟨piece, rest, hpieces, -, hread⟩ := readOnce_response hdata hne hlen
  obtain ⟨rfl, -⟩ := List.cons.inj (hchunks.symm.trans hpieces)
  have hdecode : decodeResponse frame = .ok response := by
    simpa using hframe.framed.1 []
  simp only [queryAgent, hrequest, hagent, hread, hdecode]

/-- If nothing can be decoded in what the first read returns, the tool fails. -/
theorem queryAgent_unread {key request : Bytes} (hrequest : encodeRequest key = some request)
    (hagent : agent socket request = .answered stream)
    (hfront : ∀ front, readOnce stream (3 + maxValueLen) = some front →
      decodeResponse front = .error .incomplete) :
    ∃ e, queryAgent agent key socket = .error e ∧ Unread e := by
  simp only [queryAgent, hrequest, hagent]
  cases hread : readOnce stream (3 + maxValueLen) with
  | none => exact ⟨_, rfl, .inl rfl⟩
  | some front =>
    simp only [hfront front hread]
    exact ⟨_, rfl, .inr rfl⟩

end

/-! ## A connection of the tool -/

/-- What the client can read of a connection, sooner or later. -/
def written {τ : Type} (c : Conn τ) : Bytes :=
  match c.stage with
  | .closed written _ => written
  | _ => []

/-- The tool has sent its request on the connection, and can read what is written there,
    or as much of it as there was before the timeout. -/
structure Asks {τ : Type} (agent : Str → Bytes → Exchange) (socket : Str) (key : Bytes) (c : Conn τ)
    (stream : Chunked UInt8) : Prop where
  request : encodeRequest key = some c.stream.data
  answered : agent socket c.stream.data = .answered stream
  heard : stream.data <+: written c

/-- The connection was closed without a fault, and the first read returns all of it. -/
def AtOnce {τ : Type} (c : Conn τ) (stream : Chunked UInt8) : Prop :=
  ∃ response, c.stage = .closed response none ∧ stream.chunks = [response]

/-- If the tool is answered at all, it asks on this connection. -/
def Uses {τ : Type} (agent : Str → Bytes → Exchange) (socket : Str) (key : Bytes) (c : Conn τ) : Prop :=
  ∀ request stream, encodeRequest key = some request → agent socket request = .answered stream →
    c.stream.data = request ∧ stream.data <+: written c

/-- It is answered, and at once. -/
def Arrives {τ : Type} (agent : Str → Bytes → Exchange) (socket : Str) (key : Bytes) (c : Conn τ) : Prop :=
  ∃ request stream, encodeRequest key = some request ∧ agent socket request = .answered stream ∧ AtOnce c stream

section

variable {σ τ ℓ ε : Type} {S : Service σ τ ℓ ε} {agent : Str → Bytes → Exchange} {socket : Str}
  {stream : Chunked UInt8} {c : Conn τ}

/-- A response that arrives at once is understood. -/
theorem query_at_once {key : Bytes} (hhonest : c.Honest S) (hasks : Asks agent socket key c stream)
    (honce : AtOnce c stream) :
    ∃ r, S.Returns (.resolve (Utf8.lossy key)) c.task r ∧ (respond r).isSome ∧
      queryAgent agent key socket = .ok { status := r.status, value := r.text } := by
  obtain ⟨response, hclosed, hchunks⟩ := honce
  have hrequests : Requests c.stream.data (.request key none) := by
    simpa using Requests.v1 (t := []) hasks.request
  obtain ⟨r, hreturns, hwritten⟩ := hhonest.complete hclosed hrequests
  have hne : response ≠ [] := stream.nonempty response (by rw [hchunks]; exact List.mem_singleton_self _)
  cases hframe : respond r with
  | none =>
    rw [hframe] at hwritten
    exact absurd hwritten hne
  | some frame =>
    rw [hframe] at hwritten
    obtain rfl : response = frame := hwritten
    have hresponse : ResponseFrame { status := r.status, value := r.text } response :=
      (respond_eq r).symm.trans hframe
    have hquery := queryAgent_whole hasks.request hasks.answered hresponse hchunks
    exact ⟨r, hreturns, by rw [hframe, Option.isSome_some], hquery⟩

/-- Any other is not. -/
theorem query_otherwise {key : Bytes} (hhonest : c.Honest S) (hasks : Asks agent socket key c stream)
    (honce : ¬ AtOnce c stream) : ∃ e, queryAgent agent key socket = .error e ∧ Unread e := by
  refine queryAgent_unread hasks.request hasks.answered fun front hread => ?_
  by_contra hdecodes
  have hne : front ≠ [] := by
    rintro rfl
    exact hdecodes rfl
  have hpre : front <+: stream.data := readOnce_prefix hread
  have hheard := hasks.heard
  cases hstage : c.stage with
  | closed response fault =>
    rw [written, hstage] at hheard
    obtain ⟨rfl, rfl⟩ := hhonest.decoded hstage (hpre.trans hheard) hdecodes
    have hall : stream.data = front := hheard.eq_of_length_le hpre.length_le
    exact honce ⟨front, hstage, chunks_of_readOnce hread hall hne⟩
  | _ =>
    rw [written, hstage] at hheard
    exact hne (List.prefix_nil.mp (hpre.trans hheard))

theorem Uses.asks {key request : Bytes} (h : Uses agent socket key c) (hrequest : encodeRequest key = some request)
    (hagent : agent socket request = .answered stream) : Asks agent socket key c stream := by
  obtain ⟨hsent, hheard⟩ := h request stream hrequest hagent
  rw [← hsent] at hrequest hagent
  exact ⟨hrequest, hagent, hheard⟩

theorem query_arrives {key : Bytes} (hhonest : c.Honest S) (huses : Uses agent socket key c)
    (harrives : Arrives agent socket key c) :
    ∃ r, S.Returns (.resolve (Utf8.lossy key)) c.task r ∧ (respond r).isSome ∧
      queryAgent agent key socket = .ok { status := r.status, value := r.text } := by
  obtain ⟨request, stream, hrequest, hagent, honce⟩ := harrives
  exact query_at_once hhonest (huses.asks hrequest hagent) honce

/-- The tool gets no further than it says. -/
theorem query_fails {key : Bytes} (hhonest : c.Honest S) (huses : Uses agent socket key c)
    (harrives : ¬ Arrives agent socket key c) :
    ∃ e, queryAgent agent key socket = .error e ∧ (Unasked socket e ∨ Unread e) := by
  cases hrequest : encodeRequest key with
  | none =>
    refine ⟨_, ?_, .inl (.inl rfl)⟩
    simp only [queryAgent, hrequest]
  | some request =>
    cases hagent : agent socket request with
    | unconnected =>
      refine ⟨_, ?_, .inl (.inr (.inl rfl))⟩
      simp only [queryAgent, hrequest, hagent]
    | unsent =>
      refine ⟨_, ?_, .inl (.inr (.inr rfl))⟩
      simp only [queryAgent, hrequest, hagent]
    | answered stream =>
      have honce : ¬ AtOnce c stream := fun honce => harrives ⟨request, stream, hrequest, hagent, honce⟩
      obtain ⟨e, hquery, hunread⟩ := query_otherwise hhonest (huses.asks hrequest hagent) honce
      exact ⟨e, hquery, .inr hunread⟩

/-! ## What the commands say -/

theorem cmdGet_of_query {key : Str} {r : ResolveResult}
    (h : queryAgent agent (Utf8.encode key) socket = .ok { status := r.status, value := r.text }) :
    cmdGet agent key socket = .ok (reported key r) := by
  rw [cmdGet, h]
  match r with
  | .ok (some v) =>
    have htext : Utf8.lossy (Utf8.encode v) = v := Utf8.lossy_encode v
    exact congrArg (fun text => Except.ok (Output.line text)) htext
  | .ok none => rfl
  | .error e =>
    have htext : Utf8.lossy (Utf8.encode e.toStr) = e.toStr := Utf8.lossy_encode e.toStr
    exact congrArg (fun text => Except.ok (Output.failure ("error: ".toList ++ text))) htext

theorem cmdGet_of_error {key e : Str} (h : queryAgent agent (Utf8.encode key) socket = .error e) :
    cmdGet agent key socket = .error e := by
  rw [cmdGet, h]
  rfl

theorem get_arrives {key : Str} (hhonest : c.Honest S) (huses : Uses agent socket (Utf8.encode key) c)
    (harrives : Arrives agent socket (Utf8.encode key) c) :
    ∃ r, S.Returns (.resolve key) c.task r ∧ (respond r).isSome ∧
      cmdGet agent key socket = .ok (reported key r) := by
  obtain ⟨r, hreturns, hfits, hquery⟩ := query_arrives hhonest huses harrives
  rw [Utf8.lossy_encode] at hreturns
  exact ⟨r, hreturns, hfits, cmdGet_of_query hquery⟩

theorem get_fails {key : Str} (hhonest : c.Honest S) (huses : Uses agent socket (Utf8.encode key) c)
    (harrives : ¬ Arrives agent socket (Utf8.encode key) c) :
    ∃ e, cmdGet agent key socket = .error e ∧ (Unasked socket e ∨ Unread e) := by
  obtain ⟨e, hquery, hfailed⟩ := query_fails hhonest huses harrives
  exact ⟨e, cmdGet_of_error hquery, hfailed⟩

/-- What is reported at all is reported of a response that arrived at once. -/
theorem arrives_of_get {key : Str} {out : Output} (hhonest : c.Honest S)
    (huses : Uses agent socket (Utf8.encode key) c) (hout : cmdGet agent key socket = .ok out) :
    ∃ r, S.Returns (.resolve key) c.task r ∧ (respond r).isSome ∧ out = reported key r := by
  by_cases harrives : Arrives agent socket (Utf8.encode key) c
  · obtain ⟨r, hreturns, hfits, hget⟩ := get_arrives hhonest huses harrives
    exact ⟨r, hreturns, hfits, Except.ok.inj (hout.symm.trans hget)⟩
  · obtain ⟨e, hget, -⟩ := get_fails hhonest huses harrives
    cases hout.symm.trans hget

end

/-- `envproxy status` says that the agent runs exactly if the response to its request
    arrives at once, whatever it is. -/
theorem status_served {σ τ ℓ ε : Type} (S : Service σ τ ℓ ε) (q : Pool Nat σ τ)
    (p : Pool Nat (Shared σ) (Conn τ)) (i : Nat)
    (h : (Server.machine S).Reaches Machine.anyMove (bound q) p) (agent : Str → Bytes → Exchange)
    (socket : Str) (huses : Uses agent socket (Utf8.encode "__ENVPROXY_PING__".toList) (p.tasks i)) :
    (cmdStatus agent socket).code = 0 ↔
      Arrives agent socket (Utf8.encode "__ENVPROXY_PING__".toList) (p.tasks i) := by
  have hhonest : (p.tasks i).Honest S := honest_reaches (reaches_guarded h) i
  by_cases harrives : Arrives agent socket (Utf8.encode "__ENVPROXY_PING__".toList) (p.tasks i)
  · obtain ⟨r, -, -, hquery⟩ := query_arrives hhonest huses harrives
    simp only [cmdStatus, hquery, Output.line, harrives]
  · obtain ⟨e, hquery, -⟩ := query_fails hhonest huses harrives
    simp only [cmdStatus, hquery, Output.failure, harrives, Nat.one_ne_zero]

/-- The tool sends no reference, so there is nothing for it in Vault. -/
theorem get_vault {ttl : Nat} {q : Pool Nat Vault.Shared Vault.Phase}
    {p : Pool Nat (Shared Vault.Shared) (Conn Vault.Phase)} {i : Nat}
    (h : (Server.machine (Vault.service ttl)).Reaches Machine.anyMove (bound q) p)
    {agent : Str → Bytes → Exchange} {socket key : Str}
    (huses : Uses agent socket (Utf8.encode key) (p.tasks i)) {out : Output}
    (hout : cmdGet agent key socket = .ok out) :
    out = .failure ("key not found: ".toList ++ key) := by
  have hhonest : (p.tasks i).Honest (Vault.service ttl) := honest_reaches (reaches_guarded h) i
  obtain ⟨r, hreturns, -, rfl⟩ := arrives_of_get hhonest huses hout
  rcases hreturns with hnow | ⟨⟨_, _, hcall, -⟩, -⟩
  · obtain rfl : .ok none = r := Sum.inl.inj hnow
    rfl
  · cases hcall

/-! ## The tool and the library -/

/-- An agent with this backend at the other end of the network. -/
def answering (net : Network) (B : Backend Id) : Str → Bytes → Exchange :=
  fun _ request => .answered (net.toClient (handleConnection B (net.toAgent request)).written)

/-- A connection that was handled alone. -/
def handled (B : Backend Id) (stream : Chunked UInt8) : Conn Unit where
  stream := stream
  task := ()
  stage := .closed (handleConnection B stream).written none

theorem handled_honest (B : Backend Id) {stream : Chunked UInt8} {key : Bytes} {value : Option Bytes}
    (h : Requests stream.data (.request key value)) : (handled B stream).Honest (.ofBackend B) := by
  refine ⟨respond (B.answer (selectCall (Utf8.lossy key) value)), .request h (.inl rfl), ?_⟩
  rw [handleConnection_request B (readRequest_iff.mpr h)]
  rfl

/-- What the tool reports is the result for its key, and a value only if it fits. -/
theorem get_answered {B : Backend Id} {net : Network} {key socket : Str} {out : Output}
    (h : cmdGet (answering net B) key socket = .ok out) :
    out = reported key (B.resolve key) ∧ (respond (B.resolve key)).isSome := by
  cases hrequest : encodeRequest (Utf8.encode key) with
  | none =>
    have hquery : queryAgent (answering net B) (Utf8.encode key) socket = .error "key too long".toList := by
      simp only [queryAgent, hrequest]
    cases h.symm.trans (cmdGet_of_error hquery)
  | some request =>
    let stream := net.toAgent request
    have hsent : stream.data = request := net.toAgent_data request
    have huses : Uses (answering net B) socket (Utf8.encode key) (handled B stream) := by
      intro request' response hrequest' hagent
      obtain rfl : request = request' := Option.some.inj (hrequest.symm.trans hrequest')
      cases hagent
      exact ⟨hsent, (net.toClient_data _).symm ▸ List.prefix_rfl⟩
    have hrequests : Requests stream.data (.request (Utf8.encode key) none) := by
      simpa [hsent] using Requests.v1 (t := []) hrequest
    have hhonest : (handled B stream).Honest (.ofBackend B) := handled_honest B hrequests
    obtain ⟨r, hreturns, hfits, rfl⟩ := arrives_of_get hhonest huses h
    obtain rfl : B.resolve key = r := returns_ofBackend hreturns
    exact ⟨rfl, hfits⟩

theorem Output.line_inj {v v' : Str} (h : line v = line v') : v = v' :=
  List.append_cancel_right (congrArg stdout h)

theorem Output.failure_ne_line {s v : Str} : failure s ≠ line v := by
  intro h
  cases congrArg code h

/-- A value that is printed is the one that is carried to the library. -/
theorem carried_as_reported (key : Str) {r : ResolveResult} (h : (respond r).isSome) (real : Option CStr) :
    (∀ v, reported key r = .line v → '\x00' ∉ v →
      ((r.carried.bind CStr.new).or real).map CStr.bytes = some (Utf8.encode v)) ∧
    ((∀ v, reported key r = .line v → '\x00' ∈ v) → (r.carried.bind CStr.new).or real = real) := by
  match r with
  | .ok (some v) =>
    have hlen : (Utf8.encode v).length ≤ maxValueLen := by
      by_contra hlong
      rw [respond, encodeResponse_eq, if_neg hlong] at h
      cases h
    have hbytes := carried_bytes (.ok (some v))
    constructor
    · intro v' hreported hnul
      obtain rfl : v = v' := Output.line_inj hreported
      rw [Option.map_or, hbytes]
      simp only [hnul, hlen, not_false_eq_true, and_self, if_true, Option.some_or]
    · intro hnuls
      have hnul : '\x00' ∈ v := hnuls v rfl
      simp only [hnul, not_true_eq_false, false_and, if_false, Option.map_eq_none_iff] at hbytes
      rw [hbytes, Option.none_or]
  | .ok none | .error e =>
    exact ⟨fun _ hreported => absurd hreported Output.failure_ne_line, fun _ => rfl⟩

/-- With a backend that ignores references, what `envproxy get` reports is what the library
    goes by: a value it prints is what `getenv` returns in every process, whatever the
    process holds itself, and if it prints none the process keeps what it holds. -/
theorem getenv_as_reported (resolve : Str → ResolveResult) (net net' : Network) (env : Environ)
    (statics : Libenvproxy.Statics) (name : CStr) (key socket : Str) (out : Output)
    (hname : name.bytes = Utf8.encode key) (hconfig : ¬ name.startsWith configPrefix)
    (hon : statics.enabledIn env = true)
    (hfits : (Libenvproxy.encode name.bytes (Libenvproxy.currentValue (env.get name.bytes))).isSome)
    (hget : cmdGet (answering net (.ofResolve resolve)) key socket = .ok out) :
    (∀ v, out = .line v → '\x00' ∉ v →
      (servedGetenv (.ofResolve resolve) net' env statics name).1.map CStr.bytes = some (Utf8.encode v)) ∧
    ((∀ v, out = .line v → '\x00' ∈ v) →
      (servedGetenv (.ofResolve resolve) net' env statics name).1 = env.get name.bytes) := by
  obtain ⟨rfl, hresponse⟩ := get_answered hget
  have hanswer : ∀ c : Call, (Backend.ofResolve (m := Id) resolve).answer c = resolve c.key := by
    intro c
    cases c <;> rfl
  have hkey : Utf8.lossy name.bytes = key := by rw [hname, Utf8.lossy_encode]
  have hlookup : (servedGetenv (.ofResolve resolve) net' env statics name).1 =
      ((resolve key).carried.bind CStr.new).or (env.get name.bytes) := by
    rw [servedGetenv_enabled hconfig hon rfl, if_pos hfits]
    simp only [hanswer, selectCall_key, hkey]
  rw [hlookup]
  exact carried_as_reported key hresponse (env.get name.bytes)

/-- An agent that has `s` for every key. -/
theorem getenv_as_reported_plain :
    (servedGetenv (.ofResolve fun _ => .ok (some ['s'])) .direct [] .new (.lit "A")).1.map CStr.bytes =
      some (Utf8.encode ['s']) :=
  (getenv_as_reported (fun _ => .ok (some ['s'])) .direct .direct [] .new (.lit "A") ['A']
    defaultSocketPath (.line ['s']) (by decide) (by decide) (by decide) (by decide) (by decide)).1
    ['s'] rfl (by decide)

end CommandLine

end EnvProxy
