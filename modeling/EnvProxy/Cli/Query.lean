-- SUMMARY: How the command line tool asks the agent, and when it understands the answer.
import EnvProxy.Cli.Run
import EnvProxy.Library.Stream
import EnvProxy.Proto.Frames

/-!
# `envproxy get` and `envproxy status`

Both send one request and read the response with one `read`. The clients in the
processes read on until the length in the header is met; the tool decodes what the
first read returns. `query_agent_iff` says when that is the response.
-/

namespace EnvProxy

/-- The `Display` text of an error. -/
def DecodeError.toStr : DecodeError → Str
  | .incomplete => "incomplete message: not enough bytes".toList
  | .invalidStatus b =>
    "invalid status byte: 0x".toList ++ [Nat.digitChar (b.toNat / 16), Nat.digitChar (b.toNat % 16)]

namespace CommandLine

/-- How far a request to the agent gets. -/
inductive Exchange where
  | unconnected
  | unsent
  | answered (stream : Chunked UInt8)

/-- One read. At the end of the stream it reads nothing, and a stream that falls silent
    runs into the read timeout. -/
def readOnce (stream : Chunked UInt8) (n : Nat) : Option Bytes :=
  match stream.read n with
  | .ok (buf, _) => some buf
  | .error .closed => some []
  | .error .silent => none

/-- `query_agent`. The agent is what happens to a request sent to a socket. -/
def queryAgent (agent : Str → Bytes → Exchange) (key : Bytes) (socket : Str) :
    Except Str DecodedResponse :=
  match encodeRequest key with
  | none => .error "key too long".toList
  | some encoded =>
    match agent socket encoded with
    | .unconnected => .error ("failed to connect to agent at ".toList ++ socket)
    | .unsent => .error "failed to send request".toList
    | .answered stream =>
      match readOnce stream (3 + maxValueLen) with
      | none => .error "failed to read response".toList
      | some buf =>
        match decodeResponse buf with
        | .ok response => .ok response
        | .error e => .error ("decode error: ".toList ++ e.toStr)

/-- What a command prints, and its exit code. -/
structure Output where
  stdout : Str
  stderr : Str
  code : Nat
  deriving DecidableEq

def Output.line (s : Str) : Output := { stdout := s ++ ['\n'], stderr := [], code := 0 }

def Output.failure (s : Str) : Output := { stdout := [], stderr := s ++ ['\n'], code := 1 }

/-- `cmd_get`. -/
def cmdGet (agent : Str → Bytes → Exchange) (key socket : Str) : Except Str Output := do
  let response ← queryAgent agent (Utf8.encode key) socket
  match response.status with
  | .found => return .line (Utf8.lossy response.value)
  | .notFound => return .failure ("key not found: ".toList ++ key)
  | .error => return .failure ("error: ".toList ++ Utf8.lossy response.value)
  | .passthrough => return .failure ("passthrough: key ".toList ++ key ++ " is not intercepted".toList)

/-- `cmd_status`. -/
def cmdStatus (agent : Str → Bytes → Exchange) (socket : Str) : Output :=
  match queryAgent agent (Utf8.encode "__ENVPROXY_PING__".toList) socket with
  | .ok _ => .line ("agent is running at ".toList ++ socket)
  | .error e => .failure ("agent is NOT running at ".toList ++ socket ++ ": ".toList ++ e)

/-! ## Responses in pieces -/

/-- The first read of a response returns its first piece. -/
theorem readOnce_response {stream : Chunked UInt8} {frame : Bytes} (hdata : stream.data = frame)
    (hne : frame ≠ []) (hlen : frame.length ≤ 3 + maxValueLen) :
    ∃ piece rest, stream.chunks = piece :: rest ∧ piece <+: frame ∧
      readOnce stream (3 + maxValueLen) = some piece := by
  obtain ⟨chunks, ending, nonempty⟩ := stream
  cases chunks with
  | nil => exact absurd hdata.symm hne
  | cons piece rest =>
    have hpre : piece <+: frame := ⟨rest.flatten, hdata⟩
    refine ⟨piece, rest, rfl, hpre, ?_⟩
    have htake : piece.take (3 + maxValueLen) = piece :=
      List.take_of_length_le (Nat.le_trans hpre.length_le hlen)
    simp only [readOnce, Chunked.read, htake]

theorem responseFrame_length {r : DecodedResponse} {frame : Bytes} (h : ResponseFrame r frame) :
    frame ≠ [] ∧ frame.length ≤ 3 + maxValueLen := by
  obtain ⟨hlen, rfl⟩ := encodeResponse_eq_some_iff.mp h
  refine ⟨List.cons_ne_nil _ _, ?_⟩
  simp only [toBeBytes, List.length_cons, List.length_append, List.length_nil]
  omega

/-- The whole response is one piece if its first piece is the whole response. -/
theorem chunks_eq_singleton {stream : Chunked UInt8} {piece : Bytes} {rest : List Bytes}
    (hchunks : stream.chunks = piece :: rest) (hdata : stream.data = piece) :
    stream.chunks = [piece] := by
  have hflatten : rest.flatten = [] := by
    have happend : piece ++ rest.flatten = piece ++ [] := by
      rw [List.append_nil, ← List.flatten_cons, ← hchunks]
      exact hdata
    exact List.append_cancel_left happend
  have hrest : rest = [] := by
    cases rest with
    | nil => rfl
    | cons next rest =>
      have hnil : next = [] := (List.append_eq_nil_iff.mp hflatten).1
      exact absurd hnil (stream.nonempty next (by simp [hchunks]))
  rw [hchunks, hrest]

/-- The tool gets the response the agent sent exactly if all of it is there at the first
    read. -/
theorem query_agent_iff (agent : Str → Bytes → Exchange) (key : Bytes) (socket : Str)
    (request frame : Bytes) (status : Status) (value : Bytes) (stream : Chunked UInt8)
    (hrequest : encodeRequest key = some request)
    (hframe : encodeResponse status value = some frame)
    (hagent : agent socket request = .answered stream) (hdata : stream.data = frame) :
    queryAgent agent key socket = .ok { status, value } ↔ stream.chunks = [frame] := by
  have hresponse : ResponseFrame { status, value } frame := hframe
  obtain ⟨hne, hlen⟩ := responseFrame_length hresponse
  obtain ⟨hdecode, hincomplete⟩ := ResponseFrame.framed hresponse
  obtain ⟨piece, rest, hchunks, hpre, hread⟩ := readOnce_response hdata hne hlen
  simp only [queryAgent, hrequest, hagent, hread]
  by_cases hwhole : piece = frame
  · subst hwhole
    have hok : decodeResponse piece = .ok { status, value } := by simpa using hdecode []
    simp only [hok, true_iff]
    exact chunks_eq_singleton hchunks hdata
  · simp only [hincomplete piece hpre hwhole, reduceCtorEq, hchunks, List.cons.injEq, hwhole,
      false_and]

/-- An agent that answers `AB`, in one piece. -/
def promptly : Chunked UInt8 where
  chunks := [[0x00, 0x00, 0x02, 65, 66]]
  ending := .closed
  nonempty := by simp

theorem query_agent_prompt :
    queryAgent (fun _ _ => .answered promptly) [65] "/tmp/envproxy/agent.sock".toList =
      .ok { status := .found, value := [65, 66] } :=
  (query_agent_iff _ _ _ _ _ _ _ promptly rfl rfl rfl rfl).mpr rfl

/-- The same answer with its header ahead of its value. -/
def headerFirst : Chunked UInt8 where
  chunks := [[0x00, 0x00, 0x02], [65, 66]]
  ending := .closed
  nonempty := by simp

theorem query_agent_split :
    some headerFirst.data = encodeResponse .found [65, 66] ∧
      queryAgent (fun _ _ => .answered headerFirst) [65] "/tmp/envproxy/agent.sock".toList =
        .error "decode error: incomplete message: not enough bytes".toList := by
  decide

end CommandLine

end EnvProxy
