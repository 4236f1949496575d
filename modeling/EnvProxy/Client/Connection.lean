-- SUMMARY: What a client can observe of the agent: replies, the clock, and runs that record the requests sent.
import EnvProxy.Library.Stream
import EnvProxy.Proto.Wire

/-!
# Connections

A client connects to the agent's socket, writes one request and reads one
response. `World` is everything it needs of its surroundings, in the monad of the
surroundings. `Oracle.world` is an arbitrary agent and an arbitrary clock, in a
monad that records what was sent.
-/

namespace EnvProxy

/-- What comes back for a request: the connection or the write failed, or the
    agent's side of the stream. A stream that falls silent is one that runs into
    the client's read timeout, if it has one. -/
inductive Reply where
  | refused
  | stream (s : Chunked UInt8)

structure World (Time : Type) (m : Type → Type) where
  /-- Connect to the socket at a path and write a request. -/
  agent : Bytes → Bytes → m Reply
  clock : m Time

/-! ## Reading a response -/

/-- Status byte and value of a response. Nothing is read for an empty value. -/
def readFrame (stream : Chunked UInt8) : Except Ending (UInt8 × Bytes) := do
  let (header, stream) ← stream.readExact 3
  let (value, _) ← stream.readExact (fromBeBytes (header.getD 1 0) (header.getD 2 0))
  .ok (header.getD 0 0, value)

/-- The value of a complete `Found` response. -/
def Reply.found : Reply → Option Bytes
  | .refused => none
  | .stream s =>
    match decodeResponse s.data with
    | .ok { status := .found, value } => some value
    | _ => none

/-- Reading a frame from a stream is splitting its data. -/
theorem readFrame_eq_ok_iff {stream : Chunked UInt8} {b : UInt8} {value : Bytes} :
    readFrame stream = .ok (b, value) ↔
      ∃ hi lo t, stream.data = b :: hi :: lo :: (value ++ t) ∧ value.length = fromBeBytes hi lo := by
  constructor
  · intro h
    simp only [readFrame, bind, Except.bind] at h
    cases hheader : stream.readExact 3 with
    | error e => simp [hheader] at h
    | ok p =>
      obtain ⟨header, s₁⟩ := p
      obtain ⟨hlen, hdata, -⟩ := Chunked.readExact_ok hheader
      match header, hlen with
      | [b', hi, lo], _ =>
        simp only [hheader, List.getD_cons_succ, List.getD_cons_zero] at h
        cases hvalue : s₁.readExact (fromBeBytes hi lo) with
        | error e => simp [hvalue] at h
        | ok q =>
          obtain ⟨got, s₂⟩ := q
          obtain ⟨hlen', hdata', -⟩ := Chunked.readExact_ok hvalue
          simp only [hvalue, Except.ok.injEq, Prod.mk.injEq] at h
          obtain ⟨rfl, rfl⟩ := h
          exact ⟨hi, lo, s₂.data, by rw [hdata, hdata']; rfl, hlen'⟩
  · intro h
    obtain ⟨hi, lo, t, hdata, hlen⟩ := h
    obtain ⟨s₁, hread₁, hdata₁, -⟩ := Chunked.readExact_append (a := [b, hi, lo]) hdata
    obtain ⟨s₂, hread₂, -, -⟩ := Chunked.readExact_append hdata₁
    have hread₁' : stream.readExact 3 = .ok ([b, hi, lo], s₁) := hread₁
    simp [readFrame, hread₁', ← hlen, hread₂, bind, Except.bind]

theorem decodeResponse_eq_ok_iff {d : Bytes} {status : Status} {value : Bytes} :
    decodeResponse d = .ok { status, value } ↔
      ∃ b hi lo t, d = b :: hi :: lo :: (value ++ t) ∧ value.length = fromBeBytes hi lo ∧
        Status.fromByte b = some status := by
  constructor
  · intro h
    match d, h with
    | b :: hi :: lo :: rest, h =>
      simp only [decodeResponse] at h
      split at h
      · cases h
      · next status' hstatus =>
        split at h
        · cases h
        · next hlen =>
          cases h
          refine ⟨b, hi, lo, rest.drop (fromBeBytes hi lo), ?_, ?_, hstatus⟩
          · rw [List.take_append_drop]
          · rw [List.length_take]; omega
  · intro h
    obtain ⟨b, hi, lo, t, rfl, hlen, hstatus⟩ := h
    simp [decodeResponse, hstatus, ← hlen]

theorem Reply.found_stream_decode {s : Chunked UInt8} {value : Bytes} :
    (Reply.stream s).found = some value ↔
      decodeResponse s.data = .ok { status := .found, value } := by
  simp only [Reply.found]
  split
  · next v h => simp [h]
  · next h => simpa using h value

theorem readFrame_found_iff {s : Chunked UInt8} {value : Bytes} :
    readFrame s = .ok (0x00, value) ↔ decodeResponse s.data = .ok { status := .found, value } := by
  rw [readFrame_eq_ok_iff, decodeResponse_eq_ok_iff]
  simp only [Status.fromByte_eq_found_iff]
  constructor
  · intro h
    obtain ⟨hi, lo, t, hdata, hlen⟩ := h
    exact ⟨_, hi, lo, t, hdata, hlen, rfl⟩
  · intro h
    obtain ⟨b, hi, lo, t, hdata, hlen, rfl⟩ := h
    exact ⟨hi, lo, t, hdata, hlen⟩

theorem Reply.found_stream_eq_some_iff {s : Chunked UInt8} {value : Bytes} :
    (Reply.stream s).found = some value ↔ readFrame s = .ok (0x00, value) := by
  rw [found_stream_decode, readFrame_found_iff]

/-- The reply that carries a value. -/
def Reply.carrying (value : Bytes) : Reply :=
  .stream (.whole (Status.found.toByte :: (toBeBytes value.length ++ value)) .closed)

theorem Reply.found_carrying {value : Bytes} (h : value.length ≤ maxValueLen) :
    (Reply.carrying value).found = some value := by
  rw [carrying, found_stream_eq_some_iff, readFrame_eq_ok_iff]
  refine ⟨UInt8.ofNat (value.length / 256), UInt8.ofNat value.length, [], ?_, ?_⟩
  · simp [toBeBytes, Status.toByte]
  · exact (fromBeBytes_toBeBytes h).symm

/-! ## Recorded runs -/

structure Request where
  path : Bytes
  frame : Bytes
  deriving DecidableEq, Repr

/-- What a run has sent so far, and how often it has looked at the clock. -/
structure Trace where
  requests : List Request
  reads : Nat
  deriving DecidableEq, Repr

def Trace.start : Trace := { requests := [], reads := 0 }

/-- The trace after one more look at the clock. -/
def Trace.tick (t : Trace) : Trace := { t with reads := t.reads + 1 }

/-- The trace after a cache entry, if there is one, was compared with the clock. -/
def Trace.checked {ε : Type} (t : Trace) : Option ε → Trace
  | none => t
  | some _ => t.tick

/-- The trace after a request, if there is one to send. -/
def Trace.sent (t : Trace) (request : Option Request) : Trace :=
  { t with requests := t.requests ++ request.toList }

@[simp] theorem Trace.requests_tick (t : Trace) : t.tick.requests = t.requests := rfl

@[simp] theorem Trace.reads_tick (t : Trace) : t.tick.reads = t.reads + 1 := rfl

@[simp] theorem Trace.requests_checked {ε : Type} (t : Trace) (entry : Option ε) :
    (t.checked entry).requests = t.requests := by
  cases entry <;> rfl

theorem Trace.le_reads_checked {ε : Type} (t : Trace) (entry : Option ε) :
    t.reads ≤ (t.checked entry).reads := by
  cases entry <;> simp [Trace.checked]

@[simp] theorem Trace.requests_sent (t : Trace) (request : Option Request) :
    (t.sent request).requests = t.requests ++ request.toList := rfl

@[simp] theorem Trace.reads_sent (t : Trace) (request : Option Request) :
    (t.sent request).reads = t.reads := rfl

abbrev Recorded := StateM Trace

/-- An arbitrary agent, which answers knowing all requests up to the current one,
    and an arbitrary clock. -/
structure Oracle (Time : Type) where
  reply : List Request → Reply
  clock : Nat → Time

/-- Readings that never go back: what is younger than a bound at a reading was so at
    every reading before. -/
def Oracle.Forward {Time : Type} [Sub Time] [LT Time] (o : Oracle Time) : Prop :=
  ∀ k m n bound, m ≤ n → o.clock n - o.clock k < bound → o.clock m - o.clock k < bound

theorem Oracle.forward_of_le {o : Oracle Int} (h : ∀ m n, m ≤ n → o.clock m ≤ o.clock n) :
    o.Forward := by
  intro k m n bound hmn hage
  have hle := h m n hmn
  omega

/-- An agent that always says the same about a request. -/
def Oracle.Steady {Time : Type} (o : Oracle Time) (agent : Request → Reply) : Prop :=
  ∀ before request, o.reply (before ++ [request]) = agent request

def Oracle.world {Time : Type} (o : Oracle Time) : World Time Recorded where
  agent := fun path frame => fun t =>
    let requests := t.requests ++ [{ path, frame }]
    (o.reply requests, { t with requests })
  clock := fun t => (o.clock t.reads, { t with reads := t.reads + 1 })

/-- Run a computation after the trace `t`: its result, and the trace it leaves. -/
def Recorded.exec {α : Type} (x : Recorded α) (t : Trace) : α × Trace := x t

section

variable {α β Time : Type} (o : Oracle Time) (t : Trace)

@[simp] theorem Recorded.exec_pure (a : α) : exec (pure a) t = (a, t) := rfl

@[simp] theorem Recorded.exec_bind (x : Recorded α) (f : α → Recorded β) :
    exec (x >>= f) t = exec (f (exec x t).1) (exec x t).2 := rfl

@[simp] theorem Recorded.exec_map (f : α → β) (x : Recorded α) :
    exec (f <$> x) t = (f (exec x t).1, (exec x t).2) := rfl

@[simp] theorem Recorded.exec_agent (path frame : Bytes) :
    exec (o.world.agent path frame) t =
      (o.reply (t.requests ++ [⟨path, frame⟩]),
        { t with requests := t.requests ++ [⟨path, frame⟩] }) := rfl

@[simp] theorem Recorded.exec_clock :
    exec o.world.clock t = (o.clock t.reads, { t with reads := t.reads + 1 }) := rfl

end

/-- The agent that gives one answer to everything. -/
def Oracle.always {Time : Type} (reply : Reply) (time : Time) : Oracle Time where
  reply := fun _ => reply
  clock := fun _ => time

end EnvProxy
