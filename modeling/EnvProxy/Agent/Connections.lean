-- SUMMARY: The agent's server with all its connections at once: each is answered for its own request, by its own call.
import EnvProxy.Agent.Requests
import EnvProxy.Library.Machine

/-!
# Connections

`Server::run` accepts connections and handles each in a task of its own; the tasks share
the backend. `Service` is a backend whose calls are tasks themselves. The state of a
connection is what its client has sent, the task of its backend call, and how far the
handler is. The reads of a handler touch its own stream only, so they are one step here:
the one that completes the request, or meets the end of the stream.

A run of the server is a run of the backend (`backend_reaches`), so what is known of the
backend's tasks holds behind the socket. `Conn.Honest` is what holds of every connection.
-/

namespace EnvProxy.Server

/-- A backend whose calls are tasks over a shared state. -/
structure Service (σ τ ℓ ε : Type) where
  tasks : Tasks σ τ ℓ ε
  /-- What a call begins with: a result at once, or an act of its task. -/
  calls : Call → ResolveResult ⊕ ℓ
  /-- What a task has come to, if it is over: a result, or none after a panic. -/
  outcome : τ → Option (Option ResolveResult)
  /-- The task works on the call. -/
  serves : Call → τ → Prop
  serves_first : ∀ {c l s t s' t'}, calls c = .inr l → tasks.act l s t = some (s', t') → serves c t'
  serves_act : ∀ {c l s t s' t'}, serves c t → tasks.act l s t = some (s', t') → serves c t'

/-- Why a connection was closed without its whole response: the request did not arrive,
    the call panicked, or the client was gone. -/
inductive Fault where
  | unread
  | panicked
  | unwritten
  deriving DecidableEq, Repr

inductive Stage where
  | connecting
  | reading
  | resolving (call : Call)
  | writing (response : Option Bytes)
  | closed (written : Bytes) (fault : Option Fault)

structure Conn (τ : Type) where
  /-- What the client has sent so far. -/
  stream : Chunked UInt8
  task : τ
  stage : Stage

structure Shared (σ : Type) where
  running : Bool
  backend : σ

/-- What the handler of a connection does next. -/
inductive Step (ℓ : Type) where
  | accept
  | read
  | call (l : ℓ)
  | answer
  | write
  /-- The write fails after some of the bytes. -/
  | fail (n : Nat)

inductive Act (ℓ : Type) where
  | send (chunk : Bytes)
  | hangUp
  | handle (step : Step ℓ)

inductive Event (ε : Type) where
  | backend (e : ε)
  /-- The server is told to shut down, or cannot accept any more. -/
  | stop

section

variable {σ τ ℓ ε : Type} (S : Service σ τ ℓ ε)

/-- The handler's task, on the state of the backend. -/
def handle (step : Step ℓ) (s : σ) (c : Conn τ) : Option (σ × Conn τ) :=
  match step, c.stage with
  | .accept, .connecting => some (s, { c with stage := .reading })
  | .read, .reading =>
    match readRequest c.stream with
    | .error .silent => none
    | .error .closed => some (s, { c with stage := .closed [] (some .unread) })
    | .ok (.unsupported version) =>
      let response := encodeResponse .error (Utf8.encode (unsupportedVersion version))
      some (s, { c with stage := .writing response })
    | .ok (.request key value) =>
      let call := selectCall (Utf8.lossy key) value
      match S.calls call with
      | .inl r => some (s, { c with stage := .writing (respond r) })
      | .inr l => (S.tasks.act l s c.task).map fun st =>
        (st.1, { c with task := st.2, stage := .resolving call })
  | .call l, .resolving _ => (S.tasks.act l s c.task).map fun st => (st.1, { c with task := st.2 })
  | .answer, .resolving _ =>
    match S.outcome c.task with
    | none => none
    | some none => some (s, { c with stage := .closed [] (some .panicked) })
    | some (some r) => some (s, { c with stage := .writing (respond r) })
  | .write, .writing response => some (s, { c with stage := .closed (response.getD []) none })
  | .fail n, .writing (some response) =>
    if n < response.length then
      some (s, { c with stage := .closed (response.take n) (some .unwritten) })
    else none
  | _, _ => none

def act : Act ℓ → Shared σ → Conn τ → Option (Shared σ × Conn τ)
  | .send chunk, sh, c =>
    if c.stream.ending = .silent then some (sh, { c with stream := c.stream.push chunk }) else none
  | .hangUp, sh, c => some (sh, { c with stream := c.stream.close })
  | .handle step, sh, c =>
    if sh.running then
      (handle S step sh.backend c).map fun sc => ({ sh with backend := sc.1 }, sc.2)
    else none

def event : Event ε → Shared σ → Option (Shared σ)
  | .backend e, sh => (S.tasks.env e sh.backend).map fun s => { sh with backend := s }
  | .stop, sh => some { sh with running := false }

def tasks : Tasks (Shared σ) (Conn τ) (Act ℓ) (Event ε) where
  act := act S
  env := event S

/-- The interleavings of any number of connections. -/
def machine : Machine (Pool Nat (Shared σ) (Conn τ)) (Move Nat (Act ℓ) (Event ε)) :=
  (tasks S).machine

end

variable {σ τ ℓ ε : Type} {S : Service σ τ ℓ ε}

/-- A client that has sent nothing yet. -/
def Conn.fresh (t : τ) : Conn τ where
  stream := .whole [] .silent
  task := t
  stage := .connecting

/-- The server has been bound to its socket, over a backend in this state. -/
def bound (q : Pool Nat σ τ) : Pool Nat (Shared σ) (Conn τ) where
  shared := { running := true, backend := q.shared }
  tasks := fun i => .fresh (q.tasks i)

/-- The backend behind the connections. -/
def backend (p : Pool Nat (Shared σ) (Conn τ)) : Pool Nat σ τ where
  shared := p.shared.backend
  tasks := fun i => (p.tasks i).task

/-! ## What a handler does -/

/-- The steps of a handler by what they do to the backend's state and the connection. -/
inductive Handles (S : Service σ τ ℓ ε) (s : σ) (c : Conn τ) : Step ℓ → σ → Conn τ → Prop where
  | accepted : c.stage = .connecting → Handles S s c .accept s { c with stage := .reading }
  | unread : c.stage = .reading → readRequest c.stream = .error .closed →
      Handles S s c .read s { c with stage := .closed [] (some .unread) }
  | unsupported {version} : c.stage = .reading →
      readRequest c.stream = .ok (.unsupported version) →
      Handles S s c .read s { c with
        stage := .writing (encodeResponse .error (Utf8.encode (unsupportedVersion version))) }
  | resolved {key value r} : c.stage = .reading →
      readRequest c.stream = .ok (.request key value) →
      S.calls (selectCall (Utf8.lossy key) value) = .inl r →
      Handles S s c .read s { c with stage := .writing (respond r) }
  | called {key value l s' t} : c.stage = .reading →
      readRequest c.stream = .ok (.request key value) →
      S.calls (selectCall (Utf8.lossy key) value) = .inr l → S.tasks.act l s c.task = some (s', t) →
      Handles S s c .read s'
        { c with task := t, stage := .resolving (selectCall (Utf8.lossy key) value) }
  | stepped {call l s' t} : c.stage = .resolving call → S.tasks.act l s c.task = some (s', t) →
      Handles S s c (.call l) s' { c with task := t }
  | panicked {call} : c.stage = .resolving call → S.outcome c.task = some none →
      Handles S s c .answer s { c with stage := .closed [] (some .panicked) }
  | answered {call r} : c.stage = .resolving call → S.outcome c.task = some (some r) →
      Handles S s c .answer s { c with stage := .writing (respond r) }
  | written {response} : c.stage = .writing response →
      Handles S s c .write s { c with stage := .closed (response.getD []) none }
  | unwritten {response n} : c.stage = .writing (some response) → n < response.length →
      Handles S s c (.fail n) s { c with stage := .closed (response.take n) (some .unwritten) }

theorem handles_of_handle {step : Step ℓ} {s s' : σ} {c c' : Conn τ}
    (h : handle S step s c = some (s', c')) : Handles S s c step s' c' := by
  unfold handle at h
  split at h
  · next hstage => cases h; exact .accepted hstage
  · next hstage =>
    split at h
    · cases h
    · next hread => cases h; exact .unread hstage hread
    · next version hread => cases h; exact .unsupported hstage hread
    · next key value hread =>
      simp only at h
      split at h
      · next r hcalls => cases h; exact .resolved hstage hread hcalls
      · next l hcalls =>
        obtain ⟨st, hact, heq⟩ := Option.map_eq_some_iff.mp h
        cases heq
        exact .called hstage hread hcalls hact
  · next hstage =>
    obtain ⟨st, hact, heq⟩ := Option.map_eq_some_iff.mp h
    cases heq
    exact .stepped hstage hact
  · next hstage =>
    split at h
    · cases h
    · next houtcome => cases h; exact .panicked hstage houtcome
    · next r houtcome => cases h; exact .answered hstage houtcome
  · next hstage => cases h; exact .written hstage
  · next hstage =>
    split at h
    · next hn => cases h; exact .unwritten hstage hn
    · cases h
  · cases h

theorem Handles.handle {step : Step ℓ} {s s' : σ} {c c' : Conn τ} (h : Handles S s c step s' c') :
    handle S step s c = some (s', c') := by
  cases h with
  | accepted hstage => simp only [Server.handle, hstage]
  | unread hstage hread => simp only [Server.handle, hstage, hread]
  | unsupported hstage hread => simp only [Server.handle, hstage, hread]
  | resolved hstage hread hcalls => simp only [Server.handle, hstage, hread, hcalls]
  | called hstage hread hcalls hact =>
    simp only [Server.handle, hstage, hread, hcalls, hact, Option.map_some]
  | stepped hstage hact => simp only [Server.handle, hstage, hact, Option.map_some]
  | panicked hstage houtcome => simp only [Server.handle, hstage, houtcome]
  | answered hstage houtcome => simp only [Server.handle, hstage, houtcome]
  | written hstage => simp only [Server.handle, hstage]
  | unwritten hstage hn => simp only [Server.handle, hstage, hn, if_true]

/-- What an act of a connection is: more of its stream, or a step of its handler. -/
theorem act_cases {a : Act ℓ} {sh sh' : Shared σ} {c c' : Conn τ}
    (h : act S a sh c = some (sh', c')) :
    (sh' = sh ∧ c.stream.ending = .silent ∧ (∃ chunk, a = .send chunk ∧
        c' = { c with stream := c.stream.push chunk })) ∨
      (sh' = sh ∧ a = .hangUp ∧ c' = { c with stream := c.stream.close }) ∨
      ∃ step s', a = .handle step ∧ sh.running = true ∧ Handles S sh.backend c step s' c' ∧
        sh' = { sh with backend := s' } := by
  cases a with
  | send chunk =>
    simp only [act] at h
    split at h
    · next hsilent => cases h; exact .inl ⟨rfl, hsilent, chunk, rfl, rfl⟩
    · cases h
  | hangUp => cases h; exact .inr (.inl ⟨rfl, rfl, rfl⟩)
  | handle step =>
    simp only [act] at h
    split at h
    · next hrunning =>
      obtain ⟨sc, hhandle, heq⟩ := Option.map_eq_some_iff.mp h
      cases heq
      exact .inr (.inr ⟨step, sc.1, rfl, hrunning, handles_of_handle hhandle, rfl⟩)
    · cases h

theorem Handles.act {step : Step ℓ} {sh : Shared σ} {s' : σ} {c c' : Conn τ}
    (h : Handles S sh.backend c step s' c') (hrunning : sh.running = true) :
    act S (.handle step) sh c = some ({ sh with backend := s' }, c') := by
  simp only [Server.act, hrunning, if_true, h.handle, Option.map_some]

/-- A connection that is not accepted yet has not been touched. -/
theorem connecting_reaches {ok : Pool Nat (Shared σ) (Conn τ) → Move Nat (Act ℓ) (Event ε) → Prop}
    {p p' : Pool Nat (Shared σ) (Conn τ)} (h : (machine S).Reaches ok p p') {i : Nat}
    (hstage : (p'.tasks i).stage = .connecting) :
    (p.tasks i).stage = .connecting ∧ (p.tasks i).task = (p'.tasks i).task := by
  induction h with
  | refl => exact ⟨hstage, rfl⟩
  | @step p₂ p₃ move _ _ hstep ih =>
    suffices hbefore : (p₂.tasks i).stage = .connecting ∧ (p₂.tasks i).task = (p₃.tasks i).task by
      obtain ⟨hfirst, htask⟩ := ih hbefore.1
      exact ⟨hfirst, htask.trans hbefore.2⟩
    cases move with
    | env e =>
      obtain ⟨sh', -, rfl⟩ := Tasks.step_env_iff.mp hstep
      exact ⟨hstage, rfl⟩
    | task j a =>
      obtain ⟨sh', c', hact, rfl⟩ := Tasks.step_task_iff.mp hstep
      by_cases hj : i = j
      · subst hj
        simp only [Function.update_self] at hstage ⊢
        rcases act_cases hact with ⟨-, -, chunk, -, rfl⟩ | ⟨-, -, rfl⟩ | ⟨step, s', -, -, hhandles, -⟩
        · exact ⟨hstage, rfl⟩
        · exact ⟨hstage, rfl⟩
        · cases hhandles with
          | stepped hresolving _ => rw [hresolving] at hstage; cases hstage
          | _ => cases hstage
      · simp only [Function.update_of_ne hj] at hstage ⊢
        exact ⟨hstage, trivial⟩

/-! ## The backend behind the server -/

/-- The act of the backend that a step of a handler performs. -/
def Step.backendAct (S : Service σ τ ℓ ε) (c : Conn τ) : Step ℓ → Option ℓ
  | .call l => some l
  | .read =>
    match readRequest c.stream with
    | .ok (.request key value) => (S.calls (selectCall (Utf8.lossy key) value)).getRight?
    | _ => none
  | _ => none

/-- A guard on the backend, as one on the server. -/
def guarded (S : Service σ τ ℓ ε) (g : Tasks.Guard σ τ ℓ ε) :
    Tasks.Guard (Shared σ) (Conn τ) (Act ℓ) (Event ε) where
  act := fun a sh c =>
    match a with
    | .handle step => ∀ l, step.backendAct S c = some l → g.act l sh.backend c.task
    | _ => True
  env := fun e sh =>
    match e with
    | .backend e => g.env e sh.backend
    | .stop => True

/-- A step of a handler leaves the backend alone, or is an act of the connection's own
    task. -/
theorem Handles.backend_cases {step : Step ℓ} {s s' : σ} {c c' : Conn τ}
    (h : Handles S s c step s' c') :
    (s' = s ∧ c'.task = c.task) ∨
      ∃ l, step.backendAct S c = some l ∧ S.tasks.act l s c.task = some (s', c'.task) := by
  cases h with
  | called hstage hread hcalls hact =>
    refine .inr ⟨_, ?_, hact⟩
    simp only [Step.backendAct, hread, hcalls, Sum.getRight?_inr]
  | stepped hstage hact => exact .inr ⟨_, rfl, hact⟩
  | _ => exact .inl ⟨rfl, rfl⟩

theorem backend_update {p : Pool Nat (Shared σ) (Conn τ)} {i : Nat} {sh : Shared σ} {c : Conn τ} :
    backend { shared := sh, tasks := Function.update p.tasks i c } =
      { shared := sh.backend, tasks := Function.update (backend p).tasks i c.task } := by
  simp only [backend, Pool.mk.injEq, true_and]
  funext j
  by_cases hj : j = i
  · subst hj
    simp only [Function.update_self]
  · simp only [Function.update_of_ne hj]

/-- A move of the server is one of the backend, or none. -/
theorem backend_step {g : Tasks.Guard σ τ ℓ ε} {p p' : Pool Nat (Shared σ) (Conn τ)}
    {move : Move Nat (Act ℓ) (Event ε)} (hok : (guarded S g).ok p move)
    (h : (machine S).step p move = some p') :
    backend p' = backend p ∨
      ∃ move', g.ok (backend p) move' ∧ S.tasks.machine.step (backend p) move' = some (backend p') := by
  cases move with
  | task i a =>
    obtain ⟨sh', c', hact, rfl⟩ := Tasks.step_task_iff.mp h
    rw [backend_update]
    have hsame : c'.task = (p.tasks i).task → sh'.backend = p.shared.backend →
        ({ shared := sh'.backend, tasks := Function.update (backend p).tasks i c'.task } : Pool Nat σ τ) =
          backend p := by
      intro htask hshared
      have hself : Function.update (backend p).tasks i c'.task = (backend p).tasks := by
        rw [htask]
        exact Function.update_eq_self i _
      rw [hself, hshared]
      rfl
    rcases act_cases hact with ⟨rfl, -, chunk, -, rfl⟩ | ⟨rfl, -, rfl⟩ | ⟨step, s', rfl, -, hhandles, rfl⟩
    · exact .inl (hsame rfl rfl)
    · exact .inl (hsame rfl rfl)
    · rcases hhandles.backend_cases with ⟨rfl, htask⟩ | ⟨l, hl, hl'⟩
      · exact .inl (hsame htask rfl)
      · exact .inr ⟨.task i l, hok l hl, Tasks.step_task_iff.mpr ⟨_, _, hl', rfl⟩⟩
  | env e =>
    obtain ⟨sh', henv, rfl⟩ := Tasks.step_env_iff.mp h
    cases e with
    | backend e =>
      obtain ⟨s', he, rfl⟩ := Option.map_eq_some_iff.mp henv
      exact .inr ⟨.env e, hok, Tasks.step_env_iff.mpr ⟨s', he, rfl⟩⟩
    | stop =>
      cases henv
      exact .inl rfl

/-- The backend's tasks behind the connections make a run of the backend. -/
theorem backend_reaches {g : Tasks.Guard σ τ ℓ ε} {p p' : Pool Nat (Shared σ) (Conn τ)}
    (h : (machine S).Reaches (guarded S g).ok p p') :
    S.tasks.machine.Reaches g.ok (backend p) (backend p') :=
  h.simulates (f := backend) fun _ _ _ hok hstep => backend_step hok hstep

/-! ## What holds of a connection -/

/-- The call has this result: at once, or as the outcome of the task. -/
def Service.Returns (S : Service σ τ ℓ ε) (call : Call) (t : τ) (r : ResolveResult) : Prop :=
  S.calls call = .inl r ∨ (S.serves call t ∧ S.outcome t = some (some r))

/-- The response to what a client has sent, the result of its call included. -/
inductive Owed (S : Service σ τ ℓ ε) (stream : Chunked UInt8) (t : τ) : Option Bytes → Prop where
  | unsupported {version} : Requests stream.data (.unsupported version) →
      Owed S stream t (encodeResponse .error (Utf8.encode (unsupportedVersion version)))
  | request {key value r} : Requests stream.data (.request key value) →
      S.Returns (selectCall (Utf8.lossy key) value) t r → Owed S stream t (respond r)

/-- The task works on the call the client has asked for. -/
def Calling (S : Service σ τ ℓ ε) (stream : Chunked UInt8) (t : τ) (call : Call) : Prop :=
  ∃ key value, Requests stream.data (.request key value) ∧
    call = selectCall (Utf8.lossy key) value ∧ S.serves call t

/-- What holds of a connection: all that is written is the response it is owed, or the
    front of it if the client is gone. -/
def Conn.Honest (S : Service σ τ ℓ ε) (c : Conn τ) : Prop :=
  match c.stage with
  | .connecting | .reading => True
  | .resolving call => Calling S c.stream c.task call
  | .writing response => Owed S c.stream c.task response
  | .closed written none => ∃ response, Owed S c.stream c.task response ∧ written = response.getD []
  | .closed written (some .unwritten) =>
    ∃ response, Owed S c.stream c.task (some response) ∧ written <+: response ∧ written ≠ response
  | .closed written (some .unread) =>
    written = [] ∧ c.stream.ending = .closed ∧ ∀ incoming, ¬ Requests c.stream.data incoming
  | .closed written (some .panicked) =>
    written = [] ∧ ∃ call, Calling S c.stream c.task call ∧ S.outcome c.task = some none

theorem Owed.stream {stream stream' : Chunked UInt8} {t : τ} {response : Option Bytes}
    (h : Owed S stream t response) (hdata : stream.data <+: stream'.data) : Owed S stream' t response := by
  obtain ⟨more, hmore⟩ := hdata
  cases h with
  | unsupported hrequests => exact .unsupported (hmore ▸ hrequests.append more)
  | request hrequests hreturns => exact .request (hmore ▸ hrequests.append more) hreturns

theorem Calling.stream {stream stream' : Chunked UInt8} {t : τ} {call : Call}
    (h : Calling S stream t call) (hdata : stream.data <+: stream'.data) : Calling S stream' t call := by
  obtain ⟨key, value, hrequests, hcall, hserves⟩ := h
  obtain ⟨more, hmore⟩ := hdata
  exact ⟨key, value, hmore ▸ hrequests.append more, hcall, hserves⟩

/-- What a client sends behind its request, or after it was given up, changes nothing. -/
theorem Conn.Honest.stream {c : Conn τ} {stream' : Chunked UInt8} (h : c.Honest S)
    (hdata : c.stream.data <+: stream'.data)
    (hclosed : c.stream.ending = .closed → stream'.ending = .closed ∧ stream'.data = c.stream.data) :
    ({ c with stream := stream' } : Conn τ).Honest S := by
  obtain ⟨stream, t, stage⟩ := c
  match stage, h with
  | .connecting, _ | .reading, _ => exact trivial
  | .resolving call, h => exact Calling.stream h hdata
  | .writing response, h => exact Owed.stream h hdata
  | .closed written none, ⟨response, howed, hwritten⟩ => exact ⟨response, howed.stream hdata, hwritten⟩
  | .closed written (some .unwritten), ⟨response, howed, hwritten⟩ =>
    exact ⟨response, howed.stream hdata, hwritten⟩
  | .closed written (some .unread), ⟨hwritten, hending, hnone⟩ =>
    obtain ⟨hending', hsame⟩ := hclosed hending
    refine ⟨hwritten, hending', fun incoming => ?_⟩
    change ¬ Requests stream'.data incoming
    rw [hsame]
    exact hnone incoming
  | .closed written (some .panicked), ⟨hwritten, call, hcalling, houtcome⟩ =>
    exact ⟨hwritten, call, hcalling.stream hdata, houtcome⟩

/-- A step of the handler keeps it so. -/
theorem Handles.honest {step : Step ℓ} {s s' : σ} {c c' : Conn τ} (h : Handles S s c step s' c')
    (hc : c.Honest S) : c'.Honest S := by
  obtain ⟨stream, t, stage⟩ := c
  cases h with
  | accepted _ => exact trivial
  | unread hstage hread =>
    obtain ⟨hending, hnone⟩ : stream.ending = .closed ∧ ∀ incoming, ¬ Requests stream.data incoming :=
      ⟨(readRequest_error hread).symm, not_requests_of_error hread⟩
    exact ⟨rfl, hending, hnone⟩
  | unsupported hstage hread => exact .unsupported (readRequest_iff.mp hread)
  | resolved hstage hread hcalls => exact .request (readRequest_iff.mp hread) (.inl hcalls)
  | called hstage hread hcalls hact =>
    exact ⟨_, _, readRequest_iff.mp hread, rfl, S.serves_first hcalls hact⟩
  | stepped hstage hact =>
    simp only at hstage
    subst hstage
    obtain ⟨key, value, hrequests, hcall, hserves⟩ := hc
    exact ⟨key, value, hrequests, hcall, S.serves_act hserves hact⟩
  | panicked hstage houtcome =>
    simp only at hstage
    subst hstage
    exact ⟨rfl, _, hc, houtcome⟩
  | answered hstage houtcome =>
    simp only at hstage
    subst hstage
    obtain ⟨key, value, hrequests, rfl, hserves⟩ := hc
    exact .request hrequests (.inr ⟨hserves, houtcome⟩)
  | written hstage =>
    simp only at hstage
    subst hstage
    exact ⟨_, hc, rfl⟩
  | @unwritten response n hstage hn =>
    simp only at hstage
    subst hstage
    refine ⟨response, hc, List.take_prefix n response, fun hwhole => ?_⟩
    have hlen := congrArg List.length hwhole
    rw [List.length_take] at hlen
    omega

def honesty (S : Service σ τ ℓ ε) : Tasks.Inv Nat (Shared σ) (Conn τ) where
  shared := fun _ => True
  task := fun _ _ c => c.Honest S

theorem honesty_kept (g : Tasks.Guard (Shared σ) (Conn τ) (Act ℓ) (Event ε)) :
    (honesty S).Kept (tasks S) g where
  act := by
    intro i a sh c sh' c' _ _ hc hact
    refine ⟨trivial, ?_⟩
    rcases act_cases hact with ⟨-, hsilent, chunk, -, rfl⟩ | ⟨-, -, rfl⟩ | ⟨step, s', -, -, hhandles, -⟩
    · refine Conn.Honest.stream hc ?_ fun hclosed => ?_
      · rw [Chunked.push_data]
        exact List.prefix_append _ _
      · rw [hsilent] at hclosed
        cases hclosed
    · exact Conn.Honest.stream hc List.prefix_rfl fun _ => ⟨rfl, rfl⟩
    · exact hhandles.honest hc
  act_stable := fun _ _ _ _ hu _ => hu
  env := fun _ _ _ => trivial
  env_stable := fun _ _ hu _ => hu

theorem honest_reaches {g : Tasks.Guard σ τ ℓ ε} {q : Pool Nat σ τ} {p : Pool Nat (Shared σ) (Conn τ)}
    (h : (machine S).Reaches (guarded S g).ok (bound q) p) (i : Nat) : (p.tasks i).Honest S :=
  ((honesty_kept _).reaches h ⟨trivial, fun _ => trivial⟩).2 i

/-- A run without restrictions, as one that keeps to none. -/
theorem reaches_guarded {p p' : Pool Nat (Shared σ) (Conn τ)}
    (h : (machine S).Reaches Machine.anyMove p p') :
    (machine S).Reaches (guarded S .any).ok p p' := by
  refine h.mono fun p move _ => ?_
  match move with
  | .task i (.send _) | .task i .hangUp | .env .stop => exact trivial
  | .task i (.handle step) => exact fun _ _ => trivial
  | .env (.backend e) => exact trivial

theorem backend_reaches_any {p p' : Pool Nat (Shared σ) (Conn τ)}
    (h : (machine S).Reaches Machine.anyMove p p') :
    S.tasks.machine.Reaches Machine.anyMove (backend p) (backend p') :=
  (backend_reaches (reaches_guarded h)).mono fun _ _ _ => trivial

/-! ## Backends without a state -/

/-- A backend that answers every call at once. -/
def Service.ofBackend (B : Backend Id) : Service Unit Unit Empty Empty where
  tasks := { act := fun _ _ _ => none, env := fun _ _ => none }
  calls := fun c => .inl (B.answer c)
  outcome := fun _ => none
  serves := fun _ _ => False
  serves_first := by
    intro c l s t s' t' hcalls hact
    cases hact
  serves_act := fun hserves _ => hserves

theorem returns_ofBackend {B : Backend Id} {call : Call} {r : ResolveResult}
    (h : (Service.ofBackend B).Returns call () r) : B.answer call = r := by
  rcases h with hnow | hlater
  · exact Sum.inl.inj hnow
  · exact hlater.1.elim

/-- Tasks that have nothing to do. -/
def unit : Pool Nat Unit Unit where
  shared := ()
  tasks := fun _ => ()

/-- The agent that answers every key with itself. -/
def echo : Backend Id := .ofResolve fun key => .ok (some key)

/-- It answers a client while another one has sent half of its header. -/
theorem reaches_echoed :
    ∃ p, (machine (.ofBackend echo)).Reaches Machine.anyMove (bound unit) p ∧
      (p.tasks 1).stage = .closed [0, 0, 1, 66] none ∧ (p.tasks 1).stream.data = [1, 0, 1, 66] := by
  let p₀ := bound unit
  have hfirst : ∃ c, (tasks (.ofBackend echo)).Alone [.send [1, 0], .handle .accept] p₀.shared
      (Conn.fresh ()) p₀.shared c := ⟨_, .cons rfl (.cons rfl .nil)⟩
  obtain ⟨c, hfirst⟩ := hfirst
  let p₁ : Pool Nat (Shared Unit) (Conn Unit) :=
    { shared := p₀.shared, tasks := Function.update p₀.tasks 0 c }
  have hsecond : ∃ d, d.stage = .closed [0, 0, 1, 66] none ∧ d.stream.data = [1, 0, 1, 66] ∧
      (tasks (.ofBackend echo)).Alone
        [.send [1, 0, 1, 66], .handle .accept, .handle .read, .handle .write] p₁.shared
        (Conn.fresh ()) p₁.shared d :=
    ⟨_, rfl, rfl, .cons rfl (.cons rfl (.cons rfl (.cons rfl .nil)))⟩
  obtain ⟨d, hstage, hdata, hsecond⟩ := hsecond
  have hidle : p₁.tasks 1 = Conn.fresh () := Function.update_of_ne Nat.one_ne_zero c _
  have hrun : (machine (.ofBackend echo)).Reaches Machine.anyMove p₀
      { shared := p₁.shared, tasks := Function.update p₁.tasks 1 d } :=
    (hfirst.reaches rfl fun _ _ _ => trivial).trans (hsecond.reaches hidle fun _ _ _ => trivial)
  refine ⟨_, hrun, ?_⟩
  simp only [Function.update_self]
  exact ⟨hstage, hdata⟩

/-! ## All connections at once -/

/-- However the connections interleave, their calls make a run of the backend, and every
    connection is written the response to its own request, with the result of its own
    call. -/
theorem answers_honestly (S : Service σ τ ℓ ε) (g : Tasks.Guard σ τ ℓ ε) (q : Pool Nat σ τ)
    (p : Pool Nat (Shared σ) (Conn τ)) (h : (machine S).Reaches (guarded S g).ok (bound q) p) :
    S.tasks.machine.Reaches g.ok q (backend p) ∧ ∀ i, (p.tasks i).Honest S :=
  ⟨backend_reaches h, honest_reaches h⟩

theorem answers_honestly_echo :
    ∃ p : Pool Nat (Shared Unit) (Conn Unit), (p.tasks 1).stage = .closed [0, 0, 1, 66] none ∧
      ∀ i, (p.tasks i).Honest (.ofBackend echo) := by
  obtain ⟨p, hrun, hstage, -⟩ := reaches_echoed
  exact ⟨p, hstage, (answers_honestly (.ofBackend echo) .any unit p (reaches_guarded hrun)).2⟩

/-- With a backend that is a function, all the connections together are written what the
    handler writes to each alone. -/
theorem handled_as_function (B : Backend Id) (p : Pool Nat (Shared Unit) (Conn Unit)) (i : Nat)
    (h : (machine (.ofBackend B)).Reaches Machine.anyMove (bound unit) p) (written : Bytes)
    (hclosed : (p.tasks i).stage = .closed written none) :
    written = (handleConnection B (p.tasks i).stream).written := by
  have hhonest := honest_reaches (reaches_guarded h) i
  unfold Conn.Honest at hhonest
  rw [hclosed] at hhonest
  obtain ⟨response, howed, rfl⟩ := hhonest
  cases howed with
  | unsupported hrequests =>
    rw [handleConnection_written B (readRequest_iff.mpr hrequests)]
    rfl
  | request hrequests hreturns =>
    rw [handleConnection_written B (readRequest_iff.mpr hrequests), ← returns_ofBackend hreturns,
      respond_eq]
    rfl

theorem handled_as_function_echo :
    ∃ p : Pool Nat (Shared Unit) (Conn Unit), (p.tasks 1).stream.data = [1, 0, 1, 66] ∧
      [0, 0, 1, 66] = (handleConnection echo (p.tasks 1).stream).written := by
  obtain ⟨p, hrun, hstage, hdata⟩ := reaches_echoed
  exact ⟨p, hdata, handled_as_function echo p 1 hrun _ hstage⟩

end EnvProxy.Server
