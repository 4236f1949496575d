-- SUMMARY: A connection handled while the others rest: the server does what the handler does, for the Vault and the file backend.
import EnvProxy.Agent.Connections
import EnvProxy.Agent.FileTasks
import EnvProxy.Agent.VaultTasks

/-!
# Handling one connection

`handleConnection` is the handler as one function over a backend with a state, and a call
that may panic. The machine does the same when only one handler moves: `Performs` says so
of the calls of a service, `alone_handled` of its connections. Nothing another connection
does can keep it from that, whatever state it was left in.
-/

namespace EnvProxy.Server

/-- Calls over a state, which may panic. -/
abbrev Calls (κ : Type) := OptionT (StateM κ)

/-- The result of such a computation, unless it panicked, and the state it leaves. -/
def Calls.perform {κ α : Type} (x : Calls κ α) (k : κ) : Option α × κ := x.run.run k

section

variable {κ α β : Type}

@[simp] theorem Calls.perform_pure (a : α) (k : κ) : perform (pure a) k = (some a, k) := rfl

theorem Calls.perform_bind (x : Calls κ α) (f : α → Calls κ β) (k : κ) :
    perform (x >>= f) k =
      match (perform x k).1 with
      | some a => perform (f a) (perform x k).2
      | none => (none, (perform x k).2) := by
  change perform (OptionT.bind x f) k = _
  simp only [perform, OptionT.bind, OptionT.run, OptionT.mk]
  change StateT.run (StateT.bind x _) k = _
  simp only [StateT.run, StateT.bind, bind]
  generalize x k = result
  obtain ⟨a, k'⟩ := result
  cases a <;> rfl

end

/-- How a connection ends, by what its handler returns. -/
def ending : Option Handled → Stage
  | some { written, result := .ok () } => .closed written none
  | some { written, result := .error _ } => .closed written (some .unread)
  | none => .closed [] (some .panicked)

/-- What its client gets. -/
def sentTo : Option Handled → Bytes
  | some handled => handled.written
  | none => []

theorem ending_eq_closed (o : Option Handled) : ∃ fault, ending o = .closed (sentTo o) fault := by
  match o with
  | some { written, result := .ok () } => exact ⟨none, rfl⟩
  | some { written, result := .error _ } => exact ⟨some .unread, rfl⟩
  | none => exact ⟨some .panicked, rfl⟩

variable {σ τ ℓ ε κ : Type} {S : Service σ τ ℓ ε}

/-- In the state `s` the calls of the service, performed by a task that is in `t`, do what
    those of the backend do on the state that `view` shows. -/
structure Performs (S : Service σ τ ℓ ε) (B : Backend (Calls κ)) (view : σ → κ) (s : σ) (t : τ) :
    Prop where
  at_once : ∀ {c r}, S.calls c = .inl r → (B.answer c).perform (view s) = (some r, view s)
  alone : ∀ {c l}, S.calls c = .inr l → ∃ ls s' t', S.tasks.Alone (l :: ls) s t s' t' ∧
    S.outcome t' = some ((B.answer c).perform (view s)).1 ∧
    view s' = ((B.answer c).perform (view s)).2

/-! ## Steps in a row -/

theorem Handles.alone {step : Step ℓ} {steps : List (Step ℓ)} {sh : Shared σ} {s' s'' : σ}
    {c c' c'' : Conn τ} (hrunning : sh.running = true) (h : Handles S sh.backend c step s' c')
    (hrest : (tasks S).Alone (steps.map Act.handle) { sh with backend := s' } c'
      { sh with backend := s'' } c'') :
    (tasks S).Alone ((step :: steps).map Act.handle) sh c { sh with backend := s'' } c'' :=
  .cons (h.act hrunning) hrest

/-- The acts of the call, as steps of the handler. -/
theorem alone_call {ls : List ℓ} {sh : Shared σ} {s' : σ} {c : Conn τ} {t' : τ} {call : Call}
    (hrunning : sh.running = true) (hstage : c.stage = .resolving call)
    (h : S.tasks.Alone ls sh.backend c.task s' t') :
    (tasks S).Alone ((ls.map Step.call).map Act.handle) sh c { sh with backend := s' }
      { c with task := t' } := by
  generalize hs : sh.backend = s at h
  generalize ht : c.task = t at h
  induction h generalizing sh c with
  | nil =>
    subst hs ht
    exact .nil
  | @cons l ls s s₁ s₂ t t₁ t₂ hact _ ih =>
    subst hs ht
    have hstep : Handles S sh.backend c (.call l) s₁ { c with task := t₁ } := .stepped hstage hact
    have hrunning' : ({ sh with backend := s₁ } : Shared σ).running = true := hrunning
    have hstage' : ({ c with task := t₁ } : Conn τ).stage = .resolving call := hstage
    exact hstep.alone hrunning (ih hrunning' hstage' rfl rfl)

/-- The response, written and done. -/
theorem alone_write {sh : Shared σ} {c : Conn τ} {response : Option Bytes} (hrunning : sh.running = true)
    (hstage : c.stage = .writing response) :
    (tasks S).Alone ([Step.write].map Act.handle) sh c sh
      { c with stage := .closed (response.getD []) none } :=
  (Handles.written hstage).alone hrunning .nil

/-- A call that has come to an outcome, up to the end of its connection. -/
theorem alone_outcome {sh : Shared σ} {c : Conn τ} {call : Call} {o : Option ResolveResult}
    (hrunning : sh.running = true) (hstage : c.stage = .resolving call)
    (houtcome : S.outcome c.task = some o) :
    ∃ steps : List (Step ℓ), (tasks S).Alone (steps.map Act.handle) sh c sh
      { c with stage := ending (o.map fun r => { written := (respond r).getD [], result := .ok () }) } := by
  cases o with
  | none => exact ⟨[.answer], (Handles.panicked hstage houtcome).alone hrunning .nil⟩
  | some r =>
    exact ⟨[.answer, .write],
      (Handles.answered hstage houtcome).alone hrunning (alone_write hrunning rfl)⟩

/-! ## The handler -/

/-- What the handler does with a request: one call, and the response to its outcome. -/
theorem handleConnection_perform (B : Backend (Calls κ)) {stream : Chunked UInt8} {key : Bytes}
    {value : Option Bytes} (k : κ) (h : readRequest stream = .ok (.request key value)) :
    (handleConnection B stream).perform k =
      (((B.answer (selectCall (Utf8.lossy key) value)).perform k).1.map fun r =>
        { written := (respond r).getD [], result := .ok () },
        ((B.answer (selectCall (Utf8.lossy key) value)).perform k).2) := by
  rw [handleConnection_request B h, Calls.perform_bind]
  split
  · next r hr => rw [hr]; rfl
  · next hr => rw [hr]; rfl

/-- A connection whose client has sent its request, or has hung up, ends as its handler
    says when nobody else moves, in whatever state it was left. -/
theorem alone_handled {B : Backend (Calls κ)} {view : σ → κ} {sh : Shared σ} {c : Conn τ}
    (hrunning : sh.running = true) (hstage : c.stage = .reading)
    (hperforms : Performs S B view sh.backend c.task) (hwaits : readRequest c.stream ≠ .error .silent) :
    ∃ (steps : List (Step ℓ)) (s' : σ) (c' : Conn τ),
      (tasks S).Alone (steps.map Act.handle) sh c { sh with backend := s' } c' ∧
      c'.stream = c.stream ∧
      c'.stage = ending ((handleConnection B c.stream).perform (view sh.backend)).1 ∧
      view s' = ((handleConnection B c.stream).perform (view sh.backend)).2 := by
  cases hread : readRequest c.stream with
  | error e =>
    cases e with
    | silent => exact absurd hread hwaits
    | closed =>
      have hhandled : (handleConnection B c.stream).perform (view sh.backend) =
          (some { written := [], result := .error .closed }, view sh.backend) := by
        simp only [handleConnection, hread, Calls.perform_pure]
      rw [hhandled]
      exact ⟨[.read], _, _, (Handles.unread hstage hread).alone hrunning .nil, rfl, rfl, rfl⟩
  | ok incoming =>
    cases incoming with
    | unsupported version =>
      let response := encodeResponse .error (Utf8.encode (unsupportedVersion version))
      have hhandled : (handleConnection B c.stream).perform (view sh.backend) =
          (some { written := response.getD [], result := .ok () }, view sh.backend) := by
        simp only [handleConnection, hread, Calls.perform_pure, response]
      rw [hhandled]
      exact ⟨[.read, .write], _, _,
        (Handles.unsupported hstage hread).alone hrunning (alone_write hrunning rfl), rfl, rfl, rfl⟩
    | request key value =>
      rw [handleConnection_perform B _ hread]
      cases hcalls : S.calls (selectCall (Utf8.lossy key) value) with
      | inl r =>
        rw [hperforms.at_once hcalls]
        exact ⟨[.read, .write], _, _,
          (Handles.resolved hstage hread hcalls).alone hrunning (alone_write hrunning rfl), rfl, rfl, rfl⟩
      | inr l =>
        obtain ⟨ls, s', t', halone, houtcome, hview⟩ := hperforms.alone hcalls
        cases halone with
        | @cons _ _ _ s₁ _ _ t₁ _ hact hrest =>
        let called : Conn τ :=
          { c with task := t₁, stage := .resolving (selectCall (Utf8.lossy key) value) }
        have hcalled : Handles S sh.backend c .read s₁ called := .called hstage hread hcalls hact
        let sh₁ : Shared σ := { sh with backend := s₁ }
        let sh₂ : Shared σ := { sh with backend := s' }
        let finished : Conn τ := { called with task := t' }
        have hacts := @alone_call _ _ _ _ S _ sh₁ _ called _ _ hrunning rfl hrest
        obtain ⟨steps, hends⟩ := @alone_outcome _ _ _ _ S sh₂ finished _ _ hrunning rfl houtcome
        have hrun := hacts.append hends
        rw [← List.map_append] at hrun
        exact ⟨_, _, _, hcalled.alone hrunning hrun, rfl, rfl, hview⟩

end EnvProxy.Server
