-- SUMMARY: Agents that come and go at one socket path: who can be reached there, and what a killed one leaves.
import EnvProxy.Library.Machine

/-!
# The life of an agent

An agent takes the path of its socket when it starts, and gives it back when it is told to
stop. In between, and when it is killed, the path is only a name: whoever starts next removes
what is there, and whoever stops next does so as well. `agent_reachable` is about agents one
after the other, as a container is restarted; `takeover_unreachable` shows two at a time.
-/

namespace EnvProxy.Lifecycle

/-- What is at the path. A socket file outlives the process that has bound it. -/
inductive Node where
  | socket (agent : Nat)
  /-- A file, or a link to something that is there. -/
  | file
  | directory
  /-- A link to something that is not there. -/
  | dangling
  deriving DecidableEq

inductive Ended where
  | shutdown
  | bindError
  | serverError
  | killed
  deriving DecidableEq

inductive Phase where
  | absent
  /-- `Server::bind`, with the parent directory there. -/
  | prepared
  | removing
  | binding
  | serving
  /-- The shutdown signal was received. -/
  | stopping
  | ended (e : Ended)
  deriving DecidableEq

structure Agent where
  id : Nat
  phase : Phase

/-- What an agent does next. A call of the filesystem may fail. -/
inductive Act where
  | createDirAll (ok : Bool)
  | exists
  | removeFile (ok : Bool)
  | bind (ok : Bool)
  | acceptError
  | interrupt
  | cleanUp
  | kill

/-- `Path::exists`, which follows links. -/
def exist : Option Node → Bool
  | some .dangling => false
  | path => path.isSome

/-- `remove_file`: the node is gone, unless it is a directory or nothing. -/
def removable : Option Node → Bool
  | some (.socket _) => true
  | some .file => true
  | some .directory => false
  | some .dangling => true
  | none => false

/-- `main` from the socket on, on the node at the path. -/
def act (a : Act) (path : Option Node) (agent : Agent) : Option (Option Node × Agent) :=
  let goto (path : Option Node) (phase : Phase) := some (path, { agent with phase })
  match a, agent.phase with
  | .createDirAll ok, .absent => goto path (if ok then .prepared else .ended .bindError)
  -- Remove stale socket file if it exists.
  | .exists, .prepared => goto path (if exist path then .removing else .binding)
  | .removeFile ok, .removing =>
    if ok && removable path then goto none .binding else goto path (.ended .bindError)
  -- A socket is bound where there is nothing, not even a link.
  | .bind ok, .binding =>
    if ok && path.isNone then goto (some (.socket agent.id)) .serving
    else goto path (.ended .bindError)
  | .acceptError, .serving => goto path (.ended .serverError)
  | .interrupt, .serving => goto path .stopping
  -- Clean up socket file; its result is ignored.
  | .cleanUp, .stopping => goto (if removable path then none else path) (.ended .shutdown)
  | .kill, .absent => none
  | .kill, .ended _ => none
  | .kill, _ => goto path (.ended .killed)
  | _, _ => none

def tasks : Tasks (Option Node) Agent Act Empty where
  act := act
  env := fun e => nomatch e

/-- Any number of agents at one path. -/
def machine : Machine (Pool Nat (Option Node) Agent) (Move Nat Act Empty) := tasks.machine

/-- No agent has been started, and this is at the path. -/
def start (path : Option Node) : Pool Nat (Option Node) Agent where
  shared := path
  tasks := fun id => { id, phase := .absent }

/-! ## Steps -/

/-- Started, and not ended. -/
def Phase.Active : Phase → Prop
  | .absent => False
  | .ended _ => False
  | _ => True

/-- The steps by what they do to the path and the phase. -/
inductive Does (path : Option Node) (agent : Agent) : Act → Option Node → Phase → Prop where
  | started : agent.phase = .absent → Does path agent (.createDirAll true) path .prepared
  | unprepared : agent.phase = .absent → Does path agent (.createDirAll false) path (.ended .bindError)
  | occupied : agent.phase = .prepared → exist path = true → Does path agent .exists path .removing
  | free : agent.phase = .prepared → exist path = false → Does path agent .exists path .binding
  | removed : agent.phase = .removing → Does path agent (.removeFile true) none .binding
  | bound : agent.phase = .binding → path = none →
      Does path agent (.bind true) (some (.socket agent.id)) .serving
  | interrupted : agent.phase = .serving → Does path agent .interrupt path .stopping
  | cleaned : agent.phase = .stopping →
      Does path agent .cleanUp (if removable path then none else path) (.ended .shutdown)
  /-- An agent ends, and the path stays as it is. -/
  | finished {a e} : agent.phase.Active → Does path agent a path (.ended e)

theorem act_does {a : Act} {path path' : Option Node} {agent agent' : Agent}
    (h : act a path agent = some (path', agent')) :
    agent'.id = agent.id ∧ Does path agent a path' agent'.phase := by
  have hactive {phase : Phase} (hphase : agent.phase = phase) (hphaseActive : phase.Active) :
      agent.phase.Active := hphase ▸ hphaseActive
  unfold act at h
  dsimp only at h
  split at h
  · next ok hphase =>
    cases ok with
    | true =>
      cases h
      exact ⟨rfl, .started hphase⟩
    | false =>
      cases h
      exact ⟨rfl, .unprepared hphase⟩
  · next hphase =>
    cases hexist : exist path with
    | false =>
      rw [hexist] at h
      cases h
      exact ⟨rfl, .free hphase hexist⟩
    | true =>
      rw [hexist] at h
      cases h
      exact ⟨rfl, .occupied hphase hexist⟩
  · next ok hphase =>
    split at h
    · next hok =>
      cases h
      rw [Bool.and_eq_true] at hok
      rw [hok.1]
      exact ⟨rfl, .removed hphase⟩
    · cases h
      exact ⟨rfl, .finished (hactive hphase trivial)⟩
  · next ok hphase =>
    split at h
    · next hok =>
      cases h
      rw [Bool.and_eq_true] at hok
      rw [hok.1]
      exact ⟨rfl, .bound hphase (Option.isNone_iff_eq_none.mp hok.2)⟩
    · cases h
      exact ⟨rfl, .finished (hactive hphase trivial)⟩
  · next hphase =>
    cases h
    exact ⟨rfl, .finished (hactive hphase trivial)⟩
  · next hphase =>
    cases h
    exact ⟨rfl, .interrupted hphase⟩
  · next hphase =>
    cases h
    exact ⟨rfl, .cleaned hphase⟩
  · cases h
  · cases h
  · next habsent hended =>
    cases h
    refine ⟨rfl, .finished ?_⟩
    cases hphase : agent.phase with
    | absent => exact absurd hphase habsent
    | ended e => exact absurd hphase (hended e)
    | _ => exact trivial
  · cases h

/-! ## One after the other -/

/-- An agent is started when all others are gone. -/
def Exclusive (p : Pool Nat (Option Node) Agent) : Move Nat Act Empty → Prop
  | .task i (.createDirAll _) => ∀ j, j ≠ i → ¬ (p.tasks j).phase.Active
  | _ => True

/-- What is at the path while an agent is in a phase. -/
def Phase.Owns (id : Nat) (path : Option Node) : Phase → Prop
  | .binding => path = none ∨ path = some .dangling
  | .serving => path = some (.socket id)
  | .stopping => path = some (.socket id)
  | _ => True

structure Orderly (p : Pool Nat (Option Node) Agent) : Prop where
  id : ∀ i, (p.tasks i).id = i
  one : ∀ i j, (p.tasks i).phase.Active → (p.tasks j).phase.Active → i = j
  owns : ∀ i, (p.tasks i).phase.Owns i p.shared

theorem orderly_start (path : Option Node) : Orderly (start path) where
  id := fun _ => rfl
  one := fun _ _ h => h.elim
  owns := fun _ => trivial

/-- A phase that is not active owns nothing. -/
theorem Phase.owns_of_not_active {phase : Phase} (h : ¬ phase.Active) (id : Nat)
    (path : Option Node) : phase.Owns id path := by
  cases phase with
  | absent => exact trivial
  | ended e => exact trivial
  | _ => exact absurd trivial h

theorem of_not_exist {path : Option Node} (h : exist path = false) :
    path = none ∨ path = some .dangling := by
  cases path with
  | none => exact .inl rfl
  | some node =>
    cases node with
    | dangling => exact .inr rfl
    | _ => cases h

/-- The step leaves the agent with the path it needs. -/
theorem Does.owns {a : Act} {path path' : Option Node} {agent : Agent} {phase : Phase}
    (h : Does path agent a path' phase) (howns : agent.phase.Owns agent.id path) :
    phase.Owns agent.id path' := by
  cases h with
  | free _ hpath => exact of_not_exist hpath
  | removed _ => exact .inl rfl
  | bound _ _ => exact rfl
  | interrupted hphase =>
    rw [hphase] at howns
    exact howns
  | started _ => exact trivial
  | unprepared _ => exact trivial
  | occupied _ _ => exact trivial
  | cleaned _ => exact trivial
  | finished _ => exact trivial

/-- Only the first act makes an agent active. -/
theorem Does.active {a : Act} {path path' : Option Node} {agent : Agent} {phase : Phase}
    (h : Does path agent a path' phase) (hstart : ∀ ok, a ≠ .createDirAll ok) :
    agent.phase.Active := by
  cases h with
  | started _ => exact absurd rfl (hstart true)
  | unprepared _ => exact absurd rfl (hstart false)
  | occupied hphase _ => exact hphase ▸ trivial
  | free hphase _ => exact hphase ▸ trivial
  | removed hphase => exact hphase ▸ trivial
  | bound hphase _ => exact hphase ▸ trivial
  | interrupted hphase => exact hphase ▸ trivial
  | cleaned hphase => exact hphase ▸ trivial
  | finished hactive => exact hactive

theorem Orderly.step {p p' : Pool Nat (Option Node) Agent} {move : Move Nat Act Empty}
    (h : Orderly p) (hok : Exclusive p move) (hstep : machine.step p move = some p') : Orderly p' := by
  cases move with
  | env e => cases e
  | task i a =>
    obtain ⟨path, agent, hact, rfl⟩ := Tasks.step_task_iff.mp hstep
    obtain ⟨hid, hdoes⟩ := act_does hact
    have hself : (p.tasks i).id = i := h.id i
    -- Nobody else is active when an agent acts.
    have hothers : ∀ j, j ≠ i → ¬ (p.tasks j).phase.Active := by
      by_cases hstart : ∃ ok, a = .createDirAll ok
      · obtain ⟨ok, rfl⟩ := hstart
        exact hok
      · have hactive := hdoes.active fun ok heq => hstart ⟨ok, heq⟩
        exact fun j hj hother => hj (h.one j i hother hactive)
    constructor
    · intro j
      dsimp only
      by_cases hj : j = i
      · subst hj
        rw [Function.update_self]
        exact hid.trans hself
      · rw [Function.update_of_ne hj]
        exact h.id j
    · dsimp only
      have honly : ∀ j, (Function.update p.tasks i agent j).phase.Active → j = i := by
        intro j hactive
        by_cases hj : j = i
        · exact hj
        · rw [Function.update_of_ne hj] at hactive
          exact absurd hactive (hothers j hj)
      intro j k hj hk
      rw [honly j hj, honly k hk]
    · intro j
      dsimp only
      by_cases hj : j = i
      · subst hj
        have hbefore : (p.tasks j).phase.Owns (p.tasks j).id p.shared := by
          rw [hself]
          exact h.owns j
        have hafter := hdoes.owns hbefore
        rw [hself] at hafter
        rw [Function.update_self]
        exact hafter
      · rw [Function.update_of_ne hj]
        exact Phase.owns_of_not_active (hothers j hj) j path

theorem orderly_reaches {path : Option Node} {p : Pool Nat (Option Node) Agent}
    (h : machine.Reaches Exclusive (start path) p) : Orderly p :=
  h.invariant (orderly_start path) fun _ _ _ horderly hok hstep => horderly.step hok hstep

/-! ## Starting over -/

/-- What an agent does when the parent directory is there: it removes what is at the path. -/
def comingUp (path : Option Node) : List Act :=
  if exist path then [.exists, .removeFile true, .bind true] else [.exists, .bind true]

theorem alone_comingUp {path : Option Node} (hpath : path ≠ some .directory)
    (hlink : path ≠ some .dangling) (id : Nat) :
    tasks.Alone (comingUp path) path { id, phase := .prepared } (some (.socket id))
      { id, phase := .serving } := by
  cases path with
  | none => exact .cons rfl (.cons rfl .nil)
  | some node =>
    cases node with
    | socket agent => exact .cons rfl (.cons rfl (.cons rfl .nil))
    | file => exact .cons rfl (.cons rfl (.cons rfl .nil))
    | directory => exact absurd rfl hpath
    | dangling => exact absurd rfl hlink

theorem exclusive_comingUp (path : Option Node) (i : Nat) :
    ∀ a ∈ comingUp path, ∀ p, Exclusive p (.task i a) := by
  intro a ha p
  cases a with
  | createDirAll ok =>
    unfold comingUp at ha
    split at ha <;> simp at ha
  | _ => exact trivial

/-- Whatever is left at the path but a directory or a dangling link, an agent that starts
    alone comes up. -/
theorem reaches_serving {p : Pool Nat (Option Node) Agent} {i : Nat}
    (habsent : p.tasks i = { id := i, phase := .absent })
    (hothers : ∀ j, ¬ (p.tasks j).phase.Active) (hpath : p.shared ≠ some .directory)
    (hlink : p.shared ≠ some .dangling) :
    ∃ p', machine.Reaches Exclusive p p' ∧ p'.shared = some (.socket i) ∧
      (p'.tasks i).phase = .serving := by
  let prepared : Pool Nat (Option Node) Agent :=
    { p with tasks := Function.update p.tasks i { id := i, phase := .prepared } }
  have hstart : machine.step p (.task i (.createDirAll true)) = some prepared := by
    refine Tasks.step_task_iff.mpr ⟨p.shared, { id := i, phase := .prepared }, ?_, rfl⟩
    rw [habsent]
    rfl
  have hself : prepared.tasks i = { id := i, phase := .prepared } := Function.update_self ..
  have halone : tasks.Alone (comingUp p.shared) prepared.shared { id := i, phase := .prepared }
      (some (.socket i)) { id := i, phase := .serving } := alone_comingUp hpath hlink i
  have hup := halone.reaches hself (exclusive_comingUp p.shared i)
  have hexclusive : Exclusive p (.task i (.createDirAll true)) := fun j _ => hothers j
  refine ⟨_, .head hexclusive hstart hup, rfl, ?_⟩
  dsimp only
  rw [Function.update_self]

/-- Agents of which each is started when the others are gone, however they went: while one
    serves the path leads to it, one that binds finds the path free or a dangling link, and
    when all are gone the next one can come up, unless a directory or a dangling link is at
    the path. -/
theorem agent_reachable {path : Option Node} {p : Pool Nat (Option Node) Agent}
    (h : machine.Reaches Exclusive (start path) p) (i : Nat) :
    ((p.tasks i).phase = .serving → p.shared = some (.socket i)) ∧
    ((p.tasks i).phase = .binding → p.shared = none ∨ p.shared = some .dangling) ∧
    ((p.tasks i).phase = .absent → (∀ j, ¬ (p.tasks j).phase.Active) → p.shared ≠ some .directory →
      p.shared ≠ some .dangling → ∃ p', machine.Reaches Exclusive p p' ∧ p'.shared = some (.socket i) ∧
        (p'.tasks i).phase = .serving) := by
  have horderly := orderly_reaches h
  have howns := horderly.owns i
  refine ⟨fun hserving => ?_, fun hbinding => ?_, fun habsent hothers hpath hlink => ?_⟩
  · rw [hserving] at howns
    exact howns
  · rw [hbinding] at howns
    exact howns
  · have hagent : p.tasks i = { id := i, phase := .absent } := by
      rw [← habsent]
      exact congrArg (fun id => { id, phase := (p.tasks i).phase : Agent }) (horderly.id i)
    exact reaches_serving hagent hothers hpath hlink

/-- The first agent was killed, and its socket is still there. -/
theorem exists_leftBehind :
    ∃ p, machine.Reaches Exclusive (start none) p ∧ p.shared = some (.socket 0) ∧
      (p.tasks 1).phase = .absent ∧ ∀ j, ¬ (p.tasks j).phase.Active := by
  have hfirst : Exclusive (start none) (.task 0 (.createDirAll true)) := fun _ _ h => h.elim
  refine ⟨_, .head hfirst rfl <| .head (a := .task 0 .exists) trivial rfl <|
    .head (a := .task 0 (.bind true)) trivial rfl <| .head (a := .task 0 .kill) trivial rfl .refl,
    rfl, rfl, ?_⟩
  intro j
  by_cases hj : j = 0
  · subst hj
    exact fun h => h.elim
  · simp only [Function.update_of_ne hj]
    exact fun h => h.elim

theorem agent_reachable_restarted :
    ∃ p p', machine.Reaches Exclusive (start none) p ∧ p.shared = some (.socket 0) ∧
      machine.Reaches Exclusive p p' ∧ p'.shared = some (.socket 1) ∧ (p'.tasks 1).phase = .serving := by
  obtain ⟨p, hreaches, hleft, habsent, hothers⟩ := exists_leftBehind
  have hpath : p.shared ≠ some .directory := by
    rw [hleft]
    decide
  have hlink : p.shared ≠ some .dangling := by
    rw [hleft]
    decide
  obtain ⟨p', hup⟩ := (agent_reachable hreaches 1).2.2 habsent hothers hpath hlink
  exact ⟨p, p', hreaches, hleft, hup⟩

/-- Of two agents at a time the first one, when it stops, takes the path of the second. -/
theorem takeover_unreachable :
    ∃ p, machine.Reaches Machine.anyMove (start none) p ∧ (p.tasks 1).phase = .serving ∧
      p.shared = none := by
  refine ⟨_, .head (a := .task 0 (.createDirAll true)) trivial rfl <|
    .head (a := .task 0 .exists) trivial rfl <|
    .head (a := .task 0 (.bind true)) trivial rfl <|
    .head (a := .task 1 (.createDirAll true)) trivial rfl <|
    .head (a := .task 1 .exists) trivial rfl <|
    .head (a := .task 1 (.removeFile true)) trivial rfl <|
    .head (a := .task 1 (.bind true)) trivial rfl <|
    .head (a := .task 0 .interrupt) trivial rfl <|
    .head (a := .task 0 .cleanUp) trivial rfl .refl, rfl, rfl⟩

end EnvProxy.Lifecycle
