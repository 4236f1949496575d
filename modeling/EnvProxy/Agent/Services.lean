-- SUMMARY: The backends as services of the server, and that each connection can be finished by its handler alone.
import EnvProxy.Agent.FileStartup
import EnvProxy.Agent.Handling
import EnvProxy.Agent.Kubernetes
import EnvProxy.Agent.RequestedKeys

/-!
# Services

The backends of the agent behind its server: calls of the Vault and of the file backend
are tasks of `VaultTasks` and `FileTasks`, the Kubernetes backend looks a key up in the
cache its watcher keeps, and the HTTP backend is a placeholder.
-/

namespace EnvProxy

open Server

/-! ## HTTP -/

namespace Http

/-- `HttpBackend::resolve`, which does not make a request yet. -/
def resolve (url key : Str) : ResolveResult :=
  .error (.unavailable ("HTTP backend not yet implemented (url: ".toList ++ url ++ ", key: ".toList ++
    key ++ ")".toList))

def backend (url : Str) : Backend Id := .ofResolve (resolve url)

theorem answer_eq (url : Str) (c : Call) : (backend url).answer c = resolve url c.key := by
  cases c <;> rfl

end Http

/-! ## Vault -/

namespace Vault

/-- The text a task works on. -/
def Phase.WorksOn (s : Str) : Phase → Prop
  | .idle => False
  | .checking s' _ | .reading s' _ | .caching s' _ _ | .done s' _ _ => s' = s
  | .panicked => True

theorem Does.worksOn {ttl : Nat} {a : Act} {sh sh' : Shared} {ph ph' : Phase} {s : Str}
    (h : Does ttl sh a ph sh' ph') (hworks : ph.WorksOn s) : ph'.WorksOn s := by
  cases h with
  | rejected _ | called _ => exact hworks.elim
  | overflowed _ => exact trivial
  | _ => exact hworks

theorem Does.worksOn_call {ttl : Nat} {sh sh' : Shared} {ph ph' : Phase} {s : Str}
    (h : Does ttl sh (.call s) ph sh' ph') : ph'.WorksOn s := by
  cases h <;> exact rfl

/-- The backend behind the server: a key alone is answered at once, a value is a task. -/
def service (ttl : Nat) : Service Shared Phase Act Event where
  tasks := tasks ttl
  calls := fun c =>
    match c with
    | .resolve key => .inl (resolve key)
    | .resolveWithValue _ value => .inr (.call value)
  outcome := Phase.outcome
  serves := fun c ph => ∃ key value, c = .resolveWithValue key value ∧ ph.WorksOn value
  serves_first := by
    intro c l s t s' t' hcalls hact
    cases c with
    | resolve key => cases hcalls
    | resolveWithValue key value =>
      cases hcalls
      exact ⟨key, value, rfl, (act_eq_some_iff.mp hact).worksOn_call⟩
  serves_act := by
    rintro c l s t s' t' ⟨key, value, rfl, hworks⟩ hact
    exact ⟨key, value, rfl, (act_eq_some_iff.mp hact).worksOn hworks⟩

theorem Does.service_act {ttl : Nat} {a : Act} {sh sh' : Shared} {ph ph' : Phase}
    (h : Does ttl sh a ph sh' ph') : (service ttl).tasks.act a sh ph = some (sh', ph') :=
  act_eq_some_iff.mpr h

/-- The backend as functions on its cache, at a time. -/
def backend (ttl : Nat) (read : Reader) (now : Nat) : Backend (Calls Cache) where
  resolve := fun key => pure (resolve key)
  resolveWithValue := fun _ value => .mk fun cache => resolveWithValue ttl read now now value cache

/-- A task that nobody disturbs performs the function. -/
theorem performs (ttl : Nat) (read : Reader) (sh : Shared) :
    Performs (service ttl) (backend ttl read sh.now) Shared.cache sh .idle where
  at_once := by
    intro c r hcalls
    cases c with
    | resolve key => cases hcalls; rfl
    | resolveWithValue key value => cases hcalls
  alone := by
    intro c l hcalls
    cases c with
    | resolve key => cases hcalls
    | resolveWithValue key value =>
      cases hcalls
      obtain ⟨as, ph, as', sh', ph', hbefore, hafter, houtcome, hcache⟩ :=
        alone_resolveWithValue ttl read sh value 0
      exact ⟨as ++ as', sh', ph', hbefore.append hafter, houtcome, hcache⟩

end Vault

/-! ## The secrets file -/

namespace FileBackend

variable {path : Str} {fromStr : Str → Except Str Data}

/-- The result of a call that is over. -/
def Phase.outcome : Phase → Option (Option ResolveResult)
  | .answered _ result => some (some result)
  | _ => none

/-- The key a call is for. -/
def Phase.Asks (key : Str) : Phase → Prop
  | .asked key' | .stated key' _ | .changed key' _ | .absent key' | .reread key' _ _ | .looking key'
  | .answered key' _ => key' = key
  | _ => False

theorem Does.asks {a : Act} {sh sh' : Shared} {ph ph' : Phase} {key : Str}
    (h : Does path fromStr sh a ph sh' ph') (hasks : ph.Asks key) : ph'.Asks key := by
  cases h with
  | called _ => exact hasks.elim
  | openedMissing _ | openedBroken _ | opened _ | cleared | sampled | rejected _ | loaded _ =>
    exact hasks.elim
  | _ => exact hasks

theorem Does.asks_call {sh sh' : Shared} {ph ph' : Phase} {key : Str}
    (h : Does path fromStr sh (.call key) ph sh' ph') : ph'.Asks key := by
  cases h
  exact rfl

variable (path fromStr)

/-- The backend behind the server. Values are ignored. -/
def service : Service Shared Phase Act Event where
  tasks := writtenTasks path fromStr
  calls := fun c => .inr (.call c.key)
  outcome := Phase.outcome
  serves := fun c ph => ph.Asks c.key
  serves_first := by
    intro c l s t s' t' hcalls hact
    cases hcalls
    exact (act_eq_some_iff.mp hact).asks_call
  serves_act := fun hserves hact => (act_eq_some_iff.mp hact).asks hserves

/-- The backend as functions on its cache, with this file in place. -/
def backend (file : Option SecretsFile) : Backend (Calls FileCache) :=
  .ofResolve fun key => .mk fun cache =>
    (some (resolve path fromStr file cache key).1, (resolve path fromStr file cache key).2)

theorem backend_answer (file : Option SecretsFile) (c : Call) (cache : FileCache) :
    ((backend path fromStr file).answer c).perform cache =
      (some (resolve path fromStr file cache c.key).1, (resolve path fromStr file cache c.key).2) := by
  cases c <;> rfl

/-- A task that nobody disturbs performs the function. -/
theorem performs {sh : Shared} (hready : sh.ready = true) :
    Performs (service path fromStr) (backend path fromStr sh.file) Shared.cache sh .idle where
  at_once := by
    intro c r hcalls
    cases hcalls
  alone := by
    intro c l hcalls
    cases hcalls
    obtain ⟨as, halone⟩ := @alone_called path fromStr sh hready c.key
    rw [backend_answer]
    exact ⟨as, _, _, written_alone halone, rfl, rfl⟩

end FileBackend

/-! ## Kubernetes -/

namespace Kubernetes

/-- The cache, and whether the watcher still follows the watch. `items` records what the
    watch has yielded; no act reads it. -/
structure Shared where
  data : Data
  watching : Bool
  items : List Item

inductive Phase where
  | idle
  | answered (key : Str) (result : ResolveResult)

/-- A call looks its key up. -/
def act : Str → Shared → Phase → Option (Shared × Phase)
  | key, sh, .idle => some (sh, .answered key (resolve sh.data key))
  | _, _, .answered _ _ => none

/-- The watch yields an item. The watcher returns at an error. -/
def event (item : Item) (sh : Shared) : Option Shared :=
  let items := sh.items ++ [item]
  if sh.watching then
    match item with
    | .ok e => some { data := handle sh.data e, watching := true, items }
    | .error _ => some { data := sh.data, watching := false, items }
  else some { sh with items }

/-- The backend behind the server. Values are ignored. -/
def service : Service Shared Phase Str Item where
  tasks := { act := act, env := event }
  calls := fun c => .inr c.key
  outcome := fun ph =>
    match ph with
    | .idle => none
    | .answered _ result => some (some result)
  serves := fun c ph =>
    match ph with
    | .idle => False
    | .answered key _ => key = c.key
  serves_first := by
    intro c l s t s' t' hcalls hact
    cases hcalls
    cases t with
    | idle => cases hact; exact rfl
    | answered key result => cases hact
  serves_act := by
    intro c l s t s' t' hserves hact
    cases t with
    | idle => exact hserves.elim
    | answered key result => cases hact

/-- `new` has returned the backend, and the watcher is running. -/
def start (got : Except Str Secret) : Pool Nat Shared Phase where
  shared := { data := initialData got, watching := true, items := [] }
  tasks := fun _ => .idle

end Kubernetes

/-! ## No connection waits for another -/

namespace Server

variable {σ τ ℓ ε κ : Type} {S : Service σ τ ℓ ε}

/-- The moves of one handler. -/
def onlyHandler (i : Nat) (_ : Pool Nat (Shared σ) (Conn τ)) : Move Nat (Act ℓ) (Event ε) → Prop
  | .task j (.handle _) => j = i
  | _ => False

/-- Whatever the state of the others, a connection whose client has sent its request, or
    has hung up, is finished by moves of its own handler, and as `handleConnection` says. -/
theorem reaches_handled {B : Backend (Calls κ)} {view : σ → κ} {p : Pool Nat (Shared σ) (Conn τ)}
    {i : Nat} (hrunning : p.shared.running = true) (hstage : (p.tasks i).stage = .reading)
    (hperforms : Performs S B view p.shared.backend (p.tasks i).task)
    (hwaits : readRequest (p.tasks i).stream ≠ .error .silent) :
    ∃ p', (machine S).Reaches (onlyHandler i) p p' ∧ (∀ j, j ≠ i → p'.tasks j = p.tasks j) ∧
      (p'.tasks i).stage =
        ending ((handleConnection B (p.tasks i).stream).perform (view p.shared.backend)).1 ∧
      view p'.shared.backend =
        ((handleConnection B (p.tasks i).stream).perform (view p.shared.backend)).2 := by
  obtain ⟨steps, s', c', halone, -, hends, hview⟩ := alone_handled hrunning hstage hperforms hwaits
  have honly : ∀ a ∈ steps.map Act.handle, ∀ p : Pool Nat (Shared σ) (Conn τ),
      onlyHandler i p (.task i a : Move Nat (Act ℓ) (Event ε)) := by
    intro a ha p
    obtain ⟨step, -, rfl⟩ := List.mem_map.mp ha
    exact rfl
  refine ⟨_, halone.reaches rfl honly, fun j hj => Function.update_of_ne hj _ _, ?_, hview⟩
  simp only [Function.update_self]
  exact hends

end Server

/-- A connection to an agent with the Vault backend, when Vault answers as `read`. -/
theorem Vault.connection_finishes (ttl : Nat) (read : Reader)
    (p : Pool Nat (Server.Shared Shared) (Conn Phase)) (i : Nat) (hrunning : p.shared.running = true)
    (hstage : (p.tasks i).stage = .reading) (hidle : (p.tasks i).task = .idle)
    (hwaits : readRequest (p.tasks i).stream ≠ .error .silent) :
    let handled := (handleConnection (backend ttl read p.shared.backend.now)
      (p.tasks i).stream).perform p.shared.backend.cache
    ∃ p', (Server.machine (service ttl)).Reaches (onlyHandler i) p p' ∧
      (∀ j, j ≠ i → p'.tasks j = p.tasks j) ∧ (p'.tasks i).stage = ending handled.1 ∧
      p'.shared.backend.cache = handled.2 := by
  have hperforms := performs ttl read p.shared.backend
  rw [← hidle] at hperforms
  exact reaches_handled hrunning hstage hperforms hwaits

/-- The variable `A` with the value `vault:m/data/p#k`, in one frame. -/
def referenceFrame : Bytes :=
  [2, 0, 1, 65, 0, 16, 118, 97, 117, 108, 116, 58, 109, 47, 100, 97, 116, 97, 47, 112, 35, 107]

/-- One client has stopped in the middle of its request, all others have sent theirs. -/
def oneStalled : Pool Nat (Server.Shared Vault.Shared) (Conn Vault.Phase) where
  shared := { running := true, backend := (Vault.start 0 fun _ _ => 1).shared }
  tasks := fun i =>
    { stream := .whole (referenceFrame.take (if i = 0 then 4 else 22)) .silent
      task := .idle
      stage := .reading }

/-- Vault refuses the read, and the client next to the stalled one is told so. -/
theorem Vault.connection_finishes_stalled :
    ∃ p, (Server.machine (service 60)).Reaches (onlyHandler 1) oneStalled p ∧
      (p.tasks 0).stage = .reading ∧
      (p.tasks 1).stage = ending (some
        { written := (respond (.error (vaultRead "denied".toList))).getD [], result := .ok () }) := by
  have hframe : encodeRequestV2 [65] (referenceFrame.drop 6) = some referenceFrame := by decide
  have hrequest : readRequest (oneStalled.tasks 1).stream = .ok (.request [65] (some (referenceFrame.drop 6))) :=
    readRequest_v2 (t := []) hframe rfl
  have hread : readRequest (oneStalled.tasks 1).stream ≠ .error .silent := by
    rw [hrequest]
    intro h
    cases h
  obtain ⟨p, hreaches, hothers, hends, -⟩ :=
    connection_finishes 60 (fun _ _ _ => .error "denied".toList) oneStalled 1 rfl rfl rfl hread
  refine ⟨p, hreaches, ?_, hends⟩
  rw [hothers 0 Nat.zero_ne_one]
  rfl

/-- A connection to an agent with the file backend. -/
theorem FileBackend.file_connection_finishes (path : Str) (fromStr : Str → Except Str Data)
    (p : Pool Nat (Server.Shared Shared) (Conn Phase)) (i : Nat) (hrunning : p.shared.running = true)
    (hready : p.shared.backend.ready = true)
    (hstage : (p.tasks i).stage = .reading) (hidle : (p.tasks i).task = .idle)
    (hwaits : readRequest (p.tasks i).stream ≠ .error .silent) :
    let handled := (handleConnection (backend path fromStr p.shared.backend.file)
      (p.tasks i).stream).perform p.shared.backend.cache
    ∃ p', (Server.machine (service path fromStr)).Reaches (onlyHandler i) p p' ∧
      (∀ j, j ≠ i → p'.tasks j = p.tasks j) ∧ (p'.tasks i).stage = ending handled.1 ∧
      p'.shared.backend.cache = handled.2 := by
  have hperforms := performs path fromStr hready
  rw [← hidle] at hperforms
  exact reaches_handled hrunning hstage hperforms hwaits

/-- The file was rotated since it was loaded. One client has stopped in the middle of its
    request, all others ask for `KEY`. -/
def askingRotated : Pool Nat (Server.Shared FileBackend.Shared) (Conn FileBackend.Phase) where
  shared := { running := true, backend := FileBackend.rotatedShared }
  tasks := fun i =>
    { stream := .whole (List.take (if i = 0 then 4 else 6) [1, 0, 3, 75, 69, 89]) .silent
      task := .idle
      stage := .reading }

theorem FileBackend.file_connection_finishes_rotated :
    ∃ p, (Server.machine (service [] readJson)).Reaches (onlyHandler 1) askingRotated p ∧
      (p.tasks 0).stage = .reading ∧
      (p.tasks 1).stage = ending (some
        { written := (respond (.ok (some "rotated".toList))).getD [], result := .ok () }) ∧
      p.shared.backend.cache = { data := single "rotated".toList, lastModified := some 2 } := by
  have hframe : encodeRequest [75, 69, 89] = some [1, 0, 3, 75, 69, 89] := by decide
  have hrequest : readRequest (askingRotated.tasks 1).stream = .ok (.request [75, 69, 89] none) :=
    readRequest_v1 (t := []) hframe rfl
  have hread : readRequest (askingRotated.tasks 1).stream ≠ .error .silent := by
    rw [hrequest]
    intro h
    cases h
  have hkey : (selectCall (Utf8.lossy [75, 69, 89]) none).key = "KEY".toList := by decide
  have hresolve : resolve [] readJson (some rotated) rotatedShared.cache "KEY".toList =
      (.ok (some "rotated".toList), { data := single "rotated".toList, lastModified := some 2 }) :=
    resolve_changed "KEY".toList rotated_holds (by decide)
  have hhandled : (handleConnection (backend [] readJson (some rotated))
      (askingRotated.tasks 1).stream).perform rotatedShared.cache =
        (some { written := (respond (.ok (some "rotated".toList))).getD [], result := .ok () },
          { data := single "rotated".toList, lastModified := some 2 }) := by
    rw [handleConnection_perform _ _ hrequest, backend_answer, hkey, hresolve]
    rfl
  obtain ⟨p, hreaches, hothers, hends, hcache⟩ :=
    file_connection_finishes [] readJson askingRotated 1 rfl rfl rfl rfl hread
  refine ⟨p, hreaches, ?_, hends.trans ?_, hcache.trans ?_⟩
  · rw [hothers 0 Nat.zero_ne_one]
    rfl
  · exact congrArg (fun handled => ending handled.1) hhandled
  · exact congrArg Prod.snd hhandled

end EnvProxy
