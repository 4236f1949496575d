-- SUMMARY: The library constructor, which seeds variables for the Python and Java hooks, and what the agent can influence in them.
import EnvProxy.Client.Getenv

/-!
# The library constructor

`init` runs before `main` and writes `PYTHONPATH` and `JAVA_TOOL_OPTIONS`. It reads
variables with `std::env::var`, which goes through the symbol `getenv` and so, in the
process the library is loaded into, through its own override.
-/

namespace EnvProxy.Libenvproxy

/-! ## Files -/

/-- The directory of the library as the dynamic linker reports it, and the part of
    the filesystem the constructor looks at. -/
structure FileLayout where
  soDir : Option CStr
  fileExists : CStr → Bool
  canonicalize : CStr → Option CStr

def isUtf8 (s : CStr) : Bool := (Utf8.decode? s.bytes).isSome

/-- `Path::join` with a relative path. -/
def join (dir path : CStr) : CStr :=
  match dir.bytes.getLast? with
  | none => path
  | some b => if b = 47 then dir ++ path else dir ++ .lit "/" ++ path

/-- Search a support directory: the override, then the candidates next to the library. -/
def searchDir (fs : FileLayout) (subdir marker : CStr) (override : Option CStr) : Option CStr :=
  match override.filter fun path => fs.fileExists (join path marker) with
  | some path => some path
  | none => do
    let soDir ← fs.soDir
    let candidates := [
      join soDir (.lit "envproxy/" ++ subdir),
      join soDir (.lit "../share/envproxy/" ++ subdir),
      join soDir (.lit "../" ++ subdir),
      join soDir (.lit "../../support/" ++ subdir)]
    let candidate ← candidates.find? fun candidate => fs.fileExists (join candidate marker)
    (fs.canonicalize candidate).filter isUtf8

def searchFile (fs : FileLayout) (subdir filename : CStr) (override : Option CStr) : Option CStr := do
  let dir ← searchDir fs subdir filename override
  if fs.fileExists (join dir filename) then some (join dir filename) else none

/-! ## Hooks -/

/-- The runtimes a variable is seeded for. -/
inductive Hook where
  | python
  | java
  deriving DecidableEq, Repr

namespace Hook

/-- Set to `1`, this variable keeps the hook from being set up. -/
def optOut : Hook → CStr
  | .python => .lit "ENVPROXY_NO_PYTHON"
  | .java   => .lit "ENVPROXY_NO_JAVA"

/-- `ENVPROXY_<SUBDIR>_PATH`. -/
def overrideKey : Hook → CStr
  | .python => .lit "ENVPROXY_PYTHON_PATH"
  | .java   => .lit "ENVPROXY_JAVA_PATH"

/-- The variable the hook seeds. -/
def target : Hook → CStr
  | .python => .lit "PYTHONPATH"
  | .java   => .lit "JAVA_TOOL_OPTIONS"

def search (fs : FileLayout) : Hook → Option CStr → Option CStr
  | .python => searchDir fs (.lit "python") (.lit "sitecustomize.py")
  | .java   => searchFile fs (.lit "java") (.lit "envproxy-agent.jar")

/-- The new value, from the support path and the existing value. -/
def seed (path : CStr) : Hook → Option CStr → CStr
  | .python, existing =>
    match existing.filter fun e => !e.bytes.isEmpty with
    | some existing => path ++ .lit ":" ++ existing
    | none => path
  | .java, existing =>
    let agentOpts := .lit "--add-opens=java.base/java.lang=ALL-UNNAMED -javaagent:" ++ path
    match existing.filter fun e => !e.bytes.isEmpty with
    | some existing => existing ++ .lit " " ++ agentOpts
    | none => agentOpts

theorem optOut_config (h : Hook) : h.optOut.startsWith configPrefix := by cases h <;> decide

theorem overrideKey_config (h : Hook) : h.overrideKey.startsWith configPrefix := by
  cases h <;> decide

theorem target_not_config (h : Hook) : ¬ h.target.startsWith configPrefix := by
  cases h <;> decide

end Hook

/-! ## The constructor -/

section

variable {Time : Type} {m : Type → Type} [Monad m]

/-- `std::env::var`: the value `getenv` returns, if it is UTF-8. -/
def envVar (w : World Time m) (env : Environ) (name : CStr) : StateT Statics m (Option CStr) := do
  let value ← getenv w env name
  pure (value.filter isUtf8)

def setupHook (w : World Time m) (fs : FileLayout) (h : Hook) (env : Environ) :
    StateT Statics m Environ := do
  let optedOut ← envVar w env h.optOut
  if optedOut = some (.lit "1") then
    pure env
  else
    let override ← envVar w env h.overrideKey
    match h.search fs override with
    | none => pure env
    | some path =>
      let existing ← envVar w env h.target
      pure (env.set h.target (h.seed path existing))

def setupPythonHook (w : World Time m) (fs : FileLayout) (env : Environ) :
    StateT Statics m Environ :=
  setupHook w fs .python env

def setupJavaHook (w : World Time m) (fs : FileLayout) (env : Environ) :
    StateT Statics m Environ :=
  setupHook w fs .java env

/-- `_envproxy_init`: the environment block it leaves. -/
def init (w : World Time m) (fs : FileLayout) (env : Environ) : StateT Statics m Environ := do
  let env ← setupPythonHook w fs env
  setupJavaHook w fs env

end

/-! ## What one hook does -/

namespace Hook

/-- The support path a hook finds, unless it is opted out of. -/
def found (fs : FileLayout) (env : Environ) (h : Hook) : Option CStr :=
  if (env.get h.optOut.bytes).filter isUtf8 = some (.lit "1") then none
  else h.search fs ((env.get h.overrideKey.bytes).filter isUtf8)

/-- The environment a hook leaves when its target reads as `value`. -/
def seeded (fs : FileLayout) (env : Environ) (h : Hook) (value : Option CStr) : Environ :=
  match h.found fs env with
  | none => env
  | some path => env.set h.target (h.seed path (value.filter isUtf8))

/-- Whether reading the target of a hook reaches the agent. -/
def asks (fs : FileLayout) (env : Environ) (h : Hook) : Bool :=
  isEnabled env && (h.found fs env).isSome &&
    (encode h.target.bytes (currentValue (env.get h.target.bytes))).isSome

/-- A nonempty existing value can be read off the new one. -/
theorem seed_injective {path a b : CStr} {h : Hook} (ha : a.bytes ≠ []) (hb : b.bytes ≠ [])
    (heq : h.seed path (some a) = h.seed path (some b)) : a = b := by
  have hbytes := congrArg CStr.bytes heq
  have ha' : a.bytes.isEmpty = false := by simpa using ha
  have hb' : b.bytes.isEmpty = false := by simpa using hb
  cases h with
  | python =>
    simp only [seed, Option.filter, ha', hb', Bool.not_false, if_true] at hbytes
    exact CStr.ext (List.append_cancel_left hbytes)
  | java =>
    simp only [seed, Option.filter, ha', hb', Bool.not_false, if_true] at hbytes
    exact CStr.ext (List.append_cancel_right (List.append_cancel_right hbytes))

theorem seeded_get_ne (fs : FileLayout) (env : Environ) (h : Hook) (value : Option CStr)
    {name : Bytes} (hname : name ≠ h.target.bytes) :
    (h.seeded fs env value).get name = env.get name := by
  simp only [seeded]
  cases h.found fs env with
  | none => rfl
  | some path => exact Environ.get_set_ne env _ hname

theorem seeded_get_self {fs : FileLayout} {env : Environ} {h : Hook} {path : CStr}
    (hfound : h.found fs env = some path) (value : Option CStr) :
    (h.seeded fs env value).get h.target.bytes = some (h.seed path (value.filter isUtf8)) := by
  simp only [seeded, hfound]
  exact Environ.get_set_self env _ _

end Hook

theorem isEnabled_seeded (fs : FileLayout) (env : Environ) (h : Hook) (value : Option CStr) :
    isEnabled (h.seeded fs env value) = isEnabled env := by
  have hne : envproxyEnabled.bytes ≠ h.target.bytes := by cases h <;> decide
  simp only [isEnabled, h.seeded_get_ne fs env value hne]

/-- The cached flag agrees with the environment a hook leaves if it did before. -/
theorem enabledIn_seeded {statics : Statics} {env : Environ}
    (hon : statics.enabledIn env = isEnabled env) (fs : FileLayout) (h : Hook) (value : Option CStr) :
    statics.enabledIn (h.seeded fs env value) = isEnabled (h.seeded fs env value) := by
  simp only [Statics.enabledIn, isEnabled_seeded] at hon ⊢
  exact hon

/-- What the Java hook finds and asks does not depend on what the Python hook wrote. -/
theorem asks_java_seeded (fs : FileLayout) (env : Environ) (value : Option CStr) :
    Hook.java.asks fs (Hook.python.seeded fs env value) = Hook.java.asks fs env := by
  have hget : ∀ name : CStr, name.bytes ≠ Hook.python.target.bytes →
      (Hook.python.seeded fs env value).get name.bytes = env.get name.bytes :=
    fun _ hname => Hook.python.seeded_get_ne fs env value hname
  have hoptOut := hget Hook.java.optOut (by decide)
  have hoverride := hget Hook.java.overrideKey (by decide)
  have htarget := hget Hook.java.target (by decide)
  simp only [Hook.asks, Hook.found, isEnabled_seeded, hoptOut, hoverride, htarget]

section

variable {Time : Type} {m : Type → Type} [Monad m] [LawfulMonad m]

theorem envVar_run_config (w : World Time m) (env : Environ) {name : CStr} (statics : Statics)
    (h : name.startsWith configPrefix) :
    (envVar w env name).run statics = pure ((env.get name.bytes).filter isUtf8, statics) := by
  simp [envVar, getenv_run_config w env statics h]

/-- A hook reads one variable that is not a configuration variable: its target. -/
theorem setupHook_run (w : World Time m) (fs : FileLayout) (h : Hook) (env : Environ)
    (statics : Statics) :
    (setupHook w fs h env).run statics =
      match h.found fs env with
      | none => pure (env, statics)
      | some _ => (getenv w env h.target).run statics >>= fun r =>
          pure (h.seeded fs env r.1, r.2) := by
  simp only [setupHook, StateT.run_bind, envVar_run_config w env statics h.optOut_config, pure_bind]
  by_cases hopt : (env.get h.optOut.bytes).filter isUtf8 = some (.lit "1")
  · simp [Hook.found, hopt]
  · have hfound : h.found fs env = h.search fs ((env.get h.overrideKey.bytes).filter isUtf8) := by
      simp only [Hook.found, if_neg hopt]
    simp only [if_neg hopt, StateT.run_bind, envVar_run_config w env statics h.overrideKey_config,
      pure_bind, ← hfound]
    cases hpath : h.found fs env with
    | none => rfl
    | some path => simp [envVar, Hook.seeded, hpath]

/-- A hook that does not ask leaves an environment the agent has no part in. -/
theorem setupHook_run_unasked (fs : FileLayout) {h : Hook} {env : Environ} {statics : Statics}
    (hon : statics.enabledIn env = isEnabled env) (hasks : h.asks fs env = false) :
    ∃ statics', statics'.enabledIn env = isEnabled env ∧
      ∀ w : World Time m, (setupHook w fs h env).run statics =
        pure (h.seeded fs env (env.get h.target.bytes), statics') := by
  cases hfound : h.found fs env with
  | none =>
    refine ⟨statics, hon, fun w => ?_⟩
    simp [setupHook_run, Hook.seeded, hfound]
  | some path =>
    cases hen : isEnabled env with
    | false =>
      refine ⟨statics.fillEnabled env, hon.trans hen, fun w => ?_⟩
      simp only [setupHook_run, hfound,
        getenv_run_disabled w env h.target_not_config (hon.trans hen), pure_bind]
    | true =>
      refine ⟨(statics.fillEnabled env).fillSocket env, hon.trans hen, fun w => ?_⟩
      have hencode : encode h.target.bytes (currentValue (env.get h.target.bytes)) = none := by
        simpa [Hook.asks, hen, hfound] using hasks
      simp only [setupHook_run, hfound,
        getenv_run_enabled w env h.target_not_config (hon.trans hen), hencode, pure_bind]

/-- A hook that asks writes what the agent answers. -/
theorem setupHook_run_asked (w : World Time m) (fs : FileLayout) {h : Hook} {env : Environ}
    {statics : Statics} (hon : statics.enabledIn env = isEnabled env) (hasks : h.asks fs env = true) :
    ∃ frame statics', (setupHook w fs h env).run statics =
      w.agent (statics.socketIn env) frame >>= fun reply =>
        pure (h.seeded fs env ((received reply).or (env.get h.target.bytes)), statics') := by
  simp only [Hook.asks, Bool.and_eq_true, Option.isSome_iff_exists] at hasks
  obtain ⟨⟨hen, path, hfound⟩, frame, hframe⟩ := hasks
  refine ⟨frame, (statics.fillEnabled env).fillSocket env, ?_⟩
  rw [setupHook_run, hfound]
  simp only [getenv_run_enabled w env h.target_not_config (hon.trans hen), hframe, bind_assoc,
    pure_bind]

end

/-! ## Noninterference -/

/-- The environment block the constructor leaves when this agent listens. -/
def constructed (fs : FileLayout) (env : Environ) (o : Oracle Unit) : Environ :=
  (((init o.world fs env).run .new).run .start).1.1

/-- The block, from the state the Python hook leaves. -/
theorem constructed_of_python {fs : FileLayout} {env env' : Environ} {o : Oracle Unit}
    {statics : Statics} {t : Trace}
    (h : ((setupPythonHook o.world fs env).run .new).run .start = ((env', statics), t)) :
    constructed fs env o = (((setupJavaHook o.world fs env').run statics).run t).1.1 := by
  have hrun : ((init o.world fs env).run .new).run .start =
      ((setupJavaHook o.world fs env').run statics).run t := by
    simp only [init, StateT.run_bind, h]
    rfl
  rw [constructed, hrun]

/-- An agent that answers with the value `v` has it in the target of the hook. -/
theorem setupHook_answered (fs : FileLayout) {h : Hook} {env : Environ} {statics : Statics}
    (t : Trace) (hon : statics.enabledIn env = isEnabled env) (hasks : h.asks fs env = true)
    {v : CStr} (hlen : v.bytes.length ≤ maxValueLen) :
    ∃ statics' t', ((setupHook (Oracle.always (.carrying v.bytes) ()).world fs h env).run statics).run t
      = ((h.seeded fs env (some v), statics'), t') := by
  obtain ⟨frame, statics', hrun⟩ :=
    setupHook_run_asked (Oracle.always (.carrying v.bytes) ()).world fs hon hasks
  have hreceived : received (.carrying v.bytes) = some v := by
    rw [received_eq, Reply.found_carrying hlen]
    exact CStr.new_bytes v
  refine ⟨statics', { t with requests := t.requests ++ [⟨statics.socketIn env, frame⟩] }, ?_⟩
  rw [hrun]
  change ((h.seeded fs env ((received (.carrying v.bytes)).or _), statics'), _) = _
  rw [hreceived, Option.some_or]
  rfl

/-- Two values an agent may answer with. -/
def answerA : CStr := .lit "a"
def answerB : CStr := .lit "b"

theorem seeded_answers_differ {fs : FileLayout} {env : Environ} {h : Hook}
    (hasks : h.asks fs env = true) :
    (h.seeded fs env (some answerA)).get h.target.bytes ≠
      (h.seeded fs env (some answerB)).get h.target.bytes := by
  simp only [Hook.asks, Bool.and_eq_true, Option.isSome_iff_exists] at hasks
  obtain ⟨⟨-, path, hfound⟩, -⟩ := hasks
  rw [Hook.seeded_get_self hfound, Hook.seeded_get_self hfound]
  have hA : (some answerA).filter isUtf8 = some answerA := by decide
  have hB : (some answerB).filter isUtf8 = some answerB := by decide
  rw [hA, hB]
  intro heq
  have hsame := Hook.seed_injective (by decide) (by decide) (Option.some.inj heq)
  exact absurd hsame (by decide)

/-- The Java hook leaves the target of the Python hook as it is. -/
theorem setupJavaHook_keeps (o : Oracle Unit) (fs : FileLayout) (env : Environ) (statics : Statics)
    (t : Trace) :
    (((setupJavaHook o.world fs env).run statics).run t).1.1.get Hook.python.target.bytes =
      env.get Hook.python.target.bytes := by
  simp only [setupJavaHook, setupHook_run]
  cases Hook.java.found fs env with
  | none => rfl
  | some path => exact Hook.java.seeded_get_ne fs env _ (by decide)

/-- The environment the Python hook leaves when it does not ask. -/
def afterPython (fs : FileLayout) (env : Environ) : Environ :=
  Hook.python.seeded fs env (env.get Hook.python.target.bytes)

theorem setupPythonHook_unasked {fs : FileLayout} {env : Environ}
    (hpython : Hook.python.asks fs env = false) :
    ∃ statics : Statics,
      statics.enabledIn (afterPython fs env) = isEnabled (afterPython fs env) ∧
      ∀ o : Oracle Unit, ((setupPythonHook o.world fs env).run .new).run .start =
        ((afterPython fs env, statics), .start) := by
  have hnew : Statics.new.enabledIn env = isEnabled env := rfl
  obtain ⟨statics, hon, hrun⟩ :=
    setupHook_run_unasked (m := Recorded) fs hnew hpython
  exact ⟨statics, enabledIn_seeded hon fs .python _, fun o => congrArg (StateT.run · _) (hrun o.world)⟩

theorem constructed_of_unasked {fs : FileLayout} {env : Environ}
    (hnone : ∀ h : Hook, h.asks fs env = false) (o : Oracle Unit) :
    constructed fs env o =
      Hook.java.seeded fs (afterPython fs env)
        ((afterPython fs env).get Hook.java.target.bytes) := by
  obtain ⟨statics, hon, hrun⟩ := setupPythonHook_unasked (hnone .python)
  have hjava : Hook.java.asks fs (afterPython fs env) = false :=
    (asks_java_seeded fs env _).trans (hnone .java)
  obtain ⟨statics', -, hrun'⟩ := setupHook_run_unasked (m := Recorded) fs hon hjava
  rw [constructed_of_python (hrun o), setupJavaHook, hrun' o.world]
  rfl

/-- If the Python hook asks, two answers end up in two blocks. -/
theorem constructed_of_python_asks {fs : FileLayout} {env : Environ}
    (hasks : Hook.python.asks fs env = true) :
    constructed fs env (.always (.carrying answerA.bytes) ()) ≠
      constructed fs env (.always (.carrying answerB.bytes) ()) := by
  have hget : ∀ v : CStr, v.bytes.length ≤ maxValueLen →
      (constructed fs env (.always (.carrying v.bytes) ())).get Hook.python.target.bytes =
        (Hook.python.seeded fs env (some v)).get Hook.python.target.bytes := by
    intro v hlen
    have hnew : Statics.new.enabledIn env = isEnabled env := rfl
    obtain ⟨statics, t, hrun⟩ := setupHook_answered fs .start hnew hasks hlen
    rw [constructed_of_python hrun]
    exact setupJavaHook_keeps _ fs _ statics t
  intro hsame
  apply seeded_answers_differ hasks
  rw [← hget answerA (by decide), ← hget answerB (by decide), hsame]

/-- So they do if only the Java hook asks. -/
theorem constructed_of_java_asks {fs : FileLayout} {env : Environ}
    (hpython : Hook.python.asks fs env = false) (hasks : Hook.java.asks fs env = true) :
    constructed fs env (.always (.carrying answerA.bytes) ()) ≠
      constructed fs env (.always (.carrying answerB.bytes) ()) := by
  obtain ⟨statics, hon, hrun⟩ := setupPythonHook_unasked hpython
  have hasks' : Hook.java.asks fs (afterPython fs env) = true :=
    (asks_java_seeded fs env _).trans hasks
  have hfinal : ∀ v : CStr, v.bytes.length ≤ maxValueLen →
      constructed fs env (.always (.carrying v.bytes) ()) =
        Hook.java.seeded fs (afterPython fs env) (some v) := by
    intro v hlen
    obtain ⟨statics', t, hrun'⟩ := setupHook_answered fs .start hon hasks' hlen
    rw [constructed_of_python (hrun _), setupJavaHook, hrun']
  intro hsame
  apply seeded_answers_differ hasks'
  rw [← hfinal answerA (by decide), ← hfinal answerB (by decide), hsame]

/-- The block is the same whatever the agent answers exactly if no hook asks it. -/
theorem constructed_noninterference_iff (fs : FileLayout) (env : Environ) :
    (∀ o o' : Oracle Unit, constructed fs env o = constructed fs env o') ↔
      ∀ h : Hook, h.asks fs env = false := by
  constructor
  · intro hsame
    have hpython : Hook.python.asks fs env = false := by
      by_contra hasks
      exact constructed_of_python_asks (Bool.not_eq_false _ ▸ hasks) (hsame _ _)
    intro h
    cases h with
    | python => exact hpython
    | java =>
      by_contra hasks
      exact constructed_of_java_asks hpython (Bool.not_eq_false _ ▸ hasks) (hsame _ _)
  · intro hnone o o'
    rw [constructed_of_unasked hnone o, constructed_of_unasked hnone o']

/-- A layout where the Python support directory is found next to the library. -/
def installedLayout : FileLayout where
  soDir := some (.lit "/l")
  fileExists := fun path => path.bytes = (CStr.lit "/l/envproxy/python/sitecustomize.py").bytes
  canonicalize := some

/-- An agent that knows a value for `PYTHONPATH` has it written into the block. -/
theorem constructed_leaks :
    constructed installedLayout [] (.always (.carrying [115]) ()) ≠
      constructed installedLayout [] (.always .refused ()) := by
  decide

end EnvProxy.Libenvproxy
