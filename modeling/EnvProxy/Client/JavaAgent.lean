-- SUMMARY: The Java agent as often as a JVM starts it: the first installation stays, whatever the later ones read.
import EnvProxy.Client.JavaMapping

/-!
# Repeated installation

`JAVA_TOOL_OPTIONS` can name the agent more than once, and `premain` is called every time.
From its second call on it reads its own settings through the map that is installed, which
asks the agent for what the environment does not have. Nothing of it comes to light, but
when the agent does not answer, the JVM does not start.
-/

namespace EnvProxy.Java

def socketVariable : JStr := .ofStr "ENVPROXY_SOCKET".toList

def ttlVariable : JStr := .ofStr "ENVPROXY_CACHE_TTL".toList

/-- A `-javaagent` option, and the platform when it is followed. -/
structure Attempt where
  platform : Platform
  agentArgs : Option JStr

section

variable {m : Type → Type} [Monad m]

/-- `System.getenv(name)`. -/
def getenv (w : World Int64 m) (name : JStr) : JvmEnviron → m (Outcome (Option JStr) × JvmEnviron)
  | .original env => pure (.returned (jvmGet env name), .original env)
  | .proxied self => do
    let (value, self) ← get w self name
    pure (value, .proxied self)

/-- Parse the cache TTL from the agent arguments or the environment. -/
def readTtl (w : World Int64 m) (a : Attempt) (jvm : JvmEnviron) : m (Outcome Int64 × JvmEnviron) :=
  match a.agentArgs.filter fun args => !args.isEmpty with
  | some args => pure (.returned ((a.platform.parseTtl args).getD 30000), jvm)
  | none => do
    let (ttlEnv, jvm) ← getenv w ttlVariable jvm
    pure (ttlEnv.map fun ttlEnv => (ttlEnv.bind a.platform.parseTtl).getD 30000, jvm)

def premain (w : World Int64 m) (a : Attempt) (jvm : JvmEnviron) : m (Outcome Unit × JvmEnviron) := do
  let (socketPath, jvm) ← getenv w socketVariable jvm
  match socketPath with
  | .blocked => pure (.blocked, jvm)
  | .returned socketPath =>
    let socketPath := (socketPath.filter fun path => !path.isEmpty).getD (.ofStr defaultSocketPath)
    if !a.platform.fileExists socketPath.getBytes then pure (.returned (), jvm)
    else
      let (cacheTtlMs, jvm) ← readTtl w a jvm
      match cacheTtlMs, jvm with
      | .blocked, jvm => pure (.blocked, jvm)
      -- Already patched.
      | .returned _, .proxied self => pure (.returned (), .proxied self)
      | .returned cacheTtlMs, .original env =>
        pure (.returned (), .proxied { original := env, socketPath, cacheTtlMs, cache := fun _ => none })

/-- The JVM starts, and follows its options one after the other. -/
def premains (w : World Int64 m) : List Attempt → JvmEnviron → m (Outcome Unit × JvmEnviron)
  | [], jvm => pure (.returned (), jvm)
  | a :: attempts, jvm => do
    let (done, jvm) ← premain w a jvm
    match done with
    | .blocked => pure (.blocked, jvm)
    | .returned () => premains w attempts jvm

end

/-- The first attempt that finds the socket installs the map. -/
def installs (env : Environ) : List Attempt → JvmEnviron
  | [] => .original env
  | a :: attempts =>
    match install a.platform a.agentArgs env with
    | .proxied self => .proxied self
    | .original _ => installs env attempts

/-! ## The first time -/

theorem install_eq (platform : Platform) (agentArgs : Option JStr) (env : Environ) :
    install platform agentArgs env =
      let socketPath := ((jvmGet env socketVariable).filter fun path => !path.isEmpty).getD
        (.ofStr defaultSocketPath)
      if !platform.fileExists socketPath.getBytes then .original env
      else
        .proxied
          { original := env, socketPath, cacheTtlMs := configuredTtl platform agentArgs env,
            cache := fun _ => none } := rfl

theorem exec_readTtl_original (o : Oracle Int64) (a : Attempt) (env : Environ) (t : Trace) :
    Recorded.exec (readTtl o.world a (.original env)) t =
      ((.returned (configuredTtl a.platform a.agentArgs env), .original env), t) := by
  unfold readTtl configuredTtl
  cases a.agentArgs.filter fun args => !args.isEmpty <;> rfl

/-- On a JVM that has its own map yet, `premain` is `install`. -/
theorem exec_premain_original (o : Oracle Int64) (a : Attempt) (env : Environ) (t : Trace) :
    Recorded.exec (premain o.world a (.original env)) t =
      ((.returned (), install a.platform a.agentArgs env), t) := by
  simp only [premain, getenv, install_eq, Recorded.exec_bind, Recorded.exec_pure]
  split
  · rfl
  · simp only [Recorded.exec_bind, exec_readTtl_original, Recorded.exec_pure]

theorem install_original {platform : Platform} {agentArgs : Option JStr} {env env' : Environ}
    (h : install platform agentArgs env = .original env') : env' = env := by
  simp only [install] at h
  split at h
  · cases h
    rfl
  · cases h

theorem original_of_install {platform : Platform} {agentArgs : Option JStr} {env : Environ}
    {self : EnvProxyMap} (h : install platform agentArgs env = .proxied self) : self.original = env := by
  simp only [install] at h
  split at h
  · cases h
  · cases h
    rfl

/-! ## Every other time -/

/-- A request for a setting, after some others, that the agent has not answered. -/
def HangsAtStart (o : Oracle Int64) (self : EnvProxyMap) : Prop :=
  ∃ key before, (key = socketVariable ∨ key = ttlVariable) ∧ heard o before (wanted self key) = .blocked

/-- The map that was installed, and in its cache no more than what the agent says, if it
    always says the same. -/
structure Remains (o : Oracle Int64) (first now : EnvProxyMap) : Prop where
  original : now.original = first.original
  socketPath : now.socketPath = first.socketPath
  cacheTtlMs : now.cacheTtlMs = first.cacheTtlMs
  told : ∀ agent, o.Steady agent → Told agent first first → Told agent first now

/-- It remains; and if the JVM hangs, the agent has not answered. -/
def Stays (o : Oracle Int64) (self : EnvProxyMap) (r : Outcome Unit × JvmEnviron) : Prop :=
  (∃ now, r.2 = .proxied now ∧ Remains o self now) ∧ (r.1 = .blocked → HangsAtStart o self)

section

variable {o : Oracle Int64} {self now now' : EnvProxyMap}

theorem Remains.refl : Remains o self self where
  original := rfl
  socketPath := rfl
  cacheTtlMs := rfl
  told := fun _ _ htold => htold

theorem Remains.trans (h : Remains o self now) (h' : Remains o now now') : Remains o self now' where
  original := h'.original.trans h.original
  socketPath := h'.socketPath.trans h.socketPath
  cacheTtlMs := h'.cacheTtlMs.trans h.cacheTtlMs
  told := by
    intro agent hsteady htold
    have hnow : Told agent self now := h.told agent hsteady htold
    exact hnow.trans (h'.told agent hsteady hnow.refl)

theorem Remains.hangs (h : Remains o self now) (hhangs : HangsAtStart o now) : HangsAtStart o self := by
  obtain ⟨key, before, hkey, hblocked⟩ := hhangs
  rw [wanted_congr h.original h.socketPath key] at hblocked
  exact ⟨key, before, hkey, hblocked⟩

theorem Remains.of_get (o : Oracle Int64) (self : EnvProxyMap) (key : JStr) (t : Trace) :
    Remains o self (Recorded.exec (get o.world self key) t).1.2 ∧
      ((Recorded.exec (get o.world self key) t).1.1 = .blocked →
        ∃ before, heard o before (wanted self key) = .blocked) := by
  have htold : ∀ agent, o.Steady agent → Told agent self self →
      Told agent self (Recorded.exec (get o.world self key) t).1.2 :=
    fun agent hsteady h => (exec_get_overlay hsteady h key t).2
  by_cases hunanswered : Unanswered self key
  · by_cases hcached : ∃ entry, FromCache o self t key entry
    · obtain ⟨entry, hcached⟩ := hcached
      rw [exec_get_cached hcached] at htold ⊢
      exact ⟨⟨rfl, rfl, rfl, htold⟩, fun hblocked => by cases hblocked⟩
    · rw [exec_get_asked o t hunanswered (not_exists.mp hcached)] at htold ⊢
      cases hheard : heard o t.requests (wanted self key) with
      | blocked =>
        rw [hheard] at htold
        exact ⟨⟨rfl, rfl, rfl, htold⟩, fun _ => ⟨t.requests, hheard⟩⟩
      | returned value =>
        rw [hheard] at htold
        exact ⟨⟨rfl, rfl, rfl, htold⟩, fun hblocked => by cases hblocked⟩
  · rw [exec_get_real o t hunanswered] at htold ⊢
    exact ⟨⟨rfl, rfl, rfl, htold⟩, fun hblocked => by cases hblocked⟩

theorem exec_getenv_proxied (o : Oracle Int64) (self : EnvProxyMap) (name : JStr) (t : Trace) :
    ∃ value now, (Recorded.exec (getenv o.world name (.proxied self)) t).1 = (value, .proxied now) ∧
      Remains o self now ∧ (value = .blocked → ∃ before, heard o before (wanted self name) = .blocked) := by
  obtain ⟨hremains, hhangs⟩ := Remains.of_get o self name t
  refine ⟨_, _, ?_, hremains, hhangs⟩
  simp only [getenv, Recorded.exec_bind, Recorded.exec_pure]

theorem exec_readTtl_proxied (o : Oracle Int64) (self : EnvProxyMap) (a : Attempt) (t : Trace) :
    ∃ ttl now, (Recorded.exec (readTtl o.world a (.proxied self)) t).1 = (ttl, .proxied now) ∧
      Remains o self now ∧
      (ttl = .blocked → ∃ before, heard o before (wanted self ttlVariable) = .blocked) := by
  unfold readTtl
  split
  · exact ⟨_, self, rfl, .refl, fun hblocked => by cases hblocked⟩
  · obtain ⟨value, now, hgetenv, hremains, hhangs⟩ := exec_getenv_proxied o self ttlVariable t
    simp only [Recorded.exec_bind, Recorded.exec_pure, hgetenv]
    refine ⟨_, now, rfl, hremains, fun hblocked => ?_⟩
    cases value with
    | blocked => exact hhangs rfl
    | returned value => cases hblocked

/-- On a map that is installed, `premain` only reads. -/
theorem exec_premain_proxied (o : Oracle Int64) (self : EnvProxyMap) (a : Attempt) (t : Trace) :
    Stays o self (Recorded.exec (premain o.world a (.proxied self)) t).1 := by
  obtain ⟨socketPath, now, hgetenv, hremains, hhangs⟩ := exec_getenv_proxied o self socketVariable t
  simp only [premain, Recorded.exec_bind, hgetenv]
  cases socketPath with
  | blocked =>
    obtain ⟨before, hblocked⟩ := hhangs rfl
    exact ⟨⟨now, rfl, hremains⟩, fun _ => ⟨socketVariable, before, .inl rfl, hblocked⟩⟩
  | returned socketPath =>
    dsimp only
    split
    · exact ⟨⟨now, rfl, hremains⟩, fun hblocked => by cases hblocked⟩
    · obtain ⟨ttl, now', hread, hremains', hhangs'⟩ := exec_readTtl_proxied o now a
        (Recorded.exec (getenv o.world socketVariable (.proxied self)) t).2
      simp only [Recorded.exec_bind, hread]
      cases ttl with
      | blocked =>
        obtain ⟨before, hblocked⟩ := hhangs' rfl
        exact ⟨⟨now', rfl, hremains.trans hremains'⟩,
          fun _ => hremains.hangs ⟨ttlVariable, before, .inr rfl, hblocked⟩⟩
      | returned cacheTtlMs =>
        exact ⟨⟨now', rfl, hremains.trans hremains'⟩, fun hblocked => by cases hblocked⟩

theorem exec_premains_proxied (o : Oracle Int64) (self : EnvProxyMap) (attempts : List Attempt) (t : Trace) :
    Stays o self (Recorded.exec (premains o.world attempts (.proxied self)) t).1 := by
  induction attempts generalizing self t with
  | nil => exact ⟨⟨self, rfl, .refl⟩, fun hblocked => by cases hblocked⟩
  | cons a attempts ih =>
    obtain ⟨⟨now, hnow, hremains⟩, hhangs⟩ := exec_premain_proxied o self a t
    simp only [premains, Recorded.exec_bind, hnow]
    cases hdone : (Recorded.exec (premain o.world a (.proxied self)) t).1.1 with
    | blocked => exact ⟨⟨now, rfl, hremains⟩, fun _ => hhangs hdone⟩
    | returned _ =>
      obtain ⟨⟨now', hnow', hremains'⟩, hhangs'⟩ :=
        ih now (Recorded.exec (premain o.world a (.proxied self)) t).2
      exact ⟨⟨now', hnow', hremains.trans hremains'⟩, fun hblocked => hremains.hangs (hhangs' hblocked)⟩

end

/-! ## All of them -/

/-- Without a socket, the JVM keeps its map. -/
theorem exec_premains_original (o : Oracle Int64) {env env' : Environ} {attempts : List Attempt}
    (h : installs env attempts = .original env') (t : Trace) :
    Recorded.exec (premains o.world attempts (.original env)) t = ((.returned (), .original env), t) := by
  induction attempts with
  | nil => rfl
  | cons a attempts ih =>
    simp only [installs] at h
    split at h
    · cases h
    · next env'' hinstall =>
      simp only [premains, Recorded.exec_bind, exec_premain_original, hinstall]
      rw [install_original hinstall]
      exact ih h

/-- The map that is installed first is the one that stays. -/
theorem exec_premains_installed (o : Oracle Int64) {env : Environ} {self : EnvProxyMap}
    {attempts : List Attempt} (h : installs env attempts = .proxied self) (t : Trace) :
    self.original = env ∧ (∀ agent, Told agent self self) ∧
      Stays o self (Recorded.exec (premains o.world attempts (.original env)) t).1 := by
  induction attempts with
  | nil => cases h
  | cons a attempts ih =>
    simp only [installs] at h
    split at h
    · next hinstall =>
      cases h
      simp only [premains, Recorded.exec_bind, exec_premain_original, hinstall]
      exact ⟨original_of_install hinstall, fun _ => told_of_install hinstall,
        exec_premains_proxied o self attempts t⟩
    · next env'' hinstall =>
      simp only [premains, Recorded.exec_bind, exec_premain_original, hinstall]
      rw [install_original hinstall]
      exact ih h

/-- However often the agent is started: a JVM that never finds the socket keeps its map and
    asks nobody. Otherwise the map of the first start that found it stays, with its socket
    and its TTL, and sessions on it return what they would had it been the only one, if the
    agent always says the same; and the JVM hangs at its start only if the agent does not
    answer a request for a setting. -/
theorem startup_overlay (o : Oracle Int64) (attempts : List Attempt) (env : Environ) (t : Trace) :
    (∀ env', installs env attempts = .original env' →
      Recorded.exec (premains o.world attempts (.original env)) t = ((.returned (), .original env), t)) ∧
    ∀ self, installs env attempts = .proxied self →
      self.original = env ∧
      ((Recorded.exec (premains o.world attempts (.original env)) t).1.1 = .blocked → HangsAtStart o self) ∧
      ∃ now, (Recorded.exec (premains o.world attempts (.original env)) t).1.2 = .proxied now ∧
        now.original = env ∧ now.socketPath = self.socketPath ∧ now.cacheTtlMs = self.cacheTtlMs ∧
        ∀ agent, o.Steady agent → ∀ calls t',
          (Recorded.exec (run o.world now calls) t').1.1 = answers agent self calls := by
  constructor
  · intro env' hinstalls
    exact exec_premains_original o hinstalls t
  · intro self hinstalls
    obtain ⟨horiginal, hfirst, ⟨now, hnow, hremains⟩, hhangs⟩ := exec_premains_installed o hinstalls t
    refine ⟨horiginal, hhangs, now, hnow, hremains.original.trans horiginal, hremains.socketPath,
      hremains.cacheTtlMs, fun agent hsteady calls t' => ?_⟩
    have htold : Told agent self now := hremains.told agent hsteady (hfirst agent)
    rw [← htold.answers_eq calls]
    exact (exec_run_overlay hsteady htold.refl calls t').1

/-- The option is there twice. -/
def twice : List Attempt := [⟨plainPlatform, none⟩, ⟨plainPlatform, none⟩]

theorem startup_overlay_twice :
    ∃ now, (Recorded.exec (premains (Oracle.always (.carrying [115]) 0).world twice (.original oneReference))
        .start).1.2 = .proxied now ∧ now.cacheTtlMs = 30000 ∧
      (Recorded.exec (run (Oracle.always (.carrying [115]) 0).world now [.get [65]]) .start).1.1 =
        [.returned (.value (some [115]))] := by
  have hinstalls : installs oneReference twice = .proxied referenceMap := rfl
  obtain ⟨-, -, now, hnow, -, -, httl, hsessions⟩ :=
    (startup_overlay (.always (.carrying [115]) 0) twice oneReference .start).2 referenceMap hinstalls
  have hanswers : answers (fun _ => .carrying [115]) referenceMap [.get [65]] =
      [.returned (.value (some [115]))] := by decide +kernel
  exact ⟨now, hnow, httl, (hsessions (fun _ => .carrying [115]) (fun _ _ => rfl) [.get [65]] .start).trans hanswers⟩

end EnvProxy.Java
