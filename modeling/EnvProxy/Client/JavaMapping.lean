-- SUMMARY: The whole of the Java map: its views, its other methods, and sessions of calls with an agent that is steady.
import EnvProxy.Client.JavaLookups

/-!
# The map behind `System.getenv()`

`get` and `containsKey` ask the agent; the views are those of the JVM's own map, and
mutations are refused. What `Map` and `AbstractMap` have in terms of these is inherited.
With an agent that always says the same about a request, neither the cache nor the clock
can be seen: the calls return what they would with no cache at all.
-/

namespace EnvProxy.Java

def Outcome.map {α β : Type} (f : α → β) : Outcome α → Outcome β
  | .returned value => .returned (f value)
  | .blocked => .blocked

/-! ## The methods -/

/-- The entries of the JVM's own map. -/
def jvmEntries (env : Environ) : List (JStr × JStr) :=
  env.names.filterMap fun name => (env.get name.bytes).map fun value =>
    (.decode name.bytes, .decode value.bytes)

def jvmContainsKey (env : Environ) (key : JStr) : Bool := (env.get key.getBytes).isSome

section

variable {m : Type → Type} [Monad m]

def containsKey (w : World Int64 m) (self : EnvProxyMap) (key : JStr) :
    m (Outcome Bool × EnvProxyMap) :=
  if jvmContainsKey self.original key then pure (.returned true, self)
  else do
    let (value, self) ← get w self key
    pure (value.map Option.isSome, self)

/-- `Map.getOrDefault`: a key with no value is looked up again. -/
def getOrDefault (w : World Int64 m) (self : EnvProxyMap) (key defaultValue : JStr) :
    m (Outcome (Option JStr) × EnvProxyMap) := do
  let (value, self) ← get w self key
  match value with
  | .blocked => pure (.blocked, self)
  | .returned (some v) => pure (.returned (some v), self)
  | .returned none =>
    let (contained, self) ← containsKey w self key
    pure (contained.map fun contained => if contained then none else some defaultValue, self)

inductive Call where
  | get (key : JStr)
  | containsKey (key : JStr)
  | getOrDefault (key defaultValue : JStr)
  | containsValue (value : JStr)
  | entrySet
  | put (key value : JStr)
  | putIfAbsent (key value : JStr)
  | remove (key : JStr)
  | clear

inductive Returned where
  | value (v : Option JStr)
  | flag (b : Bool)
  | entries (entries : List (JStr × JStr))
  /-- `UnsupportedOperationException`. -/
  | unsupported
  deriving DecidableEq

/-- What `putIfAbsent` makes of a lookup. -/
def putAbsent : Option JStr → Returned
  | some v => .value (some v)
  | none => .unsupported

/-- A call of the map. `keySet`, `values`, `size` and `isEmpty` are seen in the entries. -/
def call (w : World Int64 m) (self : EnvProxyMap) : Call → m (Outcome Returned × EnvProxyMap)
  | .get key => do
    let (value, self) ← get w self key
    pure (value.map .value, self)
  | .containsKey key => do
    let (contained, self) ← containsKey w self key
    pure (contained.map .flag, self)
  | .getOrDefault key defaultValue => do
    let (value, self) ← getOrDefault w self key defaultValue
    pure (value.map .value, self)
  | .containsValue value =>
    pure (.returned (.flag ((jvmEntries self.original).any (·.2 = value))), self)
  | .entrySet => pure (.returned (.entries (jvmEntries self.original)), self)
  | .put _ _ => pure (.returned .unsupported, self)
  | .putIfAbsent key _ => do
    let (value, self) ← get w self key
    pure (value.map putAbsent, self)
  | .remove _ => pure (.returned .unsupported, self)
  | .clear => pure (.returned .unsupported, self)

/-- One call after the other, up to one that does not return. -/
def run (w : World Int64 m) (self : EnvProxyMap) : List Call → m (List (Outcome Returned) × EnvProxyMap)
  | [] => pure ([], self)
  | c :: calls => do
    let (result, self) ← call w self c
    match result with
    | .blocked => pure ([.blocked], self)
    | .returned r =>
      let (results, self) ← run w self calls
      pure (.returned r :: results, self)

end

/-! ## The map without a cache -/

/-- What is heard for a request from a steady agent. -/
def told (agent : Request → Reply) : Option Request → Outcome (Option JStr)
  | none => .returned none
  | some request => received (agent request)

/-- The real environment, with the agent's values laid over it. -/
def overlay (agent : Request → Reply) (self : EnvProxyMap) (key : JStr) : Outcome (Option JStr) :=
  match (jvmGet self.original key).filter fun value => !value.startsWith vaultPrefix with
  | some value => .returned (some value)
  | none => told agent (wanted self key)

/-- What `getOrDefault` makes of a lookup. -/
def orDefault (contained : Bool) (defaultValue : JStr) : Option JStr → Option JStr
  | some v => some v
  | none => if contained then none else some defaultValue

/-- What a call is for. -/
def answer (agent : Request → Reply) (self : EnvProxyMap) : Call → Outcome Returned
  | .get key => (overlay agent self key).map .value
  | .containsKey key =>
    if jvmContainsKey self.original key then .returned (.flag true)
    else (overlay agent self key).map fun value => .flag value.isSome
  | .getOrDefault key defaultValue =>
    (overlay agent self key).map fun value =>
      .value (orDefault (jvmContainsKey self.original key) defaultValue value)
  | .containsValue value => .returned (.flag ((jvmEntries self.original).any (·.2 = value)))
  | .entrySet => .returned (.entries (jvmEntries self.original))
  | .putIfAbsent key _ => (overlay agent self key).map putAbsent
  | .put _ _ | .remove _ | .clear => .returned .unsupported

def answers (agent : Request → Reply) (self : EnvProxyMap) : List Call → List (Outcome Returned)
  | [] => []
  | c :: calls =>
    match answer agent self c with
    | .blocked => [.blocked]
    | .returned r => .returned r :: answers agent self calls

/-! ## One call -/

/-- The map is the same but for its cache, which has what the agent says. -/
structure Told (agent : Request → Reply) (first now : EnvProxyMap) : Prop where
  original : now.original = first.original
  socketPath : now.socketPath = first.socketPath
  cacheTtlMs : now.cacheTtlMs = first.cacheTtlMs
  cached : ∀ key entry, now.cache key = some entry → told agent (wanted first key) = .returned entry.value

section

variable {agent : Request → Reply} {self self' self'' : EnvProxyMap}

theorem Told.wanted_eq (h : Told agent self self') (key : JStr) : wanted self' key = wanted self key :=
  wanted_congr h.original h.socketPath key

theorem Told.trans (h : Told agent self self') (h' : Told agent self' self'') : Told agent self self'' where
  original := h'.original.trans h.original
  socketPath := h'.socketPath.trans h.socketPath
  cacheTtlMs := h'.cacheTtlMs.trans h.cacheTtlMs
  cached := by
    intro key entry hentry
    rw [← h.wanted_eq key]
    exact h'.cached key entry hentry

/-- The map it is now, in place of the one it was. -/
theorem Told.refl (h : Told agent self self') : Told agent self' self' where
  original := rfl
  socketPath := rfl
  cacheTtlMs := rfl
  cached := by
    intro key entry hentry
    rw [h.wanted_eq key]
    exact h.cached key entry hentry

theorem Told.overlay_eq (h : Told agent self self') (key : JStr) :
    overlay agent self' key = overlay agent self key := by
  rw [overlay, overlay, h.original, h.wanted_eq key]

theorem Told.answer_eq (h : Told agent self self') (c : Call) : answer agent self' c = answer agent self c := by
  cases c <;> simp only [answer, h.original, h.overlay_eq]

theorem Told.answers_eq (h : Told agent self self') (calls : List Call) :
    answers agent self' calls = answers agent self calls := by
  induction calls with
  | nil => rfl
  | cons c calls ih => simp only [answers, h.answer_eq, ih]

theorem heard_of_steady {o : Oracle Int64} (hsteady : o.Steady agent) (before : List Request)
    (request : Option Request) : heard o before request = told agent request := by
  cases request with
  | none => rfl
  | some request => rw [heard, told, hsteady]

theorem overlay_real {key : JStr} (h : ¬ Unanswered self key) :
    overlay agent self key = .returned (jvmGet self.original key) := by
  simp only [Unanswered, not_forall] at h
  obtain ⟨value, hreal, hplain⟩ := h
  simp [overlay, hreal, Option.filter, hplain]

theorem overlay_asked {key : JStr} (h : Unanswered self key) :
    overlay agent self key = told agent (wanted self key) := by
  unfold overlay
  cases hreal : jvmGet self.original key with
  | none => rfl
  | some value => simp [Option.filter, h value hreal]

theorem Told.store (h : Told agent self self) {key : JStr} {entry : CacheEntry}
    (htold : told agent (wanted self key) = .returned entry.value) :
    Told agent self (self.store key entry) where
  original := rfl
  socketPath := rfl
  cacheTtlMs := rfl
  cached := by
    intro key' entry' hentry
    simp only [EnvProxyMap.store, Function.update_apply] at hentry
    split at hentry
    · next hkey =>
      cases hentry
      rw [hkey]
      exact htold
    · exact h.cached key' entry' hentry

/-- A lookup returns what is in the overlay, and leaves in the cache what the agent says. -/
theorem exec_get_overlay {o : Oracle Int64} (hsteady : o.Steady agent) (h : Told agent self self)
    (key : JStr) (t : Trace) :
    (Recorded.exec (get o.world self key) t).1.1 = overlay agent self key ∧
      Told agent self (Recorded.exec (get o.world self key) t).1.2 := by
  by_cases hunanswered : Unanswered self key
  · rw [overlay_asked hunanswered]
    by_cases hcached : ∃ entry, FromCache o self t key entry
    · obtain ⟨entry, hcached⟩ := hcached
      rw [exec_get_cached hcached]
      exact ⟨(h.cached key entry hcached.2.1).symm, h⟩
    · rw [exec_get_asked o t hunanswered (not_exists.mp hcached), heard_of_steady hsteady]
      cases htold : told agent (wanted self key) with
      | blocked => exact ⟨rfl, h⟩
      | returned value => exact ⟨rfl, h.store htold⟩
  · rw [overlay_real hunanswered, exec_get_real o t hunanswered]
    exact ⟨rfl, h⟩

theorem exec_containsKey_overlay {o : Oracle Int64} (hsteady : o.Steady agent) (h : Told agent self self)
    (key : JStr) (t : Trace) :
    (Recorded.exec (containsKey o.world self key) t).1.1 =
        (if jvmContainsKey self.original key then .returned true
        else (overlay agent self key).map Option.isSome) ∧
      Told agent self (Recorded.exec (containsKey o.world self key) t).1.2 := by
  unfold containsKey
  split
  · exact ⟨rfl, h⟩
  · obtain ⟨hvalue, htold⟩ := exec_get_overlay hsteady h key t
    simp only [Recorded.exec_bind, Recorded.exec_pure, hvalue]
    exact ⟨trivial, htold⟩

/-- The second lookup of `getOrDefault` hears the same as the first. -/
theorem exec_getOrDefault_overlay {o : Oracle Int64} (hsteady : o.Steady agent) (h : Told agent self self)
    (key defaultValue : JStr) (t : Trace) :
    (Recorded.exec (getOrDefault o.world self key defaultValue) t).1.1 =
        (overlay agent self key).map (orDefault (jvmContainsKey self.original key) defaultValue) ∧
      Told agent self (Recorded.exec (getOrDefault o.world self key defaultValue) t).1.2 := by
  obtain ⟨hvalue, htold⟩ := exec_get_overlay hsteady h key t
  simp only [getOrDefault, Recorded.exec_bind, hvalue]
  cases hoverlay : overlay agent self key with
  | blocked => exact ⟨rfl, htold⟩
  | returned value =>
    cases value with
    | some v => exact ⟨rfl, htold⟩
    | none =>
      obtain ⟨hcontained, htold'⟩ := exec_containsKey_overlay hsteady htold.refl key
        (Recorded.exec (get o.world self key) t).2
      simp only [Recorded.exec_bind, Recorded.exec_pure, hcontained, htold.original, htold.overlay_eq, hoverlay]
      refine ⟨?_, htold.trans htold'⟩
      cases jvmContainsKey self.original key <;> rfl

theorem told_of_install {agent : Request → Reply} {platform : Platform} {agentArgs : Option JStr} {env : Environ}
    {self : EnvProxyMap} (h : install platform agentArgs env = .proxied self) : Told agent self self := by
  refine ⟨rfl, rfl, rfl, fun key entry hentry => ?_⟩
  simp only [install] at h
  split at h
  · cases h
  · cases h
    cases hentry

theorem Outcome.map_map {α β γ : Type} (f : α → β) (g : β → γ) (x : Outcome α) :
    (x.map f).map g = x.map fun a => g (f a) := by
  cases x <;> rfl

theorem exec_call_overlay {o : Oracle Int64} (hsteady : o.Steady agent) (h : Told agent self self)
    (c : Call) (t : Trace) :
    (Recorded.exec (call o.world self c) t).1.1 = answer agent self c ∧
      Told agent self (Recorded.exec (call o.world self c) t).1.2 := by
  cases c with
  | get key =>
    obtain ⟨hvalue, htold⟩ := exec_get_overlay hsteady h key t
    simp only [call, Recorded.exec_bind, Recorded.exec_pure, hvalue]
    exact ⟨rfl, htold⟩
  | containsKey key =>
    obtain ⟨hcontained, htold⟩ := exec_containsKey_overlay hsteady h key t
    simp only [call, answer, Recorded.exec_bind, Recorded.exec_pure, hcontained]
    refine ⟨?_, htold⟩
    split
    · rfl
    · exact Outcome.map_map _ _ _
  | getOrDefault key defaultValue =>
    obtain ⟨hvalue, htold⟩ := exec_getOrDefault_overlay hsteady h key defaultValue t
    simp only [call, answer, Recorded.exec_bind, Recorded.exec_pure, hvalue]
    exact ⟨Outcome.map_map _ _ _, htold⟩
  | putIfAbsent key value =>
    obtain ⟨hvalue, htold⟩ := exec_get_overlay hsteady h key t
    simp only [call, Recorded.exec_bind, Recorded.exec_pure, hvalue]
    exact ⟨rfl, htold⟩
  | containsValue value => exact ⟨rfl, h⟩
  | entrySet => exact ⟨rfl, h⟩
  | put key value => exact ⟨rfl, h⟩
  | remove key => exact ⟨rfl, h⟩
  | clear => exact ⟨rfl, h⟩

end

/-! ## Sessions -/

theorem exec_run_overlay {o : Oracle Int64} {agent : Request → Reply} {self : EnvProxyMap}
    (hsteady : o.Steady agent) (h : Told agent self self) (calls : List Call) (t : Trace) :
    (Recorded.exec (run o.world self calls) t).1.1 = answers agent self calls ∧
      Told agent self (Recorded.exec (run o.world self calls) t).1.2 := by
  induction calls generalizing self t with
  | nil => exact ⟨rfl, h⟩
  | cons c calls ih =>
    obtain ⟨hresult, htold⟩ := exec_call_overlay hsteady h c t
    simp only [run, answers, Recorded.exec_bind, hresult]
    cases answer agent self c with
    | blocked => exact ⟨rfl, htold⟩
    | returned r =>
      obtain ⟨hresults, htold'⟩ := ih htold.refl (Recorded.exec (call o.world self c) t).2
      simp only [Recorded.exec_bind, Recorded.exec_pure, hresults, htold.answers_eq]
      exact ⟨trivial, htold.trans htold'⟩

/-- With a steady agent, a session on a map that has been installed returns what it would
    without a cache, whatever the TTL and the clock are. The environment behind the map is
    as it was, and the cache has only what the agent says. -/
theorem session_overlay (o : Oracle Int64) (agent : Request → Reply) (hsteady : o.Steady agent)
    (platform : Platform) (agentArgs : Option JStr) (env : Environ) (self : EnvProxyMap)
    (hinstalled : install platform agentArgs env = .proxied self) (calls : List Call) (t : Trace) :
    (Recorded.exec (run o.world self calls) t).1.1 = answers agent self calls ∧
      Told agent self (Recorded.exec (run o.world self calls) t).1.2 :=
  exec_run_overlay hsteady (told_of_install hinstalled) calls t

theorem get_eq_none_iff {agent : Request → Reply} {self : EnvProxyMap} {key : JStr} :
    answer agent self (.get key) = .returned (.value none) ↔ overlay agent self key = .returned none := by
  rw [answer]
  cases overlay agent self key <;> simp [Outcome.map]

/-- A variable is reported present and without a value exactly if it holds a reference
    that the agent says nothing about. -/
theorem contained_without_value_iff {agent : Request → Reply} {self : EnvProxyMap} {key : JStr} :
    answer agent self (.containsKey key) = .returned (.flag true) ∧
        answer agent self (.get key) = .returned (.value none) ↔
      ∃ ref, jvmGet self.original key = some ref ∧ ref.startsWith vaultPrefix = true ∧
        told agent (wanted self key) = .returned none := by
  rw [get_eq_none_iff]
  constructor
  · intro ⟨hcontained, hnone⟩
    have hunanswered : Unanswered self key := by
      by_contra hreal
      obtain ⟨value, hvalue, -⟩ := not_forall₂.mp hreal
      rw [overlay_real hreal, hvalue] at hnone
      cases hnone
    rw [answer, hnone] at hcontained
    split at hcontained
    · next hin =>
      obtain ⟨value, hvalue⟩ := Option.isSome_iff_exists.mp hin
      have hreal : jvmGet self.original key = some (.decode value.bytes) := by rw [jvmGet, hvalue]; rfl
      exact ⟨_, hreal, hunanswered _ hreal, overlay_asked hunanswered ▸ hnone⟩
    · cases hcontained
  · intro ⟨ref, hreal, hvault, htold⟩
    have hin : jvmContainsKey self.original key = true := by
      rw [jvmContainsKey, ← Option.isSome_map, ← jvmGet, hreal]
      rfl
    have hunanswered : Unanswered self key := by
      intro value hvalue
      cases hreal.symm.trans hvalue
      exact hvault
    rw [answer, if_pos hin, overlay_asked hunanswered]
    exact ⟨rfl, htold⟩

theorem zero_not_mem_reference : 0 ∉ Utf8.encode "vault:m/p#k".toList := by decide

theorem zero_not_mem_name : 0 ∉ [(65 : UInt8)] := by decide

/-- A JVM with one variable, `A`, which holds a reference. -/
def oneReference : Environ := [(⟨[65], zero_not_mem_name⟩, ⟨_, zero_not_mem_reference⟩)]

/-- Every file exists, and no TTL is configured. -/
def plainPlatform : Platform where
  fileExists := fun _ => true
  parseTtl := fun _ => none

/-- The map in it. -/
def referenceMap : EnvProxyMap where
  original := oneReference
  socketPath := .ofStr defaultSocketPath
  cacheTtlMs := 30000
  cache := fun _ => none

theorem session_overlay_resolved :
    (Recorded.exec (run (Oracle.always (.carrying [115]) 0).world referenceMap
        [.get [65], .getOrDefault [66] [100], .putIfAbsent [65] [66], .put [65] [66],
          .containsValue [115]]) .start).1.1 =
      [.returned (.value (some [115])), .returned (.value (some [115])), .returned (.value (some [115])),
        .returned .unsupported, .returned (.flag false)] := by
  have hinstalled : install plainPlatform none oneReference = .proxied referenceMap := by rfl
  have hsession := (session_overlay (.always (.carrying [115]) 0) (fun _ => .carrying [115])
    (fun _ _ => rfl) plainPlatform none oneReference referenceMap hinstalled
    [.get [65], .getOrDefault [66] [100], .putIfAbsent [65] [66], .put [65] [66], .containsValue [115]]
    .start).1
  rw [hsession]
  decide +kernel

end EnvProxy.Java
