-- SUMMARY: The Java client: the map that replaces `System.getenv()`, its cache, and its installation.
import EnvProxy.Client.Connection
import EnvProxy.Client.Environ
import EnvProxy.Client.Strings

/-!
# The Java map

`get` looks a key up in the JVM's copy of the environment, then in the cache, then
asks the agent. Times are the `long` milliseconds of `System.currentTimeMillis()`.
The channel blocks: a response that never completes is waited for.
-/

namespace EnvProxy.Java

/-- `System.getenv(key)` of the unpatched JVM, which compares keys as bytes. -/
def jvmGet (env : Environ) (key : JStr) : Option JStr :=
  (env.get key.getBytes).map fun value => .decode value.bytes

structure CacheEntry where
  value : Option JStr
  timestamp : Int64

/-- `EnvProxyMap`. -/
structure EnvProxyMap where
  original : Environ
  socketPath : JStr
  cacheTtlMs : Int64
  cache : JStr → Option CacheEntry

/-- A call returns, or waits for a response that does not come. -/
inductive Outcome (α : Type) where
  | returned (value : α)
  | blocked
  deriving DecidableEq, Repr

/-- The value of a `Found` response; every failure is no value. -/
def received : Reply → Outcome (Option JStr)
  | .refused => .returned none
  | .stream stream =>
    match readFrame stream with
    | .error .closed => .returned none
    | .error .silent => .blocked
    | .ok (status, valueBytes) =>
      .returned (if status = 0x00 then some (.decode valueBytes) else none)

/-- The request for a key. The length of a key is checked, the length of a value is
    cast to a `short`. -/
def encode (key : JStr) (currentValue : Option JStr) : Option Bytes :=
  let keyBytes := key.getBytes
  if keyBytes.length > 0xFFFF then none
  else
    match currentValue.filter (JStr.startsWith · vaultPrefix) with
    | some value =>
      let valBytes := value.getBytes
      some ([protocolV2] ++ toBeBytes keyBytes.length ++ keyBytes ++ toBeBytes valBytes.length
        ++ valBytes)
    | none => some ([protocolV1] ++ toBeBytes keyBytes.length ++ keyBytes)

section

variable {m : Type → Type} [Monad m]

def queryAgent (w : World Int64 m) (self : EnvProxyMap) (key : JStr) (currentValue : Option JStr) :
    m (Outcome (Option JStr)) :=
  match encode key currentValue with
  | none => pure (.returned none)
  | some request => do
    let reply ← w.agent self.socketPath.getBytes request
    pure (received reply)

/-- Query the agent and cache what it says, also that it says nothing. -/
def refresh (w : World Int64 m) (self : EnvProxyMap) (key : JStr) (value : Option JStr) :
    m (Outcome (Option JStr) × EnvProxyMap) := do
  match ← queryAgent w self key value with
  | .blocked => pure (.blocked, self)
  | .returned resolved =>
    let timestamp ← w.clock
    let cache := Function.update self.cache key (some { value := resolved, timestamp })
    pure (.returned resolved, { self with cache })

/-- Check the cache, then query the agent. -/
def resolve (w : World Int64 m) (self : EnvProxyMap) (key : JStr) (value : Option JStr) :
    m (Outcome (Option JStr) × EnvProxyMap) := do
  match self.cache key with
  | none => refresh w self key value
  | some entry =>
    let now ← w.clock
    if now - entry.timestamp < self.cacheTtlMs then pure (.returned entry.value, self)
    else refresh w self key value

/-- `EnvProxyMap.get`. -/
def get (w : World Int64 m) (self : EnvProxyMap) (key : JStr) :
    m (Outcome (Option JStr) × EnvProxyMap) :=
  match (jvmGet self.original key).filter fun value => !value.startsWith vaultPrefix with
  | some value => pure (.returned (some value), self)
  | none => resolve w self key (jvmGet self.original key)

end

/-! ## Installation -/

/-- The map behind `System.getenv()`: as the JVM made it, or replaced by the proxy. -/
inductive JvmEnviron where
  | original (env : Environ)
  | proxied (self : EnvProxyMap)

/-- What `install` takes from the platform: which files exist, and the TTL a text
    stands for (`(long) (Double.parseDouble(s) * 1000)`). -/
structure Platform where
  fileExists : Bytes → Bool
  parseTtl : JStr → Option Int64

/-- The TTL from the agent arguments or, without any, from the environment. -/
def configuredTtl (platform : Platform) (agentArgs : Option JStr) (env : Environ) : Int64 :=
  match agentArgs.filter fun args => !args.isEmpty with
  | some args => (platform.parseTtl args).getD 30000
  | none => ((jvmGet env (.ofStr "ENVPROXY_CACHE_TTL".toList)).bind platform.parseTtl).getD 30000

/-- Install the proxy into a JVM that still has its original map. -/
def install (platform : Platform) (agentArgs : Option JStr) (env : Environ) : JvmEnviron :=
  let socketPath :=
    ((jvmGet env (.ofStr "ENVPROXY_SOCKET".toList)).filter fun path => !path.isEmpty).getD
      (.ofStr defaultSocketPath)
  if !platform.fileExists socketPath.getBytes then .original env
  else
    .proxied
      { original := env, socketPath, cacheTtlMs := configuredTtl platform agentArgs env,
        cache := fun _ => none }

/-! ## What a lookup does -/

/-- A reply that is no `Found` response gives no value. -/
theorem received_of_not_found {reply : Reply} (h : reply.found = none) :
    received reply = .returned none ∨ received reply = .blocked := by
  cases reply with
  | refused => exact .inl rfl
  | stream s =>
    simp only [received]
    split
    · exact .inl rfl
    · exact .inr rfl
    · next status valueBytes hread =>
      refine .inl ?_
      have hstatus : status ≠ 0x00 := by
        intro hzero
        rw [hzero, ← Reply.found_stream_eq_some_iff, h] at hread
        cases hread
      rw [if_neg hstatus]

section

variable {m : Type → Type} [Monad m]

/-- A real value that is no reference is returned as it is. -/
theorem get_plain (w : World Int64 m) {self : EnvProxyMap} {key value : JStr}
    (hreal : jvmGet self.original key = some value) (hplain : value.startsWith vaultPrefix = false) :
    get w self key = pure (.returned (some value), self) := by
  simp [get, hreal, Option.filter, hplain]

/-- Everything else is resolved. -/
theorem get_resolve (w : World Int64 m) {self : EnvProxyMap} {key : JStr}
    (h : ∀ value, jvmGet self.original key = some value → value.startsWith vaultPrefix = true) :
    get w self key = resolve w self key (jvmGet self.original key) := by
  cases hreal : jvmGet self.original key with
  | none => simp [get, hreal]
  | some value => simp [get, hreal, Option.filter, h value hreal]

/-- An absent variable goes to the cache and the agent as well. -/
theorem get_absent (w : World Int64 m) {self : EnvProxyMap} {key : JStr}
    (hreal : jvmGet self.original key = none) : get w self key = resolve w self key none := by
  have hvault : ∀ value, jvmGet self.original key = some value →
      value.startsWith vaultPrefix = true := by
    intro value hvalue
    rw [hreal] at hvalue
    cases hvalue
  rw [get_resolve w hvault, hreal]

end

/-! ## What a lookup leaves -/

/-- Nothing is sent for a key that is too long. -/
theorem encode_long {key : JStr} (hlong : maxKeyLen < key.getBytes.length) (value : Option JStr) :
    encode key value = none := by
  have hlong' : key.getBytes.length > 0xFFFF := hlong
  simp only [encode, if_pos hlong']

/-- A refresh writes at most one cache entry, and a negative one if nothing is sent. -/
theorem exec_refresh_state (o : Oracle Int64) (self : EnvProxyMap) (key : JStr) (value : Option JStr)
    (t : Trace) :
    (Recorded.exec (refresh o.world self key value) t).1.2 = self ∨
      ∃ entry, (Recorded.exec (refresh o.world self key value) t).1.2 =
          { self with cache := Function.update self.cache key (some entry) } ∧
        (encode key value = none → entry.value = none) := by
  cases hencode : encode key value with
  | none => exact .inr ⟨⟨none, o.clock t.reads⟩, by simp [refresh, queryAgent, hencode], fun _ => rfl⟩
  | some frame =>
    cases hreceived : received (o.reply (t.requests ++ [⟨self.socketPath.getBytes, frame⟩])) with
    | blocked => exact .inl (by simp [refresh, queryAgent, hencode, hreceived])
    | returned resolved =>
      exact .inr ⟨⟨resolved, o.clock t.reads⟩, by simp [refresh, queryAgent, hencode, hreceived],
        fun h => nomatch h⟩

/-- A lookup leaves the map as it is, or with one more cache entry. -/
theorem exec_get_state (o : Oracle Int64) (self : EnvProxyMap) (key : JStr) (t : Trace) :
    (Recorded.exec (get o.world self key) t).1.2 = self ∨
      ∃ value entry, (Recorded.exec (get o.world self key) t).1.2 =
          { self with cache := Function.update self.cache key (some entry) } ∧
        (encode key value = none → entry.value = none) := by
  simp only [get]
  split
  · exact .inl rfl
  · cases hentry : self.cache key with
    | none =>
      refine (exec_refresh_state o self key (jvmGet self.original key) t).imp ?_ ?_
      · intro h
        simpa [resolve, hentry] using h
      · intro h
        obtain ⟨entry, hstate, hnone⟩ := h
        exact ⟨_, entry, by simpa [resolve, hentry] using hstate, hnone⟩
    | some cached =>
      by_cases hvalid : o.clock t.reads - cached.timestamp < self.cacheTtlMs
      · exact .inl (by simp [resolve, hentry, hvalid])
      · refine (exec_refresh_state o self key (jvmGet self.original key)
          { t with reads := t.reads + 1 }).imp ?_ ?_
        · intro h
          simpa [resolve, hentry, hvalid] using h
        · intro h
          obtain ⟨entry, hstate, hnone⟩ := h
          exact ⟨_, entry, by simpa [resolve, hentry, hvalid] using hstate, hnone⟩

/-- A lookup of which nothing is sent reports the variable missing. -/
theorem exec_resolve_unsent {o : Oracle Int64} {self : EnvProxyMap} {key : JStr}
    {value : Option JStr} (t : Trace) (hencode : encode key value = none)
    (hcache : ∀ entry, self.cache key = some entry → entry.value = none) :
    (Recorded.exec (resolve o.world self key value) t).1.1 = .returned none ∧
      (Recorded.exec (resolve o.world self key value) t).2.requests = t.requests := by
  cases hentry : self.cache key with
  | none => simp [resolve, hentry, refresh, queryAgent, hencode]
  | some entry =>
    by_cases hvalid : o.clock t.reads - entry.timestamp < self.cacheTtlMs
    · simp [resolve, hentry, hvalid, hcache entry hentry]
    · simp [resolve, hentry, hvalid, refresh, queryAgent, hencode]

end EnvProxy.Java
