-- SUMMARY: What a lookup of the Java map asks the agent for, and what it leaves in the cache.
import EnvProxy.Client.Java

/-!
# Lookups of the Java map

A lookup is answered by the real environment, by an entry that the clock calls
young enough, or by the agent; what the agent is heard to say is stored.
-/

namespace EnvProxy.Java

/-- Whether a lookup of the key goes past the real environment. -/
def Unanswered (self : EnvProxyMap) (key : JStr) : Prop :=
  ∀ value, jvmGet self.original key = some value → value.startsWith vaultPrefix = true

/-- Whether a lookup is answered by the entry. -/
def FromCache (o : Oracle Int64) (self : EnvProxyMap) (t : Trace) (key : JStr)
    (entry : CacheEntry) : Prop :=
  Unanswered self key ∧ self.cache key = some entry ∧
    o.clock t.reads - entry.timestamp < self.cacheTtlMs

/-- The request the map would send now: for the key with its real value, or for the key
    alone. -/
def wanted (self : EnvProxyMap) (key : JStr) : Option Request :=
  (encode key (jvmGet self.original key)).map fun frame =>
    { path := self.socketPath.getBytes, frame }

theorem wanted_congr {self self' : EnvProxyMap} (horiginal : self'.original = self.original)
    (hsocket : self'.socketPath = self.socketPath) (key : JStr) : wanted self' key = wanted self key := by
  rw [wanted, wanted, horiginal, hsocket]

/-- What a request is answered after the requests sent before. -/
def heard (o : Oracle Int64) (before : List Request) : Option Request → Outcome (Option JStr)
  | none => .returned none
  | some request => received (o.reply (before ++ [request]))

def EnvProxyMap.store (self : EnvProxyMap) (key : JStr) (entry : CacheEntry) : EnvProxyMap :=
  { self with cache := Function.update self.cache key (some entry) }

theorem exec_refresh (o : Oracle Int64) (self : EnvProxyMap) (key : JStr) (t : Trace) :
    Recorded.exec (refresh o.world self key (jvmGet self.original key)) t =
      match heard o t.requests (wanted self key) with
      | .blocked => ((.blocked, self), t.sent (wanted self key))
      | .returned value =>
        ((.returned value, self.store key { value, timestamp := o.clock t.reads }),
          (t.sent (wanted self key)).tick) := by
  cases hencode : encode key (jvmGet self.original key) with
  | none =>
    simp [refresh, queryAgent, wanted, hencode, heard, Trace.sent, Trace.tick, EnvProxyMap.store]
  | some frame =>
    cases hreply : received (o.reply (t.requests ++ [⟨self.socketPath.getBytes, frame⟩])) with
    | blocked => simp [refresh, queryAgent, wanted, hencode, heard, hreply, Trace.sent]
    | returned value =>
      simp [refresh, queryAgent, wanted, hencode, heard, hreply, Trace.sent, Trace.tick,
        EnvProxyMap.store]

theorem exec_get_real (o : Oracle Int64) {self : EnvProxyMap} {key : JStr} (t : Trace)
    (h : ¬ Unanswered self key) :
    Recorded.exec (get o.world self key) t = ((.returned (jvmGet self.original key), self), t) := by
  simp only [Unanswered, not_forall] at h
  obtain ⟨value, hreal, hplain⟩ := h
  rw [get_plain _ hreal (Bool.eq_false_iff.mpr hplain), hreal, Recorded.exec_pure]

theorem exec_get_cached {o : Oracle Int64} {self : EnvProxyMap} {key : JStr} {t : Trace}
    {entry : CacheEntry} (h : FromCache o self t key entry) :
    Recorded.exec (get o.world self key) t = ((.returned entry.value, self), t.tick) := by
  obtain ⟨hunanswered, hentry, hvalid⟩ := h
  rw [get_resolve _ hunanswered]
  simp [resolve, hentry, hvalid, Trace.tick]

/-- A lookup answered neither by the real environment nor by the cache sends what is
    wanted and stores what it hears. -/
theorem exec_get_asked (o : Oracle Int64) {self : EnvProxyMap} {key : JStr} (t : Trace)
    (hunanswered : Unanswered self key) (hmiss : ∀ entry, ¬ FromCache o self t key entry) :
    Recorded.exec (get o.world self key) t =
      match heard o t.requests (wanted self key) with
      | .blocked => ((.blocked, self), (t.checked (self.cache key)).sent (wanted self key))
      | .returned value =>
        ((.returned value,
          self.store key { value, timestamp := o.clock (t.checked (self.cache key)).reads }),
          ((t.checked (self.cache key)).sent (wanted self key)).tick) := by
  have hrefresh : Recorded.exec (get o.world self key) t =
      Recorded.exec (refresh o.world self key (jvmGet self.original key))
        (t.checked (self.cache key)) := by
    rw [get_resolve _ hunanswered]
    cases hentry : self.cache key with
    | none => simp only [resolve, hentry, Trace.checked]
    | some entry =>
      have hexpired : ¬ o.clock t.reads - entry.timestamp < self.cacheTtlMs := fun hvalid =>
        hmiss entry ⟨hunanswered, hentry, hvalid⟩
      simp [resolve, hentry, hexpired, Trace.checked, Trace.tick]
  rw [hrefresh, exec_refresh, Trace.requests_checked]

end EnvProxy.Java
