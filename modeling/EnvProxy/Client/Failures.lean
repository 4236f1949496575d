-- SUMMARY: What a query that fails leaves in the caches of the Python and the Java client.
import EnvProxy.Client.JavaLookups
import EnvProxy.Client.PythonCache

/-!
# Failed queries

Both clients turn a refused connection, a response that breaks off, an error of the
agent and a genuine miss into one value, and store it. `failure_forgotten_iff` says
when the cache is as it was all the same.
-/

namespace EnvProxy

/-- A complete `Found` or `NotFound` response. -/
def Reply.conclusive : Reply → Bool
  | .refused => false
  | .stream s =>
    match decodeResponse s.data with
    | .ok { status := .found, value := _ } | .ok { status := .notFound, value := _ } => true
    | _ => false

theorem Reply.found_of_inconclusive {reply : Reply} (h : reply.conclusive = false) :
    reply.found = none := by
  cases reply with
  | refused => rfl
  | stream s =>
    simp only [found]
    split
    · next value hdecode => simp [conclusive, hdecode] at h
    · rfl

theorem update_eq_self_iff {α β : Type} [DecidableEq α] {f : α → Option β} {a : α} {b : β} :
    Function.update f a (some b) = f ↔ f a = some b := by
  constructor
  · intro h
    rw [← h, Function.update_self]
  · intro h
    rw [← h, Function.update_eq_self]

namespace Python

section

variable {Time : Type} [Sub Time] [LT Time] [DecidableLT Time] {o : Oracle Time}
  {self : Proxy Time} {t : Trace} {key : PyStr}

/-- A lookup that goes to the agent, and neither finds nor misses the key there. -/
def Fails (o : Oracle Time) (self : Proxy Time) (t : Trace) (key : PyStr) : Prop :=
  Unanswered self key ∧ (∀ entry, ¬ FromCache o self t key entry) ∧
    ∀ request, wanted self key = .ok (some request) →
      (o.reply (t.requests ++ [request])).conclusive = false

/-- Nothing is heard. -/
theorem Fails.heard {sent : Option Request} (h : Fails o self t key)
    (hwanted : wanted self key = .ok sent) : Python.heard o t.requests sent = none := by
  cases sent with
  | none => rfl
  | some request =>
    rw [Python.heard, received_eq, Reply.found_of_inconclusive (h.2.2 request hwanted)]
    rfl

theorem Fails.cache_iff (h : Fails o self t key) :
    (Recorded.exec (getitem o.world self key) t).1.2.cache = self.cache ↔
      (∃ e, wanted self key = .error e) ∨
        self.cache key = some { value := none, timestamp := o.clock (t.reads + 1) } := by
  rw [exec_getitem_asked o t h.1 h.2.1]
  cases hwanted : wanted self key with
  | error e => simp
  | ok sent =>
    simp only [Proxy.store, update_eq_self_iff, h.heard hwanted, reduceCtorEq, exists_false,
      false_or]
    cases self.cache key <;> simp [Trace.checked]

end

end Python

namespace Java

section

variable {o : Oracle Int64} {self : EnvProxyMap} {t : Trace} {key : JStr}

/-- A lookup that goes to the agent, and neither finds nor misses the key there. -/
def Fails (o : Oracle Int64) (self : EnvProxyMap) (t : Trace) (key : JStr) : Prop :=
  Unanswered self key ∧ (∀ entry, ¬ FromCache o self t key entry) ∧
    ∀ request, wanted self key = some request →
      (o.reply (t.requests ++ [request])).conclusive = false

/-- The response to the request falls silent before it is complete. -/
def Hangs (o : Oracle Int64) (self : EnvProxyMap) (t : Trace) (key : JStr) : Prop :=
  ∃ request stream, wanted self key = some request ∧
    o.reply (t.requests ++ [request]) = .stream stream ∧ readFrame stream = .error .silent

theorem received_eq_blocked_iff {reply : Reply} :
    received reply = .blocked ↔ ∃ stream, reply = .stream stream ∧ readFrame stream = .error .silent := by
  cases reply with
  | refused => simp [received]
  | stream s =>
    simp only [received, Reply.stream.injEq, exists_eq_left']
    split <;> simp [*]

theorem heard_eq_blocked_iff :
    heard o t.requests (wanted self key) = .blocked ↔ Hangs o self t key := by
  unfold Hangs
  cases wanted self key with
  | none => simp [heard]
  | some request => simp [heard, received_eq_blocked_iff]

/-- Nothing is heard, or the lookup does not return. -/
theorem Fails.heard (h : Fails o self t key) (hreturns : ¬ Hangs o self t key) :
    Java.heard o t.requests (wanted self key) = .returned none := by
  rw [← heard_eq_blocked_iff] at hreturns
  cases hwanted : wanted self key with
  | none => rfl
  | some request =>
    rw [hwanted] at hreturns
    exact (received_of_not_found (Reply.found_of_inconclusive (h.2.2 request hwanted))).resolve_right
      hreturns

theorem Fails.cache_iff (h : Fails o self t key) :
    (Recorded.exec (get o.world self key) t).1.2.cache = self.cache ↔
      Hangs o self t key ∨
        self.cache key = some { value := none, timestamp := o.clock (t.reads + 1) } := by
  rw [exec_get_asked o t h.1 h.2.1]
  by_cases hhangs : Hangs o self t key
  · simp [heard_eq_blocked_iff.mpr hhangs, hhangs]
  · simp only [h.heard hhangs, EnvProxyMap.store, update_eq_self_iff, hhangs, false_or]
    cases self.cache key <;> simp [Trace.checked]

end

end Java

/-- A failed query leaves the cache as it was exactly if it raises or hangs, or if the
    failure is remembered already, with the reading it is remembered with now. -/
theorem failure_forgotten_iff {Time : Type} [Sub Time] [LT Time] [DecidableLT Time]
    (o : Oracle Time) (self : Python.Proxy Time) (t : Trace) (key : PyStr)
    (o' : Oracle Int64) (map : Java.EnvProxyMap) (t' : Trace) (key' : JStr) :
    (Python.Fails o self t key →
      ((Recorded.exec (Python.getitem o.world self key) t).1.2.cache = self.cache ↔
        (∃ e, Python.wanted self key = .error e) ∨
          self.cache key = some { value := none, timestamp := o.clock (t.reads + 1) })) ∧
      (Java.Fails o' map t' key' →
        ((Recorded.exec (Java.get o'.world map key') t').1.2.cache = map.cache ↔
          Java.Hangs o' map t' key' ∨
            map.cache key' = some { value := none, timestamp := o'.clock (t'.reads + 1) })) :=
  ⟨Python.Fails.cache_iff, Java.Fails.cache_iff⟩

/-- The failure of a proxy without a TTL, remembered by a clock that stands still. -/
def rememberedFailure : Python.Proxy Int :=
  { Python.emptyProxy with
    cache := Function.update Python.emptyProxy.cache Python.composed
      (some { value := none, timestamp := 0 })
    cacheTtl := 0 }

/-- A Java map that has just been installed. -/
def emptyMap : Java.EnvProxyMap where
  original := []
  socketPath := .ofStr defaultSocketPath
  cacheTtlMs := 30000
  cache := fun _ => none

/-- The same in Java. -/
def rememberedMiss : Java.EnvProxyMap :=
  { emptyMap with
    cache := Function.update emptyMap.cache (.ofStr ['K']) (some { value := none, timestamp := 0 })
    cacheTtlMs := 0 }

theorem rememberedFailure_entry :
    rememberedFailure.cache Python.composed = some { value := none, timestamp := 0 } := by
  simp [rememberedFailure]

theorem rememberedMiss_entry :
    rememberedMiss.cache (.ofStr ['K']) = some { value := none, timestamp := 0 } := by
  simp [rememberedMiss]

theorem failure_forgotten_repeated :
    (Recorded.exec (Python.getitem Python.unreachable.world rememberedFailure Python.composed)
        .start).1.2.cache = rememberedFailure.cache ∧
      (Recorded.exec (Java.get (Oracle.always .refused 0).world rememberedMiss (.ofStr ['K']))
        .start).1.2.cache = rememberedMiss.cache := by
  have hfails : Python.Fails Python.unreachable rememberedFailure .start Python.composed := by
    refine ⟨by decide, fun entry hcached => ?_, fun _ _ => rfl⟩
    cases rememberedFailure_entry.symm.trans hcached.2.1
    exact absurd hcached.2.2 (by decide)
  have hfails' : Java.Fails (Oracle.always .refused 0) rememberedMiss .start (.ofStr ['K']) := by
    refine ⟨(fun value hvalue => nomatch hvalue), fun entry hcached => ?_, fun _ _ => rfl⟩
    cases rememberedMiss_entry.symm.trans hcached.2.1
    exact absurd hcached.2.2 (by decide)
  have hkept := failure_forgotten_iff Python.unreachable rememberedFailure .start Python.composed
    (Oracle.always .refused 0) rememberedMiss .start (.ofStr ['K'])
  exact ⟨(hkept.1 hfails).mpr (.inr rememberedFailure_entry),
    (hkept.2 hfails').mpr (.inr rememberedMiss_entry)⟩

/-- The agent is not there yet: both clients remember the variable as missing. -/
theorem failure_remembered :
    (Recorded.exec (Python.getitem Python.unreachable.world Python.emptyProxy Python.composed)
        .start).1.2.cache ≠ Python.emptyProxy.cache ∧
      (Recorded.exec (Java.get (Oracle.always .refused 0).world emptyMap (.ofStr ['K']))
        .start).1.2.cache ≠ emptyMap.cache := by
  constructor
  · have hfails : Python.Fails Python.unreachable Python.emptyProxy .start Python.composed :=
      ⟨by decide, (fun entry hcached => nomatch hcached.2.1), fun _ _ => rfl⟩
    rw [Ne, hfails.cache_iff]
    rintro (⟨e, hraises⟩ | hentry)
    · have hwanted : Python.wanted Python.emptyProxy Python.composed =
          .ok (some ⟨Utf8.encode defaultSocketPath, Python.protocolFrame [0xC3, 0xA9] none⟩) := by
        decide
      cases hwanted.symm.trans hraises
    · cases hentry
  · have hfails : Java.Fails (Oracle.always .refused 0) emptyMap .start (.ofStr ['K']) :=
      ⟨(fun value hvalue => nomatch hvalue), (fun entry hcached => nomatch hcached.2.1),
        fun _ _ => rfl⟩
    rw [Ne, hfails.cache_iff]
    rintro (⟨request, stream, -, hreply, -⟩ | hentry)
    · cases hreply
    · cases hentry

end EnvProxy
