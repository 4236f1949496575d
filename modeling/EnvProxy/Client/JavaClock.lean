-- SUMMARY: The TTL of the Java cache under an arbitrary wall clock.
import EnvProxy.Client.JavaLookups

/-!
# The wall clock

The age of an entry is the difference of two readings of `System.currentTimeMillis()`.
`ttl_kept_iff` says for which clocks the cache keeps its TTL, whatever is looked up and
whatever the agent says, and `ttl_outlived` is a clock that is set back.
-/

namespace EnvProxy.Java

/-- A map in use. `storedAt` is the reading at which the entry of a key was stored: a
    record, which no lookup looks at. -/
structure Session where
  map : EnvProxyMap
  trace : Trace
  storedAt : JStr → Nat

/-- Whether a lookup stores what it hears. -/
def stores (o : Oracle Int64) (s : Session) (key : JStr) : Bool :=
  (jvmGet s.map.original key).all (fun value => value.startsWith vaultPrefix) &&
    !(s.map.cache key).any (fun entry =>
      o.clock s.trace.reads - entry.timestamp < s.map.cacheTtlMs) &&
    heard o s.trace.requests (wanted s.map key) ≠ .blocked

/-- The session after a lookup. -/
def Session.get (o : Oracle Int64) (s : Session) (key : JStr) : Session :=
  let looked := Recorded.exec (Java.get o.world s.map key) s.trace
  { map := looked.1.2
    trace := looked.2
    storedAt :=
      if stores o s key then
        Function.update s.storedAt key (s.trace.checked (s.map.cache key)).reads
      else s.storedAt }

/-- A map that has just been installed. -/
def Session.fresh (original : Environ) (socketPath : JStr) (cacheTtlMs : Int64) : Session where
  map := { original, socketPath, cacheTtlMs, cache := fun _ => none }
  trace := .start
  storedAt := fun _ => 0

/-- An answer from the cache was stored no longer ago than the TTL, in real time, and
    with a TTL of zero there is none. -/
def Session.InTime (o : Oracle Int64) (real : Nat → Int) (s : Session) (key : JStr) : Prop :=
  ∀ entry, FromCache o s.map s.trace key entry →
    real s.trace.reads - real (s.storedAt key) ≤ s.map.cacheTtlMs.toInt ∧ s.map.cacheTtlMs ≠ 0

/-- Every lookup of a run is in time. -/
def RunInTime (o : Oracle Int64) (real : Nat → Int) : List JStr → Session → Prop
  | [], _ => True
  | key :: keys, s => s.InTime o real key ∧ RunInTime o real keys (s.get o key)

/-- Whatever the environment, the agent and the lookups are, all are in time. `real n` is
    the real time of the `n`-th reading. -/
def TtlKept (clock : Nat → Int64) (real : Nat → Int) (cacheTtlMs : Int64) : Prop :=
  ∀ original socketPath reply keys,
    RunInTime { reply, clock } real keys (.fresh original socketPath cacheTtlMs)

/-! ## Entries are dated -/

theorem stores_iff {o : Oracle Int64} {s : Session} {key : JStr} :
    stores o s key = true ↔
      Unanswered s.map key ∧ (∀ entry, ¬ FromCache o s.map s.trace key entry) ∧
        heard o s.trace.requests (wanted s.map key) ≠ .blocked := by
  have hreal : (jvmGet s.map.original key).all (fun value => value.startsWith vaultPrefix) = true ↔
      Unanswered s.map key := by
    unfold Unanswered
    cases jvmGet s.map.original key <;> simp
  have hcache : (s.map.cache key).any (fun entry =>
      o.clock s.trace.reads - entry.timestamp < s.map.cacheTtlMs) = true ↔
        ∃ entry, s.map.cache key = some entry ∧
          o.clock s.trace.reads - entry.timestamp < s.map.cacheTtlMs := by
    cases s.map.cache key <;> simp
  simp only [stores, Bool.and_eq_true, hreal, Bool.not_eq_true', ← Bool.not_eq_true, hcache,
    decide_eq_true_eq, and_assoc]
  refine and_congr_right fun hunanswered => and_congr_left fun _ => ?_
  exact ⟨fun h entry hcached => h ⟨entry, hcached.2⟩,
    fun h hentry => hentry.elim fun entry hentry => h entry ⟨hunanswered, hentry⟩⟩

/-- The record is right: every entry carries the reading at which it was stored. -/
def Session.Dated (o : Oracle Int64) (s : Session) : Prop :=
  ∀ key entry, s.map.cache key = some entry →
    s.storedAt key < s.trace.reads ∧ entry.timestamp = o.clock (s.storedAt key)

theorem Session.get_real {o : Oracle Int64} {s : Session} {key : JStr}
    (h : ¬ Unanswered s.map key) : s.get o key = s := by
  have hkeeps : stores o s key = false :=
    Bool.eq_false_iff.mpr fun hstores => h (stores_iff.mp hstores).1
  simp only [Session.get, exec_get_real o s.trace h, hkeeps, Bool.false_eq_true, if_false]

theorem Session.get_cached {o : Oracle Int64} {s : Session} {key : JStr} {entry : CacheEntry}
    (h : FromCache o s.map s.trace key entry) :
    s.get o key = { s with trace := s.trace.tick } := by
  have hkeeps : stores o s key = false :=
    Bool.eq_false_iff.mpr fun hstores => (stores_iff.mp hstores).2.1 entry h
  simp only [Session.get, exec_get_cached h, hkeeps, Bool.false_eq_true, if_false]

theorem Session.get_asked {o : Oracle Int64} {s : Session} {key : JStr}
    (hunanswered : Unanswered s.map key) (hmiss : ∀ entry, ¬ FromCache o s.map s.trace key entry) :
    s.get o key =
      match heard o s.trace.requests (wanted s.map key) with
      | .blocked =>
        { s with trace := (s.trace.checked (s.map.cache key)).sent (wanted s.map key) }
      | .returned value =>
        { map := s.map.store key
            { value, timestamp := o.clock (s.trace.checked (s.map.cache key)).reads }
          trace := ((s.trace.checked (s.map.cache key)).sent (wanted s.map key)).tick
          storedAt :=
            Function.update s.storedAt key (s.trace.checked (s.map.cache key)).reads } := by
  simp only [Session.get, exec_get_asked o s.trace hunanswered hmiss]
  cases hheard : heard o s.trace.requests (wanted s.map key) with
  | blocked =>
    have hkeeps : stores o s key = false :=
      Bool.eq_false_iff.mpr fun hstores => (stores_iff.mp hstores).2.2 hheard
    simp only [hkeeps, Bool.false_eq_true, if_false]
  | returned value =>
    have hstores : stores o s key = true :=
      stores_iff.mpr ⟨hunanswered, hmiss, by simp [hheard]⟩
    simp only [hstores, if_true]

/-- A lookup only lets time pass, or it stores an entry with the reading it then takes. -/
theorem Session.get_cases (o : Oracle Int64) (s : Session) (key : JStr) :
    (∃ t, s.trace.reads ≤ t.reads ∧ s.get o key = { s with trace := t }) ∨
      ∃ value t n, s.trace.reads ≤ n ∧ t.reads = n + 1 ∧ s.get o key =
        { map := s.map.store key { value, timestamp := o.clock n }
          trace := t
          storedAt := Function.update s.storedAt key n } := by
  have hchecked := s.trace.le_reads_checked (s.map.cache key)
  by_cases hunanswered : Unanswered s.map key
  · by_cases hcached : ∃ entry, FromCache o s.map s.trace key entry
    · obtain ⟨entry, hcached⟩ := hcached
      exact .inl ⟨_, by simp, get_cached hcached⟩
    · have hasked := get_asked hunanswered fun entry h => hcached ⟨entry, h⟩
      cases hheard : heard o s.trace.requests (wanted s.map key) with
      | blocked =>
        rw [hheard] at hasked
        exact .inl ⟨_, by simpa using hchecked, hasked⟩
      | returned value =>
        rw [hheard] at hasked
        exact .inr ⟨value, _, _, hchecked, by simp, hasked⟩
  · exact .inl ⟨s.trace, Nat.le_refl _, get_real hunanswered⟩

theorem Session.get_cacheTtlMs (o : Oracle Int64) (s : Session) (key : JStr) :
    (s.get o key).map.cacheTtlMs = s.map.cacheTtlMs := by
  obtain ⟨t, -, h⟩ | ⟨value, t, n, -, -, h⟩ := s.get_cases o key <;> rw [h]
  rfl

theorem Session.Dated.get {o : Oracle Int64} {s : Session} (h : s.Dated o) (key : JStr) :
    (s.get o key).Dated o := by
  intro other entry hentry
  obtain ⟨t, hreads, hget⟩ | ⟨value, t, n, hn, hreads, hget⟩ := s.get_cases o key
  · rw [hget] at hentry ⊢
    obtain ⟨hlt, hstamp⟩ := h other entry hentry
    exact ⟨Nat.lt_of_lt_of_le hlt hreads, hstamp⟩
  · rw [hget] at hentry ⊢
    by_cases hother : other = key
    · subst hother
      simp only [EnvProxyMap.store, Function.update_self, Option.some.injEq] at hentry
      subst hentry
      simp [hreads]
    · simp only [EnvProxyMap.store, Function.update_of_ne hother] at hentry ⊢
      obtain ⟨hlt, hstamp⟩ := h other entry hentry
      exact ⟨by omega, hstamp⟩

/-! ## The condition is enough -/

/-- A reading is within the TTL of an earlier one only if real time is. -/
def ClockKept (clock : Nat → Int64) (real : Nat → Int) (cacheTtlMs : Int64) : Prop :=
  ∀ j i, j < i → clock i - clock j < cacheTtlMs →
    real i - real j ≤ cacheTtlMs.toInt ∧ cacheTtlMs ≠ 0

theorem Session.Dated.inTime {o : Oracle Int64} {real : Nat → Int} {s : Session}
    (h : s.Dated o) (hclock : ClockKept o.clock real s.map.cacheTtlMs) (key : JStr) :
    s.InTime o real key := by
  intro entry hcached
  obtain ⟨-, hentry, hvalid⟩ := hcached
  obtain ⟨hlt, hstamp⟩ := h key entry hentry
  rw [hstamp] at hvalid
  exact hclock _ _ hlt hvalid

theorem ClockKept.run {o : Oracle Int64} {real : Nat → Int} {keys : List JStr} {s : Session}
    (hclock : ClockKept o.clock real s.map.cacheTtlMs) (h : s.Dated o) :
    RunInTime o real keys s := by
  induction keys generalizing s with
  | nil => trivial
  | cons key keys ih =>
    refine ⟨h.inTime hclock key, ih ?_ (h.get key)⟩
    rwa [s.get_cacheTtlMs o key]

/-! ## The condition is needed -/

/-- The names of variables nobody has set. -/
def name (n : Nat) : JStr := List.replicate n 97

theorem name_injective : Function.Injective name := by
  intro m n h
  simpa [name] using congrArg List.length h

/-- An agent that cannot be reached. -/
def unreachable (clock : Nat → Int64) : Oracle Int64 where
  reply := fun _ => .refused
  clock := clock

/-- The session after lookups of the first `n` names, each of which took a reading. -/
structure Session.Filled (clock : Nat → Int64) (cacheTtlMs : Int64) (n : Nat) (s : Session) :
    Prop where
  original : s.map.original = []
  ttl : s.map.cacheTtlMs = cacheTtlMs
  reads : s.trace.reads = n
  stored : ∀ m < n, s.storedAt (name m) = m ∧
    ∃ value, s.map.cache (name m) = some { value, timestamp := clock m }
  free : ∀ m, n ≤ m → s.map.cache (name m) = none

theorem Session.Filled.unanswered {clock : Nat → Int64} {cacheTtlMs : Int64} {n : Nat}
    {s : Session} (h : s.Filled clock cacheTtlMs n) (key : JStr) : Unanswered s.map key := by
  intro value hvalue
  rw [h.original] at hvalue
  cases hvalue

theorem Session.Filled.get {clock : Nat → Int64} {cacheTtlMs : Int64} {n : Nat} {s : Session}
    (h : s.Filled clock cacheTtlMs n) :
    (s.get (unreachable clock) (name n)).Filled clock cacheTtlMs (n + 1) := by
  have hfree := h.free n (Nat.le_refl n)
  have hmiss : ∀ entry, ¬ FromCache (unreachable clock) s.map s.trace (name n) entry :=
    fun entry hcached => nomatch hcached.2.1.symm.trans hfree
  have hheard : ∀ sent, heard (unreachable clock) s.trace.requests sent = .returned none := by
    intro sent
    cases sent <;> rfl
  have hget := get_asked (h.unanswered (name n)) hmiss
  rw [hheard] at hget
  rw [hget]
  have hreads : (s.trace.checked (s.map.cache (name n))).reads = n := by rw [hfree]; exact h.reads
  refine ⟨h.original, h.ttl, by simp [hreads], fun m hm => ?_, fun m hm => ?_⟩
  · by_cases hmn : m = n
    · subst hmn
      simp only [hreads, EnvProxyMap.store, Function.update_self]
      exact ⟨trivial, none, rfl⟩
    · have hname : name m ≠ name n := fun heq => hmn (name_injective heq)
      simp only [EnvProxyMap.store, Function.update_of_ne hname]
      exact h.stored m (by omega)
  · have hname : name m ≠ name n := fun heq => by have := name_injective heq; omega
    simp only [EnvProxyMap.store, Function.update_of_ne hname]
    exact h.free m (by omega)

theorem filled_run (clock : Nat → Int64) (cacheTtlMs : Int64) (n : Nat) :
    (((List.range n).map name).foldl (Session.get (unreachable clock))
      (.fresh [] [] cacheTtlMs)).Filled clock cacheTtlMs n := by
  induction n with
  | zero => exact ⟨rfl, rfl, rfl, fun m hm => absurd hm (Nat.not_lt_zero m), fun _ _ => rfl⟩
  | succ n ih =>
    rw [List.range_succ, List.map_append, List.foldl_append]
    exact ih.get

theorem RunInTime.append {o : Oracle Int64} {real : Nat → Int} {keys : List JStr} {key : JStr}
    {s : Session} (h : RunInTime o real (keys ++ [key]) s) :
    (keys.foldl (Session.get o) s).InTime o real key := by
  induction keys generalizing s with
  | nil => exact h.1
  | cons k keys ih => exact ih h.2

/-- A reading within the TTL of an earlier one serves the entry stored then. -/
theorem TtlKept.clock {clock : Nat → Int64} {real : Nat → Int} {cacheTtlMs : Int64}
    (h : TtlKept clock real cacheTtlMs) : ClockKept clock real cacheTtlMs := by
  intro j i hji hvalid
  have hrun : RunInTime (unreachable clock) real ((List.range i).map name ++ [name j])
      (.fresh [] [] cacheTtlMs) := h [] [] (fun _ => .refused) _
  have hfilled := filled_run clock cacheTtlMs i
  obtain ⟨hat, value, hentry⟩ := hfilled.stored j hji
  have hintime := RunInTime.append hrun _ ⟨hfilled.unanswered _, hentry, ?_⟩
  · rw [hfilled.reads, hat, hfilled.ttl] at hintime
    exact hintime
  · rw [hfilled.reads, hfilled.ttl]
    exact hvalid

/-- The cache keeps its TTL over every run exactly if no two readings are within the TTL
    of each other that are more than a TTL apart in real time, and none at all if the
    TTL is zero. -/
theorem ttl_kept_iff (clock : Nat → Int64) (real : Nat → Int) (cacheTtlMs : Int64) :
    TtlKept clock real cacheTtlMs ↔ ClockKept clock real cacheTtlMs := by
  constructor
  · exact TtlKept.clock
  · intro hclock original socketPath reply keys
    refine ClockKept.run hclock fun key entry hentry => ?_
    cases hentry

/-- The wall clock is set back by an hour after the first reading; real time goes on, a
    minute a reading. -/
theorem ttl_outlived :
    ¬ TtlKept (fun n => if n = 0 then 3600000 else 0) (fun n => 60000 * n) 30000 := by
  intro h
  have hminute := (h.clock 0 1 (by decide) (by decide)).1
  revert hminute
  decide

end EnvProxy.Java
