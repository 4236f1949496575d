-- SUMMARY: Concurrent lookups of the Java map as interleaved tasks: states, acts, and what each act does.
import EnvProxy.Client.JavaLookups
import EnvProxy.Library.Machine

/-!
# Concurrent Java lookups

Every call of `EnvProxyMap.get` is a task. It holds the lock of the cache while it looks
an entry up and compares its age, and once more while it stores what it heard. In between
other threads act and time passes. The JVM's own environment never changes.
`alone_get` ties the acts of one undisturbed lookup to the function.
-/

namespace EnvProxy.Java

structure Shared where
  map : EnvProxyMap
  /-- `System.currentTimeMillis()`. -/
  now : Int64

inductive Phase where
  | idle
  | checking (key : JStr)
  | asking (key : JStr)
  | storing (key : JStr) (resolved : Option JStr)
  | done (key : JStr) (result : Option JStr)

/-- What a lookup does next: start, check the cache, find its key too long to send, hear a
    reply, store what it heard. -/
inductive Act where
  | get (key : JStr)
  | check
  | unsent
  | hear (reply : Reply)
  | store

/-- A lookup hears no reply that does not complete. -/
def act : Act → Shared → Phase → Option (Shared × Phase)
  | .get key, sh, .idle =>
    match (jvmGet sh.map.original key).filter fun value => !value.startsWith vaultPrefix with
    | some value => some (sh, .done key (some value))
    | none => some (sh, .checking key)
  | .check, sh, .checking key =>
    match sh.map.cache key with
    | none => some (sh, .asking key)
    | some entry =>
      if sh.now - entry.timestamp < sh.map.cacheTtlMs then some (sh, .done key entry.value)
      else some (sh, .asking key)
  | .unsent, sh, .asking key =>
    match wanted sh.map key with
    | none => some (sh, .storing key none)
    | some _ => none
  | .hear reply, sh, .asking key =>
    match wanted sh.map key, received reply with
    | some _, .returned resolved => some (sh, .storing key resolved)
    | _, _ => none
  | .store, sh, .storing key resolved =>
    some ({ sh with map := sh.map.store key { value := resolved, timestamp := sh.now } },
      .done key resolved)
  | _, _, _ => none

/-- The clock is set. -/
def event (now : Int64) (sh : Shared) : Option Shared := some { sh with now }

def threads : Tasks Shared Phase Act Int64 where
  act := act
  env := event

/-- The interleavings of any number of lookups. -/
def machine : Machine (Pool Nat Shared Phase) (Move Nat Act Int64) := threads.machine

/-- A map that has just been installed. -/
def start (original : Environ) (socketPath : JStr) (cacheTtlMs now : Int64) :
    Pool Nat Shared Phase where
  shared := { map := { original, socketPath, cacheTtlMs, cache := fun _ => none }, now }
  tasks := fun _ => .idle

/-! ## What an act does -/

/-- The acts by what they do. -/
inductive Does (sh : Shared) : Act → Phase → Shared → Phase → Prop where
  | real {key value} : jvmGet sh.map.original key = some value → value.startsWith vaultPrefix = false →
      Does sh (.get key) .idle sh (.done key (some value))
  | unanswered {key} : Unanswered sh.map key → Does sh (.get key) .idle sh (.checking key)
  | hit {key entry} : sh.map.cache key = some entry → sh.now - entry.timestamp < sh.map.cacheTtlMs →
      Does sh .check (.checking key) sh (.done key entry.value)
  | missed {key} :
      (∀ entry, sh.map.cache key = some entry → ¬ sh.now - entry.timestamp < sh.map.cacheTtlMs) →
      Does sh .check (.checking key) sh (.asking key)
  | unsent {key} : wanted sh.map key = none → Does sh .unsent (.asking key) sh (.storing key none)
  | heard {key reply resolved request} : wanted sh.map key = some request →
      received reply = .returned resolved → Does sh (.hear reply) (.asking key) sh (.storing key resolved)
  | stored {key resolved} :
      Does sh .store (.storing key resolved)
        { sh with map := sh.map.store key { value := resolved, timestamp := sh.now } }
        (.done key resolved)

theorem filter_eq_none_iff_unanswered {self : EnvProxyMap} {key : JStr} :
    ((jvmGet self.original key).filter fun value => !value.startsWith vaultPrefix) = none ↔
      Unanswered self key := by
  unfold Unanswered
  cases jvmGet self.original key <;> simp [Option.filter]

theorem act_does {a : Act} {sh sh' : Shared} {ph ph' : Phase} (h : act a sh ph = some (sh', ph')) :
    Does sh a ph sh' ph' := by
  cases a with
  | get key =>
    cases ph with
    | idle =>
      simp only [act] at h
      split at h
      · next value hvalue =>
        cases h
        obtain ⟨hreal, hplain⟩ := Option.filter_eq_some_iff.mp hvalue
        exact .real hreal (Bool.not_eq_true' _ ▸ hplain)
      · next hnone => cases h; exact .unanswered (filter_eq_none_iff_unanswered.mp hnone)
    | _ => cases h
  | check =>
    cases ph with
    | checking key =>
      simp only [act] at h
      split at h
      · next hnone => cases h; exact .missed fun entry hentry => nomatch hnone.symm.trans hentry
      · next entry hentry =>
        split at h
        · next hyoung => cases h; exact .hit hentry hyoung
        · next hold =>
          cases h
          refine .missed fun entry' hentry' => ?_
          cases hentry.symm.trans hentry'
          exact hold
    | _ => cases h
  | unsent =>
    cases ph with
    | asking key =>
      simp only [act] at h
      split at h
      · next hwanted => cases h; exact .unsent hwanted
      · cases h
    | _ => cases h
  | hear reply =>
    cases ph with
    | asking key =>
      simp only [act] at h
      split at h
      · next request resolved hwanted hreceived => cases h; exact .heard hwanted hreceived
      · cases h
    | _ => cases h
  | store =>
    cases ph with
    | storing key resolved => cases h; exact .stored
    | _ => cases h

theorem Does.act {a : Act} {sh sh' : Shared} {ph ph' : Phase} (h : Does sh a ph sh' ph') :
    act a sh ph = some (sh', ph') := by
  cases h with
  | @real key value hreal hplain =>
    have hfilter : ((jvmGet sh.map.original key).filter fun value => !value.startsWith vaultPrefix) =
        some value := Option.filter_eq_some_iff.mpr ⟨hreal, by rw [hplain]; rfl⟩
    simp only [Java.act, hfilter]
  | unanswered hunanswered => simp only [Java.act, filter_eq_none_iff_unanswered.mpr hunanswered]
  | hit hentry hyoung => simp only [Java.act, hentry, if_pos hyoung]
  | @missed key hold =>
    cases hentry : sh.map.cache key with
    | none => simp only [Java.act, hentry]
    | some entry => simp only [Java.act, hentry, if_neg (hold entry hentry)]
  | unsent hwanted => simp only [Java.act, hwanted]
  | heard hwanted hreceived => simp only [Java.act, hwanted, hreceived]
  | stored => rfl

/-- No act moves the clock or changes anything of the map but its cache. -/
theorem Does.keeps {a : Act} {sh sh' : Shared} {ph ph' : Phase} (h : Does sh a ph sh' ph') :
    sh'.now = sh.now ∧ sh'.map.original = sh.map.original ∧ sh'.map.socketPath = sh.map.socketPath ∧
      sh'.map.cacheTtlMs = sh.map.cacheTtlMs := by
  cases h <;> exact ⟨rfl, rfl, rfl, rfl⟩

/-- An act leaves the entry of a key alone, or stores what a lookup of it has heard. -/
theorem Does.cache_cases {a : Act} {sh sh' : Shared} {ph ph' : Phase} (h : Does sh a ph sh' ph')
    (key : JStr) :
    sh'.map.cache key = sh.map.cache key ∨
      ∃ resolved, ph = .storing key resolved ∧
        sh'.map.cache key = some { value := resolved, timestamp := sh.now } := by
  cases h with
  | @stored other resolved =>
    simp only [EnvProxyMap.store, Function.update_apply]
    split
    · next heq =>
      subst heq
      exact .inr ⟨resolved, rfl, rfl⟩
    · exact .inl rfl
  | _ => exact .inl rfl

/-- A lookup has a value to store only if it has just heard it. -/
theorem Does.storing_cases {a : Act} {sh sh' : Shared} {ph ph' : Phase} (h : Does sh a ph sh' ph')
    {key v : JStr} (hstoring : ph' = .storing key (some v)) :
    ∃ reply, a = .hear reply ∧ ph = .asking key ∧ received reply = .returned (some v) := by
  cases h with
  | heard _ hreceived => cases hstoring; exact ⟨_, rfl, rfl, hreceived⟩
  | _ => cases hstoring

/-- A lookup returns a real value, one of the cache, or the one it stores. -/
theorem Does.done_cases {a : Act} {sh sh' : Shared} {ph ph' : Phase} (h : Does sh a ph sh' ph')
    {key v : JStr} (hdone : ph' = .done key (some v)) :
    ¬ Unanswered sh.map key ∨
      (∃ entry, sh.map.cache key = some entry ∧ sh.now - entry.timestamp < sh.map.cacheTtlMs ∧
        entry.value = some v) ∨
      ph = .storing key (some v) := by
  cases h with
  | real hreal hplain =>
    cases hdone
    refine .inl fun hunanswered => ?_
    cases hplain.symm.trans (hunanswered _ hreal)
  | hit hentry hyoung =>
    obtain ⟨rfl, hvalue⟩ := Phase.done.inj hdone
    exact .inr (.inl ⟨_, hentry, hyoung, hvalue⟩)
  | stored => cases hdone; exact .inr (.inr rfl)
  | _ => cases hdone

theorem step_does {i : Nat} {a : Act} {p p' : Pool Nat Shared Phase}
    (h : machine.step p (.task i a) = some p') :
    Does p.shared a (p.tasks i) p'.shared (p'.tasks i) ∧ ∀ j, j ≠ i → p'.tasks j = p.tasks j := by
  obtain ⟨sh', ph', hact, rfl⟩ := Tasks.step_task_iff.mp h
  refine ⟨?_, fun j hj => Function.update_of_ne hj _ _⟩
  simpa using act_does hact

/-! ## One lookup, undisturbed -/

theorem Does.alone {a : Act} {as : List Act} {sh sh' sh'' : Shared} {ph ph' ph'' : Phase}
    (h : Does sh a ph sh' ph') (hrest : threads.Alone as sh' ph' sh'' ph'') :
    threads.Alone (a :: as) sh ph sh'' ph'' :=
  .cons h.act hrest

/-- What an undisturbed lookup comes to: the answer and the map of `get`, or waiting
    for the rest of a response. -/
def Phase.of (key : JStr) : Outcome (Option JStr) → Phase
  | .returned result => .done key result
  | .blocked => .asking key

/-- A lookup that asks and hears `reply`. -/
theorem alone_asking (reply : Reply) (sh : Shared) (key : JStr) :
    let o := Oracle.always reply sh.now
    ∃ as, threads.Alone as sh (.asking key)
      (match heard o [] (wanted sh.map key) with
        | .blocked => sh
        | .returned value => { sh with map := sh.map.store key { value, timestamp := sh.now } })
      (.of key (heard o [] (wanted sh.map key))) := by
  intro o
  cases hwanted : wanted sh.map key with
  | none => exact ⟨[.unsent, .store], (Does.unsent hwanted).alone (Does.stored.alone .nil)⟩
  | some request =>
    cases hreceived : received reply with
    | blocked =>
      have hheard : heard o [] (some request) = .blocked := hreceived
      rw [hheard]
      exact ⟨[], .nil⟩
    | returned resolved =>
      have hheard : heard o [] (some request) = .returned resolved := hreceived
      rw [hheard]
      exact ⟨[.hear reply, .store], (Does.heard hwanted hreceived).alone (Does.stored.alone .nil)⟩

/-- An undisturbed lookup is answered without a reply, or it gets as far as asking. -/
theorem alone_cases (sh : Shared) (key : JStr) :
    (∃ as result, (∀ a ∈ as, ∀ reply, a ≠ .hear reply) ∧ threads.Alone as sh .idle sh (.done key result) ∧
        ∀ reply, (Recorded.exec (get (Oracle.always reply sh.now).world sh.map key) .start).1 =
          (.returned result, sh.map)) ∨
      (threads.Alone [.get key, .check] sh .idle sh (.asking key) ∧
        ∀ reply, (Recorded.exec (get (Oracle.always reply sh.now).world sh.map key) .start).1 =
          match heard (Oracle.always reply sh.now) [] (wanted sh.map key) with
          | .blocked => (.blocked, sh.map)
          | .returned value => (.returned value, sh.map.store key { value, timestamp := sh.now })) := by
  by_cases hunanswered : Unanswered sh.map key
  · by_cases hyoung : ∃ entry, sh.map.cache key = some entry ∧
        sh.now - entry.timestamp < sh.map.cacheTtlMs
    · obtain ⟨entry, hentry, hyoung⟩ := hyoung
      refine .inl ⟨[.get key, .check], entry.value, by simp, ?_, fun reply => ?_⟩
      · exact (Does.unanswered hunanswered).alone ((Does.hit hentry hyoung).alone .nil)
      · have hcached : FromCache (.always reply sh.now) sh.map .start key entry :=
          ⟨hunanswered, hentry, hyoung⟩
        rw [exec_get_cached hcached]
    · have hmissed : Does sh .check (.checking key) sh (.asking key) :=
        .missed fun entry hentry h => hyoung ⟨entry, hentry, h⟩
      refine .inr ⟨(Does.unanswered hunanswered).alone (hmissed.alone .nil), fun reply => ?_⟩
      have hmiss : ∀ entry, ¬ FromCache (.always reply sh.now) sh.map .start key entry :=
        fun entry h => hyoung ⟨entry, h.2⟩
      rw [exec_get_asked (.always reply sh.now) .start hunanswered hmiss]
      have hstart : heard (.always reply sh.now) Trace.start.requests (wanted sh.map key) =
          heard (.always reply sh.now) [] (wanted sh.map key) := rfl
      rw [hstart]
      cases heard (.always reply sh.now) [] (wanted sh.map key) <;> rfl
  · have hget : ∀ reply, (Recorded.exec (get (Oracle.always reply sh.now).world sh.map key) .start).1 =
        (.returned (jvmGet sh.map.original key), sh.map) := by
      intro reply
      rw [exec_get_real (.always reply sh.now) .start hunanswered]
    simp only [Unanswered, not_forall] at hunanswered
    obtain ⟨value, hreal, hplain⟩ := hunanswered
    rw [hreal] at hget
    exact .inl ⟨[.get key], some value, by simp,
      (Does.real hreal (Bool.eq_false_iff.mpr hplain)).alone .nil, hget⟩

/-- The acts of a lookup that is not disturbed are those of `get`. -/
theorem alone_get (reply : Reply) (sh : Shared) (key : JStr) :
    let looked := (Recorded.exec (get (Oracle.always reply sh.now).world sh.map key) .start).1
    ∃ as, threads.Alone as sh .idle { sh with map := looked.2 } (.of key looked.1) := by
  intro looked
  rcases alone_cases sh key with ⟨as, result, -, halone, hget⟩ | ⟨halone, hget⟩
  · simp only [looked, hget reply]
    exact ⟨as, halone⟩
  · obtain ⟨as, hasking⟩ := alone_asking reply sh key
    refine ⟨[.get key, .check] ++ as, halone.append ?_⟩
    simp only [looked, hget reply]
    cases hheard : heard (.always reply sh.now) [] (wanted sh.map key) with
    | blocked =>
      rw [hheard] at hasking
      exact hasking
    | returned value =>
      rw [hheard] at hasking
      exact hasking

/-! ## Where an answer may come from -/

/-- A lookup goes past the real environment only if the key is unanswered there, and
    answers from it otherwise. -/
def looking (original : Environ) : Tasks.Inv Nat Shared Phase where
  shared := fun sh => sh.map.original = original
  task := fun _ _ ph =>
    match ph with
    | .idle => True
    | .checking key | .asking key | .storing key _ =>
      ∀ value, jvmGet original key = some value → value.startsWith vaultPrefix = true
    | .done key result =>
      (∀ value, jvmGet original key = some value → value.startsWith vaultPrefix = true) ∨
        ∃ value, result = some value ∧ jvmGet original key = some value ∧
          value.startsWith vaultPrefix = false

theorem looking_kept (original : Environ) : (looking original).Kept threads .any where
  act := by
    intro i a sh ph sh' ph' _ hshared htask hact
    have hdoes := act_does hact
    refine ⟨hdoes.keeps.2.1.trans hshared, ?_⟩
    obtain rfl : sh.map.original = original := hshared
    cases hdoes with
    | real hreal hplain => exact .inr ⟨_, rfl, hreal, hplain⟩
    | unanswered hunanswered => exact hunanswered
    | hit _ _ => exact .inl htask
    | stored => exact .inl htask
    | _ => exact htask
  act_stable := fun _ _ _ _ hu _ => hu
  env := by
    intro e sh sh' _ hshared henv
    cases henv
    exact hshared
  env_stable := fun _ _ hu _ => hu

theorem looking_reaches {ok : Pool Nat Shared Phase → Move Nat Act Int64 → Prop} {original : Environ}
    {socketPath : JStr} {cacheTtlMs now : Int64} {p : Pool Nat Shared Phase}
    (h : machine.Reaches ok (start original socketPath cacheTtlMs now) p) : (looking original).holds p :=
  (looking_kept original).reaches_any (h.mono fun _ _ _ => trivial) ⟨rfl, fun _ => trivial⟩

end EnvProxy.Java
