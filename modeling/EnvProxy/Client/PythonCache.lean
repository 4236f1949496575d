-- SUMMARY: Sequential runs of the Python proxy: what its cache serves, compared with a proxy that has none.
import EnvProxy.Client.PythonWrites

/-!
# The cache over sequential runs

An entry is dropped by a write under its own key. Two keys that encode to the same
bytes name one variable, but have an entry each, and a write under one leaves the
entry of the other. `cache_current` says that this is all that can go wrong, and
`alias_stale` that it does go wrong.
-/

namespace EnvProxy.Python

/-! ## Calls and runs -/

inductive Call where
  | getitem (key : PyStr)
  | contains (key : PyStr)
  | setitem (key value : PyStr)
  | delitem (key : PyStr)

inductive Returned where
  | item (result : Except Error PyStr)
  | membership (result : Except Error Bool)
  | written (result : Except Exception Unit)

section

variable {Time : Type} {m : Type → Type} [Monad m] [Sub Time] [LT Time] [DecidableLT Time]

def call (w : World Time m) (self : Proxy Time) : Call → m (Returned × Proxy Time)
  | .getitem key => do
    let (result, self) ← getitem w self key
    pure (.item result, self)
  | .contains key => do
    let (result, self) ← contains w self key
    pure (.membership result, self)
  | .setitem key value =>
    let (result, self) := setitem self key value
    pure (.written result, self)
  | .delitem key =>
    let (result, self) := delitem self key
    pure (.written result, self)

/-- One call after the other; the proxy is prepared before each. -/
def runWith (prepare : Proxy Time → Proxy Time) (w : World Time m) (self : Proxy Time) :
    List Call → m (List Returned × Proxy Time)
  | [] => pure ([], self)
  | c :: calls => do
    let (result, self) ← call w (prepare self) c
    let (results, self) ← runWith prepare w self calls
    pure (result :: results, self)

def run (w : World Time m) (self : Proxy Time) (calls : List Call) :
    m (List Returned × Proxy Time) :=
  runWith id w self calls

def forget (self : Proxy Time) : Proxy Time := { self with cache := fun _ => none }

/-- The run of a proxy that has no cache. -/
def uncachedRun (w : World Time m) (self : Proxy Time) (calls : List Call) :
    m (List Returned × Proxy Time) :=
  runWith forget w self calls

end

/-- What a call does to the real environment, and under which key. -/
def written (env : Environ) : Call → Option (PyStr × Except Exception Environ)
  | .setitem key value => some (key, osSetitem env key value)
  | .delitem key => some (key, osDelitem env key)
  | _ => none

section

variable {Time : Type} [Sub Time] [LT Time] [DecidableLT Time]

/-! ## What is promised -/

/-- The value is what was heard for the request the proxy would send now. -/
def Answers (o : Oracle Time) (self : Proxy Time) (t : Trace) (key : PyStr)
    (value : Option PyStr) : Prop :=
  ∃ sent before, wanted self key = .ok sent ∧ before ++ sent.toList <+: t.requests ∧
    value = heard o before sent

/-- The entry was stored at an earlier look at the clock. -/
def Dated (o : Oracle Time) (t : Trace) (entry : CacheEntry Time) : Prop :=
  ∃ n < t.reads, entry.timestamp = o.clock n

/-- Every entry a lookup can be answered from is the answer to its request. -/
def Current (o : Oracle Time) (self : Proxy Time) (t : Trace) : Prop :=
  ∀ key entry, self.cache key = some entry →
    Dated o t entry ∧ (FromCache o self t key entry → Answers o self t key entry.value)

/-- Where a write makes lookups under another spelling of the variable go past the
    real environment, an entry they can still be answered from is one for the request
    they send before and after the write. -/
def Clean (o : Oracle Time) (self : Proxy Time) (t : Trace) (c : Call) : Prop :=
  ∀ key original, written self.original c = some (key, .ok original) →
    ∀ twin entry, twin ≠ key → twin.encode = key.encode → self.cache twin = some entry →
      isCacheValid self (o.clock t.reads) entry = true →
      Unanswered { self with original } twin →
        Unanswered self twin ∧ wanted { self with original } twin = wanted self twin

def CleanRun (o : Oracle Time) : List Call → Proxy Time → Trace → Prop
  | [], _, _ => True
  | c :: calls, self, t =>
    Clean o self t c ∧
      CleanRun o calls (Recorded.exec (call o.world self c) t).1.2
        (Recorded.exec (call o.world self c) t).2

/-! ## Single calls -/

theorem osGetitem_written {env original : Environ} {c : Call} {key other : PyStr}
    (h : written env c = some (key, .ok original)) (hother : other.encode ≠ key.encode) :
    osGetitem original other = osGetitem env other := by
  cases hname : other.encode with
  | none => simp only [osGetitem, hname]
  | some name =>
    have hget : original.get name = env.get name := by
      cases c with
      | getitem k => cases h
      | contains k => cases h
      | setitem k value =>
        simp only [written, Option.some.injEq, Prod.mk.injEq] at h
        obtain ⟨rfl, hset⟩ := h
        obtain ⟨cname, text, hkey, -, rfl⟩ := osSetitem_ok hset
        refine Environ.get_set_ne env text fun heq => hother ?_
        rw [hname, hkey, heq]
      | delitem k =>
        simp only [written, Option.some.injEq, Prod.mk.injEq] at h
        obtain ⟨rfl, hdel⟩ := h
        obtain ⟨removed, hkey, -, -, rfl⟩ := osDelitem_ok_iff.mp hdel
        refine Environ.get_remove_ne env fun heq => hother ?_
        rw [hname, hkey, heq]
    rw [osGetitem_encoded hname, osGetitem_encoded hname, hget]

theorem call_write {w : World Time Recorded} {self : Proxy Time} {c : Call} {key : PyStr}
    {change : Except Exception Environ} (h : written self.original c = some (key, change))
    (t : Trace) :
    Recorded.exec (call w self c) t =
      ((.written (write self key change).1, (write self key change).2), t) := by
  cases c with
  | getitem k => cases h
  | contains k => cases h
  | setitem k value => cases h; rfl
  | delitem k => cases h; rfl

/-- A call that writes nothing leaves what a lookup leaves, or everything as it is. -/
theorem call_lookup {o : Oracle Time} {self : Proxy Time} {c : Call}
    (h : written self.original c = none) (t : Trace) :
    ((Recorded.exec (call o.world self c) t).1.2 = self ∧
        (Recorded.exec (call o.world self c) t).2 = t) ∨
      ∃ key,
        (Recorded.exec (call o.world self c) t).1.2 =
            (Recorded.exec (getitem o.world self key) t).1.2 ∧
          (Recorded.exec (call o.world self c) t).2 =
            (Recorded.exec (getitem o.world self key) t).2 := by
  cases c with
  | getitem key => exact .inr ⟨key, rfl, rfl⟩
  | contains key =>
    simp only [call, Recorded.exec_bind, exec_contains]
    split
    · exact .inr ⟨key, rfl, rfl⟩
    · exact .inl ⟨rfl, rfl⟩
  | setitem key value => cases h
  | delitem key => cases h

/-! ## The invariant -/

theorem Current.later {o : Oracle Time} {self : Proxy Time} {t t' : Trace} (hforward : o.Forward)
    (h : Current o self t) (hreads : t.reads ≤ t'.reads) (hrequests : t.requests <+: t'.requests) :
    Current o self t' := by
  intro key entry hentry
  obtain ⟨⟨n, hn, hstamp⟩, hanswers⟩ := h key entry hentry
  refine ⟨⟨n, by omega, hstamp⟩, fun hcached => ?_⟩
  have hbefore : FromCache o self t key entry := by
    refine ⟨hcached.1, hcached.2.1, ?_⟩
    have hyoung := hcached.2.2
    simp only [isCacheValid, decide_eq_true_eq, hstamp] at hyoung ⊢
    exact hforward n _ _ _ hreads hyoung
  obtain ⟨sent, before, hwanted, hsent, hheard⟩ := hanswers hbefore
  exact ⟨sent, before, hwanted, hsent.trans hrequests, hheard⟩

theorem Current.asked {o : Oracle Time} {self : Proxy Time} {t : Trace} {key : PyStr}
    {sent : Option Request} (hforward : o.Forward) (h : Current o self t)
    (hwanted : wanted self key = .ok sent) :
    Current o
      (self.store key { value := heard o t.requests sent, timestamp := o.clock t.reads })
      (t.sent sent).tick := by
  have hlater : Current o self (t.sent sent).tick :=
    h.later hforward (by simp) (by simp)
  intro other entry hentry
  by_cases hother : other = key
  · subst hother
    simp only [Proxy.store, Function.update_self, Option.some.injEq] at hentry
    subst hentry
    refine ⟨⟨t.reads, by simp, rfl⟩, fun _ => ⟨sent, t.requests, ?_, by simp, rfl⟩⟩
    rw [Proxy.wanted_store, hwanted]
  · simp only [Proxy.store, Function.update_of_ne hother] at hentry
    obtain ⟨hdated, hanswers⟩ := hlater other entry hentry
    exact ⟨hdated, fun hcached => hanswers ⟨hcached.1, hentry, hcached.2.2⟩⟩

/-- A lookup keeps the entries current. -/
theorem Current.getitem {o : Oracle Time} {self : Proxy Time} {t : Trace} (hforward : o.Forward)
    (h : Current o self t) (key : PyStr) :
    Current o (Recorded.exec (getitem o.world self key) t).1.2
      (Recorded.exec (getitem o.world self key) t).2 := by
  obtain hreal | ⟨entry, hcached⟩ | ⟨hunanswered, hmiss⟩ := lookup_cases o self t key
  · rw [exec_getitem_real o t hreal]
    exact h
  · rw [exec_getitem_cached hcached]
    exact h.later hforward (by simp) List.prefix_rfl
  · have hcurrent : Current o self (t.checked (self.cache key)) :=
      h.later hforward (t.le_reads_checked _) (by simp)
    rw [exec_getitem_asked o t hunanswered hmiss]
    cases hwanted : wanted self key with
    | error e => exact hcurrent
    | ok sent =>
      have hstored := hcurrent.asked hforward hwanted
      rwa [Trace.requests_checked] at hstored

/-- A write keeps the entries current, if it is clean. -/
theorem Current.write {o : Oracle Time} {self : Proxy Time} {t : Trace} {c : Call} {key : PyStr}
    {change : Except Exception Environ} (h : Current o self t) (hclean : Clean o self t c)
    (hwritten : written self.original c = some (key, change)) :
    Current o (write self key change).2 t := by
  cases change with
  | error e => exact h
  | ok original =>
    intro other entry hentry
    have hother : other ≠ key := by
      rintro rfl
      simp [Python.write] at hentry
    have hentry' : self.cache other = some entry := by
      simpa [Python.write, Function.update_of_ne hother] using hentry
    obtain ⟨hdated, hanswers⟩ := h other entry hentry'
    refine ⟨hdated, fun hcached => ?_⟩
    obtain ⟨hunanswered, -, hvalid⟩ := hcached
    have hsame : Unanswered self other ∧
        wanted (Python.write self key (.ok original)).2 other = wanted self other := by
      by_cases halias : other.encode = key.encode
      · exact hclean key original hwritten other entry hother halias hentry' hvalid hunanswered
      · have hreal := osGetitem_written hwritten halias
        exact ⟨(unanswered_congr hreal).mp hunanswered, wanted_congr hreal rfl⟩
    obtain ⟨sent, before, hwanted, hsent, hheard⟩ := hanswers ⟨hsame.1, hentry', hvalid⟩
    exact ⟨sent, before, hsame.2.trans hwanted, hsent, hheard⟩

theorem Current.call {o : Oracle Time} {self : Proxy Time} {t : Trace} {c : Call}
    (hforward : o.Forward) (h : Current o self t) (hclean : Clean o self t c) :
    Current o (Recorded.exec (call o.world self c) t).1.2
      (Recorded.exec (call o.world self c) t).2 := by
  cases hwritten : written self.original c with
  | none =>
    cases call_lookup hwritten t with
    | inl hsame =>
      rw [hsame.1, hsame.2]
      exact h
    | inr hlooked =>
      obtain ⟨key, hproxy, htrace⟩ := hlooked
      rw [hproxy, htrace]
      exact h.getitem hforward key
  | some change =>
    rw [call_write hwritten]
    exact h.write hclean hwritten

theorem Current.run {o : Oracle Time} {calls : List Call} {self : Proxy Time} {t : Trace}
    (hforward : o.Forward) (h : Current o self t) (hclean : CleanRun o calls self t) :
    Current o (Recorded.exec (run o.world self calls) t).1.2
      (Recorded.exec (run o.world self calls) t).2 := by
  induction calls generalizing self t with
  | nil => exact h
  | cons c calls ih => exact ih (h.call hforward hclean.1) hclean.2

end

/-! ## The proxy without a cache -/

section

variable {Time : Type}

instance (self : Proxy Time) (key : PyStr) : Decidable (Unanswered self key) :=
  match h : osGetitem self.original key with
  | .ok value => decidable_of_iff (value.startsWith vaultPrefix = true) (unanswered_real h).symm
  | .error e => decidable_of_iff (e = .keyError key) (unanswered_error h).symm

/-- What a lookup says if the agent always says the same, and nothing is cached. -/
def ideal (agent : Request → Reply) (self : Proxy Time) (key : PyStr) : Except Error PyStr :=
  if Unanswered self key then
    match wanted self key with
    | .error e => .error e
    | .ok sent => answer key (sent.bind fun request => received (agent request))
  else osGetitem self.original key

theorem heard_steady {o : Oracle Time} {agent : Request → Reply} (hsteady : o.Steady agent)
    (before : List Request) (sent : Option Request) :
    heard o before sent = sent.bind fun request => received (agent request) := by
  cases sent with
  | none => rfl
  | some request => exact congrArg received (hsteady before request)

theorem ideal_congr {agent : Request → Reply} {self self' : Proxy Time}
    (hreal : self'.original = self.original) (hsock : self'.sockPath = self.sockPath)
    (key : PyStr) : ideal agent self' key = ideal agent self key := by
  have hunanswered : Unanswered self' key ↔ Unanswered self key :=
    unanswered_congr (by rw [hreal])
  have hwanted : wanted self' key = wanted self key := wanted_congr (by rw [hreal]) hsock
  simp only [ideal, hunanswered, hwanted, hreal]

end

section

variable {Time : Type} [Sub Time] [LT Time] [DecidableLT Time]

/-- With current entries a lookup says what it would say without any. -/
theorem Current.getitem_ideal {o : Oracle Time} {agent : Request → Reply} {self : Proxy Time}
    {t : Trace} (h : Current o self t) (hsteady : o.Steady agent) (key : PyStr) :
    (Recorded.exec (Python.getitem o.world self key) t).1.1 = ideal agent self key := by
  obtain hreal | ⟨entry, hcached⟩ | ⟨hunanswered, hmiss⟩ := lookup_cases o self t key
  · rw [ideal, if_neg hreal, exec_getitem_real o t hreal]
  · obtain ⟨sent, before, hwanted, -, hheard⟩ := (h key entry hcached.2.1).2 hcached
    rw [ideal, if_pos hcached.1, exec_getitem_cached hcached, hwanted, hheard, heard_steady hsteady]
  · rw [ideal, if_pos hunanswered, exec_getitem_asked o t hunanswered hmiss]
    cases wanted self key with
    | error e => rfl
    | ok sent => simp only [heard_steady hsteady]

/-- Whatever the cache holds, a call has the same effect on the rest of the proxy. -/
theorem call_kept (o : Oracle Time) (self : Proxy Time) (c : Call) (t : Trace) :
    (Recorded.exec (call o.world self c) t).1.2.original =
        ((written self.original c).bind fun change => change.2.toOption).getD self.original ∧
      (Recorded.exec (call o.world self c) t).1.2.sockPath = self.sockPath ∧
      (Recorded.exec (call o.world self c) t).1.2.cacheTtl = self.cacheTtl := by
  cases hwritten : written self.original c with
  | none =>
    cases call_lookup (o := o) hwritten t with
    | inl hsame => simp [hsame.1]
    | inr hlooked =>
      obtain ⟨key, hproxy, -⟩ := hlooked
      rw [hproxy]
      exact exec_getitem_kept o self key t
  | some change =>
    rw [call_write hwritten]
    obtain ⟨key, change⟩ := change
    cases change <;> exact ⟨rfl, rfl, rfl⟩

/-- Two proxies with current entries answer a call alike. -/
theorem Current.call_agree {o : Oracle Time} {agent : Request → Reply} {self self' : Proxy Time}
    {t t' : Trace} (h : Current o self t) (h' : Current o self' t') (hsteady : o.Steady agent)
    (hreal : self'.original = self.original) (hsock : self'.sockPath = self.sockPath) (c : Call) :
    (Recorded.exec (Python.call o.world self' c) t').1.1 =
      (Recorded.exec (Python.call o.world self c) t).1.1 := by
  have hitem : ∀ key, (Recorded.exec (Python.getitem o.world self' key) t').1.1 =
      (Recorded.exec (Python.getitem o.world self key) t).1.1 := by
    intro key
    rw [h'.getitem_ideal hsteady, h.getitem_ideal hsteady, ideal_congr hreal hsock]
  cases hwritten : written self.original c with
  | some change =>
    rw [call_write hwritten, call_write (hreal ▸ hwritten)]
    obtain ⟨key, change⟩ := change
    cases change <;> rfl
  | none =>
    cases c with
    | getitem key => exact congrArg Returned.item (hitem key)
    | contains key =>
      simp only [Python.call, Recorded.exec_bind, exec_contains, hreal]
      split
      · exact congrArg (fun r => Returned.membership (isMember r)) (hitem key)
      · rfl
    | setitem key value => cases hwritten
    | delitem key => cases hwritten

theorem exec_run_cons (w : World Time Recorded) (self : Proxy Time) (c : Call) (calls : List Call)
    (t : Trace) :
    Recorded.exec (run w self (c :: calls)) t =
      let first := Recorded.exec (call w self c) t
      let rest := Recorded.exec (run w first.1.2 calls) first.2
      ((first.1.1 :: rest.1.1, rest.1.2), rest.2) := rfl

theorem current_of_empty {o : Oracle Time} {self : Proxy Time} {t : Trace}
    (h : ∀ key, self.cache key = none) : Current o self t := by
  intro key entry hentry
  rw [h key] at hentry
  cases hentry

/-- A clean run returns what the run without a cache returns. -/
theorem Current.run_agree {o : Oracle Time} {agent : Request → Reply} {calls : List Call}
    {self self' : Proxy Time} {t t' : Trace} (hforward : o.Forward) (h : Current o self t)
    (hclean : CleanRun o calls self t) (hsteady : o.Steady agent)
    (hreal : self'.original = self.original) (hsock : self'.sockPath = self.sockPath) :
    (Recorded.exec (uncachedRun o.world self' calls) t').1.1 =
      (Recorded.exec (Python.run o.world self calls) t).1.1 := by
  induction calls generalizing self self' t t' with
  | nil => rfl
  | cons c calls ih =>
    have hempty : Current o (forget self') t' := current_of_empty fun _ => rfl
    have hresult := h.call_agree hempty hsteady hreal hsock c
    obtain ⟨hreal₁, hsock₁, -⟩ := call_kept o self c t
    obtain ⟨hreal₂, hsock₂, -⟩ := call_kept o (forget self') c t'
    have hreal' : (Recorded.exec (Python.call o.world (forget self') c) t').1.2.original =
        (Recorded.exec (Python.call o.world self c) t).1.2.original := by
      rw [hreal₁, hreal₂]
      simp only [forget, hreal]
    have hsock' : (Recorded.exec (Python.call o.world (forget self') c) t').1.2.sockPath =
        (Recorded.exec (Python.call o.world self c) t).1.2.sockPath := by
      rw [hsock₁, hsock₂]
      exact hsock
    exact congrArg₂ List.cons hresult (ih (h.call hforward hclean.1) hclean.2 hreal' hsock')

theorem run_cacheTtl (o : Oracle Time) (self : Proxy Time) (calls : List Call) (t : Trace) :
    (Recorded.exec (run o.world self calls) t).1.2.cacheTtl = self.cacheTtl := by
  induction calls generalizing self t with
  | nil => rfl
  | cons c calls ih => exact (ih _ _).trans (call_kept o self c t).2.2

/-! ## The cache serves current answers -/

/-- After a write that is not clean, a lookup under the other spelling is answered by
    the entry it left. -/
theorem twin_served {o : Oracle Time} {self : Proxy Time} {t : Trace} {c : Call}
    {key twin : PyStr} {original : Environ} {entry : CacheEntry Time}
    (hwritten : written self.original c = some (key, .ok original)) (htwin : twin ≠ key)
    (hentry : self.cache twin = some entry)
    (hvalid : isCacheValid self (o.clock t.reads) entry = true)
    (hunanswered : Unanswered { self with original } twin) :
    FromCache o (Recorded.exec (call o.world self c) t).1.2
      (Recorded.exec (call o.world self c) t).2 twin entry := by
  rw [call_write hwritten]
  refine ⟨hunanswered, ?_, hvalid⟩
  simpa only [write, Function.update_of_ne htwin] using hentry

/-- In a clean run, an answer from the cache is what the agent said about the request
    that would be sent now, less than the TTL ago; and if the agent does not change
    its mind, the calls return what they would return without a cache. -/
theorem cache_current {o : Oracle Time} {self : Proxy Time} {calls : List Call}
    (hforward : o.Forward) (hempty : ∀ key, self.cache key = none)
    (hclean : CleanRun o calls self .start) :
    (∀ results proxy t, Recorded.exec (run o.world self calls) .start = ((results, proxy), t) →
      ∀ key entry, FromCache o proxy t key entry →
        Recorded.exec (getitem o.world proxy key) t = ((answer key entry.value, proxy), t.tick) ∧
          Answers o proxy t key entry.value ∧
          ∃ n < t.reads, entry.timestamp = o.clock n ∧
            o.clock t.reads - o.clock n < self.cacheTtl) ∧
      ∀ agent, o.Steady agent →
        (Recorded.exec (run o.world self calls) .start).1.1 =
          (Recorded.exec (uncachedRun o.world self calls) .start).1.1 := by
  have hstart : Current o self .start := current_of_empty hempty
  constructor
  · intro results proxy t hrun key entry hcached
    have hcurrent : Current o proxy t := by
      have hrun' := hstart.run hforward hclean
      rwa [hrun] at hrun'
    have httl : proxy.cacheTtl = self.cacheTtl := by
      have httl' := run_cacheTtl o self calls .start
      rwa [hrun] at httl'
    obtain ⟨⟨n, hn, hstamp⟩, hanswers⟩ := hcurrent key entry hcached.2.1
    refine ⟨exec_getitem_cached hcached, hanswers hcached, n, hn, hstamp, ?_⟩
    have hyoung := hcached.2.2
    simpa only [isCacheValid, decide_eq_true_eq, hstamp, httl] using hyoung
  · intro agent hsteady
    exact (hstart.run_agree hforward hclean hsteady rfl rfl).symm

end

/-- The letter é, and the two bytes of it as the environment gives them if they are
    not decoded. -/
def composed : PyStr := .ofStr ['é']

def undecoded : PyStr := [PyStr.escaped 0xC3, PyStr.escaped 0xA9]

def unreachable : Oracle Int := .always .refused 0

theorem unreachable_forward : unreachable.Forward :=
  Oracle.forward_of_le fun _ _ _ => Int.le_refl 0

def emptyProxy : Proxy Int where
  original := []
  cache := fun _ => none
  sockPath := .ofStr defaultSocketPath
  cacheTtl := 30

/-- The variable is looked up, set, and looked up again, under one spelling. -/
theorem cache_current_one_spelling :
    (Recorded.exec
        (run unreachable.world emptyProxy
          [.getitem composed, .setitem composed (.ofStr "vault:x".toList), .getitem composed])
        .start).1.1 =
      (Recorded.exec
        (uncachedRun unreachable.world emptyProxy
          [.getitem composed, .setitem composed (.ofStr "vault:x".toList), .getitem composed])
        .start).1.1 := by
  have hsteady : unreachable.Steady fun _ => .refused := fun _ _ => rfl
  have hfirst : ∀ twin, twin ≠ composed →
      (Recorded.exec (call unreachable.world emptyProxy (.getitem composed)) .start).1.2.cache twin =
        none := by
    intro twin htwin
    cases exec_getitem_state unreachable emptyProxy composed .start with
    | inl h => exact congrFun (congrArg Proxy.cache h) twin
    | inr h =>
      obtain ⟨value, entry, h, -⟩ := h
      refine (congrFun (congrArg Proxy.cache h) twin).trans ?_
      exact Function.update_of_ne htwin _ _
  have hclean : CleanRun unreachable
      [.getitem composed, .setitem composed (.ofStr "vault:x".toList), .getitem composed]
      emptyProxy .start := by
    refine ⟨?_, ?_, ?_, trivial⟩
    · intro key original hwritten
      cases hwritten
    · intro key original hwritten twin entry htwin _ hentry
      simp only [written, Option.some.injEq, Prod.mk.injEq] at hwritten
      rw [hfirst twin (hwritten.1 ▸ htwin)] at hentry
      cases hentry
    · intro key original hwritten
      cases hwritten
  exact (cache_current unreachable_forward (fun _ => rfl) hclean).2 _ hsteady

/-- The miss of the absent variable is served after it was set under its other
    spelling. -/
theorem alias_stale :
    unreachable.Forward ∧ ∃ results proxy t entry,
      Recorded.exec
          (run unreachable.world emptyProxy
            [.getitem composed, .setitem undecoded (.ofStr "vault:x".toList)]) .start =
        ((results, proxy), t) ∧
      FromCache unreachable proxy t composed entry ∧
      ¬ Answers unreachable proxy t composed entry.value := by
  let value : CStr := .lit "vault:x"
  let miss : Request := ⟨Utf8.encode defaultSocketPath, protocolFrame [0xC3, 0xA9] none⟩
  let entry : CacheEntry Int := { value := none, timestamp := 0 }
  let missed : Proxy Int := emptyProxy.store composed entry
  let env : Environ := [(⟨[0xC3, 0xA9], by decide⟩, value)]
  let t : Trace := { requests := [miss], reads := 1 }
  have hname : composed.encode = some [0xC3, 0xA9] := by decide
  have hlookup : Recorded.exec (getitem unreachable.world emptyProxy composed) .start =
      ((.error (.keyError composed), missed), t) := by
    have hwanted : request emptyProxy.sockPath composed none = .ok (some miss) := by decide
    rw [getitem_absent _ hname rfl]
    change Recorded.exec (refresh unreachable.world emptyProxy composed none) .start = _
    rw [exec_refresh, hwanted]
    rfl
  have hwritten : written missed.original (.setitem undecoded (.ofStr "vault:x".toList)) =
      some (undecoded, .ok env) :=
    congrArg (fun change => some (undecoded, change)) (by decide)
  have hreal : osGetitem env composed = .ok (.decode value.bytes) := by
    rw [osGetitem_encoded hname]
    rfl
  have hunanswered : Unanswered { missed with original := env } composed :=
    (unanswered_real hreal).mpr ((PyStr.startsWith_decode vaultPrefix_ascii _).mpr (by decide))
  have hrun : Recorded.exec
      (run unreachable.world emptyProxy
        [.getitem composed, .setitem undecoded (.ofStr "vault:x".toList)]) .start =
      (([.item (.error (.keyError composed)), .written (.ok ())], { missed with
        original := env, cache := Function.update missed.cache undecoded none }), t) := by
    have hfirst : Recorded.exec (call unreachable.world emptyProxy (.getitem composed)) .start =
        ((.item (.error (.keyError composed)), missed), t) := by
      simp only [call, Recorded.exec_bind, hlookup, Recorded.exec_pure]
    simp only [exec_run_cons, hfirst, call_write hwritten]
    rfl
  let set : Call := .setitem undecoded (.ofStr "vault:x".toList)
  have hserved : FromCache unreachable (Recorded.exec (call unreachable.world missed set) t).1.2
      (Recorded.exec (call unreachable.world missed set) t).2 composed entry :=
    twin_served hwritten (by decide) rfl (by decide) hunanswered
  rw [call_write hwritten] at hserved
  refine ⟨unreachable_forward, _, _, _, entry, hrun, hserved, ?_⟩
  · rintro ⟨sent, before, hwanted, hsent, -⟩
    have hv2 : wanted { missed with original := env } composed =
        .ok (some ⟨Utf8.encode defaultSocketPath, protocolFrame [0xC3, 0xA9] (some value.bytes)⟩) := by
      have hpath : missed.sockPath.encode = some (Utf8.encode defaultSocketPath) := by decide
      have hshort : ¬ value.bytes.length > 0xFFFF := by decide
      simp [wanted, hreal, Except.toOption, request, encode, hname, PyStr.encode_decode, hshort, hpath]
    have hv2' := hv2.symm.trans hwanted
    cases hv2'
    have hmem := hsent.subset (List.mem_append_right before (List.mem_singleton_self _))
    exact absurd (List.mem_singleton.mp hmem) (by decide)

end EnvProxy.Python
