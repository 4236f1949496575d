-- SUMMARY: A Python process at a shared agent: what `os.environ` gives out while others are served and secrets rotate.
import EnvProxy.Client.PythonCache
import EnvProxy.System.LibraryLookups

/-!
# The Python proxy at the socket

The proxy keeps what it is told for its TTL, and its environment can be written to between
two lookups. `Current` says of an entry that it answers the request that would be sent now;
`Since` says in addition that it was heard after some moment, unless it was there before.
-/

namespace EnvProxy.Python

open Machine Server

variable {Time : Type}

/-! ## What a request asks for -/

/-- The frame of a request asks for the bytes of the key, with the bytes of the value. -/
theorem requests_of_encode {key : PyStr} {value : Option PyStr} {frame : Bytes}
    (h : encode key value = .ok (some frame)) :
    ∃ name, key.encode = some name ∧ Requests frame (.request name (value.bind PyStr.encode)) := by
  unfold encode at h
  cases hname : key.encode with
  | none =>
    rw [hname] at h
    cases h
  | some name =>
    simp only [hname] at h
    split at h
    · cases h
    · next hkey =>
      have hkey' : name.length ≤ maxKeyLen := Nat.le_of_not_lt hkey
      cases value with
      | none =>
        cases h
        have hframe : encodeRequest name = some (protocolFrame name none) := by
          rw [encodeRequest_eq, if_pos hkey']
          rfl
        exact ⟨name, rfl, by simpa using Requests.v1 (t := []) hframe⟩
      | some value =>
        cases hvalue : value.encode with
        | none =>
          simp only [hvalue] at h
          cases h
        | some val =>
          simp only [hvalue] at h
          split at h
          · cases h
          · next hval =>
            cases h
            have hframe : encodeRequestV2 name val = some (protocolFrame name (some val)) := by
              rw [encodeRequestV2_eq, if_pos ⟨hkey', Nat.le_of_not_lt hval⟩]
              simp [protocolFrame]
            exact ⟨name, rfl, by simpa [hvalue] using Requests.v2 (t := []) hframe⟩

/-- The proxy asks for the variable its key names, with the bytes it has. -/
theorem requests_of_wanted {self : Proxy Time} {key : PyStr} {sent : Request}
    (h : wanted self key = .ok (some sent)) :
    ∃ name, key.encode = some name ∧
      Requests sent.frame (.request name ((self.original.get name).map CStr.bytes)) := by
  unfold wanted request at h
  cases hencode : encode key (osGetitem self.original key).toOption with
  | error e =>
    rw [hencode] at h
    cases h
  | ok frame? =>
    cases frame? with
    | none =>
      rw [hencode] at h
      cases h
    | some frame =>
      rw [hencode] at h
      cases hpath : self.sockPath.encode with
      | none =>
        rw [hpath] at h
        cases h
      | some path =>
        rw [hpath] at h
        cases h
        obtain ⟨name, hname, hrequests⟩ := requests_of_encode hencode
        refine ⟨name, hname, ?_⟩
        rw [osGetitem_encoded hname] at hrequests
        cases hget : self.original.get name with
        | none => simpa [hget, Except.toOption] using hrequests
        | some value => simpa [hget, Except.toOption, PyStr.encode_decode] using hrequests

/-! ## What is heard -/

/-- What the proxy has heard since `base`, it has heard on connections of the agent. -/
def HeardOn (o : Oracle Time) (p : Pool Nat (Server.Shared Vault.Shared) (Conn Vault.Phase)) (on : Nat → Prop)
    (base t : Trace) : Prop :=
  ∀ before request, before ++ [request] <+: t.requests → base.requests.length ≤ before.length →
    ∃ c, on c ∧ Libenvproxy.Hears request.frame (p.tasks c) (o.reply (before ++ [request]))

/-- The value was heard since `base`, for the request the proxy would send now. -/
def Told (o : Oracle Time) (base : Trace) (self : Proxy Time) (t : Trace) (key : PyStr)
    (value : Option PyStr) : Prop :=
  ∃ sent before, wanted self key = .ok sent ∧ before ++ sent.toList <+: t.requests ∧
    base.requests.length ≤ before.length ∧ value = heard o before sent

theorem Told.later {o : Oracle Time} {base t t' : Trace} {self : Proxy Time} {key : PyStr}
    {value : Option PyStr} (h : Told o base self t key value) (hrequests : t.requests <+: t'.requests) :
    Told o base self t' key value := by
  obtain ⟨sent, before, hwanted, hsent, hbase, hvalue⟩ := h
  exact ⟨sent, before, hwanted, hsent.trans hrequests, hbase, hvalue⟩

/-- A value the proxy was told is the result of the call on the reference that the
    variable holds. -/
theorem Told.done {ttl now : Nat} {latest : Str → Str → Nat}
    {p : Pool Nat (Server.Shared Vault.Shared) (Conn Vault.Phase)} {o : Oracle Time} {on : Nat → Prop}
    {base t : Trace} {self : Proxy Time} {key v : PyStr}
    (hreach : (Server.machine (Vault.service ttl)).Reaches anyMove (bound (Vault.start now latest)) p)
    (hheard : HeardOn o p on base t) (h : Told o base self t key (some v)) :
    ∃ name ref c text serial, key.encode = some name ∧ self.original.get name = some ref ∧ on c ∧
      (p.tasks c).task = .done (Utf8.lossy ref.bytes) (.ok (some text)) serial ∧
      v = .decode (Utf8.encode text) := by
  obtain ⟨sent, before, hwanted, hsent, hbase, hvalue⟩ := h
  cases sent with
  | none => cases hvalue
  | some request =>
    obtain ⟨name, hname, hrequests⟩ := requests_of_wanted hwanted
    obtain ⟨c, hon, hhears⟩ := hheard before request hsent hbase
    have hreceived : (o.reply (before ++ [request])).found.map PyStr.decode = some v := by
      rw [← received_eq]
      exact hvalue.symm
    obtain ⟨b, hfound, rfl⟩ := Option.map_eq_some_iff.mp hreceived
    obtain ⟨bytes, text, serial, hbytes, hdone, rfl⟩ := hhears.done hreach hrequests hfound
    obtain ⟨ref, hget, rfl⟩ := Option.map_eq_some_iff.mp hbytes
    exact ⟨name, ref, c, text, serial, hname, hget, hon, hdone, rfl⟩

section

variable [Sub Time] [LT Time] [DecidableLT Time]

/-- A lookup that returns a value takes it from the real environment, from an entry, or
    from what it is told. -/
theorem value_cases {o : Oracle Time} {self self' : Proxy Time} {t t' : Trace} {key v : PyStr}
    (h : Recorded.exec (getitem o.world self key) t = ((.ok v, self'), t')) :
    t.requests <+: t'.requests ∧
      ((osGetitem self.original key = .ok v ∧ v.startsWith vaultPrefix = false) ∨
        (∃ entry, FromCache o self t key entry ∧ entry.value = some v) ∨ Told o t self t' key (some v)) := by
  have hanswer : ∀ {value : Option PyStr}, answer key value = .ok v → value = some v := by
    intro value hok
    cases value with
    | none => cases hok
    | some v' => exact congrArg some (Except.ok.inj hok)
  obtain hreal | ⟨entry, hcached⟩ | ⟨hunanswered, hmiss⟩ := lookup_cases o self t key
  · rw [exec_getitem_real o t hreal] at h
    simp only [Prod.mk.injEq] at h
    obtain ⟨⟨hvalue, -⟩, rfl⟩ := h
    refine ⟨List.prefix_rfl, .inl ⟨hvalue, ?_⟩⟩
    rwa [unanswered_real hvalue, Bool.not_eq_true] at hreal
  · rw [exec_getitem_cached hcached] at h
    simp only [Prod.mk.injEq] at h
    obtain ⟨⟨hvalue, -⟩, rfl⟩ := h
    exact ⟨List.prefix_rfl, .inr (.inl ⟨entry, hcached, hanswer hvalue⟩)⟩
  · rw [exec_getitem_asked o t hunanswered hmiss] at h
    cases hwanted : wanted self key with
    | error e =>
      rw [hwanted] at h
      cases h
    | ok sent =>
      simp only [hwanted, Prod.mk.injEq] at h
      obtain ⟨⟨hvalue, -⟩, rfl⟩ := h
      have hsent : t.requests ++ sent.toList <+:
          (((t.checked (self.cache key)).sent sent).tick).requests := by simp
      refine ⟨(List.prefix_append _ _).trans hsent, .inr (.inr ?_)⟩
      exact ⟨sent, t.requests, hwanted, hsent, Nat.le_refl _, (hanswer hvalue).symm⟩

/-! ## Whose value it is -/

/-- Vault has answered a read of the reference the variable holds with the value. -/
def Resolved (env : Environ) (key : PyStr) (sh : Vault.Shared) (v : PyStr) : Prop :=
  ∃ name ref r text, key.encode = some name ∧ env.get name = some ref ∧
    parseVaultRef (Utf8.lossy ref.bytes) = some r ∧ Vault.Fetched sh r text ∧
    v = .decode (Utf8.encode text)

/-- Whoever else is served, a lookup after any clean run of calls returns what the variable
    holds, if that is no reference, or what Vault answered for the reference in it; if
    Vault answers unversioned reads with plain secrets. -/
theorem getitem_served (ttl now : Nat) (latest : Str → Str → Nat)
    (p : Pool Nat (Server.Shared Vault.Shared) (Conn Vault.Phase))
    (h : (Server.machine (Vault.service ttl)).Reaches (guarded (Vault.service ttl) Vault.plainKeys).ok
      (bound (Vault.start now latest)) p)
    (o : Oracle Time) (hforward : o.Forward) (self proxy proxy' : Proxy Time) (calls : List Call)
    (results : List Returned) (t t' : Trace) (hempty : ∀ key, self.cache key = none)
    (hclean : CleanRun o calls self .start)
    (hrun : Recorded.exec (run o.world self calls) .start = ((results, proxy), t)) (key v : PyStr)
    (hlookup : Recorded.exec (getitem o.world proxy key) t = ((.ok v, proxy'), t'))
    (hheard : HeardOn o p (fun _ => True) .start t') :
    (osGetitem proxy.original key = .ok v ∧ v.startsWith vaultPrefix = false) ∨
      Resolved proxy.original key p.shared.backend v := by
  have hcurrent : Current o proxy t := by
    have hcurrent' := (current_of_empty (t := .start) hempty).run hforward hclean
    rwa [hrun] at hcurrent'
  have hreach : (Server.machine (Vault.service ttl)).Reaches anyMove (bound (Vault.start now latest)) p :=
    h.mono fun _ _ _ => trivial
  have hvault : (Vault.machine ttl).Reaches Vault.plainKeys.ok (Vault.start now latest) (Server.backend p) :=
    backend_reaches h
  have hresolved : Told o .start proxy t' key (some v) → Resolved proxy.original key p.shared.backend v := by
    intro htold
    obtain ⟨name, ref, c, text, serial, hname, hget, -, hdone, hv⟩ := htold.done hreach hheard
    obtain ⟨r, hparse, hfetched⟩ := Vault.returned_fetched hvault hdone
    exact ⟨name, ref, r, text, hname, hget, hparse, hfetched, hv⟩
  obtain ⟨hlater, hreal | ⟨entry, hcached, hvalue⟩ | htold⟩ := value_cases hlookup
  · exact .inl hreal
  · obtain ⟨sent, before, hwanted, hsent, hanswer⟩ := (hcurrent key entry hcached.2.1).2 hcached
    rw [hvalue] at hanswer
    exact .inr (hresolved ⟨sent, before, hwanted, hsent.trans hlater, Nat.zero_le _, hanswer⟩)
  · obtain ⟨sent, before, hwanted, hsent, -, hanswer⟩ := htold
    exact .inr (hresolved ⟨sent, before, hwanted, hsent, Nat.zero_le _, hanswer⟩)

/-- A process whose `A` holds a reference, and its request for it. -/
def referringProxy : Proxy Int := { emptyProxy with original := Jvm.referring }

def variableA : PyStr := .ofStr ['A']

def asked : Request := ⟨Utf8.encode defaultSocketPath, referenceFrame⟩

/-- The proxy when it has been told something. -/
def informed (o : Oracle Int) : Proxy Int :=
  referringProxy.store variableA { value := received (o.reply [asked]), timestamp := o.clock 0 }

theorem exec_first (o : Oracle Int) :
    Recorded.exec (run o.world referringProxy [.getitem variableA]) .start =
      (([.item (answer variableA (received (o.reply [asked])))], informed o), ⟨[asked], 1⟩) := by
  have hunanswered : Unanswered referringProxy variableA := by decide
  have hwanted : wanted referringProxy variableA = .ok (some asked) := by decide
  have hmiss : ∀ entry, ¬ FromCache o referringProxy .start variableA entry := by
    intro entry h
    cases h.2.1
  rw [exec_run_cons]
  simp only [call, Recorded.exec_bind, exec_getitem_asked _ _ hunanswered hmiss, hwanted]
  rfl

theorem clean_first (o : Oracle Int) : CleanRun o [.getitem variableA] referringProxy .start := by
  refine ⟨?_, trivial⟩
  intro key original hwritten
  cases hwritten

/-- The proxy is told a value, and returns it from its cache. -/
theorem getitem_served_cached :
    (osGetitem Jvm.referring variableA = .ok (.ofStr ['v']) ∧
        (PyStr.ofStr ['v']).startsWith vaultPrefix = false) ∨
      Resolved Jvm.referring variableA Vault.cachedFirst.shared.backend (.ofStr ['v']) := by
  let o : Oracle Int := .always (.stream (.whole [0, 0, 1, 118] .closed)) 0
  have hforward : o.Forward := Oracle.forward_of_le fun _ _ _ => Int.le_refl 0
  have hcached : FromCache o (informed o) ⟨[asked], 1⟩ variableA ⟨some (.ofStr ['v']), 0⟩ :=
    ⟨by decide, rfl, by decide⟩
  have hheard : HeardOn o Vault.cachedFirst (fun _ => True) .start (Trace.tick ⟨[asked], 1⟩) := by
    intro before request hpre _
    have hrequest : request = asked :=
      List.mem_singleton.mp (hpre.subset (List.mem_append_right _ (List.mem_singleton_self _)))
    subst hrequest
    exact ⟨0, trivial, .read rfl rfl List.prefix_rfl⟩
  exact getitem_served 60 0 (fun _ _ => 1) Vault.cachedFirst Vault.reaches_cachedFirst o hforward referringProxy
    (informed o) (informed o) _ _ _ _ (fun _ => rfl) (clean_first o) (exec_first o) variableA (.ofStr ['v'])
    (exec_getitem_cached hcached) hheard

/-! ## What is told after a moment -/

/-- Every entry a lookup can be answered from was stored before `base`, or told since. -/
def Since (o : Oracle Time) (base : Trace) (self : Proxy Time) (t : Trace) : Prop :=
  ∀ key entry, FromCache o self t key entry →
    (∃ n < base.reads, entry.timestamp = o.clock n) ∨ Told o base self t key entry.value

/-- What answers a lookup answered it before, if the clock goes forward. -/
theorem FromCache.earlier {o : Oracle Time} {self : Proxy Time} {t t' : Trace} {key : PyStr}
    {entry : CacheEntry Time} (h : FromCache o self t' key entry) (hforward : o.Forward)
    (hdated : Dated o t entry) (hreads : t.reads ≤ t'.reads) : FromCache o self t key entry := by
  obtain ⟨n, -, hstamp⟩ := hdated
  refine ⟨h.1, h.2.1, ?_⟩
  have hyoung := h.2.2
  simp only [isCacheValid, decide_eq_true_eq, hstamp] at hyoung ⊢
  exact hforward n _ _ _ hreads hyoung

theorem Since.later {o : Oracle Time} {base : Trace} {self : Proxy Time} {t t' : Trace}
    (hforward : o.Forward) (hcurrent : Current o self t) (h : Since o base self t)
    (hreads : t.reads ≤ t'.reads) (hrequests : t.requests <+: t'.requests) : Since o base self t' := by
  intro key entry hcached
  have hdated : Dated o t entry := (hcurrent key entry hcached.2.1).1
  exact (h key entry (hcached.earlier hforward hdated hreads)).imp_right fun htold => htold.later hrequests

/-- A lookup stores what it is told now. -/
theorem Since.getitem {o : Oracle Time} {base : Trace} {self : Proxy Time} {t : Trace}
    (hforward : o.Forward) (hcurrent : Current o self t) (h : Since o base self t)
    (hbase : base.requests.length ≤ t.requests.length) (key : PyStr) :
    Since o base (Recorded.exec (Python.getitem o.world self key) t).1.2
      (Recorded.exec (Python.getitem o.world self key) t).2 := by
  obtain hreal | ⟨entry, hcached⟩ | ⟨hunanswered, hmiss⟩ := lookup_cases o self t key
  · rw [exec_getitem_real o t hreal]
    exact h
  · rw [exec_getitem_cached hcached]
    exact h.later hforward hcurrent (by simp) List.prefix_rfl
  · have hchecked : t.reads ≤ (t.checked (self.cache key)).reads := t.le_reads_checked _
    rw [exec_getitem_asked o t hunanswered hmiss]
    cases hwanted : wanted self key with
    | error e => exact h.later hforward hcurrent hchecked (by simp)
    | ok sent =>
      intro other entry hcached
      by_cases hother : other = key
      · subst hother
        have hentry := hcached.2.1
        simp only [Proxy.store, Function.update_self, Option.some.injEq] at hentry
        subst hentry
        exact .inr ⟨sent, t.requests, hwanted, by simp, hbase, rfl⟩
      · have hentry := hcached.2.1
        simp only [Proxy.store, Function.update_of_ne hother] at hentry
        have hlater : Since o base self ((t.checked (self.cache key)).sent sent).tick :=
          h.later hforward hcurrent (by simpa using Nat.le_succ_of_le hchecked) (by simp)
        exact hlater other entry ⟨hcached.1, hentry, hcached.2.2⟩

/-- A clean write leaves the entries that answer lookups told for what the variables hold. -/
theorem Since.write {o : Oracle Time} {base : Trace} {self : Proxy Time} {t : Trace} {c : Call}
    {key : PyStr} {change : Except Exception Environ} (h : Since o base self t) (hclean : Clean o self t c)
    (hwritten : written self.original c = some (key, change)) :
    Since o base (write self key change).2 t := by
  cases change with
  | error e => exact h
  | ok original =>
    intro other entry hcached
    obtain ⟨hunanswered, hentry, hvalid⟩ := hcached
    have hother : other ≠ key := by
      rintro rfl
      simp [Python.write] at hentry
    have hentry' : self.cache other = some entry := by
      simpa [Python.write, Function.update_of_ne hother] using hentry
    have hsame : Unanswered self other ∧
        wanted (Python.write self key (.ok original)).2 other = wanted self other := by
      by_cases halias : other.encode = key.encode
      · exact hclean key original hwritten other entry hother halias hentry' hvalid hunanswered
      · have hreal := osGetitem_written hwritten halias
        exact ⟨(unanswered_congr hreal).mp hunanswered, wanted_congr hreal rfl⟩
    refine (h other entry ⟨hsame.1, hentry', hvalid⟩).imp_right ?_
    rintro ⟨sent, before, hwanted, hsent, hbase, hvalue⟩
    exact ⟨sent, before, hsame.2.trans hwanted, hsent, hbase, hvalue⟩

theorem getitem_requests (o : Oracle Time) (self : Proxy Time) (key : PyStr) (t : Trace) :
    t.requests <+: (Recorded.exec (getitem o.world self key) t).2.requests := by
  obtain hreal | ⟨entry, hcached⟩ | ⟨hunanswered, hmiss⟩ := lookup_cases o self t key
  · rw [exec_getitem_real o t hreal]
  · rw [exec_getitem_cached hcached]
    exact List.prefix_rfl
  · rw [exec_getitem_asked o t hunanswered hmiss]
    cases wanted self key with
    | error e => simp
    | ok sent => simp

theorem Since.call {o : Oracle Time} {base : Trace} {self : Proxy Time} {t : Trace} {c : Call}
    (hforward : o.Forward) (hcurrent : Current o self t) (h : Since o base self t)
    (hbase : base.requests.length ≤ t.requests.length) (hclean : Clean o self t c) :
    Since o base (Recorded.exec (call o.world self c) t).1.2 (Recorded.exec (call o.world self c) t).2 ∧
      base.requests.length ≤ (Recorded.exec (call o.world self c) t).2.requests.length := by
  cases hwritten : written self.original c with
  | none =>
    cases call_lookup hwritten t with
    | inl hsame =>
      rw [hsame.1, hsame.2]
      exact ⟨h, hbase⟩
    | inr hlooked =>
      obtain ⟨key, hproxy, htrace⟩ := hlooked
      rw [hproxy, htrace]
      exact ⟨h.getitem hforward hcurrent hbase key,
        Nat.le_trans hbase (getitem_requests o self key t).length_le⟩
  | some change =>
    rw [call_write hwritten]
    exact ⟨h.write hclean hwritten, hbase⟩

theorem Since.run {o : Oracle Time} {base : Trace} {calls : List Call} {self : Proxy Time} {t : Trace}
    (hforward : o.Forward) (hcurrent : Current o self t) (h : Since o base self t)
    (hbase : base.requests.length ≤ t.requests.length) (hclean : CleanRun o calls self t) :
    Since o base (Recorded.exec (run o.world self calls) t).1.2
        (Recorded.exec (run o.world self calls) t).2 ∧
      base.requests.length ≤ (Recorded.exec (run o.world self calls) t).2.requests.length := by
  induction calls generalizing self t with
  | nil => exact ⟨h, hbase⟩
  | cons c calls ih =>
    obtain ⟨hsince, hbase'⟩ := h.call hforward hcurrent hbase hclean.1
    exact ih (hcurrent.call hforward hclean.1) hsince hbase' hclean.2

/-! ## Rotation -/

/-- A lookup of an unversioned reference returns a value of the new version or of a newer
    one, if an agent's TTL has passed since the rotation, and then the proxy's own since
    all it had been told before. -/
theorem rotation_reaches_getitem {ttl now n : Nat} {latest : Str → Str → Nat}
    {p q q' : Pool Nat (Server.Shared Vault.Shared) (Conn Vault.Phase)} {r : VaultRef}
    (hversion : r.version = none)
    (hp : (Server.machine (Vault.service ttl)).Reaches anyMove (bound (Vault.start now latest)) p)
    (hrotated : n ≤ p.shared.backend.latest r.mount r.path) (hold : Vault.NoOlder (Server.backend p) r n)
    (hpq : (Server.machine (Vault.service ttl)).Reaches anyMove p q)
    (helapsed : p.shared.backend.now + ttl ≤ q.shared.backend.now)
    (hqq : (Server.machine (Vault.service ttl)).Reaches anyMove q q')
    {o : Oracle Time} (hforward : o.Forward) {self held proxy proxy' : Proxy Time}
    {before after : List Call} {results results' : List Returned} {base t t' : Trace}
    (hempty : ∀ key, self.cache key = none)
    (hbefore : Recorded.exec (run o.world self before) .start = ((results, held), base))
    (hafter : Recorded.exec (run o.world held after) base = ((results', proxy), t))
    (hclean : CleanRun o before self .start) (hclean' : CleanRun o after held base)
    (hexpired : ∀ n < base.reads, ¬ o.clock t.reads - o.clock n < self.cacheTtl)
    {key v : PyStr} {name : Bytes} {ref : CStr} (hname : key.encode = some name)
    (hget : proxy.original.get name = some ref) (hvault : ref.startsWith vaultPrefix = true)
    (hparse : parseVaultRef (Utf8.lossy ref.bytes) = some r)
    (hlookup : Recorded.exec (getitem o.world proxy key) t = ((.ok v, proxy'), t'))
    (hheard : HeardOn o q' (fun c => (q.tasks c).stage = .connecting) base t') :
    ∃ text, Vault.Held q'.shared.backend r n text ∧ v = .decode (Utf8.encode text) := by
  have hcurrent : Current o held base := by
    have hcurrent' := (current_of_empty (t := .start) hempty).run hforward hclean
    rwa [hbefore] at hcurrent'
  have hsince : Since o base held base := fun key entry hcached => .inl (hcurrent key entry hcached.2.1).1
  obtain ⟨hsince', hbase⟩ := hsince.run hforward hcurrent (Nat.le_refl _) hclean'
  rw [hafter] at hsince' hbase
  have httl : proxy.cacheTtl = self.cacheTtl := by
    have hfirst := run_cacheTtl o self before .start
    have hsecond := run_cacheTtl o held after base
    rw [hbefore] at hfirst
    rw [hafter] at hsecond
    exact hsecond.trans hfirst
  have hrenewed : Told o base proxy t' key (some v) →
      ∃ text, Vault.Held q'.shared.backend r n text ∧ v = .decode (Utf8.encode text) := by
    intro htold
    obtain ⟨name', ref', c, text, serial, hname', hget', hconnecting, hdone, hv⟩ :=
      htold.done ((hp.trans hpq).trans hqq) hheard
    cases hname.symm.trans hname'
    cases hget.symm.trans hget'
    -- The connection was not taken yet, so neither was the task behind it.
    have hidle : (q.tasks c).task = .idle := (connecting_reaches (hp.trans hpq) hconnecting).2.symm
    have hheld := Vault.late_held (j := c) hversion (backend_reaches_any hp) hrotated hold
      (backend_reaches_any hpq) helapsed hidle (backend_reaches_any hqq) hdone hparse
    exact ⟨text, hheld, hv⟩
  obtain ⟨hlater, ⟨hreal, hplain⟩ | ⟨entry, hcached, hvalue⟩ | htold⟩ := value_cases hlookup
  · rw [osGetitem_encoded hname, hget] at hreal
    cases hreal
    have hreference : (PyStr.decode ref.bytes).startsWith vaultPrefix = true :=
      (PyStr.startsWith_decode vaultPrefix_ascii _).mpr (CStr.startsWith_iff.mp hvault)
    rw [hplain] at hreference
    cases hreference
  · rcases hsince' key entry hcached with ⟨n, hn, hstamp⟩ | htold
    · have hyoung := hcached.2.2
      rw [isCacheValid, hstamp, httl, decide_eq_true_eq] at hyoung
      exact absurd hyoung (hexpired n hn)
    · rw [hvalue] at htold
      exact hrenewed (htold.later hlater)
  · obtain ⟨sent, before, hwanted, hsent, hlength, hanswer⟩ := htold
    exact hrenewed ⟨sent, before, hwanted, hsent, Nat.le_trans hbase hlength, hanswer⟩

end

/-- An agent whose secret is rotated, and a TTL between two readings of the clock. -/
def later : Oracle Int where
  reply := fun requests =>
    .stream (.whole (if requests.length ≤ 1 then [0, 0, 1, 118] else [0, 0, 1, 110]) .closed)
  clock := fun n => 30 * n

theorem later_forward : later.Forward := by
  refine Oracle.forward_of_le fun m n hmn => ?_
  simp only [later]
  omega

/-- `A` is looked up, and again a TTL later, after the rotation: the agent and the proxy
    have the old value cached. -/
theorem rotation_reaches_getitem_cached :
    Vault.checkCache (Vault.rotatedFirst 0).shared.backend.cache
        (Vault.rotatedFirst 0).shared.backend.now Vault.reference = some ['v'] ∧
      (informed later).cache variableA = some ⟨some (.ofStr ['v']), 0⟩ ∧
      ∃ text, Vault.Held Libenvproxy.renewedSecond.shared.backend Vault.referenceParts 2 text ∧
        PyStr.ofStr ['n'] = .decode (Utf8.encode text) := by
  obtain ⟨hp, hpq, hqq⟩ := Libenvproxy.reaches_rotatedFirst
  have hunanswered : Unanswered (informed later) variableA := by decide
  have hwanted : wanted (informed later) variableA = .ok (some asked) := by decide
  have hentry : (informed later).cache variableA = some ⟨some (.ofStr ['v']), 0⟩ := rfl
  have hmiss : ∀ entry, ¬ FromCache later (informed later) ⟨[asked], 1⟩ variableA entry := by
    rintro entry ⟨-, hcached, hvalid⟩
    cases hentry.symm.trans hcached
    exact absurd hvalid (by decide)
  have hlookup : Recorded.exec (getitem later.world (informed later) variableA) ⟨[asked], 1⟩ =
      ((.ok (.ofStr ['n']), (informed later).store variableA ⟨some (.ofStr ['n']), 60⟩),
        ⟨[asked, asked], 3⟩) := by
    simp only [exec_getitem_asked _ _ hunanswered hmiss, hwanted]
    rfl
  have hheard : HeardOn later Libenvproxy.renewedSecond
      (fun c => ((Vault.rotatedFirst 60).tasks c).stage = .connecting) ⟨[asked], 1⟩
      ⟨[asked, asked], 3⟩ := by
    intro before request hpre hlength
    have hrequest : request = asked := by
      have hmem := hpre.subset (List.mem_append_right _ (List.mem_singleton_self _))
      simpa using hmem
    subst hrequest
    have hlong : ¬ (before ++ [asked]).length ≤ 1 := by
      rw [List.length_append]
      exact Nat.not_le.mpr (Nat.succ_lt_succ hlength)
    have hreply : later.reply (before ++ [asked]) = .stream (.whole [0, 0, 1, 110] .closed) := by
      simp only [later, if_neg hlong]
    rw [hreply]
    exact ⟨1, rfl, .read rfl rfl List.prefix_rfl⟩
  have hget : (informed later).original.get [65] = some ⟨referenceFrame.drop 6, by decide⟩ := by decide
  have hname : variableA.encode = some [65] := by decide
  have hafter : Recorded.exec (run later.world (informed later) []) ⟨[asked], 1⟩ =
      (([], informed later), ⟨[asked], 1⟩) := rfl
  have hclean : CleanRun later [] (informed later) ⟨[asked], 1⟩ := trivial
  have hexpired : ∀ n < 1, ¬ later.clock 1 - later.clock n < referringProxy.cacheTtl := by decide
  exact ⟨rfl, hentry, rotation_reaches_getitem (r := Vault.referenceParts) (n := 2) rfl hp (by decide)
    (Vault.noOlder_rotatedFirst 0 2) hpq (by decide) hqq later_forward (fun _ => rfl) (exec_first later)
    hafter (clean_first later) hclean hexpired hname hget (by decide) (by decide) hlookup hheard⟩

end EnvProxy.Python
