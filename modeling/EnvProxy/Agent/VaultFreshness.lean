-- SUMMARY: When a rotated secret has reached every caller of the Vault backend: once the entries from before have expired.
import EnvProxy.Agent.VaultHits
import EnvProxy.Agent.VaultRotation

/-!
# Rotation takes effect

No entry lives longer than the TTL. So a secret that was rotated is answered from its
new version by every call that starts a TTL later, whatever was cached; unless a
response from before the rotation still waited to be inserted then.
-/

namespace EnvProxy.Vault

open Machine

/-! ## Entries expire -/

/-- No entry outlives the TTL. -/
def shortLived (ttl : Nat) : Tasks.Inv Nat Shared Phase where
  shared := fun sh => ∀ s entry, sh.cache s = some entry → entry.expiresAt ≤ sh.now + ttl
  task := fun _ _ _ => True

theorem shortLived_kept (ttl : Nat) : (shortLived ttl).Kept (tasks ttl) .any where
  act := by
    intro i a sh ph sh' ph' _ hshared _ hact
    refine ⟨?_, trivial⟩
    cases act_eq_some_iff.mp hact with
    | @stored s r resp expiresAt hdeadline =>
      intro s' entry hentry
      rcases Shared.store_cases hentry with ⟨k, -, -, hexpires, -⟩ | ⟨hold, -⟩
      · rw [hexpires]
        exact Nat.le_of_eq (deadline_eq_some_iff.mp hdeadline).2.symm
      · exact hshared s' entry hold
    | _ => exact hshared
  act_stable := fun _ _ _ _ _ _ => trivial
  env := by
    intro e sh sh' _ hshared henv s entry hentry
    obtain ⟨hcache, -, -, hnow, -⟩ := event_keeps henv
    rw [hcache] at hentry
    exact Nat.le_trans (hshared s entry hentry) (Nat.add_le_add_right hnow ttl)
  env_stable := fun _ _ _ _ => trivial

theorem shortLived_reaches {ttl now : Nat} {latest : Str → Str → Nat} {p : Pool Nat Shared Phase}
    (h : (machine ttl).Reaches anyMove (start now latest) p) : (shortLived ttl).shared p.shared := by
  have hstart : (shortLived ttl).holds (start now latest) := by
    refine ⟨fun s entry hentry => ?_, fun _ => trivial⟩
    cases hentry
  exact ((shortLived_kept ttl).reaches_any h hstart).1

/-! ## What outlives a rotation -/

/-- The secret is at version `n` at least, and so is what is cached for the reference
    beyond the time `t`. The tasks in `late` run only when that time has come. -/
def renewed (r : VaultRef) (n t : Nat) (late : Nat → Prop) : Tasks.Inv Nat Shared Phase where
  shared := fun sh =>
    provenance.shared sh ∧ n ≤ sh.latest r.mount r.path ∧
      (∀ entry, sh.cache (refStr r r.key) = some entry → t < entry.expiresAt →
        n ≤ sh.origin (refStr r r.key)) ∧
      ∀ i, late i → t ≤ sh.now
  task := fun i sh ph => ph.Known sh ∧ ph.AtLeast r n (late i)

/-- A response that is cached under the reference answers it, and holds its key. -/
theorem answers_of_refStr {r r' : VaultRef} {s k : Str} {resp : Response} (h : r.WellFormed)
    (hversion : r.version = none) (hparse : parseVaultRef s = some r') (hanswers : resp.Answers r')
    (hs : refStr r' k = refStr r r.key) : resp.Answers r ∧ k = r.key := by
  obtain ⟨hnone, hmount, hpath, rfl⟩ :=
    refStr_unversioned (parseVaultRef_refStr_key h) hversion (parseVaultRef_wellFormed hparse) hs
  exact ⟨⟨hanswers.mount.trans hmount, hanswers.path.trans hpath,
    hanswers.version.trans (hnone.trans hversion.symm)⟩, rfl⟩

theorem renewed_kept {ttl n t : Nat} {r : VaultRef} {late : Nat → Prop} (h : r.WellFormed)
    (hversion : r.version = none) : (renewed r n t late).Kept (tasks ttl) .any where
  act := by
    intro i a sh ph sh' ph' hguard hshared htask hact
    have hdoes := act_eq_some_iff.mp hact
    obtain ⟨hprov, hknown⟩ := (provenance_kept ttl .any).act (i := i) hguard hshared.1 htask.1 hact
    obtain ⟨hprov₀, hlatest, hcached, hlate⟩ := hshared
    refine ⟨⟨hprov, hdoes.keeps.2 ▸ hlatest, ?_, hdoes.keeps.1 ▸ hlate⟩, hknown, ?_⟩
    · cases hdoes with
      | @stored s r' resp expiresAt _ =>
        obtain ⟨⟨hparse, -, hanswers⟩, hatLeast⟩ := htask
        intro entry hentry hexpires
        rcases Shared.store_cases hentry with ⟨k, hs, hget, -, horigin⟩ | ⟨hold, horigin⟩
        · obtain ⟨hanswers', rfl⟩ := answers_of_refStr h hversion hparse hanswers hs
          rw [horigin]
          exact hatLeast hanswers' (.inr (by simp [hget]))
        · rw [horigin]
          exact hcached entry hold hexpires
      | _ => exact hcached
    · cases hdoes with
      | @hit s r' v hcheck =>
        -- A late task meets only entries that have not expired by `t`.
        intro hnow hparse
        obtain ⟨entry, hentry, -, hlt⟩ := checkCache_eq_some hcheck
        obtain ⟨rfl, -⟩ := (hprov₀.1 s entry hentry).unversioned hparse hversion
        exact hcached entry hentry (Nat.lt_of_le_of_lt (hlate i hnow) hlt)
      | @received s r' secret =>
        intro hanswers _
        have hmount : r'.mount = r.mount := hanswers.mount
        have hpath : r'.path = r.path := hanswers.path
        have hnone : r'.version = none := hanswers.version.trans hversion
        simp only [Shared.respond, hnone, Option.getD_none, hmount, hpath]
        exact hlatest
      | @stored s r' resp expiresAt _ =>
        intro hnow hparse
        obtain ⟨⟨hparse', -, hanswers⟩, hatLeast⟩ := htask
        cases hparse.symm.trans hparse'
        exact hatLeast hanswers (.inl hnow)
      | _ => exact trivial
  act_stable := by
    intro i j a sh ph sh' ph' u _ _ _ _ hu hact
    exact ⟨hu.1.mono (act_eq_some_iff.mp hact).responses, hu.2⟩
  env := by
    intro e sh sh' hguard hshared henv
    obtain ⟨hcache, horigin, -, hnow, hlatest⟩ := event_keeps henv
    refine ⟨(provenance_kept ttl .any).env hguard hshared.1 henv,
      Nat.le_trans hshared.2.1 (hlatest _ _), ?_, fun i hi => Nat.le_trans (hshared.2.2.2 i hi) hnow⟩
    rw [hcache, horigin]
    exact hshared.2.2.1
  env_stable := by
    intro j e sh sh' u _ _ hu henv
    refine ⟨hu.1.mono fun resp hresp => ?_, hu.2⟩
    rwa [(event_keeps henv).2.2.1]

/-- What a task that is not late knows of a response it holds, by the responses held. -/
theorem Phase.AtLeast.of_noOlder {p : Pool Nat Shared Phase} {r : VaultRef} {n i : Nat} {late : Prop}
    (hold : NoOlder p r n) (hidle : late → p.tasks i = .idle) : (p.tasks i).AtLeast r n late := by
  cases hphase : p.tasks i with
  | caching s r' resp =>
    intro hanswers hlate
    rcases hlate with hlate | hget
    · rw [hidle hlate] at hphase
      cases hphase
    · exact hold i s r' resp hphase hanswers hget
  | done s result serial =>
    cases serial with
    | none => exact trivial
    | some m =>
      intro hlate
      rw [hidle hlate] at hphase
      cases hphase
  | _ => exact trivial

/-- What `rotation_takes_effect` says, for the uses of it. -/
theorem late_serial {ttl now n m j : Nat} {latest : Str → Str → Nat} {r : VaultRef}
    {p q q' : Pool Nat Shared Phase} {s : Str} {result : ResolveResult} (hversion : r.version = none)
    (hreach : (machine ttl).Reaches anyMove (start now latest) p)
    (hrotated : n ≤ p.shared.latest r.mount r.path) (hold : NoOlder p r n)
    (hpq : (machine ttl).Reaches anyMove p q) (hlater : p.shared.now + ttl ≤ q.shared.now)
    (hidle : q.tasks j = .idle) (hqq : (machine ttl).Reaches anyMove q q')
    (hanswered : q'.tasks j = .done s result (some m)) (hparse : parseVaultRef s = some r) : n ≤ m := by
  have h : r.WellFormed := parseVaultRef_wellFormed hparse
  let t := p.shared.now + ttl
  have hprov := provenance_reaches hreach
  have hp : (renewed r n t fun _ => False).holds p := by
    refine ⟨⟨hprov.1, hrotated, fun entry hentry hexpires => ?_, fun _ hfalse => hfalse.elim⟩,
      fun i => ⟨hprov.2 i, .of_noOlder hold fun hfalse => hfalse.elim⟩⟩
    have hle := shortLived_reaches hreach _ entry hentry
    exact absurd hexpires (Nat.not_lt.mpr hle)
  obtain ⟨⟨hprov', hlatest, hcached, -⟩, htasks⟩ := (renewed_kept h hversion).reaches_any hpq hp
  have hold' : NoOlder q r n := by
    intro i s' r' resp hphase hanswers hget
    have htask := (htasks i).2
    rw [hphase] at htask
    exact htask hanswers (.inr hget)
  have hq : (renewed r n t fun i => q.tasks i = .idle).holds q :=
    ⟨⟨hprov', hlatest, hcached, fun _ _ => hlater⟩, fun i => ⟨(htasks i).1, .of_noOlder hold' id⟩⟩
  have hj := (((renewed_kept h hversion).reaches_any hqq hq).2 j).2
  rw [hanswered] at hj
  exact hj hidle hparse

/-- A call that starts a TTL after a rotation is answered from the new version at least,
    unless a response from before it still waited to be inserted. -/
theorem rotation_takes_effect {ttl now n m j : Nat} {latest : Str → Str → Nat} {r : VaultRef}
    {p q q' : Pool Nat Shared Phase} {s : Str} {result : ResolveResult} (hversion : r.version = none)
    (hreach : (machine ttl).Reaches anyMove (start now latest) p)
    (hrotated : n ≤ p.shared.latest r.mount r.path) (hold : NoOlder p r n)
    (hpq : (machine ttl).Reaches anyMove p q) (hlater : p.shared.now + ttl ≤ q.shared.now)
    (hidle : q.tasks j = .idle) (hqq : (machine ttl).Reaches anyMove q q')
    (hanswered : q'.tasks j = .done s result (some m)) (hparse : parseVaultRef s = some r) : n ≤ m := by
  exact late_serial hversion hreach hrotated hold hpq hlater hidle hqq hanswered hparse

/-! ## The version behind an answer -/

/-- Vault has answered a read of the reference from version `n` or a later one, with this
    text under its key. -/
def Held (sh : Shared) (r : VaultRef) (n : Nat) (v : Str) : Prop :=
  ∃ resp ∈ sh.responses, resp.Answers r ∧ resp.secret.get r.key = some v ∧ n ≤ resp.serial

theorem Held.mono {sh sh' : Shared} {r : VaultRef} {n : Nat} {v : Str} (h : Held sh r n v)
    (hresponses : ∀ resp ∈ sh.responses, resp ∈ sh'.responses) : Held sh' r n v := by
  obtain ⟨resp, hresp, hanswers, hget, hserial⟩ := h
  exact ⟨resp, hresponses resp hresp, hanswers, hget, hserial⟩

/-- A value a call has returned for an unversioned reference was held in the version the
    call is recorded with. -/
def Phase.Traced (sh : Shared) : Phase → Prop
  | .done s (.ok (some v)) serial =>
    ∀ r, parseVaultRef s = some r → r.version = none → ∃ m, serial = some m ∧ Held sh r m v
  | _ => True

def traced : Tasks.Inv Nat Shared Phase where
  shared := provenance.shared
  task := fun _ sh ph => ph.Known sh ∧ ph.Traced sh

theorem Phase.Traced.mono {sh sh' : Shared} {ph : Phase} (h : ph.Traced sh)
    (hresponses : ∀ resp ∈ sh.responses, resp ∈ sh'.responses) : ph.Traced sh' := by
  unfold Phase.Traced at h ⊢
  split
  · intro r hparse hversion
    obtain ⟨m, hserial, hheld⟩ := h r hparse hversion
    exact ⟨m, hserial, hheld.mono hresponses⟩
  · exact trivial

/-- A cached value was held in the version it is recorded with. -/
theorem CameFrom.held {sh : Shared} {s : Str} {entry : CacheEntry} {r : VaultRef}
    (h : CameFrom sh s entry) (hparse : parseVaultRef s = some r) (hversion : r.version = none) :
    Held sh r (sh.origin s) entry.value := by
  obtain ⟨r', k, resp, hresp, hr', hanswers, hs, hget, hserial⟩ := h
  obtain ⟨hnone, hmount, hpath, rfl⟩ := refStr_unversioned hparse hversion hr' hs
  have hanswers' : resp.Answers r := ⟨hanswers.mount.trans hmount, hanswers.path.trans hpath,
    hanswers.version.trans (hnone.trans hversion.symm)⟩
  exact ⟨resp, hresp, hanswers', hget, Nat.le_of_eq hserial⟩

theorem traced_kept (ttl : Nat) : traced.Kept (tasks ttl) .any where
  act := by
    intro i a sh ph sh' ph' hguard hshared htask hact
    obtain ⟨hprov, hknown⟩ := (provenance_kept ttl .any).act (i := i) hguard hshared htask.1 hact
    refine ⟨hprov, hknown, ?_⟩
    cases act_eq_some_iff.mp hact with
    | @hit s r v hcheck =>
      obtain ⟨entry, hentry, hvalue, -⟩ := checkCache_eq_some hcheck
      intro r' hparse hversion
      exact ⟨_, rfl, hvalue ▸ (hshared.1 s entry hentry).held hparse hversion⟩
    | @stored s r resp expiresAt _ =>
      obtain ⟨⟨hparse, hresp, hanswers⟩, -⟩ := htask
      cases hget : resp.secret.get r.key with
      | none => exact trivial
      | some v =>
        intro r' hparse' hversion
        cases hparse.symm.trans hparse'
        exact ⟨_, rfl, resp, hresp, hanswers, hget, Nat.le_refl _⟩
    | _ => exact trivial
  act_stable := by
    intro i j a sh ph sh' ph' u _ _ _ _ hu hact
    have hresponses := (act_eq_some_iff.mp hact).responses
    exact ⟨hu.1.mono hresponses, hu.2.mono hresponses⟩
  env := fun hguard hshared henv => (provenance_kept ttl .any).env hguard hshared henv
  env_stable := by
    intro j e sh sh' u _ _ hu henv
    have hresponses : ∀ resp ∈ sh.responses, resp ∈ sh'.responses := by
      intro resp hresp
      rwa [(event_keeps henv).2.2.1]
    exact ⟨hu.1.mono hresponses, hu.2.mono hresponses⟩

/-- A value of a call that starts a TTL after a rotation was held in the new version or a
    later one. -/
theorem late_held {ttl now n j : Nat} {latest : Str → Str → Nat} {r : VaultRef}
    {p q q' : Pool Nat Shared Phase} {s v : Str} {serial : Option Nat} (hversion : r.version = none)
    (hreach : (machine ttl).Reaches anyMove (start now latest) p)
    (hrotated : n ≤ p.shared.latest r.mount r.path) (hold : NoOlder p r n)
    (hpq : (machine ttl).Reaches anyMove p q) (hlater : p.shared.now + ttl ≤ q.shared.now)
    (hidle : q.tasks j = .idle) (hqq : (machine ttl).Reaches anyMove q q')
    (hanswered : q'.tasks j = .done s (.ok (some v)) serial) (hparse : parseVaultRef s = some r) :
    Held q'.shared r n v := by
  have hstart : traced.holds (start now latest) := by
    have hprov := provenance_start now latest
    exact ⟨hprov.1, fun i => ⟨hprov.2 i, trivial⟩⟩
  have htraced := (((traced_kept ttl).reaches_any ((hreach.trans hpq).trans hqq) hstart).2 j).2
  rw [hanswered] at htraced
  obtain ⟨m, rfl, resp, hresp, hanswers, hget, hserial⟩ := htraced r hparse hversion
  have hnm := late_serial hversion hreach hrotated hold hpq hlater hidle hqq hanswered hparse
  exact ⟨resp, hresp, hanswers, hget, Nat.le_trans hnm hserial⟩

/-! ## A rotation, and a TTL -/

/-- The value was cached for `ttl`, and then the secret was rotated. -/
def rotatedCached (ttl : Nat) : Pool Nat Shared Phase :=
  rotated 0 ['m'] ['p'] (fetched 0 reference referenceParts (.single ['k'] ['o']) ttl (start 0 fun _ _ => 1))

/-- Time has passed since. -/
def elapsed (d : Nat) (p : Pool Nat Shared Phase) : Pool Nat Shared Phase where
  shared := { p.shared with now := p.shared.now + d }
  tasks := p.tasks

theorem reaches_elapsed {ttl : Nat} (d : Nat) (p : Pool Nat Shared Phase) :
    (machine ttl).Reaches anyMove p (elapsed d p) :=
  have htick : (machine ttl).step p (.env (.tick d)) = some (elapsed d p) := rfl
  .head trivial htick .refl

theorem reaches_rotatedCached {ttl : Nat} (h : ttl < maxInstant) :
    (machine ttl).Reaches anyMove (start 0 fun _ _ => 1) (rotatedCached ttl) := by
  have hdeadline : deadline 0 ttl = some ttl :=
    deadline_eq_some_iff.mpr ⟨by rwa [Nat.zero_add], Nat.zero_add ttl⟩
  exact (reaches_fetched (fun _ _ _ => trivial) rfl parseVaultRef_reference rfl hdeadline).trans
    (reaches_rotated 0 ['m'] ['p'] _)

theorem noOlder_rotatedCached (ttl n : Nat) : NoOlder (rotatedCached ttl) referenceParts n := by
  intro i s r' resp hphase
  simp only [rotatedCached, rotated, fetched, cached, asked, Function.update_idem,
    Function.update_apply] at hphase
  split at hphase <;> cases hphase

/-- After the TTL, task 1 reads the new version. -/
theorem rotation_takes_effect_expired :
    ∃ q, (machine 60).Reaches anyMove (elapsed 60 (rotatedCached 60)) q ∧
      ∃ m s result, q.tasks 1 = .done s result (some m) ∧ 2 ≤ m := by
  let p := rotatedCached 60
  have hasks : (machine 60).Reaches anyMove (elapsed 60 p)
      (fetched 1 reference referenceParts (.single ['k'] ['n']) 120 (elapsed 60 p)) :=
    reaches_fetched (fun _ _ _ => trivial) rfl parseVaultRef_reference (by decide) (by decide)
  refine ⟨_, hasks, 2, reference, .ok (some ['n']), rfl, ?_⟩
  exact rotation_takes_effect (p := p) (j := 1) rfl (reaches_rotatedCached (by decide)) (by decide)
    (noOlder_rotatedCached 60 2) (reaches_elapsed 60 p) (by decide) rfl hasks rfl
    parseVaultRef_reference

/-- Not any sooner: up to the TTL a call may still be answered from the old version. -/
theorem rotation_waits {ttl d : Nat} (hd : d < ttl) (httl : ttl < maxInstant) :
    (machine ttl).Reaches anyMove (start 0 fun _ _ => 1) (rotatedCached ttl) ∧
      ∃ q, (machine ttl).Reaches anyMove (elapsed d (rotatedCached ttl)) q ∧
        (elapsed d (rotatedCached ttl)).tasks 1 = .idle ∧
        q.tasks 1 = .done reference (.ok (some ['o'])) (some 1) := by
  have hhit : checkCache (elapsed d (rotatedCached ttl)).shared.cache
      (elapsed d (rotatedCached ttl)).shared.now reference = some ['o'] := by
    have hentry : (rotatedCached ttl).shared.cache reference =
        some { value := ['o'], expiresAt := ttl } := rfl
    have hnow : (rotatedCached ttl).shared.now + d = d := Nat.zero_add d
    simp only [checkCache, elapsed, hentry, hnow]
    exact if_pos hd
  have horigin : (rotatedCached ttl).shared.origin reference = 1 := rfl
  refine ⟨reaches_rotatedCached httl, answered 1 reference ['o'] (elapsed d (rotatedCached ttl)),
    reaches_answered rfl parseVaultRef_reference hhit, rfl, ?_⟩
  simp only [answered, Function.update_self, elapsed, horigin]

end EnvProxy.Vault
