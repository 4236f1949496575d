-- SUMMARY: Reads of a rotated secret through the Vault cache: later reads are not older, unless an older response waits to be inserted.
import EnvProxy.Agent.VaultSoundness

/-!
# Rotation and the Vault cache

A response is inserted whenever its task gets to it. One that Vault gave before a
rotation may be inserted after the new value was read and cached, and is then served
until it expires. Nothing else takes a reader back to an older version.
-/

namespace EnvProxy.Vault

open Text Machine

/-- In some run a call on an unversioned reference completes, in the step to `p`, with
    a value of version `n`; and a call on the same reference that is yet to start in `p`
    answers from version `m`. -/
inductive ReadsLater (ttl : Nat) (r : VaultRef) (p : Pool Nat Shared Phase) (n m : Nat) : Prop where
  | intro {now latest p₀ q i j a s s' v result} :
      (machine ttl).Reaches anyMove (start now latest) p₀ →
      (machine ttl).step p₀ (.task i a) = some p → p.tasks i = .done s (.ok (some v)) (some n) →
      parseVaultRef s = some r →
      p.tasks j = .idle → (machine ttl).Reaches anyMove p q →
      q.tasks j = .done s' result (some m) → parseVaultRef s' = some r → ReadsLater ttl r p n m

/-- No task still holds a response of the secret with the key, from a version before `n`. -/
def NoOlder (p : Pool Nat Shared Phase) (r : VaultRef) (n : Nat) : Prop :=
  ∀ i s r' resp, p.tasks i = .caching s r' resp → resp.Answers r → resp.secret.get r.key ≠ none →
    n ≤ resp.serial

/-! ## One text for one reference -/

/-- An entry under an unversioned reference was inserted for an unversioned read of its
    secret, under the key; and the text is the canonical one. -/
theorem CameFrom.unversioned {sh : Shared} {s : Str} {entry : CacheEntry} {r : VaultRef}
    (h : CameFrom sh s entry) (hparse : parseVaultRef s = some r) (hversion : r.version = none) :
    s = refStr r r.key ∧ ∃ resp ∈ sh.responses, resp.Answers r ∧ sh.origin s = resp.serial := by
  obtain ⟨r', k, resp, hresp, hr', hanswers, hs, -, hserial⟩ := h
  obtain ⟨hnone, hmount, hpath, rfl⟩ := refStr_unversioned hparse hversion hr' hs
  refine ⟨?_, resp, hresp, ⟨hanswers.mount.trans hmount, hanswers.path.trans hpath, ?_⟩, hserial⟩
  · rw [← hs]
    simp only [refStr, hnone, hversion, hmount, hpath]
  · rw [hanswers.version, hnone, hversion]

/-- The version behind a cached text after an insertion: that of the response, if it has
    the key, or the one before. -/
theorem Shared.store_origin_cases (sh : Shared) (r : VaultRef) (resp : Response) (expiresAt : Nat)
    (s : Str) :
    (∃ k, resp.secret.get k ≠ none ∧ refStr r k = s ∧
        (sh.store r resp expiresAt).origin s = resp.serial) ∨
      (sh.store r resp expiresAt).origin s = sh.origin s := by
  by_cases hkey : ∃ k, resp.secret.get k ≠ none ∧ refStr r k = s
  · obtain ⟨k, hget, rfl⟩ := hkey
    obtain ⟨v, hv⟩ := Option.ne_none_iff_exists'.mp hget
    exact .inl ⟨k, hget, rfl, store_origin_refStr hv⟩
  · exact .inr (store_origin_other fun k hget hs => hkey ⟨k, hget, hs⟩)

/-! ## Versions do not decrease -/

/-- What a task yet to start in `p`, and one that holds a response, may answer from. -/
def Phase.AtLeast (r : VaultRef) (n : Nat) (late : Prop) : Phase → Prop
  | .caching _ _ resp => resp.Answers r → late ∨ resp.secret.get r.key ≠ none → n ≤ resp.serial
  | .done s _ (some m) => late → parseVaultRef s = some r → n ≤ m
  | _ => True

/-- The secret and the value cached for the reference are at version `n` at least. -/
def atLeast (r : VaultRef) (n : Nat) (p : Pool Nat Shared Phase) : Tasks.Inv Nat Shared Phase where
  shared := fun sh =>
    provenance.shared sh ∧ n ≤ sh.latest r.mount r.path ∧ n ≤ sh.origin (refStr r r.key)
  task := fun i sh ph => ph.Known sh ∧ ph.AtLeast r n (p.tasks i = .idle)

theorem atLeast_kept (ttl n : Nat) {r : VaultRef} (h : r.WellFormed) (hversion : r.version = none)
    (p : Pool Nat Shared Phase) : (atLeast r n p).Kept (tasks ttl) .any where
  act := by
    intro i a sh ph sh' ph' hguard hshared htask hact
    have hdoes := act_eq_some_iff.mp hact
    obtain ⟨hprov, hknown⟩ := (provenance_kept ttl .any).act (i := i) hguard hshared.1 htask.1 hact
    obtain ⟨hprov₀, hlatest, horigin⟩ := hshared
    refine ⟨⟨hprov, hdoes.keeps.2 ▸ hlatest, ?_⟩, hknown, ?_⟩
    · cases hdoes with
      | @stored s r' resp expiresAt _ =>
        -- An entry of the reference itself comes from a response to an unversioned read.
        obtain ⟨⟨hparse, -, hanswers⟩, hatLeast⟩ := htask
        cases Shared.store_origin_cases sh r' resp expiresAt (refStr r r.key) with
        | inr hold => exact hold ▸ horigin
        | inl hnew =>
          obtain ⟨k, hget, hs, hserial⟩ := hnew
          obtain ⟨hnone, hmount, hpath, rfl⟩ :=
            refStr_unversioned (parseVaultRef_refStr_key h) hversion (parseVaultRef_wellFormed hparse) hs
          have hanswers' : resp.Answers r := ⟨hanswers.mount.trans hmount,
            hanswers.path.trans hpath, hanswers.version.trans (hnone.trans hversion.symm)⟩
          rw [hserial]
          exact hatLeast hanswers' (.inr hget)
      | _ => exact horigin
    · cases hdoes with
      | @hit s r' v hcheck =>
        intro _ hparse
        obtain ⟨entry, hentry, -, -⟩ := checkCache_eq_some hcheck
        obtain ⟨rfl, -⟩ := (hprov₀.1 s entry hentry).unversioned hparse hversion
        exact horigin
      | @received s r' secret =>
        -- A response received now is of the current version.
        intro hanswers _
        have hmount : r'.mount = r.mount := hanswers.mount
        have hpath : r'.path = r.path := hanswers.path
        have hnone : r'.version = none := hanswers.version.trans hversion
        simp only [Shared.respond, hnone, Option.getD_none, hmount, hpath]
        exact hlatest
      | @stored s r' resp expiresAt _ =>
        intro hlate hparse
        obtain ⟨⟨hparse', -, hanswers⟩, hatLeast⟩ := htask
        cases hparse.symm.trans hparse'
        exact hatLeast hanswers (.inl hlate)
      | _ => exact trivial
  act_stable := by
    intro i j a sh ph sh' ph' u _ _ _ _ hu hact
    exact ⟨hu.1.mono (act_eq_some_iff.mp hact).responses, hu.2⟩
  env := by
    intro e sh sh' hguard hshared henv
    obtain ⟨-, horigin, -, -, hlatest⟩ := event_keeps henv
    refine ⟨(provenance_kept ttl .any).env hguard hshared.1 henv, ?_, horigin ▸ hshared.2.2⟩
    exact Nat.le_trans hshared.2.1 (hlatest _ _)
  env_stable := by
    intro j e sh sh' u _ _ hu henv
    refine ⟨hu.1.mono fun resp hresp => ?_, hu.2⟩
    rwa [(event_keeps henv).2.2.1]

/-- A call that completes with a value of version `n` leaves the value cached at that
    version, and the secret is at that version at least. -/
theorem completed_atLeast {ttl n : Nat} {a : Act} {sh sh' : Shared} {ph : Phase} {s v : Str}
    {r : VaultRef} {result : ResolveResult} {serial : Option Nat}
    (hdoes : Does ttl sh a ph sh' (.done s result serial)) (hresult : result = .ok (some v))
    (hserial : serial = some n) (hshared : provenance.shared sh) (hknown : ph.Known sh)
    (hparse : parseVaultRef s = some r) (hversion : r.version = none) :
    n ≤ sh'.latest r.mount r.path ∧ n ≤ sh'.origin (refStr r r.key) := by
  -- A response of the reference is of a version Vault had by then.
  have hlatest : ∀ resp ∈ sh.responses, resp.Answers r → resp.serial ≤ sh.latest r.mount r.path := by
    intro resp hresp hanswers
    have hle := hshared.2 resp hresp (hanswers.version.trans hversion)
    rwa [hanswers.mount, hanswers.path] at hle
  cases hdoes with
  | @hit s r' v' hcheck =>
    cases hserial
    obtain ⟨entry, hentry, -, -⟩ := checkCache_eq_some hcheck
    obtain ⟨hs, resp, hresp, hanswers, horigin⟩ :=
      (hshared.1 s entry hentry).unversioned hparse hversion
    refine ⟨?_, hs ▸ Nat.le_refl _⟩
    rw [horigin]
    exact hlatest resp hresp hanswers
  | @stored s r' resp expiresAt _ =>
    cases hserial
    obtain ⟨hparse', hresp, hanswers⟩ := hknown
    cases hparse.symm.trans hparse'
    have hget : resp.secret.get r.key = some v := by
      simpa only [Except.ok.injEq] using hresult
    rw [Shared.store_origin_refStr hget]
    exact ⟨hlatest resp hresp hanswers, Nat.le_refl _⟩
  | rejected _ => cases hserial
  | failed => cases hserial

theorem atLeast_start {r : VaultRef} {n : Nat} {p : Pool Nat Shared Phase} (hprov : provenance.holds p)
    (hlatest : n ≤ p.shared.latest r.mount r.path) (horigin : n ≤ p.shared.origin (refStr r r.key))
    (hold : NoOlder p r n) : (atLeast r n p).holds p := by
  refine ⟨⟨hprov.1, hlatest, horigin⟩, fun i => ⟨hprov.2 i, ?_⟩⟩
  cases hphase : p.tasks i with
  | caching s r' resp =>
    intro hanswers hlate
    exact hold i s r' resp hphase hanswers (hlate.resolve_left (by simp))
  | done s result serial =>
    cases serial with
    | none => exact trivial
    | some m =>
      intro hlate
      cases hlate
  | _ => exact trivial

/-- If a call completes with a value of version `n` while no older response waits to be
    inserted, every call on the same reference that starts later answers from a version
    not older than `n`. -/
theorem monotonic_reads {ttl n m : Nat} {r : VaultRef} {p : Pool Nat Shared Phase}
    (hversion : r.version = none) (h : ReadsLater ttl r p n m) (hold : NoOlder p r n) : n ≤ m := by
  cases h with
  | @intro now latest p₀ q i j a s s' v result hreach hstep hdone hparse hidle hlater hanswered hparse' =>
    have hdoes := step_does hstep
    rw [hdone] at hdoes
    obtain ⟨hprov, hknown⟩ := provenance_reaches hreach
    obtain ⟨hlatest, horigin⟩ :=
      completed_atLeast hdoes rfl rfl hprov (hknown i) hparse hversion
    have hstart := atLeast_start (provenance_reaches (.step hreach trivial hstep)) hlatest horigin hold
    have hend := (atLeast_kept ttl n (parseVaultRef_wellFormed hparse) hversion p).reaches_any hlater hstart
    have hj := (hend.2 j).2
    rw [hanswered] at hj
    exact hj hidle hparse'

/-! ## Two runs -/

def reference : Str := "vault:m/data/p#k".toList

def referenceParts : VaultRef where
  mount := ['m']
  path := ['p']
  key := ['k']
  version := none

theorem parseVaultRef_reference : parseVaultRef reference = some referenceParts := by decide

/-- From an empty cache, task 0 asks for the reference and gets the value `o`. -/
def askedOld : Pool Nat Shared Phase :=
  asked 0 reference referenceParts (.single ['k'] ['o']) (start 0 fun _ _ => 1)

theorem reaches_askedOld :
    (machine 60).Reaches anyMove (start 0 fun _ _ => 1) askedOld :=
  reaches_asked (fun _ _ _ => trivial) rfl parseVaultRef_reference rfl

/-- The value is cached, and the secret rotated after it expired. -/
def expired : Pool Nat Shared Phase :=
  rotated 60 ['m'] ['p'] (fetched 0 reference referenceParts (.single ['k'] ['o']) 60
    (start 0 fun _ _ => 1))

/-- The call after an expiry reads the new version. -/
theorem monotonic_reads_expired :
    let p := fetched 0 reference referenceParts (.single ['k'] ['o']) 60 (start 0 fun _ _ => 1)
    ReadsLater 60 referenceParts p 1 2 ∧ NoOlder p referenceParts 1 ∧ 1 ≤ 2 := by
  intro p
  have hinsert : (machine 60).step askedOld (.task 0 .insert) = some p :=
    step_cached asked_task (by decide)
  have hnext : (machine 60).Reaches anyMove expired
      (fetched 1 reference referenceParts (.single ['k'] ['n']) 120 expired) :=
    reaches_fetched (fun _ _ _ => trivial) rfl parseVaultRef_reference (by decide) (by decide)
  have hlater : ReadsLater 60 referenceParts p 1 2 :=
    .intro reaches_askedOld hinsert rfl parseVaultRef_reference (j := 1) rfl
      ((reaches_rotated 60 ['m'] ['p'] p).trans hnext) rfl parseVaultRef_reference
  have hold : NoOlder p referenceParts 1 := by
    intro i s r' resp hphase
    simp only [p, fetched, cached, asked, Function.update_idem, Function.update_apply] at hphase
    split at hphase <;> cases hphase
  exact ⟨hlater, hold, monotonic_reads rfl hlater hold⟩

/-- While task 0 holds the old value, the secret is rotated and task 1 reads it. -/
def overtaking : Pool Nat Shared Phase :=
  asked 1 reference referenceParts (.single ['k'] ['n']) (rotated 0 ['m'] ['p'] askedOld)

/-- Task 1 has cached what it read. -/
def overtaken : Pool Nat Shared Phase :=
  cached 1 reference referenceParts
    ((rotated 0 ['m'] ['p'] askedOld).shared.respond referenceParts (.single ['k'] ['n'])) 60 overtaking

/-- And then task 0 what it held. -/
def rolledBack : Pool Nat Shared Phase :=
  cached 0 reference referenceParts
    ((start 0 fun _ _ => 1).shared.respond referenceParts (.single ['k'] ['o'])) 60 overtaken

/-- Task 1 completes with version 2; after it, task 2 is answered with version 1. -/
theorem not_monotonic_reads : ∃ r p, r.version = none ∧ ReadsLater 60 r p 2 1 := by
  have hovertaking : (machine 60).Reaches anyMove (rotated 0 ['m'] ['p'] askedOld) overtaking :=
    reaches_asked (fun _ _ _ => trivial) rfl parseVaultRef_reference rfl
  have hreach : (machine 60).Reaches anyMove (start 0 fun _ _ => 1) overtaking :=
    (reaches_askedOld.trans (reaches_rotated 0 ['m'] ['p'] askedOld)).trans hovertaking
  have hcompletes : (machine 60).step overtaking (.task 1 .insert) = some overtaken :=
    step_cached asked_task (by decide)
  have hslow : (machine 60).step overtaken (.task 0 .insert) = some rolledBack :=
    step_cached rfl (by decide)
  have hhit : (machine 60).Reaches anyMove rolledBack (answered 2 reference ['o'] rolledBack) :=
    reaches_answered rfl parseVaultRef_reference (by decide)
  exact ⟨referenceParts, overtaken, rfl, .intro hreach hcompletes rfl parseVaultRef_reference (j := 2)
    rfl (.head trivial hslow hhit) rfl parseVaultRef_reference⟩

end EnvProxy.Vault
