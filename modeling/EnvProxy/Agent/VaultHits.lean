-- SUMMARY: When a cached Vault value saves the next read: the spelling of the reference decides.
import EnvProxy.Agent.VaultSoundness

/-!
# Hits of the Vault cache

The cache is read under the text of the caller's reference and written under a text
rebuilt from its parts. A reference in another spelling, without the `/data/` segment
or with a version such as `03`, is cached where its own next lookup does not look.
-/

namespace EnvProxy.Vault

open Text Machine

/-! ## Spellings -/

/-- The spelling of the cache keys: a `/data/` segment between mount and path, and the
    version, if any, by its plain decimal digits. -/
def Canonical (s : Str) (r : VaultRef) : Prop :=
  ∃ a, s = vaultPrefix ++ (r.mount ++ dataSegment ++ r.path ++ '#' :: a) ∧
    ∀ version, r.version = some version → a = r.key ++ '#' :: decimal version

/-- A reference is cached under its own text exactly in the canonical spelling. -/
theorem refStr_key_iff {s : Str} {r : VaultRef} (h : parseVaultRef s = some r) :
    refStr r r.key = s ↔ Canonical s r := by
  have hwf := parseVaultRef_wellFormed h
  have hhash : '#' ∉ r.mount ++ dataSegment ++ r.path := by
    simp only [List.mem_append, not_or]
    exact ⟨⟨hwf.mount_hash, by decide⟩, hwf.path_hash⟩
  rw [refStr_eq]
  constructor
  · intro heq
    refine ⟨_, heq.symm, fun version hversion => ?_⟩
    simp only [afterHash, hversion]
  · rintro ⟨a, rfl, ha⟩
    obtain ⟨full, a', heq, hfull, hkey, -⟩ := parseVaultRef_eq_some_iff.mp h
    have hsplit := splitFirst_singleton_append hhash a
    rw [List.append_cancel_left heq, splitFirst_singleton_append hfull a'] at hsplit
    simp only [Option.some.injEq, Prod.mk.injEq] at hsplit
    obtain ⟨-, rfl⟩ := hsplit
    cases hversion : r.version with
    | some version => simp only [afterHash, hversion, ha version hversion]
    | none =>
      have hcases := (parseKey_eq_some_iff.mp hkey).2
      simp only [hversion, and_true, reduceCtorEq, and_false, exists_false, or_false] at hcases
      simp only [afterHash, hversion, hcases]

/-! ## Entries are kept -/

theorem deadline_eq_some_iff {now ttl expiresAt : Nat} :
    deadline now ttl = some expiresAt ↔ now + ttl < maxInstant ∧ now + ttl = expiresAt := by
  simp only [deadline]
  split
  · next h => simp [h]
  · next h => simp [h]

/-- The text is cached, and not to expire before `e`. -/
def CachedUntil (cache : Cache) (s : Str) (e : Nat) : Prop :=
  ∃ entry, cache s = some entry ∧ e ≤ entry.expiresAt

theorem CachedUntil.insertAll {r : VaultRef} {expiresAt e : Nat} {secret : Secret} {cache : Cache}
    {s : Str} (h : CachedUntil cache s e) (he : e ≤ expiresAt) :
    CachedUntil (insertAll r expiresAt secret cache) s e := by
  obtain ⟨entry, hentry, hle⟩ := h
  simp only [CachedUntil, insertAll_apply]
  split
  · exact ⟨_, rfl, he⟩
  · exact ⟨entry, hentry, hle⟩

theorem CachedUntil.checkCache {cache : Cache} {s : Str} {e now : Nat} (h : CachedUntil cache s e)
    (hnow : now < e) : ∃ v, checkCache cache now s = some v := by
  obtain ⟨entry, hentry, hle⟩ := h
  refine ⟨entry.value, ?_⟩
  simp only [Vault.checkCache, hentry, if_pos (Nat.lt_of_lt_of_le hnow hle)]

/-- What is inserted later expires later. -/
def keptUntil (ttl : Nat) (s : Str) (e : Nat) : Tasks.Inv Nat Shared Phase where
  shared := fun sh => e ≤ sh.now + ttl ∧ CachedUntil sh.cache s e
  task := fun _ _ _ => True

theorem keptUntil_kept (ttl : Nat) (s : Str) (e : Nat) :
    (keptUntil ttl s e).Kept (tasks ttl) .any where
  act := by
    intro i a sh ph sh' ph' _ hshared _ hact
    refine ⟨?_, trivial⟩
    cases act_eq_some_iff.mp hact with
    | stored hdeadline =>
      obtain ⟨-, rfl⟩ := deadline_eq_some_iff.mp hdeadline
      exact ⟨hshared.1, hshared.2.insertAll hshared.1⟩
    | _ => exact hshared
  act_stable := fun _ _ _ _ _ _ => trivial
  env := by
    intro ev sh sh' _ hshared henv
    obtain ⟨hcache, -, -, hnow, -⟩ := event_keeps henv
    refine ⟨Nat.le_trans hshared.1 (Nat.add_le_add_right hnow ttl), ?_⟩
    rw [hcache]
    exact hshared.2
  env_stable := fun _ _ _ _ => trivial

/-! ## Effectiveness -/

/-- Once a call on the text has cached what it read and answered with a value, every
    call on the text that checks the cache within the time to live is answered by the
    check, and Vault is not read. -/
def Effective (ttl : Nat) (s : Str) : Prop :=
  ∀ {now latest p p' q q' i j v n r},
    (machine ttl).Reaches anyMove (start now latest) p →
    (machine ttl).step p (.task i .insert) = some p' → p'.tasks i = .done s (.ok (some v)) n →
    (machine ttl).Reaches anyMove p' q →
    q.tasks j = .checking s r → q.shared.now < p.shared.now + ttl →
    (machine ttl).step q (.task j .check) = some q' →
    ∃ v' n', q' =
      { shared := q.shared, tasks := Function.update q.tasks j (.done s (.ok (some v')) n') }

/-- An insertion that answers with a value of the response. -/
theorem Does.insert_done {ttl : Nat} {sh sh' : Shared} {ph : Phase} {s : Str} {result : Option Str}
    {n : Option Nat} (h : Does ttl sh .insert ph sh' (.done s (.ok result) n)) :
    ∃ r resp, ph = .caching s r resp ∧ sh.now + ttl < maxInstant ∧
      sh' = sh.store r resp (sh.now + ttl) ∧ resp.secret.get r.key = result := by
  cases h with
  | @stored s r resp expiresAt hdeadline =>
    obtain ⟨hlt, rfl⟩ := deadline_eq_some_iff.mp hdeadline
    exact ⟨r, resp, rfl, hlt, rfl, rfl⟩

/-- A check of a cached text is answered. -/
theorem Does.check_hit {ttl : Nat} {sh sh' : Shared} {s : Str} {r : VaultRef} {ph' : Phase} {e : Nat}
    (h : Does ttl sh .check (.checking s r) sh' ph') (hcached : CachedUntil sh.cache s e)
    (hnow : sh.now < e) : ∃ v n, sh' = sh ∧ ph' = .done s (.ok (some v)) n := by
  obtain ⟨v, hv⟩ := hcached.checkCache hnow
  cases h with
  | hit hcheck => exact ⟨_, _, rfl, rfl⟩
  | missed hcheck =>
    rw [hv] at hcheck
    cases hcheck

theorem effective_of_canonical {ttl : Nat} {s : Str} {r : VaultRef} (hparse : parseVaultRef s = some r)
    (hcanonical : refStr r r.key = s) : Effective ttl s := by
  intro now latest p p' q q' i j v n r' hreach hinsert hdone hlater hchecking hnow hcheck
  obtain ⟨sh', ph', hdoes, rfl⟩ := step_act_iff.mp hinsert
  simp only [Function.update_self] at hdone
  subst hdone
  obtain ⟨r₁, resp, hphase, -, rfl, hget⟩ := hdoes.insert_done
  have hknown := (provenance_reaches hreach).2 i
  rw [hphase] at hknown
  cases hparse.symm.trans hknown.1
  -- The insertion starts the invariant, under the text of the call itself.
  have hstart : (keptUntil ttl s (p.shared.now + ttl)).holds
      { shared := p.shared.store r resp (p.shared.now + ttl),
        tasks := Function.update p.tasks i (.done s (.ok (some v)) n) } := by
    refine ⟨⟨Nat.le_refl _, ⟨{ value := v, expiresAt := p.shared.now + ttl }, ?_, Nat.le_refl _⟩⟩,
      fun _ => trivial⟩
    have happly := insertAll_refStr r (p.shared.now + ttl) resp.secret p.shared.cache r.key
    rw [hcanonical, hget] at happly
    exact happly
  have hkept := (keptUntil_kept ttl s _).reaches_any hlater hstart
  obtain ⟨sh₂, ph₂, hdoes₂, rfl⟩ := step_act_iff.mp hcheck
  rw [hchecking] at hdoes₂
  obtain ⟨v', n', rfl, rfl⟩ := hdoes₂.check_hit hkept.1.2 hnow
  exact ⟨v', n', rfl⟩

/-- In another spelling, a call leaves its own text uncached. -/
theorem fetched_misses {s : Str} {r : VaultRef} {v : Str} {i expiresAt now : Nat}
    {p : Pool Nat Shared Phase} (hother : refStr r r.key ≠ s) (hempty : p.shared.cache s = none) :
    checkCache (fetched i s r (.single r.key v) expiresAt p).shared.cache now s = none := by
  have hcache : (fetched i s r (.single r.key v) expiresAt p).shared.cache s = none := by
    change insertAll r expiresAt (.single r.key v) p.shared.cache s = none
    rw [← hempty]
    simp only [insertAll_apply, Secret.single, List.find?, decide_eq_false hother]
  simp only [checkCache, hcache]

theorem not_effective {ttl : Nat} {s : Str} {r : VaultRef} (hparse : parseVaultRef s = some r)
    (hother : refStr r r.key ≠ s) (hpos : 0 < ttl) (hlt : ttl < maxInstant) : ¬ Effective ttl s := by
  intro heffective
  let secret := Secret.single r.key []
  let p' := fetched 0 s r secret ttl (start 0 fun _ _ => 1)
  let q : Pool Nat Shared Phase :=
    { shared := p'.shared, tasks := Function.update p'.tasks 1 (.checking s r) }
  have hdeadline : deadline 0 ttl = some ttl := by
    rw [deadline_eq_some_iff, Nat.zero_add]
    exact ⟨hlt, rfl⟩
  have hasked : (machine ttl).Reaches anyMove (start 0 fun _ _ => 1)
      (asked 0 s r secret (start 0 fun _ _ => 1)) :=
    reaches_asked (fun _ _ _ => trivial) rfl hparse rfl
  have hinsert : (machine ttl).step (asked 0 s r secret (start 0 fun _ _ => 1)) (.task 0 .insert) =
      some p' := step_cached asked_task hdeadline
  have hget : secret.get r.key = some [] := Secret.get_eq_some_iff.mpr (List.mem_singleton_self _)
  have hdone : p'.tasks 0 = .done s (.ok (some [])) (some (r.version.getD 1)) := by
    rw [← hget]
    rfl
  have hcall : (machine ttl).step p' (.task 1 (.call s)) = some q := step_act (.called hparse)
  have hmissed : Does ttl q.shared .check (q.tasks 1) q.shared (.reading s r) :=
    .missed (fetched_misses hother rfl)
  have hnow : q.shared.now < 0 + ttl := by
    rw [Nat.zero_add]
    exact hpos
  obtain ⟨v', n', hq'⟩ := heffective hasked hinsert hdone
    (.step .refl trivial hcall) rfl hnow (step_act hmissed)
  have htask := congrArg (fun p : Pool Nat Shared Phase => p.tasks 1) hq'
  simp only [Function.update_self] at htask
  cases htask

/-- With a time to live of zero nothing is due a hit, and with one beyond the clock's
    range no insertion answers. -/
theorem effective_of_ttl {ttl : Nat} (s : Str) (h : ttl = 0 ∨ maxInstant ≤ ttl) : Effective ttl s := by
  intro now latest p p' q q' i j v n r hreach hinsert hdone hlater hchecking hnow hcheck
  obtain ⟨sh', ph', hdoes, rfl⟩ := step_act_iff.mp hinsert
  simp only [Function.update_self] at hdone
  subst hdone
  obtain ⟨r₁, resp, -, hlt, -⟩ := hdoes.insert_done
  cases h with
  | inl hzero =>
    have hle := now_le hlater
    simp only [hdoes.keeps.1] at hle
    omega
  | inr hlarge => omega

/-- A reference is served from the cache exactly in its canonical spelling, unless no
    insertion can be followed by a check in time. -/
theorem cache_effective_iff {ttl : Nat} {s : Str} {r : VaultRef} (hparse : parseVaultRef s = some r) :
    Effective ttl s ↔ Canonical s r ∨ ttl = 0 ∨ maxInstant ≤ ttl := by
  rw [← refStr_key_iff hparse]
  constructor
  · intro heffective
    by_contra hnot
    simp only [not_or] at hnot
    obtain ⟨hother, hzero, hlarge⟩ := hnot
    exact not_effective hparse hother (Nat.pos_of_ne_zero hzero) (Nat.lt_of_not_le hlarge) heffective
  · intro h
    cases h with
    | inl hcanonical => exact effective_of_canonical hparse hcanonical
    | inr httl => exact effective_of_ttl s httl

/-- The default of five minutes, and the documented spelling. -/
theorem cache_effective_documented : Effective 300000000000 "vault:secret/data/app#K".toList :=
  (cache_effective_iff (r := { mount := "secret".toList, path := "app".toList, key := ['K'], version := none })
    (by decide)).mpr (.inl ⟨['K'], by decide, by simp⟩)

/-- The accepted spelling without a `/data/` segment never hits. -/
theorem cache_not_effective :
    (parseVaultRef "vault:secret/app#K".toList).isSome = true ∧
      ¬ Effective 300000000000 "vault:secret/app#K".toList := by
  refine ⟨by decide, ?_⟩
  exact not_effective
    (r := { mount := "secret".toList, path := "app".toList, key := ['K'], version := none })
    (by decide) (by decide) (by decide) (by decide)

end EnvProxy.Vault
