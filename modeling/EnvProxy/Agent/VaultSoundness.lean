-- SUMMARY: Where cached Vault values come from, and when a cached value belongs to the reference it is cached under.
import EnvProxy.Agent.VaultTasks

/-!
# Soundness of the Vault cache

Every entry comes from a response, under a key name of the secret; this holds in all
runs. That the entry answers the reference its text reads as needs more: an
unversioned read of a secret with a key name such as `a#3` caches a text that reads
as version 3 of the key `a`.
-/

namespace EnvProxy.Vault

/-- The response is one to a read of exactly this mount, path and version. -/
structure Response.Answers (resp : Response) (r : VaultRef) : Prop where
  mount : resp.mount = r.mount
  path : resp.path = r.path
  version : resp.version = r.version

/-- The value of an entry was held by a response, under the key name the text was
    built from. -/
def CameFrom (sh : Shared) (s : Str) (entry : CacheEntry) : Prop :=
  ∃ r k, ∃ resp ∈ sh.responses, VaultRef.WellFormed r ∧ resp.Answers r ∧ refStr r k = s ∧
    resp.secret.get k = some entry.value ∧ sh.origin s = resp.serial

/-- What a waiting task knows of its reference and its response. -/
def Phase.Known (sh : Shared) : Phase → Prop
  | .checking s r => parseVaultRef s = some r
  | .reading s r => parseVaultRef s = some r
  | .caching s r resp => parseVaultRef s = some r ∧ resp ∈ sh.responses ∧ resp.Answers r
  | _ => True

def provenance : Tasks.Inv Nat Shared Phase where
  shared := fun sh =>
    (∀ s entry, sh.cache s = some entry → CameFrom sh s entry) ∧
    ∀ resp ∈ sh.responses, resp.version = none → resp.serial ≤ sh.latest resp.mount resp.path
  task := fun _ sh ph => ph.Known sh

/-! ## The shared state after an insertion -/

theorem Shared.store_origin_refStr {sh : Shared} {r : VaultRef} {resp : Response} {expiresAt : Nat}
    {k v : Str} (h : resp.secret.get k = some v) :
    (sh.store r resp expiresAt).origin (refStr r k) = resp.serial := by
  have hany : (resp.secret.entries.any fun e => decide (refStr r e.1 = refStr r k)) = true :=
    List.any_eq_true.mpr ⟨(k, v), Secret.get_eq_some_iff.mp h, decide_eq_true rfl⟩
  simp only [store, hany, if_true]

theorem Shared.store_origin_other {sh : Shared} {r : VaultRef} {resp : Response} {expiresAt : Nat}
    {s : Str} (h : ∀ k, resp.secret.get k ≠ none → refStr r k ≠ s) :
    (sh.store r resp expiresAt).origin s = sh.origin s := by
  have hany : (resp.secret.entries.any fun e => decide (refStr r e.1 = s)) = false := by
    rw [List.any_eq_false]
    intro e he hsame
    have hget : resp.secret.get e.1 = some e.2 := Secret.get_eq_some_iff.mpr he
    exact h e.1 (by simp [hget]) (of_decide_eq_true hsame)
  simp only [store, hany, Bool.false_eq_true, if_false]

/-- An entry after an insertion: one of the response, or an old one it leaves alone. -/
theorem Shared.store_cases {sh : Shared} {r : VaultRef} {resp : Response} {expiresAt : Nat} {s : Str}
    {entry : CacheEntry} (h : (sh.store r resp expiresAt).cache s = some entry) :
    (∃ k, refStr r k = s ∧ resp.secret.get k = some entry.value ∧ entry.expiresAt = expiresAt ∧
        (sh.store r resp expiresAt).origin s = resp.serial) ∨
      (sh.cache s = some entry ∧ (sh.store r resp expiresAt).origin s = sh.origin s) := by
  by_cases hs : ∃ k, refStr r k = s
  · obtain ⟨k, rfl⟩ := hs
    have happly := insertAll_refStr r expiresAt resp.secret sh.cache k
    simp only [store] at h
    rw [h] at happly
    cases hget : resp.secret.get k with
    | some v =>
      simp only [hget, Option.some.injEq] at happly
      subst happly
      exact .inl ⟨k, rfl, hget, rfl, store_origin_refStr hget⟩
    | none =>
      simp only [hget] at happly
      refine .inr ⟨happly.symm, store_origin_other fun k' hk' hsame => ?_⟩
      rw [refStr_injective hsame, hget] at hk'
      exact hk' rfl
  · simp only [not_exists] at hs
    simp only [store, insertAll_other hs] at h
    exact .inr ⟨h, store_origin_other fun k _ => hs k⟩

/-! ## Provenance -/

theorem CameFrom.mono {sh sh' : Shared} {s : Str} {entry : CacheEntry} (h : CameFrom sh s entry)
    (horigin : sh'.origin s = sh.origin s) (hresponses : ∀ resp ∈ sh.responses, resp ∈ sh'.responses) :
    CameFrom sh' s entry := by
  obtain ⟨r, k, resp, hresp, hr, hanswers, hs, hget, hserial⟩ := h
  exact ⟨r, k, resp, hresponses resp hresp, hr, hanswers, hs, hget, horigin.trans hserial⟩

theorem Phase.Known.mono {sh sh' : Shared} {ph : Phase} (h : ph.Known sh)
    (hresponses : ∀ resp ∈ sh.responses, resp ∈ sh'.responses) : ph.Known sh' := by
  cases ph with
  | caching s r resp => exact ⟨h.1, hresponses resp h.2.1, h.2.2⟩
  | _ => exact h

/-- An act only adds responses. -/
theorem Does.responses {ttl : Nat} {a : Act} {sh sh' : Shared} {ph ph' : Phase}
    (h : Does ttl sh a ph sh' ph') : ∀ resp ∈ sh.responses, resp ∈ sh'.responses := by
  intro resp hresp
  cases h with
  | received => exact List.mem_append_left _ hresp
  | _ => exact hresp

theorem provenance_kept (ttl : Nat) (g : Tasks.Guard Shared Phase Act Event) :
    provenance.Kept (tasks ttl) g where
  act := by
    intro i a sh ph sh' ph' _ hshared htask hact
    obtain ⟨hcache, hserial⟩ := hshared
    cases act_eq_some_iff.mp hact with
    | rejected _ => exact ⟨⟨hcache, hserial⟩, trivial⟩
    | called hparse => exact ⟨⟨hcache, hserial⟩, hparse⟩
    | hit _ => exact ⟨⟨hcache, hserial⟩, trivial⟩
    | missed _ => exact ⟨⟨hcache, hserial⟩, htask⟩
    | failed => exact ⟨⟨hcache, hserial⟩, trivial⟩
    | overflowed _ => exact ⟨⟨hcache, hserial⟩, trivial⟩
    | @received s r secret =>
      refine ⟨⟨fun s' entry hentry => ?_, fun resp hresp hnone => ?_⟩, htask, ?_, rfl, rfl, rfl⟩
      · exact (hcache s' entry hentry).mono rfl fun resp hresp => List.mem_append_left _ hresp
      · rw [List.mem_append, List.mem_singleton] at hresp
        cases hresp with
        | inl hold => exact hserial resp hold hnone
        | inr hnew =>
          subst hnew
          have hversion : r.version = none := hnone
          simp only [Shared.respond, hversion, Option.getD_none]
          exact Nat.le_refl _
      · exact List.mem_append_right _ (List.mem_singleton.mpr rfl)
    | @stored s r resp expiresAt _ =>
      obtain ⟨hparse, hresp, hanswers⟩ := htask
      refine ⟨⟨fun s' entry hentry => ?_, hserial⟩, trivial⟩
      cases Shared.store_cases hentry with
      | inl hnew =>
        obtain ⟨k, hk, hget, -, horigin⟩ := hnew
        exact ⟨r, k, resp, hresp, parseVaultRef_wellFormed hparse, hanswers, hk, hget, horigin⟩
      | inr hold => exact (hcache s' entry hold.1).mono hold.2 fun _ h => h
  act_stable := by
    intro i j a sh ph sh' ph' u _ _ _ _ hu hact
    exact hu.mono (act_eq_some_iff.mp hact).responses
  env := by
    intro e sh sh' _ hshared henv
    obtain ⟨hcache, horigin, hresponses, -, hlatest⟩ := event_keeps henv
    refine ⟨fun s entry hentry => ?_, fun resp hresp hnone => ?_⟩
    · rw [hcache] at hentry
      exact (hshared.1 s entry hentry).mono (congrFun horigin s) (fun resp hresp => hresponses ▸ hresp)
    · rw [hresponses] at hresp
      exact Nat.le_trans (hshared.2 resp hresp hnone) (hlatest _ _)
  env_stable := by
    intro j e sh sh' u _ _ hu henv
    obtain ⟨-, -, hresponses, -, -⟩ := event_keeps henv
    exact hu.mono fun resp hresp => hresponses ▸ hresp

theorem provenance_start (now : Nat) (latest : Str → Str → Nat) :
    provenance.holds (start now latest) := by
  refine ⟨⟨?_, ?_⟩, fun _ => trivial⟩
  · intro s entry hentry
    cases hentry
  · intro resp hresp
    cases hresp

/-- The provenance is known in every state a run reaches. -/
theorem provenance_reaches {ttl now : Nat} {latest : Str → Str → Nat} {p : Pool Nat Shared Phase}
    (h : (machine ttl).Reaches Machine.anyMove (start now latest) p) : provenance.holds p :=
  (provenance_kept ttl .any).reaches_any h
    (provenance_start now latest)

/-! ## Soundness -/

/-- A response to exactly this reference held the value under exactly its key. -/
def Fetched (sh : Shared) (r : VaultRef) (v : Str) : Prop :=
  ∃ resp ∈ sh.responses, resp.Answers r ∧ resp.secret.get r.key = some v

/-- Every entry whose text reads as a reference holds a value fetched for it. -/
def Sound (sh : Shared) : Prop :=
  ∀ s r entry, sh.cache s = some entry → parseVaultRef s = some r → Fetched sh r entry.value

/-- So does every answered task. -/
def Phase.Sound (sh : Shared) : Phase → Prop
  | .done s (.ok (some v)) _ => ∀ r, parseVaultRef s = some r → Fetched sh r v
  | _ => True

/-- No key name of the secret reads as a key with a version. -/
def Secret.Plain (secret : Secret) : Prop :=
  ∀ k v, secret.get k = some v → readsAsVersion k = false

/-- Vault answers unversioned reads with plain secrets. -/
def plainKeys : Tasks.Guard Shared Phase Act Event where
  act := fun a _ ph =>
    match a, ph with
    | .receive secret, .reading _ r => r.version = none → secret.Plain
    | _, _ => True
  env := fun _ _ => True

def soundness : Tasks.Inv Nat Shared Phase where
  shared := fun sh =>
    provenance.shared sh ∧ ∀ resp ∈ sh.responses, resp.version = none → resp.secret.Plain
  task := fun _ sh ph => ph.Known sh ∧ ph.Sound sh

theorem soundness_sound {sh : Shared} (h : soundness.shared sh) : Sound sh := by
  intro s r' entry hentry hparse
  obtain ⟨r, k, resp, hresp, hr, hanswers, rfl, hget, -⟩ := h.1.1 s entry hentry
  obtain ⟨hmount, hpath, hrest⟩ := parseVaultRef_refStr hr hparse
  cases hrest with
  | inl hsame =>
    refine ⟨resp, hresp, ⟨hanswers.mount.trans hmount.symm, hanswers.path.trans hpath.symm,
      hanswers.version.trans hsame.2.symm⟩, ?_⟩
    rw [hsame.1, hget]
  | inr hreads =>
    have hplain := h.2 resp hresp (hanswers.version.trans hreads.1) k entry.value hget
    rw [hreads.2.2] at hplain
    cases hplain

theorem Fetched.mono {sh sh' : Shared} {r : VaultRef} {v : Str} (h : Fetched sh r v)
    (hresponses : ∀ resp ∈ sh.responses, resp ∈ sh'.responses) : Fetched sh' r v := by
  obtain ⟨resp, hresp, hanswers, hget⟩ := h
  exact ⟨resp, hresponses resp hresp, hanswers, hget⟩

theorem Phase.Sound.mono {sh sh' : Shared} {ph : Phase} (h : ph.Sound sh)
    (hresponses : ∀ resp ∈ sh.responses, resp ∈ sh'.responses) : ph.Sound sh' := by
  match ph, h with
  | .done s (.ok (some v)) _, h => exact fun r hparse => (h r hparse).mono hresponses
  | .done _ (.ok none) _, _ => exact trivial
  | .done _ (.error _) _, _ => exact trivial
  | .idle, _ => exact trivial
  | .checking _ _, _ => exact trivial
  | .reading _ _, _ => exact trivial
  | .caching _ _ _, _ => exact trivial
  | .panicked, _ => exact trivial

/-- A value that passes the check is the value of an entry. -/
theorem checkCache_eq_some {cache : Cache} {now : Nat} {s v : Str}
    (h : checkCache cache now s = some v) :
    ∃ entry, cache s = some entry ∧ entry.value = v ∧ now < entry.expiresAt := by
  simp only [checkCache] at h
  split at h
  · next entry hentry =>
    split at h
    · next hlt => exact ⟨entry, hentry, Option.some.inj h, hlt⟩
    · cases h
  · cases h

theorem soundness_kept (ttl : Nat) : soundness.Kept (tasks ttl) plainKeys where
  act := by
    intro i a sh ph sh' ph' hguard hshared htask hact
    have hdoes := act_eq_some_iff.mp hact
    obtain ⟨hprov, hknown⟩ := (provenance_kept ttl plainKeys).act (i := i) hguard hshared.1 htask.1 hact
    refine ⟨⟨hprov, ?_⟩, hknown, ?_⟩
    · intro resp hresp hnone
      cases hdoes with
      | received =>
        rw [List.mem_append, List.mem_singleton] at hresp
        cases hresp with
        | inl hold => exact hshared.2 resp hold hnone
        | inr hnew => subst hnew; exact hguard hnone
      | _ => exact hshared.2 resp hresp hnone
    · cases hdoes with
      | hit hcheck =>
        obtain ⟨entry, hentry, rfl, -⟩ := checkCache_eq_some hcheck
        exact fun r hparse => soundness_sound hshared _ r entry hentry hparse
      | @stored s r resp expiresAt _ =>
        obtain ⟨hparse, hresp, hanswers⟩ := htask.1
        cases hget : resp.secret.get r.key with
        | none => exact trivial
        | some v =>
          intro r' hparse'
          rw [hparse] at hparse'
          cases hparse'
          exact ⟨resp, hresp, hanswers, hget⟩
      | _ => exact trivial
  act_stable := by
    intro i j a sh ph sh' ph' u _ _ _ _ hu hact
    have hresponses := (act_eq_some_iff.mp hact).responses
    exact ⟨hu.1.mono hresponses, hu.2.mono hresponses⟩
  env := by
    intro e sh sh' hguard hshared henv
    refine ⟨(provenance_kept ttl plainKeys).env hguard hshared.1 henv, ?_⟩
    intro resp hresp
    rw [(event_keeps henv).2.2.1] at hresp
    exact hshared.2 resp hresp
  env_stable := by
    intro j e sh sh' u _ _ hu henv
    have hresponses : ∀ resp ∈ sh.responses, resp ∈ sh'.responses := by
      intro resp hresp
      rwa [(event_keeps henv).2.2.1]
    exact ⟨hu.1.mono hresponses, hu.2.mono hresponses⟩

/-- In every run in which Vault answers unversioned reads with plain secrets, every
    entry and every answer is a value fetched for the reference it stands for. -/
theorem cache_sound (ttl now : Nat) (latest : Str → Str → Nat) (p : Pool Nat Shared Phase)
    (h : (machine ttl).Reaches plainKeys.ok (start now latest) p) :
    Sound p.shared ∧ ∀ i, (p.tasks i).Sound p.shared := by
  have hstart : soundness.holds (start now latest) := by
    refine ⟨⟨(provenance_start now latest).1, ?_⟩, fun i => ⟨trivial, trivial⟩⟩
    intro resp hresp
    cases hresp
  obtain ⟨hshared, htasks⟩ := (soundness_kept ttl).reaches h hstart
  exact ⟨soundness_sound hshared, fun i => (htasks i).2⟩

/-- A secret with one key. -/
def Secret.single (k v : Str) : Secret where
  entries := [(k, v)]
  nodup := by simp

theorem Secret.single_plain {k v : Str} (h : readsAsVersion k = false) : (single k v).Plain := by
  intro k' v' hget
  cases List.mem_singleton.mp (get_eq_some_iff.mp hget)
  exact h

/-- A plain secret, read and cached by the first call of a run. -/
theorem cache_sound_first_call :
    let r : VaultRef := { mount := ['m'], path := ['p'], key := ['k'], version := none }
    let p := fetched 0 "vault:m/p#k".toList r (.single ['k'] ['v']) 60 (start 0 fun _ _ => 1)
    Sound p.shared ∧ ∀ i, (p.tasks i).Sound p.shared := by
  refine cache_sound 60 0 (fun _ _ => 1) _ (reaches_fetched ?_ rfl (by decide) rfl (by decide))
  intro a ha p
  simp only [List.mem_cons, List.not_mem_nil, or_false] at ha
  rcases ha with rfl | rfl | rfl | rfl
  · exact trivial
  · exact trivial
  · change plainKeys.act (.receive (.single ['k'] ['v'])) p.shared (p.tasks 0)
    cases p.tasks 0 with
    | reading s r => exact fun _ => Secret.single_plain (by decide)
    | _ => exact trivial
  · exact trivial

/-- The key name `a#3` of the latest version is cached as version 3 of the key `a`. -/
theorem cache_unsound :
    ∃ p, (machine 60).Reaches Machine.anyMove (start 0 fun _ _ => 1) p ∧ ¬ Sound p.shared := by
  let r : VaultRef := { mount := ['m'], path := ['p'], key := ['x'], version := none }
  let secret : Secret := .single "a#3".toList ['v']
  refine ⟨fetched 0 "vault:m/p#x".toList r secret 60 (start 0 fun _ _ => 1), ?_, fun h => ?_⟩
  · exact reaches_fetched (fun _ _ _ => trivial) rfl (by decide) rfl (by decide)
  · obtain ⟨resp, hresp, hanswers, -⟩ := h "vault:m/data/p#a#3".toList
      { mount := ['m'], path := ['p'], key := ['a'], version := some 3 }
      { value := ['v'], expiresAt := 60 } (by decide) (by decide)
    cases List.mem_singleton.mp hresp
    cases hanswers.version

end EnvProxy.Vault
