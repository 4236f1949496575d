-- SUMMARY: Whether the cached keys of one Vault secret come from one response: sequential calls and what each fetch leaves behind.
import EnvProxy.Agent.VaultSoundness

/-!
# Snapshots of a secret

A fetch caches all keys of a secret at once, and leaves what else is cached. A fetch
made before those entries expire, because a key was missing or a text is not the one
its value is cached under, then puts a new response next to an old one.
`snapshot_kept` says that this, and key names that read as a version, are all that can
go wrong; `covers_of_snapshot` is the converse for the first of the two.

`responses` and `origin` record where entries come from; no call reads them.
-/

namespace EnvProxy.Vault

/-- What is read from Vault for a reference: the mount, the path and the version. -/
def location (r : VaultRef) : Str × Str × Option Nat := (r.mount, r.path, r.version)

structure History where
  cache : Cache
  now : Nat
  /-- The responses so far, each with the reference it was asked for. -/
  responses : List (VaultRef × Secret)
  /-- The index of the response a cached text was inserted from. -/
  origin : Str → Nat

/-- A call: the time since the last one, the text, what Vault answers if it is asked, and
    the time until the answer is cached. -/
structure Visit where
  idle : Nat
  value : Str
  answer : Except Str Secret
  delay : Nat

namespace History

def start (now : Nat) : History where
  cache := fun _ => none
  now := now
  responses := []
  origin := fun _ => 0

/-- The time when a call caches. -/
def later (h : History) (visit : Visit) : Nat := h.now + visit.idle + visit.delay

/-- The response a call gets, if it asks Vault. -/
def fetched (h : History) (visit : Visit) : Option (VaultRef × Secret) :=
  match parseVaultRef visit.value with
  | none => none
  | some r =>
    match checkCache h.cache (h.now + visit.idle) visit.value with
    | some _ => none
    | none =>
      match visit.answer with
      | .error _ => none
      | .ok secret => some (r, secret)

/-- The texts a response is cached under. -/
def inserted (r : VaultRef) (secret : Secret) (s : Str) : Bool :=
  secret.entries.any fun e => refStr r e.1 = s

/-- The state after a call of `resolve_with_value`. -/
def call (ttl : Nat) (h : History) (visit : Visit) : History where
  cache := (resolveWithValue ttl (fun _ _ _ => visit.answer) (h.now + visit.idle) (h.later visit)
    visit.value h.cache).2
  now := h.later visit
  responses := h.responses ++ (h.fetched visit).toList
  origin := fun s =>
    match h.fetched visit, deadline (h.later visit) ttl with
    | some (r, secret), some _ => if inserted r secret s then h.responses.length else h.origin s
    | _, _ => h.origin s

end History

/-- Calls made one after another. -/
def visits (ttl : Nat) : Machine History Visit where
  step := fun h visit => some (h.call ttl visit)

namespace History

/-- An entry that is served if it is asked for. -/
def Unexpired (h : History) (s : Str) (entry : CacheEntry) : Prop :=
  h.cache s = some entry ∧ h.now < entry.expiresAt

/-- A cached text is served exactly if its entry has not expired. -/
theorem served_iff {h : History} {s v : Str} :
    checkCache h.cache h.now s = some v ↔ ∃ entry, h.Unexpired s entry ∧ entry.value = v := by
  unfold checkCache Unexpired
  cases h.cache s with
  | none => simp
  | some entry => by_cases hlt : h.now < entry.expiresAt <;> simp [hlt]

/-- The latest response for what a reference reads. -/
def latest (h : History) (r : VaultRef) : Option Secret :=
  (h.responses.reverse.find? fun response => location response.1 = location r).map
    Prod.snd

/-- What is cached of one secret is from one response, and in the latest response. -/
structure Snapshot (h : History) : Prop where
  same : ∀ {s s' entry entry' r r'}, h.Unexpired s entry → h.Unexpired s' entry' →
    parseVaultRef s = some r → parseVaultRef s' = some r' →
    location r = location r' → h.origin s = h.origin s'
  listed : ∀ {s entry r secret}, h.Unexpired s entry → parseVaultRef s = some r →
    h.latest r = some secret → secret.get r.key ≠ none

/-- Every key name of a response is cached under a text that reads as a key of what was
    read. -/
def Stays (r : VaultRef) (secret : Secret) : Prop :=
  ∀ k r', secret.get k ≠ none → parseVaultRef (refStr r k) = some r' →
    location r' = location r

/-- What is cached of the secret and will not have expired is among what the response is
    cached under. -/
def Replaces (h : History) (visit : Visit) (r : VaultRef) (secret : Secret) : Prop :=
  ∀ s entry r', h.cache s = some entry → h.later visit < entry.expiresAt →
    parseVaultRef s = some r' → location r' = location r →
    refStr r r'.key = s ∧ secret.get r'.key ≠ none

/-- If the call fetches, the response covers what is cached of the secret, and nothing else. -/
def Covers (h : History) (visit : Visit) : Prop :=
  ∀ r secret, h.fetched visit = some (r, secret) → Stays r secret ∧ h.Replaces visit r secret

/-! ## What a call leaves -/

theorem call_unfetched {ttl : Nat} {h : History} {visit : Visit} (hf : h.fetched visit = none) :
    h.call ttl visit = { h with now := h.later visit } := by
  have hcache : (resolveWithValue ttl (fun _ _ _ => visit.answer) (h.now + visit.idle)
      (h.later visit) visit.value h.cache).2 = h.cache := by
    cases hparse : parseVaultRef visit.value with
    | none => simp only [resolveWithValue, hparse]
    | some r =>
      cases hcheck : checkCache h.cache (h.now + visit.idle) visit.value with
      | some v => simp only [resolveWithValue, hparse, hcheck]
      | none =>
        cases hanswer : visit.answer with
        | error msg => simp only [resolveWithValue, hparse, hcheck]
        | ok secret => simp [fetched, hparse, hcheck, hanswer] at hf
  simp only [call, hf, hcache, Option.toList_none, List.append_nil]

theorem call_fetched (ttl : Nat) {h : History} {visit : Visit} {r : VaultRef} {secret : Secret}
    (hf : h.fetched visit = some (r, secret)) :
    parseVaultRef visit.value = some r ∧
      (resolveWithValue ttl (fun _ _ _ => visit.answer) (h.now + visit.idle) (h.later visit)
        visit.value h.cache).2 =
        match deadline (h.later visit) ttl with
        | none => h.cache
        | some expiresAt => insertAll r expiresAt secret h.cache := by
  unfold fetched at hf
  split at hf
  · cases hf
  · next r' hparse =>
    split at hf
    · cases hf
    · next hcheck =>
      split at hf
      · cases hf
      · next secret' hanswer =>
        cases hf
        refine ⟨hparse, ?_⟩
        simp only [resolveWithValue, hparse, hcheck, hanswer]
        cases deadline (h.later visit) ttl with
        | none => rfl
        | some expiresAt => rfl

theorem call_panicked {ttl : Nat} {h : History} {visit : Visit} {r : VaultRef} {secret : Secret}
    (hf : h.fetched visit = some (r, secret)) (hdeadline : deadline (h.later visit) ttl = none) :
    h.call ttl visit =
      { h with now := h.later visit, responses := h.responses ++ [(r, secret)] } := by
  simp only [call, hf, (call_fetched ttl hf).2, hdeadline, Option.toList_some]

theorem call_inserted {ttl : Nat} {h : History} {visit : Visit} {r : VaultRef} {secret : Secret}
    {expiresAt : Nat} (hf : h.fetched visit = some (r, secret))
    (hdeadline : deadline (h.later visit) ttl = some expiresAt) :
    h.call ttl visit =
      { cache := insertAll r expiresAt secret h.cache
        now := h.later visit
        responses := h.responses ++ [(r, secret)]
        origin := fun s => if inserted r secret s then h.responses.length else h.origin s } := by
  simp only [call, hf, (call_fetched ttl hf).2, hdeadline, Option.toList_some]

theorem inserted_iff {r : VaultRef} {secret : Secret} {s : Str} :
    inserted r secret s = true ↔ ∃ k, secret.get k ≠ none ∧ refStr r k = s := by
  simp only [inserted, List.any_eq_true, decide_eq_true_eq]
  constructor
  · rintro ⟨⟨k, v⟩, hmem, hs⟩
    exact ⟨k, by simp [Secret.get_eq_some_iff.mpr hmem], hs⟩
  · rintro ⟨k, hget, hs⟩
    obtain ⟨v, hv⟩ := Option.ne_none_iff_exists'.mp hget
    exact ⟨(k, v), Secret.get_eq_some_iff.mp hv, hs⟩

/-- A text that is not among the inserted ones keeps its entry; an inserted one gets a
    new one. -/
theorem insertAll_inserted (r : VaultRef) (expiresAt : Nat) (secret : Secret) (cache : Cache) (s : Str) :
    (inserted r secret s = false ∧ insertAll r expiresAt secret cache s = cache s) ∨
      ∃ k v, inserted r secret s = true ∧ refStr r k = s ∧ secret.get k = some v ∧
        insertAll r expiresAt secret cache s = some { value := v, expiresAt } := by
  cases hins : inserted r secret s with
  | true =>
    obtain ⟨k, hget, rfl⟩ := inserted_iff.mp hins
    obtain ⟨v, hv⟩ := Option.ne_none_iff_exists'.mp hget
    refine .inr ⟨k, v, rfl, rfl, hv, ?_⟩
    rw [insertAll_refStr, hv]
  | false =>
    refine .inl ⟨rfl, ?_⟩
    have hnone : (secret.entries.find? fun e => decide (refStr r e.1 = s)) = none := by
      rw [List.find?_eq_none]
      exact List.any_eq_false.mp hins
    rw [insertAll_apply, hnone]

/-! ## Where entries come from -/

/-- Every entry was inserted from the response its origin names. -/
def Sourced (h : History) : Prop :=
  ∀ s entry, h.cache s = some entry → ∃ r secret k, h.responses[h.origin s]? = some (r, secret) ∧
    r.WellFormed ∧ refStr r k = s ∧ secret.get k = some entry.value

theorem Sourced.call {ttl : Nat} {h : History} (hsourced : h.Sourced) (visit : Visit) :
    (h.call ttl visit).Sourced := by
  have happend : ∀ {response : VaultRef × Secret} {s : Str} {entry : CacheEntry},
      h.cache s = some entry → ∃ r secret k,
        (h.responses ++ [response])[h.origin s]? = some (r, secret) ∧
          r.WellFormed ∧ refStr r k = s ∧ secret.get k = some entry.value := by
    intro response s entry hentry
    obtain ⟨r, secret, k, horigin, hrest⟩ := hsourced s entry hentry
    refine ⟨r, secret, k, ?_, hrest⟩
    rw [List.getElem?_append_left (List.getElem?_eq_some_iff.mp horigin).1, horigin]
  cases hf : h.fetched visit with
  | none =>
    rw [call_unfetched hf]
    exact hsourced
  | some response =>
    obtain ⟨r, secret⟩ := response
    cases hdeadline : deadline (h.later visit) ttl with
    | none =>
      rw [call_panicked hf hdeadline]
      exact fun s entry hentry => happend hentry
    | some expiresAt =>
      rw [call_inserted hf hdeadline]
      intro s entry hentry
      dsimp only at hentry ⊢
      obtain ⟨hins, hold⟩ | ⟨k, v, hins, hs, hget, hnew⟩ :=
        insertAll_inserted r expiresAt secret h.cache s
      · rw [hins]
        exact happend (hold.symm.trans hentry)
      · rw [hnew, Option.some.injEq] at hentry
        subst hentry
        refine ⟨r, secret, k, ?_, parseVaultRef_wellFormed (call_fetched ttl hf).1, hs, hget⟩
        rw [hins, if_pos rfl, List.getElem?_concat_length]

theorem sourced_of_reaches {ttl now : Nat} {h : History} {ok : History → Visit → Prop}
    (hreach : (visits ttl).Reaches ok (start now) h) : h.Sourced := by
  refine hreach.invariant (fun s entry hentry => by cases hentry) fun h visit h' hsourced _ hstep => ?_
  cases hstep
  exact hsourced.call visit

/-- A cached text that reads as a key of what the response was asked for was built from
    that key. -/
theorem key_of_refStr {r r' : VaultRef} (hr : r.WellFormed) {k : Str}
    (hparse : parseVaultRef (refStr r k) = some r')
    (hlocation : location r' = location r) : r'.key = k := by
  obtain ⟨-, -, hrest⟩ := parseVaultRef_refStr hr hparse
  cases hrest with
  | inl hsame => exact hsame.1
  | inr hreads =>
    have hversion : r'.version = r.version := congrArg (fun l => l.2.2) hlocation
    exact absurd (hversion.trans hreads.1) hreads.2.1

/-! ## Covering fetches -/

theorem Unexpired.earlier {h : History} {s : Str} {entry : CacheEntry} {visit : Visit}
    (hentry : h.cache s = some entry) (hlater : h.later visit < entry.expiresAt) : h.Unexpired s entry := by
  refine ⟨hentry, ?_⟩
  simp only [later] at hlater
  omega

theorem latest_append {h : History} (r : VaultRef) (secret : Secret) (r' : VaultRef) {cache now origin} :
    latest { cache, now, responses := h.responses ++ [(r, secret)], origin } r' =
      if location r = location r' then some secret else h.latest r' := by
  simp only [latest, List.reverse_append, List.reverse_singleton, List.singleton_append,
    List.find?_cons]
  by_cases hlocation : location r = location r'
  · simp [hlocation]
  · simp [hlocation]

theorem Snapshot.unfetched {ttl : Nat} {h : History} {visit : Visit} (hsnapshot : h.Snapshot)
    (hf : h.fetched visit = none) : (h.call ttl visit).Snapshot := by
  rw [call_unfetched hf]
  constructor
  · intro s s' entry entry' r r' hs hs'
    exact hsnapshot.same (Unexpired.earlier hs.1 hs.2) (Unexpired.earlier hs'.1 hs'.2)
  · intro s entry r secret hs
    exact hsnapshot.listed (Unexpired.earlier hs.1 hs.2)

section

variable {ttl expiresAt : Nat} {h : History} {visit : Visit} {r₀ : VaultRef} {secret₀ : Secret}

/-- A response that is not cached has to list what stays. -/
theorem Snapshot.panicked (hsnapshot : h.Snapshot) (hf : h.fetched visit = some (r₀, secret₀))
    (hdeadline : deadline (h.later visit) ttl = none) (hreplaces : h.Replaces visit r₀ secret₀) :
    (h.call ttl visit).Snapshot := by
  rw [call_panicked hf hdeadline]
  constructor
  · intro s s' entry entry' r r' hs hs'
    exact hsnapshot.same (Unexpired.earlier hs.1 hs.2) (Unexpired.earlier hs'.1 hs'.2)
  · intro s entry r secret hs hparse hlatest
    rw [latest_append] at hlatest
    by_cases hlocation : location r₀ = location r
    · rw [if_pos hlocation, Option.some.injEq] at hlatest
      exact hlatest ▸ (hreplaces s entry r hs.1 hs.2 hparse hlocation.symm).2
    · rw [if_neg hlocation] at hlatest
      exact hsnapshot.listed (Unexpired.earlier hs.1 hs.2) hparse hlatest

/-- After the insertion an entry of the secret is new, and any other entry is old. -/
theorem Covers.inserted_cases (hcovers : h.Covers visit) (hf : h.fetched visit = some (r₀, secret₀))
    {s : Str} {entry : CacheEntry} {r : VaultRef}
    (hentry : insertAll r₀ expiresAt secret₀ h.cache s = some entry)
    (hlater : h.later visit < entry.expiresAt) (hparse : parseVaultRef s = some r) :
    (location r₀ = location r ∧ inserted r₀ secret₀ s = true ∧ secret₀.get r.key ≠ none) ∨
      (location r₀ ≠ location r ∧ inserted r₀ secret₀ s = false ∧ h.Unexpired s entry) := by
  obtain ⟨hstays, hreplaces⟩ := hcovers r₀ secret₀ hf
  have hr₀ : r₀.WellFormed := parseVaultRef_wellFormed (call_fetched 0 hf).1
  obtain ⟨hins, hold⟩ | ⟨k, v, hins, rfl, hget, -⟩ :=
    insertAll_inserted r₀ expiresAt secret₀ h.cache s
  · have hentry' : h.cache s = some entry := hold.symm.trans hentry
    refine .inr ⟨fun hlocation => ?_, hins, Unexpired.earlier hentry' hlater⟩
    obtain ⟨hs, hkey⟩ := hreplaces s entry r hentry' hlater hparse hlocation.symm
    rw [inserted_iff.mpr ⟨r.key, hkey, hs⟩] at hins
    cases hins
  · have hsome : secret₀.get k ≠ none := by simp [hget]
    have hlocation := hstays k r hsome hparse
    refine .inl ⟨hlocation.symm, hins, ?_⟩
    rw [key_of_refStr hr₀ hparse hlocation]
    exact hsome

theorem Snapshot.inserted (hsnapshot : h.Snapshot) (hf : h.fetched visit = some (r₀, secret₀))
    (hdeadline : deadline (h.later visit) ttl = some expiresAt) (hcovers : h.Covers visit) :
    (h.call ttl visit).Snapshot := by
  rw [call_inserted hf hdeadline]
  constructor
  · intro s s' entry entry' r r' hs hs' hparse hparse' hlocation
    dsimp only
    obtain ⟨hr, hins, -⟩ | ⟨hr, hins, hold⟩ := hcovers.inserted_cases hf hs.1 hs.2 hparse
    · obtain ⟨-, hins', -⟩ | ⟨hr', -, -⟩ := hcovers.inserted_cases hf hs'.1 hs'.2 hparse'
      · rw [hins, hins', if_pos rfl, if_pos rfl]
      · exact absurd (hr.trans hlocation) hr'
    · obtain ⟨hr', -, -⟩ | ⟨-, hins', hold'⟩ := hcovers.inserted_cases hf hs'.1 hs'.2 hparse'
      · exact absurd (hr'.trans hlocation.symm) hr
      · rw [hins, hins']
        exact hsnapshot.same hold hold' hparse hparse' hlocation
  · intro s entry r secret hs hparse hlatest
    rw [latest_append] at hlatest
    obtain ⟨hr, -, hkey⟩ | ⟨hr, -, hold⟩ := hcovers.inserted_cases hf hs.1 hs.2 hparse
    · rw [if_pos hr, Option.some.injEq] at hlatest
      exact hlatest ▸ hkey
    · rw [if_neg hr] at hlatest
      exact hsnapshot.listed hold hparse hlatest

end

/-- A call that covers what it fetches keeps the snapshots. -/
theorem Snapshot.call {ttl : Nat} {h : History} {visit : Visit} (hsnapshot : h.Snapshot)
    (hcovers : h.Covers visit) : (h.call ttl visit).Snapshot := by
  cases hf : h.fetched visit with
  | none => exact hsnapshot.unfetched hf
  | some response =>
    obtain ⟨r₀, secret₀⟩ := response
    cases hdeadline : deadline (h.later visit) ttl with
    | none => exact hsnapshot.panicked hf hdeadline (hcovers r₀ secret₀ hf).2
    | some expiresAt => exact hsnapshot.inserted hf hdeadline hcovers

/-- If every fetch covers what is cached of its secret, all that is served of one secret
    comes from one response, and is in the latest one. -/
theorem snapshot_kept {ttl now : Nat} {h : History}
    (hreach : (visits ttl).Reaches Covers (start now) h) : h.Sourced ∧ h.Snapshot := by
  refine ⟨sourced_of_reaches hreach, hreach.invariant ⟨?_, ?_⟩ fun h visit h' hsnapshot hcovers hstep => ?_⟩
  · intro s s' entry entry' r r' hs
    cases hs.1
  · intro s entry r secret hs
    cases hs.1
  · cases hstep
    exact hsnapshot.call hcovers

/-! ## Fetches that cover less -/

/-- An entry that the response does not replace outlives the snapshot: after a fetch that
    cached something to keep, there is a snapshot only if it replaced what it had to. -/
theorem covers_of_snapshot {ttl expiresAt : Nat} {h : History} {visit : Visit} {r : VaultRef}
    {secret : Secret} (hsourced : h.Sourced) (hf : h.fetched visit = some (r, secret))
    (hdeadline : deadline (h.later visit) ttl = some expiresAt) (httl : 0 < ttl)
    (hsnapshot : (h.call ttl visit).Snapshot) : h.Replaces visit r secret := by
  intro s entry r' hentry hlater hparse hlocation
  have hr : r.WellFormed := parseVaultRef_wellFormed (call_fetched ttl hf).1
  rw [call_inserted hf hdeadline] at hsnapshot
  obtain ⟨hins, hold⟩ | ⟨k, v, hins, rfl, hget, -⟩ :=
    insertAll_inserted r expiresAt secret h.cache s
  · -- The entry stays. Its key is in the response, so it is cached again under another text.
    have hkey : secret.get r'.key ≠ none := by
      refine hsnapshot.listed ⟨hold.trans hentry, hlater⟩ hparse ?_
      rw [latest_append, if_pos hlocation.symm]
    refine ⟨?_, hkey⟩
    by_contra hs
    obtain ⟨v, hv⟩ := Option.ne_none_iff_exists'.mp hkey
    have hwf : ({ r with key := r'.key } : VaultRef).WellFormed :=
      { hr with
        key_hash := (parseVaultRef_wellFormed hparse).key_hash
        key_ne := (parseVaultRef_wellFormed hparse).key_ne }
    have hparse' : parseVaultRef (refStr r r'.key) = some { r with key := r'.key } :=
      parseVaultRef_refStr_key hwf
    have hnew : insertAll r expiresAt secret h.cache (refStr r r'.key) =
        some { value := v, expiresAt } := by
      rw [insertAll_refStr, hv]
    have hexpires : h.later visit < expiresAt := by
      unfold deadline at hdeadline
      split at hdeadline
      · cases hdeadline
        omega
      · cases hdeadline
    have hsame := hsnapshot.same ⟨hold.trans hentry, hlater⟩ ⟨hnew, hexpires⟩ hparse hparse' hlocation
    dsimp only at hsame
    rw [hins, if_neg Bool.false_ne_true, inserted_iff.mpr ⟨r'.key, hkey, rfl⟩, if_pos rfl] at hsame
    obtain ⟨_, _, _, horigin, -⟩ := hsourced s entry hentry
    exact Nat.ne_of_lt (List.getElem?_eq_some_iff.mp horigin).1 hsame
  · have hkey := key_of_refStr hr hparse hlocation
    rw [hkey]
    exact ⟨rfl, by simp [hget]⟩

/-! ## A secret that loses a key -/

def both : Secret where
  entries := [(['a'], ['1']), (['b'], ['1'])]
  nodup := by decide

def onlyA : Secret where
  entries := [(['a'], ['2'])]
  nodup := by decide

/-- A call that nothing delays. -/
def visit (value : String) (secret : Secret) : Visit where
  idle := 0
  value := value.toList
  answer := .ok secret
  delay := 0

/-- The first fetch of a secret. -/
def fetchedBoth : History := (start 0).call 60 (visit "vault:m/data/p#a" both)

/-- A key that is not there is asked for, by the time the other key was removed. -/
def fetchedAgain : History := fetchedBoth.call 60 (visit "vault:m/data/p#c" onlyA)

def parsed (key : Str) : VaultRef where
  mount := ['m']
  path := ['p']
  key := key
  version := none

theorem parse_refStr {k : Str} (hk : k = ['a'] ∨ k = ['b']) (key : Str) :
    parseVaultRef (refStr (parsed key) k) = some (parsed k) := by
  have hparsed : parseVaultRef (refStr (parsed []) k) = some (parsed k) := by
    obtain rfl | rfl := hk
    · decide
    · decide
  exact hparsed

theorem stays_parsed {secret : Secret} (hkeys : ∀ k, secret.get k ≠ none → k = ['a'] ∨ k = ['b'])
    (key : Str) : Stays (parsed key) secret := by
  intro k r' hget hparse
  rw [parse_refStr (hkeys k hget), Option.some.injEq] at hparse
  subst hparse
  rfl

theorem keys_eq {secret : Secret} {v w : Str} (h : secret.entries = [(['a'], v), (['b'], w)]) (k : Str)
    (hget : secret.get k ≠ none) : k = ['a'] ∨ k = ['b'] := by
  obtain ⟨v', hv'⟩ := Option.ne_none_iff_exists'.mp hget
  have hmem := Secret.get_eq_some_iff.mp hv'
  simp only [h, List.mem_cons, Prod.mk.injEq, List.not_mem_nil, or_false] at hmem
  obtain ⟨rfl, -⟩ | ⟨rfl, -⟩ := hmem
  · exact .inl rfl
  · exact .inr rfl

/-- Both keys with new values. -/
def bothRotated : Secret where
  entries := [(['a'], ['2']), (['b'], ['2'])]
  nodup := by decide

/-- A key that is not there is asked for, by the time both others have new values. -/
def replacing : Visit := visit "vault:m/data/p#c" bothRotated

theorem covers_first : (start 0).Covers (visit "vault:m/data/p#a" both) := by
  intro r secret hf
  have hfetched : (start 0).fetched (visit "vault:m/data/p#a" both) = some (parsed ['a'], both) := rfl
  rw [hfetched, Option.some.injEq, Prod.mk.injEq] at hf
  obtain ⟨rfl, rfl⟩ := hf
  exact ⟨stays_parsed (keys_eq rfl) ['a'], fun s entry r' hentry => by cases hentry⟩

/-- The second response replaces what the first one left. -/
theorem covers_replacing : fetchedBoth.Covers replacing := by
  intro r secret hf
  have hfetched : fetchedBoth.fetched replacing = some (parsed ['c'], bothRotated) := rfl
  rw [hfetched, Option.some.injEq, Prod.mk.injEq] at hf
  obtain ⟨rfl, rfl⟩ := hf
  refine ⟨stays_parsed (keys_eq rfl) ['c'], fun s entry r' hentry _ hparse _ => ?_⟩
  have hcache : fetchedBoth.cache = insertAll (parsed ['a']) 60 both (start 0).cache := rfl
  rw [hcache] at hentry
  obtain ⟨-, hold⟩ | ⟨k, v, -, rfl, hget, -⟩ :=
    insertAll_inserted (parsed ['a']) 60 both (start 0).cache s
  · rw [hold] at hentry
    cases hentry
  · have hsome : both.get k ≠ none := by
      rw [hget]
      exact Option.some_ne_none v
    have hk : k = ['a'] ∨ k = ['b'] := keys_eq rfl k hsome
    rw [parse_refStr hk, Option.some.injEq] at hparse
    subst hparse
    refine ⟨rfl, ?_⟩
    obtain rfl | rfl := hk
    · decide
    · decide

/-- Two fetches of a secret, the second one while the entries of the first one are served. -/
theorem snapshot_replaced :
    (fetchedBoth.call 60 replacing).Sourced ∧ (fetchedBoth.call 60 replacing).Snapshot :=
  snapshot_kept (.step (.step .refl covers_first rfl) covers_replacing rfl)

/-- Both keys are served, from two responses. -/
theorem snapshot_lost :
    (visits 60).Reaches Machine.anyMove (start 0) fetchedAgain ∧ ¬ fetchedAgain.Snapshot := by
  refine ⟨.step (.step .refl trivial rfl) trivial rfl, fun hsnapshot => ?_⟩
  have ha : fetchedAgain.Unexpired "vault:m/data/p#a".toList { value := ['2'], expiresAt := 60 } :=
    ⟨by decide, by decide⟩
  have hb : fetchedAgain.Unexpired "vault:m/data/p#b".toList { value := ['1'], expiresAt := 60 } :=
    ⟨by decide, by decide⟩
  have hparsed : parseVaultRef "vault:m/data/p#b".toList = some (parsed ['b']) := by decide
  have hsame := hsnapshot.same ha hb (r := parsed ['a']) (by decide) hparsed rfl
  revert hsame
  decide

end History

end EnvProxy.Vault
