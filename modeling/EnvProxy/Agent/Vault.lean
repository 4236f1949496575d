-- SUMMARY: The Vault backend: secrets, cache keys, the cache, and one call of `resolve_with_value`.
import EnvProxy.Agent.Backend
import EnvProxy.Proto.VaultRef

/-!
# Vault backend

`resolveWithValue` parses the reference, checks the cache under the text of the
reference, reads the secret from Vault, and caches every key of the secret under a
text rebuilt from the parsed parts. `parseVaultRef_refStr` says what such a text is
when it is read back as a reference.
-/

namespace EnvProxy.Vault

open Text

/-- The data of one secret, in some order of its keys. -/
structure Secret where
  entries : List (Str × Str)
  nodup : (entries.map Prod.fst).Nodup

def Secret.get (secret : Secret) (k : Str) : Option Str :=
  (secret.entries.find? fun e => e.1 = k).map Prod.snd

theorem Secret.get_eq_some_iff {secret : Secret} {k v : Str} :
    secret.get k = some v ↔ (k, v) ∈ secret.entries := by
  obtain ⟨entries, hnodup⟩ := secret
  simp only [get]
  induction entries with
  | nil => simp
  | cons e es ih =>
    obtain ⟨k', v'⟩ := e
    simp only [List.map_cons, List.nodup_cons] at hnodup
    by_cases hk : k' = k
    · subst hk
      have hnot : (k', v) ∉ es := fun h => hnodup.1 (List.mem_map_of_mem (f := Prod.fst) h)
      simp [List.find?, hnot, eq_comm]
    · simpa [List.find?, hk, Ne.symm hk] using ih hnodup.2

/-! ## Cache keys -/

/-- The text a key of the secret is cached under. -/
def refStr (r : VaultRef) (k : Str) : Str :=
  match r.version with
  | some version => vaultPrefix ++ r.mount ++ dataSegment ++ r.path ++ ['#'] ++ k ++ ['#'] ++ decimal version
  | none => vaultPrefix ++ r.mount ++ dataSegment ++ r.path ++ ['#'] ++ k

theorem refStr_injective {r : VaultRef} {k k' : Str} (h : refStr r k = refStr r k') : k = k' := by
  simp only [refStr] at h
  split at h
  · exact List.append_cancel_left (List.append_cancel_right (List.append_cancel_right h))
  · exact List.append_cancel_left h

/-- A key name that reads as a key with a version behind it. -/
def readsAsVersion (k : Str) : Bool :=
  match parseKey k with
  | some (key, some _) => key ≠ []
  | _ => false

/-- The text behind the mount and the path. -/
def afterHash (r : VaultRef) (k : Str) : Str :=
  match r.version with
  | some version => k ++ '#' :: decimal version
  | none => k

theorem refStr_eq (r : VaultRef) (k : Str) :
    refStr r k = vaultPrefix ++ (r.mount ++ dataSegment ++ r.path ++ '#' :: afterHash r k) := by
  simp only [refStr, afterHash]
  split <;> simp

/-- What follows the path reads as the key name and the version, unless the key name
    alone reads as a version. -/
theorem parseKey_afterHash {r : VaultRef} (h : r.WellFormed) {k key : Str} {version : Option Nat}
    (hkey : parseKey (afterHash r k) = some (key, version)) (hne : key ≠ []) :
    (key = k ∧ version = r.version) ∨
      (r.version = none ∧ version ≠ none ∧ readsAsVersion k = true) := by
  cases hversion : r.version with
  | none =>
    simp only [afterHash, hversion] at hkey
    cases version with
    | none =>
      have hcases := (parseKey_eq_some_iff.mp hkey).2
      simp only [and_true, reduceCtorEq, and_false, exists_false, or_false] at hcases
      exact .inl ⟨hcases.symm, rfl⟩
    | some n => exact .inr ⟨rfl, by simp, by simp [readsAsVersion, hkey, hne]⟩
  | some n =>
    simp only [afterHash, hversion] at hkey
    obtain ⟨hhash, hcases⟩ := parseKey_eq_some_iff.mp hkey
    cases hcases with
    | inl hwhole =>
      have hmem : '#' ∈ k ++ '#' :: decimal n := List.mem_append_right k (List.mem_cons_self ..)
      exact absurd (hwhole.1 ▸ hmem) hhash
    | inr hsplit =>
      obtain ⟨text, m, heq, hm, rfl⟩ := hsplit
      have htext : '#' ∉ text := not_mem_of_parseU64 hm (by decide) (by decide)
      obtain ⟨rfl, -, rfl⟩ := (List.append_cons_inj_of_notMem hhash htext).mp heq.symm
      rw [parseU64_decimal (h.version_lt n hversion)] at hm
      exact .inl ⟨rfl, hm.symm⟩

/-- A cache key that reads as a reference names the mount and the path it was built
    from, and the key and the version, unless the key name reads as a version. -/
theorem parseVaultRef_refStr {r r' : VaultRef} (h : r.WellFormed) {k : Str}
    (hparse : parseVaultRef (refStr r k) = some r') :
    r'.mount = r.mount ∧ r'.path = r.path ∧
      ((r'.key = k ∧ r'.version = r.version) ∨
        (r.version = none ∧ r'.version ≠ none ∧ readsAsVersion k = true)) := by
  rw [refStr_eq, parseVaultRef_eq_some_iff] at hparse
  obtain ⟨full, a, heq, hfull, hkey, hpath, -, -, hne⟩ := hparse
  have hhash : '#' ∉ r.mount ++ dataSegment ++ r.path := by
    simp only [List.mem_append, not_or]
    exact ⟨⟨h.mount_hash, by decide⟩, h.path_hash⟩
  have hsplit := splitFirst_singleton_append hhash (afterHash r k)
  rw [List.append_cancel_left heq, splitFirst_singleton_append hfull a] at hsplit
  simp only [Option.some.injEq, Prod.mk.injEq] at hsplit
  obtain ⟨rfl, rfl⟩ := hsplit
  have hparts : (r'.mount, r'.path) = (r.mount, r.path) := Option.some.inj (hpath.symm.trans h.split)
  simp only [Prod.mk.injEq] at hparts
  exact ⟨hparts.1, hparts.2, parseKey_afterHash h hkey hne⟩

/-- A cache key that reads as an unversioned reference was built for an unversioned
    read of the same secret, from the key name it names. -/
theorem refStr_unversioned {s : Str} {r r' : VaultRef} (hs : parseVaultRef s = some r')
    (hversion : r'.version = none) (h : r.WellFormed) {k : Str} (heq : refStr r k = s) :
    r.version = none ∧ r.mount = r'.mount ∧ r.path = r'.path ∧ k = r'.key := by
  subst heq
  obtain ⟨hmount, hpath, hrest⟩ := parseVaultRef_refStr h hs
  cases hrest with
  | inl hsame => exact ⟨hsame.2 ▸ hversion, hmount.symm, hpath.symm, hsame.1.symm⟩
  | inr hreads => exact absurd hversion hreads.2.1

theorem parseKey_afterHash_key {r : VaultRef} (h : r.WellFormed) :
    parseKey (afterHash r r.key) = some (r.key, r.version) := by
  rw [parseKey_eq_some_iff]
  refine ⟨h.key_hash, ?_⟩
  cases hversion : r.version with
  | none => exact .inl ⟨by simp only [afterHash, hversion], rfl⟩
  | some n =>
    refine .inr ⟨decimal n, n, ?_, parseU64_decimal (h.version_lt n hversion), rfl⟩
    simp only [afterHash, hversion]

/-- The text a reference is cached under reads as the reference. -/
theorem parseVaultRef_refStr_key {r : VaultRef} (h : r.WellFormed) :
    parseVaultRef (refStr r r.key) = some r := by
  rw [refStr_eq, parseVaultRef_eq_some_iff]
  refine ⟨_, _, rfl, ?_, parseKey_afterHash_key h, h.split, h.mount_ne, h.path_ne, h.key_ne⟩
  simp only [List.mem_append, not_or]
  exact ⟨⟨h.mount_hash, by decide⟩, h.path_hash⟩

/-! ## The cache -/

structure CacheEntry where
  value : Str
  expiresAt : Nat
  deriving DecidableEq, Repr

abbrev Cache := Str → Option CacheEntry

/-- The cached value of a text that has not expired. -/
def checkCache (cache : Cache) (now : Nat) (s : Str) : Option Str :=
  match cache s with
  | some entry => if entry.expiresAt > now then some entry.value else none
  | none => none

/-- Cache all keys of a secret. -/
def insertAll (r : VaultRef) (expiresAt : Nat) (secret : Secret) (cache : Cache) : Cache :=
  secret.entries.foldl
    (fun cache e => Function.update cache (refStr r e.1) (some { value := e.2, expiresAt })) cache

theorem insertAll_apply (r : VaultRef) (expiresAt : Nat) (secret : Secret) (cache : Cache) (s : Str) :
    insertAll r expiresAt secret cache s =
      match secret.entries.find? fun e => refStr r e.1 = s with
      | some e => some { value := e.2, expiresAt }
      | none => cache s := by
  obtain ⟨entries, hnodup⟩ := secret
  simp only [insertAll]
  induction entries generalizing cache with
  | nil => rfl
  | cons e es ih =>
    simp only [List.map_cons, List.nodup_cons] at hnodup
    rw [List.foldl_cons, ih _ hnodup.2]
    by_cases he : refStr r e.1 = s
    · have hnone : (es.find? fun e => decide (refStr r e.1 = s)) = none := by
        rw [List.find?_eq_none]
        intro e' he' hsame
        have hkey := refStr_injective ((of_decide_eq_true hsame).trans he.symm)
        exact hnodup.1 (hkey ▸ List.mem_map_of_mem he')
      subst he
      simp [hnone]
    · simp [List.find?, he, Function.update_of_ne (Ne.symm he)]

/-- Every key of the secret is cached. -/
theorem insertAll_refStr (r : VaultRef) (expiresAt : Nat) (secret : Secret) (cache : Cache) (k : Str) :
    insertAll r expiresAt secret cache (refStr r k) =
      match secret.get k with
      | some v => some { value := v, expiresAt }
      | none => cache (refStr r k) := by
  have hfind : (secret.entries.find? fun e => decide (refStr r e.1 = refStr r k)) =
      secret.entries.find? fun e => decide (e.1 = k) := by
    congr
    funext e
    exact decide_eq_decide.mpr ⟨refStr_injective, fun h => h ▸ rfl⟩
  rw [insertAll_apply, hfind, Secret.get]
  cases secret.entries.find? fun e => decide (e.1 = k) with
  | none => rfl
  | some e => rfl

/-- Nothing else is touched. -/
theorem insertAll_other {r : VaultRef} {s : Str} (h : ∀ k, refStr r k ≠ s) (expiresAt : Nat)
    (secret : Secret) (cache : Cache) : insertAll r expiresAt secret cache s = cache s := by
  have hnone : (secret.entries.find? fun e => decide (refStr r e.1 = s)) = none := by
    rw [List.find?_eq_none]
    intro e _ hsame
    exact h e.1 (of_decide_eq_true hsame)
  rw [insertAll_apply, hnone]

/-! ## One call -/

/-- `Instant`s are nanoseconds here; the platform counts their seconds in a signed
    64-bit integer. -/
def maxInstant : Nat := 9223372036854775808 * 1000000000

/-- `Instant::now() + cache_ttl`, which panics on overflow. -/
def deadline (now ttl : Nat) : Option Nat :=
  if now + ttl < maxInstant then some (now + ttl) else none

def invalidReference (value : Str) : BackendError :=
  .parse ("invalid vault reference: ".toList ++ value)

def vaultRead (msg : Str) : BackendError := .http ("vault read: ".toList ++ msg)

/-- What Vault answers to a read of a mount and a path, at a version or the latest. -/
abbrev Reader := Str → Str → Option Nat → Except Str Secret

/-- `resolve_with_value`: the result, if the call does not panic, and the cache it
    leaves. The clock shows `now` at the check and `later` at the insertion. -/
def resolveWithValue (ttl : Nat) (read : Reader) (now later : Nat) (value : Str) (cache : Cache) :
    Option ResolveResult × Cache :=
  match parseVaultRef value with
  | none => (some (.error (invalidReference value)), cache)
  | some r =>
    match checkCache cache now value with
    | some v => (some (.ok (some v)), cache)
    | none =>
      match read r.mount r.path r.version with
      | .error msg => (some (.error (vaultRead msg)), cache)
      | .ok secret =>
        match deadline later ttl with
        | none => (none, cache)
        | some expiresAt =>
          (some (.ok (secret.get r.key)), insertAll r expiresAt secret cache)

/-- A key alone resolves to nothing. -/
def resolve (_key : Str) : ResolveResult := .ok none

end EnvProxy.Vault
