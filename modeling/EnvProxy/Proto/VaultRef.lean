-- SUMMARY: Vault references: the parser of `vault:` values, what it accepts, and what its results look like.
import EnvProxy.Library.Text
import EnvProxy.Proto.Wire

/-!
# Vault references

`vault:<mount>/data/<path>#<key>`, with an optional `#<version>` at the end. The
`/data/` segment may be missing; then the first path segment is the mount.
-/

namespace EnvProxy

open Text

structure VaultRef where
  mount : Str
  path : Str
  key : Str
  version : Option Nat
  deriving DecidableEq, Repr

def dataSegment : Str := "/data/".toList

/-- Key and optional version: `KEY` or `KEY#3`. -/
def parseKey (afterHash : Str) : Option (Str × Option Nat) :=
  match splitFirst ['#'] afterHash with
  | some (k, v) => (parseU64 v).map fun n => (k, some n)
  | none => some (afterHash, none)

/-- Mount and path: around the first `/data/`, else around the first slash. -/
def parsePath (fullPath : Str) : Option (Str × Str) :=
  match splitFirst dataSegment fullPath with
  | some mp => some mp
  | none => splitFirst ['/'] fullPath

def parseVaultRef (value : Str) : Option VaultRef :=
  match stripPrefix vaultPrefix value with
  | none => none
  | some rest =>
    match splitFirst ['#'] rest with
    | none => none
    | some (fullPath, afterHash) =>
      if afterHash = [] then none
      else
        match parseKey afterHash, parsePath fullPath with
        | some (key, version), some (mount, path) =>
          if mount = [] ∨ path = [] ∨ key = [] then none
          else some { mount, path, key, version }
        | _, _ => none

/-! ## The parts -/

theorem parseKey_eq_some_iff {a k : Str} {v : Option Nat} :
    parseKey a = some (k, v) ↔ '#' ∉ k ∧
      ((a = k ∧ v = none) ∨ ∃ text n, a = k ++ '#' :: text ∧ parseU64 text = some n ∧ v = some n) := by
  simp only [parseKey]
  by_cases hmem : '#' ∈ a
  · obtain ⟨k', text, hsplit⟩ := splitFirst_singleton_isSome hmem
    obtain ⟨rfl, hk'⟩ := splitFirst_singleton hsplit
    simp only [hsplit, Option.map_eq_some_iff, Prod.mk.injEq]
    constructor
    · rintro ⟨n, hn, rfl, rfl⟩
      exact ⟨hk', .inr ⟨text, n, rfl, hn, rfl⟩⟩
    · rintro ⟨hk, ⟨rfl, -⟩ | ⟨text', n, heq, hn, rfl⟩⟩
      · exact absurd hmem hk
      · have hsplit' := splitFirst_singleton_append hk text'
        rw [← heq, hsplit] at hsplit'
        simp only [Option.some.injEq, Prod.mk.injEq] at hsplit'
        obtain ⟨rfl, rfl⟩ := hsplit'
        exact ⟨n, hn, rfl, rfl⟩
  · simp only [splitFirst_eq_none hmem, Option.some.injEq, Prod.mk.injEq]
    constructor
    · rintro ⟨rfl, rfl⟩
      exact ⟨hmem, .inl ⟨rfl, rfl⟩⟩
    · rintro ⟨-, ⟨rfl, rfl⟩ | ⟨text, n, rfl, -⟩⟩
      · exact ⟨rfl, rfl⟩
      · simp at hmem

theorem parsePath_eq_append {full m p : Str} (h : parsePath full = some (m, p)) :
    full = m ++ dataSegment ++ p ∨ full = m ++ '/' :: p := by
  simp only [parsePath] at h
  split at h
  · next mp hsplit =>
    cases h
    exact .inl (splitFirst_eq_append hsplit)
  · exact .inr (splitFirst_singleton h).1

/-- The mount and the path, written with a `/data/` segment, are split again in the
    same place. -/
theorem parsePath_canonical {full m p : Str} (h : parsePath full = some (m, p)) :
    parsePath (m ++ dataSegment ++ p) = some (m, p) := by
  have hparse := h
  simp only [parsePath] at h
  split at h
  · next mp hsplit =>
    cases h
    rw [← splitFirst_eq_append hsplit]
    exact hparse
  · -- Without a `/data/` the mount ends before the first slash, so it holds none.
    have hm := (splitFirst_singleton h).2
    have hsplit : splitFirst dataSegment (m ++ dataSegment ++ p) = some (m, p) :=
      splitFirst_append hm p
    rw [parsePath, hsplit]

/-! ## The whole reference -/

theorem parseVaultRef_eq_some_iff {s : Str} {r : VaultRef} :
    parseVaultRef s = some r ↔ ∃ full a, s = vaultPrefix ++ (full ++ '#' :: a) ∧ '#' ∉ full ∧
      parseKey a = some (r.key, r.version) ∧ parsePath full = some (r.mount, r.path) ∧
      r.mount ≠ [] ∧ r.path ≠ [] ∧ r.key ≠ [] := by
  constructor
  · intro h
    simp only [parseVaultRef] at h
    split at h
    · cases h
    · next rest hrest =>
      split at h
      · cases h
      · next full a hsplit =>
        split at h
        · cases h
        · split at h
          · next key version mount path hkey hpath =>
            split at h
            · cases h
            · next hne =>
              cases h
              simp only [not_or] at hne
              obtain ⟨rfl, hfull⟩ := splitFirst_singleton hsplit
              exact ⟨full, a, stripPrefix_eq_some_iff.mp hrest, hfull, hkey, hpath, hne⟩
          · cases h
  · rintro ⟨full, a, rfl, hfull, hkey, hpath, hne⟩
    have hsplit := splitFirst_singleton_append hfull a
    have ha : a ≠ [] := by
      rintro rfl
      rcases (parseKey_eq_some_iff.mp hkey).2 with ⟨h, -⟩ | ⟨text, n, h, -⟩
      · exact hne.2.2 h.symm
      · simp at h
    simp [parseVaultRef, hsplit, ha, hkey, hpath, hne]

/-- What holds of every parsed reference. -/
structure VaultRef.WellFormed (r : VaultRef) : Prop where
  mount_ne : r.mount ≠ []
  path_ne : r.path ≠ []
  key_ne : r.key ≠ []
  mount_hash : '#' ∉ r.mount
  path_hash : '#' ∉ r.path
  key_hash : '#' ∉ r.key
  version_lt : ∀ n, r.version = some n → n < UInt64.size
  split : parsePath (r.mount ++ dataSegment ++ r.path) = some (r.mount, r.path)

theorem parseVaultRef_wellFormed {s : Str} {r : VaultRef} (h : parseVaultRef s = some r) :
    r.WellFormed := by
  obtain ⟨full, a, -, hfull, hkey, hpath, hmount, hpathne, hkeyne⟩ := parseVaultRef_eq_some_iff.mp h
  have hparts : '#' ∉ r.mount ∧ '#' ∉ r.path := by
    rcases parsePath_eq_append hpath with rfl | rfl <;>
      exact ⟨fun hm => hfull (by simp [hm]), fun hp => hfull (by simp [hp])⟩
  obtain ⟨hhash, hversion⟩ := parseKey_eq_some_iff.mp hkey
  exact {
    mount_ne := hmount
    path_ne := hpathne
    key_ne := hkeyne
    mount_hash := hparts.1
    path_hash := hparts.2
    key_hash := hhash
    version_lt := by
      intro n hn
      rcases hversion with ⟨-, hv⟩ | ⟨text, m, -, hm, hv⟩
      · rw [hv] at hn; cases hn
      · rw [hv] at hn
        cases hn
        exact (parseU64_eq_some_iff.mp hm).2.2.2
    split := parsePath_canonical hpath }

end EnvProxy
