-- SUMMARY: The grammar of Vault references, and the canonical text of a reference.
import EnvProxy.Agent.Vault

/-!
# Grammar of references

`Reference` says in terms of occurrences alone which texts the parser accepts and what
it makes of them. The text a reference is cached under is one of them: it is read as
the same reference again, so it can serve as the name of the reference.
-/

namespace EnvProxy.Vault

open Text

/-- The path `full` splits into a mount and a path: at the first `/data/` if there is
    one, else at the first slash. -/
def PathParts (full mount path : Str) : Prop :=
  FirstMatch dataSegment full mount path ∨
    (¬ dataSegment <:+: full ∧ FirstMatch ['/'] full mount path)

/-- The reference of a text: `vault:`, a path, the key, and maybe a version. -/
inductive Reference : Str → VaultRef → Prop where
  | latest {full mount path key : Str} :
      '#' ∉ full → PathParts full mount path → mount ≠ [] → path ≠ [] → '#' ∉ key → key ≠ [] →
      Reference (vaultPrefix ++ full ++ '#' :: key) { mount, path, key, version := none }
  | versioned {full mount path key digits : Str} {version : Nat} :
      '#' ∉ full → PathParts full mount path → mount ≠ [] → path ≠ [] → '#' ∉ key → key ≠ [] →
      Numeral digits version → version < UInt64.size →
      Reference (vaultPrefix ++ full ++ '#' :: (key ++ '#' :: digits))
        { mount, path, key, version := some version }

theorem parsePath_eq_some_iff {full mount path : Str} :
    parsePath full = some (mount, path) ↔ PathParts full mount path := by
  simp only [parsePath, PathParts]
  cases hsplit : splitFirst dataSegment full with
  | some mp =>
    have hmatch : some mp = some (mount, path) ↔ FirstMatch dataSegment full mount path := by
      rw [← hsplit, splitFirst_eq_some_iff]
    have hoccurs : dataSegment <:+: full := by
      by_contra hnot
      rw [splitFirst_eq_none_iff.mpr hnot] at hsplit
      cases hsplit
    rw [hmatch]
    simp [hoccurs]
  | none =>
    have hnot := splitFirst_eq_none_iff.mp hsplit
    have hno : ¬ FirstMatch dataSegment full mount path :=
      fun h => hnot ⟨mount, path, h.1.symm⟩
    simp [hnot, hno, splitFirst_eq_some_iff]

/-- The parser accepts the texts of the grammar, as the references they denote. -/
theorem parseVaultRef_iff_reference {s : Str} {r : VaultRef} :
    parseVaultRef s = some r ↔ Reference s r := by
  rw [parseVaultRef_eq_some_iff]
  constructor
  · rintro ⟨full, after, rfl, hfull, hkey, hpath, hmount, hpathne, hkeyne⟩
    rw [parsePath_eq_some_iff] at hpath
    obtain ⟨mount, path, key, version⟩ := r
    obtain ⟨hhash, ⟨rfl, rfl⟩ | ⟨digits, n, rfl, hdigits, rfl⟩⟩ := parseKey_eq_some_iff.mp hkey
    · rw [← List.append_assoc]
      exact .latest hfull hpath hmount hpathne hhash hkeyne
    · rw [parseU64_iff_numeral] at hdigits
      rw [← List.append_assoc]
      exact .versioned hfull hpath hmount hpathne hhash hkeyne hdigits.1 hdigits.2
  · intro h
    cases h with
    | @latest full mount path key hfull hpath hmount hpathne hhash hkeyne =>
      refine ⟨full, key, List.append_assoc .., hfull, ?_, parsePath_eq_some_iff.mpr hpath, hmount,
        hpathne, hkeyne⟩
      exact parseKey_eq_some_iff.mpr ⟨hhash, .inl ⟨rfl, rfl⟩⟩
    | @versioned full mount path key digits version hfull hpath hmount hpathne hhash hkeyne hdigits hlt =>
      refine ⟨full, key ++ '#' :: digits, List.append_assoc .., hfull, ?_,
        parsePath_eq_some_iff.mpr hpath, hmount, hpathne, hkeyne⟩
      exact parseKey_eq_some_iff.mpr
        ⟨hhash, .inr ⟨digits, version, rfl, parseU64_iff_numeral.mpr ⟨hdigits, hlt⟩, rfl⟩⟩

/-- The canonical text of a reference, as the backend renders it for the cache. -/
def canonical (r : VaultRef) : Str := refStr r r.key

theorem parseVaultRef_canonical {s : Str} {r : VaultRef} (h : parseVaultRef s = some r) :
    parseVaultRef (canonical r) = some r :=
  parseVaultRef_refStr_key (parseVaultRef_wellFormed h)

/-- References are the texts of the grammar, and the canonical text stands for the
    reference: it is accepted as the same reference, and no two share it. -/
theorem reference_grammar :
    (∀ s, (parseVaultRef s).isSome ↔ ∃ r, Reference s r) ∧
    (∀ s r, parseVaultRef s = some r →
      Reference s r ∧ parseVaultRef (canonical r) = some r ∧
        (parseVaultRef (canonical r)).map canonical = some (canonical r)) ∧
    ∀ s s' r r', parseVaultRef s = some r → parseVaultRef s' = some r' →
      (canonical r = canonical r' ↔ r = r') := by
  refine ⟨fun s => ?_, fun s r h => ?_, fun s s' r r' h h' => ?_⟩
  · rw [Option.isSome_iff_exists]
    exact exists_congr fun r => parseVaultRef_iff_reference
  · have hcanonical := parseVaultRef_canonical h
    refine ⟨parseVaultRef_iff_reference.mp h, hcanonical, ?_⟩
    rw [hcanonical, Option.map_some]
  · constructor
    · intro heq
      have hcanonical := parseVaultRef_canonical h
      rw [heq, parseVaultRef_canonical h'] at hcanonical
      exact (Option.some.inj hcanonical).symm
    · intro heq
      rw [heq]

end EnvProxy.Vault
