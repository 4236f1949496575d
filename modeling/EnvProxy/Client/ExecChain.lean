-- SUMMARY: The constructor along a chain of executed programs: what the seeded variables grow to.
import EnvProxy.Client.Constructor
import Mathlib.Logic.Function.Iterate

/-!
# Exec chains

A process hands the block its constructor left to the programs it executes, and their
constructors seed it once more. `chain` is the block of each process in turn; `Stable` says
that only the first of them changes a variable.
-/

namespace EnvProxy.Libenvproxy

/-! ## An agent without the seeded variables -/

/-- The agent has no value for the variable, whatever it was asked before. -/
def Undefines (o : Oracle Unit) (name : CStr) : Prop :=
  ∀ before path current frame, encode name.bytes current = some frame →
    (o.reply (before ++ [⟨path, frame⟩])).found = none

theorem getenv_undefined {o : Oracle Unit} {name : CStr} (h : Undefines o name) (env : Environ)
    (statics : Statics) (t : Trace) :
    (((getenv o.world env name).run statics).run t).1.1 = env.get name.bytes := by
  by_cases hname : name.startsWith configPrefix
  · rw [getenv_run_config o.world env statics hname]
    rfl
  · cases hen : statics.enabledIn env with
    | false =>
      rw [getenv_run_disabled o.world env hname hen]
      rfl
    | true =>
      rw [getenv_run_enabled o.world env hname hen]
      cases hframe : encode name.bytes (currentValue (env.get name.bytes)) with
      | none => rfl
      | some frame =>
        change (received (o.reply _)).or (env.get name.bytes) = env.get name.bytes
        rw [received_eq, h _ _ _ _ hframe]
        rfl

/-- A hook then seeds the value its target has. -/
theorem setupHook_undefined {o : Oracle Unit} {h : Hook} (hundefined : Undefines o h.target)
    (fs : FileLayout) (env : Environ) (statics : Statics) (t : Trace) :
    (((setupHook o.world fs h env).run statics).run t).1.1 =
      h.seeded fs env (env.get h.target.bytes) := by
  rw [setupHook_run]
  cases hfound : h.found fs env with
  | none =>
    unfold Hook.seeded
    rw [hfound]
    rfl
  | some path =>
    change h.seeded fs env (((getenv o.world env h.target).run statics).run t).1.1 = _
    rw [getenv_undefined hundefined]

/-! ## One process -/

namespace Hook

theorem found_congr (fs : FileLayout) {env env' : Environ} (h : Hook)
    (hconfig : ∀ name : CStr, name.startsWith configPrefix → env'.get name.bytes = env.get name.bytes) :
    h.found fs env' = h.found fs env := by
  unfold found
  rw [hconfig _ h.optOut_config, hconfig _ h.overrideKey_config]

theorem seeded_get_config (fs : FileLayout) (env : Environ) (h : Hook) (value : Option CStr)
    {name : CStr} (hname : name.startsWith configPrefix) :
    (h.seeded fs env value).get name.bytes = env.get name.bytes := by
  apply h.seeded_get_ne fs env value
  intro heq
  rw [CStr.ext heq] at hname
  exact h.target_not_config hname

/-- What the hook leaves in its target. -/
def left (fs : FileLayout) (env : Environ) (h : Hook) : Option CStr :=
  match h.found fs env with
  | none => env.get h.target.bytes
  | some path => some (h.seed path ((env.get h.target.bytes).filter isUtf8))

theorem seeded_get_target (fs : FileLayout) (env : Environ) (h : Hook) :
    (h.seeded fs env (env.get h.target.bytes)).get h.target.bytes = h.left fs env := by
  unfold left
  cases hfound : h.found fs env with
  | none =>
    unfold seeded
    rw [hfound]
  | some path => exact seeded_get_self hfound _

end Hook

/-- The two hooks do not get into each other's way. -/
theorem constructed_undefined {o : Oracle Unit} (hundefined : ∀ h : Hook, Undefines o h.target)
    (fs : FileLayout) (env : Environ) :
    constructed fs env o =
      Hook.java.seeded fs (afterPython fs env) (env.get Hook.java.target.bytes) := by
  obtain ⟨⟨⟨env', statics⟩, t⟩, hrun⟩ :
      ∃ r, ((setupPythonHook o.world fs env).run .new).run .start = r := ⟨_, rfl⟩
  have hpython : env' = afterPython fs env := by
    have h := setupHook_undefined (hundefined .python) fs env .new .start
    rw [← setupPythonHook, hrun] at h
    exact h
  have hkept : (afterPython fs env).get Hook.java.target.bytes = env.get Hook.java.target.bytes :=
    Hook.python.seeded_get_ne fs env _ (by decide)
  rw [constructed_of_python hrun, setupJavaHook, setupHook_undefined (hundefined .java), hpython,
    hkept]

theorem constructed_get_config {o : Oracle Unit} (hundefined : ∀ h : Hook, Undefines o h.target)
    (fs : FileLayout) (env : Environ) {name : CStr} (hname : name.startsWith configPrefix) :
    (constructed fs env o).get name.bytes = env.get name.bytes := by
  rw [constructed_undefined hundefined, Hook.seeded_get_config _ _ _ _ hname, afterPython,
    Hook.seeded_get_config _ _ _ _ hname]

theorem constructed_get_target {o : Oracle Unit} (hundefined : ∀ h : Hook, Undefines o h.target)
    (fs : FileLayout) (env : Environ) (h : Hook) :
    (constructed fs env o).get h.target.bytes = h.left fs env := by
  rw [constructed_undefined hundefined]
  cases h with
  | python =>
    rw [Hook.java.seeded_get_ne fs _ _ (by decide), afterPython]
    exact Hook.python.seeded_get_target fs env
  | java =>
    have hfound : Hook.java.found fs (afterPython fs env) = Hook.java.found fs env :=
      Hook.java.found_congr fs fun _ hname => Hook.seeded_get_config _ _ _ _ hname
    have hkept : (afterPython fs env).get Hook.java.target.bytes = env.get Hook.java.target.bytes :=
      Hook.python.seeded_get_ne fs env _ (by decide)
    rw [← hkept, Hook.seeded_get_target, Hook.left, Hook.left, hfound, hkept]

/-! ## Entries -/

namespace Hook

/-- What stands between two entries of the target. -/
def separator : Hook → UInt8
  | .python => 58
  | .java   => 32

/-- The entries of a value; an empty value has none. -/
def entries (h : Hook) (value : Option CStr) : List Bytes :=
  match value with
  | none => []
  | some v => if v.bytes = [] then [] else v.bytes.splitOn h.separator

/-- The entries that the hook is to add. -/
def additions (path : CStr) : Hook → List Bytes
  | .python => [path.bytes]
  | .java   => [(CStr.lit "--add-opens=java.base/java.lang=ALL-UNNAMED").bytes,
      (CStr.lit "-javaagent:").bytes ++ path.bytes]

/-- It adds them in front or behind. -/
def extend (added : List Bytes) : Hook → List Bytes → List Bytes
  | .python, old => added ++ old
  | .java, old   => old ++ added

theorem entries_of_ne_nil (h : Hook) {v : CStr} (hne : v.bytes ≠ []) :
    h.entries (some v) = v.bytes.splitOn h.separator := if_neg hne

theorem seed_empty (path : CStr) (h : Hook) {v : CStr} (hv : v.bytes = []) :
    h.seed path (some v) = h.seed path none := by
  have hfilter : (some v).filter (fun e => !e.bytes.isEmpty) = none := by
    simp only [Option.filter, hv, List.isEmpty_nil, Bool.not_true, Bool.false_eq_true, if_false]
  cases h <;> simp only [seed, hfilter, Option.filter_none]

/-- Entries are added to what is there. -/
theorem seed_bytes (path : CStr) (h : Hook) {v : CStr} (hv : v.bytes ≠ []) :
    (h.seed path (some v)).bytes =
      match h with
      | .python => path.bytes ++ h.separator :: v.bytes
      | .java => v.bytes ++ h.separator :: (h.seed path none).bytes := by
  have hfilter : (some v).filter (fun e => !e.bytes.isEmpty) = some v := by
    have hne : v.bytes.isEmpty = false := List.isEmpty_eq_false_iff.mpr hv
    simp only [Option.filter, hne, Bool.not_false, if_true]
  cases h with
  | python =>
    simp only [seed, hfilter]
    exact List.append_assoc path.bytes [58] v.bytes
  | java =>
    simp only [seed, hfilter]
    exact List.append_assoc v.bytes [32] _

theorem agentOpts_bytes :
    (CStr.lit "--add-opens=java.base/java.lang=ALL-UNNAMED -javaagent:").bytes =
      (CStr.lit "--add-opens=java.base/java.lang=ALL-UNNAMED").bytes ++
        Hook.java.separator :: (CStr.lit "-javaagent:").bytes := by
  decide

theorem java_seed_none_bytes (path : CStr) :
    (Hook.java.seed path none).bytes =
      (CStr.lit "--add-opens=java.base/java.lang=ALL-UNNAMED").bytes ++
        Hook.java.separator :: ((CStr.lit "-javaagent:").bytes ++ path.bytes) := by
  rw [← List.cons_append, ← List.append_assoc, ← agentOpts_bytes, ← CStr.bytes_append]
  simp only [seed, Option.filter_none]

theorem seed_none_ne_nil {path : CStr} (hne : path.bytes ≠ []) (h : Hook) :
    (h.seed path none).bytes ≠ [] := by
  cases h with
  | python => exact hne
  | java =>
    rw [java_seed_none_bytes]
    exact List.append_ne_nil_of_right_ne_nil _ (List.cons_ne_nil _ _)

theorem extend_nil (added : List Bytes) (h : Hook) : h.extend added [] = added := by
  cases h with
  | python => exact List.append_nil added
  | java => exact List.nil_append added

theorem entries_seed_none {path : CStr} {h : Hook} (hne : path.bytes ≠ [])
    (hseparator : h.separator ∉ path.bytes) :
    h.entries (some (h.seed path none)) = h.additions path := by
  rw [entries_of_ne_nil h (seed_none_ne_nil hne h)]
  cases h with
  | python => exact List.splitOn_eq_singleton hseparator
  | java =>
    have hoption : Hook.java.separator ∉ (CStr.lit "-javaagent:").bytes ++ path.bytes := by
      intro hmem
      rcases List.mem_append.mp hmem with hmem | hmem
      · exact absurd hmem (by decide)
      · exact hseparator hmem
    rw [java_seed_none_bytes, List.splitOn_append_cons_self, List.splitOn_eq_singleton (by decide),
      List.splitOn_eq_singleton hoption]
    rfl

theorem entries_seed {path : CStr} {h : Hook} (hne : path.bytes ≠ [])
    (hseparator : h.separator ∉ path.bytes) (value : Option CStr) :
    h.entries (some (h.seed path value)) = h.extend (h.additions path) (h.entries value) := by
  have hnone := entries_seed_none hne hseparator
  cases value with
  | none => rw [hnone, entries, extend_nil]
  | some v =>
    by_cases hv : v.bytes = []
    · rw [seed_empty path h hv, hnone, entries, if_pos hv, extend_nil]
    · have hbytes := seed_bytes path h hv
      have hseeded : (h.seed path (some v)).bytes ≠ [] := by
        rw [hbytes]
        cases h <;> exact List.append_ne_nil_of_right_ne_nil _ (List.cons_ne_nil _ _)
      rw [entries_of_ne_nil h hseeded, entries_of_ne_nil h hv, hbytes]
      cases h with
      | python =>
        rw [List.splitOn_append_cons_self, List.splitOn_eq_singleton hseparator]
        rfl
      | java =>
        rw [List.splitOn_append_cons_self, ← hnone,
          entries_of_ne_nil Hook.java (seed_none_ne_nil hne .java)]
        rfl

theorem exists_mem_additions (path : CStr) (h : Hook) : ∃ e, e ∈ h.additions path := by
  cases h with
  | python => exact ⟨_, .head _⟩
  | java => exact ⟨_, .head _⟩

theorem count_extend (added old : List Bytes) (h : Hook) (e : Bytes) :
    (h.extend added old).count e = added.count e + old.count e := by
  cases h with
  | python => exact List.count_append
  | java => exact List.count_append.trans (Nat.add_comm _ _)

theorem sublist_extend (added old : List Bytes) (h : Hook) : old.Sublist (h.extend added old) := by
  cases h with
  | python => exact List.sublist_append_right added old
  | java => exact List.sublist_append_left old added

/-- Seeding a value that is not empty makes it longer. -/
theorem length_lt_seed (path : CStr) (h : Hook) {v : CStr} (hv : v.bytes ≠ []) :
    v.bytes.length < (h.seed path (some v)).bytes.length := by
  rw [seed_bytes path h hv]
  cases h with
  | python =>
    rw [List.length_append, List.length_cons]
    omega
  | java =>
    rw [List.length_append, List.length_cons]
    omega

end Hook

/-! ## Text stays text -/

theorem isUtf8_append {a b : CStr} (ha : isUtf8 a) (hb : isUtf8 b) : isUtf8 (a ++ b) := by
  obtain ⟨cs, hcs⟩ := Utf8.decode?_isSome_iff.mp ha
  obtain ⟨ds, hds⟩ := Utf8.decode?_isSome_iff.mp hb
  refine Utf8.decode?_isSome_iff.mpr ⟨cs ++ ds, ?_⟩
  rw [Utf8.encode_append, ← hcs, ← hds]
  rfl

theorem isUtf8_lit (s : String) (h : (0 : UInt8) ∉ Utf8.encode s.toList) : isUtf8 (.lit s h) :=
  Utf8.decode?_isSome_iff.mpr ⟨s.toList, rfl⟩

theorem isUtf8_of_filter {value : Option CStr} {v : CStr} (h : value.filter isUtf8 = some v) :
    isUtf8 v := (Option.filter_eq_some_iff.mp h).2

theorem isUtf8_join {dir path : CStr} (hdir : isUtf8 dir) (hpath : isUtf8 path) :
    isUtf8 (join dir path) := by
  unfold join
  split
  · exact hpath
  · split
    · exact isUtf8_append hdir hpath
    · exact isUtf8_append (isUtf8_append hdir (isUtf8_lit ..)) hpath

theorem isUtf8_searchDir {fs : FileLayout} {subdir marker path : CStr} {value : Option CStr}
    (h : searchDir fs subdir marker (value.filter isUtf8) = some path) : isUtf8 path := by
  unfold searchDir at h
  split at h
  · next override hoverride =>
    cases h
    exact isUtf8_of_filter (Option.filter_eq_some_iff.mp hoverride).1
  · simp only [Option.bind_eq_bind, Option.bind_eq_some_iff] at h
    obtain ⟨soDir, -, candidate, -, hpath⟩ := h
    exact isUtf8_of_filter hpath

namespace Hook

theorem isUtf8_found {fs : FileLayout} {env : Environ} {h : Hook} {path : CStr}
    (hfound : h.found fs env = some path) : isUtf8 path := by
  unfold found at hfound
  split at hfound
  · cases hfound
  · cases h with
    | python => exact isUtf8_searchDir hfound
    | java =>
      simp only [search, searchFile, Option.bind_eq_bind, Option.bind_eq_some_iff] at hfound
      obtain ⟨dir, hdir, hpath⟩ := hfound
      split at hpath
      · cases hpath
        exact isUtf8_join (isUtf8_searchDir hdir) (isUtf8_lit ..)
      · cases hpath

theorem isUtf8_seed {path : CStr} (hpath : isUtf8 path) (h : Hook) {value : Option CStr}
    (hvalue : ∀ v, value = some v → isUtf8 v) : isUtf8 (h.seed path value) := by
  have hfilter : ∀ v, value.filter (fun e => !e.bytes.isEmpty) = some v → isUtf8 v :=
    fun v hv => hvalue v (Option.filter_eq_some_iff.mp hv).1
  cases h with
  | python =>
    simp only [seed]
    split
    · next v hv => exact isUtf8_append (isUtf8_append hpath (isUtf8_lit ..)) (hfilter v hv)
    · exact hpath
  | java =>
    have hopts := isUtf8_append (isUtf8_lit
      "--add-opens=java.base/java.lang=ALL-UNNAMED -javaagent:" (by decide)) hpath
    simp only [seed]
    split
    · next v hv => exact isUtf8_append (isUtf8_append (hfilter v hv) (isUtf8_lit ..)) hopts
    · exact hopts

end Hook

/-! ## A chain of processes -/

/-- The block of the `n`th process of the chain, each with an agent of its own; the first
    one is started with `env`. -/
def chain (fs : FileLayout) (env : Environ) (o : Nat → Oracle Unit) : Nat → Environ
  | 0 => env
  | n + 1 => constructed fs (chain fs env o n) (o n)

section

variable {fs : FileLayout} {env : Environ} {o : Nat → Oracle Unit}
  (hundefined : ∀ n (h : Hook), Undefines (o n) h.target)

include hundefined

/-- Every process of the chain finds what the first one finds. -/
theorem found_chain (h : Hook) (n : Nat) : h.found fs (chain fs env o n) = h.found fs env := by
  induction n with
  | zero => rfl
  | succ n ih =>
    rw [← ih]
    exact h.found_congr fs fun _ hname => constructed_get_config (hundefined n) fs _ hname

/-- What the next process does to a variable. -/
theorem chain_get_succ (h : Hook) (n : Nat) :
    (chain fs env o (n + 1)).get h.target.bytes =
      match h.found fs env with
      | none => (chain fs env o n).get h.target.bytes
      | some path =>
        some (h.seed path (((chain fs env o n).get h.target.bytes).filter isUtf8)) := by
  rw [← found_chain hundefined h n]
  exact constructed_get_target (hundefined n) fs _ h

theorem chain_get_of_not_found {h : Hook} (hfound : h.found fs env = none) (n : Nat) :
    (chain fs env o n).get h.target.bytes = env.get h.target.bytes := by
  induction n with
  | zero => rfl
  | succ n ih => rw [chain_get_succ hundefined, hfound, ih]

/-- The second process of a chain reads what the first has written. -/
theorem chain_get_seeded {h : Hook} {path : CStr} (hfound : h.found fs env = some path) (n : Nat) :
    ∃ v, (chain fs env o (n + 1)).get h.target.bytes = some v ∧
      (chain fs env o (n + 2)).get h.target.bytes = some (h.seed path (some v)) := by
  have hpath := Hook.isUtf8_found hfound
  refine ⟨_, by rw [chain_get_succ hundefined, hfound], ?_⟩
  have hread : ∀ v, ((chain fs env o n).get h.target.bytes).filter isUtf8 = some v → isUtf8 v :=
    fun _ => isUtf8_of_filter
  have hseed := Hook.isUtf8_seed hpath h hread
  rw [chain_get_succ hundefined, hfound, chain_get_succ hundefined, hfound]
  exact congrArg (fun v => some (h.seed path v)) (Option.filter_eq_some_iff.mpr ⟨rfl, hseed⟩)

/-- A variable that is text stays text. -/
theorem isUtf8_chain {h : Hook} (htext : ∀ v, env.get h.target.bytes = some v → isUtf8 v) (n : Nat) :
    ∀ v, (chain fs env o n).get h.target.bytes = some v → isUtf8 v := by
  induction n with
  | zero => exact htext
  | succ n ih =>
    intro v hv
    rw [chain_get_succ hundefined] at hv
    cases hfound : h.found fs env with
    | none =>
      rw [hfound] at hv
      exact ih v hv
    | some path =>
      rw [hfound] at hv
      cases hv
      exact Hook.isUtf8_seed (Hook.isUtf8_found hfound) h fun _ hv => isUtf8_of_filter hv

/-- Every process adds the entries once more. -/
theorem chain_entries {h : Hook} {path : CStr} (hfound : h.found fs env = some path)
    (hne : path.bytes ≠ []) (hseparator : h.separator ∉ path.bytes)
    (htext : ∀ v, env.get h.target.bytes = some v → isUtf8 v) (n : Nat) :
    h.entries ((chain fs env o n).get h.target.bytes) =
      (h.extend (h.additions path))^[n] (h.entries (env.get h.target.bytes)) := by
  induction n with
  | zero => rfl
  | succ n ih =>
    have hkept : ((chain fs env o n).get h.target.bytes).filter isUtf8 =
        (chain fs env o n).get h.target.bytes := by
      cases hget : (chain fs env o n).get h.target.bytes with
      | none => rfl
      | some v => exact Option.filter_eq_some_iff.mpr ⟨rfl, isUtf8_chain hundefined htext n v hget⟩
    rw [Function.iterate_succ_apply', ← ih, chain_get_succ hundefined, hfound]
    dsimp only
    rw [hkept, Hook.entries_seed hne hseparator]

/-- The user's entries stay, in their order. -/
theorem chain_kept {h : Hook} {path : CStr} (hfound : h.found fs env = some path)
    (hne : path.bytes ≠ []) (hseparator : h.separator ∉ path.bytes)
    (htext : ∀ v, env.get h.target.bytes = some v → isUtf8 v) (n : Nat) :
    (h.entries (env.get h.target.bytes)).Sublist
      (h.entries ((chain fs env o n).get h.target.bytes)) := by
  rw [chain_entries hundefined hfound hne hseparator htext]
  induction n with
  | zero => exact List.Sublist.refl _
  | succ n ih =>
    rw [Function.iterate_succ_apply']
    exact ih.trans (h.sublist_extend _ _)

/-- An entry of the hook's own stands in the variable once for each process. -/
theorem chain_count {h : Hook} {path : CStr} (hfound : h.found fs env = some path)
    (hne : path.bytes ≠ []) (hseparator : h.separator ∉ path.bytes)
    (htext : ∀ v, env.get h.target.bytes = some v → isUtf8 v) (n : Nat) (e : Bytes) :
    (h.entries ((chain fs env o n).get h.target.bytes)).count e =
      n * (h.additions path).count e + (h.entries (env.get h.target.bytes)).count e := by
  rw [chain_entries hundefined hfound hne hseparator htext]
  induction n with
  | zero => rw [Nat.zero_mul, Nat.zero_add]; rfl
  | succ n ih =>
    rw [Function.iterate_succ_apply', Hook.count_extend, ih, Nat.succ_mul]
    omega

end

/-! ## Idempotence -/

/-- Only the first process of a chain changes the variable: what it adds is there once, and
    what was there before is there in the same order. -/
structure Stable (fs : FileLayout) (env : Environ) (o : Nat → Oracle Unit) (h : Hook) : Prop where
  same : ∀ n, (chain fs env o (n + 1)).get h.target.bytes = (chain fs env o 1).get h.target.bytes
  once : ∀ n path, h.found fs env = some path → ∀ e ∈ h.additions path,
    (h.entries ((chain fs env o (n + 1)).get h.target.bytes)).count e = 1
  kept : ∀ n, (h.entries (env.get h.target.bytes)).Sublist
    (h.entries ((chain fs env o (n + 1)).get h.target.bytes))

/-- Whatever agent the processes have that does not know the two variables: they are stable
    exactly if there is nothing to seed, as the hooks are opted out of or have no support files. -/
theorem constructor_idempotent_iff (fs : FileLayout) (env : Environ) (o : Nat → Oracle Unit)
    (hundefined : ∀ n (h : Hook), Undefines (o n) h.target) :
    (∀ h, Stable fs env o h) ↔ ∀ h : Hook, h.found fs env = none := by
  constructor
  · intro hstable h
    cases hfound : h.found fs env with
    | none => rfl
    | some path =>
      exfalso
      obtain ⟨v, hfirst, hsecond⟩ := chain_get_seeded hundefined hfound 0
      have hsame := (hstable h).same 1
      rw [hfirst, hsecond, Option.some.injEq] at hsame
      -- The first value has no entries, or the second one is longer.
      by_cases hv : v.bytes = []
      · obtain ⟨e, he⟩ := h.exists_mem_additions path
        have honce := (hstable h).once 0 path hfound e he
        rw [hfirst, Hook.entries, if_pos hv] at honce
        cases honce
      · have hlonger := h.length_lt_seed path hv
        rw [hsame] at hlonger
        exact Nat.lt_irrefl _ hlonger
  · intro hnone h
    have hget := chain_get_of_not_found hundefined (hnone h)
    constructor
    · intro n
      rw [hget, hget]
    · intro n path hfound
      rw [hnone h] at hfound
      cases hfound
    · intro n
      rw [hget]

/-- A library without support files. -/
def bareLayout : FileLayout where
  soDir := none
  fileExists := fun _ => false
  canonicalize := some

/-- The user has modules of their own. -/
def userModules : Environ := [(Hook.python.target, .lit "/srv/modules")]

theorem refused_undefines (name : CStr) : Undefines (.always .refused ()) name :=
  fun _ _ _ _ _ => rfl

theorem constructor_idempotent_bare :
    Stable bareLayout userModules (fun _ => .always .refused ()) .python ∧
      Stable bareLayout userModules (fun _ => .always .refused ()) .java := by
  have hnone : ∀ h : Hook, h.found bareLayout userModules = none := by
    intro h
    cases h <;> decide
  have hstable := (constructor_idempotent_iff bareLayout userModules
    (fun _ => .always .refused ()) fun _ h => refused_undefines h.target).mpr hnone
  exact ⟨hstable .python, hstable .java⟩

/-- The program of a program has the support directory twice. -/
theorem second_process_seeds_again :
    (chain installedLayout [] (fun _ => .always .refused ()) 1).get (CStr.lit "PYTHONPATH").bytes =
      some (.lit "/l/envproxy/python") ∧
    (chain installedLayout [] (fun _ => .always .refused ()) 2).get (CStr.lit "PYTHONPATH").bytes =
      some (.lit "/l/envproxy/python:/l/envproxy/python") := by
  decide

end EnvProxy.Libenvproxy
