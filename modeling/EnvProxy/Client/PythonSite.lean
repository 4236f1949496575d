-- SUMMARY: Python's startup: the hook's `sitecustomize` module, and the one it hides on the search path.
import EnvProxy.Proto.Wire
import Mathlib.Data.List.Basic

/-!
# `sitecustomize`

Python imports one module of this name. The hook's own one stands first on the search path,
so it imports the next one itself: it takes its directory off the path and its module out of
`sys.modules`, and puts both back. Its directory can be on the path more than once, and then
the next one is its own file again.

A directory on the path is an absolute path, as `site` leaves it. The modules of others may
change the path; they leave `sys.modules` alone.
-/

namespace EnvProxy.Python.Site

inductive Exn where
  | importError
  /-- Any other `Exception`. -/
  | exception
  | baseException
  deriving DecidableEq

/-- What is found on the search path. -/
structure Installation where
  ourDir : Str
  /-- What importing `_envproxy_hook` comes to. -/
  hook : Except Exn Unit
  /-- The other directories with a `sitecustomize`, and what it does. -/
  others : Str → Option (List Str → List Str × Except Exn Unit)

structure Interp where
  /-- `sys.path`. -/
  path : List Str
  /-- The entry of `sys.modules`, as the directory it was loaded from. -/
  module : Option Str
  /-- `_envproxy_hook` is loaded. -/
  hooked : Bool
  /-- The modules of others that were executed. -/
  customized : List Str

namespace Installation

variable (site : Installation)

def provides (dir : Str) : Bool := dir = site.ourDir || (site.others dir).isSome

def importHook (s : Interp) : Except Exn Unit × Interp :=
  if s.hooked then (.ok (), s)
  else match site.hook with
    | .ok () => (.ok (), { s with hooked := true })
    | .error e => (.error e, s)

/-- The file in a directory is executed. -/
def executeIn (ours : Interp → Except Exn Unit × Interp) (dir : Str) (s : Interp) :
    Except Exn Unit × Interp :=
  if dir = site.ourDir then ours s
  else match site.others dir with
    | some body => ((body s.path).2, { s with
        path := (body s.path).1
        customized := s.customized ++ [dir] })
    | none => (.error .importError, s)

/-- `importlib.import_module("sitecustomize")`. -/
def importModule (ours : Interp → Except Exn Unit × Interp) (s : Interp) :
    Except Exn Unit × Interp :=
  match s.module with
  | some _ => (.ok (), s)
  | none =>
    match s.path.find? site.provides with
    | none => (.error .importError, s)
    | some dir =>
      match site.executeIn ours dir { s with module := some dir } with
      | (.ok (), s) => (.ok (), s)
      -- A module that raises is taken out again.
      | (.error e, s) => (.error e, { s with module := none })

/-- Chain to any pre-existing `sitecustomize` module. -/
def chain (ours : Interp → Except Exn Unit × Interp) (s : Interp) : Except Exn Unit × Interp :=
  let ourModule := s.module
  let pathModified := s.path.contains site.ourDir
  let path := if pathModified then s.path.erase site.ourDir else s.path
  let (imported, s) := site.importModule ours { s with path, module := none }
  let path := if pathModified then site.ourDir :: s.path else s.path
  let s := { s with path, module := ourModule.or s.module }
  match imported with
  -- No other sitecustomize exists.
  | .error .importError => (.ok (), s)
  | r => (r, s)

/-- The file itself, which is called by itself up to the recursion limit. -/
def execute : Nat → Interp → Except Exn Unit × Interp
  | 0, s => (.error .exception, s)
  | limit + 1, s =>
    match site.importHook s with
    | (.error .baseException, s) => (.error .baseException, s)
    | (_, s) => site.chain (execute limit) s

/-! ## The module behind it -/

def IsOther (dir : Str) : Bool := dir ≠ site.ourDir && (site.others dir).isSome

/-- The next module of somebody else. -/
def next (path : List Str) : Option Str := path.find? site.IsOther

/-- An `ImportError` is not passed on. -/
def swallowed : Except Exn Unit → Except Exn Unit
  | .error .importError => .ok ()
  | r => r

theorem swallowed_swallowed (r : Except Exn Unit) : swallowed (swallowed r) = swallowed r := by
  match r with
  | .ok () => rfl
  | .error .importError => rfl
  | .error .exception => rfl
  | .error .baseException => rfl

theorem next_erase (path : List Str) : site.next (path.erase site.ourDir) = site.next path := by
  unfold next
  induction path with
  | nil => rfl
  | cons dir path ih =>
    by_cases hdir : dir = site.ourDir
    · subst hdir
      have hnot : site.IsOther site.ourDir = false := by simp [IsOther]
      rw [List.erase_cons_head, List.find?_cons_of_neg (by simp [hnot])]
    · rw [List.erase_cons_tail (by simpa using hdir)]
      cases hother : site.IsOther dir with
      | true => rw [List.find?_cons_of_pos hother, List.find?_cons_of_pos hother]
      | false =>
        rw [List.find?_cons_of_neg (by simp [hother]), List.find?_cons_of_neg (by simp [hother]), ih]

/-- What is found first is somebody else's if it is not ours. -/
theorem next_of_found {path : List Str} {dir : Str} (h : path.find? site.provides = some dir)
    (hdir : dir ≠ site.ourDir) : site.next path = some dir ∧ ∃ body, site.others dir = some body := by
  obtain ⟨hprovides, before, after, rfl, hbefore⟩ := List.find?_eq_some_iff_append.mp h
  have hsome : (site.others dir).isSome := by simpa [provides, hdir] using hprovides
  have hnone : ∀ d ∈ before, ¬ site.IsOther d := by
    intro d hd hother
    have hnot := hbefore d hd
    simp only [IsOther, Bool.and_eq_true] at hother
    simp [provides, hother.2] at hnot
  refine ⟨?_, Option.isSome_iff_exists.mp hsome⟩
  refine List.find?_eq_some_iff_append.mpr ⟨by simp [IsOther, hdir, hsome], before, after, rfl, ?_⟩
  intro d hd
  simpa using hnone d hd

theorem next_of_not_found {path : List Str} (h : path.find? site.provides = none) :
    site.next path = none := by
  unfold next
  rw [List.find?_eq_none] at h ⊢
  intro d hd hother
  simp only [IsOther, Bool.and_eq_true] at hother
  exact h d hd (by simp [provides, hother.2])

/-- The state once the hook has been imported. -/
def withHook (s : Interp) : Interp := { s with hooked := s.hooked || site.hook.isOk }

theorem importHook_snd (s : Interp) : (site.importHook s).2 = site.withHook s := by
  obtain ⟨path, module, hooked, customized⟩ := s
  unfold importHook withHook
  cases hooked with
  | true => rfl
  | false => cases site.hook <;> rfl

/-- What is left of the search path when the next module is executed, and the state it
    leaves. -/
def Chained (s : Interp) (ourModule : Str) (r : Except Exn Unit × Interp) : Prop :=
  ∃ k, (0 < k ↔ site.ourDir ∈ s.path) ∧ k ≤ s.path.count site.ourDir ∧
    let seen := s.path.diff (List.replicate k site.ourDir)
    match site.next s.path with
    | none => r = (.ok (), { site.withHook s with
        path := List.replicate k site.ourDir ++ seen
        module := some ourModule })
    | some dir => ∃ body, site.others dir = some body ∧ r = (swallowed (body seen).2,
        { site.withHook s with
          path := List.replicate k site.ourDir ++ (body seen).1
          module := some ourModule
          customized := s.customized ++ [dir] })

/-- Only what is no `Exception` stops the file at the hook. -/
theorem importHook_fst {s : Interp} (hhook : site.hook ≠ .error .baseException) :
    (site.importHook s).1 ≠ .error .baseException := by
  unfold importHook
  split
  · exact fun h => nomatch h
  · split
    · exact fun h => nomatch h
    · next e he =>
      intro h
      rw [he] at hhook
      exact hhook h

theorem execute_succ (limit : Nat) (s : Interp) (hhook : site.hook ≠ .error .baseException) :
    site.execute (limit + 1) s = site.chain (site.execute limit) (site.withHook s) := by
  have hfirst := site.importHook_fst (s := s) hhook
  have hsecond := site.importHook_snd s
  rw [execute]
  obtain ⟨r, s', hr⟩ : ∃ r s', site.importHook s = (r, s') := ⟨_, _, rfl⟩
  rw [hr] at hfirst hsecond ⊢
  rw [← hsecond]
  match r with
  | .error .baseException => exact absurd rfl hfirst
  | .ok () => rfl
  | .error .importError => rfl
  | .error .exception => rfl

/-- The next module is imported with our directory off the path, and all is put back. -/
theorem chain_eq (ours : Interp → Except Exn Unit × Interp) {s : Interp} {ourModule : Str}
    (hmodule : s.module = some ourModule) :
    site.chain ours s =
      let imported := site.importModule ours
        { s with path := s.path.erase site.ourDir, module := none }
      (swallowed imported.1, { imported.2 with
        path := if site.ourDir ∈ s.path then site.ourDir :: imported.2.path else imported.2.path
        module := some ourModule }) := by
  have hpath : (if s.path.contains site.ourDir = true then s.path.erase site.ourDir else s.path) =
      s.path.erase site.ourDir := by
    split
    · rfl
    · next hnot => exact (List.erase_of_not_mem fun hmem => hnot (List.contains_iff_mem.mpr hmem)).symm
  unfold chain
  rw [hmodule]
  dsimp only
  rw [hpath]
  obtain ⟨r, s', hr⟩ : ∃ r s', site.importModule ours
      { s with path := s.path.erase site.ourDir, module := none } = (r, s') := ⟨_, _, rfl⟩
  rw [hr]
  simp only [List.contains_iff_mem, Option.some_or]
  match r with
  | .ok () => rfl
  | .error .importError => rfl
  | .error .exception => rfl
  | .error .baseException => rfl

/-- The result of an import is that of the file it finds. -/
theorem importModule_found (ours : Interp → Except Exn Unit × Interp) {s : Interp} {dir : Str}
    (hmodule : s.module = none) (hfound : s.path.find? site.provides = some dir) :
    ∃ module, site.importModule ours s =
      ((site.executeIn ours dir { s with module := some dir }).1,
        { (site.executeIn ours dir { s with module := some dir }).2 with module }) := by
  unfold importModule
  rw [hmodule]
  dsimp only
  rw [hfound]
  dsimp only
  generalize site.executeIn ours dir { s with module := some dir } = r
  obtain ⟨r, s'⟩ := r
  cases r with
  | ok u => exact ⟨s'.module, rfl⟩
  | error e => exact ⟨none, rfl⟩

/-- Our directory is taken off the path once, if it is there. -/
theorem exists_once (path : List Str) :
    ∃ k, (0 < k ↔ site.ourDir ∈ path) ∧ k ≤ path.count site.ourDir ∧
      path.erase site.ourDir = path.diff (List.replicate k site.ourDir) ∧
      ∀ rest : List Str, (if site.ourDir ∈ path then site.ourDir :: rest else rest) =
        List.replicate k site.ourDir ++ rest := by
  by_cases hmem : site.ourDir ∈ path
  · refine ⟨1, iff_of_true Nat.one_pos hmem, List.count_pos_iff.mpr hmem, ?_, fun rest => ?_⟩
    · rw [List.replicate_one, List.diff_cons, List.diff_nil]
    · rw [if_pos hmem]
      rfl
  · refine ⟨0, iff_of_false (Nat.lt_irrefl 0) hmem, Nat.zero_le _, ?_, fun rest => ?_⟩
    · rw [List.erase_of_not_mem hmem, List.replicate_zero, List.diff_nil]
    · rw [if_neg hmem]
      rfl

/-- However often our directory is on the path, the next module of somebody else is executed
    once, and the path is put together again. -/
theorem chained_execute {limit : Nat} {s : Interp} {ourModule : Str}
    (hhook : site.hook ≠ .error .baseException) (hmodule : s.module = some ourModule)
    (hlimit : s.path.count site.ourDir < limit) : site.Chained s ourModule (site.execute limit s) := by
  induction limit generalizing s ourModule with
  | zero => omega
  | succ limit ih =>
    have hourModule : (site.withHook s).module = some ourModule := hmodule
    rw [site.execute_succ limit s hhook, site.chain_eq _ hourModule]
    let hidden : Interp := { site.withHook s with path := s.path.erase site.ourDir, module := none }
    change site.Chained s ourModule (swallowed (site.importModule (site.execute limit) hidden).1,
      { (site.importModule (site.execute limit) hidden).2 with
        path := if site.ourDir ∈ s.path
          then site.ourDir :: (site.importModule (site.execute limit) hidden).2.path
          else (site.importModule (site.execute limit) hidden).2.path
        module := some ourModule })
    have hnext : site.next hidden.path = site.next s.path := site.next_erase s.path
    obtain ⟨k, hk, hcount, herase, hput⟩ := site.exists_once s.path
    cases hfound : hidden.path.find? site.provides with
    | none =>
      have himport : site.importModule (site.execute limit) hidden = (.error .importError, hidden) := by
        unfold importModule
        rw [hfound]
      refine ⟨k, hk, hcount, ?_⟩
      rw [himport, hput, ← hnext, site.next_of_not_found hfound]
      dsimp only
      rw [← herase]
      rfl
    | some dir =>
      obtain ⟨module, himport⟩ := site.importModule_found (site.execute limit) rfl hfound
      rw [himport]
      by_cases hdir : dir = site.ourDir
      -- It is our own file again, with one entry less on the path.
      · subst hdir
        have hagain : site.ourDir ∈ s.path.erase site.ourDir := List.mem_of_find?_eq_some hfound
        have hmem : site.ourDir ∈ s.path := List.mem_of_mem_erase hagain
        have hless : (s.path.erase site.ourDir).count site.ourDir = s.path.count site.ourDir - 1 :=
          List.count_erase_self
        have hpositive : 0 < s.path.count site.ourDir := List.count_pos_iff.mpr hmem
        let again : Interp := { hidden with module := some site.ourDir }
        have hexecuted : site.executeIn (site.execute limit) site.ourDir again =
            site.execute limit again := if_pos rfl
        have hlimit' : again.path.count site.ourDir < limit := by
          change (s.path.erase site.ourDir).count site.ourDir < limit
          omega
        obtain ⟨k', hk', hcount', hchained⟩ := ih (s := again) rfl hlimit'
        have hcountK : k' + 1 ≤ s.path.count site.ourDir := by
          change k' ≤ (s.path.erase site.ourDir).count site.ourDir at hcount'
          omega
        have hseen : s.path.diff (List.replicate (k' + 1) site.ourDir) =
            again.path.diff (List.replicate k' site.ourDir) := by
          rw [List.replicate_succ, List.diff_cons]
        have hhooked : site.withHook again = again := by
          simp only [withHook, again, hidden, Bool.or_assoc, Bool.or_self]
        have hnext' : site.next again.path = site.next s.path := hnext
        refine ⟨k' + 1, iff_of_true (Nat.succ_pos k') hmem, hcountK, ?_⟩
        rw [hexecuted, if_pos hmem, hseen]
        rw [hhooked, hnext'] at hchained
        dsimp only at hchained ⊢
        cases hother : site.next s.path with
        | none =>
          rw [hother] at hchained
          dsimp only at hchained ⊢
          rw [hchained]
          rfl
        | some dir =>
          rw [hother] at hchained
          obtain ⟨body, hbody, hresult⟩ := hchained
          refine ⟨body, hbody, ?_⟩
          rw [hresult, swallowed_swallowed]
          rfl
      · obtain ⟨hother, body, hbody⟩ := site.next_of_found hfound hdir
        have hexecuted : site.executeIn (site.execute limit) dir { hidden with module := some dir } =
            ((body hidden.path).2, { hidden with
              path := (body hidden.path).1
              module := some dir
              customized := hidden.customized ++ [dir] }) := by
          unfold executeIn
          rw [if_neg hdir, hbody]
        refine ⟨k, hk, hcount, ?_⟩
        rw [hexecuted, hput, ← hnext, hother]
        dsimp only
        rw [← herase]
        exact ⟨body, hbody, rfl⟩

end Installation

/-! ## Python's startup -/

/-- The other entries stay as they were, in their order. -/
theorem filter_diff_replicate (dir : Str) (path : List Str) (k : Nat) :
    (path.diff (List.replicate k dir)).filter (· ≠ dir) = path.filter (· ≠ dir) := by
  have herase (path : List Str) : (path.erase dir).filter (· ≠ dir) = path.filter (· ≠ dir) := by
    induction path with
    | nil => rfl
    | cons d path ih =>
      by_cases hd : d = dir
      · subst hd
        rw [List.erase_cons_head, List.filter_cons_of_neg (by simp)]
      · rw [List.erase_cons_tail (by simpa using hd), List.filter_cons_of_pos (by simpa using hd), ih,
          List.filter_cons_of_pos (by simpa using hd)]
  induction k generalizing path with
  | zero => rfl
  | succ k ih => rw [List.replicate_succ, List.diff_cons, ih, herase]

/-- The hook's `sitecustomize` leaves its own module in `sys.modules` and executes the module
    it hides once. That one sees the path without some of the entries of our directory, which
    are in front of the path in the end; all other entries are as they were, or as that module
    has left them. Only what that module raises and is no `ImportError` gets out. -/
theorem sitecustomize_chains (site : Installation) (limit : Nat) (s : Interp) (ourModule : Str)
    (hhook : site.hook ≠ .error .baseException) (hmodule : s.module = some ourModule)
    (hlimit : s.path.count site.ourDir < limit) :
    (site.execute limit s).2.module = some ourModule ∧
    (site.execute limit s).2.hooked = (s.hooked || site.hook.isOk) ∧
    (site.execute limit s).2.customized = s.customized ++ (site.next s.path).toList ∧
    ∃ k, (0 < k ↔ site.ourDir ∈ s.path) ∧ k ≤ s.path.count site.ourDir ∧
      let seen := s.path.diff (List.replicate k site.ourDir)
      seen.filter (· ≠ site.ourDir) = s.path.filter (· ≠ site.ourDir) ∧
      match site.next s.path with
      | none => (site.execute limit s).1 = .ok () ∧
          (site.execute limit s).2.path = List.replicate k site.ourDir ++ seen
      | some dir => ∃ body, site.others dir = some body ∧
          (site.execute limit s).1 = Installation.swallowed (body seen).2 ∧
          (site.execute limit s).2.path = List.replicate k site.ourDir ++ (body seen).1 := by
  obtain ⟨k, hk, hcount, hchained⟩ := site.chained_execute hhook hmodule hlimit
  have hothers := filter_diff_replicate site.ourDir s.path k
  cases hnext : site.next s.path with
  | none =>
    rw [hnext] at hchained
    dsimp only at hchained
    rw [hchained]
    exact ⟨rfl, rfl, (List.append_nil _).symm, k, hk, hcount, hothers, rfl, rfl⟩
  | some dir =>
    rw [hnext] at hchained
    obtain ⟨body, hbody, hresult⟩ := hchained
    rw [hresult]
    exact ⟨rfl, rfl, rfl, k, hk, hcount, hothers, body, hbody, rfl, rfl⟩

/-- A module of the system's, behind ours. -/
def systemSite : Installation where
  ourDir := "/envproxy/python".toList
  hook := .ok ()
  others := fun dir => if dir = "/usr/lib/python3".toList then some fun path => (path, .ok ()) else none

/-- Our directory is there twice, with another one in between. -/
def startup : Interp where
  path := ["/envproxy/python".toList, "/app".toList, "/envproxy/python".toList, "/usr/lib/python3".toList]
  module := some "/envproxy/python".toList
  hooked := false
  customized := []

theorem sitecustomize_chains_system :
    (systemSite.execute 1000 startup).2.customized = ["/usr/lib/python3".toList] ∧
      (systemSite.execute 1000 startup).2.path.filter (· ≠ systemSite.ourDir) =
        ["/app".toList, "/usr/lib/python3".toList] := by
  have hhook : systemSite.hook ≠ .error .baseException := by decide
  have hnext : systemSite.next startup.path = some "/usr/lib/python3".toList := by decide
  obtain ⟨-, -, hcustomized, k, -, -, hothers, hrest⟩ :=
    sitecustomize_chains systemSite 1000 startup "/envproxy/python".toList hhook rfl (by decide)
  rw [hnext] at hcustomized hrest
  obtain ⟨body, hbody, -, hpath⟩ := hrest
  refine ⟨hcustomized, ?_⟩
  cases hbody
  have hours : (List.replicate k systemSite.ourDir).filter (· ≠ systemSite.ourDir) = [] := by
    rw [List.filter_eq_nil_iff]
    intro dir hdir
    simp [List.eq_of_mem_replicate hdir]
  rw [hpath, List.filter_append, hours, List.nil_append, hothers]
  decide

end EnvProxy.Python.Site
