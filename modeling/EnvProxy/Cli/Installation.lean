-- SUMMARY: When `envproxy init` succeeds, and what it then leaves in the target directory.
import EnvProxy.Cli.Init
import EnvProxy.Library.Copies

/-!
# The installed files

A run of `init` is a list of calls that only its files and the disk can stop. `Feasible`
says that nothing does, and `installed` what is there in the end. The init container of a
pod that is started again finds its own result on the volume: `cmd_init_iff` covers that
run as well.
-/

namespace EnvProxy.CommandLine

open Copies

/-! ## Running one call after the other -/

section

variable {σ ε α β : Type}

theorem listForM_cons {m : Type → Type} [Monad m] (a : α) (l : List α) (f : α → m Unit) :
    (a :: l).forM f = f a >>= fun _ => l.forM f := rfl

theorem run_bind_ok_iff {first : StateT σ (Except ε) α} {next : α → StateT σ (Except ε) β} {s : σ}
    {r : β × σ} :
    (first >>= next).run s = .ok r ↔ ∃ a s', first.run s = .ok (a, s') ∧ (next a).run s' = .ok r := by
  rw [StateT.run_bind]
  cases hfirst : first.run s with
  | error e => simp [bind, Except.bind]
  | ok r' =>
    obtain ⟨a, s'⟩ := r'
    simp [bind, Except.bind]

/-- A loop whose steps keep the state. -/
theorem run_forM_ok_iff {l : List α} {f : α → StateT σ (Except ε) Unit} {P : α → Prop} {s s' : σ}
    (hstep : ∀ a ∈ l, ∀ s'', (f a).run s = .ok ((), s'') ↔ P a ∧ s'' = s) :
    (l.forM f).run s = .ok ((), s') ↔ (∀ a ∈ l, P a) ∧ s' = s := by
  induction l with
  | nil =>
    simp only [List.not_mem_nil, false_implies, implies_true, true_and]
    constructor
    · intro h
      cases h
      rfl
    · rintro rfl
      rfl
  | cons a l ih =>
    have hrest := ih fun b hb => hstep b (.tail _ hb)
    change (f a >>= fun _ => l.forM f).run s = .ok ((), s') ↔ _
    rw [run_bind_ok_iff]
    constructor
    · rintro ⟨⟨⟩, s'', hfirst, hlast⟩
      obtain ⟨hP, rfl⟩ := (hstep a (.head _) s'').mp hfirst
      obtain ⟨hall, rfl⟩ := hrest.mp hlast
      exact ⟨List.forall_mem_cons.mpr ⟨hP, hall⟩, rfl⟩
    · rintro ⟨hall, rfl⟩
      obtain ⟨hP, hall⟩ := List.forall_mem_cons.mp hall
      exact ⟨(), s', (hstep a (.head _) s').mpr ⟨hP, rfl⟩, hrest.mpr ⟨hall, rfl⟩⟩

end

theorem attempt_ok_iff {disk : Disk} {context : Str} {op : Operation} {files files' : Files} :
    (attempt disk context op).run files = .ok ((), files') ↔
      disk.refuses op = none ∧ op.perform disk files = .ok files' := by
  change attempt disk context op files = .ok ((), files') ↔ _
  unfold attempt
  cases disk.refuses op with
  | some cause => simp
  | none => cases op.perform disk files <;> simp

theorem copyTo_ok_iff {disk : Disk} {src dest : Str} (hne : disk.place src ≠ disk.place dest)
    {files files' : Files} :
    (copyTo disk src dest).run files = .ok ((), files') ↔
      disk.refuses (.copy src dest) = none ∧ (disk.contents files src).isSome ∧
        files' = Function.update files (disk.place dest) (files (disk.place src)) := by
  unfold copyTo Disk.contents
  rw [attempt_ok_iff]
  refine and_congr_right fun _ => ?_
  cases hsrc : files (disk.place src) with
  | none => simp [Operation.perform, hsrc]
  | some contents => simp [Operation.perform, hsrc, hne, eq_comm]

/-! ## The copies of a run -/

/-- The destinations, below the target. -/
def fixedMappings : List (Str × Str) :=
  [("/usr/bin/envproxy".toList, "envproxy".toList),
    ("/usr/bin/envproxy-agent".toList, "envproxy-agent".toList),
    ("/usr/lib/envproxy/lib/libenvproxy.so".toList, "lib/libenvproxy.so".toList),
    ("/usr/lib/envproxy/java/envproxy-agent.jar".toList, "java/envproxy-agent.jar".toList)]

/-- The entries of the Python directory that are files. -/
def pythonFiles : Option (Except Str (List (Except Str DirEntry))) → List Str
  | some (.ok entries) => entries.filterMap fun
    | .ok entry => if entry.isFile then some entry.fileName else none
    | .error _ => none
  | _ => []

def pythonMapping (target name : Str) : Str × Str :=
  (join "/usr/lib/envproxy/python".toList name, join (join target "python".toList) name)

/-- Every source with its destination. -/
def mappings (disk : Disk) (target : Str) : List (Str × Str) :=
  fixedMappings.map (fun p => (p.1, join target p.2)) ++
    (pythonFiles disk.pythonDir).map (pythonMapping target)

def configFile (target : Str) : Str := join target "config.toml".toList

/-- The files a run writes. -/
def destinations (disk : Disk) (target : Str) (content : Option Str) : List Str :=
  (mappings disk target).map Prod.snd ++ (content.map fun _ => configFile target).toList

/-- The places of a source and its destination. -/
def Disk.placed (disk : Disk) (p : Str × Str) : Str × Str := (disk.place p.1, disk.place p.2)

/-- What a run leaves. -/
def installed (disk : Disk) (target : Str) (content : Option Str) (files : Files) : Files :=
  match content with
  | some c => Function.update (copied ((mappings disk target).map disk.placed) files)
      (disk.place (configFile target)) (some (Utf8.encode c))
  | none => copied ((mappings disk target).map disk.placed) files

/-- Nothing stops a run. -/
structure Feasible (disk : Disk) (target : Str) (content : Option Str) (files : Files) : Prop where
  created : ∀ dir ∈ ["lib".toList, "python".toList, "java".toList],
    disk.refuses (.createDirAll (join target dir)) = none
  copied : ∀ p ∈ mappings disk target,
    disk.refuses (.copy p.1 p.2) = none ∧ (disk.contents files p.1).isSome
  /-- The Python directory is read without an error, if there is one. -/
  listed : ∀ listing, disk.pythonDir = some listing →
    ∃ entries : List DirEntry, listing = .ok (entries.map .ok)
  executable : ∀ name ∈ ["envproxy".toList, "envproxy-agent".toList],
    disk.refuses (.setPermissions (join target name) 0o755) = none
  written : ∀ c, content = some c → disk.refuses (.write (configFile target) c) = none

/-! ## Destinations -/

/-- The directory with a separator behind it. -/
def within (dir : Str) : Str := if dir.getLast?.all (· = '/') then dir else dir ++ ['/']

theorem join_eq (dir path : Str) : join dir path = within dir ++ path := by
  unfold join within
  split
  · rfl
  · rw [List.append_assoc]
    rfl

theorem join_inj {dir path path' : Str} : join dir path = join dir path' ↔ path = path' := by
  rw [join_eq, join_eq]
  exact List.append_right_inj _

/-- The Python files are in a directory of their own. -/
theorem join_python (target name : Str) :
    join (join target "python".toList) name = join target ("python/".toList ++ name) := by
  have hslash : within (join target "python".toList) = join target "python/".toList := by
    have hlast : (join target "python".toList).getLast? = some 'n' := by
      rw [join_eq, List.getLast?_append]
      rfl
    unfold within
    rw [hlast, join_eq, join_eq, List.append_assoc]
    rfl
  rw [join_eq, hslash, join_eq, join_eq, List.append_assoc]

theorem determined_mappings (disk : Disk) (target : Str) : Determined (mappings disk target) := by
  have hpython (name : Str) {rel : Str} (hrel : rel.head? ≠ some 'p') :
      join (join target "python".toList) name ≠ join target rel := by
    rw [join_python]
    intro heq
    rw [← join_inj.mp heq] at hrel
    exact hrel rfl
  have hfixed : ∀ p ∈ fixedMappings, p.2.head? ≠ some 'p' := by decide
  have hdistinct : Determined fixedMappings := by unfold Determined; decide
  intro p hp q hq heq
  rw [mappings, List.mem_append, List.mem_map, List.mem_map] at hp hq
  rcases hp with ⟨p, hp, rfl⟩ | ⟨name, -, rfl⟩ <;> rcases hq with ⟨q, hq, rfl⟩ | ⟨name', -, rfl⟩
  · exact hdistinct p hp q hq (join_inj.mp heq)
  · exact absurd heq.symm (hpython name' (hfixed p hp))
  · exact absurd heq (hpython name (hfixed q hq))
  · exact congrArg (join "/usr/lib/envproxy/python".toList) (join_inj.mp heq)

/-! ## The parts of a run -/

section

variable {disk : Disk} {target : Str}

theorem createDirs_ok_iff {files files' : Files} :
    (createDirs disk target).run files = .ok ((), files') ↔
      (∀ dir ∈ ["lib".toList, "python".toList, "java".toList],
        disk.refuses (.createDirAll (join target dir)) = none) ∧ files' = files := by
  unfold createDirs
  apply run_forM_ok_iff
  intro dir _ files''
  rw [attempt_ok_iff]
  simp [Operation.perform, eq_comm]

/-- A source that no copy overwrites is there for all of them or for none. -/
theorem copies_ok_iff {copies : List (Str × Str)} (hapart : Apart (copies.map disk.placed))
    {files files' : Files} :
    (copies.forM fun p => copyTo disk p.1 p.2).run files = .ok ((), files') ↔
      (∀ p ∈ copies, disk.refuses (.copy p.1 p.2) = none ∧ (disk.contents files p.1).isSome) ∧
        files' = copied (copies.map disk.placed) files := by
  induction copies generalizing files with
  | nil =>
    simp only [List.not_mem_nil, false_implies, implies_true, true_and]
    constructor
    · intro h
      cases h
      rfl
    · rintro rfl
      rfl
  | cons p copies ih =>
    have hplaced {q : Str × Str} (hq : q ∈ p :: copies) :
        disk.placed q ∈ (p :: copies).map disk.placed := List.mem_map_of_mem hq
    have hne : disk.place p.1 ≠ disk.place p.2 := hapart _ (hplaced (.head _)) _ (hplaced (.head _))
    have hkept : ∀ q ∈ copies,
        disk.contents (Function.update files (disk.place p.2) (files (disk.place p.1))) q.1 =
          disk.contents files q.1 := fun q hq =>
      Function.update_of_ne (hapart _ (hplaced (.tail _ hq)) _ (hplaced (.head _))) ..
    change (copyTo disk p.1 p.2 >>= fun _ => copies.forM fun p => copyTo disk p.1 p.2).run files =
      .ok ((), files') ↔ _
    rw [run_bind_ok_iff, List.forall_mem_cons]
    constructor
    · rintro ⟨⟨⟩, files'', hfirst, hlast⟩
      obtain ⟨hrefuses, hsome, rfl⟩ := (copyTo_ok_iff hne).mp hfirst
      obtain ⟨hall, rfl⟩ := (ih hapart.tail).mp hlast
      refine ⟨⟨⟨hrefuses, hsome⟩, fun q hq => ?_⟩, rfl⟩
      have hq' := hall q hq
      rw [hkept q hq] at hq'
      exact hq'
    · rintro ⟨⟨⟨hrefuses, hsome⟩, hall⟩, rfl⟩
      refine ⟨(), _, (copyTo_ok_iff hne).mpr ⟨hrefuses, hsome, rfl⟩,
        (ih hapart.tail).mpr ⟨fun q hq => ?_, rfl⟩⟩
      rw [hkept q hq]
      exact hall q hq

/-- The loop over the Python directory copies what is a file. -/
theorem copyPython_of_entries (entries : List DirEntry)
    (hdir : disk.pythonDir = some (.ok (entries.map .ok))) :
    copyPython disk target =
      ((pythonFiles disk.pythonDir).map (pythonMapping target)).forM fun p => copyTo disk p.1 p.2 := by
  unfold copyPython
  rw [hdir]
  dsimp only [pythonFiles]
  clear hdir
  induction entries with
  | nil => rfl
  | cons entry entries ih =>
    rw [List.map_cons, List.filterMap_cons, listForM_cons, ih]
    cases hfile : entry.isFile with
    | true =>
      simp only [hfile, if_true]
      rfl
    | false => simp only [hfile, Bool.false_eq_true, if_false, pure_bind]

/-- An entry that cannot be read stops the loop. -/
theorem entries_of_forM_ok {f : DirEntry → StateT Files (Except InitError) Unit}
    {entries : List (Except Str DirEntry)} {files files' : Files}
    (h : (entries.forM fun
      | .error cause => throw ({ context := none, cause } : InitError)
      | .ok entry => f entry).run files = .ok ((), files')) :
    ∃ entries' : List DirEntry, entries = entries'.map .ok := by
  induction entries generalizing files with
  | nil => exact ⟨[], rfl⟩
  | cons entry entries ih =>
    obtain ⟨⟨⟩, files'', hfirst, hlast⟩ := run_bind_ok_iff.mp h
    cases entry with
    | error cause => cases hfirst
    | ok entry =>
      obtain ⟨entries', rfl⟩ := ih hlast
      exact ⟨entry :: entries', rfl⟩

theorem copyPython_ok_iff
    (hpython : Apart (((pythonFiles disk.pythonDir).map (pythonMapping target)).map disk.placed))
    {files files' : Files} :
    (copyPython disk target).run files = .ok ((), files') ↔
      (∀ listing, disk.pythonDir = some listing →
        ∃ entries : List DirEntry, listing = .ok (entries.map .ok)) ∧
      (∀ p ∈ (pythonFiles disk.pythonDir).map (pythonMapping target),
        disk.refuses (.copy p.1 p.2) = none ∧ (disk.contents files p.1).isSome) ∧
      files' =
        copied (((pythonFiles disk.pythonDir).map (pythonMapping target)).map disk.placed) files := by
  cases hdir : disk.pythonDir with
  | none =>
    unfold copyPython
    rw [hdir]
    simp only [reduceCtorEq, false_implies, implies_true, pythonFiles, List.map_nil,
      List.not_mem_nil, true_and]
    constructor
    · intro h
      cases h
      rfl
    · rintro rfl
      rfl
  | some listing =>
    constructor
    · intro h
      have hlisting : ∃ entries : List DirEntry, listing = .ok (entries.map .ok) := by
        unfold copyPython at h
        rw [hdir] at h
        cases listing with
        | error cause => cases h
        | ok entries =>
          obtain ⟨entries', rfl⟩ := entries_of_forM_ok h
          exact ⟨entries', rfl⟩
      obtain ⟨entries, rfl⟩ := hlisting
      rw [copyPython_of_entries entries hdir, copies_ok_iff hpython, hdir] at h
      refine ⟨?_, h⟩
      rintro _ ⟨⟩
      exact ⟨entries, rfl⟩
    · rintro ⟨hlisting, h⟩
      obtain ⟨entries, rfl⟩ := hlisting listing rfl
      rw [copyPython_of_entries entries hdir, copies_ok_iff hpython, hdir]
      exact h

/-- Both executables are there by now. -/
theorem setExecutable_ok_iff {files files' : Files}
    (hthere : ∀ name ∈ ["envproxy".toList, "envproxy-agent".toList],
      (disk.contents files (join target name)).isSome) :
    (setExecutable disk target).run files = .ok ((), files') ↔
      (∀ name ∈ ["envproxy".toList, "envproxy-agent".toList],
        disk.refuses (.setPermissions (join target name) 0o755) = none) ∧ files' = files := by
  unfold setExecutable
  apply run_forM_ok_iff
  intro name hname files''
  have hchmod : (attempt disk ("failed to chmod ".toList ++ join target name)
      (.setPermissions (join target name) 0o755)).run files = .ok ((), files'') ↔
        disk.refuses (.setPermissions (join target name) 0o755) = none ∧ files'' = files := by
    rw [attempt_ok_iff]
    simp [Operation.perform, eq_comm]
  rw [← hchmod, run_bind_ok_iff]
  constructor
  · rintro ⟨_, _, ⟨⟩, hrun⟩
    rw [if_pos (hthere name hname)] at hrun
    exact hrun
  · intro hrun
    refine ⟨files, files, rfl, ?_⟩
    rw [if_pos (hthere name hname)]
    exact hrun

/-- The configuration is written at the end, if there is one. -/
theorem writeConfig_ok_iff {content : Option Str} {files files' : Files} :
    (match content with
      | some content =>
        attempt disk ("failed to write ".toList ++ configFile target)
          (.write (configFile target) content)
      | none => pure ()).run files = .ok ((), files') ↔
      (∀ c, content = some c → disk.refuses (.write (configFile target) c) = none) ∧
        files' = match content with
          | some c => Function.update files (disk.place (configFile target)) (some (Utf8.encode c))
          | none => files := by
  cases content with
  | none =>
    simp only [reduceCtorEq, false_implies, implies_true, true_and]
    constructor
    · intro h
      cases h
      rfl
    · rintro rfl
      rfl
  | some c =>
    rw [attempt_ok_iff]
    simp [Operation.perform, eq_comm]

/-- No source is a file that the run writes, and no two files that it writes are one, by
    whatever paths and links. -/
structure Outside (disk : Disk) (target : Str) (content : Option Str) : Prop where
  sources : ∀ p ∈ mappings disk target, ∀ path ∈ destinations disk target content,
    disk.place p.1 ≠ disk.place path
  distinct : ∀ path ∈ destinations disk target content, ∀ path' ∈ destinations disk target content,
    disk.place path = disk.place path' → path = path'

variable {content : Option Str}

theorem mem_destinations_iff {path : Str} :
    path ∈ destinations disk target content ↔
      (∃ p ∈ mappings disk target, p.2 = path) ∨ content.isSome ∧ configFile target = path := by
  unfold destinations
  rw [List.mem_append, List.mem_map]
  cases content with
  | none => simp
  | some c => simp [eq_comm]

theorem destination_of_mapping {p : Str × Str} (hp : p ∈ mappings disk target) :
    p.2 ∈ destinations disk target content := mem_destinations_iff.mpr (.inl ⟨p, hp, rfl⟩)

theorem Outside.apart (h : Outside disk target content) :
    Apart ((mappings disk target).map disk.placed) := by
  intro _ hp _ hq
  obtain ⟨m, hm, rfl⟩ := List.mem_map.mp hp
  obtain ⟨m', hm', rfl⟩ := List.mem_map.mp hq
  exact h.sources m hm m'.2 (destination_of_mapping hm')

theorem Outside.determined (h : Outside disk target content) :
    Determined ((mappings disk target).map disk.placed) := by
  intro _ hp _ hq heq
  obtain ⟨m, hm, rfl⟩ := List.mem_map.mp hp
  obtain ⟨m', hm', rfl⟩ := List.mem_map.mp hq
  have hsame := h.distinct m.2 (destination_of_mapping hm) m'.2 (destination_of_mapping hm') heq
  exact congrArg disk.place (determined_mappings disk target m hm m' hm' hsame)

theorem Outside.copied_of_mapping (h : Outside disk target content) (files : Files) {p : Str × Str}
    (hp : p ∈ mappings disk target) :
    disk.contents (copied ((mappings disk target).map disk.placed) files) p.2 =
      disk.contents files p.1 :=
  copied_of_mem h.apart h.determined files (List.mem_map_of_mem hp)

/-- A run succeeds if nothing stops it, and then leaves the installed files. -/
theorem cmdInit_ok_iff (houtside : Outside disk target content) {files files' : Files} :
    (cmdInit disk target content).run files = .ok ((), files') ↔
      Feasible disk target content files ∧ files' = installed disk target content files := by
  let fixed := fixedMappings.map fun p => (p.1, join target p.2)
  let python := (pythonFiles disk.pythonDir).map (pythonMapping target)
  have hfixed : Apart (fixed.map disk.placed) :=
    houtside.apart.subset (List.map_subset _ (List.subset_append_left ..))
  have hpython : Apart (python.map disk.placed) :=
    houtside.apart.subset (List.map_subset _ (List.subset_append_right ..))
  have hcopyFiles {files files' : Files} : (copyFiles disk target).run files = .ok ((), files') ↔
      (∀ p ∈ fixed, disk.refuses (.copy p.1 p.2) = none ∧ (disk.contents files p.1).isSome) ∧
        files' = copied (fixed.map disk.placed) files := copies_ok_iff hfixed
  -- The sources of the Python files are still as they were.
  have hkept : ∀ p ∈ python,
      disk.contents (copied (fixed.map disk.placed) files) p.1 = disk.contents files p.1 := by
    intro p hp
    refine copied_of_not_mem _ fun _ hq => ?_
    obtain ⟨m, hm, rfl⟩ := List.mem_map.mp hq
    exact Ne.symm (houtside.sources p (List.mem_append_right _ hp) m.2
      (destination_of_mapping (List.mem_append_left _ hm)))
  have hall : copied (python.map disk.placed) (copied (fixed.map disk.placed) files) =
      copied ((mappings disk target).map disk.placed) files := by
    rw [mappings, List.map_append, copied_append]
  have hthere (hcopied : ∀ p ∈ mappings disk target, (disk.contents files p.1).isSome) :
      ∀ name ∈ ["envproxy".toList, "envproxy-agent".toList],
        (disk.contents (copied ((mappings disk target).map disk.placed) files)
          (join target name)).isSome := by
    have hdestination {p : Str × Str} (hp : p ∈ mappings disk target) :
        (disk.contents (copied ((mappings disk target).map disk.placed) files) p.2).isSome := by
      rw [houtside.copied_of_mapping files hp]
      exact hcopied p hp
    intro name hname
    simp only [List.mem_cons, List.not_mem_nil, or_false] at hname
    rcases hname with rfl | rfl
    · exact hdestination (List.mem_append_left _ (.head _))
    · exact hdestination (List.mem_append_left _ (.tail _ (.head _)))
  unfold cmdInit
  constructor
  · intro h
    obtain ⟨⟨⟩, before, hdirs, hfrom⟩ := run_bind_ok_iff.mp h
    obtain ⟨hcreated, hsame⟩ := createDirs_ok_iff.mp hdirs
    subst before
    obtain ⟨⟨⟩, _, hfiles, hfrom⟩ := run_bind_ok_iff.mp hfrom
    obtain ⟨hcopied, rfl⟩ := hcopyFiles.mp hfiles
    obtain ⟨⟨⟩, _, hpythonRun, hfrom⟩ := run_bind_ok_iff.mp hfrom
    obtain ⟨hlisted, hcopiedPython, rfl⟩ := (copyPython_ok_iff hpython).mp hpythonRun
    have hmapped : ∀ p ∈ mappings disk target,
        disk.refuses (.copy p.1 p.2) = none ∧ (disk.contents files p.1).isSome := by
      intro p hp
      rcases List.mem_append.mp hp with hp | hp
      · exact hcopied p hp
      · rw [← hkept p hp]
        exact hcopiedPython p hp
    obtain ⟨⟨⟩, _, hexecutable, hfrom⟩ := run_bind_ok_iff.mp hfrom
    change (setExecutable disk target).run
      (copied (python.map disk.placed) (copied (fixed.map disk.placed) files)) = _ at hexecutable
    rw [hall] at hexecutable
    obtain ⟨hchmod, rfl⟩ :=
      (setExecutable_ok_iff (hthere fun p hp => (hmapped p hp).2)).mp hexecutable
    obtain ⟨hwritten, rfl⟩ := writeConfig_ok_iff.mp hfrom
    exact ⟨⟨hcreated, hmapped, hlisted, hchmod, hwritten⟩, rfl⟩
  · rintro ⟨hfeasible, rfl⟩
    have hcopied : ∀ p ∈ fixed,
        disk.refuses (.copy p.1 p.2) = none ∧ (disk.contents files p.1).isSome :=
      fun p hp => hfeasible.copied p (List.mem_append_left _ hp)
    have hcopiedPython : ∀ p ∈ python, disk.refuses (.copy p.1 p.2) = none ∧
        (disk.contents (copied (fixed.map disk.placed) files) p.1).isSome := by
      intro p hp
      rw [hkept p hp]
      exact hfeasible.copied p (List.mem_append_right _ hp)
    have hexecutable := (@setExecutable_ok_iff disk target _ _
      (hthere fun p hp => (hfeasible.copied p hp).2)).mpr ⟨hfeasible.executable, rfl⟩
    rw [← hall] at hexecutable
    refine run_bind_ok_iff.mpr ⟨(), _, createDirs_ok_iff.mpr ⟨hfeasible.created, rfl⟩, ?_⟩
    refine run_bind_ok_iff.mpr ⟨(), _, hcopyFiles.mpr ⟨hcopied, rfl⟩, ?_⟩
    refine run_bind_ok_iff.mpr
      ⟨(), _, (copyPython_ok_iff hpython).mpr ⟨hfeasible.listed, hcopiedPython, rfl⟩, ?_⟩
    refine run_bind_ok_iff.mpr ⟨(), _, hexecutable, ?_⟩
    refine writeConfig_ok_iff.mpr ⟨hfeasible.written, ?_⟩
    rw [hall]
    rfl

/-! ## The files at the end -/

/-- What a run leaves. -/
structure Installed (disk : Disk) (target : Str) (content : Option Str) (files files' : Files) :
    Prop where
  copied : ∀ p ∈ mappings disk target,
    (disk.contents files p.1).isSome ∧ disk.contents files' p.2 = disk.contents files p.1
  config : ∀ c, content = some c → disk.contents files' (configFile target) = some (Utf8.encode c)
  rest : ∀ place, (∀ path ∈ destinations disk target content, disk.place path ≠ place) →
    files' place = files place

/-- No copy has the configuration as its destination. -/
theorem destination_ne_config {p : Str × Str} (hp : p ∈ mappings disk target) :
    p.2 ≠ configFile target := by
  have hfixed : ∀ p ∈ fixedMappings, p.2 ≠ "config.toml".toList := by decide
  rw [mappings, List.mem_append, List.mem_map, List.mem_map] at hp
  obtain ⟨q, hq, rfl⟩ | ⟨name, -, rfl⟩ := hp
  · exact fun h => hfixed q hq (join_inj.mp h)
  · intro h
    change join (join target "python".toList) name = join target "config.toml".toList at h
    rw [join_python] at h
    exact absurd (join_inj.mp h) (fun h => nomatch h)

theorem installed_copied_or (files : Files) {place : Str}
    (hplace : content.isSome → place ≠ disk.place (configFile target)) :
    installed disk target content files place =
      Copies.copied ((mappings disk target).map disk.placed) files place := by
  cases content with
  | none => rfl
  | some c => exact Function.update_of_ne (hplace rfl) ..

theorem installed_installed (houtside : Outside disk target content) {files : Files}
    (hfeasible : Feasible disk target content files) :
    Installed disk target content files (installed disk target content files) where
  copied := fun p hp => by
    refine ⟨(hfeasible.copied p hp).2, ?_⟩
    have hplace : content.isSome → disk.place p.2 ≠ disk.place (configFile target) :=
      fun hsome heq => destination_ne_config hp (houtside.distinct _ (destination_of_mapping hp) _
        (mem_destinations_iff.mpr (.inr ⟨hsome, rfl⟩)) heq)
    exact (installed_copied_or files hplace).trans (houtside.copied_of_mapping files hp)
  config := fun c hc => by
    subst hc
    exact Function.update_self ..
  rest := fun place hplace => by
    have hconfig : content.isSome → place ≠ disk.place (configFile target) := fun hsome heq =>
      hplace _ (mem_destinations_iff.mpr (.inr ⟨hsome, rfl⟩)) heq.symm
    rw [installed_copied_or files hconfig]
    refine copied_of_not_mem files fun _ hp heq => ?_
    obtain ⟨m, hm, rfl⟩ := List.mem_map.mp hp
    exact hplace m.2 (destination_of_mapping hm) heq

/-- A source is left as it is. -/
theorem Installed.source (houtside : Outside disk target content) {files files' : Files}
    (h : Installed disk target content files files') {p : Str × Str} (hp : p ∈ mappings disk target) :
    disk.contents files' p.1 = disk.contents files p.1 :=
  h.rest _ fun path hpath => Ne.symm (houtside.sources p hp path hpath)

/-- The result of a second run is that of the first one. -/
theorem Installed.again (houtside : Outside disk target content) {files files' files'' : Files}
    (h : Installed disk target content files files')
    (h' : Installed disk target content files' files'') : files'' = files' := by
  funext place
  by_cases hplace : ∃ path ∈ destinations disk target content, disk.place path = place
  · obtain ⟨path, hpath, rfl⟩ := hplace
    obtain ⟨p, hp, rfl⟩ | ⟨hsome, rfl⟩ := mem_destinations_iff.mp hpath
    · exact (h'.copied p hp).2.trans ((h.source houtside hp).trans (h.copied p hp).2.symm)
    · obtain ⟨c, hc⟩ := Option.isSome_iff_exists.mp hsome
      exact (h'.config c hc).trans (h.config c hc).symm
  · exact h'.rest place fun path hpath heq => hplace ⟨path, hpath, heq⟩

theorem Feasible.again (houtside : Outside disk target content) {files files' : Files}
    (hfeasible : Feasible disk target content files)
    (h : Installed disk target content files files') : Feasible disk target content files' :=
  { hfeasible with
    copied := fun p hp => by
      rw [h.source houtside hp]
      exact hfeasible.copied p hp }

end

/-- What the arguments of an init container leave. -/
theorem installed_of_inits {parse : List Str → Option Cli} (hparse : InitOptions parse) {disk : Disk}
    {files files' : Files} {target content : Str} (hpath : target ≠ [])
    (htarget : target.head? ≠ some '-') (hcontent : content.head? ≠ some '-')
    (houtside : Outside disk target (some content))
    (h : inits parse disk files
      ["init".toList, "--target".toList, target, "--write-config".toList, content] =
        some (.ok files')) :
    Installed disk target (some content) files files' := by
  simp only [inits, hparse target content hpath htarget hcontent, Option.some.injEq] at h
  cases hrun : (cmdInit disk target (some content)).run files with
  | error e =>
    rw [hrun] at h
    cases h
  | ok r =>
    rw [hrun] at h
    cases h
    obtain ⟨hfeasible, hfiles⟩ := (cmdInit_ok_iff houtside).mp hrun
    rw [hfiles]
    exact installed_installed houtside hfeasible

/-- `init` succeeds exactly if nothing stops it. It then leaves the contents of every source
    in its destination, the configuration in its file and all other files as they were; run
    again on what it left, it succeeds and changes nothing. -/
theorem cmd_init_iff (disk : Disk) (target : Str) (content : Option Str) (files : Files)
    (houtside : Outside disk target content) :
    ((∃ files', (cmdInit disk target content).run files = .ok ((), files')) ↔
        Feasible disk target content files) ∧
      ∀ files', (cmdInit disk target content).run files = .ok ((), files') →
        Installed disk target content files files' ∧
          (cmdInit disk target content).run files' = .ok ((), files') := by
  have hiff (files files' : Files) := @cmdInit_ok_iff disk target content houtside files files'
  constructor
  · constructor
    · rintro ⟨files', hrun⟩
      exact ((hiff files files').mp hrun).1
    · intro hfeasible
      exact ⟨_, (hiff files _).mpr ⟨hfeasible, rfl⟩⟩
  · intro files' hrun
    obtain ⟨hfeasible, rfl⟩ := (hiff files files').mp hrun
    have hinstalled := installed_installed houtside hfeasible
    have hagain := hfeasible.again houtside hinstalled
    refine ⟨hinstalled, (hiff _ _).mpr ⟨hagain, ?_⟩⟩
    exact (hinstalled.again houtside (installed_installed houtside hagain)).symm

/-! ## A volume -/

/-- Every source is below `/usr`. -/
theorem usr_of_mem_mappings {disk : Disk} {target : Str} {p : Str × Str}
    (hp : p ∈ mappings disk target) : "/usr/".toList <+: p.1 := by
  have hfixed : ∀ p ∈ fixedMappings, "/usr/".toList <+: p.1 := by decide
  rw [mappings, List.mem_append, List.mem_map, List.mem_map] at hp
  obtain ⟨q, hq, rfl⟩ | ⟨name, -, rfl⟩ := hp
  · exact hfixed q hq
  · exact ⟨"lib/envproxy/python/".toList ++ name, rfl⟩

theorem join_of_mem_destinations {disk : Disk} {target : Str} {content : Option Str} {path : Str}
    (h : path ∈ destinations disk target content) : ∃ rel, path = join target rel := by
  obtain ⟨p, hp, rfl⟩ | ⟨-, rfl⟩ := mem_destinations_iff.mp h
  · rw [mappings, List.mem_append, List.mem_map, List.mem_map] at hp
    obtain ⟨q, -, rfl⟩ | ⟨name, -, rfl⟩ := hp
    · exact ⟨q.2, rfl⟩
    · exact ⟨_, join_python target name⟩
  · exact ⟨_, rfl⟩

/-- A target beside the image, without links. -/
theorem outside_of_not_usr {target : Str} {disk : Disk} (hplace : disk.place = id)
    (content : Option Str) (h : ∀ rel, ¬ "/usr/".toList <+: join target rel) :
    Outside disk target content where
  sources := fun p hp path hpath heq => by
    obtain ⟨rel, rfl⟩ := join_of_mem_destinations hpath
    rw [hplace] at heq
    have hsource : p.1 = join target rel := heq
    exact h rel (hsource ▸ usr_of_mem_mappings hp)
  distinct := fun path _ path' _ heq => by
    rw [hplace] at heq
    exact heq

/-- The default target. -/
theorem outside_volume {disk : Disk} (hplace : disk.place = id) (content : Option Str) :
    Outside disk "/envproxy".toList content := by
  apply outside_of_not_usr hplace
  rintro rel ⟨rest, hrest⟩
  have hsecond : 'u' = 'e' := (List.cons.inj (List.cons.inj hrest).2).1
  exact absurd hsecond (by decide)

/-- The Python support, as the image has it. -/
def shippedDisk : Disk where
  place := id
  refuses := fun _ => none
  pythonDir := some (.ok [.ok ⟨"sitecustomize.py".toList, true⟩,
    .ok ⟨"_envproxy_hook.py".toList, true⟩, .ok ⟨"__pycache__".toList, false⟩])

/-- The image, with the name of every file for its contents. -/
def shippedImage : Files := fun path =>
  if "/usr/".toList <+: path then some (Utf8.encode path) else none

theorem shipped_of_mem_mappings {disk : Disk} {target : Str} {p : Str × Str}
    (hp : p ∈ mappings disk target) : shippedDisk.contents shippedImage p.1 = some (Utf8.encode p.1) :=
  if_pos (usr_of_mem_mappings hp)

theorem feasible_shipped (target : Str) (content : Option Str) :
    Feasible shippedDisk target content shippedImage where
  created := fun _ _ => rfl
  copied := fun p hp => ⟨rfl, by rw [shipped_of_mem_mappings hp]; rfl⟩
  listed := by
    rintro _ ⟨⟩
    exact ⟨[_, _, _], rfl⟩
  executable := fun _ _ => rfl
  written := fun _ _ => rfl

theorem cmd_init_iff_volume :
    ∃ files', (cmdInit shippedDisk "/envproxy".toList (some "[agent]".toList)).run shippedImage =
        .ok ((), files') ∧
      files' "/envproxy/python/_envproxy_hook.py".toList =
        some (Utf8.encode "/usr/lib/envproxy/python/_envproxy_hook.py".toList) ∧
      (cmdInit shippedDisk "/envproxy".toList (some "[agent]".toList)).run files' = .ok ((), files') := by
  have houtside : Outside shippedDisk "/envproxy".toList (some "[agent]".toList) :=
    outside_volume rfl _
  obtain ⟨hiff, hleft⟩ := cmd_init_iff shippedDisk "/envproxy".toList (some "[agent]".toList)
    shippedImage houtside
  obtain ⟨files', hrun⟩ := hiff.mpr (feasible_shipped _ _)
  obtain ⟨hinstalled, hagain⟩ := hleft files' hrun
  have hhook : pythonMapping "/envproxy".toList "_envproxy_hook.py".toList ∈
      mappings shippedDisk "/envproxy".toList := by decide
  exact ⟨files', hrun, (hinstalled.copied _ hhook).2.trans (shipped_of_mem_mappings hhook), hagain⟩

end EnvProxy.CommandLine
