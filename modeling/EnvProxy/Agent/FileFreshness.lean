-- SUMMARY: Whether concurrent calls of the file backend answer from a file that was in place during the call.
import EnvProxy.Agent.FileStartup

/-!
# Freshness of concurrent calls

The tasks of `FileTasks`, each with the version of the file that was in place when its
call started. A call stores what it read and looks its key up in two steps; in between,
another call can store what it read earlier. `resolve_fresh` says that this is all that
can go wrong, and `outdated_served` that it does go wrong.

The file is only replaced, each time by a valid one. `started` is a record; no act reads
it.
-/

namespace EnvProxy.FileBackend

/-- The files there were, oldest first. -/
def Shared.versions (sh : Shared) : List SecretsFile := sh.past.reverse

structure DatedPhase where
  /-- The version in place when the call started. -/
  started : Nat
  phase : Phase

section

variable (path : Str) (fromStr : Str → Except Str Data)

/-- The record after an act: a call starts at the version in place. -/
def DatedPhase.startedAfter (call : DatedPhase) (sh : Shared) : Act → Nat
  | .call _ => sh.versions.length - 1
  | .next => call.started

def datedAct (a : Act) (sh : Shared) (call : DatedPhase) : Option (Shared × DatedPhase) :=
  (act path fromStr a sh call.phase).map fun st =>
    (st.1, { started := call.startedAfter sh a, phase := st.2 })

def datedTasks : Tasks Shared DatedPhase Act Event where
  act := datedAct path fromStr
  env := event

def datedMachine : Machine (Pool Nat Shared DatedPhase) (Move Nat Act Event) :=
  (datedTasks path fromStr).machine

end

/-- A backend that has loaded the file in place, and calls to come. -/
def serving (file : SecretsFile) (data : Data) : Pool Nat Shared DatedPhase where
  shared :=
    { file := some file
      cache := { data, lastModified := some file.modified }
      ready := true
      past := [file]
      sampled := none }
  tasks := fun _ => { started := 0, phase := .idle }

/-- The pool without the record. -/
def undated (p : Pool Nat Shared DatedPhase) : Pool Nat Shared Phase where
  shared := p.shared
  tasks := fun i => (p.tasks i).phase

section

variable (fromStr : Str → Except Str Data)

/-- The file is replaced by a valid one. -/
def Event.Valid : Event → Prop
  | .replace contents modified => ∃ data, Holds fromStr { contents, modified } data
  | .remove => False

/-- The tasks do what they like; the file is replaced by valid ones. -/
def replaced (_ : Pool Nat Shared DatedPhase) : Move Nat Act Event → Prop
  | .task _ _ => True
  | .env e => e.Valid fromStr

/-- The file had these contents when the version `n` was in place, or later. -/
def Shared.HadSince (sh : Shared) (n : Nat) (contents : Str) : Prop :=
  ∃ k file, n ≤ k ∧ sh.versions[k]? = some file ∧ readToString (some file) = .ok contents

/-- What a call stores is no older than any other call that has yet to look its key up. -/
def storesFresh (p : Pool Nat Shared DatedPhase) : Move Nat Act Event → Prop
  | .task i .next => ∀ n key current contents, p.tasks i = ⟨n, .reread key current contents⟩ →
      ∀ j n' key', j ≠ i → p.tasks j = ⟨n', .looking key'⟩ → p.shared.HadSince n' contents
  | _ => True

def careful (p : Pool Nat Shared DatedPhase) (move : Move Nat Act Event) : Prop :=
  replaced fromStr p move ∧ storesFresh p move

end

/-! ## What holds of careful runs -/

variable {path : Str} {fromStr : Str → Except Str Data}

/-- The file in place is the last version, every version is valid, and no two have the
    same time. -/
structure Shared.Versioned (fromStr : Str → Except Str Data) (sh : Shared) : Prop where
  current : sh.file = sh.versions.getLast?
  placed : sh.file ≠ none
  valid : ∀ file ∈ sh.versions, ∃ data, Holds fromStr file data
  times : (sh.versions.map SecretsFile.modified).Nodup

/-- A time is that of a version from `n` on, and `P` holds of a version no older. -/
def Shared.DatedSince (sh : Shared) (n : Nat) (time : Option Nat) (P : SecretsFile → Prop) : Prop :=
  ∃ k file k' file', n ≤ k ∧ sh.versions[k]? = some file ∧ time = some file.modified ∧
    k ≤ k' ∧ sh.versions[k']? = some file' ∧ P file'

/-- A version from `n` on holds the data. -/
def Shared.HeldSince (fromStr : Str → Except Str Data) (sh : Shared) (n : Nat) (data : Data) : Prop :=
  ∃ k file, n ≤ k ∧ sh.versions[k]? = some file ∧ Holds fromStr file data

/-- What a call knows, by its next step. -/
def DatedPhase.Known (fromStr : Str → Except Str Data) (sh : Shared) (call : DatedPhase) : Prop :=
  match call.phase with
  | .idle | .answered _ _ => True
  | .asked _ => call.started < sh.versions.length
  | .stated _ current | .changed _ current => sh.DatedSince call.started current fun _ => True
  | .reread _ current contents =>
    sh.DatedSince call.started current fun file => readToString (some file) = .ok contents
  | .looking _ => sh.HeldSince fromStr call.started sh.cache.data
  | _ => False

structure Fresh (fromStr : Str → Except Str Data) (p : Pool Nat Shared DatedPhase) : Prop where
  versioned : p.shared.Versioned fromStr
  cached : p.shared.DatedSince 0 p.shared.cache.lastModified fun file =>
    Holds fromStr file p.shared.cache.data
  known : ∀ i, (p.tasks i).Known fromStr p.shared

/-! ## Versions -/

theorem Shared.Versioned.version_unique {sh : Shared} (h : sh.Versioned fromStr) {k k' : Nat}
    {file file' : SecretsFile} (hk : sh.versions[k]? = some file) (hk' : sh.versions[k']? = some file')
    (htime : file.modified = file'.modified) : k = k' := by
  have hlt : k < (sh.versions.map SecretsFile.modified).length := by
    rw [List.length_map]
    exact (List.getElem?_eq_some_iff.mp hk).1
  refine (List.getElem?_inj hlt h.times).mp ?_
  rw [List.getElem?_map, List.getElem?_map, hk, hk', Option.map_some, Option.map_some, htime]

/-- The file in place is the last version. -/
theorem Shared.Versioned.last {sh : Shared} (h : sh.Versioned fromStr) :
    ∃ file, sh.file = some file ∧ sh.versions[sh.versions.length - 1]? = some file ∧
      0 < sh.versions.length := by
  obtain ⟨file, hfile⟩ := Option.ne_none_iff_exists'.mp h.placed
  have hlast := h.current
  rw [hfile, List.getLast?_eq_getElem?] at hlast
  exact ⟨file, hfile, hlast.symm,
    Nat.lt_of_le_of_lt (Nat.zero_le _) (List.getElem?_eq_some_iff.mp hlast.symm).1⟩

theorem lt_versions {sh : Shared} {k : Nat} {file : SecretsFile} (h : sh.versions[k]? = some file) :
    k < sh.versions.length :=
  (List.getElem?_eq_some_iff.mp h).1

theorem Shared.DatedSince.mono {sh : Shared} {n : Nat} {time : Option Nat} {P Q : SecretsFile → Prop}
    (h : sh.DatedSince n time P) (hPQ : ∀ file, P file → Q file) : sh.DatedSince n time Q := by
  obtain ⟨k, file, k', file', hn, hk, htime, hle, hk', hP⟩ := h
  exact ⟨k, file, k', file', hn, hk, htime, hle, hk', hPQ file' hP⟩

/-- What is held since a time was is held since the version of that time. -/
theorem Shared.DatedSince.held {sh : Shared} {n : Nat} {time : Option Nat} {P : SecretsFile → Prop}
    {data : Data} (h : sh.DatedSince n time P) (hP : ∀ file, P file → Holds fromStr file data) :
    sh.HeldSince fromStr n data := by
  obtain ⟨k, file, k', file', hn, hk, -, hle, hk', hfile'⟩ := h
  exact ⟨k', file', Nat.le_trans hn hle, hk', hP file' hfile'⟩

/-- Two records of one time are about one version. -/
theorem Shared.DatedSince.join {sh : Shared} (hversioned : sh.Versioned fromStr) {n m : Nat}
    {time : Option Nat} {P Q : SecretsFile → Prop} (h : sh.DatedSince n time P)
    (h' : sh.DatedSince m time Q) : sh.DatedSince n time Q := by
  obtain ⟨k, file, -, -, hn, hk, rfl, -, -, -⟩ := h
  obtain ⟨l, file', l', file'', -, hl, htime, hle, hl', hQ⟩ := h'
  obtain rfl := hversioned.version_unique hk hl (Option.some.inj htime)
  exact ⟨k, file, l', file'', hn, hk, rfl, hle, hl', hQ⟩

/-- The versions are those before, and perhaps some more. -/
def Shared.Extends (sh sh' : Shared) : Prop := sh.versions <+: sh'.versions

theorem Shared.Extends.version {sh sh' : Shared} (h : sh.Extends sh') {k : Nat} {file : SecretsFile}
    (hk : sh.versions[k]? = some file) : sh'.versions[k]? = some file := by
  obtain ⟨newer, hnewer⟩ := h
  rw [← hnewer, List.getElem?_append_left (lt_versions hk), hk]

theorem Shared.Extends.dated {sh sh' : Shared} (h : sh.Extends sh') {n : Nat} {time : Option Nat}
    {P : SecretsFile → Prop} (hdated : sh.DatedSince n time P) : sh'.DatedSince n time P := by
  obtain ⟨k, file, k', file', hn, hk, htime, hle, hk', hP⟩ := hdated
  exact ⟨k, file, k', file', hn, h.version hk, htime, hle, h.version hk', hP⟩

theorem Shared.Extends.held {sh sh' : Shared} (h : sh.Extends sh') {n : Nat} {data : Data}
    (hheld : sh.HeldSince fromStr n data) : sh'.HeldSince fromStr n data := by
  obtain ⟨k, file, hn, hk, hfile⟩ := hheld
  exact ⟨k, file, hn, h.version hk, hfile⟩

/-- A call knows what it knew, if it has what it needs of the data it is about to look in. -/
theorem DatedPhase.Known.extends {sh sh' : Shared} {call : DatedPhase} (hknown : call.Known fromStr sh)
    (h : sh.Extends sh')
    (hlooking : ∀ key, call.phase = .looking key → sh'.HeldSince fromStr call.started sh'.cache.data) :
    call.Known fromStr sh' := by
  obtain ⟨n, phase⟩ := call
  cases phase with
  | asked key => exact Nat.lt_of_lt_of_le hknown h.length_le
  | stated key current => exact h.dated hknown
  | changed key current => exact h.dated hknown
  | reread key current contents => exact h.dated hknown
  | looking key => exact hlooking key rfl
  | idle => exact trivial
  | answered key result => exact trivial
  | _ => exact hknown

/-! ## Steps -/

theorem Does.extends {a : Act} {sh sh' : Shared} {ph ph' : Phase}
    (h : Does path fromStr sh a ph sh' ph') : sh.Extends sh' := by
  have hversions : sh'.versions = sh.versions := congrArg List.reverse h.keeps.2
  have hextends : sh.versions <+: sh'.versions := hversions.symm ▸ List.prefix_rfl
  exact hextends

theorem Shared.Versioned.congr {sh sh' : Shared} (h : sh.Versioned fromStr) (hfile : sh'.file = sh.file)
    (hpast : sh'.past = sh.past) : sh'.Versioned fromStr := by
  have hversions : sh'.versions = sh.versions := congrArg List.reverse hpast
  constructor
  · rw [hfile, hversions]
    exact h.current
  · rw [hfile]
    exact h.placed
  · rw [hversions]
    exact h.valid
  · rw [hversions]
    exact h.times

/-- The file in place can be read. -/
theorem Shared.Versioned.reads {sh : Shared} (h : sh.Versioned fromStr) :
    ∃ contents, readToString sh.file = .ok contents := by
  obtain ⟨file, hfile, hlast, -⟩ := h.last
  obtain ⟨data, contents, hread, -⟩ := h.valid file (List.mem_of_getElem? hlast)
  exact ⟨contents, by rw [hfile, hread]⟩

/-- What a call does keeps the cache dated, and lets it know what its next step needs. -/
theorem Does.fresh {a : Act} {sh sh' : Shared} {call : DatedPhase} {ph' : Phase}
    (h : Does path fromStr sh a call.phase sh' ph') (hversioned : sh.Versioned fromStr)
    (hcached : sh.DatedSince 0 sh.cache.lastModified fun file => Holds fromStr file sh.cache.data)
    (hknown : call.Known fromStr sh) :
    (sh'.DatedSince 0 sh'.cache.lastModified fun file => Holds fromStr file sh'.cache.data) ∧
      DatedPhase.Known fromStr sh' { started := call.startedAfter sh a, phase := ph' } := by
  obtain ⟨contents₀, hreads⟩ := hversioned.reads
  obtain ⟨file₀, hfile₀, hlast, hpos⟩ := hversioned.last
  obtain ⟨n, phase⟩ := call
  dsimp only at h
  cases h with
  | called hready => exact ⟨hcached, Nat.sub_lt hpos Nat.one_pos⟩
  | openedMissing _ => exact absurd hknown id
  | openedBroken _ => exact absurd hknown id
  | opened _ => exact absurd hknown id
  | cleared => exact absurd hknown id
  | sampled => exact absurd hknown id
  | rejected _ => exact absurd hknown id
  | loaded _ => exact absurd hknown id
  | @stated key =>
    have hstarted : n < sh.versions.length := hknown
    refine ⟨hcached, sh.versions.length - 1, file₀, sh.versions.length - 1, file₀,
      Nat.le_sub_one_of_lt hstarted, hlast, ?_, Nat.le_refl _, hlast, trivial⟩
    rw [modified, hfile₀, Option.map_some]
  | changed hneeds => exact ⟨hcached, hknown⟩
  | @unchanged key current hneeds =>
    -- The time that was sampled is the cached one, so the cached data are no older.
    have hsame : sh.cache.lastModified = current := needsReload_eq_false_iff.mp hneeds
    rw [hsame] at hcached
    have hdated : sh.DatedSince n current fun _ => True := hknown
    exact ⟨hsame ▸ hcached, (hdated.join hversioned hcached).held fun _ h => h⟩
  | rereadMissing hread =>
    rw [hreads] at hread
    cases hread
  | rereadBroken hread =>
    rw [hreads] at hread
    cases hread
  | @reread key current contents hread =>
    obtain ⟨k, file, -, -, hn, hk, htime, -, -, -⟩ := hknown
    rw [hfile₀] at hread
    exact ⟨hcached, k, file, sh.versions.length - 1, file₀, hn, hk, htime,
      Nat.le_sub_one_of_lt (lt_versions hk), hlast, hread⟩
  | emptied => exact absurd hknown id
  | refused _ => exact ⟨hcached, trivial⟩
  | @stored key current contents data hparse =>
    have hdated : sh.DatedSince n current fun file => readToString (some file) = .ok contents := hknown
    have hholds : sh.DatedSince n current fun file => Holds fromStr file data :=
      hdated.mono fun file hread => ⟨contents, hread, parse_eq_ok_iff.mp hparse⟩
    refine ⟨?_, hholds.held fun _ h => h⟩
    obtain ⟨k, file, k', file', -, hrest⟩ := hholds
    exact ⟨k, file, k', file', Nat.zero_le k, hrest⟩
  | looked => exact ⟨hcached, trivial⟩

/-- A call changes the cached data by storing what it read, and not otherwise. -/
theorem Does.data_cases {a : Act} {sh sh' : Shared} {call : DatedPhase} {ph' : Phase}
    (h : Does path fromStr sh a call.phase sh' ph') (hknown : call.Known fromStr sh) :
    sh'.cache.data = sh.cache.data ∨
      ∃ key current contents, a = .next ∧ call.phase = .reread key current contents ∧
        fromStr contents = .ok sh'.cache.data := by
  obtain ⟨n, phase⟩ := call
  dsimp only at h
  cases h with
  | cleared => exact absurd hknown id
  | loaded _ => exact absurd hknown id
  | emptied => exact absurd hknown id
  | @stored key current contents data hparse =>
    exact .inr ⟨key, current, contents, rfl, rfl, parse_eq_ok_iff.mp hparse⟩
  | _ => exact .inl rfl

/-- A replacement adds a version. -/
theorem Shared.Versioned.event {e : Event} {sh sh' : Shared} (hversioned : sh.Versioned fromStr)
    (h : FileBackend.event e sh = some sh') (hvalid : e.Valid fromStr) :
    sh'.Versioned fromStr ∧ sh.Extends sh' ∧ sh'.cache = sh.cache := by
  cases e with
  | remove => exact absurd hvalid id
  | replace contents modified =>
    obtain ⟨data, hholds⟩ := hvalid
    simp only [FileBackend.event] at h
    split at h
    · cases h
    · next hnew =>
      cases h
      have hversions : Shared.versions
          { sh with file := some ⟨contents, modified⟩, past := ⟨contents, modified⟩ :: sh.past } =
          sh.versions ++ [⟨contents, modified⟩] :=
        List.reverse_cons
      refine ⟨⟨?_, Option.some_ne_none _, ?_, ?_⟩, ?_, rfl⟩
      · rw [hversions, List.getLast?_concat]
      · rw [hversions]
        intro file hfile
        obtain hold | hlast := List.mem_append.mp hfile
        · exact hversioned.valid file hold
        · obtain rfl := List.mem_singleton.mp hlast
          exact ⟨data, hholds⟩
      · rw [hversions, List.map_append, List.map_singleton]
        refine List.nodup_append.mpr ⟨hversioned.times, List.pairwise_singleton _ _, ?_⟩
        intro time htime time' htime' heq
        obtain ⟨old, hold, rfl⟩ := List.mem_map.mp htime
        obtain rfl := List.mem_singleton.mp htime'
        refine hnew (List.any_eq_true.mpr ⟨old, List.mem_reverse.mp hold, decide_eq_true heq⟩)
      · unfold Shared.Extends
        rw [hversions]
        exact List.prefix_append _ _

theorem step_dated_iff {p p' : Pool Nat Shared DatedPhase} {i : Nat} {a : Act} :
    (datedMachine path fromStr).step p (.task i a) = some p' ↔
      ∃ sh ph, Does path fromStr p.shared a (p.tasks i).phase sh ph ∧
        p' = { shared := sh,
               tasks := Function.update p.tasks i
                 { started := (p.tasks i).startedAfter p.shared a, phase := ph } } := by
  simp only [datedMachine, Tasks.step_task_iff, datedTasks, datedAct, Option.map_eq_some_iff,
    Prod.mk.injEq, Prod.exists, act_eq_some_iff]
  constructor
  · rintro ⟨sh, call, ⟨sh', ph, hdoes, rfl, rfl⟩, rfl⟩
    exact ⟨sh', ph, hdoes, rfl⟩
  · rintro ⟨sh, ph, hdoes, rfl⟩
    exact ⟨sh, _, ⟨sh, ph, hdoes, rfl, rfl⟩, rfl⟩

/-- The record changes nothing: without it, a run is one of the tasks of `FileTasks`. -/
theorem reaches_undated {ok : Pool Nat Shared DatedPhase → Move Nat Act Event → Prop}
    {p q : Pool Nat Shared DatedPhase} (h : (datedMachine path fromStr).Reaches ok p q) :
    (machine path fromStr).Reaches Machine.anyMove (undated p) (undated q) := by
  induction h with
  | refl => exact .refl
  | @step s₂ s₃ move _ _ hstep ih =>
    refine .step ih trivial (a := move) ?_
    cases move with
    | task i a =>
      obtain ⟨sh, ph, hdoes, rfl⟩ := step_dated_iff.mp hstep
      refine Tasks.step_task_iff.mpr ⟨sh, ph, act_eq_some_iff.mpr hdoes, ?_⟩
      simp only [undated, Pool.mk.injEq, true_and]
      funext j
      by_cases hj : j = i
      · subst hj
        simp only [Function.update_self]
      · simp only [Function.update_of_ne hj]
    | env e =>
      obtain ⟨sh, henv, rfl⟩ := Tasks.step_env_iff.mp hstep
      exact Tasks.step_env_iff.mpr ⟨sh, henv, rfl⟩

theorem Fresh.step {p p' : Pool Nat Shared DatedPhase} {move : Move Nat Act Event}
    (hfresh : Fresh fromStr p) (hok : careful fromStr p move)
    (hstep : (datedMachine path fromStr).step p move = some p') : Fresh fromStr p' := by
  obtain ⟨hversioned, hcached, hknown⟩ := hfresh
  obtain ⟨hreplaced, hstores⟩ := hok
  cases move with
  | task i a =>
    obtain ⟨sh, ph, hdoes, rfl⟩ := step_dated_iff.mp hstep
    obtain ⟨hcached', hknown'⟩ := hdoes.fresh hversioned hcached (hknown i)
    refine ⟨hversioned.congr hdoes.keeps.1 hdoes.keeps.2, hcached', fun j => ?_⟩
    by_cases hj : j = i
    · subst hj
      simpa only [Function.update_self] using hknown'
    simp only [Function.update_of_ne hj]
    refine (hknown j).extends hdoes.extends fun key hlooking => ?_
    obtain hsame | ⟨key', current, contents, rfl, hreread, hdata⟩ := hdoes.data_cases (hknown i)
    · have hheld := hknown j
      unfold DatedPhase.Known at hheld
      rw [hlooking] at hheld
      rw [hsame]
      exact hdoes.extends.held hheld
    · -- Another call stores; what it stores is no older than this one.
      obtain ⟨k, file, hn, hk, hread⟩ :=
        hstores (p.tasks i).started key' current contents (by rw [← hreread]) j
          (p.tasks j).started key hj (by rw [← hlooking])
      exact ⟨k, file, hn, hdoes.extends.version hk, contents, hread, hdata⟩
  | env e =>
    obtain ⟨sh, henv, rfl⟩ := Tasks.step_env_iff.mp hstep
    obtain ⟨hversioned', hextends, hcache⟩ := hversioned.event henv hreplaced
    refine ⟨hversioned', ?_, fun j => (hknown j).extends hextends fun key hlooking => ?_⟩
    · rw [hcache]
      exact hextends.dated hcached
    · have hheld := hknown j
      unfold DatedPhase.Known at hheld
      rw [hlooking] at hheld
      rw [hcache]
      exact hextends.held hheld

theorem fresh_serving {file : SecretsFile} {data : Data} (hdata : Holds fromStr file data) :
    Fresh fromStr (serving file data) := by
  have hversions : (serving file data).shared.versions = [file] := rfl
  refine ⟨⟨rfl, Option.some_ne_none file, ?_, ?_⟩, ?_, fun i => trivial⟩
  · rw [hversions]
    intro file' hfile'
    obtain rfl := List.mem_singleton.mp hfile'
    exact ⟨data, hdata⟩
  · rw [hversions]
    exact List.pairwise_singleton _ _
  · exact ⟨0, file, 0, file, Nat.le_refl 0, rfl, rfl, Nat.le_refl 0, rfl, hdata⟩

theorem fresh_reaches {file : SecretsFile} {data : Data} {p : Pool Nat Shared DatedPhase}
    (hdata : Holds fromStr file data)
    (h : (datedMachine path fromStr).Reaches (careful fromStr) (serving file data) p) : Fresh fromStr p :=
  h.invariant (fresh_serving hdata) fun _ _ _ hfresh hok hstep => hfresh.step hok hstep

/-- In a careful run a call answers from a version of the file that was in place when it
    started, or later. -/
theorem resolve_fresh {file : SecretsFile} {data : Data} {p q : Pool Nat Shared DatedPhase} {i n : Nat}
    {key : Str} {x : Option Str} (hdata : Holds fromStr file data)
    (hreach : (datedMachine path fromStr).Reaches (careful fromStr) (serving file data) p)
    (hstep : (datedMachine path fromStr).step p (.task i .next) = some q)
    (hanswer : q.tasks i = ⟨n, .answered key (.ok x)⟩) :
    ∃ k file' data', n ≤ k ∧ q.shared.versions[k]? = some file' ∧ Holds fromStr file' data' ∧
      x = data' key := by
  obtain ⟨-, -, hknown⟩ := fresh_reaches hdata hreach
  obtain ⟨sh, ph, hdoes, rfl⟩ := step_dated_iff.mp hstep
  simp only [Function.update_self, DatedPhase.mk.injEq] at hanswer
  obtain ⟨rfl, rfl⟩ := hanswer
  have hcall := hknown i
  generalize p.tasks i = call at hdoes hcall
  obtain ⟨started, phase⟩ := call
  dsimp only at hdoes
  cases hdoes with
  | emptied => exact absurd hcall id
  | looked =>
    obtain ⟨k, file', hn, hk, hholds⟩ := hcall
    exact ⟨k, file', p.shared.cache.data, hn, hk, hholds, rfl⟩

/-! ## Stores that are not fresh -/

/-- A call that is about to look its key up answers from what another one stores. -/
theorem stored_answered {p p' : Pool Nat Shared DatedPhase} {i j n n' : Nat} {key key' : Str}
    {current : Option Nat} {contents : Str} {data : Data} (hj : j ≠ i)
    (hreread : p.tasks i = ⟨n, .reread key current contents⟩) (hdata : fromStr contents = .ok data)
    (hlooking : p.tasks j = ⟨n', .looking key'⟩)
    (hstep : (datedMachine path fromStr).step p (.task i .next) = some p') :
    ∃ q, (datedMachine path fromStr).step p' (.task j .next) = some q ∧
      q.tasks j = ⟨n', .answered key' (.ok (data key'))⟩ := by
  obtain ⟨sh, ph, hdoes, rfl⟩ := step_dated_iff.mp hstep
  rw [hreread] at hdoes
  cases hdoes with
  | refused hparse =>
    rw [parse_eq_ok_iff.mpr hdata] at hparse
    cases hparse
  | @stored _ _ _ data' hparse =>
    rw [parse_eq_ok_iff.mpr hdata] at hparse
    cases hparse
    generalize hp' : ({ shared := _, tasks := _ } : Pool Nat Shared DatedPhase) = p'
    have hcall : p'.tasks j = ⟨n', .looking key'⟩ := by
      rw [← hp']
      simp only [Function.update_of_ne hj, hlooking]
    have hcache : p'.shared.cache.data = data := by
      rw [← hp']
    have hlooked : Does path fromStr p'.shared .next (p'.tasks j).phase p'.shared
        (.answered key' (.ok (data key'))) := by
      rw [hcall, ← hcache]
      exact .looked
    refine ⟨_, step_dated_iff.mpr ⟨p'.shared, _, hlooked, rfl⟩, ?_⟩
    simp only [Function.update_self, hcall]
    rfl

/-- What a call has read holds a string map. -/
theorem Fresh.reread_valid {p : Pool Nat Shared DatedPhase} (h : Fresh fromStr p) {i n : Nat} {key : Str}
    {current : Option Nat} {contents : Str} (hreread : p.tasks i = ⟨n, .reread key current contents⟩) :
    ∃ data, fromStr contents = .ok data := by
  have hknown := h.known i
  rw [hreread] at hknown
  obtain ⟨-, -, k, file, -, -, -, -, hk, hread⟩ := hknown
  obtain ⟨data, contents', hread', hdata⟩ := h.versioned.valid file (List.mem_of_getElem? hk)
  cases hread.symm.trans hread'
  exact ⟨data, hdata⟩

/-- A store that is not fresh is what another call can then answer from, although the file
    has not had these contents since that call started. -/
theorem outdated_served {file : SecretsFile} {data : Data} {p p' : Pool Nat Shared DatedPhase} {i : Nat}
    {a : Act} (hdata : Holds fromStr file data)
    (hreach : (datedMachine path fromStr).Reaches (careful fromStr) (serving file data) p)
    (hstep : (datedMachine path fromStr).step p (.task i a) = some p')
    (hbad : ¬ storesFresh p (.task i a)) :
    ∃ j n key contents data' q, ¬ p.shared.HadSince n contents ∧ fromStr contents = .ok data' ∧
      (datedMachine path fromStr).step p' (.task j .next) = some q ∧
      q.tasks j = ⟨n, .answered key (.ok (data' key))⟩ := by
  cases a with
  | call key => exact absurd trivial hbad
  | next =>
    simp only [storesFresh, not_forall] at hbad
    obtain ⟨n, key, current, contents, hreread, j, n', key', hj, hlooking, hhad⟩ := hbad
    obtain ⟨data', hdata'⟩ := (fresh_reaches hdata hreach).reread_valid hreread
    obtain ⟨q, hq, hanswered⟩ := stored_answered hj hreread hdata' hlooking hstep
    exact ⟨j, n', key', contents, data', q, hhad, hdata', hq, hanswered⟩

/-! ## Two calls -/

section

def DatedPhase.idle : DatedPhase where
  started := 0
  phase := .idle

variable {sh sh' : Shared} {moving other : DatedPhase} {a : Act} {ph : Phase}

theorem step_calls (side : Pool.Side) (h : Does path fromStr sh a moving.phase sh' ph) :
    (datedMachine path fromStr).step (.two .idle sh (side.pair moving other)) (.task side.index a) =
      some (.two .idle sh' (side.pair { started := moving.startedAfter sh a, phase := ph } other)) := by
  refine Tasks.step_two side ?_
  simp only [datedTasks, datedAct, act_eq_some_iff.mpr h, Option.map_some]

theorem step_written {pair : DatedPhase × DatedPhase} {e : Event} (h : event e sh = some sh') :
    (datedMachine path fromStr).step (.two .idle sh pair) (.env e) = some (.two .idle sh' pair) :=
  Tasks.step_env_iff.mpr ⟨sh', h, rfl⟩

/-- A step is careful if a store finds the other call not looking, or is no older than
    it. -/
theorem careful_calls (side : Pool.Side)
    (h : ∀ n key current contents n' key', moving = ⟨n, .reread key current contents⟩ →
      other = ⟨n', .looking key'⟩ → sh.HadSince n' contents) :
    careful fromStr (.two .idle sh (side.pair moving other)) (.task side.index a) := by
  refine ⟨trivial, ?_⟩
  cases a with
  | call key => exact trivial
  | next =>
    intro n key current contents hreread j n' key' hj hlooking
    rw [Pool.two_tasks] at hreread
    obtain hother | hidle := Pool.two_others .idle sh side moving other hj
    · exact h n key current contents n' key' hreread (hother.symm.trans hlooking)
    · rw [hidle] at hlooking
      cases hlooking

/-- A call that finds the file changed reads it. -/
theorem reaches_reads (side : Pool.Side) {file : SecretsFile} {text : Str} (key : Str)
    (hready : sh.ready = true) (hfile : sh.file = some file)
    (hchanged : sh.cache.lastModified ≠ some file.modified) (hread : readToString (some file) = .ok text) :
    (datedMachine path fromStr).Reaches (careful fromStr) (.two .idle sh (side.pair .idle other))
      (.two .idle sh
        (side.pair ⟨sh.versions.length - 1, .reread key (some file.modified) text⟩ other)) := by
  have hmodified : modified sh.file = some file.modified := by
    rw [hfile]
    rfl
  have hneeds : needsReload sh.cache.lastModified (some file.modified) = true := by
    rw [← Bool.not_eq_false, needsReload_eq_false_iff]
    exact hchanged
  have hcall : Does path fromStr sh (.call key) .idle sh (.asked key) := .called hready
  have hstat : Does path fromStr sh .next (.asked key) sh (.stated key (some file.modified)) :=
    hmodified ▸ .stated
  have hcompare : Does path fromStr sh .next (.stated key (some file.modified)) sh
      (.changed key (some file.modified)) := .changed hneeds
  have hreread : Does path fromStr sh .next (.changed key (some file.modified)) sh
      (.reread key (some file.modified) text) := .reread (hfile ▸ hread)
  have hcareful : ∀ n ph a, (∀ key current contents, ph ≠ .reread key current contents) →
      careful fromStr (.two .idle sh (side.pair ⟨n, ph⟩ other)) (.task side.index a) := by
    intro n ph a hph
    refine careful_calls side fun n' key current contents _ _ hmoving _ => ?_
    cases hmoving
    exact absurd rfl (hph key current contents)
  exact .head (hcareful _ _ _ (by simp)) (step_calls side hcall)
    (.head (hcareful _ _ _ (by simp)) (step_calls side hstat)
    (.head (hcareful _ _ _ (by simp)) (step_calls side hcompare)
    (.head (hcareful _ _ _ (by simp)) (step_calls side hreread) .refl)))

end

theorem serving_eq (file : SecretsFile) (data : Data) :
    serving file data = .two .idle (serving file data).shared (.idle, .idle) :=
  (Pool.two_rest ..).symm

/-- The file is rotated, and a call reads it. -/
theorem reaches_rotated {text : Str} (hread : readToString (some rotated) = .ok text) :
    (datedMachine [] readJson).Reaches (careful readJson) (serving original (single "original".toList))
      (.two .idle rotatedShared (⟨1, .reread "KEY".toList (some 2) text⟩, .idle)) := by
  have hrotate : (datedMachine [] readJson).step (serving original (single "original".toList))
      (.env (.replace rotated.contents 2)) = some (.two .idle rotatedShared (.idle, .idle)) := by
    rw [serving_eq]
    exact step_written rfl
  have hreads : (datedMachine [] readJson).Reaches (careful readJson)
      (.two .idle rotatedShared (.idle, .idle))
      (.two .idle rotatedShared (⟨1, .reread "KEY".toList (some 2) text⟩, .idle)) :=
    reaches_reads .first "KEY".toList rfl rfl (by decide) hread
  have hcareful : careful readJson (serving original (single "original".toList))
      (.env (.replace rotated.contents 2)) := ⟨⟨_, rotated_holds⟩, trivial⟩
  exact .head hcareful hrotate hreads

/-- The file is rotated, and two calls read it. The first one stores it while the second
    one is about to look its key up. -/
theorem resolve_fresh_rotated :
    ∃ p q, (datedMachine [] readJson).Reaches (careful readJson)
        (serving original (single "original".toList)) p ∧
      (datedMachine [] readJson).step p (.task 2 .next) = some q ∧
      q.tasks 2 = ⟨1, .answered "KEY".toList (.ok (some "rotated".toList))⟩ ∧
      ∃ k file data, 1 ≤ k ∧ q.shared.versions[k]? = some file ∧ Holds readJson file data ∧
        some "rotated".toList = data "KEY".toList := by
  let key : Str := "KEY".toList
  let sh₁ : Shared := rotatedShared
  let sh₂ : Shared := { sh₁ with cache := { data := single "rotated".toList, lastModified := some 2 } }
  obtain ⟨text, hread, hdata⟩ := rotated_holds
  have hparse : parse [] readJson text = .ok (single "rotated".toList) := parse_eq_ok_iff.mpr hdata
  have hfirst : (datedMachine [] readJson).Reaches (careful readJson)
      (serving original (single "original".toList))
      (.two .idle sh₁ (⟨1, .reread key (some 2) text⟩, .idle)) := reaches_rotated hread
  have hsecond : (datedMachine [] readJson).Reaches (careful readJson)
      (.two .idle sh₁ (⟨1, .reread key (some 2) text⟩, .idle))
      (.two .idle sh₁ (⟨1, .reread key (some 2) text⟩, ⟨1, .reread key (some 2) text⟩)) :=
    reaches_reads .second key rfl rfl (by decide) hread
  have hstore₂ : Does [] readJson sh₁ .next (.reread key (some 2) text) sh₂ (.looking key) :=
    .stored hparse
  have hstore₁ : Does [] readJson sh₂ .next (.reread key (some 2) text) sh₂ (.looking key) :=
    .stored hparse
  have hlook : Does [] readJson sh₂ .next (.looking key) sh₂
      (.answered key (.ok (some "rotated".toList))) := .looked
  have hcareful₂ : careful readJson
      (.two .idle sh₁ (⟨1, .reread key (some 2) text⟩, ⟨1, .reread key (some 2) text⟩))
      (.task 2 .next) := by
    refine careful_calls .second fun _ _ _ _ _ _ _ hlooking => ?_
    cases hlooking
  -- The second call started at the version that the first one stores.
  have hcareful₁ : careful readJson (.two .idle sh₂ (⟨1, .reread key (some 2) text⟩, ⟨1, .looking key⟩))
      (.task 1 .next) := by
    refine careful_calls .first fun _ _ _ contents n' _ hreread hlooking => ?_
    cases hreread
    cases hlooking
    exact ⟨1, rotated, Nat.le_refl 1, rfl, hread⟩
  have hstores : (datedMachine [] readJson).Reaches (careful readJson)
      (.two .idle sh₁ (⟨1, .reread key (some 2) text⟩, ⟨1, .reread key (some 2) text⟩))
      (.two .idle sh₂ (⟨1, .looking key⟩, ⟨1, .looking key⟩)) :=
    .head hcareful₂ (step_calls .second hstore₂) (.head hcareful₁ (step_calls .first hstore₁) .refl)
  have hreach := (hfirst.trans hsecond).trans hstores
  have hanswered : (datedMachine [] readJson).step (.two .idle sh₂ (⟨1, .looking key⟩, ⟨1, .looking key⟩))
      (.task 2 .next) =
        some (.two .idle sh₂ (⟨1, .looking key⟩, ⟨1, .answered key (.ok (some "rotated".toList))⟩)) :=
    step_calls .second hlook
  exact ⟨_, _, hreach, hanswered, rfl, resolve_fresh original_holds hreach hanswered rfl⟩

/-- The original text, put in place again. -/
def restored : SecretsFile where
  contents := original.contents
  modified := 3

theorem restored_holds : Holds readJson restored (single "original".toList) := original_holds

/-- A file is rotated while a call reads it, and rotated again. A second call, started
    after that, answers with what the first one read. -/
theorem resolve_outdated :
    ∃ p q, (datedMachine [] readJson).Reaches (replaced readJson)
        (serving original (single "original".toList)) p ∧
      (datedMachine [] readJson).step p (.task 2 .next) = some q ∧
      q.tasks 2 = ⟨2, .answered "KEY".toList (.ok (some "rotated".toList))⟩ ∧
      ∀ k file data, 2 ≤ k → q.shared.versions[k]? = some file → Holds readJson file data →
        some "rotated".toList ≠ data "KEY".toList := by
  let key : Str := "KEY".toList
  let sh₁ : Shared := rotatedShared
  let sh₂ : Shared := { sh₁ with file := some restored, past := [restored, rotated, original] }
  let sh₃ : Shared := { sh₂ with cache := { data := single "original".toList, lastModified := some 3 } }
  let sh₄ : Shared := { sh₃ with cache := { data := single "rotated".toList, lastModified := some 2 } }
  obtain ⟨oldText, hold, holdData⟩ := rotated_holds
  obtain ⟨newText, hnew, hnewData⟩ := restored_holds
  -- The first call reads the rotated file.
  have hfirst : (datedMachine [] readJson).Reaches (careful readJson)
      (serving original (single "original".toList))
      (.two .idle sh₁ (⟨1, .reread key (some 2) oldText⟩, .idle)) := reaches_rotated hold
  -- The second one starts after the next rotation, and reads and stores the new file.
  have hrestore : event (.replace restored.contents 3) sh₁ = some sh₂ := rfl
  have hrestored : replaced readJson (.two .idle sh₁ (⟨1, .reread key (some 2) oldText⟩, .idle))
      (.env (.replace restored.contents 3)) := ⟨_, restored_holds⟩
  have hsecond : (datedMachine [] readJson).Reaches (careful readJson)
      (.two .idle sh₂ (⟨1, .reread key (some 2) oldText⟩, .idle))
      (.two .idle sh₂ (⟨1, .reread key (some 2) oldText⟩, ⟨2, .reread key (some 3) newText⟩)) :=
    reaches_reads .second key rfl rfl (by decide) hnew
  have hstore₂ : Does [] readJson sh₂ .next (.reread key (some 3) newText) sh₃ (.looking key) :=
    .stored (parse_eq_ok_iff.mpr hnewData)
  -- The first one stores what it read, and the second one looks its key up.
  have hstore₁ : Does [] readJson sh₃ .next (.reread key (some 2) oldText) sh₄ (.looking key) :=
    .stored (parse_eq_ok_iff.mpr holdData)
  have hlook₂ : Does [] readJson sh₄ .next (.looking key) sh₄
      (.answered key (.ok (some "rotated".toList))) :=
    .looked
  have htask : ∀ p i a, replaced readJson p (.task i a) := fun _ _ _ => trivial
  refine ⟨.two .idle sh₄ (⟨1, .looking key⟩, ⟨2, .looking key⟩),
    .two .idle sh₄ (⟨1, .looking key⟩, ⟨2, .answered key (.ok (some "rotated".toList))⟩), ?_,
    step_calls .second hlook₂, rfl, ?_⟩
  · refine (hfirst.mono fun _ _ hcareful => hcareful.1).trans (.head hrestored (step_written hrestore) ?_)
    exact (hsecond.mono fun _ _ hcareful => hcareful.1).trans
      (.head (htask _ _ _) (step_calls .second hstore₂)
        (.head (htask _ _ _) (step_calls .first hstore₁) .refl))
  · intro k file data hk hfile hholds
    have hversions : (Pool.two DatedPhase.idle sh₄
        (⟨1, .looking key⟩, ⟨2, .answered key (.ok (some "rotated".toList))⟩)).shared.versions =
          [original, rotated, restored] := rfl
    rw [hversions] at hfile
    have hlast : k = 2 := by
      have hlt := (List.getElem?_eq_some_iff.mp hfile).1
      simp only [List.length_cons, List.length_nil] at hlt
      omega
    subst hlast
    cases hfile
    rw [hholds.unique restored_holds]
    decide

end EnvProxy.FileBackend
