-- SUMMARY: Whether the file backend serves a file that is gone: data without a modification time.
import EnvProxy.Agent.FileStartup

/-!
# Deleted secrets files

With no modification time cached and no file in place, a call answers from the cache
without reading. That is right as long as the cache holds no data without a time. Two
races put some there: the file disappears between the read and the stat of `reload`, or
appears between the stat and the read of a call.

Here other processes create files with any contents and any modification time, and
`reload`, which `new` calls first, may be called again at any time.
-/

namespace EnvProxy.FileBackend

open Machine

/-- Before the first act: the tasks that call `reload`, and those that will call `resolve`. -/
def prepared (file : Option SecretsFile) (reloads : Nat → Bool) : Pool Nat Shared Phase where
  shared := (start file).shared
  tasks := fun i => if reloads i then .opening else .idle

/-- Without a modification time there is no data. -/
def FileCache.Empty (cache : FileCache) : Prop :=
  cache.lastModified = none → cache.data = fun _ => none

variable (fromStr : Str → Except Str Data)

/-- The contents hold no string map, or an empty one. -/
def Blank (contents : Str) : Prop := ∀ data, fromStr contents = .ok data → data = fun _ => none

/-- The file is not gone when `reload` samples its time, unless it held nothing; and it has
    not come back when a call reads it that saw none, unless it holds nothing. -/
def steady : Tasks.Guard Shared Phase Act Event where
  act := fun _ sh ph =>
    match ph with
    | .opened contents => sh.file = none → Blank fromStr contents
    | .changed _ none => ∀ contents, readToString sh.file = .ok contents → Blank fromStr contents
    | _ => True
  env := fun _ _ => True

/-- What is about to be stored without a time is no data. -/
def Phase.Blank : Phase → Prop
  | .sampled contents none => FileBackend.Blank fromStr contents
  | .reread _ none contents => FileBackend.Blank fromStr contents
  | _ => True

def emptiness : Tasks.Inv Nat Shared Phase where
  shared := fun sh => sh.cache.Empty
  task := fun _ _ ph => ph.Blank fromStr

variable {path : Str} {fromStr}

theorem FileCache.Empty.empty : FileCache.Empty .empty := fun _ => rfl

theorem FileCache.Empty.stored {contents : Str} {data : Data} {mtime : Option Nat}
    (hparse : parse path fromStr contents = .ok data) (hblank : mtime = none → Blank fromStr contents) :
    FileCache.Empty { data, lastModified := mtime } :=
  fun hnone => hblank hnone data (parse_eq_ok_iff.mp hparse)

/-- A steady act keeps data and modification time together. -/
theorem Does.emptiness {a : Act} {sh sh' : Shared} {ph ph' : Phase}
    (h : Does path fromStr sh a ph sh' ph') (hsteady : (steady fromStr).act a sh ph)
    (hempty : sh.cache.Empty) (hblank : ph.Blank fromStr) :
    sh'.cache.Empty ∧ ph'.Blank fromStr := by
  cases h with
  | called hready => exact ⟨hempty, trivial⟩
  | openedMissing hread => exact ⟨hempty, trivial⟩
  | openedBroken hread => exact ⟨hempty, trivial⟩
  | opened hread => exact ⟨hempty, trivial⟩
  | cleared => exact ⟨.empty, trivial⟩
  | @sampled contents =>
    refine ⟨hempty, ?_⟩
    cases hfile : sh.file with
    | none => exact hsteady hfile
    | some file => exact trivial
  | rejected hparse => exact ⟨hempty, trivial⟩
  | @loaded contents mtime data hparse =>
    refine ⟨.stored hparse ?_, trivial⟩
    rintro rfl
    exact hblank
  | stated => exact ⟨hempty, trivial⟩
  | changed hneeds => exact ⟨hempty, trivial⟩
  | unchanged hneeds => exact ⟨hempty, trivial⟩
  | rereadMissing hread => exact ⟨hempty, trivial⟩
  | rereadBroken hread => exact ⟨hempty, trivial⟩
  | @reread key current contents hread =>
    refine ⟨hempty, ?_⟩
    cases current with
    | none => exact hsteady contents hread
    | some mtime => exact trivial
  | emptied => exact ⟨.empty, trivial⟩
  | refused hparse => exact ⟨hempty, trivial⟩
  | @stored key current contents data hparse =>
    refine ⟨.stored hparse ?_, trivial⟩
    rintro rfl
    exact hblank
  | looked => exact ⟨hempty, trivial⟩

theorem emptiness_kept : (emptiness fromStr).Kept (writtenTasks path fromStr) (steady fromStr) where
  act := fun hsteady hempty hblank hact => (act_eq_some_iff.mp hact).emptiness hsteady hempty hblank
  act_stable := fun _ _ _ _ hblank _ => hblank
  env := fun _ hempty hwrite => by
    change FileCache.Empty _
    rw [write_keeps hwrite]
    exact hempty
  env_stable := fun _ _ hblank _ => hblank

theorem emptiness_prepared (file : Option SecretsFile) (reloads : Nat → Bool) :
    (emptiness fromStr).holds (prepared file reloads) := by
  refine ⟨FileCache.Empty.empty, fun i => ?_⟩
  change Phase.Blank fromStr (if reloads i then .opening else .idle)
  cases reloads i with
  | true => exact trivial
  | false => exact trivial

/-! ## Calls while the file is gone -/

/-- The task has not started. -/
def Phase.Waiting : Phase → Prop
  | .idle | .opening => True
  | _ => False

/-- The task is a call that has returned. -/
def Phase.Finished : Phase → Prop
  | .loaded | .failed _ | .answered _ _ => True
  | _ => False

/-- The file is absent and stays absent. -/
def absent : Tasks.Guard Shared Phase Act Event where
  act := fun _ _ _ => True
  env := fun e _ => e = .remove

/-- A call that started without the file has not seen one. -/
def Phase.Missing (sh : Shared) : Phase → Prop
  | .idle | .opening | .missing | .loaded | .asked _ | .changed _ _ | .absent _ => True
  | .stated _ current => current = none
  | .looking _ => sh.cache.lastModified = none
  | .answered _ result => result = .ok none
  | _ => False

def missing (started : Nat → Prop) : Tasks.Inv Nat Shared Phase where
  shared := fun sh => sh.file = none ∧ sh.cache.Empty
  task := fun i sh ph => (started i → ph.Missing sh) ∧ (¬ started i → ph.Finished)

theorem Phase.Waiting.missing {sh : Shared} {ph : Phase} (h : ph.Waiting) : ph.Missing sh := by
  cases ph with
  | idle => exact trivial
  | opening => exact trivial
  | _ => cases h

theorem Does.not_finished {a : Act} {sh sh' : Shared} {ph ph' : Phase}
    (h : Does path fromStr sh a ph sh' ph') : ¬ ph.Finished := by
  cases h <;> exact id

/-- Without a file a call only ever clears the cache, and finds nothing. -/
theorem Does.missing {a : Act} {sh sh' : Shared} {ph ph' : Phase}
    (h : Does path fromStr sh a ph sh' ph') (hfile : sh.file = none) (hempty : sh.cache.Empty)
    (hmissing : ph.Missing sh) :
    (sh'.cache = sh.cache ∨ sh'.cache = .empty) ∧ ph'.Missing sh' := by
  have hread : readToString sh.file = .error .notFound := by rw [hfile]; rfl
  cases h with
  | called hready => exact ⟨.inl rfl, trivial⟩
  | openedMissing _ => exact ⟨.inl rfl, trivial⟩
  | openedBroken hbroken =>
    rw [hread] at hbroken
    cases hbroken
  | opened hfound =>
    rw [hread] at hfound
    cases hfound
  | cleared => exact ⟨.inr rfl, trivial⟩
  | sampled => cases hmissing
  | rejected _ => cases hmissing
  | loaded _ => cases hmissing
  | stated =>
    refine ⟨.inl rfl, ?_⟩
    change modified sh.file = none
    rw [hfile]
    rfl
  | changed hneeds => exact ⟨.inl rfl, trivial⟩
  | @unchanged key current hneeds =>
    obtain rfl : current = none := hmissing
    exact ⟨.inl rfl, needsReload_eq_false_iff.mp hneeds⟩
  | rereadMissing _ => exact ⟨.inl rfl, trivial⟩
  | rereadBroken hbroken =>
    rw [hread] at hbroken
    cases hbroken
  | reread hfound =>
    rw [hread] at hfound
    cases hfound
  | emptied => exact ⟨.inr rfl, rfl⟩
  | refused _ => cases hmissing
  | stored _ => cases hmissing
  | @looked key =>
    refine ⟨.inl rfl, ?_⟩
    change (.ok (sh.cache.data key) : ResolveResult) = .ok none
    rw [hempty hmissing]

theorem Phase.Missing.congr {sh sh' : Shared} {ph : Phase} (h : ph.Missing sh)
    (hcache : sh'.cache = sh.cache ∨ sh'.cache = .empty) : ph.Missing sh' := by
  cases ph with
  | looking key =>
    obtain heq | heq := hcache
    · exact (congrArg FileCache.lastModified heq).trans h
    · exact congrArg FileCache.lastModified heq
  | _ => exact h

theorem missing_kept (started : Nat → Prop) :
    (missing started).Kept (writtenTasks path fromStr) absent where
  act := fun {i a sh ph sh' ph'} _ hshared htask hact => by
    have hdoes := act_eq_some_iff.mp hact
    have hstarted : started i := by
      by_contra hnot
      exact hdoes.not_finished (htask.2 hnot)
    obtain ⟨hcache, hmissing⟩ := hdoes.missing hshared.1 hshared.2 (htask.1 hstarted)
    refine ⟨⟨hdoes.keeps.1.trans hshared.1, ?_⟩, fun _ => hmissing, fun hnot => absurd hstarted hnot⟩
    obtain heq | heq := hcache
    · rw [heq]
      exact hshared.2
    · rw [heq]
      exact .empty
  act_stable := fun {i j a sh ph sh' ph' u} _ _ hshared htask hother hact => by
    have hdoes := act_eq_some_iff.mp hact
    have hstarted : started i := by
      by_contra hnot
      exact hdoes.not_finished (htask.2 hnot)
    have hcache := (hdoes.missing hshared.1 hshared.2 (htask.1 hstarted)).1
    exact ⟨fun hj => (hother.1 hj).congr hcache, hother.2⟩
  env := fun hremove hshared hwrite => by
    cases hremove
    cases hwrite
    exact ⟨rfl, hshared.2⟩
  env_stable := fun hremove hshared hother hwrite => by
    cases hremove
    cases hwrite
    exact ⟨fun hj => (hother.1 hj).congr (.inl rfl), hother.2⟩

/-- In a steady run no data is ever cached without a modification time. So a call that
    starts when all earlier ones have finished, while the file is gone for good, finds
    nothing, whatever other calls do meanwhile. -/
theorem deleted_file_unserved {file : Option SecretsFile} {reloads : Nat → Bool}
    {p : Pool Nat Shared Phase}
    (h : (writtenMachine path fromStr).Reaches (steady fromStr).ok (prepared file reloads) p) :
    (p.shared.cache.lastModified = none → p.shared.cache.data = fun _ => none) ∧
      ∀ q, (∀ i, (p.tasks i).Waiting ∨ (p.tasks i).Finished) → p.shared.file = none →
        (writtenMachine path fromStr).Reaches absent.ok p q →
        ∀ i key result, p.tasks i = .idle → q.tasks i = .answered key result → result = .ok none := by
  have hempty : p.shared.cache.Empty := (emptiness_kept.reaches h (emptiness_prepared file reloads)).1
  refine ⟨hempty, fun q hquiet hfile hrun i key result hidle hanswered => ?_⟩
  have hstart : (missing fun j => (p.tasks j).Waiting).holds p :=
    ⟨⟨hfile, hempty⟩, fun j => ⟨Phase.Waiting.missing, (hquiet j).resolve_left⟩⟩
  have hwaiting : (p.tasks i).Waiting := by
    rw [hidle]
    exact trivial
  have hmissing := ((missing_kept _).reaches hrun hstart).2 i |>.1 hwaiting
  rw [hanswered] at hmissing
  exact hmissing

/-! ## Runs of one task at a time -/

theorem written_starting {as : List Act} {sh sh' : Shared} {ph ph' : Phase}
    (h : (tasks path fromStr).Alone as sh ph sh' ph') :
    (writtenMachine path fromStr).Reaches Machine.anyMove (starting sh ph) (starting sh' ph') := by
  have hphase : (starting sh ph).tasks 0 = ph := by
    simp only [starting, Function.update_self]
  have hreach : (writtenMachine path fromStr).Reaches Machine.anyMove (starting sh ph)
      { shared := sh', tasks := Function.update (starting sh ph).tasks 0 ph' } :=
    (written_alone h).reaches hphase fun _ _ _ => trivial
  simpa only [starting, Function.update_idem] using hreach

theorem step_starting {a : Act} {sh sh' : Shared} {ph ph' : Phase}
    (h : Does path fromStr sh a ph sh' ph') :
    (writtenMachine path fromStr).step (starting sh ph) (.task 0 a) = some (starting sh' ph') := by
  have hact : (writtenTasks path fromStr).act a sh ((starting sh ph).tasks 0) = some (sh', ph') := by
    simp only [starting, Function.update_self]
    exact act_eq_some_iff.mpr h
  refine Tasks.step_task_iff.mpr ⟨sh', ph', hact, ?_⟩
  simp only [starting, Function.update_idem]

theorem steady_starting {a : Act} {sh : Shared} {ph : Phase} (h : (steady fromStr).act a sh ph) :
    (steady fromStr).ok (starting sh ph) (.task 0 a) := by
  change (steady fromStr).act a sh ((starting sh ph).tasks 0)
  simpa only [starting, Function.update_self] using h

theorem starting_idle (sh : Shared) (ph : Phase) {i : Nat} (hi : i ≠ 0) :
    (starting sh ph).tasks i = .idle := by
  simp only [starting, Function.update_of_ne hi]

/-- Only `new` calls `reload`. -/
theorem prepared_new (file : Option SecretsFile) : prepared file (· == 0) = start file := by
  simp only [prepared, start, Pool.mk.injEq, true_and]
  funext i
  by_cases hi : i = 0
  · subst hi
    rfl
  · simp only [Function.update_of_ne hi, beq_eq_false_iff_ne.mpr hi, Bool.false_eq_true, if_false]

/-- A call of task 1 once the backend has started, with the file left alone. -/
theorem reaches_answered (path : Str) (fromStr : Str → Except Str Data) {sh : Shared}
    (hready : sh.ready = true) (key : Str) :
    ∃ q, (writtenMachine path fromStr).Reaches absent.ok (starting sh .loaded) q ∧
      q.tasks 1 = .answered key (resolve path fromStr sh.file sh.cache key).1 := by
  obtain ⟨as, halone⟩ : ∃ as, (tasks path fromStr).Alone as sh .idle
      { sh with cache := (resolve path fromStr sh.file sh.cache key).2 }
      (.answered key (resolve path fromStr sh.file sh.cache key).1) := alone_resolve hready key
  refine ⟨_, (written_alone halone).reaches (starting_idle sh .loaded Nat.one_ne_zero)
    fun _ _ _ => trivial, ?_⟩
  simp only [Function.update_self]

theorem quiet_starting (sh : Shared) (i : Nat) :
    ((starting sh .loaded).tasks i).Waiting ∨ ((starting sh .loaded).tasks i).Finished := by
  by_cases hi : i = 0
  · subst hi
    exact .inr trivial
  · rw [starting_idle sh .loaded hi]
    exact .inl trivial

/-- A file is loaded and then removed; a call does not find its key any more. -/
theorem deleted_file_unserved_removed :
    ∃ p q, (writtenMachine [] readJson).Reaches (steady readJson).ok (start (some original)) p ∧
      p.shared.cache.data "KEY".toList = some "original".toList ∧ p.shared.file = none ∧
      (writtenMachine [] readJson).Reaches absent.ok p q ∧
      q.tasks 1 = .answered "KEY".toList (.ok none) := by
  let sh₀ : Shared := (start (some original)).shared
  let sh₁ : Shared := { sh₀ with sampled := some (originalText, original) }
  let sh₂ : Shared :=
    { sh₁ with cache := { data := single "original".toList, lastModified := some 1 }, ready := true }
  let sh₃ : Shared := { sh₂ with file := none }
  have hopened : Does [] readJson sh₀ .next .opening sh₀ (.opened originalText) :=
    .opened readToString_original
  have hsampled : Does [] readJson sh₀ .next (.opened originalText) sh₁
      (.sampled originalText (some 1)) := .sampled
  have hloaded : Does [] readJson sh₁ .next (.sampled originalText (some 1)) sh₂ .loaded :=
    .loaded (parse_eq_ok_iff.mpr (if_pos rfl))
  have hremove : (writtenMachine [] readJson).step (starting sh₂ .loaded) (.env .remove) =
      some (starting sh₃ .loaded) :=
    Tasks.step_env_iff.mpr ⟨sh₃, rfl, rfl⟩
  have hfree : (steady readJson).ok (starting sh₂ .loaded) (.env .remove) := trivial
  -- The file is in place when its time is sampled.
  have hplaced : (steady readJson).act .next sh₀ (.opened originalText) := by
    intro hfile
    cases hfile
  have hrun : (writtenMachine [] readJson).Reaches (steady readJson).ok (start (some original))
      (starting sh₃ .loaded) :=
    .head (steady_starting trivial) (step_starting hopened)
      (.head (steady_starting hplaced) (step_starting hsampled)
      (.head (steady_starting trivial) (step_starting hloaded) (.head hfree hremove .refl)))
  have hready : sh₃.ready = true := rfl
  obtain ⟨q, hq, hanswered⟩ := reaches_answered [] readJson hready "KEY".toList
  refine ⟨starting sh₃ .loaded, q, hrun, rfl, rfl, hq, ?_⟩
  rw [← prepared_new] at hrun
  have hnone := (deleted_file_unserved hrun).2 q (quiet_starting sh₃) rfl hq 1 _ _
    (starting_idle sh₃ .loaded Nat.one_ne_zero) hanswered
  rw [hanswered, hnone]

/-! ## The races -/

theorem exists_of_not_blank {contents : Str} (h : ¬ Blank fromStr contents) :
    ∃ data, fromStr contents = .ok data ∧ data ≠ fun _ => none := by
  simp only [Blank, not_forall] at h
  obtain ⟨data, hdata, hne⟩ := h
  exact ⟨data, hdata, hne⟩

/-- The condition leaves out no more than the races: after a step that is not steady the
    task caches data without a time. -/
theorem unsteady_breaks {p p' : Pool Nat Shared Phase} {i : Nat} {a : Act}
    (hstep : (writtenMachine path fromStr).step p (.task i a) = some p')
    (hbad : ¬ (steady fromStr).act a p.shared (p.tasks i)) :
    ∃ q, (writtenMachine path fromStr).Reaches Machine.anyMove p' q ∧ ¬ q.shared.cache.Empty := by
  obtain ⟨sh, ph, hact, rfl⟩ := Tasks.step_task_iff.mp hstep
  have hdoes := act_eq_some_iff.mp hact
  suffices hstore : ∃ sh' ph', Does path fromStr sh .next ph sh' ph' ∧ ¬ sh'.cache.Empty by
    obtain ⟨sh', ph', hdoes', hne⟩ := hstore
    have halone : (writtenTasks path fromStr).Alone [.next] sh ph sh' ph' :=
      written_alone (hdoes'.alone .nil)
    exact ⟨_, halone.reaches (Function.update_self ..) fun _ _ _ => trivial, hne⟩
  generalize p.tasks i = current at hdoes hbad
  cases hdoes with
  | @sampled contents =>
    simp only [steady, Classical.not_imp] at hbad
    obtain ⟨hfile, hblank⟩ := hbad
    obtain ⟨data, hdata, hne⟩ := exists_of_not_blank hblank
    refine ⟨_, _, .loaded (parse_eq_ok_iff.mpr hdata), fun hempty => hne (hempty ?_)⟩
    rw [hfile]
    rfl
  | @reread key mtime contents hread =>
    cases mtime with
    | some mtime => exact absurd trivial hbad
    | none =>
      simp only [steady, hread, Except.ok.injEq, forall_eq'] at hbad
      obtain ⟨data, hdata, hne⟩ := exists_of_not_blank hbad
      exact ⟨_, _, .stored (parse_eq_ok_iff.mpr hdata), fun hempty => hne (hempty rfl)⟩
  | @rereadMissing key mtime hread =>
    cases mtime with
    | some mtime => exact absurd trivial hbad
    | none => simp [steady, hread] at hbad
  | @rereadBroken key mtime msg hread =>
    cases mtime with
    | some mtime => exact absurd trivial hbad
    | none => simp [steady, hread] at hbad
  | _ => exact absurd trivial hbad

/-- The file is removed between the read and the stat of `new`; it is served from then
    on, although it is gone. -/
theorem deleted_file_served :
    ∃ p q, (writtenMachine [] readJson).Reaches Machine.anyMove (start (some original)) p ∧
      p.shared.cache.lastModified = none ∧ p.shared.cache.data ≠ (fun _ => none) ∧
      (∀ i, (p.tasks i).Waiting ∨ (p.tasks i).Finished) ∧ p.shared.file = none ∧
      (writtenMachine [] readJson).Reaches absent.ok p q ∧ p.tasks 1 = .idle ∧
      q.tasks 1 = .answered "KEY".toList (.ok (some "original".toList)) := by
  let sh₀ : Shared := (start (some original)).shared
  let sh₁ : Shared := { sh₀ with file := none }
  let sh₂ : Shared := { sh₁ with sampled := none }
  let sh₃ : Shared :=
    { sh₂ with cache := { data := single "original".toList, lastModified := none }, ready := true }
  have hopened : (tasks [] readJson).Alone [.next] sh₀ .opening sh₀ (.opened originalText) :=
    (Does.opened readToString_original).alone .nil
  have hremove : (writtenMachine [] readJson).step (starting sh₀ (.opened originalText)) (.env .remove) =
      some (starting sh₁ (.opened originalText)) :=
    Tasks.step_env_iff.mpr ⟨sh₁, rfl, rfl⟩
  have hloaded : (tasks [] readJson).Alone [.next, .next] sh₁ (.opened originalText) sh₃ .loaded :=
    Does.sampled.alone ((Does.loaded (parse_eq_ok_iff.mpr (if_pos rfl))).alone .nil)
  have hready : sh₃.ready = true := rfl
  obtain ⟨q, hq, hanswered⟩ := reaches_answered [] readJson hready "KEY".toList
  refine ⟨starting sh₃ .loaded, q, ?_, rfl, fun h => ?_, quiet_starting sh₃, rfl, hq,
    starting_idle sh₃ .loaded Nat.one_ne_zero, hanswered⟩
  · exact (written_starting hopened).trans (.head trivial hremove (written_starting hloaded))
  · have hkey := congrFun h "KEY".toList
    cases hkey

end EnvProxy.FileBackend
