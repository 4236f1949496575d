-- SUMMARY: The file backend step by step: `new` and any number of calls, interleaved with writers of the file.
import EnvProxy.Agent.File
import EnvProxy.Library.Machine

/-!
# Concurrent file calls

Task 0 is `FileBackend::new`; the backend is handed out when it returns. Every other
task is a call of `resolve`. Reading the contents, sampling the modification time,
comparing it, storing and looking up are steps of their own, between which other tasks
act and other processes replace or remove the file. They do so at will in
`writtenMachine`; in `machine` a replacement has a modification time no file before it
had.

`past` and `sampled` record the files there were and what `new` saw; no act reads them.
-/

namespace EnvProxy.FileBackend

structure Shared where
  file : Option SecretsFile
  cache : FileCache
  /-- `new` has returned the backend. -/
  ready : Bool
  past : List SecretsFile
  /-- The contents that `new` read, and the file whose modification time it sampled. -/
  sampled : Option (Str × SecretsFile)

inductive Phase where
  | idle
  -- `reload`, by its next step: read, clear, sample the time, store
  | opening
  | missing
  | opened (contents : Str)
  | sampled (contents : Str) (mtime : Option Nat)
  | loaded
  | failed (e : BackendError)
  -- `resolve`, by its next step: sample the time, compare, read, clear, store, look up
  | asked (key : Str)
  | stated (key : Str) (current : Option Nat)
  | changed (key : Str) (current : Option Nat)
  | absent (key : Str)
  | reread (key : Str) (current : Option Nat) (contents : Str)
  | looking (key : Str)
  | answered (key : Str) (result : ResolveResult)

inductive Act where
  | call (key : Str)
  | next

/-- What other processes do to the file. -/
inductive Event where
  | replace (contents : Bytes) (modified : Nat)
  | remove

section

variable (path : Str) (fromStr : Str → Except Str Data)

def act : Act → Shared → Phase → Option (Shared × Phase)
  | .call key, sh, .idle => if sh.ready then some (sh, .asked key) else none
  | .next, sh, .opening =>
    match readToString sh.file with
    | .error .notFound => some (sh, .missing)
    | .error (.other msg) => some (sh, .failed (.io msg))
    | .ok contents => some (sh, .opened contents)
  | .next, sh, .missing => some ({ sh with cache := .empty, ready := true }, .loaded)
  | .next, sh, .opened contents =>
    some ({ sh with sampled := sh.file.map fun file => (contents, file) },
      .sampled contents (modified sh.file))
  | .next, sh, .sampled contents mtime =>
    match parse path fromStr contents with
    | .error e => some (sh, .failed e)
    | .ok data => some ({ sh with cache := { data, lastModified := mtime }, ready := true }, .loaded)
  | .next, sh, .asked key => some (sh, .stated key (modified sh.file))
  | .next, sh, .stated key current =>
    if needsReload sh.cache.lastModified current then some (sh, .changed key current)
    else some (sh, .looking key)
  | .next, sh, .changed key current =>
    match readToString sh.file with
    | .error .notFound => some (sh, .absent key)
    | .error (.other msg) => some (sh, .answered key (.error (.io msg)))
    | .ok contents => some (sh, .reread key current contents)
  | .next, sh, .absent key => some ({ sh with cache := .empty }, .answered key (.ok none))
  | .next, sh, .reread key current contents =>
    match parse path fromStr contents with
    | .error e => some (sh, .answered key (.error e))
    | .ok data => some ({ sh with cache := { data, lastModified := current } }, .looking key)
  | .next, sh, .looking key => some (sh, .answered key (.ok (sh.cache.data key)))
  | _, _, _ => none

def write : Event → Shared → Option Shared
  | .replace contents modified, sh =>
    some { sh with file := some { contents, modified }, past := { contents, modified } :: sh.past }
  | .remove, sh => some { sh with file := none }

/-- The same, when no replacement has a modification time there was before. -/
def event : Event → Shared → Option Shared
  | .replace contents modified, sh =>
    if sh.past.any fun file => file.modified = modified then none
    else some { sh with file := some { contents, modified }, past := { contents, modified } :: sh.past }
  | .remove, sh => some { sh with file := none }

def tasks : Tasks Shared Phase Act Event where
  act := act path fromStr
  env := event

def writtenTasks : Tasks Shared Phase Act Event where
  act := act path fromStr
  env := write

/-- The interleavings of `new`, any number of calls and any number of writers. -/
def machine : Machine (Pool Nat Shared Phase) (Move Nat Act Event) :=
  (tasks path fromStr).machine

def writtenMachine : Machine (Pool Nat Shared Phase) (Move Nat Act Event) :=
  (writtenTasks path fromStr).machine

end

/-- `new` is about to read the file. -/
def start (file : Option SecretsFile) : Pool Nat Shared Phase where
  shared := { file, cache := .empty, ready := false, past := file.toList, sampled := none }
  tasks := Function.update (fun _ => .idle) 0 .opening

/-! ## What an act does -/

variable {path : Str} {fromStr : Str → Except Str Data}

inductive Does (path : Str) (fromStr : Str → Except Str Data) (sh : Shared) :
    Act → Phase → Shared → Phase → Prop where
  | called {key} : sh.ready = true → Does path fromStr sh (.call key) .idle sh (.asked key)
  | openedMissing : readToString sh.file = .error .notFound →
      Does path fromStr sh .next .opening sh .missing
  | openedBroken {msg} : readToString sh.file = .error (.other msg) →
      Does path fromStr sh .next .opening sh (.failed (.io msg))
  | opened {contents} : readToString sh.file = .ok contents →
      Does path fromStr sh .next .opening sh (.opened contents)
  | cleared : Does path fromStr sh .next .missing { sh with cache := .empty, ready := true } .loaded
  | sampled {contents} :
      Does path fromStr sh .next (.opened contents)
        { sh with sampled := sh.file.map fun file => (contents, file) }
        (.sampled contents (modified sh.file))
  | rejected {contents mtime e} : parse path fromStr contents = .error e →
      Does path fromStr sh .next (.sampled contents mtime) sh (.failed e)
  | loaded {contents mtime data} : parse path fromStr contents = .ok data →
      Does path fromStr sh .next (.sampled contents mtime)
        { sh with cache := { data, lastModified := mtime }, ready := true } .loaded
  | stated {key} : Does path fromStr sh .next (.asked key) sh (.stated key (modified sh.file))
  | changed {key current} : needsReload sh.cache.lastModified current = true →
      Does path fromStr sh .next (.stated key current) sh (.changed key current)
  | unchanged {key current} : needsReload sh.cache.lastModified current = false →
      Does path fromStr sh .next (.stated key current) sh (.looking key)
  | rereadMissing {key current} : readToString sh.file = .error .notFound →
      Does path fromStr sh .next (.changed key current) sh (.absent key)
  | rereadBroken {key current msg} : readToString sh.file = .error (.other msg) →
      Does path fromStr sh .next (.changed key current) sh (.answered key (.error (.io msg)))
  | reread {key current contents} : readToString sh.file = .ok contents →
      Does path fromStr sh .next (.changed key current) sh (.reread key current contents)
  | emptied {key} :
      Does path fromStr sh .next (.absent key) { sh with cache := .empty } (.answered key (.ok none))
  | refused {key current contents e} : parse path fromStr contents = .error e →
      Does path fromStr sh .next (.reread key current contents) sh (.answered key (.error e))
  | stored {key current contents data} : parse path fromStr contents = .ok data →
      Does path fromStr sh .next (.reread key current contents)
        { sh with cache := { data, lastModified := current } } (.looking key)
  | looked {key} :
      Does path fromStr sh .next (.looking key) sh (.answered key (.ok (sh.cache.data key)))

theorem act_eq_some_iff {a : Act} {sh sh' : Shared} {ph ph' : Phase} :
    act path fromStr a sh ph = some (sh', ph') ↔ Does path fromStr sh a ph sh' ph' := by
  constructor
  · intro h
    cases a with
    | call key =>
      cases ph with
      | idle =>
        simp only [act] at h
        split at h
        · next hready => cases h; exact .called hready
        · cases h
      | _ => cases h
    | next =>
      cases ph with
      | idle => cases h
      | opening =>
        simp only [act] at h
        split at h
        · next hread => cases h; exact .openedMissing hread
        · next msg hread => cases h; exact .openedBroken hread
        · next contents hread => cases h; exact .opened hread
      | missing => cases h; exact .cleared
      | opened contents => cases h; exact .sampled
      | sampled contents mtime =>
        simp only [act] at h
        split at h
        · next e hparse => cases h; exact .rejected hparse
        · next data hparse => cases h; exact .loaded hparse
      | loaded => cases h
      | failed e => cases h
      | asked key => cases h; exact .stated
      | stated key current =>
        simp only [act] at h
        split at h
        · next hneeds => cases h; exact .changed hneeds
        · next hneeds => cases h; exact .unchanged (by simpa using hneeds)
      | changed key current =>
        simp only [act] at h
        split at h
        · next hread => cases h; exact .rereadMissing hread
        · next msg hread => cases h; exact .rereadBroken hread
        · next contents hread => cases h; exact .reread hread
      | absent key => cases h; exact .emptied
      | reread key current contents =>
        simp only [act] at h
        split at h
        · next e hparse => cases h; exact .refused hparse
        · next data hparse => cases h; exact .stored hparse
      | looking key => cases h; exact .looked
      | answered key result => cases h
  · intro h
    cases h with
    | called hready => simp only [act, hready, if_true]
    | openedMissing hread => simp only [act, hread]
    | openedBroken hread => simp only [act, hread]
    | opened hread => simp only [act, hread]
    | cleared => rfl
    | sampled => rfl
    | rejected hparse => simp only [act, hparse]
    | loaded hparse => simp only [act, hparse]
    | stated => rfl
    | changed hneeds => simp only [act, hneeds, if_true]
    | unchanged hneeds => simp only [act, hneeds, Bool.false_eq_true, if_false]
    | rereadMissing hread => simp only [act, hread]
    | rereadBroken hread => simp only [act, hread]
    | reread hread => simp only [act, hread]
    | emptied => rfl
    | refused hparse => simp only [act, hparse]
    | stored hparse => simp only [act, hparse]
    | looked => rfl

/-- No act touches the file or what is recorded of the files before it. -/
theorem Does.keeps {a : Act} {sh sh' : Shared} {ph ph' : Phase}
    (h : Does path fromStr sh a ph sh' ph') : sh'.file = sh.file ∧ sh'.past = sh.past := by
  cases h <;> exact ⟨rfl, rfl⟩

/-- The events by what they do: the file is gone, or is a new one with a new time. -/
theorem event_cases {e : Event} {sh sh' : Shared} (h : event e sh = some sh') :
    sh' = { sh with file := none } ∨
      ∃ file, (∀ old ∈ sh.past, old.modified ≠ file.modified) ∧
        sh' = { sh with file := some file, past := file :: sh.past } := by
  cases e with
  | replace contents modified =>
    simp only [event] at h
    split at h
    · cases h
    · next hnew =>
      cases h
      simp only [List.any_eq_true, decide_eq_true_eq, not_exists, not_and] at hnew
      exact .inr ⟨{ contents, modified }, hnew, rfl⟩
  | remove =>
    cases h
    exact .inl rfl

theorem write_cases {e : Event} {sh sh' : Shared} (h : write e sh = some sh') :
    sh' = { sh with file := none } ∨
      ∃ file, sh' = { sh with file := some file, past := file :: sh.past } := by
  cases e with
  | replace contents modified =>
    cases h
    exact .inr ⟨{ contents, modified }, rfl⟩
  | remove =>
    cases h
    exact .inl rfl

theorem write_keeps {e : Event} {sh sh' : Shared} (h : write e sh = some sh') :
    sh'.cache = sh.cache := by
  obtain rfl | ⟨file, rfl⟩ := write_cases h
  · rfl
  · rfl

/-- An event leaves everything but the file and its record. -/
theorem event_keeps {e : Event} {sh sh' : Shared} (h : event e sh = some sh') :
    sh'.cache = sh.cache ∧ sh'.ready = sh.ready ∧ sh'.sampled = sh.sampled := by
  obtain rfl | ⟨file, -, rfl⟩ := event_cases h
  · exact ⟨rfl, rfl, rfl⟩
  · exact ⟨rfl, rfl, rfl⟩

/-! ## Calls alone -/

theorem Does.alone {a : Act} {as : List Act} {sh sh' sh'' : Shared} {ph ph' ph'' : Phase}
    (h : Does path fromStr sh a ph sh' ph')
    (hrest : (tasks path fromStr).Alone as sh' ph' sh'' ph'') :
    (tasks path fromStr).Alone (a :: as) sh ph sh'' ph'' :=
  .cons (act_eq_some_iff.mpr h) hrest

/-- A call nobody disturbs does what the function does. -/
theorem alone_called {sh : Shared} (hready : sh.ready = true) (key : Str) :
    ∃ as, (tasks path fromStr).Alone (.call key :: as) sh .idle
      { sh with cache := (resolve path fromStr sh.file sh.cache key).2 }
      (.answered key (resolve path fromStr sh.file sh.cache key).1) := by
  have hcall : Does path fromStr sh (.call key) .idle sh (.asked key) := .called hready
  cases hneeds : needsReload sh.cache.lastModified (modified sh.file) with
  | false =>
    simp only [resolve, hneeds, Bool.false_eq_true, if_false]
    exact ⟨_, hcall.alone (Does.stated.alone ((Does.unchanged hneeds).alone (Does.looked.alone .nil)))⟩
  | true =>
    simp only [resolve, hneeds, if_true]
    cases hread : readToString sh.file with
    | error e =>
      cases e with
      | notFound =>
        exact ⟨_, hcall.alone (Does.stated.alone ((Does.changed hneeds).alone
          ((Does.rereadMissing hread).alone (Does.emptied.alone .nil))))⟩
      | other msg =>
        exact ⟨_, hcall.alone (Does.stated.alone ((Does.changed hneeds).alone
          ((Does.rereadBroken hread).alone .nil)))⟩
    | ok contents =>
      cases hparse : parse path fromStr contents with
      | error e =>
        simp only [hparse]
        exact ⟨_, hcall.alone (Does.stated.alone ((Does.changed hneeds).alone
          ((Does.reread hread).alone ((Does.refused hparse).alone .nil))))⟩
      | ok data =>
        simp only [hparse]
        exact ⟨_, hcall.alone (Does.stated.alone ((Does.changed hneeds).alone
          ((Does.reread hread).alone ((Does.stored hparse).alone (Does.looked.alone .nil)))))⟩

theorem alone_resolve {sh : Shared} (hready : sh.ready = true) (key : Str) :
    ∃ as, (tasks path fromStr).Alone as sh .idle
      { sh with cache := (resolve path fromStr sh.file sh.cache key).2 }
      (.answered key (resolve path fromStr sh.file sh.cache key).1) := by
  obtain ⟨as, halone⟩ := @alone_called path fromStr sh hready key
  exact ⟨_, halone⟩

theorem written_alone {as : List Act} {sh sh' : Shared} {ph ph' : Phase}
    (h : (tasks path fromStr).Alone as sh ph sh' ph') :
    (writtenTasks path fromStr).Alone as sh ph sh' ph' := by
  induction h with
  | nil => exact .nil
  | cons hact _ ih => exact .cons hact ih

/-- And so does `new`, in a file system nobody writes to. -/
theorem alone_new (file : Option SecretsFile) :
    ∃ as sh ph, (tasks path fromStr).Alone as (start file).shared .opening sh ph ∧
      sh.cache = (reload path fromStr file file .empty).2 ∧
      match (reload path fromStr file file .empty).1 with
      | .ok () => ph = .loaded ∧ sh.ready = true
      | .error e => ph = .failed e := by
  cases hread : readToString file with
  | error e =>
    cases e with
    | notFound =>
      simp only [reload, hread]
      exact ⟨_, _, _, (Does.openedMissing hread).alone (Does.cleared.alone .nil), rfl, rfl, rfl⟩
    | other msg =>
      simp only [reload, hread]
      exact ⟨_, _, _, (Does.openedBroken hread).alone .nil, rfl, rfl⟩
  | ok contents =>
    cases hparse : parse path fromStr contents with
    | error e =>
      simp only [reload, hread, hparse]
      exact ⟨_, _, _, (Does.opened hread).alone (Does.sampled.alone ((Does.rejected hparse).alone .nil)),
        rfl, rfl⟩
    | ok data =>
      simp only [reload, hread, hparse]
      exact ⟨_, _, _, (Does.opened hread).alone (Does.sampled.alone ((Does.loaded hparse).alone .nil)),
        rfl, rfl, rfl⟩

end EnvProxy.FileBackend
