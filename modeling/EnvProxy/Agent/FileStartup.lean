-- SUMMARY: What the file backend serves after its start, for every interleaving with writers of the file.
import EnvProxy.Agent.FileTasks

/-!
# File backend at startup

`resolve` samples the modification time before it reads the contents, so what it stores
is at least as new as the time it stores. `reload` samples it after. A writer that
replaces the file in between leaves old contents under the new file's time, and no call
reloads them until the file is replaced again. The invariant `startup` says that this
is all that can go wrong.
-/

namespace EnvProxy.FileBackend

variable {path : Str} {fromStr : Str → Except Str Data}

/-! ## Files and their times -/

/-- The files in use are on record, and no two on record have the same time. -/
structure Shared.Recorded (sh : Shared) : Prop where
  current : ∀ file, sh.file = some file → file ∈ sh.past
  sampled : ∀ contents file, sh.sampled = some (contents, file) → file ∈ sh.past
  unique : ∀ file ∈ sh.past, ∀ file' ∈ sh.past, file.modified = file'.modified → file = file'

/-- A modification time is one of a file on record, and `ok` holds of the file in place
    if it has that time. -/
def Shared.Dated (sh : Shared) (mtime : Option Nat) (ok : SecretsFile → Prop) : Prop :=
  ∀ m, mtime = some m → (∃ file ∈ sh.past, file.modified = m) ∧
    ∀ file, sh.file = some file → file.modified = m → ok file

/-- The file that `new` sampled is still in place. -/
def Shared.Pinned (sh : Shared) (contents : Str) (file : SecretsFile) : Prop :=
  sh.sampled = some (contents, file) ∧ sh.file = some file

theorem Shared.Dated.mono {sh : Shared} {mtime : Option Nat} {ok ok' : SecretsFile → Prop}
    (h : sh.Dated mtime ok) (himp : ∀ file, ok file → ok' file) : sh.Dated mtime ok' :=
  fun m hm => ⟨(h m hm).1, fun file hfile hmodified => himp file ((h m hm).2 file hfile hmodified)⟩

theorem Shared.Dated.congr {sh sh' : Shared} {mtime : Option Nat} {ok : SecretsFile → Prop}
    (h : sh.Dated mtime ok) (hfile : sh'.file = sh.file) (hpast : sh'.past = sh.past) :
    sh'.Dated mtime ok := by
  unfold Shared.Dated
  rw [hfile, hpast]
  exact h

/-- The record grows, and the file in place after an event has a time that is new. -/
theorem event_file {e : Event} {sh sh' : Shared} (h : event e sh = some sh') :
    (∀ file ∈ sh.past, file ∈ sh'.past) ∧
      ∀ file, sh'.file = some file → ∀ old ∈ sh.past, old.modified ≠ file.modified := by
  obtain rfl | ⟨new, hnew, rfl⟩ := event_cases h
  · refine ⟨fun file hfile => hfile, fun file hfile => ?_⟩
    cases hfile
  · refine ⟨fun file hfile => List.mem_cons_of_mem _ hfile, fun file hfile => ?_⟩
    cases hfile
    exact hnew

theorem Shared.Recorded.event {e : Event} {sh sh' : Shared} (hrecorded : sh.Recorded)
    (h : event e sh = some sh') : sh'.Recorded := by
  obtain ⟨hcurrent, hsampled, hunique⟩ := hrecorded
  obtain rfl | ⟨new, hnew, rfl⟩ := event_cases h
  · refine ⟨fun file hfile => ?_, hsampled, hunique⟩
    cases hfile
  · refine ⟨?_, fun c file hfile => List.mem_cons_of_mem _ (hsampled c file hfile), ?_⟩
    · intro file hfile
      cases hfile
      exact List.mem_cons_self
    · intro file hfile file' hfile' heq
      cases hfile with
      | head =>
        cases hfile' with
        | head => rfl
        | tail _ hold => exact absurd heq.symm (hnew file' hold)
      | tail _ hold =>
        cases hfile' with
        | head => exact absurd heq (hnew file hold)
        | tail _ hold' => exact hunique file hold file' hold' heq

theorem Shared.Dated.event {e : Event} {sh sh' : Shared} {mtime : Option Nat}
    {ok : SecretsFile → Prop} (hdated : sh.Dated mtime ok) (h : event e sh = some sh') :
    sh'.Dated mtime ok := by
  intro m hm
  obtain ⟨⟨old, hold, hmodified⟩, -⟩ := hdated m hm
  obtain ⟨hpast, hfile⟩ := event_file h
  refine ⟨⟨old, hpast old hold, hmodified⟩, fun file hcurrent heq => ?_⟩
  exact absurd (hmodified.trans heq.symm) (hfile file hcurrent old hold)

/-- After an event nothing that was sampled before is in place. -/
theorem Shared.Recorded.not_pinned {e : Event} {sh sh' : Shared} (hrecorded : sh.Recorded)
    (h : FileBackend.event e sh = some sh') (contents : Str) (file : SecretsFile) :
    ¬ sh'.Pinned contents file := by
  intro hpinned
  obtain ⟨hsampled, hcurrent⟩ := hpinned
  rw [(event_keeps h).2.2] at hsampled
  exact (event_file h).2 file hcurrent file (hrecorded.sampled contents file hsampled) rfl

/-! ## What the tasks know -/

/-- What is cached was read from the file with the cached time, or is what `new` read
    before it sampled that time. -/
def Shared.Sourced (fromStr : Str → Except Str Data) (sh : Shared) : Prop :=
  sh.Dated sh.cache.lastModified fun file =>
    Holds fromStr file sh.cache.data ∨
      ∃ contents, sh.sampled = some (contents, file) ∧ fromStr contents = .ok sh.cache.data

/-- As long as the file that `new` sampled is in place, the cache is as `new` left it. -/
def Shared.Kept (fromStr : Str → Except Str Data) (sh : Shared) : Prop :=
  sh.ready = true → ∀ contents file, sh.Pinned contents file →
    sh.cache.lastModified = some file.modified ∧ fromStr contents = .ok sh.cache.data

def Phase.Knows (i : Nat) (sh : Shared) : Phase → Prop
  | .opening | .missing | .opened _ => i = 0 ∧ sh.ready = false ∧ sh.sampled = none
  | .sampled contents mtime =>
    i = 0 ∧ sh.ready = false ∧ mtime = sh.sampled.map (fun s => s.2.modified) ∧
      ∀ s, sh.sampled = some s → s.1 = contents
  | .loaded | .asked _ | .looking _ => sh.ready = true
  | .stated _ current =>
    sh.ready = true ∧ sh.Dated current (fun _ => True) ∧
      ∀ contents file, sh.Pinned contents file → current = some file.modified
  | .changed _ current =>
    sh.ready = true ∧ sh.Dated current (fun _ => True) ∧
      ∀ contents file, ¬ sh.Pinned contents file
  | .absent _ => sh.ready = true ∧ ∀ contents file, ¬ sh.Pinned contents file
  | .reread _ current contents =>
    sh.ready = true ∧ sh.Dated current (fun file => readToString (some file) = .ok contents) ∧
      ∀ contents file, ¬ sh.Pinned contents file
  | _ => True

def startup (fromStr : Str → Except Str Data) : Tasks.Inv Nat Shared Phase where
  shared := fun sh => sh.Recorded ∧ sh.Sourced fromStr ∧ sh.Kept fromStr
  task := Phase.Knows

/-- What a task knows depends on the file, its record and what `new` did only. -/
theorem Phase.Knows.congr {i : Nat} {sh sh' : Shared} {ph : Phase} (h : ph.Knows i sh)
    (hfile : sh'.file = sh.file) (hpast : sh'.past = sh.past) (hready : sh'.ready = sh.ready)
    (hsampled : sh'.sampled = sh.sampled) : ph.Knows i sh' := by
  cases ph <;> simp only [Knows, Shared.Dated, Shared.Pinned, hfile, hpast, hready, hsampled] <;> exact h

theorem Phase.Knows.event {i : Nat} {e : Event} {sh sh' : Shared} {ph : Phase} (hknows : ph.Knows i sh)
    (hrecorded : sh.Recorded) (h : event e sh = some sh') : ph.Knows i sh' := by
  obtain ⟨-, hready, hsampled⟩ := event_keeps h
  have hpinned := hrecorded.not_pinned h
  cases ph with
  | stated key current =>
    exact ⟨hready ▸ hknows.1, hknows.2.1.event h, fun c file hfile => absurd hfile (hpinned c file)⟩
  | changed key current => exact ⟨hready ▸ hknows.1, hknows.2.1.event h, hpinned⟩
  | absent key => exact ⟨hready ▸ hknows.1, hpinned⟩
  | reread key current contents => exact ⟨hready ▸ hknows.1, hknows.2.1.event h, hpinned⟩
  | idle => exact trivial
  | failed e => exact trivial
  | answered key result => exact trivial
  | _ => simpa only [Knows, hready, hsampled] using hknows

/-- Only `new` reports itself ready and records what it saw, and only before it is ready. -/
theorem Does.reload_or {i : Nat} {a : Act} {sh sh' : Shared} {ph ph' : Phase}
    (h : Does path fromStr sh a ph sh' ph') (hknows : ph.Knows i sh) :
    (i = 0 ∧ sh.ready = false) ∨ (sh'.ready = sh.ready ∧ sh'.sampled = sh.sampled) := by
  cases h with
  | cleared => exact .inl ⟨hknows.1, hknows.2.1⟩
  | sampled => exact .inl ⟨hknows.1, hknows.2.1⟩
  | loaded => exact .inl ⟨hknows.1, hknows.2.1⟩
  | _ => exact .inr ⟨rfl, rfl⟩

/-- While `new` is not ready no other task knows anything. -/
theorem Phase.Knows.of_not_ready {j : Nat} {sh : Shared} {ph : Phase} (h : ph.Knows j sh) (hj : j ≠ 0)
    (hready : sh.ready = false) (sh' : Shared) : ph.Knows j sh' := by
  cases ph with
  | opening => exact absurd h.1 hj
  | missing => exact absurd h.1 hj
  | opened contents => exact absurd h.1 hj
  | sampled contents mtime => exact absurd h.1 hj
  | loaded => cases hready.symm.trans h
  | asked key => cases hready.symm.trans h
  | looking key => cases hready.symm.trans h
  | stated key current => cases hready.symm.trans h.1
  | changed key current => cases hready.symm.trans h.1
  | absent key => cases hready.symm.trans h.1
  | reread key current contents => cases hready.symm.trans h.1
  | idle => exact trivial
  | failed e => exact trivial
  | answered key result => exact trivial

theorem parse_eq_ok_iff {contents : Str} {data : Data} :
    parse path fromStr contents = .ok data ↔ fromStr contents = .ok data := by
  cases h : fromStr contents <;> simp [parse, h]

theorem Shared.Dated.none {sh : Shared} {ok : SecretsFile → Prop} : sh.Dated none ok := by
  intro m hm
  cases hm

theorem Does.startup_shared {i : Nat} {a : Act} {sh sh' : Shared} {ph ph' : Phase}
    (h : Does path fromStr sh a ph sh' ph') (hshared : (startup fromStr).shared sh)
    (hknows : ph.Knows i sh) : (startup fromStr).shared sh' := by
  obtain ⟨hrecorded, hsourced, hkept⟩ := hshared
  cases h with
  | cleared =>
    obtain ⟨-, -, hnone⟩ := hknows
    refine ⟨⟨hrecorded.current, hrecorded.sampled, hrecorded.unique⟩, Shared.Dated.none, ?_⟩
    intro _ contents file hpinned
    cases hnone.symm.trans hpinned.1
  | @sampled contents =>
    obtain ⟨-, hready, hnone⟩ := hknows
    refine ⟨⟨hrecorded.current, ?_, hrecorded.unique⟩, ?_, ?_⟩
    · intro c file hsampled
      simp only [Option.map_eq_some_iff, Prod.mk.injEq] at hsampled
      obtain ⟨file', hfile, -, rfl⟩ := hsampled
      exact hrecorded.current file' hfile
    · -- Nothing that is cached so far is what `new` read.
      have hread : sh.Dated sh.cache.lastModified fun file => Holds fromStr file sh.cache.data := by
        refine Shared.Dated.mono hsourced fun file hfile => hfile.resolve_right ?_
        rintro ⟨c, hsampled, -⟩
        cases hnone.symm.trans hsampled
      exact (hread.mono fun _ => Or.inl).congr rfl rfl
    · intro htrue
      cases hready.symm.trans htrue
  | @loaded contents mtime data hparse =>
    obtain ⟨-, -, rfl, hcontents⟩ := hknows
    have hdata := parse_eq_ok_iff.mp hparse
    refine ⟨⟨hrecorded.current, hrecorded.sampled, hrecorded.unique⟩, ?_, ?_⟩
    · -- The file in place, if it has the sampled time, is the one that was sampled.
      intro m hm
      simp only [Option.map_eq_some_iff] at hm
      obtain ⟨s, hs, rfl⟩ := hm
      have hpast := hrecorded.sampled s.1 s.2 hs
      refine ⟨⟨s.2, hpast, rfl⟩, fun file hfile hmodified => .inr ⟨contents, ?_, hdata⟩⟩
      rw [hrecorded.unique file (hrecorded.current file hfile) s.2 hpast hmodified, ← hcontents s hs]
      exact hs
    · intro _ c file hpinned
      have hc : c = contents := hcontents (c, file) hpinned.1
      refine ⟨?_, hc ▸ hdata⟩
      change sh.sampled.map (fun s => s.2.modified) = some file.modified
      rw [hpinned.1]
      rfl
  | emptied =>
    refine ⟨⟨hrecorded.current, hrecorded.sampled, hrecorded.unique⟩, Shared.Dated.none, ?_⟩
    intro _ contents file hpinned
    exact absurd hpinned (hknows.2 contents file)
  | @stored key current contents data hparse =>
    obtain ⟨-, hdated, hunpinned⟩ := hknows
    have hdata := parse_eq_ok_iff.mp hparse
    refine ⟨⟨hrecorded.current, hrecorded.sampled, hrecorded.unique⟩, ?_, ?_⟩
    · exact (hdated.mono fun file hread => Or.inl ⟨contents, hread, hdata⟩).congr rfl rfl
    · intro _ c file hpinned
      exact absurd hpinned (hunpinned c file)
  | _ => exact ⟨hrecorded, hsourced, hkept⟩

theorem Does.startup_task {i : Nat} {a : Act} {sh sh' : Shared} {ph ph' : Phase}
    (h : Does path fromStr sh a ph sh' ph') (hshared : (startup fromStr).shared sh)
    (hknows : ph.Knows i sh) : ph'.Knows i sh' := by
  obtain ⟨hrecorded, -, hkept⟩ := hshared
  cases h with
  | called hready => exact hready
  | openedMissing _ => exact hknows
  | opened _ => exact hknows
  | cleared => exact rfl
  | @sampled contents =>
    refine ⟨hknows.1, hknows.2.1, ?_, ?_⟩
    · simp only [modified, Option.map_map]
      rfl
    · intro s hs
      simp only [Option.map_eq_some_iff] at hs
      obtain ⟨file, -, rfl⟩ := hs
      rfl
  | loaded _ => exact rfl
  | @stated key =>
    refine ⟨hknows, fun m hm => ?_, fun contents file hpinned => ?_⟩
    · simp only [modified, Option.map_eq_some_iff] at hm
      obtain ⟨file, hfile, hmodified⟩ := hm
      exact ⟨⟨file, hrecorded.current file hfile, hmodified⟩, fun _ _ _ => trivial⟩
    · simp only [modified, hpinned.2, Option.map_some]
  | @changed key current hneeds =>
    obtain ⟨hready, hdated, hcurrent⟩ := hknows
    refine ⟨hready, hdated, fun contents file hpinned => ?_⟩
    have hsame : sh.cache.lastModified = current :=
      (hkept hready contents file hpinned).1.trans (hcurrent contents file hpinned).symm
    rw [needsReload_eq_false_iff.mpr hsame] at hneeds
    cases hneeds
  | unchanged _ => exact hknows.1
  | rereadMissing _ => exact ⟨hknows.1, hknows.2.2⟩
  | @reread key current contents hread =>
    obtain ⟨hready, hdated, hunpinned⟩ := hknows
    refine ⟨hready, fun m hm => ⟨(hdated m hm).1, fun file hfile _ => ?_⟩, hunpinned⟩
    rw [hfile] at hread
    exact hread
  | stored _ => exact hknows.1
  | _ => exact trivial

theorem startup_kept : (startup fromStr).Kept (tasks path fromStr) .any where
  act := by
    intro i a sh ph sh' ph' _ hshared hph hact
    have hdoes := act_eq_some_iff.mp hact
    exact ⟨hdoes.startup_shared hshared hph, hdoes.startup_task hshared hph⟩
  act_stable := by
    intro i j a sh ph sh' ph' u hj _ _ hph hu hact
    have hdoes := act_eq_some_iff.mp hact
    cases hdoes.reload_or hph with
    | inl hnew => exact hu.of_not_ready (hnew.1 ▸ hj) hnew.2 sh'
    | inr hsame => exact hu.congr hdoes.keeps.1 hdoes.keeps.2 hsame.1 hsame.2
  env := by
    intro e sh sh' _ hshared henv
    obtain ⟨hrecorded, hsourced, -⟩ := hshared
    obtain ⟨hcache, -, hsampled⟩ := event_keeps henv
    refine ⟨hrecorded.event henv, ?_, ?_⟩
    · unfold Shared.Sourced
      rw [hcache, hsampled]
      exact Shared.Dated.event hsourced henv
    · intro _ contents file hpinned
      exact absurd hpinned (hrecorded.not_pinned henv contents file)
  env_stable := by
    intro j e sh sh' u _ hshared hu henv
    exact hu.event hshared.1 henv

theorem startup_start (file : Option SecretsFile) : (startup fromStr).holds (start file) := by
  refine ⟨⟨⟨?_, ?_, ?_⟩, Shared.Dated.none, ?_⟩, fun i => ?_⟩
  · intro f hf
    cases hf
    exact List.mem_singleton_self f
  · intro contents f hf
    cases hf
  · intro f hf f' hf' _
    simp only [start, Option.mem_toList] at hf hf'
    exact Option.some.inj (hf.symm.trans hf')
  · intro hready
    cases hready
  · by_cases hi : i = 0
    · subst hi
      simp only [start, startup, Function.update_self]
      exact ⟨rfl, rfl, rfl⟩
    · simp only [start, startup, Function.update_of_ne hi]
      exact trivial

/-! ## After the start -/

/-- `new` sampled the file that is in place now, but had read contents of other data. -/
def Shared.Torn (fromStr : Str → Except Str Data) (sh : Shared) (file : SecretsFile) (data : Data) :
    Prop :=
  ∃ contents, sh.sampled = some (contents, file) ∧ fromStr contents ≠ .ok data

/-- Once `new` has returned, calls made one after another answer from the valid file in
    place, unless it replaced a file of other data between the two samples of `new`. -/
theorem startup_fresh_iff {file₀ : Option SecretsFile} {q : Pool Nat Shared Phase}
    {file : SecretsFile} {data : Data}
    (hreach : (machine path fromStr).Reaches Machine.anyMove (start file₀) q)
    (hloaded : q.tasks 0 = .loaded) (hfile : q.shared.file = some file)
    (hdata : Holds fromStr file data) :
    Serves path fromStr file q.shared.cache data ↔ ¬ q.shared.Torn fromStr file data := by
  obtain ⟨⟨-, hsourced, hkept⟩, hknows⟩ :=
    startup_kept.reaches_any hreach (startup_start file₀)
  have hready : q.shared.ready = true := by
    have hnew := hknows 0
    rw [hloaded] at hnew
    exact hnew
  rw [serves_iff hdata]
  constructor
  · rintro hserves ⟨contents, hsampled, hother⟩
    obtain ⟨hmodified, hread⟩ := hkept hready contents file ⟨hsampled, hfile⟩
    exact hother (hserves hmodified ▸ hread)
  · intro htorn hmodified
    cases (hsourced file.modified hmodified).2 file hfile rfl with
    | inl hholds => exact hholds.unique hdata
    | inr hnew =>
      obtain ⟨contents, hsampled, hread⟩ := hnew
      have hsame : fromStr contents = .ok data := by
        by_contra hother
        exact htorn ⟨contents, hsampled, hother⟩
      exact Except.ok.inj (hread.symm.trans hsame)

/-- The pool with `new` in a given phase and no call yet. -/
def starting (sh : Shared) (ph : Phase) : Pool Nat Shared Phase where
  shared := sh
  tasks := Function.update (fun _ => .idle) 0 ph

theorem reaches_starting {as : List Act} {sh sh' : Shared} {ph ph' : Phase}
    (h : (tasks path fromStr).Alone as sh ph sh' ph') :
    (machine path fromStr).Reaches Machine.anyMove (starting sh ph) (starting sh' ph') := by
  have hphase : (starting sh ph).tasks 0 = ph := by
    simp only [starting, Function.update_self]
  have hreach : (machine path fromStr).Reaches Machine.anyMove (starting sh ph)
      { shared := sh', tasks := Function.update (starting sh ph).tasks 0 ph' } :=
    Tasks.Alone.reaches h hphase fun _ _ _ => trivial
  simpa only [starting, Function.update_idem] using hreach

/-- Any two files of different data can be torn by a writer. -/
theorem startup_torn {old new : SecretsFile} {oldData newData : Data} (hold : Holds fromStr old oldData)
    (hnew : Holds fromStr new newData) (hne : oldData ≠ newData) (htime : old.modified ≠ new.modified) :
    ∃ q, (machine path fromStr).Reaches Machine.anyMove (start (some old)) q ∧
      q.tasks 0 = .loaded ∧ q.shared.file = some new ∧
      ¬ Serves path fromStr new q.shared.cache newData := by
  obtain ⟨contents, hread, hparse⟩ := hold
  let sh₀ : Shared := (start (some old)).shared
  let sh₁ : Shared := { sh₀ with file := some new, past := [new, old] }
  let sh₂ : Shared := { sh₁ with sampled := some (contents, new) }
  let sh₃ : Shared :=
    { sh₂ with cache := { data := oldData, lastModified := some new.modified }, ready := true }
  have hopened : (tasks path fromStr).Alone [.next] sh₀ .opening sh₀ (.opened contents) :=
    (Does.opened hread).alone .nil
  have hreplace : (machine path fromStr).step (starting sh₀ (.opened contents))
      (.env (.replace new.contents new.modified)) = some (starting sh₁ (.opened contents)) := by
    refine Tasks.step_env_iff.mpr ⟨sh₁, ?_, rfl⟩
    simp [tasks, event, starting, sh₀, start, htime, sh₁]
  have hloaded : (tasks path fromStr).Alone [.next, .next] sh₁ (.opened contents) sh₃ .loaded :=
    Does.sampled.alone ((Does.loaded (parse_eq_ok_iff.mpr hparse)).alone .nil)
  refine ⟨starting sh₃ .loaded, ?_, rfl, rfl, ?_⟩
  · exact (reaches_starting hopened).trans (.head trivial hreplace (reaches_starting hloaded))
  · rw [serves_iff hnew]
    intro hserves
    exact hne (hserves rfl)

/-! ## One file, rotated once -/

def originalText : Str := "\x7b\"KEY\": \"original\"\x7d".toList

def rotatedText : Str := "\x7b\"KEY\": \"rotated\"\x7d".toList

def single (value : Str) : Data := fun key => if key = "KEY".toList then some value else none

/-- A JSON reader, as far as the two texts go. -/
def readJson (text : Str) : Except Str Data :=
  if text = originalText then .ok (single "original".toList)
  else if text = rotatedText then .ok (single "rotated".toList)
  else .error "expected value at line 1 column 1".toList

def original : SecretsFile where
  contents := Utf8.encode originalText
  modified := 1

def rotated : SecretsFile where
  contents := Utf8.encode rotatedText
  modified := 2

theorem readToString_original : readToString (some original) = .ok originalText := by
  simp only [readToString, original, Utf8.decode?_encode]

theorem original_holds : Holds readJson original (single "original".toList) :=
  ⟨originalText, readToString_original, if_pos rfl⟩

theorem rotated_holds : Holds readJson rotated (single "rotated".toList) := by
  refine ⟨rotatedText, ?_, ?_⟩
  · simp only [readToString, rotated, Utf8.decode?_encode]
  · simp only [readJson, if_neg (show rotatedText ≠ originalText by decide), if_true]

/-- The backend that serves the first file, after it was rotated. -/
def rotatedShared : Shared where
  file := some rotated
  cache := { data := single "original".toList, lastModified := some 1 }
  ready := true
  past := [rotated, original]
  sampled := none

/-- With no writer around, the backend serves the file it started on. -/
theorem startup_fresh_quiet :
    Serves [] readJson original
      { data := single "original".toList, lastModified := some 1 } (single "original".toList) := by
  let sh₀ : Shared := (start (some original)).shared
  let sh₁ : Shared := { sh₀ with sampled := some (originalText, original) }
  let sh₂ : Shared :=
    { sh₁ with cache := { data := single "original".toList, lastModified := some 1 }, ready := true }
  have halone : (tasks [] readJson).Alone [.next, .next, .next] sh₀ .opening sh₂ .loaded :=
    (Does.opened readToString_original).alone
      (Does.sampled.alone ((Does.loaded (parse_eq_ok_iff.mpr (if_pos rfl))).alone .nil))
  refine (startup_fresh_iff (reaches_starting halone) rfl rfl original_holds).mpr ?_
  rintro ⟨contents, hsampled, hother⟩
  cases hsampled
  exact hother (if_pos rfl)

/-- The file is rotated between the two samples of `new`; the old value is served on. -/
theorem startup_not_fresh :
    ∃ q, (machine [] readJson).Reaches Machine.anyMove (start (some original)) q ∧
      q.tasks 0 = .loaded ∧ q.shared.file = some rotated ∧
      ¬ Serves [] readJson rotated q.shared.cache (single "rotated".toList) := by
  refine startup_torn original_holds rotated_holds (fun h => ?_) (by decide)
  have hkey := congrFun h "KEY".toList
  simp only [single, if_true, Option.some.injEq] at hkey
  revert hkey
  decide

end EnvProxy.FileBackend
