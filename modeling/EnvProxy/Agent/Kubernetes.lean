-- SUMMARY: The Kubernetes backend: its cache against the Secret that the watch describes.
import EnvProxy.Agent.Backend
import EnvProxy.Library.Utf8
import Mathlib.Logic.Function.Basic
import Mathlib.Data.List.Infix

/-!
# Kubernetes backend

`new` gets the Secret once and then follows a watch of it: the loop applies every event
to the cache and ends at the first error. `Description` is what the items of the watch
say of the Secret, re-lists included; `Tracks` is that the cache agrees with it.
-/

namespace EnvProxy.Kubernetes

/-- A string map. -/
abbrev Data := Str → Option Str

/-- A map with its entries in some order. -/
structure Entries (β : Type) where
  entries : List (Str × β)
  nodup : (entries.map Prod.fst).Nodup

def Entries.get {β : Type} (m : Entries β) (key : Str) : Option β :=
  (m.entries.find? fun e => e.1 = key).map Prod.snd

structure Secret where
  data : Option (Entries Bytes)
  stringData : Option (Entries Str)

/-- The loop over the data: values that are not UTF-8 are skipped. -/
def insertData (data : Entries Bytes) (result : Data) : Data :=
  data.entries.foldl (fun result e =>
    match Utf8.decode? e.2 with
    | some s => Function.update result e.1 (some s)
    | none => result) result

/-- The loop over the string data. -/
def insertStringData (stringData : Entries Str) (result : Data) : Data :=
  stringData.entries.foldl (fun result e => Function.update result e.1 (some e.2)) result

/-- Extract string key-value pairs. -/
def extractSecretData (secret : Secret) : Data :=
  let result : Data := fun _ => none
  let result := match secret.data with
    | some data => insertData data result
    | none => result
  match secret.stringData with
  | some stringData => insertStringData stringData result
  | none => result

/-- A loop that inserts what can be read of every entry. -/
theorem foldl_update {β : Type} (read : β → Option Str) (m : Entries β) (result : Data) (key : Str) :
    m.entries.foldl (fun result e =>
        match read e.2 with
        | some s => Function.update result e.1 (some s)
        | none => result) result key =
      ((m.get key).bind read).or (result key) := by
  obtain ⟨entries, hnodup⟩ := m
  simp only [Entries.get]
  induction entries generalizing result with
  | nil => rfl
  | cons e es ih =>
    simp only [List.map_cons, List.nodup_cons] at hnodup
    rw [List.foldl_cons, ih _ hnodup.2]
    by_cases he : e.1 = key
    · have hnone : (es.find? fun e => decide (e.1 = key)) = none := by
        rw [List.find?_eq_none]
        intro e' he' hsame
        have hkey : e'.1 = e.1 := (of_decide_eq_true hsame).trans he.symm
        exact hnodup.1 (hkey ▸ List.mem_map_of_mem he')
      subst he
      cases hread : read e.2 <;> simp [hnone, hread]
    · cases hread : read e.2 <;> simp [List.find?, he, Function.update_of_ne (Ne.symm he)]

/-- A key has its value from the string data, or else from the data if that is UTF-8. -/
theorem extractSecretData_apply (secret : Secret) (key : Str) :
    extractSecretData secret key =
      (secret.stringData.bind fun m => m.get key).or
        ((secret.data.bind fun m => m.get key).bind Utf8.decode?) := by
  obtain ⟨data, stringData⟩ := secret
  have hstrings : ∀ m result, insertStringData m result key = (m.get key).or (result key) := by
    intro m result
    have hloop := foldl_update some m result key
    rw [Option.bind_fun_some] at hloop
    exact hloop
  have hdata : ∀ m result, insertData m result key =
      ((m.get key).bind Utf8.decode?).or (result key) :=
    fun m result => foldl_update Utf8.decode? m result key
  cases data <;> cases stringData <;> simp [extractSecretData, hstrings, hdata]

/-- An event of the watch. -/
inductive Event where
  | apply (secret : Secret)
  | delete (secret : Secret)
  | init
  | initApply (secret : Secret)
  | initDone

/-- What the stream of the watch yields. -/
abbrev Item := Except Str Event

/-- The cache after an event. -/
def handle (data : Data) : Event → Data
  | .apply secret | .initApply secret => extractSecretData secret
  | .delete _ => fun _ => none
  | .init | .initDone => data

/-- The loop of the watcher: `while let Ok(Some(event)) = stream.try_next().await`. -/
def watch : Data → List Item → Data
  | data, [] => data
  | data, .ok event :: items => watch (handle data event) items
  | data, .error _ :: _ => data

/-- What the initial get leaves in the cache. -/
def initialData : Except Str Secret → Data
  | .ok secret => extractSecretData secret
  | .error _ => fun _ => none

/-- `new` up to the start of the watcher. -/
def new (client : Except Str Unit) (got : Except Str Secret) : Except BackendError Data :=
  match client with
  | .ok () => .ok (initialData got)
  | .error e => .error (.unavailable ("k8s client error: ".toList ++ e))

def resolve (data : Data) (key : Str) : ResolveResult := .ok (data key)

/-! ## The Secret as the watch describes it -/

/-- The Secret as described so far, if it is there; and within a re-list, whether the
    re-list has shown it. -/
structure Description where
  secret : Option Secret
  relist : Option Bool

def Description.see (d : Description) : Item → Description
  | .ok (.apply secret) => { d with secret := some secret }
  | .ok (.delete _) => { d with secret := none }
  | .ok .init => { d with relist := some false }
  | .ok (.initApply secret) => { secret := some secret, relist := d.relist.map fun _ => true }
  | .ok .initDone =>
    match d.relist with
    | some false => { secret := none, relist := none }
    | _ => { d with relist := none }
  | .error _ => { d with relist := none }

/-- What the initial get and the items after it describe. -/
def describe (got : Except Str Secret) (items : List Item) : Description :=
  items.foldl Description.see { secret := got.toOption, relist := none }

/-- The data of the Secret, and nothing if it is absent. -/
def Description.data (d : Description) : Data :=
  match d.secret with
  | some secret => extractSecretData secret
  | none => fun _ => none

/-- After every prefix of the items that ends outside a re-list, every key resolves to
    its value in the Secret. -/
def Tracks (got : Except Str Secret) (items : List Item) : Prop :=
  ∀ pre, pre <+: items → (describe got pre).relist = none →
    ∀ key, resolve (watch (initialData got) pre) key = .ok ((describe got pre).data key)

/-! ## The loop -/

theorem describe_append (got : Except Str Secret) (pre : List Item) (item : Item) :
    describe got (pre ++ [item]) = (describe got pre).see item := by
  simp only [describe, List.foldl_append, List.foldl_cons, List.foldl_nil]

/-- Nothing after an error is seen. -/
theorem watch_error (data : Data) (pre : List Item) (e : Str) (rest : List Item) :
    watch data (pre ++ .error e :: rest) = watch data pre := by
  induction pre generalizing data with
  | nil => rfl
  | cons item pre ih =>
    cases item with
    | ok event => exact ih (handle data event)
    | error e' => rfl

/-- The items hold no error. -/
def Quiet (items : List Item) : Prop := ∀ e, .error e ∉ items

theorem watch_event {data : Data} {pre : List Item} (h : Quiet pre) (event : Event) :
    watch data (pre ++ [.ok event]) = handle (watch data pre) event := by
  induction pre generalizing data with
  | nil => rfl
  | cons item pre ih =>
    have hpre : Quiet pre := fun e he => h e (List.mem_cons_of_mem _ he)
    cases item with
    | ok event' => exact ih hpre
    | error e => exact absurd List.mem_cons_self (h e)

/-- An event changes the cache as it changes the description, unless it completes a
    re-list that did not show the Secret. -/
theorem handle_data {d : Description} {event : Event}
    (h : event = .initDone → d.relist = some false → d.data = fun _ => none) :
    handle d.data event = (d.see (.ok event)).data := by
  cases event with
  | apply secret => rfl
  | delete secret => rfl
  | init => rfl
  | initApply secret => rfl
  | initDone =>
    simp only [handle, Description.see]
    split
    · next hlisted =>
      rw [h rfl hlisted]
      rfl
    · rfl

/-! ## When the cache tracks the Secret -/

/-- No re-list completes without the Secret while the Secret described has data. -/
def NoSilentDelete (got : Except Str Secret) (items : List Item) : Prop :=
  ∀ pre, pre ++ [.ok .initDone] <+: items → Quiet pre →
    (describe got pre).relist = some false → (describe got pre).data = fun _ => none

/-- Nothing after the first error describes other data. -/
def NoChangeAfterError (got : Except Str Secret) (items : List Item) : Prop :=
  ∀ pre e post, pre ++ .error e :: post <+: items → Quiet pre →
    (describe got (pre ++ .error e :: post)).relist = none →
    (describe got (pre ++ .error e :: post)).data = (describe got pre).data

theorem initialData_eq (got : Except Str Secret) : initialData got = (describe got []).data := by
  cases got <;> rfl

/-- Up to the first error the cache is what is described, if that is so wherever a
    re-list completes without the Secret. -/
theorem watch_eq {got : Except Str Secret} {items : List Item}
    (h : ∀ pre, pre ++ [.ok .initDone] <+: items → (describe got pre).relist = some false →
      watch (initialData got) pre = (describe got pre).data → Quiet pre →
      (describe got pre).data = fun _ => none)
    {pre : List Item} (hpre : pre <+: items) (hquiet : Quiet pre) :
    watch (initialData got) pre = (describe got pre).data := by
  induction pre using List.reverseRecOn with
  | nil => exact initialData_eq got
  | append_singleton pre item ih =>
    have hquiet' : Quiet pre := fun e he => hquiet e (List.mem_append_left _ he)
    have hbefore := ih ((List.prefix_append pre [item]).trans hpre) hquiet'
    cases item with
    | error e => exact absurd (List.mem_append_right pre List.mem_cons_self) (hquiet e)
    | ok event =>
      rw [watch_event hquiet', describe_append, hbefore]
      refine handle_data fun hdone hlisted => ?_
      subst hdone
      exact h pre hpre hlisted hbefore hquiet'

/-- A list of items is quiet, or has a first error. -/
theorem quiet_or_error (items : List Item) :
    Quiet items ∨ ∃ pre e post, items = pre ++ .error e :: post ∧ Quiet pre := by
  induction items with
  | nil =>
    refine .inl fun e he => ?_
    cases he
  | cons item items ih =>
    cases item with
    | error e =>
      refine .inr ⟨[], e, items, rfl, fun e' he' => ?_⟩
      cases he'
    | ok event =>
      have hcons : ∀ pre, Quiet pre → Quiet (.ok event :: pre) := by
        intro pre hpre e he
        cases he with
        | tail _ hmem => exact hpre e hmem
      cases ih with
      | inl hquiet => exact .inl (hcons items hquiet)
      | inr herror =>
        obtain ⟨pre, e, post, rfl, hquiet⟩ := herror
        exact .inr ⟨.ok event :: pre, e, post, rfl, hcons pre hquiet⟩

/-- Where the cache tracks the Secret, it is empty when a re-list completes without it. -/
theorem Tracks.empty {got : Except Str Secret} {items pre : List Item} (h : Tracks got items)
    (hdone : pre ++ [.ok .initDone] <+: items) (hquiet : Quiet pre)
    (hlisted : (describe got pre).relist = some false) :
    watch (initialData got) pre = fun _ => none := by
  have hsee : describe got (pre ++ [.ok .initDone]) = { secret := none, relist := none } := by
    rw [describe_append]
    simp only [Description.see, hlisted]
  funext key
  have hkey := h _ hdone (by rw [hsee]) key
  rw [watch_event hquiet, hsee] at hkey
  exact Except.ok.inj hkey

/-- It agrees with the description up to the first error, also inside a re-list. -/
theorem Tracks.watch_eq {got : Except Str Secret} {items pre : List Item} (h : Tracks got items)
    (hpre : pre <+: items) (hquiet : Quiet pre) :
    watch (initialData got) pre = (describe got pre).data := by
  refine Kubernetes.watch_eq (fun pre hdone hlisted hsame hquiet => ?_) hpre hquiet
  rw [← hsame]
  exact h.empty hdone hquiet hlisted

/-- The cache tracks the Secret exactly if no re-list silently completes without it and
    nothing after the first error changes it. -/
theorem tracks_iff {got : Except Str Secret} {items : List Item} :
    Tracks got items ↔ NoSilentDelete got items ∧ NoChangeAfterError got items := by
  constructor
  · intro htracks
    refine ⟨fun pre hdone hquiet hlisted => ?_, fun pre e post hpre hquiet hout => ?_⟩
    · rw [← htracks.watch_eq ((List.prefix_append pre _).trans hdone) hquiet]
      exact htracks.empty hdone hquiet hlisted
    · funext key
      have hkey := htracks _ hpre hout key
      rw [watch_error, htracks.watch_eq ((List.prefix_append pre _).trans hpre) hquiet] at hkey
      exact (Except.ok.inj hkey).symm
  · rintro ⟨hdelete, herror⟩ pre hpre hout key
    have hsame : ∀ {pre}, pre <+: items → Quiet pre →
        watch (initialData got) pre = (describe got pre).data :=
      watch_eq fun pre hdone hlisted _ hquiet => hdelete pre hdone hquiet hlisted
    unfold resolve
    cases quiet_or_error pre with
    | inl hquiet => rw [hsame hpre hquiet]
    | inr hsplit =>
      obtain ⟨before, e, post, rfl, hquiet⟩ := hsplit
      rw [watch_error, hsame ((List.prefix_append before _).trans hpre) hquiet,
        herror before e post hpre hquiet hout]

/-! ## Two streams -/

/-- Where a stream stands: a re-list is due, under way, or done. -/
inductive Stage where
  | due
  | listing
  | watching

/-- The streams of a watcher: a re-list first and after every error, and in a re-list
    only what it shows. -/
def Stage.admits : Stage → List Item → Bool
  | _, [] => true
  | .due, .ok .init :: items => Stage.listing.admits items
  | .listing, .ok (.initApply _) :: items => Stage.listing.admits items
  | .listing, .ok .initDone :: items => Stage.watching.admits items
  | .watching, .ok (.apply _) :: items => Stage.watching.admits items
  | .watching, .ok (.delete _) :: items => Stage.watching.admits items
  | _, .error _ :: items => Stage.due.admits items
  | _, _ => false

/-- A Secret with the key `K`. -/
def single (value : Bytes) : Secret where
  data := some { entries := [(['K'], value)], nodup := by simp }
  stringData := none

/-- The Secret changes while the watch is down: the new value is shown after an error. -/
def changedAfterError : List Item :=
  [.ok .init, .ok (.initApply (single [0x31])), .ok .initDone, .error "watch closed".toList,
    .ok .init, .ok (.initApply (single [0x32])), .ok .initDone]

/-- The Secret is deleted between the initial get and the first re-list. -/
def deletedBeforeWatch : List Item := [.ok .init, .ok .initDone]

/-- In both streams the old value is served on. -/
theorem not_tracks :
    (Stage.due.admits changedAfterError = true ∧ ¬ Tracks (.ok (single [0x31])) changedAfterError) ∧
      (Stage.due.admits deletedBeforeWatch = true ∧
        ¬ Tracks (.ok (single [0x31])) deletedBeforeWatch) := by
  refine ⟨⟨rfl, fun h => ?_⟩, ⟨rfl, fun h => ?_⟩⟩
  · have hkey := h changedAfterError (List.prefix_refl _) rfl ['K']
    revert hkey
    decide
  · have hkey := h deletedBeforeWatch (List.prefix_refl _) rfl ['K']
    revert hkey
    decide

end EnvProxy.Kubernetes
