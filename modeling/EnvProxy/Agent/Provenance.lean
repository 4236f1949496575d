-- SUMMARY: Where the answers of the backends come from, in every interleaving of their calls.
import EnvProxy.Agent.FileStartup
import EnvProxy.Agent.Services
import EnvProxy.Agent.VaultSoundness

/-!
# Provenance of answers

For each backend, an invariant over all runs that says of every finished call what its
result was taken from: a Vault response to the reference, one version of the secrets
file, the Secret after some of the items of the watch.
-/

namespace EnvProxy

/-! ## Vault -/

namespace Vault

/-- The text of a call that gets as far as the cache is a reference. -/
def Phase.Parsed : Phase → Prop
  | .checking s r | .reading s r | .caching s r _ => parseVaultRef s = some r
  | .done s (.ok _) _ => ∃ r, parseVaultRef s = some r
  | _ => True

theorem Does.parsed {ttl : Nat} {a : Act} {sh sh' : Shared} {ph ph' : Phase}
    (h : Does ttl sh a ph sh' ph') (hparsed : ph.Parsed) : ph'.Parsed := by
  cases h with
  | called hparse => exact hparse
  | hit _ => exact ⟨_, hparsed⟩
  | missed _ => exact hparsed
  | received => exact hparsed
  | stored _ => exact ⟨_, hparsed⟩
  | _ => exact trivial

def parsing : Tasks.Inv Nat Shared Phase where
  shared := fun _ => True
  task := fun _ _ ph => ph.Parsed

theorem parsing_kept (ttl : Nat) (g : Tasks.Guard Shared Phase Act Event) :
    parsing.Kept (tasks ttl) g where
  act := fun _ _ htask hact => ⟨trivial, (act_eq_some_iff.mp hact).parsed htask⟩
  act_stable := fun _ _ _ _ hu _ => hu
  env := fun _ _ _ => trivial
  env_stable := fun _ _ hu _ => hu

/-- In a run in which Vault answers unversioned reads with plain secrets, a value a call
    returns was fetched for the reference it was called with. -/
theorem returned_fetched {ttl now : Nat} {latest : Str → Str → Nat} {p : Pool Nat Shared Phase}
    (h : (machine ttl).Reaches plainKeys.ok (start now latest) p) {i : Nat} {s v : Str}
    {serial : Option Nat} (hdone : p.tasks i = .done s (.ok (some v)) serial) :
    ∃ r, parseVaultRef s = some r ∧ Fetched p.shared r v := by
  have hparsing : parsing.holds p :=
    (parsing_kept ttl plainKeys).reaches h ⟨trivial, fun _ => trivial⟩
  have hstart : soundness.holds (start now latest) := by
    refine ⟨⟨(provenance_start now latest).1, fun resp hresp => ?_⟩, fun i => ⟨trivial, trivial⟩⟩
    cases hresp
  have hparsed := hparsing.2 i
  have hsound := (((soundness_kept ttl).reaches h hstart).2 i).2
  rw [hdone] at hparsed hsound
  obtain ⟨r, hparse⟩ := hparsed
  exact ⟨r, hparse, hsound r hparse⟩

end Vault

/-! ## The secrets file -/

namespace FileBackend

variable {path : Str} {fromStr : Str → Except Str Data}

/-- The contents of a file on record. -/
def Shared.Had (sh : Shared) (contents : Str) : Prop :=
  ∃ file ∈ sh.past, readToString (some file) = .ok contents

/-- Nothing, or the data of a file on record. -/
def Shared.Stems (fromStr : Str → Except Str Data) (sh : Shared) (data : Data) : Prop :=
  data = (fun _ => none) ∨ ∃ contents, sh.Had contents ∧ fromStr contents = .ok data

/-- What a task has read, and what it has answered, is from a file on record. -/
def Phase.Stems (fromStr : Str → Except Str Data) (sh : Shared) : Phase → Prop
  | .opened contents | .sampled contents _ | .reread _ _ contents => sh.Had contents
  | .answered key (.ok (some v)) => ∃ data, sh.Stems fromStr data ∧ data key = some v
  | _ => True

def stemming (fromStr : Str → Except Str Data) : Tasks.Inv Nat Shared Phase where
  shared := fun sh => (∀ file, sh.file = some file → file ∈ sh.past) ∧ sh.Stems fromStr sh.cache.data
  task := fun _ sh ph => ph.Stems fromStr sh

theorem Shared.Had.mono {sh sh' : Shared} {contents : Str} (h : sh.Had contents)
    (hpast : ∀ file ∈ sh.past, file ∈ sh'.past) : sh'.Had contents := by
  obtain ⟨file, hfile, hread⟩ := h
  exact ⟨file, hpast file hfile, hread⟩

theorem Shared.Stems.mono {sh sh' : Shared} {data : Data} (h : sh.Stems fromStr data)
    (hpast : ∀ file ∈ sh.past, file ∈ sh'.past) : sh'.Stems fromStr data := by
  rcases h with hempty | ⟨contents, hhad, hdata⟩
  · exact .inl hempty
  · exact .inr ⟨contents, hhad.mono hpast, hdata⟩

theorem Phase.Stems.mono {sh sh' : Shared} {ph : Phase} (h : ph.Stems fromStr sh)
    (hpast : ∀ file ∈ sh.past, file ∈ sh'.past) : ph.Stems fromStr sh' := by
  unfold Phase.Stems at h ⊢
  split
  · exact Shared.Had.mono h hpast
  · exact Shared.Had.mono h hpast
  · exact Shared.Had.mono h hpast
  · obtain ⟨data, hstems, hkey⟩ := h
    exact ⟨data, hstems.mono hpast, hkey⟩
  · exact trivial

/-- What is read is on record. -/
theorem Shared.had_of_read {sh : Shared} {contents : Str}
    (hcurrent : ∀ file, sh.file = some file → file ∈ sh.past)
    (hread : readToString sh.file = .ok contents) : sh.Had contents := by
  cases hfile : sh.file with
  | none =>
    rw [hfile] at hread
    cases hread
  | some file =>
    rw [hfile] at hread
    exact ⟨file, hcurrent file hfile, hread⟩

theorem Does.stems {a : Act} {sh sh' : Shared} {ph ph' : Phase} (h : Does path fromStr sh a ph sh' ph')
    (hcurrent : ∀ file, sh.file = some file → file ∈ sh.past)
    (hcache : sh.Stems fromStr sh.cache.data) (hph : ph.Stems fromStr sh) :
    sh'.Stems fromStr sh'.cache.data ∧ ph'.Stems fromStr sh' := by
  cases h with
  | opened hread => exact ⟨hcache, Shared.had_of_read hcurrent hread⟩
  | cleared => exact ⟨.inl rfl, trivial⟩
  | sampled => exact ⟨hcache, hph⟩
  | loaded hparse => exact ⟨.inr ⟨_, hph, parse_eq_ok_iff.mp hparse⟩, trivial⟩
  | reread hread => exact ⟨hcache, Shared.had_of_read hcurrent hread⟩
  | emptied => exact ⟨.inl rfl, trivial⟩
  | stored hparse => exact ⟨.inr ⟨_, hph, parse_eq_ok_iff.mp hparse⟩, trivial⟩
  | @looked key =>
    refine ⟨hcache, ?_⟩
    cases hkey : sh.cache.data key with
    | none => exact trivial
    | some v => exact ⟨sh.cache.data, hcache, hkey⟩
  | _ => exact ⟨hcache, trivial⟩

/-- A write adds to the record, and the file in place is on it. -/
theorem write_recorded {e : Event} {sh sh' : Shared} (h : write e sh = some sh') :
    (∀ file ∈ sh.past, file ∈ sh'.past) ∧ ∀ file, sh'.file = some file → file ∈ sh'.past := by
  obtain rfl | ⟨new, rfl⟩ := write_cases h
  · refine ⟨fun _ hfile => hfile, fun file hfile => ?_⟩
    cases hfile
  · refine ⟨fun _ hfile => List.mem_cons_of_mem _ hfile, fun file hfile => ?_⟩
    cases hfile
    exact List.mem_cons_self

theorem stemming_kept (g : Tasks.Guard Shared Phase Act Event) :
    (stemming fromStr).Kept (writtenTasks path fromStr) g where
  act := by
    intro i a sh ph sh' ph' _ hshared htask hact
    have hdoes := act_eq_some_iff.mp hact
    obtain ⟨hcache, hph⟩ := hdoes.stems hshared.1 hshared.2 htask
    refine ⟨⟨?_, hcache⟩, hph⟩
    rw [hdoes.keeps.1, hdoes.keeps.2]
    exact hshared.1
  act_stable := by
    intro i j a sh ph sh' ph' u _ _ _ _ hu hact
    refine Phase.Stems.mono hu ?_
    rw [(act_eq_some_iff.mp hact).keeps.2]
    exact fun _ hfile => hfile
  env := by
    intro e sh sh' _ hshared hwrite
    obtain ⟨hpast, hfile⟩ := write_recorded hwrite
    refine ⟨hfile, ?_⟩
    rw [write_keeps hwrite]
    exact Shared.Stems.mono hshared.2 hpast
  env_stable := fun _ _ hu hwrite => hu.mono (write_recorded hwrite).1

theorem stemming_start (file : Option SecretsFile) : (stemming fromStr).holds (start file) := by
  refine ⟨⟨?_, .inl rfl⟩, fun i => ?_⟩
  · intro file' hfile'
    exact Option.mem_toList.mpr hfile'
  · by_cases hi : i = 0
    · subst hi
      exact trivial
    · simp only [start, Function.update_of_ne hi]
      exact trivial

/-- A value a call returns was under its key in one of the files there were. -/
theorem returned_held {file : Option SecretsFile} {p : Pool Nat Shared Phase}
    (h : (writtenMachine path fromStr).Reaches Machine.anyMove (start file) p) {i : Nat} {key v : Str}
    (hanswered : p.tasks i = .answered key (.ok (some v))) :
    ∃ file ∈ p.shared.past, ∃ data, Holds fromStr file data ∧ data key = some v := by
  have hkept : (stemming fromStr).Kept (writtenTasks path fromStr) .any := stemming_kept .any
  have htask := (hkept.reaches_any h (stemming_start file)).2 i
  rw [hanswered] at htask
  obtain ⟨data, hstems, hkey⟩ := htask
  rcases hstems with rfl | ⟨contents, ⟨file, hfile, hread⟩, hdata⟩
  · cases hkey
  · exact ⟨file, hfile, data, ⟨contents, hread, hdata⟩, hkey⟩

end FileBackend

/-! ## Kubernetes -/

namespace Kubernetes

/-- The cache is what the watcher makes of the items so far, and every call has answered
    from what it made of some of them. -/
def watched (got : Except Str Secret) : Tasks.Inv Nat Shared Phase where
  shared := fun sh => sh.data = watch (initialData got) sh.items ∧ (sh.watching = true ↔ Quiet sh.items)
  task := fun _ sh ph =>
    match ph with
    | .idle => True
    | .answered key result =>
      ∃ pre, pre <+: sh.items ∧ result = resolve (watch (initialData got) pre) key

theorem quiet_append_ok {items : List Item} {e : Event} : Quiet (items ++ [.ok e]) ↔ Quiet items := by
  constructor
  · intro h err herr
    exact h err (List.mem_append_left _ herr)
  · intro h err herr
    rcases List.mem_append.mp herr with hold | hnew
    · exact h err hold
    · cases List.mem_singleton.mp hnew

/-- A watcher that has returned follows the watch no more. -/
theorem watch_append_of_error {data : Data} {items : List Item} (h : ¬ Quiet items) (item : Item) :
    watch data (items ++ [item]) = watch data items := by
  rcases quiet_or_error items with hquiet | ⟨pre, e, post, rfl, -⟩
  · exact absurd hquiet h
  · rw [List.append_assoc, List.cons_append, watch_error, watch_error]

theorem event_watched {got : Except Str Secret} {item : Item} {sh sh' : Shared}
    (h : event item sh = some sh') (hsh : (watched got).shared sh) :
    sh'.items = sh.items ++ [item] ∧ (watched got).shared sh' := by
  obtain ⟨hdata, hwatching⟩ := hsh
  unfold event at h
  cases hon : sh.watching with
  | true =>
    have hquiet := hwatching.mp hon
    simp only [hon, if_true] at h
    cases item with
    | ok e =>
      cases h
      refine ⟨rfl, ?_, ?_⟩
      · rw [watch_event hquiet, hdata]
      · exact ⟨fun _ => quiet_append_ok.mpr hquiet, fun _ => rfl⟩
    | error e =>
      cases h
      have herror : watch (initialData got) (sh.items ++ [.error e]) = watch (initialData got) sh.items := by
        rw [watch_error]
      refine ⟨rfl, ?_, ?_⟩
      · rw [herror, hdata]
      · refine ⟨fun hfalse => ?_, fun hall => absurd List.mem_concat_self (hall e)⟩
        cases hfalse
  | false =>
    simp only [hon, Bool.false_eq_true, if_false] at h
    have hloud : ¬ Quiet sh.items := by
      intro hquiet
      rw [hwatching.mpr hquiet] at hon
      cases hon
    cases h
    refine ⟨rfl, ?_, ?_⟩
    · rw [watch_append_of_error hloud, hdata]
    · refine ⟨fun htrue => ?_, fun hall => ?_⟩
      · cases htrue
      · exact absurd (fun err herr => hall err (List.mem_append_left _ herr)) hloud

theorem watched_kept (got : Except Str Secret) (g : Tasks.Guard Shared Phase Str Item) :
    (watched got).Kept service.tasks g where
  act := by
    intro i key sh ph sh' ph' _ hshared _ hact
    cases ph with
    | idle =>
      cases hact
      exact ⟨hshared, sh.items, List.prefix_rfl, by rw [hshared.1]⟩
    | answered key' result => cases hact
  act_stable := by
    intro i j key sh ph sh' ph' u _ _ _ _ hu hact
    cases ph with
    | idle => cases hact; exact hu
    | answered key' result => cases hact
  env := fun _ hshared henv => (event_watched henv hshared).2
  env_stable := by
    intro j item sh sh' u _ hshared hu henv
    cases u with
    | idle => exact trivial
    | answered key result =>
      obtain ⟨pre, hpre, hresult⟩ := hu
      refine ⟨pre, ?_, hresult⟩
      rw [(event_watched henv hshared).1]
      exact hpre.trans (List.prefix_append _ _)

theorem watched_start (got : Except Str Secret) : (watched got).holds (start got) := by
  refine ⟨⟨rfl, fun _ e he => ?_, fun _ => rfl⟩, fun _ => trivial⟩
  cases he

end Kubernetes

end EnvProxy
