-- SUMMARY: What the Python proxy inherits from `MutableMapping`: `pop`, `popitem`, `clear` and `items`.
import Mathlib.Data.List.Nodup
import EnvProxy.Client.PythonWrites

/-!
# The inherited methods

`MutableMapping` builds its methods from a lookup, a deletion and an iteration. The
proxy iterates over and deletes what the real environment has, and looks up what the
agent has as well. `mapping_contracts_iff` says when the inherited methods keep their
contracts all the same.
-/

namespace EnvProxy.Python

/-- Whether the exception is a `KeyError`. -/
def Exception.isKeyError : Exception → Bool
  | .lookup (.keyError _) | .emptyMapping => true
  | _ => false

/-- `iter(os.environ)`. -/
def iterKeys (env : Environ) : List PyStr := env.names.map fun name => .decode name.bytes

section

variable {Time : Type} {m : Type → Type} [Monad m] [Sub Time] [LT Time] [DecidableLT Time]

/-- `pop`; without a default, the `KeyError` of the lookup is raised. -/
def pop {α : Type} (w : World Time m) (self : Proxy Time) (key : PyStr) (default : Option α) :
    m (Except Exception (PyStr ⊕ α) × Proxy Time) := do
  let (result, self) ← getitem w self key
  match result, default with
  | .ok value, _ =>
    let (deleted, self) := delitem self key
    pure (deleted.map fun _ => .inl value, self)
  | .error (.keyError _), some default => pure (.ok (.inr default), self)
  | .error e, _ => pure (.error (.lookup e), self)

/-- `popitem`. -/
def popitem (w : World Time m) (self : Proxy Time) :
    m (Except Exception (PyStr × PyStr) × Proxy Time) :=
  match iterKeys self.original with
  | [] => pure (.error .emptyMapping, self)
  | key :: _ => do
    let (result, self) ← getitem w self key
    match result with
    | .error e => pure (.error (.lookup e), self)
    | .ok value =>
      let (deleted, self) := delitem self key
      pure (deleted.map fun _ => (key, value), self)

/-- The loop of `clear`; `none` if it has not ended after so many turns. -/
def clearLoop (w : World Time m) (self : Proxy Time) :
    Nat → m (Option (Except Exception Unit) × Proxy Time)
  | 0 => pure (none, self)
  | turns + 1 => do
    let (result, self) ← popitem w self
    match result with
    | .ok _ => clearLoop w self turns
    | .error e => pure (some (if e.isKeyError then .ok () else .error e), self)

/-- `clear`, which takes a turn for each variable and one more. -/
def clear (w : World Time m) (self : Proxy Time) : m (Option (Except Exception Unit) × Proxy Time) :=
  clearLoop w self (self.original.names.length + 1)

/-- The rest of an iteration over `items()`. -/
def itemsFrom (w : World Time m) (self : Proxy Time) :
    List PyStr → m (Except Error (List (PyStr × PyStr)) × Proxy Time)
  | [] => pure (.ok [], self)
  | key :: keys => do
    let (result, self) ← getitem w self key
    match result with
    | .error e => pure (.error e, self)
    | .ok value =>
      let (rest, self) ← itemsFrom w self keys
      pure (rest.map ((key, value) :: ·), self)

/-- All of `items()`. -/
def items (w : World Time m) (self : Proxy Time) :
    m (Except Error (List (PyStr × PyStr)) × Proxy Time) :=
  itemsFrom w self (iterKeys self.original)

end

/-! ## Which keys can be read -/

theorem decode_injective : Function.Injective PyStr.decode := by
  intro a b h
  have hencode := congrArg PyStr.encode h
  rwa [PyStr.encode_decode, PyStr.encode_decode, Option.some.injEq] at hencode

theorem decode_bytes_injective : Function.Injective fun name : CStr => PyStr.decode name.bytes :=
  fun _ _ h => CStr.ext (decode_injective h)

theorem iterKeys_nodup (env : Environ) : (iterKeys env).Nodup :=
  env.names_nodup.map decode_bytes_injective

theorem mem_iterKeys_iff {env : Environ} {name : CStr} :
    PyStr.decode name.bytes ∈ iterKeys env ↔ env.get name.bytes ≠ none := by
  rw [← Environ.mem_names_iff]
  exact List.mem_map_of_injective decode_bytes_injective

section

variable {Time : Type} [Sub Time] [LT Time] [DecidableLT Time]

/-- A lookup finds a plain value, an entry with a value, or a value that the agent
    sends for it now. -/
def Readable (o : Oracle Time) (self : Proxy Time) (t : Trace) (key : PyStr) : Prop :=
  (∃ value, osGetitem self.original key = .ok value ∧ value.startsWith vaultPrefix = false) ∨
    (∃ entry, FromCache o self t key entry ∧ entry.value.isSome) ∨
    (Unanswered self key ∧ (∀ entry, ¬ FromCache o self t key entry) ∧
      ∃ sent, wanted self key = .ok sent ∧ (heard o t.requests sent).isSome)

/-- The keys can be read, one after the other. -/
def AllRead (o : Oracle Time) (self : Proxy Time) : List PyStr → Trace → Prop
  | [], _ => True
  | key :: keys, t =>
    Readable o self t key ∧ AllRead o self keys (Recorded.exec (getitem o.world self key) t).2

theorem answer_eq_ok_iff {key : PyStr} {value : Option PyStr} :
    (∃ v, answer key value = .ok v) ↔ value.isSome := by
  cases value <;> simp [answer]

theorem readable_iff {o : Oracle Time} {self : Proxy Time} {t : Trace} {key : PyStr} :
    Readable o self t key ↔ ∃ value, (Recorded.exec (getitem o.world self key) t).1.1 = .ok value := by
  obtain hplain | ⟨entry, hcached⟩ | ⟨hunanswered, hmiss⟩ := lookup_cases o self t key
  · rw [exec_getitem_real o t hplain]
    constructor
    · rintro (⟨value, hreal, -⟩ | ⟨entry, hcached, -⟩ | ⟨hunanswered, -⟩)
      · exact ⟨value, hreal⟩
      · exact absurd hcached.1 hplain
      · exact absurd hunanswered hplain
    · rintro ⟨value, hreal⟩
      exact .inl ⟨value, hreal, by simpa only [unanswered_real hreal, Bool.not_eq_true] using hplain⟩
  · rw [exec_getitem_cached hcached, answer_eq_ok_iff]
    constructor
    · rintro (⟨value, hreal, hplain⟩ | ⟨entry', hcached', hsome⟩ | ⟨-, hmiss, -⟩)
      · have hvault := (unanswered_real hreal).mp hcached.1
        rw [hplain] at hvault
        cases hvault
      · cases hcached.2.1.symm.trans hcached'.2.1
        exact hsome
      · exact absurd hcached (hmiss entry)
    · exact fun hsome => .inr (.inl ⟨entry, hcached, hsome⟩)
  · rw [exec_getitem_asked o t hunanswered hmiss]
    constructor
    · rintro (⟨value, hreal, hplain⟩ | ⟨entry, hcached, -⟩ | ⟨-, -, sent, hwanted, hsome⟩)
      · have hvault := (unanswered_real hreal).mp hunanswered
        rw [hplain] at hvault
        cases hvault
      · exact absurd hcached (hmiss entry)
      · rw [hwanted]
        exact answer_eq_ok_iff.mpr hsome
    · cases hwanted : wanted self key with
      | error e =>
        rintro ⟨value, h⟩
        cases h
      | ok sent =>
        intro h
        exact .inr (.inr ⟨hunanswered, hmiss, sent, hwanted, answer_eq_ok_iff.mp h⟩)

end

/-! ## What one read leaves for the others -/

section

variable {Time : Type}

/-- The proxies agree about everything a lookup of the key looks at. -/
structure Alike (first second : Proxy Time) (key : PyStr) : Prop where
  real : osGetitem second.original key = osGetitem first.original key
  entry : second.cache key = first.cache key
  socket : second.sockPath = first.sockPath
  ttl : second.cacheTtl = first.cacheTtl

theorem Alike.trans {self self' self'' : Proxy Time} {key : PyStr} (h : Alike self self' key)
    (h' : Alike self' self'' key) : Alike self self'' key :=
  ⟨h'.real.trans h.real, h'.entry.trans h.entry, h'.socket.trans h.socket, h'.ttl.trans h.ttl⟩

/-- The deletion of a variable changes nothing a lookup of another variable looks at. -/
theorem alike_write {self : Proxy Time} {key other : PyStr} {original : Environ}
    (hdel : osDelitem self.original key = .ok original) (hother : other.encode ≠ key.encode) :
    Alike self (write self key (.ok original)).2 other := by
  obtain ⟨name, hname, -, -, rfl⟩ := osDelitem_ok_iff.mp hdel
  have hne : other ≠ key := fun h => hother (h ▸ rfl)
  refine ⟨?_, Function.update_of_ne hne _ _, rfl, rfl⟩
  cases hencode : other.encode with
  | none => simp only [osGetitem, hencode]
  | some bytes =>
    have hbytes : bytes ≠ name := fun h => hother (by rw [hencode, hname, h])
    rw [osGetitem_encoded hencode, osGetitem_encoded hencode]
    simp only [write, Environ.get_remove_ne _ hbytes]

theorem unsetenv_error {name : Bytes} {e : Exception} (h : unsetenv name = .error e) :
    e.isKeyError = false := by
  simp only [unsetenv] at h
  split at h
  · cases h; rfl
  · split at h <;> cases h
    rfl

theorem osDelitem_keyError_iff {env : Environ} {key : PyStr} :
    (∃ e, osDelitem env key = .error e ∧ e.isKeyError = true) ↔
      ∃ name, key.encode = some name ∧ env.get name = none ∧ unsetenv name = .ok () := by
  simp only [osDelitem]
  cases hname : key.encode with
  | none => simp [Exception.isKeyError]
  | some name =>
    cases hunset : unsetenv name with
    | error e => simp [bind, Except.bind, unsetenv_error hunset, hunset]
    | ok u =>
      cases hget : env.get name <;>
        simp [bind, Except.bind, hget, hunset, Exception.isKeyError]

/-- Deleting a variable that there is fails only if the C library refuses its name. -/
theorem osDelitem_decode {env : Environ} {name : CStr} (h : env.get name.bytes ≠ none) :
    osDelitem env (.decode name.bytes) = (unsetenv name.bytes).map fun _ => env.remove name.bytes := by
  simp only [osDelitem, PyStr.encode_decode]
  cases hget : env.get name.bytes with
  | none => exact absurd hget h
  | some value => cases unsetenv name.bytes <;> rfl

end

section

variable {Time : Type} [Sub Time] [LT Time] [DecidableLT Time]

theorem Alike.resolve {self self' : Proxy Time} {key : PyStr} (h : Alike self self' key)
    (o : Oracle Time) (value : Option PyStr) (t : Trace) :
    (Recorded.exec (resolve o.world self' key value) t).1.1 =
        (Recorded.exec (resolve o.world self key value) t).1.1 ∧
      (Recorded.exec (resolve o.world self' key value) t).2 =
        (Recorded.exec (resolve o.world self key value) t).2 := by
  have hrefresh : ∀ t, (Recorded.exec (refresh o.world self' key value) t).1.1 =
        (Recorded.exec (refresh o.world self key value) t).1.1 ∧
      (Recorded.exec (refresh o.world self' key value) t).2 =
        (Recorded.exec (refresh o.world self key value) t).2 := by
    intro t
    rw [exec_refresh, exec_refresh, h.socket]
    cases request self.sockPath key value <;> exact ⟨rfl, rfl⟩
  simp only [Python.resolve, h.entry]
  cases self.cache key with
  | none => exact hrefresh t
  | some entry =>
    simp only [Recorded.exec_bind, Recorded.exec_clock, isCacheValid, h.ttl]
    by_cases hvalid : o.clock t.reads - entry.timestamp < self.cacheTtl
    · simp only [hvalid, decide_true, if_true]
      exact ⟨rfl, rfl⟩
    · simp only [hvalid, decide_false, Bool.false_eq_true, if_false]
      exact hrefresh _

theorem Alike.getitem {self self' : Proxy Time} {key : PyStr} (h : Alike self self' key)
    (o : Oracle Time) (t : Trace) :
    (Recorded.exec (getitem o.world self' key) t).1.1 =
        (Recorded.exec (getitem o.world self key) t).1.1 ∧
      (Recorded.exec (getitem o.world self' key) t).2 =
        (Recorded.exec (getitem o.world self key) t).2 := by
  simp only [Python.getitem, h.real]
  split
  · exact ⟨rfl, rfl⟩
  · split
    · exact ⟨rfl, rfl⟩
    · exact h.resolve o _ t
  · exact h.resolve o _ t

theorem AllRead.congr {o : Oracle Time} {self self' : Proxy Time} {keys : List PyStr} {t : Trace}
    (h : ∀ key ∈ keys, Alike self self' key) :
    AllRead o self' keys t ↔ AllRead o self keys t := by
  induction keys generalizing t with
  | nil => exact Iff.rfl
  | cons key keys ih =>
    obtain ⟨hresult, htrace⟩ := (h key List.mem_cons_self).getitem o t
    have hrest := ih (t := (Recorded.exec (getitem o.world self key) t).2)
      fun other hother => h other (List.mem_cons_of_mem _ hother)
    simp only [AllRead, readable_iff, hresult, htrace, hrest]

/-- A lookup changes nothing a lookup of another key looks at. -/
theorem alike_getitem (o : Oracle Time) (self : Proxy Time) {key other : PyStr}
    (hother : other ≠ key) (t : Trace) :
    Alike self (Recorded.exec (getitem o.world self key) t).1.2 other := by
  cases exec_getitem_state o self key t with
  | inl h =>
    rw [h]
    exact ⟨rfl, rfl, rfl, rfl⟩
  | inr h =>
    obtain ⟨value, entry, h, -⟩ := h
    rw [h]
    exact ⟨rfl, Function.update_of_ne hother _ _, rfl, rfl⟩

/-! ## The contracts -/

/-- With a default, `pop` raises a `KeyError` exactly for an absent variable that can be
    read. -/
theorem pop_keyError_iff {α : Type} (o : Oracle Time) (self : Proxy Time) (key : PyStr)
    (default : α) (t : Trace) :
    (∃ e, (Recorded.exec (pop o.world self key (some default)) t).1.1 = .error e ∧
        e.isKeyError = true) ↔
      Readable o self t key ∧ ∃ name, key.encode = some name ∧ self.original.get name = none ∧
        unsetenv name = .ok () := by
  rw [readable_iff, ← osDelitem_keyError_iff]
  have hreal := (exec_getitem_kept o self key t).1
  simp only [pop, Recorded.exec_bind]
  generalize Recorded.exec (getitem o.world self key) t = looked at hreal ⊢
  cases hresult : looked.1.1 with
  | ok value =>
    simp only [Recorded.exec_pure, delitem, write_result, hreal]
    cases osDelitem self.original key <;> simp [Except.map]
  | error e => cases e <;> simp [Exception.isKeyError]

theorem exec_popitem {self : Proxy Time} {key : PyStr} {keys : List PyStr} (o : Oracle Time)
    (t : Trace) (h : iterKeys self.original = key :: keys) :
    Recorded.exec (popitem o.world self) t =
      let looked := Recorded.exec (getitem o.world self key) t
      match looked.1.1 with
      | .error e => ((.error (.lookup e), looked.1.2), looked.2)
      | .ok value =>
        (((delitem looked.1.2 key).1.map fun _ => (key, value), (delitem looked.1.2 key).2),
          looked.2) := by
  simp only [popitem, h, Recorded.exec_bind]
  split <;> simp only [Recorded.exec_pure]

theorem exec_popitem_empty {self : Proxy Time} (o : Oracle Time) (t : Trace)
    (h : iterKeys self.original = []) :
    Recorded.exec (popitem o.world self) t = ((.error .emptyMapping, self), t) := by
  simp only [popitem, h, Recorded.exec_pure]

theorem exec_clearLoop (o : Oracle Time) (self : Proxy Time) (turns : Nat) (t : Trace) :
    Recorded.exec (clearLoop o.world self (turns + 1)) t =
      let popped := Recorded.exec (popitem o.world self) t
      match popped.1.1 with
      | .ok _ => Recorded.exec (clearLoop o.world popped.1.2 turns) popped.2
      | .error e => ((some (if e.isKeyError then .ok () else .error e), popped.1.2), popped.2) := by
  simp only [clearLoop, Recorded.exec_bind]
  split <;> rfl

/-- `popitem` removes the first variable if it can be read and deleted, and nothing
    otherwise. -/
theorem popitem_cases (o : Oracle Time) {name : CStr} {names : List CStr} {self : Proxy Time}
    (t : Trace) (h : self.original.names = name :: names) :
    let popped := Recorded.exec (popitem o.world self) t
    let key := PyStr.decode name.bytes
    (∃ e, popped.1.1 = .error e ∧ popped.1.2.original = self.original ∧
        ¬ (Readable o self t key ∧ unsetenv name.bytes = .ok ())) ∨
      (∃ item, popped.1.1 = .ok item ∧ (Readable o self t key ∧ unsetenv name.bytes = .ok ()) ∧
        popped.1.2.original = self.original.remove name.bytes ∧
        popped.2 = (Recorded.exec (getitem o.world self key) t).2 ∧
        ∀ other, other.encode ≠ some name.bytes → Alike self popped.1.2 other) := by
  intro popped key
  have hkeys : iterKeys self.original = key :: names.map fun name => .decode name.bytes := by
    rw [iterKeys, h, List.map_cons]
  have hmem : self.original.get name.bytes ≠ none :=
    Environ.mem_names_iff.mp (h ▸ List.mem_cons_self)
  have hpopped : popped = _ := exec_popitem o t hkeys
  have hreal := (exec_getitem_kept o self key t).1
  have halike : ∀ other, other ≠ key → Alike self (Recorded.exec (getitem o.world self key) t).1.2
      other := fun other hother => alike_getitem o self hother t
  simp only [readable_iff]
  generalize Recorded.exec (getitem o.world self key) t = looked at hpopped hreal halike ⊢
  have hdel : osDelitem looked.1.2.original key =
      (unsetenv name.bytes).map fun _ => self.original.remove name.bytes := by
    rw [hreal, osDelitem_decode hmem]
  cases hresult : looked.1.1 with
  | error e =>
    refine .inl ⟨.lookup e, ?_, ?_, fun hread => nomatch hread.1⟩
    · rw [hpopped]
      simp only [hresult]
    · rw [hpopped]
      simp only [hresult, hreal]
  | ok value =>
    cases hunset : unsetenv name.bytes with
    | error e =>
      rw [hunset] at hdel
      refine .inl ⟨e, ?_, ?_, fun hread => nomatch hread.2⟩
      · rw [hpopped]
        simp only [hresult, delitem, write_result, hdel]
        rfl
      · rw [hpopped]
        simp only [hresult, delitem, hdel]
        exact hreal
    | ok u =>
      rw [hunset] at hdel
      have hdel' : osDelitem looked.1.2.original key = .ok (self.original.remove name.bytes) := hdel
      have hafter : popped = ((.ok (key, value), (write looked.1.2 key
          (.ok (self.original.remove name.bytes))).2), looked.2) := by
        rw [hpopped]
        simp only [hresult, delitem, hdel']
        rfl
      rw [hafter]
      refine .inr ⟨_, rfl, ⟨⟨value, rfl⟩, rfl⟩, rfl, rfl, fun other hother => ?_⟩
      have hencode : other.encode ≠ key.encode := by rwa [PyStr.encode_decode]
      exact (halike other fun heq => hencode (heq ▸ rfl)).trans (alike_write hdel' hencode)

/-- The loop ends, with an empty environment exactly if every variable can be read and
    deleted in its turn. -/
theorem clearLoop_iff (o : Oracle Time) {names : List CStr} {self : Proxy Time} {t : Trace}
    (h : self.original.names = names) :
    (Recorded.exec (clearLoop o.world self (names.length + 1)) t).1.1 ≠ none ∧
      ((Recorded.exec (clearLoop o.world self (names.length + 1)) t).1.2.original = [] ↔
        AllRead o self (iterKeys self.original) t ∧
          ∀ name ∈ names, unsetenv name.bytes = .ok ()) := by
  induction names generalizing self t with
  | nil =>
    have hkeys : iterKeys self.original = [] := by rw [iterKeys, h, List.map_nil]
    have henv : self.original = [] := Environ.names_eq_nil_iff.mp h
    rw [List.length_nil, exec_clearLoop, exec_popitem_empty o t hkeys, hkeys]
    simp [AllRead, henv]
  | cons name names ih =>
    have hkeys : iterKeys self.original =
        .decode name.bytes :: names.map fun name => .decode name.bytes := by
      rw [iterKeys, h, List.map_cons]
    have hsome : self.original ≠ [] := fun henv => by simp [henv, Environ.names] at h
    rw [List.length_cons, exec_clearLoop, hkeys, AllRead, List.forall_mem_cons]
    have hcases := popitem_cases o t h
    generalize Recorded.exec (popitem o.world self) t = popped at hcases ⊢
    obtain ⟨e, hresult, hreal, hfails⟩ | ⟨item, hresult, hworks, hreal, htrace, halike⟩ := hcases
    · simp only [hresult]
      refine ⟨by simp, iff_of_false (hreal ▸ hsome) fun hall => hfails ⟨hall.1.1, hall.2.1⟩⟩
    · have hfresh : name ∉ names := (List.nodup_cons.mp (h ▸ self.original.names_nodup)).1
      have hnames : popped.1.2.original.names = names := by
        rw [hreal, Environ.names_remove, h, List.filter_cons_of_neg (by simp)]
        refine List.filter_eq_self.mpr fun other hother => decide_eq_true ?_
        rintro rfl
        exact hfresh hother
      obtain ⟨hends, hempties⟩ := ih (t := popped.2) hnames
      have hothers : ∀ key ∈ iterKeys popped.1.2.original, Alike self popped.1.2 key := by
        intro key hkey
        rw [iterKeys, hnames, List.mem_map] at hkey
        obtain ⟨other, hother, rfl⟩ := hkey
        refine halike _ fun hencode => hfresh ?_
        rw [PyStr.encode_decode, Option.some.injEq] at hencode
        exact CStr.ext hencode ▸ hother
      simp only [hresult]
      refine ⟨hends, hempties.trans ?_⟩
      rw [AllRead.congr hothers, iterKeys, hnames, htrace]
      simp only [hworks.1, hworks.2, true_and]

/-- An iteration that gets to its end has yielded every key. -/
theorem itemsFrom_keys {o : Oracle Time} {self : Proxy Time} {keys : List PyStr} {t : Trace}
    {pairs : List (PyStr × PyStr)}
    (h : (Recorded.exec (itemsFrom o.world self keys) t).1.1 = .ok pairs) :
    pairs.map Prod.fst = keys := by
  induction keys generalizing self t pairs with
  | nil =>
    cases h
    rfl
  | cons key keys ih =>
    simp only [itemsFrom, Recorded.exec_bind] at h
    generalize Recorded.exec (getitem o.world self key) t = looked at h
    cases hresult : looked.1.1 with
    | error e => simp [hresult] at h
    | ok value =>
      simp only [hresult, Recorded.exec_bind, Recorded.exec_pure] at h
      cases hrest : (Recorded.exec (itemsFrom o.world looked.1.2 keys) looked.2).1.1 with
      | error e => simp [hrest, Except.map] at h
      | ok rest =>
        simp only [hrest, Except.map, Except.ok.injEq] at h
        rw [← h, List.map_cons, ih hrest]

/-- It gets there exactly if every key can be read in its turn. -/
theorem itemsFrom_iff (o : Oracle Time) {self : Proxy Time} {keys : List PyStr} {t : Trace}
    (hnodup : keys.Nodup) :
    (∃ pairs, (Recorded.exec (itemsFrom o.world self keys) t).1.1 = .ok pairs) ↔
      AllRead o self keys t := by
  induction keys generalizing self t with
  | nil => exact iff_of_true ⟨[], rfl⟩ trivial
  | cons key keys ih =>
    obtain ⟨hfresh, hnodup'⟩ := List.nodup_cons.mp hnodup
    have halike : ∀ other ∈ keys,
        Alike self (Recorded.exec (getitem o.world self key) t).1.2 other := by
      intro other hother
      refine alike_getitem o self ?_ t
      rintro rfl
      exact hfresh hother
    simp only [AllRead, readable_iff, itemsFrom, Recorded.exec_bind]
    rw [← AllRead.congr halike, ← ih hnodup']
    generalize Recorded.exec (getitem o.world self key) t = looked
    cases hresult : looked.1.1 with
    | error e => simp
    | ok value =>
      simp only [Recorded.exec_bind, Recorded.exec_pure]
      cases (Recorded.exec (itemsFrom o.world looked.1.2 keys) looked.2).1.1 with
      | error e => simp [Except.map]
      | ok pairs => simp [Except.map]

/-- `clear` returns, or raises what the C library or a lookup raises. -/
theorem clear_returns (o : Oracle Time) (self : Proxy Time) (t : Trace) :
    (Recorded.exec (clear o.world self) t).1.1 ≠ none :=
  (clearLoop_iff o rfl).1

/-- `pop` with a default raises a `KeyError` exactly for an absent variable that can be
    read; `clear` empties the environment exactly if every variable can be read and
    deleted in its turn; `items` yields every variable once exactly if every one can be
    read in its turn. -/
theorem mapping_contracts_iff (o : Oracle Time) (self : Proxy Time) (t : Trace) :
    (∀ (α : Type) (key : PyStr) (default : α),
      (∀ e, (Recorded.exec (pop o.world self key (some default)) t).1.1 = .error e →
          e.isKeyError = false) ↔
        ¬ (Readable o self t key ∧ ∃ name, key.encode = some name ∧
          self.original.get name = none ∧ unsetenv name = .ok ())) ∧
      ((Recorded.exec (clear o.world self) t).1.2.original = [] ↔
        AllRead o self (iterKeys self.original) t ∧
          ∀ name ∈ self.original.names, unsetenv name.bytes = .ok ()) ∧
      ((∃ pairs, (Recorded.exec (items o.world self) t).1.1 = .ok pairs ∧
          (pairs.map Prod.fst).Nodup ∧
          ∀ name : CStr, .decode name.bytes ∈ pairs.map Prod.fst ↔
            self.original.get name.bytes ≠ none) ↔
        AllRead o self (iterKeys self.original) t) := by
  refine ⟨fun α key default => ?_, (clearLoop_iff o rfl).2, ?_⟩
  · rw [← pop_keyError_iff o self key default t]
    simp
  · rw [← itemsFrom_iff o (iterKeys_nodup self.original)]
    refine exists_congr fun pairs => and_iff_left_of_imp fun hpairs => ?_
    rw [itemsFrom_keys hpairs]
    exact ⟨iterKeys_nodup _, fun _ => mem_iterKeys_iff⟩

end

/-- An agent that has a value for every name, and resolves no reference. -/
def namesOnly : Oracle Int where
  reply := fun requests =>
    match requests.getLast? with
    | some { path := _, frame := version :: _ } =>
      if version = protocolV1 then .carrying [] else .refused
    | _ => .refused
  clock := fun _ => 0

/-- A new proxy over one variable, a reference. -/
def unresolved : Proxy Int where
  original := [(.lit "TOKEN", .lit "vault:token")]
  cache := fun _ => none
  sockPath := .ofStr defaultSocketPath
  cacheTtl := 30

theorem unresolved_unreadable :
    ¬ Readable namesOnly unresolved .start (.decode (CStr.lit "TOKEN").bytes) := by
  let value : CStr := .lit "vault:token"
  have hreal : osGetitem unresolved.original (.decode (CStr.lit "TOKEN").bytes) =
      .ok (.decode value.bytes) := by
    rw [osGetitem_encoded (PyStr.encode_decode _)]
    rfl
  have hvault : (PyStr.decode value.bytes).startsWith vaultPrefix = true :=
    (PyStr.startsWith_decode vaultPrefix_ascii _).mpr (by decide)
  rintro (⟨v, hv, hplain⟩ | ⟨entry, hcached, -⟩ | ⟨-, -, sent, hwanted, hsome⟩)
  · cases hreal.symm.trans hv
    rw [hvault] at hplain
    cases hplain
  · cases hcached.2.1
  · have hkey : ¬ (CStr.lit "TOKEN").bytes.length > 0xFFFF := by decide
    have hshort : ¬ value.bytes.length > 0xFFFF := by decide
    have hpath : unresolved.sockPath.encode = some (Utf8.encode defaultSocketPath) := by decide
    simp only [wanted, hreal, Except.toOption, request, encode, PyStr.encode_decode, hkey, hshort,
      hpath, if_false, Except.ok.injEq] at hwanted
    subst hwanted
    cases hsome

/-- A name of the agent can be popped only with a `KeyError`, and a reference that is not
    resolved stops `clear` and `items`. -/
theorem contracts_broken :
    (∃ e, (Recorded.exec (pop namesOnly.world unresolved (.ofStr ['J']) (some ())) .start).1.1 =
        .error e ∧ e.isKeyError = true) ∧
      (Recorded.exec (clear namesOnly.world unresolved) .start).1.2.original ≠ [] ∧
      ∀ pairs, (Recorded.exec (items namesOnly.world unresolved) .start).1.1 ≠ .ok pairs := by
  refine ⟨?_, ?_, ?_⟩
  · refine (pop_keyError_iff _ _ _ _ _).mpr
      ⟨.inr (.inr ⟨by rfl, ?_, ?_⟩), [0x4A], by decide, rfl, by decide⟩
    · exact fun entry h => nomatch h.2.1
    · refine ⟨some ⟨Utf8.encode defaultSocketPath, protocolFrame [0x4A] none⟩, by decide, ?_⟩
      have hreceived : received (.carrying []) = some (.decode []) := by
        rw [received_eq, Reply.found_carrying (Nat.zero_le _)]
        rfl
      change (received (.carrying [])).isSome = true
      rw [hreceived]
      rfl
  · intro hempty
    exact unresolved_unreadable ((clearLoop_iff namesOnly rfl).2.mp hempty).1.1
  · intro pairs hpairs
    exact unresolved_unreadable
      ((itemsFrom_iff namesOnly (iterKeys_nodup unresolved.original)).mp ⟨pairs, hpairs⟩).1

end EnvProxy.Python
