-- SUMMARY: The file backend called again and again, while the file changes between the calls.
import EnvProxy.Agent.FileStartup

/-!
# Sequential runs of the file backend

Between two calls the file may appear, be replaced and disappear at will; during a call
it stays put. As long as a modification time stands for one content, the cache cannot
be told from no cache at all: `lookup` reads the file anew for every key.
-/

namespace EnvProxy.FileBackend

section

variable (path : Str) (fromStr : Str → Except Str Data)

/-- What a backend without a cache answers. -/
def lookup (file : Option SecretsFile) (key : Str) : ResolveResult :=
  match readToString file with
  | .error .notFound => .ok none
  | .error (.other msg) => .error (.io msg)
  | .ok contents =>
    match parse path fromStr contents with
    | .error e => .error e
    | .ok data => .ok (data key)

/-- The caches a successful `new` and calls after it leave, with the files they saw. -/
inductive Sequential : List SecretsFile → FileCache → Prop where
  | new {file : Option SecretsFile} {cache : FileCache} :
      reload path fromStr file file .empty = (.ok (), cache) → Sequential file.toList cache
  | call {seen : List SecretsFile} {cache : FileCache} (file : Option SecretsFile) (key : Str) :
      Sequential seen cache →
      Sequential (file.toList ++ seen) (resolve path fromStr file cache key).2

end

/-- Equal modification times mean equal contents. -/
def Timestamped (files : List SecretsFile) : Prop :=
  ∀ f ∈ files, ∀ g ∈ files, f.modified = g.modified → f.contents = g.contents

/-- The cache holds the data of a file it saw, under the time of that file, or nothing. -/
def FileCache.From (fromStr : Str → Except Str Data) (seen : List SecretsFile) (cache : FileCache) :
    Prop :=
  match cache.lastModified with
  | none => cache.data = fun _ => none
  | some modified => ∃ file ∈ seen, file.modified = modified ∧ Holds fromStr file cache.data

variable {path : Str} {fromStr : Str → Except Str Data}

theorem FileCache.From.empty (seen : List SecretsFile) : FileCache.From fromStr seen .empty := rfl

theorem FileCache.From.mono {seen seen' : List SecretsFile} {cache : FileCache}
    (h : cache.From fromStr seen) (hsub : ∀ f ∈ seen, f ∈ seen') : cache.From fromStr seen' := by
  unfold From at h ⊢
  cases hmodified : cache.lastModified with
  | none => simpa only [hmodified] using h
  | some modified =>
    simp only [hmodified] at h ⊢
    obtain ⟨file, hfile, htime, hholds⟩ := h
    exact ⟨file, hsub file hfile, htime, hholds⟩

/-- What was read from a file and parsed is cached from that file. -/
theorem FileCache.From.loaded {file : Option SecretsFile} {seen : List SecretsFile} {contents : Str}
    {data : Data} (hread : readToString file = .ok contents)
    (hparse : parse path fromStr contents = .ok data) :
    FileCache.From fromStr (file.toList ++ seen) { data, lastModified := modified file } := by
  cases file with
  | none => cases hread
  | some file =>
    exact ⟨file, List.mem_append_left _ (List.mem_singleton_self file), rfl, contents, hread,
      parse_eq_ok_iff.mp hparse⟩

theorem reload_from {file : Option SecretsFile} {cache : FileCache}
    (h : reload path fromStr file file .empty = (.ok (), cache)) :
    cache.From fromStr file.toList := by
  simp only [reload] at h
  split at h
  · cases h
    exact .empty _
  · cases h
  · next contents hread =>
    split at h
    · cases h
    · next data hparse =>
      cases h
      have hloaded : FileCache.From fromStr (file.toList ++ [])
          { data, lastModified := modified file } := .loaded hread hparse
      rwa [List.append_nil] at hloaded

/-- The cases of a call, each with what it answers and what it leaves. -/
theorem resolve_cases (path : Str) (fromStr : Str → Except Str Data) (file : Option SecretsFile)
    (cache : FileCache) (key : Str) :
    (cache.lastModified = modified file ∧
        resolve path fromStr file cache key = (.ok (cache.data key), cache)) ∨
      (cache.lastModified ≠ modified file ∧
        (resolve path fromStr file cache key).1 = lookup path fromStr file key ∧
        ((resolve path fromStr file cache key).2 = cache ∨
          (∀ e, lookup path fromStr file key ≠ .error e) ∧
            ∀ seen, (resolve path fromStr file cache key).2.From fromStr (file.toList ++ seen))) := by
  by_cases h : cache.lastModified = modified file
  · exact .inl ⟨h, resolve_current key h⟩
  · have hneeds : needsReload cache.lastModified (modified file) = true := by
      rw [← Bool.not_eq_false, needsReload_eq_false_iff]
      exact h
    refine .inr ⟨h, ?_⟩
    simp only [resolve, lookup, hneeds, if_true]
    cases hread : readToString file with
    | error e =>
      cases e with
      | notFound => exact ⟨rfl, .inr ⟨(fun e he => by cases he), fun seen => .empty _⟩⟩
      | other msg => exact ⟨rfl, .inl rfl⟩
    | ok contents =>
      simp only
      cases hparse : parse path fromStr contents with
      | error e => exact ⟨rfl, .inl rfl⟩
      | ok data => exact ⟨rfl, .inr ⟨(fun e he => by cases he), fun seen => .loaded hread hparse⟩⟩

theorem Sequential.cache_from {seen : List SecretsFile} {cache : FileCache}
    (h : Sequential path fromStr seen cache) : cache.From fromStr seen := by
  induction h with
  | new hreload => exact reload_from hreload
  | @call seen cache file key _ ih =>
    have hcache : cache.From fromStr (file.toList ++ seen) :=
      ih.mono fun f hf => List.mem_append_right _ hf
    obtain ⟨-, heq⟩ | ⟨-, -, hsame | ⟨-, hloaded⟩⟩ := resolve_cases path fromStr file cache key
    · rw [heq]
      exact hcache
    · rw [hsame]
      exact hcache
    · exact hloaded seen

/-- The cache of a file that is in place unchanged is the file. -/
theorem lookup_current {seen : List SecretsFile} {cache : FileCache} {file : Option SecretsFile}
    (hfrom : cache.From fromStr seen) (hdated : Timestamped (file.toList ++ seen))
    (h : cache.lastModified = modified file) (key : Str) :
    lookup path fromStr file key = .ok (cache.data key) := by
  unfold FileCache.From at hfrom
  rw [h] at hfrom
  cases file with
  | none =>
    have hempty : cache.data = fun _ => none := hfrom
    rw [hempty]
    rfl
  | some file =>
    obtain ⟨old, hold, htime, contents, hread, hdata⟩ := hfrom
    have hsame : old.contents = file.contents :=
      hdated old (List.mem_append_right _ hold) file
        (List.mem_append_left _ (List.mem_singleton_self file)) htime
    have hread' : readToString (some file) = .ok contents := by
      rw [← hread]
      simp only [readToString, hsame]
    simp only [lookup, hread', parse_eq_ok_iff.mpr hdata]

/-- A call after any sequential run answers from the file alone: that the key is
    missing if there is no file, a parse error if the file is no string map, and what the
    map has otherwise. A call that fails leaves the cache as it was. -/
theorem file_refines_lookup {seen : List SecretsFile} {cache : FileCache}
    (hrun : Sequential path fromStr seen cache) (file : Option SecretsFile) (key : Str)
    (hdated : Timestamped (file.toList ++ seen)) :
    (file = none → (resolve path fromStr file cache key).1 = .ok none) ∧
    (∀ contents, readToString file = .ok contents →
      (resolve path fromStr file cache key).1 =
        match fromStr contents with
        | .ok data => .ok (data key)
        | .error e => .error (.parse ("failed to parse ".toList ++ path ++ ": ".toList ++ e))) ∧
    ∀ e, (resolve path fromStr file cache key).1 = .error e →
      (resolve path fromStr file cache key).2 = cache := by
  have hlookup : (resolve path fromStr file cache key).1 = lookup path fromStr file key := by
    obtain ⟨htime, heq⟩ | ⟨-, heq, -⟩ := resolve_cases path fromStr file cache key
    · rw [heq, lookup_current hrun.cache_from hdated htime]
    · exact heq
  refine ⟨?_, fun contents hread => ?_, fun e herror => ?_⟩
  · rintro rfl
    exact hlookup
  · rw [hlookup]
    simp only [lookup, hread, parse]
    cases fromStr contents <;> rfl
  · obtain ⟨-, heq⟩ | ⟨-, -, hsame | ⟨hok, -⟩⟩ := resolve_cases path fromStr file cache key
    · rw [heq] at herror
      cases herror
    · exact hsame
    · rw [hlookup] at herror
      exact absurd herror (hok e)

/-- The backend starts without a file and serves the one that appears. -/
theorem file_refines_lookup_created :
    (resolve [] readJson (some original) .empty "KEY".toList).1 = .ok (some "original".toList) := by
  have hreload : reload [] readJson none none .empty = (.ok (), .empty) := rfl
  have hrun : Sequential [] readJson [] .empty := .new hreload
  have hdated : Timestamped ((some original).toList ++ []) := by
    simp only [Option.toList, List.append_nil, Timestamped, List.mem_singleton]
    rintro f rfl g rfl -
    rfl
  rw [(file_refines_lookup hrun (some original) _ hdated).2.1 _ readToString_original]
  rfl

end EnvProxy.FileBackend
