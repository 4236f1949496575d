-- SUMMARY: The file backend: the secrets file, the cache, `reload`, and `resolve` against a file that stays put.
import EnvProxy.Agent.Backend
import EnvProxy.Library.Utf8

/-!
# File backend

`reload` reads the contents and then samples the modification time; `resolve` samples
the modification time and then reads the contents. `serves_iff` says when calls made
one after another, with the file left alone, answer from the file.

The JSON reader is a parameter: `fromStr` turns a text into a string map or gives the
text of an error.
-/

namespace EnvProxy.FileBackend

/-- A string map. -/
abbrev Data := Str → Option Str

/-- What stands under the path. -/
structure SecretsFile where
  contents : Bytes
  modified : Nat
  deriving DecidableEq

structure FileCache where
  data : Data
  lastModified : Option Nat

def FileCache.empty : FileCache where
  data := fun _ => none
  lastModified := none

inductive ReadError where
  | notFound
  | other (msg : Str)

/-- `tokio::fs::read_to_string`. -/
def readToString : Option SecretsFile → Except ReadError Str
  | none => .error .notFound
  | some file =>
    match Utf8.decode? file.contents with
    | some contents => .ok contents
    | none => .error (.other "stream did not contain valid UTF-8".toList)

/-- `tokio::fs::metadata`, and the modification time in it. -/
def modified (file : Option SecretsFile) : Option Nat := file.map SecretsFile.modified

def needsReload (lastModified current : Option Nat) : Bool :=
  match lastModified, current with
  | none, some _ => true
  | some _, none => true
  | some cached, some current => cached ≠ current
  | none, none => false

theorem needsReload_eq_false_iff {lastModified current : Option Nat} :
    needsReload lastModified current = false ↔ lastModified = current := by
  cases lastModified with
  | none => cases current <;> simp [needsReload]
  | some m => cases current <;> simp [needsReload]

section

variable (path : Str) (fromStr : Str → Except Str Data)

def parse (contents : Str) : Except BackendError Data :=
  match fromStr contents with
  | .ok data => .ok data
  | .error e => .error (.parse ("failed to parse ".toList ++ path ++ ": ".toList ++ e))

/-- `reload`: the file as it is when it is read, and when its modification time is
    sampled. -/
def reload (atRead atStat : Option SecretsFile) (cache : FileCache) :
    Except BackendError Unit × FileCache :=
  match readToString atRead with
  | .error .notFound => (.ok (), .empty)
  | .error (.other msg) => (.error (.io msg), cache)
  | .ok contents =>
    match parse path fromStr contents with
    | .error e => (.error e, cache)
    | .ok data => (.ok (), { data, lastModified := modified atStat })

/-- `resolve`, with the file left alone. -/
def resolve (file : Option SecretsFile) (cache : FileCache) (key : Str) : ResolveResult × FileCache :=
  if needsReload cache.lastModified (modified file) then
    match readToString file with
    | .error .notFound => (.ok none, .empty)
    | .error (.other msg) => (.error (.io msg), cache)
    | .ok contents =>
      match parse path fromStr contents with
      | .error e => (.error e, cache)
      | .ok data => (.ok (data key), { data, lastModified := modified file })
  else
    (.ok (cache.data key), cache)

/-- Calls made one after another. -/
def session (file : Option SecretsFile) : FileCache → List Str → List ResolveResult
  | _, [] => []
  | cache, key :: keys =>
    (resolve path fromStr file cache key).1 ::
      session file (resolve path fromStr file cache key).2 keys

/-! ## Serving the file -/

/-- The file holds the string map. -/
def Holds (file : SecretsFile) (data : Data) : Prop :=
  ∃ contents, readToString (some file) = .ok contents ∧ fromStr contents = .ok data

/-- From this cache on, calls made one after another answer with the string map. -/
def Serves (file : SecretsFile) (cache : FileCache) (data : Data) : Prop :=
  ∀ keys, session path fromStr (some file) cache keys = keys.map fun key => .ok (data key)

variable {path fromStr}

theorem Holds.unique {file : SecretsFile} {data data' : Data} (h : Holds fromStr file data)
    (h' : Holds fromStr file data') : data = data' := by
  obtain ⟨contents, hread, hdata⟩ := h
  obtain ⟨contents', hread', hdata'⟩ := h'
  cases hread.symm.trans hread'
  exact Except.ok.inj (hdata.symm.trans hdata')

/-- A call with nothing to reload answers from the cache. -/
theorem resolve_current {file : Option SecretsFile} {cache : FileCache} (key : Str)
    (h : cache.lastModified = modified file) :
    resolve path fromStr file cache key = (.ok (cache.data key), cache) := by
  simp only [resolve, needsReload_eq_false_iff.mpr h, Bool.false_eq_true, if_false]

/-- A call that reloads a valid file answers from it, and caches it. -/
theorem resolve_changed {file : SecretsFile} {cache : FileCache} {data : Data} (key : Str)
    (hdata : Holds fromStr file data) (h : cache.lastModified ≠ some file.modified) :
    resolve path fromStr (some file) cache key =
      (.ok (data key), { data, lastModified := some file.modified }) := by
  obtain ⟨contents, hread, hparse⟩ := hdata
  have hneeds : needsReload cache.lastModified (modified (some file)) = true := by
    rw [← Bool.not_eq_false, needsReload_eq_false_iff]
    exact h
  simp only [resolve, hneeds, if_true, hread, parse, hparse]
  rfl

theorem session_current {file : Option SecretsFile} {cache : FileCache} (keys : List Str)
    (h : cache.lastModified = modified file) :
    session path fromStr file cache keys = keys.map fun key => .ok (cache.data key) := by
  induction keys with
  | nil => rfl
  | cons key keys ih => simp only [session, resolve_current key h, ih, List.map_cons]

/-- A cache serves a valid file unless it holds other data under the file's very
    modification time. -/
theorem serves_iff {file : SecretsFile} {cache : FileCache} {data : Data}
    (hdata : Holds fromStr file data) :
    Serves path fromStr file cache data ↔
      (cache.lastModified = some file.modified → cache.data = data) := by
  constructor
  · intro hserves hmodified
    funext key
    have hkey := hserves [key]
    rw [session_current [key] hmodified] at hkey
    simp only [List.map_cons, List.map_nil, List.cons.injEq, and_true] at hkey
    exact Except.ok.inj hkey
  · intro h keys
    by_cases hmodified : cache.lastModified = some file.modified
    · rw [session_current keys hmodified, h hmodified]
    · cases keys with
      | nil => rfl
      | cons key keys =>
        simp only [session, resolve_changed key hdata hmodified, List.map_cons]
        rw [session_current keys rfl]

end

end EnvProxy.FileBackend
