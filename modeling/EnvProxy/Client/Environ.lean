-- SUMMARY: C strings and the environment block of a process.
import EnvProxy.Proto.Wire

/-!
# The environment block

A C string carries the fact that it holds no NUL byte. The environment is the list
of its variables in order; the first variable of a name is the one `getenv` finds.
-/

namespace EnvProxy

structure CStr where
  bytes : Bytes
  nulFree : (0 : UInt8) ∉ bytes
  deriving DecidableEq

namespace CStr

@[ext] theorem ext {a b : CStr} (h : a.bytes = b.bytes) : a = b := by
  cases a; cases b; cases h; rfl

/-- `CString::new`, which refuses bytes with a NUL among them. -/
def new (b : Bytes) : Option CStr :=
  if h : (0 : UInt8) ∉ b then some ⟨b, h⟩ else none

theorem new_eq_some_iff {b : Bytes} {c : CStr} : new b = some c ↔ c.bytes = b := by
  unfold new
  split
  · simp [CStr.ext_iff, eq_comm]
  · next h => exact iff_of_false (by simp) (fun hb => h (hb ▸ c.nulFree))

theorem new_bytes (c : CStr) : new c.bytes = some c := new_eq_some_iff.mpr rfl

theorem new_eq_none_iff {b : Bytes} : new b = none ↔ (0 : UInt8) ∈ b := by
  unfold new
  split
  · next h => simp [h]
  · next h => simpa using h

/-- A C string literal. -/
def lit (s : String) (h : (0 : UInt8) ∉ Utf8.encode s.toList := by decide) : CStr :=
  ⟨Utf8.encode s.toList, h⟩

def append (a b : CStr) : CStr where
  bytes := a.bytes ++ b.bytes
  nulFree := by
    intro h
    cases List.mem_append.mp h with
    | inl h => exact a.nulFree h
    | inr h => exact b.nulFree h

instance : Append CStr := ⟨append⟩

theorem bytes_append (a b : CStr) : (a ++ b).bytes = a.bytes ++ b.bytes := rfl

/-- Whether the string starts with an ASCII word. -/
def startsWith (s : CStr) (w : Str) : Bool := (Utf8.encode w).isPrefixOf s.bytes

theorem startsWith_iff {s : CStr} {w : Str} : s.startsWith w ↔ Utf8.encode w <+: s.bytes :=
  List.isPrefixOf_iff_prefix

end CStr

/-! ## The environment -/

abbrev Environ := List (CStr × CStr)

namespace Environ

/-- The real `getenv`: the value of the first variable called `name`. -/
def get : Environ → Bytes → Option CStr
  | [], _ => none
  | (n, v) :: rest, name => if n.bytes = name then some v else get rest name

/-- `setenv`: overwrite the first variable called `name`, or add one. -/
def set : Environ → CStr → CStr → Environ
  | [], name, value => [(name, value)]
  | (n, v) :: rest, name, value =>
    if n = name then (n, value) :: rest else (n, v) :: set rest name value

theorem get_set_self (env : Environ) (name value : CStr) :
    (env.set name value).get name.bytes = some value := by
  induction env with
  | nil => simp [set, get]
  | cons p rest ih =>
    simp only [set]
    split
    · next h => simp [get, h]
    · next h =>
      have hb : p.1.bytes ≠ name.bytes := fun hb => h (CStr.ext hb)
      simp only [get, if_neg hb, ih]

theorem get_set_ne (env : Environ) {name : CStr} {other : Bytes} (value : CStr)
    (h : other ≠ name.bytes) : (env.set name value).get other = env.get other := by
  induction env with
  | nil => simp [set, get, Ne.symm h]
  | cons p rest ih =>
    simp only [set]
    split
    · next hn => simp [get, hn, Ne.symm h]
    · simp only [get, ih]

/-- Drop the variable called `name`. -/
def remove (env : Environ) (name : Bytes) : Environ := env.filter fun p => p.1.bytes ≠ name

theorem get_remove_ne (env : Environ) {name other : Bytes} (h : other ≠ name) :
    (env.remove name).get other = env.get other := by
  induction env with
  | nil => rfl
  | cons p rest ih =>
    by_cases hp : p.1.bytes = name
    · have hother : p.1.bytes ≠ other := fun heq => h (heq.symm.trans hp)
      have hrest : Environ.remove (p :: rest) name = Environ.remove rest name := by
        simp [remove, hp]
      rw [hrest, ih, get, if_neg hother]
    · have hrest : Environ.remove (p :: rest) name = p :: Environ.remove rest name := by
        simp [remove, hp]
      rw [hrest, get, get, ih]

/-- The names of the variables, in the order they come first. -/
def names : Environ → List CStr
  | [] => []
  | (n, _) :: rest => n :: (names rest).filter fun m => m ≠ n

theorem mem_names_iff {env : Environ} {n : CStr} : n ∈ env.names ↔ env.get n.bytes ≠ none := by
  induction env with
  | nil => simp [names, get]
  | cons p rest ih =>
    by_cases hp : p.1 = n
    · simp [names, get, hp]
    · have hbytes : p.1.bytes ≠ n.bytes := fun h => hp (CStr.ext h)
      simp [names, get, hbytes, ih, Ne.symm hp]

theorem names_remove (env : Environ) (n : CStr) :
    (env.remove n.bytes).names = env.names.filter fun m => m ≠ n := by
  induction env with
  | nil => rfl
  | cons p rest ih =>
    obtain ⟨m, v⟩ := p
    by_cases hm : m = n
    · subst hm
      have hrest : Environ.remove ((m, v) :: rest) m.bytes = Environ.remove rest m.bytes := by
        simp [remove]
      rw [hrest, ih]
      simp [names, List.filter_filter]
    · have hbytes : m.bytes ≠ n.bytes := fun h => hm (CStr.ext h)
      have hrest : Environ.remove ((m, v) :: rest) n.bytes =
          (m, v) :: Environ.remove rest n.bytes := by
        simp [remove, hbytes]
      rw [hrest]
      simp only [names, ih, List.filter_cons, hm, ne_eq, not_false_eq_true, decide_true, if_true,
        List.filter_filter, Bool.and_comm]

theorem names_nodup (env : Environ) : env.names.Nodup := by
  induction env with
  | nil => exact List.nodup_nil
  | cons p rest ih => exact List.nodup_cons.mpr ⟨by simp, ih.filter _⟩

theorem names_eq_nil_iff {env : Environ} : env.names = [] ↔ env = [] := by
  cases env <;> simp [names]

end Environ

/-! ## Configuration variables -/

/-- The variables of this prefix configure the clients themselves. -/
def configPrefix : Str := "ENVPROXY_".toList

theorem configPrefix_ascii : ∀ c ∈ configPrefix, Utf8.Ascii c := Utf8.ascii_of_all rfl

def envproxySocket : CStr := .lit "ENVPROXY_SOCKET"
def envproxyEnabled : CStr := .lit "ENVPROXY_ENABLED"
def envproxyCacheTtl : CStr := .lit "ENVPROXY_CACHE_TTL"

/-- The value of `ENVPROXY_ENABLED` that disables interception. -/
def zero : CStr := .lit "0"

end EnvProxy
