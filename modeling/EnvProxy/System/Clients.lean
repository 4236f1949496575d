-- SUMMARY: The three clients side by side: their keys, states and answers, and one lookup of each.
import EnvProxy.Client.Getenv
import EnvProxy.Client.Java
import EnvProxy.Client.Python

/-!
# The clients

The same lookup exists in C, Python and Java, each with its own strings, its own
state and its own way to say that a variable is missing. The families below put the
three side by side, so that a property of "every client" is one statement.
-/

namespace EnvProxy

inductive Language where
  | c
  | python
  | java
  deriving DecidableEq, Repr

namespace Language

abbrev Key : Language → Type
  | .c      => CStr
  | .python => PyStr
  | .java   => JStr

abbrev Answer : Language → Type
  | .c      => Option CStr
  | .python => Except Python.Error PyStr
  | .java   => Java.Outcome (Option JStr)

/-- The clock a client reads; the C library reads none. -/
abbrev Time (τ : Type) : Language → Type
  | .c      => Unit
  | .python => τ
  | .java   => Int64

instance (τ : Type) [Inhabited τ] : (L : Language) → Inhabited (L.Time τ)
  | .c      => ⟨()⟩
  | .python => inferInstanceAs (Inhabited τ)
  | .java   => ⟨0⟩

/-- A process: its environment and what the client keeps between lookups. -/
abbrev State (τ : Type) : Language → Type
  | .c      => Environ × Libenvproxy.Statics
  | .python => Python.OsEnviron τ
  | .java   => Java.JvmEnviron

/-- What a process is started with besides its environment. -/
structure Setup (τ : Type) where
  floats : Python.Floats τ
  platform : Java.Platform
  agentArgs : Option JStr

section

variable {τ : Type}

/-- The process after the client was loaded and installed. -/
def started (setup : Setup τ) (env : Environ) : (L : Language) → L.State τ
  | .c      => (env, .new)
  | .python => Python.install setup.floats (.plain env)
  | .java   => Java.install setup.platform setup.agentArgs env

def environ : (L : Language) → L.State τ → Environ
  | .c, s                        => s.1
  | .python, .plain env          => env
  | .python, .proxied self       => self.original
  | .java, .original env         => env
  | .java, .proxied self         => self.original

/-- Lookups go through the client; an unpatched process reads the real environment. -/
def patched : (L : Language) → L.State τ → Bool
  | .c, _                  => true
  | .python, .plain _      => false
  | .python, .proxied _    => true
  | .java, .original _     => false
  | .java, .proxied _      => true

/-- The bytes of the variable name a key stands for, if it stands for any. -/
def name : (L : Language) → L.Key → Option Bytes
  | .c, key      => some key.bytes
  | .python, key => key.encode
  | .java, key   => some key.getBytes

def keyStartsWith (w : Str) : (L : Language) → L.Key → Bool
  | .c, key      => key.startsWith w
  | .python, key => key.startsWith w
  | .java, key   => key.startsWith w

/-- The answer that is the value `v` as it is. -/
def raw (v : CStr) : (L : Language) → L.Answer
  | .c      => some v
  | .python => .ok (.decode v.bytes)
  | .java   => .returned (some (.decode v.bytes))

/-- What the real environment holds for a key. -/
def real (env : Environ) : (L : Language) → L.Key → L.Answer
  | .c, key      => env.get key.bytes
  | .python, key => Python.osGetitem env key
  | .java, key   => .returned (Java.jvmGet env key)

variable {m : Type → Type} [Monad m] [Sub τ] [LT τ] [DecidableLT τ]

/-- One lookup: `getenv(key)`, `os.environ[key]`, `System.getenv(key)`. -/
def lookup : (L : Language) → World (L.Time τ) m → L.State τ → L.Key → m (L.Answer × L.State τ)
  | .c, w, (env, statics), key => do
    let r ← (Libenvproxy.getenv w env key).run statics
    pure (r.1, (env, r.2))
  | .python, _, .plain env, key => pure (Python.osGetitem env key, .plain env)
  | .python, w, .proxied self, key => do
    let r ← Python.getitem w self key
    pure (r.1, .proxied r.2)
  | .java, _, .original env, key => pure (.returned (Java.jvmGet env key), .original env)
  | .java, w, .proxied self, key => do
    let r ← Java.get w self key
    pure (r.1, .proxied r.2)

end

/-! ## Lookups that stay in the process -/

section

variable {τ : Type} {m : Type → Type} [Monad m] [LawfulMonad m] [Sub τ] [LT τ] [DecidableLT τ]

/-- A present variable, as the real environment answers for it. -/
theorem real_present {env : Environ} {L : Language} {key : L.Key} {n : Bytes} {v : CStr}
    (hname : L.name key = some n) (hv : env.get n = some v) : L.real env key = L.raw v := by
  cases L with
  | c =>
    cases hname
    exact hv
  | python => simp only [real, raw, Python.osGetitem_encoded hname, hv]
  | java =>
    cases hname
    simp only [real, raw, Java.jvmGet, hv, Option.map_some]

omit [LawfulMonad m] in
/-- An unpatched process reads the real environment. -/
theorem lookup_unpatched {L : Language} {w : World (L.Time τ) m} {s : L.State τ} {key : L.Key}
    (h : L.patched s = false) : L.lookup w s key = pure (L.real (L.environ s) key, s) := by
  cases L with
  | c => cases h
  | python =>
    cases s with
    | plain env => rfl
    | proxied self => cases h
  | java =>
    cases s with
    | original env => rfl
    | proxied self => cases h

/-- The managed clients return a plain value without asking anybody. -/
theorem lookup_plain {L : Language} (hL : L ≠ .c) (w : World (L.Time τ) m) {s : L.State τ}
    {key : L.Key} {n : Bytes} {v : CStr} (hname : L.name key = some n)
    (hv : (L.environ s).get n = some v) (hplain : v.startsWith vaultPrefix = false) :
    L.lookup w s key = pure (L.raw v, s) := by
  cases L with
  | c => exact absurd rfl hL
  | python =>
    cases s with
    | plain env => simp only [lookup, raw, Python.osGetitem_encoded hname, show env.get n = some v from hv]
    | proxied self => simp only [lookup, raw, Python.getitem_plain w hname hv hplain, pure_bind]
  | java =>
    cases hname
    cases s with
    | original env =>
      simp only [lookup, raw, Java.jvmGet, show env.get _ = some v from hv, Option.map_some]
    | proxied self =>
      have hreal : Java.jvmGet self.original key = some (.decode v.bytes) := by
        simp only [Java.jvmGet, show self.original.get _ = some v from hv, Option.map_some]
      have hplain' : (JStr.decode v.bytes).startsWith vaultPrefix = false := by
        rw [Bool.eq_false_iff, Ne, JStr.startsWith_decode vaultPrefix_ascii, ← CStr.startsWith_iff,
          hplain]
        exact Bool.false_ne_true
      simp only [lookup, raw, Java.get_plain w hreal hplain', pure_bind]

end

end Language

end EnvProxy
