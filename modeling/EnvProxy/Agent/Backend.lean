-- SUMMARY: The backend interface of the agent: errors, results, and the calls a server makes.
import EnvProxy.Proto.Wire

/-!
# Backends

A backend resolves a key, or a key together with the current value of the
variable. The interface is open in the monad `m` its calls run in: `Id` for a
backend that is a function, a state monad for one with a cache, and `Logged` to
see which calls are made.
-/

namespace EnvProxy

inductive BackendError where
  | unavailable (msg : Str)
  | io (msg : Str)
  | http (msg : Str)
  | parse (msg : Str)
  deriving DecidableEq, Repr

/-- The `Display` text of an error. -/
def BackendError.toStr : BackendError → Str
  | .unavailable msg => "backend unavailable: ".toList ++ msg
  | .io msg          => "I/O error: ".toList ++ msg
  | .http msg        => "HTTP error: ".toList ++ msg
  | .parse msg       => "parse error: ".toList ++ msg

abbrev ResolveResult := Except BackendError (Option Str)

structure Backend (m : Type → Type) where
  resolve : Str → m ResolveResult
  resolveWithValue : Str → Str → m ResolveResult

/-- A backend that keeps the default `resolve_with_value`, which ignores the value. -/
def Backend.ofResolve {m : Type → Type} (resolve : Str → m ResolveResult) : Backend m where
  resolve := resolve
  resolveWithValue := fun key _ => resolve key

/-! ## Calls -/

inductive Call where
  | resolve (key : Str)
  | resolveWithValue (key value : Str)
  deriving DecidableEq, Repr

def Backend.answer {m : Type → Type} (B : Backend m) : Call → m ResolveResult
  | .resolve key                => B.resolve key
  | .resolveWithValue key value => B.resolveWithValue key value

/-- Computations that record the backend calls they make. -/
abbrev Logged := StateM (List Call)

/-- The backend `B`, recording every call. -/
def Backend.logged (B : Backend Id) : Backend Logged where
  resolve := fun key => fun calls => (B.resolve key, calls ++ [.resolve key])
  resolveWithValue := fun key value => fun calls =>
    (B.resolveWithValue key value, calls ++ [.resolveWithValue key value])

@[simp] theorem Backend.logged_answer (B : Backend Id) (c : Call) (calls : List Call) :
    (B.logged.answer c).run calls = (B.answer c, calls ++ [c]) := by
  cases c <;> rfl

end EnvProxy
