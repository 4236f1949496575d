-- SUMMARY: A process with the library loaded: its constructor, and then its lookups, against an agent at one socket.
import EnvProxy.Agent.RequestedKeys
import EnvProxy.Client.Constructor
import EnvProxy.System.EndToEnd

/-!
# Processes

`process` is the life of a process up to one lookup: the constructor seeds the block it was
handed, and `getenv` reads the block that this leaves. The agent listens at one socket, and
the two cells of the library keep what the first lookup has put into them.
-/

namespace EnvProxy

/-- An agent that listens at one path. -/
def World.listening {Time : Type} {m : Type → Type} [Monad m] (w : World Time m) (socket : Bytes) :
    World Time m where
  agent := fun path frame => if path = socket then w.agent path frame else pure .refused
  clock := w.clock

namespace Libenvproxy

/-! ## One lookup -/

/-- The cells say what the environment says. -/
structure Statics.Agrees (statics : Statics) (env : Environ) : Prop where
  enabled : statics.enabledIn env = isEnabled env
  socket : statics.socketIn env = configuredSocket env

/-- Whether a lookup reaches the agent. -/
def asks (env : Environ) (name : CStr) : Bool :=
  isEnabled env && (encode name.bytes (currentValue (env.get name.bytes))).isSome

/-- The call that a lookup selects. -/
def selectedBy (env : Environ) (name : CStr) : Call :=
  selectCall (Utf8.lossy name.bytes) (currentValue (env.get name.bytes))

/-- What a lookup returns, and the calls it makes. -/
def looked (B : Backend Id) (env : Environ) (name : CStr) : Option CStr × List Call :=
  if asks env name then
    (((B.answer (selectedBy env name)).carried.bind CStr.new).or (env.get name.bytes),
      [selectedBy env name])
  else (env.get name.bytes, [])

section

variable (B : Backend Id) (net : Network)

/-- The surroundings of a process whose agent listens where its environment says. -/
def surroundings (socket : Bytes) : World Unit Logged :=
  (serving net B.logged (pure ())).listening socket

end

/-! ## The constructor -/

theorem configuredSocket_seeded (fs : FileLayout) (env : Environ) (h : Hook) (value : Option CStr) :
    configuredSocket (h.seeded fs env value) = configuredSocket env := by
  have hne : envproxySocket.bytes ≠ h.target.bytes := by cases h <;> decide
  simp only [configuredSocket, h.seeded_get_ne fs env value hne]

theorem Statics.Agrees.seeded {statics : Statics} {env : Environ} (hagrees : statics.Agrees env)
    (fs : FileLayout) (h : Hook) (value : Option CStr) : statics.Agrees (h.seeded fs env value) where
  enabled := enabledIn_seeded hagrees.enabled fs h value
  socket := by
    have hsocket := hagrees.socket
    simp only [Statics.socketIn, configuredSocket_seeded] at hsocket ⊢
    exact hsocket

section

variable (B : Backend Id) (net : Network) (fs : FileLayout)

/-- The block that a hook leaves. -/
def hooked (env : Environ) (h : Hook) : Environ := h.seeded fs env (looked B env h.target).1

end

/-! ## A process -/

end Libenvproxy

/-! ## Values -/

/-- The reference a variable holds. -/
def reference (real : Option Str) : Option Str := real.filter vaultPrefix.isPrefixOf

namespace Libenvproxy

end Libenvproxy

end EnvProxy
