-- SUMMARY: The preloaded C library: its override of `getenv`, and what one lookup does.
import EnvProxy.Client.Connection
import EnvProxy.Client.Environ

/-!
# The `getenv` override

`getenv` reads the real environment, decides whether to ask the agent, and falls
back to the real value. Its only state are two process-wide cells, each filled on
first use.
-/

namespace EnvProxy.Libenvproxy

/-- `ENABLED` and `SOCKET_PATH`. -/
structure Statics where
  enabled : Option Bool
  socketPath : Option Bytes
  deriving DecidableEq, Repr

def Statics.new : Statics := { enabled := none, socketPath := none }

/-- The socket path the environment configures. -/
def configuredSocket (env : Environ) : Bytes :=
  match env.get envproxySocket.bytes with
  | none => Utf8.encode defaultSocketPath
  | some cstr => Utf8.encode (Utf8.lossy cstr.bytes)

def isEnabled (env : Environ) : Bool :=
  match env.get envproxyEnabled.bytes with
  | none => true
  | some cstr => cstr.bytes ≠ zero.bytes

/-- Read the response: the status is checked before the value is read. -/
def readResponse (stream : Chunked UInt8) : Option (Status × Bytes) :=
  match stream.readExact 3 with
  | .error _ => none
  | .ok (header, stream) =>
    match Status.fromByte (header.getD 0 0) with
    | none => none
    | some status =>
      match stream.readExact (fromBeBytes (header.getD 1 0) (header.getD 2 0)) with
      | .error _ => none
      | .ok (valueBuf, _) => some (status, valueBuf)

/-- The C string a reply resolves to. -/
def received : Reply → Option CStr
  | .refused => none
  | .stream stream =>
    match readResponse stream with
    | some (.found, valueBuf) => CStr.new valueBuf
    | some (.notFound, _) => none
    | some (.error, _) => none
    | some (.passthrough, _) => none
    | none => none

section

variable {Time : Type} {m : Type → Type} [Monad m]

def getSocketPath (env : Environ) : StateT Statics m Bytes := do
  let statics ← get
  match statics.socketPath with
  | some path => pure path
  | none =>
    set { statics with socketPath := some (configuredSocket env) }
    pure (configuredSocket env)

/-- The request for a key, with the current value if there is one to send. -/
def encode (key : Bytes) (currentValue : Option Bytes) : Option Bytes :=
  match currentValue with
  | some val => encodeRequestV2 key val
  | none => encodeRequest key

def queryAgent (w : World Time m) (env : Environ) (key : Bytes) (currentValue : Option Bytes) :
    StateT Statics m (Option CStr) := do
  let socketPath ← getSocketPath env
  match encode key currentValue with
  | none => pure none
  | some encoded =>
    let reply ← w.agent socketPath encoded
    pure (received reply)

/-- `ENABLED.get_or_init(is_enabled)`. -/
def cachedEnabled (env : Environ) : StateT Statics m Bool := do
  let statics ← get
  match statics.enabled with
  | some enabled => pure enabled
  | none =>
    set { statics with enabled := some (isEnabled env) }
    pure (isEnabled env)

def getenv (w : World Time m) (env : Environ) (name : CStr) : StateT Statics m (Option CStr) := do
  if name.startsWith configPrefix then
    pure (env.get name.bytes)
  else
    let enabled ← cachedEnabled env
    if !enabled then
      pure (env.get name.bytes)
    else
      let real := env.get name.bytes
      match real.filter (CStr.startsWith · vaultPrefix) with
      | some realValue =>
        match ← queryAgent w env name.bytes (some realValue.bytes) with
        | some resolved => pure (some resolved)
        -- An existing variable is better returned raw than reported missing.
        | none => pure real
      | none =>
        match ← queryAgent w env name.bytes none with
        | some resolved => pure (some resolved)
        | none => pure real

/-- `secure_getenv` is intercepted with the same logic. -/
def secureGetenv (w : World Time m) (env : Environ) (name : CStr) :
    StateT Statics m (Option CStr) :=
  getenv w env name

end

/-! ## What a reply resolves to -/

theorem readResponse_eq_some_iff {stream : Chunked UInt8} {status : Status} {value : Bytes} :
    readResponse stream = some (status, value) ↔
      ∃ b, readFrame stream = .ok (b, value) ∧ Status.fromByte b = some status := by
  simp only [readResponse, readFrame, bind, Except.bind]
  cases stream.readExact 3 with
  | error e => simp
  | ok p =>
    obtain ⟨header, s₁⟩ := p
    simp only
    generalize header.getD 0 0 = b
    cases s₁.readExact (fromBeBytes (header.getD 1 0) (header.getD 2 0)) with
    | error e => cases Status.fromByte b <;> simp
    | ok q =>
      cases hb : Status.fromByte b with
      | none => simpa using fun _ => by simp [hb]
      | some status' => simp [hb, and_comm]

/-- A reply resolves to its `Found` value, if that is a C string. -/
theorem received_eq (reply : Reply) : received reply = reply.found.bind CStr.new := by
  cases reply with
  | refused => rfl
  | stream s =>
    cases hfound : (Reply.stream s).found with
    | some value =>
      have hread := readResponse_eq_some_iff.mpr
        ⟨_, Reply.found_stream_eq_some_iff.mp hfound, Status.fromByte_toByte .found⟩
      simp only [received, hread, Option.bind_some]
    | none =>
      simp only [received, Option.bind_none]
      split
      · next value hread =>
        obtain ⟨b, hframe, hb⟩ := readResponse_eq_some_iff.mp hread
        rw [Status.fromByte_eq_found_iff.mp hb, ← Reply.found_stream_eq_some_iff, hfound] at hframe
        cases hframe
      all_goals rfl

/-! ## What a lookup does -/

/-- The value sent along with a key: a `vault:` reference. -/
def currentValue (real : Option CStr) : Option Bytes :=
  (real.filter (CStr.startsWith · vaultPrefix)).map CStr.bytes

namespace Statics

/-- What the two cells say, or will say once they are filled. -/
def enabledIn (statics : Statics) (env : Environ) : Bool := statics.enabled.getD (isEnabled env)

def socketIn (statics : Statics) (env : Environ) : Bytes :=
  statics.socketPath.getD (configuredSocket env)

def fillEnabled (statics : Statics) (env : Environ) : Statics :=
  { statics with enabled := some (statics.enabledIn env) }

def fillSocket (statics : Statics) (env : Environ) : Statics :=
  { statics with socketPath := some (statics.socketIn env) }

end Statics

section

variable {Time : Type} {m : Type → Type} [Monad m]

/-- A configuration variable is read from the real environment. -/
theorem getenv_run_config (w : World Time m) (env : Environ) {name : CStr} (statics : Statics)
    (h : name.startsWith configPrefix) :
    (getenv w env name).run statics = pure (env.get name.bytes, statics) := by
  simp [getenv, h]

variable [LawfulMonad m]

theorem getSocketPath_run (env : Environ) (statics : Statics) :
    (getSocketPath env).run statics =
      (pure (statics.socketIn env, statics.fillSocket env) : m (Bytes × Statics)) := by
  obtain ⟨enabled, socketPath⟩ := statics
  cases socketPath <;> simp [getSocketPath, Statics.socketIn, Statics.fillSocket]

theorem cachedEnabled_run (env : Environ) (statics : Statics) :
    (cachedEnabled env).run statics =
      (pure (statics.enabledIn env, statics.fillEnabled env) : m (Bool × Statics)) := by
  obtain ⟨enabled, socketPath⟩ := statics
  cases enabled <;> simp [cachedEnabled, Statics.enabledIn, Statics.fillEnabled]

/-- A query fills the socket cell, and asks the agent if the request can be encoded. -/
theorem queryAgent_run (w : World Time m) (env : Environ) (key : Bytes) (current : Option Bytes)
    (statics : Statics) :
    (queryAgent w env key current).run statics =
      match encode key current with
      | none => pure (none, statics.fillSocket env)
      | some frame => w.agent (statics.socketIn env) frame >>= fun reply =>
          pure (received reply, statics.fillSocket env) := by
  simp only [queryAgent, StateT.run_bind, getSocketPath_run, pure_bind]
  cases encode key current <;> simp

/-- So is every variable once interception is disabled. -/
theorem getenv_run_disabled (w : World Time m) (env : Environ) {name : CStr} {statics : Statics}
    (hname : ¬ name.startsWith configPrefix) (h : statics.enabledIn env = false) :
    (getenv w env name).run statics = pure (env.get name.bytes, statics.fillEnabled env) := by
  simp [getenv, hname, cachedEnabled_run, h]

/-- An intercepted lookup: the agent is asked with the reference the variable holds,
    if it holds one, and the real value is what remains. -/
theorem getenv_run_enabled (w : World Time m) (env : Environ) {name : CStr} {statics : Statics}
    (hname : ¬ name.startsWith configPrefix) (h : statics.enabledIn env = true) :
    (getenv w env name).run statics =
      match encode name.bytes (currentValue (env.get name.bytes)) with
      | none => pure (env.get name.bytes, (statics.fillEnabled env).fillSocket env)
      | some frame => w.agent (statics.socketIn env) frame >>= fun reply =>
          pure ((received reply).or (env.get name.bytes),
            (statics.fillEnabled env).fillSocket env) := by
  have hsocket : (statics.fillEnabled env).socketIn env = statics.socketIn env := rfl
  have hquery : (getenv w env name).run statics =
      (queryAgent w env name.bytes (currentValue (env.get name.bytes))).run
        (statics.fillEnabled env) >>= fun r => pure (r.1.or (env.get name.bytes), r.2) := by
    simp only [getenv, if_neg hname, StateT.run_bind, cachedEnabled_run, pure_bind, h, currentValue]
    cases (env.get name.bytes).filter (CStr.startsWith · vaultPrefix) with
    | none =>
      simp only [Bool.not_true, Option.map_none]
      refine bind_congr fun (r, statics') => ?_
      cases r <;> rfl
    | some real =>
      simp only [Bool.not_true, Option.map_some]
      refine bind_congr fun (r, statics') => ?_
      cases r <;> rfl
  rw [hquery, queryAgent_run]
  cases encode name.bytes (currentValue (env.get name.bytes)) with
  | none => simp
  | some frame => simp [hsocket]

end

end EnvProxy.Libenvproxy
