-- SUMMARY: The agent's configuration, as it is deserialised from a TOML document.
import EnvProxy.Proto.Wire
import EnvProxy.Library.Toml

/-!
# Agent configuration

The TOML reader is a parameter; what the derived deserialisers make of its table is
modelled, with every backend compiled in. Keys without a field are ignored.
-/

namespace EnvProxy.Agent

open Toml

structure AgentConfig where
  socket : Str
  logLevel : Str
  deriving DecidableEq

structure HttpBackendConfig where
  url : Str
  authToken : Option Str
  timeoutMs : Nat
  deriving DecidableEq

structure KubernetesBackendConfig where
  «namespace» : Str
  secretName : Str
  deriving DecidableEq

structure VaultBackendConfig where
  address : Str
  authMethod : Str
  authMount : Str
  role : Str
  token : Option Str
  tokenFile : Option Str
  caCert : Option Str
  skipVerify : Bool
  cacheTtl : Str
  deriving DecidableEq

inductive BackendConfig where
  | file (path : Str)
  | http (config : HttpBackendConfig)
  | kubernetes (config : KubernetesBackendConfig)
  | vault (config : VaultBackendConfig)
  deriving DecidableEq

structure Config where
  agent : AgentConfig
  backend : BackendConfig
  deriving DecidableEq

/-! ## Fields -/

def string : Value → Option Str
  | .string s => some s
  | _ => none

def boolean : Value → Option Bool
  | .boolean b => some b
  | _ => none

def unsigned : Value → Option Nat
  | .integer i => if 0 ≤ i then some i.toNat else none
  | _ => none

/-- A struct is read from a table. -/
def struct {β : Type} (deserialize : Table → Option β) : Value → Option β
  | .table fields => deserialize fields
  | _ => none

section

variable {β : Type} (read : Value → Option β) (fields : Table) (key : String)

def required : Option β := (fields key.toList).bind read

/-- A field with `#[serde(default)]`. -/
def defaulted (value : β) : Option β :=
  match fields key.toList with
  | none => some value
  | some v => read v

/-- A field that is an `Option`. -/
def optional : Option (Option β) := defaulted (fun v => (read v).map some) fields key none

end

/-! ## Deserialisers -/

def AgentConfig.default : AgentConfig where
  socket := defaultSocketPath
  logLevel := "info".toList

def AgentConfig.deserialize (fields : Table) : Option AgentConfig := do
  let socket ← defaulted string fields "socket" defaultSocketPath
  let logLevel ← defaulted string fields "log_level" "info".toList
  return { socket, logLevel }

def HttpBackendConfig.deserialize (fields : Table) : Option HttpBackendConfig := do
  let url ← required string fields "url"
  let authToken ← optional string fields "auth_token"
  let timeoutMs ← defaulted unsigned fields "timeout_ms" 5000
  return { url, authToken, timeoutMs }

def KubernetesBackendConfig.deserialize (fields : Table) : Option KubernetesBackendConfig := do
  let «namespace» ← required string fields "namespace"
  let secretName ← required string fields "secret_name"
  return { «namespace», secretName }

def VaultBackendConfig.deserialize (fields : Table) : Option VaultBackendConfig := do
  let address ← required string fields "address"
  let authMethod ← defaulted string fields "auth_method" "kubernetes".toList
  let authMount ← defaulted string fields "auth_mount" "kubernetes".toList
  let role ← defaulted string fields "role" []
  let token ← optional string fields "token"
  let tokenFile ← optional string fields "token_file"
  let caCert ← optional string fields "_ca_cert"
  let skipVerify ← defaulted boolean fields "_skip_verify" false
  let cacheTtl ← defaulted string fields "cache_ttl" "5m".toList
  return { address, authMethod, authMount, role, token, tokenFile, caCert, skipVerify, cacheTtl }

/-- The variant is chosen by the `type` field. -/
def BackendConfig.deserialize (fields : Table) : Option BackendConfig := do
  let type ← required string fields "type"
  if type = "file".toList then return .file (← required string fields "path")
  else if type = "http".toList then return .http (← HttpBackendConfig.deserialize fields)
  else if type = "kubernetes".toList then
    return .kubernetes (← KubernetesBackendConfig.deserialize fields)
  else if type = "vault".toList then return .vault (← VaultBackendConfig.deserialize fields)
  else none

def Config.deserialize (t : Table) : Option Config := do
  let agent ← defaulted (struct AgentConfig.deserialize) t "agent" AgentConfig.default
  let backend ← required (struct BackendConfig.deserialize) t "backend"
  return { agent, backend }

inductive ConfigError where
  | io (path error : Str)
  | parse (path : Str)
  deriving DecidableEq

/-- `from_file`, given what reading the file gives. -/
def Config.fromFile (parse : Str → Option Table) (path : Str) (contents : Except Str Str) :
    Except ConfigError Config :=
  match contents with
  | .error e => .error (.io path e)
  | .ok contents =>
    match (parse contents).bind Config.deserialize with
    | some config => .ok config
    | none => .error (.parse path)

theorem Config.fromFile_ok_iff {parse : Str → Option Table} {path contents : Str} {config : Config} :
    Config.fromFile parse path (.ok contents) = .ok config ↔
      ∃ t, parse contents = some t ∧ Config.deserialize t = some config := by
  simp only [Config.fromFile]
  rw [← Option.bind_eq_some_iff]
  cases (parse contents).bind Config.deserialize <;> simp

/-! ## What a deserialised field was read from -/

theorem required_string {fields : Table} {key : String} {s value : Str}
    (h : required string fields key = some value) (hs : fields key.toList = some (.string s)) :
    s = value := by
  rw [required, hs] at h
  exact Option.some.inj h

theorem defaulted_string {fields : Table} {key : String} {s value default : Str}
    (h : defaulted string fields key default = some value)
    (hs : fields key.toList = some (.string s)) : s = value := by
  rw [defaulted, hs] at h
  exact Option.some.inj h

theorem BackendConfig.vault_of_deserialize {fields : Table} {vault : VaultBackendConfig}
    (h : BackendConfig.deserialize fields = some (.vault vault)) :
    VaultBackendConfig.deserialize fields = some vault := by
  simp only [BackendConfig.deserialize, Option.pure_def, Option.bind_eq_bind,
    Option.bind_eq_some_iff] at h
  obtain ⟨type, _, hvariant⟩ := h
  split at hvariant
  · obtain ⟨_, _, hne⟩ := Option.bind_eq_some_iff.mp hvariant
    cases hne
  · split at hvariant
    · obtain ⟨_, _, hne⟩ := Option.bind_eq_some_iff.mp hvariant
      cases hne
    · split at hvariant
      · obtain ⟨_, _, hne⟩ := Option.bind_eq_some_iff.mp hvariant
        cases hne
      · split at hvariant
        · obtain ⟨_, hvault, hsame⟩ := Option.bind_eq_some_iff.mp hvariant
          cases hsame
          exact hvault
        · cases hvariant

/-- A Vault configuration comes from the table of the backend. -/
theorem Config.vault_of_deserialize {t : Table} {agent : AgentConfig} {vault : VaultBackendConfig}
    (h : Config.deserialize t = some { agent, backend := .vault vault }) :
    ∃ fields, t "backend".toList = some (.table fields) ∧
      VaultBackendConfig.deserialize fields = some vault := by
  simp only [Config.deserialize, Option.pure_def, Option.bind_eq_bind, Option.bind_eq_some_iff,
    Option.some.injEq, Config.mk.injEq] at h
  obtain ⟨_, _, backend, hbackend, _, rfl⟩ := h
  obtain ⟨value, hvalue, hstruct⟩ := Option.bind_eq_some_iff.mp hbackend
  cases value with
  | table fields => exact ⟨fields, hvalue, BackendConfig.vault_of_deserialize hstruct⟩
  | _ => cases hstruct

/-- The settings that are strings, by their keys. -/
def VaultBackendConfig.strings (vault : VaultBackendConfig) : List (Str × Str) :=
  [("address".toList, vault.address), ("auth_method".toList, vault.authMethod),
    ("auth_mount".toList, vault.authMount), ("role".toList, vault.role),
    ("cache_ttl".toList, vault.cacheTtl)]

/-- The strings of a Vault configuration are the strings of its table. -/
theorem VaultBackendConfig.strings_of_deserialize {fields : Table} {vault : VaultBackendConfig}
    (h : VaultBackendConfig.deserialize fields = some vault) :
    ∀ e ∈ vault.strings, ∀ s, fields e.1 = some (.string s) → s = e.2 := by
  simp only [VaultBackendConfig.deserialize, Option.pure_def, Option.bind_eq_bind,
    Option.bind_eq_some_iff, Option.some.injEq] at h
  obtain ⟨address, haddress, authMethod, hmethod, authMount, hmount, role, hrole, _, _, _, _, _, _,
    _, _, cacheTtl, httl, rfl⟩ := h
  simp only [VaultBackendConfig.strings, List.forall_mem_cons]
  exact ⟨fun _ => required_string haddress, fun _ => defaulted_string hmethod,
    fun _ => defaulted_string hmount, fun _ => defaulted_string hrole,
    fun _ => defaulted_string httl, by simp⟩

end EnvProxy.Agent
