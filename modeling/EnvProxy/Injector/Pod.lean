-- SUMMARY: The parts of a pod that the injector reads or sets, and the keys of its annotations.
import EnvProxy.Proto.Wire

/-!
# Pods

`α` holds the fields the injector leaves alone; in an object that it builds they have
their zero value, `default`. `κ` is the type of resource quantities.
-/

namespace EnvProxy.Injector

structure Config where
  envproxyImage : Str
  defaultCacheTTL : Str
  agentCPULimit : Str
  agentMemoryLimit : Str
  agentCPURequest : Str
  agentMemoryRequest : Str

def annotationInject : Str := "envproxy.dev/inject".toList
def annotationStatus : Str := "envproxy.dev/status".toList
def annotationCacheTTL : Str := "envproxy.dev/cache-ttl".toList
def annotationContainers : Str := "envproxy.dev/containers".toList
def annotationNoPython : Str := "envproxy.dev/no-python".toList
def annotationNoJava : Str := "envproxy.dev/no-java".toList
def annotationVaultAddr : Str := "envproxy.dev/vault-addr".toList
def annotationVaultRole : Str := "envproxy.dev/vault-role".toList
def annotationVaultAuthMethod : Str := "envproxy.dev/vault-auth-method".toList
def annotationVaultAuthMount : Str := "envproxy.dev/vault-auth-mount".toList
def annotationVaultCacheTTL : Str := "envproxy.dev/vault-cache-ttl".toList
def annotationAgentCPULimit : Str := "envproxy.dev/agent-cpu-limit".toList
def annotationAgentMemoryLimit : Str := "envproxy.dev/agent-memory-limit".toList
def annotationAgentCPURequest : Str := "envproxy.dev/agent-cpu-request".toList
def annotationAgentMemoryRequest : Str := "envproxy.dev/agent-memory-request".toList

def statusInjected : Str := "injected".toList
def volumeName : Str := "envproxy-bin".toList
def mountPath : Str := "/envproxy".toList
def socketPath : Str := "/envproxy/agent.sock".toList

/-- A Go map of strings, which may be nil. -/
abbrev Annotations := Option (Str → Option Str)

/-- Looking a key up with the two-valued form. -/
def Annotations.get (m : Annotations) (key : Str) : Option Str := m.bind (· key)

/-- Indexing: a key that is missing has the empty string. -/
def Annotations.index (m : Annotations) (key : Str) : Str := (m.get key).getD []

/-- Assignment, in a new map if there is none. -/
def Annotations.assign (m : Annotations) (key value : Str) : Annotations :=
  some fun k => if k = key then some value else m.get k

theorem Annotations.get_assign_self (m : Annotations) (key value : Str) :
    (m.assign key value).get key = some value := if_pos rfl

theorem Annotations.get_assign_of_ne (m : Annotations) {key k : Str} (value : Str) (h : k ≠ key) :
    (m.assign key value).get k = m.get k := if_neg h

structure EnvVar (α : Type) where
  name : Str
  value : Str
  valueFrom : Option α

structure VolumeMount (α : Type) where
  name : Str
  mountPath : Str
  readOnly : Bool
  rest : α

inductive VolumeSource (α : Type) where
  | emptyDir (medium : Str)
  | other (source : α)

structure Volume (α : Type) where
  name : Str
  source : VolumeSource α

structure SecurityContext (α : Type) where
  runAsNonRoot : Option Bool
  runAsUser : Option Int
  readOnlyRootFilesystem : Option Bool
  allowPrivilegeEscalation : Option Bool
  dropped : List Str
  rest : α

/-- The limits and requests, by the name of the resource. -/
structure Resources (κ : Type) where
  limits : List (Str × κ)
  requests : List (Str × κ)

structure Container (α κ : Type) where
  name : Str
  image : Str
  command : List Str
  args : List Str
  env : List (EnvVar α)
  volumeMounts : List (VolumeMount α)
  resources : Resources κ
  securityContext : Option (SecurityContext α)
  rest : α

structure Pod (α κ : Type) where
  annotations : Annotations
  volumes : List (Volume α)
  initContainers : List (Container α κ)
  containers : List (Container α κ)
  rest : α

end EnvProxy.Injector
