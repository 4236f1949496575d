-- SUMMARY: The mutating webhook: the containers it adds to a pod, and what it does to the others.
import EnvProxy.Injector.Pod
import Mathlib.Data.List.Basic

/-!
# Pod mutation

`resource.ParseQuantity` and the JSON codec of pods are parameters. `MustParse` panics on
what `ParseQuantity` refuses, and so does the function that calls it: `none`. The error
that `mutateContainer` and `mutatePod` can return is always nil and is left out.
-/

namespace EnvProxy.Injector

/-! ## Container lists -/

/-- `unicode.IsSpace`. -/
def isSpace (c : Char) : Bool :=
  ['\t', '\n', '\x0b', '\x0c', '\r', ' ', '\u0085', '\u00a0', '\u1680', '\u2028', '\u2029',
    '\u202f', '\u205f', '\u3000'].contains c || ('\u2000' ≤ c && c ≤ '\u200a')

/-- `strings.TrimSpace`. -/
def trimSpace (s : Str) : Str := ((s.dropWhile isSpace).reverse.dropWhile isSpace).reverse

/-- The names that the list has, or nil for no list. -/
def parseContainerList (s : Str) : Option (List Str) :=
  if s = [] then none
  else some (((s.splitOn ',').map trimSpace).filter (· ≠ []))

def shouldInject (name : Str) : Option (List Str) → Bool
  | none => true
  | some targets => targets.contains name

/-- No list selects every container, and a list those whose names are entries of it. -/
theorem shouldInject_iff {name s : Str} :
    shouldInject name (parseContainerList s) ↔
      s = [] ∨ name ≠ [] ∧ ∃ entry ∈ s.splitOn ',', trimSpace entry = name := by
  unfold parseContainerList
  split
  · next hs => exact iff_of_true rfl (.inl hs)
  · next hs =>
    simp only [shouldInject, List.contains_iff_mem, List.mem_filter, List.mem_map, hs, false_or,
      decide_eq_true_eq]
    exact and_comm

/-! ## The agent's configuration -/

/-- The text of the Vault backend. -/
def vaultConfig (vaultAddr vaultAuthMethod vaultAuthMount vaultRole vaultCacheTTL : Str) : Str :=
  "[backend]\ntype = \"vault\"\naddress = \"".toList ++ vaultAddr ++
    "\"\nauth_method = \"".toList ++ vaultAuthMethod ++
    "\"\nauth_mount = \"".toList ++ vaultAuthMount ++
    "\"\nrole = \"".toList ++ vaultRole ++
    "\"\ncache_ttl = \"".toList ++ vaultCacheTTL ++ "\"\n".toList

/-- The text of the backend of a pod without Vault. -/
def fileConfig : Str := "[backend]\ntype = \"file\"\npath = \"/dev/null\"\n".toList

/-- An annotation, or its default if it is empty. -/
def orDefault (value defaultVal : Str) : Str := if value = [] then defaultVal else value

/-- The configuration file of the agent, as `buildInitContainer` writes it. -/
def configContent (annotations : Annotations) : Str :=
  let vaultAddr := annotations.index annotationVaultAddr
  let vaultRole := annotations.index annotationVaultRole
  let vaultAuthMethod :=
    orDefault (annotations.index annotationVaultAuthMethod) "kubernetes".toList
  let vaultAuthMount := orDefault (annotations.index annotationVaultAuthMount) "kubernetes".toList
  let vaultCacheTTL := orDefault (annotations.index annotationVaultCacheTTL) "5m".toList
  let backendConfig :=
    if vaultAddr ≠ [] then
      vaultConfig vaultAddr vaultAuthMethod vaultAuthMount vaultRole vaultCacheTTL
    else fileConfig
  "[agent]\nsocket = \"".toList ++ socketPath ++ "\"\nlog_level = \"info\"\n\n".toList ++ backendConfig

/-! ## Containers -/

variable {α κ : Type} [Inhabited α]

def secureContext : SecurityContext α where
  runAsNonRoot := some true
  runAsUser := some 65534
  readOnlyRootFilesystem := some true
  allowPrivilegeEscalation := some false
  dropped := ["ALL".toList]
  rest := default

/-- The annotation's value if set, otherwise the default. -/
def annotationOrDefault (pod : Pod α κ) (key defaultVal : Str) : Str :=
  match pod.annotations.get key with
  | some v => if v ≠ [] then v else defaultVal
  | none => defaultVal

def sharedMount (readOnly : Bool) : VolumeMount α where
  name := volumeName
  mountPath := mountPath
  readOnly := readOnly
  rest := default

section

variable (parseQuantity : Str → Option κ)

/-- Limits and requests of CPU and memory, each through `resource.MustParse`. -/
def mustParseResources (cpuLimit memLimit cpuReq memReq : Str) : Option (Resources κ) := do
  let cpuLimit ← parseQuantity cpuLimit
  let memLimit ← parseQuantity memLimit
  let cpuReq ← parseQuantity cpuReq
  let memReq ← parseQuantity memReq
  return {
    limits := [("cpu".toList, cpuLimit), ("memory".toList, memLimit)]
    requests := [("cpu".toList, cpuReq), ("memory".toList, memReq)]
  }

def buildInitContainer (cfg : Config) (pod : Pod α κ) : Option (Container α κ) := do
  let resources ← mustParseResources parseQuantity
    "50m".toList "32Mi".toList "10m".toList "16Mi".toList
  return {
    name := "envproxy-init".toList
    image := cfg.envproxyImage
    command := ["/usr/bin/envproxy".toList, "init".toList, "--target".toList, mountPath,
      "--write-config".toList, configContent pod.annotations]
    args := []
    env := []
    volumeMounts := [sharedMount false]
    resources
    securityContext := some secureContext
    rest := default
  }

/-- The name of the sidecar, which is never wrapped. -/
def agentName : Str := "envproxy-agent".toList

def buildSidecar (cfg : Config) (pod : Pod α κ) : Option (Container α κ) := do
  let cpuLimit := annotationOrDefault pod annotationAgentCPULimit cfg.agentCPULimit
  let memLimit := annotationOrDefault pod annotationAgentMemoryLimit cfg.agentMemoryLimit
  let cpuReq := annotationOrDefault pod annotationAgentCPURequest cfg.agentCPURequest
  let memReq := annotationOrDefault pod annotationAgentMemoryRequest cfg.agentMemoryRequest
  let resources ← mustParseResources parseQuantity cpuLimit memLimit cpuReq memReq
  return {
    name := agentName
    image := cfg.envproxyImage
    command := ["/envproxy/envproxy-agent".toList, "--config".toList,
      "/envproxy/config.toml".toList]
    args := []
    env := []
    volumeMounts := [sharedMount false]
    resources
    securityContext := some secureContext
    rest := default
  }

end

def literal (name value : Str) : EnvVar α := { name, value, valueFrom := none }

/-- The variables that a wrapped container gets. -/
def injectedEnv (cacheTTL : Str) (noPython noJava : Bool) : List (EnvVar α) :=
  [literal "ENVPROXY_SOCKET".toList socketPath,
    literal "ENVPROXY_LIB".toList (mountPath ++ "/lib/libenvproxy.so".toList),
    literal "ENVPROXY_CACHE_TTL".toList cacheTTL] ++
  [if !noPython then literal "ENVPROXY_PYTHON_PATH".toList (mountPath ++ "/python".toList)
    else literal "ENVPROXY_NO_PYTHON".toList "1".toList] ++
  [if !noJava then literal "ENVPROXY_JAVA_PATH".toList (mountPath ++ "/java".toList)
    else literal "ENVPROXY_NO_JAVA".toList "1".toList]

/-- Wraps the entrypoint of a single container; without an explicit command there is
    nothing to wrap. -/
def mutateContainer (c : Container α κ) (cacheTTL : Str) (noPython noJava : Bool) : Container α κ :=
  let wrapped :=
    if 0 < c.command.length then
      { c with
        command := [mountPath ++ "/envproxy".toList]
        args := ["run".toList, "--".toList] ++ c.command ++ c.args }
    else c
  { wrapped with
    volumeMounts := wrapped.volumeMounts ++ [sharedMount true]
    env := wrapped.env ++ injectedEnv cacheTTL noPython noJava }

section

variable (c : Container α κ) (cacheTTL : Str) (noPython noJava : Bool)

theorem mutateContainer_implicit (h : c.command = []) :
    mutateContainer c cacheTTL noPython noJava =
      { c with
        volumeMounts := c.volumeMounts ++ [sharedMount true]
        env := c.env ++ injectedEnv cacheTTL noPython noJava } := by
  unfold mutateContainer
  rw [if_neg (by simp only [h, List.length_nil, Nat.lt_irrefl, not_false_eq_true])]

theorem mutateContainer_explicit (h : c.command ≠ []) :
    mutateContainer c cacheTTL noPython noJava =
      { c with
        command := [mountPath ++ "/envproxy".toList]
        args := ["run".toList, "--".toList] ++ c.command ++ c.args
        volumeMounts := c.volumeMounts ++ [sharedMount true]
        env := c.env ++ injectedEnv cacheTTL noPython noJava } := by
  unfold mutateContainer
  rw [if_pos (List.length_pos_iff.mpr h)]

/-- Mounts and variables are added in both cases. -/
theorem mutateContainer_volumeMounts :
    (mutateContainer c cacheTTL noPython noJava).volumeMounts = c.volumeMounts ++ [sharedMount true] := by
  unfold mutateContainer
  split <;> rfl

theorem mutateContainer_env :
    (mutateContainer c cacheTTL noPython noJava).env =
      c.env ++ injectedEnv cacheTTL noPython noJava := by
  unfold mutateContainer
  split <;> rfl

end

/-- The default TTL, unless the pod has its own. -/
def cacheTTLOf (cfg : Config) (pod : Pod α κ) : Str :=
  (pod.annotations.get annotationCacheTTL).getD cfg.defaultCacheTTL

/-- The body of the loop over the containers. -/
def mutateTarget (cfg : Config) (pod : Pod α κ) (c : Container α κ) : Container α κ :=
  let noPython := pod.annotations.index annotationNoPython == "true".toList
  let noJava := pod.annotations.index annotationNoJava == "true".toList
  let targetContainers := parseContainerList (pod.annotations.index annotationContainers)
  -- Skip the sidecar we just added.
  if c.name = agentName then c
  else if !shouldInject c.name targetContainers then c
  else mutateContainer c (cacheTTLOf cfg pod) noPython noJava

def mutatePod (parseQuantity : Str → Option κ) (cfg : Config) (pod : Pod α κ) :
    Option (Pod α κ) := do
  let volume : Volume α := { name := volumeName, source := .emptyDir "Memory".toList }
  let init ← buildInitContainer parseQuantity cfg pod
  let sidecar ← buildSidecar parseQuantity cfg pod
  return { pod with
    annotations := pod.annotations.assign annotationStatus statusInjected
    volumes := pod.volumes ++ [volume]
    initContainers := pod.initContainers ++ [init]
    containers := (pod.containers ++ [sidecar]).map (mutateTarget cfg pod) }

/-- The containers that the annotation selects: all of them, or those it names. -/
def Targeted (pod : Pod α κ) (name : Str) : Prop :=
  name ≠ agentName ∧
    (pod.annotations.index annotationContainers = [] ∨
      name ≠ [] ∧ ∃ entry ∈ (pod.annotations.index annotationContainers).splitOn ',',
        trimSpace entry = name)

theorem mutateTarget_of_targeted (cfg : Config) {pod : Pod α κ} {c : Container α κ}
    (h : Targeted pod c.name) :
    mutateTarget cfg pod c = mutateContainer c (cacheTTLOf cfg pod)
      (pod.annotations.index annotationNoPython == "true".toList)
      (pod.annotations.index annotationNoJava == "true".toList) := by
  have hinject : shouldInject c.name (parseContainerList (pod.annotations.index annotationContainers)) :=
    shouldInject_iff.mpr h.2
  simp only [mutateTarget, if_neg h.1, hinject, Bool.not_true, Bool.false_eq_true, if_false]

theorem mutateTarget_of_not_targeted (cfg : Config) {pod : Pod α κ} {c : Container α κ}
    (h : ¬ Targeted pod c.name) : mutateTarget cfg pod c = c := by
  by_cases hname : c.name = agentName
  · simp only [mutateTarget, hname, if_true]
  · have hinject :
        ¬ shouldInject c.name (parseContainerList (pod.annotations.index annotationContainers)) :=
      fun hinject => h ⟨hname, shouldInject_iff.mp hinject⟩
    simp only [mutateTarget, hname, hinject, Bool.not_false, if_true, if_false]

theorem buildSidecar_name {parseQuantity : Str → Option κ} {cfg : Config} {pod : Pod α κ}
    {sidecar : Container α κ} (h : buildSidecar parseQuantity cfg pod = some sidecar) :
    sidecar.name = agentName := by
  simp only [buildSidecar, Option.pure_def, Option.bind_eq_bind, Option.bind_eq_some_iff,
    Option.some.injEq] at h
  obtain ⟨resources, _, rfl⟩ := h
  rfl

/-- A mutation that does not panic has built both containers; the loop skips the sidecar. -/
theorem mutatePod_eq_some_iff {parseQuantity : Str → Option κ} {cfg : Config} {pod pod' : Pod α κ} :
    mutatePod parseQuantity cfg pod = some pod' ↔
      ∃ init sidecar, buildInitContainer parseQuantity cfg pod = some init ∧
        buildSidecar parseQuantity cfg pod = some sidecar ∧
        pod' = { pod with
          annotations := pod.annotations.assign annotationStatus statusInjected
          volumes := pod.volumes ++
            [{ name := volumeName, source := .emptyDir "Memory".toList }]
          initContainers := pod.initContainers ++ [init]
          containers := pod.containers.map (mutateTarget cfg pod) ++ [sidecar] } := by
  have hskip {sidecar : Container α κ} (h : buildSidecar parseQuantity cfg pod = some sidecar) :
      mutateTarget cfg pod sidecar = sidecar :=
    mutateTarget_of_not_targeted cfg fun htarget => htarget.1 (buildSidecar_name h)
  simp only [mutatePod, Option.pure_def, Option.bind_eq_bind, Option.bind_eq_some_iff,
    Option.some.injEq, List.map_append, List.map_cons, List.map_nil]
  constructor
  · rintro ⟨init, hinit, sidecar, hsidecar, rfl⟩
    refine ⟨init, sidecar, hinit, hsidecar, ?_⟩
    rw [hskip hsidecar]
  · rintro ⟨init, sidecar, hinit, hsidecar, rfl⟩
    refine ⟨init, hinit, sidecar, hsidecar, ?_⟩
    rw [hskip hsidecar]

/-! ## Admission -/

/-- `ρ` is the raw object of a request. -/
inductive Response (ρ : Type) where
  | errored (code : Nat) (message : Str)
  | allowed (reason : Str)
  | patched (original mutated : ρ)

/-- The webhook; `none` if it panics. -/
def handle {ρ : Type} (unmarshal : ρ → Except Str (Pod α κ)) (marshal : Pod α κ → Except Str ρ)
    (parseQuantity : Str → Option κ) (cfg : Config) (raw : ρ) : Option (Response ρ) :=
  match unmarshal raw with
  | .error e => some (.errored 400 e)
  | .ok pod =>
    if pod.annotations.index annotationInject ≠ "true".toList then
      some (.allowed "injection not requested".toList)
    -- Idempotency guard: skip if already injected.
    else if pod.annotations.index annotationStatus = statusInjected then
      some (.allowed "already injected".toList)
    else
      (mutatePod parseQuantity cfg pod).map fun mutated =>
        match marshal mutated with
        | .error e => .errored 500 e
        | .ok marshaledPod => .patched raw marshaledPod

end EnvProxy.Injector
