-- SUMMARY: What injection keeps of a pod: every object of it, and what its containers run.
import EnvProxy.Injector.Mutator
import EnvProxy.Cli.Run
import Mathlib.Data.List.Forall2

/-!
# Injection

A targeted container runs `envproxy run -- COMMAND ARGS` in place of `COMMAND ARGS`, with
more mounts and variables behind its own. `Wrapped` is what that keeps of the container
and `Preserves` what a mutation keeps of the pod.
-/

namespace EnvProxy.Injector

open CommandLine

variable {α κ : Type}

/-! ## Variables -/

/-- The entry that a name has in an environment: the last one wins. -/
def effective (env : List (EnvVar α)) (name : Str) : Option (EnvVar α) :=
  env.reverse.find? fun e => e.name = name

theorem effective_append (env env' : List (EnvVar α)) (name : Str) :
    effective (env ++ env') name = (effective env' name).or (effective env name) := by
  simp only [effective, List.reverse_append, List.find?_append]

theorem effective_eq_none {env : List (EnvVar α)} {name : Str} (h : ∀ e ∈ env, e.name ≠ name) :
    effective env name = none := by
  simp only [effective, List.find?_eq_none, List.mem_reverse, decide_eq_true_eq]
  exact h

def envproxyPrefix : Str := "ENVPROXY_".toList

/-- Every injected variable is one of the agent's own. -/
theorem envproxyPrefix_of_mem {e : EnvVar α} {cacheTTL : Str} {noPython noJava : Bool}
    (h : e ∈ injectedEnv cacheTTL noPython noJava) : envproxyPrefix <+: e.name := by
  simp only [injectedEnv, List.cons_append, List.nil_append, List.mem_cons, List.not_mem_nil,
    or_false] at h
  obtain rfl | rfl | rfl | rfl | rfl := h
  · exact ⟨"SOCKET".toList, rfl⟩
  · exact ⟨"LIB".toList, rfl⟩
  · exact ⟨"CACHE_TTL".toList, rfl⟩
  · cases noPython with
    | false => exact ⟨"PYTHON_PATH".toList, rfl⟩
    | true => exact ⟨"NO_PYTHON".toList, rfl⟩
  · cases noJava with
    | false => exact ⟨"JAVA_PATH".toList, rfl⟩
    | true => exact ⟨"NO_JAVA".toList, rfl⟩

/-- Injection leaves the variables of the container alone. -/
theorem effective_injected_of_not_envproxy (env : List (EnvVar α)) {name : Str} (cacheTTL : Str)
    (noPython noJava : Bool) (h : ¬ envproxyPrefix <+: name) :
    effective (env ++ injectedEnv cacheTTL noPython noJava) name = effective env name := by
  have hnone : effective (α := α) (injectedEnv cacheTTL noPython noJava) name = none := by
    refine effective_eq_none fun e he hname => h ?_
    rw [← hname]
    exact envproxyPrefix_of_mem he
  rw [effective_append, hnone, Option.none_or]

/-- What is injected wins over what the container had. -/
theorem effective_injected (env : List (EnvVar α)) {name value cacheTTL : Str}
    {noPython noJava : Bool}
    (h : effective (α := α) (injectedEnv cacheTTL noPython noJava) name = some (literal name value)) :
    effective (env ++ injectedEnv cacheTTL noPython noJava) name = some (literal name value) := by
  rw [effective_append, h, Option.some_or]

/-! ## Containers -/

variable [Inhabited α]

/-- What a targeted container keeps. -/
structure Wrapped (parse : List Str → Option Cli) (cacheTTL : Str) (c c' : Container α κ) : Prop where
  name : c'.name = c.name
  image : c'.image = c.image
  resources : c'.resources = c.resources
  securityContext : c'.securityContext = c.securityContext
  rest : c'.rest = c.rest
  /-- Without an explicit command the entrypoint is left alone. -/
  implicit : c.command = [] → c'.command = c.command ∧ c'.args = c.args
  explicit : c.command ≠ [] →
    c'.command ++ c'.args =
      [mountPath ++ "/envproxy".toList, "run".toList, "--".toList] ++ (c.command ++ c.args)
  /-- What the tool executes is what the container ran before. -/
  executes : c.command ≠ [] → ∀ host command,
    runs parse host (c'.command ++ c'.args).tail = some (.ok command) →
      command.argv = c.command ++ c.args
  /-- It does so in the environment that injection prepares. -/
  executed : c.command ≠ [] → ∀ host lib sock,
    host.var "ENVPROXY_LIB".toList = some lib → host.var "ENVPROXY_SOCKET".toList = some sock →
      ∃ command, runs parse host (c'.command ++ c'.args).tail = some (.ok command) ∧
        ∀ name, name ≠ "LD_PRELOAD".toList → command.env name = host.env name
  volumeMounts : c.volumeMounts <+: c'.volumeMounts
  env : c.env <+: c'.env
  kept : ∀ name, ¬ envproxyPrefix <+: name → effective c'.env name = effective c.env name
  socket : effective c'.env "ENVPROXY_SOCKET".toList =
    some (literal "ENVPROXY_SOCKET".toList socketPath)
  lib : effective c'.env "ENVPROXY_LIB".toList =
    some (literal "ENVPROXY_LIB".toList (mountPath ++ "/lib/libenvproxy.so".toList))
  cacheTTL : effective c'.env "ENVPROXY_CACHE_TTL".toList =
    some (literal "ENVPROXY_CACHE_TTL".toList cacheTTL)

section

variable (c : Container α κ) (cacheTTL : Str) (noPython noJava : Bool)

theorem mutateContainer_argv (h : c.command ≠ []) :
    (mutateContainer c cacheTTL noPython noJava).command ++
        (mutateContainer c cacheTTL noPython noJava).args =
      [mountPath ++ "/envproxy".toList, "run".toList, "--".toList] ++ (c.command ++ c.args) := by
  rw [mutateContainer_explicit c cacheTTL noPython noJava h]
  simp only [List.cons_append, List.nil_append]

/-- The tool is called with the container's own command behind `--`. -/
theorem mutateContainer_runs {parse : List Str → Option Cli} (hparse : Trailing parse)
    (h : c.command ≠ []) (host : Host) :
    runs parse host ((mutateContainer c cacheTTL noPython noJava).command ++
        (mutateContainer c cacheTTL noPython noJava).args).tail =
      some (cmdRun host (c.command ++ c.args) defaultSocketPath) := by
  rw [mutateContainer_argv c cacheTTL noPython noJava h]
  exact runs_trailing hparse host (List.append_ne_nil_of_left_ne_nil h _)

/-- Behind the variables of the container, those of the agent have their injected values. -/
theorem mutateContainer_effective {name value : Str}
    (h : effective (injectedEnv (α := α) cacheTTL noPython noJava) name = some (literal name value)) :
    effective (mutateContainer c cacheTTL noPython noJava).env name = some (literal name value) := by
  rw [mutateContainer_env]
  exact effective_injected c.env h

end

theorem mutateContainer_wrapped {parse : List Str → Option Cli} (hparse : Trailing parse)
    (c : Container α κ) (cacheTTL : Str) (noPython noJava : Bool) :
    Wrapped parse cacheTTL c (mutateContainer c cacheTTL noPython noJava) where
  name := by unfold mutateContainer; split <;> rfl
  image := by unfold mutateContainer; split <;> rfl
  resources := by unfold mutateContainer; split <;> rfl
  securityContext := by unfold mutateContainer; split <;> rfl
  rest := by unfold mutateContainer; split <;> rfl
  implicit := fun h => by
    rw [mutateContainer_implicit c cacheTTL noPython noJava h]
    exact ⟨rfl, rfl⟩
  explicit := mutateContainer_argv c cacheTTL noPython noJava
  executes := fun h host command hrun => by
    rw [mutateContainer_runs c cacheTTL noPython noJava hparse h host, Option.some.injEq] at hrun
    exact argv_of_cmdRun hrun
  executed := fun h host lib sock hlib hsock => by
    have hcmd : c.command ++ c.args ≠ [] := List.append_ne_nil_of_left_ne_nil h _
    have hrun := mutateContainer_runs c cacheTTL noPython noJava hparse h host
    rw [cmdRun_of_env defaultSocketPath hcmd hlib hsock] at hrun
    exact ⟨_, hrun, fun name hname => Function.update_of_ne hname ..⟩
  volumeMounts := by
    rw [mutateContainer_volumeMounts]
    exact List.prefix_append _ _
  env := by
    rw [mutateContainer_env]
    exact List.prefix_append _ _
  kept := fun name hname => by
    rw [mutateContainer_env]
    exact effective_injected_of_not_envproxy c.env cacheTTL noPython noJava hname
  socket := mutateContainer_effective c cacheTTL noPython noJava
    (by cases noPython <;> cases noJava <;> rfl)
  lib := mutateContainer_effective c cacheTTL noPython noJava
    (by cases noPython <;> cases noJava <;> rfl)
  cacheTTL := mutateContainer_effective c cacheTTL noPython noJava
    (by cases noPython <;> cases noJava <;> rfl)

/-! ## Pods -/

/-- What an injected pod keeps. -/
structure Preserves (parse : List Str → Option Cli) (parseQuantity : Str → Option κ) (cfg : Config)
    (pod pod' : Pod α κ) : Prop where
  volumes : pod'.volumes =
    pod.volumes ++ [{ name := volumeName, source := .emptyDir "Memory".toList }]
  initContainers : ∃ init, buildInitContainer parseQuantity cfg pod = some init ∧
    pod'.initContainers = pod.initContainers ++ [init]
  containers : ∃ sidecar kept, buildSidecar parseQuantity cfg pod = some sidecar ∧
    pod'.containers = kept ++ [sidecar] ∧
    List.Forall₂ (fun c c' =>
      (¬ Targeted pod c.name → c' = c) ∧
      (Targeted pod c.name → Wrapped parse (cacheTTLOf cfg pod) c c')) pod.containers kept
  status : pod'.annotations.get annotationStatus = some statusInjected
  annotations : ∀ key, key ≠ annotationStatus → pod'.annotations.get key = pod.annotations.get key
  rest : pod'.rest = pod.rest

theorem mutateTarget_preserves {parse : List Str → Option Cli} (hparse : Trailing parse)
    (cfg : Config) (pod : Pod α κ) (c : Container α κ) :
    (¬ Targeted pod c.name → mutateTarget cfg pod c = c) ∧
      (Targeted pod c.name → Wrapped parse (cacheTTLOf cfg pod) c (mutateTarget cfg pod c)) := by
  refine ⟨mutateTarget_of_not_targeted cfg, fun h => ?_⟩
  rw [mutateTarget_of_targeted cfg h]
  exact mutateContainer_wrapped hparse c _ _ _

theorem mutatePod_preserves {parse : List Str → Option Cli} (hparse : Trailing parse)
    {parseQuantity : Str → Option κ} {cfg : Config} {pod pod' : Pod α κ}
    (h : mutatePod parseQuantity cfg pod = some pod') :
    Preserves parse parseQuantity cfg pod pod' := by
  obtain ⟨init, sidecar, hinit, hsidecar, rfl⟩ := mutatePod_eq_some_iff.mp h
  exact {
    volumes := rfl
    initContainers := ⟨init, hinit, rfl⟩
    containers := by
      refine ⟨sidecar, _, hsidecar, rfl, ?_⟩
      rw [List.forall₂_map_right_iff, List.forall₂_same]
      exact fun c _ => mutateTarget_preserves hparse cfg pod c
    status := Annotations.get_assign_self ..
    annotations := fun key hkey => Annotations.get_assign_of_ne _ _ hkey
    rest := rfl
  }

/-- A pod that asks for injection and has none is patched with its mutation, which keeps
    what its containers run; asked again, the webhook leaves the mutated pod alone. -/
theorem injection_preserves {parse : List Str → Option Cli} (hparse : Trailing parse)
    {parseQuantity : Str → Option κ} {cfg : Config} {pod pod' : Pod α κ}
    (hinject : pod.annotations.index annotationInject = "true".toList)
    (hstatus : pod.annotations.index annotationStatus ≠ statusInjected)
    (h : mutatePod parseQuantity cfg pod = some pod') :
    Preserves parse parseQuantity cfg pod pod' ∧
      ∀ {ρ : Type} (unmarshal : ρ → Except Str (Pod α κ)) (marshal : Pod α κ → Except Str ρ),
        (∀ raw marshaled, unmarshal raw = .ok pod → marshal pod' = .ok marshaled →
          handle unmarshal marshal parseQuantity cfg raw = some (.patched raw marshaled)) ∧
        ∀ raw, unmarshal raw = .ok pod' →
          handle unmarshal marshal parseQuantity cfg raw =
            some (.allowed "already injected".toList) := by
  have hkept := mutatePod_preserves hparse h
  refine ⟨hkept, fun unmarshal marshal => ⟨fun raw marshaled hraw hmarshal => ?_, fun raw hraw => ?_⟩⟩
  · simp only [handle, hraw, hinject, hstatus, h, hmarshal, ne_eq, not_true_eq_false, if_false,
      Option.map_some]
  · have hinjected : pod'.annotations.index annotationStatus = statusInjected := by
      simp only [Annotations.index, hkept.status, Option.getD_some]
    have hrequested : pod'.annotations.index annotationInject = "true".toList := by
      rw [← hinject, Annotations.index, hkept.annotations annotationInject (by decide)]
      rfl
    simp only [handle, hraw, hinjected, hrequested, ne_eq, not_true_eq_false, if_false, if_true]

/-! ## A pod with one container -/

/-- What `clap` makes of the arguments of `run` behind `--`. -/
def parseRun : List Str → Option Cli
  | subcommand :: escape :: program :: args =>
    if subcommand = "run".toList ∧ escape = "--".toList then
      some { socket := defaultSocketPath, command := .run (program :: args) }
    else none
  | _ => none

theorem parseRun_trailing : Trailing parseRun := by
  intro cmd hcmd
  cases cmd with
  | nil => exact absurd rfl hcmd
  | cons program args => simp only [parseRun, and_self, if_true]

def defaults : Config where
  envproxyImage := "ghcr.io/minivolk/envproxy:latest".toList
  defaultCacheTTL := "30".toList
  agentCPULimit := "50m".toList
  agentMemoryLimit := "64Mi".toList
  agentCPURequest := "10m".toList
  agentMemoryRequest := "32Mi".toList

def appContainer : Container Unit Str where
  name := "app".toList
  image := "app:latest".toList
  command := ["python3".toList]
  args := ["app.py".toList]
  env := [{ name := "A".toList, value := "1".toList, valueFrom := none }]
  volumeMounts := []
  resources := { limits := [], requests := [] }
  securityContext := none
  rest := ()

def appPod : Pod Unit Str where
  annotations := some fun key => if key = annotationInject then some "true".toList else none
  volumes := []
  initContainers := []
  containers := [appContainer]
  rest := ()

theorem injection_preserves_app :
    ∃ pod', mutatePod some defaults appPod = some pod' ∧
      Preserves parseRun some defaults appPod pod' := by
  obtain ⟨pod', hpod'⟩ : ∃ pod', mutatePod some defaults appPod = some pod' := ⟨_, rfl⟩
  have hinject : appPod.annotations.index annotationInject = "true".toList := by decide
  have hstatus : appPod.annotations.index annotationStatus ≠ statusInjected := by decide
  exact ⟨pod', hpod', (injection_preserves parseRun_trailing hinject hstatus hpod').1⟩

end EnvProxy.Injector
