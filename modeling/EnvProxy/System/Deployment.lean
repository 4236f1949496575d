-- SUMMARY: From the admission of a pod to the lookups in its containers.
import EnvProxy.Cli.Installation
import EnvProxy.System.Processes
import EnvProxy.System.Sidecar

/-!
# Deployments

The webhook, `envproxy init`, the agent, `envproxy run` and the library agree on paths that
each of them has for itself: where the volume is mounted, where the socket is, where the
library and its support files are. `Deployment` is a pod up to its running agent. A container
of it is then started, executes its own command and looks variables up.
-/

namespace EnvProxy.Injector

open CommandLine Libenvproxy

variable {α κ : Type} [Inhabited α]

/-! ## Pods up to their agent -/

/-- A pod that was injected, whose init container has filled the volume, and whose agent has
    come up on it. -/
structure Deployment (parse : List Str → Option Cli) (parseAgent : List Str → Option Str)
    (parseQuantity : Str → Option κ) (cfg : Config) (pod : Pod α κ) where
  injected : Pod α κ
  init : Container α κ
  sidecar : Container α κ
  disk : Disk
  image : Files
  /-- What is there on the volume, next to the image of the init container. -/
  files : Files
  host : Agent.Host
  config : Agent.Config
  backend : Agent.StartedBackend
  mutated : mutatePod parseQuantity cfg pod = some injected
  lastInit : injected.initContainers.getLast? = some init
  lastContainer : injected.containers.getLast? = some sidecar
  initialized : inits parse disk image init.argv.tail = some (.ok files)
  mounted : RunsAfter host init sidecar (disk.contents files)
  started : ∃ path, parseAgent sidecar.argv.tail = some path ∧
    Agent.start host path = some (.ok (config, backend))

section

variable {parse : List Str → Option Cli} {parseAgent : List Str → Option Str}
  {parseQuantity : Str → Option κ} {cfg : Config} {pod : Pod α κ}

theorem config_of_start {host : Agent.Host} {path : Str} {config : Agent.Config}
    {backend : Agent.StartedBackend}
    (h : Agent.start host path = some (.ok (config, backend))) :
    Agent.Config.fromFile host.toml path (host.readToString path) = .ok config := by
  unfold Agent.start at h
  split at h
  · cases h
  · next config' hconfig =>
    obtain ⟨r, -, hr⟩ := Option.map_eq_some_iff.mp h
    cases r with
    | error e => cases hr
    | ok b =>
      cases hr
      exact hconfig

/-- The agent listens where the webhook tells the containers that it does. -/
theorem Deployment.socket (d : Deployment parse parseAgent parseQuantity cfg pod)
    (hparse : InitOptions parse) (hparseAgent : ConfigOption parseAgent)
    (htoml : Toml.Conforms d.host.toml)
    (hplain : ∀ e ∈ (requestedVault pod.annotations).strings, ∀ c ∈ e.2, Toml.plain c) :
    d.config.agent.socket = socketPath := by
  obtain ⟨path, hpath, hstart⟩ := d.started
  obtain ⟨hargv, -, -⟩ := sidecar_of_mutatePod d.mutated d.lastContainer
  have hconfigPath : path = configPath := by
    rw [hargv, List.tail_cons, hparseAgent configPath (by decide) (by decide)] at hpath
    exact (Option.some.inj hpath).symm
  have hread := readToString_config hparse d.mutated d.lastInit d.lastContainer d.initialized d.mounted
  have hconfig := config_of_start hstart
  rw [hconfigPath, hread] at hconfig
  by_cases haddr : pod.annotations.index annotationVaultAddr = []
  · rw [fromFile_relay htoml configPath haddr, Except.ok.injEq] at hconfig
    rw [← hconfig]
    rfl
  · rw [fromFile_vault htoml configPath haddr hplain, Except.ok.injEq] at hconfig
    rw [← hconfig]
    rfl

/-- The init container has left the files of its image on the volume. -/
theorem Deployment.installed (d : Deployment parse parseAgent parseQuantity cfg pod)
    (hparse : InitOptions parse)
    (houtside : Outside d.disk mountPath (some (configContent pod.annotations))) :
    Installed d.disk mountPath (some (configContent pod.annotations)) d.image d.files := by
  obtain ⟨hargv, -⟩ := init_of_mutatePod d.mutated d.lastInit
  have hinitialized := d.initialized
  rw [hargv] at hinitialized
  exact installed_of_inits hparse (by decide) (by decide) (by intro h; cases h) houtside hinitialized

end

/-! ## Containers up to their command -/

def libPath : Str := mountPath ++ "/lib/libenvproxy.so".toList

section

variable {parse : List Str → Option Cli} {cfg : Config} {pod : Pod α κ} {c : Container α κ}
  {host : CommandLine.Host}

end

/-! ## The process -/

section

variable {host : CommandLine.Host} {argv : List Str} {lib : Str} {env : Environ}

end

section

variable (cfg : Config) {pod : Pod α κ} {c : Container α κ}

end

end EnvProxy.Injector
