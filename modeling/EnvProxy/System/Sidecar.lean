-- SUMMARY: Which injected sidecars start: from the annotations of a pod to the backend of its agent.
import EnvProxy.Agent.Startup
import EnvProxy.Cli.Init
import EnvProxy.System.ConfigRoundTrip
import EnvProxy.System.Injection

/-!
# Sidecars

The webhook puts the agent's configuration into a command line, `envproxy init` writes it
to the volume of the pod, and the sidecar starts the agent on that file.
`sidecar_starts_iff` says for which pods the agent gets as far as its backend.
-/

namespace EnvProxy.Injector

open CommandLine Agent

variable {α κ : Type} [Inhabited α]

/-! ## The added containers -/

/-- What a container is started with. -/
def Container.argv (c : Container α κ) : List Str := c.command ++ c.args

theorem init_of_mutatePod {parseQuantity : Str → Option κ} {cfg : Config} {pod pod' : Pod α κ}
    {init : Container α κ} (hmutated : mutatePod parseQuantity cfg pod = some pod')
    (hinit : pod'.initContainers.getLast? = some init) :
    init.argv = ["/usr/bin/envproxy".toList, "init".toList, "--target".toList, mountPath,
        "--write-config".toList, configContent pod.annotations] ∧
      init.volumeMounts = [sharedMount false] := by
  obtain ⟨init', sidecar, hbuilt, -, rfl⟩ := mutatePod_eq_some_iff.mp hmutated
  rw [List.getLast?_concat, Option.some.injEq] at hinit
  subst hinit
  simp only [buildInitContainer, Option.pure_def, Option.bind_eq_bind, Option.bind_eq_some_iff,
    Option.some.injEq] at hbuilt
  obtain ⟨resources, -, rfl⟩ := hbuilt
  exact ⟨rfl, rfl⟩

theorem sidecar_of_mutatePod {parseQuantity : Str → Option κ} {cfg : Config} {pod pod' : Pod α κ}
    {sidecar : Container α κ} (hmutated : mutatePod parseQuantity cfg pod = some pod')
    (hsidecar : pod'.containers.getLast? = some sidecar) :
    sidecar.argv = ["/envproxy/envproxy-agent".toList, "--config".toList, configPath] ∧
      sidecar.volumeMounts = [sharedMount false] ∧ sidecar.env = [] := by
  obtain ⟨init, sidecar', -, hbuilt, rfl⟩ := mutatePod_eq_some_iff.mp hmutated
  rw [List.getLast?_concat, Option.some.injEq] at hsidecar
  subst hsidecar
  simp only [buildSidecar, Option.pure_def, Option.bind_eq_bind, Option.bind_eq_some_iff,
    Option.some.injEq] at hbuilt
  obtain ⟨resources, -, rfl⟩ := hbuilt
  exact ⟨rfl, rfl, rfl⟩

/-! ## What the sidecar finds -/

/-- The sidecar runs on the volumes that the init container has left with these contents
    under its paths, and in the environment that its container has. -/
structure RunsAfter (host : Agent.Host) (init sidecar : Container α κ)
    (contents : Str → Option Bytes) : Prop where
  volumes : ∀ m ∈ init.volumeMounts, ∀ m' ∈ sidecar.volumeMounts, m'.name = m.name → ∀ path,
    (host.file (m'.mountPath ++ '/' :: path)).map FileBackend.SecretsFile.contents =
      contents (m.mountPath ++ '/' :: path)
  vaultToken : host.var "VAULT_TOKEN".toList =
    (effective sidecar.env "VAULT_TOKEN".toList).map EnvVar.value

/-- What the agent relies on `clap` for. -/
def ConfigOption (parse : List Str → Option Str) : Prop :=
  ∀ path, path ≠ [] → path.head? ≠ some '-' → parse ["--config".toList, path] = some path

/-- The sidecar's agent gets past its configuration and the construction of its backend. -/
def SidecarStarts (parse : List Str → Option Str) (host : Agent.Host) (sidecar : Container α κ) :
    Prop :=
  ∃ config, parse sidecar.argv.tail = some config ∧ Agent.Starts host config

/-- The agent reads the text that the webhook has written. -/
theorem readToString_config {parse : List Str → Option Cli} (hparse : InitOptions parse)
    {parseQuantity : Str → Option κ} {cfg : Config} {pod pod' : Pod α κ}
    {init sidecar : Container α κ} (hmutated : mutatePod parseQuantity cfg pod = some pod')
    (hinit : pod'.initContainers.getLast? = some init)
    (hsidecar : pod'.containers.getLast? = some sidecar) {disk : Disk} {image files : Files}
    (hinits : inits parse disk image init.argv.tail = some (.ok files)) {host : Agent.Host}
    (hafter : RunsAfter host init sidecar (disk.contents files)) :
    host.readToString configPath = .ok (configContent pod.annotations) := by
  obtain ⟨hargv, hmount⟩ := init_of_mutatePod hmutated hinit
  obtain ⟨-, hmount', -⟩ := sidecar_of_mutatePod hmutated hsidecar
  rw [hargv] at hinits
  have hwritten := inits_writes hparse (by decide) (by decide) (by exact fun h => nomatch h) hinits
  have hshared := hafter.volumes (sharedMount false) (hmount ▸ .head _) (sharedMount false)
    (hmount' ▸ .head _) rfl "config.toml".toList
  have hfile : (host.file configPath).map FileBackend.SecretsFile.contents =
      some (Utf8.encode (configContent pod.annotations)) := hshared.trans hwritten
  obtain ⟨⟨contents, modified⟩, hsome, rfl⟩ := Option.map_eq_some_iff.mp hfile
  unfold Host.readToString FileBackend.readToString
  rw [hsome]
  simp only [Utf8.decode?_encode]

/-! ## What the agent makes of it -/

/-- The lines without a Vault. -/
def fileLines : Toml.Document :=
  [.header "agent".toList, .entry "socket".toList socketPath,
    .entry "log_level".toList "info".toList, .blank,
    .header "backend".toList, .entry "type".toList "file".toList,
    .entry "path".toList "/dev/null".toList]

def relayConfig : Agent.Config where
  agent := { socket := socketPath, logLevel := "info".toList }
  backend := .file "/dev/null".toList

theorem fromFile_relay {parse : Str → Option Toml.Table} (hparse : Toml.Conforms parse) (path : Str)
    {annotations : Annotations} (haddr : annotations.index annotationVaultAddr = []) :
    Agent.Config.fromFile parse path (.ok (configContent annotations)) = .ok relayConfig := by
  have htext : configContent annotations = Toml.render fileLines := by
    unfold configContent
    rw [haddr]
    rfl
  have hvalid : Toml.Valid fileLines := by decide
  rw [htext]
  exact Agent.Config.fromFile_ok_iff.mpr ⟨_, hparse.accepts fileLines hvalid, rfl⟩

theorem fromFile_vault {parse : Str → Option Toml.Table} (hparse : Toml.Conforms parse) (path : Str)
    {annotations : Annotations} (haddr : annotations.index annotationVaultAddr ≠ [])
    (hplain : ∀ e ∈ (requestedVault annotations).strings, ∀ c ∈ e.2, Toml.plain c) :
    Agent.Config.fromFile parse path (.ok (configContent annotations)) =
      .ok (requestedConfig annotations) := by
  rw [configContent_eq haddr]
  exact Agent.Config.fromFile_ok_iff.mpr
    ⟨_, hparse.accepts _ (lines_valid hplain), deserialize_lines rfl rfl rfl rfl⟩

theorem authMethod_token_iff {annotations : Annotations} :
    (requestedVault annotations).authMethod = "token".toList ↔
      annotations.index annotationVaultAuthMethod = "token".toList := by
  unfold requestedVault orDefault
  dsimp only
  split
  · next hempty =>
    rw [hempty]
    exact iff_of_false (by decide) (by decide)
  · exact Iff.rfl

/-- The sidecar of a pod starts exactly if the pod has the address of a Vault and does not
    ask for authentication by a token, which the sidecar does not get. -/
theorem sidecar_starts_iff {parse : List Str → Option Cli} {parseAgent : List Str → Option Str}
    (hparse : InitOptions parse) (hparseAgent : ConfigOption parseAgent)
    {parseQuantity : Str → Option κ} {cfg : Config} {pod pod' : Pod α κ}
    {init sidecar : Container α κ} (hmutated : mutatePod parseQuantity cfg pod = some pod')
    (hinit : pod'.initContainers.getLast? = some init)
    (hsidecar : pod'.containers.getLast? = some sidecar) {disk : Disk} {image files : Files}
    (hinits : inits parse disk image init.argv.tail = some (.ok files)) {host : Agent.Host}
    (hafter : RunsAfter host init sidecar (disk.contents files)) (htoml : Toml.Conforms host.toml)
    (hnull : (host.file "/dev/null".toList).map FileBackend.SecretsFile.contents = some [])
    (hjson : ∃ e, host.json [] = .error e)
    (hplain : ∀ e ∈ (requestedVault pod.annotations).strings, ∀ c ∈ e.2, Toml.plain c)
    (hvault : pod.annotations.index annotationVaultAddr ≠ [] →
      Vault.Accepts host.surroundings host.profile (requestedVault pod.annotations)) :
    SidecarStarts parseAgent host sidecar ↔
      pod.annotations.index annotationVaultAddr ≠ [] ∧
        pod.annotations.index annotationVaultAuthMethod ≠ "token".toList := by
  obtain ⟨hargv, -, henv⟩ := sidecar_of_mutatePod hmutated hsidecar
  have hread := readToString_config hparse hmutated hinit hsidecar hinits hafter
  have hstarts : SidecarStarts parseAgent host sidecar ↔ Agent.Starts host configPath := by
    unfold SidecarStarts
    rw [hargv, List.tail_cons, hparseAgent configPath (by decide) (by decide)]
    simp only [Option.some.injEq, exists_eq_left']
  rw [hstarts]
  by_cases haddr : pod.annotations.index annotationVaultAddr = []
  · obtain ⟨e, he⟩ := hjson
    have hconfig := fromFile_relay htoml configPath haddr
    rw [← hread] at hconfig
    exact iff_of_false (not_starts_file hconfig rfl hnull he) fun h => h.1 haddr
  · have hconfig := fromFile_vault htoml configPath haddr hplain
    rw [← hread] at hconfig
    have haccepts := hvault haddr
    rw [starts_vault_iff hconfig rfl]
    constructor
    -- The injector adds no token, neither to the configuration nor to the sidecar.
    · rintro ⟨backend, hnew⟩
      refine ⟨haddr, fun htoken => ?_⟩
      have hvar : host.surroundings.vaultToken = none := by
        have hunset := hafter.vaultToken
        rw [henv] at hunset
        exact hunset
      exact Vault.new_tokenless (authMethod_token_iff.mpr htoken) rfl rfl hvar backend hnew
    · rintro ⟨-, htoken⟩
      rcases haccepts.authMethod with hmethod | hmethod
      · exact haccepts.new_kubernetes hmethod
      · exact absurd (authMethod_token_iff.mp hmethod) htoken

/-! ## Two pods -/

/-- What `clap` makes of the arguments of `init`. -/
def parseInit : List Str → Option Cli
  | [subcommand, targetOption, target, writeOption, content] =>
    if subcommand = "init".toList ∧ targetOption = "--target".toList ∧
        writeOption = "--write-config".toList ∧ target ≠ [] then
      some { socket := defaultSocketPath, command := .init target (some content) }
    else none
  | _ => none

theorem parseInit_options : InitOptions parseInit :=
  fun _ _ htarget _ _ => if_pos ⟨rfl, rfl, rfl, htarget⟩

def parseConfig : List Str → Option Str
  | [option, path] => if option = "--config".toList ∧ path ≠ [] then some path else none
  | _ => none

theorem parseConfig_option : ConfigOption parseConfig := fun _ hpath _ => if_pos ⟨rfl, hpath⟩

/-- The image of both containers, without the Python support. -/
def runtimeFiles : Files := fun path =>
  if ["/usr/bin/envproxy".toList, "/usr/bin/envproxy-agent".toList,
    "/usr/lib/envproxy/lib/libenvproxy.so".toList,
    "/usr/lib/envproxy/java/envproxy-agent.jar".toList].contains path then some [0x7F, 0x45, 0x4C, 0x46]
  else none

def willingDisk : Disk where
  place := id
  refuses := fun _ => none
  pythonDir := none

/-- A sidecar with these files on its volume and a Vault that accepts every login. -/
def sidecarHost (files : Files) : Agent.Host where
  file := fun path =>
    if path = "/dev/null".toList then some ⟨[], 0⟩
    else if path = Vault.serviceAccountToken then some ⟨Utf8.encode "jwt".toList, 0⟩
    else (files path).map fun contents => ⟨contents, 0⟩
  var := fun _ => none
  toml := Toml.read
  json := fun s =>
    if s = [] then .error "EOF while parsing a value at line 1 column 0".toList
    else .ok fun _ => none
  profile := .release
  kubernetesClient := .ok ()
  kubernetesSecret := fun _ => .error "not found".toList
  vaultSettings := fun _ => .ok ()
  vaultClient := fun _ => .ok ()
  vaultLogin := fun _ _ _ _ => .ok { clientToken := "token".toList, leaseDuration := 3600 }

theorem runsAfter_sidecarHost {parseQuantity : Str → Option Str} {cfg : Config}
    {pod pod' : Pod Unit Str} {init sidecar : Container Unit Str}
    (hmutated : mutatePod parseQuantity cfg pod = some pod')
    (hinit : pod'.initContainers.getLast? = some init)
    (hsidecar : pod'.containers.getLast? = some sidecar) (files : Files) :
    RunsAfter (sidecarHost files) init sidecar files := by
  obtain ⟨-, hmounts⟩ := init_of_mutatePod hmutated hinit
  obtain ⟨-, hmounts', henv⟩ := sidecar_of_mutatePod hmutated hsidecar
  constructor
  · intro m hm m' hm' _ path
    rw [hmounts, List.mem_singleton] at hm
    rw [hmounts', List.mem_singleton] at hm'
    subst hm hm'
    have hnull : (sharedMount false : VolumeMount Unit).mountPath ++ '/' :: path ≠ "/dev/null".toList :=
      fun h => nomatch h
    have htoken : (sharedMount false : VolumeMount Unit).mountPath ++ '/' :: path ≠
        Vault.serviceAccountToken := fun h => nomatch h
    simp only [sidecarHost, if_neg hnull, if_neg htoken, Option.map_map]
    exact Option.map_id'
  · rw [henv]
    rfl

/-- What a mutation and the init container leave of a pod. -/
theorem exists_sidecar (pod : Pod Unit Str) :
    ∃ pod' init sidecar files, mutatePod some defaults pod = some pod' ∧
      pod'.initContainers.getLast? = some init ∧ pod'.containers.getLast? = some sidecar ∧
      inits parseInit willingDisk runtimeFiles init.argv.tail = some (.ok files) := by
  obtain ⟨init, hinit⟩ : ∃ init, buildInitContainer some defaults pod = some init := ⟨_, rfl⟩
  obtain ⟨sidecar, hsidecar⟩ : ∃ sidecar, buildSidecar some defaults pod = some sidecar := ⟨_, rfl⟩
  have hmutated := mutatePod_eq_some_iff.mpr ⟨init, sidecar, hinit, hsidecar, rfl⟩
  obtain ⟨files, hfiles⟩ : ∃ files, inits parseInit willingDisk runtimeFiles
      ["init".toList, "--target".toList, mountPath, "--write-config".toList,
        configContent pod.annotations] = some (.ok files) := ⟨_, rfl⟩
  refine ⟨_, init, sidecar, files, hmutated, List.getLast?_concat, List.getLast?_concat, ?_⟩
  rw [(init_of_mutatePod hmutated List.getLast?_concat).1]
  exact hfiles

def vaultPod : Pod Unit Str :=
  { appPod with annotations := (vaultAnnotations "app".toList).assign annotationInject "true".toList }

theorem sidecar_starts_vault :
    ∃ pod' sidecar files, mutatePod some defaults vaultPod = some pod' ∧
      pod'.containers.getLast? = some sidecar ∧
      SidecarStarts parseConfig (sidecarHost files) sidecar := by
  obtain ⟨pod', init, sidecar, files, hmutated, hinit, hsidecar, hinits⟩ := exists_sidecar vaultPod
  have hafter := runsAfter_sidecarHost hmutated hinit hsidecar files
  have httl : Vault.parseDuration .release "5m".toList = some (some 300) := by decide
  have haccepts : Vault.Accepts (sidecarHost files).surroundings (sidecarHost files).profile
      (requestedVault vaultPod.annotations) := {
    cacheTtl := ⟨300, httl⟩
    authMethod := .inl (by decide)
    settings := fun _ => rfl
    client := fun _ => rfl
    login := fun _ => ⟨"jwt".toList, _, rfl, rfl⟩ }
  have hstarts := sidecar_starts_iff parseInit_options parseConfig_option hmutated hinit hsidecar
    hinits hafter Toml.conforms_read rfl ⟨_, rfl⟩ (by decide) fun _ => haccepts
  exact ⟨pod', sidecar, files, hmutated, hsidecar, hstarts.mpr ⟨by decide, by decide⟩⟩

/-- The sidecar of a pod without a Vault ends with an error: there is no JSON in `/dev/null`. -/
theorem relay_does_not_start :
    ∃ pod' sidecar files, mutatePod some defaults appPod = some pod' ∧
      pod'.containers.getLast? = some sidecar ∧
      ¬ SidecarStarts parseConfig (sidecarHost files) sidecar ∧
      Agent.start (sidecarHost files) configPath =
        some (.error (.backend "failed to initialize file backend".toList
          (.parse "failed to parse /dev/null: EOF while parsing a value at line 1 column 0".toList))) := by
  obtain ⟨pod', init, sidecar, files, hmutated, hinit, hsidecar, hinits⟩ := exists_sidecar appPod
  have hafter := runsAfter_sidecarHost hmutated hinit hsidecar files
  obtain ⟨hargv, -, -⟩ := sidecar_of_mutatePod hmutated hsidecar
  have haddr : appPod.annotations.index annotationVaultAddr = [] := by decide
  have hconfig := fromFile_relay Toml.conforms_read configPath haddr
  rw [← readToString_config parseInit_options hmutated hinit hsidecar hinits hafter] at hconfig
  have hstart : Agent.start (sidecarHost files) configPath =
      some (.error (.backend "failed to initialize file backend".toList
        (.parse "failed to parse /dev/null: EOF while parsing a value at line 1 column 0".toList))) := by
    have hempty : ((sidecarHost files).file "/dev/null".toList).map
        FileBackend.SecretsFile.contents = some [] := rfl
    have hjson : (sidecarHost files).json [] =
        .error "EOF while parsing a value at line 1 column 0".toList := rfl
    unfold Agent.start
    rw [show (sidecarHost files).toml = Toml.read from rfl, hconfig]
    simp only [relayConfig, createBackend, FileBackend.new_empty hempty hjson]
    rfl
  refine ⟨pod', sidecar, files, hmutated, hsidecar, ?_, hstart⟩
  rintro ⟨config, hparsed, started, hstarted⟩
  rw [hargv, List.tail_cons, parseConfig_option configPath (by decide) (by decide)] at hparsed
  cases hparsed
  rw [hstart] at hstarted
  cases hstarted

end EnvProxy.Injector
