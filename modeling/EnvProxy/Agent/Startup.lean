-- SUMMARY: The agent up to the backend it serves: configuration and backend construction.
import EnvProxy.Agent.File
import EnvProxy.Agent.Kubernetes
import EnvProxy.Agent.VaultStartup

/-!
# Agent startup

`start` is `main` from the command line to the backend, with every backend compiled in.
What it finds around it is a `Host`, which it leaves as it is.
-/

namespace EnvProxy

/-- `FileBackend::new`: a first reload. -/
def FileBackend.new (path : Str) (fromStr : Str → Except Str FileBackend.Data)
    (atRead atStat : Option FileBackend.SecretsFile) : Except BackendError FileBackend.FileCache :=
  match FileBackend.reload path fromStr atRead atStat .empty with
  | (.ok (), cache) => .ok cache
  | (.error e, _) => .error e

/-- There is no JSON in an empty file. -/
theorem FileBackend.new_empty {path : Str} {fromStr : Str → Except Str FileBackend.Data}
    {file : Option FileBackend.SecretsFile} {e : Str}
    (hfile : file.map FileBackend.SecretsFile.contents = some []) (hjson : fromStr [] = .error e) :
    FileBackend.new path fromStr file file =
      .error (.parse ("failed to parse ".toList ++ path ++ ": ".toList ++ e)) := by
  obtain ⟨⟨contents, modified⟩, rfl, rfl⟩ := Option.map_eq_some_iff.mp hfile
  have hread : FileBackend.readToString (some ⟨[], modified⟩) = .ok [] := by
    unfold FileBackend.readToString
    dsimp only
    rw [← Utf8.encode_nil, Utf8.decode?_encode]
  unfold FileBackend.new FileBackend.reload FileBackend.parse
  simp only [hread, hjson]

namespace Agent

structure Host where
  file : Str → Option FileBackend.SecretsFile
  /-- `std::env::var`. -/
  var : Str → Option Str
  /-- The readers of TOML and of JSON. -/
  toml : Str → Option Toml.Table
  json : Str → Except Str FileBackend.Data
  profile : Profile
  kubernetesClient : Except Str Unit
  kubernetesSecret : KubernetesBackendConfig → Except Str Kubernetes.Secret
  vaultSettings : Vault.VaultClient → Except Str Unit
  vaultClient : Vault.VaultClient → Except Str Unit
  vaultLogin : Vault.VaultClient → Str → Str → Str → Except Str Vault.AuthInfo

/-- `std::fs::read_to_string`. -/
def Host.readToString (host : Host) (path : Str) : Except Str Str :=
  match FileBackend.readToString (host.file path) with
  | .ok contents => .ok contents
  | .error .notFound => .error "No such file or directory (os error 2)".toList
  | .error (.other msg) => .error msg

def Host.surroundings (host : Host) : Vault.Surroundings where
  readToString := host.readToString
  vaultToken := host.var "VAULT_TOKEN".toList
  buildSettings := host.vaultSettings
  newClient := host.vaultClient
  login := host.vaultLogin

inductive StartError where
  | config (context : Str) (error : ConfigError)
  | backend (context : Str) (error : BackendError)

inductive StartedBackend where
  | file (cache : FileBackend.FileCache)
  | http (config : HttpBackendConfig)
  | kubernetes (data : Kubernetes.Data)
  | vault (backend : Vault.VaultBackend)

/-- The result of a constructor, with the context of its error. -/
def constructed {β : Type} (context : String) (backend : β → StartedBackend) :
    Except BackendError β → Except StartError StartedBackend
  | .ok b => .ok (backend b)
  | .error e => .error (.backend context.toList e)

/-- Create the backend based on configuration; `none` is a panic. -/
def createBackend (host : Host) : BackendConfig → Option (Except StartError StartedBackend)
  | .file path =>
    some (constructed "failed to initialize file backend" .file
      (FileBackend.new path host.json (host.file path) (host.file path)))
  | .http config => some (.ok (.http config))
  | .kubernetes config =>
    some (constructed "failed to initialize Kubernetes backend" .kubernetes
      (Kubernetes.new host.kubernetesClient (host.kubernetesSecret config)))
  | .vault config =>
    (Vault.new host.surroundings host.profile config).map
      (constructed "failed to initialize Vault backend" .vault)

/-- `main`, with the path it gets, up to the backend. -/
def start (host : Host) (config : Str) : Option (Except StartError (Config × StartedBackend)) :=
  match Config.fromFile host.toml config (host.readToString config) with
  | .error e => some (.error (.config "failed to load configuration".toList e))
  | .ok config => (createBackend host config.backend).map fun backend => backend.map (config, ·)

/-- The agent gets past its configuration and the construction of its backend. -/
def Starts (host : Host) (config : Str) : Prop :=
  ∃ started, start host config = some (.ok started)

/-- A step that turns results into results and errors into errors. -/
theorem exists_map_ok_iff {ε ε' β γ : Type} {f : Except ε β → Except ε' γ}
    (hok : ∀ b, ∃ c, f (.ok b) = .ok c) (herror : ∀ e, ∃ e', f (.error e) = .error e')
    {r : Option (Except ε β)} : (∃ c, r.map f = some (.ok c)) ↔ ∃ b, r = some (.ok b) := by
  constructor
  · rintro ⟨c, hc⟩
    obtain ⟨x, hx, hmap⟩ := Option.map_eq_some_iff.mp hc
    cases x with
    | error e =>
      obtain ⟨e', he'⟩ := herror e
      rw [he'] at hmap
      cases hmap
    | ok b => exact ⟨b, hx⟩
  · rintro ⟨b, rfl⟩
    obtain ⟨c, hc⟩ := hok b
    exact ⟨c, by rw [Option.map_some, hc]⟩

/-- With a configuration that is read, it is up to the backend. -/
theorem starts_iff_of_config {host : Host} {path : Str} {config : Config}
    (h : Config.fromFile host.toml path (host.readToString path) = .ok config) :
    Starts host path ↔ ∃ backend, createBackend host config.backend = some (.ok backend) := by
  unfold Starts start
  rw [h]
  apply exists_map_ok_iff
  · intro backend
    exact ⟨(config, backend), rfl⟩
  · intro e
    exact ⟨e, rfl⟩

theorem not_starts_file {host : Host} {path secrets e : Str} {config : Config}
    (h : Config.fromFile host.toml path (host.readToString path) = .ok config)
    (hbackend : config.backend = .file secrets)
    (hempty : (host.file secrets).map FileBackend.SecretsFile.contents = some [])
    (hjson : host.json [] = .error e) : ¬ Starts host path := by
  rw [starts_iff_of_config h, hbackend]
  rintro ⟨backend, hbackend⟩
  simp only [createBackend, FileBackend.new_empty hempty hjson] at hbackend
  cases hbackend

theorem starts_vault_iff {host : Host} {path : Str} {config : Config} {vault : VaultBackendConfig}
    (h : Config.fromFile host.toml path (host.readToString path) = .ok config)
    (hbackend : config.backend = .vault vault) :
    Starts host path ↔ ∃ backend, Vault.new host.surroundings host.profile vault = some (.ok backend) := by
  rw [starts_iff_of_config h, hbackend]
  simp only [createBackend]
  apply exists_map_ok_iff
  · intro backend
    exact ⟨.vault backend, rfl⟩
  · intro e
    exact ⟨_, rfl⟩

end Agent

/-! ## A Vault that accepts the login -/

namespace Vault

open Agent

/-- The path of the service account's token. -/
def serviceAccountToken : Str := "/var/run/secrets/kubernetes.io/serviceaccount/token".toList

/-- The settings are valid, and the Vault they name accepts the login. -/
structure Accepts (w : Surroundings) (profile : Profile) (config : VaultBackendConfig) : Prop where
  cacheTtl : ∃ d, parseDuration profile config.cacheTtl = some (some d)
  authMethod : config.authMethod = "kubernetes".toList ∨ config.authMethod = "token".toList
  settings : ∀ token, w.buildSettings { address := config.address, token } = .ok ()
  client : ∀ token, w.newClient { address := config.address, token } = .ok ()
  login : config.authMethod = "kubernetes".toList → ∃ jwt authInfo,
    w.readToString serviceAccountToken = .ok jwt ∧
      w.login { address := config.address, token := [] } config.authMount config.role jwt =
        .ok authInfo

variable {w : Surroundings} {profile : Profile} {config : VaultBackendConfig}

theorem Accepts.connect (h : Accepts w profile config) (token : Str) :
    connect w { address := config.address, token } = .ok { address := config.address, token } := by
  unfold Vault.connect
  rw [h.settings token, h.client token]
  rfl

theorem Accepts.authKubernetes (h : Accepts w profile config) {backend : VaultBackend}
    (hclient : backend.client = { address := config.address, token := [] })
    (hconfig : backend.config = config) (hmethod : config.authMethod = "kubernetes".toList) :
    ∃ backend', authKubernetes w backend = .ok backend' := by
  obtain ⟨jwt, authInfo, hjwt, hlogin⟩ := h.login hmethod
  unfold serviceAccountToken at hjwt
  unfold Vault.authKubernetes
  rw [hjwt, hclient, hconfig]
  simp only [unavailable, bind, Except.bind, hlogin, h.connect]
  exact ⟨_, rfl⟩

theorem Accepts.new_kubernetes (h : Accepts w profile config)
    (hmethod : config.authMethod = "kubernetes".toList) :
    ∃ backend, new w profile config = some (.ok backend) := by
  obtain ⟨d, hd⟩ := h.cacheTtl
  have hne : config.authMethod ≠ "token".toList := hmethod ▸ by decide
  have htoken : initialToken w config = .ok [] := if_neg hne
  let backend : VaultBackend :=
    { client := { address := config.address, token := [] }, config, cacheTtl := d, renewed := none }
  have hauth : ∃ backend', Vault.authKubernetes w backend = .ok backend' :=
    h.authKubernetes rfl rfl hmethod
  obtain ⟨backend', hauth⟩ := hauth
  refine ⟨backend', ?_⟩
  unfold new
  rw [hd, Option.map_some]
  simp only [openWith, bind, Except.bind, htoken, h.connect, if_neg hne, authenticate, if_pos hmethod]
  exact congrArg some hauth

/-- Without a token there is no token authentication. -/
theorem new_tokenless (hmethod : config.authMethod = "token".toList) (htoken : config.token = none)
    (hfile : config.tokenFile = none) (hvar : w.vaultToken = none) (backend : VaultBackend) :
    new w profile config ≠ some (.ok backend) := by
  have hinitial : ∃ e, initialToken w config = .error e := by
    unfold initialToken
    rw [if_pos hmethod, htoken, hfile, hvar]
    exact ⟨_, rfl⟩
  obtain ⟨e, he⟩ := hinitial
  intro h
  simp only [new, Option.map_eq_some_iff] at h
  obtain ⟨parsed, -, hopened⟩ := h
  cases parsed with
  | none => cases hopened
  | some d =>
    simp only [openWith, bind, Except.bind, he] at hopened
    cases hopened

end Vault

end EnvProxy
