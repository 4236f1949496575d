-- SUMMARY: Whether the agent reads from its generated configuration what the pod's annotations say.
import EnvProxy.Agent.Config
import EnvProxy.Injector.Mutator
import EnvProxy.Library.TomlReader

/-!
# The generated configuration

The injector writes the annotations between quotation marks as they are. The agent reads
back what was meant if and only if that text needs no escaping; otherwise a value can end
early and be followed by settings of its own.
-/

namespace EnvProxy.Injector

open Toml

/-- The Vault backend that the annotations of a pod ask for. -/
def requestedVault (annotations : Annotations) : Agent.VaultBackendConfig where
  address := annotations.index annotationVaultAddr
  authMethod := orDefault (annotations.index annotationVaultAuthMethod) "kubernetes".toList
  authMount := orDefault (annotations.index annotationVaultAuthMount) "kubernetes".toList
  role := annotations.index annotationVaultRole
  token := none
  tokenFile := none
  caCert := none
  skipVerify := false
  cacheTtl := orDefault (annotations.index annotationVaultCacheTTL) "5m".toList

def requestedConfig (annotations : Annotations) : Agent.Config where
  agent := { socket := socketPath, logLevel := "info".toList }
  backend := .vault (requestedVault annotations)

/-- The lines in front of the settings. -/
def prologue : Document :=
  [.header "agent".toList, .entry "socket".toList socketPath,
    .entry "log_level".toList "info".toList, .blank,
    .header "backend".toList, .entry "type".toList "vault".toList]

theorem prologue_valid : ∀ line ∈ prologue, line.Valid := by decide

theorem strings_bare (vault : Agent.VaultBackendConfig) : ∀ e ∈ vault.strings, BareKey e.1 := by
  have hkeys : ∀ key ∈ ["address".toList, "auth_method".toList, "auth_mount".toList, "role".toList,
      "cache_ttl".toList], BareKey key := by decide
  intro e he
  have hmem : e.1 ∈ vault.strings.map Prod.fst := List.mem_map_of_mem he
  exact hkeys e.1 hmem

/-- The text in front of the backend's. -/
def agentConfig : Str :=
  "[agent]\nsocket = \"".toList ++ socketPath ++ "\"\nlog_level = \"info\"\n\n".toList

/-- The text is that of the lines. -/
theorem vaultConfig_eq (vault : Agent.VaultBackendConfig) :
    agentConfig ++ vaultConfig vault.address vault.authMethod vault.authMount vault.role
      vault.cacheTtl = render (prologue ++ entries vault.strings) := by
  have hjoin {a a' b b' c c' d d' e e' f f' : Str} (ha : a = a') (hb : b = b') (hc : c = c')
      (hd : d = d') (he : e = e') (hf : f = f') :
      a ++ vault.address ++ b ++ vault.authMethod ++ c ++ vault.authMount ++ d ++ vault.role ++ e ++
          vault.cacheTtl ++ f =
        a' ++ vault.address ++ b' ++ vault.authMethod ++ c' ++ vault.authMount ++ d' ++
          vault.role ++ e' ++ vault.cacheTtl ++ f' := by
    rw [ha, hb, hc, hd, he, hf]
  calc agentConfig ++ vaultConfig vault.address vault.authMethod vault.authMount vault.role
          vault.cacheTtl
      = (agentConfig ++ "[backend]\ntype = \"vault\"\naddress = \"".toList) ++ vault.address ++
          "\"\nauth_method = \"".toList ++ vault.authMethod ++
          "\"\nauth_mount = \"".toList ++ vault.authMount ++ "\"\nrole = \"".toList ++ vault.role ++
          "\"\ncache_ttl = \"".toList ++ vault.cacheTtl ++ "\"\n".toList := by
        unfold vaultConfig
        simp only [List.append_assoc]
    _ = (render prologue ++ ("address".toList ++ [' ', '=', ' ', '"'])) ++ vault.address ++
          (['"', '\n'] ++ ("auth_method".toList ++ [' ', '=', ' ', '"'])) ++ vault.authMethod ++
          (['"', '\n'] ++ ("auth_mount".toList ++ [' ', '=', ' ', '"'])) ++ vault.authMount ++
          (['"', '\n'] ++ ("role".toList ++ [' ', '=', ' ', '"'])) ++ vault.role ++
          (['"', '\n'] ++ ("cache_ttl".toList ++ [' ', '=', ' ', '"'])) ++ vault.cacheTtl ++
          ['"', '\n'] := hjoin rfl rfl rfl rfl rfl rfl
    _ = render (prologue ++ entries vault.strings) := by
        simp only [render_append, Agent.VaultBackendConfig.strings, entries, List.map_cons,
          List.map_nil, render_cons, render_nil, Line.render, List.append_assoc, List.cons_append,
          List.nil_append]

theorem configContent_eq {annotations : Annotations}
    (haddr : annotations.index annotationVaultAddr ≠ []) :
    configContent annotations =
      render (prologue ++ entries (requestedVault annotations).strings) := by
  rw [← vaultConfig_eq]
  exact congrArg (agentConfig ++ ·) (if_pos haddr)

/-- The keys of the lines, with their tables. -/
def lineKeys : List (Str × Str) :=
  ["socket", "log_level"].map (fun key => ("agent".toList, key.toList)) ++
    ["type", "address", "auth_method", "auth_mount", "role", "cache_ttl"].map fun key =>
      ("backend".toList, key.toList)

theorem lines_keys (vault : Agent.VaultBackendConfig) :
    (bindings [] (prologue ++ entries vault.strings)).map Prod.fst = lineKeys := rfl

theorem lines_valid {vault : Agent.VaultBackendConfig}
    (hplain : ∀ e ∈ vault.strings, ∀ c ∈ e.2, plain c) :
    Valid (prologue ++ entries vault.strings) where
  lines := fun line hline => by
    obtain hline | hline := List.mem_append.mp hline
    · exact prologue_valid line hline
    · obtain ⟨e, he, rfl⟩ := List.mem_map.mp hline
      exact ⟨strings_bare vault e he, hplain e he⟩
  headers := by
    change ["agent".toList, "backend".toList].Nodup
    decide
  keys := by
    rw [lines_keys]
    decide
  opened := fun b hb => by
    have hopened : ∀ key ∈ lineKeys, key.1 ≠ [] := by decide
    refine hopened b.1 ?_
    rw [← lines_keys vault]
    exact List.mem_map_of_mem hb

/-- What the agent makes of the table of the lines. -/
theorem deserialize_lines {vault : Agent.VaultBackendConfig} (htoken : vault.token = none)
    (hfile : vault.tokenFile = none) (hcert : vault.caCert = none) (hverify : vault.skipVerify = false) :
    Agent.Config.deserialize (table (prologue ++ entries vault.strings)) =
      some {
        agent := { socket := socketPath, logLevel := "info".toList }
        backend := .vault vault } := by
  obtain ⟨address, authMethod, authMount, role, token, tokenFile, caCert, skipVerify, cacheTtl⟩ := vault
  subst htoken hfile hcert hverify
  rfl

/-- The agent deserialises the generated file to what the annotations ask for if and only
    if every setting can stand between quotation marks as it is. -/
theorem config_roundtrip_iff {parse : Str → Option Table} (hparse : Conforms parse) (path : Str)
    {annotations : Annotations} (haddr : annotations.index annotationVaultAddr ≠ []) :
    Agent.Config.fromFile parse path (.ok (configContent annotations)) =
        .ok (requestedConfig annotations) ↔
      ∀ e ∈ (requestedVault annotations).strings, ∀ c ∈ e.2, plain c := by
  rw [Agent.Config.fromFile_ok_iff, configContent_eq haddr]
  constructor
  · rintro ⟨t, ht, hconfig⟩
    obtain ⟨fields, hfields, hvault⟩ := Agent.Config.vault_of_deserialize hconfig
    have hstrings := Agent.VaultBackendConfig.strings_of_deserialize hvault
    refine hparse.plain_of_read prologue_valid (by decide) (strings_bare _) ht fun e he s hs => ?_
    have hscope : scope [] prologue = "backend".toList := rfl
    simp only [Table.value, hscope, hfields] at hs
    exact hstrings e he s hs
  · intro hplain
    exact ⟨_, hparse.accepts _ (lines_valid hplain), deserialize_lines rfl rfl rfl rfl⟩

/-- A pod with the address of its Vault and the role given. -/
def vaultAnnotations (role : Str) : Annotations := some fun key =>
  if key = annotationVaultAddr then some "https://vault:8200".toList
  else if key = annotationVaultRole then some role
  else none

def configPath : Str := "/envproxy/config.toml".toList

theorem config_roundtrip_app :
    Agent.Config.fromFile read configPath (.ok (configContent (vaultAnnotations "app".toList))) =
      .ok (requestedConfig (vaultAnnotations "app".toList)) :=
  (config_roundtrip_iff conforms_read configPath (by decide)).mpr (by decide)

/-! ## Settings in a value -/

/-- A value that ends early and goes on with an entry of its own. -/
def smuggle (value key value' : Str) : Str :=
  value ++ ['"', '\n'] ++ key ++ [' ', '=', ' ', '"'] ++ value'

/-- The role `app` with a token behind it. -/
def smuggledRole : Str := smuggle "app".toList "token".toList "t".toList

def smuggledConfig : Agent.Config where
  agent := { socket := socketPath, logLevel := "info".toList }
  backend := .vault { requestedVault (vaultAnnotations smuggledRole) with
    role := "app".toList
    token := some "t".toList }

/-- The agent reads a token from the role. -/
theorem config_injected :
    (vaultAnnotations smuggledRole).index annotationVaultAddr ≠ [] ∧
      Agent.Config.fromFile read configPath (.ok (configContent (vaultAnnotations smuggledRole))) =
        .ok smuggledConfig ∧
      smuggledConfig ≠ requestedConfig (vaultAnnotations smuggledRole) := by
  have haddr : (vaultAnnotations smuggledRole).index annotationVaultAddr ≠ [] := by decide
  let lines : Document := prologue ++ [
    .entry "address".toList "https://vault:8200".toList,
    .entry "auth_method".toList "kubernetes".toList, .entry "auth_mount".toList "kubernetes".toList,
    .entry "role".toList "app".toList, .entry "token".toList "t".toList,
    .entry "cache_ttl".toList "5m".toList]
  have htext : configContent (vaultAnnotations smuggledRole) = render lines := by
    rw [configContent_eq haddr]
    rfl
  have hvalid : Valid lines := by decide
  have hne : smuggledConfig ≠ requestedConfig (vaultAnnotations smuggledRole) := by decide
  refine ⟨haddr, ?_, hne⟩
  rw [htext]
  exact Agent.Config.fromFile_ok_iff.mpr ⟨_, conforms_read.accepts lines hvalid, rfl⟩

end EnvProxy.Injector
