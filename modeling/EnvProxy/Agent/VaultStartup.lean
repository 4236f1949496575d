-- SUMMARY: How the Vault backend starts: the cache TTL it is configured with, and whether that TTL can be used.
import EnvProxy.Agent.Config
import EnvProxy.Agent.Vault
import EnvProxy.Library.Overflow
import Mathlib.Data.List.DropRight

/-!
# Vault backend at startup

`new` reads the TTL of the cache before it does anything else. `Written` is the grammar
of the texts `parseDuration` reads, and `ttl_usable_iff` says for which of them the TTL
is the one that is written there and no fetch panics over it.

Client, login and files are parameters of `new`.
-/

namespace EnvProxy.Vault

open Text Agent

/-! ## Durations -/

/-- The Unicode property `White_Space`. -/
def whiteSpace (c : Char) : Bool :=
  let n := c.toNat
  (0x09 ≤ n && n ≤ 0x0D) || n = 0x20 || n = 0x85 || n = 0xA0 || n = 0x1680 ||
    (0x2000 ≤ n && n ≤ 0x200A) || n = 0x2028 || n = 0x2029 || n = 0x202F || n = 0x205F || n = 0x3000

def trim (s : Str) : Str := (s.dropWhile whiteSpace).rdropWhile whiteSpace

def stripSuffix (suffix : Char) (s : Str) : Option Str :=
  if s.getLast? = some suffix then some s.dropLast else none

/-- `parse_duration`, in seconds; the outer `none` is a panic. -/
def parseDuration (profile : Profile) (s : Str) : Option (Option Nat) :=
  let s := trim s
  if s = [] then some none
  else
    let (numStr, suffix) :=
      match stripSuffix 's' s with
      | some stripped => (stripped, 's')
      | none =>
        match stripSuffix 'm' s with
        | some stripped => (stripped, 'm')
        | none =>
          match stripSuffix 'h' s with
          | some stripped => (stripped, 'h')
          | none => (s, 's')
    match parseU64 numStr with
    | none => some none
    | some num =>
      if suffix = 's' then some (some num)
      else if suffix = 'm' then (profile.mul UInt64.size num 60).map some
      else if suffix = 'h' then (profile.mul UInt64.size num 3600).map some
      else some none

/-- The text, trimmed, is a numeral for `n`, then a unit of that many seconds. -/
inductive Written (s : Str) (n : Nat) : Nat → Prop where
  | bare : Numeral (trim s) n → Written s n 1
  | seconds {num : Str} : trim s = num ++ ['s'] → Numeral num n → Written s n 1
  | minutes {num : Str} : trim s = num ++ ['m'] → Numeral num n → Written s n 60
  | hours {num : Str} : trim s = num ++ ['h'] → Numeral num n → Written s n 3600

/-- The text stands for a duration of `d` seconds. -/
def Denotes (s : Str) (d : Nat) : Prop :=
  ∃ n unit, Written s n unit ∧ n < UInt64.size ∧ n * unit < UInt64.size ∧ d = n * unit

theorem stripSuffix_concat (c : Char) (num : Str) : stripSuffix c (num ++ [c]) = some num := by
  simp [stripSuffix]

theorem stripSuffix_concat_ne {c d : Char} (h : d ≠ c) (num : Str) :
    stripSuffix c (num ++ [d]) = none := by
  simp [stripSuffix, h]

theorem stripSuffix_eq_some {c : Char} {s num : Str} (h : stripSuffix c s = some num) :
    s = num ++ [c] := by
  unfold stripSuffix at h
  split at h
  · next hlast =>
    cases h
    obtain ⟨front, rfl⟩ := List.getLast?_eq_some_iff.mp hlast
    rw [List.dropLast_concat]
  · cases h

/-- A numeral ends in a digit. -/
theorem stripSuffix_numeral {c : Char} {s : Str} {n : Nat} (h : Numeral s n)
    (hc : c.isDigit = false) : stripSuffix c s = none := by
  obtain ⟨digits, hs, hne, hdigits, -⟩ := h
  have hlast : s.getLast? = digits.getLast? := by
    cases hs with
    | inl heq => rw [heq]
    | inr heq => rw [heq, List.getLast?_cons_of_ne_nil hne]
  unfold stripSuffix
  rw [hlast, if_neg]
  intro hmem
  have hdigit := hdigits c (List.mem_of_getLast? hmem)
  rw [hc] at hdigit
  cases hdigit

theorem Written.trim_ne_nil {s : Str} {n unit : Nat} (h : Written s n unit) : trim s ≠ [] := by
  cases h with
  | bare hnum =>
    obtain ⟨digits, hs, hne, -⟩ := hnum
    cases hs with
    | inl heq => rwa [heq]
    | inr heq => simp [heq]
  | seconds heq hnum => simp [heq]
  | minutes heq hnum => simp [heq]
  | hours heq hnum => simp [heq]

/-- What is made of a text of the grammar. -/
theorem parseDuration_written (profile : Profile) {s : Str} {n unit : Nat} (h : Written s n unit)
    (hn : n < UInt64.size) :
    parseDuration profile s = (profile.mul UInt64.size n unit).map some := by
  have hne := h.trim_ne_nil
  have hone : some (some n) = (profile.mul UInt64.size n 1).map some := by
    rw [profile.mul_one hn, Option.map_some]
  cases h with
  | bare hnum =>
    have hparse : parseU64 (trim s) = some n := parseU64_iff_numeral.mpr ⟨hnum, hn⟩
    simp only [parseDuration, if_neg hne, stripSuffix_numeral hnum (c := 's') rfl,
      stripSuffix_numeral hnum (c := 'm') rfl, stripSuffix_numeral hnum (c := 'h') rfl, hparse, if_true]
    exact hone
  | @seconds num heq hnum =>
    have hparse : parseU64 num = some n := parseU64_iff_numeral.mpr ⟨hnum, hn⟩
    rw [heq] at hne
    simp only [parseDuration, heq, if_neg hne, stripSuffix_concat, hparse, if_true]
    exact hone
  | @minutes num heq hnum =>
    have hparse : parseU64 num = some n := parseU64_iff_numeral.mpr ⟨hnum, hn⟩
    rw [heq] at hne
    simp only [parseDuration, heq, if_neg hne, stripSuffix_concat_ne (c := 's') (d := 'm') (by decide),
      stripSuffix_concat, hparse]
    rfl
  | @hours num heq hnum =>
    have hparse : parseU64 num = some n := parseU64_iff_numeral.mpr ⟨hnum, hn⟩
    rw [heq] at hne
    simp only [parseDuration, heq, if_neg hne, stripSuffix_concat_ne (c := 's') (d := 'h') (by decide),
      stripSuffix_concat_ne (c := 'm') (d := 'h') (by decide), stripSuffix_concat, hparse]
    rfl

/-- All other texts are rejected. -/
theorem parseDuration_rejected_or_written (profile : Profile) (s : Str) :
    parseDuration profile s = some none ∨ ∃ n unit, Written s n unit ∧ n < UInt64.size := by
  by_cases hne : trim s = []
  · left
    simp only [parseDuration, if_pos hne]
  cases hs : stripSuffix 's' (trim s) with
  | some num =>
    cases hparse : parseU64 num with
    | none => left; simp only [parseDuration, if_neg hne, hs, hparse]
    | some n =>
      obtain ⟨hnum, hn⟩ := parseU64_iff_numeral.mp hparse
      exact .inr ⟨n, 1, .seconds (stripSuffix_eq_some hs) hnum, hn⟩
  | none =>
    cases hm : stripSuffix 'm' (trim s) with
    | some num =>
      cases hparse : parseU64 num with
      | none => left; simp only [parseDuration, if_neg hne, hs, hm, hparse]
      | some n =>
        obtain ⟨hnum, hn⟩ := parseU64_iff_numeral.mp hparse
        exact .inr ⟨n, 60, .minutes (stripSuffix_eq_some hm) hnum, hn⟩
    | none =>
      cases hh : stripSuffix 'h' (trim s) with
      | some num =>
        cases hparse : parseU64 num with
        | none => left; simp only [parseDuration, if_neg hne, hs, hm, hh, hparse]
        | some n =>
          obtain ⟨hnum, hn⟩ := parseU64_iff_numeral.mp hparse
          exact .inr ⟨n, 3600, .hours (stripSuffix_eq_some hh) hnum, hn⟩
      | none =>
        cases hparse : parseU64 (trim s) with
        | none => left; simp only [parseDuration, if_neg hne, hs, hm, hh, hparse]
        | some n =>
          obtain ⟨hnum, hn⟩ := parseU64_iff_numeral.mp hparse
          exact .inr ⟨n, 1, .bare hnum, hn⟩

/-- What a numeral consists of. -/
def numeralChar (c : Char) : Bool := c.isDigit || c = '+'

def unitOf (suffix : Str) : Nat :=
  if suffix = ['m'] then 60 else if suffix = ['h'] then 3600 else 1

theorem numeralChar_of_numeral {s : Str} {n : Nat} (h : Numeral s n) :
    ∀ c ∈ s, numeralChar c = true := by
  obtain ⟨digits, hs, -, hdigits, -⟩ := h
  intro c hc
  have hc' : c = '+' ∨ c ∈ digits := by
    cases hs with
    | inl heq => exact .inr (heq ▸ hc)
    | inr heq => exact List.mem_cons.mp (heq ▸ hc)
  cases hc' with
  | inl hplus => simp [numeralChar, hplus]
  | inr hmem => simp [numeralChar, hdigits c hmem]

/-- The text says where its numeral ends. -/
theorem Written.split {s : Str} {n unit : Nat} (h : Written s n unit) :
    Numeral ((trim s).takeWhile numeralChar) n ∧ unit = unitOf ((trim s).dropWhile numeralChar) := by
  have hsplit : ∀ {num : Str} (suffix : Str), Numeral num n → suffix.takeWhile numeralChar = [] →
      (num ++ suffix).takeWhile numeralChar = num ∧
        (num ++ suffix).dropWhile numeralChar = suffix.dropWhile numeralChar := by
    intro num suffix hnum hsuffix
    have hchars := numeralChar_of_numeral hnum
    rw [List.takeWhile_append_of_pos hchars, List.dropWhile_append_of_pos hchars, hsuffix,
      List.append_nil]
    exact ⟨rfl, rfl⟩
  cases h with
  | bare hnum =>
    obtain ⟨htake, hdrop⟩ := hsplit [] hnum rfl
    rw [List.append_nil] at htake hdrop
    rw [htake, hdrop]
    exact ⟨hnum, rfl⟩
  | seconds heq hnum =>
    obtain ⟨htake, hdrop⟩ := hsplit ['s'] hnum rfl
    rw [heq, htake, hdrop]
    exact ⟨hnum, rfl⟩
  | minutes heq hnum =>
    obtain ⟨htake, hdrop⟩ := hsplit ['m'] hnum rfl
    rw [heq, htake, hdrop]
    exact ⟨hnum, rfl⟩
  | hours heq hnum =>
    obtain ⟨htake, hdrop⟩ := hsplit ['h'] hnum rfl
    rw [heq, htake, hdrop]
    exact ⟨hnum, rfl⟩

theorem Written.unique {s : Str} {n n' unit unit' : Nat} (h : Written s n unit)
    (h' : Written s n' unit') : n = n' ∧ unit = unit' :=
  ⟨h.split.1.unique h'.split.1, h.split.2.trans h'.split.2.symm⟩

/-- Where the text is of no duration that is out of range, reading it is exact. -/
theorem parseDuration_exact (profile : Profile) {s : Str}
    (h : ∀ n unit, Written s n unit → n < UInt64.size → n * unit < UInt64.size) :
    parseDuration profile s ≠ none ∧
      ∀ d, parseDuration profile s = some (some d) ↔ Denotes s d := by
  have hread : ∀ {n unit}, Written s n unit → n < UInt64.size →
      parseDuration profile s = some (some (n * unit)) := by
    intro n unit hwritten hn
    rw [parseDuration_written profile hwritten hn, Profile.mul_of_lt profile (h n unit hwritten hn),
      Option.map_some]
  have hdenotes : ∀ {d}, Denotes s d → parseDuration profile s = some (some d) := by
    rintro d ⟨n, unit, hwritten, hn, -, rfl⟩
    exact hread hwritten hn
  cases parseDuration_rejected_or_written profile s with
  | inl hrejected =>
    refine ⟨by simp [hrejected], fun d => ⟨fun hparse => ?_, hdenotes⟩⟩
    rw [hrejected] at hparse
    cases hparse
  | inr hwritten =>
    obtain ⟨n, unit, hwritten, hn⟩ := hwritten
    refine ⟨by simp [hread hwritten hn], fun d => ⟨fun hparse => ?_, hdenotes⟩⟩
    rw [hread hwritten hn, Option.some.injEq, Option.some.injEq] at hparse
    exact ⟨n, unit, hwritten, hn, h n unit hwritten hn, hparse.symm⟩

/-! ## The backend -/

structure VaultClient where
  address : Str
  token : Str

/-- What a login answers. -/
structure AuthInfo where
  clientToken : Str
  leaseDuration : UInt64

/-- What `new` finds around it; an error is its text. -/
structure Surroundings where
  readToString : Str → Except Str Str
  /-- `std::env::var("VAULT_TOKEN")`. -/
  vaultToken : Option Str
  buildSettings : VaultClient → Except Str Unit
  newClient : VaultClient → Except Str Unit
  /-- The Kubernetes login: the client, the mount, the role, the service account's token. -/
  login : VaultClient → Str → Str → Str → Except Str AuthInfo

/-- The backend as `new` returns it: its cache is empty, and the renewal loop runs if
    there was a login. The TTL is in seconds. -/
structure VaultBackend where
  client : VaultClient
  config : VaultBackendConfig
  cacheTtl : Nat
  renewed : Option UInt64

/-- The TTL in the unit of the clock. -/
def VaultBackend.ttl (backend : VaultBackend) : Nat := backend.cacheTtl * 1000000000

section

variable (w : Surroundings)

def unavailable {α : Type} (text : String) : Except Str α → Except BackendError α
  | .ok a => .ok a
  | .error e => .error (.unavailable (text.toList ++ e))

def connect (client : VaultClient) : Except BackendError VaultClient := do
  unavailable "vault client settings: " (w.buildSettings client)
  unavailable "vault client: " (w.newClient client)
  return client

/-- The token to start with; without token authentication there is none yet. -/
def initialToken (config : VaultBackendConfig) : Except BackendError Str :=
  if config.authMethod = "token".toList then
    match config.token, config.tokenFile, w.vaultToken with
    | some token, _, _ => .ok token
    | none, some tokenFile, _ =>
      match w.readToString tokenFile with
      | .ok contents => .ok (trim contents)
      | .error e => .error (.io e)
    | none, none, some token => .ok token
    | none, none, none =>
      .error (.unavailable "token auth requires token, token_file, or VAULT_TOKEN env var".toList)
  else .ok []

def authKubernetes (backend : VaultBackend) : Except BackendError VaultBackend := do
  let jwt ← unavailable "failed to read SA token: "
    (w.readToString "/var/run/secrets/kubernetes.io/serviceaccount/token".toList)
  let authInfo ← unavailable "vault kubernetes auth: "
    (w.login backend.client backend.config.authMount backend.config.role jwt)
  let client ← connect w { address := backend.config.address, token := authInfo.clientToken }
  return { backend with client, renewed := some authInfo.leaseDuration }

def authenticate (backend : VaultBackend) : Except BackendError VaultBackend :=
  if backend.config.authMethod = "kubernetes".toList then authKubernetes w backend
  else if backend.config.authMethod = "token".toList then .ok backend
  else .error (.unavailable ("unsupported auth method: ".toList ++ backend.config.authMethod))

/-- `new` with a TTL that was read. -/
def openWith (config : VaultBackendConfig) (cacheTtl : Nat) : Except BackendError VaultBackend := do
  let token ← initialToken w config
  let client ← connect w { address := config.address, token }
  let backend : VaultBackend := { client, config, cacheTtl, renewed := none }
  if config.authMethod = "token".toList then return backend
  else authenticate w backend

/-- `new`; the outer `none` is a panic. -/
def new (profile : Profile) (config : VaultBackendConfig) : Option (Except BackendError VaultBackend) :=
  (parseDuration profile config.cacheTtl).map fun
    | none => .error (.parse ("invalid cache_ttl: ".toList ++ config.cacheTtl))
    | some cacheTtl => openWith w config cacheTtl

variable {w}

theorem authKubernetes_cacheTtl {backend backend' : VaultBackend}
    (h : authKubernetes w backend = .ok backend') : backend'.cacheTtl = backend.cacheTtl := by
  simp only [authKubernetes, bind, Except.bind, pure, Except.pure] at h
  split at h
  · cases h
  split at h
  · cases h
  split at h
  · cases h
  cases h
  rfl

theorem authenticate_cacheTtl {backend backend' : VaultBackend}
    (h : authenticate w backend = .ok backend') : backend'.cacheTtl = backend.cacheTtl := by
  unfold authenticate at h
  split at h
  · exact authKubernetes_cacheTtl h
  split at h
  · cases h
    rfl
  · cases h

theorem openWith_cacheTtl {config : VaultBackendConfig} {cacheTtl : Nat} {backend : VaultBackend}
    (h : openWith w config cacheTtl = .ok backend) : backend.cacheTtl = cacheTtl := by
  simp only [openWith, bind, Except.bind, pure, Except.pure] at h
  split at h
  · cases h
  split at h
  · cases h
  split at h
  · cases h
    rfl
  · exact authenticate_cacheTtl h

/-- A backend caches for as long as its configuration was read to say. -/
theorem new_cacheTtl {profile : Profile} {config : VaultBackendConfig} {backend : VaultBackend}
    (h : new w profile config = some (.ok backend)) :
    parseDuration profile config.cacheTtl = some (some backend.cacheTtl) := by
  simp only [new, Option.map_eq_some_iff] at h
  obtain ⟨parsed, hparsed, hopened⟩ := h
  cases parsed with
  | none => cases hopened
  | some cacheTtl => rw [hparsed, openWith_cacheTtl hopened]

end

/-- A configuration with a token in it, and surroundings in which it is accepted. -/
def tokenConfig (cacheTtl : Str) : VaultBackendConfig where
  address := "https://vault.internal:8200".toList
  authMethod := "token".toList
  authMount := "kubernetes".toList
  role := []
  token := some "token".toList
  tokenFile := none
  caCert := none
  skipVerify := false
  cacheTtl := cacheTtl

def willing : Surroundings where
  readToString := fun _ => .error "No such file or directory (os error 2)".toList
  vaultToken := none
  buildSettings := fun _ => .ok ()
  newClient := fun _ => .ok ()
  login := fun _ _ _ _ => .error "connection refused".toList

theorem new_tokenConfig {profile : Profile} {s : Str} {d : Nat}
    (h : parseDuration profile s = some (some d)) :
    ∃ backend, new willing profile (tokenConfig s) = some (.ok backend) ∧ backend.cacheTtl = d := by
  have hopened : ∃ backend, openWith willing (tokenConfig s) d = .ok backend := ⟨_, rfl⟩
  obtain ⟨backend, hbackend⟩ := hopened
  refine ⟨backend, ?_, openWith_cacheTtl hbackend⟩
  change (parseDuration profile s).map _ = _
  rw [h, Option.map_some]
  exact congrArg some hbackend

/-! ## Fetches -/

theorem deadline_eq_none_iff {now ttl : Nat} : deadline now ttl = none ↔ ¬ now + ttl < maxInstant := by
  unfold deadline
  split
  · next h => simp [h]
  · next h => simp [h]

/-- A fetch panics over its TTL or does not: if no call panics at a time, the sum of the
    time and the TTL is in range. -/
theorem resolveWithValue_panics_iff {ttl later : Nat} :
    (∃ read now value cache, (resolveWithValue ttl read now later value cache).1 = none) ↔
      deadline later ttl = none := by
  constructor
  · rintro ⟨read, now, value, cache, h⟩
    unfold resolveWithValue at h
    split at h
    · cases h
    split at h
    · cases h
    split at h
    · cases h
    split at h
    · next hdeadline => exact hdeadline
    · cases h
  · intro h
    let r : VaultRef := { mount := ['m'], path := ['p'], key := ['k'], version := none }
    have hparse : parseVaultRef "vault:m/data/p#k".toList = some r := by decide
    refine ⟨fun _ _ _ => .ok ⟨[], List.nodup_nil⟩, 0, "vault:m/data/p#k".toList, fun _ => none, ?_⟩
    simp only [resolveWithValue, hparse, checkCache, h]

/-- The configured text is read as the duration it stands for, without a panic, and no
    fetch of an accepted backend panics over the TTL at the time `later`. -/
structure TtlUsable (profile : Profile) (s : Str) (later : Nat) : Prop where
  parsed : ∀ d, parseDuration profile s = some (some d) ↔ Denotes s d
  returns : parseDuration profile s ≠ none
  fetches : ∀ w config backend, config.cacheTtl = s → new w profile config = some (.ok backend) →
    ∀ read now value cache,
      (resolveWithValue backend.ttl read now later value cache).1 ≠ none

/-- That is so exactly if the duration that is written, added to the time, stays below
    2^63 seconds. -/
theorem ttl_usable_iff (profile : Profile) (s : Str) (later : Nat) :
    TtlUsable profile s later ↔
      ∀ n unit, Written s n unit → n < UInt64.size →
        later + n * unit * 1000000000 < maxInstant := by
  constructor
  · intro h n unit hwritten hn
    have hparse := parseDuration_written profile hwritten hn
    have hreturns := h.returns
    rw [hparse, Ne, Option.map_eq_none_iff] at hreturns
    obtain ⟨d, hmul⟩ := Option.ne_none_iff_exists'.mp hreturns
    rw [hmul, Option.map_some] at hparse
    -- What is read is what is written, so the backend's TTL is, too.
    obtain ⟨n', unit', hwritten', -, -, hd⟩ := (h.parsed d).mp hparse
    obtain ⟨rfl, rfl⟩ := hwritten.unique hwritten'
    obtain ⟨backend, hnew, hcacheTtl⟩ := new_tokenConfig hparse
    have hdeadline : deadline later backend.ttl ≠ none := by
      rw [Ne, ← resolveWithValue_panics_iff]
      rintro ⟨read, now, value, cache, hpanic⟩
      exact h.fetches willing (tokenConfig s) backend rfl hnew read now value cache hpanic
    rw [Ne, deadline_eq_none_iff, not_not, VaultBackend.ttl, hcacheTtl, hd] at hdeadline
    exact hdeadline
  · intro h
    have hexact := parseDuration_exact profile (s := s) fun n unit hwritten hn => by
      have hlater := h n unit hwritten hn
      simp only [maxInstant] at hlater
      simp only [UInt64.size]
      omega
    refine ⟨hexact.2, hexact.1, ?_⟩
    rintro w config backend rfl hnew read now value cache hpanic
    obtain ⟨n, unit, hwritten, hn, -, hd⟩ := (hexact.2 _).mp (new_cacheTtl hnew)
    have hdeadline := resolveWithValue_panics_iff.mp ⟨read, now, value, cache, hpanic⟩
    rw [deadline_eq_none_iff, VaultBackend.ttl, hd] at hdeadline
    exact hdeadline (h n unit hwritten hn)

/-- So many minutes are 2^64 seconds and 44 more. -/
def wrappedTtl : Str := "307445734561825861m".toList

theorem wrappedTtl_written : Written wrappedTtl 307445734561825861 60 := by
  have hparse : parseU64 "307445734561825861".toList = some 307445734561825861 := by decide
  have hnum : Numeral "307445734561825861".toList 307445734561825861 :=
    (parseU64_iff_numeral.mp hparse).1
  exact .minutes (by decide) hnum

/-- It is read as a TTL of 44 seconds. -/
theorem ttl_wraps : ¬ TtlUsable .release wrappedTtl 0 := by
  intro h
  have hparse : parseDuration .release wrappedTtl = some (some 44) := by
    rw [parseDuration_written .release wrappedTtl_written (by decide)]
    decide
  obtain ⟨n, unit, hwritten, -, -, hd⟩ := (h.parsed 44).mp hparse
  obtain ⟨rfl, rfl⟩ := wrappedTtl_written.unique hwritten
  revert hd
  decide

end EnvProxy.Vault
