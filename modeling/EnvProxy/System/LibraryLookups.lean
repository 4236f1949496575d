-- SUMMARY: The C library at a shared agent: what `getenv` returns while others are served and secrets rotate.
import EnvProxy.Agent.RequestedKeys
import EnvProxy.Agent.VaultFreshness
import EnvProxy.System.JvmLookups

/-!
# The C library at the socket

`getenv` opens a connection for every lookup and keeps nothing of what it is told. So the
agent's cache is the only one on the way from a secret to a process, and after a rotation
one TTL has to pass. What `getenv` falls back to is the reference itself.
-/

namespace EnvProxy.Libenvproxy

open Machine Server

/-! ## A lookup and its connection -/

/-- What a lookup can hear on its connection: it cannot connect or write; or it has sent
    its frame, and read what the agent wrote until the connection was closed, or as much of
    it as there was before the timeout. -/
inductive Hears {τ : Type} (frame : Bytes) (c : Conn τ) : Reply → Prop where
  | refused : Hears frame c .refused
  | waited {s} : s.data = [] → Hears frame c (.stream s)
  | read {s written fault} : c.stream.data = frame → c.stage = .closed written fault →
      s.data <+: written → Hears frame c (.stream s)

theorem requests_of_encode {key frame : Bytes} {value : Option Bytes} (h : encode key value = some frame) :
    Requests frame (.request key value) := by
  cases value with
  | none => simpa using Requests.v1 (t := []) h
  | some val => simpa using Requests.v2 (t := []) h

theorem currentValue_some {real : Option CStr} {val : Bytes} (h : currentValue real = some val) :
    ∃ ref, real = some ref ∧ ref.startsWith vaultPrefix = true ∧ val = ref.bytes := by
  obtain ⟨ref, hfilter, rfl⟩ := Option.map_eq_some_iff.mp h
  obtain ⟨hreal, hvault⟩ := Option.filter_eq_some_iff.mp hfilter
  exact ⟨ref, hreal, hvault, rfl⟩

theorem currentValue_of_reference {env : Environ} {name ref : CStr} (hget : env.get name.bytes = some ref)
    (hvault : ref.startsWith vaultPrefix = true) :
    currentValue (env.get name.bytes) = some ref.bytes := by
  rw [hget, currentValue, Option.filter_some, if_pos hvault]
  rfl

theorem selectCall_of_startsWith (key : Str) {ref : CStr} (h : ref.startsWith vaultPrefix = true) :
    selectCall key (some ref.bytes) = .resolveWithValue key (Utf8.lossy ref.bytes) := by
  have hreference := selectCall_reference key ref.bytes
  have hkey := selectCall_key key (some ref.bytes)
  rw [if_pos (CStr.startsWith_iff.mp h)] at hreference
  cases hcall : selectCall key (some ref.bytes) with
  | resolve key' =>
    rw [hcall] at hreference
    cases hreference
  | resolveWithValue key' reference =>
    rw [hcall] at hreference hkey
    cases hreference
    cases hkey
    rfl

section

variable {Time : Type} {w : World Time Id} {env : Environ} {statics : Statics} {name : CStr}

/-- The lookup asks the agent, with this frame. -/
def Sends (env : Environ) (statics : Statics) (name : CStr) (frame : Bytes) : Prop :=
  ¬ name.startsWith configPrefix ∧ statics.enabledIn env = true ∧
    encode name.bytes (currentValue (env.get name.bytes)) = some frame

/-- What a lookup returns. -/
def looksUp (w : World Time Id) (env : Environ) (statics : Statics) (name : CStr) : Option CStr :=
  (Id.run ((getenv w env name).run statics)).1

theorem looksUp_eq {frame : Bytes} (h : Sends env statics name frame) :
    looksUp w env statics name =
      ((Id.run (w.agent (statics.socketIn env) frame)).found.bind CStr.new).or (env.get name.bytes) := by
  obtain ⟨hconfig, hon, hencode⟩ := h
  rw [looksUp, getenv_run_enabled w env hconfig hon, hencode, ← received_eq]
  rfl

/-- A lookup that does not ask returns what the variable holds. -/
theorem looksUp_of_not_sends (h : ∀ frame, ¬ Sends env statics name frame) :
    looksUp w env statics name = env.get name.bytes := by
  by_cases hconfig : name.startsWith configPrefix
  · rw [looksUp, getenv_run_config w env statics hconfig]
    rfl
  cases hon : statics.enabledIn env with
  | false =>
    rw [looksUp, getenv_run_disabled w env hconfig hon]
    rfl
  | true =>
    cases hencode : encode name.bytes (currentValue (env.get name.bytes)) with
    | none =>
      rw [looksUp, getenv_run_enabled w env hconfig hon, hencode]
      rfl
    | some frame => exact absurd ⟨hconfig, hon, hencode⟩ (h frame)

variable {ttl now : Nat} {latest : Str → Str → Nat} {p : Pool Nat (Shared Vault.Shared) (Conn Vault.Phase)}
  {c : Nat} {frame : Bytes}

/-- A value that is heard is the result of the call on the reference that was sent. -/
theorem Hears.done {reply : Reply} {key b : Bytes} {value : Option Bytes}
    (hreach : (Server.machine (Vault.service ttl)).Reaches anyMove (bound (Vault.start now latest)) p)
    (hrequests : Requests frame (.request key value)) (hhears : Hears frame (p.tasks c) reply)
    (hfound : reply.found = some b) :
    ∃ bytes text serial, value = some bytes ∧
      (p.tasks c).task = .done (Utf8.lossy bytes) (.ok (some text)) serial ∧ b = Utf8.encode text := by
  cases hhears with
  | refused => cases hfound
  | waited hempty =>
    rw [Reply.found_of_empty hempty] at hfound
    cases hfound
  | read hsent hclosed hdata =>
    obtain ⟨key', value', text, hrequests', hreturns, hb⟩ :=
      (honest_reaches (reaches_guarded hreach) c).found hclosed hdata hfound
    rw [hsent] at hrequests'
    have hsame := requests_unique (s := .whole frame .closed) (by simpa using hrequests')
      (by simpa using hrequests)
    cases hsame
    obtain ⟨bytes, serial, hbytes, hdone⟩ := Vault.done_of_returns hreturns
    exact ⟨bytes, text, serial, hbytes, hdone, hb⟩

/-- A lookup returns what the variable holds, or the result of the call on the reference it
    holds. -/
theorem looksUp_cases
    (hreach : (Server.machine (Vault.service ttl)).Reaches anyMove (bound (Vault.start now latest)) p)
    (hhears : ∀ frame, Sends env statics name frame →
      Hears frame (p.tasks c) (Id.run (w.agent (statics.socketIn env) frame))) :
    looksUp w env statics name = env.get name.bytes ∨
      ∃ ref v text serial, looksUp w env statics name = some v ∧ env.get name.bytes = some ref ∧
        (p.tasks c).task = .done (Utf8.lossy ref.bytes) (.ok (some text)) serial ∧
        v.bytes = Utf8.encode text := by
  by_cases hsends : ∃ frame, Sends env statics name frame
  · obtain ⟨frame, hsends⟩ := hsends
    rw [looksUp_eq hsends]
    cases hvalue : (Id.run (w.agent (statics.socketIn env) frame)).found.bind CStr.new with
    | none => exact .inl Option.none_or
    | some v =>
      right
      obtain ⟨b, hfound, hnew⟩ := Option.bind_eq_some_iff.mp hvalue
      obtain ⟨bytes, text, serial, hbytes, hdone, rfl⟩ :=
        (hhears frame hsends).done hreach (requests_of_encode hsends.2.2) hfound
      obtain ⟨ref, hget, -, rfl⟩ := currentValue_some hbytes
      exact ⟨ref, v, text, serial, Option.some_or, hget, hdone, CStr.new_eq_some_iff.mp hnew⟩
  · exact .inl (looksUp_of_not_sends (not_exists.mp hsends))

/-- If it has read the whole response, the lookup returns the call's result, and the
    reference when there is none. -/
theorem complete_of_read {ref : CStr} {s : Chunked UInt8} (hsends : Sends env statics name frame)
    (hget : env.get name.bytes = some ref) (hvault : ref.startsWith vaultPrefix = true)
    (hreach : (Server.machine (Vault.service ttl)).Reaches anyMove (bound (Vault.start now latest)) p)
    (hsent : (p.tasks c).stream.data = frame) (hclosed : (p.tasks c).stage = .closed s.data none)
    (hagent : Id.run (w.agent (statics.socketIn env) frame) = .stream s) :
    ∃ result serial, (p.tasks c).task = .done (Utf8.lossy ref.bytes) result serial ∧
      looksUp w env statics name = (result.carried.bind CStr.new).or (some ref) := by
  have hrequests : Requests (p.tasks c).stream.data (.request name.bytes (some ref.bytes)) := by
    rw [hsent, ← currentValue_of_reference hget hvault]
    exact requests_of_encode hsends.2.2
  obtain ⟨result, hreturns, hdata⟩ :=
    (honest_reaches (reaches_guarded hreach) c).complete hclosed hrequests
  rw [selectCall_of_startsWith _ hvault] at hreturns
  rcases hreturns with hnow | ⟨⟨key, value, hcall, hworks⟩, houtcome⟩
  · cases hnow
  · cases hcall
    obtain ⟨s', serial, hdone⟩ := Vault.Phase.done_of_outcome houtcome
    rw [hdone] at hworks
    obtain rfl : s' = Utf8.lossy ref.bytes := hworks
    refine ⟨result, serial, hdone, ?_⟩
    rw [looksUp_eq hsends, hagent, found_respond hdata, hget]

end

/-! ## Whose value it is -/

/-- Vault has answered a read of the reference the variable holds with the value. -/
def Resolved (env : Environ) (name : CStr) (sh : Vault.Shared) (v : CStr) : Prop :=
  ∃ ref r text, env.get name.bytes = some ref ∧ parseVaultRef (Utf8.lossy ref.bytes) = some r ∧
    Vault.Fetched sh r text ∧ v.bytes = Utf8.encode text

/-- Whoever else is served, a lookup returns what the variable holds or what Vault answered
    for the reference in it; if Vault answers unversioned reads with plain secrets. -/
theorem getenv_served {Time : Type} (ttl now : Nat) (latest : Str → Str → Nat)
    (p : Pool Nat (Shared Vault.Shared) (Conn Vault.Phase)) (c : Nat)
    (h : (Server.machine (Vault.service ttl)).Reaches (guarded (Vault.service ttl) Vault.plainKeys).ok
      (bound (Vault.start now latest)) p)
    (w : World Time Id) (env : Environ) (statics : Statics) (name : CStr)
    (hhears : ∀ frame, Sends env statics name frame →
      Hears frame (p.tasks c) (Id.run (w.agent (statics.socketIn env) frame))) :
    looksUp w env statics name = env.get name.bytes ∨
      ∃ v, looksUp w env statics name = some v ∧ Resolved env name p.shared.backend v := by
  have hreach : (Server.machine (Vault.service ttl)).Reaches anyMove (bound (Vault.start now latest)) p :=
    h.mono fun _ _ _ => trivial
  refine (looksUp_cases hreach hhears).imp_right ?_
  rintro ⟨ref, v, text, serial, hv, hget, hdone, hbytes⟩
  have hrun : (Vault.machine ttl).Reaches Vault.plainKeys.ok (Vault.start now latest) (Server.backend p) :=
    backend_reaches h
  obtain ⟨r, hparse, hfetched⟩ := Vault.returned_fetched hrun hdone
  exact ⟨v, hv, ref, r, text, hget, hparse, hfetched, hbytes⟩

/-- What the connection of the lookup carried. -/
def told (response : Bytes) : World Nat Id where
  agent := fun _ _ => .stream (.whole response .closed)
  clock := 0

/-- The request of a lookup of `A`. -/
theorem sends_referring {statics : Statics} {frame : Bytes} (h : Sends Jvm.referring statics (.lit "A") frame) :
    frame = referenceFrame := by
  have hencode : encode (CStr.lit "A").bytes (currentValue (Jvm.referring.get (CStr.lit "A").bytes)) =
      some referenceFrame := by decide
  exact Option.some.inj (h.2.2.symm.trans hencode)

/-- The first client of the agent is a lookup of `A`. -/
theorem getenv_served_first :
    looksUp (told [0, 0, 1, 118]) Jvm.referring .new (.lit "A") = some (.lit "v") ∧
      (looksUp (told [0, 0, 1, 118]) Jvm.referring .new (.lit "A") = Jvm.referring.get (CStr.lit "A").bytes ∨
        ∃ v, looksUp (told [0, 0, 1, 118]) Jvm.referring .new (.lit "A") = some v ∧
          Resolved Jvm.referring (.lit "A") Vault.cachedFirst.shared.backend v) := by
  refine ⟨by decide, getenv_served 60 0 (fun _ _ => 1) Vault.cachedFirst 0 Vault.reaches_cachedFirst
    (told [0, 0, 1, 118]) Jvm.referring .new (.lit "A") fun frame hsends => ?_⟩
  rw [sends_referring hsends]
  exact .read rfl rfl List.prefix_rfl

/-! ## Rotation -/

/-- A lookup that connects a TTL after a rotation is given a value of the new version or of a
    newer one, or the reference. Which of them, the result of its call says, if it has read
    the whole response. -/
theorem rotation_reaches_getenv {Time : Type} {ttl now n c : Nat} {latest : Str → Str → Nat}
    {p q q' : Pool Nat (Shared Vault.Shared) (Conn Vault.Phase)} {r : VaultRef} {w : World Time Id}
    {env : Environ} {statics : Statics} {name ref : CStr}
    (hget : env.get name.bytes = some ref) (hvault : ref.startsWith vaultPrefix = true)
    (hparse : parseVaultRef (Utf8.lossy ref.bytes) = some r) (hversion : r.version = none)
    (hp : (Server.machine (Vault.service ttl)).Reaches anyMove (bound (Vault.start now latest)) p)
    (hrotated : n ≤ p.shared.backend.latest r.mount r.path) (hold : Vault.NoOlder (Server.backend p) r n)
    (hpq : (Server.machine (Vault.service ttl)).Reaches anyMove p q)
    (helapsed : p.shared.backend.now + ttl ≤ q.shared.backend.now)
    (hconnecting : (q.tasks c).stage = .connecting)
    (hqq : (Server.machine (Vault.service ttl)).Reaches anyMove q q')
    (hhears : ∀ frame, Sends env statics name frame →
      Hears frame (q'.tasks c) (Id.run (w.agent (statics.socketIn env) frame))) :
    (looksUp w env statics name = some ref ∨
      ∃ v text, looksUp w env statics name = some v ∧ Vault.Held q'.shared.backend r n text ∧
        v.bytes = Utf8.encode text) ∧
    ∀ frame s, Sends env statics name frame → Id.run (w.agent (statics.socketIn env) frame) = .stream s →
      (q'.tasks c).stream.data = frame → (q'.tasks c).stage = .closed s.data none →
      ∃ result serial, (q'.tasks c).task = .done (Utf8.lossy ref.bytes) result serial ∧
        looksUp w env statics name = (result.carried.bind CStr.new).or (some ref) := by
  have hreach := (hp.trans hpq).trans hqq
  constructor
  · rw [← hget]
    refine (looksUp_cases hreach hhears).imp_right ?_
    rintro ⟨ref', v, text, serial, hv, hget', hdone, hbytes⟩
    cases hget.symm.trans hget'
    -- The connection was not taken yet, so neither was the task behind it.
    have hidle : (q.tasks c).task = .idle :=
      (connecting_reaches (hp.trans hpq) hconnecting).2.symm
    have hheld := Vault.late_held (j := c) hversion (backend_reaches_any hp) hrotated hold
      (backend_reaches_any hpq) helapsed hidle (backend_reaches_any hqq) hdone hparse
    exact ⟨v, text, hv, hheld, hbytes⟩
  · intro frame s hsends hagent hsent hclosed
    exact complete_of_read hsends hget hvault hreach hsent hclosed hagent

/-- The second client asks after the TTL. -/
def renewedSecond : Pool Nat (Shared Vault.Shared) (Conn Vault.Phase) where
  shared := { running := true, backend := (Vault.rotatedFirst 60).shared.backend.fetched (.single ['k'] ['n']) 120 }
  tasks := Function.update (Vault.rotatedFirst 60).tasks 1 (Vault.told ['n'] 2)

theorem reaches_rotatedFirst :
    (Server.machine (Vault.service 60)).Reaches anyMove (bound (Vault.start 0 fun _ _ => 1)) (Vault.rotatedFirst 0) ∧
      (Server.machine (Vault.service 60)).Reaches anyMove (Vault.rotatedFirst 0) (Vault.rotatedFirst 60) ∧
      (Server.machine (Vault.service 60)).Reaches anyMove (Vault.rotatedFirst 60) renewedSecond := by
  have hfirst : (Server.machine (Vault.service 60)).Reaches anyMove (bound (Vault.start 0 fun _ _ => 1))
      Vault.cachedFirst := Vault.reaches_cachedFirst.mono fun _ _ _ => trivial
  have hsecond := Vault.alone_asking rfl (@Vault.alone_handling 60 120 (Vault.rotatedFirst 60).shared
    (.single ['k'] ['n']) ['n'] rfl rfl (by decide) (by decide))
  refine ⟨hfirst.step (a := .env (.backend (.rotate ['m'] ['p']))) trivial rfl, ?_, ?_⟩
  · exact .head (a := .env (.backend (.tick 60))) trivial rfl .refl
  · exact hsecond.reaches (p := Vault.rotatedFirst 60) (i := 1) rfl fun _ _ _ => trivial

/-- The agent has the old value cached at the rotation. The lookup is its second client,
    after the TTL. -/
theorem rotation_reaches_getenv_cached :
    Vault.checkCache (Vault.rotatedFirst 0).shared.backend.cache (Vault.rotatedFirst 0).shared.backend.now
        Vault.reference = some ['v'] ∧
      looksUp (told [0, 0, 1, 110]) Jvm.referring .new (.lit "A") = some (.lit "n") ∧
      ∃ v text, looksUp (told [0, 0, 1, 110]) Jvm.referring .new (.lit "A") = some v ∧
        Vault.Held renewedSecond.shared.backend Vault.referenceParts 2 text ∧ v.bytes = Utf8.encode text := by
  obtain ⟨hp, hpq, hqq⟩ := reaches_rotatedFirst
  have hget : Jvm.referring.get (CStr.lit "A").bytes = some ⟨referenceFrame.drop 6, by decide⟩ := by decide
  have hlookup : looksUp (told [0, 0, 1, 110]) Jvm.referring .new (.lit "A") = some (.lit "n") := by decide
  have hhears : ∀ frame, Sends Jvm.referring .new (.lit "A") frame →
      Hears frame (renewedSecond.tasks 1) (.stream (.whole [0, 0, 1, 110] .closed)) := by
    intro frame hsends
    obtain rfl : frame = referenceFrame := sends_referring hsends
    exact .read rfl rfl List.prefix_rfl
  have hne : looksUp (told [0, 0, 1, 110]) Jvm.referring .new (.lit "A") ≠
      some ⟨referenceFrame.drop 6, by decide⟩ := by
    rw [hlookup]
    decide
  exact ⟨rfl, hlookup, Or.resolve_left (And.left (rotation_reaches_getenv (r := Vault.referenceParts) (n := 2)
    (c := 1) hget (by decide) (by decide) rfl hp (by decide) (Vault.noOlder_rotatedFirst 0 2) hpq (by decide) rfl hqq
    hhears)) hne⟩

end EnvProxy.Libenvproxy
