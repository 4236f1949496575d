-- SUMMARY: When a rotated secret has reached the lookups of a JVM: after a TTL of the agent and one of the map.
import EnvProxy.System.JvmLookups

/-!
# Rotation and the JVM

Two caches lie between a secret and `System.getenv()`. After a rotation the entries of
both have to expire, one after the other, before every lookup returns the new version:
the map may have been told the old value when the agent's entry was about to expire.
-/

namespace EnvProxy.Jvm

open Machine

variable {key : JStr} {late : Nat → Prop}

/-! ## Entries of the map expire -/

/-- Lookups keep to their connections, and the wall clock is not set back. -/
def Forward (site : Site) (a : Act) : Prop :=
  Separate site a ∧
    match a with
    | .clock now => site.jvm.shared.now ≤ now
    | _ => True

/-- Entries carry times that have passed. -/
def Stamped (site : Site) : Prop :=
  0 ≤ site.jvm.shared.now ∧ ∀ key entry, site.map.cache key = some entry →
    0 ≤ entry.timestamp ∧ entry.timestamp ≤ site.jvm.shared.now

theorem Stamped.lookup {site : Site} {i : Nat} {a : Java.Act} {jvm : Pool Nat Java.Shared Java.Phase}
    (h : Stamped site) (hstep : Java.machine.step site.jvm (.task i a) = some jvm) :
    jvm.shared.now = site.jvm.shared.now ∧
      ∀ key entry, jvm.shared.map.cache key = some entry →
        0 ≤ entry.timestamp ∧ entry.timestamp ≤ site.jvm.shared.now := by
  obtain ⟨hdoes, -⟩ := Java.step_does hstep
  refine ⟨hdoes.keeps.1, fun key entry hentry => ?_⟩
  rcases hdoes.cache_cases key with hsame | ⟨resolved, -, hstored⟩
  · exact h.2 key entry (hsame.symm.trans hentry)
  · cases hstored.symm.trans hentry
    exact ⟨h.1, Int64.le_refl _⟩

/-- The wall clock goes forward, and so do the entries. -/
theorem Does.stamped {ttl : Nat} {site site' : Site} {a : Act} (h : Does ttl site a site')
    (hok : Forward site a) (hs : Stamped site) :
    Stamped site' ∧ site.jvm.shared.now ≤ site'.jvm.shared.now := by
  have hlookup : ∀ {i a jvm link}, Java.machine.step site.jvm (.task i a) = some jvm →
      Stamped { site with jvm, link } ∧ site.jvm.shared.now ≤ jvm.shared.now := by
    intro i a jvm link hstep
    obtain ⟨hnow, hentries⟩ := hs.lookup hstep
    rw [Stamped, hnow]
    exact ⟨⟨hs.1, hentries⟩, Int64.le_refl _⟩
  cases h with
  | agent _ => exact ⟨hs, Int64.le_refl _⟩
  | connected _ _ _ _ _ _ => exact ⟨hs, Int64.le_refl _⟩
  | lookup hstep => exact hlookup hstep
  | responded _ _ _ hstep => exact hlookup hstep
  | failed hstep => exact hlookup hstep
  | @clock now =>
    have hforward : site.jvm.shared.now ≤ now := hok.2
    refine ⟨⟨Int64.le_trans hs.1 hforward, fun key entry hentry => ?_⟩, hforward⟩
    obtain ⟨hzero, hle⟩ := hs.2 key entry hentry
    exact ⟨hzero, Int64.le_trans hle hforward⟩

theorem stamped_reaches {ttl : Nat} {site site' : Site} (h : (machine ttl).Reaches Forward site site')
    (hs : Stamped site) : Stamped site' ∧ site.jvm.shared.now ≤ site'.jvm.shared.now := by
  induction h with
  | refl => exact ⟨hs, Int64.le_refl _⟩
  | step _ hok hstep ih =>
    obtain ⟨hbefore, hle⟩ := ih
    obtain ⟨hafter, hle'⟩ := (step_does hstep).stamped hok hbefore
    exact ⟨hafter, Int64.le_trans hle hle'⟩

/-- A map that has just been installed has no entries. -/
theorem stamped_start {now : Nat} {latest : Str → Str → Nat} {original : Environ} {socketPath : JStr}
    {cacheTtlMs clock : Int64} (hclock : 0 ≤ clock) :
    Stamped (start now latest (Java.start original socketPath cacheTtlMs clock)) :=
  ⟨hclock, fun _ _ hentry => by cases hentry⟩

/-- An entry from before `t` is not young a TTL later. -/
theorem old_of_le {t now stamp cacheTtlMs : Int64} (hzero : 0 ≤ stamp) (hstamp : stamp ≤ t)
    (hnow : t.toInt + cacheTtlMs.toInt ≤ now.toInt) (hle : stamp ≤ now) :
    ¬ now - stamp < cacheTtlMs := by
  have hstamp' := Int64.le_iff_toInt_le.mp hstamp
  rw [Int64.lt_iff_toInt_lt, Int64.toInt_sub_of_le now stamp hzero hle]
  omega

/-! ## A rotation reaches the lookups -/

/-- The variable holds a reference to the newest version of a secret. -/
def RefersTo (original : Environ) (key : JStr) (r : VaultRef) : Prop :=
  r.version = none ∧ ∃ ref, Java.jvmGet original key = some ref ∧ ref.startsWith vaultPrefix = true ∧
    ref.getBytes.length ≤ 65535 ∧ parseVaultRef (Utf8.lossy ref.getBytes) = some r

/-- In `p` the secret is at version `n`, and no task of the agent holds an older response.
    Up to `q` a TTL of the agent has passed; and no lookup of the variable is under way
    there. -/
structure Rotated (ttl : Nat) (r : VaultRef) (n : Nat) (key : JStr) (p q : Site) : Prop where
  latest : n ≤ p.vault.latest r.mount r.path
  noOlder : Vault.NoOlder (Server.backend p.agent) r n
  elapsed : p.vault.now + ttl ≤ q.vault.now
  quiet : ∀ j, q.jvm.tasks j ≠ .asking key ∧ ∀ resolved, q.jvm.tasks j ≠ .storing key resolved

/-- A value that Vault held in version `n` of the secret or a later one. -/
def Renewed (r : VaultRef) (n : Nat) (sh : Vault.Shared) (v : JStr) : Prop :=
  ∃ text, Vault.Held sh r n text ∧ v = .decode (Utf8.encode text)

section

variable {ttl now : Nat} {latest : Str → Str → Nat} {original : Environ} {socketPath : JStr}
  {cacheTtlMs clock : Int64} {r : VaultRef} {n : Nat} {p q : Site}

/-- From `q` on, the replies on new connections are from the new version. -/
theorem offers_renewed (hclock : 0 ≤ clock) (hrefers : RefersTo original key r)
    (hp : (machine ttl).Reaches Forward
      (start now latest (Java.start original socketPath cacheTtlMs clock)) p)
    (hpq : (machine ttl).Reaches Forward p q) (hrotated : Rotated ttl r n key p q) {site : Site}
    (hqs : (machine ttl).Reaches Forward q site)
    (hlate : ∀ i, late i → q.jvm.shared.now.toInt + cacheTtlMs.toInt ≤ site.jvm.shared.now.toInt) :
    Offers (Renewed r n) key (fun entry => ¬ entry.timestamp ≤ q.jvm.shared.now) late
      (fun c => ((q.agent.tasks c).task = .idle)) site := by
  obtain ⟨hversion, ref, href, hvault, hfits, hparse⟩ := hrefers
  have hreach := (hp.trans hpq).trans hqs
  obtain ⟨horiginal, httl⟩ := map_reaches hreach
  have hreal : Java.jvmGet site.map.original key = some ref := by
    rw [horiginal]
    exact href
  have hstamped : Stamped site := (stamped_reaches hreach (stamped_start hclock)).1
  constructor
  · intro value hvalue
    cases hreal.symm.trans hvalue
    exact hvault
  · intro c hconnecting
    obtain ⟨hconnecting', -⟩ := Server.connecting_reaches (agent_reaches hqs) hconnecting
    exact (Server.connecting_reaches (agent_reaches (hp.trans hpq)) hconnecting').2.symm
  · intro i entry hi hentry hyoung hle
    obtain ⟨hzero, hpast⟩ := hstamped.2 key entry hentry
    rw [httl] at hyoung
    exact old_of_le hzero hle (hlate i hi) hpast hyoung
  · intro c request s fault v hfresh hclosed hwanted hdata hreceived
    have hshort : ∀ ref, Java.jvmGet site.map.original key = some ref →
        ref.getBytes.length ≤ maxValueLen := by
      intro ref' href'
      cases hreal.symm.trans href'
      exact hfits
    obtain ⟨ref', text, serial, href', htask, hv⟩ :=
      reply_of_wired hreach hclosed hwanted hdata hreceived hshort
    cases hreal.symm.trans href'
    have hheld := Vault.late_held (j := c) hversion (vault_reaches hp) hrotated.latest hrotated.noOlder
      (vault_reaches hpq) hrotated.elapsed hfresh (vault_reaches hqs) htask hparse
    exact ⟨text, hheld, hv⟩

/-- One stretch of the run from `q` on. -/
theorem promised_renewed (hclock : 0 ≤ clock) (hrefers : RefersTo original key r)
    (hp : (machine ttl).Reaches Forward
      (start now latest (Java.start original socketPath cacheTtlMs clock)) p)
    (hpq : (machine ttl).Reaches Forward p q) (hrotated : Rotated ttl r n key p q) {u u' : Site}
    (hqu : (machine ttl).Reaches Forward q u) (huu : (machine ttl).Reaches Forward u u')
    (hlate : ∀ i, late i → q.jvm.shared.now.toInt + cacheTtlMs.toInt ≤ u.jvm.shared.now.toInt)
    (h : Wired u ∧ Promised (Renewed r n) key (fun entry => ¬ entry.timestamp ≤ q.jvm.shared.now) late
      (fun c => ((q.agent.tasks c).task = .idle)) u) :
    Wired u' ∧ Promised (Renewed r n) key (fun entry => ¬ entry.timestamp ≤ q.jvm.shared.now) late
      (fun c => ((q.agent.tasks c).task = .idle)) u' := by
  have hstamped : Stamped u := (stamped_reaches ((hp.trans hpq).trans hqu) (stamped_start hclock)).1
  refine huu.along (I := fun site => Wired site ∧ Promised (Renewed r n) key
    (fun entry => ¬ entry.timestamp ≤ q.jvm.shared.now) late
    (fun c => ((q.agent.tasks c).task = .idle)) site) h ?_
  intro site₁ a site₂ hreach ⟨hwired, hpromised⟩ hok hstep
  have hdoes := step_does hstep
  have hmono : ∀ v, Renewed r n site₁.vault v → Renewed r n site₂.vault v := by
    rintro v ⟨text, hheld, hv⟩
    exact ⟨text, hheld.mono (responses_reaches (.step .refl hok hstep)), hv⟩
  have hlate' : ∀ i, late i →
      q.jvm.shared.now.toInt + cacheTtlMs.toInt ≤ site₁.jvm.shared.now.toInt := by
    intro i hi
    exact Int.le_trans (hlate i hi) (Int64.le_iff_toInt_le.mp (stamped_reaches hreach hstamped).2)
  have hoffers := offers_renewed hclock hrefers hp hpq hrotated (hqu.trans hreach) hlate'
  exact ⟨hdoes.wired hok.1 hwired, hdoes.promised hok.1 hwired hmono hoffers hpromised⟩

theorem wired_reaches {site site' : Site} (h : (machine ttl).Reaches Forward site site')
    (hwired : Wired site) : Wired site' :=
  h.invariant hwired fun _ _ _ hbefore hok hstep => (step_does hstep).wired hok.1 hbefore

/-- After a rotation a TTL of the agent has to pass, and then one of the map: a lookup
    that starts later returns a value from the new version or a newer one, whatever was
    cached on the way. -/
theorem rotation_reaches_lookups {u u' : Site} {v : JStr} {i : Nat} (hclock : 0 ≤ clock)
    (hrefers : RefersTo original key r)
    (hp : (machine ttl).Reaches Forward
      (start now latest (Java.start original socketPath cacheTtlMs clock)) p)
    (hpq : (machine ttl).Reaches Forward p q) (hrotated : Rotated ttl r n key p q)
    (hqu : (machine ttl).Reaches Forward q u)
    (helapsed : q.jvm.shared.now.toInt + cacheTtlMs.toInt ≤ u.jvm.shared.now.toInt)
    (hidle : u.jvm.tasks i = .idle) (huu : (machine ttl).Reaches Forward u u')
    (hdone : u'.jvm.tasks i = .done key (some v)) : Renewed r n u'.vault v := by
  have hwired : Wired q := wired_reaches (hp.trans hpq) (wired_start _ _ _)
  have hstamped : Stamped q := (stamped_reaches (hp.trans hpq) (stamped_start hclock)).1
  have hstart : Promised (Renewed r n) key (fun entry => ¬ entry.timestamp ≤ q.jvm.shared.now)
      (fun _ => False) (fun c => ((q.agent.tasks c).task = .idle)) q := by
    constructor
    · intro entry v hentry _ hvalid
      exact absurd (hstamped.2 key entry hentry).2 hvalid
    · exact fun j v hstoring => absurd hstoring ((hrotated.quiet j).2 _)
    · exact fun _ _ hfalse => hfalse.elim
    · exact fun j c _ hasking => absurd hasking (hrotated.quiet j).1
  obtain ⟨hwired', hmiddle⟩ := promised_renewed hclock hrefers hp hpq hrotated .refl hqu
    (fun _ hfalse => hfalse.elim) ⟨hwired, hstart⟩
  -- Late are the lookups that have not started when both TTLs are over.
  have hlater : Promised (Renewed r n) key (fun entry => ¬ entry.timestamp ≤ q.jvm.shared.now)
      (fun j => u.jvm.tasks j = .idle) (fun c => ((q.agent.tasks c).task = .idle)) u := by
    refine ⟨hmiddle.cached, hmiddle.storing, fun j v hj hdone => ?_, hmiddle.linked⟩
    rw [hj] at hdone
    cases hdone
  exact (promised_renewed hclock hrefers hp hpq hrotated hqu huu (fun _ _ => helapsed)
    ⟨hwired', hlater⟩).2.done i v hidle hdone

end

/-! ## A rotation, and both TTLs -/

theorem Own.forward {i c : Nat} {site : Site} {a : Act} (h : Own i c site a) : Forward site a := by
  refine ⟨h.separate, ?_⟩
  cases a with
  | clock now => exact h.elim
  | _ => exact trivial

/-- A lookup of `A` on its own, while nobody sets the clock back. -/
theorem reaches_asked_forward {ttl expiresAt i c : Nat} {site : Site} {secret : Vault.Secret} {text : Str}
    {v : JStr} (horiginal : site.map.original = referring) (hsocket : site.map.socketPath = [])
    (hrunning : site.agent.shared.running = true) (hidle : site.jvm.tasks i = .idle)
    (hlink : site.link i = none) (hconn : site.agent.tasks c = .fresh .idle)
    (hstale : ∀ entry, site.map.cache [65] = some entry →
      ¬ site.jvm.shared.now - entry.timestamp < site.map.cacheTtlMs)
    (hmiss : Vault.checkCache site.vault.cache site.vault.now Vault.reference = none)
    (hdeadline : Vault.deadline site.vault.now ttl = some expiresAt) (hget : secret.get ['k'] = some text)
    (hreceived : Java.received (.stream (.whole ((respond (.ok (some text))).getD []) .closed)) =
      .returned (some v)) :
    (machine ttl).Reaches Forward site
      (told site i c [65] (some v) { site.agent.shared with backend := site.vault.fetched secret expiresAt }
        (Vault.told text (site.vault.respond Vault.referenceParts secret).serial)) := by
  have hown := @reaches_asked ttl expiresAt i c (Own i c) site secret text v horiginal hsocket hrunning hidle hlink
    hconn hstale hmiss hdeadline hget hreceived Own.of_lookup (fun _ => ⟨rfl, rfl⟩) (fun _ => rfl) ?_ fun _ _ => rfl
  · exact hown.mono fun _ _ h => h.forward
  · intro a ha site
    obtain ⟨step, -, rfl⟩ := List.mem_map.mp ha
    exact rfl

/-- The old value is cached by the agent and by the map when the secret is rotated; then
    both TTLs pass, and another thread looks the variable up. -/
theorem rotation_reaches_lookups_cached :
    ∃ (p u' : Site) (r : VaultRef), (machine 60).Reaches Forward p u' ∧
      Vault.checkCache p.vault.cache p.vault.now Vault.reference = some ['v'] ∧
      p.map.cache [65] = some ⟨some [118], 0⟩ ∧
      u'.jvm.tasks 1 = .done [65] (some [110]) ∧ Renewed r 2 u'.vault [110] := by
  let begin : Site := start 0 (fun _ _ => 1) (Java.start referring [] 30000 0)
  let cached : Site := told begin 0 0 [65] (some [118])
    { begin.agent.shared with backend := begin.vault.fetched (.single ['k'] ['v']) 60 } (Vault.told ['v'] 1)
  let p : Site := { cached with agent := Vault.rotatedFirst 0 }
  let q : Site := { cached with agent := Vault.rotatedFirst 60 }
  let u : Site := { q with jvm := { q.jvm with shared := { q.jvm.shared with now := 30000 } } }
  have hold : Java.received (.stream (.whole ((respond (.ok (some ['v']))).getD []) .closed)) =
      .returned (some [118]) := by decide
  have hnew : Java.received (.stream (.whole ((respond (.ok (some ['n']))).getD []) .closed)) =
      .returned (some [110]) := by decide
  have hcached : (machine 60).Reaches Forward begin cached :=
    @reaches_asked_forward 60 60 0 0 begin (.single ['k'] ['v']) ['v'] [118] rfl rfl rfl rfl rfl rfl
      (fun _ h => by cases h) rfl (by decide) (by decide) hold
  let rotate : Act := .agent (.env (.backend (.rotate ['m'] ['p'])))
  let tick : Act := .agent (.env (.backend (.tick 60)))
  have hp : (machine 60).Reaches Forward begin p := hcached.step (a := rotate) ⟨trivial, trivial⟩ rfl
  have hpq : (machine 60).Reaches Forward p q := .head (a := tick) ⟨trivial, trivial⟩ rfl .refl
  have hforward : (0 : Int64) ≤ 30000 := by decide
  have hqu : (machine 60).Reaches Forward q u := .head (a := Act.clock 30000) ⟨trivial, hforward⟩ rfl .refl
  have hentry : p.map.cache [65] = some ⟨some [118], 0⟩ := rfl
  have hstale : ∀ entry, u.map.cache [65] = some entry →
      ¬ u.jvm.shared.now - entry.timestamp < u.map.cacheTtlMs := by
    intro entry h
    cases hentry.symm.trans h
    decide
  have huu := @reaches_asked_forward 60 120 1 1 u (.single ['k'] ['n']) ['n'] [110] rfl rfl rfl rfl rfl rfl hstale
    rfl (by decide) (by decide) hnew
  have hrotated : Rotated 60 Vault.referenceParts 2 [65] p q := by
    refine ⟨by decide, Vault.noOlder_rotatedFirst 0 2, by decide, fun j => ?_⟩
    have htasks : q.jvm.tasks j = if j = 0 then .done [65] (some [118]) else .idle := Function.update_apply ..
    rw [htasks]
    split <;> simp
  have hrefers : RefersTo referring [65] Vault.referenceParts := by
    refine ⟨rfl, JStr.ofStr Vault.reference, ?_, ?_, ?_, ?_⟩ <;> decide +kernel
  exact ⟨p, _, Vault.referenceParts, (hpq.trans hqu).trans huu, rfl, hentry, told_task,
    rotation_reaches_lookups (by decide) hrefers hp hpq hrotated hqu (by decide) rfl huu told_task⟩

end EnvProxy.Jvm
