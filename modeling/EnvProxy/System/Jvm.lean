-- SUMMARY: A JVM among the clients of the agent: what its lookups return while others are served and secrets rotate.
import EnvProxy.Agent.VaultFreshness
import EnvProxy.Client.Encoders
import EnvProxy.Client.JavaThreads
import EnvProxy.Client.Readers
import EnvProxy.System.Served

/-!
# A JVM at the socket

An agent with the Vault backend, and the threads of one JVM among its clients. A lookup
that the map's own cache does not answer opens a connection and sends its request; what
the agent has written when it closes the connection is the reply. Two caches lie on the
way from a secret to `System.getenv()`, each with a TTL and a clock of its own.
-/

namespace EnvProxy.Jvm

open Machine

structure Site where
  agent : Pool Nat (Server.Shared Vault.Shared) (Server.Conn Vault.Phase)
  jvm : Pool Nat Java.Shared Java.Phase
  /-- The connection a lookup waits on. -/
  link : Nat → Option Nat

inductive Act where
  /-- A handler of the agent, another client, or Vault. -/
  | agent (move : Move Nat (Server.Act Vault.Act) (Server.Event Vault.Event))
  | lookup (i : Nat) (a : Java.Act)
  /-- A lookup opens a connection and writes its request. -/
  | connect (i c : Nat)
  /-- It reads what the agent has written, in some pieces. -/
  | respond (i : Nat) (s : Chunked UInt8)
  /-- It catches an exception. -/
  | exception (i : Nat)
  /-- The wall clock is set. -/
  | clock (now : Int64)

/-- The state of the Vault backend. -/
def Site.vault (site : Site) : Vault.Shared := site.agent.shared.backend

def Site.map (site : Site) : Java.EnvProxyMap := site.jvm.shared.map

def step (ttl : Nat) (site : Site) : Act → Option Site
  | .agent move =>
    ((Server.machine (Vault.service ttl)).step site.agent move).map fun agent => { site with agent }
  | .lookup i a => (Java.machine.step site.jvm (.task i a)).map fun jvm => { site with jvm }
  | .connect i c =>
    match site.jvm.tasks i, site.link i, (site.agent.tasks c).stage with
    | .asking key, none, .connecting =>
      match Java.wanted site.map key with
      | none => none
      | some request =>
        if (site.agent.tasks c).stream.data = [] then
          ((Server.machine (Vault.service ttl)).step site.agent (.task c (.send request.frame))).map
            fun agent => { site with agent, link := Function.update site.link i (some c) }
        else none
    | _, _, _ => none
  | .respond i s =>
    match site.link i with
    | none => none
    | some c =>
      match (site.agent.tasks c).stage with
      | .closed written _ =>
        if s.data = written ∧ s.ending = .closed then
          (Java.machine.step site.jvm (.task i (.hear (.stream s)))).map fun jvm =>
            { site with jvm, link := Function.update site.link i none }
        else none
      | _ => none
  | .exception i =>
    (Java.machine.step site.jvm (.task i (.hear .refused))).map fun jvm =>
      { site with jvm, link := Function.update site.link i none }
  | .clock now => (Java.machine.step site.jvm (.env now)).map fun jvm => { site with jvm }

def machine (ttl : Nat) : Machine Site Act where
  step := step ttl

/-- The agent has been bound to its socket, and the map has been installed. -/
def start (now : Nat) (latest : Str → Str → Nat) (jvm : Pool Nat Java.Shared Java.Phase) : Site where
  agent := Server.bound (Vault.start now latest)
  jvm := jvm
  link := fun _ => none

/-- Nobody else writes to the connection of a lookup, and a lookup hears only what is read
    from it. -/
def Separate (site : Site) : Act → Prop
  | .agent (.task c (.send _)) | .agent (.task c .hangUp) => ∀ i, site.link i ≠ some c
  | .lookup _ (.hear _) => False
  | _ => True

/-- And Vault answers unversioned reads with plain secrets. -/
def Plain (ttl : Nat) (site : Site) (a : Act) : Prop :=
  Separate site a ∧
    match a with
    | .agent move => (Server.guarded (Vault.service ttl) Vault.plainKeys).ok site.agent move
    | _ => True

/-! ## What an act does -/

/-- The acts by what they do. -/
inductive Does (ttl : Nat) (site : Site) : Act → Site → Prop where
  | agent {move agent} : (Server.machine (Vault.service ttl)).step site.agent move = some agent →
      Does ttl site (.agent move) { site with agent }
  | lookup {i a jvm} : Java.machine.step site.jvm (.task i a) = some jvm →
      Does ttl site (.lookup i a) { site with jvm }
  | connected {i c key request agent} : site.jvm.tasks i = .asking key → site.link i = none →
      Java.wanted site.map key = some request → (site.agent.tasks c).stage = .connecting →
      (site.agent.tasks c).stream.data = [] →
      (Server.machine (Vault.service ttl)).step site.agent (.task c (.send request.frame)) = some agent →
      Does ttl site (.connect i c) { site with agent, link := Function.update site.link i (some c) }
  | responded {i c s fault jvm} : site.link i = some c →
      (site.agent.tasks c).stage = .closed s.data fault → s.ending = .closed →
      Java.machine.step site.jvm (.task i (.hear (.stream s))) = some jvm →
      Does ttl site (.respond i s) { site with jvm, link := Function.update site.link i none }
  | failed {i jvm} : Java.machine.step site.jvm (.task i (.hear .refused)) = some jvm →
      Does ttl site (.exception i) { site with jvm, link := Function.update site.link i none }
  | clock {now} :
      Does ttl site (.clock now)
        { site with jvm := { site.jvm with shared := { site.jvm.shared with now } } }

theorem step_does {ttl : Nat} {site site' : Site} {a : Act} (h : step ttl site a = some site') :
    Does ttl site a site' := by
  cases a with
  | agent move =>
    obtain ⟨agent, hstep, rfl⟩ := Option.map_eq_some_iff.mp h
    exact .agent hstep
  | lookup i a =>
    obtain ⟨jvm, hstep, rfl⟩ := Option.map_eq_some_iff.mp h
    exact .lookup hstep
  | connect i c =>
    simp only [step] at h
    split at h
    · next key hasking hlink hstage =>
      split at h
      · cases h
      · next request hwanted =>
        split at h
        · next hempty =>
          obtain ⟨agent, hstep, rfl⟩ := Option.map_eq_some_iff.mp h
          exact .connected hasking hlink hwanted hstage hempty hstep
        · cases h
    · cases h
  | respond i s =>
    simp only [step] at h
    split at h
    · cases h
    · next c hlink =>
      split at h
      · next written fault hstage =>
        split at h
        · next hwritten =>
          obtain ⟨jvm, hstep, rfl⟩ := Option.map_eq_some_iff.mp h
          obtain ⟨rfl, hending⟩ := hwritten
          exact .responded hlink hstage hending hstep
        · cases h
      · cases h
  | exception i =>
    obtain ⟨jvm, hstep, rfl⟩ := Option.map_eq_some_iff.mp h
    exact .failed hstep
  | clock now =>
    cases h
    exact .clock

/-! ## The agent and the JVM on their own -/

/-- An act moves the agent by one move, or not at all. -/
theorem Does.agent_cases {ttl : Nat} {site site' : Site} {a : Act} (h : Does ttl site a site') :
    site'.agent = site.agent ∨
      ∃ move, (Server.machine (Vault.service ttl)).step site.agent move = some site'.agent ∧
        (a = .agent move ∨ ∃ c frame, move = .task c (.send frame)) := by
  cases h with
  | agent hstep => exact .inr ⟨_, hstep, .inl rfl⟩
  | connected _ _ _ _ _ hstep => exact .inr ⟨_, hstep, .inr ⟨_, _, rfl⟩⟩
  | _ => exact .inl rfl

theorem agent_reaches {ttl : Nat} {ok : Site → Act → Prop} {site site' : Site}
    (h : (machine ttl).Reaches ok site site') :
    (Server.machine (Vault.service ttl)).Reaches anyMove site.agent site'.agent := by
  refine h.simulates (f := Site.agent) fun s a s' _ hstep => ?_
  exact (step_does hstep).agent_cases.imp_right fun ⟨move, hmove, _⟩ => ⟨move, trivial, hmove⟩

theorem agent_reaches_plain {ttl : Nat} {site site' : Site}
    (h : (machine ttl).Reaches (Plain ttl) site site') :
    (Server.machine (Vault.service ttl)).Reaches
      (Server.guarded (Vault.service ttl) Vault.plainKeys).ok site.agent site'.agent := by
  refine h.simulates (f := Site.agent) fun s a s' hok hstep => ?_
  refine (step_does hstep).agent_cases.imp_right fun ⟨move, hmove, hcases⟩ => ⟨move, ?_, hmove⟩
  rcases hcases with rfl | ⟨c, frame, rfl⟩
  · exact hok.2
  · exact trivial

/-- The backend behind the agent makes a run of its own. -/
theorem vault_reaches {ttl : Nat} {ok : Site → Act → Prop} {site site' : Site}
    (h : (machine ttl).Reaches ok site site') :
    (Vault.machine ttl).Reaches anyMove (Server.backend site.agent) (Server.backend site'.agent) :=
  Server.backend_reaches_any (agent_reaches h)

theorem jvm_reaches {ttl : Nat} {ok : Site → Act → Prop} {site site' : Site}
    (h : (machine ttl).Reaches ok site site') :
    Java.machine.Reaches anyMove site.jvm site'.jvm := by
  refine h.simulates (f := Site.jvm) fun s a s' _ hstep => ?_
  cases step_does hstep with
  | agent _ => exact .inl rfl
  | lookup hlookup => exact .inr ⟨_, trivial, hlookup⟩
  | connected _ _ _ _ _ _ => exact .inl rfl
  | responded _ _ _ hlookup => exact .inr ⟨_, trivial, hlookup⟩
  | failed hlookup => exact .inr ⟨_, trivial, hlookup⟩
  | @clock now => exact .inr ⟨.env now, trivial, rfl⟩

/-- Of the map only its cache changes. -/
theorem Does.map_keeps {ttl : Nat} {site site' : Site} {a : Act} (h : Does ttl site a site') :
    site'.map.original = site.map.original ∧ site'.map.socketPath = site.map.socketPath ∧
      site'.map.cacheTtlMs = site.map.cacheTtlMs := by
  have hlookup : ∀ {i a jvm}, Java.machine.step site.jvm (.task i a) = some jvm →
      jvm.shared.map.original = site.map.original ∧ jvm.shared.map.socketPath = site.map.socketPath ∧
        jvm.shared.map.cacheTtlMs = site.map.cacheTtlMs :=
    fun hstep => (Java.step_does hstep).1.keeps.2
  cases h with
  | lookup hstep => exact hlookup hstep
  | responded _ _ _ hstep => exact hlookup hstep
  | failed hstep => exact hlookup hstep
  | _ => exact ⟨rfl, rfl, rfl⟩

theorem map_reaches {ttl : Nat} {ok : Site → Act → Prop} {site site' : Site}
    (h : (machine ttl).Reaches ok site site') :
    site'.map.original = site.map.original ∧ site'.map.cacheTtlMs = site.map.cacheTtlMs := by
  induction h with
  | refl => exact ⟨rfl, rfl⟩
  | step _ _ hstep ih =>
    obtain ⟨horiginal, -, httl⟩ := (step_does hstep).map_keeps
    exact ⟨horiginal.trans ih.1, httl.trans ih.2⟩

/-- What Vault has answered is not forgotten. -/
theorem responses_reaches {ttl : Nat} {ok : Site → Act → Prop} {site site' : Site}
    (h : (machine ttl).Reaches ok site site') :
    ∀ resp ∈ site.vault.responses, resp ∈ site'.vault.responses := by
  refine (vault_reaches h).invariant (I := fun p => ∀ resp ∈ site.vault.responses, resp ∈ p.shared.responses)
    (fun _ hresp => hresp) ?_
  intro p move p' hp _ hstep resp hresp
  cases move with
  | task i a =>
    obtain ⟨sh', ph', hdoes, rfl⟩ := Vault.step_act_iff.mp hstep
    exact hdoes.responses resp (hp resp hresp)
  | env e =>
    obtain ⟨sh', henv, rfl⟩ := Tasks.step_env_iff.mp hstep
    rw [(Vault.event_keeps henv).2.2.1]
    exact hp resp hresp

/-! ## Connections of lookups -/

/-- A lookup that has opened a connection waits, and its request is all that was sent. -/
def Wired (site : Site) : Prop :=
  ∀ i c, site.link i = some c → ∃ key request, site.jvm.tasks i = .asking key ∧
    Java.wanted site.map key = some request ∧ (site.agent.tasks c).stream.data = request.frame

theorem frame_ne_nil {self : Java.EnvProxyMap} {key : JStr} {request : Request}
    (h : Java.wanted self key = some request) : request.frame ≠ [] := by
  obtain ⟨frame, hencode, rfl⟩ := Option.map_eq_some_iff.mp h
  simp only [Java.encode] at hencode
  split at hencode
  · cases hencode
  · split at hencode
    · cases hencode
      exact List.cons_ne_nil _ _
    · cases hencode
      exact List.cons_ne_nil _ _

/-- Only a client itself adds to what it has sent. -/
theorem stream_of_step {ttl : Nat} {p p' : Pool Nat (Server.Shared Vault.Shared) (Server.Conn Vault.Phase)}
    {move : Move Nat (Server.Act Vault.Act) (Server.Event Vault.Event)}
    (h : (Server.machine (Vault.service ttl)).step p move = some p') {c : Nat}
    (hsend : ∀ chunk, move ≠ .task c (.send chunk)) :
    (p'.tasks c).stream.data = (p.tasks c).stream.data := by
  cases move with
  | env e =>
    obtain ⟨sh', -, rfl⟩ := Tasks.step_env_iff.mp h
    rfl
  | task j a =>
    obtain ⟨sh', c', hact, rfl⟩ := Tasks.step_task_iff.mp h
    by_cases hj : c = j
    · subst hj
      simp only [Function.update_self]
      rcases Server.act_cases hact with ⟨-, -, chunk, rfl, -⟩ | ⟨-, -, rfl⟩ | ⟨step, s', -, -, hhandles, -⟩
      · exact absurd rfl (hsend chunk)
      · exact Chunked.close_data _
      · cases hhandles <;> rfl
    · simp only [Function.update_of_ne hj]

/-- What a client writes first is all that it has sent. -/
theorem stream_of_send {ttl : Nat} {p p' : Pool Nat (Server.Shared Vault.Shared) (Server.Conn Vault.Phase)}
    {c : Nat} {chunk : Bytes} (hempty : (p.tasks c).stream.data = [])
    (h : (Server.machine (Vault.service ttl)).step p (.task c (.send chunk)) = some p') :
    (p'.tasks c).stream.data = chunk := by
  obtain ⟨sh', c', hact, rfl⟩ := Tasks.step_task_iff.mp h
  have hsent : Server.act (Vault.service ttl) (.send chunk) p.shared (p.tasks c) = some (sh', c') := hact
  simp only [Function.update_self]
  rcases Server.act_cases hsent with ⟨-, -, chunk', hchunk, rfl⟩ | ⟨-, hhangUp, -⟩ | ⟨step, s', hstep, -⟩
  · cases hchunk
    rw [Chunked.push_data, hempty, List.nil_append]
  · cases hhangUp
  · cases hstep

/-- A lookup that waits on a connection neither stops waiting by itself nor is disturbed. -/
theorem waits_of_lookup {site : Site} {i j c : Nat} {a : Java.Act} {jvm : Pool Nat Java.Shared Java.Phase}
    (hwired : Wired site) (hok : Separate site (.lookup i a))
    (hstep : Java.machine.step site.jvm (.task i a) = some jvm) (hlink : site.link j = some c) :
    j ≠ i ∧ jvm.tasks j = site.jvm.tasks j := by
  obtain ⟨hdoes, hothers⟩ := Java.step_does hstep
  suffices hne : j ≠ i from ⟨hne, hothers j hne⟩
  rintro rfl
  obtain ⟨key, request, hasking, hwanted, -⟩ := hwired j c hlink
  rw [hasking] at hdoes
  generalize jvm.tasks j = ph, jvm.shared = sh at hdoes
  cases hdoes with
  | unsent hnone => cases hwanted.symm.trans hnone
  | heard _ _ => exact hok

theorem Does.wired {ttl : Nat} {site site' : Site} {a : Act} (h : Does ttl site a site')
    (hok : Separate site a) (hwired : Wired site) : Wired site' := by
  obtain ⟨horiginal, hsocket, -⟩ := h.map_keeps
  intro j c hlink
  cases h with
  | @agent move agent hstep =>
    obtain ⟨key, request, hasking, hwanted, hdata⟩ := hwired j c hlink
    have hsame : (agent.tasks c).stream.data = (site.agent.tasks c).stream.data := by
      refine stream_of_step hstep fun chunk => ?_
      rintro rfl
      exact hok j hlink
    exact ⟨key, request, hasking, hwanted, hsame.trans hdata⟩
  | @lookup i a jvm hstep =>
    obtain ⟨key, request, hasking, hwanted, hdata⟩ := hwired j c hlink
    obtain ⟨-, htask⟩ := waits_of_lookup hwired hok hstep hlink
    exact ⟨key, request, htask.trans hasking, (Java.wanted_congr horiginal hsocket key).trans hwanted, hdata⟩
  | @connected i c' key request agent hasking _ hwanted _ hempty hstep =>
    simp only [Function.update_apply] at hlink
    split at hlink
    · next hji =>
      subst hji
      cases hlink
      exact ⟨key, request, hasking, hwanted, stream_of_send hempty hstep⟩
    · obtain ⟨key', request', hasking', hwanted', hdata⟩ := hwired j c hlink
      have hne : c ≠ c' := by
        rintro rfl
        exact frame_ne_nil hwanted' (hdata.symm.trans hempty)
      have hsame : (agent.tasks c).stream.data = (site.agent.tasks c).stream.data := by
        refine stream_of_step hstep fun chunk hmove => ?_
        cases hmove
        exact hne rfl
      exact ⟨key', request', hasking', hwanted', hsame.trans hdata⟩
  | @responded i c' s fault jvm _ _ _ hstep =>
    simp only [Function.update_apply] at hlink
    split at hlink
    · cases hlink
    · next hji =>
      obtain ⟨key, request, hasking, hwanted, hdata⟩ := hwired j c hlink
      have htask := (Java.step_does hstep).2 j hji
      exact ⟨key, request, htask.trans hasking, (Java.wanted_congr horiginal hsocket key).trans hwanted, hdata⟩
  | @failed i jvm hstep =>
    simp only [Function.update_apply] at hlink
    split at hlink
    · cases hlink
    · next hji =>
      obtain ⟨key, request, hasking, hwanted, hdata⟩ := hwired j c hlink
      have htask := (Java.step_does hstep).2 j hji
      exact ⟨key, request, htask.trans hasking, (Java.wanted_congr horiginal hsocket key).trans hwanted, hdata⟩
  | clock => exact hwired j c hlink

/-! ## What lookups of a key return -/

section

variable (G : Vault.Shared → JStr → Prop) (key : JStr) (Valid : Java.CacheEntry → Prop)
  (late fresh : Nat → Prop)

/-- Wherever a value of the key may come from, it satisfies `G`: a valid entry, a lookup
    that has heard it, the answer of a late lookup; and lookups wait on fresh connections. -/
structure Promised (site : Site) : Prop where
  cached : ∀ entry v, site.map.cache key = some entry → entry.value = some v → Valid entry →
    G site.vault v
  storing : ∀ i v, site.jvm.tasks i = .storing key (some v) → G site.vault v
  done : ∀ i v, late i → site.jvm.tasks i = .done key (some v) → G site.vault v
  linked : ∀ i c, site.link i = some c → site.jvm.tasks i = .asking key → fresh c

/-- What a state has to offer for this to be kept: fresh connections carry replies that
    satisfy `G`, new ones are fresh, and late lookups find no entry young that is not valid. -/
structure Offers (site : Site) : Prop where
  unanswered : Java.Unanswered site.map key
  connecting : ∀ c, (site.agent.tasks c).stage = .connecting → fresh c
  young : ∀ i entry, late i → site.map.cache key = some entry →
    site.jvm.shared.now - entry.timestamp < site.map.cacheTtlMs → Valid entry
  reply : ∀ c request s fault v, fresh c → (site.agent.tasks c).stage = .closed s.data fault →
    Java.wanted site.map key = some request → (site.agent.tasks c).stream.data = request.frame →
    Java.received (.stream s) = .returned (some v) → G site.vault v

end

variable {G : Vault.Shared → JStr → Prop} {key : JStr} {Valid : Java.CacheEntry → Prop}
  {late fresh : Nat → Prop}

/-- An act of a lookup keeps it, if what the lookup hears satisfies `G`. -/
theorem Promised.lookup {site : Site} {i : Nat} {a : Java.Act} {jvm : Pool Nat Java.Shared Java.Phase}
    {link : Nat → Option Nat} (h : Promised G key Valid late fresh site)
    (hoffers : Offers G key Valid late fresh site)
    (hstep : Java.machine.step site.jvm (.task i a) = some jvm)
    (hhear : ∀ reply v, a = .hear reply → site.jvm.tasks i = .asking key →
      Java.received reply = .returned (some v) → G site.vault v)
    (hlink : ∀ j c, link j = some c → j ≠ i ∧ site.link j = some c) :
    Promised G key Valid late fresh { site with jvm, link } := by
  obtain ⟨hdoes, hothers⟩ := Java.step_does hstep
  constructor
  · intro entry v hentry hvalue hvalid
    rcases hdoes.cache_cases key with hsame | ⟨resolved, hstoring, hstored⟩
    · exact h.cached entry v (hsame.symm.trans hentry) hvalue hvalid
    · cases hstored.symm.trans hentry
      obtain rfl : resolved = some v := hvalue
      exact h.storing i v hstoring
  · intro j v hstoring
    by_cases hji : j = i
    · subst hji
      obtain ⟨reply, ha, hasking, hreceived⟩ := hdoes.storing_cases hstoring
      exact hhear reply v ha hasking hreceived
    · exact h.storing j v ((hothers j hji).symm.trans hstoring)
  · intro j v hlate hdone
    by_cases hji : j = i
    · subst hji
      rcases hdoes.done_cases hdone with hreal | ⟨entry, hentry, hyoung, hvalue⟩ | hstoring
      · exact absurd hoffers.unanswered hreal
      · exact h.cached entry v hentry hvalue (hoffers.young j entry hlate hentry hyoung)
      · exact h.storing j v hstoring
    · exact h.done j v hlate ((hothers j hji).symm.trans hdone)
  · intro j c hlink' hasking
    obtain ⟨hji, hbefore⟩ := hlink j c hlink'
    exact h.linked j c hbefore ((hothers j hji).symm.trans hasking)

theorem Does.promised {ttl : Nat} {site site' : Site} {a : Act} (h : Does ttl site a site')
    (hok : Separate site a) (hwired : Wired site) (hmono : ∀ v, G site.vault v → G site'.vault v)
    (hoffers : Offers G key Valid late fresh site) (hp : Promised G key Valid late fresh site) :
    Promised G key Valid late fresh site' := by
  have hunlinked : ∀ i j c, Function.update site.link i none j = some c → j ≠ i ∧ site.link j = some c := by
    intro i j c hlink
    simp only [Function.update_apply] at hlink
    split at hlink
    · cases hlink
    · next hji => exact ⟨hji, hlink⟩
  cases h with
  | agent hstep =>
    exact ⟨fun entry v hentry hvalue hvalid => hmono v (hp.cached entry v hentry hvalue hvalid),
      fun i v hstoring => hmono v (hp.storing i v hstoring),
      fun i v hlate hdone => hmono v (hp.done i v hlate hdone), hp.linked⟩
  | @lookup i a jvm hstep =>
    refine hp.lookup hoffers hstep (fun reply v ha _ _ => ?_) fun j c hlink =>
      ⟨(waits_of_lookup hwired hok hstep hlink).1, hlink⟩
    subst ha
    exact hok.elim
  | @connected i c other request agent hasking _ hwanted hconnecting _ hstep =>
    refine ⟨fun entry v hentry hvalue hvalid => hmono v (hp.cached entry v hentry hvalue hvalid),
      fun i v hstoring => hmono v (hp.storing i v hstoring),
      fun i v hlate hdone => hmono v (hp.done i v hlate hdone), fun j c' hlink hasking' => ?_⟩
    simp only [Function.update_apply] at hlink
    split at hlink
    · cases hlink
      exact hoffers.connecting c hconnecting
    · exact hp.linked j c' hlink hasking'
  | @responded i c s fault jvm hlink hclosed _ hstep =>
    refine hp.lookup hoffers hstep (fun reply v ha hasking hreceived => ?_) (hunlinked i)
    cases ha
    obtain ⟨other, request, hasking', hwanted, hdata⟩ := hwired i c hlink
    cases hasking.symm.trans hasking'
    exact hoffers.reply c request s fault v (hp.linked i c hlink hasking) hclosed hwanted hdata hreceived
  | @failed i jvm hstep =>
    refine hp.lookup hoffers hstep (fun reply v ha _ hreceived => ?_) (hunlinked i)
    cases ha
    cases hreceived
  | clock => exact ⟨hp.cached, hp.storing, hp.done, hp.linked⟩

/-! ## What a reply carries -/

theorem found_of_received {s : Chunked UInt8} {v : JStr}
    (h : Java.received (.stream s) = .returned (some v)) :
    ∃ b, (Reply.stream s).found = some b ∧ v = .decode b := by
  simp only [Java.received] at h
  split at h
  · cases h
  · cases h
  · next status valueBytes hframe =>
    split at h
    · next hstatus =>
      subst hstatus
      cases h
      exact ⟨valueBytes, Reply.found_stream_eq_some_iff.mpr hframe, rfl⟩
    · cases h

/-- The request of a lookup as the agent reads it. The length of the reference is cast to
    16 bits, and only as much of it is read. -/
theorem requests_of_encode {key : JStr} {value : Option JStr} {frame : Bytes}
    (h : Java.encode key value = some frame) :
    Requests frame (.request key.getBytes ((value.filter (JStr.startsWith · vaultPrefix)).map fun ref =>
      ref.getBytes.take (ref.getBytes.length % 65536))) := by
  simp only [Java.encode] at h
  split at h
  · cases h
  · next hshort =>
    have hkey : key.getBytes.length ≤ maxKeyLen := Nat.le_of_not_lt hshort
    split at h
    · next ref hfilter =>
      let n := ref.getBytes.length % 65536
      have hlength : (ref.getBytes.take n).length = n := by
        rw [List.length_take]
        exact Nat.min_eq_left (Nat.mod_le _ _)
      have hshort : (ref.getBytes.take n).length ≤ maxValueLen := by
        rw [hlength]
        exact Nat.le_of_lt_succ (Nat.mod_lt _ (by decide))
      have hsent := encodeRequestV2_eq key.getBytes (ref.getBytes.take n)
      rw [if_pos ⟨hkey, hshort⟩, hlength] at hsent
      have hframe : frame = (protocolV2 :: (toBeBytes key.getBytes.length ++ key.getBytes ++
          (toBeBytes n ++ ref.getBytes.take n))) ++ ref.getBytes.drop n := by
        rw [← Option.some.inj h, toBeBytes_mod ref.getBytes.length]
        simp [n, List.take_append_drop]
      rw [hfilter, hframe]
      exact .v2 hsent
    · next hfilter =>
      have hframe : encodeRequest key.getBytes = some frame := by
        rw [encodeRequest_eq, if_pos hkey, ← h]
        simp
      rw [hfilter, ← List.append_nil frame]
      exact .v1 hframe

/-- A value a lookup hears is the result of the call on its own reference. -/
theorem reply_of_wired {ttl now : Nat} {latest : Str → Str → Nat} {jvm : Pool Nat Java.Shared Java.Phase}
    {ok : Site → Act → Prop} {site : Site} (h : (machine ttl).Reaches ok (start now latest jvm) site)
    {c : Nat} {key v : JStr} {request : Request} {s : Chunked UInt8} {fault : Option Server.Fault}
    (hclosed : (site.agent.tasks c).stage = .closed s.data fault)
    (hwanted : Java.wanted site.map key = some request)
    (hdata : (site.agent.tasks c).stream.data = request.frame)
    (hreceived : Java.received (.stream s) = .returned (some v))
    (hfits : ∀ ref, Java.jvmGet site.map.original key = some ref → ref.getBytes.length ≤ maxValueLen) :
    ∃ ref text serial, Java.jvmGet site.map.original key = some ref ∧
      (site.agent.tasks c).task = .done (Utf8.lossy ref.getBytes) (.ok (some text)) serial ∧
      v = .decode (Utf8.encode text) := by
  have hhonest := Server.honest_reaches (Server.reaches_guarded (agent_reaches h)) c
  obtain ⟨b, hfound, rfl⟩ := found_of_received hreceived
  obtain ⟨key', value', text, hrequests, hreturns, rfl⟩ := hhonest.found hclosed List.prefix_rfl hfound
  obtain ⟨frame, hencode, rfl⟩ := Option.map_eq_some_iff.mp hwanted
  rw [hdata] at hrequests
  have hsame := Server.requests_unique (s := .whole frame .closed) (by simpa using hrequests)
    (by simpa using requests_of_encode hencode)
  cases hsame
  obtain ⟨bytes, serial, hbytes, hdone⟩ := Vault.done_of_returns hreturns
  obtain ⟨ref, hfilter, rfl⟩ := Option.map_eq_some_iff.mp hbytes
  have href := (Option.filter_eq_some_iff.mp hfilter).1
  have hlt : ref.getBytes.length < 65536 := Nat.lt_succ_of_le (hfits ref href)
  have hwhole : ref.getBytes.take (ref.getBytes.length % 65536) = ref.getBytes := by
    rw [Nat.mod_eq_of_lt hlt]
    exact List.take_length
  rw [hwhole] at hdone
  exact ⟨ref, text, serial, href, hdone, rfl⟩

end EnvProxy.Jvm
