-- SUMMARY: What a lookup of the JVM returns: what its own function says, and only values of its own reference.
import EnvProxy.System.Jvm

/-!
# Answers of the JVM

A lookup needs nobody but the handler of its own connection to finish, and then does what
`get` does. In whatever order lookups, clients and Vault move, no lookup is given the
value of another's reference.
-/

namespace EnvProxy.Jvm

open Machine

/-! ## A lookup on its own -/

/-- The moves of one lookup and of the handler of one connection. -/
def Own (i c : Nat) (_ : Site) : Act → Prop
  | .lookup j a => j = i ∧ ∀ reply, a ≠ .hear reply
  | .connect j c' => j = i ∧ c' = c
  | .respond j _ => j = i
  | .agent (.task c' (.handle _)) => c' = c
  | _ => False

theorem Own.separate {i c : Nat} {site : Site} {a : Act} (h : Own i c site a) : Separate site a := by
  unfold Own at h
  split at h
  · next j a =>
    cases a with
    | hear reply => exact h.2 reply rfl
    | _ => exact trivial
  · exact trivial
  · exact trivial
  · exact trivial
  · exact h.elim

section

variable {ttl : Nat} {ok : Site → Act → Prop}

/-- A run of the agent, with the rest of the site around it. -/
theorem reaches_of_agent {site : Site} {agent : Pool Nat (Server.Shared Vault.Shared) (Server.Conn Vault.Phase)}
    {ok' : Pool Nat (Server.Shared Vault.Shared) (Server.Conn Vault.Phase) →
      Move Nat (Server.Act Vault.Act) (Server.Event Vault.Event) → Prop}
    (h : (Server.machine (Vault.service ttl)).Reaches ok' site.agent agent)
    (hok : ∀ p move, ok' p move → ok { site with agent := p } (.agent move)) :
    (machine ttl).Reaches ok site { site with agent } := by
  induction h with
  | refl => exact .refl
  | @step p₁ p₂ move _ hmeets hstep ih =>
    have hnext : (machine ttl).step { site with agent := p₁ } (.agent move) = some { site with agent := p₂ } := by
      simp only [machine, step, hstep, Option.map_some]
    exact .step ih (hok p₁ move hmeets) hnext

/-- The acts of a lookup, with the rest of the site around it. -/
theorem reaches_of_alone {site : Site} {i : Nat} {as : List Java.Act} {sh : Java.Shared} {ph : Java.Phase}
    (h : Java.threads.Alone as site.jvm.shared (site.jvm.tasks i) sh ph)
    (hsilent : ∀ a ∈ as, ∀ reply, a ≠ .hear reply)
    (hok : ∀ site a, (∀ reply, a ≠ .hear reply) → ok site (.lookup i a)) :
    (machine ttl).Reaches ok site
      { site with jvm := { shared := sh, tasks := Function.update site.jvm.tasks i ph } } := by
  have hrun : Java.machine.Reaches (fun _ move => ∃ a, move = .task i a ∧ ∀ reply, a ≠ .hear reply)
      site.jvm { shared := sh, tasks := Function.update site.jvm.tasks i ph } :=
    h.reaches rfl fun a ha _ => ⟨a, rfl, hsilent a ha⟩
  generalize ({ shared := sh, tasks := Function.update site.jvm.tasks i ph } : Pool Nat Java.Shared Java.Phase) =
    jvm at hrun
  induction hrun with
  | refl => exact .refl
  | @step p₁ p₂ move _ hmeets hstep ih =>
    obtain ⟨a, rfl, ha⟩ := hmeets
    have hstep' : Java.machine.step p₁ (.task i a) = some p₂ := hstep
    have hnext : (machine ttl).step { site with jvm := p₁ } (.lookup i a) = some { site with jvm := p₂ } := by
      simp only [machine, step, hstep', Option.map_some]
    exact .step ih (hok _ a ha) hnext

/-- A lookup stores what it has heard, and is over. -/
theorem reaches_stored {site : Site} {i : Nat} {key : JStr} {resolved : Option JStr}
    (hstoring : site.jvm.tasks i = .storing key resolved)
    (hok : ∀ site a, (∀ reply, a ≠ .hear reply) → ok site (.lookup i a)) :
    (machine ttl).Reaches ok site
      { site with
        jvm :=
          { shared := { site.jvm.shared with map := site.map.store key ⟨resolved, site.jvm.shared.now⟩ }
            tasks := Function.update site.jvm.tasks i (.done key resolved) } } := by
  have hstore : Java.threads.Alone [.store] site.jvm.shared (site.jvm.tasks i)
      { site.jvm.shared with map := site.map.store key ⟨resolved, site.jvm.shared.now⟩ }
      (.done key resolved) := by
    rw [hstoring]
    exact Java.Does.stored.alone .nil
  exact reaches_of_alone hstore (by simp) hok

end

theorem Own.of_handler {i c : Nat} (site : Site)
    (p : Pool Nat (Server.Shared Vault.Shared) (Server.Conn Vault.Phase))
    (move : Move Nat (Server.Act Vault.Act) (Server.Event Vault.Event)) (h : Server.onlyHandler c p move) :
    Own i c { site with agent := p } (.agent move) := by
  unfold Server.onlyHandler at h
  split at h
  · exact h
  · exact h.elim

theorem Own.of_lookup {i c : Nat} (site : Site) (a : Java.Act) (h : ∀ reply, a ≠ .hear reply) :
    Own i c site (.lookup i a) := ⟨rfl, h⟩

/-- What the handler makes of a request, when Vault answers as `read`. -/
def agentReply (ttl : Nat) (read : Vault.Reader) (sh : Vault.Shared) (frame : Bytes) : Reply :=
  .stream (.whole (Server.sentTo ((handleConnection (Vault.backend ttl read sh.now)
    (.whole frame .silent)).perform sh.cache).1) .closed)

theorem received_agentReply (ttl : Nat) (read : Vault.Reader) (sh : Vault.Shared) (frame : Bytes) :
    ∃ resolved, Java.received (agentReply ttl read sh frame) = .returned resolved := by
  simp only [agentReply, Java.received]
  split
  · exact ⟨_, rfl⟩
  · next hsilent => cases readFrame_error hsilent
  · exact ⟨_, rfl⟩

/-- A lookup that asks opens a connection, and the agent accepts it. -/
theorem reaches_accepted (ttl : Nat) {ok : Site → Act → Prop} {site : Site} {i c : Nat} {key : JStr}
    {request : Request} (hrunning : site.agent.shared.running = true)
    (hasking : site.jvm.tasks i = .asking key) (hlink : site.link i = none)
    (hconn : site.agent.tasks c = .fresh .idle) (hwanted : Java.wanted site.map key = some request)
    (hconnects : ok site (.connect i c)) (haccepts : ∀ site, ok site (.agent (.task c (.handle .accept)))) :
    (machine ttl).Reaches ok site
      { site with
        agent := { site.agent with tasks := Function.update site.agent.tasks c (Vault.accepted request.frame) }
        link := Function.update site.link i (some c) } := by
  let asked : Server.Conn Vault.Phase :=
    { stream := (Chunked.whole [] .silent).push request.frame, task := .idle, stage := .connecting }
  let agent₁ : Pool Nat (Server.Shared Vault.Shared) (Server.Conn Vault.Phase) :=
    { site.agent with tasks := Function.update site.agent.tasks c asked }
  let agent₂ : Pool Nat (Server.Shared Vault.Shared) (Server.Conn Vault.Phase) :=
    { site.agent with tasks := Function.update site.agent.tasks c (Vault.accepted request.frame) }
  let site₁ : Site := { site with agent := agent₁, link := Function.update site.link i (some c) }
  have hconnect : (machine ttl).step site (.connect i c) = some site₁ := by
    have hsend : (Server.machine (Vault.service ttl)).step site.agent (.task c (.send request.frame)) =
        some agent₁ := by
      refine Tasks.step_task_iff.mpr ⟨site.agent.shared, asked, ?_, rfl⟩
      rw [hconn]
      rfl
    have hstage : (site.agent.tasks c).stage = .connecting := by rw [hconn]; rfl
    have hempty : (site.agent.tasks c).stream.data = [] := by rw [hconn]; rfl
    simp only [machine, step, hasking, hlink, hstage, hwanted, hempty, if_true, hsend, Option.map_some,
      site₁]
  have haccept : (Server.machine (Vault.service ttl)).step agent₁ (.task c (.handle .accept)) = some agent₂ := by
    have htask : agent₁.tasks c = asked := Function.update_self ..
    have haccepted : { asked with stage := .reading } = Vault.accepted request.frame := by
      simp only [asked, Vault.accepted, Chunked.push_whole_nil]
    have hhandles : Server.Handles (Vault.service ttl) site.agent.shared.backend asked .accept
        site.agent.shared.backend { asked with stage := .reading } := .accepted rfl
    have hact := hhandles.act hrunning
    rw [haccepted] at hact
    rw [← htask] at hact
    refine Tasks.step_task_iff.mpr ⟨site.agent.shared, Vault.accepted request.frame, hact, ?_⟩
    simp only [agent₁, agent₂, Function.update_idem]
  have hhandled : (machine ttl).Reaches ok site₁ { site₁ with agent := agent₂ } := by
    have hrun : (Server.machine (Vault.service ttl)).Reaches
        (fun _ move => move = .task c (.handle .accept)) agent₁ agent₂ := .head rfl haccept .refl
    refine reaches_of_agent hrun ?_
    rintro p move rfl
    exact haccepts _
  exact .head hconnects hconnect hhandled

/-- A lookup reads what was written to its connection. -/
theorem step_respond (ttl : Nat) {site : Site} {i c : Nat} {key : JStr} {request : Request}
    {resolved : Option JStr} {written : Bytes} {fault : Option Server.Fault}
    (hasking : site.jvm.tasks i = .asking key) (hlink : site.link i = some c)
    (hclosed : (site.agent.tasks c).stage = .closed written fault)
    (hwanted : Java.wanted site.map key = some request)
    (hreceived : Java.received (.stream (.whole written .closed)) = .returned resolved) :
    (machine ttl).step site (.respond i (.whole written .closed)) =
      some { site with
        jvm := { site.jvm with tasks := Function.update site.jvm.tasks i (.storing key resolved) }
        link := Function.update site.link i none } := by
  have hhear : Java.machine.step site.jvm (.task i (.hear (.stream (.whole written .closed)))) =
      some { site.jvm with tasks := Function.update site.jvm.tasks i (.storing key resolved) } := by
    have hdoes : Java.Does site.jvm.shared (.hear (.stream (.whole written .closed))) (site.jvm.tasks i)
        site.jvm.shared (.storing key resolved) := by
      rw [hasking]
      exact .heard hwanted hreceived
    exact Tasks.step_task_iff.mpr ⟨_, _, hdoes.act, rfl⟩
  have hending : (Chunked.whole written .closed).ending = .closed := rfl
  simp only [machine, step, hlink, hclosed, hending, Chunked.whole_data, and_self, if_true, hhear,
    Option.map_some]

/-- After a lookup was told a result, and has stored it. -/
def told (site : Site) (i c : Nat) (key : JStr) (resolved : Option JStr) (sh : Server.Shared Vault.Shared)
    (conn : Server.Conn Vault.Phase) : Site where
  agent := { shared := sh, tasks := Function.update site.agent.tasks c conn }
  jvm :=
    { shared := { site.jvm.shared with map := site.map.store key ⟨resolved, site.jvm.shared.now⟩ }
      tasks := Function.update site.jvm.tasks i (.done key resolved) }
  link := site.link

theorem told_task {site : Site} {i c : Nat} {key : JStr} {resolved : Option JStr}
    {sh : Server.Shared Vault.Shared} {conn : Server.Conn Vault.Phase} :
    (told site i c key resolved sh conn).jvm.tasks i = .done key resolved :=
  Function.update_self ..

/-- A lookup that asks, its connection handled in these steps, and what it is told. -/
theorem reaches_told (ttl : Nat) {ok : Site → Act → Prop} {site : Site} {i c : Nat} {key : JStr}
    {request : Request} {steps : List (Server.Act Vault.Act)} {sh : Server.Shared Vault.Shared}
    {conn : Server.Conn Vault.Phase} {written : Bytes} {fault : Option Server.Fault} {resolved : Option JStr}
    (hrunning : site.agent.shared.running = true) (hidle : site.jvm.tasks i = .idle)
    (hlink : site.link i = none) (hconn : site.agent.tasks c = .fresh .idle)
    (hwanted : Java.wanted site.map key = some request)
    (hasks : Java.threads.Alone [.get key, .check] site.jvm.shared .idle site.jvm.shared (.asking key))
    (hhandled : (Server.tasks (Vault.service ttl)).Alone steps site.agent.shared (Vault.accepted request.frame) sh conn)
    (hclosed : conn.stage = .closed written fault)
    (hreceived : Java.received (.stream (.whole written .closed)) = .returned resolved)
    (hlookup : ∀ site a, (∀ reply, a ≠ .hear reply) → ok site (.lookup i a))
    (hconnects : ∀ site, ok site (.connect i c))
    (haccepts : ∀ site, ok site (.agent (.task c (.handle .accept))))
    (hsteps : ∀ a ∈ steps, ∀ site, ok site (.agent (.task c a)))
    (hresponds : ∀ site s, ok site (.respond i s)) :
    (machine ttl).Reaches ok site (told site i c key resolved sh conn) := by
  rw [← hidle] at hasks
  let asking : Site :=
    { site with jvm := { site.jvm with tasks := Function.update site.jvm.tasks i (.asking key) } }
  have hasking : asking.jvm.tasks i = .asking key := Function.update_self ..
  have hrun₁ : (machine ttl).Reaches ok site asking := reaches_of_alone hasks (by simp) hlookup
  let agent : Pool Nat (Server.Shared Vault.Shared) (Server.Conn Vault.Phase) :=
    { site.agent with tasks := Function.update site.agent.tasks c (Vault.accepted request.frame) }
  let waiting : Site := { asking with agent, link := Function.update site.link i (some c) }
  have hrun₂ : (machine ttl).Reaches ok asking waiting :=
    reaches_accepted ttl hrunning hasking hlink hconn hwanted (hconnects _) haccepts
  let agent' : Pool Nat (Server.Shared Vault.Shared) (Server.Conn Vault.Phase) :=
    { shared := sh, tasks := Function.update site.agent.tasks c conn }
  have hagent : (Server.machine (Vault.service ttl)).Reaches (fun _ move => ∃ a ∈ steps, move = .task c a)
      agent agent' := by
    have hrun : (Server.machine (Vault.service ttl)).Reaches (fun _ move => ∃ a ∈ steps, move = .task c a)
        agent { shared := sh, tasks := Function.update agent.tasks c conn } :=
      hhandled.reaches (i := c) (p := agent) (Function.update_self ..) fun a ha _ => ⟨a, ha, rfl⟩
    simp only [agent, Function.update_idem] at hrun
    exact hrun
  have hrun₃ : (machine ttl).Reaches ok waiting { waiting with agent := agent' } := by
    refine reaches_of_agent hagent ?_
    rintro p move ⟨a, ha, rfl⟩
    exact hsteps a ha _
  have hlink' : waiting.link i = some c := Function.update_self ..
  have hclosed' : (agent'.tasks c).stage = .closed written fault := by
    have hself : agent'.tasks c = conn := Function.update_self ..
    rw [hself]
    exact hclosed
  let heard : Site :=
    { agent := agent'
      jvm := { site.jvm with tasks := Function.update asking.jvm.tasks i (.storing key resolved) }
      link := Function.update waiting.link i none }
  have hrespond : (machine ttl).step { waiting with agent := agent' } (.respond i (.whole written .closed)) =
      some heard :=
    @step_respond ttl { waiting with agent := agent' } i c key request resolved written fault hasking hlink'
      hclosed' hwanted hreceived
  have hstoring : heard.jvm.tasks i = .storing key resolved := Function.update_self ..
  have hrun₄ : (machine ttl).Reaches ok site heard :=
    ((hrun₁.trans hrun₂).trans hrun₃).step (hresponds _ _) hrespond
  have hstored := hrun₄.trans (reaches_stored hstoring hlookup)
  have hunlinked : Function.update site.link i none = site.link := by
    rw [← hlink]
    exact Function.update_eq_self i site.link
  simpa only [heard, waiting, asking, told, Site.map, Function.update_idem, hunlinked] using hstored

/-- A lookup that asks hears what the handler makes of its request, while everybody else
    rests. -/
theorem reaches_heard (ttl : Nat) (read : Vault.Reader) {site : Site} {i c : Nat} {key : JStr}
    {request : Request} {resolved : Option JStr} (hrunning : site.agent.shared.running = true)
    (hasking : site.jvm.tasks i = .asking key) (hlink : site.link i = none)
    (hconn : site.agent.tasks c = .fresh .idle) (hwanted : Java.wanted site.map key = some request)
    (hreceived : Java.received (agentReply ttl read site.vault request.frame) = .returned resolved) :
    ∃ agent link, (machine ttl).Reaches (Own i c) site
      { agent, link,
        jvm := { site.jvm with tasks := Function.update site.jvm.tasks i (.storing key resolved) } } := by
  let agent : Pool Nat (Server.Shared Vault.Shared) (Server.Conn Vault.Phase) :=
    { site.agent with tasks := Function.update site.agent.tasks c (Vault.accepted request.frame) }
  have htask : agent.tasks c = Vault.accepted request.frame := Function.update_self ..
  have hperforms := Vault.performs ttl read agent.shared.backend
  have hidle : (agent.tasks c).task = .idle := by rw [htask]; rfl
  have hreading : (agent.tasks c).stage = .reading := by rw [htask]; rfl
  have hstream : (agent.tasks c).stream = .whole request.frame .silent := by rw [htask]; rfl
  have hwaits : readRequest (agent.tasks c).stream ≠ .error .silent := by
    obtain ⟨frame, hencode, rfl⟩ := Option.map_eq_some_iff.mp hwanted
    rw [hstream, readRequest_iff.mpr (by simpa using requests_of_encode hencode)]
    intro h
    cases h
  have hrunning' : agent.shared.running = true := hrunning
  rw [← hidle] at hperforms
  obtain ⟨agent', hhandled, -, hends, -⟩ := Server.reaches_handled hrunning' hreading hperforms hwaits
  rw [hstream] at hends
  obtain ⟨fault, hclosed⟩ := Server.ending_eq_closed ((handleConnection
    (Vault.backend ttl read site.vault.now) (.whole request.frame .silent)).perform site.vault.cache).1
  let waiting : Site := { site with agent, link := Function.update site.link i (some c) }
  have haccepted : (machine ttl).Reaches (Own i c) site waiting :=
    reaches_accepted ttl hrunning hasking hlink hconn hwanted ⟨rfl, rfl⟩ fun _ => rfl
  have hanswered : (machine ttl).Reaches (Own i c) waiting { waiting with agent := agent' } :=
    reaches_of_agent hhandled (Own.of_handler waiting)
  have hlink' : waiting.link i = some c := Function.update_self ..
  have hrespond := @step_respond ttl { waiting with agent := agent' } i c key request resolved _ fault hasking
    hlink' (hends.trans hclosed) hwanted hreceived
  have hown : Own i c { waiting with agent := agent' } (.respond i (.whole (Server.sentTo ((handleConnection
      (Vault.backend ttl read site.vault.now) (.whole request.frame .silent)).perform site.vault.cache).1)
        .closed)) := rfl
  exact ⟨_, _, (haccepted.trans hanswered).step hown hrespond⟩

/-- Wherever the other threads of the JVM and the other clients stand, a lookup with a
    connection of its own returns what `get` returns with the reply `handleConnection`
    gives to its request, and leaves the same cache. -/
theorem lookup_finishes (ttl : Nat) (read : Vault.Reader) (site : Site) (i c : Nat) (key : JStr)
    (hrunning : site.agent.shared.running = true) (hidle : site.jvm.tasks i = .idle)
    (hlink : site.link i = none) (hconn : site.agent.tasks c = .fresh .idle) :
    let reply := match Java.wanted site.map key with
      | none => .refused
      | some request => agentReply ttl read site.vault request.frame
    let looked := (Recorded.exec
      (Java.get (Oracle.always reply site.jvm.shared.now).world site.map key) .start).1
    ∃ site' result, (machine ttl).Reaches (Own i c) site site' ∧ looked = (.returned result, site'.map) ∧
      site'.jvm.tasks i = .done key result := by
  intro reply looked
  rcases Java.alone_cases site.jvm.shared key with ⟨as, result, hown, halone, hget⟩ | ⟨halone, hget⟩
  · rw [← hidle] at halone
    exact ⟨_, result, reaches_of_alone halone hown Own.of_lookup, hget reply, Function.update_self ..⟩
  · rw [← hidle] at halone
    let asking : Site :=
      { site with jvm := { site.jvm with tasks := Function.update site.jvm.tasks i (.asking key) } }
    have hasks : (machine ttl).Reaches (Own i c) site asking :=
      reaches_of_alone halone (by simp) Own.of_lookup
    have hasking : asking.jvm.tasks i = .asking key := Function.update_self ..
    cases hwanted : Java.wanted site.map key with
    | none =>
      have hlooked : looked = (.returned none, site.map.store key ⟨none, site.jvm.shared.now⟩) := by
        have hheard := hget reply
        rw [show Java.wanted site.jvm.shared.map key = none from hwanted] at hheard
        exact hheard
      have hacts : Java.threads.Alone [.unsent, .store] asking.jvm.shared (asking.jvm.tasks i)
          { site.jvm.shared with map := site.map.store key ⟨none, site.jvm.shared.now⟩ } (.done key none) := by
        rw [hasking]
        exact (Java.Does.unsent hwanted).alone (Java.Does.stored.alone .nil)
      exact ⟨_, none, hasks.trans (reaches_of_alone hacts (by simp) Own.of_lookup), hlooked, Function.update_self ..⟩
    | some request =>
      obtain ⟨resolved, hreceived⟩ := received_agentReply ttl read site.vault request.frame
      have hreply : reply = agentReply ttl read site.vault request.frame := by
        simp only [reply, hwanted]
      have hlooked : looked = (.returned resolved, site.map.store key ⟨resolved, site.jvm.shared.now⟩) := by
        have hheard := hget reply
        rw [show Java.wanted site.jvm.shared.map key = some request from hwanted] at hheard
        have hsaid : Java.heard (.always reply site.jvm.shared.now) [] (some request) = .returned resolved := by
          rw [hreply]
          exact hreceived
        rw [hsaid] at hheard
        exact hheard
      obtain ⟨agent, link, hheard⟩ :=
        @reaches_heard ttl read asking i c key request resolved hrunning hasking hlink hconn hwanted hreceived
      let storing : Site :=
        { agent, link,
          jvm := { site.jvm with tasks := Function.update asking.jvm.tasks i (.storing key resolved) } }
      have hstoring : storing.jvm.tasks i = .storing key resolved := Function.update_self ..
      have hstored := @reaches_stored ttl (Own i c) storing i key resolved hstoring Own.of_lookup
      exact ⟨_, resolved, (hasks.trans hheard).trans hstored, hlooked, Function.update_self ..⟩

/-- Lookup 0 has yet to start; all others wait, and their requests have not arrived. -/
def crowded (original : Environ) : Site where
  agent :=
    { shared := (Server.bound (Vault.start 0 fun _ _ => 1)).shared
      tasks := fun c => if c = 0 then .fresh .idle else
        { stream := .whole [1] .silent, task := .idle, stage := .reading } }
  jvm :=
    { shared := (Java.start original [] 30000 0).shared
      tasks := fun i => if i = 0 then .idle else .asking [65] }
  link := fun i => if i = 0 then none else some i

theorem lookup_finishes_crowded :
    ∃ site result, (machine 60).Reaches (Own 0 0) (crowded []) site ∧
      site.jvm.tasks 0 = .done [65] result := by
  obtain ⟨site, result, hrun, -, hdone⟩ :=
    lookup_finishes 60 (fun _ _ _ => .error "denied".toList) (crowded []) 0 0 [65] rfl rfl rfl rfl
  exact ⟨site, result, hrun, hdone⟩

/-! ## Every answer is for its own reference -/

theorem wired_start (now : Nat) (latest : Str → Str → Nat) (jvm : Pool Nat Java.Shared Java.Phase) :
    Wired (start now latest jvm) := by
  intro i c hlink
  cases hlink

/-- The value of a reference the variable holds, as Vault has answered it. -/
def Resolved (original : Environ) (key : JStr) (sh : Vault.Shared) (v : JStr) : Prop :=
  ∃ ref r text, Java.jvmGet original key = some ref ∧ parseVaultRef (Utf8.lossy ref.getBytes) = some r ∧
    Vault.Fetched sh r text ∧ v = .decode (Utf8.encode text)

/-- Whatever the threads of the JVM, the other clients and Vault do, a lookup returns the
    real value of its variable if that is no reference, and otherwise a value Vault has
    answered a read of this reference with; if the reference is not too long for a frame,
    and Vault answers unversioned reads with plain secrets. -/
theorem lookup_served (ttl now : Nat) (latest : Str → Str → Nat) (original : Environ)
    (socketPath : JStr) (cacheTtlMs clock : Int64) (site : Site)
    (h : (machine ttl).Reaches (Plain ttl)
      (start now latest (Java.start original socketPath cacheTtlMs clock)) site)
    (i : Nat) (key v : JStr) (hdone : site.jvm.tasks i = .done key (some v))
    (hfits : ∀ ref, Java.jvmGet original key = some ref → ref.getBytes.length ≤ 65535) :
    (Java.jvmGet original key = some v ∧ v.startsWith vaultPrefix = false) ∨
      Resolved original key site.vault v := by
  have hlooking := (Java.looking_reaches (jvm_reaches h)).2 i
  rw [hdone] at hlooking
  rcases hlooking with hunanswered | ⟨value, hv, hreal, hplain⟩
  · right
    suffices hkept : Wired site ∧
        Promised (Resolved original key) key (fun _ => True) (fun _ => True) (fun _ => True) site from
      hkept.2.done i v trivial hdone
    refine h.along (I := fun site => Wired site ∧ Promised (Resolved original key) key (fun _ => True)
      (fun _ => True) (fun _ => True) site) ⟨wired_start _ _ _, ?_⟩ ?_
    · constructor
      · intro entry v hentry
        cases hentry
      · intro j v hstoring
        cases hstoring
      · intro j v _ hdone
        cases hdone
      · intro j c hlink
        cases hlink
    · intro site₁ a site₂ hreach ⟨hwired, hp⟩ hok hstep
      have hdoes := step_does hstep
      have horiginal : site₁.map.original = original := (map_reaches hreach).1
      have hmono : ∀ v, Resolved original key site₁.vault v → Resolved original key site₂.vault v := by
        rintro v ⟨ref, r, text, href, hparse, hfetched, hv⟩
        exact ⟨ref, r, text, href, hparse, hfetched.mono (responses_reaches (.step .refl hok hstep)), hv⟩
      refine ⟨hdoes.wired hok.1 hwired, hdoes.promised hok.1 hwired hmono ⟨?_, ?_, ?_, ?_⟩ hp⟩
      · rw [Java.Unanswered, horiginal]
        exact hunanswered
      · exact fun _ _ => trivial
      · exact fun _ _ _ _ _ => trivial
      · intro c request s fault v _ hclosed hwanted hdata hreceived
        rw [← horiginal] at hfits
        obtain ⟨ref, text, serial, href, htask, hv⟩ :=
          reply_of_wired hreach hclosed hwanted hdata hreceived hfits
        have hrun : (Vault.machine ttl).Reaches Vault.plainKeys.ok (Vault.start now latest)
            (Server.backend site₁.agent) := Server.backend_reaches (agent_reaches_plain hreach)
        obtain ⟨r, hparse, hfetched⟩ := Vault.returned_fetched hrun htask
        exact ⟨ref, r, text, horiginal ▸ href, hparse, hfetched, hv⟩
  · cases hv
    exact .inl ⟨hreal, hplain⟩

/-! ## A lookup of `A` -/

/-- The request for `A`, whose value is `vault:m/data/p#k`. -/
def referenceRequest : Request where
  path := []
  frame := referenceFrame

/-- The variable `A` with its reference, which nobody has looked up yet. -/
def referring : Environ := [(⟨[65], by decide⟩, ⟨referenceFrame.drop 6, by decide⟩)]

/-- Nobody has anything cached for `A`: its lookup asks, Vault is read, and the value is
    cached by the agent and by the map. -/
theorem reaches_asked {ttl expiresAt i c : Nat} {ok : Site → Act → Prop} {site : Site}
    {secret : Vault.Secret} {text : Str} {v : JStr} (horiginal : site.map.original = referring)
    (hsocket : site.map.socketPath = []) (hrunning : site.agent.shared.running = true)
    (hidle : site.jvm.tasks i = .idle) (hlink : site.link i = none) (hconn : site.agent.tasks c = .fresh .idle)
    (hstale : ∀ entry, site.map.cache [65] = some entry →
      ¬ site.jvm.shared.now - entry.timestamp < site.map.cacheTtlMs)
    (hmiss : Vault.checkCache site.vault.cache site.vault.now Vault.reference = none)
    (hdeadline : Vault.deadline site.vault.now ttl = some expiresAt) (hget : secret.get ['k'] = some text)
    (hreceived : Java.received (.stream (.whole ((respond (.ok (some text))).getD []) .closed)) =
      .returned (some v))
    (hlookup : ∀ site a, (∀ reply, a ≠ .hear reply) → ok site (.lookup i a))
    (hconnects : ∀ site, ok site (.connect i c))
    (haccepts : ∀ site, ok site (.agent (.task c (.handle .accept))))
    (hsteps : ∀ a ∈ (Vault.handling secret).map Server.Act.handle, ∀ site, ok site (.agent (.task c a)))
    (hresponds : ∀ site s, ok site (.respond i s)) :
    (machine ttl).Reaches ok site
      (told site i c [65] (some v) { site.agent.shared with backend := site.vault.fetched secret expiresAt }
        (Vault.told text (site.vault.respond Vault.referenceParts secret).serial)) := by
  have hwanted : Java.wanted site.map [65] = some referenceRequest := by
    simp only [Java.wanted, horiginal, hsocket]
    decide +kernel
  have hunanswered : Java.Unanswered site.map [65] := by
    rw [Java.Unanswered, horiginal]
    decide +kernel
  have hasks : Java.threads.Alone [.get [65], .check] site.jvm.shared .idle site.jvm.shared (.asking [65]) :=
    (Java.Does.unanswered hunanswered).alone ((Java.Does.missed hstale).alone .nil)
  have hhandled := @Vault.alone_handling ttl expiresAt site.agent.shared secret text hrunning hmiss hdeadline hget
  exact reaches_told ttl hrunning hidle hlink hconn hwanted hasks hhandled rfl hreceived hlookup hconnects
    haccepts hsteps hresponds

theorem lookup_served_first :
    ∃ site : Site, site.jvm.tasks 0 = .done [65] (some [118]) ∧
      ((Java.jvmGet referring [65] = some [118] ∧ JStr.startsWith [118] vaultPrefix = false) ∨
        Resolved referring [65] site.vault [118]) := by
  let begin : Site := start 0 (fun _ _ => 1) (Java.start referring [] 30000 0)
  have hreceived : Java.received (.stream (.whole ((respond (.ok (some ['v']))).getD []) .closed)) =
      .returned (some [118]) := by decide
  have hplain : (Vault.Secret.single ['k'] ['v']).Plain := Vault.Secret.single_plain (by decide)
  have hlookup : ∀ site a, (∀ reply, a ≠ .hear reply) → Plain 60 site (.lookup 0 a) :=
    fun site a h => ⟨(Own.of_lookup (i := 0) (c := 0) site a h).separate, trivial⟩
  have haccepts : ∀ site, Plain 60 site (.agent (.task 0 (.handle .accept))) :=
    fun site => ⟨trivial, Vault.guarded_plainKeys (fun secret h => by cases h) site.agent⟩
  have hsteps : ∀ a ∈ (Vault.handling (.single ['k'] ['v'])).map Server.Act.handle,
      ∀ site, Plain 60 site (.agent (.task 0 a)) := by
    intro a ha site
    refine ⟨?_, Vault.handling_plain hplain a ha site.agent⟩
    obtain ⟨step, -, rfl⟩ := List.mem_map.mp ha
    exact trivial
  have hrun := @reaches_asked 60 60 0 0 (Plain 60) begin (.single ['k'] ['v']) ['v'] [118] rfl rfl rfl rfl rfl rfl
    (fun _ h => by cases h) rfl (by decide) (by decide) hreceived hlookup (fun _ => ⟨trivial, trivial⟩) haccepts
    hsteps fun _ _ => ⟨trivial, trivial⟩
  have hfits : ∀ ref, Java.jvmGet referring [65] = some ref → ref.getBytes.length ≤ 65535 := by
    decide +kernel
  exact ⟨_, told_task, lookup_served 60 0 (fun _ _ => 1) referring [] 30000 0 _ hrun 0 [65] [118] told_task
    hfits⟩

end EnvProxy.Jvm
