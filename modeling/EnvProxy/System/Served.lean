-- SUMMARY: What clients get out of the agent's socket while any number of connections are served at once.
import EnvProxy.Agent.Provenance
import EnvProxy.Agent.VaultRotation
import EnvProxy.System.EndToEnd

/-!
# Served values

The server with all its connections, put together with what is known of the backends'
tasks. A client that is given a value asked for it, and the value was taken from where
the backend's values come from. Nothing of it depends on what other clients send, when
they hang up, or how their calls interleave.
-/

namespace EnvProxy

open Server

namespace Server

variable {σ τ ℓ ε : Type} {S : Service σ τ ℓ ε}

/-- A stream asks for one thing. -/
theorem requests_unique {s : Chunked UInt8} {incoming incoming' : Incoming}
    (h : Requests s.data incoming) (h' : Requests s.data incoming') : incoming = incoming' := by
  have hread := readRequest_iff.mpr h
  rw [readRequest_iff.mpr h'] at hread
  exact (Except.ok.inj hread).symm

theorem found_of_unsupported {s : Chunked UInt8} {text : Str}
    (hdata : s.data = (encodeResponse .error (Utf8.encode text)).getD []) :
    (Reply.stream s).found = none := by
  cases hresponse : encodeResponse .error (Utf8.encode text) with
  | none =>
    rw [hresponse] at hdata
    exact Reply.found_of_empty hdata
  | some response =>
    rw [hresponse] at hdata
    rw [Reply.found_of_encode hresponse hdata]
    rfl

/-- The only result a client finds a value in is that value. -/
theorem eq_of_carried {r : ResolveResult} {v : Bytes} (h : r.carried = some v) :
    ∃ text, r = .ok (some text) ∧ v = Utf8.encode text := by
  match r with
  | .ok (some text) =>
    simp only [ResolveResult.carried, fitting] at h
    split at h
    · exact ⟨text, rfl, (Option.some.inj h).symm⟩
    · cases h
  | .ok none => cases h
  | .error e => cases h

theorem Owed.encoded {stream : Chunked UInt8} {t : τ} {response : Bytes}
    (h : Owed S stream t (some response)) : ∃ status value, encodeResponse status value = some response := by
  generalize some response = sent at h
  cases h with
  | unsupported _ => exact ⟨_, _, rfl⟩
  | request _ _ => exact ⟨_, _, (respond_eq _).symm⟩

/-- What a client can decode is all that was written, and that is a response. -/
theorem Conn.Honest.decoded {c : Conn τ} (h : c.Honest S) {written : Bytes} {fault : Option Fault}
    (hclosed : c.stage = .closed written fault) {front : Bytes} (hpre : front <+: written)
    (hok : decodeResponse front ≠ .error .incomplete) : front = written ∧ fault = none := by
  have hnonempty : front ≠ [] := by
    rintro rfl
    exact hok rfl
  have hcut : ∀ {response}, Owed S c.stream c.task (some response) → front <+: response → front = response := by
    intro response howed hpre
    by_contra hne
    obtain ⟨status, value, hresponse⟩ := howed.encoded
    have hframe : ResponseFrame { status, value } response := hresponse
    exact hok (hframe.framed.2 front hpre hne)
  unfold Conn.Honest at h
  rw [hclosed] at h
  cases fault with
  | none =>
    obtain ⟨response, howed, rfl⟩ := h
    cases response with
    | none => exact absurd (List.prefix_nil.mp hpre) hnonempty
    | some response => exact ⟨hcut howed hpre, rfl⟩
  | some fault =>
    exfalso
    cases fault with
    | unread => exact hnonempty (List.prefix_nil.mp (h.1 ▸ hpre))
    | panicked => exact hnonempty (List.prefix_nil.mp (h.1 ▸ hpre))
    | unwritten =>
      obtain ⟨response, howed, hfront, hne⟩ := h
      have hall : front = response := hcut howed (hpre.trans hfront)
      exact hne (hfront.eq_of_length_le (hall ▸ hpre.length_le))

theorem Conn.Honest.whole {c : Conn τ} (h : c.Honest S) {written : Bytes} {fault : Option Fault}
    (hclosed : c.stage = .closed written fault) {s : Chunked UInt8} (hdata : s.data <+: written)
    {v : Bytes} (hfound : (Reply.stream s).found = some v) : s.data = written ∧ fault = none := by
  refine h.decoded hclosed hdata fun hcut => ?_
  cases (Reply.found_stream_decode.mp hfound).symm.trans hcut

/-- What a client finds on a connection that was closed on it is the result of the call
    it asked for. -/
theorem Conn.Honest.found {c : Conn τ} (h : c.Honest S) {written : Bytes} {fault : Option Fault}
    (hclosed : c.stage = .closed written fault) {s : Chunked UInt8} (hdata : s.data <+: written)
    {v : Bytes} (hfound : (Reply.stream s).found = some v) :
    ∃ key value text, Requests c.stream.data (.request key value) ∧
      S.Returns (selectCall (Utf8.lossy key) value) c.task (.ok (some text)) ∧ v = Utf8.encode text := by
  obtain ⟨rfl, rfl⟩ := h.whole hclosed hdata hfound
  unfold Conn.Honest at h
  rw [hclosed] at h
  obtain ⟨response, howed, hwritten⟩ := h
  cases howed with
  | unsupported _ =>
    rw [found_of_unsupported hwritten] at hfound
    cases hfound
  | request hrequests hreturns =>
    rw [found_respond hwritten] at hfound
    obtain ⟨text, rfl, hv⟩ := eq_of_carried hfound
    exact ⟨_, _, text, hrequests, hreturns, hv⟩

/-- A connection that was closed without a fault carries the response to the result of
    the call its client asked for. -/
theorem Conn.Honest.complete {c : Conn τ} (h : c.Honest S) {written : Bytes}
    (hclosed : c.stage = .closed written none) {key : Bytes} {value : Option Bytes}
    (hrequests : Requests c.stream.data (.request key value)) :
    ∃ r, S.Returns (selectCall (Utf8.lossy key) value) c.task r ∧ written = (respond r).getD [] := by
  obtain ⟨stream, t, stage⟩ := c
  simp only at hclosed
  subst hclosed
  obtain ⟨response, howed, hwritten⟩ := h
  cases howed with
  | unsupported hother => cases requests_unique hrequests hother
  | request hother hreturns =>
    cases requests_unique hrequests hother
    exact ⟨_, hreturns, hwritten⟩

end Server

/-! ## The backends -/

theorem FileBackend.Phase.answered_of_outcome {ph : Phase} {r : ResolveResult}
    (h : ph.outcome = some (some r)) : ∃ key, ph = .answered key r := by
  cases ph with
  | answered key result =>
    cases h
    exact ⟨key, rfl⟩
  | _ => cases h

/-- A client of an agent with the HTTP backend is never given a value. -/
theorem Http.served_nothing (url : Str) (p : Pool Nat (Server.Shared Unit) (Conn Unit)) (i : Nat)
    (h : (Server.machine (.ofBackend (backend url))).Reaches Machine.anyMove (bound unit) p)
    (written : Bytes) (fault : Option Fault) (hclosed : (p.tasks i).stage = .closed written fault)
    (s : Chunked UInt8) (hdata : s.data <+: written) : (Reply.stream s).found = none := by
  cases hfound : (Reply.stream s).found with
  | none => rfl
  | some v =>
    obtain ⟨key, value, text, -, hreturns, -⟩ :=
      (honest_reaches (reaches_guarded h) i).found hclosed hdata hfound
    have hanswer := returns_ofBackend hreturns
    rw [answer_eq] at hanswer
    cases hanswer

/-- A reference is resolved for a value that a client sent with its key. -/
theorem eq_lossy_of_selectCall {key key' reference : Str} {value : Option Bytes}
    (h : selectCall key value = .resolveWithValue key' reference) :
    ∃ bytes, value = some bytes ∧ reference = Utf8.lossy bytes := by
  cases value with
  | none => cases h
  | some bytes =>
    have hreference := selectCall_reference key bytes
    rw [h] at hreference
    simp only [Call.reference] at hreference
    split at hreference
    · exact ⟨bytes, rfl, Option.some.inj hreference⟩
    · cases hreference

theorem Vault.Phase.done_of_outcome {ph : Phase} {r : ResolveResult} (h : ph.outcome = some (some r)) :
    ∃ s serial, ph = .done s r serial := by
  cases ph with
  | done s result serial =>
    cases h
    exact ⟨s, serial, rfl⟩
  | panicked => cases h
  | _ => cases h

/-- A request that the Vault backend answers with a value carries a reference, and the
    task is one on it. -/
theorem Vault.done_of_returns {ttl : Nat} {key : Str} {value : Option Bytes} {ph : Phase} {text : Str}
    (h : (service ttl).Returns (selectCall key value) ph (.ok (some text))) :
    ∃ bytes serial, value = some bytes ∧ ph = .done (Utf8.lossy bytes) (.ok (some text)) serial := by
  rcases h with hnow | ⟨⟨key', reference, hcall, hworks⟩, houtcome⟩
  · cases hcall : selectCall key value with
    | resolve key' => rw [hcall] at hnow; cases hnow
    | resolveWithValue key' reference => rw [hcall] at hnow; cases hnow
  · obtain ⟨bytes, hbytes, rfl⟩ := eq_lossy_of_selectCall hcall
    obtain ⟨s, serial, rfl⟩ := Phase.done_of_outcome houtcome
    obtain rfl : s = Utf8.lossy bytes := hworks
    exact ⟨bytes, serial, hbytes, rfl⟩

/-- A client of an agent with the Vault backend is given a value only for a reference it
    sent, and Vault answered a read of exactly this reference with it; if Vault answers
    unversioned reads with plain secrets. -/
theorem Vault.served_fetched (ttl now : Nat) (latest : Str → Str → Nat)
    (p : Pool Nat (Server.Shared Shared) (Conn Phase)) (i : Nat)
    (h : (Server.machine (service ttl)).Reaches (guarded (service ttl) plainKeys).ok
      (bound (start now latest)) p)
    (written : Bytes) (fault : Option Fault) (hclosed : (p.tasks i).stage = .closed written fault)
    (s : Chunked UInt8) (hdata : s.data <+: written) (v : Bytes)
    (hfound : (Reply.stream s).found = some v) :
    ∃ key value r text, Requests (p.tasks i).stream.data (.request key (some value)) ∧
      parseVaultRef (Utf8.lossy value) = some r ∧ Fetched p.shared.backend r text ∧
      v = Utf8.encode text := by
  have hrun : (machine ttl).Reaches plainKeys.ok (start now latest) (Server.backend p) := backend_reaches h
  obtain ⟨key, value, text, hrequests, hreturns, hv⟩ := (honest_reaches h i).found hclosed hdata hfound
  obtain ⟨bytes, serial, rfl, hdone⟩ := done_of_returns hreturns
  obtain ⟨r, hparse, hfetched⟩ := returned_fetched hrun hdone
  exact ⟨key, bytes, r, text, hrequests, hparse, hfetched, hv⟩

theorem Vault.plainKeys_act {a : Act} (h : ∀ secret, a = .receive secret → secret.Plain) (sh : Shared)
    (ph : Phase) : plainKeys.act a sh ph := by
  cases a with
  | receive secret =>
    cases ph with
    | reading s r => exact fun _ => h secret rfl
    | _ => exact trivial
  | _ => exact trivial

/-- Only what Vault answers can break the restriction. -/
theorem Vault.guarded_plainKeys {ttl i : Nat} {a : Server.Act Act}
    (h : ∀ secret, a = .handle (.call (.receive secret)) → secret.Plain)
    (p : Pool Nat (Server.Shared Shared) (Conn Phase)) :
    (guarded (service ttl) plainKeys).ok p (.task i a) := by
  cases a with
  | handle step =>
    intro l hl
    refine plainKeys_act (fun secret hsecret => ?_) _ _
    subst hsecret
    cases step with
    | call l' =>
      cases hl
      exact h secret rfl
    | read =>
      simp only [Step.backendAct] at hl
      split at hl
      · next key value _ =>
        cases hcall : selectCall (Utf8.lossy key) value with
        | resolve key' => rw [hcall] at hl; cases hl
        | resolveWithValue key' reference => rw [hcall] at hl; cases hl
      · cases hl
    | _ => cases hl
  | _ => exact trivial

/-! ## A client that asks for a reference -/

/-- A connection with this request, which the agent has accepted. -/
def Vault.accepted (frame : Bytes) : Conn Phase where
  stream := .whole frame .silent
  task := .idle
  stage := .reading

/-- What the agent does for it, when Vault answers with `secret`. -/
def Vault.handling (secret : Secret) : List (Step Act) :=
  [.read, .call .check, .call (.receive secret), .call .insert, .answer, .write]

/-- The connection of a client that asked for the reference, and was told the value. -/
def Vault.told (v : Str) (serial : Nat) : Conn Phase where
  stream := .whole referenceFrame .silent
  task := .done reference (.ok (some v)) (some serial)
  stage := .closed ((respond (.ok (some v))).getD []) none

/-- The shared state after Vault has answered a read of the reference, and its answer was
    cached. -/
def Vault.Shared.fetched (sh : Shared) (secret : Secret) (expiresAt : Nat) : Shared :=
  { sh with responses := sh.responses ++ [sh.respond referenceParts secret] }.store referenceParts
    (sh.respond referenceParts secret) expiresAt

/-- Nothing is cached for it: Vault is read, and the value written back. -/
theorem Vault.alone_handling {ttl expiresAt : Nat} {sh : Server.Shared Shared} {secret : Secret} {v : Str}
    (hrunning : sh.running = true) (hmiss : checkCache sh.backend.cache sh.backend.now reference = none)
    (hdeadline : deadline sh.backend.now ttl = some expiresAt) (hget : secret.get ['k'] = some v) :
    (Server.tasks (service ttl)).Alone ((handling secret).map .handle) sh (accepted referenceFrame)
      { sh with backend := sh.backend.fetched secret expiresAt }
      (told v (sh.backend.respond referenceParts secret).serial) := by
  have hframe : encodeRequestV2 [65] (Utf8.encode reference) = some referenceFrame := by decide
  have hread : readRequest (accepted referenceFrame).stream =
      .ok (.request [65] (some (Utf8.encode reference))) := readRequest_v2 (t := []) hframe rfl
  have hcall : selectCall (Utf8.lossy [65]) (some (Utf8.encode reference)) =
      .resolveWithValue (Utf8.lossy [65]) reference := selectCall_vault (by decide)
  have hcalls : (service ttl).calls (selectCall (Utf8.lossy [65]) (some (Utf8.encode reference))) =
      .inr (.call reference) := by
    rw [hcall]
    rfl
  let resp := sh.backend.respond referenceParts secret
  let received : Shared := { sh.backend with responses := sh.backend.responses ++ [resp] }
  let stored : Shared := sh.backend.fetched secret expiresAt
  let conn (ph : Phase) : Conn Phase :=
    { stream := .whole referenceFrame .silent, task := ph,
      stage := .resolving (selectCall (Utf8.lossy [65]) (some (Utf8.encode reference))) }
  have hread : Handles (service ttl) sh.backend (accepted referenceFrame) .read sh.backend
      (conn (.checking reference referenceParts)) :=
    .called rfl hread hcalls (Does.called parseVaultRef_reference).service_act
  have hcheck : Handles (service ttl) sh.backend (conn (.checking reference referenceParts)) (.call .check)
      sh.backend (conn (.reading reference referenceParts)) :=
    .stepped rfl (Does.missed hmiss).service_act
  have hreceive : Handles (service ttl) sh.backend (conn (.reading reference referenceParts))
      (.call (.receive secret)) received (conn (.caching reference referenceParts resp)) :=
    .stepped rfl Does.received.service_act
  have hdeadline' : deadline received.now ttl = some expiresAt := hdeadline
  have hinsert : Handles (service ttl) received (conn (.caching reference referenceParts resp)) (.call .insert)
      stored (conn (.done reference (.ok (some v)) (some resp.serial))) := by
    rw [← hget]
    exact .stepped rfl (Does.stored hdeadline').service_act
  let answered : Conn Phase :=
    { conn (.done reference (.ok (some v)) (some resp.serial)) with stage := .writing (respond (.ok (some v))) }
  have hanswer : Handles (service ttl) stored (conn (.done reference (.ok (some v)) (some resp.serial)))
      .answer stored answered := .answered rfl rfl
  have hwrite : Handles (service ttl) stored answered .write stored (told v resp.serial) := .written rfl
  exact hread.alone hrunning (hcheck.alone hrunning (hreceive.alone hrunning (hinsert.alone hrunning
    (hanswer.alone hrunning (hwrite.alone hrunning .nil)))))

/-- With the request of the client, and the agent's accepting it. -/
theorem Vault.alone_asking {ttl : Nat} {acts : List (Server.Act Act)} {sh sh' : Server.Shared Shared}
    {conn : Conn Phase} (hrunning : sh.running = true)
    (hhandled : (Server.tasks (service ttl)).Alone acts sh (accepted referenceFrame) sh' conn) :
    (Server.tasks (service ttl)).Alone (.send referenceFrame :: .handle .accept :: acts) sh (.fresh .idle) sh'
      conn := by
  have haccept : Handles (service ttl) sh.backend
      { accepted referenceFrame with stage := .connecting } .accept sh.backend (accepted referenceFrame) :=
    .accepted rfl
  exact .cons rfl (.cons (haccept.act hrunning) hhandled)

theorem Vault.handling_plain {ttl i : Nat} {secret : Secret} (hplain : secret.Plain) :
    ∀ a ∈ (handling secret).map Server.Act.handle, ∀ p : Pool Nat (Server.Shared Shared) (Conn Phase),
      (guarded (service ttl) plainKeys).ok p (.task i a) := by
  intro a ha p
  obtain ⟨step, hstep, rfl⟩ := List.mem_map.mp ha
  refine guarded_plainKeys (fun secret' hsecret => ?_) p
  cases hsecret
  simp only [handling, List.mem_cons, List.not_mem_nil, reduceCtorEq, Step.call.injEq, Act.receive.injEq,
    false_or, or_false] at hstep
  subst hstep
  exact hplain

/-- The first client of an agent has asked for the reference. -/
def Vault.cachedFirst : Pool Nat (Server.Shared Shared) (Conn Phase) where
  shared := { running := true, backend := (start 0 fun _ _ => 1).shared.fetched (.single ['k'] ['v']) 60 }
  tasks := Function.update (bound (start 0 fun _ _ => 1)).tasks 0 (told ['v'] 1)

theorem Vault.reaches_cachedFirst :
    (Server.machine (service 60)).Reaches (guarded (service 60) plainKeys).ok (bound (start 0 fun _ _ => 1))
      cachedFirst := by
  have halone := alone_asking rfl (@alone_handling 60 60 (bound (start 0 fun _ _ => 1)).shared
    (.single ['k'] ['v']) ['v'] rfl rfl (by decide) (by decide))
  refine halone.reaches (p := bound (start 0 fun _ _ => 1)) (i := 0) rfl ?_
  intro a ha p
  rcases List.mem_cons.mp ha with rfl | ha
  · exact trivial
  rcases List.mem_cons.mp ha with rfl | ha
  · exact guarded_plainKeys (fun _ h => by cases h) p
  · exact handling_plain (Secret.single_plain (by decide)) a ha p

/-- The secret is rotated while its value is cached, and time passes. -/
def Vault.rotatedFirst (d : Nat) : Pool Nat (Server.Shared Shared) (Conn Phase) where
  shared :=
    { running := true
      backend := { cachedFirst.shared.backend with
        now := d, latest := fun m p => if m = ['m'] ∧ p = ['p'] then 1 + 1 else 1 } }
  tasks := cachedFirst.tasks

theorem Vault.noOlder_rotatedFirst (d n : Nat) : NoOlder (Server.backend (rotatedFirst d)) referenceParts n := by
  intro i s r' resp hphase
  have htask : (Function.update (bound (start 0 fun _ _ => 1)).tasks 0 (told ['v'] 1) i).task =
      .caching s r' resp := hphase
  rw [Function.update_apply] at htask
  split at htask <;> cases htask

theorem Vault.served_fetched_first :
    ∃ p : Pool Nat (Server.Shared Shared) (Conn Phase),
      (p.tasks 0).stage = .closed [0, 0, 1, 118] none ∧
      ∃ key value r text, Requests (p.tasks 0).stream.data (.request key (some value)) ∧
        parseVaultRef (Utf8.lossy value) = some r ∧ Fetched p.shared.backend r text ∧
        [118] = Utf8.encode text :=
  ⟨cachedFirst, rfl, served_fetched 60 0 (fun _ _ => 1) cachedFirst 0 reaches_cachedFirst _ none rfl
    (.whole [0, 0, 1, 118] .closed) List.prefix_rfl [118] (by decide)⟩

/-! ## Files and watches -/

/-- A client of an agent with the file backend is given a value only if it was under the
    key it asked for in one of the files there were. -/
theorem FileBackend.served_held (path : Str) (fromStr : Str → Except Str Data)
    (file : Option SecretsFile) (q : Pool Nat Shared Phase) (p : Pool Nat (Server.Shared Shared) (Conn Phase))
    (i : Nat) (hstarted : (writtenMachine path fromStr).Reaches Machine.anyMove (start file) q)
    (h : (Server.machine (service path fromStr)).Reaches Machine.anyMove (bound q) p)
    (written : Bytes) (fault : Option Fault) (hclosed : (p.tasks i).stage = .closed written fault)
    (s : Chunked UInt8) (hdata : s.data <+: written) (v : Bytes)
    (hfound : (Reply.stream s).found = some v) :
    ∃ key value text, Requests (p.tasks i).stream.data (.request key value) ∧
      v = Utf8.encode text ∧
      ∃ file ∈ p.shared.backend.past, ∃ data, Holds fromStr file data ∧
        data (Utf8.lossy key) = some text := by
  have hguarded := reaches_guarded h
  have hrun : (writtenMachine path fromStr).Reaches Machine.anyMove (start file) (Server.backend p) :=
    hstarted.trans ((backend_reaches hguarded).mono fun _ _ _ => trivial)
  obtain ⟨key, value, text, hrequests, hreturns, hv⟩ :=
    (honest_reaches hguarded i).found hclosed hdata hfound
  rcases hreturns with hnow | ⟨hasks, houtcome⟩
  · cases hnow
  · obtain ⟨key', hanswered⟩ := Phase.answered_of_outcome houtcome
    have hkey : key' = (selectCall (Utf8.lossy key) value).key := by
      rw [hanswered] at hasks
      exact hasks
    rw [selectCall_key] at hkey
    subst hkey
    exact ⟨key, value, text, hrequests, hv, returned_held hrun hanswered⟩

/-- What a client is answered that asks for the key of the first file. -/
def originalResponse : Bytes := 0 :: 0 :: 8 :: Utf8.encode "original".toList

/-- After the file was loaded another one is put in its place, with the same modification
    time. A client is answered from the first one. -/
theorem FileBackend.served_held_loaded :
    ∃ p : Pool Nat (Server.Shared Shared) (Conn Phase),
      (p.shared.backend.file.map SecretsFile.contents = some rotated.contents) ∧
      (p.tasks 1).stage = .closed originalResponse none ∧
      ∃ key value text, Requests (p.tasks 1).stream.data (.request key value) ∧
        Utf8.encode "original".toList = Utf8.encode text ∧
        ∃ file ∈ p.shared.backend.past, ∃ data, Holds readJson file data ∧
          data (Utf8.lossy key) = some text := by
  let sampled : Shared := { (start (some original)).shared with sampled := some (originalText, original) }
  let loaded : Shared :=
    { sampled with
      cache := { data := single "original".toList, lastModified := some 1 }, ready := true }
  let reused : SecretsFile := { contents := rotated.contents, modified := 1 }
  let written : Shared := { loaded with file := some reused, past := [reused, original] }
  let q : Pool Nat Shared Phase :=
    { shared := loaded, tasks := Function.update (start (some original)).tasks 0 .loaded }
  let p₁ : Pool Nat (Server.Shared Shared) (Conn Phase) :=
    { bound q with shared := { running := true, backend := written } }
  have hloads : (writtenTasks [] readJson).Alone [.next, .next, .next] (start (some original)).shared
      .opening loaded .loaded :=
    written_alone ((Does.opened readToString_original).alone
      (Does.sampled.alone ((Does.loaded (parse_eq_ok_iff.mpr (if_pos rfl))).alone .nil)))
  have hstarted : (writtenMachine [] readJson).Reaches Machine.anyMove (start (some original)) q :=
    hloads.reaches rfl fun _ _ _ => trivial
  have hwritten : (Server.machine (service [] readJson)).step (bound q)
      (.env (.backend (.replace rotated.contents 1))) = some p₁ := rfl
  have hasks : ∃ sh c, sh.backend = written ∧ c.stage = .closed originalResponse none ∧
      (Server.tasks (service [] readJson)).Alone
        [.send [1, 0, 3, 75, 69, 89], .handle .accept, .handle .read, .handle (.call .next),
          .handle (.call .next), .handle (.call .next), .handle .answer, .handle .write]
        p₁.shared (Conn.fresh Phase.idle) sh c :=
    ⟨_, _, rfl, rfl, .cons rfl (.cons rfl (.cons rfl (.cons rfl (.cons rfl (.cons rfl (.cons rfl
      (.cons rfl .nil)))))))⟩
  obtain ⟨sh, c, hbackend, hclosed, halone⟩ := hasks
  have hrun : (Server.machine (service [] readJson)).Reaches Machine.anyMove (bound q)
      { shared := sh, tasks := Function.update p₁.tasks 1 c } :=
    .head trivial hwritten (halone.reaches rfl fun _ _ _ => trivial)
  have hstage : (Function.update p₁.tasks 1 c 1).stage = .closed originalResponse none := by
    rw [Function.update_self]
    exact hclosed
  have hfile : sh.backend.file.map SecretsFile.contents = some rotated.contents := by
    rw [hbackend]
    rfl
  exact ⟨_, hfile, hstage, served_held [] readJson (some original) q _ 1 hstarted hrun _ none hstage
    (.whole originalResponse .closed) List.prefix_rfl (Utf8.encode "original".toList) (by decide)⟩

/-- Every complete response of an agent with the Kubernetes backend answers from the
    Secret as the watcher had it at some point of the watch. -/
theorem Kubernetes.served_watched (got : Except Str Secret)
    (p : Pool Nat (Server.Shared Shared) (Conn Phase)) (i : Nat)
    (h : (Server.machine service).Reaches Machine.anyMove (bound (start got)) p)
    (written key : Bytes) (value : Option Bytes) (hclosed : (p.tasks i).stage = .closed written none)
    (hrequests : Requests (p.tasks i).stream.data (.request key value)) :
    ∃ pre, pre <+: p.shared.backend.items ∧
      written = (respond (resolve (watch (initialData got) pre) (Utf8.lossy key))).getD [] := by
  have hguarded := reaches_guarded h
  have hwatched := (((watched_kept got .any).reaches (backend_reaches hguarded) (watched_start got)).2 i)
  obtain ⟨r, hreturns, hwritten⟩ := (honest_reaches hguarded i).complete hclosed hrequests
  rcases hreturns with hnow | ⟨hkey, houtcome⟩
  · cases hnow
  · have htask : (p.tasks i).task = .answered (Utf8.lossy key) r := by
      cases ht : (p.tasks i).task with
      | idle => rw [ht] at houtcome; cases houtcome
      | answered key' result =>
        rw [ht] at houtcome hkey
        cases houtcome
        obtain rfl : key' = (selectCall (Utf8.lossy key) value).key := hkey
        rw [selectCall_key]
    have hanswered : (watched got).task i p.shared.backend (.answered (Utf8.lossy key) r) := by
      rw [← htask]
      exact hwatched
    obtain ⟨pre, hpre, rfl⟩ := hanswered
    exact ⟨pre, hpre, hwritten⟩

/-- The Secret is gone before the client asks. -/
theorem Kubernetes.served_watched_deleted :
    ∃ p : Pool Nat (Server.Shared Shared) (Conn Phase),
      (p.tasks 0).stage = .closed [1, 0, 0] none ∧
      ∃ pre, pre <+: [.ok (.delete (single [0x31]))] ∧
        [1, 0, 0] = (respond (resolve (watch (initialData (.ok (single [0x31]))) pre)
          (Utf8.lossy [75]))).getD [] := by
  let got : Except Str Secret := .ok (single [0x31])
  let item : Item := .ok (.delete (single [0x31]))
  let p₀ : Pool Nat (Server.Shared Shared) (Conn Phase) := bound (start got)
  let p₁ : Pool Nat (Server.Shared Shared) (Conn Phase) :=
    { p₀ with shared := { running := true, backend := { data := fun _ => none, watching := true, items := [item] } } }
  have hdeleted : (Server.machine service).Reaches Machine.anyMove p₀ p₁ :=
    have hstep : (Server.machine service).step p₀ (.env (.backend item)) = some p₁ := rfl
    .head trivial hstep .refl
  have hasks : ∃ c, c.stage = .closed [1, 0, 0] none ∧ c.stream.data = [1, 0, 1, 75] ∧
      (Server.tasks service).Alone
        [.send [1, 0, 1, 75], .handle .accept, .handle .read, .handle .answer, .handle .write]
        p₁.shared (Conn.fresh Phase.idle) p₁.shared c :=
    ⟨_, rfl, rfl, .cons rfl (.cons rfl (.cons rfl (.cons rfl (.cons rfl .nil))))⟩
  obtain ⟨c, hclosed, hdata, halone⟩ := hasks
  let p₂ : Pool Nat (Server.Shared Shared) (Conn Phase) :=
    { shared := p₁.shared, tasks := Function.update p₁.tasks 0 c }
  have hrun : (Server.machine service).Reaches Machine.anyMove p₀ p₂ :=
    hdeleted.trans (halone.reaches rfl fun _ _ _ => trivial)
  have htask : Function.update p₁.tasks 0 c 0 = c := Function.update_self ..
  have hframe : encodeRequest [75] = some [1, 0, 1, 75] := by decide
  have hrequests : Requests c.stream.data (.request [75] none) := by
    rw [hdata]
    exact .v1 (t := []) hframe
  rw [← htask] at hclosed hrequests
  exact ⟨p₂, hclosed, served_watched got p₂ 0 hrun _ [75] none hclosed hrequests⟩

end EnvProxy
