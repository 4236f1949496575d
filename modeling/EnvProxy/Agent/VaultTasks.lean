-- SUMMARY: Concurrent calls of the Vault backend as interleaved tasks: states, acts, and what each act does.
import EnvProxy.Agent.Vault
import EnvProxy.Library.Machine

/-!
# Concurrent Vault calls

Every call of `resolve_with_value` is a task. It holds the cache lock only while it
checks the cache and while it inserts, so between these, and while it waits for
Vault, other tasks act, time passes and secrets are rotated. `alone_resolveWithValue`
ties the acts of one undisturbed task to the function.

`origin` and `responses` record where cached values come from; no act reads them.
-/

namespace EnvProxy.Vault

/-- An answer of Vault: what was read, the version of the secret at that moment, and
    its data. -/
structure Response where
  mount : Str
  path : Str
  version : Option Nat
  serial : Nat
  secret : Secret

structure Shared where
  cache : Cache
  now : Nat
  /-- The current version of every secret. -/
  latest : Str → Str → Nat
  responses : List Response
  /-- The version of the secret a cached value was read from. -/
  origin : Str → Nat

inductive Phase where
  | idle
  | checking (s : Str) (r : VaultRef)
  | reading (s : Str) (r : VaultRef)
  | caching (s : Str) (r : VaultRef) (resp : Response)
  | done (s : Str) (result : ResolveResult) (serial : Option Nat)
  | panicked

/-- What a task does next: start on a text, check the cache, receive Vault's answer or
    its failure, insert what it received. -/
inductive Act where
  | call (s : Str)
  | check
  | receive (secret : Secret)
  | fail (msg : Str)
  | insert

/-- What happens around the tasks: time passes, a secret gets a new version. -/
inductive Event where
  | tick (d : Nat)
  | rotate (mount path : Str)

/-- Vault's answer to a read, with the secret's data at the time. -/
def Shared.respond (sh : Shared) (r : VaultRef) (secret : Secret) : Response where
  mount := r.mount
  path := r.path
  version := r.version
  serial := r.version.getD (sh.latest r.mount r.path)
  secret := secret

/-- The shared state after the keys of a response were cached. -/
def Shared.store (sh : Shared) (r : VaultRef) (resp : Response) (expiresAt : Nat) : Shared where
  cache := insertAll r expiresAt resp.secret sh.cache
  now := sh.now
  latest := sh.latest
  responses := sh.responses
  origin := fun s =>
    if resp.secret.entries.any fun e => refStr r e.1 = s then resp.serial else sh.origin s

def act (ttl : Nat) : Act → Shared → Phase → Option (Shared × Phase)
  | .call s, sh, .idle =>
    match parseVaultRef s with
    | none => some (sh, .done s (.error (invalidReference s)) none)
    | some r => some (sh, .checking s r)
  | .check, sh, .checking s r =>
    match checkCache sh.cache sh.now s with
    | some v => some (sh, .done s (.ok (some v)) (some (sh.origin s)))
    | none => some (sh, .reading s r)
  | .receive secret, sh, .reading s r =>
    let resp := sh.respond r secret
    some ({ sh with responses := sh.responses ++ [resp] }, .caching s r resp)
  | .fail msg, sh, .reading s _ => some (sh, .done s (.error (vaultRead msg)) none)
  | .insert, sh, .caching s r resp =>
    match deadline sh.now ttl with
    | none => some (sh, .panicked)
    | some expiresAt =>
      some (sh.store r resp expiresAt, .done s (.ok (resp.secret.get r.key)) (some resp.serial))
  | _, _, _ => none

def event : Event → Shared → Option Shared
  | .tick d, sh => some { sh with now := sh.now + d }
  | .rotate mount path, sh =>
    some { sh with
      latest := fun m p => if m = mount ∧ p = path then sh.latest m p + 1 else sh.latest m p }

def tasks (ttl : Nat) : Tasks Shared Phase Act Event where
  act := act ttl
  env := event

/-- The interleavings of any number of calls. -/
def machine (ttl : Nat) : Machine (Pool Nat Shared Phase) (Move Nat Act Event) :=
  (tasks ttl).machine

/-- An empty cache, at some time and with some secrets in Vault. -/
def start (now : Nat) (latest : Str → Str → Nat) : Pool Nat Shared Phase where
  shared := { cache := fun _ => none, now, latest, responses := [], origin := fun _ => 0 }
  tasks := fun _ => .idle

/-! ## What an act does -/

/-- The acts by what they do: the act, the phase it starts in, the shared state and the
    phase it leaves. -/
inductive Does (ttl : Nat) (sh : Shared) : Act → Phase → Shared → Phase → Prop where
  | rejected {s} : parseVaultRef s = none →
      Does ttl sh (.call s) .idle sh (.done s (.error (invalidReference s)) none)
  | called {s r} : parseVaultRef s = some r → Does ttl sh (.call s) .idle sh (.checking s r)
  | hit {s r v} : checkCache sh.cache sh.now s = some v →
      Does ttl sh .check (.checking s r) sh (.done s (.ok (some v)) (some (sh.origin s)))
  | missed {s r} : checkCache sh.cache sh.now s = none →
      Does ttl sh .check (.checking s r) sh (.reading s r)
  | received {s r secret} :
      Does ttl sh (.receive secret) (.reading s r)
        { sh with responses := sh.responses ++ [sh.respond r secret] }
        (.caching s r (sh.respond r secret))
  | failed {s r msg} :
      Does ttl sh (.fail msg) (.reading s r) sh (.done s (.error (vaultRead msg)) none)
  | stored {s r resp expiresAt} : deadline sh.now ttl = some expiresAt →
      Does ttl sh .insert (.caching s r resp) (sh.store r resp expiresAt)
        (.done s (.ok (resp.secret.get r.key)) (some resp.serial))
  | overflowed {s r resp} : deadline sh.now ttl = none →
      Does ttl sh .insert (.caching s r resp) sh .panicked

theorem act_eq_some_iff {ttl : Nat} {a : Act} {sh sh' : Shared} {ph ph' : Phase} :
    act ttl a sh ph = some (sh', ph') ↔ Does ttl sh a ph sh' ph' := by
  constructor
  · intro h
    cases a with
    | call s =>
      cases ph with
      | idle =>
        simp only [act] at h
        split at h
        · next hparse => cases h; exact .rejected hparse
        · next r hparse => cases h; exact .called hparse
      | _ => cases h
    | check =>
      cases ph with
      | checking s r =>
        simp only [act] at h
        split at h
        · next v hcheck => cases h; exact .hit hcheck
        · next hcheck => cases h; exact .missed hcheck
      | _ => cases h
    | receive secret =>
      cases ph with
      | reading s r => cases h; exact .received
      | _ => cases h
    | fail msg =>
      cases ph with
      | reading s r => cases h; exact .failed
      | _ => cases h
    | insert =>
      cases ph with
      | caching s r resp =>
        simp only [act] at h
        split at h
        · next hdeadline => cases h; exact .overflowed hdeadline
        · next expiresAt hdeadline => cases h; exact .stored hdeadline
      | _ => cases h
  · intro h
    cases h with
    | rejected hparse => simp only [act, hparse]
    | called hparse => simp only [act, hparse]
    | hit hcheck => simp only [act, hcheck]
    | missed hcheck => simp only [act, hcheck]
    | received => rfl
    | failed => rfl
    | stored hdeadline => simp only [act, hdeadline]
    | overflowed hdeadline => simp only [act, hdeadline]

/-- No act moves the clock or rotates a secret. -/
theorem Does.keeps {ttl : Nat} {a : Act} {sh sh' : Shared} {ph ph' : Phase}
    (h : Does ttl sh a ph sh' ph') : sh'.now = sh.now ∧ sh'.latest = sh.latest := by
  cases h <;> exact ⟨rfl, rfl⟩

/-- An event changes neither the cache nor what is known of it. -/
theorem event_keeps {e : Event} {sh sh' : Shared} (h : event e sh = some sh') :
    sh'.cache = sh.cache ∧ sh'.origin = sh.origin ∧ sh'.responses = sh.responses ∧
      sh.now ≤ sh'.now ∧ ∀ m p, sh.latest m p ≤ sh'.latest m p := by
  cases e with
  | tick d =>
    cases h
    exact ⟨rfl, rfl, rfl, Nat.le_add_right _ _, fun _ _ => Nat.le_refl _⟩
  | rotate mount path =>
    cases h
    refine ⟨rfl, rfl, rfl, Nat.le_refl _, fun m p => ?_⟩
    dsimp only
    split <;> omega

theorem step_act_iff {ttl i : Nat} {a : Act} {p p' : Pool Nat Shared Phase} :
    (machine ttl).step p (.task i a) = some p' ↔
      ∃ sh' ph', Does ttl p.shared a (p.tasks i) sh' ph' ∧
        p' = { shared := sh', tasks := Function.update p.tasks i ph' } := by
  simp only [machine, Tasks.step_task_iff, tasks, act_eq_some_iff]

theorem step_does {ttl i : Nat} {a : Act} {p p' : Pool Nat Shared Phase}
    (h : (machine ttl).step p (.task i a) = some p') :
    Does ttl p.shared a (p.tasks i) p'.shared (p'.tasks i) := by
  obtain ⟨sh', ph', hdoes, rfl⟩ := step_act_iff.mp h
  simpa using hdoes

theorem step_act {ttl i : Nat} {a : Act} {p : Pool Nat Shared Phase} {sh' : Shared} {ph' : Phase}
    (h : Does ttl p.shared a (p.tasks i) sh' ph') :
    (machine ttl).step p (.task i a) =
      some { shared := sh', tasks := Function.update p.tasks i ph' } :=
  step_act_iff.mpr ⟨sh', ph', h, rfl⟩

/-- The clock shows no time before `t`. -/
def notBefore (t : Nat) : Tasks.Inv Nat Shared Phase where
  shared := fun sh => t ≤ sh.now
  task := fun _ _ _ => True

theorem notBefore_kept (ttl t : Nat) : (notBefore t).Kept (tasks ttl) .any where
  act := by
    intro i a sh ph sh' ph' _ hshared _ hact
    refine ⟨?_, trivial⟩
    change t ≤ sh'.now
    rw [(act_eq_some_iff.mp hact).keeps.1]
    exact hshared
  act_stable := fun _ _ _ _ _ _ => trivial
  env := fun _ hshared henv => Nat.le_trans hshared (event_keeps henv).2.2.2.1
  env_stable := fun _ _ _ _ => trivial

theorem now_le {ttl : Nat} {p q : Pool Nat Shared Phase}
    (h : (machine ttl).Reaches Machine.anyMove p q) : p.shared.now ≤ q.shared.now := by
  have hstart : (notBefore p.shared.now).holds p := ⟨Nat.le_refl _, fun _ => trivial⟩
  exact ((notBefore_kept ttl _).reaches_any h hstart).1

/-! ## Pieces of runs -/

theorem Does.alone {ttl : Nat} {a : Act} {as : List Act} {sh sh' sh'' : Shared} {ph ph' ph'' : Phase}
    (h : Does ttl sh a ph sh' ph') (hrest : (tasks ttl).Alone as sh' ph' sh'' ph'') :
    (tasks ttl).Alone (a :: as) sh ph sh'' ph'' :=
  .cons (act_eq_some_iff.mpr h) hrest

/-- Task `i` asks Vault for the reference and holds the answer. -/
def asked (i : Nat) (s : Str) (r : VaultRef) (secret : Secret) (p : Pool Nat Shared Phase) :
    Pool Nat Shared Phase where
  shared := { p.shared with responses := p.shared.responses ++ [p.shared.respond r secret] }
  tasks := Function.update p.tasks i (.caching s r (p.shared.respond r secret))

@[simp] theorem asked_task {i : Nat} {s : Str} {r : VaultRef} {secret : Secret}
    {p : Pool Nat Shared Phase} :
    (asked i s r secret p).tasks i = .caching s r (p.shared.respond r secret) := by
  simp only [asked, Function.update_self]

/-- Task `i` has cached the answer it holds. -/
def cached (i : Nat) (s : Str) (r : VaultRef) (resp : Response) (expiresAt : Nat)
    (p : Pool Nat Shared Phase) : Pool Nat Shared Phase where
  shared := p.shared.store r resp expiresAt
  tasks := Function.update p.tasks i (.done s (.ok (resp.secret.get r.key)) (some resp.serial))

theorem reaches_asked {ttl i : Nat} {s : Str} {r : VaultRef} {secret : Secret}
    {p : Pool Nat Shared Phase} {ok : Pool Nat Shared Phase → Move Nat Act Event → Prop}
    (hok : ∀ a ∈ [Act.call s, .check, .receive secret], ∀ p, ok p (.task i a))
    (hidle : p.tasks i = .idle) (hparse : parseVaultRef s = some r)
    (hmiss : checkCache p.shared.cache p.shared.now s = none) :
    (machine ttl).Reaches ok p (asked i s r secret p) := by
  have hmissed : Does ttl p.shared .check (.checking s r) p.shared (.reading s r) := .missed hmiss
  exact Tasks.Alone.reaches ((Does.called hparse).alone (hmissed.alone (Does.received.alone .nil)))
    hidle hok

theorem step_cached {ttl i expiresAt : Nat} {s : Str} {r : VaultRef} {resp : Response}
    {p : Pool Nat Shared Phase} (hholds : p.tasks i = .caching s r resp)
    (hdeadline : deadline p.shared.now ttl = some expiresAt) :
    (machine ttl).step p (.task i .insert) = some (cached i s r resp expiresAt p) :=
  step_act (hholds ▸ .stored hdeadline)

/-- Task `i` has asked Vault, cached the answer and finished. -/
def fetched (i : Nat) (s : Str) (r : VaultRef) (secret : Secret) (expiresAt : Nat)
    (p : Pool Nat Shared Phase) : Pool Nat Shared Phase :=
  cached i s r (p.shared.respond r secret) expiresAt (asked i s r secret p)

theorem reaches_fetched {ttl i expiresAt : Nat} {s : Str} {r : VaultRef} {secret : Secret}
    {p : Pool Nat Shared Phase} {ok : Pool Nat Shared Phase → Move Nat Act Event → Prop}
    (hok : ∀ a ∈ [Act.call s, .check, .receive secret, .insert], ∀ p, ok p (.task i a))
    (hidle : p.tasks i = .idle) (hparse : parseVaultRef s = some r)
    (hmiss : checkCache p.shared.cache p.shared.now s = none)
    (hdeadline : deadline p.shared.now ttl = some expiresAt) :
    (machine ttl).Reaches ok p (fetched i s r secret expiresAt p) := by
  have hasked : (machine ttl).Reaches ok p (asked i s r secret p) :=
    reaches_asked (fun a ha => hok a (List.mem_append_left [Act.insert] ha)) hidle hparse hmiss
  exact .step hasked (hok .insert (by simp) _) (step_cached asked_task hdeadline)

/-- Task `i` is answered by the cache. -/
def answered (i : Nat) (s v : Str) (p : Pool Nat Shared Phase) : Pool Nat Shared Phase where
  shared := p.shared
  tasks := Function.update p.tasks i (.done s (.ok (some v)) (some (p.shared.origin s)))

theorem reaches_answered {ttl i : Nat} {s v : Str} {r : VaultRef} {p : Pool Nat Shared Phase}
    (hidle : p.tasks i = .idle) (hparse : parseVaultRef s = some r)
    (hhit : checkCache p.shared.cache p.shared.now s = some v) :
    (machine ttl).Reaches Machine.anyMove p (answered i s v p) := by
  have hchecked : Does ttl p.shared .check (.checking s r) p.shared
      (.done s (.ok (some v)) (some (p.shared.origin s))) := .hit hhit
  exact Tasks.Alone.reaches ((Does.called hparse).alone (hchecked.alone .nil)) hidle
    fun _ _ _ => trivial

/-- Time has passed, and then a secret was rotated. -/
def rotated (d : Nat) (mount path : Str) (p : Pool Nat Shared Phase) : Pool Nat Shared Phase where
  shared := { p.shared with
    now := p.shared.now + d
    latest := fun m q =>
      if m = mount ∧ q = path then p.shared.latest m q + 1 else p.shared.latest m q }
  tasks := p.tasks

theorem reaches_rotated {ttl : Nat} (d : Nat) (mount path : Str) (p : Pool Nat Shared Phase) :
    (machine ttl).Reaches Machine.anyMove p (rotated d mount path p) := by
  have htick : (machine ttl).step p (.env (.tick d)) =
      some { p with shared := { p.shared with now := p.shared.now + d } } := rfl
  have hrotate : (machine ttl).step { p with shared := { p.shared with now := p.shared.now + d } }
      (.env (.rotate mount path)) = some (rotated d mount path p) := rfl
  exact .head trivial htick (.head trivial hrotate .refl)

/-! ## One call alone -/

/-- The outcome of a finished task: a result, or none after a panic. -/
def Phase.outcome : Phase → Option (Option ResolveResult)
  | .done _ result _ => some (some result)
  | .panicked => some none
  | _ => none

/-- A call in whose course only time passes: what it does before Vault answers, and
    what it does from then on. -/
theorem alone_resolveWithValue (ttl : Nat) (read : Reader) (sh : Shared) (s : Str) (d : Nat) :
    ∃ as ph as' sh' ph', (tasks ttl).Alone (.call s :: as) sh .idle sh ph ∧
      (tasks ttl).Alone as' { sh with now := sh.now + d } ph sh' ph' ∧
      ph'.outcome = some (resolveWithValue ttl read sh.now (sh.now + d) s sh.cache).1 ∧
      sh'.cache = (resolveWithValue ttl read sh.now (sh.now + d) s sh.cache).2 := by
  cases hparse : parseVaultRef s with
  | none =>
    simp only [resolveWithValue, hparse]
    exact ⟨_, _, _, _, _, (Does.rejected hparse).alone .nil, .nil, rfl, rfl⟩
  | some r =>
    cases hcheck : checkCache sh.cache sh.now s with
    | some v =>
      simp only [resolveWithValue, hparse, hcheck]
      exact ⟨_, _, _, _, _, (Does.called hparse).alone ((Does.hit hcheck).alone .nil), .nil, rfl, rfl⟩
    | none =>
      have hasks : (tasks ttl).Alone [.call s, .check] sh .idle sh (.reading s r) :=
        (Does.called hparse).alone ((Does.missed hcheck).alone .nil)
      cases hread : read r.mount r.path r.version with
      | error msg =>
        simp only [resolveWithValue, hparse, hcheck, hread]
        exact ⟨_, _, _, _, _, hasks, Does.failed.alone .nil, rfl, rfl⟩
      | ok secret =>
        let later : Shared := { sh with now := sh.now + d }
        have hreceived : Does ttl later (.receive secret) (.reading s r)
            { later with responses := later.responses ++ [later.respond r secret] }
            (.caching s r (later.respond r secret)) := .received
        cases hdeadline : deadline (sh.now + d) ttl with
        | none =>
          simp only [resolveWithValue, hparse, hcheck, hread, hdeadline]
          exact ⟨_, _, _, _, _, hasks, hreceived.alone ((Does.overflowed hdeadline).alone .nil), rfl, rfl⟩
        | some expiresAt =>
          simp only [resolveWithValue, hparse, hcheck, hread, hdeadline]
          exact ⟨_, _, _, _, _, hasks, hreceived.alone ((Does.stored hdeadline).alone .nil), rfl, rfl⟩

end EnvProxy.Vault
