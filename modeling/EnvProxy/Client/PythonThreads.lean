-- SUMMARY: Threads that look up and write one proxy, interleaved; a write against a lookup in flight.
import EnvProxy.Client.Encoders
import EnvProxy.Client.PythonCache
import EnvProxy.Library.Machine

/-!
# Threads of one proxy

The interpreter runs one thread at a time, but switches between the steps of a
call: a lookup reads the real value, looks the key up in the cache, checks the
entry, sends a request, waits, looks at the clock, and stores what it heard. A
write stores the value, then drops the entry. The agent says the same about a
request every time.
-/

namespace EnvProxy.Python

section

variable (Time : Type)

structure Shared where
  proxy : Proxy Time
  now : Time

/-- Where a thread is in its call. -/
inductive Phase where
  | idle
  | reading (key : PyStr)
  | checking (key : PyStr) (real : Option PyStr)
  | validating (key : PyStr) (real : Option PyStr) (entry : CacheEntry Time)
  | sending (key : PyStr) (real : Option PyStr)
  | waiting (key : PyStr) (real : Option PyStr) (sent : Request)
  | stamping (key : PyStr) (real value : Option PyStr)
  | storing (key : PyStr) (real : Option PyStr) (entry : CacheEntry Time)
  | answered (key : PyStr) (result : Except Error PyStr)
  | writing (key value : PyStr)
  | deleting (key : PyStr)
  | dropping (key : PyStr)
  | returned (result : Except Exception Unit)

end

inductive Act where
  | getitem (key : PyStr)
  | setitem (key value : PyStr)
  | delitem (key : PyStr)
  | next

section

variable {Time : Type} [Sub Time] [LT Time] [DecidableLT Time]

/-- A thread makes one call after the other. -/
def Phase.resting : Phase Time → Bool
  | .idle | .answered _ _ | .returned _ => true
  | _ => false

/-- Hand a change to the real environment; the entry is dropped in the next step. -/
def changed (sh : Shared Time) (key : PyStr) : Except Exception Environ → Shared Time × Phase Time
  | .error e => (sh, .returned (.error e))
  | .ok original => ({ sh with proxy := { sh.proxy with original } }, .dropping key)

def act (agent : Request → Reply) (a : Act) (sh : Shared Time) (ph : Phase Time) :
    Option (Shared Time × Phase Time) :=
  match a, ph with
  | .next, .reading key =>
    match osGetitem sh.proxy.original key with
    | .error .unicodeEncodeError => some (sh, .answered key (.error .unicodeEncodeError))
    | .ok real =>
      if !real.startsWith vaultPrefix then some (sh, .answered key (.ok real))
      else some (sh, .checking key (some real))
    | .error (.keyError _) => some (sh, .checking key none)
  | .next, .checking key real =>
    match sh.proxy.cache key with
    | none => some (sh, .sending key real)
    | some entry => some (sh, .validating key real entry)
  | .next, .validating key real entry =>
    if isCacheValid sh.proxy sh.now entry then some (sh, .answered key (answer key entry.value))
    else some (sh, .sending key real)
  | .next, .sending key real =>
    match request sh.proxy.sockPath key real with
    | .error e => some (sh, .answered key (.error e))
    | .ok none => some (sh, .stamping key real none)
    | .ok (some sent) => some (sh, .waiting key real sent)
  | .next, .waiting key real sent => some (sh, .stamping key real (received (agent sent)))
  | .next, .stamping key real value =>
    some (sh, .storing key real { value, timestamp := sh.now })
  | .next, .storing key _ entry =>
    some ({ sh with proxy := sh.proxy.store key entry }, .answered key (answer key entry.value))
  | .next, .writing key value => some (changed sh key (osSetitem sh.proxy.original key value))
  | .next, .deleting key => some (changed sh key (osDelitem sh.proxy.original key))
  | .next, .dropping key =>
    some ({ sh with proxy.cache := Function.update sh.proxy.cache key none }, .returned (.ok ()))
  | .next, _ => none
  | .getitem key, ph => if ph.resting then some (sh, .reading key) else none
  | .setitem key value, ph => if ph.resting then some (sh, .writing key value) else none
  | .delitem key, ph => if ph.resting then some (sh, .deleting key) else none

/-- Time passes. -/
def elapse (now : Time) (sh : Shared Time) : Option (Shared Time) := some { sh with now }

def threads (agent : Request → Reply) : Tasks (Shared Time) (Phase Time) Act Time where
  act := act agent
  env := elapse

/-- The interleavings of any number of threads. -/
def machine (agent : Request → Reply) :
    Machine (Pool Nat (Shared Time) (Phase Time)) (Move Nat Act Time) :=
  (threads agent).machine

def start (proxy : Proxy Time) (now : Time) : Pool Nat (Shared Time) (Phase Time) where
  shared := { proxy, now }
  tasks := fun _ => .idle

/-! ## What a step does -/

/-- The value is what the agent says about the key with its real value. -/
def Replied (agent : Request → Reply) (sockPath key : PyStr) (real value : Option PyStr) : Prop :=
  ∃ sent, request sockPath key real = .ok sent ∧
    value = sent.bind fun request => received (agent request)

/-- The steps by what they do. -/
inductive Does (agent : Request → Reply) (sh : Shared Time) :
    Act → Phase Time → Shared Time → Phase Time → Prop where
  | getitem {key ph} : ph.resting = true → Does agent sh (.getitem key) ph sh (.reading key)
  | setitem {key value ph} : ph.resting = true →
      Does agent sh (.setitem key value) ph sh (.writing key value)
  | delitem {key ph} : ph.resting = true → Does agent sh (.delitem key) ph sh (.deleting key)
  | real {key} : ¬ Unanswered sh.proxy key →
      Does agent sh .next (.reading key) sh (.answered key (osGetitem sh.proxy.original key))
  | unanswered {key} : Unanswered sh.proxy key →
      Does agent sh .next (.reading key) sh
        (.checking key (osGetitem sh.proxy.original key).toOption)
  | missed {key real} : sh.proxy.cache key = none →
      Does agent sh .next (.checking key real) sh (.sending key real)
  | found {key real entry} : sh.proxy.cache key = some entry →
      Does agent sh .next (.checking key real) sh (.validating key real entry)
  | hit {key real entry} : isCacheValid sh.proxy sh.now entry = true →
      Does agent sh .next (.validating key real entry) sh (.answered key (answer key entry.value))
  | expired {key real entry} : isCacheValid sh.proxy sh.now entry = false →
      Does agent sh .next (.validating key real entry) sh (.sending key real)
  | raised {key real e} : request sh.proxy.sockPath key real = .error e →
      Does agent sh .next (.sending key real) sh (.answered key (.error e))
  | unsent {key real} : request sh.proxy.sockPath key real = .ok none →
      Does agent sh .next (.sending key real) sh (.stamping key real none)
  | sent {key real sent} : request sh.proxy.sockPath key real = .ok (some sent) →
      Does agent sh .next (.sending key real) sh (.waiting key real sent)
  | received {key real sent} :
      Does agent sh .next (.waiting key real sent) sh
        (.stamping key real (received (agent sent)))
  | stamped {key real value} :
      Does agent sh .next (.stamping key real value) sh
        (.storing key real { value, timestamp := sh.now })
  | stored {key real entry} :
      Does agent sh .next (.storing key real entry)
        { sh with proxy := sh.proxy.store key entry } (.answered key (answer key entry.value))
  | refused {key value e} : osSetitem sh.proxy.original key value = .error e →
      Does agent sh .next (.writing key value) sh (.returned (.error e))
  | written {key value original} : osSetitem sh.proxy.original key value = .ok original →
      Does agent sh .next (.writing key value)
        { sh with proxy := { sh.proxy with original } } (.dropping key)
  | kept {key e} : osDelitem sh.proxy.original key = .error e →
      Does agent sh .next (.deleting key) sh (.returned (.error e))
  | deleted {key original} : osDelitem sh.proxy.original key = .ok original →
      Does agent sh .next (.deleting key)
        { sh with proxy := { sh.proxy with original } } (.dropping key)
  | dropped {key} :
      Does agent sh .next (.dropping key)
        { sh with proxy.cache := Function.update sh.proxy.cache key none } (.returned (.ok ()))

theorem act_reading (agent : Request → Reply) (sh : Shared Time) (key : PyStr) :
    act agent .next sh (.reading key) =
      some (sh,
        if Unanswered sh.proxy key then
          .checking key (osGetitem sh.proxy.original key).toOption
        else .answered key (osGetitem sh.proxy.original key)) := by
  simp only [act]
  cases hreal : osGetitem sh.proxy.original key with
  | ok real =>
    simp only [unanswered_real hreal]
    cases hvault : real.startsWith vaultPrefix with
    | true => rfl
    | false => rfl
  | error e =>
    simp only [unanswered_error hreal]
    cases osGetitem_error hreal with
    | inl h =>
      rw [h.1, if_neg Error.noConfusion]
    | inr h =>
      rw [h, if_pos rfl]
      rfl

theorem act_does {agent : Request → Reply} {a : Act} {sh sh' : Shared Time} {ph ph' : Phase Time}
    (h : act agent a sh ph = some (sh', ph')) : Does agent sh a ph sh' ph' := by
  cases a with
  | getitem key =>
    simp only [act] at h
    split at h
    · next hresting => cases h; exact .getitem hresting
    · cases h
  | setitem key value =>
    simp only [act] at h
    split at h
    · next hresting => cases h; exact .setitem hresting
    · cases h
  | delitem key =>
    simp only [act] at h
    split at h
    · next hresting => cases h; exact .delitem hresting
    · cases h
  | next =>
    cases ph with
    | idle => cases h
    | answered key result => cases h
    | returned result => cases h
    | reading key =>
      rw [act_reading, Option.some.injEq, Prod.mk.injEq] at h
      obtain ⟨rfl, rfl⟩ := h
      by_cases hunanswered : Unanswered sh.proxy key
      · rw [if_pos hunanswered]
        exact .unanswered hunanswered
      · rw [if_neg hunanswered]
        exact .real hunanswered
    | checking key real =>
      simp only [act] at h
      split at h
      · next hcache => cases h; exact .missed hcache
      · next entry hcache => cases h; exact .found hcache
    | validating key real entry =>
      simp only [act] at h
      split at h
      · next hvalid => cases h; exact .hit hvalid
      · next hvalid => cases h; exact .expired (Bool.eq_false_iff.mpr hvalid)
    | sending key real =>
      simp only [act] at h
      split at h
      · next e hrequest => cases h; exact .raised hrequest
      · next hrequest => cases h; exact .unsent hrequest
      · next sent hrequest => cases h; exact .sent hrequest
    | waiting key real sent => cases h; exact .received
    | stamping key real value => cases h; exact .stamped
    | storing key real entry => cases h; exact .stored
    | writing key value =>
      simp only [act, changed] at h
      split at h
      · next e hset => cases h; exact .refused hset
      · next original hset => cases h; exact .written hset
    | deleting key =>
      simp only [act, changed] at h
      split at h
      · next e hdel => cases h; exact .kept hdel
      · next original hdel => cases h; exact .deleted hdel
    | dropping key => cases h; exact .dropped

theorem Does.act {agent : Request → Reply} {a : Act} {sh sh' : Shared Time} {ph ph' : Phase Time}
    (h : Does agent sh a ph sh' ph') : Python.act agent a sh ph = some (sh', ph') := by
  cases h with
  | getitem hresting => simp only [Python.act, if_pos hresting]
  | setitem hresting => simp only [Python.act, if_pos hresting]
  | delitem hresting => simp only [Python.act, if_pos hresting]
  | real hanswered => rw [act_reading, if_neg hanswered]
  | unanswered hunanswered => rw [act_reading, if_pos hunanswered]
  | missed hcache => simp only [Python.act, hcache]
  | found hcache => simp only [Python.act, hcache]
  | hit hvalid => simp only [Python.act, hvalid, if_true]
  | expired hvalid => simp [Python.act, hvalid]
  | raised hrequest => simp only [Python.act, hrequest]
  | unsent hrequest => simp only [Python.act, hrequest]
  | sent hrequest => simp only [Python.act, hrequest]
  | received => rfl
  | stamped => rfl
  | stored => rfl
  | refused hset => simp only [Python.act, hset, changed]
  | written hset => simp only [Python.act, hset, changed]
  | kept hdel => simp only [Python.act, hdel, changed]
  | deleted hdel => simp only [Python.act, hdel, changed]
  | dropped => rfl

theorem step_does {agent : Request → Reply} {i : Nat} {a : Act}
    {p p' : Pool Nat (Shared Time) (Phase Time)}
    (h : (machine agent).step p (.task i a) = some p') :
    Does agent p.shared a (p.tasks i) p'.shared (p'.tasks i) ∧
      ∀ j, j ≠ i → p'.tasks j = p.tasks j := by
  obtain ⟨sh', ph', hact, rfl⟩ := Tasks.step_task_iff.mp h
  refine ⟨?_, fun j hj => Function.update_of_ne hj _ _⟩
  simpa using act_does hact

/-! ## What is heard is what was asked for -/

/-- A lookup that holds a value holds the reply to its own request. -/
def Heard (agent : Request → Reply) (sockPath : PyStr) : Phase Time → Prop
  | .waiting key real sent => request sockPath key real = .ok (some sent)
  | .stamping key real value => Replied agent sockPath key real value
  | .storing key real entry => Replied agent sockPath key real entry.value
  | _ => True

theorem Does.sockPath {agent : Request → Reply} {a : Act} {sh sh' : Shared Time}
    {ph ph' : Phase Time} (h : Does agent sh a ph sh' ph') :
    sh'.proxy.sockPath = sh.proxy.sockPath := by
  cases h <;> rfl

theorem Does.heard {agent : Request → Reply} {a : Act} {sh sh' : Shared Time}
    {ph ph' : Phase Time} (hheard : Heard agent sh.proxy.sockPath ph)
    (h : Does agent sh a ph sh' ph') : Heard agent sh.proxy.sockPath ph' := by
  cases h with
  | unsent hrequest => exact ⟨none, hrequest, rfl⟩
  | @sent key real sent hrequest => exact hrequest
  | @received key real sent => exact ⟨some sent, hheard, rfl⟩
  | stamped => exact hheard
  | _ => trivial

/-- One socket, and every thread holds the reply to its own request. -/
def ownReply (agent : Request → Reply) (sockPath : PyStr) :
    Tasks.Inv Nat (Shared Time) (Phase Time) where
  shared := fun sh => sh.proxy.sockPath = sockPath
  task := fun _ _ => Heard agent sockPath

theorem ownReply_kept (agent : Request → Reply) (sockPath : PyStr) :
    (ownReply agent sockPath).Kept (threads agent) (.any : Tasks.Guard (Shared Time) (Phase Time) Act Time) where
  act := by
    intro i a sh ph sh' ph' _ hsock hheard hact
    have hsock' : sh.proxy.sockPath = sockPath := hsock
    subst hsock'
    have hdoes := act_does hact
    exact ⟨hdoes.sockPath, hdoes.heard hheard⟩
  act_stable := fun _ _ _ _ hheard _ => hheard
  env := by
    intro now sh sh' _ hsock henv
    cases henv
    exact hsock
  env_stable := fun _ _ hheard _ => hheard

theorem heard_of_reaches {agent : Request → Reply} {proxy : Proxy Time} {now : Time}
    {p : Pool Nat (Shared Time) (Phase Time)}
    (h : (machine agent).Reaches Machine.anyMove (start proxy now) p) :
    p.shared.proxy.sockPath = proxy.sockPath ∧
      ∀ i, Heard agent proxy.sockPath (p.tasks i) := by
  have hstart : (ownReply agent proxy.sockPath).holds (start proxy now) :=
    ⟨rfl, fun _ => trivial⟩
  exact (ownReply_kept agent proxy.sockPath).reaches_any h hstart

/-! ## After the last write -/

/-- The variable the key names is not written. -/
def Quiet (key : PyStr) : Act → Phase Time → Prop
  | .next, .writing other _ | .next, .deleting other => other.encode ≠ key.encode
  | _, _ => True

/-- A reply is stored under the key only if it is the reply for the value the variable
    has. -/
def StoresCurrent (key : PyStr) : Act → Shared Time → Phase Time → Prop
  | .next, sh, .storing stored real _ =>
    stored = key → real = (osGetitem sh.proxy.original key).toOption
  | _, _, _ => True

def quiet (key : PyStr) : Tasks.Guard (Shared Time) (Phase Time) Act Time where
  act := fun a _ ph => Quiet key a ph
  env := fun _ _ => True

def settled (key : PyStr) : Tasks.Guard (Shared Time) (Phase Time) Act Time where
  act := fun a sh ph => Quiet key a ph ∧ StoresCurrent key a sh ph
  env := fun _ _ => True

theorem Does.quiet {agent : Request → Reply} {a : Act} {sh sh' : Shared Time}
    {ph ph' : Phase Time} {key : PyStr} (h : Does agent sh a ph sh' ph') (hquiet : Quiet key a ph) :
    osGetitem sh'.proxy.original key = osGetitem sh.proxy.original key := by
  cases h with
  | @written other value original hset =>
    have hwritten : Python.written sh.proxy.original (.setitem other value) = some (other, .ok original) :=
      congrArg (fun change => some (other, change)) hset
    exact osGetitem_written hwritten (Ne.symm hquiet)
  | @deleted other original hdel =>
    have hwritten : Python.written sh.proxy.original (.delitem other) = some (other, .ok original) :=
      congrArg (fun change => some (other, change)) hdel
    exact osGetitem_written hwritten (Ne.symm hquiet)
  | _ => rfl

/-- What a lookup of the key says when it goes to the agent. -/
def replyFor (agent : Request → Reply) (sockPath key : PyStr) (value : Option PyStr) :
    Except Error PyStr :=
  match request sockPath key value with
  | .error e => .error e
  | .ok sent => answer key (sent.bind fun request => received (agent request))

theorem Replied.answer {agent : Request → Reply} {sockPath key : PyStr} {real value : Option PyStr}
    (h : Replied agent sockPath key real value) :
    Python.answer key value = replyFor agent sockPath key real := by
  obtain ⟨sent, hrequest, rfl⟩ := h
  simp only [replyFor, hrequest]

/-- The variable is a reference, and the entry of the key, if there is one, is the
    reply for it. -/
structure Settled (agent : Request → Reply) (sockPath key real : PyStr) (sh : Shared Time) :
    Prop where
  socket : sh.proxy.sockPath = sockPath
  value : osGetitem sh.proxy.original key = .ok real
  vault : real.startsWith vaultPrefix = true
  entry : ∀ entry, sh.proxy.cache key = some entry →
    Replied agent sockPath key (some real) entry.value

/-- A lookup that began after the write has read the value written. -/
def Fresh (agent : Request → Reply) (sockPath key real : PyStr) : Phase Time → Prop
  | .checking k value | .sending k value | .waiting k value _ | .stamping k value _
  | .storing k value _ => k = key → value = some real
  | .validating k value entry =>
    k = key → value = some real ∧ Replied agent sockPath key (some real) entry.value
  | .answered k result => k = key → result = replyFor agent sockPath key (some real)
  | _ => True

section

variable {agent : Request → Reply} {sockPath key real : PyStr} {a : Act}
  {sh sh' : Shared Time} {ph ph' : Phase Time}

theorem Settled.step (hsettled : Settled agent sockPath key real sh)
    (hheard : Heard agent sockPath ph) (hquiet : Quiet key a ph) (hstores : StoresCurrent key a sh ph)
    (h : Does agent sh a ph sh' ph') : Settled agent sockPath key real sh' where
  socket := h.sockPath.trans hsettled.socket
  value := (h.quiet hquiet).trans hsettled.value
  vault := hsettled.vault
  entry := by
    intro entry hentry
    cases h with
    | @stored k value stored =>
      by_cases hk : k = key
      · subst hk
        have hvalue : value = some real := by
          rw [hstores rfl, hsettled.value]
          rfl
        simp only [Proxy.store, Function.update_self, Option.some.injEq] at hentry
        subst hentry hvalue
        exact hheard
      · simp only [Proxy.store, Function.update_of_ne (Ne.symm hk)] at hentry
        exact hsettled.entry entry hentry
    | @dropped k =>
      by_cases hk : k = key
      · subst hk
        simp at hentry
      · simp only [Function.update_of_ne (Ne.symm hk)] at hentry
        exact hsettled.entry entry hentry
    | _ => exact hsettled.entry entry hentry

theorem Fresh.step (hsettled : Settled agent sockPath key real sh)
    (hfresh : Fresh agent sockPath key real ph) (hheard : Heard agent sockPath ph)
    (h : Does agent sh a ph sh' ph') : Fresh agent sockPath key real ph' := by
  cases h with
  | getitem _ => trivial
  | setitem _ => trivial
  | delitem _ => trivial
  | @real k hreal =>
    rintro rfl
    exact absurd ((unanswered_real hsettled.value).mpr hsettled.vault) hreal
  | @unanswered k hunanswered =>
    rintro rfl
    rw [hsettled.value]
    rfl
  | missed hcache => exact hfresh
  | @found k value entry hcache =>
    rintro rfl
    exact ⟨hfresh rfl, hsettled.entry entry hcache⟩
  | @hit k value entry hvalid =>
    rintro rfl
    exact (hfresh rfl).2.answer
  | expired hvalid => exact fun hk => (hfresh hk).1
  | @raised k value e hrequest =>
    rintro rfl
    have hvalue := hfresh rfl
    subst hvalue
    rw [hsettled.socket] at hrequest
    simp only [replyFor, hrequest]
  | unsent hrequest => exact hfresh
  | sent hrequest => exact hfresh
  | received => exact hfresh
  | stamped => exact hfresh
  | @stored k value entry =>
    rintro rfl
    have hvalue := hfresh rfl
    subst hvalue
    exact Replied.answer hheard
  | refused _ => trivial
  | written _ => trivial
  | kept _ => trivial
  | deleted _ => trivial
  | dropped => trivial

end

/-- The state after the last write; `late` are the threads whose lookups began then. -/
def afterWrite (agent : Request → Reply) (sockPath key real : PyStr) (late : Nat → Prop) :
    Tasks.Inv Nat (Shared Time) (Phase Time) where
  shared := Settled agent sockPath key real
  task := fun i _ ph =>
    Heard agent sockPath ph ∧ (late i → Fresh agent sockPath key real ph)

theorem afterWrite_kept (agent : Request → Reply) (sockPath key real : PyStr) (late : Nat → Prop) :
    (afterWrite agent sockPath key real late).Kept (threads agent)
      (settled key : Tasks.Guard (Shared Time) (Phase Time) Act Time) where
  act := by
    intro i a sh ph sh' ph' hguard hsettled htask hact
    have hdoes := act_does hact
    have hheard : Heard agent sh.proxy.sockPath ph := hsettled.socket.symm ▸ htask.1
    refine ⟨hsettled.step htask.1 hguard.1 hguard.2 hdoes, ?_, fun hlate => ?_⟩
    · exact hsettled.socket ▸ hdoes.heard hheard
    · exact Fresh.step hsettled (htask.2 hlate) htask.1 hdoes
  act_stable := fun _ _ _ _ htask _ => htask
  env := by
    intro now sh sh' _ hsettled henv
    cases henv
    exact ⟨hsettled.socket, hsettled.value, hsettled.vault, hsettled.entry⟩
  env_stable := fun _ _ htask _ => htask

/-- What is read back of a reference is a reference, with the same request. -/
theorem setitem_vault {env original : Environ} {key value : PyStr}
    (h : osSetitem env key value = .ok original) (hvault : value.startsWith vaultPrefix = true) :
    ∃ real, osGetitem original key = .ok real ∧ real.startsWith vaultPrefix = true ∧
      ∀ sockPath, request sockPath key (some real) = request sockPath key (some value) := by
  obtain ⟨name, text, hname, htext, rfl⟩ := osSetitem_ok h
  refine ⟨.decode text.bytes, ?_, ?_, fun sockPath => ?_⟩
  · rw [osGetitem_encoded hname, Environ.get_set_self]
  · rw [PyStr.startsWith_decode vaultPrefix_ascii]
    exact PyStr.encode_prefix (List.isPrefixOf_iff_prefix.mp hvault) htext
  · simp only [request, encode, hname, htext, PyStr.encode_decode]

/-- `result` is what a lookup of the key answers that began after the last write to it,
    of `value`, had returned. The moves after the return meet `g`. -/
inductive Observed (agent : Request → Reply)
    (g : Tasks.Guard (Shared Time) (Phase Time) Act Time) (proxy : Proxy Time) (now : Time)
    (key value : PyStr) (result : Except Error PyStr) : Prop where
  | intro {w i : Nat} {p₀ p₁ p₂ p₃ q₀ q₁ q : Pool Nat (Shared Time) (Phase Time)}
    (before : (machine agent).Reaches Machine.anyMove (start proxy now) p₀)
    (writing : p₀.tasks w = .writing key value)
    (store : (machine agent).step p₀ (.task w .next) = some p₁)
    (stored : p₁.tasks w = .dropping key)
    (meanwhile : (machine agent).Reaches (quiet key).ok p₁ p₂)
    (dropping : p₂.tasks w = .dropping key)
    (drop : (machine agent).step p₂ (.task w .next) = some p₃)
    (after : (machine agent).Reaches g.ok p₃ q₀)
    (call : (machine agent).step q₀ (.task i (.getitem key)) = some q₁)
    (lookup : (machine agent).Reaches g.ok q₁ q)
    (answered : q.tasks i = .answered key result)

theorem osGetitem_quiet {agent : Request → Reply} {key : PyStr}
    {p p' : Pool Nat (Shared Time) (Phase Time)}
    (h : (machine agent).Reaches (quiet key).ok p p') :
    osGetitem p'.shared.proxy.original key = osGetitem p.shared.proxy.original key := by
  refine h.invariant (I := fun q =>
    osGetitem q.shared.proxy.original key = osGetitem p.shared.proxy.original key) rfl ?_
  intro q move q' hq hok hstep
  cases move with
  | task i a => exact ((step_does hstep).1.quiet hok).trans hq
  | env now =>
    obtain ⟨sh, henv, rfl⟩ := Tasks.step_env_iff.mp hstep
    cases henv
    exact hq

section

variable {agent : Request → Reply} {key value : PyStr} {sh sh' : Shared Time} {ph ph' : Phase Time}

theorem Does.of_writing (h : Does agent sh .next (.writing key value) sh' (.dropping key)) :
    osSetitem sh.proxy.original key value = .ok sh'.proxy.original := by
  cases h with
  | written hset => exact hset

theorem Does.of_dropping (h : Does agent sh .next (.dropping key) sh' ph') :
    sh'.proxy.original = sh.proxy.original ∧ sh'.proxy.cache key = none := by
  cases h with
  | dropped => exact ⟨rfl, Function.update_self ..⟩

theorem Does.of_getitem (h : Does agent sh (.getitem key) ph sh' ph') :
    sh' = sh ∧ ph' = .reading key := by
  cases h with
  | getitem _ => exact ⟨rfl, rfl⟩

end

/-- If after the return of the last write no reply for an earlier value is stored, a
    lookup that begins then answers with the reply for the value written. -/
theorem write_kept {agent : Request → Reply} {proxy : Proxy Time} {now : Time}
    {key value : PyStr} {result : Except Error PyStr} (hvault : value.startsWith vaultPrefix = true)
    (h : Observed agent (settled key) proxy now key value result) :
    result = replyFor agent proxy.sockPath key (some value) := by
  cases h with
  | @intro w i p₀ p₁ p₂ p₃ q₀ q₁ q hbefore hwriting hstore hstored hmeanwhile hdropping hdrop hafter
      hcall hlookup hanswered =>
    have hstore' := (step_does hstore).1
    have hdrop' := (step_does hdrop).1
    rw [hwriting, hstored] at hstore'
    rw [hdropping] at hdrop'
    obtain ⟨hkept, hentry⟩ := hdrop'.of_dropping
    obtain ⟨real, hreal, hreference, hrequest⟩ := setitem_vault hstore'.of_writing hvault
    have hreal₃ : osGetitem p₃.shared.proxy.original key = .ok real := by
      rw [hkept, osGetitem_quiet hmeanwhile, hreal]
    obtain ⟨hsocket, hheard⟩ : p₃.shared.proxy.sockPath = proxy.sockPath ∧
        ∀ j, Heard agent proxy.sockPath (p₃.tasks j) := by
      have hdropped : (machine agent).Reaches Machine.anyMove p₁ p₃ :=
        .step (hmeanwhile.mono fun _ _ _ => trivial) trivial hdrop
      exact heard_of_reaches ((Machine.Reaches.step hbefore trivial hstore).trans hdropped)
    have hsettled : Settled agent proxy.sockPath key real p₃.shared :=
      ⟨hsocket, hreal₃, hreference, fun entry h => nomatch hentry.symm.trans h⟩
    -- No lookup is known to be late when the write returns; the one that is called then is.
    have hq₀ := (afterWrite_kept agent proxy.sockPath key real fun _ => False).reaches hafter
      ⟨hsettled, fun j => ⟨hheard j, False.elim⟩⟩
    have hq₁ : (afterWrite agent proxy.sockPath key real (· = i)).holds q₁ := by
      obtain ⟨hcall', hothers⟩ := step_does hcall
      obtain ⟨hshared, hreading⟩ := hcall'.of_getitem
      refine ⟨hshared ▸ hq₀.1, fun j => ⟨?_, ?_⟩⟩
      · by_cases hj : j = i
        · rw [hj, hreading]
          trivial
        · rw [hothers j hj]
          exact (hq₀.2 j).1
      · rintro rfl
        rw [hreading]
        trivial
    have hq := (afterWrite_kept agent proxy.sockPath key real (· = i)).reaches hlookup hq₁
    have hfresh := (hq.2 i).2 rfl
    rw [hanswered] at hfresh
    rw [hfresh rfl]
    simp only [replyFor, hrequest]

/-! ## Undisturbed calls -/

theorem Does.alone {agent : Request → Reply} {a : Act} {acts : List Act}
    {sh sh' sh'' : Shared Time} {ph ph' ph'' : Phase Time} (h : Does agent sh a ph sh' ph')
    (hrest : (threads agent).Alone acts sh' ph' sh'' ph'') :
    (threads agent).Alone (a :: acts) sh ph sh'' ph'' :=
  .cons h.act hrest

section

variable {o : Oracle Time} {agent : Request → Reply}

/-- The steps from the request on are those of `refresh`. -/
theorem alone_sending (hsteady : o.Steady agent) {sh : Shared Time}
    (hclock : ∀ n, o.clock n = sh.now) (key : PyStr) (real : Option PyStr) (t : Trace) :
    ∃ acts, (threads agent).Alone acts sh (.sending key real)
      { sh with proxy := (Recorded.exec (refresh o.world sh.proxy key real) t).1.2 }
      (.answered key (Recorded.exec (refresh o.world sh.proxy key real) t).1.1) := by
  rw [exec_refresh]
  cases hrequest : request sh.proxy.sockPath key real with
  | error e => exact ⟨[.next], (Does.raised hrequest).alone .nil⟩
  | ok sent =>
    simp only [hclock, heard_steady hsteady]
    cases sent with
    | none =>
      exact ⟨[.next, .next, .next], (Does.unsent hrequest).alone (Does.stamped.alone
        (Does.stored.alone .nil))⟩
    | some sent =>
      exact ⟨[.next, .next, .next, .next], (Does.sent hrequest).alone (Does.received.alone
        (Does.stamped.alone (Does.stored.alone .nil)))⟩

/-- A thread that nobody disturbs looks a key up as `getitem` does. -/
theorem alone_getitem (hsteady : o.Steady agent) {sh : Shared Time}
    (hclock : ∀ n, o.clock n = sh.now) (key : PyStr) (t : Trace) :
    ∃ acts, (threads agent).Alone acts sh (.reading key)
      { sh with proxy := (Recorded.exec (getitem o.world sh.proxy key) t).1.2 }
      (.answered key (Recorded.exec (getitem o.world sh.proxy key) t).1.1) := by
  by_cases hunanswered : Unanswered sh.proxy key
  · rw [getitem_unanswered _ hunanswered]
    cases hentry : sh.proxy.cache key with
    | none =>
      obtain ⟨acts, hsending⟩ := alone_sending hsteady hclock key
        (osGetitem sh.proxy.original key).toOption t
      simp only [resolve, hentry]
      exact ⟨_, (Does.unanswered hunanswered).alone ((Does.missed hentry).alone hsending)⟩
    | some entry =>
      cases hvalid : isCacheValid sh.proxy sh.now entry with
      | true =>
        simp only [resolve, hentry, Recorded.exec_bind, Recorded.exec_clock, hclock, hvalid, if_true]
        exact ⟨_, (Does.unanswered hunanswered).alone ((Does.found hentry).alone
          ((Does.hit hvalid).alone .nil))⟩
      | false =>
        obtain ⟨acts, hsending⟩ := alone_sending hsteady hclock key
          (osGetitem sh.proxy.original key).toOption t.tick
        simp only [resolve, hentry, Recorded.exec_bind, Recorded.exec_clock, hclock, hvalid,
          Bool.false_eq_true, if_false]
        exact ⟨_, (Does.unanswered hunanswered).alone ((Does.found hentry).alone
          ((Does.expired hvalid).alone hsending))⟩
  · rw [getitem_real _ hunanswered]
    exact ⟨[.next], (Does.real hunanswered).alone .nil⟩

/-- And writes it as `setitem` does. -/
theorem alone_setitem (agent : Request → Reply) (sh : Shared Time) (key value : PyStr) :
    ∃ acts, (threads agent).Alone acts sh (.writing key value)
      { sh with proxy := (setitem sh.proxy key value).2 }
      (.returned (setitem sh.proxy key value).1) := by
  cases hset : osSetitem sh.proxy.original key value with
  | error e =>
    simp only [setitem, write, hset]
    exact ⟨[.next], (Does.refused hset).alone .nil⟩
  | ok original =>
    simp only [setitem, write, hset]
    exact ⟨[.next, .next], (Does.written hset).alone (Does.dropped.alone .nil)⟩

/-- A reply that is stored while the variable is a reference is what the next lookup
    answers with, whatever it was the reply to. -/
theorem stored_served {p : Pool Nat (Shared Time) (Phase Time)} {i j : Nat} {key : PyStr}
    {real : Option PyStr} {entry : CacheEntry Time} (hstoring : p.tasks i = .storing key real entry)
    (hunanswered : Unanswered p.shared.proxy key) (hj : j ≠ i)
    (hresting : (p.tasks j).resting = true)
    (hvalid : isCacheValid p.shared.proxy p.shared.now entry = true) :
    ∃ q, (machine agent).Reaches Machine.anyMove p q ∧
      q.tasks j = .answered key (answer key entry.value) := by
  let sh : Shared Time := { p.shared with proxy := p.shared.proxy.store key entry }
  have hstored : (machine agent).step p (.task i .next) =
      some
        { shared := sh
          tasks := Function.update p.tasks i (.answered key (answer key entry.value)) } := by
    have hdoes : Does agent p.shared .next (.storing key real entry) sh
        (.answered key (answer key entry.value)) := .stored
    exact Tasks.step_task_iff.mpr ⟨sh, _, hstoring ▸ hdoes.act, rfl⟩
  have hentry : sh.proxy.cache key = some entry := Function.update_self ..
  have hunanswered' : Unanswered sh.proxy key := hunanswered
  have hvalid' : isCacheValid sh.proxy sh.now entry = true := hvalid
  have hlookup : (threads agent).Alone [.getitem key, .next, .next, .next] sh (p.tasks j) sh
      (.answered key (answer key entry.value)) :=
    (Does.getitem hresting).alone ((Does.unanswered hunanswered').alone ((Does.found hentry).alone
      ((Does.hit hvalid').alone .nil)))
  refine ⟨_, .head trivial hstored (Tasks.Alone.reaches (i := j) hlookup ?_ fun _ _ _ => trivial), ?_⟩
  · exact Function.update_of_ne hj _ _
  · exact Function.update_self ..

end

end

/-! ## A lookup in flight -/

section

variable {agent : Request → Reply} {sh sh' : Shared Int} {moving other ph : Phase Int} {a : Act}

theorem step_threads (side : Pool.Side) (h : Does agent sh a moving sh' ph) :
    (machine agent).step (.two .idle sh (side.pair moving other)) (.task side.index a) =
      some (.two .idle sh' (side.pair ph other)) :=
  Tasks.step_two side h.act

theorem reaches_threads {g : Tasks.Guard (Shared Int) (Phase Int) Act Int}
    {q : Pool Nat (Shared Int) (Phase Int)} (side : Pool.Side) (h : Does agent sh a moving sh' ph)
    (hok : g.act a sh moving)
    (hrest : (machine agent).Reaches g.ok (.two .idle sh' (side.pair ph other)) q) :
    (machine agent).Reaches g.ok (.two .idle sh (side.pair moving other)) q :=
  Tasks.reaches_two side h.act hok hrest

/-- The reply to a lookup arrives and is stored. -/
theorem reaches_stored {key : PyStr} {real : Option PyStr} {asked : Request} {entry : CacheEntry Int}
    (side : Pool.Side) (hentry : entry = { value := received (agent asked), timestamp := sh.now }) :
    (machine agent).Reaches (quiet key).ok
      (.two .idle sh (side.pair (.waiting key real asked) other))
      (.two .idle { sh with proxy := sh.proxy.store key entry }
        (side.pair (.answered key (answer key entry.value)) other)) := by
  subst hentry
  exact reaches_threads side .received trivial (reaches_threads side .stamped trivial
    (reaches_threads side .stored trivial .refl))

end

/-- An agent that says something else about every request. -/
def echo (request : Request) : Reply := .carrying request.frame

def secretKey : PyStr := .ofStr ['K']

def referenceA : CStr := .lit "vault:a"
def referenceB : CStr := .lit "vault:b"

/-- The variable is a reference, and nothing is cached. -/
def holding (reference : CStr) : Proxy Int :=
  { emptyProxy with original := [(.lit "K", reference)] }

def requestFor (reference : CStr) : Request where
  path := Utf8.encode defaultSocketPath
  frame := protocolFrame (Utf8.encode ['K']) (some reference.bytes)

theorem osGetitem_holding (reference : CStr) :
    osGetitem (holding reference).original secretKey = .ok (.decode reference.bytes) := by
  have hname : secretKey.encode = some (Utf8.encode ['K']) := by decide
  rw [osGetitem_encoded hname]
  rfl

theorem unanswered_holding {reference : CStr} (h : reference.startsWith vaultPrefix = true) :
    Unanswered (holding reference) secretKey :=
  (unanswered_real (osGetitem_holding reference)).mpr
    ((PyStr.startsWith_decode vaultPrefix_ascii _).mpr (CStr.startsWith_iff.mp h))

theorem request_holding {reference : CStr} (h : reference.bytes.length ≤ 0xFFFF) {value : PyStr}
    (hvalue : value.encode = some reference.bytes) :
    request emptyProxy.sockPath secretKey (some value) = .ok (some (requestFor reference)) := by
  have hname : secretKey.encode = some (Utf8.encode ['K']) := by decide
  have hpath : emptyProxy.sockPath.encode = some (Utf8.encode defaultSocketPath) := by decide
  have hkey : ¬ (Utf8.encode ['K']).length > 0xFFFF := by decide
  have hlong : ¬ reference.bytes.length > 0xFFFF := Nat.not_lt.mpr h
  simp only [request, encode, hname, hkey, hvalue, hlong, hpath, if_false, requestFor]

theorem received_echo {request : Request} (h : request.frame.length ≤ maxValueLen) :
    received (echo request) = some (.decode request.frame) := by
  rw [received_eq, echo, Reply.found_carrying h]
  rfl

theorem start_holding (reference : CStr) :
    start (holding reference) 0 = .two .idle { proxy := holding reference, now := 0 } (.idle, .idle) :=
  (Pool.two_rest ..).symm

theorem does_written_holding :
    Does echo { proxy := holding referenceA, now := 0 } .next
      (.writing secretKey (.ofStr "vault:b".toList)) { proxy := holding referenceB, now := 0 }
      (.dropping secretKey) := by
  have hset : osSetitem (holding referenceA).original secretKey (.ofStr "vault:b".toList) =
      .ok (holding referenceB).original := by decide
  exact .written hset

/-- The first thread waits for the reply to the first reference, and the second one is
    about to write the second reference. -/
theorem reaches_waiting :
    (machine echo).Reaches Machine.anyMove (start (holding referenceA) 0)
      (.two .idle { proxy := holding referenceA, now := 0 }
        (.waiting secretKey (some (.decode referenceA.bytes)) (requestFor referenceA),
          .writing secretKey (.ofStr "vault:b".toList))) := by
  let sh : Shared Int := { proxy := holding referenceA, now := 0 }
  let real : PyStr := .decode referenceA.bytes
  have hrequest : request sh.proxy.sockPath secretKey (some real) = .ok (some (requestFor referenceA)) :=
    request_holding (by decide) (PyStr.encode_decode _)
  have hread : Does echo sh .next (.reading secretKey) sh (.checking secretKey (some real)) := by
    have hdoes : Does echo sh .next (.reading secretKey) sh _ :=
      .unanswered (unanswered_holding (by decide))
    rwa [osGetitem_holding] at hdoes
  have hmissed : Does echo sh .next (.checking secretKey (some real)) sh
      (.sending secretKey (some real)) := .missed rfl
  rw [start_holding]
  exact .head trivial (step_threads .first (.getitem rfl)) (.head trivial (step_threads .first hread)
    (.head trivial (step_threads .first hmissed) (.head trivial (step_threads .first (.sent hrequest))
    (.head trivial (step_threads .second (.setitem rfl)) .refl))))

/-- One thread writes the second reference while the other waits for the reply to the
    first one, which is stored before the write returns. A lookup then asks again. -/
theorem write_kept_undisturbed :
    answer secretKey (received (echo (requestFor referenceB))) =
      replyFor echo (holding referenceA).sockPath secretKey (some (.ofStr "vault:b".toList)) := by
  let value : PyStr := .ofStr "vault:b".toList
  let real : PyStr := .decode referenceB.bytes
  let outdated : CacheEntry Int := { value := received (echo (requestFor referenceA)), timestamp := 0 }
  let asked : Request := requestFor referenceB
  let entry : CacheEntry Int := { value := received (echo asked), timestamp := 0 }
  let other : Phase Int := .answered secretKey (answer secretKey outdated.value)
  let result := answer secretKey entry.value
  let sh₁ : Shared Int := { proxy := holding referenceB, now := 0 }
  let sh₂ : Shared Int := { sh₁ with proxy := sh₁.proxy.store secretKey outdated }
  let sh₃ : Shared Int := { sh₂ with proxy.cache := Function.update sh₂.proxy.cache secretKey none }
  let sh₄ : Shared Int := { sh₃ with proxy := sh₃.proxy.store secretKey entry }
  have hrequest : request sh₃.proxy.sockPath secretKey (some real) = .ok (some asked) :=
    request_holding (by decide) (PyStr.encode_decode _)
  have hmeanwhile : (machine echo).Reaches (quiet secretKey).ok
      (.two .idle sh₁ (.waiting secretKey (some (.decode referenceA.bytes)) (requestFor referenceA),
        .dropping secretKey))
      (.two .idle sh₂ (other, .dropping secretKey)) := reaches_stored .first rfl
  have hdropped : Does echo sh₂ .next (.dropping secretKey) sh₃ (.returned (.ok ())) := .dropped
  have hread : Does echo sh₃ .next (.reading secretKey) sh₃ (.checking secretKey (some real)) := by
    have hunanswered : Unanswered sh₃.proxy secretKey :=
      show Unanswered (holding referenceB) secretKey from unanswered_holding (by decide)
    have hdoes : Does echo sh₃ .next (.reading secretKey) sh₃ _ := .unanswered hunanswered
    have hreal : osGetitem sh₃.proxy.original secretKey = .ok real := osGetitem_holding referenceB
    rwa [hreal] at hdoes
  have hmissed : Does echo sh₃ .next (.checking secretKey (some real)) sh₃
      (.sending secretKey (some real)) :=
    .missed (show Function.update sh₂.proxy.cache secretKey none secretKey = none from
      Function.update_self ..)
  have hstored : Does echo sh₃ .next (.storing secretKey (some real) entry) sh₄
      (.answered secretKey result) := .stored
  have hcurrent : StoresCurrent secretKey .next sh₃ (.storing secretKey (some real) entry) := by
    intro _
    rw [show osGetitem sh₃.proxy.original secretKey = .ok real from osGetitem_holding referenceB]
    rfl
  have hlookup : (machine echo).Reaches (settled secretKey).ok
      (.two .idle sh₃ (other, .reading secretKey))
      (.two .idle sh₄ (other, .answered secretKey result)) :=
    reaches_threads .second hread ⟨trivial, trivial⟩
      (reaches_threads .second hmissed ⟨trivial, trivial⟩
      (reaches_threads .second (.sent hrequest) ⟨trivial, trivial⟩
      (reaches_threads .second .received ⟨trivial, trivial⟩
      (reaches_threads .second .stamped ⟨trivial, trivial⟩
      (reaches_threads .second hstored ⟨trivial, hcurrent⟩ .refl)))))
  have hobserved : Observed echo (settled secretKey) (holding referenceA) 0 secretKey value result :=
    .intro (w := 2) (i := 2) reaches_waiting rfl (step_threads .second does_written_holding) rfl
      hmeanwhile rfl (step_threads .second hdropped) .refl (step_threads .second (.getitem rfl))
      hlookup rfl
  have hvault : value.startsWith vaultPrefix = true := by decide
  simpa only [result, entry, asked] using write_kept hvault hobserved

/-- The reply to a lookup of the first reference arrives after the second one was
    written, and answers the next lookup. -/
theorem write_undone :
    ∃ result,
      Observed echo (quiet secretKey) (holding referenceA) 0 secretKey (.ofStr "vault:b".toList)
        result ∧
      result ≠ replyFor echo (holding referenceA).sockPath secretKey
        (some (.ofStr "vault:b".toList)) := by
  let value : PyStr := .ofStr "vault:b".toList
  let waiting : Phase Int :=
    .waiting secretKey (some (.decode referenceA.bytes)) (requestFor referenceA)
  let entry : CacheEntry Int := { value := received (echo (requestFor referenceA)), timestamp := 0 }
  let result := answer secretKey entry.value
  let sh₁ : Shared Int := { proxy := holding referenceB, now := 0 }
  let sh₂ : Shared Int := { sh₁ with proxy.cache := Function.update sh₁.proxy.cache secretKey none }
  let sh₃ : Shared Int := { sh₂ with proxy := sh₂.proxy.store secretKey entry }
  have hdropped : Does echo sh₁ .next (.dropping secretKey) sh₂ (.returned (.ok ())) := .dropped
  have hafter : (machine echo).Reaches (quiet secretKey).ok
      (.two .idle sh₂ (waiting, .returned (.ok ())))
      (.two .idle sh₃ (.answered secretKey result, .returned (.ok ()))) := reaches_stored .first rfl
  -- The second thread looks the key up.
  have hentry : sh₃.proxy.cache secretKey = some entry :=
    show Function.update sh₂.proxy.cache secretKey (some entry) secretKey = some entry from
      Function.update_self ..
  have hread : Does echo sh₃ .next (.reading secretKey) sh₃
      (.checking secretKey (osGetitem sh₃.proxy.original secretKey).toOption) :=
    .unanswered (show Unanswered (holding referenceB) secretKey from unanswered_holding (by decide))
  have hfound : Does echo sh₃ .next
      (.checking secretKey (osGetitem sh₃.proxy.original secretKey).toOption) sh₃
      (.validating secretKey (osGetitem sh₃.proxy.original secretKey).toOption entry) :=
    .found hentry
  have hhit : Does echo sh₃ .next
      (.validating secretKey (osGetitem sh₃.proxy.original secretKey).toOption entry) sh₃
      (.answered secretKey result) := .hit (by decide)
  have hlookup : (machine echo).Reaches (quiet secretKey).ok
      (.two .idle sh₃ (.answered secretKey result, .reading secretKey))
      (.two .idle sh₃ (.answered secretKey result, .answered secretKey result)) :=
    reaches_threads .second hread trivial (reaches_threads .second hfound trivial
      (reaches_threads .second hhit trivial .refl))
  refine ⟨result, ?_, ?_⟩
  · exact .intro (w := 2) (i := 2) reaches_waiting rfl (step_threads .second does_written_holding) rfl
      .refl rfl (step_threads .second hdropped) hafter (step_threads .second (.getitem rfl)) hlookup rfl
  · have hrequest' : request (holding referenceA).sockPath secretKey (some value) =
        .ok (some (requestFor referenceB)) := request_holding (by decide) (by decide)
    simp only [result, entry, value, replyFor, hrequest', Option.bind_some]
    rw [received_echo (by decide), received_echo (by decide)]
    intro hsame
    have hdecoded := congrArg PyStr.encode (Except.ok.inj hsame)
    rw [PyStr.encode_decode, PyStr.encode_decode] at hdecoded
    revert hdecoded
    decide

end EnvProxy.Python
