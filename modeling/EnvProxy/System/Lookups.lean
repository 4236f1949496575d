-- SUMMARY: Single lookups of the three clients: when they agree on a plain value, and who falls back to an unresolved reference.
import EnvProxy.System.Clients
import EnvProxy.System.EndToEnd

/-!
# Single lookups

Two rules every client is meant to follow. A plain value passes through as it is;
the managed clients do this without asking the agent, the C client only if the agent
has nothing else to say. An unresolved reference is better than nothing; the C client
returns it, the managed clients report the variable missing.
-/

namespace EnvProxy

/-! ## Agents -/

/-- What listens at the socket: nobody, or an agent with some backend. -/
inductive Deployment where
  | unreachable
  | serving (net : Network) (backend : Backend Id)

def Deployment.world {Time : Type} (clock : Time) : Deployment → World Time Id
  | .unreachable => { agent := fun _ _ => .refused, clock := clock }
  | .serving net backend => EnvProxy.serving net backend clock

/-- The agent resolves the name to the value `c`, and the value can travel. -/
def Deployment.Supplies (name : Bytes) (c : CStr) : Deployment → Prop
  | .unreachable => False
  | .serving _ backend => ∃ v, backend.resolve (Utf8.lossy name) = .ok (some v) ∧
      Utf8.encode v = c.bytes ∧ c.bytes.length ≤ maxValueLen

theorem carried_new_eq_some_iff {r : ResolveResult} {c : CStr} :
    r.carried.bind CStr.new = some c ↔
      ∃ v, r = .ok (some v) ∧ Utf8.encode v = c.bytes ∧ c.bytes.length ≤ maxValueLen := by
  match r with
  | .ok (some v) =>
    simp only [ResolveResult.carried, fitting]
    split
    · next hlen =>
      rw [Option.bind_some, CStr.new_eq_some_iff]
      constructor
      · intro h
        exact ⟨v, rfl, h.symm, h ▸ hlen⟩
      · intro h
        obtain ⟨v', hv, henc, -⟩ := h
        cases hv
        exact henc.symm
    · next hlen =>
      refine iff_of_false (by simp) fun h => ?_
      obtain ⟨v', hv, henc, hle⟩ := h
      cases hv
      exact hlen (henc ▸ hle)
  | .ok none => simp [ResolveResult.carried]
  | .error e => simp [ResolveResult.carried]

/-- The answer to a request without a value, as the C client receives it. -/
theorem received_eq_some_iff {Time : Type} (clock : Time) (d : Deployment) (path : Bytes)
    {name frame : Bytes} {c : CStr} (h : Libenvproxy.encode name none = some frame) :
    Libenvproxy.received (Id.run ((d.world clock).agent path frame)) = some c ↔ d.Supplies name c := by
  rw [Libenvproxy.received_eq]
  cases d with
  | unreachable => exact iff_of_false (fun h => nomatch h) id
  | serving net backend =>
    have hagent := serving_agent (m := Id) net backend clock path h
    change ((Id.run ((serving net backend clock).agent path frame)).found.bind _ = _) ↔ _
    rw [hagent]
    change ((Reply.stream (net.toClient _)).found.bind _ = _) ↔ _
    rw [found_respond (net.toClient_data _)]
    exact carried_new_eq_some_iff

/-! ## Plain values -/

/-- The C client replaces the plain value `e`: it asks, and the agent has another value. -/
def Overridden (d : Deployment) (enabled : Bool) (name : Bytes) (e : CStr) : Prop :=
  enabled = true ∧ name.length ≤ maxKeyLen ∧ ∃ c, d.Supplies name c ∧ c ≠ e

theorem or_some_eq_iff {α : Type} {o : Option α} {a : α} : o.or (some a) = some a ↔ ∀ b, o = some b → b = a := by
  cases o <;> simp

theorem getenv_plain_iff {Time : Type} (clock : Time) (d : Deployment) {env : Environ}
    {statics : Libenvproxy.Statics} {key e : CStr} (hconfig : ¬ key.startsWith configPrefix)
    (he : env.get key.bytes = some e) (hplain : e.startsWith vaultPrefix = false) :
    (Id.run ((Libenvproxy.getenv (d.world clock) env key).run statics)).1 = some e ↔
      ¬ Overridden d (statics.enabledIn env) key.bytes e := by
  cases hon : statics.enabledIn env with
  | false =>
    rw [Libenvproxy.getenv_run_disabled _ env hconfig hon]
    simp [Overridden, he]
  | true =>
    have hcurrent : Libenvproxy.currentValue (env.get key.bytes) = none := by
      simp [Libenvproxy.currentValue, he, Option.filter, hplain]
    rw [Libenvproxy.getenv_run_enabled _ env hconfig hon, hcurrent]
    cases hframe : Libenvproxy.encode key.bytes none with
    | none =>
      have hlen : ¬ key.bytes.length ≤ maxKeyLen := by
        intro hle
        have hsome : (Libenvproxy.encode key.bytes none).isSome :=
          encode_isSome_iff.mpr ⟨hle, by simp⟩
        rw [hframe] at hsome
        cases hsome
      simp [Overridden, hlen, he]
    | some frame =>
      have hsome : (Libenvproxy.encode key.bytes none).isSome := by rw [hframe]; rfl
      have hlen : key.bytes.length ≤ maxKeyLen := (encode_isSome_iff.mp hsome).1
      change (Libenvproxy.received (Id.run ((d.world clock).agent _ frame))).or (env.get key.bytes)
        = some e ↔ _
      rw [he, or_some_eq_iff]
      simp only [received_eq_some_iff clock d _ hframe, Overridden, hlen, true_and, not_exists, not_and,
        not_not]

/-- One name and the state of the three clients that look it up. -/
structure Trio (τ : Type) where
  clock : (L : Language) → L.Time τ
  state : (L : Language) → L.State τ
  key : (L : Language) → L.Key
  env : Environ
  name : Bytes
  environ_eq : ∀ L : Language, L.environ (state L) = env
  name_eq : ∀ L : Language, L.name (key L) = some name

/-- All three clients return the plain value exactly if the C client does not
    replace it. -/
theorem plain_value_agrees_iff {τ : Type} [Sub τ] [LT τ] [DecidableLT τ] (x : Trio τ)
    (d : Deployment) (e : CStr) (he : x.env.get x.name = some e)
    (hconfig : ¬ Utf8.encode configPrefix <+: x.name) (hplain : e.startsWith vaultPrefix = false) :
    (∀ L : Language, (Id.run (L.lookup (d.world (x.clock L)) (x.state L) (x.key L))).1 = L.raw e) ↔
      ¬ Overridden d ((x.state .c).2.enabledIn x.env) x.name e := by
  have hname : (x.key .c).bytes = x.name := Option.some.inj (x.name_eq .c)
  have henv : (x.state .c).1 = x.env := x.environ_eq .c
  have hc : (Id.run (Language.c.lookup (d.world (x.clock .c)) (x.state .c) (x.key .c))).1 = some e ↔
      ¬ Overridden d ((x.state .c).2.enabledIn x.env) x.name e := by
    rw [← hname, ← henv]
    apply getenv_plain_iff
    · rwa [CStr.startsWith_iff, hname]
    · rw [henv, hname, he]
    · exact hplain
  constructor
  · intro h
    exact hc.mp (h .c)
  · intro h L
    by_cases hL : L = .c
    · subst hL
      exact hc.mpr h
    · have hv : (L.environ (x.state L)).get x.name = some e := by rw [x.environ_eq L, he]
      rw [Language.lookup_plain hL _ (x.name_eq L) hv hplain]
      rfl

/-- A host where the agent's socket exists and no TTL is configured. -/
def plainSetup : Language.Setup Nat where
  floats := { parse := fun _ => none, defaultCacheTtl := 30, defaultText := .ofStr ['3', '0', '.', '0'] }
  platform := { fileExists := fun _ => true, parseTtl := fun _ => none }
  agentArgs := none

/-- Three freshly started clients, and the variable `A` with the value `x`. -/
def plainTrio : Trio Nat where
  clock := fun | .c => () | .python => 0 | .java => 0
  state := Language.started plainSetup [(.lit "A", .lit "x")]
  key := fun | .c => .lit "A" | .python => .ofStr ['A'] | .java => .ofStr ['A']
  env := [(.lit "A", .lit "x")]
  name := [65]
  environ_eq := fun L => by cases L <;> rfl
  name_eq := fun L => by cases L <;> rfl

theorem plain_value_agrees_unreachable :
    (∀ L : Language, (Id.run (L.lookup (Deployment.unreachable.world (plainTrio.clock L))
      (plainTrio.state L) (plainTrio.key L))).1 = L.raw (.lit "x")) ↔
      ¬ Overridden .unreachable true [65] (.lit "x") :=
  plain_value_agrees_iff plainTrio .unreachable (.lit "x") rfl (by decide) (by decide)

/-- A file backend that has another value for `A`. -/
theorem plain_value_replaced :
    (Id.run (Language.c.lookup ((Deployment.serving .direct
        (.ofResolve fun key => .ok (if key = ['A'] then some ['y'] else none))).world ())
      (plainTrio.state .c) (plainTrio.key .c))).1 ≠ Language.c.raw (.lit "x") := by
  decide

/-! ## Unresolved references -/

namespace Language

variable {τ : Type} [Sub τ] [LT τ] [DecidableLT τ]

/-- The request a lookup sends when it asks the agent. -/
def request : (L : Language) → L.State τ → L.Key → Option Request
  | .c, (env, statics), key =>
    (Libenvproxy.encode key.bytes (Libenvproxy.currentValue (env.get key.bytes))).map fun frame =>
      ⟨statics.socketIn env, frame⟩
  | .python, .proxied self, key =>
    let value := ((key.encode.bind self.original.get).map fun v => PyStr.decode v.bytes)
    match Python.encode key value, self.sockPath.encode with
    | .ok (some frame), some path => some ⟨path, frame⟩
    | _, _ => none
  | .java, .proxied self, key =>
    (Java.encode key (Java.jvmGet self.original key)).map fun frame =>
      ⟨self.socketPath.getBytes, frame⟩
  | .python, .plain _, _ => none
  | .java, .original _, _ => none

/-- The client still holds a value for the key, resolved earlier and not expired. -/
def holdsValue : (L : Language) → L.State τ → L.Time τ → L.Key → Bool
  | .python, .proxied self, now, key =>
    match self.cache key with
    | some entry => Python.isCacheValid self now entry && entry.value.isSome
    | none => false
  | .java, .proxied self, now, key =>
    match self.cache key with
    | some entry => decide (now - entry.timestamp < self.cacheTtlMs) && entry.value.isSome
    | none => false
  | .c, _, _, _ => false
  | .python, .plain _, _, _ => false
  | .java, .original _, _, _ => false

/-- The reference stays unresolved: the agent's reply to this lookup is no complete
    `Found` response, and no earlier answer is still valid. -/
structure Unresolved (L : Language) (o : Oracle (L.Time τ)) (t : Trace) (s : L.State τ)
    (key : L.Key) : Prop where
  reply : ∀ r ∈ L.request s key, (o.reply (t.requests ++ [r])).found = none
  held : L.holdsValue s (o.clock t.reads) key = false

end Language

theorem getenv_unresolved {o : Oracle Unit} {t : Trace} {env : Environ}
    {statics : Libenvproxy.Statics} {key : CStr}
    (h : ∀ frame, Libenvproxy.encode key.bytes (Libenvproxy.currentValue (env.get key.bytes)) =
      some frame → (o.reply (t.requests ++ [⟨statics.socketIn env, frame⟩])).found = none) :
    (Recorded.exec ((Libenvproxy.getenv o.world env key).run statics) t).1.1 = env.get key.bytes := by
  by_cases hconfig : key.startsWith configPrefix
  · rw [Libenvproxy.getenv_run_config _ env statics hconfig]
    rfl
  · cases hon : statics.enabledIn env with
    | false =>
      rw [Libenvproxy.getenv_run_disabled _ env hconfig hon]
      rfl
    | true =>
      rw [Libenvproxy.getenv_run_enabled _ env hconfig hon]
      cases hframe : Libenvproxy.encode key.bytes (Libenvproxy.currentValue (env.get key.bytes)) with
      | none => rfl
      | some frame =>
        change (Libenvproxy.received (o.reply (t.requests ++ [⟨statics.socketIn env, frame⟩]))).or _ = _
        rw [Libenvproxy.received_eq, h frame hframe]
        rfl

theorem python_resolve_unresolved {τ : Type} [Sub τ] [LT τ] [DecidableLT τ] {o : Oracle τ}
    {t : Trace} {self : Python.Proxy τ} {key : PyStr} {value : Option PyStr}
    (hreply : ∀ frame path, Python.encode key value = .ok (some frame) →
      self.sockPath.encode = some path → (o.reply (t.requests ++ [⟨path, frame⟩])).found = none)
    (hheld : ∀ entry, self.cache key = some entry →
      Python.isCacheValid self (o.clock t.reads) entry = true → entry.value = none) (v : PyStr) :
    (Recorded.exec (Python.resolve o.world self key value) t).1.1 ≠ .ok v := by
  have hrefresh : ∀ reads,
      (Recorded.exec (Python.refresh o.world self key value) { t with reads }).1.1 ≠ .ok v := by
    intro reads
    cases hencode : Python.encode key value with
    | error e => simp [Python.refresh, Python.queryAgent, hencode]
    | ok frame? =>
      cases frame? with
      | none => simp [Python.refresh, Python.queryAgent, hencode, Python.answer]
      | some frame =>
        cases hpath : self.sockPath.encode with
        | none => simp [Python.refresh, Python.queryAgent, hencode, hpath]
        | some path =>
          simp [Python.refresh, Python.queryAgent, hencode, hpath, Python.received_eq,
            hreply frame path hencode hpath, Python.answer]
  cases hentry : self.cache key with
  | none => simpa [Python.resolve, hentry] using hrefresh t.reads
  | some entry =>
    cases hvalid : Python.isCacheValid self (o.clock t.reads) entry with
    | true => simp [Python.resolve, hentry, hvalid, hheld entry hentry hvalid, Python.answer]
    | false => simpa [Python.resolve, hentry, hvalid] using hrefresh (t.reads + 1)

theorem java_resolve_unresolved {o : Oracle Int64} {t : Trace} {self : Java.EnvProxyMap} {key : JStr}
    {value : Option JStr}
    (hreply : ∀ frame, Java.encode key value = some frame →
      (o.reply (t.requests ++ [⟨self.socketPath.getBytes, frame⟩])).found = none)
    (hheld : ∀ entry, self.cache key = some entry →
      o.clock t.reads - entry.timestamp < self.cacheTtlMs → entry.value = none) (v : JStr) :
    (Recorded.exec (Java.resolve o.world self key value) t).1.1 ≠ .returned (some v) := by
  have hrefresh : ∀ reads,
      (Recorded.exec (Java.refresh o.world self key value) { t with reads }).1.1 ≠ .returned (some v) := by
    intro reads
    cases hencode : Java.encode key value with
    | none => simp [Java.refresh, Java.queryAgent, hencode]
    | some frame =>
      cases Java.received_of_not_found (hreply frame hencode) with
      | inl h => simp [Java.refresh, Java.queryAgent, hencode, h]
      | inr h => simp [Java.refresh, Java.queryAgent, hencode, h]
  cases hentry : self.cache key with
  | none => simpa [Java.resolve, hentry] using hrefresh t.reads
  | some entry =>
    by_cases hvalid : o.clock t.reads - entry.timestamp < self.cacheTtlMs
    · simp [Java.resolve, hentry, hvalid, hheld entry hentry hvalid]
    · simpa [Java.resolve, hentry, hvalid] using hrefresh (t.reads + 1)

/-- A patched managed client does not return an unresolved reference. -/
theorem managed_unresolved_ne {τ : Type} [Sub τ] [LT τ] [DecidableLT τ] {L : Language} (hL : L ≠ .c)
    {o : Oracle (L.Time τ)} {t : Trace} {s : L.State τ} {key : L.Key} {n : Bytes} {v : CStr}
    (hpatched : L.patched s = true) (hname : L.name key = some n)
    (hv : (L.environ s).get n = some v) (hvault : v.startsWith vaultPrefix = true)
    (h : L.Unresolved o t s key) :
    (Recorded.exec (L.lookup o.world s key) t).1.1 ≠ L.raw v := by
  cases L with
  | c => exact absurd rfl hL
  | python =>
    cases s with
    | plain env => cases hpatched
    | proxied self =>
      have hkey : key.encode = some n := hname
      have hv' : self.original.get n = some v := hv
      change (Recorded.exec (Python.getitem o.world self key) t).1.1 ≠ .ok (.decode v.bytes)
      rw [Python.getitem_resolve o.world hkey fun value hvalue => by
        rw [hv'] at hvalue; cases hvalue; exact hvault]
      apply python_resolve_unresolved
      · intro frame path hframe hpath
        apply h.reply
        simp only [Language.request, hkey, Option.bind_some, hframe, hpath]
        rfl
      · intro entry hentry hvalid
        have hheld := h.held
        simpa [Language.holdsValue, hentry, hvalid] using hheld
  | java =>
    cases hname
    cases s with
    | original env => cases hpatched
    | proxied self =>
      have hv' : self.original.get _ = some v := hv
      have hreal : Java.jvmGet self.original key = some (.decode v.bytes) := by
        rw [Java.jvmGet, hv', Option.map_some]
      change (Recorded.exec (Java.get o.world self key) t).1.1 ≠ .returned (some (.decode v.bytes))
      rw [Java.get_resolve o.world fun value hvalue => by
        rw [hreal] at hvalue
        cases hvalue
        rw [JStr.startsWith_decode vaultPrefix_ascii, ← CStr.startsWith_iff]
        exact hvault]
      apply java_resolve_unresolved
      · intro frame hframe
        apply h.reply
        simp [Language.request, hframe]
      · intro entry hentry hvalid
        have hheld := h.held
        simpa [Language.holdsValue, hentry, hvalid] using hheld

/-- An unresolved reference is returned raw by the C client, and by an unpatched
    process; a managed client reports the variable missing. -/
theorem unresolved_reference_kept_iff {τ : Type} [Sub τ] [LT τ] [DecidableLT τ] (L : Language)
    (o : Oracle (L.Time τ)) (t : Trace) (s : L.State τ) (key : L.Key) (n : Bytes) (v : CStr)
    (hname : L.name key = some n) (hv : (L.environ s).get n = some v)
    (hvault : v.startsWith vaultPrefix = true) (h : L.Unresolved o t s key) :
    (Recorded.exec (L.lookup o.world s key) t).1.1 = L.raw v ↔ L = .c ∨ L.patched s = false := by
  by_cases hL : L = .c
  · subst hL
    refine iff_of_true ?_ (.inl rfl)
    cases hname
    change (Recorded.exec ((Libenvproxy.getenv o.world s.1 key).run s.2) t).1.1 = some v
    rw [getenv_unresolved fun frame hframe => h.reply _ (by simp [Language.request, hframe])]
    exact hv
  · cases hpatched : L.patched s with
    | true =>
      refine iff_of_false (managed_unresolved_ne hL hpatched hname hv hvault h) ?_
      simp [hL]
    | false =>
      refine iff_of_true ?_ (.inr rfl)
      rw [Language.lookup_unpatched hpatched, Recorded.exec_pure]
      exact Language.real_present hname hv

/-- A Python process that holds a reference, and an agent that is not there. -/
def referenceProcess : Language.python.State Nat :=
  Language.python.started plainSetup [(.lit "A", .lit "vault:m/p#k")]

theorem unresolved_reference_python :
    (Recorded.exec (Language.python.lookup (Oracle.always .refused 0).world referenceProcess
      (.ofStr ['A'])) .start).1.1 = Language.python.raw (.lit "vault:m/p#k") ↔
      Language.python = .c ∨ Language.python.patched referenceProcess = false :=
  unresolved_reference_kept_iff .python (.always .refused 0) .start referenceProcess (.ofStr ['A'])
    [65] (.lit "vault:m/p#k") (by decide) (by decide) (by decide) ⟨fun _ _ => rfl, by decide⟩

/-- It reports the variable missing. -/
theorem unresolved_reference_missing :
    (Recorded.exec (Language.python.lookup (Oracle.always .refused 0).world referenceProcess
      (.ofStr ['A'])) .start).1.1 ≠ Language.python.raw (.lit "vault:m/p#k") := by
  decide

end EnvProxy
