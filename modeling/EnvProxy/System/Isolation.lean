-- SUMMARY: Sessions of lookups, and when configuration variables and disabled mode are outside the agent's influence.
import EnvProxy.System.Lookups

/-!
# Isolation

A session is a sequence of lookups of one process. A variable of the configuration
prefix, and every variable once `ENVPROXY_ENABLED=0`, is meant to be read from the
real environment alone. `Exposed` says when a managed client breaks this: it is
installed and would resolve the variable.
-/

namespace EnvProxy

namespace Language

variable {τ : Type} [Sub τ] [LT τ] [DecidableLT τ]

/-- Look the keys up in order. -/
def session (L : Language) (w : World (L.Time τ) Recorded) : L.State τ → List L.Key → Recorded (L.State τ)
  | s, [] => pure s
  | s, key :: keys => do
    let r ← L.lookup w s key
    L.session w r.2 keys

/-- Process and trace after a session that starts with the installation. -/
def after (L : Language) (setup : Setup τ) (env : Environ) (before : List L.Key)
    (o : Oracle (L.Time τ)) : L.State τ × Trace :=
  Recorded.exec (L.session o.world (L.started setup env) before) .start

/-- A lookup at the end of a session. -/
def probe (L : Language) (setup : Setup τ) (env : Environ) (before : List L.Key) (key : L.Key)
    (o : Oracle (L.Time τ)) : (L.Answer × L.State τ) × Trace :=
  Recorded.exec (L.lookup o.world (L.after setup env before o).1 key) (L.after setup env before o).2

/-- A configuration variable, or any variable in disabled mode. -/
def Governed (L : Language) (env : Environ) (key : L.Key) : Prop :=
  L.keyStartsWith configPrefix key = true ∨ env.get envproxyEnabled.bytes = some zero

/-- After every session and for any two agents: a lookup of the key sends nothing and
    returns what the real environment holds, the same in both runs. -/
def Isolated (L : Language) (setup : Setup τ) (env : Environ) (key : L.Key) : Prop :=
  ∀ (o o' : Oracle (L.Time τ)) (before : List L.Key),
    (L.probe setup env before key o).2.requests = (L.after setup env before o).2.requests ∧
    (L.probe setup env before key o).1.1 = L.real env key ∧
    (L.probe setup env before key o').1.1 = (L.probe setup env before key o).1.1

/-- The client is a managed one, installed, and the variable is a reference, or absent
    with a name that fits into a request. -/
def Exposed (L : Language) (setup : Setup τ) (env : Environ) (key : L.Key) : Prop :=
  L ≠ .c ∧ L.patched (L.started setup env) = true ∧ ∃ n, L.name key = some n ∧
    match env.get n with
    | some v => v.startsWith vaultPrefix = true
    | none => n.length ≤ maxKeyLen

/-! ## What every session keeps -/

/-- The process still has its environment, the cached flag of the C library agrees
    with it, and the managed caches hold no value for a key nothing is sent for. -/
def Settled (env : Environ) : (L : Language) → L.State τ → Prop
  | .c, s => s.1 = env ∧ s.2.enabledIn env = Libenvproxy.isEnabled env
  | .python, .plain env' => env' = env
  | .python, .proxied self => self.original = env ∧
      ∀ key n, key.encode = some n → maxKeyLen < n.length →
        ∀ entry, self.cache key = some entry → entry.value = none
  | .java, .original env' => env' = env
  | .java, .proxied self => self.original = env ∧
      ∀ key, maxKeyLen < key.getBytes.length →
        ∀ entry, self.cache key = some entry → entry.value = none

omit [Sub τ] [LT τ] [DecidableLT τ] in
theorem settled_started (setup : Setup τ) (env : Environ) (L : Language) :
    L.Settled env (L.started setup env) := by
  cases L with
  | c => exact ⟨rfl, rfl⟩
  | python =>
    simp only [started, Python.install]
    split
    · exact rfl
    · exact ⟨rfl, fun _ _ _ _ _ h => nomatch h⟩
  | java =>
    simp only [started, Java.install]
    split
    · exact rfl
    · exact ⟨rfl, fun _ _ _ h => nomatch h⟩

omit [Sub τ] [LT τ] [DecidableLT τ] in
theorem settled_environ {env : Environ} {L : Language} {s : L.State τ} (h : L.Settled env s) :
    L.environ s = env := by
  cases L with
  | c => exact h.1
  | python =>
    cases s with
    | plain env' => exact h
    | proxied self => exact h.1
  | java =>
    cases s with
    | original env' => exact h
    | proxied self => exact h.1

end Language

/-- A lookup of the C library does not change what its cached flag says. -/
theorem getenv_enabledIn (o : Oracle Unit) (env : Environ) (statics : Libenvproxy.Statics)
    (key : CStr) (t : Trace) :
    (Recorded.exec ((Libenvproxy.getenv o.world env key).run statics) t).1.2.enabledIn env =
      statics.enabledIn env := by
  by_cases hconfig : key.startsWith configPrefix
  · rw [Libenvproxy.getenv_run_config _ env statics hconfig]
    rfl
  · cases hon : statics.enabledIn env with
    | false =>
      rw [Libenvproxy.getenv_run_disabled _ env hconfig hon]
      exact hon
    | true =>
      rw [Libenvproxy.getenv_run_enabled _ env hconfig hon]
      cases Libenvproxy.encode key.bytes (Libenvproxy.currentValue (env.get key.bytes)) with
      | none => exact hon
      | some frame => exact hon

namespace Language

variable {τ : Type} [Sub τ] [LT τ] [DecidableLT τ]

/-- One lookup keeps all of this, and does not patch or unpatch the process. -/
theorem settled_lookup {env : Environ} {L : Language} (o : Oracle (L.Time τ)) {s : L.State τ}
    (h : L.Settled env s) (key : L.Key) (t : Trace) :
    L.Settled env (Recorded.exec (L.lookup o.world s key) t).1.2 ∧
      L.patched (Recorded.exec (L.lookup o.world s key) t).1.2 = L.patched s := by
  cases L with
  | c =>
    obtain ⟨env', statics⟩ := s
    obtain ⟨rfl, hon⟩ := h
    exact ⟨⟨rfl, (getenv_enabledIn o env' statics key t).trans hon⟩, rfl⟩
  | python =>
    cases s with
    | plain env' => exact ⟨h, rfl⟩
    | proxied self =>
      refine ⟨?_, rfl⟩
      change Settled env .python (.proxied (Recorded.exec (Python.getitem o.world self key) t).1.2)
      cases Python.exec_getitem_state o self key t with
      | inl hsame => rw [hsame]; exact h
      | inr hnew =>
        obtain ⟨value, entry, hstate, hnone⟩ := hnew
        rw [hstate]
        refine ⟨h.1, fun key' n hname hlong entry' hentry' => ?_⟩
        dsimp only at hentry'
        by_cases hkey : key' = key
        · subst hkey
          rw [Function.update_self] at hentry'
          cases hentry'
          exact hnone (Python.encode_long hname hlong value)
        · rw [Function.update_of_ne hkey] at hentry'
          exact h.2 key' n hname hlong entry' hentry'
  | java =>
    cases s with
    | original env' => exact ⟨h, rfl⟩
    | proxied self =>
      refine ⟨?_, rfl⟩
      change Settled env .java (.proxied (Recorded.exec (Java.get o.world self key) t).1.2)
      cases Java.exec_get_state o self key t with
      | inl hsame => rw [hsame]; exact h
      | inr hnew =>
        obtain ⟨value, entry, hstate, hnone⟩ := hnew
        rw [hstate]
        refine ⟨h.1, fun key' hlong entry' hentry' => ?_⟩
        dsimp only at hentry'
        by_cases hkey : key' = key
        · subst hkey
          rw [Function.update_self] at hentry'
          cases hentry'
          exact hnone (Java.encode_long hlong value)
        · rw [Function.update_of_ne hkey] at hentry'
          exact h.2 key' hlong entry' hentry'

theorem settled_session {env : Environ} {L : Language} (o : Oracle (L.Time τ)) (keys : List L.Key)
    {s : L.State τ} (h : L.Settled env s) (t : Trace) :
    L.Settled env (Recorded.exec (L.session o.world s keys) t).1 ∧
      L.patched (Recorded.exec (L.session o.world s keys) t).1 = L.patched s := by
  induction keys generalizing s t with
  | nil => exact ⟨h, rfl⟩
  | cons key keys ih =>
    obtain ⟨hstep, hpatched⟩ := settled_lookup o h key t
    obtain ⟨hrest, hrest'⟩ := ih hstep (Recorded.exec (L.lookup o.world s key) t).2
    exact ⟨hrest, hrest'.trans hpatched⟩

theorem settled_after (setup : Setup τ) (env : Environ) {L : Language} (before : List L.Key)
    (o : Oracle (L.Time τ)) :
    L.Settled env (L.after setup env before o).1 ∧
      L.patched (L.after setup env before o).1 = L.patched (L.started setup env) :=
  settled_session o before (settled_started setup env L) .start

/-! ## Lookups outside the agent's influence -/

/-- A lookup that sends nothing and answers with the real value. -/
def Reads (L : Language) (env : Environ) (key : L.Key) (o : Oracle (L.Time τ)) (s : L.State τ)
    (t : Trace) : Prop :=
  (Recorded.exec (L.lookup o.world s key) t).2.requests = t.requests ∧
    (Recorded.exec (L.lookup o.world s key) t).1.1 = L.real env key

/-- The C library reads a governed variable from the environment. -/
theorem reads_c {env : Environ} {key : CStr} (hgov : Language.c.Governed env key) (o : Oracle Unit)
    {s : Environ × Libenvproxy.Statics} (h : Settled (τ := τ) env .c s) (t : Trace) :
    Reads (τ := τ) .c env key o s t := by
  obtain ⟨env', statics⟩ := s
  obtain ⟨rfl, hon⟩ := h
  change (Recorded.exec ((Libenvproxy.getenv o.world env' key).run statics) t).2.requests = t.requests ∧
    (Recorded.exec ((Libenvproxy.getenv o.world env' key).run statics) t).1.1 = env'.get key.bytes
  by_cases hconfig : key.startsWith configPrefix
  · rw [Libenvproxy.getenv_run_config _ env' statics hconfig]
    exact ⟨rfl, rfl⟩
  · have hoff : statics.enabledIn env' = false := by
      rw [hon, Libenvproxy.isEnabled, hgov.resolve_left hconfig]
      decide
    rw [Libenvproxy.getenv_run_disabled _ env' hconfig hoff]
    exact ⟨rfl, rfl⟩

/-- So does a managed client with an absent variable nothing can be sent for. -/
theorem reads_long {L : Language} (hL : L ≠ .c) {env : Environ} {key : L.Key} {n : Bytes}
    (hname : L.name key = some n) (hv : env.get n = none) (hlong : maxKeyLen < n.length)
    (o : Oracle (L.Time τ)) {s : L.State τ} (h : L.Settled env s) (hpatched : L.patched s = true)
    (t : Trace) : L.Reads env key o s t := by
  cases L with
  | c => exact absurd rfl hL
  | python =>
    cases s with
    | plain env' => cases hpatched
    | proxied self =>
      obtain ⟨rfl, hcache⟩ := h
      have hkey : key.encode = some n := hname
      have hget := Python.getitem_absent o.world hkey hv
      obtain ⟨hanswer, hsilent⟩ := Python.exec_resolve_unsent (o := o) t
        (Python.encode_long hkey hlong none) fun entry => hcache key n hkey hlong entry
      change (Recorded.exec (Python.getitem o.world self key) t).2.requests = t.requests ∧
        (Recorded.exec (Python.getitem o.world self key) t).1.1 = Python.osGetitem self.original key
      rw [hget, Python.osGetitem_encoded hkey, hv]
      exact ⟨hsilent, hanswer⟩
  | java =>
    cases s with
    | original env' => cases hpatched
    | proxied self =>
      obtain ⟨rfl, hcache⟩ := h
      cases hname
      have hreal : Java.jvmGet self.original key = none := by rw [Java.jvmGet, hv, Option.map_none]
      have hget := Java.get_absent o.world hreal
      obtain ⟨hanswer, hsilent⟩ := Java.exec_resolve_unsent (o := o) t
        (Java.encode_long hlong none) fun entry => hcache key hlong entry
      change (Recorded.exec (Java.get o.world self key) t).2.requests = t.requests ∧
        (Recorded.exec (Java.get o.world self key) t).1.1 = .returned (Java.jvmGet self.original key)
      rw [hget, hreal]
      exact ⟨hsilent, hanswer⟩

/-- And one whose key is no variable name. -/
theorem reads_unencodable {L : Language} {env : Environ} {key : L.Key} (hname : L.name key = none)
    (o : Oracle (L.Time τ)) {s : L.State τ} (h : L.Settled env s) (t : Trace) :
    L.Reads env key o s t := by
  cases L with
  | c => cases hname
  | python =>
    cases s with
    | plain env' => cases h; exact ⟨rfl, rfl⟩
    | proxied self =>
      obtain ⟨rfl, -⟩ := h
      have hkey : key.encode = none := hname
      change (Recorded.exec (Python.getitem o.world self key) t).2.requests = t.requests ∧
        (Recorded.exec (Python.getitem o.world self key) t).1.1 = Python.osGetitem self.original key
      rw [Python.getitem_unencodable o.world self hkey]
      exact ⟨rfl, rfl⟩
  | java => cases hname

/-- A managed client reads a variable it is not exposed to from the environment. -/
theorem reads_managed {L : Language} (hL : L ≠ .c) {setup : Setup τ} {env : Environ} {key : L.Key}
    (hexposed : ¬ L.Exposed setup env key) (o : Oracle (L.Time τ)) {s : L.State τ}
    (h : L.Settled env s) (hs : L.patched s = L.patched (L.started setup env)) (t : Trace) :
    L.Reads env key o s t := by
  cases hpatched : L.patched s with
  | false =>
    rw [Reads, lookup_unpatched hpatched, settled_environ h]
    exact ⟨rfl, rfl⟩
  | true =>
    rw [hpatched] at hs
    cases hname : L.name key with
    | none => exact reads_unencodable hname o h t
    | some n =>
      cases hv : env.get n with
      | some v =>
        have hplain : v.startsWith vaultPrefix = false := by
          rw [Bool.eq_false_iff]
          intro hvault
          exact hexposed ⟨hL, hs.symm, n, hname, by simpa only [hv] using hvault⟩
        have hv' : (L.environ s).get n = some v := by rw [settled_environ h, hv]
        rw [Reads, lookup_plain hL o.world hname hv' hplain]
        exact ⟨rfl, (real_present hname hv).symm⟩
      | none =>
        have hlong : maxKeyLen < n.length := by
          by_contra hle
          exact hexposed ⟨hL, hs.symm, n, hname, by simpa only [hv] using Nat.not_lt.mp hle⟩
        exact reads_long hL hname hv hlong o h hpatched t

/-! ## Lookups that reach the agent -/

omit [Sub τ] [LT τ] [DecidableLT τ] in
theorem started_python {setup : Setup τ} {env : Environ}
    (h : Language.python.patched (Language.python.started setup env) = true) :
    ∃ self, Language.python.started setup env = .proxied self ∧ self.original = env ∧
      self.cache = fun _ => none := by
  simp only [started, Python.install] at h ⊢
  split at h
  · cases h
  · next hon =>
    rw [if_neg hon]
    exact ⟨_, rfl, rfl, rfl⟩

omit [Sub τ] [LT τ] [DecidableLT τ] in
theorem started_java {setup : Setup τ} {env : Environ}
    (h : Language.java.patched (Language.java.started setup env) = true) :
    ∃ self, Language.java.started setup env = .proxied self ∧ self.original = env ∧
      self.cache = fun _ => none := by
  simp only [started, Java.install] at h ⊢
  split at h
  · cases h
  · next hon =>
    rw [if_neg hon]
    exact ⟨_, rfl, rfl, rfl⟩

/-- The first lookup of an absent variable asks, or fails on the way to the socket. -/
theorem not_reads_absent {L : Language} (hL : L ≠ .c) {setup : Setup τ} {env : Environ}
    (hpatched : L.patched (L.started setup env) = true) {key : L.Key} {n : Bytes}
    (hname : L.name key = some n) (hv : env.get n = none) (hlen : n.length ≤ maxKeyLen)
    (time : L.Time τ) :
    ¬ L.Reads env key (.always .refused time) (L.started setup env) .start := by
  intro hreads
  cases L with
  | c => exact absurd rfl hL
  | python =>
    obtain ⟨self, hself, rfl, hcache⟩ := started_python hpatched
    have hkey : key.encode = some n := hname
    rw [hself] at hreads
    obtain ⟨hsilent, hanswer⟩ := hreads
    have hget := Python.getitem_absent (Oracle.always .refused time).world hkey hv
    change (Recorded.exec (Python.getitem _ self key) .start).2.requests = [] at hsilent
    change (Recorded.exec (Python.getitem _ self key) .start).1.1 = Python.osGetitem self.original key
      at hanswer
    have hlen' : ¬ n.length > 0xFFFF := Nat.not_lt.mpr hlen
    have hencode : Python.encode key none = .ok (some (Python.protocolFrame n none)) := by
      simp only [Python.encode, hkey, if_neg hlen']
    rw [hget] at hsilent hanswer
    cases hpath : self.sockPath.encode with
    | none =>
      rw [Python.osGetitem_encoded hkey, hv] at hanswer
      simp [Python.resolve, hcache, Python.refresh, Python.queryAgent, hencode, hpath] at hanswer
    | some path =>
      simp [Python.resolve, hcache, Python.refresh, Python.queryAgent, hencode, hpath] at hsilent
  | java =>
    obtain ⟨self, hself, rfl, hcache⟩ := started_java hpatched
    cases hname
    rw [hself] at hreads
    obtain ⟨hsilent, -⟩ := hreads
    have hreal : Java.jvmGet self.original key = none := by rw [Java.jvmGet, hv, Option.map_none]
    have hget := Java.get_absent (Oracle.always .refused time).world hreal
    change (Recorded.exec (Java.get _ self key) .start).2.requests = [] at hsilent
    have hlen' : ¬ key.getBytes.length > 0xFFFF := Nat.not_lt.mpr hlen
    rw [hget] at hsilent
    simp [Java.resolve, hcache, Java.refresh, Java.queryAgent, Java.encode, if_neg hlen',
      Oracle.always, Java.received] at hsilent

/-- The first lookup of a reference does not answer with the reference. -/
theorem not_reads_reference {L : Language} (hL : L ≠ .c) {setup : Setup τ} {env : Environ}
    (hpatched : L.patched (L.started setup env) = true) {key : L.Key} {n : Bytes} {v : CStr}
    (hname : L.name key = some n) (hv : env.get n = some v) (hvault : v.startsWith vaultPrefix = true)
    (time : L.Time τ) :
    ¬ L.Reads env key (.always .refused time) (L.started setup env) .start := by
  intro hreads
  have hv' : (L.environ (L.started setup env)).get n = some v := by
    rw [settled_environ (settled_started setup env L), hv]
  apply managed_unresolved_ne hL hpatched hname hv' hvault (o := .always .refused time) (t := .start)
  · refine ⟨fun _ _ => rfl, ?_⟩
    cases L with
    | c => rfl
    | python =>
      obtain ⟨self, hself, -, hcache⟩ := started_python hpatched
      rw [hself]
      simp only [holdsValue, hcache]
    | java =>
      obtain ⟨self, hself, -, hcache⟩ := started_java hpatched
      rw [hself]
      simp only [holdsValue, hcache]
  · rw [hreads.2]
    exact real_present hname hv

/-- A governed variable is outside the agent's influence exactly if the client is the
    C library, or a managed client the variable is not exposed to. -/
theorem isolated_iff [Inhabited τ] (L : Language) (setup : Setup τ) (env : Environ)
    (key : L.Key) (hgov : L.Governed env key) : L.Isolated setup env key ↔ ¬ L.Exposed setup env key := by
  constructor
  · intro hisolated hexposed
    obtain ⟨hL, hpatched, n, hname, hn⟩ := hexposed
    obtain ⟨hsilent, hreal, -⟩ :=
      hisolated (.always .refused default) (.always .refused default) []
    have hreads : L.Reads env key (.always .refused default) (L.started setup env) .start :=
      ⟨hsilent, hreal⟩
    cases hv : env.get n with
    | none =>
      simp only [hv] at hn
      exact not_reads_absent hL hpatched hname hv hn default hreads
    | some v =>
      simp only [hv] at hn
      exact not_reads_reference hL hpatched hname hv hn default hreads
  · intro hexposed o o' before
    have hreads : ∀ o : Oracle (L.Time τ),
        L.Reads env key o (L.after setup env before o).1 (L.after setup env before o).2 := by
      intro o
      obtain ⟨hsettled, hpatched⟩ := settled_after setup env before o
      by_cases hL : L = .c
      · subst hL
        exact reads_c hgov o hsettled _
      · exact reads_managed hL hexposed o hsettled hpatched _
    obtain ⟨hsilent, hreal⟩ := hreads o
    exact ⟨hsilent, hreal, (hreads o').2.trans hreal.symm⟩

/-- In disabled mode the Python proxy is not installed. -/
theorem isolated_disabled_python :
    Language.python.Isolated plainSetup [(envproxyEnabled, zero)] (.ofStr ['A']) ↔
      ¬ Language.python.Exposed plainSetup [(envproxyEnabled, zero)] (.ofStr ['A']) :=
  isolated_iff .python plainSetup [(envproxyEnabled, zero)] (.ofStr ['A']) (.inr (by decide))

/-- The Python proxy asks for an absent configuration variable, and the Java map asks
    for any absent variable in disabled mode. -/
theorem not_isolated :
    ¬ Language.python.Isolated plainSetup [] (.ofStr "ENVPROXY_DEBUG".toList) ∧
      ¬ Language.java.Isolated plainSetup [(envproxyEnabled, zero)] (.ofStr ['A']) := by
  constructor
  · intro h
    exact absurd (h (.always .refused 0) (.always .refused 0) []).1 (by decide)
  · intro h
    exact absurd (h (.always .refused 0) (.always .refused 0) []).1 (by decide)

end Language

end EnvProxy
