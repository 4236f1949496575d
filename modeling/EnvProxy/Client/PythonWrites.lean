-- SUMMARY: The writing half of the Python proxy, and what a lookup asks the agent for.
import EnvProxy.Client.Python

/-!
# Writes to the proxy

`os.environ` encodes a key and a value, hands them to the C library, and keeps what
it accepts. The proxy passes every write on, and drops the cache entry of the key
it was called with.
-/

namespace EnvProxy.Python

/-- What a call on the mapping raises: the error of a lookup, the `KeyError` of an
    empty mapping, or the refusal of the C library. -/
inductive Exception where
  | lookup (e : Error)
  | emptyMapping
  | valueError
  | osError
  deriving DecidableEq, Repr

/-! ## The unpatched environment -/

def equalsSign : UInt8 := 0x3D

/-- `os.putenv`. -/
def putenv (env : Environ) (name value : Bytes) : Except Exception Environ :=
  match CStr.new name, CStr.new value with
  | some cname, some cvalue =>
    if equalsSign ∈ name then .error .valueError
    else if name = [] then .error .osError
    else .ok (env.set cname cvalue)
  -- An embedded null byte.
  | _, _ => .error .valueError

/-- `os.unsetenv`. -/
def unsetenv (name : Bytes) : Except Exception Unit :=
  if (0 : UInt8) ∈ name then .error .valueError
  else if equalsSign ∈ name ∨ name = [] then .error .osError
  else .ok ()

/-- `os.environ[key] = value`. -/
def osSetitem (env : Environ) (key value : PyStr) : Except Exception Environ :=
  match key.encode, value.encode with
  | some name, some text => putenv env name text
  | _, _ => .error (.lookup .unicodeEncodeError)

/-- `del os.environ[key]`. -/
def osDelitem (env : Environ) (key : PyStr) : Except Exception Environ :=
  match key.encode with
  | none => .error (.lookup .unicodeEncodeError)
  | some name => do
    unsetenv name
    match env.get name with
    | none => .error (.lookup (.keyError key))
    | some _ => .ok (env.remove name)

theorem osSetitem_ok {env original : Environ} {key value : PyStr}
    (h : osSetitem env key value = .ok original) :
    ∃ name text : CStr, key.encode = some name.bytes ∧ value.encode = some text.bytes ∧
      original = env.set name text := by
  simp only [osSetitem] at h
  split at h
  · next name text hname htext =>
    simp only [putenv] at h
    split at h
    · next cname ctext hcname hctext =>
      rw [CStr.new_eq_some_iff] at hcname hctext
      subst hcname hctext
      split at h
      · cases h
      · split at h <;> cases h
        exact ⟨cname, ctext, hname, htext, rfl⟩
    · cases h
  · cases h

theorem osDelitem_ok_iff {env original : Environ} {key : PyStr} :
    osDelitem env key = .ok original ↔
      ∃ name, key.encode = some name ∧ unsetenv name = .ok () ∧ env.get name ≠ none ∧
        original = env.remove name := by
  simp only [osDelitem]
  cases hname : key.encode with
  | none => simp
  | some name =>
    cases hunset : unsetenv name with
    | error e => simp [bind, Except.bind, hunset]
    | ok u => cases hget : env.get name <;> simp [bind, Except.bind, hunset, hget, eq_comm]

section

variable {Time : Type}

/-! ## The proxy -/

/-- Change the real environment, then drop the entry of the key; a refused write
    changes nothing. -/
def write (self : Proxy Time) (key : PyStr) :
    Except Exception Environ → Except Exception Unit × Proxy Time
  | .error e => (.error e, self)
  | .ok original => (.ok (), { self with original, cache := Function.update self.cache key none })

/-- `__setitem__`. -/
def setitem (self : Proxy Time) (key value : PyStr) : Except Exception Unit × Proxy Time :=
  write self key (osSetitem self.original key value)

/-- `__delitem__`. -/
def delitem (self : Proxy Time) (key : PyStr) : Except Exception Unit × Proxy Time :=
  write self key (osDelitem self.original key)

/-- A key is a member if a lookup returns: `Mapping.__contains__`. -/
def isMember : Except Error PyStr → Except Error Bool
  | .ok _ => .ok true
  | .error (.keyError _) => .ok false
  | .error .unicodeEncodeError => .error .unicodeEncodeError

/-- `__contains__`. -/
def contains {m : Type → Type} [Monad m] [Sub Time] [LT Time] [DecidableLT Time]
    (w : World Time m) (self : Proxy Time) (key : PyStr) :
    m (Except Error Bool × Proxy Time) :=
  match isMember (osGetitem self.original key) with
  | .ok false => do
    let (result, self) ← getitem w self key
    pure (isMember result, self)
  | known => pure (known, self)

theorem write_result (self : Proxy Time) (key : PyStr) (change : Except Exception Environ) :
    (write self key change).1 = change.map fun _ => () := by
  cases change <;> rfl

/-! ## What a lookup asks for -/

/-- The request the agent is sent for a key and the value it has, if one is sent. -/
def request (sockPath key : PyStr) (value : Option PyStr) : Except Error (Option Request) :=
  match encode key value with
  | .error e => .error e
  | .ok none => .ok none
  | .ok (some frame) =>
    match sockPath.encode with
    | none => .error .unicodeEncodeError
    | some path => .ok (some { path, frame })

/-- The request the proxy would send now: for the key with its real value, or for
    the key alone. -/
def wanted (self : Proxy Time) (key : PyStr) : Except Error (Option Request) :=
  request self.sockPath key (osGetitem self.original key).toOption

/-- The value a request gets after the requests sent before. -/
def heard (o : Oracle Time) (before : List Request) : Option Request → Option PyStr
  | none => none
  | some request => received (o.reply (before ++ [request]))

/-- Whether a lookup of the key goes past the real environment. -/
def Unanswered (self : Proxy Time) (key : PyStr) : Prop :=
  match osGetitem self.original key with
  | .ok value => value.startsWith vaultPrefix = true
  | .error e => e = .keyError key

def Proxy.store (self : Proxy Time) (key : PyStr) (entry : CacheEntry Time) : Proxy Time :=
  { self with cache := Function.update self.cache key (some entry) }

@[simp] theorem Proxy.wanted_store (self : Proxy Time) (key other : PyStr)
    (entry : CacheEntry Time) : wanted (self.store key entry) other = wanted self other := rfl

theorem wanted_congr {self self' : Proxy Time} {key : PyStr}
    (hreal : osGetitem self'.original key = osGetitem self.original key)
    (hsock : self'.sockPath = self.sockPath) : wanted self' key = wanted self key := by
  simp only [wanted, hreal, hsock]

theorem unanswered_congr {self self' : Proxy Time} {key : PyStr}
    (hreal : osGetitem self'.original key = osGetitem self.original key) :
    Unanswered self' key ↔ Unanswered self key := by
  simp only [Unanswered, hreal]

theorem unanswered_real {self : Proxy Time} {key value : PyStr}
    (hreal : osGetitem self.original key = .ok value) :
    Unanswered self key ↔ value.startsWith vaultPrefix = true := by
  simp only [Unanswered, hreal]

theorem unanswered_error {self : Proxy Time} {key : PyStr} {e : Error}
    (hreal : osGetitem self.original key = .error e) :
    Unanswered self key ↔ e = .keyError key := by
  simp only [Unanswered, hreal]

theorem osGetitem_error {env : Environ} {key : PyStr} {e : Error} (h : osGetitem env key = .error e) :
    (e = .unicodeEncodeError ∧ key.encode = none) ∨ (e = .keyError key) := by
  simp only [osGetitem] at h
  split at h
  · next hname =>
    cases h
    exact .inl ⟨rfl, hname⟩
  · split at h <;> cases h
    exact .inr rfl

/-- A refresh that raises leaves everything as it is; any other sends what is wanted
    and stores what it hears. -/
theorem exec_refresh (o : Oracle Time) (self : Proxy Time) (key : PyStr) (value : Option PyStr)
    (t : Trace) :
    Recorded.exec (refresh o.world self key value) t =
      match request self.sockPath key value with
      | .error e => ((.error e, self), t)
      | .ok sent =>
        ((answer key (heard o t.requests sent),
          self.store key { value := heard o t.requests sent, timestamp := o.clock t.reads }),
          (t.sent sent).tick) := by
  cases hencode : encode key value with
  | error e => simp [refresh, queryAgent, request, hencode]
  | ok frame? =>
    cases frame? with
    | none => simp [refresh, queryAgent, request, hencode, heard, Trace.sent, Trace.tick, Proxy.store]
    | some frame =>
      cases hpath : self.sockPath.encode with
      | none => simp [refresh, queryAgent, request, hencode, hpath]
      | some path =>
        simp [refresh, queryAgent, request, hencode, hpath, heard, Trace.sent, Trace.tick, Proxy.store]

section

variable [Sub Time] [LT Time] [DecidableLT Time]

/-- A valid entry answers; otherwise the agent is asked, after a look at the clock if
    there was an entry. -/
theorem exec_resolve (o : Oracle Time) (self : Proxy Time) (key : PyStr) (value : Option PyStr)
    (t : Trace) :
    (∃ entry, self.cache key = some entry ∧ isCacheValid self (o.clock t.reads) entry = true ∧
        Recorded.exec (resolve o.world self key value) t = ((answer key entry.value, self), t.tick)) ∨
      ((∀ entry, self.cache key = some entry → isCacheValid self (o.clock t.reads) entry = false) ∧
        Recorded.exec (resolve o.world self key value) t =
          Recorded.exec (refresh o.world self key value) (t.checked (self.cache key))) := by
  cases hentry : self.cache key with
  | none =>
    refine .inr ⟨fun entry h => (nomatch h), ?_⟩
    simp only [resolve, hentry, Trace.checked]
  | some entry =>
    cases hvalid : isCacheValid self (o.clock t.reads) entry with
    | true =>
      refine .inl ⟨entry, rfl, hvalid, ?_⟩
      simp [resolve, hentry, hvalid, Trace.tick]
    | false =>
      refine .inr ⟨?_, ?_⟩
      · intro entry' h
        cases h
        exact hvalid
      · simp [resolve, hentry, hvalid, Trace.checked, Trace.tick]

section

variable {m : Type → Type} [Monad m] (w : World Time m) {self : Proxy Time} {key : PyStr}

/-- A lookup takes what the real environment says, unless that is a reference or nothing. -/
theorem getitem_real (h : ¬ Unanswered self key) :
    getitem w self key = pure (osGetitem self.original key, self) := by
  simp only [getitem]
  cases hreal : osGetitem self.original key with
  | ok value =>
    rw [unanswered_real hreal, Bool.not_eq_true] at h
    simp only [h, Bool.not_false, if_true]
  | error e =>
    rw [unanswered_error hreal] at h
    cases osGetitem_error hreal with
    | inl hname => rw [hname.1]
    | inr habsent => exact absurd habsent h

/-- Otherwise it resolves. -/
theorem getitem_unanswered (h : Unanswered self key) :
    getitem w self key = resolve w self key (osGetitem self.original key).toOption := by
  simp only [getitem]
  cases hreal : osGetitem self.original key with
  | ok value =>
    rw [unanswered_real hreal] at h
    simp only [h, Bool.not_true, Bool.false_eq_true, if_false, Except.toOption]
  | error e =>
    rw [unanswered_error hreal] at h
    rw [h]
    rfl

end

/-- Whether a lookup is answered by the entry. -/
def FromCache (o : Oracle Time) (self : Proxy Time) (t : Trace) (key : PyStr)
    (entry : CacheEntry Time) : Prop :=
  Unanswered self key ∧ self.cache key = some entry ∧
    isCacheValid self (o.clock t.reads) entry = true

/-- A lookup is answered by the real environment, by an entry, or by the agent. -/
theorem lookup_cases (o : Oracle Time) (self : Proxy Time) (t : Trace) (key : PyStr) :
    ¬ Unanswered self key ∨ (∃ entry, FromCache o self t key entry) ∨
      (Unanswered self key ∧ ∀ entry, ¬ FromCache o self t key entry) := by
  by_cases hunanswered : Unanswered self key
  · by_cases hcached : ∃ entry, FromCache o self t key entry
    · exact .inr (.inl hcached)
    · exact .inr (.inr ⟨hunanswered, fun entry h => hcached ⟨entry, h⟩⟩)
  · exact .inl hunanswered

theorem exec_getitem_real (o : Oracle Time) {self : Proxy Time} {key : PyStr} (t : Trace)
    (h : ¬ Unanswered self key) :
    Recorded.exec (getitem o.world self key) t = ((osGetitem self.original key, self), t) := by
  rw [getitem_real _ h, Recorded.exec_pure]

theorem exec_getitem_cached {o : Oracle Time} {self : Proxy Time} {key : PyStr} {t : Trace}
    {entry : CacheEntry Time} (h : FromCache o self t key entry) :
    Recorded.exec (getitem o.world self key) t = ((answer key entry.value, self), t.tick) := by
  obtain ⟨hunanswered, hentry, hvalid⟩ := h
  rw [getitem_unanswered _ hunanswered]
  cases exec_resolve o self key (osGetitem self.original key).toOption t with
  | inl hhit =>
    obtain ⟨entry', hentry', -, hexec⟩ := hhit
    rw [hentry] at hentry'
    cases hentry'
    exact hexec
  | inr hmiss =>
    rw [hmiss.1 entry hentry] at hvalid
    cases hvalid

/-- A lookup answered neither by the real environment nor by the cache sends what is
    wanted and stores what it hears. -/
theorem exec_getitem_asked (o : Oracle Time) {self : Proxy Time} {key : PyStr} (t : Trace)
    (hunanswered : Unanswered self key) (hmiss : ∀ entry, ¬ FromCache o self t key entry) :
    Recorded.exec (getitem o.world self key) t =
      match wanted self key with
      | .error e => ((.error e, self), t.checked (self.cache key))
      | .ok sent =>
        ((answer key (heard o t.requests sent),
          self.store key
            { value := heard o t.requests sent
              timestamp := o.clock (t.checked (self.cache key)).reads }),
          ((t.checked (self.cache key)).sent sent).tick) := by
  rw [getitem_unanswered _ hunanswered]
  cases exec_resolve o self key (osGetitem self.original key).toOption t with
  | inl hhit =>
    obtain ⟨entry, hentry, hvalid, -⟩ := hhit
    exact absurd ⟨hunanswered, hentry, hvalid⟩ (hmiss entry)
  | inr hasked =>
    rw [hasked.2, exec_refresh, Trace.requests_checked]
    rfl

theorem exec_getitem_kept (o : Oracle Time) (self : Proxy Time) (key : PyStr) (t : Trace) :
    (Recorded.exec (getitem o.world self key) t).1.2.original = self.original ∧
      (Recorded.exec (getitem o.world self key) t).1.2.sockPath = self.sockPath ∧
      (Recorded.exec (getitem o.world self key) t).1.2.cacheTtl = self.cacheTtl := by
  cases exec_getitem_state o self key t with
  | inl h => simp [h]
  | inr h =>
    obtain ⟨value, entry, h, -⟩ := h
    simp [h]

/-- A membership test looks up what the real environment does not have. -/
theorem exec_contains (o : Oracle Time) (self : Proxy Time) (key : PyStr) (t : Trace) :
    Recorded.exec (contains o.world self key) t =
      if isMember (osGetitem self.original key) = .ok false then
        let looked := Recorded.exec (getitem o.world self key) t
        ((isMember looked.1.1, looked.1.2), looked.2)
      else ((isMember (osGetitem self.original key), self), t) := by
  simp only [contains]
  split
  · next hfalse => simp [hfalse]
  · next hknown => rw [if_neg hknown, Recorded.exec_pure]

end

end

end EnvProxy.Python
