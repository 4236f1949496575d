-- SUMMARY: The Python client: the proxy around `os.environ`, its cache, and its installation.
import EnvProxy.Client.Connection
import EnvProxy.Client.Environ
import EnvProxy.Client.Strings

/-!
# The Python proxy

`getitem` looks a key up in the real environment, then in the cache, then asks the
agent. Times are the floats of `time.monotonic()`; only their difference and its
comparison with the TTL are used, so the type stays open.
-/

namespace EnvProxy.Python

inductive Error where
  | keyError (key : PyStr)
  | unicodeEncodeError
  deriving DecidableEq, Repr

/-- `os.environ[key]` of the unpatched environment. -/
def osGetitem (env : Environ) (key : PyStr) : Except Error PyStr :=
  match key.encode with
  | none => .error .unicodeEncodeError
  | some encoded =>
    match env.get encoded with
    | none => .error (.keyError key)
    | some value => .ok (.decode value.bytes)

/-- `os.environ.get(key, default)`, for a key that can be encoded. -/
def osGet (env : Environ) (key : CStr) (default : PyStr) : PyStr :=
  match env.get key.bytes with
  | none => default
  | some value => .decode value.bytes

structure CacheEntry (Time : Type) where
  value : Option PyStr
  timestamp : Time

/-- `_EnvProxyEnviron`. -/
structure Proxy (Time : Type) where
  original : Environ
  cache : PyStr → Option (CacheEntry Time)
  sockPath : PyStr
  cacheTtl : Time

def protocolFrame (keyBytes : Bytes) : Option Bytes → Bytes
  | none => [protocolV1] ++ toBeBytes keyBytes.length ++ keyBytes
  | some valBytes =>
    [protocolV2] ++ toBeBytes keyBytes.length ++ keyBytes ++ toBeBytes valBytes.length ++ valBytes

/-- The value of a `Found` response that arrived completely. -/
def received : Reply → Option PyStr
  | .refused => none
  | .stream stream =>
    match readFrame stream with
    | .error _ => none
    | .ok (status, valueBytes) => if status = 0x00 then some (.decode valueBytes) else none

/-- The request for a key: nothing is sent for a key or a value that is too long. -/
def encode (key : PyStr) (currentValue : Option PyStr) : Except Error (Option Bytes) :=
  match key.encode with
  | none => .error .unicodeEncodeError
  | some keyBytes =>
    if keyBytes.length > 0xFFFF then .ok none
    else
      match currentValue with
      | none => .ok (some (protocolFrame keyBytes none))
      | some value =>
        match value.encode with
        | none => .error .unicodeEncodeError
        | some valBytes =>
          if valBytes.length > 0xFFFF then .ok none
          else .ok (some (protocolFrame keyBytes (some valBytes)))

section

variable {Time : Type} {m : Type → Type} [Monad m]

def queryAgent (w : World Time m) (key sockPath : PyStr) (currentValue : Option PyStr) :
    m (Except Error (Option PyStr)) :=
  match encode key currentValue with
  | .error e => pure (.error e)
  | .ok none => pure (.ok none)
  | .ok (some request) =>
    -- `sock.connect` encodes the path.
    match sockPath.encode with
    | none => pure (.error .unicodeEncodeError)
    | some path => do
      let reply ← w.agent path request
      pure (.ok (received reply))

/-- What a resolved or unresolved key gives. -/
def answer (key : PyStr) : Option PyStr → Except Error PyStr
  | some value => .ok value
  | none => .error (.keyError key)

variable [Sub Time] [LT Time] [DecidableLT Time]

/-- `_is_cache_valid`. -/
def isCacheValid (self : Proxy Time) (now : Time) (entry : CacheEntry Time) : Bool :=
  now - entry.timestamp < self.cacheTtl

/-- Query the agent and cache what it says, also that it says nothing. -/
def refresh (w : World Time m) (self : Proxy Time) (key : PyStr) (realValue : Option PyStr) :
    m (Except Error PyStr × Proxy Time) := do
  match ← queryAgent w key self.sockPath realValue with
  | .error e => pure (.error e, self)
  | .ok value =>
    let timestamp ← w.clock
    let cache := Function.update self.cache key (some { value, timestamp })
    pure (answer key value, { self with cache })

/-- Check the cache, then query the agent. -/
def resolve (w : World Time m) (self : Proxy Time) (key : PyStr) (realValue : Option PyStr) :
    m (Except Error PyStr × Proxy Time) := do
  match self.cache key with
  | none => refresh w self key realValue
  | some entry =>
    let now ← w.clock
    if isCacheValid self now entry then pure (answer key entry.value, self)
    else refresh w self key realValue

/-- `__getitem__`. -/
def getitem (w : World Time m) (self : Proxy Time) (key : PyStr) :
    m (Except Error PyStr × Proxy Time) :=
  match osGetitem self.original key with
  | .error .unicodeEncodeError => pure (.error .unicodeEncodeError, self)
  | .ok realValue =>
    -- A reference needs to be resolved by the agent.
    if !realValue.startsWith vaultPrefix then pure (.ok realValue, self)
    else resolve w self key (some realValue)
  | .error (.keyError _) => resolve w self key none

end

/-! ## Installation -/

/-- `os.environ`: as the interpreter made it, or replaced by the proxy. -/
inductive OsEnviron (Time : Type) where
  | plain (original : Environ)
  | proxied (self : Proxy Time)

/-- What `_install` takes from the interpreter: `float` of a string, and the default TTL. -/
structure Floats (Time : Type) where
  parse : PyStr → Option Time
  defaultCacheTtl : Time
  defaultText : PyStr

def install {Time : Type} (floats : Floats Time) : OsEnviron Time → OsEnviron Time
  | .proxied self => .proxied self
  | .plain env =>
    let enabled := osGet env envproxyEnabled (.ofStr ['1'])
    if enabled = .ofStr ['0'] then .plain env
    else
      let sockPath := osGet env envproxySocket (.ofStr defaultSocketPath)
      let cacheTtl := (floats.parse (osGet env envproxyCacheTtl floats.defaultText)).getD
        floats.defaultCacheTtl
      .proxied { original := env, cache := fun _ => none, sockPath, cacheTtl }

/-! ## What a lookup does -/

/-- A reply resolves to the text of its `Found` value. -/
theorem received_eq (reply : Reply) : received reply = reply.found.map .decode := by
  cases reply with
  | refused => rfl
  | stream s =>
    simp only [received]
    split
    · next e hread =>
      cases hfound : (Reply.stream s).found with
      | none => rfl
      | some value =>
        rw [Reply.found_stream_eq_some_iff, hread] at hfound
        cases hfound
    · next status valueBytes hread =>
      split
      · next hzero =>
        rw [hzero, ← Reply.found_stream_eq_some_iff] at hread
        rw [hread]
        rfl
      · next hstatus =>
        cases hfound : (Reply.stream s).found with
        | none => rfl
        | some value =>
          rw [Reply.found_stream_eq_some_iff, hread] at hfound
          cases hfound
          exact absurd rfl hstatus

section

variable {Time : Type} {m : Type → Type} [Monad m] [Sub Time] [LT Time] [DecidableLT Time]

theorem osGetitem_encoded {env : Environ} {key : PyStr} {name : Bytes} (h : key.encode = some name) :
    osGetitem env key =
      match env.get name with
      | none => .error (.keyError key)
      | some value => .ok (.decode value.bytes) := by
  simp only [osGetitem, h]

/-- A key that cannot be encoded is an error of the real environment. -/
theorem getitem_unencodable (w : World Time m) (self : Proxy Time) {key : PyStr}
    (h : key.encode = none) : getitem w self key = pure (osGetitem self.original key, self) := by
  simp only [getitem, osGetitem, h]

/-- A real value that is no reference is returned as it is. -/
theorem getitem_plain (w : World Time m) {self : Proxy Time} {key : PyStr} {name : Bytes}
    {value : CStr} (hname : key.encode = some name) (hreal : self.original.get name = some value)
    (hplain : value.startsWith vaultPrefix = false) :
    getitem w self key = pure (.ok (.decode value.bytes), self) := by
  have hplain' : (PyStr.decode value.bytes).startsWith vaultPrefix = false := by
    rw [Bool.eq_false_iff, Ne, PyStr.startsWith_decode vaultPrefix_ascii, ← CStr.startsWith_iff, hplain]
    exact Bool.false_ne_true
  simp [getitem, osGetitem_encoded hname, hreal, hplain']

/-- Everything else is resolved. -/
theorem getitem_resolve (w : World Time m) {self : Proxy Time} {key : PyStr} {name : Bytes}
    (hname : key.encode = some name)
    (h : ∀ value, self.original.get name = some value → value.startsWith vaultPrefix = true) :
    getitem w self key =
      resolve w self key ((self.original.get name).map fun value => .decode value.bytes) := by
  simp only [getitem, osGetitem_encoded hname]
  cases hreal : self.original.get name with
  | none => rfl
  | some value =>
    have hvault : (PyStr.decode value.bytes).startsWith vaultPrefix = true := by
      rw [PyStr.startsWith_decode vaultPrefix_ascii, ← CStr.startsWith_iff]
      exact h value hreal
    simp [hvault]

/-- An absent variable goes to the cache and the agent as well. -/
theorem getitem_absent (w : World Time m) {self : Proxy Time} {key : PyStr} {name : Bytes}
    (hname : key.encode = some name) (habsent : self.original.get name = none) :
    getitem w self key = resolve w self key none := by
  have hvault : ∀ value, self.original.get name = some value →
      value.startsWith vaultPrefix = true := by
    intro value hvalue
    rw [habsent] at hvalue
    cases hvalue
  rw [getitem_resolve w hname hvault, habsent, Option.map_none]

end

/-! ## What a lookup leaves -/

section

variable {Time : Type}

/-- Nothing is sent for a key that is too long. -/
theorem encode_long {key : PyStr} {name : Bytes} (hname : key.encode = some name)
    (hlong : maxKeyLen < name.length) (value : Option PyStr) : encode key value = .ok none := by
  have hlong' : name.length > 0xFFFF := hlong
  simp only [encode, hname, if_pos hlong']

/-- A refresh writes at most one cache entry, and a negative one if nothing is sent. -/
theorem exec_refresh_state (o : Oracle Time) (self : Proxy Time) (key : PyStr) (value : Option PyStr)
    (t : Trace) :
    (Recorded.exec (refresh o.world self key value) t).1.2 = self ∨
      ∃ entry, (Recorded.exec (refresh o.world self key value) t).1.2 =
          { self with cache := Function.update self.cache key (some entry) } ∧
        (encode key value = .ok none → entry.value = none) := by
  cases hencode : encode key value with
  | error e => exact .inl (by simp [refresh, queryAgent, hencode])
  | ok frame? =>
    cases frame? with
    | none => exact .inr ⟨⟨none, o.clock t.reads⟩, by simp [refresh, queryAgent, hencode], fun _ => rfl⟩
    | some frame =>
      cases hpath : self.sockPath.encode with
      | none => exact .inl (by simp [refresh, queryAgent, hencode, hpath])
      | some path =>
        exact .inr ⟨⟨received (o.reply (t.requests ++ [⟨path, frame⟩])), o.clock t.reads⟩,
          by simp [refresh, queryAgent, hencode, hpath], fun h => nomatch h⟩

variable [Sub Time] [LT Time] [DecidableLT Time]

theorem exec_resolve_state (o : Oracle Time) (self : Proxy Time) (key : PyStr) (value : Option PyStr)
    (t : Trace) :
    (Recorded.exec (resolve o.world self key value) t).1.2 = self ∨
      ∃ entry, (Recorded.exec (resolve o.world self key value) t).1.2 =
          { self with cache := Function.update self.cache key (some entry) } ∧
        (encode key value = .ok none → entry.value = none) := by
  cases hentry : self.cache key with
  | none => simpa [resolve, hentry] using exec_refresh_state o self key value t
  | some entry =>
    cases hvalid : isCacheValid self (o.clock t.reads) entry with
    | true => exact .inl (by simp [resolve, hentry, hvalid])
    | false =>
      simpa [resolve, hentry, hvalid] using
        exec_refresh_state o self key value { t with reads := t.reads + 1 }

/-- A lookup leaves the proxy as it is, or with one more cache entry. -/
theorem exec_getitem_state (o : Oracle Time) (self : Proxy Time) (key : PyStr) (t : Trace) :
    (Recorded.exec (getitem o.world self key) t).1.2 = self ∨
      ∃ value entry, (Recorded.exec (getitem o.world self key) t).1.2 =
          { self with cache := Function.update self.cache key (some entry) } ∧
        (encode key value = .ok none → entry.value = none) := by
  simp only [getitem]
  split
  · exact .inl rfl
  · next value _ =>
    split
    · exact .inl rfl
    · exact (exec_resolve_state o self key (some value) t).imp id fun ⟨entry, h⟩ => ⟨some value, entry, h⟩
  · exact (exec_resolve_state o self key none t).imp id fun ⟨entry, h⟩ => ⟨none, entry, h⟩

/-- A lookup of which nothing is sent reports the variable missing. -/
theorem exec_resolve_unsent {o : Oracle Time} {self : Proxy Time} {key : PyStr}
    {value : Option PyStr} (t : Trace) (hencode : encode key value = .ok none)
    (hcache : ∀ entry, self.cache key = some entry → entry.value = none) :
    (Recorded.exec (resolve o.world self key value) t).1.1 = .error (.keyError key) ∧
      (Recorded.exec (resolve o.world self key value) t).2.requests = t.requests := by
  cases hentry : self.cache key with
  | none => simp [resolve, hentry, refresh, queryAgent, hencode, answer]
  | some entry =>
    cases hvalid : isCacheValid self (o.clock t.reads) entry with
    | true => simp [resolve, hentry, hvalid, answer, hcache entry hentry]
    | false => simp [resolve, hentry, hvalid, refresh, queryAgent, hencode, answer]

end

end EnvProxy.Python
