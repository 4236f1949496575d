-- SUMMARY: The response readers of the three clients, loop by loop, against the decoder of the protocol.
import EnvProxy.Client.Getenv
import EnvProxy.Client.Python
import EnvProxy.Client.Java
import EnvProxy.Proto.Frames

/-!
# Response readers

Python grows a buffer chunk by chunk, Java fills one of fixed size, Rust's `read_exact`
is the loop of the stream library. All three find the value the decoder finds in
everything the agent has sent, however it is cut into chunks.
-/

namespace EnvProxy

/-! ## Python -/

namespace Python

/-- The loop of `_recv_exact`. A chunk is never empty, so `n` rounds are enough. An
    empty `recv` and a timeout both end it. -/
def recvRounds : Nat → Bytes → Nat → Chunked UInt8 → Option (Bytes × Chunked UInt8)
  | fuel, buf, n, sock =>
    if buf.length < n then
      match fuel with
      | 0 => none
      | fuel + 1 =>
        match sock.read (n - buf.length) with
        | .error _ => none
        | .ok (chunk, sock) => recvRounds fuel (buf ++ chunk) n sock
    else some (buf, sock)

/-- `_recv_exact`. -/
def recvExact (sock : Chunked UInt8) (n : Nat) : Option (Bytes × Chunked UInt8) :=
  recvRounds n [] n sock

/-- Nothing is read for an empty value. -/
def recvValue (sock : Chunked UInt8) (valLen : Nat) : Option (Bytes × Chunked UInt8) :=
  if valLen > 0 then recvExact sock valLen else some ([], sock)

/-- The bytes `_query_agent` decodes. -/
def readResponse (sock : Chunked UInt8) : Option Bytes :=
  match recvExact sock 3 with
  | none => none
  | some (header, sock) =>
    let status := header.getD 0 0
    match recvValue sock (fromBeBytes (header.getD 1 0) (header.getD 2 0)) with
    | none => none
    | some (valueBytes, _) => if status = 0x00 then some valueBytes else none

/-- The buffer so far, and what the stream loop reads of the rest. -/
theorem recvRounds_eq {fuel n : Nat} {buf : Bytes} {sock : Chunked UInt8} (h : buf.length ≤ n) :
    recvRounds fuel buf n sock =
      (Chunked.readRounds fuel (n - buf.length) sock).toOption.map fun p => (buf ++ p.1, p.2) := by
  induction fuel generalizing buf sock with
  | zero =>
    unfold recvRounds
    split
    · next hlt =>
      obtain ⟨k, hk⟩ : ∃ k, n - buf.length = k + 1 := ⟨n - buf.length - 1, by omega⟩
      rw [hk]
      rfl
    · next hge =>
      have hfull : n - buf.length = 0 := by omega
      simp [hfull, Chunked.readRounds, Except.toOption]
  | succ fuel ih =>
    unfold recvRounds
    split
    · next hlt =>
      obtain ⟨k, hk⟩ : ∃ k, n - buf.length = k + 1 := ⟨n - buf.length - 1, by omega⟩
      simp only [hk, Chunked.readRounds]
      cases hread : sock.read (k + 1) with
      | error e => rfl
      | ok p =>
        obtain ⟨chunk, sock'⟩ := p
        obtain ⟨-, -, hlen, -⟩ := Chunked.read_ok hread
        have hfits : (buf ++ chunk).length ≤ n := by rw [List.length_append]; omega
        have hrest : n - (buf ++ chunk).length = k + 1 - chunk.length := by
          rw [List.length_append]; omega
        simp only [ih hfits, hrest]
        cases Chunked.readRounds fuel (k + 1 - chunk.length) sock' with
        | error e => rfl
        | ok q => simp [Except.toOption]
    · next hge =>
      have hfull : n - buf.length = 0 := by omega
      simp [hfull, Chunked.readRounds, Except.toOption]

theorem recvExact_eq (sock : Chunked UInt8) (n : Nat) :
    recvExact sock n = (sock.readExact n).toOption := by
  rw [recvExact, recvRounds_eq (Nat.zero_le n)]
  simp [Chunked.readExact]

theorem recvValue_eq (sock : Chunked UInt8) (n : Nat) :
    recvValue sock n = (sock.readExact n).toOption := by
  cases n with
  | zero => rfl
  | succ n => rw [recvValue, if_pos (Nat.succ_pos n), recvExact_eq]

theorem readResponse_eq (sock : Chunked UInt8) :
    readResponse sock =
      match readFrame sock with
      | .error _ => none
      | .ok (status, valueBytes) => if status = 0x00 then some valueBytes else none := by
  simp only [readResponse, recvExact_eq, recvValue_eq, readFrame, bind, Except.bind]
  cases sock.readExact 3 with
  | error e => rfl
  | ok p =>
    obtain ⟨header, sock'⟩ := p
    simp only [Except.toOption]
    cases sock'.readExact (fromBeBytes (header.getD 1 0) (header.getD 2 0)) with
    | error e => rfl
    | ok q => rfl

/-- What a lookup receives is the text of these bytes. -/
theorem received_stream (sock : Chunked UInt8) :
    received (.stream sock) = (readResponse sock).map .decode := by
  rw [readResponse_eq, received]
  cases readFrame sock with
  | error e => rfl
  | ok frame =>
    obtain ⟨status, valueBytes⟩ := frame
    simp only
    split <;> rfl

end Python

/-! ## Java -/

namespace Java

/-- A `ByteBuffer` that is being filled. -/
structure ByteBuffer where
  filled : Bytes
  remaining : Nat

def ByteBuffer.allocate (n : Nat) : ByteBuffer := { filled := [], remaining := n }

/-- The loop of `readFully`. Every read fills something, so as many rounds as the
    buffer has room are enough. -/
def fillRounds : Nat → Chunked UInt8 → ByteBuffer → Except Ending (Bytes × Chunked UInt8)
  | fuel, channel, buf =>
    if buf.remaining > 0 then
      match fuel with
      | 0 => .error channel.ending
      | fuel + 1 =>
        match channel.read buf.remaining with
        | .error e => .error e
        | .ok (got, channel) =>
          fillRounds fuel channel
            { filled := buf.filled ++ got, remaining := buf.remaining - got.length }
    else .ok (buf.filled, channel)

/-- `readFully`: throws at the end of the stream, and waits while it is silent. -/
def readFully (channel : Chunked UInt8) (buf : ByteBuffer) :
    Except Ending (Bytes × Chunked UInt8) :=
  fillRounds buf.remaining channel buf

/-- `ByteBuffer.getShort`, which is signed. -/
def getShort (hi lo : UInt8) : Int16 := (UInt16.ofNat (hi.toNat * 256 + lo.toNat)).toInt16

/-- `Short.toUnsignedInt`. -/
def toUnsignedInt (s : Int16) : Nat := s.toUInt16.toNat

/-- Nothing is read for an empty value. -/
def readValue (channel : Chunked UInt8) (valLen : Nat) : Except Ending (Bytes × Chunked UInt8) :=
  if valLen > 0 then readFully channel (.allocate valLen) else .ok ([], channel)

/-- The bytes `queryAgent` turns into a string. -/
def readResponse (channel : Chunked UInt8) : Outcome (Option Bytes) :=
  match readFully channel (.allocate 3) with
  | .error .closed => .returned none
  | .error .silent => .blocked
  | .ok (header, channel) =>
    let status := (header.getD 0 0).toInt8
    let valLen := toUnsignedInt (getShort (header.getD 1 0) (header.getD 2 0))
    match readValue channel valLen with
    | .error .closed => .returned none
    | .error .silent => .blocked
    | .ok (valueBytes, _) => .returned (if status = 0x00 then some valueBytes else none)

theorem fillRounds_eq (fuel : Nat) (channel : Chunked UInt8) (buf : ByteBuffer) :
    fillRounds fuel channel buf =
      (Chunked.readRounds fuel buf.remaining channel).map fun p => (buf.filled ++ p.1, p.2) := by
  obtain ⟨filled, remaining⟩ := buf
  induction fuel generalizing channel filled remaining with
  | zero =>
    unfold fillRounds
    cases remaining with
    | zero => simp [Chunked.readRounds, Except.map]
    | succ n => rfl
  | succ fuel ih =>
    unfold fillRounds
    cases remaining with
    | zero => simp [Chunked.readRounds, Except.map]
    | succ n =>
      simp only [Nat.succ_pos, gt_iff_lt, if_true, Chunked.readRounds]
      cases channel.read (n + 1) with
      | error e => rfl
      | ok p =>
        obtain ⟨got, channel'⟩ := p
        simp only [ih]
        cases Chunked.readRounds fuel (n + 1 - got.length) channel' with
        | error e => rfl
        | ok q => simp [Except.map]

theorem readFully_eq (channel : Chunked UInt8) (n : Nat) :
    readFully channel (.allocate n) = channel.readExact n := by
  rw [readFully, fillRounds_eq]
  simp only [ByteBuffer.allocate, Chunked.readExact, List.nil_append]
  cases Chunked.readRounds n n channel <;> rfl

theorem readValue_eq (channel : Chunked UInt8) (n : Nat) :
    readValue channel n = channel.readExact n := by
  cases n with
  | zero => rfl
  | succ n => rw [readValue, if_pos (Nat.succ_pos n), readFully_eq]

/-- The sign does no harm: the length is read as it was written. -/
theorem toUnsignedInt_getShort (hi lo : UInt8) :
    toUnsignedInt (getShort hi lo) = fromBeBytes hi lo := by
  have hle := fromBeBytes_le hi lo
  simp only [fromBeBytes] at hle
  simp only [toUnsignedInt, getShort, fromBeBytes, UInt16.toUInt16_toInt16, UInt16.toNat_ofNat']
  omega

theorem toInt8_eq_zero_iff {b : UInt8} : b.toInt8 = 0x00 ↔ b = 0x00 := by
  constructor
  · intro h
    rw [← UInt8.toUInt8_toInt8 b, h]
    rfl
  · rintro rfl
    rfl

theorem readResponse_eq (channel : Chunked UInt8) :
    readResponse channel =
      match readFrame channel with
      | .error .closed => .returned none
      | .error .silent => .blocked
      | .ok (status, valueBytes) => .returned (if status = 0x00 then some valueBytes else none) := by
  simp only [readResponse, readFully_eq, toUnsignedInt_getShort, readValue_eq, toInt8_eq_zero_iff,
    readFrame, bind, Except.bind]
  cases channel.readExact 3 with
  | error e => cases e <;> rfl
  | ok p =>
    obtain ⟨header, channel'⟩ := p
    simp only
    cases channel'.readExact (fromBeBytes (header.getD 1 0) (header.getD 2 0)) with
    | error e => cases e <;> rfl
    | ok q => rfl

/-- What a lookup receives is the text of these bytes. -/
theorem received_stream (channel : Chunked UInt8) :
    received (.stream channel) =
      match readResponse channel with
      | .returned value => .returned (value.map .decode)
      | .blocked => .blocked := by
  rw [readResponse_eq, received]
  cases readFrame channel with
  | error e => cases e <;> rfl
  | ok frame =>
    obtain ⟨status, valueBytes⟩ := frame
    simp only
    split <;> rfl

end Java

/-! ## The readers and the decoder -/

theorem readFrame_error {s : Chunked UInt8} {e : Ending} (h : readFrame s = .error e) :
    e = s.ending := by
  simp only [readFrame, bind, Except.bind] at h
  cases hheader : s.readExact 3 with
  | error e' =>
    simp only [hheader, Except.error.injEq] at h
    rw [← h, (Chunked.readExact_error hheader).2]
  | ok p =>
    obtain ⟨header, s'⟩ := p
    obtain ⟨-, -, hend⟩ := Chunked.readExact_ok hheader
    simp only [hheader] at h
    cases hvalue : s'.readExact (fromBeBytes (header.getD 1 0) (header.getD 2 0)) with
    | error e' =>
      simp only [hvalue, Except.error.injEq] at h
      rw [← h, (Chunked.readExact_error hvalue).2, hend]
    | ok q => simp only [hvalue, reduceCtorEq] at h

theorem Python.readResponse_eq_some_iff {s : Chunked UInt8} {value : Bytes} :
    readResponse s = some value ↔ decodeResponse s.data = .ok { status := .found, value } := by
  rw [← readFrame_found_iff, readResponse_eq]
  cases readFrame s with
  | error e => simp
  | ok frame =>
    obtain ⟨status, valueBytes⟩ := frame
    simp

/-- A stream that ends never leaves the JVM waiting. -/
theorem Java.readResponse_closed {s : Chunked UInt8} (hclosed : s.ending = .closed) :
    readResponse s = .returned (Python.readResponse s) := by
  rw [readResponse_eq, Python.readResponse_eq]
  cases hread : readFrame s with
  | error e =>
    rw [readFrame_error hread, hclosed]
  | ok frame => rfl

theorem Libenvproxy.received_stream_iff {s : Chunked UInt8} {value : CStr} :
    received (.stream s) = some value ↔
      decodeResponse s.data = .ok { status := .found, value := value.bytes } := by
  rw [received_eq, Option.bind_eq_some_iff]
  simp only [CStr.new_eq_some_iff, Reply.found_stream_decode]
  constructor
  · rintro ⟨b, hdecode, rfl⟩
    exact hdecode
  · intro hdecode
    exact ⟨_, hdecode, rfl⟩

/-- All three readers find the value the decoder finds in what was sent before the end
    of the stream, and nothing otherwise. The C library takes no value with a NUL. -/
theorem response_readers_agree (s : Chunked UInt8) (hclosed : s.ending = .closed) :
    (∀ value : CStr, Libenvproxy.received (.stream s) = some value ↔
      decodeResponse s.data = .ok { status := .found, value := value.bytes }) ∧
    (∀ value, Python.readResponse s = some value ↔
      decodeResponse s.data = .ok { status := .found, value }) ∧
    (∀ value, Java.readResponse s = .returned (some value) ↔
      decodeResponse s.data = .ok { status := .found, value }) ∧
    ((∀ value, decodeResponse s.data ≠ .ok { status := .found, value }) →
      Libenvproxy.received (.stream s) = none ∧ Python.readResponse s = none ∧
        Java.readResponse s = .returned none) := by
  have hjava : ∀ result, Java.readResponse s = .returned result ↔ Python.readResponse s = result := by
    intro result
    rw [Java.readResponse_closed hclosed, Java.Outcome.returned.injEq]
  refine ⟨fun value => Libenvproxy.received_stream_iff, fun value => Python.readResponse_eq_some_iff,
    fun value => ?_, fun hnothing => ⟨?_, ?_, ?_⟩⟩
  · rw [hjava, Python.readResponse_eq_some_iff]
  · rw [Option.eq_none_iff_forall_ne_some]
    intro value hvalue
    exact hnothing value.bytes (Libenvproxy.received_stream_iff.mp hvalue)
  · rw [Option.eq_none_iff_forall_ne_some]
    intro value hvalue
    exact hnothing value (Python.readResponse_eq_some_iff.mp hvalue)
  · rw [hjava, Option.eq_none_iff_forall_ne_some]
    intro value hvalue
    exact hnothing value (Python.readResponse_eq_some_iff.mp hvalue)

/-- A `Found` response that arrives in three pieces. -/
def splitReply : Chunked UInt8 where
  chunks := [[0x00], [0x00, 0x02, 65], [66]]
  ending := .closed
  nonempty := by simp

theorem response_readers_agree_split :
    Libenvproxy.received (.stream splitReply) = some ⟨[65, 66], by decide⟩ ∧
      Python.readResponse splitReply = some [65, 66] ∧
      Java.readResponse splitReply = .returned (some [65, 66]) := by
  have hdecode : decodeResponse splitReply.data = .ok { status := .found, value := [65, 66] } := by
    decide
  obtain ⟨hc, hpython, hjava, -⟩ := response_readers_agree splitReply rfl
  exact ⟨(hc _).mpr hdecode, (hpython _).mpr hdecode, (hjava _).mpr hdecode⟩

end EnvProxy
