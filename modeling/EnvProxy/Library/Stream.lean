-- SUMMARY: Streams delivered in chunks, and the loop that reads an exact number of elements from one.
import Mathlib.Data.List.Basic
import Mathlib.Tactic.Common

/-!
# Chunked streams

What one side of a connection can still read: the chunks that successive reads
will see, in order, and how the stream ends after the last of them. A chunk is
never empty, since a read that returns nothing means the end of the stream.

`read` is one read into a buffer of bounded size. `readExact` is the loop every
reader is built from: it reads until the buffer is full. Its result depends on
the delivered data only, not on where the chunks are cut.
-/

/-- What a read meets after the last chunk: the peer closed the stream, or it
    says nothing more and the read waits. -/
inductive Ending where
  | closed
  | silent
  deriving DecidableEq, Repr

structure Chunked (α : Type) where
  chunks : List (List α)
  ending : Ending
  nonempty : ∀ c ∈ chunks, c ≠ []

namespace Chunked

variable {α : Type}

/-- Everything the stream will deliver. -/
def data (s : Chunked α) : List α := s.chunks.flatten

/-- A stream that delivers `d` in one piece. -/
def whole (d : List α) (e : Ending) : Chunked α where
  chunks := if d.isEmpty then [] else [d]
  ending := e
  nonempty := by
    intro c hc
    cases d <;> simp_all

@[simp] theorem whole_data (d : List α) (e : Ending) : (whole d e).data = d := by
  cases d <;> simp [whole, data]

/-- The stream when one more chunk has arrived. -/
def push (s : Chunked α) (c : List α) : Chunked α where
  chunks := if c.isEmpty then s.chunks else s.chunks ++ [c]
  ending := s.ending
  nonempty := by
    intro d hd
    split at hd
    · exact s.nonempty d hd
    · next hc =>
      rcases List.mem_append.mp hd with hd | hd
      · exact s.nonempty d hd
      · rw [List.mem_singleton.mp hd]
        intro hnil
        exact hc (by rw [hnil, List.isEmpty_nil])

@[simp] theorem push_data (s : Chunked α) (c : List α) : (s.push c).data = s.data ++ c := by
  cases c <;> simp [push, data]

theorem push_whole_nil (d : List α) (e : Ending) : (whole [] e).push d = whole d e := by
  cases d <;> rfl

/-- The stream when the peer has closed it. -/
def close (s : Chunked α) : Chunked α where
  chunks := s.chunks
  ending := .closed
  nonempty := s.nonempty

@[simp] theorem close_data (s : Chunked α) : s.close.data = s.data := rfl

/-- The stream after its first chunk `c` was read up to `n` elements. -/
def after (c : List α) (cs : List (List α)) (e : Ending) (hcs : ∀ c ∈ cs, c ≠ []) (n : Nat) :
    Chunked α where
  chunks := if n < c.length then c.drop n :: cs else cs
  ending := e
  nonempty := by
    intro d hd
    split at hd
    · rcases List.mem_cons.mp hd with rfl | hd
      · simp; omega
      · exact hcs d hd
    · exact hcs d hd

theorem after_data (c : List α) (cs : List (List α)) (e : Ending) (hcs : ∀ c ∈ cs, c ≠ [])
    (n : Nat) : c.take n ++ (after c cs e hcs n).data = c ++ cs.flatten := by
  simp only [after, data]
  split
  · simp [← List.append_assoc]
  · rw [List.take_of_length_le (by omega)]

/-! ## One read -/

/-- One read into a buffer of `n` elements: the front of the first chunk. -/
def read : Chunked α → Nat → Except Ending (List α × Chunked α)
  | ⟨[], e, _⟩, _ => .error e
  | ⟨c :: cs, e, h⟩, n =>
    .ok (c.take n, after c cs e (fun d hd => h d (List.mem_cons_of_mem c hd)) n)

theorem read_ok {s s' : Chunked α} {n : Nat} {got : List α} (h : s.read n = .ok (got, s')) :
    s.data = got ++ s'.data ∧ s'.ending = s.ending ∧ got.length ≤ n ∧ (0 < n → got ≠ []) := by
  obtain ⟨chunks, e, hne⟩ := s
  cases chunks with
  | nil => cases h
  | cons c cs =>
    cases h
    refine ⟨(after_data c cs e _ n).symm, rfl, List.length_take_le n c, fun hn => ?_⟩
    have hc : c ≠ [] := hne c (List.mem_cons_self ..)
    rw [Ne, List.take_eq_nil_iff]
    rintro (h | h)
    · omega
    · exact hc h

theorem read_error {s : Chunked α} {n : Nat} {e : Ending} (h : s.read n = .error e) :
    s.data = [] ∧ e = s.ending := by
  obtain ⟨chunks, e', hne⟩ := s
  cases chunks with
  | nil => cases h; exact ⟨rfl, rfl⟩
  | cons c cs => cases h

/-! ## Reading an exact number of elements -/

/-- The loop of `readExact`. Every read returns something, so `n` rounds are
    enough for a buffer of `n` elements. -/
def readRounds : Nat → Nat → Chunked α → Except Ending (List α × Chunked α)
  | _, 0, s => .ok ([], s)
  | 0, _ + 1, s => .error s.ending
  | fuel + 1, n + 1, s =>
    match s.read (n + 1) with
    | .error e => .error e
    | .ok (got, s') =>
      match readRounds fuel (n + 1 - got.length) s' with
      | .error e => .error e
      | .ok (rest, s'') => .ok (got ++ rest, s'')

/-- Read exactly `n` elements, or fail with the way the stream ended. -/
def readExact (s : Chunked α) (n : Nat) : Except Ending (List α × Chunked α) :=
  readRounds n n s

private theorem readRounds_ok {fuel n : Nat} {s s' : Chunked α} {got : List α}
    (h : readRounds fuel n s = .ok (got, s')) :
    got.length = n ∧ s.data = got ++ s'.data ∧ s'.ending = s.ending := by
  induction fuel generalizing n s got with
  | zero =>
    cases n with
    | zero => cases h; exact ⟨rfl, rfl, rfl⟩
    | succ n => cases h
  | succ fuel ih =>
    cases n with
    | zero => cases h; exact ⟨rfl, rfl, rfl⟩
    | succ n =>
      simp only [readRounds] at h
      cases hread : s.read (n + 1) with
      | error e => simp [hread] at h
      | ok p =>
        obtain ⟨front, s₁⟩ := p
        obtain ⟨hdata, hend, hlen, -⟩ := read_ok hread
        cases hrest : readRounds fuel (n + 1 - front.length) s₁ with
        | error e => simp [hread, hrest] at h
        | ok q =>
          obtain ⟨rest, s₂⟩ := q
          simp only [hread, hrest, Except.ok.injEq, Prod.mk.injEq] at h
          obtain ⟨rfl, rfl⟩ := h
          obtain ⟨hlen', hdata', hend'⟩ := ih hrest
          refine ⟨?_, ?_, hend'.trans hend⟩
          · rw [List.length_append]; omega
          · rw [hdata, hdata', List.append_assoc]

private theorem readRounds_error {fuel n : Nat} {s : Chunked α} {e : Ending} (hfuel : n ≤ fuel)
    (h : readRounds fuel n s = .error e) : s.data.length < n ∧ e = s.ending := by
  induction fuel generalizing n s with
  | zero =>
    obtain rfl : n = 0 := by omega
    cases h
  | succ fuel ih =>
    cases n with
    | zero => cases h
    | succ n =>
      simp only [readRounds] at h
      cases hread : s.read (n + 1) with
      | error e' =>
        simp only [hread, Except.error.injEq] at h
        obtain ⟨hdata, rfl⟩ := read_error hread
        exact ⟨by simp [hdata], h.symm⟩
      | ok p =>
        obtain ⟨front, s₁⟩ := p
        obtain ⟨hdata, hend, hlen, hne⟩ := read_ok hread
        have hpos : 0 < front.length := List.length_pos_iff.mpr (hne (by omega))
        cases hrest : readRounds fuel (n + 1 - front.length) s₁ with
        | error e' =>
          simp only [hread, hrest, Except.error.injEq] at h
          subst h
          obtain ⟨hlen', rfl⟩ := ih (by omega) hrest
          refine ⟨?_, hend⟩
          rw [hdata, List.length_append]
          omega
        | ok q => simp [hread, hrest] at h

theorem readExact_ok {s s' : Chunked α} {n : Nat} {got : List α}
    (h : s.readExact n = .ok (got, s')) :
    got.length = n ∧ s.data = got ++ s'.data ∧ s'.ending = s.ending :=
  readRounds_ok h

theorem readExact_error {s : Chunked α} {n : Nat} {e : Ending} (h : s.readExact n = .error e) :
    s.data.length < n ∧ e = s.ending :=
  readRounds_error (Nat.le_refl n) h

/-- A stream whose data starts with `a` yields exactly `a`, however it is cut. -/
theorem readExact_append {s : Chunked α} {a b : List α} (h : s.data = a ++ b) :
    ∃ s', s.readExact a.length = .ok (a, s') ∧ s'.data = b ∧ s'.ending = s.ending := by
  cases hread : s.readExact a.length with
  | error e =>
    have := (readExact_error hread).1
    rw [h, List.length_append] at this
    omega
  | ok p =>
    obtain ⟨got, s'⟩ := p
    obtain ⟨hlen, hdata, hend⟩ := readExact_ok hread
    obtain ⟨rfl, rfl⟩ := List.append_inj (hdata.symm.trans h) hlen
    exact ⟨s', rfl, rfl, hend⟩

end Chunked
