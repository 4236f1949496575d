-- SUMMARY: Basic strings of TOML, and which text can stand in one as it is.
import Mathlib.Data.List.Basic
import Mathlib.Data.List.Count
import Mathlib.Tactic.Common

/-!
# TOML strings

`Reads text s rest`: behind an opening quotation mark, `text` is the string `s` followed
by `rest`. Two more quotation marks open a multi-line string, in which newlines and lone
quotation marks may stand. `Reads.plain`: a writer that puts a value between quotation
marks without escaping it is read back only if every character of it is plain.
-/

namespace Toml

/-- The characters that stand for themselves in a basic string: no quotation mark, no
    backslash and no control character but the tab. -/
def plain (c : Char) : Bool :=
  c == '\t' || (' ' ≤ c && c != '"' && c != '\\' && c != '\x7f')

/-- Through the list: there is another instance that goes through all characters. -/
instance (s : List Char) : Decidable (∀ c ∈ s, plain c) := List.decidableBAll _ s

def hexDigit (c : Char) : Option Nat :=
  if c.isDigit then some (c.toNat - 48)
  else if 'a' ≤ c ∧ c ≤ 'f' then some (c.toNat - 87)
  else if 'A' ≤ c ∧ c ≤ 'F' then some (c.toNat - 55)
  else none

/-- The value of hexadecimal digits, the first of them the highest. -/
def hexValue (digits : List Char) (acc : Nat) : Option Nat :=
  digits.foldlM (fun acc c => (hexDigit c).map (acc * 16 + ·)) acc

theorem hexDigit_of_mem {digits : List Char} {acc n : Nat} (h : hexValue digits acc = some n)
    {c : Char} (hc : c ∈ digits) : hexDigit c ≠ none := by
  induction digits generalizing acc with
  | nil => cases hc
  | cons d ds ih =>
    simp only [hexValue, List.foldlM_cons, Option.bind_eq_bind, Option.bind_eq_some_iff,
      Option.map_eq_some_iff] at h
    obtain ⟨_, ⟨value, hvalue, rfl⟩, hrest⟩ := h
    cases hc with
    | head =>
      rw [hvalue]
      exact Option.some_ne_none value
    | tail _ hc => exact ih hrest hc

/-- What follows the backslash of an escape sequence, and the character it stands for. -/
inductive Escape : List Char → Char → Prop where
  | quotationMark : Escape ['"'] '"'
  | reverseSolidus : Escape ['\\'] '\\'
  | backspace : Escape ['b'] '\x08'
  | formFeed : Escape ['f'] '\x0c'
  | lineFeed : Escape ['n'] '\n'
  | carriageReturn : Escape ['r'] '\r'
  | tab : Escape ['t'] '\t'
  | short {digits : List Char} {c : Char} : digits.length = 4 → hexValue digits 0 = some c.toNat →
      Escape ('u' :: digits) c
  | long {digits : List Char} {c : Char} : digits.length = 8 → hexValue digits 0 = some c.toNat →
      Escape ('U' :: digits) c

/-- A single-line string: its text and what it stands for. -/
inductive Basic : List Char → List Char → Prop where
  | nil : Basic [] []
  | char {c : Char} {raw s : List Char} : plain c → Basic raw s → Basic (c :: raw) (c :: s)
  | escape {e raw s : List Char} {c : Char} : Escape e c → Basic raw s →
      Basic ('\\' :: (e ++ raw)) (c :: s)

/-- White space that a backslash at the end of a line removes, with the newline. -/
def isBlank (c : Char) : Bool := c == ' ' || c == '\t' || c == '\n' || c == '\r'

/-- The text of a multi-line string, behind `n` quotation marks, and what it stands for.
    Of quotation marks there are at most two in a row, and a newline may be normalised. -/
inductive MultiLine : Nat → List Char → List Char → Prop where
  | nil {n : Nat} : MultiLine n [] []
  | char {n : Nat} {c : Char} {raw s : List Char} : plain c → MultiLine 0 raw s →
      MultiLine n (c :: raw) (c :: s)
  | quote {n : Nat} {raw s : List Char} : n < 2 → MultiLine (n + 1) raw s →
      MultiLine n ('"' :: raw) ('"' :: s)
  | escape {n : Nat} {e raw s : List Char} {c : Char} : Escape e c → MultiLine 0 raw s →
      MultiLine n ('\\' :: (e ++ raw)) (c :: s)
  | newline {n : Nat} {raw s : List Char} : MultiLine 0 raw s →
      MultiLine n ('\n' :: raw) ('\n' :: s)
  | normalised {n : Nat} {raw s : List Char} : MultiLine 0 raw s →
      MultiLine n ('\r' :: '\n' :: raw) ('\n' :: s)
  | verbatim {n : Nat} {raw s : List Char} : MultiLine 0 raw s →
      MultiLine n ('\r' :: '\n' :: raw) ('\r' :: '\n' :: s)
  | continued {n : Nat} {gap raw s : List Char} : (∀ c ∈ gap, isBlank c) → '\n' ∈ gap →
      (∀ c ∈ raw.head?, ¬ isBlank c) → MultiLine 0 raw s → MultiLine n ('\\' :: (gap ++ raw)) s

/-- A newline right behind the opening quotation marks is removed. -/
def trimNewline : List Char → List Char
  | '\n' :: body => body
  | '\r' :: '\n' :: body => body
  | body => body

/-- Behind the opening quotation mark: the string, and what follows it. -/
inductive Reads : List Char → List Char → List Char → Prop where
  | basic {raw s rest : List Char} : Basic raw s → (raw = [] → rest.head? ≠ some '"') →
      Reads (raw ++ '"' :: rest) s rest
  | multiLine {body s rest : List Char} : MultiLine 0 (trimNewline body) s →
      Reads ('"' :: '"' :: (body ++ '"' :: '"' :: '"' :: rest)) s rest

/-! ## Reading plain text -/

theorem Basic.of_plain {s : List Char} (h : ∀ c ∈ s, plain c) : Basic s s := by
  induction s with
  | nil => exact .nil
  | cons c cs ih => exact .char (h c List.mem_cons_self) (ih fun d hd => h d (List.mem_cons_of_mem c hd))

/-! ## Escape sequences shorten a text -/

theorem Escape.ne_nil {e : List Char} {c : Char} (h : Escape e c) : e ≠ [] := by
  cases h <;> exact List.cons_ne_nil _ _

/-- A character that is no hexadecimal digit and no letter of an escape is in none. -/
theorem Escape.not_mem {e : List Char} {c x : Char} (h : Escape e c) (hx : hexDigit x = none)
    (hletters : x ∉ ['"', '\\', 'n', 'r', 't', 'u', 'U']) : x ∉ e := by
  simp only [List.mem_cons, List.not_mem_nil, or_false, not_or] at hletters
  obtain ⟨hquote, hsolidus, hn, hr, ht, hu, hU⟩ := hletters
  have hdigits {digits : List Char} {n : Nat} (hvalue : hexValue digits 0 = some n) : x ∉ digits :=
    fun hmem => hexDigit_of_mem hvalue hmem hx
  intro hmem
  cases h with
  | quotationMark => exact hquote (List.mem_singleton.mp hmem)
  | reverseSolidus => exact hsolidus (List.mem_singleton.mp hmem)
  | backspace =>
    obtain rfl := List.mem_singleton.mp hmem
    exact absurd hx (by decide)
  | formFeed =>
    obtain rfl := List.mem_singleton.mp hmem
    exact absurd hx (by decide)
  | lineFeed => exact hn (List.mem_singleton.mp hmem)
  | carriageReturn => exact hr (List.mem_singleton.mp hmem)
  | tab => exact ht (List.mem_singleton.mp hmem)
  | short _ hvalue => exact (List.mem_cons.mp hmem).elim hu (hdigits hvalue)
  | long _ hvalue => exact (List.mem_cons.mp hmem).elim hU (hdigits hvalue)

theorem Escape.newline_not_mem {e : List Char} {c : Char} (h : Escape e c) : '\n' ∉ e :=
  h.not_mem (by decide) (by decide)

theorem Escape.equals_not_mem {e : List Char} {c : Char} (h : Escape e c) : '=' ∉ e :=
  h.not_mem (by decide) (by decide)

theorem Basic.newline_not_mem {raw s : List Char} (h : Basic raw s) : '\n' ∉ raw := by
  induction h with
  | nil => exact List.not_mem_nil
  | @char c raw s hc _ ih =>
    intro hmem
    obtain rfl | hmem := List.mem_cons.mp hmem
    · exact absurd hc (by decide)
    · exact ih hmem
  | escape he _ ih =>
    intro hmem
    obtain h | hmem := List.mem_cons.mp hmem
    · exact absurd h (by decide)
    · exact (List.mem_append.mp hmem).elim he.newline_not_mem ih

theorem Basic.length_le {raw s : List Char} (h : Basic raw s) : s.length ≤ raw.length := by
  induction h with
  | nil => exact Nat.le_refl 0
  | char _ _ ih => exact Nat.succ_le_succ ih
  | escape _ _ ih =>
    simp only [List.length_cons, List.length_append]
    omega

/-- Without an escape sequence every character stands for itself. -/
theorem Basic.plain_of_length_le {raw s : List Char} (h : Basic raw s) (hlen : raw.length ≤ s.length) :
    ∀ c ∈ s, plain c := by
  induction h with
  | nil => simp only [List.not_mem_nil, false_imp_iff, implies_true]
  | char hc _ ih => exact List.forall_mem_cons.mpr ⟨hc, ih (Nat.le_of_succ_le_succ hlen)⟩
  | escape he hbasic _ =>
    have hpos := List.length_pos_iff.mpr he.ne_nil
    have hle := hbasic.length_le
    simp only [List.length_cons, List.length_append] at hlen
    omega

/-! ## Multi-line strings keep every equals sign -/

theorem MultiLine.length_le {n : Nat} {raw s : List Char} (h : MultiLine n raw s) :
    s.length ≤ raw.length := by
  induction h with
  | nil => exact Nat.le_refl 0
  | char _ _ ih | quote _ _ ih | newline _ ih | verbatim _ ih =>
    simp only [List.length_cons]
    omega
  | normalised _ ih =>
    simp only [List.length_cons]
    omega
  | escape _ _ ih | continued _ _ _ _ ih =>
    simp only [List.length_cons, List.length_append]
    omega

theorem MultiLine.count_le {n : Nat} {raw s : List Char} (h : MultiLine n raw s) :
    raw.count '=' ≤ s.count '=' := by
  induction h with
  | nil => exact Nat.le_refl _
  | char _ _ ih | quote _ _ ih | newline _ ih =>
    simp only [List.count_cons]
    omega
  | normalised _ ih | verbatim _ ih =>
    simp only [List.count_cons, (by decide : ('\r' == '=') = false), (by decide : ('\n' == '=') = false)]
    simpa using ih
  | @escape n e raw s c he _ ih =>
    have hnone : e.count '=' = 0 := List.count_eq_zero.mpr he.equals_not_mem
    simp only [List.count_cons, List.count_append, hnone, (by decide : ('\\' == '=') = false),
      Bool.false_eq_true, if_false]
    omega
  | @continued n gap raw s hgap _ _ _ ih =>
    have hnone : gap.count '=' = 0 :=
      List.count_eq_zero.mpr fun hmem => absurd (hgap '=' hmem) (by decide)
    simpa only [List.count_cons, List.count_append, hnone, (by decide : ('\\' == '=') = false),
      Bool.false_eq_true, if_false, Nat.zero_add, Nat.add_zero] using ih

theorem trimNewline_length_le (body : List Char) : (trimNewline body).length ≤ body.length := by
  unfold trimNewline
  split
  · exact Nat.le_succ _
  · exact Nat.le_add_right _ 2
  · exact Nat.le_refl _

theorem trimNewline_count (body : List Char) : (trimNewline body).count '=' = body.count '=' := by
  unfold trimNewline
  split <;> simp

/-! ## Reading back what was written without escaping -/

/-- A multi-line string is shorter than its text with the quotation marks, unless it
    swallows an equals sign behind the value; and then it has one more than the value. -/
theorem MultiLine.not_self {body v w tail rest : List Char} (h : MultiLine 0 (trimNewline body) v)
    (hw : w.length < v.length) (hcount : v.count '=' = w.count '=')
    (htext : body ++ '"' :: '"' :: '"' :: rest = w ++ tail)
    (htail : ∀ a b, tail = a ++ '"' :: '"' :: '"' :: b → '=' ∈ a) : False := by
  have hlength : v.length ≤ body.length := Nat.le_trans h.length_le (trimNewline_length_le body)
  have hle : body.count '=' ≤ v.count '=' := by
    rw [← trimNewline_count]
    exact h.count_le
  obtain ⟨a, rfl, _⟩ | ⟨c, rfl, hc⟩ := List.append_eq_append_iff.mp htext
  · simp only [List.length_append] at hw
    omega
  · have hpos : 0 < c.count '=' := List.count_pos_iff.mpr (htail c rest hc)
    simp only [List.count_append] at hle
    omega

/-- The text of a single-line string ends with the line. -/
theorem Basic.length_le_of_line {raw s v more rest : List Char} (h : Basic raw s)
    (htext : v ++ '"' :: '\n' :: more = raw ++ '"' :: rest) : raw.length ≤ v.length := by
  obtain ⟨a, rfl, ha⟩ | ⟨a, rfl, _⟩ := List.append_eq_append_iff.mp htext
  · cases a with
    | nil => simp only [List.append_nil, Nat.le_refl]
    | cons x xs =>
      -- the text would run over the newline
      obtain ⟨rfl, hxs⟩ := List.cons.inj ha
      cases xs with
      | nil => cases hxs
      | cons y ys =>
        obtain ⟨rfl, _⟩ := List.cons.inj hxs
        exact absurd (List.mem_append_right _ (.tail _ (.head _))) h.newline_not_mem
  · simp only [List.length_append, Nat.le_add_right]

/-- What follows a value up to the next quotation mark has an equals sign in it. -/
theorem equals_mem_cons {x : Char} {more a b : List Char} (hx : x ≠ '"')
    (hmore : ∀ a b, more = a ++ '"' :: b → '=' ∈ a) (h : x :: more = a ++ '"' :: b) : '=' ∈ a := by
  cases a with
  | nil => exact absurd (List.cons.inj h).1 hx
  | cons y ys => exact List.mem_cons_of_mem y (hmore ys b (List.cons.inj h).2)

/-- A value between quotation marks that is read back is plain. It is followed by a newline
    and `more`, in which no quotation mark stands before an equals sign. -/
theorem Reads.plain {v more rest : List Char} (h : Reads (v ++ '"' :: '\n' :: more) v rest)
    (hmore : ∀ a b, more = a ++ '"' :: b → '=' ∈ a) : ∀ c ∈ v, Toml.plain c := by
  generalize htext : v ++ '"' :: '\n' :: more = text at h
  cases h with
  | basic hbasic _ => exact hbasic.plain_of_length_le (hbasic.length_le_of_line htext)
  | @multiLine body s rest hmulti =>
    have hnewline {a b : List Char} : '\n' :: more = a ++ '"' :: b → '=' ∈ a :=
      equals_mem_cons (by decide) hmore
    exfalso
    cases v with
    | nil => cases htext
    | cons x w =>
      simp only [List.cons_append, List.cons.injEq] at htext
      obtain ⟨rfl, htext⟩ := htext
      cases w with
      | nil =>
        simp only [List.nil_append, List.cons.injEq, true_and] at htext
        have hlength : ([] : List Char).length < ['"'].length := Nat.zero_lt_one
        exact hmulti.not_self hlength rfl htext.symm fun a b => hnewline
      | cons y w =>
        simp only [List.cons_append, List.cons.injEq] at htext
        obtain ⟨rfl, htext⟩ := htext
        have hlength : w.length < ('"' :: '"' :: w).length := Nat.lt_add_of_pos_right Nat.two_pos
        refine hmulti.not_self hlength (by simp) htext.symm fun a b hab => ?_
        cases a with
        | nil => cases hab
        | cons x xs => exact List.mem_cons_of_mem x (hnewline (List.cons.inj hab).2)

end Toml
