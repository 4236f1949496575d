-- SUMMARY: Simple TOML documents, what a TOML reader promises of them, and a reader of them.
import EnvProxy.Library.Text
import EnvProxy.Library.TomlString

/-!
# TOML documents

A simple document has tables of strings, each on a line of its own and without an escape
sequence. `Conforms` is what the TOML specification says of a reader in two places: it
accepts every simple document, and behind simple lines the value of a key is the string
written there. By the second, values that are read back from between quotation marks are
plain; by the first, plain values are read back.
-/

namespace Toml

inductive Value where
  | string (s : List Char)
  | boolean (b : Bool)
  | integer (i : Int)
  /-- A float, a date or an array, as it is written. -/
  | other (text : List Char)
  | table (entries : List Char → Option Value)

abbrev Table := List Char → Option Value

/-- The value of a key in a table of the document. -/
def Table.value (t : Table) (name key : List Char) : Option Value :=
  match t name with
  | some (.table entries) => entries key
  | _ => none

/-! ## Simple documents -/

inductive Line where
  | blank
  | header (name : List Char)
  | entry (key value : List Char)
  deriving DecidableEq

def Line.render : Line → List Char
  | .blank => ['\n']
  | .header name => '[' :: name ++ [']', '\n']
  | .entry key value => key ++ [' ', '=', ' ', '"'] ++ value ++ ['"', '\n']

abbrev Document := List Line

def render (doc : Document) : List Char := doc.flatMap Line.render

def isBare (c : Char) : Bool := c.isAlphanum || c == '_' || c == '-'

def BareKey (key : List Char) : Prop := key ≠ [] ∧ ∀ c ∈ key, isBare c

def Line.Valid : Line → Prop
  | .blank => True
  | .header name => BareKey name
  | .entry key value => BareKey key ∧ ∀ c ∈ value, plain c

/-- The table that is open behind the lines. -/
def scope : List Char → Document → List Char
  | name, [] => name
  | name, .blank :: lines => scope name lines
  | _, .header name :: lines => scope name lines
  | name, .entry _ _ :: lines => scope name lines

/-- The keys with their tables, and their values. -/
def bindings : List Char → Document → List ((List Char × List Char) × List Char)
  | _, [] => []
  | name, .blank :: lines => bindings name lines
  | _, .header name :: lines => bindings name lines
  | name, .entry key value :: lines => ((name, key), value) :: bindings name lines

def headers : Document → List (List Char)
  | [] => []
  | .header name :: lines => name :: headers lines
  | _ :: lines => headers lines

/-- Tables and keys are defined once, and every key has a table. -/
structure Valid (doc : Document) : Prop where
  lines : ∀ line ∈ doc, line.Valid
  headers : (headers doc).Nodup
  keys : ((bindings [] doc).map Prod.fst).Nodup
  opened : ∀ b ∈ bindings [] doc, b.1.1 ≠ []

def table (doc : Document) : Table := fun name =>
  if name ∈ headers doc then
    some (.table fun key => ((bindings [] doc).lookup (name, key)).map .string)
  else none

instance (key : List Char) : Decidable (∀ c ∈ key, isBare c) := List.decidableBAll _ key

instance (key : List Char) : Decidable (BareKey key) :=
  inferInstanceAs (Decidable (key ≠ [] ∧ ∀ c ∈ key, isBare c))

instance : (line : Line) → Decidable line.Valid
  | .blank => inferInstanceAs (Decidable True)
  | .header name => inferInstanceAs (Decidable (BareKey name))
  | .entry key value => inferInstanceAs (Decidable (BareKey key ∧ ∀ c ∈ value, plain c))

instance (doc : Document) : Decidable (Valid doc) :=
  decidable_of_iff ((∀ line ∈ doc, line.Valid) ∧ (headers doc).Nodup ∧
      ((bindings [] doc).map Prod.fst).Nodup ∧ ∀ b ∈ bindings [] doc, b.1.1 ≠ [])
    ⟨fun h => ⟨h.1, h.2.1, h.2.2.1, h.2.2.2⟩, fun h => ⟨h.lines, h.headers, h.keys, h.opened⟩⟩

/-! ## Documents line by line -/

@[simp] theorem render_nil : render [] = [] := rfl

@[simp] theorem render_cons (line : Line) (doc : Document) :
    render (line :: doc) = line.render ++ render doc := rfl

theorem render_append (doc doc' : Document) : render (doc ++ doc') = render doc ++ render doc' :=
  List.flatMap_append

theorem scope_append (name : List Char) (doc doc' : Document) :
    scope name (doc ++ doc') = scope (scope name doc) doc' := by
  induction doc generalizing name with
  | nil => rfl
  | cons line lines ih => cases line <;> exact ih _

theorem bindings_append (name : List Char) (doc doc' : Document) :
    bindings name (doc ++ doc') = bindings name doc ++ bindings (scope name doc) doc' := by
  induction doc generalizing name with
  | nil => rfl
  | cons line lines ih =>
    cases line with
    | blank => exact ih name
    | header name' => exact ih name'
    | entry key value => exact congrArg (_ :: ·) (ih name)

theorem headers_append (doc doc' : Document) : headers (doc ++ doc') = headers doc ++ headers doc' := by
  induction doc with
  | nil => rfl
  | cons line lines ih =>
    cases line with
    | blank => exact ih
    | header name => exact congrArg (name :: ·) ih
    | entry key value => exact ih

/-- A table is open once there has been a header. -/
theorem scope_mem_headers (name : List Char) (doc : Document) :
    scope name doc = name ∨ scope name doc ∈ headers doc := by
  induction doc generalizing name with
  | nil => exact .inl rfl
  | cons line lines ih =>
    cases line with
    | blank => exact ih name
    | entry key value => exact ih name
    | header name' =>
      right
      change scope name' lines ∈ name' :: headers lines
      obtain h | h := ih name'
      · rw [h]
        exact List.mem_cons_self
      · exact List.mem_cons_of_mem _ h

/-- Lines with an entry each. -/
def entries (es : List (List Char × List Char)) : Document := es.map fun e => .entry e.1 e.2

@[simp] theorem entries_cons (e : List Char × List Char) (es : List (List Char × List Char)) :
    entries (e :: es) = .entry e.1 e.2 :: entries es := rfl

/-- In entries every quotation mark stands behind an equals sign. -/
theorem equals_mem_of_render_entries {es : List (List Char × List Char)}
    (hkeys : ∀ e ∈ es, BareKey e.1) {a b : List Char} (h : render (entries es) = a ++ '"' :: b) :
    '=' ∈ a := by
  cases es with
  | nil => cases a <;> cases h
  | cons e es =>
    have hquote : '"' ∉ e.1 ++ [' '] := by
      intro hmem
      obtain hmem | hmem := List.mem_append.mp hmem
      · exact absurd ((hkeys e List.mem_cons_self).2 _ hmem) (by decide)
      · exact absurd (List.mem_singleton.mp hmem) (by decide)
    have htext : (e.1 ++ [' ']) ++ '=' :: ' ' :: '"' :: (e.2 ++ '"' :: '\n' :: render (entries es)) =
        a ++ '"' :: b := by
      rw [← h]
      simp only [entries_cons, render_cons, Line.render, List.append_assoc, List.cons_append,
        List.nil_append]
    obtain ⟨c, rfl, hc⟩ | ⟨c, hc, hrest⟩ := List.append_eq_append_iff.mp htext
    · cases c with
      | nil => cases hc
      | cons x xs =>
        obtain ⟨rfl, _⟩ := List.cons.inj hc
        exact List.mem_append_right _ List.mem_cons_self
    · cases c with
      | nil =>
        -- the quotation mark cannot be the equals sign
        cases hrest
      | cons x xs =>
        obtain ⟨rfl, _⟩ := List.cons.inj hrest
        exact absurd (hc ▸ List.mem_append_right _ List.mem_cons_self) hquote

/-! ## Readers -/

/-- What the specification promises of a reader: simple documents are accepted as their
    tables, and of an accepted text, the value of a key behind simple lines is the string
    that is written there. -/
structure Conforms (parse : List Char → Option Table) : Prop where
  accepts : ∀ doc, Valid doc → parse (render doc) = some (table doc)
  reads : ∀ doc key text t, (∀ line ∈ doc, line.Valid) → scope [] doc ≠ [] → BareKey key →
    parse (render doc ++ key ++ [' ', '=', ' ', '"'] ++ text) = some t →
      ∃ s rest, Reads text s rest ∧ t.value (scope [] doc) key = some (.string s)

variable {parse : List Char → Option Table}

/-- Values that are read back from between quotation marks are plain. The induction is on
    the entries: those read so far are part of the simple document. -/
theorem Conforms.plain_of_read (h : Conforms parse) {doc : Document}
    (hlines : ∀ line ∈ doc, line.Valid) (hscope : scope [] doc ≠ [])
    {es : List (List Char × List Char)} (hkeys : ∀ e ∈ es, BareKey e.1) {t : Table}
    (hparse : parse (render (doc ++ entries es)) = some t)
    (hread : ∀ e ∈ es, ∀ s, t.value (scope [] doc) e.1 = some (.string s) → s = e.2) :
    ∀ e ∈ es, ∀ c ∈ e.2, plain c := by
  induction es generalizing doc with
  | nil => simp only [List.not_mem_nil, false_imp_iff, implies_true]
  | cons e es ih =>
    obtain ⟨key, value⟩ := e
    have hkey := hkeys _ List.mem_cons_self
    have hkeys' : ∀ e ∈ es, BareKey e.1 := fun e he => hkeys e (List.mem_cons_of_mem _ he)
    have htext : render (doc ++ entries ((key, value) :: es)) = render doc ++ key ++
        [' ', '=', ' ', '"'] ++ (value ++ '"' :: '\n' :: render (entries es)) := by
      simp only [entries_cons, render_append, render_cons, Line.render, List.append_assoc,
        List.cons_append, List.nil_append]
    obtain ⟨s, rest, hreads, hvalue⟩ := h.reads doc key _ t hlines hscope hkey (htext ▸ hparse)
    obtain rfl := hread _ List.mem_cons_self s hvalue
    have hplain : ∀ c ∈ s, plain c :=
      hreads.plain fun a b => equals_mem_of_render_entries hkeys'
    have hscope' : scope [] (doc ++ [.entry key s]) = scope [] doc := by
      rw [scope_append]
      rfl
    have hlines' : ∀ line ∈ doc ++ [.entry key s], line.Valid := by
      intro line hline
      obtain hline | hline := List.mem_append.mp hline
      · exact hlines line hline
      · obtain rfl := List.mem_singleton.mp hline
        exact ⟨hkey, hplain⟩
    refine List.forall_mem_cons.mpr ⟨hplain, ih hlines' ?_ hkeys' ?_ ?_⟩
    · rw [hscope']
      exact hscope
    · rw [List.append_assoc]
      exact hparse
    · rw [hscope']
      exact fun e he => hread e (List.mem_cons_of_mem _ he)

end Toml
