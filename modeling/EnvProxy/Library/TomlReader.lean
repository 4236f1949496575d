-- SUMMARY: A reader of simple TOML documents, which does what a TOML reader promises.
import EnvProxy.Library.Toml

/-!
# A reader of simple documents

The reader takes a text for the document that its lines look like and accepts it if that
is the text when rendered again. So what it accepts is simple by construction, and what
is left to prove is that the lines of a simple document look like themselves.
-/

namespace Toml

/-- The document line that a line of text, without its newline, looks like. -/
def readLine : List Char → Line
  | [] => .blank
  | '[' :: text => .header text.dropLast
  | text =>
    match Text.splitFirst [' ', '=', ' ', '"'] text with
    | some (key, value) => .entry key value.dropLast
    | none => .blank

def readLines (text : List Char) : Document := (text.splitOn '\n').dropLast.map readLine

def read (text : List Char) : Option Table :=
  let doc := readLines text
  if render doc = text ∧ Valid doc then some (table doc) else none

theorem read_eq_some_iff {text : List Char} {t : Table} :
    read text = some t ↔ render (readLines text) = text ∧ Valid (readLines text) ∧
      t = table (readLines text) := by
  simp only [read, Option.ite_none_right_eq_some, Option.some.injEq, and_assoc]
  rw [eq_comm (a := t)]

theorem BareKey.not_mem {key : List Char} (h : BareKey key) {c : Char} (hc : isBare c = false) :
    c ∉ key := by
  intro hmem
  rw [h.2 c hmem] at hc
  cases hc

theorem not_mem_of_plain {s : List Char} (h : ∀ c ∈ s, plain c) {c : Char} (hc : plain c = false) :
    c ∉ s := by
  intro hmem
  rw [h c hmem] at hc
  cases hc

theorem splitFirst_entry {key : List Char} (h : BareKey key) (text : List Char) :
    Text.splitFirst [' ', '=', ' ', '"'] (key ++ [' ', '=', ' ', '"'] ++ text) = some (key, text) :=
  Text.splitFirst_append (h.not_mem rfl) text

/-- The line of text of a valid line looks like it. -/
theorem Line.Valid.readLine {line : Line} (h : line.Valid) :
    ∃ text, line.render = text ++ ['\n'] ∧ '\n' ∉ text ∧ Toml.readLine text = line := by
  cases line with
  | blank => exact ⟨[], rfl, List.not_mem_nil, rfl⟩
  | header name =>
    refine ⟨'[' :: name ++ [']'], ?_, ?_, ?_⟩
    · simp only [render, List.append_assoc, List.cons_append, List.nil_append]
    · intro hmem
      simp only [List.cons_append, List.mem_cons, List.mem_append, List.not_mem_nil, or_false] at hmem
      obtain hmem | hmem | hmem := hmem
      · exact absurd hmem (by decide)
      · exact h.not_mem rfl hmem
      · exact absurd hmem (by decide)
    · simp only [List.cons_append, Toml.readLine, List.dropLast_concat]
  | entry key value =>
    refine ⟨key ++ [' ', '=', ' ', '"'] ++ (value ++ ['"']), ?_, ?_, ?_⟩
    · simp only [render, List.append_assoc, List.cons_append, List.nil_append]
    · intro hmem
      simp only [List.mem_append, List.mem_cons, List.not_mem_nil, or_false] at hmem
      obtain (hmem | hmem) | hmem | hmem := hmem
      · exact h.1.not_mem rfl hmem
      · exact absurd hmem (by decide)
      · exact not_mem_of_plain h.2 rfl hmem
      · exact absurd hmem (by decide)
    · obtain ⟨c, cs, rfl⟩ := List.exists_cons_of_ne_nil h.1.1
      have hbracket : c ≠ '[' := fun hc =>
        absurd (h.1.2 c List.mem_cons_self) (by rw [hc]; decide)
      have hsplit := splitFirst_entry h.1 (value ++ ['"'])
      simp only [List.cons_append] at hsplit ⊢
      rw [Toml.readLine.eq_3 _ (by simp) (by simpa using hbracket)]
      simp only [hsplit, List.dropLast_concat]

theorem readLines_append {doc : Document} (h : ∀ line ∈ doc, line.Valid) (text : List Char) :
    readLines (render doc ++ text) = doc ++ readLines text := by
  induction doc with
  | nil => rfl
  | cons line lines ih =>
    obtain ⟨body, hrender, hbody, hline⟩ := (h line List.mem_cons_self).readLine
    have hrest := ih fun line hline => h line (List.mem_cons_of_mem _ hline)
    have htext : render (line :: lines) ++ text = body ++ '\n' :: (render lines ++ text) := by
      simp only [render_cons, hrender, List.append_assoc, List.cons_append, List.nil_append]
    rw [readLines, htext, List.splitOn_append_cons_self_of_not_mem hbody,
      List.dropLast_cons_of_ne_nil (List.splitOn_ne_nil _ _), List.map_cons, hline]
    exact congrArg (line :: ·) hrest

/-- A simple document is what its text looks like. -/
theorem readLines_render {doc : Document} (h : ∀ line ∈ doc, line.Valid) :
    readLines (render doc) = doc := by
  have happend := readLines_append h []
  rw [List.append_nil] at happend
  rw [happend, readLines, List.splitOn_nil]
  exact List.append_nil doc

/-- A text that starts like an entry and is a rendered document has that entry first. -/
theorem entry_of_render {lines : Document} {key text : List Char} (hkey : BareKey key)
    (hlines : ∀ line ∈ lines, line.Valid)
    (h : render lines = key ++ [' ', '=', ' ', '"'] ++ text) :
    ∃ value rest, lines = .entry key value :: rest ∧ text = value ++ '"' :: '\n' :: render rest := by
  cases lines with
  | nil =>
    have hlength := congrArg List.length h
    simp at hlength
  | cons line rest =>
    obtain ⟨c, cs, hcs⟩ := List.exists_cons_of_ne_nil hkey.1
    have hbare : isBare c := hkey.2 c (hcs ▸ List.mem_cons_self)
    cases line with
    | blank =>
      rw [hcs] at h
      obtain ⟨rfl, _⟩ := List.cons.inj h
      exact absurd hbare (by decide)
    | header name =>
      rw [hcs] at h
      obtain ⟨rfl, _⟩ := List.cons.inj h
      exact absurd hbare (by decide)
    | entry key' value =>
      have hkey' : BareKey key' := (hlines _ List.mem_cons_self).1
      have hsplit := splitFirst_entry hkey' (value ++ '"' :: '\n' :: render rest)
      have htext : key' ++ [' ', '=', ' ', '"'] ++ (value ++ '"' :: '\n' :: render rest) =
          key ++ [' ', '=', ' ', '"'] ++ text := by
        rw [← h]
        simp only [render_cons, Line.render, List.append_assoc, List.cons_append, List.nil_append]
      rw [htext, splitFirst_entry hkey, Option.some.injEq, Prod.mk.injEq] at hsplit
      obtain ⟨rfl, rfl⟩ := hsplit
      exact ⟨value, rest, rfl, rfl⟩

/-- The value of a key of a table of a valid document. -/
theorem table_value {doc rest : Document} {key value : List Char}
    (hvalid : Valid (doc ++ .entry key value :: rest)) (hscope : scope [] doc ≠ []) :
    (table (doc ++ .entry key value :: rest)).value (scope [] doc) key = some (.string value) := by
  have hheader : scope [] doc ∈ headers (doc ++ .entry key value :: rest) := by
    rw [headers_append]
    exact List.mem_append_left _ ((scope_mem_headers [] doc).resolve_left hscope)
  have hbindings : bindings [] (doc ++ .entry key value :: rest) =
      bindings [] doc ++ ((scope [] doc, key), value) :: bindings (scope [] doc) rest :=
    bindings_append [] doc _
  have hlookup : (bindings [] (doc ++ .entry key value :: rest)).lookup (scope [] doc, key) =
      some value := by
    refine List.lookup_eq_some_iff.mpr ⟨_, _, hbindings, fun b hb => bne_iff_ne.mpr fun hkey => ?_⟩
    have hkeys := hvalid.keys
    rw [hbindings, List.map_append, List.map_cons, List.nodup_append] at hkeys
    exact hkeys.2.2 _ (List.mem_map_of_mem hb) _ List.mem_cons_self hkey.symm
  simp only [Table.value, table, if_pos hheader, hlookup, Option.map_some]

theorem conforms_read : Conforms read where
  accepts := fun doc hvalid => by
    have hdoc := readLines_render hvalid.lines
    rw [read_eq_some_iff, hdoc]
    exact ⟨rfl, hvalid, rfl⟩
  reads := fun doc key text t hlines hscope hkey hread => by
    obtain ⟨hrender, hvalid, rfl⟩ := read_eq_some_iff.mp hread
    rw [List.append_assoc (render doc), List.append_assoc, readLines_append hlines] at hrender hvalid
    rw [List.append_assoc (render doc), List.append_assoc, readLines_append hlines]
    generalize readLines _ = more at hrender hvalid ⊢
    rw [render_append, List.append_cancel_left_eq] at hrender
    have hmore : ∀ line ∈ more, line.Valid := fun line hline =>
      hvalid.lines line (List.mem_append_right _ hline)
    obtain ⟨value, rest, rfl, rfl⟩ := entry_of_render hkey hmore hrender
    refine ⟨value, '\n' :: render rest, ?_, table_value hvalid hscope⟩
    exact .basic (.of_plain (hmore _ List.mem_cons_self).2) fun _ => by simp

end Toml
