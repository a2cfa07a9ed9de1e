import DualSql.Layout

/-! # The text of a layout

Whatever the choices in writing a tree, the text holds the lexemes of its
layout one after the other, with nothing but blanks and line ends around them.

Main definition: `Layout.Spaced`. Main result: `Layout.spaced_toText`. -/

namespace DualSql

namespace Layout

/-- Texts one after the other with blanks and line ends around them. -/
inductive Spaced : List String → List Char → Prop
  | nil : Spaced [] []
  | gap {c : Char} {texts : List String} {chars : List Char} (hc : c = ' ' ∨ c = '\n')
    (h : Spaced texts chars) : Spaced texts (c :: chars)
  | text (s : String) {texts : List String} {chars : List Char} (h : Spaced texts chars) :
    Spaced (s :: texts) (s.toList ++ chars)

theorem Spaced.append {xs ys : List String} {cs ds : List Char} (h : Spaced xs cs)
    (h' : Spaced ys ds) : Spaced (xs ++ ys) (cs ++ ds) := by
  induction h with
  | nil => exact h'
  | gap hc _ ih => exact ih.gap hc
  | text s _ ih =>
      rw [List.cons_append, List.append_assoc]
      exact ih.text s

theorem spaced_blanks (count : Nat) : Spaced [] (List.replicate count ' ') := by
  induction count with
  | zero => exact .nil
  | succ count ih => exact ih.gap (.inl rfl)

end Layout

namespace Writer

open Layout

variable {w w' w'' : Writer} {texts more : List String}

/-- What is written grows by some texts, with gaps around them. -/
def Adds (w w' : Writer) (texts : List String) : Prop :=
  ∃ chars, Spaced texts chars ∧ w'.written = chars.reverse ++ w.written

theorem adds_nothing (h : w'.written = w.written) : Adds w w' [] :=
  ⟨[], .nil, h⟩

theorem Adds.trans (h : Adds w w' texts) (h' : Adds w' w'' more) : Adds w w'' (texts ++ more) := by
  obtain ⟨chars, hchars, hw⟩ := h
  obtain ⟨chars', hchars', hw'⟩ := h'
  refine ⟨chars ++ chars', hchars.append hchars', ?_⟩
  rw [hw', hw, List.reverse_append, List.append_assoc]

/-- Marks that are set before or after do not count. -/
theorem Adds.congr {v v' : Writer} (h : Adds v v' texts) (hw : v.written = w.written)
    (hw' : w'.written = v'.written) : Adds w w' texts := by
  obtain ⟨chars, hchars, hv⟩ := h
  exact ⟨chars, hchars, by rw [hw', hv, hw]⟩

theorem adds_newline (w : Writer) : Adds w w.newline [] := by
  unfold newline
  split
  · exact adds_nothing rfl
  · exact ⟨['\n'], Spaced.nil.gap (.inr rfl), rfl⟩

/-- A lexeme is written as it is, with blanks before it. -/
theorem adds_lexeme (w : Writer) (indentWidth : UInt64) (text : String) :
    Adds w (w.lexeme indentWidth text) [text] := by
  have hblanks (count : Nat) : Adds w (w.blanks count) [] := by
    refine ⟨List.replicate count ' ', spaced_blanks count, ?_⟩
    rw [List.reverse_replicate]
    simp [blanks, put]
  have hindent : Adds w (w.indent indentWidth) [] := by
    unfold indent
    split
    · exact hblanks _
    · exact adds_nothing rfl
  have hput (v : Writer) : Adds v (v.put text.toList) [text] := by
    refine ⟨text.toList ++ [], Spaced.nil.text text, ?_⟩
    rw [List.append_nil]
    rfl
  unfold lexeme
  dsimp only
  split
  · exact hindent.trans ((hput _).congr rfl rfl)
  · split
    · exact (hblanks _).trans ((hput _).congr rfl rfl)
    · exact (hput _).congr rfl rfl

/-- A separator is written before each item but the first. -/
theorem adds_separator (w : Writer) (indentWidth : UInt64) (separator : Option String)
    (first : Bool) :
    Adds w (if first then w else separator.elim w (w.lexeme indentWidth))
      (if first then [] else separator.toList) := by
  cases first with
  | true => exact adds_nothing rfl
  | false =>
      cases separator with
      | none => exact adds_nothing rfl
      | some text => exact adds_lexeme w indentWidth text

end Writer

namespace Layout

open Writer

mutual

theorem writeFlat_adds (indentWidth : UInt64) : (l : Layout) → (w : Writer) →
    Adds w (writeFlat indentWidth w l) l.lexemes
  | lexeme text, w => adds_lexeme w indentWidth text
  | tight, _ | line, _ => adds_nothing rfl
  | nested body, w => writeFlat_adds indentWidth body w
  | sequence parts, w => writeFlatAll_adds indentWidth parts w
  | list _ tightFirst separator items, w => by
      unfold writeFlat
      dsimp only
      split
      · exact (writeFlatItems_adds indentWidth separator true items { w with tight := true }).congr
          rfl rfl
      · exact writeFlatItems_adds indentWidth separator true items w

theorem writeFlatAll_adds (indentWidth : UInt64) : (parts : List Layout) → (w : Writer) →
    Adds w (writeFlatAll indentWidth w parts) (lexemesAll parts)
  | [], _ => adds_nothing rfl
  | part :: rest, w =>
      (writeFlat_adds indentWidth part w).trans (writeFlatAll_adds indentWidth rest _)

theorem writeFlatItems_adds (indentWidth : UInt64) (separator : Option String) (first : Bool) :
    (items : List Layout) → (w : Writer) →
    Adds w (writeFlatItems indentWidth separator first w items)
      (lexemesBetween separator first items)
  | [], _ => adds_nothing rfl
  | item :: rest, w =>
      ((adds_separator w indentWidth separator first).trans (writeFlat_adds indentWidth item _)).trans
        (writeFlatItems_adds indentWidth separator false rest _)

end

mutual

theorem writePretty_adds (o : FormatOptions) : (l : Layout) → (w : Writer) →
    Adds w (writePretty o w l) l.lexemes
  | lexeme text, w => adds_lexeme w o.indentWidth text
  | tight, _ => adds_nothing rfl
  | line, w => adds_newline w
  | nested body, w => (writePretty_adds o body { w with level := w.level + 1 }).congr rfl rfl
  | sequence parts, w => writePrettyAll_adds o parts w
  | list eachOnLine tightFirst separator items, w => by
      unfold writePretty
      split
      · exact writePrettyItems_adds o true separator true items w
      · split
        · exact (writePrettyItems_adds o true separator true items
            { w with level := w.level + 1 }).congr rfl rfl
        · dsimp only
          split
          · exact (writePrettyItems_adds o false separator true items
              { w with tight := true }).congr rfl rfl
          · exact writePrettyItems_adds o false separator true items w

theorem writePrettyAll_adds (o : FormatOptions) : (parts : List Layout) → (w : Writer) →
    Adds w (writePrettyAll o w parts) (lexemesAll parts)
  | [], _ => adds_nothing rfl
  | part :: rest, w => (writePretty_adds o part w).trans (writePrettyAll_adds o rest _)

theorem writePrettyItems_adds (o : FormatOptions) (onLines : Bool) (separator : Option String)
    (first : Bool) : (items : List Layout) → (w : Writer) →
    Adds w (writePrettyItems o onLines separator first w items)
      (lexemesBetween separator first items)
  | [], _ => adds_nothing rfl
  | item :: rest, w => by
      have hline (w : Writer) : Adds w (if onLines then w.newline else w) [] := by
        split
        · exact adds_newline w
        · exact adds_nothing rfl
      have hitem := ((adds_separator w o.indentWidth separator first).trans (hline _)).trans
        (writePretty_adds o item _)
      rw [List.append_nil] at hitem
      exact hitem.trans (writePrettyItems_adds o onLines separator false rest _)

end

/-- A text holds the lexemes of its layout in their order, and blanks and line
ends around them. -/
theorem spaced_toText (o : FormatOptions) (l : Layout) :
    Spaced l.lexemes (l.toText o).toList := by
  have hadds : Adds {} (l.write o) l.lexemes := by
    unfold write
    split
    · exact writePretty_adds o l {}
    · exact writeFlat_adds o.indentWidth l {}
  obtain ⟨chars, hchars, hwritten⟩ := hadds
  rw [toText, Writer.toText, hwritten, List.append_nil, List.reverse_reverse, String.toList_ofList]
  exact hchars

/-- A text is printed just if every line can be indented, and then it is that of the layout. -/
theorem print_eq_ok {o : FormatOptions} {l : Layout} {text : String} :
    l.print o = .ok text ↔ l.fits o = true ∧ l.toText o = text := by
  rw [print]
  cases l.fits o <;> simp

/-- Printing fails at a line that is too wide, and nowhere else. -/
theorem print_eq_error {o : FormatOptions} {l : Layout} {e : Error} :
    l.print o = .error e ↔ l.fits o = false ∧ e = .capacity := by
  rw [print]
  cases l.fits o <;> simp [eq_comm]

end Layout

end DualSql
