import Mathlib.Data.List.Forall2
import DualSql.Proofs.Joints

/-! # Blanks and line ends between lexemes

The choices in laying out a tree decide what stands between its lexemes, and
nothing else. Every blank of the form on one line is in the form on several
lines as well, as a blank or as a line end. Only in the form on several lines can
a line be too wide to be indented.

Main definitions: `Motion`, `Layout.moves`, `Layout.depth` and `Layout.inks`. Main
results: `Layout.writePretty_eq`, `Layout.exists_wide_of_fits`, `Layout.inks_write`
and `Layout.visible_inks`. -/

namespace DualSql

/-- What is done to write a layout: a stroke, or a change of line or of
indentation. -/
inductive Motion where
  | stroke (stroke : Stroke)
  | line
  | level (level : Nat)
  deriving DecidableEq, Repr

/-- A lexeme as it is written, with the characters between it and the lexeme
before it. -/
structure Ink where
  gap : List Char
  text : String
  deriving DecidableEq, Repr

/-- A text is written as lexemes, with blanks and line ends in the gaps between
them, and at most a line end behind the last one. -/
structure Ink.Write (inks : List Ink) (text : String) : Prop where
  gaps : ∀ ink ∈ inks, ∀ c ∈ ink.gap, c = ' ' ∨ c = '\n'
  text : ∃ ending, (ending = [] ∨ ending = ['\n']) ∧
    text.toList = (inks.flatMap fun ink => ink.gap ++ ink.text.toList) ++ ending

namespace Writer

/-- Follows one move. -/
def move (indentWidth : UInt64) (w : Writer) : Motion → Writer
  | .stroke stroke => w.stroke indentWidth stroke
  | .line => w.newline
  | .level level => { w with level }

/-- What stands between the last lexeme and the next one: a line end with the
indentation behind it, a blank, or nothing. -/
def gap (indentWidth : UInt64) (w : Writer) (text : String) : List Char :=
  if w.atLineStart then '\n' :: List.replicate ((indentation? w.level indentWidth).getD 0) ' '
  else if needsSpace w.written text.toList w.tight then [' ']
  else []

/-- The lexemes that are written along moves, with the gaps before them. -/
def inks (indentWidth : UInt64) (w : Writer) : List Motion → List Ink
  | [] => []
  | .stroke (.text text) :: rest =>
    ⟨w.gap indentWidth text, text⟩ :: inks indentWidth (w.lexeme indentWidth text) rest
  | move :: rest => inks indentWidth (w.move indentWidth move) rest

end Writer

namespace Layout

/-- Whether a list is broken up that stands where the writer is. -/
def isBroken (o : FormatOptions) (w : Writer) (separator : Option String) (items : List Layout) :
    Bool :=
  items.length > 1 && w.column + flatWidth o.indentWidth separator items > o.lineWidth

/-- The moves before an item: a separator before each but the first, and a line
of its own. -/
def movesBefore (onLines : Bool) (separator : Option String) (first : Bool) : List Motion :=
  (if first then [] else separator.toList.map fun text => .stroke (.text text)) ++
    if onLines then [.line] else []

mutual

/-- The moves of the pretty form, in their order. -/
def moves (o : FormatOptions) (w : Writer) : Layout → List Motion
  | lexeme text => [.stroke (.text text)]
  | tight => [.stroke .tight]
  | line => [.line]
  | nested body =>
    .level (w.level + 1) :: (moves o { w with level := w.level + 1 } body ++ [.level w.level])
  | sequence parts => movesAll o w parts
  | list eachOnLine tightFirst separator items =>
    if eachOnLine then movesItems o true separator true w items
    else if isBroken o w separator items then
      .level (w.level + 1) ::
        (movesItems o true separator true { w with level := w.level + 1 } items ++ [.level w.level])
    else if tightFirst && !items.isEmpty then
      .stroke .tight :: movesItems o false separator true { w with tight := true } items
    else movesItems o false separator true w items

/-- The moves of several parts. -/
def movesAll (o : FormatOptions) (w : Writer) : List Layout → List Motion
  | [] => []
  | part :: rest => moves o w part ++ movesAll o (writePretty o w part) rest

/-- The moves of items, each but the first after a separator. -/
def movesItems (o : FormatOptions) (onLines : Bool) (separator : Option String) (first : Bool)
    (w : Writer) : List Layout → List Motion
  | [] => []
  | item :: rest =>
    let before := movesBefore onLines separator first
    let w := before.foldl (Writer.move o.indentWidth) w
    before ++ moves o w item ++ movesItems o onLines separator false (writePretty o w item) rest

end

theorem foldl_movesBefore (indentWidth : UInt64) (onLines : Bool) (separator : Option String)
    (first : Bool) (w : Writer) :
    (movesBefore onLines separator first).foldl (Writer.move indentWidth) w =
      let w := if first then w else separator.elim w (w.lexeme indentWidth)
      if onLines then w.newline else w := by
  cases first <;> cases separator <;> cases onLines <;> rfl

mutual

/-- Writing the pretty form is following the moves. -/
theorem writePretty_eq (o : FormatOptions) : (l : Layout) → (w : Writer) →
    writePretty o w l = (moves o w l).foldl (Writer.move o.indentWidth) w
  | lexeme _, _ | tight, _ | line, _ => rfl
  | nested body, w => by
      rw [writePretty, moves, List.foldl_cons, List.foldl_append, writePretty_eq]
      rfl
  | sequence parts, w => writePrettyAll_eq o parts w
  | list eachOnLine tightFirst separator items, w => by
      rw [writePretty, moves]
      split
      · exact writePrettyItems_eq o true separator true items w
      · split
        next hbroken =>
          rw [if_pos (show isBroken o w separator items = true from hbroken), List.foldl_cons,
            List.foldl_append, writePrettyItems_eq]
          rfl
        next hbroken =>
          rw [if_neg (show ¬isBroken o w separator items = true from hbroken)]
          dsimp only
          split
          · rw [List.foldl_cons, writePrettyItems_eq]
            rfl
          · exact writePrettyItems_eq o false separator true items w

theorem writePrettyAll_eq (o : FormatOptions) : (parts : List Layout) → (w : Writer) →
    writePrettyAll o w parts = (movesAll o w parts).foldl (Writer.move o.indentWidth) w
  | [], _ => rfl
  | part :: rest, w => by
      rw [writePrettyAll, movesAll, List.foldl_append, writePrettyAll_eq, ← writePretty_eq]

theorem writePrettyItems_eq (o : FormatOptions) (onLines : Bool) (separator : Option String)
    (first : Bool) : (items : List Layout) → (w : Writer) →
    writePrettyItems o onLines separator first w items =
      (movesItems o onLines separator first w items).foldl (Writer.move o.indentWidth) w
  | [], _ => rfl
  | item :: rest, w => by
      rw [writePrettyItems, movesItems, List.foldl_append, List.foldl_append, foldl_movesBefore,
        writePrettyItems_eq, ← writePretty_eq]

end

/-- The moves of a layout, in the pretty form or on one line. -/
def trail (o : FormatOptions) (pretty : Bool) (w : Writer) (l : Layout) : List Motion :=
  if pretty then moves o w l else l.strokes.map .stroke

/-- Writing is following the moves. -/
theorem foldl_trail (o : FormatOptions) (pretty : Bool) (w : Writer) (l : Layout) :
    (trail o pretty w l).foldl (Writer.move o.indentWidth) w =
      if pretty then writePretty o w l else writeFlat o.indentWidth w l := by
  cases pretty with
  | true => exact (writePretty_eq o l w).symm
  | false =>
      refine Eq.trans ?_ (writeFlat_eq o.indentWidth l w).symm
      exact List.foldl_map

theorem write_eq (o : FormatOptions) (l : Layout) :
    l.write o = (trail o o.pretty {} l).foldl (Writer.move o.indentWidth) {} :=
  (foldl_trail o o.pretty {} l).symm

/-- The moves of several parts, in the pretty form or on one line. -/
def trailAll (o : FormatOptions) (pretty : Bool) (w : Writer) (parts : List Layout) : List Motion :=
  if pretty then movesAll o w parts else (strokesAll parts).map .stroke

/-- The moves of items, in the pretty form or on one line. -/
def trailItems (o : FormatOptions) (pretty onLines : Bool) (separator : Option String)
    (first : Bool) (w : Writer) (items : List Layout) : List Motion :=
  if pretty then movesItems o onLines separator first w items
  else (strokesBetween separator first items).map .stroke

/-- The moves of a list that is broken up or stands where it is. -/
def trailList (o : FormatOptions) (pretty broken tightFirst : Bool) (separator : Option String)
    (w : Writer) (items : List Layout) : List Motion :=
  if broken then
    .level (w.level + 1) :: (trailItems o pretty true separator true
      { w with level := w.level + 1 } items ++ [.level w.level])
  else if tightFirst && !items.isEmpty then
    .stroke .tight :: trailItems o pretty false separator true { w with tight := true } items
  else trailItems o pretty false separator true w items

theorem trail_list (o : FormatOptions) (pretty eachOnLine tightFirst : Bool)
    (separator : Option String) (w : Writer) (items : List Layout) :
    trail o pretty w (list eachOnLine tightFirst separator items) =
      if pretty && eachOnLine then trailItems o pretty true separator true w items
      else trailList o pretty (pretty && isBroken o w separator items) tightFirst separator w
        items := by
  cases pretty with
  | true => cases eachOnLine <;> rfl
  | false =>
      simp only [trail, trailList, trailItems, strokes, Bool.false_and, Bool.false_eq_true, if_false]
      split <;> simp

theorem trailAll_cons (o : FormatOptions) (pretty : Bool) (w : Writer) (part : Layout)
    (rest : List Layout) :
    trailAll o pretty w (part :: rest) = trail o pretty w part ++
      trailAll o pretty ((trail o pretty w part).foldl (Writer.move o.indentWidth) w) rest := by
  rw [foldl_trail]
  cases pretty with
  | true => rfl
  | false => exact List.map_append

theorem trail_sequence (o : FormatOptions) (pretty : Bool) (w : Writer) (parts : List Layout) :
    trail o pretty w (sequence parts) = trailAll o pretty w parts := by
  cases pretty <;> rfl

theorem trailAll_nil (o : FormatOptions) (pretty : Bool) (w : Writer) :
    trailAll o pretty w [] = [] := by
  cases pretty <;> rfl

theorem trail_lexeme (o : FormatOptions) (pretty : Bool) (w : Writer) (text : String) :
    trail o pretty w (lexeme text) = [.stroke (.text text)] := by
  cases pretty <;> rfl

theorem trail_tight (o : FormatOptions) (pretty : Bool) (w : Writer) :
    trail o pretty w tight = [.stroke .tight] := by
  cases pretty <;> rfl

theorem trail_line (o : FormatOptions) (pretty : Bool) (w : Writer) :
    trail o pretty w line = if pretty then [.line] else [] := by
  cases pretty <;> rfl

theorem trailItems_cons (o : FormatOptions) {pretty onLines : Bool}
    (hlines : onLines = true → pretty = true) (separator : Option String) (first : Bool)
    (w : Writer) (item : Layout) (rest : List Layout) :
    let before := movesBefore onLines separator first
    let w' := before.foldl (Writer.move o.indentWidth) w
    trailItems o pretty onLines separator first w (item :: rest) =
      before ++ (trail o pretty w' item ++ trailItems o pretty onLines separator false
        ((trail o pretty w' item).foldl (Writer.move o.indentWidth) w') rest) := by
  dsimp only
  rw [foldl_trail]
  cases pretty with
  | true =>
      refine Eq.trans ?_ (List.append_assoc ..)
      rfl
  | false =>
      obtain rfl : onLines = false := Bool.eq_false_iff.2 fun h => nomatch hlines h
      have hbefore : (if first then [] else (separator.map Stroke.text).toList).map Motion.stroke =
          movesBefore false separator first := by
        cases first <;> cases separator <;> rfl
      rw [← hbefore]
      simp [trailItems, trail, strokesBetween]

/-- The lexemes of a layout as they are written, with the gaps before them. -/
def inks (o : FormatOptions) (l : Layout) : List Ink :=
  Writer.inks o.indentWidth {} (trail o o.pretty {} l)

end Layout

/-! ### The level of indentation -/

namespace Writer

theorem level_newline (w : Writer) : w.newline.level = w.level := by
  unfold newline
  split <;> rfl

theorem level_indent (w : Writer) (indentWidth : UInt64) :
    (w.indent indentWidth).level = w.level := by
  unfold indent
  split <;> rfl

theorem level_lexeme (w : Writer) (indentWidth : UInt64) (text : String) :
    (w.lexeme indentWidth text).level = w.level := by
  unfold lexeme
  split
  · exact level_indent w indentWidth
  · split <;> rfl

theorem level_movesBefore (indentWidth : UInt64) (onLines : Bool) (separator : Option String)
    (first : Bool) (w : Writer) :
    ((Layout.movesBefore onLines separator first).foldl (move indentWidth) w).level = w.level := by
  rw [Layout.foldl_movesBefore]
  have hseparator : (if first then w else separator.elim w (w.lexeme indentWidth)).level =
      w.level := by
    cases first with
    | true => rfl
    | false =>
        cases separator with
        | none => rfl
        | some text => exact level_lexeme w indentWidth text
  cases onLines with
  | false => exact hseparator
  | true => exact (level_newline _).trans hseparator

end Writer

namespace Layout

mutual

/-- What is written leaves the level as it was. -/
theorem level_writePretty (o : FormatOptions) : (l : Layout) → (w : Writer) →
    (writePretty o w l).level = w.level
  | lexeme text, w => Writer.level_lexeme w o.indentWidth text
  | tight, _ => rfl
  | line, w => Writer.level_newline w
  | nested _, _ => rfl
  | sequence parts, w => level_writePrettyAll o parts w
  | list eachOnLine tightFirst separator items, w => by
      rw [writePretty]
      split
      · exact level_writePrettyItems o true separator true items w
      · split
        · rfl
        · refine (level_writePrettyItems o false separator true items _).trans ?_
          split <;> rfl

theorem level_writePrettyAll (o : FormatOptions) : (parts : List Layout) → (w : Writer) →
    (writePrettyAll o w parts).level = w.level
  | [], _ => rfl
  | part :: rest, w => (level_writePrettyAll o rest _).trans (level_writePretty o part w)

theorem level_writePrettyItems (o : FormatOptions) (onLines : Bool) (separator : Option String)
    (first : Bool) : (items : List Layout) → (w : Writer) →
    (writePrettyItems o onLines separator first w items).level = w.level
  | [], _ => rfl
  | item :: rest, w => by
      rw [writePrettyItems, ← foldl_movesBefore]
      refine (level_writePrettyItems o onLines separator false rest _).trans ?_
      exact (level_writePretty o item _).trans (Writer.level_movesBefore _ _ _ _ w)

end

theorem level_foldl_trail (o : FormatOptions) (w : Writer) (l : Layout) :
    ((trail o true w l).foldl (Writer.move o.indentWidth) w).level = w.level := by
  rw [foldl_trail]
  exact level_writePretty o l w

theorem level_foldl_trailItems (o : FormatOptions) (onLines : Bool) (separator : Option String)
    (first : Bool) (w : Writer) (items : List Layout) :
    ((trailItems o true onLines separator first w items).foldl
      (Writer.move o.indentWidth) w).level = w.level := by
  rw [trailItems, if_pos rfl, ← writePrettyItems_eq]
  exact level_writePrettyItems o onLines separator first items w

end Layout

/-! ### Lines that are too wide -/

namespace Writer

variable {w : Writer} {indentWidth : UInt64}

theorem failed_newline (w : Writer) : w.newline.failed = w.failed := by
  unfold newline
  split <;> rfl

/-- Writing a lexeme fails at the beginning of a line that is too wide. -/
theorem failed_lexeme (w : Writer) (indentWidth : UInt64) (text : String) :
    (w.lexeme indentWidth text).failed =
      (w.failed || (w.atLineStart && (indentation? w.level indentWidth).isNone)) := by
  unfold lexeme
  cases w.atLineStart with
  | true =>
      cases hcount : indentation? w.level indentWidth <;> simp [put, indent, hcount, blanks]
  | false =>
      rw [if_neg Bool.false_ne_true, Bool.false_and, Bool.or_false]
      split <;> rfl

theorem failed_lexeme_of_isSome (h : (indentation? w.level indentWidth).isSome = true)
    (text : String) : (w.lexeme indentWidth text).failed = w.failed := by
  rw [failed_lexeme, ← Option.not_isSome, h, Bool.not_true, Bool.and_false, Bool.or_false]

theorem failed_movesBefore (h : (indentation? w.level indentWidth).isSome = true) (onLines : Bool)
    (separator : Option String) (first : Bool) :
    ((Layout.movesBefore onLines separator first).foldl (move indentWidth) w).failed =
      w.failed := by
  rw [Layout.foldl_movesBefore]
  have hseparator : (if first then w else separator.elim w (w.lexeme indentWidth)).failed =
      w.failed := by
    cases first with
    | true => rfl
    | false =>
        cases separator with
        | none => rfl
        | some text => exact failed_lexeme_of_isSome h text
  cases onLines with
  | false => exact hseparator
  | true => exact (failed_newline _).trans hseparator

theorem failed_move (h : w.failed = true) (m : Motion) : (w.move indentWidth m).failed = true := by
  cases m with
  | stroke stroke =>
      cases stroke with
      | text text => exact (failed_lexeme w indentWidth text).trans (by rw [h, Bool.true_or])
      | tight => exact h
  | line => exact (failed_newline w).trans h
  | level => exact h

/-- Once it has failed a writer does not go on. -/
theorem failed_foldl (h : w.failed = true) (moves : List Motion) :
    (moves.foldl (move indentWidth) w).failed = true := by
  induction moves generalizing w with
  | nil => exact h
  | cons m moves ih => exact ih (failed_move h m)

/-- A writer that has not failed and that begins lines in the pretty form only. -/
structure Steady (pretty : Bool) (w : Writer) : Prop where
  going : w.failed = false
  line : pretty = false → w.atLineStart = false

theorem steady_start (pretty : Bool) : Steady pretty {} :=
  ⟨rfl, fun _ => rfl⟩

theorem Steady.move (h : w.Steady false) {m : Motion} (hm : m ≠ .line) :
    (w.move indentWidth m).Steady false := by
  cases m with
  | stroke stroke =>
      cases stroke with
      | text text =>
          refine ⟨(failed_lexeme w indentWidth text).trans ?_, fun _ => rfl⟩
          rw [h.going, h.line rfl]
          rfl
      | tight => exact ⟨h.going, h.line⟩
  | line => exact absurd rfl hm
  | level => exact ⟨h.going, h.line⟩

/-- On one line nothing is too wide. -/
theorem Steady.foldl (h : w.Steady false) {moves : List Motion} (hmoves : .line ∉ moves) :
    (moves.foldl (Writer.move indentWidth) w).Steady false := by
  induction moves generalizing w with
  | nil => exact h
  | cons m moves ih =>
      rw [List.mem_cons, not_or] at hmoves
      exact ih (h.move (Ne.symm hmoves.1)) hmoves.2

/-- The level stays where nothing changes it, and if a writer fails there, it is one at
which lines are too wide. -/
theorem level_foldl {moves : List Motion} (hlevels : ∀ level, .level level ∉ moves) :
    (moves.foldl (move indentWidth) w).level = w.level ∧
      ((moves.foldl (move indentWidth) w).failed = true → w.failed = true ∨
        indentation? w.level indentWidth = none) := by
  induction moves generalizing w with
  | nil => exact ⟨rfl, .inl⟩
  | cons m moves ih =>
      have hm : (w.move indentWidth m).level = w.level ∧
          ((w.move indentWidth m).failed = true → w.failed = true ∨
            indentation? w.level indentWidth = none) := by
        cases m with
        | stroke stroke =>
            cases stroke with
            | text text =>
                refine ⟨level_lexeme w indentWidth text, fun hfailed => ?_⟩
                rw [move, stroke, failed_lexeme, Bool.or_eq_true, Bool.and_eq_true,
                  Option.isNone_iff_eq_none] at hfailed
                exact hfailed.imp_right And.right
            | tight => exact ⟨rfl, .inl⟩
        | line => exact ⟨level_newline w, fun hfailed => .inl (failed_newline w ▸ hfailed)⟩
        | level level => exact absurd List.mem_cons_self (hlevels level)
      obtain ⟨hlevel, hwide⟩ := ih fun level h => hlevels level (List.mem_cons_of_mem _ h)
      rw [hm.1] at hlevel hwide
      exact ⟨hlevel, fun hfailed => (hwide hfailed).elim hm.2 .inr⟩

end Writer

/-- Moves that are followed at once: none of them begins a line where nothing is to be
on lines, and levels are changed one at a time. -/
structure Motion.Proper (pretty : Bool) (moves : List Motion) : Prop where
  line : pretty = false → .line ∉ moves
  level : ∀ level, .level level ∈ moves → moves = [.level level]

/-- Following moves fails at a level at which lines are too wide. -/
theorem Motion.Proper.wide_of_failed {pretty : Bool} {moves : List Motion}
    (h : Proper pretty moves) {w : Writer} {indentWidth : UInt64} (hgoing : w.failed = false)
    (hfailed : (moves.foldl (Writer.move indentWidth) w).failed = true) :
    Writer.indentation? (moves.foldl (Writer.move indentWidth) w).level indentWidth = none := by
  by_cases hlevels : ∃ level, .level level ∈ moves
  · obtain ⟨level, hlevel⟩ := hlevels
    rw [h.level level hlevel] at hfailed
    exact absurd (hfailed.symm.trans hgoing) nofun
  · obtain ⟨hlevel, hwide⟩ := Writer.level_foldl (not_exists.1 hlevels)
    rw [hlevel]
    exact (hwide hfailed).resolve_left (by rw [hgoing]; exact Bool.false_ne_true)

namespace Layout

mutual

/-- The number of levels that lines of a layout can be indented by. -/
def depth : Layout → Nat
  | lexeme _ | tight | line => 0
  | nested body => body.depth + 1
  | sequence parts => depthAll parts
  | list _ _ _ items => depthAll items + 1

/-- The greatest depth of several parts. -/
def depthAll : List Layout → Nat
  | [] => 0
  | part :: rest => max part.depth (depthAll rest)

end

mutual

/-- The pretty form is written where every line down to the depth of a layout can
be indented. -/
theorem failed_writePretty (o : FormatOptions) : (l : Layout) → (w : Writer) →
    (∀ level ≤ w.level + l.depth, (Writer.indentation? level o.indentWidth).isSome = true) →
    (writePretty o w l).failed = w.failed
  | lexeme text, w, h => Writer.failed_lexeme_of_isSome (h w.level (Nat.le_add_right ..)) text
  | tight, _, _ => rfl
  | line, w, _ => Writer.failed_newline w
  | nested body, w, h => by
      rw [writePretty]
      exact failed_writePretty o body { w with level := w.level + 1 } fun level hlevel =>
        h level (by rw [depth]; dsimp only at hlevel; omega)
  | sequence parts, w, h => failed_writePrettyAll o parts w h
  | list eachOnLine tightFirst separator items, w, h => by
      have hitems : ∀ level ≤ w.level + 1 + depthAll items,
          (Writer.indentation? level o.indentWidth).isSome = true := fun level hlevel =>
        h level (by rw [depth]; omega)
      have hshallow : ∀ level ≤ w.level + depthAll items,
          (Writer.indentation? level o.indentWidth).isSome = true := fun level hlevel =>
        hitems level (by omega)
      rw [writePretty]
      split
      · exact failed_writePrettyItems o true separator true items w hshallow
      · split
        · exact failed_writePrettyItems o true separator true items
            { w with level := w.level + 1 } hitems
        · dsimp only
          split
          · exact failed_writePrettyItems o false separator true items { w with tight := true }
              hshallow
          · exact failed_writePrettyItems o false separator true items w hshallow

theorem failed_writePrettyAll (o : FormatOptions) : (parts : List Layout) → (w : Writer) →
    (∀ level ≤ w.level + depthAll parts,
      (Writer.indentation? level o.indentWidth).isSome = true) →
    (writePrettyAll o w parts).failed = w.failed
  | [], _, _ => rfl
  | part :: rest, w, h => by
      rw [writePrettyAll, failed_writePrettyAll o rest, failed_writePretty o part]
      · exact fun level hlevel => h level (by rw [depthAll]; omega)
      · rw [level_writePretty]
        exact fun level hlevel => h level (by rw [depthAll]; omega)

theorem failed_writePrettyItems (o : FormatOptions) (onLines : Bool) (separator : Option String)
    (first : Bool) : (items : List Layout) → (w : Writer) →
    (∀ level ≤ w.level + depthAll items,
      (Writer.indentation? level o.indentWidth).isSome = true) →
    (writePrettyItems o onLines separator first w items).failed = w.failed
  | [], _, _ => rfl
  | item :: rest, w, h => by
      rw [writePrettyItems, ← foldl_movesBefore,
        failed_writePrettyItems o onLines separator false rest, failed_writePretty o item,
        Writer.failed_movesBefore (h w.level (Nat.le_add_right ..)) onLines separator first]
      · rw [Writer.level_movesBefore]
        exact fun level hlevel => h level (by rw [depthAll]; omega)
      · rw [level_writePretty, Writer.level_movesBefore]
        exact fun level hlevel => h level (by rw [depthAll]; omega)

end

theorem proper_movesBefore {pretty onLines : Bool} (hlines : onLines = true → pretty = true)
    (separator : Option String) (first : Bool) :
    Motion.Proper pretty (movesBefore onLines separator first) := by
  constructor
  · rintro rfl
    obtain rfl : onLines = false := Bool.eq_false_iff.2 fun h => Bool.false_ne_true (hlines h)
    cases first <;> cases separator <;> simp [movesBefore]
  · cases first <;> cases separator <;> cases onLines <;> simp [movesBefore]

theorem line_notMem_strokes (strokes : List Stroke) : .line ∉ strokes.map Motion.stroke := by
  simp

/-- A layout fits unless it is written in the pretty form and a line at one of its
levels is too wide. -/
theorem exists_wide_of_fits {o : FormatOptions} {l : Layout} (h : l.fits o = false) :
    o.pretty = true ∧ ∃ level ≤ l.depth, Writer.indentation? level o.indentWidth = none := by
  rw [fits, Bool.not_eq_false'] at h
  cases hpretty : o.pretty with
  | false =>
      have hflat : (l.write o).Steady false := by
        rw [write_eq, hpretty]
        exact (Writer.steady_start false).foldl (line_notMem_strokes l.strokes)
      rw [hflat.going] at h
      cases h
  | true =>
      refine ⟨rfl, ?_⟩
      by_contra hnone
      push Not at hnone
      rw [write, if_pos hpretty, failed_writePretty o l {}] at h
      · cases h
      · intro level hlevel
        rw [Nat.zero_add] at hlevel
        exact Option.isSome_iff_ne_none.2 (hnone level hlevel)

end Layout

/-! ### The text -/

namespace Writer

variable {w : Writer} {indentWidth : UInt64}

/-- A writer that stands behind a line end where a line was begun. -/
def Upright (w : Writer) : Prop :=
  w.atLineStart = true → ∃ rest, w.written = '\n' :: rest

/-- What is written, without the line end of a line on which nothing is written. -/
def ink (w : Writer) : List Char :=
  if w.atLineStart then w.written.tail else w.written

theorem upright_newline (h : w.Upright) : w.newline.Upright := by
  unfold newline
  split
  · exact h
  · exact fun _ => ⟨w.written, rfl⟩

theorem ink_newline (w : Writer) : w.newline.ink = w.ink := by
  unfold newline
  split
  · rfl
  next hline =>
    have hstart : w.atLineStart = false := (Bool.or_eq_false_iff.1 (Bool.eq_false_iff.2 hline)).2
    simp [ink, hstart]

theorem written_indent (w : Writer) (indentWidth : UInt64) :
    (w.indent indentWidth).written =
      List.replicate ((indentation? w.level indentWidth).getD 0) ' ' ++ w.written := by
  unfold indent
  split
  next count hcount => simp [hcount, blanks, put]
  next hcount => simp [hcount]

/-- A lexeme is written behind its gap. -/
theorem ink_lexeme (h : w.Upright) (text : String) :
    (w.lexeme indentWidth text).ink =
      text.toList.reverse ++ ((w.gap indentWidth text).reverse ++ w.ink) := by
  unfold lexeme gap ink
  cases hline : w.atLineStart with
  | true =>
      obtain ⟨rest, hrest⟩ := h hline
      simp [put, written_indent, hrest]
  | false =>
      simp only [Bool.false_eq_true, if_false, put]
      split
      · simp [blanks, put]
      · simp

theorem upright_move (h : w.Upright) (m : Motion) : (w.move indentWidth m).Upright := by
  cases m with
  | stroke stroke =>
      cases stroke with
      | text text => exact nofun
      | tight => exact h
  | line => exact upright_newline h
  | level => exact h

/-- What is written along moves is their lexemes behind their gaps. -/
theorem ink_foldl (indentWidth : UInt64) (h : w.Upright) (moves : List Motion) :
    (moves.foldl (move indentWidth) w).ink =
      ((inks indentWidth w moves).flatMap fun ink => ink.gap ++ ink.text.toList).reverse ++ w.ink ∧
    (moves.foldl (move indentWidth) w).Upright := by
  induction moves generalizing w with
  | nil => exact ⟨rfl, h⟩
  | cons m moves ih =>
      have hm : (w.move indentWidth m).Upright := upright_move h m
      obtain ⟨hink, hupright⟩ := ih hm
      refine ⟨?_, hupright⟩
      rw [List.foldl_cons, hink]
      cases m with
      | stroke stroke =>
          cases stroke with
          | text text =>
              rw [inks, List.flatMap_cons]
              change _ ++ (w.lexeme indentWidth text).ink = _
              rw [ink_lexeme h, List.reverse_append, List.reverse_append, List.append_assoc,
                List.append_assoc]
              rfl
          | tight => rfl
      | line =>
          change _ ++ w.newline.ink = _
          rw [ink_newline]
          rfl
      | level => rfl

end Writer

namespace Layout

/-- Nothing but blanks and line ends stands between lexemes. -/
theorem gap_inks (o : FormatOptions) (l : Layout) :
    ∀ ink ∈ l.inks o, ∀ c ∈ ink.gap, c = ' ' ∨ c = '\n' := by
  have hinks (w : Writer) (moves : List Motion) :
      ∀ ink ∈ w.inks o.indentWidth moves, ∀ c ∈ ink.gap, c = ' ' ∨ c = '\n' := by
    fun_induction Writer.inks o.indentWidth w moves with
    | case1 => exact fun ink h => (List.not_mem_nil h).elim
    | case2 w text rest ih =>
        refine List.forall_mem_cons.2 ⟨fun c hc => ?_, ih⟩
        unfold Writer.gap at hc
        split at hc
        · exact (List.mem_cons.1 hc).elim .inr fun h => .inl (List.eq_of_mem_replicate h)
        · split at hc
          · exact .inl (List.mem_singleton.1 hc)
          · cases hc
    | case3 w move rest _ ih => exact ih
  exact hinks _ _

/-- The text of a layout is its lexemes behind their gaps, with nothing but a
line end behind the last one. -/
theorem inks_write (o : FormatOptions) (l : Layout) : Ink.Write (l.inks o) (l.toText o) := by
  have hstart : ({} : Writer).Upright := nofun
  obtain ⟨hink, hupright⟩ := Writer.ink_foldl o.indentWidth hstart (trail o o.pretty {} l)
  rw [← write_eq] at hink hupright
  refine ⟨gap_inks o l, ?_⟩
  rw [toText, Writer.toText, String.toList_ofList]
  generalize l.write o = w at hink hupright ⊢
  have hreverse : w.ink.reverse =
      (l.inks o).flatMap fun ink => ink.gap ++ ink.text.toList := by
    rw [hink, List.reverse_append, List.reverse_reverse]
    rfl
  rw [← hreverse]
  unfold Writer.ink
  split
  next hline =>
    obtain ⟨rest, hrest⟩ := hupright hline
    exact ⟨['\n'], .inr rfl, by rw [hrest, List.reverse_cons, List.tail_cons]⟩
  next => exact ⟨[], .inl rfl, (List.append_nil _).symm⟩

end Layout

/-! ### What pretty writing changes -/

/-- Moves that come from strokes by changes of line and indentation, where
blanks that were left out may stand again. -/
inductive Loosens : List Stroke → List Motion → Prop
  | nil : Loosens [] []
  | same (stroke : Stroke) {strokes : List Stroke} {moves : List Motion}
      (rest : Loosens strokes moves) : Loosens (stroke :: strokes) (.stroke stroke :: moves)
  | loose {strokes : List Stroke} {moves : List Motion} (rest : Loosens strokes moves) :
      Loosens (.tight :: strokes) moves
  | line {strokes : List Stroke} {moves : List Motion} (rest : Loosens strokes moves) :
      Loosens strokes (.line :: moves)
  | level (level : Nat) {strokes : List Stroke} {moves : List Motion}
      (rest : Loosens strokes moves) : Loosens strokes (.level level :: moves)

theorem Loosens.append {strokes strokes' : List Stroke} {moves moves' : List Motion}
    (h : Loosens strokes moves) (h' : Loosens strokes' moves') :
    Loosens (strokes ++ strokes') (moves ++ moves') := by
  induction h with
  | nil => exact h'
  | same stroke _ ih => exact .same stroke ih
  | loose _ ih => exact .loose ih
  | line _ ih => exact .line ih
  | level n _ ih => exact .level n ih

namespace Layout

theorem loosens_before (onLines : Bool) (separator : Option String) (first : Bool) :
    Loosens (if first then [] else (separator.map Stroke.text).toList)
      (movesBefore onLines separator first) := by
  have hline : Loosens [] (if onLines then [Motion.line] else []) := by
    split
    · exact .line .nil
    · exact .nil
  cases first with
  | true => exact hline
  | false =>
      cases separator with
      | none => exact hline
      | some text => exact .same _ hline

mutual

/-- The pretty form changes lines and indentation only. -/
theorem loosens_moves (o : FormatOptions) : (l : Layout) → (w : Writer) →
    Loosens l.strokes (moves o w l)
  | lexeme text, _ => .same (.text text) .nil
  | tight, _ => .same .tight .nil
  | line, _ => .line .nil
  | nested body, w => by
      have hbody := (loosens_moves o body { w with level := w.level + 1 }).append
        (.level w.level .nil)
      rw [List.append_nil] at hbody
      exact .level _ hbody
  | sequence parts, w => loosens_movesAll o parts w
  | list eachOnLine tightFirst separator items, w => by
      have hitems (onLines : Bool) (w : Writer) := loosens_movesItems o onLines separator true items w
      have hloose {moves : List Motion} (h : Loosens (strokesBetween separator true items) moves) :
          Loosens ((if tightFirst && !items.isEmpty then [.tight] else []) ++
            strokesBetween separator true items) moves := by
        split
        · exact .loose h
        · exact h
      rw [moves]
      split
      · rw [strokes]
        exact hloose (hitems true w)
      · split
        · have hbroken := (hitems true { w with level := w.level + 1 }).append (.level w.level .nil)
          rw [List.append_nil] at hbroken
          rw [strokes]
          exact hloose (.level _ hbroken)
        · split
          next htight =>
            rw [strokes, if_pos htight]
            exact .same .tight (hitems false _)
          next htight =>
            rw [strokes, if_neg htight]
            exact hitems false w

theorem loosens_movesAll (o : FormatOptions) : (parts : List Layout) → (w : Writer) →
    Loosens (strokesAll parts) (movesAll o w parts)
  | [], _ => .nil
  | part :: rest, w => (loosens_moves o part w).append (loosens_movesAll o rest _)

theorem loosens_movesItems (o : FormatOptions) (onLines : Bool) (separator : Option String)
    (first : Bool) : (items : List Layout) → (w : Writer) →
    Loosens (strokesBetween separator first items) (movesItems o onLines separator first w items)
  | [], _ => .nil
  | item :: rest, _ =>
      ((loosens_before onLines separator first).append (loosens_moves o item _)).append
        (loosens_movesItems o onLines separator false rest _)

end

theorem loosens_strokes (strokes : List Stroke) : Loosens strokes (strokes.map .stroke) := by
  induction strokes with
  | nil => exact .nil
  | cons stroke strokes ih => exact .same stroke ih

end Layout

/-! ### Lexemes -/

/-- The text that a stroke writes. -/
def Stroke.lexeme? : Stroke → Option String
  | .text value => some value
  | .tight => none

theorem Loosens.text_inks {strokes : List Stroke} {moves : List Motion} (h : Loosens strokes moves)
    (indentWidth : UInt64) (w : Writer) :
    (w.inks indentWidth moves).map Ink.text = strokes.filterMap Stroke.lexeme? := by
  induction h generalizing w with
  | nil => rfl
  | same stroke _ ih =>
      cases stroke with
      | text text =>
          rw [Writer.inks, List.map_cons, ih]
          rfl
      | tight => exact ih _
  | loose _ ih => exact ih w
  | line _ ih => exact ih _
  | level n _ ih => exact ih _

namespace Layout

mutual

theorem texts_strokes : (l : Layout) → l.strokes.filterMap Stroke.lexeme? = l.lexemes
  | lexeme _ | tight | line => rfl
  | nested body => texts_strokes body
  | sequence parts => texts_strokesAll parts
  | list _ tightFirst separator items => by
      rw [strokes, List.filterMap_append, texts_strokesBetween separator true items, lexemes]
      split <;> rfl

theorem texts_strokesAll : (parts : List Layout) →
    (strokesAll parts).filterMap Stroke.lexeme? = lexemesAll parts
  | [] => rfl
  | part :: rest => by
      rw [strokesAll, List.filterMap_append, texts_strokes, texts_strokesAll, lexemesAll]

theorem texts_strokesBetween (separator : Option String) (first : Bool) :
    (items : List Layout) →
    (strokesBetween separator first items).filterMap Stroke.lexeme? =
      lexemesBetween separator first items
  | [] => rfl
  | item :: rest => by
      rw [strokesBetween, List.filterMap_append, List.filterMap_append, texts_strokes,
        texts_strokesBetween, lexemesBetween]
      cases first with
      | true => rfl
      | false => cases separator <;> rfl

end

/-- Whatever the choices, what is written are the lexemes of the layout. -/
theorem text_inks (o : FormatOptions) (l : Layout) : (l.inks o).map Ink.text = l.lexemes := by
  rw [← texts_strokes]
  unfold inks trail
  split
  · exact (loosens_moves o l {}).text_inks _ _
  · exact (loosens_strokes l.strokes).text_inks _ _

end Layout

/-! ### Gaps -/

namespace Ink

/-- The lexemes that show. What stands before a lexeme of no characters stands
before the next one. -/
def visible (pending : List Char) : List Ink → List Ink
  | [] => []
  | ink :: rest =>
    if ink.text = "" then visible (pending ++ ink.gap) rest
    else ⟨pending ++ ink.gap, ink.text⟩ :: visible [] rest

/-- The same lexeme, behind a gap if the other one stands behind a gap. -/
structure Spaced (a b : Ink) : Prop where
  text : b.text = a.text
  gap : a.gap ≠ [] → b.gap ≠ []

end Ink

namespace Writer

/-- How far the writer of the pretty form is from the writer of one line: it has
written nothing either, or something is between the last lexeme that shows and
the next one already, or both have just written the same lexeme. -/
inductive Gapped (w w' : Writer) (pending : List Char) : Prop
  | start (written : w.written = []) (written' : w'.written = []) (line : w'.atLineStart = false)
  | apart (between : pending ≠ [] ∨ w'.atLineStart = true)
      (blank : ∃ c rest, w'.written = c :: rest ∧ (c = ' ' ∨ c = '\n'))
  | joined {c : Char} {before before' : List Char} (written : w.written = c :: before)
      (written' : w'.written = c :: before') (line : w'.atLineStart = false)
      (colons : before'.head? = some ':' → before.head? = some ':')

/-- The writers of both forms in step. -/
structure InStep (w w' : Writer) (pending : List Char) : Prop where
  line : w.atLineStart = false
  tight : w'.tight = true → w.tight = true
  gapped : w.Gapped w' pending

variable {w w' v v' : Writer} {pending : List Char} {indentWidth indentWidth' : UInt64}

theorem Gapped.congr (h : Gapped w w' pending) (hw : v.written = w.written)
    (hw' : v'.written = w'.written) (hline : v'.atLineStart = w'.atLineStart) :
    Gapped v v' pending := by
  cases h with
  | start written written' line =>
      exact .start (hw.trans written) (hw'.trans written') (hline.trans line)
  | apart between blank => exact .apart (hline ▸ between) (hw' ▸ blank)
  | joined written written' line colons =>
      exact .joined (hw.trans written) (hw'.trans written') (hline.trans line) colons

/-- A lexeme is held close in the pretty form only if it is on one line. -/
theorem hugsAfter_of_joined {c : Char} {before before' : List Char}
    (hcolons : before'.head? = some ':' → before.head? = some ':')
    (h : hugsAfter (c :: before') = true) : hugsAfter (c :: before) = true := by
  unfold hugsAfter at h ⊢
  rcases Bool.or_eq_true_iff.1 h with hbracket | hcolon
  · exact Bool.or_eq_true_iff.2 (.inl hbracket)
  · refine Bool.or_eq_true_iff.2 (.inr ?_)
    have hhead : c = ':' ∧ before'.head? = some ':' := by
      cases before' with
      | nil => simp [List.isPrefixOf] at hcolon
      | cons d rest =>
          obtain ⟨hc, hd⟩ : ':' = c ∧ ':' = d := by simpa [List.isPrefixOf] using hcolon
          exact ⟨hc.symm, congrArg some hd.symm⟩
    have hbefore := hcolons hhead.2
    cases before with
    | nil => cases hbefore
    | cons d rest => simp [List.isPrefixOf, hhead.1, Option.some.inj hbefore]

/-- A blank that is needed on one line is needed in the pretty form. -/
theorem needsSpace_of_joined {c : Char} {before before' text : List Char} {tight tight' : Bool}
    (htight : tight' = true → tight = true)
    (hcolons : before'.head? = some ':' → before.head? = some ':')
    (h : needsSpace (c :: before) text tight = true) :
    needsSpace (c :: before') text tight' = true := by
  cases text with
  | nil => cases h
  | cons first rest =>
      unfold needsSpace at h ⊢
      rcases Bool.or_eq_true_iff.1 h with hcomment | hapart
      · exact Bool.or_eq_true_iff.2 (.inl hcomment)
      · simp only [Bool.and_eq_true, Bool.not_eq_true'] at hapart
        have hloose : tight' = false :=
          Bool.eq_false_iff.2 fun h => Bool.eq_false_iff.1 hapart.1.1 (htight h)
        have hafter : hugsAfter (c :: before') = false :=
          Bool.eq_false_iff.2 fun h =>
            Bool.eq_false_iff.1 hapart.2 (hugsAfter_of_joined hcolons h)
        simp [hloose, hafter, hapart.1.2]

theorem gap_of_atLineStart (hline : w.atLineStart = true) (text : String) :
    w.gap indentWidth text ≠ [] := by
  rw [gap, if_pos hline]
  exact List.cons_ne_nil _ _

theorem gap_empty (hline : w.atLineStart = false) : w.gap indentWidth "" = [] := by
  have hspace : needsSpace w.written [] w.tight = false := by
    cases hwritten : w.written <;> rfl
  simp [gap, hline, hspace]

theorem needsSpace_of_gap (hline : w.atLineStart = false) {text : String}
    (hgap : w.gap indentWidth text ≠ []) : needsSpace w.written text.toList w.tight = true := by
  by_contra hspace
  exact hgap (by simp [gap, hline, hspace])

/-- A lexeme is written behind blanks. -/
theorem exists_written_lexeme (w : Writer) (indentWidth : UInt64) (text : String) :
    ∃ count, (w.lexeme indentWidth text).written =
        text.toList.reverse ++ (List.replicate count ' ' ++ w.written) ∧
      (w.atLineStart = false → w.gap indentWidth text = List.replicate count ' ') := by
  unfold lexeme gap
  split
  next hline =>
    exact ⟨(indentation? w.level indentWidth).getD 0, by simp only [put, written_indent],
      fun h => absurd (hline.symm.trans h) nofun⟩
  · split
    · exact ⟨1, rfl, fun _ => rfl⟩
    · exact ⟨0, rfl, fun _ => rfl⟩

/-- A lexeme that stands behind a blank on one line stands apart in the pretty form. -/
theorem InStep.gap_ne_nil (h : InStep w w' pending) (text : String)
    (hgap : w.gap indentWidth text ≠ []) : pending ++ w'.gap indentWidth' text ≠ [] := by
  have hspace := needsSpace_of_gap h.line hgap
  cases h.gapped with
  | start written =>
      rw [written] at hspace
      cases hspace
  | apart between =>
      rcases between with hpending | hline
      · exact fun h => hpending (List.append_eq_nil_iff.1 h).1
      · exact fun h => gap_of_atLineStart hline text (List.append_eq_nil_iff.1 h).2
  | joined written written' line colons =>
      rw [written] at hspace
      have hspace' := needsSpace_of_joined h.tight colons hspace
      simp [gap, line, written', hspace']

/-- Both forms stay in step with a lexeme that shows. -/
theorem InStep.lexeme (h : InStep w w' pending) {text : String} (htext : text ≠ "") :
    InStep (w.lexeme indentWidth text) (w'.lexeme indentWidth' text) [] := by
  obtain ⟨count, hwritten, hcount⟩ := exists_written_lexeme w indentWidth text
  obtain ⟨count', hwritten', hcount'⟩ := exists_written_lexeme w' indentWidth' text
  have hchars : text.toList.reverse ≠ [] := fun h =>
    htext (String.toList_eq_nil_iff.1 (List.reverse_eq_nil_iff.1 h))
  refine ⟨rfl, nofun, ?_⟩
  cases hreverse : text.toList.reverse with
  | nil => exact absurd hreverse hchars
  | cons c chars =>
      rw [hreverse] at hwritten hwritten'
      refine .joined hwritten hwritten' rfl ?_
      cases chars with
      | cons => exact id
      -- a lexeme of one character can end two colons only where nothing is before it
      | nil =>
          intro hcolon
          cases count' with
          | succ => cases hcolon
          | zero =>
              cases h.gapped with
              | start written written' =>
                  rw [written'] at hcolon
                  cases hcolon
              | apart between blank =>
                  obtain ⟨d, rest, hrest, hd⟩ := blank
                  rw [hrest] at hcolon
                  obtain rfl : d = ':' := Option.some.inj hcolon
                  exact absurd hd (by decide)
              | @joined d before before' written written' line colons =>
                  rw [written'] at hcolon
                  have hstep : InStep w w' [] :=
                    ⟨h.line, h.tight, .joined written written' line colons⟩
                  have hgap : w.gap indentWidth text = [] := by
                    by_contra hgap
                    have hapart : [] ++ w'.gap indentWidth' text ≠ [] := hstep.gap_ne_nil text hgap
                    rw [List.nil_append, hcount' line] at hapart
                    exact hapart rfl
                  rw [written, ← hcount h.line, hgap]
                  exact hcolon

/-- Both forms stay in step with a lexeme that does not show. -/
theorem InStep.lexeme_empty (h : InStep w w' pending) :
    InStep (w.lexeme indentWidth "") (w'.lexeme indentWidth' "")
      (pending ++ w'.gap indentWidth' "") := by
  obtain ⟨count, hwritten, hcount⟩ := exists_written_lexeme w indentWidth ""
  obtain ⟨count', hwritten', hcount'⟩ := exists_written_lexeme w' indentWidth' ""
  refine ⟨rfl, nofun, ?_⟩
  have hblank {c : Char} (hc : c = ' ' ∨ c = '\n') (rest : List Char)
      (hrest : w'.written = c :: rest) :
      ∃ d rest, (w'.lexeme indentWidth' "").written = d :: rest ∧ (d = ' ' ∨ d = '\n') := by
    rw [hwritten', hrest]
    cases count' with
    | zero => exact ⟨c, rest, rfl, hc⟩
    | succ => exact ⟨_, _, rfl, .inl rfl⟩
  have hsame (hline : w'.atLineStart = false) :
      (w'.lexeme indentWidth' "").written = w'.written := by
    rw [hwritten', ← hcount' hline, gap_empty hline]
    rfl
  have hflat : (w.lexeme indentWidth "").written = w.written := by
    rw [hwritten, ← hcount h.line, gap_empty h.line]
    rfl
  cases h.gapped with
  | start written written' line =>
      exact .start (hflat.trans written) ((hsame line).trans written') rfl
  | apart between blank =>
      obtain ⟨c, rest, hrest, hc⟩ := blank
      refine .apart (.inl fun h => ?_) (hblank hc rest hrest)
      obtain ⟨hpending, hgap⟩ := List.append_eq_nil_iff.1 h
      exact between.elim (· hpending) fun hline => gap_of_atLineStart hline "" hgap
  | joined written written' line colons =>
      exact .joined (hflat.trans written) ((hsame line).trans written') rfl colons

theorem InStep.newline (h : InStep w w' pending) : InStep w w'.newline pending := by
  unfold Writer.newline
  split
  · exact h
  next hnewline =>
    refine ⟨h.line, h.tight, ?_⟩
    cases h.gapped with
    | start written written' => exact absurd (by simp [written']) hnewline
    | apart between => exact .apart (.inr rfl) ⟨_, _, rfl, .inr rfl⟩
    | joined => exact .apart (.inr rfl) ⟨_, _, rfl, .inr rfl⟩

end Writer

/-- Every gap on one line is a gap in the pretty form. -/
theorem Loosens.spaced {strokes : List Stroke} {moves : List Motion} (h : Loosens strokes moves)
    {w w' : Writer} {pending : List Char} (hstep : w.InStep w' pending)
    (indentWidth indentWidth' : UInt64) :
    List.Forall₂ Ink.Spaced (Ink.visible [] (w.inks indentWidth (strokes.map .stroke)))
      (Ink.visible pending (w'.inks indentWidth' moves)) := by
  induction h generalizing w w' pending with
  | nil => exact .nil
  | @same stroke strokes moves _ ih =>
      cases stroke with
      | text text =>
          rw [List.map_cons, Writer.inks, Writer.inks, Ink.visible, Ink.visible]
          dsimp only
          split
          next hempty =>
            subst hempty
            rw [Writer.gap_empty hstep.line]
            exact ih hstep.lexeme_empty
          next hshows =>
            exact .cons ⟨rfl, hstep.gap_ne_nil text⟩ (ih (hstep.lexeme hshows))
      | tight => exact ih ⟨hstep.line, fun _ => rfl, hstep.gapped.congr rfl rfl rfl⟩
  | loose _ ih =>
      exact ih (w := { w with tight := true })
        ⟨hstep.line, fun _ => rfl, hstep.gapped.congr rfl rfl rfl⟩
  | line _ ih => exact ih hstep.newline
  | level n _ ih => exact ih ⟨hstep.line, hstep.tight, hstep.gapped.congr rfl rfl rfl⟩

namespace Layout

/-- The lexemes are the same in both forms, and where one stands behind a blank
on one line something stands before it in the pretty form. -/
theorem visible_inks {o o' : FormatOptions} (ho : o.pretty = false) (ho' : o'.pretty = true)
    (l : Layout) :
    List.Forall₂ Ink.Spaced (Ink.visible [] (l.inks o)) (Ink.visible [] (l.inks o')) := by
  unfold inks trail
  rw [if_neg (by simp [ho]), if_pos ho']
  exact (loosens_moves o' l {}).spaced ⟨rfl, id, .start rfl rfl rfl⟩ _ _

end Layout

end DualSql
