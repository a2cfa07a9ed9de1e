import DualSql.Layout

/-! # Lexemes that stand close together

On one line a layout is written as a sequence of strokes: a text, or the mark
that the blank before the next text is left out. Where no blank is written
between two texts they meet at a joint.

Main definitions: `Layout.strokes`, `Layout.joints`. Main results:
`Layout.writeFlat_eq`, `Layout.exists_of_mem_joints`. -/

namespace DualSql

/-- What is done to write a layout on one line. -/
inductive Stroke where
  | text (text : String)
  /-- The blank before the next text is left out. -/
  | tight
  deriving DecidableEq, Repr

/-- Does one stroke. -/
def Writer.stroke (indentWidth : UInt64) (w : Writer) : Stroke → Writer
  | .text text => w.lexeme indentWidth text
  | .tight => { w with tight := true }

namespace Layout

mutual

/-- The strokes in their order. -/
def strokes : Layout → List Stroke
  | lexeme text => [.text text]
  | tight => [.tight]
  | line => []
  | nested body => body.strokes
  | sequence parts => strokesAll parts
  | list _ tightFirst separator items =>
    (if tightFirst && !items.isEmpty then [.tight] else []) ++ strokesBetween separator true items

/-- The strokes of several parts. -/
def strokesAll : List Layout → List Stroke
  | [] => []
  | part :: rest => part.strokes ++ strokesAll rest

/-- The strokes of items, each but the first after a separator. -/
def strokesBetween (separator : Option String) (first : Bool) : List Layout → List Stroke
  | [] => []
  | item :: rest =>
    (if first then [] else (separator.map Stroke.text).toList) ++ item.strokes ++
      strokesBetween separator false rest

end

mutual

/-- Writing on one line is doing the strokes. -/
theorem writeFlat_eq (indentWidth : UInt64) : (l : Layout) → (w : Writer) →
    writeFlat indentWidth w l = l.strokes.foldl (Writer.stroke indentWidth) w
  | lexeme _, _ | tight, _ | line, _ => rfl
  | nested body, w => writeFlat_eq indentWidth body w
  | sequence parts, w => writeFlatAll_eq indentWidth parts w
  | list _ tightFirst separator items, w => by
      rw [strokes, writeFlat, List.foldl_append]
      split
      · exact writeFlatItems_eq indentWidth separator true items _
      · exact writeFlatItems_eq indentWidth separator true items w

theorem writeFlatAll_eq (indentWidth : UInt64) : (parts : List Layout) → (w : Writer) →
    writeFlatAll indentWidth w parts = (strokesAll parts).foldl (Writer.stroke indentWidth) w
  | [], _ => rfl
  | part :: rest, w => by
      rw [writeFlatAll, writeFlatAll_eq, writeFlat_eq, strokesAll, List.foldl_append]

theorem writeFlatItems_eq (indentWidth : UInt64) (separator : Option String) (first : Bool) :
    (items : List Layout) → (w : Writer) →
    writeFlatItems indentWidth separator first w items =
      (strokesBetween separator first items).foldl (Writer.stroke indentWidth) w
  | [], _ => rfl
  | item :: rest, w => by
      rw [writeFlatItems, writeFlatItems_eq, writeFlat_eq, strokesBetween, List.foldl_append,
        List.foldl_append]
      congr 2
      cases first with
      | true => rfl
      | false => cases separator <;> rfl

end

mutual

/-- The texts among the strokes are the lexemes. -/
theorem mem_lexemes {text : String} : (l : Layout) → .text text ∈ l.strokes → text ∈ l.lexemes
  | lexeme _, h => by simpa [strokes, lexemes] using h
  | tight, h | line, h => by simp [strokes] at h
  | nested body, h => mem_lexemes body h
  | sequence parts, h => mem_lexemesAll parts h
  | list _ tightFirst separator items, h => by
      refine mem_lexemesBetween separator true items ?_
      rw [strokes] at h
      split at h
      · simpa using h
      · exact h

theorem mem_lexemesAll {text : String} : (parts : List Layout) →
    .text text ∈ strokesAll parts → text ∈ lexemesAll parts
  | [], h => by cases h
  | part :: rest, h => by
      rw [lexemesAll]
      rcases List.mem_append.1 h with hpart | hrest
      · exact List.mem_append_left _ (mem_lexemes part hpart)
      · exact List.mem_append_right _ (mem_lexemesAll rest hrest)

theorem mem_lexemesBetween {text : String} (separator : Option String) (first : Bool) :
    (items : List Layout) → .text text ∈ strokesBetween separator first items →
    text ∈ lexemesBetween separator first items
  | [], h => by cases h
  | item :: rest, h => by
      rw [lexemesBetween]
      rcases List.mem_append.1 h with hhere | hrest
      · refine List.mem_append_left _ ((List.mem_append.1 hhere).elim (fun hbefore => ?_) fun hitem =>
          List.mem_append_right _ (mem_lexemes item hitem))
        refine List.mem_append_left _ ?_
        cases first with
        | true => cases hbefore
        | false => simpa using hbefore
      · exact List.mem_append_right _ (mem_lexemesBetween separator false rest hrest)

end

/-- The pairs of texts that are written one directly behind the other, after
what a writer has written, of which the given text is the last. -/
def jointsFrom (w : Writer) (last : Option String) : List Stroke → List (String × String)
  | [] => []
  | .tight :: rest => jointsFrom (w.stroke 0 .tight) last rest
  | .text b :: rest =>
    let here :=
      if (w.lexeme 0 b).written = b.toList.reverse ++ w.written then last.toList.map (·, b) else []
    here ++ jointsFrom (w.lexeme 0 b) (some b) rest

/-- The pairs of lexemes with no blank between them, on one line. -/
def joints (l : Layout) : List (String × String) :=
  jointsFrom {} none l.strokes

end Layout

namespace Writer

variable {w : Writer}

/-- What a lexeme adds, on a line that has begun. -/
theorem written_lexeme (hline : w.atLineStart = false) (text : String) :
    (w.lexeme 0 text).written = text.toList.reverse ++
      ((if needsSpace w.written text.toList w.tight then [' '] else []) ++ w.written) := by
  simp only [lexeme, hline, Bool.false_eq_true, if_false]
  split <;> rfl

theorem needsSpace_of_written (hline : w.atLineStart = false) {text : String}
    (h : (w.lexeme 0 text).written = text.toList.reverse ++ w.written) :
    needsSpace w.written text.toList w.tight = false := by
  rw [written_lexeme hline] at h
  cases hspace : needsSpace w.written text.toList w.tight with
  | false => rfl
  | true =>
      rw [hspace] at h
      exact absurd (List.append_cancel_left h) (List.cons_ne_self _ _)

end Writer

namespace Layout

/-- No blank stands between two texts if none is needed behind the first, and
nothing but marks stands between them. -/
theorem exists_of_mem_jointsFrom {w : Writer} {last : Option String} {strokes : List Stroke}
    {a b : String} (hline : w.atLineStart = false) (h : (a, b) ∈ jointsFrom w last strokes) :
    (∃ count after, strokes = List.replicate count .tight ++ .text b :: after ∧ last = some a ∧
      Writer.needsSpace w.written b.toList (w.tight || decide (0 < count)) = false) ∨
    ∃ before count after earlier,
      strokes = before ++ .text a :: (List.replicate count .tight ++ .text b :: after) ∧
        Writer.needsSpace (a.toList.reverse ++ earlier) b.toList (decide (0 < count)) = false := by
  induction strokes generalizing w last with
  | nil => cases h
  | cons stroke strokes ih =>
      cases stroke with
      | tight =>
          rw [jointsFrom] at h
          rcases ih (w := w.stroke 0 .tight) hline h with
            ⟨count, after, rfl, rfl, hspace⟩ | ⟨before, count, after, earlier, rfl, hspace⟩
          · refine .inl ⟨count + 1, after, rfl, rfl, ?_⟩
            rw [decide_eq_true (Nat.succ_pos count), Bool.or_true]
            rwa [Writer.stroke, Bool.true_or] at hspace
          · exact .inr ⟨.tight :: before, count, after, earlier, rfl, hspace⟩
      | text c =>
          rw [jointsFrom] at h
          rcases List.mem_append.1 h with hhere | hlater
          · split at hhere
            next hwritten =>
              cases last with
              | none => cases hhere
              | some last =>
                  obtain ⟨rfl, rfl⟩ : a = last ∧ b = c := by simpa using hhere
                  refine .inl ⟨0, strokes, rfl, rfl, ?_⟩
                  rw [decide_eq_false (Nat.lt_irrefl 0), Bool.or_false]
                  exact Writer.needsSpace_of_written hline hwritten
            next => cases hhere
          · rcases ih (w := w.lexeme 0 c) rfl hlater with
              ⟨count, after, rfl, hlast, hspace⟩ | ⟨before, count, after, earlier, rfl, hspace⟩
            · obtain rfl : c = a := Option.some.inj hlast
              rw [Writer.written_lexeme hline] at hspace
              exact .inr ⟨[], count, after, _, rfl, hspace⟩
            · exact .inr ⟨.text c :: before, count, after, earlier, rfl, hspace⟩

/-- Two texts with no blank between them stand next to each other, and none is
needed there. -/
theorem exists_of_mem_joints {l : Layout} {a b : String} (h : (a, b) ∈ l.joints) :
    ∃ before count after earlier,
      l.strokes = before ++ .text a :: (List.replicate count .tight ++ .text b :: after) ∧
        Writer.needsSpace (a.toList.reverse ++ earlier) b.toList (decide (0 < count)) = false := by
  rcases exists_of_mem_jointsFrom rfl h with ⟨-, -, -, hlast, -⟩ | hfound
  · cases hlast
  · exact hfound

end Layout

end DualSql
