import DualSql.Proofs.Lexer.Digest
import DualSql.Stream.TokenTree

/-! # Blocks and single brackets

A text can be delivered with its brackets as blocks or as punctuation. Both
runs find the same lexemes and end in the same way, and where one opens or
closes a block the other has the bracket. Only the blank before a closing
bracket is not told of a block.

Main definition: `Event.Flattens`. Main result: `lexEvents_flatten`. -/

namespace DualSql

/-- An event of a run with blocks and the event in its place when brackets are
punctuation. Of a closing bracket only the latter tells the blank before it. -/
inductive Event.Flattens : Event → Event → Prop
  | token (t : Token) : Flattens (.token t) (.token t)
  | opened (b : Bracket) (place : Position) (spaceBefore : Bool) :
      Flattens (.opened b place spaceBefore) (.token (Event.opened b place spaceBefore).flat)
  | closed (b : Bracket) (place : Position) (spaceBefore : Bool) :
      Flattens (.closed b place) (.token { (Event.closed b place).flat with spaceBefore })

namespace Scanner

/-- The scanner with brackets as punctuation and other events ready. -/
def flattened (s : Scanner) (ready : List Event) : Scanner :=
  { s with options := { s.options with structured := false }, ready }

/-- A scanner that delivers blocks, and the one that is in its place when
brackets are punctuation. -/
inductive Flattened (s : Scanner) : Scanner → Prop
  | intro (ready : List Event) (structured : s.options.structured = true)
      (flattens : List.Forall₂ Event.Flattens s.ready ready) : Flattened s (s.flattened ready)

namespace Flattened

variable {s f : Scanner}

theorem tokens (tokens : List Token) :
    List.Forall₂ Event.Flattens (tokens.map .token) (tokens.map .token) :=
  List.forall₂_same.2 fun e he => by
    obtain ⟨t, -, rfl⟩ := List.mem_map.1 he
    exact .token t

theorem ready (h : Flattened s f) : List.Forall₂ Event.Flattens s.ready f.ready := by
  cases h
  assumption

theorem wait (h : Flattened s f) (t : Token) : Flattened (s.wait t) (f.wait t) := by
  obtain ⟨ready, hs, hready⟩ := h
  exact .intro _ hs (List.rel_append hready (tokens _))

theorem flush (h : Flattened s f) : Flattened s.flush f.flush := by
  obtain ⟨ready, hs, hready⟩ := h
  exact .intro _ hs (List.rel_append hready (tokens _))

theorem deliver (h : Flattened s f) {e e' : Event} (he : e.Flattens e') :
    Flattened (s.deliver e) (f.deliver e') := by
  obtain ⟨ready, hs, hready⟩ := h
  exact .intro _ hs (List.rel_append (List.rel_append hready (tokens _)) (.cons he .nil))

theorem spacePending (h : Flattened s f) (spacePending : Bool) :
    Flattened { s with spacePending } { f with spacePending } := by
  obtain ⟨ready, hs, hready⟩ := h
  exact .intro ready hs hready

theorem nesting (h : Flattened s f) (nesting : List (Bracket × Position)) :
    Flattened { s with nesting } { f with nesting } := by
  obtain ⟨ready, hs, hready⟩ := h
  exact .intro ready hs hready

theorem stageContent (h : Flattened s f) (t : Token) :
    Flattened (s.stageContent t) (f.stageContent t) := by
  have hspace : f.spacePending = s.spacePending := by
    cases h
    rfl
  unfold Scanner.stageContent
  dsimp only
  rw [hspace]
  split
  · exact (h.spacePending false).wait _
  · exact (h.spacePending false).deliver (.token _)

theorem stage (h : Flattened s f) (t : Token) : Flattened (s.stage t) (f.stage t) := by
  have hoptions : f.options.emitWhitespace = s.options.emitWhitespace ∧
      f.options.emitComments = s.options.emitComments := by
    cases h
    exact ⟨rfl, rfl⟩
  unfold Scanner.stage
  split
  · dsimp only
    rw [hoptions.1]
    split
    · exact (h.spacePending true).wait t
    · exact h.spacePending true
  · dsimp only
    rw [hoptions.2]
    split
    · exact (h.spacePending true).deliver (.token t)
    · exact (h.spacePending true).flush
  · exact h.stageContent t

/-- No bracket is part of a phrase, so as punctuation too it is delivered at once. -/
theorem stageContent_punctuation (s : Scanner) (value : String) (place : Position) :
    s.stageContent { kind := .punctuation, value, position := place } =
      { s.deliver (.token
          { kind := .punctuation, value, position := place, spaceBefore := s.spacePending }) with
        spacePending := false } :=
  rfl

theorem openBlock (h : Flattened s f) (b : Bracket) (place : Position) :
    Flattened (s.openBlock b place) (f.openBlock b place) := by
  obtain ⟨ready, hs, hready⟩ := h
  have h : Flattened { s with nesting := (b, place) :: s.nesting } _ := .intro ready hs hready
  simp only [Scanner.openBlock, hs, if_true, stageContent_punctuation]
  exact (h.deliver (.opened b place s.spacePending)).spacePending false

theorem closeBlock (h : Flattened s f) (b : Bracket) (place : Position) :
    Flattened (s.closeBlock b place) (f.closeBlock b place) := by
  obtain ⟨ready, hs, hready⟩ := h
  have h : Flattened { s with nesting := s.nesting.tail } _ := .intro ready hs hready
  simp only [Scanner.closeBlock, hs, if_true, stageContent_punctuation]
  exact (h.deliver (.closed b place s.spacePending)).spacePending false

end Flattened

/-- Scanners that differ in how they deliver brackets stay in step. -/
theorem simulation_flattened : Simulation Flattened where
  unread h := by cases h; rfl
  position h := by cases h; rfl
  nesting h := by cases h; rfl
  lexeme h := by
    cases h
    exact lexeme_context rfl rfl rfl rfl rfl
  stage t h := h.stage t
  openBlock b place h := h.openBlock b place
  closeBlock b place h := h.closeBlock b place
  skip c rest width h := by
    obtain ⟨ready, hs, hready⟩ := h
    exact .intro ready hs hready
  flush h := h.flush

end Scanner

/-- A run with blocks and a run with brackets as punctuation end in the same
way, and their events correspond one to one. If no error is met, the blocks nest. -/
theorem lexEvents_flatten (d : Dialect) (options : LexOptions) (chunks : List String) :
    let blocks := lexEvents d { options with structured := true } chunks
    let flat := lexEvents d { options with structured := false } chunks
    flat.2 = blocks.2 ∧ List.Forall₂ Event.Flattens blocks.1 flat.1 ∧
      (blocks.2 = none → Event.nest [] blocks.1 = some []) := by
  intro blocks flat
  have hstart : Scanner.Flattened
      (.completed { dialect := d, options := { options with structured := true } }
        (String.join chunks))
      (.completed { dialect := d, options := { options with structured := false } }
        (String.join chunks)) :=
    .intro [] rfl .nil
  obtain ⟨hready, hend⟩ := Scanner.simulation_flattened.digest hstart
  have hblocks : blocks = _ := lexEvents_eq d { options with structured := true } chunks
  have hflat : flat = _ := lexEvents_eq d { options with structured := false } chunks
  refine ⟨?_, ?_, ?_⟩
  · rw [hblocks, hflat]
    exact hend
  · rw [hblocks, hflat]
    exact hready.ready
  · intro hnone
    have hstructured : { options with structured := true }.structured = true := rfl
    obtain ⟨-, inner, hnest, hinner⟩ := lexEvents_nest d hstructured chunks
    rw [hinner hnone] at hnest
    exact hnest

end DualSql
