import DualSql.Stream.TokenTree

/-! # The line of a stream

A stream knows some of its items, and the rest is still in the lexing run or
in the open blocks of it. The line of a stream is everything that its level
will ever have, consumed items included, whoever draws it and in whatever
order: the trees of the known items, followed by the trees that the run still
has for the level.

Main definitions: `Queue.level` and `Stream.line`. Main result:
`Stream.line_absorb`, drawing an event does not change the line.

## Implementation notes

The contents of an open block come out of the same run as what follows the
block, so a line says where it ends: before the rest of the run, or at an
error. An error ends all levels that are open at that point. -/

namespace DualSql

/-- What is still to be drawn from a lexing run. -/
abbrev Queue := List (Except LexError Event)

/-- Trees of one level and what comes after them in the run. -/
structure Span where
  trees : List TokenTree
  ending : Except LexError Queue

namespace Span

/-- The trees as the contents of a block. -/
def enclosed (t : Token) (s : Span) : Span :=
  ⟨[.block t s.trees], s.ending⟩

/-- Goes on behind the trees, unless an error ended them. -/
def andThen (s : Span) (more : Queue → Span) : Span :=
  match s.ending with
  | .error e => ⟨s.trees, .error e⟩
  | .ok rest => ⟨s.trees ++ (more rest).trees, (more rest).ending⟩

@[simp] theorem andThen_ok (trees : List TokenTree) (rest : Queue) (more : Queue → Span) :
    andThen ⟨trees, .ok rest⟩ more = ⟨trees ++ (more rest).trees, (more rest).ending⟩ := rfl

@[simp] theorem andThen_error (trees : List TokenTree) (e : LexError) (more : Queue → Span) :
    andThen ⟨trees, .error e⟩ more = ⟨trees, .error e⟩ := rfl

/-- The trees before a continuation stay in front of it. -/
theorem trees_andThen_prefix (s : Span) (more : Queue → Span) :
    ∃ rest, (s.andThen more).trees = s.trees ++ rest := by
  unfold andThen
  split
  · exact ⟨[], by simp⟩
  · exact ⟨_, rfl⟩

/-- The number of trees and of events behind them. -/
def size (s : Span) : Nat :=
  s.trees.length + s.ending.toOption.elim 0 List.length

theorem size_error (trees : List TokenTree) (e : LexError) :
    size ⟨trees, .error e⟩ = trees.length := rfl

theorem size_ok (trees : List TokenTree) (rest : Queue) :
    size ⟨trees, .ok rest⟩ = trees.length + rest.length := rfl

end Span

namespace Queue

/-- The trees of one level, with the fact that each takes an event. -/
def levelWithin (last : Option LexError) (q : Queue) : { s : Span // s.size ≤ q.length } :=
  match q with
  | [] => ⟨⟨[], last.elim (.ok []) .error⟩, by cases last <;> exact Nat.le_refl 0⟩
  | .error e :: _ => ⟨⟨[], .error e⟩, Nat.zero_le _⟩
  | .ok (.closed ..) :: rest => ⟨⟨[], .ok rest⟩, by
      rw [Span.size_ok, List.length_nil, List.length_cons]
      omega⟩
  | .ok (.token t) :: rest =>
    let span := levelWithin last rest
    ⟨⟨.leaf t :: span.1.trees, span.1.ending⟩, by
      have := span.2
      simp only [Span.size, List.length_cons] at this ⊢
      omega⟩
  | .ok (.opened b position spaceBefore) :: rest =>
    let opening := Token.ofBracket b position spaceBefore
    match levelWithin last rest with
    | ⟨⟨inner, .error e⟩, _⟩ =>
      ⟨⟨[.block opening inner], .error e⟩, by
        rw [Span.size_error, List.length_singleton, List.length_cons]
        omega⟩
    | ⟨⟨inner, .ok after⟩, within⟩ =>
      have shorter : after.length ≤ rest.length := by
        rw [Span.size_ok] at within
        omega
      let span := levelWithin last after
      ⟨⟨.block opening inner :: span.1.trees, span.1.ending⟩, by
        have := span.2
        simp only [Span.size, List.length_cons] at this ⊢
        omega⟩
termination_by q.length
decreasing_by
  all_goals simp only [List.length_cons]
  all_goals omega

/-- The trees of one level, up to the bracket that closes it or the end of the
run, with what follows them. -/
def level (last : Option LexError) (q : Queue) : Span :=
  (levelWithin last q).1

variable (last : Option LexError) (q : Queue)

@[simp] theorem level_nil : level last [] = ⟨[], last.elim (.ok []) .error⟩ := by
  rw [level, levelWithin]

@[simp] theorem level_error (e : LexError) : level last (.error e :: q) = ⟨[], .error e⟩ := by
  rw [level, levelWithin]

@[simp] theorem level_closed (b : Bracket) (p : Position) :
    level last (.ok (.closed b p) :: q) = ⟨[], .ok q⟩ := by
  rw [level, levelWithin]

@[simp] theorem level_token (t : Token) : level last (.ok (.token t) :: q) =
    ⟨.leaf t :: (level last q).trees, (level last q).ending⟩ := by
  rw [level, levelWithin]
  rfl

@[simp] theorem level_opened (b : Bracket) (p : Position) (spaceBefore : Bool) :
    level last (.ok (.opened b p spaceBefore) :: q) =
      ((level last q).enclosed (Token.ofBracket b p spaceBefore)).andThen (level last) := by
  rw [level, levelWithin]
  simp only [level, Span.enclosed, Span.andThen]
  split
  next inner e h heq => simp [heq]
  next inner after h heq => simp [heq]

/-- A level takes an event of the run for each of its trees. -/
theorem size_level_le : (level last q).size ≤ q.length :=
  (levelWithin last q).2

end Queue

namespace Stream

/-- The items that are known, in their order. -/
def known (s : Stream) : List Cell :=
  s.behind.reverse ++ s.ahead

/-- Whether the run may still bring something for this level. -/
def isArriving (s : Stream) : Bool :=
  match s.supply with
  | .lexed _ finished => !finished
  | .given => false

theorem sizeOf_lt_of_mem {s : Stream} {c : Cell} (h : c ∈ s.known ++ s.unseen) :
    sizeOf c < sizeOf s := by
  simp only [known, List.mem_append, List.mem_reverse] at h
  cases s
  rcases h with (h | h) | h <;>
  · have := List.sizeOf_lt_of_mem h
    simp at this ⊢
    omega

theorem sizeOf_contents_lt {s x : Stream} {t : Token} (h : Cell.block t x ∈ s.known ++ s.unseen) :
    sizeOf x < sizeOf s := by
  have := sizeOf_lt_of_mem h
  simp at this
  omega

/-- Everything that the level of a stream will ever have, given the run behind it. -/
def line (last : Option LexError) (q : Queue) (s : Stream) : Span :=
  let trees := (s.known ++ s.unseen).attach.map fun ⟨c, mem⟩ =>
    match c, mem with
    | .leaf t, _ => .leaf t
    | .block t x, _ => .block t (line last q x).trees
  if s.isArriving then
    match _open : s.openBlock? with
    | none => Span.andThen ⟨trees, .ok q⟩ (Queue.level last)
    | some (_, x) => Span.andThen ⟨trees, (line last q x).ending⟩ (Queue.level last)
  else ⟨trees, .ok q⟩
termination_by sizeOf s
decreasing_by
  · exact sizeOf_contents_lt (by assumption)
  · exact sizeOf_openBlock_lt _open

end Stream

namespace Cell

/-- The tree of a cell, given the run behind it. -/
def tree (last : Option LexError) (q : Queue) : Cell → TokenTree
  | leaf t => .leaf t
  | block t x => .block t (Stream.line last q x).trees

@[simp] theorem token_tree (last : Option LexError) (q : Queue) (c : Cell) :
    (c.tree last q).token = c.token := by
  cases c <;> rfl

end Cell

namespace Stream

variable {last : Option LexError} {q : Queue} {s : Stream}

/-- The trees of the items that are known or were given. -/
def trees (last : Option LexError) (q : Queue) (s : Stream) : List TokenTree :=
  (s.known ++ s.unseen).map (Cell.tree last q)

theorem line_eq (last : Option LexError) (q : Queue) (s : Stream) :
    s.line last q =
      if s.isArriving then
        Span.andThen ⟨s.trees last q, s.openBlock?.elim (.ok q) fun b => (b.2.line last q).ending⟩
          (Queue.level last)
      else ⟨s.trees last q, .ok q⟩ := by
  have htrees : ((s.known ++ s.unseen).attach.map fun ⟨c, mem⟩ =>
      match c, mem with
      | .leaf t, _ => TokenTree.leaf t
      | .block t x, _ => TokenTree.block t (line last q x).trees) = s.trees last q := by
    refine Eq.trans (List.map_congr_left ?_)
      (List.attach_map_val (l := s.known ++ s.unseen) (f := Cell.tree last q))
    rintro ⟨c, mem⟩ -
    cases c <;> rfl
  rw [line]
  simp only [htrees]
  split
  · split
    next h => simp [h]
    next h => simp [h]
  · rfl

/-! ### Known items -/

theorem setLast_eq {α : Type} (x : α) {l : List α} (h : l ≠ []) :
    setLast x l = l.dropLast ++ [x] := by
  induction l using setLast.induct with
  | case1 => exact absurd rfl h
  | case2 => rfl
  | case3 a b rest ih => simp [setLast, ih]

theorem latest?_eq (s : Stream) : s.latest? = s.known.getLast? := by
  unfold latest? known
  cases h : s.ahead.getLast? with
  | none => simp_all [List.getLast?_eq_none_iff]
  | some c => simp [List.getLast?_append, h]

theorem known_setLatest (c : Cell) (h : s.known ≠ []) :
    (s.setLatest c).known = s.known.dropLast ++ [c] := by
  unfold setLatest
  split
  next x rest ha hb => simp [known, ha, hb]
  next hne =>
    have ha : s.ahead ≠ [] := by
      intro ha
      cases hb : s.behind with
      | nil => simp [known, ha, hb] at h
      | cons x rest => exact hne x rest ha hb
    simp [known, setLast_eq c ha, List.dropLast_append_of_ne_nil ha]

@[simp] theorem known_append (c : Cell) : (s.append c).known = s.known ++ [c.setLocked true] := by
  simp [known, append]

@[simp] theorem unseen_setLatest (c : Cell) : (s.setLatest c).unseen = s.unseen := by
  unfold setLatest
  split <;> rfl

@[simp] theorem supply_setLatest (c : Cell) : (s.setLatest c).supply = s.supply := by
  unfold setLatest
  split <;> rfl

@[simp] theorem done_setLatest (c : Cell) : (s.setLatest c).done = s.done := by
  unfold setLatest
  split <;> rfl

@[simp] theorem locked_setLatest (c : Cell) : (s.setLatest c).locked = s.locked := by
  unfold setLatest
  split <;> rfl

theorem openBlock?_eq_some {t : Token} {x : Stream} :
    s.openBlock? = some (t, x) ↔
      s.supply = .lexed true false ∧ s.known.getLast? = some (.block t x) := by
  unfold openBlock?
  rw [latest?_eq]
  split <;> simp_all

/-- An open block is the last of the known items. -/
theorem known_eq_of_openBlock {t : Token} {x : Stream} (h : s.openBlock? = some (t, x)) :
    s.known = s.known.dropLast ++ [.block t x] := by
  have hl := (openBlock?_eq_some.1 h).2
  obtain ⟨l, hl'⟩ := List.getLast?_eq_some_iff.1 hl
  simp [hl']

theorem openBlock?_setLatest {t : Token} {x y : Stream} (h : s.openBlock? = some (t, x)) :
    (s.setLatest (.block t y)).openBlock? = some (t, y) := by
  have hk := known_eq_of_openBlock h
  rw [openBlock?_eq_some, known_setLatest _ (by rw [hk]; simp)]
  exact ⟨by simpa using (openBlock?_eq_some.1 h).1, by simp⟩

/-! ### Streams in good order -/

/-- The two ways of supply do not mix, and a stream that is done has nothing left. -/
structure Consistent (s : Stream) : Prop where
  lexed : s.supply ≠ .given → s.unseen = []
  done : s.done = true → s.isArriving = false ∧ s.unseen = []

end Stream

/-- A cell with nothing in it that is still arriving. -/
inductive Cell.Settled : Cell → Prop
  | leaf (t : Token) : Settled (.leaf t)
  | block (t : Token) {x : Stream} (consistent : x.Consistent) (shut : x.isArriving = false)
      (cells : ∀ c ∈ x.known ++ x.unseen, Settled c) : Settled (.block t x)

/-- A stream in which only the open blocks of the run are still arriving, each
of them the latest item of its level. -/
inductive Stream.Tidy : Stream → Prop
  | closed {s : Stream} (consistent : s.Consistent) (none : s.openBlock? = none)
      (cells : ∀ c ∈ s.known ++ s.unseen, c.Settled) : Tidy s
  | opened {s : Stream} (consistent : s.Consistent) {t : Token} {x : Stream}
      (some : s.openBlock? = some (t, x)) (lexed : x.supply ≠ .given) (tidy : Tidy x)
      (cells : ∀ c ∈ s.known.dropLast, c.Settled) : Tidy s

namespace Stream

variable {last : Option LexError} {q : Queue} {s : Stream}

theorem Tidy.consistent (h : s.Tidy) : s.Consistent := by
  cases h with
  | closed consistent _ _ => exact consistent
  | opened consistent _ _ _ _ => exact consistent

theorem openBlock?_of_shut (h : s.isArriving = false) : s.openBlock? = none := by
  unfold openBlock? isArriving at *
  split <;> simp_all

theorem isArriving_of_openBlock {t : Token} {x : Stream} (h : s.openBlock? = some (t, x)) :
    s.isArriving = true := by
  simp [isArriving, (openBlock?_eq_some.1 h).1]

theorem tidy_of_settled {t : Token} (h : (Cell.block t s).Settled) : s.Tidy := by
  cases h with
  | block _ consistent shut cells => exact .closed consistent (openBlock?_of_shut shut) cells

theorem Tidy.cells (h : s.Tidy) (shut : s.isArriving = false) :
    ∀ c ∈ s.known ++ s.unseen, c.Settled := by
  cases h with
  | closed _ _ cells => exact cells
  | opened _ some _ _ _ => simp [openBlock?_of_shut shut] at some

theorem settled_of_tidy (t : Token) (h : s.Tidy) (shut : s.isArriving = false) :
    (Cell.block t s).Settled :=
  .block t h.consistent shut (h.cells shut)

theorem line_of_shut (h : s.isArriving = false) : s.line last q = ⟨s.trees last q, .ok q⟩ := by
  rw [line_eq, h]
  rfl

end Stream

namespace Cell

/-- The tree of a settled cell does not depend on the run. -/
theorem Settled.tree_eq {c : Cell} (h : c.Settled) (last last' : Option LexError)
    (q q' : Queue) : c.tree last q = c.tree last' q' := by
  induction h with
  | leaf t => rfl
  | @block t x consistent shut cells ih =>
      have htrees : Stream.trees last q x = Stream.trees last' q' x := List.map_congr_left ih
      simp only [tree, Stream.line_of_shut shut, htrees]

end Cell

namespace Stream

variable {last : Option LexError} {q : Queue} {s : Stream}

/-! ### Drawing events -/

theorem isFinished_eq (h : s.supply ≠ .given) : s.isFinished = !s.isArriving := by
  unfold isFinished isArriving
  cases hs : s.supply with
  | given => exact absurd hs h
  | lexed blockOpen finished => simp

@[simp] theorem unseen_absorbHere (e : Event) : (s.absorbHere e).unseen = s.unseen := by
  cases e <;> rfl

/-- The contents of a block that has just been opened. -/
def justOpened : Stream :=
  { lexing with locked := true }

@[simp] theorem line_justOpened : justOpened.line last q = Queue.level last q := by
  rw [line_eq]
  rfl

theorem known_absorbHere (e : Event) : (s.absorbHere e).known = s.known ++
    match e with
    | .token t => [.leaf t]
    | .opened b position spaceBefore => [.block (Token.ofBracket b position spaceBefore) justOpened]
    | .closed .. => [] := by
  cases e with
  | token t => exact known_append (s := s) (.leaf t)
  | opened b position spaceBefore =>
      exact known_append (s := s) (.block (Token.ofBracket b position spaceBefore) lexing)
  | closed b position => simp [known, absorbHere]

theorem openBlock?_absorbHere_opened (b : Bracket) (position : Position) (spaceBefore : Bool) :
    (s.absorbHere (.opened b position spaceBefore)).openBlock? =
      some (Token.ofBracket b position spaceBefore, justOpened) := by
  rw [openBlock?_eq_some, known_absorbHere]
  exact ⟨rfl, by simp⟩

/-- An event that a level takes itself is the first of what the run has for it. -/
theorem line_absorbHere (e : Event) (hu : s.unseen = []) (hc : ∀ c ∈ s.known, c.Settled) :
    (s.absorbHere e).line last q =
      Span.andThen ⟨s.trees last (.ok e :: q), .ok (.ok e :: q)⟩ (Queue.level last) := by
  have htrees : s.trees last (.ok e :: q) = s.known.map (Cell.tree last q) := by
    rw [trees, hu, List.append_nil]
    exact List.map_congr_left fun c hm => (hc c hm).tree_eq ..
  have hnew := known_absorbHere (s := s) e
  rw [line_eq, htrees]
  cases e with
  | token t =>
      have hopen : (s.absorbHere (.token t)).openBlock? = none := rfl
      have harr : (s.absorbHere (.token t)).isArriving = true := rfl
      simp [trees, hnew, hu, hopen, harr, Cell.tree]
  | opened b position spaceBefore =>
      have harr := isArriving_of_openBlock
        (openBlock?_absorbHere_opened (s := s) b position spaceBefore)
      simp only [trees, hnew, unseen_absorbHere, hu, harr, openBlock?_absorbHere_opened]
      simp only [List.append_nil, List.map_append, List.map_cons, List.map_nil, Cell.tree,
        line_justOpened, Span.andThen_ok, Queue.level_opened, Span.enclosed, Option.elim_some,
        if_true]
      cases h : (Queue.level last q).ending <;> simp [Span.andThen]
  | closed b position =>
      have harr : (s.absorbHere (.closed b position)).isArriving = false := rfl
      simp [trees, hnew, hu, harr]

theorem known_ne_nil_of_openBlock {t : Token} {x : Stream} (h : s.openBlock? = some (t, x)) :
    s.known ≠ [] := by
  rw [known_eq_of_openBlock h]
  simp

theorem absorb_of_none (e : Event) (h : s.openBlock? = none) : s.absorb e = s.absorbHere e := by
  rw [absorb]
  split
  next => rfl
  next t x h' => simp [h] at h'

theorem absorb_of_some (e : Event) {t : Token} {x : Stream} (h : s.openBlock? = some (t, x)) :
    s.absorb e =
      if x.isFinished then (s.setLatest (.block t { x with done := true })).absorbHere e
      else s.setLatest (.block t (x.absorb e)) := by
  rw [absorb]
  split
  next h' => simp [h] at h'
  next t' x' h' =>
    obtain ⟨rfl, rfl⟩ : t = t' ∧ x = x' := by simpa [h] using h'
    rfl

/-- The line of a stream with an open block goes on where that of the block ends. -/
theorem line_of_openBlock {t : Token} {x : Stream} (h : s.openBlock? = some (t, x))
    (hu : s.unseen = []) :
    s.line last q =
      Span.andThen ⟨s.known.dropLast.map (Cell.tree last q) ++ [.block t (x.line last q).trees],
        (x.line last q).ending⟩ (Queue.level last) := by
  have htrees : s.trees last q =
      s.known.dropLast.map (Cell.tree last q) ++ [.block t (x.line last q).trees] := by
    have hk := congrArg (List.map (Cell.tree last q)) (known_eq_of_openBlock h)
    rw [trees, hu, List.append_nil, hk]
    simp [Cell.tree]
  rw [line_eq, isArriving_of_openBlock h, h, htrees]
  rfl

/-- What happens inside an open block does not concern the level around it, as
long as the line inside stays the same. -/
theorem line_setLatest {t : Token} {x y : Stream} {q' : Queue} (h : s.openBlock? = some (t, x))
    (hu : s.unseen = []) (hc : ∀ c ∈ s.known.dropLast, c.Settled)
    (hxy : y.line last q' = x.line last q) :
    (s.setLatest (.block t y)).line last q' = s.line last q := by
  have htrees : s.known.dropLast.map (Cell.tree last q') = s.known.dropLast.map (Cell.tree last q) :=
    List.map_congr_left fun c hm => (hc c hm).tree_eq ..
  rw [line_of_openBlock (openBlock?_setLatest h) (by simpa using hu), line_of_openBlock h hu,
    known_setLatest _ (known_ne_nil_of_openBlock h), List.dropLast_concat, htrees, hxy]

theorem line_done (done : Bool) : line last q { s with done } = s.line last q := by
  rw [line_eq, line_eq last q s]
  rfl

theorem Tidy.done (h : s.Tidy) (shut : s.isArriving = false) (hu : s.unseen = []) :
    Tidy { s with done := true } := by
  have consistent : Consistent { s with done := true } := ⟨fun _ => hu, fun _ => ⟨shut, hu⟩⟩
  cases h with
  | closed _ none cells => exact .closed consistent none cells
  | opened _ some lexed tidy cells => exact .opened consistent some lexed tidy cells

theorem lexed_of_isArriving (h : s.isArriving = true) : s.supply ≠ .given := by
  intro hg
  simp [isArriving, hg] at h

/-- The cells of a level whose open block has come to its end. -/
theorem settled_setLatest {t : Token} {x : Stream} (h : s.openBlock? = some (t, x))
    (hc : ∀ c ∈ s.known.dropLast, c.Settled) {y : Stream} (hy : (Cell.block t y).Settled) :
    ∀ c ∈ (s.setLatest (.block t y)).known, c.Settled := by
  rw [known_setLatest _ (known_ne_nil_of_openBlock h)]
  intro c hm
  rcases List.mem_append.1 hm with hm | hm
  · exact hc c hm
  · exact List.mem_singleton.1 hm ▸ hy

/-- Drawing an event into a stream does not change its line. -/
theorem line_absorb (e : Event) (h : s.Tidy) (harr : s.isArriving = true) :
    (s.absorb e).line last q = s.line last (.ok e :: q) := by
  induction h with
  | @closed s consistent none cells =>
      rw [absorb_of_none e none, line_eq last (.ok e :: q) s, harr, none,
        line_absorbHere e (consistent.lexed (lexed_of_isArriving harr))
          fun c hm => cells c (List.mem_append_left _ hm)]
      rfl
  | @opened s consistent t x some lexed tidy cells ih =>
      have hu : s.unseen = [] := consistent.lexed (lexed_of_isArriving harr)
      rw [absorb_of_some e some]
      by_cases hfin : x.isFinished = true
      · -- The block has met its closing bracket, so the event is for this level.
        have hshut : x.isArriving = false := by simpa [isFinished_eq lexed] using hfin
        have hxu : x.unseen = [] := tidy.consistent.lexed lexed
        have hsettled := settled_of_tidy t (tidy.done hshut hxu) hshut
        rw [if_pos hfin, line_absorbHere e (by simpa using hu)]
        · have hline : x.line last (.ok e :: q) = ⟨x.trees last (.ok e :: q), .ok (.ok e :: q)⟩ :=
            line_of_shut hshut
          rw [line_of_openBlock some hu, trees, known_setLatest _ (known_ne_nil_of_openBlock some)]
          simp [hu, hline, Cell.tree, line_done]
        · exact settled_setLatest some cells hsettled
      · have harr' : x.isArriving = true := by simpa [isFinished_eq lexed] using hfin
        rw [if_neg hfin]
        exact line_setLatest some hu cells (ih harr')

theorem tidy_justOpened : justOpened.Tidy := by
  refine .closed ⟨fun _ => rfl, fun h => by cases h⟩ rfl ?_
  intro c hm
  cases hm

theorem tidy_absorbHere (e : Event) (hu : s.unseen = []) (hd : s.done = false)
    (hc : ∀ c ∈ s.known, c.Settled) : (s.absorbHere e).Tidy := by
  have hnew := known_absorbHere (s := s) e
  cases e with
  | token t =>
      refine .closed ⟨fun _ => hu, fun h => ?_⟩ rfl ?_
      · rw [show (s.absorbHere (.token t)).done = s.done from rfl, hd] at h
        cases h
      · intro c hm
        simp only [hnew, unseen_absorbHere, hu, List.append_nil, List.mem_append,
          List.mem_singleton] at hm
        rcases hm with hm | rfl
        · exact hc c hm
        · exact .leaf t
  | opened b position spaceBefore =>
      refine .opened ⟨fun _ => hu, fun h => ?_⟩ (openBlock?_absorbHere_opened b position spaceBefore)
        (by simp [justOpened, lexing]) tidy_justOpened ?_
      · rw [show (s.absorbHere (.opened b position spaceBefore)).done = s.done from rfl, hd] at h
        cases h
      · simpa only [hnew, List.dropLast_concat] using hc
  | closed b position =>
      refine .closed ⟨fun _ => hu, fun _ => ⟨rfl, hu⟩⟩ rfl ?_
      simpa [hnew, hu] using hc

theorem tidy_setLatest {t : Token} {x y : Stream} (h : s.openBlock? = some (t, x))
    (hs : s.Consistent) (hc : ∀ c ∈ s.known.dropLast, c.Settled) (lexed : y.supply ≠ .given)
    (hy : y.Tidy) : (s.setLatest (.block t y)).Tidy := by
  have harr : (s.setLatest (.block t y)).isArriving = s.isArriving := by simp [isArriving]
  refine .opened ⟨?_, ?_⟩ (openBlock?_setLatest h) lexed hy ?_
  · simpa using hs.lexed
  · simpa [harr] using hs.done
  · simpa [known_setLatest _ (known_ne_nil_of_openBlock h)] using hc

theorem done_eq_false_of_isArriving (h : s.Consistent) (harr : s.isArriving = true) :
    s.done = false := by
  cases hd : s.done with
  | false => rfl
  | true => simp [(h.done hd).1] at harr

theorem lexed_absorb (e : Event) (h : s.supply ≠ .given) : (s.absorb e).supply ≠ .given := by
  cases ho : s.openBlock? with
  | none =>
      rw [absorb_of_none e ho]
      cases e <;> simp [absorbHere]
  | some b =>
      rw [absorb_of_some e ho]
      split
      · cases e <;> simp [absorbHere]
      · simpa using h

/-- Drawing an event keeps a stream in good order. -/
theorem Tidy.absorb (e : Event) (h : s.Tidy) (harr : s.isArriving = true) : (s.absorb e).Tidy := by
  induction h with
  | @closed s consistent none cells =>
      rw [absorb_of_none e none]
      exact tidy_absorbHere e (consistent.lexed (lexed_of_isArriving harr))
        (done_eq_false_of_isArriving consistent harr)
        fun c hm => cells c (List.mem_append_left _ hm)
  | @opened s consistent t x some lexed tidy cells ih =>
      rw [absorb_of_some e some]
      by_cases hfin : x.isFinished = true
      · have hshut : x.isArriving = false := by simpa [isFinished_eq lexed] using hfin
        rw [if_pos hfin]
        apply tidy_absorbHere
        · simpa using consistent.lexed (lexed_of_isArriving harr)
        · simpa using done_eq_false_of_isArriving consistent harr
        · exact settled_setLatest some cells
            (settled_of_tidy t (tidy.done hshut (tidy.consistent.lexed lexed)) hshut)
      · have harr' : x.isArriving = true := by simpa [isFinished_eq lexed] using hfin
        rw [if_neg hfin]
        exact tidy_setLatest some consistent cells (lexed_absorb e lexed) (ih harr')

/-! ### The end of the run -/

theorem conclude_of_none (h : s.openBlock? = none) : s.conclude = s.finishHere true := by
  rw [conclude]
  split
  next => rfl
  next t x h' => simp [h] at h'

theorem conclude_of_some {t : Token} {x : Stream} (h : s.openBlock? = some (t, x)) :
    s.conclude = (s.setLatest (.block t x.conclude)).finishHere true := by
  rw [conclude]
  split
  next h' => simp [h] at h'
  next t' x' h' =>
    obtain ⟨rfl, rfl⟩ : t = t' ∧ x = x' := by simpa [h] using h'
    rfl

theorem supply_conclude (s : Stream) : s.conclude.supply = .lexed false true := by
  cases h : s.openBlock? with
  | none => rw [conclude_of_none h]; rfl
  | some b => rw [conclude_of_some h]; rfl

theorem isArriving_conclude (s : Stream) : s.conclude.isArriving = false := by
  simp [isArriving, supply_conclude]

theorem tidy_finishHere (done : Bool) (hu : s.unseen = []) (hc : ∀ c ∈ s.known, c.Settled) :
    (s.finishHere done).Tidy := by
  refine .closed ⟨fun _ => hu, fun _ => ⟨rfl, hu⟩⟩ rfl ?_
  simpa [finishHere, known, hu] using hc

/-- The end of the run keeps a stream in good order. -/
theorem Tidy.conclude (h : s.Tidy) (lexed : s.supply ≠ .given) : s.conclude.Tidy := by
  induction h with
  | @closed s consistent none cells =>
      rw [conclude_of_none none]
      exact tidy_finishHere true (consistent.lexed lexed)
        fun c hm => cells c (List.mem_append_left _ hm)
  | @opened s consistent t x some lexed' tidy cells ih =>
      rw [conclude_of_some some]
      apply tidy_finishHere
      · simpa using consistent.lexed lexed
      · exact settled_setLatest some cells (settled_of_tidy t (ih lexed') (isArriving_conclude x))

/-- Meeting the end of the run does not change the line of a stream. -/
theorem line_conclude (h : s.Tidy) (lexed : s.supply ≠ .given) :
    s.conclude.line none [] = s.line none [] := by
  induction h with
  | @closed s consistent none cells =>
      have hk : s.conclude.known = s.known := by rw [conclude_of_none none]; rfl
      have hu : s.conclude.unseen = s.unseen := by rw [conclude_of_none none]; rfl
      rw [line_of_shut (isArriving_conclude s), line_eq, none, trees, hk, hu]
      split <;> simp [trees]
  | @opened s consistent t x some lexed' tidy cells ih =>
      have hu : s.unseen = [] := consistent.lexed lexed
      have hk : s.conclude.known = s.known.dropLast ++ [.block t x.conclude] := by
        rw [conclude_of_some some]
        exact known_setLatest _ (known_ne_nil_of_openBlock some)
      have hu' : s.conclude.unseen = [] := by
        rw [conclude_of_some some]
        simpa [finishHere] using hu
      have hx := ih lexed'
      rw [line_of_shut (isArriving_conclude x)] at hx
      rw [line_of_shut (isArriving_conclude s), line_of_openBlock some hu, ← hx, trees, hk, hu']
      simp [Cell.tree, line_of_shut (isArriving_conclude x)]

/-! ### The length of a line -/

theorem length_trees (last : Option LexError) (q : Queue) :
    (s.trees last q).length = s.known.length + s.unseen.length := by
  simp [trees]

/-- Going on with a level adds no more trees than the run has events. -/
theorem bounds_andThen_level (last : Option LexError) (trees : List TokenTree) {rest : Queue} (h : rest.length ≤ q.length) :
    (Span.andThen ⟨trees, .ok rest⟩ (Queue.level last)).trees.length ≤ trees.length + q.length ∧
      ∀ r, (Span.andThen ⟨trees, .ok rest⟩ (Queue.level last)).ending = .ok r →
        r.length ≤ q.length := by
  have hsize := Queue.size_level_le last rest
  simp only [Span.size] at hsize
  simp only [Span.andThen_ok, List.length_append]
  refine ⟨by omega, fun r hr => ?_⟩
  rw [hr] at hsize
  simp only [Except.toOption, Option.elim_some] at hsize
  omega

/-- A line is no longer than its known items and the events of the run. -/
theorem line_bounds (last : Option LexError) (q : Queue) (h : s.Tidy) :
    (s.line last q).trees.length ≤ s.known.length + s.unseen.length + q.length ∧
      ∀ r, (s.line last q).ending = .ok r → r.length ≤ q.length := by
  induction h with
  | @closed s consistent none cells =>
      rw [line_eq, none]
      split
      · rw [← length_trees last q]
        exact bounds_andThen_level _ _ (Nat.le_refl _)
      · refine ⟨by simp [length_trees], fun r hr => ?_⟩
        cases hr
        exact Nat.le_refl _
  | @opened s consistent t x some lexed tidy cells ih =>
      have hu : s.unseen = [] :=
        consistent.lexed (lexed_of_isArriving (isArriving_of_openBlock some))
      have hlen : s.known.length = s.known.dropLast.length + 1 := by
        have := List.length_pos_iff.2 (known_ne_nil_of_openBlock some)
        rw [List.length_dropLast]
        omega
      rw [line_of_openBlock some hu]
      cases hend : (x.line last q).ending with
      | error e =>
          refine ⟨?_, fun r hr => by simp at hr⟩
          simp only [Span.andThen_error, List.length_append, List.length_map, List.length_singleton]
          omega
      | ok rest =>
          have := bounds_andThen_level last
            (s.known.dropLast.map (Cell.tree last q) ++ [.block t (x.line last q).trees])
            (ih.2 rest hend)
          refine ⟨Nat.le_trans this.1 ?_, this.2⟩
          simp only [List.length_append, List.length_map, List.length_singleton]
          omega

end Stream

end DualSql
