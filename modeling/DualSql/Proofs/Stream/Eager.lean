import DualSql.Proofs.Lexer.Digest
import DualSql.Proofs.Stream.Consumer
import DualSql.Proofs.Stream.Given
import DualSql.Proofs.Stream.Thinned

/-! # Streams that are filled at once and as they are read

The trees that are built from the events of a complete run are those that a
stream has to give which draws the same events as it is read. So readers get the
same answers from both.

Main results: `TokenTree.exists_closes`, `Source.twin_eager` and
`Consumer.trace_ofChunks`. -/

namespace DualSql

namespace TokenTree

/-- Goes on building behind the bracket that closes the present level, after
the last trees of that level. -/
def resume (here : List TokenTree) (trees : List TokenTree) (after : List Event) :
    List Level → List TokenTree
  | [] => here.reverse ++ trees
  | level :: levels => build (block level.opening (here.reverse ++ trees) :: level.trees) levels after

/-- Events begin with trees of the present level, and go on behind it. -/
structure Closes (around : List Bracket) (events : List Event) (trees : List TokenTree)
    (after : List Event) : Prop where
  level : Queue.level none (events.map .ok) = ⟨trees, .ok (after.map .ok)⟩
  nest : Event.nest around.tail after = some []
  shorter : after.length ≤ events.length
  outermost : around = [] → after = []
  weight : ((toCells trees).map Cell.weight).sum + (after.map Event.weight).sum =
    (events.map Event.weight).sum
  build (here : List TokenTree) (levels : List Level) : levels.length = around.length →
    build here levels events = resume here trees after levels

variable {around : List Bracket} {events between after : List Event}
  {inner trees : List TokenTree}

theorem resume_cons (tree : TokenTree) (here : List TokenTree) (levels : List Level) :
    resume (tree :: here) trees after levels = resume here (tree :: trees) after levels := by
  cases levels <;> simp [resume]

theorem closes_token (t : Token) (h : Closes around events trees after) :
    Closes around (.token t :: events) (leaf t :: trees) after where
  level := by rw [List.map_cons, Queue.level_token, h.level]
  nest := h.nest
  shorter := Nat.le_succ_of_le h.shorter
  outermost := h.outermost
  weight := by
    have hleaf : (leaf t).toCell.weight = (Event.token t).weight := by
      rw [toCell, Cell.weight, Event.weight]
    rw [toCells, List.map_cons, List.sum_cons, List.map_cons, List.sum_cons, hleaf, ← h.weight,
      Nat.add_assoc]
  build here levels hlength := by
    rw [TokenTree.build, h.build _ levels hlength, resume_cons]

theorem closes_opened (b : Bracket) (p : Position) (space : Bool)
    (h : Closes (b :: around) events inner between) (h' : Closes around between trees after) :
    Closes around (.opened b p space :: events) (block (Token.ofBracket b p space) inner :: trees)
      after where
  level := by
    rw [List.map_cons, Queue.level_opened, h.level, Span.enclosed, Span.andThen_ok, h'.level]
    rfl
  nest := h'.nest
  shorter := Nat.le_succ_of_le (h'.shorter.trans h.shorter)
  outermost := h'.outermost
  weight := by
    have hblock : (block (Token.ofBracket b p space) inner).toCell.weight =
        1 + ((toCells inner).map Cell.weight).sum := by
      rw [toCell, Cell.weight_block]
    rw [toCells, List.map_cons, List.sum_cons, List.map_cons, List.sum_cons, hblock, ← h.weight,
      ← h'.weight, Event.weight]
    omega
  build here levels hlength := by
    have hinner := h.build [] (⟨Token.ofBracket b p space, here⟩ :: levels) (by simpa using hlength)
    rw [TokenTree.build, hinner, resume, List.reverse_nil, List.nil_append,
      h'.build _ levels hlength, resume_cons]

/-- Events that nest begin with trees of the present level. The induction is on
the number of events, since what follows a block is again of that level. -/
theorem exists_closes (hnest : Event.nest around events = some []) :
    ∃ trees after, Closes around events trees after := by
  induction hlen : events.length using Nat.strong_induction_on generalizing around events with
  | _ n ih =>
    cases events with
    | nil =>
        obtain rfl : around = [] := by simpa [Event.nest] using hnest
        refine ⟨[], [], Queue.level_nil none, rfl, Nat.le_refl _, fun _ => rfl, rfl,
          fun here levels hlength => ?_⟩
        rw [List.length_eq_zero_iff.1 hlength, build, resume, List.append_nil]
    | cons e events =>
        have hshorter : events.length < n := by simp [← hlen]
        cases e with
        | token t =>
            change Event.nest around events = some [] at hnest
            obtain ⟨trees, after, h⟩ := ih _ hshorter hnest rfl
            exact ⟨_, _, closes_token t h⟩
        | opened b p space =>
            change Event.nest (b :: around) events = some [] at hnest
            obtain ⟨inner, between, h⟩ := ih _ hshorter hnest rfl
            obtain ⟨trees, after, h'⟩ := ih _ (Nat.lt_of_le_of_lt h.shorter hshorter) h.nest rfl
            exact ⟨_, _, closes_opened b p space h h'⟩
        | closed b p =>
            cases around with
            | nil => cases hnest
            | cons b' around =>
                rw [Event.nest] at hnest
                split at hnest
                next heq =>
                  refine ⟨[], events, ?_, hnest, Nat.le_succ _, fun h => ?_, ?_,
                    fun here levels hlength => ?_⟩
                  · rw [List.map_cons, Queue.level_closed]
                  · cases h
                  · rw [List.map_cons, List.sum_cons, Event.weight, Nat.zero_add]
                    exact Nat.zero_add _
                  · cases levels with
                    | nil => cases hlength
                    | cons level levels => rw [build, resume, List.append_nil]
                next => cases hnest

/-- The trees of a complete run are those of its outermost level. -/
theorem closes_ofEvents (hnest : Event.nest [] events = some []) :
    Closes [] events (ofEvents events) [] := by
  obtain ⟨trees, after, h⟩ := exists_closes hnest
  obtain rfl := h.outermost rfl
  have htrees : ofEvents events = trees := h.build [] [] rfl
  rwa [htrees]

end TokenTree

namespace Source

open TokenTree

variable {d : Dialect} {options : LexOptions} {chunks : List String}

/-- The source of the trees of a run, all of them given in advance. -/
def ofRun (events : List Event) : Source where
  stream := .ofCells (toCells (ofEvents events))

theorem closes_ofChunks (hs : options.structured = true)
    (hend : (lexEvents d options chunks).2 = none) :
    Closes [] (lexEvents d options chunks).1 (ofEvents (lexEvents d options chunks).1) [] := by
  obtain ⟨-, inner, hnest, hinner⟩ := lexEvents_nest d hs chunks
  rw [hinner hend] at hnest
  exact closes_ofEvents hnest

theorem line_of_ended (hs : options.structured = true)
    (hend : (lexEvents d options chunks).2 = none) :
    (ofChunks d options chunks).line = ⟨ofEvents (lexEvents d options chunks).1, .ok []⟩ := by
  rw [line_ofChunks, Feed.ofChunks_of_ended hend]
  exact (closes_ofChunks hs hend).level

theorem upcoming_ofRun (events : List Event) : (ofRun events).upcoming = ofEvents events :=
  (fresh_ofTrees (ofEvents events)).2

/-- The stream of a text that lexes is the twin of the stream of its trees. -/
theorem twin_eager (hs : options.structured = true)
    (hend : (lexEvents d options chunks).2 = none) :
    (ofChunks d options chunks).Twin (ofRun (lexEvents d options chunks).1) := by
  refine ⟨sound_ofChunks .., ⟨ready_ofCells _, rfl, Stream.retained_ofCells _⟩, ?_, ?_⟩
  · rw [fault_ofChunks, hend]
    rfl
  · intro mark depth _
    have hrun : (ofRun (lexEvents d options chunks).1).outlook mark depth =
        ofEvents (lexEvents d options chunks).1 := upcoming_ofRun _
    rw [hrun, outlook_ofChunks, hend]
    simp only [Option.isSome_none, Bool.false_eq_true, if_false, List.append_nil,
      (closes_ofChunks hs hend).level]

theorem weight_eager (hs : options.structured = true)
    (hend : (lexEvents d options chunks).2 = none) :
    (ofRun (lexEvents d options chunks).1).weight = (ofChunks d options chunks).weight := by
  have hweight := (closes_ofChunks hs hend).weight
  rw [ofRun, weight_ofCells, weight_ofChunks, ← hweight]
  rfl

end Source

namespace Consumer

open TokenTree

variable {s : Source} {d : Dialect} {options : LexOptions} {chunks : List String}

/-- Before anything is read every place is the first one. -/
theorem follows_start (h : s.Fresh) (ahead : s.stream.ahead = [])
    (unseen : ∀ c ∈ s.stream.unseen, ∃ tree : TokenTree, c = tree.toCell) :
    Follows s.upcoming {} { source := s } := by
  have hknown : s.stream.known = [] := by simp [Stream.known, h.behind, ahead]
  refine ⟨h.ready, h.whole, h.unlocked, ?_, rfl, ?_, h.discarded, unseen, fun i c hc => ?_,
    fun i _ p => ⟨rfl, by simp⟩⟩
  · rw [Source.upcoming, h.behind, List.length_nil, List.drop_zero]
  · rw [h.behind]
    rfl
  · rw [hknown] at hc
    cases hc

/-- A reader of the stream of a text that lexes, filled as it is read, gets
what stands between the brackets of the text. -/
theorem trace_ofChunks (hs : options.structured = true)
    (hend : (lexEvents d options chunks).2 = none) (questions : List (List Nat × Question)) :
    trace questions { source := .ofChunks d options chunks } =
      Walk.trace (ofEvents (lexEvents d options chunks).1) questions {} := by
  have hline := Source.line_of_ended hs hend
  have hfresh : (Source.ofChunks d options chunks).Fresh :=
    ⟨Source.ready_ofChunks .., ⟨[], by rw [hline]⟩, rfl, rfl, rfl, rfl, rfl⟩
  have hupcoming : (Source.ofChunks d options chunks).upcoming =
      ofEvents (lexEvents d options chunks).1 := by
    rw [Source.upcoming, hline]
    rfl
  rw [(follows_start hfresh rfl fun _ hc => absurd hc List.not_mem_nil).trace, hupcoming]

/-- A reader of the stream of the same trees, filled in advance, gets the same. -/
theorem trace_ofRun (events : List Event) (questions : List (List Nat × Question)) :
    trace questions { source := .ofRun events } = Walk.trace (ofEvents events) questions {} := by
  have hfresh : (Source.ofRun events).Fresh := (Source.fresh_ofTrees (ofEvents events)).1
  rw [(follows_start hfresh rfl fun _ => exists_of_mem_toCells).trace, Source.upcoming_ofRun]

end Consumer

end DualSql
