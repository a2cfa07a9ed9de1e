import DualSql.Proofs.Grammar.Standard
import DualSql.Proofs.Grammar.Refinement
import DualSql.Proofs.Lexer.Tokens
import DualSql.Proofs.Stream.PlainCursor
import DualSql.Tree
import Mathlib.Data.List.Sort
import Mathlib.Data.String.Basic

/-! # Texts that are accepted

A text that is parsed as a whole was lexed to its end, its brackets nest, and
the tree is the one that the outline of the grammar finds in the token trees of
the text, with nothing significant left over.

Main definition: `Tree.Accepted`. Main result: `Tree.accepted_of_parseAs`. -/

namespace DualSql

/-- The pieces of an event. -/
def Event.pieces (d : Dialect) : Event → List Piece
  | token t => t.pieces d
  | opened b _ _ => [.text b.opener.toString]
  | closed b _ => [.text b.closer.toString]

namespace TokenTree

mutual

/-- A tree of tokens as a lexing run makes them. -/
def Lexed (d : Dialect) : TokenTree → Prop
  | leaf t => t.Lexed d
  | block t contents =>
    (∃ b : Bracket, t.kind = b.tokenKind) ∧ t.operator = none ∧ LexedAll d contents

/-- Trees of tokens as a lexing run makes them. -/
def LexedAll (d : Dialect) : List TokenTree → Prop
  | [] => True
  | tree :: rest => tree.Lexed d ∧ LexedAll d rest

end

variable {d : Dialect}

mutual

theorem Lexed.sound : {tree : TokenTree} → tree.Lexed d → tree.Sound d
  | leaf _, h => by
      intro info hinfo
      have hknown := h.operator info hinfo
      rw [Vocabulary.toUpper_of_operator hknown]
      exact hknown
  | block t contents, ⟨⟨b, hb⟩, hop, hcontents⟩ => by
      refine ⟨?_, hop, hcontents.sound⟩
      rw [hb]
      cases b <;> rfl

theorem LexedAll.sound : {trees : List TokenTree} → LexedAll d trees → SoundAll d trees
  | [], _ => trivial
  | _ :: _, ⟨htree, hrest⟩ => ⟨htree.sound, hrest.sound⟩

end

end TokenTree

/-! ### The levels of a run -/

namespace Queue

open TokenTree

/-- The trees of one level of events that nest, with the events behind the
bracket that closes it. -/
structure Levelled (d : Dialect) (around : List Bracket) (events : List Event)
    (trees : List TokenTree) (after : List Event) : Prop where
  level : Queue.level none (events.map .ok) = ⟨trees, .ok (after.map .ok)⟩
  lexed : LexedAll d trees
  others : ∀ e ∈ after, e.Lexed d
  nest : Event.nest around.tail after = some []
  shorter : after.length ≤ events.length
  outermost : around = [] → after = []
  pieces : events.flatMap (Event.pieces d) = piecesAll d trees ++
    (around.head?.map fun b => Piece.text b.closer.toString).toList ++
    after.flatMap (Event.pieces d)

variable {d : Dialect}

theorem levelled_token {around : List Bracket} {events after : List Event}
    {trees : List TokenTree} {t : Token} (ht : t.Lexed d)
    (h : Levelled d around events trees after) :
    Levelled d around (.token t :: events) (.leaf t :: trees) after where
  level := by rw [List.map_cons, level_token, h.level]
  lexed := ⟨ht, h.lexed⟩
  others := h.others
  nest := h.nest
  shorter := Nat.le_succ_of_le h.shorter
  outermost := h.outermost
  pieces := by
    rw [List.flatMap_cons, h.pieces, piecesAll, pieces, Event.pieces]
    simp only [List.append_assoc]

theorem levelled_opened {around : List Bracket} {events between after : List Event}
    {inner trees : List TokenTree} {b : Bracket} (p : Position) (space : Bool)
    (h : Levelled d (b :: around) events inner between)
    (h' : Levelled d around between trees after) :
    Levelled d around (.opened b p space :: events)
      (.block (Token.ofBracket b p space) inner :: trees) after where
  level := by
    rw [List.map_cons, level_opened, h.level, Span.enclosed, Span.andThen_ok, h'.level]
    rfl
  lexed := ⟨⟨⟨b, rfl⟩, rfl, h.lexed⟩, h'.lexed⟩
  others := h'.others
  nest := h'.nest
  shorter := Nat.le_succ_of_le (h'.shorter.trans h.shorter)
  outermost := h'.outermost
  pieces := by
    have hbracket : Bracket.ofTokenKind? (Token.ofBracket b p space).kind = some b := by
      cases b <;> rfl
    rw [List.flatMap_cons, h.pieces, h'.pieces, piecesAll, pieces, hbracket]
    simp [Event.pieces, Bracket.around]

/-- Events that nest have a level. The induction is on the number of events,
since what follows a block is again a level. -/
theorem exists_levelled {around : List Bracket} {events : List Event}
    (hlexed : ∀ e ∈ events, e.Lexed d) (hnest : Event.nest around events = some []) :
    ∃ trees after, Levelled d around events trees after := by
  induction hlen : events.length using Nat.strong_induction_on generalizing around events with
  | _ n ih =>
    cases events with
    | nil =>
        obtain rfl : around = [] := by simpa [Event.nest] using hnest
        refine ⟨[], [], level_nil none, trivial, ?_, rfl, Nat.le_refl _, fun _ => rfl, rfl⟩
        intro e he
        cases he
    | cons e events =>
        obtain ⟨he, hrest⟩ := List.forall_mem_cons.1 hlexed
        have hshorter : events.length < n := by
          rw [← hlen]
          exact Nat.lt_succ_self _
        cases e with
        | token t =>
            obtain ⟨trees, after, h⟩ := ih _ hshorter hrest hnest rfl
            exact ⟨_, _, levelled_token he h⟩
        | opened b p space =>
            change Event.nest (b :: around) events = some [] at hnest
            obtain ⟨inner, between, h⟩ := ih _ hshorter hrest hnest rfl
            obtain ⟨trees, after, h'⟩ :=
              ih _ (Nat.lt_of_le_of_lt h.shorter hshorter) h.others h.nest rfl
            exact ⟨_, _, levelled_opened p space h h'⟩
        | closed b p =>
            cases around with
            | nil => cases hnest
            | cons b' around =>
                rw [Event.nest] at hnest
                split at hnest
                next heq =>
                  subst heq
                  refine ⟨[], events, ?_, trivial, hrest, hnest, Nat.le_succ _, fun h => ?_, rfl⟩
                  · rw [List.map_cons, level_closed]
                  · cases h
                next => cases hnest

/-- A level that the run fails in has no end. Events that nest do not close
the outermost one. -/
theorem ending_of_failed {around inner : List Bracket} {events : List Event}
    (last : Option LexError) (e : LexError) (more : Queue)
    (hnest : Event.nest around events = some inner) :
    (level last (events.map .ok ++ .error e :: more)).ending = .error e ∨
      around ≠ [] ∧ ∃ after, Event.nest around.tail after = some inner ∧
        after.length < events.length ∧
        (level last (events.map .ok ++ .error e :: more)).ending =
          .ok (after.map .ok ++ .error e :: more) := by
  induction hlen : events.length using Nat.strong_induction_on generalizing around events with
  | _ n ih =>
    cases events with
    | nil =>
        left
        rw [List.map_nil, List.nil_append, level_error]
    | cons event events =>
        have hshorter : events.length < n := by
          rw [← hlen]
          exact Nat.lt_succ_self _
        cases event with
        | token t =>
            rw [List.map_cons, List.cons_append, level_token]
            change Event.nest around events = some inner at hnest
            rcases ih _ hshorter hnest rfl with h | ⟨hne, after, hafter, hlt, h⟩
            · exact .inl h
            · exact .inr ⟨hne, after, hafter, hlt.trans hshorter, h⟩
        | opened b p space =>
            rw [List.map_cons, List.cons_append, level_opened, Span.enclosed, Span.andThen]
            change Event.nest (b :: around) events = some inner at hnest
            rcases ih _ hshorter hnest rfl with h | ⟨-, between, hbetween, hlt, h⟩
            · left
              simp only [h]
            · simp only [h]
              change Event.nest around between = some inner at hbetween
              rcases ih _ (hlt.trans hshorter) hbetween rfl with
                h' | ⟨hne, after, hafter, hlt', h'⟩
              · exact .inl h'
              · exact .inr ⟨hne, after, hafter, hlt'.trans (hlt.trans hshorter), h'⟩
        | closed b p =>
            cases around with
            | nil => cases hnest
            | cons b' around =>
                rw [Event.nest] at hnest
                split at hnest
                · refine .inr ⟨List.cons_ne_nil _ _, events, hnest, hshorter, ?_⟩
                  rw [List.map_cons, List.cons_append, level_closed]
                · cases hnest

end Queue

/-! ### Texts -/

namespace Feed

/-- A run that does not fail is drawn event by event. -/
theorem ofChunks_of_ended {d : Dialect} {options : LexOptions} {chunks : List String}
    (h : (lexEvents d options chunks).2 = none) :
    ofChunks d options chunks = ⟨(lexEvents d options chunks).1.map .ok, none⟩ := by
  unfold lexEvents at h ⊢
  unfold ofChunks
  dsimp only
  split at h
  · cases h
  · rfl

/-- A run that fails is drawn event by event up to the error. -/
theorem ofChunks_of_failed {d : Dialect} {options : LexOptions} {chunks : List String}
    {e : LexError} (h : (lexEvents d options chunks).2 = some e) :
    ∃ more, ofChunks d options chunks =
      ⟨(lexEvents d options chunks).1.map .ok ++ .error e :: more, some e⟩ := by
  unfold lexEvents at h ⊢
  unfold ofChunks
  dsimp only
  split at h
  next events e' last hrun =>
    cases h
    exact ⟨_, rfl⟩
  next => cases h

end Feed

namespace Source

open Fallible TokenTree

variable {s s' : Source}

/-- A level that was read to its end is whole. -/
theorem whole_of_exhausted (h : s.Ready) (he : isExhausted s = (.ok true, s')) : s.Whole := by
  have hnil := (isExhausted_ok h he).2.2
  simp only [isExhausted, peek, peekCell, bind_eq_ok, get_eq_ok, pure_eq_ok] at he
  obtain ⟨t, s₁, ⟨c, s₂, ⟨⟨⟩, s₃, hfill, a, t', ⟨rfl, rfl⟩, rfl, rfl⟩, rfl, rfl⟩, hnone, rfl⟩ := he
  obtain ⟨keeps, -, hshows⟩ := fillTo_ok h hfill
  have hahead : s₃.stream.ahead = [] := by
    cases ha : s₃.stream.ahead with
    | nil => rfl
    | cons c rest => simp [ha] at hnone
  rcases hshows with hdone | hlt
  · obtain ⟨hshut, -⟩ := keeps.ready.tidy.consistent.done hdone
    refine ⟨s₃.feed.queue, ?_⟩
    rw [← keeps.line, line, Stream.line_of_shut hshut]
  · rw [hahead] at hlt
    exact absurd hlt (Nat.not_lt_zero _)

theorem line_ofChunks (d : Dialect) (options : LexOptions) (chunks : List String) :
    (ofChunks d options chunks).line =
      Queue.level (Feed.ofChunks d options chunks).last (Feed.ofChunks d options chunks).queue := by
  rw [line, Stream.line_eq]
  rfl

/-- A text whose level is whole was lexed to its end. -/
theorem ended_of_whole {d : Dialect} {chunks : List String}
    (h : (ofChunks d (.ofDialect d) chunks).Whole) :
    (lexEvents d (.ofDialect d) chunks).2 = none := by
  cases hend : (lexEvents d (.ofDialect d) chunks).2 with
  | none => rfl
  | some e =>
      obtain ⟨more, hfeed⟩ := Feed.ofChunks_of_failed hend
      obtain ⟨-, inner, hnest, -⟩ := lexEvents_tells d chunks
      obtain ⟨rest, hrest⟩ := h
      rw [line_ofChunks, hfeed] at hrest
      rcases Queue.ending_of_failed (some e) e more hnest with herror | ⟨hne, -⟩
      · rw [herror] at hrest
        cases hrest
      · exact absurd rfl hne

/-- The trees of a text that was lexed to its end. -/
theorem trees_ofChunks {d : Dialect} {chunks : List String}
    (h : (lexEvents d (.ofDialect d) chunks).2 = none) :
    LexedAll d (ofChunks d (.ofDialect d) chunks).upcoming ∧
      (lexEvents d (.ofDialect d) chunks).1.flatMap (Event.pieces d) =
        piecesAll d (ofChunks d (.ofDialect d) chunks).upcoming := by
  obtain ⟨hlexed, inner, hnest, hinner⟩ := lexEvents_tells d chunks
  rw [hinner h] at hnest
  obtain ⟨trees, after, hlevel⟩ := Queue.exists_levelled hlexed hnest
  have hupcoming : (ofChunks d (.ofDialect d) chunks).upcoming = trees := by
    rw [upcoming, line_ofChunks, Feed.ofChunks_of_ended h, hlevel.level]
    rfl
  rw [hupcoming]
  refine ⟨hlevel.lexed, hlevel.pieces.trans ?_⟩
  rw [hlevel.outermost rfl]
  simp

end Source

namespace Parsing

open Fallible ParseState

variable {o : Outline} {s s' : ParseState}

/-- What a parse of a whole source comes to: the outline finds the tree of the
root and leaves nothing significant. -/
theorem whole_found {types : List String} {root : NodeId} (good : s.Good o 0)
    (h : parseWhole o.options types s = (.ok root, s')) :
    s.source.Whole ∧ s'.forest.Descends 0 ∧ s'.forest.dialect = s.forest.dialect ∧
      root < s'.forest.size ∧
      ∃ fuel rest, o.any fuel types s.source.upcoming = .found (s'.forest.content root) rest ∧
        TokenTree.significant rest = [] := by
  simp only [parseWhole, bind_eq_ok, get_eq_ok] at h
  obtain ⟨start, s₁, hsave, a, t, ⟨rfl, rfl⟩, r, s₂, hany, ⟨⟩, s₃, hskip, h⟩ := h
  obtain ⟨step₁, restored₁, -⟩ := savepoint_step good hsave
  obtain ⟨step₂, answer⟩ := (refines o _).any step₁.good hany
  obtain ⟨step₃, hforest₃, hup₃⟩ := skipTrivia_step step₂.good hskip
  cases r with
  | none => simp [bind_eq_ok, throw_eq_ok] at h
  | some id =>
      simp only [bind_eq_ok] at h
      obtain ⟨b, s₄, hex, h⟩ := h
      obtain ⟨step₄, restored₄, hb⟩ := isExhausted_step step₃.good hex
      cases b with
      | false => simp [bind_eq_ok, throw_eq_ok] at h
      | true =>
          simp only [if_true, bind_eq_ok, pure_eq_ok] at h
          obtain ⟨⟨⟩, s₅, hcommit, rfl, rfl⟩ := h
          obtain ⟨source, hexhausted, rfl⟩ := read_eq_ok.1 hex
          obtain ⟨source', -, rfl⟩ := read_eq_ok.1 hcommit
          obtain ⟨-, hlt, hfound⟩ := answer
          have steps := (step₁.trans step₂).trans step₃
          have hwhole := Source.whole_of_exhausted steps.good.ready hexhausted
          rw [step₁.upcoming restored₁] at hfound
          rw [hup₃] at hb
          refine ⟨?_, ?_, ?_, ?_, ?_⟩
          · obtain ⟨rest, hrest⟩ := hwhole
            exact ⟨rest, by rw [← steps.keeps.line, hrest]⟩
          · exact steps.good.descends
          · exact steps.grows.dialect
          · rw [hforest₃]
            exact hlt
          · rw [hforest₃]
            exact ⟨_, _, hfound, List.isEmpty_iff.1 hb.symm⟩

end Parsing

namespace Tree

open TokenTree

/-- What is known of a tree that a text was parsed to. -/
structure Accepted (d : Dialect) (types : List String) (sql : String) (t : Tree) : Prop where
  /-- The text was lexed to its end. -/
  ended : (lexEvents d (.ofDialect d) [sql]).2 = none
  descends : t.forest.Descends 0
  dialect : t.forest.dialect = d
  root : t.root < t.forest.size
  /-- The tree was found in the token trees of the text. -/
  found : ∃ trees rest fuel, LexedAll d trees ∧
    (lexEvents d (.ofDialect d) [sql]).1.flatMap (Event.pieces d) = piecesAll d trees ∧
    (Standard.outline d).any fuel types trees = .found (t.forest.content t.root) rest ∧
    significant rest = []

/-- A text that is parsed was lexed to its end, and the tree was found in what is
upcoming at its start, with nothing significant left over. -/
theorem found_of_parseAs {d : Dialect} {types : List String} {sql : String} {t : Tree}
    (h : parseAs d types sql = .ok t) :
    (lexEvents d (.ofDialect d) [sql]).2 = none ∧ t.forest.Descends 0 ∧ t.forest.dialect = d ∧
      t.root < t.forest.size ∧
      ∃ fuel rest, (Standard.outline d).any fuel types
        (Source.ofChunks d (.ofDialect d) [sql]).upcoming = .found (t.forest.content t.root) rest ∧
        significant rest = [] := by
  unfold parseAs parseChunks parseSource ofParse at h
  rcases hrun : Parsing.parseWhole { dialect := d } types
    (Parsing.start (Source.ofChunks d (.ofDialect d) [sql]) Standard.registry d) with ⟨e | root, s'⟩
  · rw [hrun] at h
    cases h
  · rw [hrun] at h
    cases h
    have good : (Parsing.start (Source.ofChunks d (.ofDialect d) [sql]) Standard.registry d).Good
        (Standard.outline d).toOutline 0 :=
      Parsing.good_start d (Source.ready_ofChunks ..) (Standard.agrees_registry d)
    obtain ⟨hwhole, hdescends, hdialect, hroot, hfound⟩ :=
      Parsing.whole_found (o := (Standard.outline d).toOutline) good hrun
    exact ⟨Source.ended_of_whole hwhole, hdescends, hdialect, hroot, hfound⟩

theorem accepted_of_parseAs {d : Dialect} {types : List String} {sql : String} {t : Tree}
    (h : parseAs d types sql = .ok t) : Accepted d types sql t := by
  obtain ⟨hended, hdescends, hdialect, hroot, fuel, rest, hfound, hrest⟩ := found_of_parseAs h
  obtain ⟨hlexed, hpieces⟩ := Source.trees_ofChunks hended
  exact ⟨hended, hdescends, hdialect, hroot, _, rest, fuel, hlexed, hpieces, hfound, hrest⟩

end Tree

namespace Standard

/-- The types of the standard grammar in their order. -/
def sortedTags : List String :=
  ["AllColumns", "BinaryExpr", "BindVariable", "BitLiteral", "BooleanLiteral", "CastExpr",
    "ColumnRef", "DataTypeRef", "ExistsExpr", "FunctionCall", "HexLiteral", "NegateExpr",
    "NotExpr", "NullLiteral", "NumberLiteral", "OrderItem", "ParenExpr", "Script", "SelectItem",
    "SelectStmt", "StringLiteral", "Subquery", "TableRef", "Tuple", "UserVariable"]

/-- The types of the standard grammar with both dialects. -/
def wanted : List (String × Dialect) :=
  sortedTags.flatMap fun tag => Dialect.all.map fun d => (tag, d)

theorem tags_eq : (extend {}).tags = sortedTags := by
  rw [Registry.tags, List.mergeSort_eq_insertionSort]
  decide +kernel

theorem isSome_schema : ∀ asked ∈ wanted,
    ((extend {}).schema asked.1 asked.2).1.toOption.isSome = true := by
  decide +kernel

/-- The standard grammar in a form that can be evaluated: what it remembers of a
type is worked out when it is asked for. -/
theorem registry_eq :
    registry = { extend {} with compiled := (extend {}).answers wanted } := by
  rw [registry, Registry.validate, tags_eq]
  exact Registry.compileAll_eq (by decide +kernel) (by decide +kernel) isSome_schema

end Standard

end DualSql
