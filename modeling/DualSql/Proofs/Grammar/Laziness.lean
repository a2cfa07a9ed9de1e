import DualSql.Proofs.Grammar.Transparency
import DualSql.Proofs.Stream.Eager

/-! # Lexing on demand and lexing in advance

It does not matter when a text that lexes is lexed: at once, piece by piece as
its tokens are asked for, or to its end before anyone reads. Readers of the
nested streams get the same answers, and parses give the same trees.

Main result: `Tree.lazy_eager_agree`. -/

namespace DualSql.Tree

/-- A text that lexes is drawn in the same way whatever pieces it arrives in. -/
theorem ofChunks_join {d : Dialect} {options : LexOptions} {chunks : List String}
    (hend : (lexEvents d options [String.join chunks]).2 = none) :
    Source.ofChunks d options [String.join chunks] = Source.ofChunks d options chunks := by
  have hjoin := lexEvents_join d options chunks
  have hend' := hend
  rw [hjoin] at hend'
  rw [Source.ofChunks, Source.ofChunks, Feed.ofChunks_of_ended hend, Feed.ofChunks_of_ended hend',
    hjoin]

/-- Let a text lex without an error, with its brackets as blocks. Whoever reads
from its stream and from those of its blocks, in any order, gets what stands
between the brackets, whether the streams are filled as they are read, from the
text in pieces, or in advance. Every parse of the two gives the same nodes and
root or the same error, and so do the three ways of parsing the text. -/
theorem lazy_eager_agree (d : Dialect) {options : LexOptions} (hs : options.structured = true)
    (chunks : List String) (hend : (lexEvents d options [String.join chunks]).2 = none) :
    let events := (lexEvents d options [String.join chunks]).1
    let lazily := Source.ofChunks d options chunks
    let eagerly := Source.ofRun events
    (∀ questions : List (List Nat × Question),
      let answers := Walk.trace (TokenTree.ofEvents events) questions {}
      Consumer.trace questions { source := lazily } = answers ∧
        Consumer.trace questions { source := eagerly } = answers) ∧
    (∀ (registry : Registry) (types : List String) (choices : ParseOptions),
      ofParse (Parsing.parseWhole choices types (Parsing.start lazily registry choices.dialect)) =
        ofParse (Parsing.parseWhole choices types
          (Parsing.start eagerly registry choices.dialect))) ∧
    (options = .ofDialect d → ∀ types : List String,
      parseAs d types (String.join chunks) = parseChunks d types chunks ∧
        parseEager d types chunks = parseChunks d types chunks) := by
  intro events lazily eagerly
  have hsource := ofChunks_join hend
  have hjoin := lexEvents_join d options chunks
  have hevents : events = (lexEvents d options chunks).1 := congrArg Prod.fst hjoin
  have hend' : (lexEvents d options chunks).2 = none := hjoin ▸ hend
  have hparses (registry : Registry) (types : List String) (choices : ParseOptions) :
      ofParse (Parsing.parseWhole choices types (Parsing.start lazily registry choices.dialect)) =
        ofParse (Parsing.parseWhole choices types
          (Parsing.start eagerly registry choices.dialect)) := by
    have twin := Source.twin_eager hs hend'
    have hweight := Source.weight_eager hs hend'
    rw [← hevents] at twin hweight
    exact ofParse_of_twins twin hweight choices types registry choices.dialect
  refine ⟨fun questions => ⟨?_, Consumer.trace_ofRun events questions⟩, hparses, ?_⟩
  · rw [hevents]
    exact Consumer.trace_ofChunks hs hend' questions
  · rintro rfl types
    refine ⟨congrArg (parseSource d types) hsource, ?_⟩
    have heager : parseEager d types chunks = parseSource d types eagerly := by
      rw [parseEager]
      split
      next e hlex =>
        rw [hlex] at hend'
        cases hend'
      next run hlex =>
        have hrun : events = run := hevents.trans (congrArg Prod.fst hlex)
        rw [← hrun]
        rfl
    rw [heager]
    exact (hparses Standard.registry types { dialect := d }).symm

/-- A reader looks at a block that it may not enter yet, goes behind it and
comes back to its contents, of which the run had brought everything by then. -/
theorem read_behind_and_back :
    let chunks := ["f(a, [", "b]) c"]
    let options := LexOptions.ofDialect .postgres
    let questions : List (List Nat × Question) := [([], .peek 1), ([1], .next), ([1], .peek 0),
      ([], .next), ([], .next), ([], .next), ([1], .peek 2), ([1, 2], .peek 0), ([1], .next),
      ([2], .next)]
    let answers := Consumer.trace questions { source := .ofChunks .postgres options chunks }
    (lexEvents .postgres options [String.join chunks]).2 = none ∧
      answers = Walk.trace (TokenTree.ofEvents (lexEvents .postgres options
        [String.join chunks]).1) questions {} ∧
      answers.map (Option.map fun r => r.toOption.map (Option.map Token.value)) =
        [some (some (some "(")), some none, some (some (some "a")), some (some (some "f")),
          some (some (some "(")), some (some (some "c")), some (some (some "[")),
          some (some (some "b")), some (some (some "a")), none] := by
  intro chunks options questions answers
  obtain ⟨hlexes, hvalues⟩ : (lexEvents .postgres options [String.join chunks]).2 = none ∧
      answers.map (Option.map fun r => r.toOption.map (Option.map Token.value)) =
        [some (some (some "(")), some none, some (some (some "a")), some (some (some "f")),
          some (some (some "(")), some (some (some "c")), some (some (some "[")),
          some (some (some "b")), some (some (some "a")), none] := by
    decide +kernel
  exact ⟨hlexes, ((lazy_eager_agree .postgres rfl chunks hlexes).1 questions).1, hvalues⟩

end DualSql.Tree
