import DualSql.Grammar.Standard
import DualSql.Proofs.Grammar.Refinement
import DualSql.Proofs.Stream.Reached

/-! # A parse that does not match is undone

When the parser finds no match it gives back what it consumed. The stream
stands where it stood and has the same trees to give, the blocks among them
locked and at their start, and the forest is the one from before, with the
nodes, fields and parents that it had.

Main definition: `ParseState.Undone`. Main result:
`Parsing.undone_of_mismatch`.

## Implementation notes

The stream has to be in good order, which `Source.Reached.ready` shows of every
stream that was reached without a failure of the lexing run. After a failure
inside two blocks the outer of them is still open but nobody knows it, and then
a parse can move a token from one level to another. -/

namespace DualSql

/-- The second state is the first one as far as anyone can tell: the stream
stands at the same place of the same line, its blocks wait to be consumed, and
the forest is the same. -/
structure ParseState.Undone (s s' : ParseState) : Prop where
  position : s'.source.stream.position = s.source.stream.position
  line : s'.source.line = s.source.line
  upcoming : s'.source.upcoming = s.source.upcoming
  locked : s'.source.stream.locked = s.source.stream.locked
  waiting : s'.source.stream.Orderly
  forest : s'.forest = s.forest

namespace Parsing

open Fallible ParseState

variable {s s' : ParseState}

theorem undone_of_restored {o : Outline} {least : Nat} (step : s.Step o least s')
    (restored : s.Restored s') : s.Undone s' where
  position := restored.position
  line := step.keeps.line
  upcoming := step.upcoming restored
  locked := step.keeps.locked
  waiting := step.good.ready.orderly
  forest := restored.forest

/-- The state of a parser is in good order before it has made any nodes. -/
theorem good_before (options : ParseOptions) (ready : s.source.Ready) (linked : s.forest.Linked) :
    s.Good ⟨s.registry, options⟩ s.forest.size :=
  ⟨ready, linked, Forest.descends_size _, Nat.le_refl _, .refl _⟩

theorem undone_of_answer {o : Outline} {least : Nat} {a : Attempt Content}
    (h : s.Step o least s' ∧ NodeAnswer least s s' none a) : s.Undone s' :=
  undone_of_restored h.1 h.2.2

/-- A rule whose body does not match is undone, whether or not it had to match. -/
theorem undone_of_body {options : ParseOptions} {fuel : Nat} {tag : String} {p : Production}
    {fields : Fields} {r : Option Fields} (ready : s.source.Ready) (linked : s.forest.Linked)
    (hp : matchRule options (fuel + 1) tag p fields s = (.ok r, s'))
    (hbody : (matchBody options fuel tag p fields (read Source.savepoint s).2).1 = .ok none) :
    s.Undone s' ∧ ∀ fields' ∈ r, fields' = fields := by
  have good := good_before options ready linked
  have hnamed := named_contents fields s.forest.content
  obtain ⟨-, rfl, rfl⟩ | ⟨-, s₁, s₂, matched, rfl, step₁, restored₁, hmatched, hcases⟩ :=
    matchRule_ok good hnamed hp
  · exact ⟨undone_of_restored (.refl good) ⟨rfl, rfl⟩, by simp⟩
  · rw [hmatched] at hbody
    obtain ⟨_, rfl, -⟩ | ⟨-, -, rfl, hb⟩ := hcases
    · cases hbody
    · have hraised := (body_step (refines _ fuel) step₁.good.raise hnamed hmatched).1
      obtain ⟨step, restored⟩ := backtrack_step step₁ restored₁ hraised hb
      refine ⟨undone_of_restored step restored, ?_⟩
      cases p.attrs.optional <;> simp

/-- No match leaves no trace, for any grammar, dialect and policy of assertions:
neither in parsing a node nor in matching a rule, and also not where a rule is
left out because it is optional, which then sets no field. -/
theorem undone_of_mismatch (options : ParseOptions) (fuel : Nat) (s s' : ParseState)
    (ready : s.source.Ready) (linked : s.forest.Linked) :
    (∀ tag, parseNode options fuel tag s = (.ok none, s') → s.Undone s') ∧
    (∀ types, parseAny options fuel types s = (.ok none, s') → s.Undone s') ∧
    (∀ tag, parseType options fuel tag s = (.ok none, s') → s.Undone s') ∧
    (∀ operands climb minimum,
      parseClimbing options fuel operands climb minimum s = (.ok none, s') → s.Undone s') ∧
    (∀ tag p fields, matchRule options fuel tag p fields s = (.ok none, s') → s.Undone s') ∧
    ∀ tag p fields fields', matchRule options (fuel + 1) tag p fields s = (.ok (some fields'), s') →
      (matchBody options fuel tag p fields (read Source.savepoint s).2).1 = .ok none →
      s.Undone s' ∧ fields' = fields := by
  have good := good_before options ready linked
  have follows := refines ⟨s.registry, options⟩ fuel
  refine ⟨?_, ?_, ?_, ?_, ?_, ?_⟩
  · intro tag h
    exact undone_of_answer (follows.node good h)
  · intro types h
    exact undone_of_answer (follows.any good h)
  · intro tag h
    exact undone_of_answer (follows.type good h)
  · intro operands climb minimum h
    exact undone_of_answer (follows.climbing good h)
  · intro tag p fields h
    obtain ⟨step, -, restored⟩ := follows.rule good (named_contents fields s.forest.content) h
    exact undone_of_restored step (restored rfl)
  · intro tag p fields fields' h hbody
    obtain ⟨undone, hfields⟩ := undone_of_body ready linked h hbody
    exact ⟨undone, hfields fields' rfl⟩

/-- The tokens of a text. -/
def textSource (text : String) : Source :=
  .ofChunks .postgres (.ofDialect .postgres) [text]

/-- A parser for the standard grammar that is about to read a source. -/
def reader (source : Source) : ParseState :=
  start source (Standard.extend {}) .postgres

/-- Two expressions in parentheses are not one, which is seen only inside them. -/
theorem tuple_undone :
    let s := reader (textSource "((a), b)")
    let parsed := parseNode { dialect := .postgres } 200 "ParenExpr" s
    parsed.1.toOption = some none ∧ s.Undone parsed.2 := by
  intro s parsed
  have hnone : parsed.1.toOption = some none := by decide +kernel
  have hparsed : parsed = (.ok none, parsed.2) := by
    rcases parsed with ⟨_ | r, s'⟩
    · cases hnone
    · cases hnone
      rfl
  refine ⟨hnone, (undone_of_mismatch _ 200 s parsed.2 ?_ ?_).1 "ParenExpr" hparsed⟩
  · exact Source.ready_ofChunks ..
  · intro id parent hp
    cases hp

/-- The second of the tokens that a source gives. -/
def second (source : Source) : Option String :=
  let twice : Reading (Option Token) := do
    let _ ← Source.next
    Source.next
  (twice source).1.toOption.join.map Token.value

/-- After the run has failed inside two blocks, a parse that does not match can
keep a token from whom it would have gone to. -/
theorem mismatch_seen_after_failure :
    let looked := Source.peek 1 (textSource "(a (group")
    let s := reader looked.2
    let parsed := parseNode { dialect := .postgres } 200 "ParenExpr" s
    looked.1.toOption = none ∧ s.source.stream.locked = false ∧ parsed.1.toOption = some none ∧
      second s.source = some "GROUP" ∧ second parsed.2.source = none := by
  decide +kernel

end Parsing

end DualSql
