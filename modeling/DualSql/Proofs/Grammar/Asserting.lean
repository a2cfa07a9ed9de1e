import DualSql.Proofs.Grammar.Backtracking
import DualSql.Proofs.Grammar.Calls

/-! # Assertions only add errors

A policy of assertions turns some mismatches into errors. Where no asserted
production mismatches, a parse under the policy does what a parse without it
does, step by step; where one does, the parse stops there, before the mismatch
could be made up for by an alternative.

Main definitions: `ParseOptions.Extends`, one policy asserts what another does,
and `Parsing.CurtailsAll`, what is to be shown of the functions of the parser at
some fuel. Main results: `Parsing.curtailsAll` and `Parsing.parseWhole_asserting`. -/

namespace DualSql

open Fallible

/-- One choice asserts every production that another asserts. -/
structure ParseOptions.Extends (options base : ParseOptions) : Prop where
  dialect : options.dialect = base.dialect
  asserts (p : Production) (h : Parsing.asserts base p = true) : Parsing.asserts options p = true

/-- An input that does not fit, or text that cannot be lexed. -/
def Error.FromInput : Error → Prop
  | .parse _ | .lex _ => True
  | _ => False

namespace Parsing

variable {α β : Type} {options base : ParseOptions}

/-- Wherever they start, the first computation does what the second does, or stops
because of the input. -/
abbrev Curtailed (m n : Parsing α) : Prop :=
  ∀ s, Curtails Error.FromInput m n s

theorem Curtailed.refl (m : Parsing α) : Curtailed m m :=
  curtails_refl m

theorem Curtailed.bind {m n : Parsing α} {k l : α → Parsing β} (h : Curtailed m n)
    (hk : ∀ a, Curtailed (k a) (l a)) : Curtailed (m >>= k) (n >>= l) :=
  fun s => (h s).bind fun a t _ => hk a t

/-- A step that is the same in both. -/
theorem Curtailed.step {m : Parsing α} {k l : α → Parsing β}
    (hk : ∀ a, Curtailed (k a) (l a)) : Curtailed (m >>= k) (m >>= l) :=
  (Curtailed.refl m).bind hk

/-- What is done inside a block comes to what it comes to on the contents. -/
theorem inside_apply (contents : Stream) (m : Parsing α) (s : ParseState) :
    inside contents m s =
      Prod.map id (fun t => { t with
        source := { s.source with feed := t.source.feed }.setCurrentContents t.source.stream })
        (m (inBlock s contents)) := rfl

/-- Inside a block a computation stops as it does on the contents. -/
theorem Curtailed.inside {m n : Parsing α} (h : Curtailed m n) (contents : Stream) :
    Curtailed (inside contents m) (inside contents n) := by
  intro s
  obtain heq | ⟨e, t, he, hfatal⟩ := h (inBlock s contents)
  · exact .inl (by rw [inside_apply, inside_apply, heq])
  · exact .inr ⟨e, _, by rw [inside_apply, he]; rfl, hfatal⟩

/-- An asserted production that mismatches stops the parse because of the input. -/
theorem curtailed_assertionFailure (p : Production) (tag : String) (n : Parsing α) :
    Curtailed (assertionFailure options p tag) n := by
  intro s
  refine .inr ?_
  rcases hpeek : read Source.peekSignificant s with ⟨e | found, t⟩
  · refine ⟨e, t, bind_of_error hpeek, ?_⟩
    by_contra hother
    have hlex (l : LexError) : Error.lex l ≠ e := by
      rintro rfl
      exact hother trivial
    exact avoids_read (Source.lexes_peekSignificant e hlex) s t hpeek
  · exact ⟨_, t, bind_of_ok hpeek, trivial⟩

/-- What is to be shown of the functions of the parser at some fuel: under the first
choice they do what they do under the second, or stop because of the input. -/
structure CurtailsAll (options base : ParseOptions) (fuel : Nat) : Prop where
  node (tag : String) : Curtailed (parseNode options fuel tag) (parseNode base fuel tag)
  any (types : List String) : Curtailed (parseAny options fuel types) (parseAny base fuel types)
  type (tag : String) : Curtailed (parseType options fuel tag) (parseType base fuel tag)
  climbing (operands : List String) (climb : Climb) (minimum : Nat) :
    Curtailed (parseClimbing options fuel operands climb minimum)
      (parseClimbing base fuel operands climb minimum)
  extending (operands : List String) (climb : Climb) (minimum : Nat) (left : NodeId) :
    Curtailed (climbFrom options fuel operands climb minimum left)
      (climbFrom base fuel operands climb minimum left)
  rule (tag : String) (p : Production) (fields : Fields) :
    Curtailed (matchRule options fuel tag p fields) (matchRule base fuel tag p fields)
  all (tag : String) (parts : List Production) (fields : Fields) :
    Curtailed (matchAll options fuel tag parts fields) (matchAll base fuel tag parts fields)
  first (tag : String) (branches : List Production) (fields : Fields) :
    Curtailed (matchFirst options fuel tag branches fields)
      (matchFirst base fuel tag branches fields)
  block (tag : String) (bracket : Bracket) (inner : Production) (fields : Fields) :
    Curtailed (matchBlock options fuel tag bracket inner fields)
      (matchBlock base fuel tag bracket inner fields)
  field (info : RuleInfo) (types : List String) (climb : Option Climb) (fields : Fields) :
    Curtailed (matchNode options fuel info types climb fields)
      (matchNode base fuel info types climb fields)
  operand (info : RuleInfo) (types : List String) (climb : Option Climb) :
    Curtailed (matchOperand options fuel info types climb)
      (matchOperand base fuel info types climb)
  items (info : RuleInfo) (types : List String) (climb : Option Climb) (arity : Arity)
      (sofar : List NodeId) :
    Curtailed (matchItems options fuel info types climb arity sofar)
      (matchItems base fuel info types climb arity sofar)

theorem curtailsAll_zero : CurtailsAll options base 0 := by
  constructor
  all_goals
    intros
    exact Curtailed.refl _

section succ

variable {fuel : Nat} (ih : CurtailsAll options base fuel)
include ih

theorem curtailed_node (tag : String) :
    Curtailed (parseNode options (fuel + 1) tag) (parseNode base (fuel + 1) tag) := by
  rw [parseNode, parseNode]
  refine Curtailed.step fun s => ?_
  split
  · exact Curtailed.refl _
  · exact ih.type tag
  · refine Curtailed.step fun start => Curtailed.step fun mark =>
      (ih.climbing _ _ _).bind fun r => ?_
    exact Curtailed.refl _

theorem curtailed_any (types : List String) :
    Curtailed (parseAny options (fuel + 1) types) (parseAny base (fuel + 1) types) := by
  cases types with
  | nil => exact Curtailed.refl _
  | cons tag rest =>
      rw [parseAny, parseAny]
      refine (ih.node tag).bind fun r => ?_
      cases r with
      | none => exact ih.any rest
      | some id => exact Curtailed.refl _

theorem curtailed_type (hextends : options.Extends base) (tag : String) :
    Curtailed (parseType options (fuel + 1) tag) (parseType base (fuel + 1) tag) := by
  rw [parseType, parseType, hextends.dialect]
  refine Curtailed.step fun schema => ?_
  split
  · exact Curtailed.refl _
  · exact Curtailed.step fun start => Curtailed.step fun mark =>
      (ih.rule _ _ _).bind fun r => Curtailed.refl _

theorem curtailed_climbing (operands : List String) (climb : Climb) (minimum : Nat) :
    Curtailed (parseClimbing options (fuel + 1) operands climb minimum)
      (parseClimbing base (fuel + 1) operands climb minimum) := by
  rw [parseClimbing, parseClimbing]
  refine (ih.any operands).bind fun r => ?_
  cases r with
  | none => exact Curtailed.refl _
  | some left => exact (ih.extending _ _ _ _).bind fun id => Curtailed.refl _

theorem curtailed_extending (operands : List String) (climb : Climb) (minimum : Nat)
    (left : NodeId) :
    Curtailed (climbFrom options (fuel + 1) operands climb minimum left)
      (climbFrom base (fuel + 1) operands climb minimum left) := by
  rw [climbFrom, climbFrom]
  refine Curtailed.step fun operator => ?_
  split
  · exact Curtailed.refl _
  · refine Curtailed.step fun before => Curtailed.step fun mark => Curtailed.step fun _ =>
      Curtailed.step fun _ => (ih.climbing _ _ _).bind fun r => ?_
    cases r with
    | none => exact Curtailed.refl _
    | some right => exact Curtailed.step fun whole => ih.extending _ _ _ _

theorem curtailed_body (tag : String) (p : Production) (fields : Fields) :
    Curtailed (matchBody options fuel tag p fields) (matchBody base fuel tag p fields) := by
  cases p with
  | token info kinds values => exact Curtailed.refl _
  | node info types climb => exact ih.field _ _ _ _
  | sequence info parts => exact ih.all _ _ _
  | alternatives info branches =>
      rw [matchBody, matchBody]
      split
      · exact Curtailed.refl _
      · exact ih.first _ _ _
  | block info bracket inner => exact ih.block _ _ _ _

/-- Where one choice asserts a production that mismatches and the other does not, the
parse stops under the first. -/
theorem curtailed_rule (hextends : options.Extends base) (tag : String) (p : Production)
    (fields : Fields) :
    Curtailed (matchRule options (fuel + 1) tag p fields)
      (matchRule base (fuel + 1) tag p fields) := by
  rw [matchRule_succ, matchRule_succ]
  split
  · exact Curtailed.refl _
  · refine Curtailed.step fun start => Curtailed.step fun mark =>
      (curtailed_body ih tag p fields).bind fun matched => ?_
    cases matched with
    | some fields => exact Curtailed.refl _
    | none =>
        dsimp only
        by_cases hasserts : (!p.attrs.optional && asserts options p) = true
        · rw [if_pos hasserts]
          exact curtailed_assertionFailure p tag _
        · have hbase : ¬(!p.attrs.optional && asserts base p) = true := by
            intro hbase
            rw [Bool.and_eq_true] at hbase hasserts
            exact hasserts ⟨hbase.1, hextends.asserts p hbase.2⟩
          rw [if_neg hasserts, if_neg hbase]
          exact Curtailed.refl _

theorem curtailed_all (tag : String) (parts : List Production) (fields : Fields) :
    Curtailed (matchAll options (fuel + 1) tag parts fields)
      (matchAll base (fuel + 1) tag parts fields) := by
  cases parts with
  | nil => exact Curtailed.refl _
  | cons p rest =>
      rw [matchAll, matchAll]
      refine (ih.rule _ _ _).bind fun r => ?_
      cases r with
      | none => exact Curtailed.refl _
      | some fields => exact ih.all _ _ _

theorem curtailed_first (tag : String) (branches : List Production) (fields : Fields) :
    Curtailed (matchFirst options (fuel + 1) tag branches fields)
      (matchFirst base (fuel + 1) tag branches fields) := by
  cases branches with
  | nil => exact Curtailed.refl _
  | cons p rest =>
      rw [matchFirst, matchFirst]
      refine (ih.rule _ _ _).bind fun r => ?_
      cases r with
      | none => exact ih.first _ _ _
      | some fields => exact Curtailed.refl _

theorem curtailed_contents (tag : String) (inner : Production) (fields : Fields) :
    Curtailed (matchContents options fuel tag inner fields)
      (matchContents base fuel tag inner fields) :=
  Curtailed.step fun _ => (ih.rule _ _ _).bind fun _ => Curtailed.refl _

theorem curtailed_block (tag : String) (bracket : Bracket) (inner : Production)
    (fields : Fields) :
    Curtailed (matchBlock options (fuel + 1) tag bracket inner fields)
      (matchBlock base (fuel + 1) tag bracket inner fields) := by
  rw [matchBlock_succ, matchBlock_succ]
  refine Curtailed.step fun _ => Curtailed.step fun t => ?_
  split
  · exact Curtailed.refl _
  · split
    · exact Curtailed.refl _
    · refine Curtailed.step fun cell => ?_
      split
      · exact Curtailed.refl _
      · exact (curtailed_contents ih tag inner fields).inside _

theorem curtailed_field (info : RuleInfo) (types : List String) (climb : Option Climb)
    (fields : Fields) :
    Curtailed (matchNode options (fuel + 1) info types climb fields)
      (matchNode base (fuel + 1) info types climb fields) := by
  rw [matchNode, matchNode]
  split
  · exact Curtailed.refl _
  · split
    · exact (ih.operand _ _ _).bind fun r => Curtailed.refl _
    · exact (ih.items _ _ _ _ _).bind fun items => Curtailed.refl _

theorem curtailed_operand (info : RuleInfo) (types : List String) (climb : Option Climb) :
    Curtailed (matchOperand options (fuel + 1) info types climb)
      (matchOperand base (fuel + 1) info types climb) := by
  cases climb with
  | none => exact ih.any _
  | some climb => exact ih.climbing _ _ _

theorem curtailed_items (info : RuleInfo) (types : List String) (climb : Option Climb)
    (arity : Arity) (sofar : List NodeId) :
    Curtailed (matchItems options (fuel + 1) info types climb arity sofar)
      (matchItems base (fuel + 1) info types climb arity sofar) := by
  rw [matchItems, matchItems]
  split
  · exact Curtailed.refl _
  · refine Curtailed.step fun before => Curtailed.step fun mark => Curtailed.step fun more => ?_
    split
    · exact Curtailed.refl _
    · refine (ih.operand _ _ _).bind fun r => ?_
      cases r with
      | none => exact Curtailed.refl _
      | some id =>
          refine Curtailed.step fun s => ?_
          split
          · exact Curtailed.refl _
          · exact ih.items _ _ _ _ _

end succ

/-- A choice that asserts more stops a parse early, or changes nothing. -/
theorem curtailsAll (hextends : options.Extends base) (fuel : Nat) :
    CurtailsAll options base fuel := by
  induction fuel with
  | zero => exact curtailsAll_zero
  | succ fuel ih =>
      exact {
        node := curtailed_node ih
        any := curtailed_any ih
        type := curtailed_type ih hextends
        climbing := curtailed_climbing ih
        extending := curtailed_extending ih
        rule := curtailed_rule ih hextends
        all := curtailed_all ih
        first := curtailed_first ih
        block := curtailed_block ih
        field := curtailed_field ih
        operand := curtailed_operand ih
        items := curtailed_items ih }

theorem curtailed_whole (hextends : options.Extends base) (types : List String) :
    Curtailed (parseWhole options types) (parseWhole base types) :=
  Curtailed.step fun _ => Curtailed.step fun _ =>
    ((curtailsAll hextends _).any types).bind fun _ => Curtailed.refl _

theorem extends_assertWhen (d : Dialect) (p : String → Bool) :
    ParseOptions.Extends { dialect := d, assertWhen := some p } { dialect := d } where
  dialect := rfl
  asserts production h := by
    have hdeclared : production.attrs.asserted = true := by simpa [asserts] using h
    simp [asserts, hdeclared]

/-- Selecting productions to assert only adds errors. Where a parse under the
selection succeeds, a parse without it comes to the same root, forest, stream and
registry. Where a parse without it succeeds, a parse under it comes to the same, or
fails because of the input. -/
theorem parseWhole_asserting (registry : Registry) (d : Dialect) (types : List String)
    (source : Source) (p : String → Bool) :
    let s := start source registry d
    let plain := parseWhole { dialect := d } types s
    let asserting := parseWhole { dialect := d, assertWhen := some p } types s
    (∀ root t, asserting = (.ok root, t) → plain = (.ok root, t)) ∧
    (∀ root t, plain = (.ok root, t) →
      asserting = (.ok root, t) ∨ ∃ e u, asserting = (.error e, u) ∧ e.FromInput) := by
  intro s plain asserting
  have hcurtails := curtailed_whole (extends_assertWhen d p) types s
  constructor
  · intro root t hasserting
    exact hcurtails.ok hasserting
  · intro root t hplain
    obtain heq | herror := hcurtails
    · exact .inl (heq.trans hplain)
    · exact .inr herror

/-- Asserting that a literal is a number changes nothing for a number, and stops the
parse of a string that a parse without assertions accepts. -/
theorem parseWhole_asserting_literal :
    let isNumber := fun path : String => path == "NumberLiteral"
    let types := ["NumberLiteral", "StringLiteral"]
    let number := start (textSource "1") (Standard.extend {}) .postgres
    let string := start (textSource "'x'") (Standard.extend {}) .postgres
    (∃ root t,
      parseWhole { dialect := .postgres, assertWhen := some isNumber } types number =
        (.ok root, t) ∧
      parseWhole { dialect := .postgres } types number = (.ok root, t)) ∧
    ∃ e u, parseWhole { dialect := .postgres, assertWhen := some isNumber } types string =
      (.error e, u) ∧ e.FromInput := by
  intro isNumber types number string
  -- The kernel works out the schemas once for all of these.
  obtain ⟨hnumber, hstring, hstopped⟩ :
      (parseWhole { dialect := .postgres, assertWhen := some isNumber } types number).1.isOk =
        true ∧
      (parseWhole { dialect := .postgres } types string).1.isOk = true ∧
      (parseWhole { dialect := .postgres, assertWhen := some isNumber } types string).1.isOk =
        false := by
    decide +kernel
  constructor
  · rcases hrun : parseWhole { dialect := .postgres, assertWhen := some isNumber } types number with
      ⟨e | root, t⟩
    · rw [hrun] at hnumber
      cases hnumber
    · exact ⟨root, t, rfl, (parseWhole_asserting _ _ _ _ isNumber).1 root t hrun⟩
  · rcases hrun : parseWhole { dialect := .postgres } types string with ⟨e | root, t⟩
    · rw [hrun] at hstring
      cases hstring
    · obtain hsame | herror := (parseWhole_asserting _ _ _ _ isNumber).2 root t hrun
      · rw [hsame] at hstopped
        cases hstopped
      · exact herror

end Parsing

end DualSql
