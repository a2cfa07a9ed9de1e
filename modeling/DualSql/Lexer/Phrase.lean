import DualSql.Text.Casing
import DualSql.Vocabulary

/-! # Phrases

Adjacent words that spell an entry of the compound table become one token.
Words wait while the phrase they spell may still grow; after that the longest
compound at their head is taken, and the words behind it are considered anew.

Main definition: `settle`. -/

namespace DualSql.Phrase

/-- Whether a token is a bare word, which can be part of a phrase. -/
def isWord (t : Token) : Bool :=
  (t.kind == .keyword || t.kind == .identifier || t.kind == .dataType) && t.delimiter.isNone

/-- The phrase that waiting tokens spell; trivia between the words is left out. -/
def spelling (words : List Token) : String :=
  " ".intercalate ((words.filter fun t => !t.kind.isTrivia).map fun t => Text.toUpper t.value)

/-- A compound at the head of the waiting words. -/
structure Found where
  phrase : String
  kind : TokenKind
  /-- How many tokens behind the first word belong to it. -/
  extent : Nat
  deriving DecidableEq, Repr

/-- The longest compound that extends `phrase`, which ends `seen` tokens
behind the first word, or else the given one. -/
def longest (d : Dialect) (phrase : String) (seen : Nat) (best : Option Found) :
    List Token → Option Found
  | [] => best
  | t :: rest =>
    if t.kind.isTrivia then longest d phrase (seen + 1) best rest
    else
      let grown := phrase ++ " " ++ Text.toUpper t.value
      let best := match (Vocabulary.phrase d grown).complete with
        | some kind => some ⟨grown, kind, seen + 1⟩
        | none => best
      longest d grown (seen + 1) best rest

/-- A word that is no part of a phrase; keywords carry their operator info. -/
def single (d : Dialect) (word : Token) : Token :=
  if word.kind = .keyword then { word with operator := Vocabulary.operator? d word.value }
  else word

/-- The token of a compound, which stands where its first word does. -/
def compound (d : Dialect) (first : Token) (found : Found) : Token where
  kind := found.kind
  value := found.phrase
  position := first.position
  spaceBefore := first.spaceBefore
  operator := Vocabulary.operator? d found.phrase

/-- The first token that waiting words form, and the number of tokens behind
the first word that it takes. -/
def head (d : Dialect) (word : Token) (rest : List Token) : Token × Nat :=
  match longest d (Text.toUpper word.value) 0 none rest with
  | some found => (compound d word found, found.extent)
  | none => (single d word, 0)

/-- Whether a longer compound starts with the waiting words. -/
def mayGrow (d : Dialect) (words : List Token) : Bool :=
  (Vocabulary.phrase d (spelling words)).continues

/-- The tokens that are decided, and the words that still wait. Nothing waits
when no more words can come. -/
def settle (d : Dialect) (final : Bool) : List Token → List Token × List Token
  | [] => ([], [])
  | t :: rest =>
    if t.kind.isTrivia then
      let (out, waiting) := settle d final rest
      (t :: out, waiting)
    else if !final && mayGrow d (t :: rest) then ([], t :: rest)
    else
      let (first, extent) := head d t rest
      let (out, waiting) := settle d final (rest.drop extent)
      (first :: out, waiting)
termination_by words => words.length
decreasing_by all_goals simp; try omega

/-- Settling makes no tokens beyond those that came in. -/
theorem length_settle (d : Dialect) (final : Bool) (words : List Token) :
    (settle d final words).1.length + (settle d final words).2.length ≤ words.length := by
  fun_induction settle d final words with
  | case1 => simp
  | case2 t rest _ out waiting h ih => simp_all; omega
  | case3 => simp
  | case4 t rest _ _ first extent _ out waiting h ih => simp_all; omega

end DualSql.Phrase
