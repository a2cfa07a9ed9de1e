import DualSql.Proofs.Grammar.Faithful
import DualSql.Proofs.Grammar.Writing
import DualSql.Proofs.Text.Casing

/-! # What is read as what is written

The pieces of trees of tokens: one for each token that is neither whitespace
nor a comment, and one for each bracket.

Main definitions: `TokenTree.pieces` and `Reads`, the pieces between two places
of the input. -/

namespace DualSql

namespace Token

/-- The pieces of a token that is no bracket. -/
def pieces (d : Dialect) (t : Token) : List Piece :=
  if t.kind.isTrivia then [] else [(Terminal.ofToken t).piece d]

/-- What a token knows of itself as an operator is what the dialect says. -/
def Sound (d : Dialect) (t : Token) : Prop :=
  ∀ info, t.operator = some info → Vocabulary.operator? d (Text.toUpper t.value) = some info

end Token

namespace Bracket

/-- Pieces between brackets. -/
def around (b : Bracket) (pieces : List Piece) : List Piece :=
  .text b.opener.toString :: (pieces ++ [.text b.closer.toString])

end Bracket

namespace TokenTree

mutual

/-- The pieces of a tree. -/
def pieces (d : Dialect) : TokenTree → List Piece
  | leaf t => t.pieces d
  | block t contents =>
    match Bracket.ofTokenKind? t.kind with
    | some b => b.around (piecesAll d contents)
    | none => []

/-- The pieces of several trees. -/
def piecesAll (d : Dialect) : List TokenTree → List Piece
  | [] => []
  | tree :: rest => tree.pieces d ++ piecesAll d rest

end

mutual

/-- A tree whose tokens know what they are. -/
def Sound (d : Dialect) : TokenTree → Prop
  | leaf t => t.Sound d
  | block t contents => t.kind.isBlock = true ∧ t.operator = none ∧ SoundAll d contents

/-- Trees whose tokens know what they are. -/
def SoundAll (d : Dialect) : List TokenTree → Prop
  | [] => True
  | tree :: rest => tree.Sound d ∧ SoundAll d rest

end

variable {d : Dialect} {trees rest : List TokenTree} {tree : TokenTree}

theorem Sound.token (h : tree.Sound d) : tree.token.Sound d := by
  cases tree with
  | leaf t => exact h
  | block t contents =>
      intro info hinfo
      obtain ⟨-, hnone, -⟩ := h
      rw [token, hnone] at hinfo
      cases hinfo

/-- A tree that stands for no bracket is a single token. -/
theorem pieces_of_not_isBlock (h : tree.Sound d) (hkind : tree.token.kind.isBlock = false) :
    tree.pieces d = tree.token.pieces d := by
  cases tree with
  | leaf t => rfl
  | block t contents =>
      rw [token, h.1] at hkind
      cases hkind

theorem piecesAll_significant (h : SoundAll d trees) :
    SoundAll d (significant trees) ∧ piecesAll d (significant trees) = piecesAll d trees := by
  induction trees with
  | nil => exact ⟨trivial, rfl⟩
  | cons tree rest ih =>
      rw [significant, List.dropWhile_cons]
      split
      next htrivia =>
        change tree.token.kind.isTrivia = true at htrivia
        obtain ⟨hsound, hpieces⟩ := ih h.2
        refine ⟨hsound, hpieces.trans ?_⟩
        have hblock : tree.token.kind.isBlock = false := by
          revert htrivia
          cases tree.token.kind <;> simp [TokenKind.isTrivia, TokenKind.isBlock]
        rw [piecesAll, pieces_of_not_isBlock h.1 hblock, Token.pieces, if_pos htrivia]
        rfl
      next => exact ⟨h, rfl⟩

theorem not_isTrivia_of_significant (h : significant trees = tree :: rest) :
    tree.token.kind.isTrivia = false := by
  have hhead := List.head?_dropWhile_not isTrivia trees
  rw [significant] at h
  rw [h] at hhead
  exact hhead

end TokenTree

open TokenTree

/-- The input from one place to another, with the pieces in between. -/
structure Reads (d : Dialect) (trees rest : List TokenTree) (pieces : List Piece) : Prop where
  sound : SoundAll d rest
  eq : piecesAll d trees = pieces ++ piecesAll d rest

namespace Reads

variable {d : Dialect} {trees rest rest' : List TokenTree} {p q : List Piece} {tree : TokenTree}

theorem refl (h : SoundAll d trees) : Reads d trees trees [] :=
  ⟨h, rfl⟩

theorem trans (h : Reads d trees rest p) (h' : Reads d rest rest' q) :
    Reads d trees rest' (p ++ q) :=
  ⟨h'.sound, by rw [h.eq, h'.eq, List.append_assoc]⟩

/-- The next tree that is not passed over. -/
theorem next (h : SoundAll d trees) (hsig : significant trees = tree :: rest) :
    tree.Sound d ∧ Reads d trees rest (tree.pieces d) := by
  obtain ⟨hsound, hpieces⟩ := piecesAll_significant h
  rw [hsig] at hsound hpieces
  exact ⟨hsound.1, hsound.2, hpieces.symm⟩

/-- The next token that is not passed over and is no bracket. -/
theorem token (h : SoundAll d trees) (hsig : significant trees = tree :: rest)
    (hkind : tree.token.kind.isBlock = false) :
    Reads d trees rest [(Terminal.ofToken tree.token).piece d] := by
  obtain ⟨hsound, hreads⟩ := next h hsig
  rw [pieces_of_not_isBlock hsound hkind, Token.pieces, not_isTrivia_of_significant hsig] at hreads
  simpa using hreads

end Reads

/-! ### Tokens that are written without being kept -/

/-- A word is spelled as the word that it matches. -/
theorem fixedSpelling_eq {kind : TokenKind} {value value' : String} (hword : kind.isWord = true)
    (h : Text.eqIgnoringAsciiCase value value' = true) :
    fixedSpelling .upper kind value = fixedSpelling .upper kind value' := by
  have hupper : KeywordCase.upper.apply value = KeywordCase.upper.apply value' :=
    Text.toUpper_eq_of_eqIgnoringAsciiCase h
  cases kind with
  | operator =>
      simp only [fixedSpelling, Text.any_isAlphabetic_of_eqIgnoringAsciiCase h, hupper]
      split
      next => rfl
      next halpha =>
        apply Text.eq_of_eqIgnoringAsciiCase h
        apply List.all_eq_true.2
        intro c hc
        cases hletter : c.isAlpha with
        | false => rfl
        | true =>
            exact absurd (List.any_eq_true.2 ⟨c, hc, Text.isAlphabetic_of_isAlpha hletter⟩) halpha
  | keyword => exact hupper
  | dataType => exact hupper
  | _ => simp [TokenKind.isWord] at hword

theorem piece_of_isFixed {t : Token} (d : Dialect) (h : t.kind.isFixed = true) :
    (Terminal.ofToken t).piece d = .text (fixedSpelling .upper t.kind t.value) := by
  obtain ⟨kind, value, position, space, delimiter, modifier, operator⟩ := t
  cases kind <;> first | rfl | simp [TokenKind.isFixed] at h

/-- A token that one value fits is written as the value. -/
theorem Reads.fixed {d : Dialect} {trees rest : List TokenTree} {tree : TokenTree}
    {kind : TokenKind} {value : String} (hfixed : kind.isFixed = true) (h : SoundAll d trees)
    (hsig : significant trees = tree :: rest)
    (hfits : Parsing.fits [kind] [value] tree.token = true) :
    Reads d trees rest [.text (fixedSpelling .upper kind value)] := by
  obtain ⟨hkind, hvalue⟩ : tree.token.kind = kind ∧
      tree.token.is tree.token.kind (some value) = true := by
    simpa [Parsing.fits] using hfits
  subst hkind
  have hblock : tree.token.kind.isBlock = false := by
    revert hfixed
    cases tree.token.kind <;> simp [TokenKind.isFixed, TokenKind.isBlock]
  have hreads := Reads.token h hsig hblock
  have hspelling : fixedSpelling .upper tree.token.kind tree.token.value =
      fixedSpelling .upper tree.token.kind value := by
    rw [Token.is, beq_self_eq_true, Bool.true_and] at hvalue
    split at hvalue
    next hword => exact fixedSpelling_eq hword hvalue
    next => rw [beq_iff_eq.1 hvalue]
  rwa [piece_of_isFixed d hfixed, hspelling] at hreads

/-- A separator is written as it stands. -/
theorem Reads.separator {d : Dialect} {trees rest : List TokenTree} {tree : TokenTree}
    {separator : String} (hplain : Production.plainSeparator separator = true)
    (h : SoundAll d trees) (hsig : significant trees = tree :: rest)
    (hsep : Parsing.isSeparator separator tree.token = true) :
    Reads d trees rest [.text separator] := by
  obtain ⟨hletters, hkinds⟩ := Bool.and_eq_true_iff.1 hplain
  obtain ⟨hkind, hvalue⟩ := Bool.and_eq_true_iff.1 hsep
  have hfixed : tree.token.kind.isFixed = true := by
    revert hkind
    cases tree.token.kind <;> simp [TokenKind.isFixed]
  have hblock : tree.token.kind.isBlock = false := by
    revert hfixed
    cases tree.token.kind <;> simp [TokenKind.isFixed, TokenKind.isBlock]
  have hspelling : fixedSpelling .upper tree.token.kind separator = separator := by
    refine beq_iff_eq.1 (List.all_eq_true.1 hkinds tree.token.kind ?_)
    revert hkind
    cases tree.token.kind <;> simp
  have hreads := Reads.token h hsig hblock
  rwa [piece_of_isFixed d hfixed, Text.eq_of_eqIgnoringAsciiCase hvalue hletters,
    hspelling] at hreads

end DualSql
