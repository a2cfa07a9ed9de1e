import DualSql.Proofs.Grammar.Pieces
import DualSql.Proofs.Vocabulary

/-! # Operators as they were read

What climbing makes of operands and operators is written without brackets:
where an operand ends, no operator follows that could still have joined it, and
where one follows, it binds less tightly than those before it.

Main definitions: `FaithfulOutline`, the grammars that are dealt with, `Follows`
and `Stops`, what can come behind an operand, and `Written`, how a tree is
written that was read up to some place. Main results: `written_joined` and
`extensible_joined`. -/

namespace DualSql

/-- The least precedence that the left operand of an operator is written with. -/
def OperatorInfo.leftMinimum (info : OperatorInfo) : Nat :=
  match info.associativity with
  | .left => info.precedence
  | .right => min (info.precedence + 1) 255

/-- A grammar whose trees can be written as they were read, with one kind of
expression. -/
structure FaithfulOutline extends Outline where
  operands : List String
  climb : Climb
  distinct : climb.distinct = true
  /-- Operands are matched by their own rules. -/
  declared : ∀ tag ∈ operands, ∃ rule, registry.type? tag = some (.declared rule)
  /-- What is matched by its own rule can be told apart. -/
  faithful : ∀ tag rule schema root, registry.type? tag = some (.declared rule) →
    (registry.schema tag options.dialect).1 = .ok schema → schema.root = some root →
    root.faithfulRoot operands climb = true
  /-- All climbing is over these operands. -/
  climbs : ∀ tag types climb' rule, registry.type? tag = some (.climbing types climb' rule) →
    types = operands ∧ climb' = climb
  /-- What climbing makes has the shape of a binary expression. -/
  joins : ∃ rule schema root, registry.type? climb.node = some (.climbing operands climb rule) ∧
    (registry.schema climb.node options.dialect).1 = .ok schema ∧ schema.root = some root ∧
    root.joins climb = true

namespace Production

/-- What has to match has to be written. -/
theorem isSkipped_eq_false {p : Production} (h : p.isOpen = false) (has : String → Bool) :
    p.isSkipped has = false := by
  obtain ⟨hoptional, hcondition⟩ := Bool.or_eq_false_iff.1 h
  rw [Option.isSome_eq_false_iff, Option.isNone_iff_eq_none] at hcondition
  simp [isSkipped, hoptional, hcondition]

theorem joins_eq {climb : Climb} {p : Production} (h : p.joins climb = true) :
    ∃ info i types c j kinds values k types' c',
      p = sequence info [node i types c, token j kinds values, node k types' c'] ∧
      i.attrs.name = some climb.left ∧ j.attrs.name = some climb.operator ∧
      k.attrs.name = some climb.right ∧ p.isOpen = false ∧ (node i types c).isOpen = false ∧
      (token j kinds values).isOpen = false ∧ (node k types' c').isOpen = false := by
  unfold joins at h
  split at h
  next info i types c j kinds values k types' c' =>
    simp only [List.all_cons, List.all_nil, Bool.and_true, Bool.and_eq_true, Bool.not_eq_true',
      beq_iff_eq] at h
    obtain ⟨⟨⟨⟨hp, hi, hj, hk⟩, hleft⟩, hoperator⟩, hright⟩ := h
    exact ⟨info, i, types, c, j, kinds, values, k, types', c', rfl, hleft, hoperator, hright, hp,
      hi, hj, hk⟩
  next => cases h

end Production

namespace FaithfulOutline

open TokenTree Outline

variable (g : FaithfulOutline)

/-- The dialect of what is read and written. -/
abbrev dialect : Dialect :=
  g.options.dialect

/-- An operator of some precedence comes next, with an operand behind it. Zero
stands for no operator at all. -/
def Follows (precedence : Nat) (rest : List TokenTree) : Prop :=
  precedence = 0 ∨ ∃ t info after fuel x rest', operator 0 rest = some (t, info, after) ∧
    info.precedence = precedence ∧
    g.climbing fuel g.operands g.climb (Parsing.nextMinimum info) after = .found x rest'

/-- Every operator that comes next is below a precedence. -/
def Stops (minimum : Nat) (rest : List TokenTree) : Prop :=
  ∀ precedence, g.Follows precedence rest → precedence = 0 ∨ precedence < minimum

/-- How a tree is written that was read up to some place, in any context that
can be there. -/
def Written (minimum : Nat) (x : Content) (rest : List TokenTree) (pieces : List Piece) : Prop :=
  ∀ depth context, x.height ≤ depth → context.minimum ≤ minimum →
    g.Follows context.trailing rest → g.write depth context x = some pieces

/-- A tree that can become the left operand of whatever operator comes next. -/
structure Extensible (minimum : Nat) (left : Content) (rest : List TokenTree)
    (pieces : List Piece) : Prop where
  alone : g.Written minimum left rest pieces
  joined : ∀ t info after, operator 0 rest = some (t, info, after) →
    g.Follows info.precedence rest → g.Written info.leftMinimum left rest pieces

variable {g} {minimum : Nat} {x left right : Content} {trees rest after : List TokenTree}
  {pieces before : List Piece} {t : Token} {info : OperatorInfo}

theorem follows_zero (rest : List TokenTree) : g.Follows 0 rest :=
  .inl rfl

theorem Written.mono {minimum' : Nat} (h : g.Written minimum x rest pieces)
    (hle : minimum' ≤ minimum) : g.Written minimum' x rest pieces := by
  intro depth context hdepth hmin hfollows
  exact h depth context hdepth (Nat.le_trans hmin hle) hfollows

theorem Written.free {depth : Nat} (h : g.Written minimum x rest pieces)
    (hdepth : x.height ≤ depth) : g.write depth .free x = some pieces :=
  h depth .free hdepth (Nat.zero_le _) (follows_zero rest)

/-- What is written is a tree. -/
theorem exists_node {depth : Nat} {context : Context}
    (h : g.write depth context x = some pieces) : ∃ tag fields, x = .node tag fields := by
  cases x with
  | node tag fields => exact ⟨tag, fields, rfl⟩
  | terminal t => simp [Outline.write] at h
  | list items => simp [Outline.write] at h

theorem operator_eq (h : operator minimum trees = some (t, info, after)) :
    ∃ tree, significant trees = tree :: after ∧ tree.token = t ∧ t.operator = some info ∧
      info.binary = true ∧ minimum ≤ info.precedence := by
  unfold operator at h
  split at h
  next => cases h
  next tree rest hsig =>
    split at h
    next info' hinfo =>
      split at h
      next hbinary =>
        cases h
        obtain ⟨hb, hm⟩ := Bool.and_eq_true_iff.1 hbinary
        exact ⟨tree, hsig, rfl, hinfo, hb, of_decide_eq_true hm⟩
      next => cases h
    next => cases h

theorem operator_of_le {least : Nat} (h : operator minimum trees = some (t, info, after))
    (hle : least ≤ info.precedence) : operator least trees = some (t, info, after) := by
  obtain ⟨tree, hsig, rfl, hinfo, hbinary, -⟩ := operator_eq h
  simp [operator, hsig, hinfo, hbinary, hle]

/-- The token of an operator is written as it stands, and the dialect knows it. -/
theorem reads_operator (hs : SoundAll g.dialect trees)
    (h : operator minimum trees = some (t, info, after)) :
    Reads g.dialect trees after [(Terminal.ofToken t).piece g.dialect] ∧
      Vocabulary.operator? g.dialect (Text.toUpper t.value) = some info := by
  obtain ⟨tree, hsig, rfl, hinfo, -, -⟩ := operator_eq h
  obtain ⟨hsound, hreads⟩ := Reads.next hs hsig
  refine ⟨?_, hsound.token info hinfo⟩
  cases tree with
  | leaf t =>
      rw [TokenTree.pieces, Token.pieces, show t.kind.isTrivia = false from
        not_isTrivia_of_significant hsig] at hreads
      exact hreads
  | block t contents =>
      rw [TokenTree.token, hsound.2.1] at hinfo
      cases hinfo

/-- Where no operator is taken, the others are below the least precedence. -/
theorem stops_of_operator_eq_none (h : operator minimum trees = none) : g.Stops minimum trees := by
  rintro precedence (rfl | ⟨t, info, after, fuel, y, rest', hop, rfl, -⟩)
  · exact .inl rfl
  · by_cases hle : minimum ≤ info.precedence
    · rw [operator_of_le hop hle] at h
      cases h
    · exact .inr (Nat.lt_of_not_le hle)

/-- Where an operator is taken back, nothing follows. -/
theorem stops_of_mismatch {fuel : Nat} (hop : operator minimum trees = some (t, info, after))
    (hmis : g.climbing fuel g.operands g.climb (Parsing.nextMinimum info) after = .mismatch) :
    g.Stops minimum trees := by
  rintro precedence (rfl | ⟨t', info', after', fuel', y, rest', hop', rfl, hfound⟩)
  · exact .inl rfl
  · exfalso
    rw [operator_of_le hop (Nat.zero_le _)] at hop'
    cases hop'
    -- With as much fuel as the two attempts have together they come to the same.
    have hleft := climbing_mono (Nat.le_max_left fuel fuel') (hmis.trans_ne nofun)
    have hright := climbing_mono (Nat.le_max_right fuel fuel') (hfound.trans_ne nofun)
    rw [hleft, hmis, hfound] at hright
    cases hright

/-! ### Two operands with an operator between them -/

theorem fields_ne (g : FaithfulOutline) : g.climb.left ≠ g.climb.operator ∧
    g.climb.left ≠ g.climb.right ∧ g.climb.operator ≠ g.climb.right := by
  have h := g.distinct
  simp only [Climb.distinct, Bool.and_eq_true, bne_iff_ne] at h
  exact ⟨h.1.1, h.1.2, h.2⟩

/-- The fields of a binary expression. -/
def parts (g : FaithfulOutline) (left : Content) (t : Token) (right : Content) : Parts :=
  [(g.climb.left, left), (g.climb.operator, .terminal (.ofToken t)), (g.climb.right, right)]

theorem lookup_left : (g.parts left t right).lookup g.climb.left = some left := by
  simp [parts]

theorem lookup_operator :
    (g.parts left t right).lookup g.climb.operator = some (.terminal (.ofToken t)) := by
  obtain ⟨h, -, -⟩ := g.fields_ne
  simp [parts, List.lookup_cons, beq_false_of_ne h.symm]

theorem lookup_right : (g.parts left t right).lookup g.climb.right = some right := by
  obtain ⟨-, h, h'⟩ := g.fields_ne
  simp [parts, List.lookup_cons, beq_false_of_ne h.symm, beq_false_of_ne h'.symm]

/-- The operation of a binary expression is that of its operator. -/
theorem operation_parts (ht : Vocabulary.operator? g.dialect (Text.toUpper t.value) = some info)
    (hbinary : info.binary = true) :
    Outline.operation g.dialect (g.parts left t right) g.climb =
      ⟨g.climb, info.precedence, info.associativity⟩ := by
  have hinfo : Rendering.operatorInfo? g.dialect g.dialect
      (some (.terminal (.ofToken t))) = some info := by
    simp [Rendering.operatorInfo?, FieldValue.terminal?, Terminal.ofToken, ht, hbinary]
  simp only [Outline.operation, lookup_operator, hinfo]

theorem childContext_left (info : OperatorInfo) (rule : RuleInfo) (fields : Parts)
    (context : Context) :
    Scene.childContext ⟨fields, context, some ⟨g.climb, info.precedence, info.associativity⟩⟩ rule
      g.climb.left = ⟨info.leftMinimum, info.precedence⟩ := by
  simp only [Scene.childContext, Frame.childContext, if_true, OperatorInfo.leftMinimum]
  cases info.associativity <;> rfl

theorem childContext_right (info : OperatorInfo) (rule : RuleInfo) (fields : Parts)
    (context : Context) :
    Scene.childContext ⟨fields, context, some ⟨g.climb, info.precedence, info.associativity⟩⟩ rule
      g.climb.right = ⟨Parsing.nextMinimum info, context.trailing⟩ := by
  obtain ⟨-, h, -⟩ := g.fields_ne
  simp only [Scene.childContext, Frame.childContext, if_neg h.symm, if_true, Parsing.nextMinimum]
  cases info.associativity <;> rfl

/-- A binary expression is written as its operands with the operator between them. -/
theorem write_joined {depth : Nat} {context : Context} {before after : List Piece}
    (ht : Vocabulary.operator? g.dialect (Text.toUpper t.value) = some info)
    (hbinary : info.binary = true) (hmin : context.minimum ≤ info.precedence)
    (hleft : g.write depth ⟨info.leftMinimum, info.precedence⟩ left = some before)
    (hright : g.write depth ⟨Parsing.nextMinimum info, context.trailing⟩ right = some after) :
    g.write (depth + 1) context (joined g.climb left t right) =
      some (before ++ ([(Terminal.ofToken t).piece g.dialect] ++ after)) := by
  obtain ⟨rule, schema, root, htype, hschema, hroot, hjoins⟩ := g.joins
  obtain ⟨info', i, types, c, j, kinds, values, k, types', c', rfl, hi, hj, hk, hp, hpi, hpj,
    hpk⟩ := Production.joins_eq hjoins
  obtain ⟨tag, fields, rfl⟩ := exists_node hleft
  obtain ⟨tag', fields', rfl⟩ := exists_node hright
  have hbrackets : ¬ info.precedence < context.minimum := Nat.not_lt.2 hmin
  rw [joined, Outline.write, htype, hschema]
  simp only [hroot, Option.bind_some, NodeType.climb?, Option.map_some]
  change Writing.shape g.dialect (g.write depth) (g.parts (.node tag fields) t (.node tag' fields'))
    context (some (Outline.operation g.dialect (g.parts _ t _) g.climb)) _ = _
  simp only [operation_parts ht hbinary, Writing.shape, Rendering.needsBrackets, hbrackets, decide_false,
    Bool.false_eq_true, if_false, Writing.rule_eq, Production.isSkipped_eq_false hp, Writing.body,
    Writing.all, Production.isSkipped_eq_false hpi, Production.isSkipped_eq_false hpj,
    Production.isSkipped_eq_false hpk, hi, hj, hk, Writing.children, Writing.terminal,
    lookup_left, lookup_operator, lookup_right, childContext_left, childContext_right, hleft, hright]
  simp

/-- What climbing makes of an operator is written without brackets wherever the
operator itself would be. -/
theorem written_joined {fuel : Nat} (hs : SoundAll g.dialect trees)
    (hop : operator minimum trees = some (t, info, after))
    (hfound : g.climbing fuel g.operands g.climb (Parsing.nextMinimum info) after =
      .found right rest)
    (hleft : g.Extensible minimum left trees before)
    (hright : g.Written (Parsing.nextMinimum info) right rest pieces) :
    g.Written info.precedence (joined g.climb left t right) rest
      (before ++ ([(Terminal.ofToken t).piece g.dialect] ++ pieces)) := by
  intro depth context hdepth hmin hfollows
  obtain ⟨-, ht⟩ := reads_operator hs hop
  obtain ⟨-, -, -, -, hbinary, -⟩ := operator_eq hop
  have hop₀ := operator_of_le hop (Nat.zero_le _)
  have hbehind : g.Follows info.precedence trees :=
    .inr ⟨t, info, after, fuel, right, rest, hop₀, rfl, hfound⟩
  obtain ⟨depth, rfl⟩ : ∃ n, depth = n + 1 := by
    refine ⟨depth - 1, ?_⟩
    simp only [joined, Content.height] at hdepth
    omega
  obtain ⟨hl, hr⟩ : left.height ≤ depth ∧ right.height ≤ depth := by
    simp only [joined, Content.height, Content.heightFields] at hdepth
    omega
  refine write_joined ht hbinary hmin ?_ ?_
  · exact hleft.joined t info after hop₀ hbehind depth _ hl (Nat.le_refl _) hbehind
  · exact hright depth _ hr (Nat.le_refl _) hfollows

/-- What climbing makes of an operator can be extended in its turn. -/
theorem extensible_joined {fuel : Nat} (hs : SoundAll g.dialect trees)
    (hop : operator minimum trees = some (t, info, after))
    (hfound : g.climbing fuel g.operands g.climb (Parsing.nextMinimum info) after =
      .found right rest)
    (hleft : g.Extensible minimum left trees before)
    (hright : g.Written (Parsing.nextMinimum info) right rest pieces)
    (hrest : SoundAll g.dialect rest) (hstops : g.Stops (Parsing.nextMinimum info) rest) :
    g.Extensible minimum (joined g.climb left t right) rest
      (before ++ ([(Terminal.ofToken t).piece g.dialect] ++ pieces)) := by
  have hwritten := written_joined hs hop hfound hleft hright
  obtain ⟨-, ht⟩ := reads_operator hs hop
  obtain ⟨-, -, -, -, -, hmin⟩ := operator_eq hop
  refine ⟨hwritten.mono hmin, ?_⟩
  intro t' info' after' hop' hfollows
  obtain ⟨-, ht'⟩ := reads_operator hrest hop'
  obtain ⟨hpos, -⟩ := Vocabulary.precedence_bounds ht'
  obtain ⟨-, hbound⟩ := Vocabulary.precedence_bounds ht
  have hlt : info'.precedence < Parsing.nextMinimum info :=
    (hstops info'.precedence hfollows).resolve_left (Nat.ne_of_gt hpos)
  refine hwritten.mono ?_
  -- An operator of the same level groups alike, and then to the left.
  have hassoc := Vocabulary.associativity_eq ht ht'
  simp only [Parsing.nextMinimum, OperatorInfo.leftMinimum] at hlt ⊢
  cases ha : info.associativity <;> cases ha' : info'.associativity <;>
    simp only [ha, ha', reduceCtorEq, imp_false] at hlt hassoc ⊢ <;> omega

end FaithfulOutline

end DualSql
