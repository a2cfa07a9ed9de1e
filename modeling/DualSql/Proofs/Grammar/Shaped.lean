import DualSql.Proofs.Grammar.Accepted
import DualSql.Proofs.Grammar.StructuredReading

/-! # What is parsed fits the shapes of its types

Whatever a production matches, the fields that it sets are those of one of its
shapes, and each of them can be read back from its structured form. So every
tree that parsing finds fits a shape of its type.

Main definitions: `Production.readable` and `ReadableOutline`. Main result:
`ReadableOutline.tells`, with `Told` for what a match comes to. -/

namespace DualSql

/-! ### Shapes -/

namespace Production

open Schema

/-- The shapes of a production, its own attributes aside. -/
def bodyShapes (optional : Bool) (condition : Option Condition) : Production → List Shape
  | token info kinds values => fieldShapes info optional condition (.terminal kinds values)
  | node info types climb =>
    fieldShapes info optional condition <|
      match info.attrs.arity with
      | some arity => .list (acceptedTypes types climb) arity info.attrs.singletons
      | none => .node (acceptedTypes types climb)
  | alternatives info branches =>
    if info.attrs.name.isSome then fieldShapes info optional condition (plainKind branches)
    else branchShapes optional condition branches
  | sequence _ parts => sequenceShapes optional condition parts
  | block _ _ inner => shapesOf optional condition inner

theorem shapesOf_eq (optional : Bool) (condition : Option Condition) (p : Production) :
    shapesOf optional condition p =
      p.bodyShapes (optional || p.attrs.optional) (p.attrs.condition.or condition) := by
  cases p <;> rw [shapesOf] <;> rfl

/-- The fields that conditions inside a production ask for. -/
def innerAsks : Production → List String
  | token .. | node .. => []
  | sequence _ parts | alternatives _ parts => asksAll parts
  | block _ _ inner => inner.asks

theorem asks_eq (p : Production) :
    p.asks = (p.attrs.condition.map Condition.field).toList ++ p.innerAsks := by
  cases p <;> simp [asks, innerAsks, attrs, info]

/-- Whether the text of a token tells which of the kinds it has. Words are told
from one another, a phrase is told as an identifier, and a symbol is told from
its value. -/
def readableToken (kinds : List TokenKind) (values : List String) : Bool :=
  (kinds.all Vocabulary.isWordKind || kinds.length == 1) &&
    (!kinds.contains .dataType || kinds.contains .identifier) &&
    if values.isEmpty then !kinds.contains .operator
    else kinds.length == 1 && !values.contains "$"

/-- Whether the keywords that a token can be are named, and reserved in every
dialect. -/
def reservedToken (kinds : List TokenKind) (values : List String) : Bool :=
  !kinds.contains .keyword ||
    (!values.isEmpty && values.all fun v =>
      Dialect.all.all (Vocabulary.isKeyword · (Text.toUpper v)))

/-- Whether a token of a branch is one of the kinds and values of all branches. -/
def isMerged (kinds : List TokenKind) (values : List String) (branch : Production) : Bool :=
  branch.token?.all fun t =>
    t.1.all kinds.contains && (values.isEmpty || (!t.2.isEmpty && t.2.all values.contains)) &&
      reservedToken t.1 t.2

mutual

/-- Whether what a production matches can be read back from its structured form. -/
def readable (p : Production) : Bool :=
  (p.attrs.condition.isNone || p.innerAsks.isEmpty) &&
  match p with
  | token info kinds values =>
    info.attrs.name.isNone || (readableToken kinds values && reservedToken kinds values)
  | node info _ _ => info.attrs.singletons == .unrestricted
  | sequence _ parts => readableAll parts
  | alternatives info branches =>
    if info.attrs.name.isSome then
      match plainKind branches with
      | .terminal kinds values => readableToken kinds values && branches.all (isMerged kinds values)
      | _ => false
    else !branches.isEmpty && readableAll branches
  | block _ _ inner => inner.readable

/-- Whether what several productions match can be read back. -/
def readableAll : List Production → Bool
  | [] => true
  | p :: rest => p.readable && readableAll rest

end

/-- The facts about the shapes of a production that let it be passed over. -/
structure Skips (shapes : Bool → Option Condition → List Shape) (asks : List String) : Prop where
  nonempty : ∀ optional condition, shapes optional condition ≠ []
  optional : ∀ condition, ∀ shape ∈ shapes true condition, ∀ field ∈ shape, field.optional = true
  condition : asks = [] → ∀ optional condition, ∀ shape ∈ shapes optional condition,
    ∀ field ∈ shape, field.condition = condition

theorem skips_field (info : RuleInfo) (kind : FieldKind) :
    Skips (fun optional condition => fieldShapes info optional condition kind) [] := by
  unfold fieldShapes
  cases info.attrs.name with
  | none => constructor <;> simp
  | some name => constructor <;> simp

theorem Skips.own {p : Production} (h : Skips (fun o c => p.bodyShapes o c) p.innerAsks) :
    Skips (fun o c => shapesOf o c p) p.asks := by
  constructor
  · intro optional condition
    rw [shapesOf_eq]
    exact h.nonempty _ _
  · intro condition shape hshape
    rw [shapesOf_eq, Bool.true_or] at hshape
    exact h.optional _ shape hshape
  · intro hasks optional condition shape hshape
    rw [asks_eq, List.append_eq_nil_iff] at hasks
    obtain ⟨hown, hinner⟩ := hasks
    have hnone : p.attrs.condition = none := by
      cases hc : p.attrs.condition with
      | none => rfl
      | some c => simp [hc] at hown
    rw [shapesOf_eq, hnone, Option.none_or] at hshape
    exact h.condition hinner _ _ shape hshape

mutual

theorem skips_body : (p : Production) → p.readable = true →
    Skips (fun o c => p.bodyShapes o c) p.innerAsks
  | token info kinds values, _ => skips_field info _
  | node info types climb, _ => skips_field info _
  | sequence info parts, h => by
      rw [readable, Bool.and_eq_true] at h
      exact skips_sequence parts h.2
  | alternatives info branches, h => by
      rw [readable, Bool.and_eq_true] at h
      obtain ⟨-, h⟩ := h
      cases hname : info.attrs.name with
      | some name =>
          have hfield := skips_field info (plainKind branches)
          simp only [bodyShapes, hname, Option.isSome_some, if_true]
          exact ⟨hfield.nonempty, hfield.optional, fun _ => hfield.condition rfl⟩
      | none =>
          simp only [hname, Option.isSome_none, Bool.false_eq_true, if_false,
            Bool.and_eq_true] at h
          simp only [bodyShapes, hname, Option.isSome_none, Bool.false_eq_true, if_false]
          exact skips_branches branches (by simpa using h.1) h.2
  | block info bracket inner, h => by
      rw [readable, Bool.and_eq_true] at h
      exact (skips_body inner h.2).own

theorem skips_sequence : (parts : List Production) → readableAll parts = true →
    Skips (fun o c => sequenceShapes o c parts) (asksAll parts)
  | [], _ => by constructor <;> simp [sequenceShapes]
  | p :: rest, h => by
      rw [readableAll, Bool.and_eq_true] at h
      have hhead := (skips_body p h.1).own
      have htail := skips_sequence rest h.2
      constructor
      · intro optional condition
        simp only [sequenceShapes, ne_eq, List.flatMap_eq_nil_iff, List.map_eq_nil_iff,
          not_forall]
        obtain ⟨shape, hshape⟩ := List.exists_mem_of_ne_nil _ (hhead.nonempty optional condition)
        exact ⟨shape, hshape, htail.nonempty optional condition⟩
      · intro condition shape hshape field hfield
        simp only [sequenceShapes, List.mem_flatMap, List.mem_map] at hshape
        obtain ⟨first, hfirst, others, hothers, rfl⟩ := hshape
        rcases List.mem_append.1 hfield with hfield | hfield
        · exact hhead.optional condition first hfirst field hfield
        · exact htail.optional condition others hothers field hfield
      · intro hasks optional condition shape hshape field hfield
        rw [asksAll, List.append_eq_nil_iff] at hasks
        simp only [sequenceShapes, List.mem_flatMap, List.mem_map] at hshape
        obtain ⟨first, hfirst, others, hothers, rfl⟩ := hshape
        rcases List.mem_append.1 hfield with hfield | hfield
        · exact hhead.condition hasks.1 optional condition first hfirst field hfield
        · exact htail.condition hasks.2 optional condition others hothers field hfield

theorem skips_branches : (branches : List Production) → branches ≠ [] →
    readableAll branches = true →
    Skips (fun o c => branchShapes o c branches) (asksAll branches)
  | [], hne, _ => absurd rfl hne
  | p :: rest, _, h => by
      rw [readableAll, Bool.and_eq_true] at h
      have hhead := (skips_body p h.1).own
      have htail : ∀ shape, ∀ o c, shape ∈ branchShapes o c rest → rest ≠ [] := by
        rintro shape o c hshape rfl
        cases hshape
      constructor
      · intro optional condition hnil
        rw [branchShapes, List.append_eq_nil_iff] at hnil
        exact hhead.nonempty optional condition hnil.1
      · intro condition shape hshape
        rw [branchShapes, List.mem_append] at hshape
        rcases hshape with hshape | hshape
        · exact hhead.optional condition shape hshape
        · exact (skips_branches rest (htail _ _ _ hshape) h.2).optional condition shape hshape
      · intro hasks optional condition shape hshape
        rw [asksAll, List.append_eq_nil_iff] at hasks
        rw [branchShapes, List.mem_append] at hshape
        rcases hshape with hshape | hshape
        · exact hhead.condition hasks.1 optional condition shape hshape
        · exact (skips_branches rest (htail _ _ _ hshape) h.2).condition hasks.2 optional condition
            shape hshape

end

end Production

/-! ### Tokens -/

namespace Structured

variable {d : Dialect} {kinds : List TokenKind} {values : List String} {text : String}
  {quoted : Bool}

theorem mem_of_inferKind? {kind : TokenKind} (h : inferKind? d kinds text quoted = some kind) :
    kind ∈ kinds := by
  unfold inferKind? at h
  dsimp only at h
  split at h
  · split at h
    next hmem =>
      cases h
      simpa using hmem
    next => cases h
  · split at h
    next hmem =>
      cases h
      simpa using hmem
    next =>
      split at h
      next hmem =>
        split at h
        · cases h
          simpa using hmem
        · cases h
      next => exact List.mem_of_head? h

/-- A keyword that fits is reserved. -/
theorem reserved_of_fits {t : Token} (hreserved : Production.reservedToken kinds values = true)
    (hfits : Parsing.fits kinds values t = true) (hkeyword : t.kind = .keyword) :
    Vocabulary.isKeyword d (Text.toUpper t.value) = true := by
  obtain ⟨hkind, hvalue⟩ := Bool.and_eq_true_iff.1 hfits
  rw [hkeyword] at hkind hvalue
  simp only [Production.reservedToken, hkind, Bool.not_true, Bool.false_or, Bool.and_eq_true,
    Bool.not_eq_true'] at hreserved
  obtain ⟨hne, hall⟩ := hreserved
  rw [hne, Bool.false_or, List.any_eq_true] at hvalue
  obtain ⟨v, hv, his⟩ := hvalue
  have hsame : Text.toUpper t.value = Text.toUpper v := by
    apply Text.toUpper_eq_of_eqIgnoringAsciiCase
    simpa [Token.is, TokenKind.isWord] using (Bool.and_eq_true_iff.1 his).2
  rw [hsame]
  exact List.all_eq_true.1 (List.all_eq_true.1 hall v hv) d (by cases d <;> decide)

/-- A symbol that fits one of some values is an operator of the dialect. -/
theorem operator_of_fits {t : Token} (ht : t.Lexed d) (hsymbol : t.kind = .operator)
    (hvalues : values.isEmpty = false) (hdollar : values.contains "$" = false)
    (hfits : Parsing.fits kinds values t = true) :
    (Vocabulary.operator? d t.value).isSome = true := by
  rcases ht.symbol hsymbol with hbare | hknown
  · obtain ⟨-, hvalue⟩ := Bool.and_eq_true_iff.1 hfits
    rw [hvalues, Bool.false_or, List.any_eq_true] at hvalue
    obtain ⟨v, hv, his⟩ := hvalue
    simp only [hsymbol, Token.is, beq_self_eq_true, Bool.true_and, TokenKind.isWord, if_true,
      hbare] at his
    have heq : v = "$" := by
      apply Text.eq_of_eqIgnoringAsciiCase _ (by decide)
      rw [Text.eqIgnoringAsciiCase, BEq.comm]
      exact his
    rw [heq] at hv
    simp [hv] at hdollar
  · exact hknown

/-- The kind that is read back of a word that fits some kinds. -/
theorem inferKind?_of_word {t : Token} (ht : t.Lexed d) (hquoted : t.isQuoted = false)
    (hword : Vocabulary.isWordKind t.kind = true) (hmem : kinds.contains t.kind = true)
    (hnames : kinds.contains .dataType = true → kinds.contains .identifier = true)
    (hreserved : t.kind = .keyword → Vocabulary.isKeyword d (Text.toUpper t.value) = true) :
    inferKind? d kinds t.value false = some ((Terminal.ofToken t).reread d).kind := by
  have hread {kind : TokenKind} (hkind : Vocabulary.classify d (Text.toUpper t.value) = kind)
      (hcontains : kinds.contains kind = true) : inferKind? d kinds t.value false = some kind := by
    rw [inferKind?, if_neg Bool.false_ne_true]
    dsimp only
    rw [hkind, if_pos hcontains]
  rcases ht.word hword hquoted with hkind | hphrase
  · rw [hread hkind hmem]
    refine congrArg some (if_neg ?_).symm
    rintro ⟨htype, hother⟩
    change t.kind = .dataType at htype
    change Vocabulary.isDataType d (Text.toUpper t.value) = false at hother
    rw [htype, Vocabulary.classify, hother] at hkind
    split at hkind <;> cases hkind
  · -- A phrase is told as an identifier; it is the name of a data type.
    obtain ⟨hupper, hidentifier, hne, -⟩ := Vocabulary.classify_of_complete hphrase
    rw [← hupper] at hidentifier
    unfold Vocabulary.classify at hidentifier
    split at hidentifier
    next => cases hidentifier
    next hkeyword =>
      split at hidentifier
      next => cases hidentifier
      next hother =>
        have htype : t.kind = .dataType := by
          cases hkind : t.kind <;> simp_all [Vocabulary.isWordKind]
        have hclass : Vocabulary.classify d (Text.toUpper t.value) = .identifier := by
          rw [Vocabulary.classify, if_neg hkeyword, if_neg hother]
        rw [hread hclass (hnames (htype ▸ hmem))]
        exact congrArg some (if_pos ⟨htype, Bool.eq_false_iff.2 hother⟩).symm

/-- The kind that is read back of a token that fits some kinds. -/
theorem inferKind?_of_fits {t : Token} (ht : t.Lexed d)
    (hreadable : Production.readableToken kinds values = true)
    (hfits : Parsing.fits kinds values t = true)
    (hreserved : t.kind = .keyword → Vocabulary.isKeyword d (Text.toUpper t.value) = true) :
    inferKind? d kinds t.value t.isQuoted = some ((Terminal.ofToken t).reread d).kind := by
  simp only [Production.readableToken, Bool.and_eq_true] at hreadable
  obtain ⟨⟨hkinds, hnames⟩, hvalues⟩ := hreadable
  obtain ⟨hmem, -⟩ := Bool.and_eq_true_iff.1 hfits
  cases hquoted : t.isQuoted with
  | true =>
      have hidentifier : t.kind = .identifier := by
        simp only [Token.isQuoted, Bool.and_eq_true, beq_iff_eq] at hquoted
        exact hquoted.1
      rw [inferKind?, if_pos rfl, if_pos (hidentifier ▸ hmem)]
      simp [Terminal.reread, Terminal.ofToken, hidentifier]
  | false =>
      cases hword : Vocabulary.isWordKind t.kind with
      | true =>
          refine inferKind?_of_word ht hquoted hword hmem (fun htype => ?_) hreserved
          rwa [htype, Bool.not_true, Bool.false_or] at hnames
      | false =>
          -- No other kind is allowed, and no word has this one.
          have honly : kinds = [t.kind] := by
            rcases Bool.or_eq_true_iff.1 hkinds with hall | hone
            · rw [List.all_eq_true.1 hall t.kind (by simpa using hmem)] at hword
              cases hword
            · obtain ⟨kind, rfl⟩ := List.length_eq_one_iff.1 (beq_iff_eq.1 hone)
              rw [List.mem_singleton.1 (List.contains_iff_mem.1 hmem)]
          have hkind : ((Terminal.ofToken t).reread d).kind = t.kind := by
            refine if_neg fun h => ?_
            rw [show t.kind = .dataType from h.1] at hword
            cases hword
          have hother : [t.kind].contains (Vocabulary.classify d (Text.toUpper t.value)) = false := by
            rw [Bool.eq_false_iff]
            intro hcontains
            rw [← List.mem_singleton.1 (List.contains_iff_mem.1 hcontains),
              Vocabulary.isWordKind_classify] at hword
            cases hword
          rw [hkind, honly, inferKind?, if_neg Bool.false_ne_true]
          dsimp only
          rw [hother, if_neg Bool.false_ne_true]
          split
          next hoperator =>
            have hsymbol : t.kind = .operator :=
              (List.mem_singleton.1 (List.contains_iff_mem.1 hoperator)).symm
            rw [honly, hoperator] at hvalues
            split at hvalues
            next => cases hvalues
            next hnonempty =>
              obtain ⟨-, hdollar⟩ := Bool.and_eq_true_iff.1 hvalues
              have hknown := operator_of_fits ht hsymbol (by simpa using hnonempty)
                (by simpa using hdollar) hfits
              obtain ⟨info, hinfo⟩ := Option.isSome_iff_exists.1 hknown
              rw [Vocabulary.toUpper_of_operator hinfo, hknown, if_pos rfl, hsymbol]
          next => rfl

/-- What is read from the form of a terminal whose text is accepted. -/
theorem readTerminal?_eq {t : Terminal} {kind : TokenKind}
    (hkind : inferKind? d kinds t.value t.quoted = some kind)
    (haccepted : isAccepted kind values t.value = true) (hreread : (t.reread d).kind = kind) :
    readTerminal? d kinds values t.toJson = some (t.reread d) := by
  rw [readTerminal?, terminalParts?_toJson]
  simp only [Option.bind_eq_bind, Option.bind_some, hkind, haccepted, if_true]
  rw [← hreread]
  rfl

/-- A token that fits a field is read back from its structured form. -/
theorem readTerminal?_of_fits {t : Token} (ht : t.Lexed d)
    (hreadable : Production.readableToken kinds values = true)
    (hfits : Parsing.fits kinds values t = true)
    (hreserved : t.kind = .keyword → Vocabulary.isKeyword d (Text.toUpper t.value) = true) :
    readTerminal? d kinds values (Terminal.ofToken t).toJson =
      some ((Terminal.ofToken t).reread d) := by
  have hkind := inferKind?_of_fits ht hreadable hfits hreserved
  refine readTerminal?_eq hkind ?_ rfl
  obtain ⟨hmem, hvalue⟩ := Bool.and_eq_true_iff.1 hfits
  simp only [Production.readableToken, Bool.and_eq_true] at hreadable
  obtain ⟨-, hvalues⟩ := hreadable
  unfold isAccepted
  split at hvalues
  next hempty => rw [hempty, Bool.true_or]
  next hnonempty =>
    simp only [Bool.and_eq_true, beq_iff_eq, List.length_eq_one_iff] at hvalues
    obtain ⟨⟨only, rfl⟩, -⟩ := hvalues
    have honly : t.kind = ((Terminal.ofToken t).reread d).kind := by
      rw [List.mem_singleton.1 (mem_of_inferKind? hkind)]
      simpa using hmem
    simp only [hnonempty, Bool.false_or, List.any_eq_true] at hvalue ⊢
    obtain ⟨v, hv, his⟩ := hvalue
    refine ⟨v, hv, ?_⟩
    rw [← honly]
    simp only [Token.is, beq_self_eq_true, Bool.true_and] at his
    split at his
    next hword => rwa [if_pos hword, Text.eqIgnoringAsciiCase, BEq.comm]
    next hword => rwa [if_neg hword, BEq.comm]

/-- An operator is read back from its structured form. -/
theorem readTerminal?_of_operator {t : Token} {info : OperatorInfo} (ht : t.Lexed d)
    (hop : t.operator = some info) :
    readTerminal? d [.operator, .keyword] [] (Terminal.ofToken t).toJson =
      some ((Terminal.ofToken t).reread d) := by
  have hquoted : t.isQuoted = false := by
    cases hq : t.isQuoted with
    | false => rfl
    | true =>
        rw [ht.quoted hq] at hop
        cases hop
  have hknown := ht.operator info hop
  have hupper := Vocabulary.toUpper_of_operator hknown
  have hkinds := ht.combines (by rw [hop]; nofun)
  have hinferred : inferKind? d [.operator, .keyword] t.value t.isQuoted = some t.kind := by
    rw [hquoted, inferKind?, if_neg Bool.false_ne_true]
    dsimp only
    rcases hkinds with hkind | hkind
    · rw [ht.sign hkind, if_neg (by decide), if_pos (by decide), hupper, hknown, hkind]
      rfl
    · rcases ht.word (by rw [hkind]; rfl) hquoted with hclass | hphrase
      · rw [hclass, hkind, if_pos (by decide)]
      · have hnone := (Vocabulary.classify_of_complete hphrase).2.2.2 (by rw [hkind]; nofun)
        rw [hnone] at hknown
        cases hknown
  refine readTerminal?_eq hinferred rfl (if_neg fun htype => ?_)
  rcases hkinds with hkind | hkind <;> exact absurd (hkind.symm.trans htype.1) nofun

end Structured

/-! ### Lexed trees -/

namespace TokenTree

variable {d : Dialect} {trees rest : List TokenTree} {tree : TokenTree}

theorem LexedAll.significant (h : LexedAll d trees) : LexedAll d (significant trees) := by
  induction trees with
  | nil => exact h
  | cons tree trees ih =>
      rw [TokenTree.significant, List.dropWhile_cons]
      split
      · exact ih h.2
      · exact h

theorem LexedAll.next (h : LexedAll d trees) (hsig : TokenTree.significant trees = tree :: rest) :
    tree.Lexed d ∧ LexedAll d rest := by
  have hall := h.significant
  rw [hsig] at hall
  exact hall

/-- The token of a tree that is no block. -/
theorem Lexed.token (h : tree.Lexed d) (hleaf : tree.token.kind.isBlock = false) :
    tree.token.Lexed d := by
  cases tree with
  | leaf t => exact h
  | block t contents =>
      obtain ⟨⟨b, hb⟩, -⟩ := h
      change t.kind.isBlock = false at hleaf
      rw [hb] at hleaf
      cases b <;> cases hleaf

end TokenTree

/-! ### Fitting shapes -/

namespace Shape

variable {d : Dialect} {has : String → Bool} {shape other : Shape} {parts more : Parts}

theorem fits_nil (h : ∀ field ∈ shape,
    field.optional = true ∨ field.condition.all (·.holds has) = false) : shape.Fits d has [] := by
  induction shape with
  | nil => rfl
  | cons field shape ih =>
      obtain ⟨hfield, hshape⟩ := List.forall_mem_cons.1 h
      exact .inl ⟨hfield, ih hshape⟩

theorem Fits.append (h : shape.Fits d has parts) (h' : other.Fits d has more) :
    Shape.Fits d has (shape ++ other) (parts ++ more) := by
  induction shape generalizing parts with
  | nil =>
      obtain rfl : parts = [] := h
      exact h'
  | cons field shape ih =>
      rcases h with ⟨hmissing, h⟩ | ⟨x, others, rfl, hcondition, hadmits, h⟩
      · exact .inl ⟨hmissing, ih h⟩
      · exact .inr ⟨x, others ++ more, rfl, hcondition, hadmits, ih h⟩

end Shape

/-- A faithful grammar whose trees can be read back from their structured form. -/
structure ReadableOutline extends FaithfulOutline where
  readable : ∀ tag rule schema root, registry.type? tag = some (.declared rule) →
    (registry.schema tag options.dialect).1 = .ok schema → schema.root = some root →
    root.readable = true ∧ ∀ shape ∈ Schema.shapesOf false none root, shape ∈ schema.shapes
  /-- What climbing makes is of the type that climbs. -/
  keys : ∀ tag types climb' rule, registry.type? tag = some (.climbing types climb' rule) →
    tag = climb'.node
  /-- What climbing makes fits a shape of its type. -/
  fitting : ∃ schema shape, (registry.schema climb.node options.dialect).1 = .ok schema ∧
    shape ∈ schema.shapes ∧ shape.map (fun field => (field.name, field.kind, field.condition)) =
      [(climb.left, .node (acceptedTypes operands (some climb)), none),
        (climb.operator, .terminal [.operator, .keyword] [], none),
        (climb.right, .node (acceptedTypes operands (some climb)), none)]

namespace ReadableOutline

open TokenTree Outline FaithfulOutline

/-- Fields that fit the shapes of a part of a production, whatever stands
before them and whatever is set behind them. -/
structure Told (g : ReadableOutline) (sets asks : List String)
    (shapes : Bool → Option Condition → List Shape) (fields more : Parts) : Prop where
  names : ∀ part ∈ more, part.1 ∈ sets
  shaped : ∀ part ∈ more, part.2.Shaped g.toOutline
  fits : ∀ optional condition after, Parts.Lacks after asks →
    condition.all (·.holds (Parts.has (fields ++ more ++ after))) = true →
    ∃ shape ∈ shapes optional condition,
      shape.Fits g.dialect (Parts.has (fields ++ more ++ after)) more

variable {g : ReadableOutline} {p : Production} {fields more : Parts}

theorem told_nil (fields : Parts) :
    g.Told [] [] (fun o c => Schema.sequenceShapes o c []) fields [] where
  names := by simp
  shaped := by simp
  fits _ _ _ _ _ := ⟨[], by simp [Schema.sequenceShapes], rfl⟩

/-- Whether a production applied shows in the fields of the whole tree. -/
theorem condition_kept (hf : p.faithful g.operands g.climb = true) {after : Parts}
    (hmore : ∀ part ∈ more, part.1 ∈ p.sets) (hafter : Parts.Lacks after p.asks) :
    p.attrs.condition.all (·.holds (Parts.has (fields ++ more ++ after))) = applies p fields := by
  rw [applies]
  cases hc : p.attrs.condition with
  | none => rfl
  | some c =>
      have hlacks : more.lookup c.field = none :=
        Parts.lookup_eq_none hmore ((tidy_of_faithful hf).condition c hc)
      refine holds_congr ?_
      rw [Parts.has, Parts.lookup_append_of_lacks (hafter _ (mem_asks hc)),
        Parts.lookup_append_of_lacks hlacks]

/-- A production that was passed over. -/
theorem told_skipped (hf : p.faithful g.operands g.climb = true) (hr : p.readable = true)
    (hskip : applies p fields = false ∨ p.attrs.optional = true) :
    g.Told p.sets p.asks (fun o c => Schema.shapesOf o c p) fields [] where
  names := by simp
  shaped := by simp
  fits optional condition after hafter hcondition := by
    have hskips := Production.skips_body p hr
    obtain ⟨shape, hshape⟩ := List.exists_mem_of_ne_nil _
      (hskips.nonempty (optional || p.attrs.optional) (p.attrs.condition.or condition))
    refine ⟨shape, by rwa [Production.shapesOf_eq], Shape.fits_nil fun field hfield => ?_⟩
    rcases hskip with happlies | hoptional
    · right
      cases hc : p.attrs.condition with
      | none => simp [applies, hc] at happlies
      | some c =>
          have hinner : p.innerAsks = [] := by
            rw [Production.readable.eq_def, Bool.and_eq_true, hc] at hr
            simpa using hr.1
          rw [hskips.condition hinner _ _ shape hshape field hfield, hc, Option.some_or, ← hc,
            condition_kept hf (by simp) hafter, happlies]
    · left
      rw [hoptional, Bool.or_true] at hshape
      exact hskips.optional _ shape hshape field hfield

/-- A production that applied. -/
theorem told_applied (hf : p.faithful g.operands g.climb = true)
    (happlies : applies p fields = true)
    (h : g.Told p.sets p.innerAsks (fun o c => p.bodyShapes o c) fields more) :
    g.Told p.sets p.asks (fun o c => Schema.shapesOf o c p) fields more where
  names := h.names
  shaped := h.shaped
  fits optional condition after hafter hcondition := by
    rw [Production.shapesOf_eq]
    refine h.fits _ _ after (hafter.mono fun name hname => ?_) ?_
    · rw [Production.asks_eq]
      exact List.mem_append_right _ hname
    · cases hc : p.attrs.condition with
      | none => exact hcondition
      | some c => rw [Option.some_or, ← hc, condition_kept hf h.names hafter, happlies]

/-- A production and those that follow it. -/
theorem Told.cons {parts : List Production} {more' : Parts}
    (hf : Production.faithfulAll g.operands g.climb (p :: parts) = true)
    (h : g.Told p.sets p.asks (fun o c => Schema.shapesOf o c p) fields more)
    (h' : g.Told (Production.setsAll parts) (Production.asksAll parts)
      (fun o c => Schema.sequenceShapes o c parts) (fields ++ more) more') :
    g.Told (Production.setsAll (p :: parts)) (Production.asksAll (p :: parts))
      (fun o c => Schema.sequenceShapes o c (p :: parts)) fields (more ++ more') where
  names part hpart := by
    rw [Production.setsAll, List.mem_append]
    exact (List.mem_append.1 hpart).imp (h.names part) (h'.names part)
  shaped part hpart := (List.mem_append.1 hpart).elim (h.shaped part) (h'.shaped part)
  fits optional condition after hafter hcondition := by
    simp only [Production.faithfulAll, Bool.and_eq_true] at hf
    obtain ⟨⟨⟨-, hasks⟩, -⟩, -⟩ := hf
    have hassoc : fields ++ (more ++ more') ++ after = fields ++ more ++ more' ++ after := by
      simp only [List.append_assoc]
    have hassoc' : fields ++ more ++ more' ++ after = fields ++ more ++ (more' ++ after) := by
      simp only [List.append_assoc]
    rw [hassoc] at hcondition ⊢
    obtain ⟨tail, htail, hfits'⟩ := h'.fits optional condition after
      (hafter.mono fun name hname => List.mem_append_right _ hname) hcondition
    rw [hassoc'] at hcondition hfits' ⊢
    -- No condition in the first production asks for what the others set.
    have hlacks : Parts.Lacks (more' ++ after) p.asks := by
      intro name hname
      have hout := disjoint_not_mem hasks hname
      rw [List.lookup_append, hafter name (List.mem_append_left _ hname), Option.or_none]
      exact Parts.lookup_eq_none h'.names fun hmem => hout (List.mem_append_right _ hmem)
    obtain ⟨head, hhead, hfits⟩ := h.fits optional condition (more' ++ after) hlacks hcondition
    refine ⟨head ++ tail, ?_, hfits.append hfits'⟩
    simp only [Schema.sequenceShapes, List.mem_flatMap, List.mem_map]
    exact ⟨head, hhead, tail, htail, rfl⟩

theorem branchShapes_eq (optional : Bool) (condition : Option Condition)
    (branches : List Production) :
    Schema.branchShapes optional condition branches =
      branches.flatMap (Schema.shapesOf optional condition) := by
  induction branches with
  | nil => rfl
  | cons p rest ih => rw [Schema.branchShapes, ih, List.flatMap_cons]

/-- A branch of alternatives. -/
theorem Told.ofBranch {branches : List Production} (hp : p ∈ branches)
    (h : g.Told p.sets p.asks (fun o c => Schema.shapesOf o c p) fields more) :
    g.Told (Production.setsAll branches) (Production.asksAll branches)
      (fun o c => Schema.branchShapes o c branches) fields more where
  names part hpart := by
    rw [setsAll_eq]
    exact List.mem_flatMap.2 ⟨p, hp, h.names part hpart⟩
  shaped := h.shaped
  fits optional condition after hafter hcondition := by
    obtain ⟨shape, hshape, hfits⟩ := h.fits optional condition after
      (hafter.mono fun name hname => by
        rw [asksAll_eq]
        exact List.mem_flatMap.2 ⟨p, hp, hname⟩) hcondition
    refine ⟨shape, ?_, hfits⟩
    rw [branchShapes_eq]
    exact List.mem_flatMap.2 ⟨p, hp, hshape⟩

/-- A production with a field of its own. -/
theorem told_field {info : RuleInfo} {name : String} {kind : FieldKind} {x : Content}
    {asks : List String} (hname : info.attrs.name = some name) (hshaped : x.Shaped g.toOutline)
    (hadmits : kind.Admits g.dialect x) :
    g.Told [name] asks (fun o c => Schema.fieldShapes info o c kind) fields [(name, x)] where
  names := by simp
  shaped := by simpa using hshaped
  fits optional condition after _ hcondition := by
    refine ⟨[⟨name, info.path, kind, optional, condition⟩], ?_, ?_⟩
    · simp [Schema.fieldShapes, hname]
    · exact .inr ⟨x, [], rfl, hcondition, hadmits, rfl⟩

variable {trees rest : List TokenTree} {fields' : Parts} {info : RuleInfo}

/-! ### Tokens of productions -/

theorem told_terminal {kinds : List TokenKind} {values : List String} {name : String}
    {tree : TokenTree} {asks : List String} (htrees : LexedAll g.dialect trees)
    (hsig : significant trees = tree :: rest) (hleaf : tree.token.kind.isBlock = false)
    (hreadable : Production.readableToken kinds values = true)
    (hfits : Parsing.fits kinds values tree.token = true)
    (hreserved : tree.token.kind = .keyword →
      Vocabulary.isKeyword g.dialect (Text.toUpper tree.token.value) = true)
    (hname : info.attrs.name = some name) :
    g.Told [name] asks
      (fun o c => Schema.fieldShapes info o c (.terminal kinds values)) fields
      [(name, .terminal (.ofToken tree.token))] := by
  have htoken := (htrees.next hsig).1.token hleaf
  refine told_field hname trivial ?_
  exact ⟨_, rfl, Structured.readTerminal?_of_fits htoken hreadable hfits hreserved⟩

theorem told_token {kinds : List TokenKind} {values : List String}
    (hf : (Production.token info kinds values).faithful g.operands g.climb = true)
    (hr : (Production.token info kinds values).readable = true)
    (htrees : LexedAll g.dialect trees)
    (h : token kinds values info.attrs.name fields trees = .found fields' rest) :
    LexedAll g.dialect rest ∧ ∃ more, fields' = fields ++ more ∧
      g.Told (Production.token info kinds values).sets
        (Production.token info kinds values).innerAsks
        (fun o c => (Production.token info kinds values).bodyShapes o c) fields more := by
  obtain ⟨tree, hsig, hfits, rfl⟩ := token_found h
  refine ⟨(htrees.next hsig).2, _, rfl, ?_⟩
  rw [Production.faithful.eq_def, Bool.and_eq_true] at hf
  rw [Production.readable, Bool.and_eq_true] at hr
  cases hname : info.attrs.name with
  | none =>
      refine ⟨by simp, by simp, fun optional condition after _ _ => ⟨[], ?_, rfl⟩⟩
      simp [Production.bodyShapes, Schema.fieldShapes, hname]
  | some name =>
      simp only [hname, Option.isSome_some, if_true] at hf
      simp only [hname, Option.isNone_some, Bool.false_or] at hr
      rw [Production.sets, hname]
      obtain ⟨hreadable, hreserved⟩ := Bool.and_eq_true_iff.1 hr.2
      exact told_terminal htrees hsig (isBlock_eq_false hf.2 hfits) hreadable hfits
        (Structured.reserved_of_fits hreserved hfits) hname

theorem fits_of_isMerged {d : Dialect} {kinds kinds' : List TokenKind}
    {values values' : List String} {t : Token} (hmerged : Production.isMerged kinds values p = true)
    (htoken : p.token? = some (kinds', values')) (h : Parsing.fits kinds' values' t = true) :
    Parsing.fits kinds values t = true ∧
      (t.kind = .keyword → Vocabulary.isKeyword d (Text.toUpper t.value) = true) := by
  rw [Production.isMerged, htoken, Option.all_some, Bool.and_eq_true, Bool.and_eq_true] at hmerged
  obtain ⟨⟨hkinds, hvalues⟩, hreserved⟩ := hmerged
  refine ⟨?_, Structured.reserved_of_fits hreserved h⟩
  obtain ⟨hkind, hvalue⟩ := Bool.and_eq_true_iff.1 h
  refine Bool.and_eq_true_iff.2 ⟨List.all_eq_true.1 hkinds _ (by simpa using hkind), ?_⟩
  rcases Bool.or_eq_true_iff.1 hvalues with hany | hsome
  · rw [hany, Bool.true_or]
  · obtain ⟨hne, hall⟩ := Bool.and_eq_true_iff.1 hsome
    rw [Bool.not_eq_true'] at hne
    rw [hne, Bool.false_or, List.any_eq_true] at hvalue
    obtain ⟨v, hv, his⟩ := hvalue
    rw [Bool.or_eq_true, List.any_eq_true]
    exact .inr ⟨v, by simpa using List.all_eq_true.1 hall v hv, his⟩

theorem exists_tokens {d : Dialect} {kinds : List TokenKind} {values : List String} {name : Option String}
    {branches : List Production}
    (hmerged : branches.all (Production.isMerged kinds values) = true)
    (hleaves : (branches.all fun b => b.token?.all fun t => Production.leaves t.1) = true)
    (h : tokens name fields trees branches = .found fields' rest) :
    ∃ tree, significant trees = tree :: rest ∧ tree.token.kind.isBlock = false ∧
      Parsing.fits kinds values tree.token = true ∧
      (tree.token.kind = .keyword →
        Vocabulary.isKeyword d (Text.toUpper tree.token.value) = true) ∧
      fields' = fields ++ (name.map fun n => (n, .terminal (.ofToken tree.token))).toList := by
  induction branches with
  | nil => cases h
  | cons p branches ih =>
      rw [List.all_cons, Bool.and_eq_true] at hmerged hleaves
      rw [tokens] at h
      split at h
      next => exact ih hmerged.2 hleaves.2 h
      next kinds' values' htoken =>
        rcases Attempt.orElse_eq_found h with h | ⟨-, h⟩
        · obtain ⟨tree, hsig, hfits, hfields⟩ := token_found h
          have hleaf : Production.leaves kinds' = true := by simpa [htoken] using hleaves.1
          obtain ⟨hmergedFits, hreserved⟩ := fits_of_isMerged hmerged.1 htoken hfits
          exact ⟨tree, hsig, isBlock_eq_false hleaf hfits, hmergedFits, hreserved, hfields⟩
        · exact ih hmerged.2 hleaves.2 h

theorem told_tokens {name : String} {branches : List Production}
    (hf : (Production.alternatives info branches).faithful g.operands g.climb = true)
    (hr : (Production.alternatives info branches).readable = true)
    (htrees : LexedAll g.dialect trees) (hname : info.attrs.name = some name)
    (h : tokens info.attrs.name fields trees branches = .found fields' rest) :
    LexedAll g.dialect rest ∧ ∃ more, fields' = fields ++ more ∧
      g.Told (Production.alternatives info branches).sets
        (Production.alternatives info branches).innerAsks
        (fun o c => (Production.alternatives info branches).bodyShapes o c) fields more := by
  rw [Production.faithful.eq_def, Bool.and_eq_true] at hf
  rw [Production.readable, Bool.and_eq_true] at hr
  simp only [hname, Option.isSome_some, if_true] at hf hr
  obtain ⟨-, hleaves⟩ := hf
  obtain ⟨-, hr⟩ := hr
  split at hr
  next kinds values hkind =>
    obtain ⟨hreadable, hmerged⟩ := Bool.and_eq_true_iff.1 hr
    obtain ⟨tree, hsig, hleaf, hfits, hreserved, rfl⟩ :=
      exists_tokens (d := g.dialect) hmerged hleaves h
    refine ⟨(htrees.next hsig).2, _, rfl, ?_⟩
    simp only [Production.sets, Production.bodyShapes, hname, Option.isSome_some, if_true, hkind]
    exact told_terminal htrees hsig hleaf hreadable hfits hreserved hname
  next => cases hr

/-! ### One step -/

/-- A tree of one of some types that fits the shapes of its types. -/
def Fitting (g : ReadableOutline) (types : List String) (x : Content) : Prop :=
  (∃ tag fields, x = .node tag fields ∧ tag ∈ types) ∧ x.Shaped g.toOutline

theorem Fitting.mono {types types' : List String} {x : Content} (h : g.Fitting types x)
    (hsub : ∀ tag ∈ types, tag ∈ types') : g.Fitting types' x := by
  obtain ⟨⟨tag, fields, rfl, htag⟩, hx⟩ := h
  exact ⟨⟨tag, fields, rfl, hsub tag htag⟩, hx⟩

/-- The types of expressions. -/
def expressions (g : ReadableOutline) : List String :=
  acceptedTypes g.operands (some g.climb)

/-- Whatever the functions of the outline find fits its shapes. -/
structure Tells (g : ReadableOutline) (fuel : Nat) : Prop where
  node {tag : String} {trees rest : List TokenTree} {x : Content} :
    LexedAll g.dialect trees → g.node fuel tag trees = .found x rest →
    LexedAll g.dialect rest ∧ g.Fitting [tag] x
  any {types : List String} {trees rest : List TokenTree} {x : Content} :
    LexedAll g.dialect trees → g.any fuel types trees = .found x rest →
    LexedAll g.dialect rest ∧ g.Fitting types x
  type {tag : String} {trees rest : List TokenTree} {x : Content} :
    g.Declares tag → LexedAll g.dialect trees → g.type fuel tag trees = .found x rest →
    LexedAll g.dialect rest ∧ g.Fitting [tag] x
  climbing {minimum : Nat} {trees rest : List TokenTree} {x : Content} :
    LexedAll g.dialect trees →
    g.climbing fuel g.operands g.climb minimum trees = .found x rest →
    LexedAll g.dialect rest ∧ g.Fitting g.expressions x
  extending {minimum : Nat} {trees rest : List TokenTree} {left x : Content} :
    LexedAll g.dialect trees → g.Fitting g.expressions left →
    g.extending fuel g.operands g.climb minimum left trees = .found x rest →
    LexedAll g.dialect rest ∧ g.Fitting g.expressions x
  rule {p : Production} {fields fields' : Parts} {trees rest : List TokenTree} :
    p.faithful g.operands g.climb = true → p.readable = true → LexedAll g.dialect trees →
    g.rule fuel p fields trees = .found fields' rest →
    LexedAll g.dialect rest ∧ ∃ more, fields' = fields ++ more ∧
      g.Told p.sets p.asks (fun o c => Schema.shapesOf o c p) fields more
  all {parts : List Production} {fields fields' : Parts} {trees rest : List TokenTree} :
    Production.faithfulAll g.operands g.climb parts = true →
    Production.readableAll parts = true → LexedAll g.dialect trees →
    g.all fuel parts fields trees = .found fields' rest →
    LexedAll g.dialect rest ∧ ∃ more, fields' = fields ++ more ∧
      g.Told (Production.setsAll parts) (Production.asksAll parts)
        (fun o c => Schema.sequenceShapes o c parts) fields more
  first {branches : List Production} {fields fields' : Parts} {trees rest : List TokenTree} :
    Production.faithfulEach g.operands g.climb branches = true →
    Production.readableAll branches = true → LexedAll g.dialect trees →
    g.first fuel branches fields trees = .found fields' rest →
    LexedAll g.dialect rest ∧ ∃ p ∈ branches, ∃ more, fields' = fields ++ more ∧
      g.Told p.sets p.asks (fun o c => Schema.shapesOf o c p) fields more
  block {bracket : Bracket} {inner : Production} {fields fields' : Parts}
      {trees rest : List TokenTree} :
    inner.faithful g.operands g.climb = true → inner.readable = true →
    LexedAll g.dialect trees →
    g.block fuel bracket inner fields trees = .found fields' rest →
    LexedAll g.dialect rest ∧ ∃ more, fields' = fields ++ more ∧
      g.Told inner.sets inner.asks (fun o c => Schema.shapesOf o c inner) fields more
  field {info : RuleInfo} {types : List String} {climb : Option Climb} {fields fields' : Parts}
      {trees rest : List TokenTree} :
    (Production.node info types climb).faithful g.operands g.climb = true →
    (Production.node info types climb).readable = true → LexedAll g.dialect trees →
    g.field fuel info types climb fields trees = .found fields' rest →
    LexedAll g.dialect rest ∧ ∃ more, fields' = fields ++ more ∧
      g.Told (Production.node info types climb).sets []
        (fun o c => (Production.node info types climb).bodyShapes o c) fields more
  operand {info : RuleInfo} {types : List String} {climb : Option Climb}
      {trees rest : List TokenTree} {x : Content} :
    (Production.node info types climb).faithful g.operands g.climb = true →
    LexedAll g.dialect trees → g.operand fuel info types climb trees = .found x rest →
    LexedAll g.dialect rest ∧ g.Fitting (acceptedTypes types climb) x
  items {info : RuleInfo} {types : List String} {climb : Option Climb} {arity : Arity}
      {sofar xs : List Content} {trees rest : List TokenTree} :
    (Production.node info types climb).faithful g.operands g.climb = true →
    LexedAll g.dialect trees → (∀ x ∈ sofar, g.Fitting (acceptedTypes types climb) x) →
    arity.most.all (sofar.length ≤ ·) = true →
    g.items fuel info types climb arity sofar trees = .found xs rest →
    LexedAll g.dialect rest ∧ (∀ x ∈ xs, g.Fitting (acceptedTypes types climb) x) ∧
      arity.most.all (xs.length ≤ ·) = true

variable {fuel minimum : Nat} {tag : String} {types : List String} {x left : Content}
  {climb : Option Climb} {arity : Arity} {sofar xs : List Content}

theorem tells_zero : g.Tells 0 := by
  constructor
  all_goals
    intros
    simp_all [Outline.node, Outline.any, Outline.type, Outline.climbing, Outline.extending,
      Outline.rule, Outline.all, Outline.first, Outline.block, Outline.field, Outline.operand,
      Outline.items]

/-! ### Trees -/

theorem tells_type (ih : g.Tells fuel) (hd : g.Declares tag) (htrees : LexedAll g.dialect trees)
    (h : g.type (fuel + 1) tag trees = .found x rest) :
    LexedAll g.dialect rest ∧ g.Fitting [tag] x := by
  obtain ⟨rule, htype⟩ := hd
  rw [Outline.type] at h
  split at h
  next => cases h
  next schema hschema =>
    split at h
    next => cases h
    next root hroot =>
      obtain ⟨fields, hrule, rfl⟩ := Attempt.map_eq_found h
      have hfaithful := g.faithful tag rule schema root htype hschema hroot
      simp only [Production.faithfulRoot, Bool.and_eq_true] at hfaithful
      obtain ⟨hreadable, hshapes⟩ := g.readable tag rule schema root htype hschema hroot
      obtain ⟨hrest, more, heq, htold⟩ := ih.rule hfaithful.1.1 hreadable htrees hrule
      obtain rfl : fields = more := heq
      obtain ⟨shape, hshape, hfits⟩ := htold.fits false none [] (fun _ _ => rfl) rfl
      rw [List.nil_append, List.append_nil] at hfits
      refine ⟨hrest, ⟨tag, fields, rfl, List.mem_singleton_self tag⟩, ?_⟩
      exact ⟨⟨schema, shape, hschema, hshapes shape hshape, hfits⟩,
        Content.eachField_iff.2 htold.shaped⟩

theorem tells_node (ih : g.Tells fuel) (htrees : LexedAll g.dialect trees)
    (h : g.node (fuel + 1) tag trees = .found x rest) :
    LexedAll g.dialect rest ∧ g.Fitting [tag] x := by
  rw [Outline.node] at h
  split at h
  next => cases h
  next rule htype => exact ih.type ⟨rule, htype⟩ htrees h
  next types climb rule htype =>
    obtain ⟨rfl, rfl⟩ := g.climbs tag types climb rule htype
    obtain rfl := g.keys tag _ _ rule htype
    obtain ⟨y, rest', hy, h⟩ := Attempt.andThen_eq_found h
    obtain ⟨hrest, ⟨tag, fields, rfl, -⟩, hx⟩ := ih.climbing htrees hy
    split at h
    next htag =>
      cases h
      obtain rfl : tag = g.climb.node := htag
      exact ⟨hrest, ⟨_, fields, rfl, List.mem_singleton_self _⟩, hx⟩
    next => cases h

theorem tells_any (ih : g.Tells fuel) (htrees : LexedAll g.dialect trees)
    (h : g.any (fuel + 1) types trees = .found x rest) :
    LexedAll g.dialect rest ∧ g.Fitting types x := by
  cases types with
  | nil =>
      rw [Outline.any] at h
      cases h
  | cons tag types =>
      rw [Outline.any] at h
      rcases Attempt.orElse_eq_found h with h | ⟨-, h⟩
      · obtain ⟨hrest, hx⟩ := ih.node htrees h
        refine ⟨hrest, hx.mono fun tag' htag' => ?_⟩
        rw [List.mem_singleton.1 htag']
        exact List.mem_cons_self
      · obtain ⟨hrest, hx⟩ := ih.any htrees h
        exact ⟨hrest, hx.mono fun _ htag' => List.mem_cons_of_mem _ htag'⟩

theorem operands_sub (g : ReadableOutline) : ∀ tag ∈ g.operands, tag ∈ g.expressions := by
  intro tag htag
  rw [expressions, acceptedTypes]
  split
  · exact htag
  · exact List.mem_append_left _ htag

theorem node_mem (g : ReadableOutline) : g.climb.node ∈ g.expressions := by
  rw [expressions, acceptedTypes]
  split
  next hmem => simpa using hmem
  next => exact List.mem_append_right _ (List.mem_singleton_self _)

theorem tells_climbing (ih : g.Tells fuel) (htrees : LexedAll g.dialect trees)
    (h : g.climbing (fuel + 1) g.operands g.climb minimum trees = .found x rest) :
    LexedAll g.dialect rest ∧ g.Fitting g.expressions x := by
  rw [Outline.climbing] at h
  obtain ⟨left, rest', hleft, h⟩ := Attempt.andThen_eq_found h
  obtain ⟨hrest, hfitting⟩ := ih.any htrees hleft
  exact ih.extending hrest (hfitting.mono g.operands_sub) h

/-- Two operands with an operator between them. -/
theorem fitting_joined {right : Content} {t : Token} {info : OperatorInfo}
    (hleft : g.Fitting g.expressions left) (hright : g.Fitting g.expressions right)
    (ht : t.Lexed g.dialect) (hop : t.operator = some info) :
    g.Fitting g.expressions (joined g.climb left t right) := by
  refine ⟨⟨_, _, rfl, g.node_mem⟩, ?_, hleft.2, trivial, hright.2, trivial⟩
  obtain ⟨schema, shape, hschema, hshape, heq⟩ := g.fitting
  refine ⟨schema, shape, hschema, hshape, ?_⟩
  obtain ⟨l, o, r, rfl⟩ := List.length_eq_three.1 (by simpa using congrArg List.length heq)
  simp only [List.map_cons, List.map_nil, List.cons.injEq, Prod.mk.injEq, and_true] at heq
  obtain ⟨⟨hl, hlkind, hlcond⟩, ⟨ho, hokind, hocond⟩, hr, hrkind, hrcond⟩ := heq
  refine .inr ⟨left, _, by rw [hl], by rw [hlcond]; rfl, by rw [hlkind]; exact hleft.1, ?_⟩
  refine .inr ⟨_, _, by rw [ho], by rw [hocond]; rfl, ?_, ?_⟩
  · rw [hokind]
    exact ⟨_, rfl, Structured.readTerminal?_of_operator ht hop⟩
  · exact .inr ⟨right, _, by rw [hr], by rw [hrcond]; rfl, by rw [hrkind]; exact hright.1, rfl⟩

/-- The operator that is taken is a token of its own. -/
theorem lexed_operator {t : Token} {info : OperatorInfo} (htrees : LexedAll g.dialect trees)
    (h : Outline.operator minimum trees = some (t, info, rest)) :
    t.Lexed g.dialect ∧ t.operator = some info ∧ LexedAll g.dialect rest := by
  unfold Outline.operator at h
  split at h
  next => cases h
  next tree after hsig =>
    split at h
    next info' hop =>
      split at h
      next =>
        cases h
        obtain ⟨htree, hafter⟩ := htrees.next hsig
        refine ⟨?_, hop, hafter⟩
        cases tree with
        | leaf t => exact htree
        | block t contents =>
            change t.operator = some info at hop
            rw [htree.2.1] at hop
            cases hop
      next => cases h
    next => cases h

theorem tells_extending (ih : g.Tells fuel) (htrees : LexedAll g.dialect trees)
    (hleft : g.Fitting g.expressions left)
    (h : g.extending (fuel + 1) g.operands g.climb minimum left trees = .found x rest) :
    LexedAll g.dialect rest ∧ g.Fitting g.expressions x := by
  rw [Outline.extending] at h
  split at h
  next =>
    cases h
    exact ⟨htrees, hleft⟩
  next t info after hop =>
    split at h
    next => cases h
    next =>
      cases h
      exact ⟨htrees, hleft⟩
    next right rest' hright =>
      obtain ⟨ht, hinfo, hafter⟩ := lexed_operator htrees hop
      obtain ⟨hrest', hfitting⟩ := ih.climbing hafter hright
      exact ih.extending hrest' (fitting_joined hleft hfitting ht hinfo) h

/-! ### Fields -/

theorem tells_operand (ih : g.Tells fuel)
    (hf : (Production.node info types climb).faithful g.operands g.climb = true)
    (htrees : LexedAll g.dialect trees)
    (h : g.operand (fuel + 1) info types climb trees = .found x rest) :
    LexedAll g.dialect rest ∧ g.Fitting (acceptedTypes types climb) x := by
  rw [Outline.operand.eq_def] at h
  cases climb with
  | none => exact ih.any htrees h
  | some c =>
      obtain ⟨rfl, rfl⟩ := (faithful_node hf).2.2.2 c rfl
      exact ih.climbing htrees h

theorem lexed_separate {separator : Option String} {b : Bool}
    (htrees : LexedAll g.dialect trees) (h : separate separator sofar trees = (b, rest)) :
    LexedAll g.dialect rest := by
  unfold separate at h
  split at h
  next =>
    cases h
    exact htrees
  next symbol =>
    split at h
    next =>
      cases h
      exact htrees
    next =>
      have hsignificant := htrees.significant
      split at h
      next =>
        cases h
        trivial
      next tree after hsig =>
        rw [hsig] at hsignificant
        split at h
        next =>
          cases h
          exact hsignificant.2
        next =>
          cases h
          exact hsignificant

theorem tells_items (ih : g.Tells fuel)
    (hf : (Production.node info types climb).faithful g.operands g.climb = true)
    (htrees : LexedAll g.dialect trees)
    (hsofar : ∀ x ∈ sofar, g.Fitting (acceptedTypes types climb) x)
    (hmost : arity.most.all (sofar.length ≤ ·) = true)
    (h : g.items (fuel + 1) info types climb arity sofar trees = .found xs rest) :
    LexedAll g.dialect rest ∧ (∀ x ∈ xs, g.Fitting (acceptedTypes types climb) x) ∧
      arity.most.all (xs.length ≤ ·) = true := by
  have hstay : LexedAll g.dialect trees ∧
      (∀ x ∈ sofar, g.Fitting (acceptedTypes types climb) x) ∧
      arity.most.all (sofar.length ≤ ·) = true := ⟨htrees, hsofar, hmost⟩
  rw [Outline.items] at h
  split at h
  next =>
    cases h
    exact hstay
  next hmore =>
    split at h
    next rest' hsep =>
      cases h
      exact ⟨lexed_separate htrees hsep, hstay.2⟩
    next rest' hsep =>
      split at h
      next => cases h
      next =>
        cases h
        exact hstay
      next y rest'' hy =>
        split at h
        next =>
          cases h
          exact hstay
        next =>
          obtain ⟨hrest, hfitting⟩ := ih.operand hf (lexed_separate htrees hsep) hy
          refine ih.items hf hrest ?_ ?_ h
          · intro z hz
            rcases List.mem_append.1 hz with hz | hz
            · exact hsofar z hz
            · rwa [List.mem_singleton.1 hz]
          · simp only [Arity.admitsMore, Bool.not_eq_true, Bool.not_eq_false'] at hmore
            cases hm : arity.most with
            | none => rfl
            | some most =>
                rw [hm] at hmore
                simpa [Nat.succ_le_iff] using hmore

theorem tells_field (ih : g.Tells fuel)
    (hf : (Production.node info types climb).faithful g.operands g.climb = true)
    (hr : (Production.node info types climb).readable = true) (htrees : LexedAll g.dialect trees)
    (h : g.field (fuel + 1) info types climb fields trees = .found fields' rest) :
    LexedAll g.dialect rest ∧ ∃ more, fields' = fields ++ more ∧
      g.Told (Production.node info types climb).sets []
        (fun o c => (Production.node info types climb).bodyShapes o c) fields more := by
  rw [Outline.field] at h
  split at h
  next => cases h
  next name hname =>
    have hsets : (Production.node info types climb).sets = [name] := by
      rw [Production.sets, hname]
      rfl
    rw [hsets]
    split at h
    next harity =>
      obtain ⟨x, hx, rfl⟩ := Attempt.map_eq_found h
      obtain ⟨hrest, htypes, hshaped⟩ := ih.operand hf htrees hx
      refine ⟨hrest, _, rfl, ?_⟩
      simp only [Production.bodyShapes, harity]
      exact told_field hname hshaped htypes
    next arity harity =>
      obtain ⟨xs, rest', hxs, h⟩ := Attempt.andThen_eq_found h
      obtain ⟨hrest, hall, hmost⟩ := ih.items hf htrees (by simp) (by cases arity.most <;> simp) hxs
      split at h
      next => cases h
      next hleast =>
        cases h
        refine ⟨hrest, _, rfl, ?_⟩
        simp only [Production.bodyShapes, harity]
        refine told_field hname (Content.eachItem_iff.2 fun x hx => (hall x hx).2) ?_
        refine ⟨xs, rfl, ?_, ?_, fun x hx => (hall x hx).1⟩
        · simp [Arity.admits, hmost, Nat.le_of_not_lt hleast]
        · rw [Production.readable, Bool.and_eq_true] at hr
          simpa using hr.2

/-! ### Productions -/

theorem tells_body (ih : g.Tells fuel) (hf : p.faithful g.operands g.climb = true)
    (hr : p.readable = true) (htrees : LexedAll g.dialect trees)
    (h : g.body fuel p fields trees = .found fields' rest) :
    LexedAll g.dialect rest ∧ ∃ more, fields' = fields ++ more ∧
      g.Told p.sets p.innerAsks (fun o c => p.bodyShapes o c) fields more := by
  cases p with
  | token info kinds values => exact told_token hf hr htrees h
  | node info types climb => exact ih.field hf hr htrees h
  | sequence info parts =>
      rw [Production.faithful.eq_def, Bool.and_eq_true] at hf
      rw [Production.readable, Bool.and_eq_true] at hr
      exact ih.all hf.2 hr.2 htrees h
  | alternatives info branches =>
      rw [Outline.body] at h
      cases hname : info.attrs.name with
      | some name =>
          rw [hname, Option.isSome_some, if_pos rfl, ← hname] at h
          exact told_tokens hf hr htrees hname h
      | none =>
          rw [hname, Option.isSome_none, if_neg Bool.false_ne_true] at h
          rw [Production.faithful.eq_def, Bool.and_eq_true] at hf
          rw [Production.readable, Bool.and_eq_true] at hr
          simp only [hname, Option.isSome_none, Bool.false_eq_true, if_false,
            Bool.and_eq_true] at hf hr
          obtain ⟨hrest, q, hq, more, heq, htold⟩ := ih.first hf.2.1 hr.2.2 htrees h
          refine ⟨hrest, more, heq, ?_⟩
          simp only [Production.sets, Production.bodyShapes, Production.innerAsks, hname,
            Option.isSome_none, Bool.false_eq_true, if_false]
          exact htold.ofBranch hq
  | block info bracket inner =>
      rw [Production.faithful.eq_def, Bool.and_eq_true] at hf
      rw [Production.readable, Bool.and_eq_true] at hr
      exact ih.block (Bool.and_eq_true_iff.1 hf.2).1 hr.2 htrees h

theorem tells_rule (ih : g.Tells fuel) (hf : p.faithful g.operands g.climb = true)
    (hr : p.readable = true) (htrees : LexedAll g.dialect trees)
    (h : g.rule (fuel + 1) p fields trees = .found fields' rest) :
    LexedAll g.dialect rest ∧ ∃ more, fields' = fields ++ more ∧
      g.Told p.sets p.asks (fun o c => Schema.shapesOf o c p) fields more := by
  have hskipped (hskip : applies p fields = false ∨ p.attrs.optional = true) :
      LexedAll g.dialect trees ∧ ∃ more, fields = fields ++ more ∧
        g.Told p.sets p.asks (fun o c => Schema.shapesOf o c p) fields more :=
    ⟨htrees, [], by simp, told_skipped hf hr hskip⟩
  rw [rule_succ] at h
  split at h
  next happlies =>
    cases h
    exact hskipped (.inl (by simpa using happlies))
  next happlies =>
    rcases Attempt.orElse_eq_found h with h | ⟨-, h⟩
    · obtain ⟨hrest, more, heq, htold⟩ := tells_body ih hf hr htrees h
      exact ⟨hrest, more, heq, told_applied hf (by simpa using happlies) htold⟩
    · split at h
      next hoptional =>
        cases h
        exact hskipped (.inr hoptional)
      next => split at h <;> cases h

theorem tells_all (ih : g.Tells fuel) {parts : List Production}
    (hf : Production.faithfulAll g.operands g.climb parts = true)
    (hr : Production.readableAll parts = true) (htrees : LexedAll g.dialect trees)
    (h : g.all (fuel + 1) parts fields trees = .found fields' rest) :
    LexedAll g.dialect rest ∧ ∃ more, fields' = fields ++ more ∧
      g.Told (Production.setsAll parts) (Production.asksAll parts)
        (fun o c => Schema.sequenceShapes o c parts) fields more := by
  cases parts with
  | nil =>
      rw [Outline.all] at h
      cases h
      exact ⟨htrees, [], by simp, told_nil fields⟩
  | cons p parts =>
      have hf' := hf
      simp only [Production.faithfulAll, Bool.and_eq_true] at hf'
      obtain ⟨⟨⟨⟨hp, -⟩, -⟩, -⟩, hparts⟩ := hf'
      rw [Production.readableAll, Bool.and_eq_true] at hr
      rw [Outline.all] at h
      obtain ⟨fields₁, rest₁, hrule, h⟩ := Attempt.andThen_eq_found h
      obtain ⟨hrest₁, more, rfl, htold⟩ := ih.rule hp hr.1 htrees hrule
      obtain ⟨hrest, more', rfl, htold'⟩ := ih.all hparts hr.2 hrest₁ h
      exact ⟨hrest, more ++ more', by simp, htold.cons hf htold'⟩

theorem tells_first (ih : g.Tells fuel) {branches : List Production}
    (hf : Production.faithfulEach g.operands g.climb branches = true)
    (hr : Production.readableAll branches = true) (htrees : LexedAll g.dialect trees)
    (h : g.first (fuel + 1) branches fields trees = .found fields' rest) :
    LexedAll g.dialect rest ∧ ∃ p ∈ branches, ∃ more, fields' = fields ++ more ∧
      g.Told p.sets p.asks (fun o c => Schema.shapesOf o c p) fields more := by
  cases branches with
  | nil =>
      rw [Outline.first] at h
      cases h
  | cons p branches =>
      simp only [Production.faithfulEach, Bool.and_eq_true] at hf
      rw [Production.readableAll, Bool.and_eq_true] at hr
      rw [Outline.first] at h
      rcases Attempt.orElse_eq_found h with h | ⟨-, h⟩
      · obtain ⟨hrest, htold⟩ := ih.rule hf.1.1 hr.1 htrees h
        exact ⟨hrest, p, List.mem_cons_self, htold⟩
      · obtain ⟨hrest, q, hq, htold⟩ := ih.first hf.2 hr.2 htrees h
        exact ⟨hrest, q, List.mem_cons_of_mem _ hq, htold⟩

theorem tells_block (ih : g.Tells fuel) {bracket : Bracket} {inner : Production}
    (hf : inner.faithful g.operands g.climb = true) (hr : inner.readable = true)
    (htrees : LexedAll g.dialect trees)
    (h : g.block (fuel + 1) bracket inner fields trees = .found fields' rest) :
    LexedAll g.dialect rest ∧ ∃ more, fields' = fields ++ more ∧
      g.Told inner.sets inner.asks (fun o c => Schema.shapesOf o c inner) fields more := by
  obtain ⟨t, contents, left, hsig, -, hrule, -⟩ := block_found h
  obtain ⟨⟨-, -, hcontents⟩, hrest⟩ := htrees.next hsig
  exact ⟨hrest, (ih.rule hf hr hcontents hrule).2⟩

theorem tells_succ (ih : g.Tells fuel) : g.Tells (fuel + 1) where
  node := tells_node ih
  any := tells_any ih
  type := tells_type ih
  climbing := tells_climbing ih
  extending := tells_extending ih
  rule := tells_rule ih
  all := tells_all ih
  first := tells_first ih
  block := tells_block ih
  field := tells_field ih
  operand := tells_operand ih
  items := tells_items ih

/-- Every tree that parsing finds fits a shape of its type. -/
theorem tells (g : ReadableOutline) (fuel : Nat) : g.Tells fuel := by
  induction fuel with
  | zero => exact tells_zero
  | succ fuel ih => exact tells_succ ih

end ReadableOutline

end DualSql
