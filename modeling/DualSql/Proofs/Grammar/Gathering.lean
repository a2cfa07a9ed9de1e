import DualSql.Proofs.Grammar.Accepted

/-! # Terminals are tokens of the text

What is matched is taken from the significant tokens that are upcoming, each of them once at
most and in their order; nothing is made up. So the terminals of a tree that a
text is parsed to are tokens of the text, in the order of the text.

Main definitions: `TokenTree.terminals` and `Attempt.Gathers`. Main results:
`Outline.gathers` and `Tree.terminals_sublist`. -/

namespace DualSql

/-- What a tree could keep of a token: the terminal, if the token is significant. -/
def Token.terminals (t : Token) : List Terminal :=
  if t.kind.isTrivia then [] else [.ofToken t]

/-- What a tree could keep of an event: the token, or that of an opening bracket. -/
def Event.terminals : Event → List Terminal
  | token t => t.terminals
  | opened b place spaceBefore => (Token.ofBracket b place spaceBefore).terminals
  | closed .. => []

namespace TokenTree

mutual

/-- The significant tokens of a tree in their order, as terminals. -/
def terminals : TokenTree → List Terminal
  | leaf t => t.terminals
  | block t contents => t.terminals ++ terminalsAll contents

/-- The significant tokens of several trees in their order, as terminals. -/
def terminalsAll : List TokenTree → List Terminal
  | [] => []
  | tree :: rest => tree.terminals ++ terminalsAll rest

end

variable {trees rest : List TokenTree} {tree : TokenTree}

theorem terminals_eq_cons (h : tree.token.kind.isTrivia = false) :
    ∃ more, tree.terminals = .ofToken tree.token :: more := by
  have htoken : tree.token.terminals = [.ofToken tree.token] := by
    rw [Token.terminals, h]
    rfl
  cases tree with
  | leaf t => exact ⟨[], htoken⟩
  | block t contents => exact ⟨terminalsAll contents, congrArg (· ++ terminalsAll contents) htoken⟩

theorem significant_sublist (trees : List TokenTree) :
    (terminalsAll (significant trees)).Sublist (terminalsAll trees) := by
  induction trees with
  | nil => exact .refl _
  | cons tree rest ih =>
      rw [significant, List.dropWhile_cons]
      split
      · exact ih.trans (List.sublist_append_right _ _)
      · exact .refl _

/-- The next token that is not passed over, and what comes behind its tree. -/
theorem next_sublist (h : significant trees = tree :: rest) :
    (.ofToken tree.token :: terminalsAll rest).Sublist (terminalsAll trees) := by
  obtain ⟨more, hmore⟩ := terminals_eq_cons (not_isTrivia_of_significant h)
  refine List.Sublist.trans ?_ (significant_sublist trees)
  rw [h, terminalsAll, hmore]
  exact (List.sublist_append_right more _).cons_cons _

end TokenTree

open TokenTree

/-! ### Attempts -/

namespace Attempt

variable {α β : Type} {view : α → List Terminal} {view' : β → List Terminal}
  {before : List Terminal} {trees : List TokenTree} {a b : Attempt α}

/-- What was found, followed by what is left, was found before or was upcoming,
in the same order. -/
structure Gathers (view : α → List Terminal) (before : List Terminal) (trees : List TokenTree)
    (a : Attempt α) : Prop where
  sublist {x : α} {rest : List TokenTree} (found : a = .found x rest) :
    (view x ++ terminalsAll rest).Sublist (before ++ terminalsAll trees)

theorem gathers_stuck : (stuck : Attempt α).Gathers view before trees := ⟨nofun⟩

theorem gathers_mismatch : (mismatch : Attempt α).Gathers view before trees := ⟨nofun⟩

theorem gathers_found {x : α} {rest : List TokenTree}
    (h : (view x ++ terminalsAll rest).Sublist (before ++ terminalsAll trees)) :
    (found x rest).Gathers view before trees where
  sublist hfound := by
    cases hfound
    exact h

theorem Gathers.andThen (h : a.Gathers view before trees) {f : α → List TokenTree → Attempt β}
    (hf : ∀ x rest, (f x rest).Gathers view' (view x) rest) :
    (a.andThen f).Gathers view' before trees where
  sublist hfound := by
    obtain ⟨x, rest', hx, hy⟩ := andThen_eq_found hfound
    exact ((hf x rest').sublist hy).trans (h.sublist hx)

theorem Gathers.orElse (h : a.Gathers view before trees) (h' : b.Gathers view before trees) :
    (a.orElse b).Gathers view before trees where
  sublist hfound := by
    rcases orElse_eq_found hfound with ha | ⟨-, hb⟩
    · exact h.sublist ha
    · exact h'.sublist hb

theorem Gathers.map (h : a.Gathers view before trees) {f : α → β}
    (hf : ∀ x, (view' (f x)).Sublist (view x)) : (a.map f).Gathers view' before trees :=
  h.andThen fun x _ => gathers_found ((hf x).append_right _)

end Attempt

namespace Outline

open Attempt Content

variable {o : Outline} {fuel : Nat}

theorem fieldTerminals_append (fields more : Parts) :
    fieldTerminals (fields ++ more) = fieldTerminals fields ++ fieldTerminals more := by
  simp only [fieldTerminals_eq, List.flatMap_append]

theorem itemTerminals_append (items : List Content) (x : Content) :
    itemTerminals (items ++ [x]) = itemTerminals items ++ x.terminals := by
  induction items with
  | nil => exact List.append_nil _
  | cons y items ih => rw [List.cons_append, itemTerminals, ih, itemTerminals, List.append_assoc]

theorem token_gathers (kinds : List TokenKind) (values : List String) (name : Option String)
    (fields : Parts) (trees : List TokenTree) :
    (token kinds values name fields trees).Gathers fieldTerminals
      (fieldTerminals fields) trees := by
  unfold token
  split
  next => exact gathers_mismatch
  next tree rest hsig =>
    split
    next =>
      refine gathers_found ?_
      rw [fieldTerminals_append, List.append_assoc]
      refine List.Sublist.append_left (List.Sublist.trans ?_ (next_sublist hsig)) _
      cases name with
      | none => exact List.sublist_cons_self _ _
      | some name => exact .refl _
    next => exact gathers_mismatch

theorem tokens_gathers (name : Option String) (fields : Parts) (trees : List TokenTree)
    (branches : List Production) :
    (tokens name fields trees branches).Gathers fieldTerminals (fieldTerminals fields) trees := by
  induction branches with
  | nil => exact gathers_mismatch
  | cons p rest ih =>
      rw [tokens]
      split
      · exact ih
      · exact (token_gathers _ _ name fields trees).orElse ih

theorem separate_sublist (separator : Option String) (items : List Content)
    (trees : List TokenTree) :
    (terminalsAll (separate separator items trees).2).Sublist (terminalsAll trees) := by
  unfold separate
  split
  next => exact .refl _
  next =>
    split
    next => exact .refl _
    next =>
      split
      next => exact List.nil_sublist _
      next tree rest hsig =>
        split
        · exact (List.sublist_cons_self _ _).trans (next_sublist hsig)
        · rw [← hsig]
          exact significant_sublist trees

theorem operator_sublist {minimum : Nat} {trees rest : List TokenTree} {t : Token}
    {info : OperatorInfo} (h : operator minimum trees = some (t, info, rest)) :
    (.ofToken t :: terminalsAll rest).Sublist (terminalsAll trees) := by
  unfold operator at h
  split at h
  next => cases h
  next tree rest' hsig =>
    split at h
    next =>
      split at h
      next =>
        cases h
        exact next_sublist hsig
      next => cases h
    next => cases h

/-- The terminals of a tree are those of its operands with the operator between them. -/
theorem terminals_joined (climb : Climb) (left : Content) (t : Token) (right : Content) :
    (joined climb left t right).terminals = left.terminals ++ .ofToken t :: right.terminals := by
  simp [joined, Content.terminals, fieldTerminals]

/-- With some fuel, whatever is found was upcoming, in the same order. -/
structure Gathers (o : Outline) (fuel : Nat) : Prop where
  node (tag : String) (trees : List TokenTree) :
    (o.node fuel tag trees).Gathers Content.terminals [] trees
  any (types : List String) (trees : List TokenTree) :
    (o.any fuel types trees).Gathers Content.terminals [] trees
  type (tag : String) (trees : List TokenTree) :
    (o.type fuel tag trees).Gathers Content.terminals [] trees
  climbing (operands : List String) (climb : Climb) (minimum : Nat) (trees : List TokenTree) :
    (o.climbing fuel operands climb minimum trees).Gathers Content.terminals [] trees
  extending (operands : List String) (climb : Climb) (minimum : Nat) (left : Content)
      (trees : List TokenTree) :
    (o.extending fuel operands climb minimum left trees).Gathers Content.terminals
      left.terminals trees
  rule (p : Production) (fields : Parts) (trees : List TokenTree) :
    (o.rule fuel p fields trees).Gathers fieldTerminals (fieldTerminals fields) trees
  all (parts : List Production) (fields : Parts) (trees : List TokenTree) :
    (o.all fuel parts fields trees).Gathers fieldTerminals (fieldTerminals fields) trees
  first (branches : List Production) (fields : Parts) (trees : List TokenTree) :
    (o.first fuel branches fields trees).Gathers fieldTerminals (fieldTerminals fields) trees
  block (bracket : Bracket) (inner : Production) (fields : Parts) (trees : List TokenTree) :
    (o.block fuel bracket inner fields trees).Gathers fieldTerminals (fieldTerminals fields) trees
  field (info : RuleInfo) (types : List String) (climb : Option Climb) (fields : Parts)
      (trees : List TokenTree) :
    (o.field fuel info types climb fields trees).Gathers fieldTerminals
      (fieldTerminals fields) trees
  operand (info : RuleInfo) (types : List String) (climb : Option Climb)
      (trees : List TokenTree) :
    (o.operand fuel info types climb trees).Gathers Content.terminals [] trees
  items (info : RuleInfo) (types : List String) (climb : Option Climb) (arity : Arity)
      (sofar : List Content) (trees : List TokenTree) :
    (o.items fuel info types climb arity sofar trees).Gathers itemTerminals
      (itemTerminals sofar) trees

theorem gathers_zero (o : Outline) : o.Gathers 0 := by
  constructor
  all_goals
    intros
    simp only [node, any, type, climbing, extending, rule, all, first, block, field, operand, items]
    exact gathers_stuck

theorem body_gathers (ih : o.Gathers fuel) (p : Production) (fields : Parts)
    (trees : List TokenTree) :
    (o.body fuel p fields trees).Gathers fieldTerminals (fieldTerminals fields) trees := by
  cases p with
  | token info kinds values => exact token_gathers ..
  | node info types climb => exact ih.field ..
  | sequence info parts => exact ih.all ..
  | alternatives info branches =>
      simp only [body]
      split
      · exact tokens_gathers ..
      · exact ih.first ..
  | block info bracket inner => exact ih.block ..

theorem extending_gathers (ih : o.Gathers fuel) (operands : List String) (climb : Climb)
    (minimum : Nat) (left : Content) (trees : List TokenTree) :
    (o.extending (fuel + 1) operands climb minimum left trees).Gathers Content.terminals
      left.terminals trees := by
  rw [extending]
  split
  next => exact gathers_found (.refl _)
  next t info rest hoperator =>
    split
    next => exact gathers_stuck
    next => exact gathers_found (.refl _)
    next right rest' hright =>
      refine ⟨fun hfound => ((ih.extending ..).sublist hfound).trans ?_⟩
      rw [terminals_joined, List.append_assoc]
      refine List.Sublist.append_left ?_ _
      exact (((ih.climbing ..).sublist hright).cons_cons _).trans (operator_sublist hoperator)

theorem block_gathers (ih : o.Gathers fuel) (bracket : Bracket) (inner : Production)
    (fields : Parts) (trees : List TokenTree) :
    (o.block (fuel + 1) bracket inner fields trees).Gathers fieldTerminals
      (fieldTerminals fields) trees := by
  rw [block]
  split
  next t contents rest hsig =>
    split
    next => exact gathers_mismatch
    next =>
      refine ⟨fun {fields' after} hfound => ?_⟩
      obtain ⟨x, left, hinner, hclosed⟩ := andThen_eq_found hfound
      obtain ⟨rfl, rfl⟩ : x = fields' ∧ rest = after := by
        split at hclosed
        · cases hclosed
          exact ⟨rfl, rfl⟩
        · cases hclosed
      have hcontents := (List.sublist_append_left _ _).trans ((ih.rule ..).sublist hinner)
      have hblock : (terminalsAll contents ++ terminalsAll rest).Sublist (terminalsAll trees) := by
        refine List.Sublist.trans ?_ (significant_sublist trees)
        rw [hsig, terminalsAll, TokenTree.terminals, List.append_assoc]
        exact List.sublist_append_right _ _
      refine (hcontents.append_right _).trans ?_
      rw [List.append_assoc]
      exact hblock.append_left _
  next => exact gathers_mismatch

theorem items_gathers (ih : o.Gathers fuel) (info : RuleInfo) (types : List String)
    (climb : Option Climb) (arity : Arity) (sofar : List Content) (trees : List TokenTree) :
    (o.items (fuel + 1) info types climb arity sofar trees).Gathers itemTerminals
      (itemTerminals sofar) trees := by
  have hstop : (Attempt.found sofar trees).Gathers itemTerminals (itemTerminals sofar) trees :=
    gathers_found (.refl _)
  have hseparate := separate_sublist info.attrs.separator sofar trees
  rw [items]
  split
  next => exact hstop
  next =>
    split
    next rest heq =>
      rw [heq] at hseparate
      exact gathers_found (hseparate.append_left _)
    next rest heq =>
      rw [heq] at hseparate
      split
      next => exact gathers_stuck
      next => exact hstop
      next x rest' hoperand =>
        split
        next => exact hstop
        next =>
          refine ⟨fun hfound => ((ih.items ..).sublist hfound).trans ?_⟩
          rw [itemTerminals_append, List.append_assoc]
          exact (((ih.operand ..).sublist hoperand).trans hseparate).append_left _

theorem field_gathers (ih : o.Gathers fuel) (info : RuleInfo) (types : List String)
    (climb : Option Climb) (fields : Parts) (trees : List TokenTree) :
    (o.field (fuel + 1) info types climb fields trees).Gathers fieldTerminals
      (fieldTerminals fields) trees := by
  have hset {x : Content} {name : String} {rest : List TokenTree}
      (h : (x.terminals ++ terminalsAll rest).Sublist (terminalsAll trees)) :
      (fieldTerminals (fields ++ [(name, x)]) ++ terminalsAll rest).Sublist
        (fieldTerminals fields ++ terminalsAll trees) := by
    rw [fieldTerminals_append, List.append_assoc, fieldTerminals, fieldTerminals, List.append_nil]
    exact h.append_left _
  rw [field]
  split
  next => exact gathers_mismatch
  next name _ =>
    split
    next =>
      refine ⟨fun hfound => ?_⟩
      obtain ⟨x, hoperand, rfl⟩ := map_eq_found hfound
      exact hset ((ih.operand ..).sublist hoperand)
    next arity _ =>
      refine ⟨fun hfound => ?_⟩
      obtain ⟨xs, rest', hitems, hlist⟩ := andThen_eq_found hfound
      split at hlist
      · cases hlist
      · cases hlist
        exact hset ((ih.items ..).sublist hitems)

theorem gathers_succ (ih : o.Gathers fuel) : o.Gathers (fuel + 1) where
  node tag trees := by
    rw [node]
    split
    · exact gathers_stuck
    · exact ih.type ..
    · refine (ih.climbing ..).andThen fun x rest => ?_
      split
      · exact gathers_found (.refl _)
      · exact gathers_mismatch
  any types trees := by
    cases types with
    | nil =>
        rw [any]
        exact gathers_mismatch
    | cons tag rest =>
        rw [any]
        exact (ih.node ..).orElse (ih.any ..)
  type tag trees := by
    rw [type]
    split
    next => exact gathers_stuck
    next =>
      split
      next => exact gathers_mismatch
      next root _ =>
        have hrule := ih.rule root [] trees
        exact hrule.map fun fields => .refl _
  climbing operands climb minimum trees := by
    rw [climbing]
    exact (ih.any ..).andThen fun _ _ => ih.extending ..
  extending := extending_gathers ih
  rule p fields trees := by
    rw [rule_succ]
    split
    · exact gathers_found (.refl _)
    · refine (body_gathers ih p fields trees).orElse ?_
      split
      · exact gathers_found (.refl _)
      · split
        · exact gathers_stuck
        · exact gathers_mismatch
  all parts fields trees := by
    cases parts with
    | nil =>
        rw [all]
        exact gathers_found (.refl _)
    | cons p rest =>
        rw [all]
        exact (ih.rule ..).andThen fun _ _ => ih.all ..
  first branches fields trees := by
    cases branches with
    | nil =>
        rw [first]
        exact gathers_mismatch
    | cons p rest =>
        rw [first]
        exact (ih.rule ..).orElse (ih.first ..)
  block := block_gathers ih
  field := field_gathers ih
  operand info types climb trees := by
    cases climb with
    | none =>
        rw [operand]
        exact ih.any ..
    | some climb =>
        rw [operand]
        exact ih.climbing ..
  items := items_gathers ih

theorem gathers (o : Outline) (fuel : Nat) : o.Gathers fuel := by
  induction fuel with
  | zero => exact o.gathers_zero
  | succ fuel ih => exact gathers_succ ih

end Outline

/-! ### Texts -/

/-- The trees of a level hold the tokens of the run up to the end of the level, in
their order. -/
theorem Queue.exists_level (events : List Event) :
    ∃ (trees : List TokenTree) (after : List Event),
      level none (events.map .ok) = ⟨trees, .ok (after.map .ok)⟩ ∧
      after.length ≤ events.length ∧
      terminalsAll trees ++ after.flatMap Event.terminals = events.flatMap Event.terminals := by
  induction hlen : events.length using Nat.strong_induction_on generalizing events with
  | _ n ih =>
    subst hlen
    cases events with
    | nil => exact ⟨[], [], level_nil none, Nat.le_refl _, rfl⟩
    | cons e events =>
        rw [List.flatMap_cons]
        cases e with
        | token t =>
            obtain ⟨trees, after, hlevel, hlength, hterminals⟩ :=
              ih _ (Nat.lt_succ_self _) events rfl
            refine ⟨.leaf t :: trees, after, ?_, Nat.le_succ_of_le hlength, ?_⟩
            · rw [List.map_cons, level_token, hlevel]
            · rw [← hterminals, terminalsAll, List.append_assoc]
              rfl
        | opened b place spaceBefore =>
            obtain ⟨inner, between, hinner, hshorter, hcontents⟩ :=
              ih _ (Nat.lt_succ_self _) events rfl
            obtain ⟨trees, after, hlevel, hlength, hterminals⟩ :=
              ih _ (Nat.lt_succ_of_le hshorter) between rfl
            refine ⟨.block (Token.ofBracket b place spaceBefore) inner :: trees, after, ?_,
              Nat.le_succ_of_le (hlength.trans hshorter), ?_⟩
            · rw [List.map_cons, level_opened, hinner, Span.enclosed, Span.andThen_ok, hlevel]
              rfl
            · rw [← hcontents, ← hterminals]
              simp [terminalsAll, terminals, Event.terminals]
        | closed b place =>
            refine ⟨[], events, ?_, Nat.le_succ _, rfl⟩
            rw [List.map_cons, level_closed]

namespace Tree

variable {d : Dialect} {types : List String} {sql : String} {t : Tree}

/-- The terminals of a parsed tree are significant tokens of the text, in the order of
the text. -/
theorem terminals_sublist (h : parseAs d types sql = .ok t) :
    (t.forest.content t.root).terminals.Sublist
      ((lexEvents d (.ofDialect d) [sql]).1.flatMap Event.terminals) := by
  obtain ⟨hended, -, -, -, fuel, rest, hfound, -⟩ := found_of_parseAs h
  obtain ⟨trees, after, hlevel, -, hterminals⟩ :=
    Queue.exists_level (lexEvents d (.ofDialect d) [sql]).1
  have hupcoming : (Source.ofChunks d (.ofDialect d) [sql]).upcoming = trees := by
    rw [Source.upcoming, Source.line_ofChunks, Feed.ofChunks_of_ended hended, hlevel]
    rfl
  rw [hupcoming] at hfound
  have htaken := (((Standard.outline d).gathers fuel).any types trees).sublist hfound
  rw [← hterminals]
  exact ((List.sublist_append_left _ _).trans htaken).trans (List.sublist_append_left _ _)

end Tree

end DualSql
