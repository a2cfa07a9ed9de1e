import DualSql.Proofs.Grammar.Planted
import DualSql.Proofs.Grammar.Preserving
import DualSql.Proofs.Grammar.Recompiling

/-! # What a match sets

Which fields a match adds can be said without a stream: a production is passed
over, or it is matched and adds what its parts add. The nodes in the fields have
the types that the production names. Every match of the parser adds fields in
this way, from whatever stream it reads.

Main definitions: `Production.Adds`, with `Production.Matches` for a production
that is not passed over, and `Parsing.Conveys`, what is to be shown of the
functions of the parser at some fuel. Main results: `Parsing.conveys` and
`Parsing.adds_of_parseType`. -/

namespace DualSql

/-! ### Types under their tags -/

namespace Registry

/-- What a type makes by climbing has the tag that the type is registered with. -/
def Titled (r : Registry) : Prop :=
  ∀ tag operands climb rule, r.type? tag = some (.climbing operands climb rule) → tag = climb.node

variable {r r' : Registry}

theorem Agrees.titled (h : r.Agrees r') (ht : r.Titled) : r'.Titled := by
  intro tag operands climb rule htype
  rw [h.type?] at htype
  exact ht tag operands climb rule htype

theorem Titled.register {tag : String} {nodeType : NodeType} (ht : r.Titled)
    (hnew : ∀ climb ∈ nodeType.climb?, tag = climb.node) : (r.register tag nodeType).Titled := by
  intro tag' operands climb rule htype
  rw [type?_register] at htype
  split at htype
  next heq =>
    cases htype
    exact heq.trans (hnew climb rfl)
  next => exact ht tag' operands climb rule htype

theorem titled_after (requests : List Request) : (after requests).Titled := by
  induction requests using List.reverseRecOn with
  | nil => exact fun tag operands climb rule htype => nomatch htype
  | append_singleton requests request ih =>
      rw [after_append]
      cases request with
      | declare tag rule => exact ih.register (by simp [NodeType.climb?])
      | climbing operands climb rule => exact ih.register (by simp [NodeType.climb?])
      | schema tag d => exact (agrees_schema _ tag d).titled ih
      | validate => exact (agrees_compileAll _ _).titled ih

end Registry

/-! ### Lists of different items -/

namespace Singletons

variable {policy : Singletons} {items : List Content} {x : Content}

/-- No item of a list repeats one that comes before it. -/
def Different (policy : Singletons) (items : List Content) : Prop :=
  items.Pairwise fun x y => Content.repeats policy [x] y = false

/-- What repeats a list repeats one of its items. -/
theorem repeats_eq_false_iff :
    Content.repeats policy items x = false ↔
      ∀ item ∈ items, Content.repeats policy [item] x = false := by
  cases policy <;> simp [Content.repeats]

theorem Different.concat (h : policy.Different items)
    (hnew : Content.repeats policy items x = false) : policy.Different (items ++ [x]) := by
  refine List.pairwise_append.2 ⟨h, List.pairwise_singleton _ _, fun item hitem y hy => ?_⟩
  rw [List.mem_singleton.1 hy]
  exact repeats_eq_false_iff.1 hnew item hitem

end Singletons

/-! ### What matches set -/

/-- A node of a forest is of one of some types. -/
def Forest.IsOf (f : Forest) (types : List String) (id : NodeId) : Prop :=
  id < f.size ∧ f.tag id ∈ types

theorem Forest.IsOf.mono {f f' : Forest} {kept : Nat} {types : List String} {id : NodeId}
    (h : f.IsOf types id) (grows : Grows kept f f') : f'.IsOf types id :=
  ⟨Nat.lt_of_lt_of_le h.1 grows.size, by rw [(grows.shape id h.1).1]; exact h.2⟩

namespace Production

/-- Whether a production applies, given the fields set before it. -/
def applies (p : Production) (fields : Fields) : Bool :=
  p.attrs.condition.all (·.holds fun name => (fields.lookup name).isSome)

mutual

/-- A production adds fields to those before it: none where it does not apply or
need not match, and else what its match adds. -/
inductive Adds (f : Forest) : Production → Fields → Fields → Prop
  | skipped {p : Production} {fields : Fields} (happlies : p.applies fields = false) :
      Adds f p fields []
  | omitted {p : Production} {fields : Fields} (hoptional : p.attrs.optional = true) :
      Adds f p fields []
  | matched {p : Production} {fields more : Fields} (happlies : p.applies fields = true)
      (hmatches : Matches f p fields more) : Adds f p fields more

/-- A match of a production adds fields to those before it. -/
inductive Matches (f : Forest) : Production → Fields → Fields → Prop
  | token {info : RuleInfo} {kinds : List TokenKind} {values : List String} {fields : Fields}
      {t : Token} (hfits : Parsing.fits kinds values t = true) :
      Matches f (token info kinds values) fields
        (info.attrs.name.map fun name => (name, .terminal (.ofToken t))).toList
  | tokens {info : RuleInfo} {branches : List Production} {fields : Fields} {p : Production}
      {kinds : List TokenKind} {values : List String} {t : Token}
      (hnamed : info.attrs.name.isSome = true) (hp : p ∈ branches)
      (htoken : p.token? = some (kinds, values)) (hfits : Parsing.fits kinds values t = true) :
      Matches f (alternatives info branches) fields
        (info.attrs.name.map fun name => (name, .terminal (.ofToken t))).toList
  | node {info : RuleInfo} {types : List String} {climb : Option Climb} {fields : Fields}
      {name : String} {id : NodeId} (hname : info.attrs.name = some name)
      (harity : info.attrs.arity = none) (hid : f.IsOf (acceptedTypes types climb) id) :
      Matches f (node info types climb) fields [(name, .node id)]
  | list {info : RuleInfo} {types : List String} {climb : Option Climb} {fields : Fields}
      {name : String} {arity : Arity} {ids : List NodeId} (hname : info.attrs.name = some name)
      (harity : info.attrs.arity = some arity) (hlength : arity.admits ids.length = true)
      (hids : ∀ id ∈ ids, f.IsOf (acceptedTypes types climb) id)
      (hdifferent : info.attrs.singletons.Different (ids.map f.content)) :
      Matches f (node info types climb) fields [(name, .list ids)]
  | sequence {info : RuleInfo} {parts : List Production} {fields more : Fields}
      (hparts : AddsAll f parts fields more) : Matches f (sequence info parts) fields more
  | branch {info : RuleInfo} {branches : List Production} {fields more : Fields} {p : Production}
      (hname : info.attrs.name = none) (hp : p ∈ branches) (hadds : Adds f p fields more) :
      Matches f (alternatives info branches) fields more
  | block {info : RuleInfo} {bracket : Bracket} {inner : Production} {fields more : Fields}
      (hinner : Adds f inner fields more) : Matches f (block info bracket inner) fields more

/-- Productions one after the other add fields to those before them. -/
inductive AddsAll (f : Forest) : List Production → Fields → Fields → Prop
  | nil {fields : Fields} : AddsAll f [] fields []
  | cons {p : Production} {rest : List Production} {fields first others : Fields}
      (hfirst : Adds f p fields first) (hothers : AddsAll f rest (fields ++ first) others) :
      AddsAll f (p :: rest) fields (first ++ others)

end

variable {f f' : Forest} {kept least : Nat}

/-- The items of a list stay what they are while nodes are made. -/
theorem map_content_of_fresh (grows : Forest.Grows kept f f') (descends : f.Descends least)
    {name : String} {ids : List NodeId} (fresh : f.Fresh least [(name, .list ids)]) :
    ids.map f'.content = ids.map f.content := by
  refine List.map_congr_left fun id hid => ?_
  obtain ⟨hle, hlt⟩ := fresh id (by simpa [Fields.children, FieldValue.children] using hid)
  exact grows.content descends hle hlt

mutual

/-- What was added stays as it is while nodes are made. -/
theorem Adds.mono (grows : Forest.Grows kept f f') (descends : f.Descends least) :
    {p : Production} → {fields more : Fields} → Adds f p fields more → f.Fresh least more →
    Adds f' p fields more
  | _, _, _, .skipped happlies, _ => .skipped happlies
  | _, _, _, .omitted hoptional, _ => .omitted hoptional
  | _, _, _, .matched happlies hmatches, fresh =>
      .matched happlies (hmatches.mono grows descends fresh)

theorem Matches.mono (grows : Forest.Grows kept f f') (descends : f.Descends least) :
    {p : Production} → {fields more : Fields} → Matches f p fields more → f.Fresh least more →
    Matches f' p fields more
  | _, _, _, .token hfits, _ => .token hfits
  | _, _, _, .tokens hnamed hp htoken hfits, _ => .tokens hnamed hp htoken hfits
  | _, _, _, .node hname harity hid, _ => .node hname harity (hid.mono grows)
  | _, _, _, .list hname harity hlength hids hdifferent, fresh =>
      .list hname harity hlength (fun id hid => (hids id hid).mono grows)
        (map_content_of_fresh grows descends fresh ▸ hdifferent)
  | _, _, _, .sequence hparts, fresh => .sequence (hparts.mono grows descends fresh)
  | _, _, _, .branch hname hp hadds, fresh => .branch hname hp (hadds.mono grows descends fresh)
  | _, _, _, .block hinner, fresh => .block (hinner.mono grows descends fresh)

theorem AddsAll.mono (grows : Forest.Grows kept f f') (descends : f.Descends least) :
    {parts : List Production} → {fields more : Fields} → AddsAll f parts fields more →
    f.Fresh least more → AddsAll f' parts fields more
  | _, _, _, .nil, _ => .nil
  | _, _, _, .cons hfirst hothers, fresh =>
      .cons (hfirst.mono grows descends fun child hc => fresh child (by simp [hc]))
        (hothers.mono grows descends fun child hc => fresh child (by simp [hc]))

end

end Production

theorem mem_acceptedTypes {types : List String} {climb : Option Climb} {tag : String} :
    tag ∈ acceptedTypes types climb ↔ tag ∈ types ∨ ∃ c ∈ climb, tag = c.node := by
  cases climb with
  | none => simp [acceptedTypes]
  | some c =>
      simp only [acceptedTypes, Option.mem_some_iff, exists_eq_left']
      split
      next hmem =>
        rw [List.contains_iff_mem] at hmem
        constructor
        · exact .inl
        · rintro (h | rfl)
          · exact h
          · exact hmem
      next => simp

namespace Parsing

open Fallible Forest Production

variable {options : ParseOptions} {r : Registry} {s s' : ParseState}

/-- The items that a node rule has matched so far: different nodes of its types, and not
more of them than there may be. -/
structure IsListOf (f : Forest) (info : RuleInfo) (types : List String) (climb : Option Climb)
    (arity : Arity) (ids : List NodeId) : Prop where
  most : arity.most.all (ids.length ≤ ·) = true
  nodes : ∀ id ∈ ids, f.IsOf (acceptedTypes types climb) id
  different : info.attrs.singletons.Different (ids.map f.content)

/-- What is to be shown of the functions of the parser at some fuel: the nodes that
they find have the types that were asked for, and fields are added as the
production says. -/
structure Conveys (options : ParseOptions) (r : Registry) (fuel : Nat) : Prop where
  node {s s' : ParseState} {tag : String} {id : NodeId} :
    s.forest.Linked → r.Agrees s.registry → parseNode options fuel tag s = (.ok (some id), s') →
    s'.forest.tag id = tag
  any {s s' : ParseState} {types : List String} {id : NodeId} :
    s.forest.Linked → r.Agrees s.registry → parseAny options fuel types s = (.ok (some id), s') →
    s'.forest.IsOf types id
  type {s s' : ParseState} {tag : String} {id : NodeId} :
    s.forest.Linked → r.Agrees s.registry → parseType options fuel tag s = (.ok (some id), s') →
    ∃ schema root, (r.schema tag options.dialect).1 = .ok schema ∧ schema.root = some root ∧
      s'.forest.tag id = tag ∧ Adds s'.forest root [] (s'.forest.fields id)
  climbing {s s' : ParseState} {operands : List String} {climb : Climb} {minimum : Nat}
      {id : NodeId} :
    s.forest.Linked → r.Agrees s.registry →
    parseClimbing options fuel operands climb minimum s = (.ok (some id), s') →
    s'.forest.IsOf (acceptedTypes operands (some climb)) id
  extending {f : Forest} {s s' : ParseState} {operands : List String} {climb : Climb}
      {minimum : Nat} {left id : NodeId} :
    f.Linked → f.Plants s.forest [left] → r.Agrees s.registry →
    s.forest.IsOf (acceptedTypes operands (some climb)) left →
    climbFrom options fuel operands climb minimum left s = (.ok id, s') →
    s'.forest.IsOf (acceptedTypes operands (some climb)) id
  rule {s s' : ParseState} {tag : String} {p : Production} {fields fields' : Fields} :
    s.forest.Linked → r.Agrees s.registry →
    matchRule options fuel tag p fields s = (.ok (some fields'), s') →
    ∃ more, fields' = fields ++ more ∧ Adds s'.forest p fields more
  all {s s' : ParseState} {tag : String} {parts : List Production} {fields fields' : Fields} :
    s.forest.Linked → r.Agrees s.registry →
    matchAll options fuel tag parts fields s = (.ok (some fields'), s') →
    ∃ more, fields' = fields ++ more ∧ AddsAll s'.forest parts fields more
  first {s s' : ParseState} {tag : String} {branches : List Production} {fields fields' : Fields} :
    s.forest.Linked → r.Agrees s.registry →
    matchFirst options fuel tag branches fields s = (.ok (some fields'), s') →
    ∃ more, fields' = fields ++ more ∧ ∃ p ∈ branches, Adds s'.forest p fields more
  block {s s' : ParseState} {tag : String} {bracket : Bracket} {inner : Production}
      {fields fields' : Fields} :
    s.forest.Linked → r.Agrees s.registry →
    matchBlock options fuel tag bracket inner fields s = (.ok (some fields'), s') →
    ∃ more, fields' = fields ++ more ∧ Adds s'.forest inner fields more
  field {s s' : ParseState} {info : RuleInfo} {types : List String} {climb : Option Climb}
      {fields fields' : Fields} :
    s.forest.Linked → r.Agrees s.registry →
    matchNode options fuel info types climb fields s = (.ok (some fields'), s') →
    ∃ more, fields' = fields ++ more ∧ Matches s'.forest (.node info types climb) fields more
  operand {s s' : ParseState} {info : RuleInfo} {types : List String} {climb : Option Climb}
      {id : NodeId} :
    s.forest.Linked → r.Agrees s.registry →
    matchOperand options fuel info types climb s = (.ok (some id), s') →
    s'.forest.IsOf (acceptedTypes types climb) id
  items {f : Forest} {s s' : ParseState} {info : RuleInfo} {types : List String}
      {climb : Option Climb} {arity : Arity} {sofar ids : List NodeId} :
    f.Linked → f.Plants s.forest sofar → r.Agrees s.registry →
    IsListOf s.forest info types climb arity sofar →
    matchItems options fuel info types climb arity sofar s = (.ok ids, s') →
    IsListOf s'.forest info types climb arity ids

theorem conveys_zero : Conveys options r 0 := by
  constructor
  all_goals
    intros
    rename_i h
    simp [parseNode, parseAny, parseType, parseClimbing, climbFrom, matchRule, matchAll, matchFirst,
      matchBlock, matchNode, matchOperand, matchItems, throw_eq_ok] at h

theorem isOf_of_plants {f f' : Forest} {types : List String} {id : NodeId}
    (plants : f.Plants f' [id]) (htag : f'.tag id ∈ types) : f'.IsOf types id :=
  ⟨(plants.bounds (List.mem_singleton_self id)).2, htag⟩

theorem adds_matchToken {kinds : List TokenKind} {values : List String} {name : Option String}
    {fields fields' : Fields}
    (h : matchToken kinds values name fields s = (.ok (some fields'), s')) :
    ∃ t, fits kinds values t = true ∧
      fields' = fields ++ (name.map fun name => (name, .terminal (.ofToken t))).toList := by
  simp only [matchToken, bind_eq_ok] at h
  obtain ⟨⟨⟩, s₁, -, t, s₂, -, h⟩ := h
  cases t with
  | none => simp [pure_eq_ok] at h
  | some t =>
      dsimp only at h
      split at h
      next hfits =>
        simp only [bind_eq_ok, pure_eq_ok] at h
        obtain ⟨_, s₃, -, heq, -⟩ := h
        exact ⟨t, hfits, (Option.some.inj heq).symm⟩
      next => simp [pure_eq_ok] at h

theorem adds_matchTokens {name : Option String} {branches : List Production}
    {fields fields' : Fields} (h : matchTokens name fields branches s = (.ok (some fields'), s')) :
    ∃ p ∈ branches, ∃ kinds values t, p.token? = some (kinds, values) ∧
      fits kinds values t = true ∧
      fields' = fields ++ (name.map fun name => (name, .terminal (.ofToken t))).toList := by
  induction branches generalizing s with
  | nil => simp [matchTokens, pure_eq_ok] at h
  | cons p rest ih =>
      rw [matchTokens] at h
      cases hp : p.token? with
      | none =>
          simp only [hp] at h
          obtain ⟨q, hq, hmatch⟩ := ih h
          exact ⟨q, List.mem_cons_of_mem _ hq, hmatch⟩
      | some kv =>
          obtain ⟨kinds, values⟩ := kv
          simp only [hp, bind_eq_ok] at h
          obtain ⟨r₁, s₁, hfirst, h⟩ := h
          cases r₁ with
          | some fields₁ =>
              obtain ⟨heq, -⟩ := pure_eq_ok.1 h
              cases heq
              obtain ⟨t, hfits, heq⟩ := adds_matchToken hfirst
              exact ⟨p, List.mem_cons_self, kinds, values, t, hp, hfits, heq⟩
          | none =>
              obtain ⟨q, hq, hmatch⟩ := ih h
              exact ⟨q, List.mem_cons_of_mem _ hq, hmatch⟩

/-- What answers with nothing after its last step has found nothing. -/
theorem none_ne_found {α β : Type} {m : Parsing β} {a : α} :
    (m >>= fun _ => pure none) s ≠ (.ok (some a), s') := by
  intro h
  obtain ⟨b, t, -, h⟩ := bind_eq_ok.1 h
  cases (pure_eq_ok.1 h).1

section succ

variable {fuel : Nat} (ih : Conveys options r fuel)
include ih

theorem conveys_node (titled : r.Titled) {tag : String} {id : NodeId} (hl : s.forest.Linked)
    (agrees : r.Agrees s.registry)
    (h : parseNode options (fuel + 1) tag s = (.ok (some id), s')) : s'.forest.tag id = tag := by
  simp only [parseNode, bind_eq_ok, get_eq_ok] at h
  obtain ⟨a, t, ⟨rfl, rfl⟩, h⟩ := h
  cases htype : s.registry.type? tag with
  | none => simp only [htype, throw_eq_ok] at h
  | some nodeType =>
      cases nodeType with
      | declared rule =>
          simp only [htype] at h
          obtain ⟨-, -, -, -, htag, -⟩ := ih.type hl agrees h
          exact htag
      | climbing operands climb rule =>
          simp only [htype, bind_eq_ok, mark_eq_ok] at h
          obtain ⟨start, s₁, -, mark, s₂, ⟨rfl, rfl⟩, r₁, s₃, -, h⟩ := h
          rw [agrees.type?] at htype
          cases r₁ with
          | none =>
              cases none_ne_found h
          | some id' =>
              simp only [bind_eq_ok, get_eq_ok] at h
              obtain ⟨a, t, ⟨rfl, rfl⟩, h⟩ := h
              split at h
              next htag =>
                obtain ⟨heq, rfl⟩ := pure_eq_ok.1 h
                cases heq
                exact htag.trans (titled tag operands climb rule htype).symm
              next =>
                cases none_ne_found h

theorem conveys_any {types : List String} {id : NodeId} (hl : s.forest.Linked)
    (agrees : r.Agrees s.registry)
    (h : parseAny options (fuel + 1) types s = (.ok (some id), s')) : s'.forest.IsOf types id := by
  cases types with
  | nil => simp [parseAny, pure_eq_ok] at h
  | cons tag rest =>
      have plants := (plantsTrees options (fuel + 1)).any hl h
      apply isOf_of_plants plants
      simp only [parseAny, bind_eq_ok] at h
      obtain ⟨r₁, s₁, hnode, h⟩ := h
      cases r₁ with
      | some id' =>
          obtain ⟨heq, rfl⟩ := pure_eq_ok.1 h
          cases heq
          rw [ih.node hl agrees hnode]
          exact List.mem_cons_self
      | none =>
          have hforest : s₁.forest = s.forest := (plantsTrees options fuel).node hl hnode
          have agrees₁ := agrees_of_run ((preservesAgrees options r fuel).node tag) agrees hnode
          exact List.mem_cons_of_mem _ (ih.any (by rwa [hforest]) agrees₁ h).2

theorem conveys_type {tag : String} {id : NodeId} (hl : s.forest.Linked)
    (agrees : r.Agrees s.registry)
    (h : parseType options (fuel + 1) tag s = (.ok (some id), s')) :
    ∃ schema root, (r.schema tag options.dialect).1 = .ok schema ∧ schema.root = some root ∧
      s'.forest.tag id = tag ∧ Adds s'.forest root [] (s'.forest.fields id) := by
  simp only [parseType, bind_eq_ok] at h
  obtain ⟨schema, s₁, hschema, h⟩ := h
  have hanswer : (r.schema tag options.dialect).1 = .ok schema := by
    rw [← agrees.schemas]
    exact congrArg Prod.fst hschema
  have agrees₁ : r.Agrees s₁.registry := by
    obtain ⟨-, rfl⟩ := Prod.mk.inj hschema
    exact agrees.trans (Registry.agrees_schema s.registry tag options.dialect)
  cases hroot : schema.root with
  | none => simp [hroot, pure_eq_ok] at h
  | some root =>
      simp only [hroot, bind_eq_ok, mark_eq_ok] at h
      obtain ⟨start, s₂, hsave, mark, s₃, ⟨rfl, rfl⟩, r₁, s₄, hrule, h⟩ := h
      have hl₂ : s₂.forest.Linked := by
        rw [forest_read hsave, forest_schema hschema]
        exact hl
      have agrees₂ := agrees_of_run (preserves_read _) agrees₁ hsave
      cases r₁ with
      | none =>
          cases none_ne_found h
      | some fields =>
          obtain ⟨⟨_, heq, plants⟩, -⟩ := (plantsTrees options fuel).rule hl₂ hrule
          obtain rfl := heq
          obtain ⟨more, heq, hadds⟩ := ih.rule hl₂ agrees₂ hrule
          simp only [List.nil_append] at heq plants h
          subst heq
          simp only [bind_eq_ok, pure_eq_ok] at h
          obtain ⟨id', s₅, hbuild, heq, rfl⟩ := h
          cases heq
          obtain ⟨hsize, hmade⟩ := built hbuild
          have hforest := congrArg ParseState.forest hmade
          refine ⟨schema, root, hanswer, hroot, ?_, ?_⟩
          · rw [hforest, tag_append, if_pos hsize]
          · rw [hforest, fields_append, if_pos hsize]
            have fresh : s₄.forest.Fresh 0 fields := fun child hchild =>
              ⟨Nat.zero_le _, (plants.bounds hchild).2⟩
            exact hadds.mono (grows_append (Nat.zero_le _) fresh) plants.descends
              fun child hchild => plants.bounds hchild

theorem conveys_climbing {operands : List String} {climb : Climb} {minimum : Nat} {id : NodeId}
    (hl : s.forest.Linked) (agrees : r.Agrees s.registry)
    (h : parseClimbing options (fuel + 1) operands climb minimum s = (.ok (some id), s')) :
    s'.forest.IsOf (acceptedTypes operands (some climb)) id := by
  simp only [parseClimbing, bind_eq_ok] at h
  obtain ⟨r₁, s₁, hany, h⟩ := h
  cases r₁ with
  | none => simp [pure_eq_ok] at h
  | some left =>
      simp only [bind_eq_ok, pure_eq_ok] at h
      obtain ⟨id', s₂, hfrom, heq, rfl⟩ := h
      cases heq
      have hleft := ih.any hl agrees hany
      exact ih.extending hl ((plantsTrees options fuel).any hl hany)
        (agrees_of_run ((preservesAgrees options r fuel).any operands) agrees hany)
        ⟨hleft.1, mem_acceptedTypes.2 (.inl hleft.2)⟩ hfrom

theorem conveys_extending {f : Forest} {operands : List String} {climb : Climb} {minimum : Nat}
    {left id : NodeId} (hl : f.Linked) (plants : f.Plants s.forest [left])
    (agrees : r.Agrees s.registry)
    (hleft : s.forest.IsOf (acceptedTypes operands (some climb)) left)
    (h : climbFrom options (fuel + 1) operands climb minimum left s = (.ok id, s')) :
    s'.forest.IsOf (acceptedTypes operands (some climb)) id := by
  simp only [climbFrom, bind_eq_ok] at h
  obtain ⟨r₁, s₁, hoperator, h⟩ := h
  have hforest₁ := forest_climbingOperator hoperator
  have agrees₁ := agrees_of_run (preserves_climbingOperator minimum) agrees hoperator
  cases r₁ with
  | none =>
      obtain ⟨rfl, rfl⟩ := pure_eq_ok.1 h
      rwa [hforest₁]
  | some next =>
      obtain ⟨operator, info⟩ := next
      simp only [bind_eq_ok, mark_eq_ok] at h
      obtain ⟨start, s₂, hsave, mark, s₃, ⟨rfl, rfl⟩, ⟨⟩, s₄, hskip, _, s₅, hnext, r₂, s₆, hclimb,
        h⟩ := h
      have hforest₂ : s₂.forest = s.forest := (forest_read hsave).trans hforest₁
      have hforest₅ : s₅.forest = s.forest :=
        (forest_read hnext).trans ((forest_read hskip).trans hforest₂)
      have agrees₂ := agrees_of_run (preserves_read _) agrees₁ hsave
      have agrees₅ := agrees_of_run (preserves_read _)
        (agrees_of_run (preserves_read _) agrees₂ hskip) hnext
      have agrees₆ := agrees_of_run
        ((preservesAgrees options r fuel).climbing _ _ _) agrees₅ hclimb
      have hlinked : s.forest.Linked := plants.linked hl
      have hright := (plantsTrees options fuel).climbing (by rwa [hforest₅]) hclimb
      rw [hforest₅] at hright
      rw [hforest₂] at h
      cases r₂ with
      | none =>
          simp only [bind_eq_ok, pure_eq_ok] at h
          obtain ⟨⟨⟩, s₇, hb, rfl, rfl⟩ := h
          rwa [forest_backtrack hlinked hright.grows hb]
      | some right =>
          simp only [bind_eq_ok] at h
          obtain ⟨whole, s₇, hbuild, h⟩ := h
          obtain ⟨hsize, hmade⟩ := built hbuild
          have hforest := congrArg ParseState.forest hmade
          have hwhole : s₇.forest.tag whole = climb.node := by
            rw [hforest, tag_append, if_pos hsize]
          have plants₇ := plants_build (plants.trans hright) hbuild
          have agrees₇ := agrees_of_run (preserves_build (stable_agrees r) _ _) agrees₆ hbuild
          refine ih.extending hl plants₇ agrees₇
            ⟨(plants₇.bounds (List.mem_singleton_self whole)).2, ?_⟩ h
          exact mem_acceptedTypes.2 (.inr ⟨climb, rfl, hwhole⟩)

theorem conveys_operand {info : RuleInfo} {types : List String} {climb : Option Climb}
    {id : NodeId} (hl : s.forest.Linked) (agrees : r.Agrees s.registry)
    (h : matchOperand options (fuel + 1) info types climb s = (.ok (some id), s')) :
    s'.forest.IsOf (acceptedTypes types climb) id := by
  cases climb with
  | some climb => exact ih.climbing hl agrees h
  | none => exact ih.any hl agrees h

theorem conveys_all {tag : String} {parts : List Production} {fields fields' : Fields}
    (hl : s.forest.Linked) (agrees : r.Agrees s.registry)
    (h : matchAll options (fuel + 1) tag parts fields s = (.ok (some fields'), s')) :
    ∃ more, fields' = fields ++ more ∧ AddsAll s'.forest parts fields more := by
  cases parts with
  | nil =>
      simp only [matchAll, pure_eq_ok] at h
      obtain ⟨heq, rfl⟩ := h
      cases heq
      exact ⟨[], (List.append_nil _).symm, .nil⟩
  | cons p rest =>
      simp only [matchAll, bind_eq_ok] at h
      obtain ⟨r₁, s₁, hrule, h⟩ := h
      cases r₁ with
      | none => simp [pure_eq_ok] at h
      | some fields₁ =>
          obtain ⟨first, rfl, hfirst⟩ := ih.rule hl agrees hrule
          have agrees₁ :=
            agrees_of_run ((preservesAgrees options r fuel).rule _ _ _) agrees hrule
          obtain ⟨⟨_, heq, plants⟩, -⟩ := (plantsTrees options fuel).rule hl hrule
          obtain rfl := List.append_cancel_left heq
          have grows := ((plantsTrees options fuel).all (plants.linked hl) h).grows
          obtain ⟨others, rfl, hothers⟩ := ih.all (plants.linked hl) agrees₁ h
          have hfirst' := hfirst.mono grows plants.descends fun child hchild => plants.bounds hchild
          exact ⟨first ++ others, List.append_assoc _ _ _, .cons hfirst' hothers⟩

theorem conveys_first {tag : String} {branches : List Production} {fields fields' : Fields}
    (hl : s.forest.Linked) (agrees : r.Agrees s.registry)
    (h : matchFirst options (fuel + 1) tag branches fields s = (.ok (some fields'), s')) :
    ∃ more, fields' = fields ++ more ∧ ∃ p ∈ branches, Adds s'.forest p fields more := by
  cases branches with
  | nil => simp [matchFirst, pure_eq_ok] at h
  | cons p rest =>
      simp only [matchFirst, bind_eq_ok] at h
      obtain ⟨r₁, s₁, hrule, h⟩ := h
      cases r₁ with
      | some fields₁ =>
          obtain ⟨heq, rfl⟩ := pure_eq_ok.1 h
          cases heq
          obtain ⟨more, heq, hadds⟩ := ih.rule hl agrees hrule
          exact ⟨more, heq, p, List.mem_cons_self, hadds⟩
      | none =>
          have hforest := ((plantsTrees options fuel).rule hl hrule).2 rfl
          have agrees₁ :=
            agrees_of_run ((preservesAgrees options r fuel).rule _ _ _) agrees hrule
          obtain ⟨more, heq, q, hq, hadds⟩ := ih.first (by rwa [hforest]) agrees₁ h
          exact ⟨more, heq, q, List.mem_cons_of_mem _ hq, hadds⟩

theorem conveys_items {f : Forest} {info : RuleInfo} {types : List String}
    {climb : Option Climb} {arity : Arity} {sofar ids : List NodeId} (hf : f.Linked)
    (hplanted : f.Plants s.forest sofar) (agrees : r.Agrees s.registry)
    (hsofar : IsListOf s.forest info types climb arity sofar)
    (h : matchItems options (fuel + 1) info types climb arity sofar s = (.ok ids, s')) :
    IsListOf s'.forest info types climb arity ids := by
  have hl : s.forest.Linked := hplanted.linked hf
  have hstop {t : ParseState} (hforest : t.forest = s.forest) :
      IsListOf t.forest info types climb arity sofar := by
    rw [hforest]
    exact hsofar
  rw [matchItems] at h
  split at h
  · obtain ⟨rfl, rfl⟩ := pure_eq_ok.1 h
    exact hstop rfl
  next hmore =>
    simp only [bind_eq_ok, mark_eq_ok] at h
    obtain ⟨start, s₁, hsave, mark, s₂, ⟨rfl, rfl⟩, b, s₃, hsep, h⟩ := h
    have hforest₁ := forest_read hsave
    have hforest₃ : s₃.forest = s.forest := (forest_separate hsep).trans hforest₁
    have agrees₃ := agrees_of_run (preserves_separate _ _)
      (agrees_of_run (preserves_read _) agrees hsave) hsep
    rw [hforest₁] at h
    cases b with
    | false =>
        obtain ⟨rfl, rfl⟩ := pure_eq_ok.1 h
        exact hstop hforest₃
    | true =>
        simp only [Bool.not_true, Bool.false_eq_true, if_false, bind_eq_ok] at h
        obtain ⟨r₁, s₄, hoperand, h⟩ := h
        have plants := (plantsTrees options fuel).operand (by rwa [hforest₃]) hoperand
        rw [hforest₃] at plants
        cases r₁ with
        | none =>
            simp only [bind_eq_ok, pure_eq_ok] at h
            obtain ⟨⟨⟩, s₅, hb, rfl, rfl⟩ := h
            exact hstop (forest_backtrack hl plants.grows hb)
        | some id =>
            simp only [bind_eq_ok, get_eq_ok] at h
            obtain ⟨a, t, ⟨rfl, rfl⟩, h⟩ := h
            split at h
            · simp only [bind_eq_ok, pure_eq_ok] at h
              obtain ⟨⟨⟩, s₅, hb, rfl, rfl⟩ := h
              exact hstop (forest_backtrack hl plants.grows hb)
            next hnew =>
              have hid := ih.operand (by rwa [hforest₃]) agrees₃ hoperand
              have agrees₄ := agrees_of_run ((preservesAgrees options r fuel).operand _ _ _)
                agrees₃ hoperand
              have hall : f.Plants s₄.forest (sofar ++ [id]) := hplanted.trans plants
              refine ih.items hf hall agrees₄ ⟨?_, ?_, ?_⟩ h
              · cases hmost : arity.most with
                | none => rfl
                | some most =>
                    have hless : sofar.length < most := by
                      simpa [Arity.admitsMore, hmost] using hmore
                    simpa using Nat.succ_le_of_lt hless
              · intro id' hid'
                rcases List.mem_append.1 hid' with hid' | hid'
                · exact (hsofar.nodes id' hid').mono plants.grows
                · rwa [List.mem_singleton.1 hid']
              · have hrepeats := repeats_eq hall.descends info.attrs.singletons sofar
                  (fun item hitem => hall.bounds (List.mem_append_left _ hitem))
                  (hall.bounds (List.mem_append_right _ (List.mem_singleton_self id))).1
                rw [Bool.not_eq_true, hrepeats, hplanted.map_content plants] at hnew
                rw [List.map_append, hplanted.map_content plants]
                exact hsofar.different.concat hnew

theorem conveys_field {info : RuleInfo} {types : List String} {climb : Option Climb}
    {fields fields' : Fields} (hl : s.forest.Linked) (agrees : r.Agrees s.registry)
    (h : matchNode options (fuel + 1) info types climb fields s = (.ok (some fields'), s')) :
    ∃ more, fields' = fields ++ more ∧ Matches s'.forest (.node info types climb) fields more := by
  cases hname : info.attrs.name with
  | none => simp [matchNode, hname, pure_eq_ok] at h
  | some name =>
      cases harity : info.attrs.arity with
      | none =>
          simp only [matchNode, hname, harity, bind_eq_ok] at h
          obtain ⟨r₁, s₁, hoperand, h⟩ := h
          cases r₁ with
          | none => simp [pure_eq_ok] at h
          | some id =>
              obtain ⟨heq, rfl⟩ := pure_eq_ok.1 h
              cases heq
              exact ⟨_, rfl, .node hname harity (ih.operand hl agrees hoperand)⟩
      | some arity =>
          simp only [matchNode, hname, harity, bind_eq_ok] at h
          obtain ⟨ids, s₁, hitems, h⟩ := h
          split at h
          · simp [pure_eq_ok] at h
          next hleast =>
            obtain ⟨heq, rfl⟩ := pure_eq_ok.1 h
            cases heq
            have hnone : IsListOf s.forest info types climb arity [] :=
              ⟨by cases arity.most <;> simp, by simp, .nil⟩
            have hlist := ih.items hl (.refl s.forest) agrees hnone hitems
            refine ⟨_, rfl, .list hname harity ?_ hlist.nodes hlist.different⟩
            rw [Arity.admits, hlist.most, Bool.and_true]
            exact decide_eq_true (Nat.le_of_not_lt hleast)

theorem conveys_block {tag : String} {bracket : Bracket} {inner : Production}
    {fields fields' : Fields} (hl : s.forest.Linked) (agrees : r.Agrees s.registry)
    (h : matchBlock options (fuel + 1) tag bracket inner fields s = (.ok (some fields'), s')) :
    ∃ more, fields' = fields ++ more ∧ Adds s'.forest inner fields more := by
  simp only [matchBlock_succ, bind_eq_ok] at h
  obtain ⟨⟨⟩, s₁, hskip, t, s₂, hpeek, h⟩ := h
  cases t with
  | none => simp [pure_eq_ok] at h
  | some t =>
      dsimp only at h
      split at h
      · simp [pure_eq_ok] at h
      · simp only [bind_eq_ok] at h
        obtain ⟨cell, s₃, hnext, h⟩ := h
        have hforest₃ : s₃.forest = s.forest :=
          (forest_read hnext).trans ((forest_read hpeek).trans (forest_read hskip))
        have agrees₃ := agrees_of_run (preserves_read _) (agrees_of_run (preserves_read _)
          (agrees_of_run (preserves_read _) agrees hskip) hpeek) hnext
        cases hcell : cell.bind Cell.contents? with
        | none => simp [hcell, pure_eq_ok] at h
        | some contents =>
            simp only [hcell] at h
            obtain ⟨u, hcontents, hforest⟩ := forest_inside h
            simp only [matchContents, bind_eq_ok] at hcontents
            obtain ⟨start, s₄, hsave, r₁, s₅, hrule, hcontents⟩ := hcontents
            have hl₄ : s₄.forest.Linked := by
              rw [forest_read hsave]
              change s₃.forest.Linked
              rwa [hforest₃]
            have agrees₄ : r.Agrees s₄.registry :=
              agrees_of_run (s := inBlock s₃ contents) (preserves_read _) agrees₃ hsave
            cases r₁ with
            | none =>
                cases none_ne_found hcontents
            | some fields₁ =>
                simp only [bind_eq_ok] at hcontents
                obtain ⟨⟨⟩, s₆, hskip₆, b, s₇, hex, hcontents⟩ := hcontents
                cases b with
                | false =>
                    cases none_ne_found hcontents
                | true =>
                    obtain ⟨heq, rfl⟩ := pure_eq_ok.1 hcontents
                    cases heq
                    rw [hforest, forest_read hex, forest_read hskip₆]
                    exact ih.rule hl₄ agrees₄ hrule

theorem conveys_body {tag : String} {p : Production} {fields fields' : Fields}
    (hl : s.forest.Linked) (agrees : r.Agrees s.registry)
    (h : matchBody options fuel tag p fields s = (.ok (some fields'), s')) :
    ∃ more, fields' = fields ++ more ∧ Matches s'.forest p fields more := by
  cases p with
  | token info kinds values =>
      obtain ⟨t, hfits, rfl⟩ := adds_matchToken h
      exact ⟨_, rfl, .token hfits⟩
  | node info types climb => exact ih.field hl agrees h
  | sequence info parts =>
      obtain ⟨more, heq, hparts⟩ := ih.all hl agrees h
      exact ⟨more, heq, .sequence hparts⟩
  | alternatives info branches =>
      simp only [matchBody] at h
      split at h
      next hnamed =>
        obtain ⟨p, hp, kinds, values, t, htoken, hfits, rfl⟩ := adds_matchTokens h
        exact ⟨_, rfl, .tokens hnamed hp htoken hfits⟩
      next hnamed =>
        obtain ⟨more, heq, p, hp, hadds⟩ := ih.first hl agrees h
        exact ⟨more, heq, .branch (Option.not_isSome_iff_eq_none.1 hnamed) hp hadds⟩
  | block info bracket inner =>
      obtain ⟨more, heq, hinner⟩ := ih.block hl agrees h
      exact ⟨more, heq, .block hinner⟩

theorem conveys_rule {tag : String} {p : Production} {fields fields' : Fields}
    (hl : s.forest.Linked) (agrees : r.Agrees s.registry)
    (h : matchRule options (fuel + 1) tag p fields s = (.ok (some fields'), s')) :
    ∃ more, fields' = fields ++ more ∧ Adds s'.forest p fields more := by
  rw [matchRule_succ] at h
  split at h
  next happlies =>
    obtain ⟨heq, rfl⟩ := pure_eq_ok.1 h
    cases heq
    exact ⟨[], (List.append_nil _).symm, .skipped (by simpa [applies] using happlies)⟩
  next happlies =>
    simp only [bind_eq_ok, mark_eq_ok] at h
    obtain ⟨start, s₁, hsave, mark, s₂, ⟨rfl, rfl⟩, matched, s₃, hbody, h⟩ := h
    have hl₁ : s₁.forest.Linked := by
      rw [forest_read hsave]
      exact hl
    cases matched with
    | some fields₁ =>
        obtain ⟨heq, rfl⟩ := pure_eq_ok.1 h
        cases heq
        obtain ⟨more, heq, hmatches⟩ :=
          conveys_body ih hl₁ (agrees_of_run (preserves_read _) agrees hsave) hbody
        exact ⟨more, heq, .matched (by simpa [applies] using happlies) hmatches⟩
    | none =>
        dsimp only at h
        split at h
        · exact absurd h assertionFailure_ne_ok
        · simp only [bind_eq_ok, pure_eq_ok] at h
          obtain ⟨⟨⟩, s₄, -, heq, rfl⟩ := h
          split at heq
          next hoptional =>
            cases heq
            exact ⟨[], (List.append_nil _).symm, .omitted hoptional⟩
          next => cases heq

end succ

/-- Every answer of the parser has the types that were asked for and the fields
that the productions add. -/
theorem conveys (titled : r.Titled) (options : ParseOptions) (fuel : Nat) :
    Conveys options r fuel := by
  induction fuel with
  | zero => exact conveys_zero
  | succ fuel ih =>
      exact {
        node := conveys_node ih titled
        any := conveys_any ih
        type := conveys_type ih
        climbing := conveys_climbing ih
        extending := conveys_extending ih
        rule := conveys_rule ih
        all := conveys_all ih
        first := conveys_first ih
        block := conveys_block ih
        field := conveys_field ih
        operand := conveys_operand ih
        items := conveys_items ih }

end Parsing

end DualSql
