import DualSql.Grammar.Standard
import DualSql.Proofs.Grammar.Reader
import DualSql.Proofs.Grammar.StructuredReading
import DualSql.Proofs.Grammar.Transcription

/-! # Strict reading accepts the same trees

A strict reader stops at the first object that fits no shape of its type, however
deep in the tree. It stops at nothing that matters: an object that fits no shape
of its type fits none in whatever field it stands, so no shape of the object
around it takes its member, no list takes it as an item, and no reading of the
whole comes to a node.

Main definitions: `Outline.Hopeless`, a value that no field takes, and
`Structured.Tightens`, what a strict reading may differ in. Main results:
`Structured.curtails_readAnyTo` and `Structured.strict_tightens`. -/

namespace DualSql

open Fallible

/-! ### Values that no field takes -/

namespace Outline

variable {o : Outline} {depth : Nat}

/-- A value that no field takes, of whatever kind it is. -/
def Hopeless (o : Outline) (depth : Nat) (value : Json) : Prop :=
  ∀ kind, readValue o.options.dialect (o.readTree depth) kind value = none

/-- No tree of any type is read from a value that no field takes. -/
theorem Hopeless.readTree_eq {value : Json} (h : o.Hopeless depth value) (types : List String) :
    o.readTree depth types value = none :=
  h (.node types)

/-- There are fields that take any text. -/
theorem not_hopeless_string (text : String) : ¬o.Hopeless depth (.string text) := by
  intro h
  have hkind : ∃ kind, Structured.inferKind? o.options.dialect [.identifier] text false =
      some kind := by
    simp only [Structured.inferKind?, Bool.false_eq_true, if_false]
    split
    · exact ⟨_, rfl⟩
    · exact ⟨.identifier, rfl⟩
  obtain ⟨kind, hkind⟩ := hkind
  have hread := h (.terminal [.identifier] [])
  simp [readValue, Structured.readTerminal?, Structured.terminalParts?, hkind,
    Structured.isAccepted] at hread

/-- Items are not read where one of them is not. -/
theorem readItems_of_none {child : Json → Option Content} {policy : Singletons}
    {sofar : List Content} {items : List Json} {item : Json} (hitem : item ∈ items)
    (h : child item = none) : readItems child policy sofar items = none := by
  induction items generalizing sofar with
  | nil => cases hitem
  | cons head rest ih =>
      rw [readItems]
      rcases List.mem_cons.1 hitem with rfl | hitem
      · rw [h]
      · cases child head with
        | none => rfl
        | some x =>
            dsimp only
            rw [ih hitem, ite_self]

/-- A list is not taken if one of its items is not. -/
theorem hopeless_of_item {items : List Json} {item : Json} (hitem : item ∈ items)
    (h : o.Hopeless depth item) : o.Hopeless depth (.array items) := by
  intro kind
  cases kind with
  | terminal kinds values => rfl
  | node types =>
      cases depth with
      | zero => rfl
      | succ depth => simp [readValue, readTree, Json.members?]
  | list types arity singletons =>
      have hnone : readItems (o.readTree depth types) singletons [] items = none :=
        readItems_of_none hitem (h.readTree_eq types)
      rw [readValue, Json.items?]
      dsimp only
      split
      · rw [hnone]
        rfl
      · rfl

/-- Where a member is not taken, no shape fits. -/
theorem readShapes_of_hopeless {tag : String} {members : List (String × Json)} {key : String}
    {value : Json} (htag : Structured.typeName? (.object members) = some tag)
    (hvalue : members.lookup key = some value) (h : o.Hopeless depth value)
    (shapes : List Shape) :
    readShapes o.options.dialect (o.readTree depth) tag members shapes = none := by
  by_contra hsome
  obtain ⟨y, hy⟩ := Option.ne_none_iff_exists'.1 hsome
  obtain ⟨shape, -, parts, hparts, -⟩ := readShapes_eq_some hy
  rw [readShape] at hparts
  split at hparts
  next hcovered =>
    obtain ⟨more, -, hnames, hmore⟩ := readFields_eq_some hparts
    have hne : key ≠ nodeName := by
      rintro rfl
      obtain ⟨name, hname, hstring⟩ := Option.bind_eq_some_iff.1 htag
      obtain rfl : name = value := Option.some.inj (hname.symm.trans hvalue)
      cases name <;> cases hstring
      exact not_hopeless_string _ h
    have hkey : key ∈ more.map Prod.fst := by
      rw [hnames, List.mem_filter]
      refine ⟨mem_of_isCovered hcovered ?_ hne, by simp [hvalue]⟩
      exact List.mem_map_of_mem (mem_of_lookup hvalue)
    obtain ⟨f, hf, rfl⟩ := List.mem_map.1 hkey
    obtain ⟨field, -, -, value', hvalue', hread⟩ := hmore f hf
    obtain rfl : value' = value := Option.some.inj (hvalue'.symm.trans hvalue)
    rw [h field.kind] at hread
    cases hread
  next => cases hparts

/-- An object that fits no shape of its type is not taken by any field. -/
theorem hopeless_of_shapes {tag : String} {members : List (String × Json)} {schema : Schema}
    (htag : Structured.typeName? (.object members) = some tag)
    (hschema : (o.registry.schema tag o.options.dialect).1 = .ok schema)
    (hnone : readShapes o.options.dialect (o.readTree depth) tag members schema.shapes = none) :
    o.Hopeless (depth + 1) (.object members) := by
  intro kind
  cases kind with
  | terminal kinds values =>
      have hname : Structured.terminalParts? (.object members) = none := by
        by_contra hsome
        obtain ⟨⟨text, quoted, modifier⟩, hparts⟩ := Option.ne_none_iff_exists'.1 hsome
        obtain ⟨-, -, -, hkeys⟩ := Structured.terminalParts?_object hparts
        obtain ⟨name, hname, -⟩ := Option.bind_eq_some_iff.1 htag
        exact absurd (hkeys _ (mem_of_lookup hname)) (by simp [nodeName])
      simp [readValue, Structured.readTerminal?, hname]
  | node types =>
      rw [readValue, readTree, htag, Json.members?]
      dsimp only
      split
      · rfl
      · rw [hschema]
        exact hnone
  | list types arity singletons => rfl

end Outline

/-! ### The two readers side by side -/

namespace Structured

/-- The error of an object that fits no shape. -/
def Misfit (e : Error) : Prop :=
  ∃ f, e = .parse f

section

variable {P : ReadState → Prop} {lost : Json → Prop} {d : Dialect}
variable {child child' : List String → Json → Structured (Option NodeId)}

/-- The first way to read a value does what the second does, unless the value is lost. -/
def Follows (P : ReadState → Prop) (lost : Json → Prop)
    (child child' : List String → Json → Structured (Option NodeId)) : Prop :=
  ∀ types value s, P s →
    Curtails (fun e => Misfit e ∧ lost value) (child types value) (child' types value) s

theorem curtails_readItems (h : Follows P lost child child')
    (hkeeps : ∀ types item, Keeps P (child' types item)) (types : List String)
    (policy : Singletons) (ids : List NodeId) (items : List Json) {s : ReadState} (hs : P s) :
    Curtails (fun e => Misfit e ∧ ∃ item ∈ items, lost item)
      (readItems (child types) policy ids items) (readItems (child' types) policy ids items) s := by
  induction items generalizing s ids with
  | nil => exact curtails_refl _ s
  | cons item rest ih =>
      rw [readItems, readItems]
      refine ((h types item s hs).mono fun e he => ⟨he.1, item, by simp, he.2⟩).bind
        fun r t hrun => ?_
      cases r with
      | none => exact curtails_refl _ t
      | some id =>
          refine Curtails.get_bind ?_
          split
          · exact curtails_refl _ t
          · refine (ih _ ((hkeeps types item).of_run hs hrun)).mono fun e he => ⟨he.1, ?_⟩
            obtain ⟨item', hitem', hlost⟩ := he.2
            exact ⟨item', List.mem_cons_of_mem _ hitem', hlost⟩

theorem curtails_readValue (h : Follows P lost child child')
    (hkeeps : ∀ types item, Keeps P (child' types item))
    (hlost : ∀ items, ∀ item ∈ items, lost item → lost (.array items)) (kind : FieldKind)
    (value : Json) {s : ReadState} (hs : P s) :
    Curtails (fun e => Misfit e ∧ lost value) (readValue d child kind value)
      (readValue d child' kind value) s := by
  cases kind with
  | terminal kinds values => exact curtails_refl _ s
  | node types => exact (h types value s hs).bind fun r t _ => curtails_refl _ t
  | list types arity singletons =>
      rw [readValue, readValue]
      cases hvalue : value.items? with
      | none => exact curtails_refl _ s
      | some items =>
          obtain rfl : value = .array items := by
            cases value <;> cases hvalue
            rfl
          dsimp only
          split
          · refine ((curtails_readItems h hkeeps types singletons [] items hs).mono
              fun e he => ⟨he.1, ?_⟩).bind fun r t _ => curtails_refl _ t
            obtain ⟨item, hitem, hitemLost⟩ := he.2
            exact hlost items item hitem hitemLost
          · exact curtails_refl _ s

/-- An object with a member that is lost. -/
def LosesMember (lost : Json → Prop) (members : List (String × Json)) : Prop :=
  ∃ key value, members.lookup key = some value ∧ lost value

theorem curtails_readFields (h : Follows P lost child child')
    (hkeeps : ∀ types item, Keeps P (child' types item))
    (hlost : ∀ items, ∀ item ∈ items, lost item → lost (.array items))
    (members : List (String × Json)) (fields : Fields) (shape : Shape) {s : ReadState}
    (hs : P s) :
    Curtails (fun e => Misfit e ∧ LosesMember lost members)
      (readFields d child members fields shape) (readFields d child' members fields shape) s := by
  induction shape generalizing s fields with
  | nil => exact curtails_refl _ s
  | cons field rest ih =>
      rw [readFields, readFields]
      cases hvalue : members.lookup field.name with
      | none =>
          dsimp only
          split
          · exact ih _ hs
          · exact curtails_refl _ s
      | some value =>
          dsimp only
          split
          · exact curtails_refl _ s
          · refine ((curtails_readValue h hkeeps hlost field.kind value hs).mono
              fun e he => ⟨he.1, field.name, value, hvalue, he.2⟩).bind fun r t hrun => ?_
            cases r with
            | none => exact curtails_refl _ t
            | some v => exact ih _ ((keeps_readValue hkeeps field.kind value).of_run hs hrun)

theorem curtails_readShapes (hP : Lasting P) (h : Follows P lost child child')
    (hkeeps : ∀ types item, Keeps P (child' types item))
    (hlost : ∀ items, ∀ item ∈ items, lost item → lost (.array items)) (tag : String)
    (members : List (String × Json)) (shapes : List Shape) {s : ReadState} (hs : P s) :
    Curtails (fun e => Misfit e ∧ LosesMember lost members)
      (readShapes d child tag members shapes) (readShapes d child' tag members shapes) s := by
  induction shapes generalizing s with
  | nil => exact curtails_refl _ s
  | cons shape rest ih =>
      rw [readShapes_cons, readShapes_cons]
      refine Curtails.get_bind ?_
      by_cases hcovered : isCovered shape members = true
      · rw [if_pos hcovered, if_pos hcovered]
        refine (curtails_readFields h hkeeps hlost members [] shape hs).bind fun r t hrun => ?_
        cases r with
        | some fields => exact curtails_refl _ t
        | none =>
            have ht : P t := (keeps_readFields hkeeps members [] shape).of_run hs hrun
            exact curtails_step fun _ u hdrop => ih ((modify_eq_ok.1 hdrop) ▸ hP.drop t _ ht)
      · rw [if_neg hcovered, if_neg hcovered]
        refine curtails_step fun r t hrun => ?_
        obtain ⟨rfl, rfl⟩ := pure_eq_ok.1 hrun
        exact curtails_step fun _ u hdrop => ih ((modify_eq_ok.1 hdrop) ▸ hP.drop s _ hs)

end

/-- What reading relies on: the forest is in good order and the grammar is that of
the outline. -/
def Sound (o : Outline) (s : ReadState) : Prop :=
  s.forest.Linked ∧ o.registry.Agrees s.registry

theorem lasting_sound (o : Outline) : Lasting (Sound o) where
  schema tag d s h := ⟨h.1, h.2.trans (Registry.agrees_schema s.registry tag d)⟩
  build tag fields s h := by
    have hlinked := lasting_linked.build tag fields s h.1
    refine ⟨hlinked, ?_⟩
    rw [Structured.build]
    cases s.forest.build tag fields <;> exact h.2
  drop s mark h := ⟨h.1.truncate mark, h.2⟩

variable {o : Outline} {depth : Nat} {s : ReadState}

/-- The choices of a strict reader. -/
def strictly (d : Dialect) : ReadOptions :=
  { dialect := d, strict := true }

/-- The choices of a reader that is not strict. -/
def loosely (d : Dialect) : ReadOptions :=
  { dialect := d }

/-- A strict reader stops at an object only if no field takes the object. -/
theorem curtails_readObject {tag : String} {members : List (String × Json)}
    (htag : typeName? (.object members) = some tag)
    (h : Follows (Sound o) (o.Hopeless depth) (readAnyTo (strictly o.options.dialect) depth)
      (readAnyTo (loosely o.options.dialect) depth)) (hs : Sound o s) :
    Curtails (fun e => Misfit e ∧ o.Hopeless (depth + 1) (.object members))
      (readObject (strictly o.options.dialect) (readAnyTo (strictly o.options.dialect) depth)
        tag members)
      (readObject (loosely o.options.dialect) (readAnyTo (loosely o.options.dialect) depth)
        tag members) s := by
  have hkeeps := (lasting_sound o).readAnyTo (loosely o.options.dialect) depth
  refine curtails_step fun schema t hasked => ?_
  have ht : Sound o t := ((lasting_sound o).schema tag _).of_run hs hasked
  have hschema : (o.registry.schema tag o.options.dialect).1 = .ok schema :=
    (hs.2.schemas tag _).symm.trans (congrArg Prod.fst hasked)
  have hshapes := curtails_readShapes (d := o.options.dialect) (lasting_sound o) h hkeeps
    (fun items item hitem hlost => Outline.hopeless_of_item hitem hlost) tag members
    schema.shapes ht
  have hlost (e : Error) (he : Misfit e ∧ LosesMember (o.Hopeless depth) members) :
      Misfit e ∧ o.Hopeless (depth + 1) (.object members) := by
    obtain ⟨hmisfit, key, value, hvalue, hhopeless⟩ := he
    exact ⟨hmisfit, Outline.hopeless_of_shapes htag hschema
      (Outline.readShapes_of_hopeless htag hvalue hhopeless schema.shapes)⟩
  refine (hshapes.mono hlost).bind fun r u hrun => ?_
  cases r with
  | some id => exact curtails_refl _ u
  | none =>
      refine .inr ⟨_, u, rfl, ⟨_, rfl⟩, Outline.hopeless_of_shapes htag hschema ?_⟩
      have hreads : ReadsOrFails True o
          (readShapes o.options.dialect (readAnyTo (loosely o.options.dialect) depth) tag members
            schema.shapes)
          (Outline.readShapes o.options.dialect (o.readTree depth) tag members schema.shapes) :=
        readShapes_reads (fun shape _ field _ item =>
          readAnyTo_readsOrFails True (loosely o.options.dialect) rfl
            (fun hnever => absurd trivial hnever) depth (fun hnever => absurd trivial hnever) item)
          tag members
      obtain ⟨-, e, v, herror⟩ | ⟨r, v, hok, -, -, hcontent⟩ := hreads t ht.1 ht.2
      · cases hrun.symm.trans herror
      · cases hrun.symm.trans hok
        exact hcontent.symm

/-- A strict reader does what one that is not strict does, or stops where there is
nothing to be read. -/
theorem curtails_readAnyTo (o : Outline) (depth : Nat) :
    Follows (Sound o) (o.Hopeless depth) (readAnyTo (strictly o.options.dialect) depth)
      (readAnyTo (loosely o.options.dialect) depth) := by
  induction depth with
  | zero => exact fun types value s _ => curtails_refl _ s
  | succ depth ih =>
      intro types value s hs
      rw [readAnyTo, readAnyTo]
      cases hmembers : value.members? with
      | none => exact curtails_refl _ s
      | some members =>
          obtain rfl : value = .object members := by
            cases value <;> cases hmembers
            rfl
          cases htag : typeName? (.object members) with
          | none => exact curtails_refl _ s
          | some tag =>
              dsimp only
              split
              · exact curtails_refl _ s
              · refine Curtails.get_bind ?_
                split
                · exact curtails_refl _ s
                · exact curtails_readObject htag ih hs

/-- What a strict reading may differ in: it comes to a node exactly if the other one
does, to the same node in the same forest, and where the other one finds nothing it
finds nothing or rejects the input. -/
structure Tightens (strict loose : Except Error (Option NodeId) × ReadState) : Prop where
  some (id : NodeId) (s' : ReadState) :
    strict = (.ok (some id), s') ↔ loose = (.ok (some id), s')
  none (s' : ReadState) (h : loose = (.ok none, s')) :
    strict = (.ok none, s') ∨ ∃ f t, strict = (.error (.parse f), t)

theorem tightens_of_curtails {strict loose : Structured (Option NodeId)} {tree : Option Content}
    (h : Curtails (fun e => Misfit e ∧ tree = none) strict loose s)
    (hloose : ∀ r s', loose s = (.ok r, s') → r.map s'.forest.content = tree) :
    Tightens (strict s) (loose s) where
  some id s' := by
    constructor
    · exact fun hstrict => h.ok hstrict
    · intro hrun
      obtain heq | ⟨e, t, -, -, htree⟩ := h
      · exact heq.trans hrun
      · have hcontent := hloose _ _ hrun
        rw [htree] at hcontent
        cases hcontent
  none s' hrun := by
    obtain heq | ⟨e, t, herror, ⟨f, rfl⟩, -⟩ := h
    · exact .inl (heq.trans hrun)
    · exact .inr ⟨f, t, herror⟩

theorem tightens_of_eq {strict loose : Except Error (Option NodeId) × ReadState}
    (h : strict = loose) : Tightens strict loose := by
  subst h
  exact ⟨fun _ _ => Iff.rfl, fun _ h => .inl h⟩

theorem tightens_readAnyTo {d : Dialect} (linked : s.forest.Linked) (depth : Nat)
    (types : List String) (tree : Json) :
    Tightens (readAnyTo (strictly d) depth types tree s)
      (readAnyTo (loosely d) depth types tree s) := by
  let o : Outline := ⟨s.registry, { dialect := d }⟩
  have agrees : o.registry.Agrees s.registry := .refl _
  have hcurtails := curtails_readAnyTo o depth types tree s ⟨linked, agrees⟩
  have hlost (e : Error) (he : Misfit e ∧ o.Hopeless depth tree) :
      Misfit e ∧ o.readTree depth types tree = none :=
    ⟨he.1, he.2.readTree_eq types⟩
  apply tightens_of_curtails (hcurtails.mono hlost)
  intro r s' hrun
  exact (readAnyTo_of_ok rfl linked agrees hrun).2.2

/-- Reading a value as a node of a known type is reading it as a node of any type of
a list that has only this one. -/
theorem readType_eq (options : ReadOptions) {tag : String} {tree : Json}
    {members : List (String × Json)} {nodeType : NodeType}
    (hmembers : tree.members? = some members) (htag : typeName? tree = some tag)
    (htype : s.registry.type? tag = some nodeType) :
    readType options tag tree s = readAnyTo options (tree.depth + 1) [tag] tree s := by
  rw [readType, readAnyTo, hmembers, htag]
  dsimp only
  rw [if_pos rfl, if_neg (by simp), get_bind, htype, if_neg (by simp)]

/-- A strict reader accepts the same trees as one that is not strict. Whatever the
grammar, the dialect and the state of the reader are, it comes to a node exactly if
the other one does, to the same node in the same forest; where the other one finds
nothing, it finds nothing or rejects the input. -/
theorem strict_tightens (d : Dialect) (s : ReadState) (linked : s.forest.Linked) (tree : Json) :
    (∀ types, Tightens (readAny (strictly d) types tree s) (readAny (loosely d) types tree s)) ∧
      ∀ tag, Tightens (readType (strictly d) tag tree s) (readType (loosely d) tag tree s) := by
  constructor
  · intro types
    exact tightens_readAnyTo linked tree.depth types tree
  · intro tag
    cases hmembers : tree.members? with
    | none => exact tightens_of_eq (by rw [readType, readType, hmembers])
    | some members =>
        by_cases htag : typeName? tree = some tag
        · cases htype : s.registry.type? tag with
          | none =>
              have hasked : Structured.schema tag d s =
                  (.error (.grammar (.unknownType tag)), s) := by
                rw [Structured.schema, Registry.schema, htype]
              apply tightens_of_eq
              rw [readType, readType, hmembers]
              dsimp only
              rw [if_pos htag, if_pos htag, readObject, readObject]
              exact (bind_of_error hasked).trans (bind_of_error hasked).symm
          | some nodeType =>
              rw [readType_eq _ hmembers htag htype, readType_eq _ hmembers htag htype]
              exact tightens_readAnyTo linked (tree.depth + 1) [tag] tree
        · apply tightens_of_eq
          rw [readType, readType, hmembers]
          dsimp only
          rw [if_neg htag, if_neg htag]

/-- A number is read by a strict reader too. An object with a member that numbers
do not have is rejected where the other reader finds nothing. -/
theorem strict_tightens_literal :
    let s := start (Standard.extend {}) .postgres
    let number : Json := .object [(nodeName, .string "NumberLiteral"), ("value", .string "1")]
    let misfit : Json := .object [(nodeName, .string "NumberLiteral"), ("size", .string "1")]
    s.forest.Linked ∧
      (∃ id t, readAny (strictly .postgres) ["NumberLiteral"] number s = (.ok (some id), t)) ∧
      ∃ f t, readAny (strictly .postgres) ["NumberLiteral"] misfit s = (.error (.parse f), t) := by
  intro s number misfit
  have linked : s.forest.Linked := linked_start _ _
  -- The kernel works out the schema once for all of these.
  obtain ⟨hread, hmissed, hstopped⟩ :
      (readAny (loosely .postgres) ["NumberLiteral"] number s).1.toOption = some (some 0) ∧
      (readAny (loosely .postgres) ["NumberLiteral"] misfit s).1.toOption = some none ∧
      (readAny (strictly .postgres) ["NumberLiteral"] misfit s).1.isOk = false := by
    decide +kernel
  refine ⟨linked, ?_, ?_⟩
  · have htightens := (strict_tightens .postgres s linked number).1 ["NumberLiteral"]
    rcases hrun : readAny (loosely .postgres) ["NumberLiteral"] number s with ⟨e | r, t⟩
    · rw [hrun] at hread
      cases hread
    · rw [hrun] at hread
      cases hread
      exact ⟨0, t, (htightens.some 0 t).2 hrun⟩
  · have htightens := (strict_tightens .postgres s linked misfit).1 ["NumberLiteral"]
    rcases hrun : readAny (loosely .postgres) ["NumberLiteral"] misfit s with ⟨e | r, t⟩
    · rw [hrun] at hmissed
      cases hmissed
    · rw [hrun] at hmissed
      cases hmissed
      obtain hnone | herror := htightens.none t hrun
      · rw [hnone] at hstopped
        cases hstopped
      · exact herror

end Structured

end DualSql
