import DualSql.Proofs.Forest.Copies
import DualSql.Proofs.Grammar.Conforming
import DualSql.Proofs.Grammar.Sameness

/-! # Nodes whose fields have different names

The shapes of a type have different fields. If none of these has the name of the
member for the type, and climbing sets three different fields, then all that parsers
and readers make are nodes whose fields have different names. Two such nodes read the
same just if their structured forms are equal up to the order of members.

Main definitions: `Registry.Plain`, what is asked of a grammar, `Forest.Neat`, what
its nodes are like, and `Forest.Raised`, the forests that parsers and readers make.
Main results: `Forest.Raised.neat`, `Forest.Raised.isTree` and
`RaisedNode.same_iff_toJson_same`. -/

namespace DualSql

/-! ### Grammars -/

/-- Climbing sets three different fields, none with the name of the member for the type. -/
def Climb.Plain (climb : Climb) : Prop :=
  [nodeName, climb.left, climb.operator, climb.right].Nodup

instance (climb : Climb) : Decidable climb.Plain :=
  inferInstanceAs (Decidable (List.Nodup _))

/-- The ways in which a type combines operands, by itself or in its rule. -/
def NodeType.climbs (nodeType : NodeType) : List Climb :=
  nodeType.climb?.toList ++ nodeType.rule.climbs

/-- Fields that can stand beside the member for the type. -/
def Shape.Plain (shape : Shape) : Prop :=
  (nodeName :: shape.map FieldSchema.name).Nodup

/-- A production of a type all of whose shapes have fields that can stand beside the
member for the type. -/
def Production.Plain (p : Production) : Prop :=
  (∃ path, p.Placed path) ∧ ∀ shape ∈ Schema.shapesOf false none p, shape.Plain

namespace Registry

/-- A registry without a field of the name of the member for the type, in which
climbing sets three different fields. -/
structure Plain (r : Registry) : Prop where
  built : r.Built
  titled : r.Titled
  fields : ∀ tag nodeType, r.type? tag = some nodeType → nodeName ∉ nodeType.rule.fieldNames
  climbs : ∀ tag nodeType, r.type? tag = some nodeType → ∀ climb ∈ nodeType.climbs, climb.Plain

namespace Plain

variable {r : Registry} {tag : String} {d : Dialect}

theorem schema (h : r.Plain) (tag : String) (d : Dialect) : (r.schema tag d).2.Plain where
  built := h.built.schema tag d
  titled := (agrees_schema r tag d).titled h.titled
  fields tag' nodeType htype := by
    rw [(agrees_schema r tag d).type?] at htype
    exact h.fields tag' nodeType htype
  climbs tag' nodeType htype := by
    rw [(agrees_schema r tag d).type?] at htype
    exact h.climbs tag' nodeType htype

theorem shapes (h : r.Plain) {schema : Schema} (hschema : (r.schema tag d).1 = .ok schema) :
    ∀ shape ∈ schema.shapes, shape.Plain := by
  intro shape hshape
  obtain ⟨nodeType, htype, hnodup, hdeclared⟩ := h.built.fields_of_schema hschema hshape
  exact List.nodup_cons.2 ⟨fun hmem => h.fields tag nodeType htype (hdeclared hmem), hnodup⟩

theorem root (h : r.Plain) {schema : Schema} {root : Production}
    (hschema : (r.schema tag d).1 = .ok schema) (hroot : schema.root = some root) :
    root.Plain ∧ ∀ climb ∈ root.climbs, climb.Plain := by
  obtain ⟨nodeType, catalog, htype, hcompile⟩ := h.built.exists_compile hschema
  obtain ⟨⟨seen, hcut⟩, -⟩ := Schema.root_of_compile hcompile hroot
  refine ⟨⟨⟨tag, Schema.placed_of_cut _ hcut⟩, fun shape hshape => ?_⟩, fun climb hclimb => ?_⟩
  · exact h.shapes hschema shape ((Schema.mem_shapes_iff hcompile hroot shape).2 hshape)
  · exact h.climbs tag nodeType htype climb
      (List.mem_append_right _ (Schema.climbs_of_cut _ hcut hclimb))

end Plain

end Registry

/-- The standard grammar is plain. -/
theorem Standard.plain : registry.Plain := by
  have hall : (extend {}).types.all (fun entry =>
      entry.2.climb?.all (·.node == entry.1) && entry.2.climbs.all (decide ·.Plain)) = true := by
    decide +kernel
  refine ⟨built, ?_, nodeName_not_field, ?_⟩
  · intro tag operands climb rule htype
    have htag := (Bool.and_eq_true_iff.1 (check_of_type hall htype)).1
    exact (beq_iff_eq.1 htag).symm
  · intro tag nodeType htype climb hclimb
    have hclimbs := (Bool.and_eq_true_iff.1 (check_of_type hall htype)).2
    exact of_decide_eq_true (List.all_eq_true.1 hclimbs climb hclimb)

/-! ### Forests -/

namespace Forest

variable {f : Forest}

/-- Children are made before the nodes that hold them, and the fields of a node have
different names, none of them that of the member for the type. -/
structure Neat (f : Forest) : Prop where
  linked : f.Linked
  descends : f.Descends 0
  named : ∀ id : Nat, (nodeName :: (f.fields id).map Prod.fst).Nodup

theorem neat_empty (d : Dialect) : Neat { dialect := d } where
  linked := linked_empty d
  descends := descends_size _
  named id := by
    rw [fields_of_size_le (Nat.zero_le id)]
    exact List.nodup_singleton _

namespace Neat

theorem append (h : f.Neat) {fields : Fields} (hnames : (nodeName :: fields.map Prod.fst).Nodup)
    (hchildren : ∀ child ∈ fields.children, child < f.size) (tag : String) :
    (f.append tag fields).2.Neat where
  linked := h.linked.append
  descends := h.descends.append fun child hchild => ⟨Nat.zero_le child, hchildren child hchild⟩
  named id := by
    rw [fields_append]
    split
    · exact hnames
    · exact h.named id

theorem truncate (h : f.Neat) (mark : Nat) : (f.truncate mark).Neat where
  linked := h.linked.truncate mark
  descends := h.descends.truncate mark
  named id := by
    rw [fields_truncate]
    split
    · exact h.named id
    · exact List.nodup_singleton _

/-- The trees of such a forest have fields with different names all the way down. -/
theorem content (h : f.Neat) (id : Nat) : (f.content id).Named := by
  induction id using Nat.strongRecOn with
  | _ id ih =>
      rw [content_eq h.descends (Nat.zero_le id)]
      refine ⟨?_, Content.eachField_iff.2 fun part hpart => ?_⟩
      · have hnames := h.named id
        rwa [Parsing.named_contents (f.fields id) f.content] at hnames
      · obtain ⟨⟨name, value⟩, hvalue, rfl⟩ := List.mem_map.1 hpart
        have hchild (child : Nat) (hc : child ∈ value.children) : (f.content child).Named :=
          ih child (h.descends id (Nat.zero_le id) child (List.mem_flatMap.2 ⟨_, hvalue, hc⟩)).2
        cases value with
        | terminal t => trivial
        | node child => exact hchild child (List.mem_singleton_self child)
        | list ids =>
            refine Content.eachItem_iff.2 fun item hitem => ?_
            obtain ⟨child, hc, rfl⟩ := List.mem_map.1 hitem
            exact hchild child hc

end Neat

end Forest

/-! ### Parsers -/

namespace Parsing

open Forest Production

/-- Climbing and productions whose fields can stand beside the member for the type, and
operands that exist. -/
def plainGuard : Guard where
  climb := Climb.Plain
  root _ := Production.Plain
  operand f id := id < f.size

/-- A parser that makes nodes by a plain grammar keeps its forest neat. -/
theorem upheld_neat (options : ParseOptions) :
    Upheld plainGuard options fun r f => r.Plain ∧ f.Neat where
  schema r f tag d h := ⟨h.1.schema tag d, h.2⟩
  truncate r f mark h := ⟨h.1, h.2.truncate mark⟩
  type h htype := h.1.climbs _ _ htype _ (List.mem_append_left _ (List.mem_singleton_self _))
  root h hschema hroot := h.1.root hschema hroot
  node := by
    intro fuel tag root fields s t h hroot hrun ht
    obtain ⟨⟨path, hplaced⟩, hshapes⟩ := hroot
    obtain ⟨_, rfl, hadds⟩ := (conveys h.1.titled options fuel).rule h.2.linked (.refl _) hrun
    obtain ⟨⟨_, rfl, plants⟩, -⟩ := (plantsTrees options fuel).rule h.2.linked hrun
    obtain ⟨shape, hshape, hfilled⟩ := exists_filled hadds hplaced false none
    refine ⟨ht.1, ht.2.append ?_ (fun child hchild => (plants.bounds hchild).2) tag⟩
    exact (hfilled.names.cons_cons nodeName).nodup (hshapes shape hshape)
  operand := by
    intro fuel operands left s t h hrun
    exact ((conveys h.1.titled options fuel).any h.2.linked (.refl _) hrun).1
  whole := by
    intro fuel operands climb minimum left right s t h hclimb hleft hrun ht operator
    have hgrows : s.forest.size ≤ t.forest.size :=
      ((plantsTrees options fuel).climbing h.2.linked hrun).grows.size
    have hright : right < t.forest.size :=
      ((conveys h.1.titled options fuel).climbing h.2.linked (.refl _) hrun).1
    refine ⟨⟨ht.1, ht.2.append ?_ ?_ climb.node⟩, ?_⟩
    · exact hclimb
    · intro child hchild
      rcases List.mem_pair.1 hchild with rfl | rfl
      · exact Nat.lt_of_lt_of_le hleft hgrows
      · exact hright
    · change t.forest.size < _
      rw [size_append]
      exact Nat.lt_succ_self _

end Parsing

/-! ### Readers -/

namespace Structured

open Fallible Forest

/-- A reader that makes nodes by a plain grammar keeps its forest neat. -/
theorem upheld_neat (options : ReadOptions) :
    Upheld (fun _ => Shape.Plain) options fun s => s.registry.Plain ∧ s.forest.Neat where
  schema tag s h := ⟨h.1.schema tag _, h.2⟩
  drop s mark h := ⟨h.1, h.2.truncate mark⟩
  shapes h hschema := h.1.shapes hschema
  node := by
    intro depth tag members shape fields s t h hshape hrun ht
    let o : Outline := { registry := s.registry, options := { dialect := options.dialect } }
    obtain ⟨plants, hread⟩ := readFields_of_ok (o := o) rfl h.2.linked (.refl _) hrun
    obtain ⟨more, hmore, hnames, -⟩ := Outline.readFields_eq_some hread
    rw [Ends, build_total plants]
    refine ⟨ht.1, ht.2.append ?_ (fun child hc => (plants.bounds hc).2) tag⟩
    have hfields : fields.map Prod.fst = more.map Prod.fst := by
      rw [Parsing.named_contents fields t.forest.content, hmore]
      rfl
    rw [hfields, hnames]
    exact (List.filter_sublist.cons_cons nodeName).nodup hshape

end Structured

/-! ### What parsers and readers make -/

namespace Forest

variable {f : Forest}

/-- A forest that parsers and readers make by plain grammars. It begins empty; each
call goes on with the forest that the one before left, whether that call succeeded or
not, and reads from wherever it is told to. -/
inductive Raised : Forest → Prop
  | empty (d : Dialect) : Raised { dialect := d }
  | node {s : ParseState} (options : ParseOptions) (fuel : Nat) (tag : String)
      (plain : s.registry.Plain) (before : Raised s.forest) :
      Raised (Parsing.parseNode options fuel tag s).2.forest
  | any {s : ParseState} (options : ParseOptions) (fuel : Nat) (types : List String)
      (plain : s.registry.Plain) (before : Raised s.forest) :
      Raised (Parsing.parseAny options fuel types s).2.forest
  | type {s : ParseState} (options : ParseOptions) (fuel : Nat) (tag : String)
      (plain : s.registry.Plain) (before : Raised s.forest) :
      Raised (Parsing.parseType options fuel tag s).2.forest
  | climbing {s : ParseState} (options : ParseOptions) (fuel : Nat) (operands : List String)
      (climb : Climb) (minimum : Nat) (plain : s.registry.Plain) (plainClimb : climb.Plain)
      (before : Raised s.forest) :
      Raised (Parsing.parseClimbing options fuel operands climb minimum s).2.forest
  | whole {s : ParseState} (options : ParseOptions) (types : List String)
      (plain : s.registry.Plain) (before : Raised s.forest) :
      Raised (Parsing.parseWhole options types s).2.forest
  | readAny {s : ReadState} (options : ReadOptions) (types : List String) (tree : Json)
      (plain : s.registry.Plain) (before : Raised s.forest) :
      Raised (Structured.readAny options types tree s).2.forest
  | readType {s : ReadState} (options : ReadOptions) (tag : String) (tree : Json)
      (plain : s.registry.Plain) (before : Raised s.forest) :
      Raised (Structured.readType options tag tree s).2.forest

theorem Raised.neat (h : Raised f) : f.Neat := by
  have parses (options : ParseOptions) (fuel : Nat) :=
    Parsing.upholdsAll (Parsing.upheld_neat options) fuel
  induction h with
  | empty d => exact neat_empty d
  | node options fuel tag plain _ ih => exact ((parses options fuel).node tag _ ⟨plain, ih⟩).2
  | any options fuel types plain _ ih => exact ((parses options fuel).any types _ ⟨plain, ih⟩).2
  | type options fuel tag plain _ ih => exact ((parses options fuel).type tag _ ⟨plain, ih⟩).2
  | climbing options fuel operands climb minimum plain plainClimb _ ih =>
      exact ((parses options fuel).climbing operands plainClimb minimum _ ⟨plain, ih⟩).2
  | whole options types plain _ ih =>
      exact (Parsing.upholds_whole (Parsing.upheld_neat options) types _ ⟨plain, ih⟩).2
  | readAny options types tree plain _ ih =>
      exact ((Structured.upheld_neat options).readAnyTo _ types tree _ ⟨plain, ih⟩).2
  | readType options tag tree plain _ ih =>
      exact ((Structured.upheld_neat options).readType tag tree _ ⟨plain, ih⟩).2

/-- Every node that parsers and readers make is the root of a tree. -/
theorem Raised.isTree (h : Raised f) {id : Nat} (hid : id < f.size) : f.IsTree id := by
  have hneat := h.neat
  exact (hneat.descends.shallow (Nat.zero_le id) hid).isTree
    (fun _ _ => hneat.descends.child_lt) (fun p _ => (List.nodup_cons.1 (hneat.named p)).2) hid

end Forest

/-- A node of a forest that parsers and readers make. -/
structure RaisedNode where
  forest : Forest
  raised : forest.Raised
  id : NodeId
  inside : id < forest.size

namespace RaisedNode

open Forest

/-- Whether the trees below two nodes read the same. -/
def same (x y : RaisedNode) : Bool :=
  x.forest.same x.id y.forest y.id

/-- The structured form of the tree below a node. -/
def toJson (x : RaisedNode) : Json :=
  x.forest.toJson x.id

/-- Nodes of any two forests read the same just if their structured forms are equal up
to the order of members. So reading the same is an equivalence. -/
theorem same_iff_toJson_same :
    (∀ x y : RaisedNode, x.same y = true ↔ x.toJson.Same y.toJson) ∧
      Equivalence fun x y : RaisedNode => x.same y = true := by
  have hiff (x y : RaisedNode) : x.same y = true ↔ x.toJson.Same y.toJson := by
    have hx := x.raised.neat
    have hy := y.raised.neat
    have hsame : x.same y = (x.forest.content x.id).same (y.forest.content y.id) :=
      sameTo_eq hx.descends hy.descends (Nat.zero_le _) (Nat.zero_le _)
        (Nat.lt_succ_of_lt x.inside)
    rw [hsame, toJson, toJson, toJson_eq hx.descends (Nat.zero_le _) x.inside,
      toJson_eq hy.descends (Nat.zero_le _) y.inside]
    exact Content.same_iff _ (hx.content x.id) (hy.content y.id)
  have hforms : Equivalence fun x y : RaisedNode => x.toJson.Same y.toJson :=
    Json.same_equivalence.comap toJson
  exact ⟨hiff, by simpa only [hiff] using hforms⟩

/-- The parse of a column that gets a name, in one dialect. -/
def itemParsed : Except Error (Option NodeId) × ParseState :=
  Parsing.parseNode { dialect := .mysql } 200 "SelectItem"
    (Parsing.start (.ofChunks .mysql (.ofDialect .mysql) ["1 b"]) Standard.registry .mysql)

/-- The column as it is read from a structured tree, in another dialect. -/
def itemRead : Except Error (Option NodeId) × ReadState :=
  Structured.readAny { dialect := .postgres } ["SelectItem"] Structured.aliasedItem
    (Structured.start Standard.registry .postgres)

theorem same_item :
    ∃ x y : RaisedNode, x.forest = itemParsed.2.forest ∧ y.forest = itemRead.2.forest ∧
      x.forest.dialect = .mysql ∧ y.forest.dialect = .postgres ∧ y.same x = true ∧
      x.toJson.Same y.toJson := by
  have hfacts : (1 < itemParsed.2.forest.size ∧ 1 < itemRead.2.forest.size) ∧
      itemParsed.2.forest.dialect = .mysql ∧ itemRead.2.forest.dialect = .postgres ∧
      itemParsed.2.forest.same 1 itemRead.2.forest 1 = true := by
    rw [itemParsed, itemRead, Standard.registry_eq]
    decide +kernel
  obtain ⟨⟨hparsed, hread⟩, hmysql, hpostgres, hsame⟩ := hfacts
  let x : RaisedNode :=
    ⟨itemParsed.2.forest, .node _ _ _ Standard.plain (.empty .mysql), 1, hparsed⟩
  let y : RaisedNode :=
    ⟨itemRead.2.forest, .readAny _ _ _ Standard.plain (.empty .postgres), 1, hread⟩
  have hxy : x.same y = true := hsame
  exact ⟨x, y, rfl, rfl, hmysql, hpostgres, same_iff_toJson_same.2.symm hxy,
    (same_iff_toJson_same.1 x y).1 hxy⟩

end RaisedNode

end DualSql
