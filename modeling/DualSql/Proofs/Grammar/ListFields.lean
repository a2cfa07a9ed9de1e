import DualSql.Proofs.Grammar.ListEnds
import DualSql.Proofs.Grammar.NamedNodes
import DualSql.Proofs.Grammar.StructuredGrowth

/-! # Lists in fields

A field that is declared to hold a list says how many items there may be and which of
them count as repeated. Parsers and readers build lists in different ways, the one item
by item until something does not fit, the other from a list that fits or does not. Both
keep to what the field says.

An item is compared with the items before it, and comparing nodes looks fields up by
their names. Where a node has two fields of one name it therefore matters which of two
items comes first. Only climbing makes such nodes, if it is told to.

Main definitions: `Content.MadeBy`, how the fields of a node come about, and
`Forest.Produced`, the forests that parsers and readers make. Main results:
`Forest.Produced.declared` and `Parsing.lists_respected`. -/

namespace DualSql

/-- Climbing sets three different fields. -/
def Climb.Separate (climb : Climb) : Prop :=
  [climb.left, climb.operator, climb.right].Nodup

instance (climb : Climb) : Decidable climb.Separate :=
  inferInstanceAs (Decidable (List.Nodup _))

/-- A field may hold a list of some items. -/
def FieldKind.HoldsList (kind : FieldKind) (items : List Content) : Prop :=
  ∃ types arity singletons, kind = .list types arity singletons ∧
    arity.admits items.length = true ∧ singletons.Different items

/-- The fields of a node are those of climbing in one of the ways that are allowed, or
fields of a shape of its type. Lists are held by fields of shapes that admit them. -/
inductive Content.MadeBy (r : Registry) (d : Dialect) (allowed : Climb → Prop) (tag : String)
    (fields : List (String × Content)) : Prop
  | climbing {climb : Climb} (allows : allowed climb)
      (names : fields.map Prod.fst = [climb.left, climb.operator, climb.right])
      (plain : ∀ f ∈ fields, ∀ items, f.2 ≠ .list items)
  | declared {schema : Schema} {shape : Shape} (compiled : (r.schema tag d).1 = .ok schema)
      (isShape : shape ∈ schema.shapes)
      (names : (fields.map Prod.fst).Sublist (shape.map FieldSchema.name))
      (lists : ∀ f ∈ fields, ∀ items, f.2 = .list items →
        ∃ field ∈ shape, field.name = f.1 ∧ field.kind.HoldsList items)

variable {r : Registry} {d : Dialect} {allowed : Climb → Prop}

theorem Content.MadeBy.nodup {tag : String} {fields : List (String × Content)} (built : r.Built)
    (hallowed : ∀ climb, allowed climb → climb.Separate)
    (h : Content.MadeBy r d allowed tag fields) : (fields.map Prod.fst).Nodup := by
  cases h with
  | climbing allows names => exact names ▸ hallowed _ allows
  | declared compiled isShape names =>
      obtain ⟨-, -, hnodup, -⟩ := built.fields_of_schema compiled isShape
      exact names.nodup hnodup

/-! ### Forests -/

namespace Forest

variable {f : Forest}

/-- Children are made before the nodes that hold them, and the fields of each node come
about as they should. -/
structure Declared (r : Registry) (d : Dialect) (allowed : Climb → Prop) (f : Forest) : Prop where
  linked : f.Linked
  descends : f.Descends 0
  made : ∀ id < f.size, (f.content id).Each (Content.MadeBy r d allowed)

theorem declared_empty (d' : Dialect) : Declared r d allowed { dialect := d' } where
  linked := linked_empty d'
  descends := descends_size _
  made _ hid := absurd hid (Nat.not_lt_zero _)

namespace Declared

theorem append (h : f.Declared r d allowed) {tag : String} {fields : Fields}
    (hchildren : ∀ child ∈ fields.children, child < f.size)
    (hmade : Content.MadeBy r d allowed tag (fields.contents f.content)) :
    (f.append tag fields).2.Declared r d allowed := by
  have hfresh : f.Fresh 0 fields := fun child hchild => ⟨Nat.zero_le _, hchildren child hchild⟩
  refine ⟨h.linked.append, h.descends.append hfresh, fun id hid => ?_⟩
  rw [size_append] at hid
  rcases Nat.lt_succ_iff_lt_or_eq.1 hid with hid | rfl
  · rw [(grows_append (Nat.zero_le _) hfresh).content h.descends (Nat.zero_le id) hid]
    exact h.made id hid
  · rw [content_append h.descends (Nat.zero_le _) hfresh]
    exact ⟨hmade, Content.eachField_contents fun child hchild =>
      h.made child (hchildren child hchild)⟩

theorem truncate (h : f.Declared r d allowed) (mark : Nat) :
    (f.truncate mark).Declared r d allowed := by
  have hdescends := h.descends.truncate mark
  have grows := grows_truncate f mark
  refine ⟨h.linked.truncate mark, hdescends, fun id hid => ?_⟩
  rw [← grows.content hdescends (Nat.zero_le id) hid]
  exact h.made id (Nat.lt_of_lt_of_le hid grows.size)

end Declared

end Forest

/-! ### Parsers -/

/-- All climbing of a grammar is allowed. -/
def Registry.Allows (r : Registry) (allowed : Climb → Prop) : Prop :=
  ∀ tag nodeType, r.type? tag = some nodeType → ∀ climb ∈ nodeType.climbs, allowed climb

theorem Registry.allows_of_types
    (h : ∀ entry ∈ r.types, ∀ climb ∈ entry.2.climbs, allowed climb) : r.Allows allowed :=
  fun _ _ htype => h _ (mem_of_lookup htype)

namespace Production

/-- All shapes of the production are shapes of a type. -/
def IsRootOf (r : Registry) (d : Dialect) (tag : String) (root : Production) : Prop :=
  (∃ path, root.Placed path) ∧ ∃ schema, (r.schema tag d).1 = .ok schema ∧
    ∀ shape ∈ Schema.shapesOf false none root, shape ∈ schema.shapes

end Production

namespace Parsing

open Forest Production

/-- Climbing in the ways that are allowed, productions of types, and operands that exist. -/
def declaredGuard (r : Registry) (d : Dialect) (allowed : Climb → Prop) : Guard where
  climb := allowed
  root := IsRootOf r d
  operand f id := id < f.size

theorem isRootOf_schema (built : r.Built) (hallows : r.Allows allowed) {tag : String}
    {schema : Schema} {root : Production} (hschema : (r.schema tag d).1 = .ok schema)
    (hroot : schema.root = some root) :
    root.IsRootOf r d tag ∧ ∀ climb ∈ root.climbs, allowed climb := by
  obtain ⟨nodeType, catalog, htype, hcompile⟩ := built.exists_compile hschema
  obtain ⟨⟨seen, hcut⟩, -⟩ := Schema.root_of_compile hcompile hroot
  refine ⟨⟨⟨tag, Schema.placed_of_cut _ hcut⟩, schema, hschema, fun shape hshape => ?_⟩,
    fun climb hclimb => ?_⟩
  · exact (Schema.mem_shapes_iff hcompile hroot shape).2 hshape
  · exact hallows tag nodeType htype climb
      (List.mem_append_right _ (Schema.climbs_of_cut _ hcut hclimb))

/-- Fields that fill a shape are made by it. -/
theorem madeBy_of_filled {f : Forest} {tag : String} {schema : Schema} {shape : Shape}
    {fields : Fields} (hschema : (r.schema tag d).1 = .ok schema) (hshape : shape ∈ schema.shapes)
    (hnodup : (shape.map FieldSchema.name).Nodup) (hfilled : shape.FilledBy f fields) :
    Content.MadeBy r d allowed tag (fields.contents f.content) := by
  have hnames : (fields.contents f.content).map Prod.fst = fields.map Prod.fst :=
    (named_contents fields f.content).symm
  refine .declared hschema hshape (hnames ▸ hfilled.names) fun part hpart items hitems => ?_
  obtain ⟨⟨name, value⟩, hvalue, rfl⟩ := List.mem_map.1 hpart
  obtain ⟨field, hfield, rfl⟩ :=
    List.mem_map.1 (hfilled.names.subset (List.mem_map_of_mem (f := Prod.fst) hvalue))
  obtain ⟨hholds, hdifferent⟩ := hfilled.value hnodup field hfield value hvalue
  refine ⟨field, hfield, rfl, ?_⟩
  cases value with
  | terminal t => cases hitems
  | node id => cases hitems
  | list ids =>
      cases hitems
      generalize field.kind = kind at hholds hdifferent
      cases kind with
      | terminal kinds values => exact hholds.elim
      | node types => exact hholds.elim
      | list types arity singletons =>
          exact ⟨types, arity, singletons, rfl, by simpa using hholds.1, hdifferent⟩

/-- A parser makes nodes with the fields that are declared. -/
theorem upheld_declared (built : r.Built) (titled : r.Titled) (hallows : r.Allows allowed)
    {options : ParseOptions} (hd : options.dialect = d) :
    Upheld (declaredGuard r d allowed) options fun r' f =>
      r.Agrees r' ∧ f.Declared r d allowed where
  schema r' f tag d' h := ⟨h.1.trans (Registry.agrees_schema r' tag d'), h.2⟩
  truncate r' f mark h := ⟨h.1, h.2.truncate mark⟩
  type h htype := by
    rw [h.1.type?] at htype
    exact hallows _ _ htype _ (List.mem_append_left _ (List.mem_singleton_self _))
  root h hschema hroot := by
    rw [h.1.schemas, hd] at hschema
    exact isRootOf_schema built hallows hschema hroot
  node := by
    intro fuel tag root fields s t h hroot hrun ht
    obtain ⟨⟨path, hplaced⟩, schema, hschema, hshapes⟩ := hroot
    -- What the rule adds tells the shape that is filled, what it plants tells that the
    -- children are there.
    obtain ⟨_, rfl, hadds⟩ := (conveys titled options fuel).rule h.2.linked h.1 hrun
    obtain ⟨⟨_, rfl, plants⟩, -⟩ := (plantsTrees options fuel).rule h.2.linked hrun
    obtain ⟨shape, hshape, hfilled⟩ := exists_filled hadds hplaced false none
    obtain ⟨-, -, hnodup, -⟩ := built.fields_of_schema hschema (hshapes shape hshape)
    exact ⟨ht.1, ht.2.append (fun child hchild => (plants.bounds hchild).2)
      (madeBy_of_filled hschema (hshapes shape hshape) hnodup hfilled)⟩
  operand := by
    intro fuel operands left s t h hrun
    exact ((conveys titled options fuel).any h.2.linked h.1 hrun).1
  whole := by
    intro fuel operands climb minimum left right s t h hclimb hleft hrun ht operator
    have hgrows : s.forest.size ≤ t.forest.size :=
      ((plantsTrees options fuel).climbing h.2.linked hrun).grows.size
    have hright : right < t.forest.size :=
      ((conveys titled options fuel).climbing h.2.linked h.1 hrun).1
    refine ⟨⟨ht.1, ht.2.append ?_ (.climbing hclimb rfl ?_)⟩, ?_⟩
    · intro child hchild
      rcases List.mem_pair.1 hchild with rfl | rfl
      · exact Nat.lt_of_lt_of_le hleft hgrows
      · exact hright
    · -- Climbing makes no lists.
      intro part hpart items
      simp only [Fields.contents, List.map_cons, List.map_nil, List.mem_cons, List.not_mem_nil,
        or_false] at hpart
      rcases hpart with rfl | rfl | rfl <;> nofun
    · change t.forest.size < _
      rw [size_append]
      exact Nat.lt_succ_self _

end Parsing

/-! ### Readers -/

namespace Outline

theorem readShapes_ne_list {child : List String → Json → Option Content} {tag : String}
    {members : List (String × Json)} {shapes : List Shape} {items : List Content} :
    readShapes d child tag members shapes ≠ some (.list items) := by
  induction shapes with
  | nil => rintro ⟨⟩
  | cons shape rest ih =>
      rw [readShapes]
      split
      · rintro ⟨⟩
      · exact ih

/-- Trees are read as nodes. -/
theorem readTree_ne_list (o : Outline) (depth : Nat) (types : List String) (tree : Json)
    (items : List Content) : o.readTree depth types tree ≠ some (.list items) := by
  cases depth with
  | zero => rintro ⟨⟩
  | succ depth =>
      rw [readTree]
      split
      · split
        · rintro ⟨⟩
        · split
          · rintro ⟨⟩
          · exact readShapes_ne_list
      · rintro ⟨⟩

theorem different_of_readItems {child : Json → Option Content} {policy : Singletons}
    {sofar xs : List Content} {items : List Json} (hsofar : policy.Different sofar)
    (h : readItems child policy sofar items = some xs) : policy.Different xs := by
  induction items generalizing sofar with
  | nil =>
      cases h
      exact hsofar
  | cons item rest ih =>
      rw [readItems] at h
      split at h
      · cases h
      · split at h
        · cases h
        next hnew => exact ih (hsofar.concat (by simpa using hnew)) h

/-- A list that is read is one that the field may hold. -/
theorem holdsList_of_readValue {child : List String → Json → Option Content} {kind : FieldKind}
    {value : Json} {items : List Content}
    (hchild : ∀ types tree items, child types tree ≠ some (.list items))
    (h : readValue d child kind value = some (.list items)) : kind.HoldsList items := by
  cases kind with
  | terminal kinds values => simp [readValue] at h
  | node types => exact absurd h (hchild types value items)
  | list types arity singletons =>
      rw [readValue] at h
      split at h
      · cases h
      next trees _ =>
        split at h
        next hadmits =>
          obtain ⟨xs, hxs, heq⟩ := Option.map_eq_some_iff.1 h
          cases heq
          obtain ⟨more, rfl, hmore⟩ := readItems_eq_some hxs
          refine ⟨types, arity, singletons, rfl, ?_, different_of_readItems .nil hxs⟩
          rwa [← hmore.length_eq]
        · cases h

end Outline

namespace Structured

open Fallible Forest

/-- A reader makes nodes with the fields that are declared. -/
theorem upheld_declared (options : ReadOptions) (hd : options.dialect = d) :
    Upheld (fun tag shape => ∃ schema, (r.schema tag d).1 = .ok schema ∧ shape ∈ schema.shapes)
      options fun s => r.Agrees s.registry ∧ s.forest.Declared r d allowed where
  schema tag s h := ⟨h.1.trans (Registry.agrees_schema s.registry tag _), h.2⟩
  drop s mark h := ⟨h.1, h.2.truncate mark⟩
  shapes h hschema shape hshape := by
    rw [h.1.schemas, hd] at hschema
    exact ⟨_, hschema, hshape⟩
  node := by
    intro depth tag members shape fields s t h hshape hrun ht
    obtain ⟨schema, hschema, hshape⟩ := hshape
    obtain ⟨plants, hread⟩ := readFields_of_ok (o := { registry := r, options := { dialect := d } })
      hd h.2.linked h.1 hrun
    obtain ⟨more, hmore, hnames, hvalues⟩ := Outline.readFields_eq_some hread
    rw [List.nil_append] at hmore
    rw [Ends, build_total plants]
    refine ⟨ht.1, ht.2.append (fun child hc => (plants.bounds hc).2)
      (.declared hschema hshape ?_ fun part hpart items hitems => ?_)⟩
    · rw [hmore, hnames]
      exact List.filter_sublist
    · obtain ⟨field, hfield, hname, value, -, hvalue⟩ := hvalues part (hmore ▸ hpart)
      rw [hitems] at hvalue
      exact ⟨field, hfield, hname,
        Outline.holdsList_of_readValue (Outline.readTree_ne_list _ depth) hvalue⟩

end Structured

/-! ### What parsers and readers make -/

namespace Forest

variable {f : Forest} {id : NodeId}

/-- A forest that parsers and readers make by a grammar in a dialect, where each call goes on
with what the one before has left. Calls may climb in the ways that are allowed. -/
inductive Produced (r : Registry) (d : Dialect) (allowed : Climb → Prop) : Forest → Prop
  | empty (d' : Dialect) : Produced r d allowed { dialect := d' }
  | node {s : ParseState} {options : ParseOptions} (fuel : Nat) (tag : String)
      (dialect : options.dialect = d) (agrees : r.Agrees s.registry)
      (before : Produced r d allowed s.forest) :
      Produced r d allowed (Parsing.parseNode options fuel tag s).2.forest
  | any {s : ParseState} {options : ParseOptions} (fuel : Nat) (types : List String)
      (dialect : options.dialect = d) (agrees : r.Agrees s.registry)
      (before : Produced r d allowed s.forest) :
      Produced r d allowed (Parsing.parseAny options fuel types s).2.forest
  | type {s : ParseState} {options : ParseOptions} (fuel : Nat) (tag : String)
      (dialect : options.dialect = d) (agrees : r.Agrees s.registry)
      (before : Produced r d allowed s.forest) :
      Produced r d allowed (Parsing.parseType options fuel tag s).2.forest
  | climbing {s : ParseState} {options : ParseOptions} (fuel : Nat) (operands : List String)
      {climb : Climb} (minimum : Nat) (dialect : options.dialect = d)
      (agrees : r.Agrees s.registry) (allows : allowed climb)
      (before : Produced r d allowed s.forest) :
      Produced r d allowed (Parsing.parseClimbing options fuel operands climb minimum s).2.forest
  | whole {s : ParseState} {options : ParseOptions} (types : List String)
      (dialect : options.dialect = d) (agrees : r.Agrees s.registry)
      (before : Produced r d allowed s.forest) :
      Produced r d allowed (Parsing.parseWhole options types s).2.forest
  | readAny {s : ReadState} {options : ReadOptions} (types : List String) (tree : Json)
      (dialect : options.dialect = d) (agrees : r.Agrees s.registry)
      (before : Produced r d allowed s.forest) :
      Produced r d allowed (Structured.readAny options types tree s).2.forest
  | readType {s : ReadState} {options : ReadOptions} (tag : String) (tree : Json)
      (dialect : options.dialect = d) (agrees : r.Agrees s.registry)
      (before : Produced r d allowed s.forest) :
      Produced r d allowed (Structured.readType options tag tree s).2.forest

theorem Produced.declared (built : r.Built) (titled : r.Titled) (hallows : r.Allows allowed)
    (h : Produced r d allowed f) : f.Declared r d allowed := by
  have parses {options : ParseOptions} (hd : options.dialect = d) (fuel : Nat) :=
    Parsing.upholdsAll (Parsing.upheld_declared built titled hallows hd) fuel
  induction h with
  | empty d' => exact declared_empty d'
  | node fuel tag hd agrees _ ih => exact ((parses hd fuel).node tag _ ⟨agrees, ih⟩).2
  | any fuel types hd agrees _ ih => exact ((parses hd fuel).any types _ ⟨agrees, ih⟩).2
  | type fuel tag hd agrees _ ih => exact ((parses hd fuel).type tag _ ⟨agrees, ih⟩).2
  | climbing fuel operands minimum hd agrees allows _ ih =>
      exact ((parses hd fuel).climbing operands allows minimum _ ⟨agrees, ih⟩).2
  | whole types hd agrees _ ih =>
      exact (Parsing.upholds_whole (Parsing.upheld_declared built titled hallows hd) types _
        ⟨agrees, ih⟩).2
  | readAny types tree hd agrees _ ih =>
      exact ((Structured.upheld_declared _ hd).readAnyTo _ types tree _ ⟨agrees, ih⟩).2
  | readType tag tree hd agrees _ ih =>
      exact ((Structured.upheld_declared _ hd).readType tag tree _ ⟨agrees, ih⟩).2

namespace Declared

/-- A node that holds a list was made by a shape of its type, which admits all its lists. -/
theorem exists_shape (h : f.Declared r d allowed) {name : String} {ids : List NodeId}
    (hlist : (name, .list ids) ∈ f.fields id) :
    ∃ schema, (r.schema (f.tag id) d).1 = .ok schema ∧ ∃ shape ∈ schema.shapes,
      ((f.fields id).map Prod.fst).Sublist (shape.map FieldSchema.name) ∧
      ∀ name ids, (name, .list ids) ∈ f.fields id →
        ∃ field ∈ shape, field.name = name ∧ field.kind.HoldsList (ids.map f.content) := by
  have hid : id < f.size := by
    by_contra hge
    rw [fields_of_size_le (Nat.le_of_not_lt hge)] at hlist
    cases hlist
  have hmade := h.made id hid
  rw [content_eq h.descends (Nat.zero_le id)] at hmade
  have hcontents {name : String} {ids : List NodeId} (hlist : (name, .list ids) ∈ f.fields id) :
      (name, Content.list (ids.map f.content)) ∈ (f.fields id).contents f.content :=
    List.mem_map_of_mem hlist
  cases hmade.1 with
  | climbing _ _ plain => exact absurd rfl (plain _ (hcontents hlist) _)
  | @declared schema shape compiled isShape names lists =>
      rw [← Parsing.named_contents (f.fields id) f.content] at names
      exact ⟨schema, compiled, shape, isShape, names,
        fun name ids hlist => lists _ (hcontents hlist) _ rfl⟩

/-- Comparing nodes does not depend on which comes first. -/
theorem same_comm (h : f.Declared r d allowed) (built : r.Built)
    (hallowed : ∀ climb, allowed climb → climb.Separate) {a b : Nat} (ha : a < f.size)
    (hb : b < f.size) : f.same a f b = f.same b f a := by
  have hdistinct {id : Nat} (hid : id < f.size) : (f.content id).Distinct :=
    (h.made id hid).mono fun _ _ hmade => hmade.nodup built hallowed
  have hsame {a b : Nat} (ha : a < f.size) :
      f.same a f b = (f.content a).same (f.content b) :=
    sameTo_eq h.descends h.descends (Nat.zero_le a) (Nat.zero_le b) (Nat.lt_succ_of_lt ha)
  rw [hsame ha, hsame hb, Bool.eq_iff_iff]
  exact ⟨Content.symm_of_same _ (hdistinct ha) (hdistinct hb),
    Content.symm_of_same _ (hdistinct hb) (hdistinct ha)⟩

end Declared

/-- No item of a list repeats one before it. -/
def Repeatless (f : Forest) : Singletons → List NodeId → Prop
  | .unrestricted, _ => True
  | .byType, ids => ids.Pairwise fun a b => f.tag a ≠ f.tag b
  | .byValue, ids => ids.Pairwise fun a b => f.same a f b = false

theorem Declared.repeatless (h : f.Declared r d allowed) {policy : Singletons}
    {ids : List NodeId} (hids : ∀ id ∈ ids, id < f.size)
    (hdifferent : policy.Different (ids.map f.content)) : f.Repeatless policy ids := by
  have hpairs := List.pairwise_map.1 hdifferent
  cases policy with
  | unrestricted => trivial
  | byType =>
      refine hpairs.imp fun {a b} hab => ?_
      simpa [Content.repeats, tag_content] using hab
  | byValue =>
      refine hpairs.imp_of_mem fun {a b} ha _ hab => ?_
      rw [same, sameTo_eq h.descends h.descends (Nat.zero_le a) (Nat.zero_le b)
        (Nat.lt_succ_of_lt (hids a ha))]
      simpa [Content.repeats] using hab

/-- No item repeats one behind it either, if comparing two of them does not depend on
which comes first. -/
theorem Repeatless.reverse {policy : Singletons} {ids : List NodeId}
    (hcomm : ∀ a ∈ ids, ∀ b ∈ ids, f.same a f b = f.same b f a) (h : f.Repeatless policy ids) :
    f.Repeatless policy ids.reverse := by
  cases policy with
  | unrestricted => trivial
  | byType => exact List.pairwise_reverse.2 (List.Pairwise.imp Ne.symm h)
  | byValue =>
      exact List.pairwise_reverse.2
        (List.Pairwise.imp_of_mem (fun ha hb hab => hcomm _ hb _ ha ▸ hab) h)

end Forest

namespace Parsing

open Forest

/-- Every list that a parser or a reader has put into a field has as many items as the field
may have, and none that repeats one before it. Where all climbing sets three different fields,
none repeats one behind it either. And the parser stands behind the last item when a list
ends. -/
theorem lists_respected (requests : List Registry.Request) :
    (∀ d allowed f, (Registry.after requests).Allows allowed →
      Produced (.after requests) d allowed f →
      ∀ id, (∃ name ids, (name, .list ids) ∈ f.fields id) →
        ∃ schema, ((Registry.after requests).schema (f.tag id) d).1 = .ok schema ∧
          ∃ shape ∈ schema.shapes,
            ((f.fields id).map Prod.fst).Sublist (shape.map FieldSchema.name) ∧
            ∀ name ids, (name, .list ids) ∈ f.fields id →
              ∃ field ∈ shape, field.name = name ∧ ∃ types arity singletons,
                field.kind = .list types arity singletons ∧ arity.admits ids.length = true ∧
                f.Repeatless singletons ids ∧
                ((∀ climb, allowed climb → climb.Separate) →
                  f.Repeatless singletons ids.reverse)) ∧
    ∀ options fuel info types climb arity items ids (s s' : ParseState), s.source.Ready →
      s.forest.Linked → matchItems options fuel info types climb arity items s = (.ok ids, s') →
      ∃ t, Relation.ReflTransGen (OneMore options info types climb arity) (items, s) (ids, t) ∧
        ListEnd options info types climb arity ids t s' := by
  have built := Registry.built_after requests
  constructor
  · intro d allowed f hallows hproduced id ⟨name, ids, hlist⟩
    have hdeclared := hproduced.declared built (Registry.titled_after requests) hallows
    obtain ⟨schema, hschema, shape, hshape, hnames, hlists⟩ := hdeclared.exists_shape hlist
    refine ⟨schema, hschema, shape, hshape, hnames, fun name ids hlist => ?_⟩
    obtain ⟨field, hfield, hname, types, arity, singletons, hkind, hlength, hdifferent⟩ :=
      hlists name ids hlist
    have hids : ∀ item ∈ ids, item < f.size := fun item hitem =>
      hdeclared.descends.child_lt (List.mem_flatMap.2 ⟨_, hlist, hitem⟩)
    have hrepeatless := hdeclared.repeatless hids hdifferent
    refine ⟨field, hfield, hname, types, arity, singletons, hkind, by simpa using hlength,
      hrepeatless, fun hseparate => hrepeatless.reverse fun a ha b hb => ?_⟩
    exact hdeclared.same_comm built hseparate (hids a ha) (hids b hb)
  · intro options fuel info types climb arity items ids s s' ready linked h
    exact listEnd_of_matchItems ready linked h

/-- A type for a list of different names, or of sums whose operands go into fields of one
name. -/
def sumsGrammar : List Registry.Request :=
  [.declare "Name" ((Rule.tok [.identifier]).named "name"),
    .declare "Sum" (Rule.seq [(Rule.ofTypes ["Name"]).named "x",
      (Rule.tok [.operator]).named "op"]),
    .declare "Names" ((((Rule.expr ["Name"]
        { node := "Sum", left := "x", operator := "op", right := "x" }).named "items").many
        ",").mapAttrs fun attrs => { attrs with singletons := .byValue })]

/-- The parse of a list of two sums. -/
def sumsParsed : Except Error (Option NodeId) × ParseState :=
  parseType { dialect := .postgres } 100 "Names"
    (start (.ofChunks .postgres (.ofDialect .postgres) ["a + b, a + a"]) (.after sumsGrammar)
      .postgres)

/-- The first sum has the operands `a` and `b`, the second has `a` twice. Each operand of
the second sum is the same as the first operand of the first sum, the one that is found under
the name. The second sum is therefore the same as the first, but the first is not the same as
the second. -/
theorem sums_repeated :
    sumsParsed.1.toOption = some (some 6) ∧ sumsParsed.2.forest.tag 6 = "Names" ∧
      sumsParsed.2.forest.fields 6 = [("items", .list [2, 5])] ∧
      (((Registry.after sumsGrammar).schema "Names" .postgres).1.toOption.map fun schema =>
        schema.shapes.map (List.map FieldSchema.kind)) =
          some [[.list ["Name", "Sum"] { least := 1, most := none } .byValue]] ∧
      sumsParsed.2.forest.same 5 sumsParsed.2.forest 2 = true ∧
      sumsParsed.2.forest.same 2 sumsParsed.2.forest 5 = false := by
  decide +kernel

/-- A parser in front of a list in which a name comes twice. -/
def namesBefore : ParseState :=
  start (.ofChunks .postgres (.ofDialect .postgres) ["a, b, a"])
    (.after Structured.namesGrammar) .postgres

/-- The rule for the names. -/
def namesInfo : RuleInfo where
  attrs := { name := some "items", arity := some { least := 1, most := none },
             separator := some ",", singletons := .byValue }
  path := "Names"
  fields := ["items"]

/-- The parse of the names. -/
def namesParsed : Except Error (Option NodeId) × ParseState :=
  parseType { dialect := .postgres } 100 "Names" namesBefore

/-- The items of the list alone. -/
def namesMatched : Except Error (List NodeId) × ParseState :=
  matchItems { dialect := .postgres } 100 namesInfo ["Name"] none { least := 1, most := none } []
    namesBefore

/-- The list ends behind the second name. -/
theorem names_respected :
    namesParsed.1.toOption = some (some 2) ∧
      namesParsed.2.forest.fields 2 = [("items", .list [0, 1])] ∧
      namesParsed.2.forest.Repeatless .byValue [0, 1] ∧
      namesParsed.2.forest.Repeatless .byValue [1, 0] ∧
      namesMatched.1.toOption = some [0, 1] ∧
      ∃ t, Relation.ReflTransGen
          (OneMore { dialect := .postgres } namesInfo ["Name"] none { least := 1, most := none })
          ([], namesBefore) ([0, 1], t) ∧
        ListEnd { dialect := .postgres } namesInfo ["Name"] none { least := 1, most := none }
          [0, 1] t namesMatched.2 := by
  have hruns : namesParsed.1.toOption = some (some 2) ∧
      namesParsed.2.forest.fields 2 = [("items", .list [0, 1])] ∧
      namesMatched.1.toOption = some [0, 1] := by
    decide +kernel
  have hkinds :
      (((Registry.after Structured.namesGrammar).schema (namesParsed.2.forest.tag 2)
        .postgres).1.toOption.map fun schema => schema.shapes.map (List.map FieldSchema.kind)) =
          some [[.list ["Name"] { least := 1, most := none } .byValue]] := by
    decide +kernel
  obtain ⟨hparsed, hfields, hmatched⟩ := hruns
  have hallows : (Registry.after Structured.namesGrammar).Allows Climb.Separate :=
    Registry.allows_of_types (by decide +kernel)
  have hproduced : Produced (.after Structured.namesGrammar) .postgres Climb.Separate
      namesParsed.2.forest := by
    rw [namesParsed]
    exact .type _ _ rfl (.refl _) (.empty .postgres)
  have hlist : ("items", FieldValue.list [0, 1]) ∈ namesParsed.2.forest.fields 2 := by
    rw [hfields]
    exact List.mem_singleton_self _
  obtain ⟨hlists, hends⟩ := lists_respected Structured.namesGrammar
  obtain ⟨schema, hschema, shape, hshape, -, hrespected⟩ :=
    hlists .postgres _ _ hallows hproduced 2 ⟨_, _, hlist⟩
  obtain ⟨field, hfield, -, types, arity, singletons, hkind, -, hrepeatless, hreverse⟩ :=
    hrespected _ _ hlist
  have hbyValue : singletons = .byValue := by
    rw [hschema] at hkinds
    have hshapes : schema.shapes.map (List.map FieldSchema.kind) =
        [[.list ["Name"] { least := 1, most := none } .byValue]] := Option.some.inj hkinds
    have hshape := List.mem_map_of_mem (f := List.map FieldSchema.kind) hshape
    rw [hshapes, List.mem_singleton] at hshape
    have hfield := List.mem_map_of_mem (f := FieldSchema.kind) hfield
    rw [hshape, List.mem_singleton, hkind] at hfield
    cases hfield
    rfl
  subst hbyValue
  refine ⟨hparsed, hfields, hrepeatless, hreverse fun _ h => h, hmatched, ?_⟩
  exact hends _ _ _ _ _ _ _ _ _ _ (Source.ready_ofChunks ..) (linked_empty .postgres)
    (ok_of_toOption hmatched)

end Parsing

end DualSql
