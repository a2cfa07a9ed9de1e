import DualSql.Proofs.Grammar.Shaped

/-! # Parsed trees read back

Every tree of the standard grammar that a text is parsed to is read back from
its structured form, also after it was carried to another dialect and back.
The facts about the standard grammar that this takes are checked by evaluation.

Main results: `Tree.exists_ofJson` and `Tree.readBack_of_parseAs`. -/

namespace DualSql

namespace Registry

/-- Whether what the types match can be read back, and climbing types are
registered under the type that they make. -/
def isReadable (r : Registry) (d : Dialect) : Bool :=
  r.types.all fun entry =>
    match entry.2 with
    | .declared _ =>
      match (r.schema entry.1 d).1 with
      | .ok schema => schema.root.all fun root =>
          root.readable && (Schema.shapesOf false none root).all schema.shapes.contains
      | .error _ => true
    | .climbing _ climb _ => entry.1 == climb.node

/-- Whether what climbing makes fits a shape of its type. -/
def isFitting (r : Registry) (operands : List String) (climb : Climb) (d : Dialect) : Bool :=
  match (r.schema climb.node d).1 with
  | .ok schema => schema.shapes.any fun shape =>
      shape.map (fun field => (field.name, field.kind, field.condition)) ==
        [(climb.left, .node (acceptedTypes operands (some climb)), none),
          (climb.operator, .terminal [.operator, .keyword] [], none),
          (climb.right, .node (acceptedTypes operands (some climb)), none)]
  | .error _ => false

/-- Whether the shapes of a type have its fields in their order, and fields of
known types alone. -/
def isInOrder (r : Registry) (d : Dialect) : Bool :=
  r.types.all fun entry =>
    !(r.order entry.1).contains nodeName &&
    match (r.schema entry.1 d).1 with
    | .ok schema => schema.shapes.all fun shape =>
        (shape.map FieldSchema.name).isSublist (r.order entry.1) &&
        shape.all fun field => field.condition.all (fun c => c.field != nodeName) &&
          field.kind.types.all fun tag => (r.type? tag).isSome
    | .error _ => false

variable {r : Registry} {operands : List String} {climb : Climb} {d : Dialect} {tag : String}
  {schema : Schema}

theorem readable_of_isReadable (h : r.isReadable d = true) {rule : Rule} {root : Production}
    (htype : r.type? tag = some (.declared rule)) (hschema : (r.schema tag d).1 = .ok schema)
    (hroot : schema.root = some root) :
    root.readable = true ∧ ∀ shape ∈ Schema.shapesOf false none root, shape ∈ schema.shapes := by
  have hentry := List.all_eq_true.1 h _ (mem_types htype)
  simpa [hschema, hroot] using hentry

theorem keys_of_isReadable (h : r.isReadable d = true) {types : List String} {rule : Rule}
    (htype : r.type? tag = some (.climbing types climb rule)) : tag = climb.node := by
  have hentry := List.all_eq_true.1 h _ (mem_types htype)
  simpa using hentry

theorem fitting_of_isFitting (h : r.isFitting operands climb d = true) :
    ∃ schema shape, (r.schema climb.node d).1 = .ok schema ∧ shape ∈ schema.shapes ∧
      shape.map (fun field => (field.name, field.kind, field.condition)) =
        [(climb.left, .node (acceptedTypes operands (some climb)), none),
          (climb.operator, .terminal [.operator, .keyword] [], none),
          (climb.right, .node (acceptedTypes operands (some climb)), none)] := by
  unfold isFitting at h
  split at h
  next schema hschema =>
    obtain ⟨shape, hshape, heq⟩ := List.any_eq_true.1 h
    exact ⟨schema, shape, hschema, hshape, beq_iff_eq.1 heq⟩
  next => cases h

/-- The fact that is checked of each type. -/
theorem entry_of_isInOrder (h : r.isInOrder d = true) {nodeType : NodeType}
    (htype : r.type? tag = some nodeType) :
    nodeName ∉ r.order tag ∧ ∃ schema, (r.schema tag d).1 = .ok schema ∧
      ∀ shape ∈ schema.shapes, (shape.map FieldSchema.name).Sublist (r.order tag) ∧
        ∀ field ∈ shape, (∀ c ∈ field.condition, c.field ≠ nodeName) ∧
          ∀ tag ∈ field.kind.types, ∃ nodeType, r.type? tag = some nodeType := by
  have hentry := List.all_eq_true.1 h _ (mem_types htype)
  rw [Bool.and_eq_true] at hentry
  obtain ⟨hname, hentry⟩ := hentry
  refine ⟨by simpa using hname, ?_⟩
  split at hentry
  next schema hschema =>
    refine ⟨schema, hschema, fun shape hshape => ?_⟩
    obtain ⟨hsub, hfields⟩ := Bool.and_eq_true_iff.1 (List.all_eq_true.1 hentry shape hshape)
    refine ⟨List.isSublist_iff_sublist.1 hsub, fun field hfield => ?_⟩
    obtain ⟨hcondition, htypes⟩ := Bool.and_eq_true_iff.1 (List.all_eq_true.1 hfields field hfield)
    constructor
    · intro c hc
      rw [Option.mem_def.1 hc] at hcondition
      simpa using hcondition
    · intro tag htag
      exact Option.isSome_iff_exists.1 (List.all_eq_true.1 htypes tag htag)
  next => cases hentry

end Registry

namespace Standard

/-- The facts are checked together, since they look at the same schemas. -/
theorem isReadable_isFitting_isInOrder : ∀ d ∈ Dialect.all, (extend {}).isReadable d = true ∧
    (extend {}).isFitting operands binary d = true ∧ (extend {}).isInOrder d = true := by
  decide +kernel

theorem isReadable (d : Dialect) : (extend {}).isReadable d = true :=
  (isReadable_isFitting_isInOrder d d.mem_all).1

theorem isFitting (d : Dialect) : (extend {}).isFitting operands binary d = true :=
  (isReadable_isFitting_isInOrder d d.mem_all).2.1

theorem isInOrder (d : Dialect) : (extend {}).isInOrder d = true :=
  (isReadable_isFitting_isInOrder d d.mem_all).2.2

/-- The standard grammar as an outline whose trees can be read back. -/
def readable (d : Dialect) : ReadableOutline where
  toFaithfulOutline := outline d
  readable _ _ _ _ := Registry.readable_of_isReadable (isReadable d)
  keys _ _ _ _ := Registry.keys_of_isReadable (isReadable d)
  fitting := Registry.fitting_of_isFitting (isFitting d)

theorem inOrder (d : Dialect) : (outline d).toOutline.InOrder where
  nodeName tag hmem := by
    cases ht : (extend {}).type? tag with
    | some nodeType => exact (Registry.entry_of_isInOrder (isInOrder d) ht).1 hmem
    | none =>
        change nodeName ∈ (extend {}).order tag at hmem
        simp [Registry.order, ht] at hmem
  shapes tag schema hschema shape hshape := by
    obtain ⟨nodeType, htype⟩ := Registry.exists_type_of_schema hschema
    obtain ⟨-, schema', hschema', hshapes⟩ := Registry.entry_of_isInOrder (isInOrder d) htype
    obtain rfl : schema' = schema := Except.ok.inj (hschema'.symm.trans hschema)
    exact (hshapes shape hshape).1
  conditions tag schema hschema shape hshape field hfield := by
    obtain ⟨nodeType, htype⟩ := Registry.exists_type_of_schema hschema
    obtain ⟨-, schema', hschema', hshapes⟩ := Registry.entry_of_isInOrder (isInOrder d) htype
    obtain rfl : schema' = schema := Except.ok.inj (hschema'.symm.trans hschema)
    exact ((hshapes shape hshape).2 field hfield).1

/-- A type has a schema in every dialect or in none. -/
theorem knows_of_schema {d d' : Dialect} {tag : String} {schema : Schema}
    (h : ((extend {}).schema tag d).1 = .ok schema) : (outline d').toOutline.Knows [tag] := by
  intro tag' htag
  obtain rfl := List.mem_singleton.1 htag
  obtain ⟨nodeType, htype⟩ := Registry.exists_type_of_schema h
  obtain ⟨-, schema', hschema', -⟩ := Registry.entry_of_isInOrder (isInOrder d') htype
  exact ⟨schema', hschema'⟩

theorem closed (d : Dialect) : (outline d).toOutline.Closed := by
  intro tag schema hschema shape hshape field hfield tag' htag'
  obtain ⟨nodeType, htype⟩ := Registry.exists_type_of_schema hschema
  obtain ⟨-, schema', hschema', hshapes⟩ := Registry.entry_of_isInOrder (isInOrder d) htype
  obtain rfl : schema' = schema := Except.ok.inj (hschema'.symm.trans hschema)
  obtain ⟨nodeType', htype'⟩ := ((hshapes shape hshape).2 field hfield).2 tag' htag'
  obtain ⟨-, schema', hschema', -⟩ := Registry.entry_of_isInOrder (isInOrder d) htype'
  exact ⟨schema', hschema'⟩

end Standard

/-! ### Depths -/

namespace Content

mutual

/-- The structured form of a tree is as deep as the tree. -/
theorem height_le_depth : (x : Content) → x.Named → x.height ≤ x.toJson.depth
  | terminal _, _ => Nat.zero_le _
  | node tag fields, h => by
      rw [toJson_node h.1, height, Json.depth, Json.membersDepth, Nat.add_comm]
      have hfields := heightFields_le_depth fields h.2
      omega
  | list items, h => by
      rw [toJson, height, Json.depth]
      have hitems := heightItems_le_depth items h
      omega

theorem heightFields_le_depth : (fields : List (String × Content)) →
    EachField (fun _ fields => (nodeName :: fields.map Prod.fst).Nodup) fields →
    heightFields fields ≤ Json.membersDepth (fields.map fun f => (f.1, f.2.toJson))
  | [], _ => Nat.le_refl _
  | (_, x) :: rest, ⟨hx, hrest⟩ =>
      max_le_max (height_le_depth x hx) (heightFields_le_depth rest hrest)

theorem heightItems_le_depth : (items : List Content) →
    EachItem (fun _ fields => (nodeName :: fields.map Prod.fst).Nodup) items →
    heightItems items ≤ Json.itemsDepth (itemsJson items)
  | [], _ => Nat.le_refl _
  | x :: rest, ⟨hx, hrest⟩ =>
      max_le_max (height_le_depth x hx) (heightItems_le_depth rest hrest)

end

end Content

/-! ### Trees -/

namespace Tree

variable {d d' : Dialect} {types : List String} {sql : String} {t u : Tree}

/-- A tree whose nodes all stand behind their children. -/
structure Grown (t : Tree) : Prop where
  descends : t.forest.Descends 0
  root : t.root < t.forest.size

/-- The content of a tree. -/
def content (t : Tree) : Content :=
  t.forest.content t.root

theorem Grown.toJson_eq (h : t.Grown) : t.toJson = t.content.toJson :=
  Forest.toJson_eq h.descends (Nat.zero_le _) h.root

theorem tag_eq (t : Tree) : t.tag = t.content.tag :=
  (Forest.tag_content ..).symm

theorem Grown.same_of_bare (ht : t.Grown) (hu : u.Grown) (hnamed : t.content.Named)
    (h : t.content.bare = u.content.bare) : t.same u = true := by
  have hsame : t.same u = t.content.same u.content :=
    Forest.sameTo_eq ht.descends hu.descends (Nat.zero_le _) (Nat.zero_le _)
      (Nat.lt_succ_of_lt ht.root)
  rw [hsame]
  exact Content.same_of_bare hnamed.distinct h

/-- A tree that is read is the one that the outline reads. -/
theorem content_of_ofJson {json : Json} (h : ofJson d types json = .ok u) :
    u.Grown ∧ u.dialect = d ∧
      (Standard.outline d).readTree json.depth types json = some u.content := by
  rw [ofJson] at h
  rcases hrun : Structured.readAny { dialect := d } types json
    (Structured.start Standard.registry d) with ⟨_ | _ | root, s'⟩
  · rw [hrun] at h
    cases h
  · rw [hrun] at h
    cases h
  · rw [hrun] at h
    cases h
    obtain ⟨-, hplants, hcontent⟩ := Structured.readAnyTo_of_ok
      (o := (Standard.outline d).toOutline) rfl (Structured.linked_start Standard.registry d)
      (Standard.agrees_registry d) hrun
    replace hplants : Forest.Plants _ s'.forest [root] := hplants
    exact ⟨⟨hplants.descends, (hplants.bounds List.mem_cons_self).2⟩, hplants.grows.dialect,
      hcontent.symm⟩

/-- Reading makes the tree that the outline reads. -/
theorem ofJson_reads (hknows : (Standard.outline d).toOutline.Knows types) (json : Json) :
    (ofJson d types json).toOption.map content =
      (Standard.outline d).readTree json.depth types json := by
  obtain ⟨r, s', hrun, -, -, hcontent⟩ :=
    Structured.readAnyTo_reads (Standard.closed d) json.depth hknows json
      (Structured.start Standard.registry d) (Structured.linked_start _ d)
      (Standard.agrees_registry d)
  change Structured.readAny { dialect := d } types json _ = _ at hrun
  rw [ofJson, hrun, ← hcontent]
  cases r <;> rfl

/-- What is read from the structured form of a tree is that tree, up to the
kinds and places of its terminals. -/
theorem bare_of_ofJson (hx : t.content.Ordered (Standard.extend {})) (ht : t.Grown)
    (h : ofJson d types t.toJson = .ok u) : u.Grown ∧ u.content.bare = t.content.bare := by
  obtain ⟨hgrown, -, hread⟩ := content_of_ofJson h
  rw [ht.toJson_eq] at hread
  exact ⟨hgrown, Outline.bare_of_readTree (Standard.inOrder d) hx hread⟩

/-- The type of a tree that fits its shapes is known in every dialect. -/
theorem knows_tag (hx : (Standard.readable d).Fitting types t.content) (d' : Dialect) :
    (Standard.outline d').toOutline.Knows [t.tag] := by
  obtain ⟨⟨tag, fields, hnode, -⟩, hshaped⟩ := hx
  rw [tag_eq, hnode]
  rw [hnode] at hshaped
  obtain ⟨⟨schema, -, hschema, -⟩, -⟩ := hshaped
  exact Standard.knows_of_schema hschema

/-- A tree that fits the shapes of its types can be read from its structured form. -/
theorem exists_ofJson (ht : t.Grown) (hx : (Standard.readable d).Fitting types t.content) :
    ∃ u, ofJson d [t.tag] t.toJson = .ok u ∧ u.Grown ∧ u.content.bare = t.content.bare := by
  have horder := (Standard.inOrder d).ordered hx.2
  have hdepth := Content.height_le_depth _ ((Standard.inOrder d).named horder)
  have hread : ∃ y, (Standard.outline d).readTree t.toJson.depth [t.tag] t.toJson = some y := by
    obtain ⟨⟨tag, fields, hnode, -⟩, hshaped⟩ := hx
    rw [ht.toJson_eq, tag_eq]
    rw [hnode] at hshaped hdepth ⊢
    exact Outline.exists_readTree (Standard.inOrder d) hshaped (List.mem_singleton_self tag) hdepth
  obtain ⟨y, hy⟩ := hread
  cases hu : ofJson d [t.tag] t.toJson with
  | error e =>
      have hreads := ofJson_reads (knows_tag hx d) t.toJson
      rw [hu, hy] at hreads
      cases hreads
  | ok u => exact ⟨u, rfl, bare_of_ofJson horder ht hu⟩

theorem tag_of_bare (h : t.content.bare = u.content.bare) : t.tag = u.tag := by
  rw [tag_eq, tag_eq, ← Content.tag_map Terminal.bare, ← Content.bare, h, Content.bare,
    Content.tag_map]

/-- A tree that a text is parsed to is read back from its structured form, and
also after it was carried to another dialect and back. -/
theorem readBack_of_parseAs (h : parseAs d types sql = .ok t) :
    (∃ u, ofJson d [t.tag] t.toJson = .ok u ∧ t.same u = true ∧ u.same t = true ∧
      u.toJson = t.toJson) ∧
    ∀ d' v, t.toDialect d' = .ok v →
      ∃ w, v.toDialect d = .ok w ∧ t.same w = true ∧ w.same t = true := by
  have accepted := accepted_of_parseAs h
  have ht : t.Grown := ⟨accepted.descends, accepted.root⟩
  obtain ⟨trees, rest, fuel, hlexed, -, hfound, -⟩ := accepted.found
  have hx : (Standard.readable d).Fitting types t.content :=
    (((Standard.readable d).tells fuel).any hlexed hfound).2
  have horder := (Standard.inOrder d).ordered hx.2
  have hnamed : t.content.Named := (Standard.inOrder d).named horder
  obtain ⟨u, hu, hgrown, hbare⟩ := exists_ofJson ht hx
  have hsame := ht.same_of_bare hgrown hnamed hbare.symm
  have hsame' := hgrown.same_of_bare ht (hnamed.of_bare hbare.symm) hbare
  refine ⟨⟨u, hu, hsame, hsame', ?_⟩, ?_⟩
  · rw [hgrown.toJson_eq, ht.toJson_eq, Content.toJson_congr hbare]
  · intro d' v hv
    -- In the other dialect the tree has the same type and structured form.
    obtain ⟨hgrown', hbare'⟩ := bare_of_ofJson horder ht hv
    have hback : v.toDialect d = .ok u := by
      rw [toDialect, tag_of_bare hbare', hgrown'.toJson_eq, Content.toJson_congr hbare',
        ← ht.toJson_eq]
      exact hu
    exact ⟨u, hback, hsame, hsame'⟩

/-- A negation is read back, also by way of the other dialect. -/
theorem negation_readBack :
    ∃ t u v w, parseAs .mysql ["NotExpr"] "not left(`a`, ?) < -1" = .ok t ∧
      ofJson .mysql [t.tag] t.toJson = .ok u ∧ t.same u = true ∧ u.toJson = t.toJson ∧
      t.toDialect .postgres = .ok v ∧ v.toDialect .mysql = .ok w ∧ t.same w = true := by
  have hcarried : (do
      let t ← parseAs .mysql ["NotExpr"] "not left(`a`, ?) < -1"
      t.toDialect .postgres).toOption.isSome = true := by
    unfold parseAs parseChunks parseSource toDialect ofJson
    rw [Standard.registry_eq]
    decide +kernel
  cases ht : parseAs .mysql ["NotExpr"] "not left(`a`, ?) < -1" with
  | error e =>
      rw [ht] at hcarried
      cases hcarried
  | ok t =>
      rw [ht] at hcarried
      obtain ⟨⟨u, hu, hsame, -, hjson⟩, hback⟩ := readBack_of_parseAs ht
      cases hv : t.toDialect .postgres with
      | error e =>
          change (t.toDialect .postgres).toOption.isSome = true at hcarried
          rw [hv] at hcarried
          cases hcarried
      | ok v =>
          obtain ⟨w, hw, hsame', -⟩ := hback .postgres v hv
          exact ⟨t, u, v, w, rfl, hu, hsame, hjson, hv, hw, hsame'⟩

/-- Whether the text of a tree that was carried to another dialect is parsed there. -/
def converts? (source target : Dialect) (sql : String) : Option Bool := do
  let t ← (parse source sql).toOption
  let u ← (t.toDialect target).toOption
  let text ← u.toSql.toOption
  return (parse target text).toOption.isSome

/-- A tree that is carried over need not have a text there: of an operator it is
asked that the dialect has it, not that it stands between operands. -/
theorem prefixOperator_between_operands :
    converts? .postgres .mysql "select a ~ b" = some false := by
  unfold converts? parse parseAs parseChunks parseSource toDialect ofJson toSql toSqlWith layout
  rw [Standard.registry_eq]
  decide +kernel

end Tree

end DualSql
