import DualSql.Grammar.Structured
import DualSql.Proofs.Fallible
import DualSql.Proofs.Grammar.Outline
import DualSql.Proofs.Grammar.Planted

/-! # The outline of reading structured trees

Reading a structured tree without a forest and without a cache: a function from
the structured form to the tree, if there is one. The reader makes the nodes of
the tree of its outline, or leaves the forest as it was, unless it fails. It
fails on types that are not known and, if it is strict, on objects that fit no
shape.

Main definitions: `Outline.readTree` and the functions that it is made of, one
for each function of the reader. Main results: `Structured.readAnyTo_reads`, for
a grammar whose types are all known, and `Structured.readAnyTo_of_ok` for any. -/

namespace DualSql

/-- The types of the nodes that a field holds. -/
def FieldKind.types : FieldKind → List String
  | terminal .. => []
  | node types => types
  | list types _ _ => types

namespace Outline

/-- The items of a list, given how to read a tree. -/
def readItems (child : Json → Option Content) (policy : Singletons) (sofar : List Content) :
    List Json → Option (List Content)
  | [] => some sofar
  | item :: rest =>
    match child item with
    | none => none
    | some x =>
      if Content.repeats policy sofar x then none
      else readItems child policy (sofar ++ [x]) rest

variable (d : Dialect) (child : List String → Json → Option Content)

/-- The value of a field, given how to read a tree. -/
def readValue (kind : FieldKind) (value : Json) : Option Content :=
  match kind with
  | .terminal kinds values => (Structured.readTerminal? d kinds values value).map .terminal
  | .node types => child types value
  | .list types arity singletons =>
    match value.items? with
    | none => none
    | some items =>
      if arity.admits items.length then (readItems (child types) singletons [] items).map .list
      else none

/-- The fields of a shape, given how to read a tree. -/
def readFields (members : List (String × Json)) (parts : Parts) : Shape → Option Parts
  | [] => some parts
  | field :: rest =>
    match members.lookup field.name with
    | none =>
      if field.optional || !Structured.applies field members then readFields members parts rest
      else none
    | some value =>
      if !Structured.applies field members then none
      else
        match readValue d child field.kind value with
        | none => none
        | some x => readFields members (parts ++ [(field.name, x)]) rest

/-- The fields of a shape, if it has one for every member. -/
def readShape (members : List (String × Json)) (shape : Shape) : Option Parts :=
  if Structured.isCovered shape members then readFields d child members [] shape else none

/-- A tree by the first shape that fits. -/
def readShapes (tag : String) (members : List (String × Json)) : List Shape → Option Content
  | [] => none
  | shape :: rest =>
    match readShape d child members shape with
    | some parts => some (.node tag parts)
    | none => readShapes tag members rest

/-- A tree of one of the types, down to a depth. -/
def readTree (o : Outline) : Nat → List String → Json → Option Content
  | 0, _, _ => none
  | depth + 1, types, tree =>
    match tree.members?, Structured.typeName? tree with
    | some members, some tag =>
      if !types.contains tag then none
      else
        match (o.registry.schema tag o.options.dialect).1 with
        | .error _ => none
        | .ok schema =>
          readShapes o.options.dialect (readTree o depth) tag members schema.shapes
    | _, _ => none

/-- Types that have a schema. -/
def Knows (o : Outline) (types : List String) : Prop :=
  ∀ tag ∈ types, ∃ schema, (o.registry.schema tag o.options.dialect).1 = .ok schema

/-- All types that fields name have a schema. -/
def Closed (o : Outline) : Prop :=
  ∀ tag schema, (o.registry.schema tag o.options.dialect).1 = .ok schema →
    ∀ shape ∈ schema.shapes, ∀ field ∈ shape, o.Knows field.kind.types

end Outline

namespace Structured

open Fallible Forest

/-- A computation that makes a tree, if there is one, and nothing else. -/
def Reads (o : Outline) (m : Structured (Option NodeId)) (tree : Option Content) : Prop :=
  ∀ s : ReadState, s.forest.Linked → o.registry.Agrees s.registry →
    ∃ r s', m s = (.ok r, s') ∧ o.registry.Agrees s'.registry ∧
      s.forest.PlantsNode s'.forest r ∧ r.map s'.forest.content = tree

/-- A computation that fails, or makes a tree, if there is one, and nothing else.
It fails only under a condition. -/
def ReadsOrFails (mayFail : Prop) (o : Outline) (m : Structured (Option NodeId))
    (tree : Option Content) : Prop :=
  ∀ s : ReadState, s.forest.Linked → o.registry.Agrees s.registry →
    mayFail ∧ Fails m s ∨
    ∃ r s', m s = (.ok r, s') ∧ o.registry.Agrees s'.registry ∧
      s.forest.PlantsNode s'.forest r ∧ r.map s'.forest.content = tree

variable {mayFail : Prop} {o : Outline} {s : ReadState} {f : Forest}

theorem linked_start (r : Registry) (d : Dialect) : (start r d).forest.Linked := by
  intro id parent hparent
  simp [start, Forest.parent?, Forest.node?] at hparent

theorem readsOrFails_none : ReadsOrFails mayFail o (pure none) none :=
  fun s _ agrees => .inr ⟨none, s, rfl, agrees, rfl, rfl⟩

/-- Making a node of planted trees succeeds. -/
theorem build_total {tag : String} {fields : Fields} (h : f.Plants s.forest fields.children) :
    build tag fields s =
      (.ok s.forest.size, { s with forest := (s.forest.append tag fields).2 }) := by
  have hloose (ids : List NodeId) (hids : ∀ id ∈ ids, s.forest.parent? id = none) :
      ids.forM s.forest.checkOrphan = .ok () := by
    induction ids with
    | nil => rfl
    | cons id ids ih =>
        obtain ⟨hid, hrest⟩ := List.forall_mem_cons.1 hids
        change (s.forest.checkOrphan id >>= fun _ => ids.forM s.forest.checkOrphan) = .ok ()
        rw [checkOrphan, hid]
        exact ih hrest
  have hbuild : s.forest.build tag fields =
      .ok (s.forest.size, (s.forest.append tag fields).2) := by
    rw [Forest.build, hloose _ h.loose]
    rfl
  rw [build, hbuild]

section

variable {d : Dialect}

theorem readItems_reads {child : Json → Structured (Option NodeId)} {a : Json → Option Content}
    (hchild : ∀ item, ReadsOrFails mayFail o (child item) (a item)) (policy : Singletons)
    (hf : f.Linked) {ids : List NodeId} (items : List Json) (hids : f.Plants s.forest ids)
    (agrees : o.registry.Agrees s.registry) :
    mayFail ∧ Fails (readItems child policy ids items) s ∨
    ∃ r s', readItems child policy ids items s = (.ok r, s') ∧ o.registry.Agrees s'.registry ∧
      Grows f.size f s'.forest ∧
      (∀ ids' ∈ r, f.Plants s'.forest ids') ∧
      r.map (List.map s'.forest.content) =
        Outline.readItems a policy (ids.map s.forest.content) items := by
  induction items generalizing s ids with
  | nil => exact .inr ⟨some ids, s, rfl, agrees, hids.grows, by simpa using hids, rfl⟩
  | cons item rest ih =>
      rcases hchild item s (hids.linked hf) agrees with
        ⟨hfail, hfails⟩ | ⟨r, s₁, hrun, agrees₁, hplants, hcontent⟩
      · exact .inl ⟨hfail, hfails.bind⟩
      rw [readItems, Outline.readItems, Fails, bind_of_ok hrun]
      cases r with
      | none =>
          rw [← hcontent]
          have hforest : s₁.forest = s.forest := hplants
          exact .inr ⟨none, s₁, rfl, agrees₁, by rw [hforest]; exact hids.grows, by simp, rfl⟩
      | some id =>
          rw [← hcontent]
          have hall : f.Plants s₁.forest (ids ++ [id]) := hids.trans hplants
          have hkept := hids.map_content hplants
          have hrepeats : policy.repeats s₁.forest ids id =
              Content.repeats policy (ids.map s.forest.content) (s₁.forest.content id) := by
            rw [repeats_eq hall.descends policy ids _ (hall.bounds (by simp)).1, hkept]
            intro item hitem
            exact hall.bounds (List.mem_append_left _ hitem)
          dsimp only [Option.map_some]
          rw [bind_of_ok (get_eq_ok.2 ⟨rfl, rfl⟩), hrepeats]
          split
          · exact .inr ⟨none, s₁, rfl, agrees₁, hall.grows, by simp, rfl⟩
          · have hrest := ih hall agrees₁
            rwa [List.map_append, hkept] at hrest

/-- What reading the value of a field comes to. -/
theorem readValue_reads {child : List String → Json → Structured (Option NodeId)}
    {a : List String → Json → Option Content} {kind : FieldKind}
    (hchild : ∀ item, ReadsOrFails mayFail o (child kind.types item) (a kind.types item))
    (value : Json) (hs : s.forest.Linked) (agrees : o.registry.Agrees s.registry) :
    mayFail ∧ Fails (readValue d child kind value) s ∨
    ∃ r s', readValue d child kind value s = (.ok r, s') ∧ o.registry.Agrees s'.registry ∧
      Grows s.forest.size s.forest s'.forest ∧
      (∀ v ∈ r, s.forest.Plants s'.forest v.children) ∧
      r.map (FieldValue.content s'.forest.content) = Outline.readValue d a kind value := by
  cases kind with
  | terminal kinds values =>
      refine .inr
        ⟨(readTerminal? d kinds values value).map .terminal, s, rfl, agrees, .refl _ _, ?_, ?_⟩
      · intro v hv
        obtain ⟨t, -, rfl⟩ := Option.map_eq_some_iff.1 hv
        exact .refl _
      · rw [Outline.readValue, Option.map_map]
        rfl
  | node types =>
      change ∀ item, ReadsOrFails mayFail o (child types item) (a types item) at hchild
      rcases hchild value s hs agrees with
        ⟨hfail, hfails⟩ | ⟨r, s', hrun, agrees', hplants, hcontent⟩
      · exact .inl ⟨hfail, hfails.bind⟩
      refine .inr ⟨r.map .node, s', ?_, agrees', hplants.grows, ?_, ?_⟩
      · rw [readValue, bind_of_ok hrun]
        rfl
      · intro v hv
        obtain ⟨id, rfl, rfl⟩ := Option.map_eq_some_iff.1 hv
        exact hplants
      · rw [Option.map_map]
        exact hcontent
  | list types arity singletons =>
      change ∀ item, ReadsOrFails mayFail o (child types item) (a types item) at hchild
      rw [readValue, Outline.readValue]
      cases value.items? with
      | none => exact .inr ⟨none, s, rfl, agrees, .refl _ _, by simp, rfl⟩
      | some items =>
          dsimp only
          split
          · rcases readItems_reads hchild singletons hs items (.refl _) agrees with
              ⟨hfail, hfails⟩ | ⟨r, s', hrun, agrees', hgrows, hplants, hcontent⟩
            · exact .inl ⟨hfail, hfails.bind⟩
            refine .inr ⟨r.map .list, s', ?_, agrees', hgrows, ?_, ?_⟩
            · rw [bind_of_ok hrun]
              rfl
            · intro v hv
              obtain ⟨ids, hids, rfl⟩ := Option.map_eq_some_iff.1 hv
              exact hplants ids hids
            · rw [List.map_nil] at hcontent
              rw [← hcontent, Option.map_map, Option.map_map]
              rfl
          · exact .inr ⟨none, s, rfl, agrees, .refl _ _, by simp, rfl⟩

/-- What reading the fields of a shape comes to. -/
theorem readFields_reads {child : List String → Json → Structured (Option NodeId)}
    {a : List String → Json → Option Content} {members : List (String × Json)} {shape : Shape}
    (hchild : ∀ field ∈ shape, ∀ item, ReadsOrFails mayFail o (child field.kind.types item)
      (a field.kind.types item))
    (hf : f.Linked) {fields : Fields} (hfields : f.Plants s.forest fields.children)
    (agrees : o.registry.Agrees s.registry) :
    mayFail ∧ Fails (readFields d child members fields shape) s ∨
    ∃ r s', readFields d child members fields shape s = (.ok r, s') ∧
      o.registry.Agrees s'.registry ∧ Grows f.size f s'.forest ∧
      (∀ fields' ∈ r, f.Plants s'.forest fields'.children) ∧
      r.map (Fields.contents s'.forest.content) =
        Outline.readFields d a members (fields.contents s.forest.content) shape := by
  induction shape generalizing s fields with
  | nil => exact .inr ⟨some fields, s, rfl, agrees, hfields.grows, by simpa using hfields, rfl⟩
  | cons field rest ih =>
      obtain ⟨hhead, hrest⟩ := List.forall_mem_cons.1 hchild
      rw [readFields, Outline.readFields]
      cases members.lookup field.name with
      | none =>
          dsimp only
          split
          · exact ih hrest hfields agrees
          · exact .inr ⟨none, s, rfl, agrees, hfields.grows, by simp, rfl⟩
      | some value =>
          dsimp only
          split
          · exact .inr ⟨none, s, rfl, agrees, hfields.grows, by simp, rfl⟩
          · rcases readValue_reads (d := d) hhead value (hfields.linked hf) agrees with
              ⟨hfail, hfails⟩ | ⟨r, s₁, hrun, agrees₁, hgrows, hplants, hcontent⟩
            · exact .inl ⟨hfail, hfails.bind⟩
            rw [Fails, bind_of_ok hrun, ← hcontent]
            cases r with
            | none =>
                exact .inr ⟨none, s₁, rfl, agrees₁, hfields.grows_trans hgrows, by simp, rfl⟩
            | some v =>
                have hvalue := hplants v rfl
                have hall : f.Plants s₁.forest (Fields.children (fields ++ [(field.name, v)])) := by
                  rw [Fields.children_append]
                  simpa [Fields.children] using hfields.trans hvalue
                have hkept : fields.contents s₁.forest.content = fields.contents s.forest.content :=
                  hgrows.contents hfields.descends fun child hc => hfields.bounds hc
                have hmore := ih hrest hall agrees₁
                rw [Fields.contents_append, hkept] at hmore
                exact hmore

/-- A shape is tried, and what was made for it is dropped if it does not fit. -/
theorem readShapes_cons (child : List String → Json → Structured (Option NodeId)) (tag : String)
    (members : List (String × Json)) (shape : Shape) (rest : List Shape) :
    readShapes d child tag members (shape :: rest) =
      get >>= fun s =>
        (if isCovered shape members then readFields d child members [] shape else pure none) >>=
          fun fields =>
            match fields with
            | some fields => build tag fields >>= fun id => pure (some id)
            | none =>
              modify (fun t => { t with forest := t.forest.truncate s.forest.size }) >>= fun _ =>
                readShapes d child tag members rest := by
  rw [readShapes]
  split <;> rfl

/-- What reading a node by the first shape that fits comes to. -/
theorem readShapes_reads {child : List String → Json → Structured (Option NodeId)}
    {a : List String → Json → Option Content} {shapes : List Shape}
    (hchild : ∀ shape ∈ shapes, ∀ field ∈ shape, ∀ item,
      ReadsOrFails mayFail o (child field.kind.types item) (a field.kind.types item))
    (tag : String) (members : List (String × Json)) :
    ReadsOrFails mayFail o (readShapes d child tag members shapes)
      (Outline.readShapes d a tag members shapes) := by
  induction shapes with
  | nil => exact readsOrFails_none
  | cons shape rest ih =>
      obtain ⟨hhead, hrest⟩ := List.forall_mem_cons.1 hchild
      intro s hs agrees
      have hread : mayFail ∧ Fails (if isCovered shape members then
            readFields d child members [] shape else pure none) s ∨
          ∃ r s', (if isCovered shape members then readFields d child members [] shape
            else pure none) s = (.ok r, s') ∧
          o.registry.Agrees s'.registry ∧ Grows s.forest.size s.forest s'.forest ∧
          (∀ fields ∈ r, s.forest.Plants s'.forest fields.children) ∧
          r.map (Fields.contents s'.forest.content) = Outline.readShape d a members shape := by
        rw [Outline.readShape]
        split
        · exact readFields_reads hhead hs (.refl _) agrees
        · exact .inr ⟨none, s, rfl, agrees, .refl _ _, by simp, rfl⟩
      rw [readShapes_cons, Fails, bind_of_ok (get_eq_ok.2 ⟨rfl, rfl⟩)]
      rcases hread with ⟨hfail, hfails⟩ | ⟨r, s₁, hrun, agrees₁, hgrows, hplants, hcontent⟩
      · exact .inl ⟨hfail, hfails.bind⟩
      rw [bind_of_ok hrun, Outline.readShapes, ← hcontent]
      cases r with
      | none =>
          -- What was made for a shape that does not fit is dropped.
          have hdropped : s₁.forest.truncate s.forest.size = s.forest :=
            truncate_of_grows hs hgrows
          dsimp only [Option.map_none]
          rw [bind_of_ok (modify_eq_ok (u := ⟨⟩).2 rfl), hdropped]
          exact ih hrest { s₁ with forest := s.forest } hs agrees₁
      | some fields =>
          have hall := hplants fields rfl
          dsimp only [Option.map_some]
          rw [bind_of_ok (build_total hall)]
          refine .inr ⟨some s₁.forest.size, _, rfl, agrees₁, hall.append, ?_⟩
          dsimp only [Option.map_some]
          rw [content_append hall.descends hgrows.size fun child hc => hall.bounds hc]

end

/-- Reading a structured tree makes the tree of its outline. It fails only on a
grammar with types that are not known, or if it is strict. -/
theorem readAnyTo_readsOrFails (mayFail : Prop) (options : ReadOptions)
    (hd : options.dialect = o.options.dialect)
    (htotal : ¬mayFail → o.Closed ∧ options.strict = false) {types : List String} (depth : Nat)
    (hknows : ¬mayFail → o.Knows types) (tree : Json) :
    ReadsOrFails mayFail o (readAnyTo options depth types tree) (o.readTree depth types tree) := by
  induction depth generalizing types tree with
  | zero => exact readsOrFails_none
  | succ depth ih =>
      rw [readAnyTo, Outline.readTree, ← hd]
      cases tree.members? with
      | none => exact readsOrFails_none
      | some members =>
          cases typeName? tree with
          | none => exact readsOrFails_none
          | some tag =>
              dsimp only
              split
              · exact readsOrFails_none
              next htypes =>
                have htag : tag ∈ types := by simpa using htypes
                intro s hs agrees
                rw [Fails, bind_of_ok (get_eq_ok.2 ⟨rfl, rfl⟩), agrees.type?]
                cases hschema : (o.registry.schema tag options.dialect).1 with
                | error e =>
                    -- Without a schema the reader fails, be the type known or not.
                    refine .inl ⟨?_, ?_⟩
                    · by_contra hnever
                      obtain ⟨schema, hsome⟩ := hknows hnever tag htag
                      rw [← hd, hschema] at hsome
                      cases hsome
                    · cases o.registry.type? tag with
                      | none => exact ⟨_, s, rfl⟩
                      | some nodeType =>
                          have hasked : Structured.schema tag options.dialect s = (.error e, _) :=
                            Prod.ext ((agrees.schemas tag _).trans hschema) rfl
                          exact Fails.bind ⟨e, _, hasked⟩
                | ok schema =>
                    obtain ⟨nodeType, htype⟩ := Registry.exists_type_of_schema hschema
                    rw [htype]
                    have hasked : Structured.schema tag options.dialect s =
                        (.ok schema,
                          { s with registry := (s.registry.schema tag options.dialect).2 }) :=
                      Prod.ext ((agrees.schemas tag _).trans hschema) rfl
                    have hread := readShapes_reads (d := options.dialect)
                      (fun shape hshape field hfield item =>
                        ih (fun hnever => (htotal hnever).1 tag schema (hd ▸ hschema) shape hshape
                          field hfield) item) tag members
                      { s with registry := (s.registry.schema tag options.dialect).2 } hs
                      (agrees.trans (Registry.agrees_schema ..))
                    change mayFail ∧ Fails (readObject options _ tag members) s ∨
                      ∃ r s', readObject options _ tag members s = (.ok r, s') ∧ _
                    rw [readObject, Fails, bind_of_ok hasked]
                    rcases hread with ⟨hfail, hfails⟩ | ⟨r, s', hrun, hmade⟩
                    · exact .inl ⟨hfail, hfails.bind⟩
                    · rw [bind_of_ok hrun]
                      cases r with
                      | some id => exact .inr ⟨some id, s', rfl, hmade⟩
                      | none =>
                          cases hstrict : options.strict with
                          | false => exact .inr ⟨none, s', rfl, hmade⟩
                          | true =>
                              refine .inl ⟨?_, _, s', rfl⟩
                              by_contra hnever
                              rw [(htotal hnever).2] at hstrict
                              cases hstrict

/-- On a grammar whose types are all known, reading makes the tree of its outline. -/
theorem readAnyTo_reads (hclosed : o.Closed) {types : List String} (depth : Nat)
    (hknows : o.Knows types) (tree : Json) :
    Reads o (readAnyTo { dialect := o.options.dialect } depth types tree)
      (o.readTree depth types tree) := by
  intro s hs agrees
  have hread := readAnyTo_readsOrFails (o := o) False { dialect := o.options.dialect } rfl
    (fun _ => ⟨hclosed, rfl⟩) depth (fun _ => hknows) tree s hs agrees
  exact hread.resolve_left fun h => h.1

/-- Whatever the grammar and the choices are, a reading that does not fail makes
the tree of its outline. -/
theorem readAnyTo_of_ok {options : ReadOptions} (hd : options.dialect = o.options.dialect)
    {types : List String} {depth : Nat} {tree : Json} {s s' : ReadState} {r : Option NodeId}
    (hs : s.forest.Linked) (agrees : o.registry.Agrees s.registry)
    (h : readAnyTo options depth types tree s = (.ok r, s')) :
    o.registry.Agrees s'.registry ∧ s.forest.PlantsNode s'.forest r ∧
      r.map s'.forest.content = o.readTree depth types tree := by
  rcases readAnyTo_readsOrFails True options hd (fun h => absurd trivial h) depth
    (fun h => absurd trivial h) tree s hs agrees with ⟨-, e, t, herror⟩ | ⟨r', t, hrun, hmade⟩
  · rw [h] at herror
    cases herror
  · rw [h] at hrun
    cases hrun
    exact hmade

/-- The fields that are read of an object hold trees that were planted, and have the
content that the outline reads. -/
theorem readFields_of_ok {options : ReadOptions} (hd : options.dialect = o.options.dialect)
    {depth : Nat} {members : List (String × Json)} {shape : Shape} {fields : Fields}
    {s s' : ReadState} (hs : s.forest.Linked) (agrees : o.registry.Agrees s.registry)
    (h : readFields options.dialect (readAnyTo options depth) members [] shape s =
      (.ok (some fields), s')) :
    s.forest.Plants s'.forest fields.children ∧
      Outline.readFields options.dialect (o.readTree depth) members [] shape =
        some (fields.contents s'.forest.content) := by
  have hchild (types : List String) (item : Json) :
      ReadsOrFails True o (readAnyTo options depth types item) (o.readTree depth types item) :=
    readAnyTo_readsOrFails True options hd (fun h => absurd trivial h) depth
      (fun h => absurd trivial h) item
  have hnothing : s.forest.Plants s.forest (Fields.children []) := .refl s.forest
  rcases readFields_reads (d := options.dialect)
    (fun field _ item => hchild field.kind.types item) hs hnothing agrees with
    ⟨-, e, t, herror⟩ | ⟨r, t, hrun, -, -, hplants, hcontents⟩
  · rw [h] at herror
    cases herror
  · rw [h] at hrun
    cases hrun
    exact ⟨hplants fields rfl, hcontents.symm⟩

end Structured

end DualSql
