import DualSql.Proofs.Grammar.StructuredForm
import DualSql.Proofs.Grammar.StructuredOutline
import Mathlib.Data.List.Dedup

/-! # Reading a structured form back

Whatever is read from the structured form of a tree keeps everything that the
form keeps, if the fields of the tree stand in the order in which the types
declare them. A tree that fits the shapes of its types can be read.

Main definitions: `Content.Ordered` and `Content.Shaped`. Main results:
`Outline.bare_of_readTree` and `Outline.exists_readTree`. -/

namespace DualSql

/-- The fields that a type declares, in the order in which every dialect has them. -/
def Registry.order (r : Registry) (tag : String) : List String :=
  ((r.type? tag).elim [] fun nodeType => nodeType.rule.fieldNames).dedup

/-- Trees with fields that their types declare, in the order of declaration. -/
abbrev Content.Ordered (r : Registry) : Content → Prop :=
  Content.Each fun tag fields => (fields.map Prod.fst).Sublist (r.order tag)

/-- What is read back of a terminal. Its place is lost, and the name of a data
type that is more than one word is taken for an identifier. -/
def Terminal.reread (d : Dialect) (t : Terminal) : Terminal :=
  { t with
    kind :=
      if t.kind = .dataType ∧ Vocabulary.isDataType d (Text.toUpper t.value) = false then
        .identifier
      else t.kind
    position := ⟨0, 0⟩ }

/-- Whether a content can stand in a field, and what is read of it there. -/
def FieldKind.Admits (d : Dialect) : FieldKind → Content → Prop
  | terminal kinds values, x =>
    ∃ t, x = .terminal t ∧ Structured.readTerminal? d kinds values t.toJson = some (t.reread d)
  | node types, x => ∃ tag fields, x = .node tag fields ∧ tag ∈ types
  | list types arity singletons, x =>
    ∃ xs, x = .list xs ∧ arity.admits xs.length = true ∧ singletons = .unrestricted ∧
      ∀ item ∈ xs, ∃ tag fields, item = .node tag fields ∧ tag ∈ types

/-- Whether fields are those of a shape, in their order. A field may be missing
if it is optional or does not apply. -/
def Shape.Fits (d : Dialect) (has : String → Bool) : Shape → Parts → Prop
  | [], parts => parts = []
  | field :: rest, parts =>
    (field.optional = true ∨ field.condition.all (·.holds has) = false) ∧ Fits d has rest parts ∨
    ∃ x more, parts = (field.name, x) :: more ∧ field.condition.all (·.holds has) = true ∧
      field.kind.Admits d x ∧ Fits d has rest more

/-- Trees that fit a shape of their type. -/
abbrev Content.Shaped (o : Outline) : Content → Prop :=
  Content.Each fun tag fields => ∃ schema shape,
    (o.registry.schema tag o.options.dialect).1 = .ok schema ∧ shape ∈ schema.shapes ∧
      shape.Fits o.options.dialect (fun name => (fields.lookup name).isSome) fields

/-- A grammar whose shapes have different fields, in one order for each type. -/
structure Outline.InOrder (o : Outline) : Prop where
  nodeName : ∀ tag, nodeName ∉ o.registry.order tag
  shapes : ∀ tag schema, (o.registry.schema tag o.options.dialect).1 = .ok schema →
    ∀ shape ∈ schema.shapes, (shape.map FieldSchema.name).Sublist (o.registry.order tag)
  conditions : ∀ tag schema, (o.registry.schema tag o.options.dialect).1 = .ok schema →
    ∀ shape ∈ schema.shapes, ∀ field ∈ shape, ∀ c ∈ field.condition, c.field ≠ DualSql.nodeName

/-! ### Names -/

/-- Lists of different names that are in the same order and have the same names. -/
theorem eq_of_sublist {l a b : List String} (hl : l.Nodup) (ha : a.Sublist l) (hb : b.Sublist l)
    (h : ∀ name, name ∈ a ↔ name ∈ b) : a = b := by
  induction l generalizing a b with
  | nil => rw [List.sublist_nil.1 ha, List.sublist_nil.1 hb]
  | cons name l ih =>
      obtain ⟨hname, hl⟩ := List.nodup_cons.1 hl
      -- The first name is in both lists or in neither.
      cases ha with
      | cons _ ha =>
          cases hb with
          | cons _ hb => exact ih hl ha hb h
          | cons_cons _ hb => exact absurd (ha.subset ((h name).2 (List.mem_cons_self ..))) hname
      | @cons_cons a _ _ ha =>
          cases hb with
          | cons _ hb => exact absurd (hb.subset ((h name).1 (List.mem_cons_self ..))) hname
          | @cons_cons b _ _ hb =>
              refine congrArg _ (ih hl ha hb fun n => ?_)
              have hn := h n
              simp only [List.mem_cons] at hn
              constructor
              · intro hmem
                rcases hn.1 (.inr hmem) with rfl | hmem'
                · exact absurd (ha.subset hmem) hname
                · exact hmem'
              · intro hmem
                rcases hn.2 (.inr hmem) with rfl | hmem'
                · exact absurd (hb.subset hmem) hname
                · exact hmem'

/-- Fields with the same names of which the same is kept, name by name. -/
theorem map_eq_of_lookup {β : Type} (kept kept' : Content → β) {fields others : Parts}
    (hnames : fields.map Prod.fst = others.map Prod.fst) (hnodup : (others.map Prod.fst).Nodup)
    (h : ∀ f ∈ fields, ∃ x, others.lookup f.1 = some x ∧ kept f.2 = kept' x) :
    (fields.map fun f => (f.1, kept f.2)) = others.map fun f => (f.1, kept' f.2) := by
  have hpairs (more : Parts) (hmore : more.Sublist others)
      (hsame : fields.map Prod.fst = more.map Prod.fst) :
      (fields.map fun f => (f.1, kept f.2)) = more.map fun f => (f.1, kept' f.2) := by
    clear hnames
    induction fields generalizing more with
    | nil =>
        cases more with
        | nil => rfl
        | cons g more => cases hsame
    | cons f fields ih =>
        cases more with
        | nil => cases hsame
        | cons g more =>
            obtain ⟨n, x⟩ := f
            obtain ⟨m, y⟩ := g
            simp only [List.map_cons, List.cons.injEq] at hsame
            obtain ⟨rfl, hsame⟩ := hsame
            obtain ⟨⟨z, hz, hxz⟩, hrest⟩ := List.forall_mem_cons.1 h
            have hy := lookup_of_mem hnodup (hmore.subset (List.mem_cons_self ..))
            dsimp only at hz hy
            rw [hy] at hz
            cases hz
            rw [List.map_cons, List.map_cons, hxz,
              ih hrest more ((List.sublist_cons_self _ _).trans hmore) hsame]
  exact hpairs others (List.Sublist.refl _) hnames

/-! ### Terminals -/

namespace Structured

theorem terminalParts?_toJson (t : Terminal) :
    terminalParts? t.toJson = some (t.value, t.quoted, t.modifier) := by
  obtain ⟨kind, value, quoted, modifier, position⟩ := t
  cases quoted <;> cases modifier <;> rfl

theorem typeName?_terminal (t : Terminal) : typeName? t.toJson = none := by
  obtain ⟨kind, value, quoted, modifier, position⟩ := t
  cases quoted <;> cases modifier <;> rfl

theorem typeName?_node {tag : String} {fields : Parts}
    (h : (nodeName :: fields.map Prod.fst).Nodup) :
    typeName? (Content.node tag fields).toJson = some tag := by
  rw [Content.toJson_node h]
  simp [typeName?, Json.get?, Json.members?, Json.string?]

/-- A terminal that is read keeps what the form of a terminal keeps. -/
theorem bare_of_readTerminal? {d : Dialect} {kinds : List TokenKind} {values : List String}
    {x : Content} (hx : x.Named) {u : Terminal}
    (h : readTerminal? d kinds values x.toJson = some u) :
    (Content.terminal u).bare = x.bare := by
  simp only [readTerminal?, Option.bind_eq_bind, Option.bind_eq_some_iff] at h
  obtain ⟨⟨text, quoted, modifier⟩, hparts, kind, -, hu⟩ := h
  cases x with
  | terminal t =>
      rw [Content.toJson, terminalParts?_toJson] at hparts
      cases hparts
      dsimp only at hu
      split at hu
      · cases hu
        rfl
      · cases hu
  | node tag fields =>
      -- The member that names the type belongs to no terminal.
      rw [Content.toJson_node hx.1] at hparts
      simp [terminalParts?, nodeName] at hparts
  | list xs => cases hparts

end Structured

/-! ### What is read keeps what the form keeps -/

namespace Outline

open Structured

variable {o : Outline} {d : Dialect}

/-- Trees in order have different names. -/
theorem InOrder.named (h : o.InOrder) {x : Content} (hx : x.Ordered o.registry) : x.Named := by
  refine hx.mono fun tag fields hfields => ?_
  refine List.nodup_cons.2 ⟨fun hmem => h.nodeName tag (hfields.subset hmem), ?_⟩
  exact hfields.nodup (List.nodup_dedup _)

/-- The items that are read, one for each that was given. -/
theorem readItems_eq_some {child : Json → Option Content} {policy : Singletons} {items : List Json}
    {sofar xs : List Content} (h : readItems child policy sofar items = some xs) :
    ∃ more, xs = sofar ++ more ∧ List.Forall₂ (fun item x => child item = some x) items more := by
  induction items generalizing sofar with
  | nil =>
      cases h
      exact ⟨[], by simp, .nil⟩
  | cons item rest ih =>
      rw [readItems] at h
      cases hx : child item with
      | none => simp [hx] at h
      | some x =>
          simp only [hx] at h
          split at h
          · cases h
          · obtain ⟨more, rfl, hmore⟩ := ih h
            exact ⟨x :: more, by simp, .cons hx hmore⟩

/-- Of the items that are read the same is kept, if it is of each. -/
theorem map_of_readItems {β : Type} (kept kept' : Content → β) {child : Json → Option Content}
    {policy : Singletons} {xs sofar ys : List Content}
    (hchild : ∀ x ∈ xs, ∀ y, child x.toJson = some y → kept y = kept' x)
    (h : readItems child policy sofar (xs.map Content.toJson) = some ys) :
    ∃ more, ys = sofar ++ more ∧ more.map kept = xs.map kept' := by
  obtain ⟨more, rfl, hmore⟩ := readItems_eq_some h
  refine ⟨more, rfl, ?_⟩
  have hboth := (List.forall₂_and_left ..).2 ⟨hchild, List.forall₂_map_left_iff.1 hmore⟩
  rw [← List.forall₂_eq_eq_eq]
  refine List.forall₂_map_left_iff.2 (List.forall₂_map_right_iff.2 (.flip ?_))
  exact hboth.imp fun x y ⟨hx, hy⟩ => hx y hy

/-- Only the form of a list is read as a list. -/
theorem readList_eq_some {child : List String → Json → Option Content} {types : List String}
    {arity : Arity} {singletons : Singletons} {x y : Content} (hx : x.Named)
    (h : readValue d child (.list types arity singletons) x.toJson = some y) :
    ∃ xs ys, x = .list xs ∧ y = .list ys ∧
      readItems (child types) singletons [] (xs.map Content.toJson) = some ys := by
  cases x with
  | terminal t =>
      have hitems : t.toJson.items? = none := by
        unfold Terminal.toJson
        split <;> rfl
      simp [readValue, Content.toJson, hitems] at h
  | node tag fields => simp [readValue, Content.toJson_node hx.1, Json.items?] at h
  | list xs =>
      simp only [readValue, Content.toJson, Json.items?, Content.itemsJson_eq] at h
      split at h
      · obtain ⟨ys, hys, rfl⟩ := Option.map_eq_some_iff.1 h
        exact ⟨xs, ys, rfl, rfl, hys⟩
      · cases h

theorem bare_of_readValue {child : List String → Json → Option Content} {kind : FieldKind}
    (hnamed : ∀ {x : Content}, x.Ordered o.registry → x.Named)
    (hchild : ∀ types (x : Content), x.Ordered o.registry → ∀ y, child types x.toJson = some y →
      y.bare = x.bare)
    {x y : Content} (hx : x.Ordered o.registry) (h : readValue d child kind x.toJson = some y) :
    y.bare = x.bare := by
  cases kind with
  | terminal kinds values =>
      obtain ⟨u, hu, rfl⟩ := Option.map_eq_some_iff.1 h
      exact bare_of_readTerminal? (hnamed hx) hu
  | node types => exact hchild types x hx y h
  | list types arity singletons =>
      obtain ⟨xs, ys, rfl, rfl, hys⟩ := readList_eq_some (hnamed hx) h
      have hxs := Content.eachItem_iff.1 hx
      obtain ⟨more, rfl, hmore⟩ :=
        map_of_readItems Content.bare Content.bare
          (fun x hmem y hy => hchild types x (hxs x hmem) y hy) hys
      rw [Content.bare, Content.bare, Content.map, Content.map, Content.mapItems_eq,
        Content.mapItems_eq]
      exact congrArg _ hmore

/-- The fields that are read by a shape: those of the shape that are members,
in the order of the shape. -/
theorem readFields_eq_some {child : List String → Json → Option Content}
    {members : List (String × Json)} {shape : Shape} {parts parts' : Parts}
    (h : readFields d child members parts shape = some parts') :
    ∃ more, parts' = parts ++ more ∧
      more.map Prod.fst =
        (shape.map FieldSchema.name).filter (fun name => (members.lookup name).isSome) ∧
      ∀ f ∈ more, ∃ field ∈ shape, field.name = f.1 ∧ ∃ value, members.lookup f.1 = some value ∧
        readValue d child field.kind value = some f.2 := by
  induction shape generalizing parts with
  | nil =>
      cases h
      exact ⟨[], by simp, rfl, by simp⟩
  | cons field rest ih =>
      rw [readFields] at h
      cases hvalue : members.lookup field.name with
      | none =>
          simp only [hvalue] at h
          split at h
          · obtain ⟨more, rfl, hnames, hmore⟩ := ih h
            refine ⟨more, rfl, by simp [hnames, hvalue], fun f hf => ?_⟩
            obtain ⟨field', hfield', hread⟩ := hmore f hf
            exact ⟨field', List.mem_cons_of_mem _ hfield', hread⟩
          · cases h
      | some value =>
          simp only [hvalue] at h
          split at h
          · cases h
          · split at h
            · cases h
            next x hx =>
              obtain ⟨more, rfl, hnames, hmore⟩ := ih h
              refine ⟨(field.name, x) :: more, by simp, by simp [hnames, hvalue], ?_⟩
              refine List.forall_mem_cons.2 ⟨?_, fun f hf => ?_⟩
              · exact ⟨field, List.mem_cons_self, rfl, value, hvalue, hx⟩
              · obtain ⟨field', hfield', hread⟩ := hmore f hf
                exact ⟨field', List.mem_cons_of_mem _ hfield', hread⟩

/-- The members of a form that a shape covers are fields of the shape. -/
theorem mem_of_isCovered {shape : Shape} {members : List (String × Json)} {name : String}
    (h : isCovered shape members = true) (hname : name ∈ members.map Prod.fst)
    (hne : name ≠ nodeName) : name ∈ shape.map FieldSchema.name := by
  obtain ⟨m, hm, rfl⟩ := List.mem_map.1 hname
  have hcover := List.all_eq_true.1 h m hm
  rw [beq_false_of_ne hne, Bool.false_or] at hcover
  obtain ⟨field, hfield⟩ := Option.isSome_iff_exists.1 hcover
  have hfound := List.find?_some hfield
  rw [← beq_iff_eq.1 hfound]
  exact List.mem_map_of_mem (List.mem_of_find?_eq_some hfield)

/-- The fields that are read by a shape are those of the form, each read as a
field of the shape. -/
theorem readShape_eq_some {child : List String → Json → Option Content} {shape : Shape}
    {tag : String} {order : List String} {fields parts : Parts} (hnodup : order.Nodup)
    (hnodeName : nodeName ∉ order) (hshape : (shape.map FieldSchema.name).Sublist order)
    (hfields : (fields.map Prod.fst).Sublist order)
    (h : readShape d child
      ((nodeName, .string tag) :: fields.map fun f => (f.1, f.2.toJson)) shape = some parts) :
    parts.map Prod.fst = fields.map Prod.fst ∧
      ∀ f ∈ parts, ∃ x, fields.lookup f.1 = some x ∧ ∃ field ∈ shape, field.name = f.1 ∧
        readValue d child field.kind x.toJson = some f.2 := by
  rw [readShape] at h
  split at h
  next hcovered =>
    obtain ⟨more, hparts, hnames, hmore⟩ := readFields_eq_some h
    rw [List.nil_append] at hparts
    subst hparts
    have hne {name : String} (hname : name ∈ order) : name ≠ nodeName := by
      rintro rfl
      exact hnodeName hname
    have hlookup {name : String} (hname : name ∈ order) :=
      @Content.lookup_members tag name fields (hne hname)
    have hsame : parts.map Prod.fst = fields.map Prod.fst := by
      apply eq_of_sublist hnodup _ hfields
      · intro name
        rw [hnames, List.mem_filter]
        constructor
        · rintro ⟨hmem, hpresent⟩
          rwa [hlookup (hshape.subset hmem), Option.isSome_map, isSome_lookup_iff] at hpresent
        · intro hmem
          constructor
          · apply mem_of_isCovered hcovered _ (hne (hfields.subset hmem))
            simpa using Or.inr (List.mem_map.1 hmem)
          · rwa [hlookup (hfields.subset hmem), Option.isSome_map, isSome_lookup_iff]
      · rw [hnames]
        exact List.filter_sublist.trans hshape
    refine ⟨hsame, fun f hf => ?_⟩
    have hmem : f.1 ∈ fields.map Prod.fst := hsame ▸ List.mem_map_of_mem hf
    obtain ⟨field, hfield, hname, value, hmember, hread⟩ := hmore f hf
    rw [hlookup (hfields.subset hmem)] at hmember
    obtain ⟨x, hx, rfl⟩ := Option.map_eq_some_iff.1 hmember
    exact ⟨x, hx, field, hfield, hname, hread⟩
  next => cases h

theorem readShapes_eq_some {child : List String → Json → Option Content} {tag : String}
    {members : List (String × Json)} {shapes : List Shape} {y : Content}
    (h : readShapes d child tag members shapes = some y) :
    ∃ shape ∈ shapes, ∃ parts, readShape d child members shape = some parts ∧
      y = .node tag parts := by
  induction shapes with
  | nil => cases h
  | cons shape rest ih =>
      rw [readShapes] at h
      split at h
      next parts hparts =>
        cases h
        exact ⟨shape, List.mem_cons_self, parts, hparts, rfl⟩
      next =>
        obtain ⟨shape', hshape', hparts⟩ := ih h
        exact ⟨shape', List.mem_cons_of_mem _ hshape', hparts⟩

/-- What is read from the form of a tree is a tree of its type with its fields,
each read as a field of a shape. -/
theorem readTree_eq_some (h : o.InOrder) {depth : Nat} {types : List String} {x y : Content}
    (hx : x.Ordered o.registry) (hread : o.readTree (depth + 1) types x.toJson = some y) :
    ∃ tag fields parts schema shape, x = .node tag fields ∧ y = .node tag parts ∧
      (o.registry.schema tag o.options.dialect).1 = .ok schema ∧ shape ∈ schema.shapes ∧
      parts.map Prod.fst = fields.map Prod.fst ∧
      ∀ f ∈ parts, ∃ x, fields.lookup f.1 = some x ∧ ∃ field ∈ shape, field.name = f.1 ∧
        readValue o.options.dialect (o.readTree depth) field.kind x.toJson = some f.2 := by
  cases x with
  | terminal t =>
      simp only [readTree, Content.toJson, typeName?_terminal] at hread
      split at hread <;> simp_all
  | list xs => simp [readTree, Content.toJson, Json.members?] at hread
  | node tag fields =>
      have hnamed := (h.named hx).1
      rw [readTree, typeName?_node hnamed, Content.toJson_node hnamed] at hread
      simp only [Json.members?] at hread
      split at hread
      · cases hread
      · split at hread
        · cases hread
        next schema hschema =>
          obtain ⟨shape, hshape, parts, hparts, rfl⟩ := readShapes_eq_some hread
          obtain ⟨hnames, hfields⟩ := readShape_eq_some (List.nodup_dedup _) (h.nodeName tag)
            (h.shapes tag schema hschema shape hshape) hx.1 hparts
          exact ⟨tag, fields, parts, schema, shape, rfl, rfl, hschema, hshape, hnames, hfields⟩

/-- Whatever is read from the form of a tree keeps what the form keeps. -/
theorem bare_of_readTree (h : o.InOrder) {depth : Nat} {types : List String} {x y : Content}
    (hx : x.Ordered o.registry) (hread : o.readTree depth types x.toJson = some y) :
    y.bare = x.bare := by
  induction depth generalizing types x y with
  | zero => cases hread
  | succ depth ih =>
      obtain ⟨tag, fields, parts, schema, shape, rfl, rfl, -, -, hnames, hparts⟩ :=
        readTree_eq_some h hx hread
      rw [Content.bare, Content.bare, Content.map, Content.map, Content.mapFields_eq,
        Content.mapFields_eq]
      refine congrArg _ (map_eq_of_lookup Content.bare Content.bare hnames
        (hx.1.nodup (List.nodup_dedup _)) fun f hf => ?_)
      obtain ⟨x, hlookup, field, -, -, hvalue⟩ := hparts f hf
      refine ⟨x, hlookup, ?_⟩
      exact bare_of_readValue h.named (fun types x hx y hy => ih hx hy)
        (Content.eachField_iff.1 hx.2 _ (mem_of_lookup hlookup)) hvalue

/-! ### Trees that fit can be read -/

/-- The fields of a shape that fits stand in its order. -/
theorem names_of_fits {has : String → Bool} {shape : Shape} {parts : Parts}
    (h : shape.Fits d has parts) :
    (parts.map Prod.fst).Sublist (shape.map FieldSchema.name) := by
  induction shape generalizing parts with
  | nil =>
      obtain rfl : parts = [] := h
      exact List.Sublist.refl _
  | cons field rest ih =>
      rcases h with ⟨-, h⟩ | ⟨x, more, rfl, -, -, h⟩
      · exact (ih h).cons _
      · exact (ih h).cons_cons _

/-- Trees that fit a shape are in order. -/
theorem InOrder.ordered (h : o.InOrder) {x : Content} (hx : x.Shaped o) :
    x.Ordered o.registry := by
  refine hx.mono fun tag fields hfields => ?_
  obtain ⟨schema, shape, hschema, hshape, hfits⟩ := hfields
  exact (names_of_fits hfits).trans (h.shapes tag schema hschema shape hshape)

theorem exists_readItems {child : Json → Option Content} {xs : List Content}
    (sofar : List Content) (h : ∀ x ∈ xs, ∃ y, child x.toJson = some y) :
    ∃ ys, readItems child .unrestricted sofar (xs.map Content.toJson) = some ys := by
  induction xs generalizing sofar with
  | nil => exact ⟨sofar, rfl⟩
  | cons x xs ih =>
      obtain ⟨⟨y, hy⟩, hxs⟩ := List.forall_mem_cons.1 h
      rw [List.map_cons, readItems, hy]
      exact ih (sofar ++ [y]) hxs

/-- A content that a field admits can be read, if its trees can. -/
theorem exists_readValue {child : List String → Json → Option Content} {kind : FieldKind}
    {x : Content} (hadmits : kind.Admits d x)
    (hnode : ∀ types tag fields, x = .node tag fields → tag ∈ types →
      ∃ y, child types x.toJson = some y)
    (hitem : ∀ types xs, x = .list xs → ∀ item ∈ xs, ∀ tag fields, item = .node tag fields →
      tag ∈ types → ∃ y, child types item.toJson = some y) :
    ∃ y, readValue d child kind x.toJson = some y := by
  cases kind with
  | terminal kinds values =>
      obtain ⟨t, rfl, hread⟩ := hadmits
      exact ⟨.terminal (t.reread d), by rw [readValue, Content.toJson, hread]; rfl⟩
  | node types =>
      obtain ⟨tag, fields, rfl, htag⟩ := hadmits
      exact hnode types tag fields rfl htag
  | list types arity singletons =>
      obtain ⟨xs, rfl, harity, rfl, hxs⟩ := hadmits
      have hitems : ∀ item ∈ xs, ∃ y, child types item.toJson = some y := by
        intro item hmem
        obtain ⟨tag, fields, heq, htag⟩ := hxs item hmem
        exact hitem types xs rfl item hmem tag fields heq htag
      obtain ⟨ys, hys⟩ := exists_readItems [] hitems
      refine ⟨.list ys, ?_⟩
      simp only [readValue, Content.toJson, Json.items?, Content.itemsJson_eq, List.length_map,
        harity, if_true, hys, Option.map_some]

/-- The fields of a shape that fits can be read. Those that are missing are no
members, and the others are members with a value that can be read. -/
theorem exists_readFields {child : List String → Json → Option Content}
    {members : List (String × Json)} {has : String → Bool} {shape : Shape} {parts : Parts}
    (acc : Parts) (hfits : shape.Fits d has parts) (hnodup : (shape.map FieldSchema.name).Nodup)
    (happlies : ∀ field ∈ shape,
      Structured.applies field members = field.condition.all (·.holds has))
    (hmissing : ∀ name ∈ shape.map FieldSchema.name, name ∉ parts.map Prod.fst →
      members.lookup name = none)
    (hpresent : ∀ f ∈ parts, members.lookup f.1 = some f.2.toJson)
    (hread : ∀ f ∈ parts, ∀ kind : FieldKind, kind.Admits d f.2 →
      ∃ y, readValue d child kind f.2.toJson = some y) :
    ∃ parts', readFields d child members acc shape = some parts' := by
  induction shape generalizing acc parts with
  | nil => exact ⟨acc, rfl⟩
  | cons field rest ih =>
      obtain ⟨hfresh, hnodup⟩ := List.nodup_cons.1 hnodup
      obtain ⟨hfield, hrest⟩ := List.forall_mem_cons.1 happlies
      rw [readFields]
      rcases hfits with ⟨hskip, hfits⟩ | ⟨x, more, rfl, hholds, hadmits, hfits⟩
      · have hnot : field.name ∉ parts.map Prod.fst := fun hmem =>
          hfresh ((names_of_fits hfits).subset hmem)
        have hskipped : (field.optional || !Structured.applies field members) = true := by
          rw [hfield]
          rcases hskip with hskip | hskip <;> simp [hskip]
        rw [hmissing field.name (List.mem_cons_self ..) hnot]
        simp only [hskipped, if_true]
        exact ih acc hfits hnodup hrest
          (fun name hname => hmissing name (List.mem_cons_of_mem _ hname)) hpresent hread
      · obtain ⟨hhead, htail⟩ := List.forall_mem_cons.1 hpresent
        obtain ⟨hreadHead, hreadTail⟩ := List.forall_mem_cons.1 hread
        obtain ⟨y, hy⟩ := hreadHead field.kind hadmits
        dsimp only at hhead hy
        rw [hhead, hfield, hholds]
        simp only [Bool.not_true, Bool.false_eq_true, if_false, hy]
        refine ih _ hfits hnodup hrest (fun name hname hnot => ?_) htail hreadTail
        apply hmissing name (List.mem_cons_of_mem _ hname)
        rw [List.map_cons, List.mem_cons, not_or]
        refine ⟨?_, hnot⟩
        rintro rfl
        exact hfresh hname

/-- A tree that fits a shape is read by the first shape that can. -/
theorem exists_readShapes {child : List String → Json → Option Content} (tag : String)
    {members : List (String × Json)} {shapes : List Shape} {shape : Shape} {parts : Parts}
    (hmem : shape ∈ shapes) (h : readShape d child members shape = some parts) :
    ∃ y, readShapes d child tag members shapes = some y := by
  induction shapes with
  | nil => cases hmem
  | cons first rest ih =>
      rw [readShapes]
      cases hfirst : readShape d child members first with
      | some parts' => exact ⟨.node tag parts', rfl⟩
      | none =>
          rcases List.mem_cons.1 hmem with rfl | hmem
          · rw [h] at hfirst
            cases hfirst
          · exact ih hmem

theorem isCovered_of_fits {has : String → Bool} {shape : Shape} {tag : String} {fields : Parts}
    (h : shape.Fits d has fields) :
    isCovered shape ((nodeName, .string tag) :: fields.map fun f => (f.1, f.2.toJson)) = true := by
  apply List.all_eq_true.2
  intro m hm
  rcases List.mem_cons.1 hm with rfl | hm
  · simp
  · obtain ⟨f, hf, rfl⟩ := List.mem_map.1 hm
    obtain ⟨field, hfield, hname⟩ :=
      List.mem_map.1 ((names_of_fits h).subset (List.mem_map_of_mem hf))
    rw [Bool.or_eq_true]
    right
    rw [Shape.field?, List.find?_isSome]
    exact ⟨field, hfield, beq_iff_eq.2 hname⟩

/-- Whether a field applies to a form can be told from the fields of the tree. -/
theorem applies_eq {field : FieldSchema} (tag : String) (fields : Parts)
    (h : ∀ c ∈ field.condition, c.field ≠ nodeName) :
    Structured.applies field ((nodeName, .string tag) :: fields.map fun f => (f.1, f.2.toJson)) =
      field.condition.all (·.holds fun name => (fields.lookup name).isSome) := by
  rw [Structured.applies]
  cases hc : field.condition with
  | none => rfl
  | some c =>
      have hlookup := @Content.lookup_members tag c.field fields (h c hc)
      cases c with
      | present name =>
          simp only [Option.all_some, Condition.holds, Condition.field] at hlookup ⊢
          rw [hlookup, Option.isSome_map]
      | absent name =>
          simp only [Option.all_some, Condition.holds, Condition.field] at hlookup ⊢
          rw [hlookup, Option.isSome_map]

/-- Fields that fit a shape are read by it, if their trees can be read. -/
theorem exists_readShape (h : o.InOrder) {child : List String → Json → Option Content}
    {tag : String} {fields : Parts} {schema : Schema} {shape : Shape}
    (hschema : (o.registry.schema tag o.options.dialect).1 = .ok schema)
    (hshape : shape ∈ schema.shapes)
    (hfits : shape.Fits o.options.dialect (fun name => (fields.lookup name).isSome) fields)
    (hread : ∀ f ∈ fields, ∀ kind : FieldKind, kind.Admits o.options.dialect f.2 →
      ∃ y, readValue o.options.dialect child kind f.2.toJson = some y) :
    ∃ parts, readShape o.options.dialect child
      ((nodeName, .string tag) :: fields.map fun f => (f.1, f.2.toJson)) shape = some parts := by
  have hsub := h.shapes tag schema hschema shape hshape
  have hnodup := hsub.nodup (List.nodup_dedup _)
  have hlookup {name : String} (hname : name ∈ shape.map FieldSchema.name) :
      ((nodeName, Json.string tag) :: fields.map fun f => (f.1, f.2.toJson)).lookup name =
        (fields.lookup name).map Content.toJson := by
    apply Content.lookup_members
    rintro rfl
    exact h.nodeName tag (hsub.subset hname)
  have hnames := names_of_fits hfits
  rw [readShape, if_pos (isCovered_of_fits hfits)]
  apply exists_readFields [] hfits hnodup
  · intro field hfield
    exact applies_eq tag fields (h.conditions tag schema hschema shape hshape field hfield)
  · intro name hname hnot
    rw [hlookup hname]
    cases hl : fields.lookup name with
    | none => rfl
    | some x => exact absurd (isSome_lookup_iff.1 (by rw [hl]; rfl)) hnot
  · intro f hf
    rw [hlookup (hnames.subset (List.mem_map_of_mem hf)), lookup_of_mem (hnames.nodup hnodup) hf]
    rfl
  · exact hread

/-- A tree that fits the shapes of its types can be read. -/
theorem exists_readTree (h : o.InOrder) {depth : Nat} {types : List String} {tag : String}
    {fields : Parts} (hx : (Content.node tag fields).Shaped o) (htag : tag ∈ types)
    (hdepth : (Content.node tag fields).height ≤ depth) :
    ∃ y, o.readTree depth types (Content.node tag fields).toJson = some y := by
  induction depth generalizing types tag fields with
  | zero => exact absurd hdepth (Nat.not_succ_le_zero _)
  | succ depth ih =>
      have hnamed := (h.named (h.ordered hx)).1
      obtain ⟨⟨schema, shape, hschema, hshape, hfits⟩, hfields⟩ := hx
      have hheight : ∀ f ∈ fields, f.2.height ≤ depth :=
        Forest.heightFields_le.1 (Nat.le_of_succ_le_succ hdepth)
      have hvalue : ∀ f ∈ fields, ∀ kind : FieldKind, kind.Admits o.options.dialect f.2 →
          ∃ y, readValue o.options.dialect (o.readTree depth) kind f.2.toJson = some y := by
        intro f hf kind hadmits
        have hshaped := Content.eachField_iff.1 hfields f hf
        have hle := hheight f hf
        apply exists_readValue hadmits
        · intro types tag fields heq htag
          rw [heq] at hshaped hle ⊢
          exact ih hshaped htag hle
        · intro types xs heq item hmem tag fields hitem htag
          rw [heq] at hshaped hle
          have hitemShaped := Content.eachItem_iff.1 hshaped item hmem
          have hitemLe := Forest.heightItems_le.1 hle item hmem
          rw [hitem] at hitemShaped hitemLe ⊢
          exact ih hitemShaped htag hitemLe
      obtain ⟨parts, hparts⟩ := exists_readShape h hschema hshape hfits hvalue
      obtain ⟨y, hy⟩ := exists_readShapes tag hshape hparts
      refine ⟨y, ?_⟩
      rw [readTree, typeName?_node hnamed, Content.toJson_node hnamed]
      simp only [Json.members?, List.contains_iff_mem.2 htag, Bool.not_true, Bool.false_eq_true,
        if_false, hschema]
      exact hy

end Outline

end DualSql
