import DualSql.Grammar.Items

/-! # The trees that numbers stand for

A forest names its nodes by numbers. The content of a node is the tree itself:
its type and its fields, with the content of its children in place of their
numbers.

Main definitions: `Content`, `Content.unwrapped`, the tree without nodes for
brackets, `Forest.content`, and `Forest.Grows`, the way in which a forest changes
while nodes are made. Main results: content survives
growth, and dropping the new nodes undoes it.

## Implementation notes

Children are made before their parents, so a number bounds the depth of its
tree. -/

namespace DualSql

/-- What a field holds, trees included. -/
inductive Content where
  | terminal (t : Terminal)
  | node (tag : String) (fields : List (String × Content))
  | list (items : List Content)

namespace Content

/-- The type of a tree; empty for other content. -/
def tag : Content → String
  | node tag _ => tag
  | _ => ""

/-- The fields of a tree; none for other content. -/
def fields : Content → List (String × Content)
  | node _ fields => fields
  | _ => []

mutual

/-- Whether two contents read the same; places do not count. -/
def same : Content → Content → Bool
  | terminal x, terminal y => x.sameAs y
  | node tag fields, node tag' fields' =>
    tag == tag' && fields.length == fields'.length && sameFields fields fields'
  | list xs, list ys => xs.length == ys.length && sameItems xs ys
  | _, _ => false

/-- Whether every field reads the same as the one of its name in another list. -/
def sameFields : List (String × Content) → List (String × Content) → Bool
  | [], _ => true
  | (name, value) :: rest, others =>
    (match others.lookup name with
      | none => false
      | some theirs => value.same theirs) && sameFields rest others

/-- Whether items read the same, as far as both lists go. -/
def sameItems : List Content → List Content → Bool
  | x :: xs, y :: ys => x.same y && sameItems xs ys
  | _, _ => true

end

mutual

/-- The number of trees on the longest way down. -/
def height : Content → Nat
  | terminal _ => 0
  | node _ fields => heightFields fields + 1
  | list items => heightItems items

/-- The greatest height in several fields. -/
def heightFields : List (String × Content) → Nat
  | [] => 0
  | (_, x) :: rest => max x.height (heightFields rest)

/-- The greatest height of several items. -/
def heightItems : List Content → Nat
  | [] => 0
  | x :: rest => max x.height (heightItems rest)

end

mutual

/-- A content with other terminals. -/
def map (g : Terminal → Terminal) : Content → Content
  | terminal t => .terminal (g t)
  | node tag fields => .node tag (mapFields g fields)
  | list items => .list (mapItems g items)

/-- Fields with other terminals. -/
def mapFields (g : Terminal → Terminal) : List (String × Content) → List (String × Content)
  | [] => []
  | (name, x) :: rest => (name, x.map g) :: mapFields g rest

/-- Items with other terminals. -/
def mapItems (g : Terminal → Terminal) : List Content → List Content
  | [] => []
  | x :: rest => x.map g :: mapItems g rest

end

mutual

/-- The terminals of a content, from left to right. -/
def terminals : Content → List Terminal
  | terminal t => [t]
  | node _ fields => fieldTerminals fields
  | list items => itemTerminals items

/-- The terminals of fields, from left to right. -/
def fieldTerminals : List (String × Content) → List Terminal
  | [] => []
  | (_, x) :: rest => x.terminals ++ fieldTerminals rest

/-- The terminals of items, from left to right. -/
def itemTerminals : List Content → List Terminal
  | [] => []
  | x :: rest => x.terminals ++ itemTerminals rest

end

mutual

/-- Content without its nodes for brackets. -/
def unwrapped : Content → Content
  | terminal t => terminal t
  | node tag fields =>
    match tag == "ParenExpr", unwrappedFields fields with
    | true, [(_, inner)] => inner
    | _, fields => node tag fields
  | list items => list (unwrappedItems items)

/-- Fields without nodes for brackets. -/
def unwrappedFields : List (String × Content) → List (String × Content)
  | [] => []
  | (name, value) :: rest => (name, value.unwrapped) :: unwrappedFields rest

/-- Items without nodes for brackets. -/
def unwrappedItems : List Content → List Content
  | [] => []
  | item :: rest => item.unwrapped :: unwrappedItems rest

end

/-- Whether a tree repeats an item of a list. -/
def repeats (policy : Singletons) (items : List Content) (x : Content) : Bool :=
  match policy with
  | .unrestricted => false
  | .byType => items.any fun item => item.tag == x.tag
  | .byValue => items.any fun item => item.same x

theorem sameFields_iff {fields others : List (String × Content)} :
    sameFields fields others = true ↔
      ∀ f ∈ fields, ∃ y, others.lookup f.1 = some y ∧ f.2.same y = true := by
  induction fields with
  | nil => simp [sameFields]
  | cons f rest ih =>
      rw [sameFields, Bool.and_eq_true, ih, List.forall_mem_cons]
      apply and_congr_left
      intro _
      cases others.lookup f.1 <;> simp

theorem mapFields_eq (g : Terminal → Terminal) (fields : List (String × Content)) :
    mapFields g fields = fields.map fun f => (f.1, f.2.map g) := by
  induction fields with
  | nil => rfl
  | cons f rest ih => rw [mapFields, ih, List.map_cons]

theorem mapItems_eq (g : Terminal → Terminal) (items : List Content) :
    mapItems g items = items.map (Content.map g) := by
  induction items with
  | nil => rfl
  | cons x rest ih => rw [mapItems, ih, List.map_cons]

theorem fieldTerminals_eq (fields : List (String × Content)) :
    fieldTerminals fields = fields.flatMap fun f => f.2.terminals := by
  induction fields with
  | nil => rfl
  | cons f rest ih => rw [fieldTerminals, ih, List.flatMap_cons]

theorem tag_map (g : Terminal → Terminal) (x : Content) : (x.map g).tag = x.tag := by
  cases x <;> rfl

/-- Where two lists of fields come to the same, so do the fields of a name. -/
theorem lookup_of_mapFields {g : Terminal → Terminal} {fields others : List (String × Content)}
    (h : mapFields g fields = mapFields g others) (name : String) :
    (fields.lookup name).map (Content.map g) = (others.lookup name).map (Content.map g) := by
  induction fields generalizing others with
  | nil =>
      cases others with
      | nil => rfl
      | cons f others => cases h
  | cons f fields ih =>
      cases others with
      | nil => cases h
      | cons f' others =>
          obtain ⟨n, x⟩ := f
          obtain ⟨m, y⟩ := f'
          simp only [mapFields, List.cons.injEq, Prod.mk.injEq] at h
          obtain ⟨⟨rfl, hxy⟩, hrest⟩ := h
          simp only [List.lookup_cons]
          split
          · rw [Option.map_some, Option.map_some, hxy]
          · exact ih hrest

mutual

theorem map_map (g h : Terminal → Terminal) : (x : Content) →
    (x.map g).map h = x.map fun t => h (g t)
  | terminal _ => rfl
  | node tag fields => by rw [map, map, map, map_mapFields g h fields]
  | list items => by rw [map, map, map, map_mapItems g h items]

theorem map_mapFields (g h : Terminal → Terminal) : (fields : List (String × Content)) →
    mapFields h (mapFields g fields) = mapFields (fun t => h (g t)) fields
  | [] => rfl
  | (_, x) :: rest => by
      rw [mapFields, mapFields, mapFields, map_map g h x, map_mapFields g h rest]

theorem map_mapItems (g h : Terminal → Terminal) : (items : List Content) →
    mapItems h (mapItems g items) = mapItems (fun t => h (g t)) items
  | [] => rfl
  | x :: rest => by
      rw [mapItems, mapItems, mapItems, map_map g h x, map_mapItems g h rest]

end

mutual

/-- The terminals of a content alone decide what becomes of it. -/
theorem map_congr {g h : Terminal → Terminal} : (x : Content) →
    (∀ t ∈ x.terminals, g t = h t) → x.map g = x.map h
  | terminal t, heq => congrArg _ (heq t (List.mem_singleton_self t))
  | node _ fields, heq => congrArg _ (mapFields_congr fields heq)
  | list items, heq => congrArg _ (mapItems_congr items heq)

theorem mapFields_congr {g h : Terminal → Terminal} : (fields : List (String × Content)) →
    (∀ t ∈ fieldTerminals fields, g t = h t) → mapFields g fields = mapFields h fields
  | [], _ => rfl
  | (_, x) :: rest, heq => by
      rw [mapFields, mapFields, map_congr x fun t ht => heq t (List.mem_append_left _ ht),
        mapFields_congr rest fun t ht => heq t (List.mem_append_right _ ht)]

theorem mapItems_congr {g h : Terminal → Terminal} : (items : List Content) →
    (∀ t ∈ itemTerminals items, g t = h t) → mapItems g items = mapItems h items
  | [], _ => rfl
  | x :: rest, heq => by
      rw [mapItems, mapItems, map_congr x fun t ht => heq t (List.mem_append_left _ ht),
        mapItems_congr rest fun t ht => heq t (List.mem_append_right _ ht)]

end

end Content

namespace FieldValue

/-- The content of a field, given that of each node. -/
def content (ofNode : NodeId → Content) : FieldValue → Content
  | terminal t => .terminal t
  | node id => ofNode id
  | list ids => .list (ids.map ofNode)

theorem content_congr {g g' : NodeId → Content} {v : FieldValue}
    (h : ∀ id ∈ v.children, g id = g' id) : v.content g = v.content g' := by
  cases v with
  | terminal t => rfl
  | node id => exact h id (by simp [children])
  | list ids => exact congrArg Content.list (List.map_congr_left h)

end FieldValue

namespace Fields

/-- The contents of fields, given that of each node. -/
def contents (ofNode : NodeId → Content) (fields : Fields) : List (String × Content) :=
  fields.map fun f => (f.1, f.2.content ofNode)

theorem contents_congr {g g' : NodeId → Content} {fields : Fields}
    (h : ∀ id ∈ fields.children, g id = g' id) : fields.contents g = fields.contents g' := by
  refine List.map_congr_left fun f hf => ?_
  rw [FieldValue.content_congr fun id hid => h id (List.mem_flatMap.2 ⟨f, hf, hid⟩)]

@[simp] theorem contents_append (g : NodeId → Content) (a b : Fields) :
    (a ++ b).contents g = a.contents g ++ b.contents g :=
  List.map_append ..

@[simp] theorem children_append (a b : Fields) :
    Fields.children (a ++ b) = a.children ++ b.children :=
  List.flatMap_append ..

end Fields

namespace Forest

/-- The tree below a node, down to a depth. -/
def contentTo (f : Forest) : Nat → NodeId → Content
  | 0, _ => .node "" []
  | depth + 1, id => .node (f.tag id) ((f.fields id).contents (f.contentTo depth))

/-- The tree below a node. -/
def content (f : Forest) (id : NodeId) : Content :=
  f.contentTo (id + 1) id

/-- From number `least` on, children were made before their parents and not
before `least`. -/
def Descends (f : Forest) (least : Nat) : Prop :=
  ∀ id : Nat, least ≤ id → ∀ child : Nat, child ∈ (f.fields id).children →
    least ≤ child ∧ child < id

/-- The parents that nodes name exist. -/
def Linked (f : Forest) : Prop :=
  ∀ id parent : Nat, f.parent? id = some parent → parent < f.size

variable {f f' f'' : Forest} {least : Nat}

theorem descends_size (f : Forest) : f.Descends f.size := by
  intro id hid child hchild
  have hnone : f.node? id = none := Array.getElem?_eq_none hid
  simp [fields, hnone, Fields.children] at hchild

/-- A tree is complete at any depth above its number. -/
theorem contentTo_congr (h : f.Descends least) {depth depth' id : Nat} (hl : least ≤ id)
    (hd : id < depth) (hd' : id < depth') : f.contentTo depth id = f.contentTo depth' id := by
  induction depth generalizing id depth' with
  | zero => exact absurd hd (Nat.not_lt_zero id)
  | succ depth ih =>
      cases depth' with
      | zero => exact absurd hd' (Nat.not_lt_zero id)
      | succ depth' =>
          simp only [contentTo]
          congr 1
          apply Fields.contents_congr
          intro child hchild
          obtain ⟨hle, hlt⟩ := h id hl child hchild
          exact ih hle (by omega) (by omega)

theorem content_eq (h : f.Descends least) {id : Nat} (hl : least ≤ id) :
    f.content id = .node (f.tag id) ((f.fields id).contents f.content) := by
  rw [content, contentTo]
  congr 1
  apply Fields.contents_congr
  intro child hchild
  obtain ⟨hle, hlt⟩ := h id hl child hchild
  exact contentTo_congr h hle hlt (Nat.lt_succ_self child)

theorem tag_content (f : Forest) (id : NodeId) : (f.content id).tag = f.tag id := rfl

/-! ### Growth -/

/-- Nodes were added. Those before number `kept` are as they were, and the
others have at most got another parent. -/
structure Grows (kept : Nat) (f f' : Forest) : Prop where
  dialect : f'.dialect = f.dialect
  size : f.size ≤ f'.size
  same : ∀ id < kept, f'.node? id = f.node? id
  shape : ∀ id < f.size, f'.tag id = f.tag id ∧ f'.fields id = f.fields id

theorem Grows.refl (kept : Nat) (f : Forest) : Grows kept f f :=
  ⟨rfl, Nat.le_refl _, fun _ _ => rfl, fun _ _ => ⟨rfl, rfl⟩⟩

theorem Grows.trans {kept : Nat} (h : Grows kept f f') (h' : Grows kept f' f'') :
    Grows kept f f'' where
  dialect := h'.dialect.trans h.dialect
  size := Nat.le_trans h.size h'.size
  same id hid := (h'.same id hid).trans (h.same id hid)
  shape id hid := by
    obtain ⟨ht, hf⟩ := h.shape id hid
    obtain ⟨ht', hf'⟩ := h'.shape id (Nat.lt_of_lt_of_le hid h.size)
    exact ⟨ht'.trans ht, hf'.trans hf⟩

theorem Grows.mono {kept kept' : Nat} (h : Grows kept f f') (hk : kept' ≤ kept) :
    Grows kept' f f' :=
  ⟨h.dialect, h.size, fun id hid => h.same id (Nat.lt_of_lt_of_le hid hk), h.shape⟩

/-- Trees stay what they are while nodes are added. -/
theorem Grows.content {kept : Nat} (h : Grows kept f f') (hf : f.Descends least)
    {id : Nat} (hl : least ≤ id) (hid : id < f.size) : f'.content id = f.content id := by
  suffices ∀ depth id : Nat, least ≤ id → id < f.size →
      f'.contentTo depth id = f.contentTo depth id from this (id + 1) id hl hid
  intro depth
  induction depth with
  | zero => exact fun _ _ _ => rfl
  | succ depth ih =>
      intro id hl hid
      obtain ⟨htag, hfields⟩ := h.shape id hid
      simp only [contentTo, htag, hfields]
      congr 1
      apply Fields.contents_congr
      intro child hchild
      obtain ⟨hle, hlt⟩ := hf id hl child hchild
      exact ih child hle (Nat.lt_trans hlt hid)

/-- The children of fields that were made from number `least` on. -/
def Fresh (f : Forest) (least : Nat) (fields : Fields) : Prop :=
  ∀ child : Nat, child ∈ fields.children → least ≤ child ∧ child < f.size

theorem Grows.contents {kept : Nat} (h : Grows kept f f') (hf : f.Descends least)
    {fields : Fields} (hfields : f.Fresh least fields) :
    fields.contents f'.content = fields.contents f.content :=
  Fields.contents_congr fun id hid => h.content hf (hfields id hid).1 (hfields id hid).2

theorem Fresh.grow {fields : Fields} (hfields : f.Fresh least fields) (h : f.size ≤ f'.size) :
    f'.Fresh least fields :=
  fun child hchild => ⟨(hfields child hchild).1, Nat.lt_of_lt_of_le (hfields child hchild).2 h⟩

theorem Fresh.append {a b : Fields} (ha : f.Fresh least a) (hb : f.Fresh least b) :
    f.Fresh least (a ++ b) := by
  intro child hchild
  rw [Fields.children_append, List.mem_append] at hchild
  rcases hchild with hchild | hchild
  · exact ha child hchild
  · exact hb child hchild

/-! ### Making nodes -/

@[simp] theorem size_setParents (ids : List NodeId) (p : Option NodeId) :
    (f.setParents ids p).size = f.size := by
  induction ids generalizing f with
  | nil => rfl
  | cons id ids ih =>
      rw [setParents, List.foldl_cons]
      exact ih.trans (Array.size_modify ..)

@[simp] theorem dialect_setParents (ids : List NodeId) (p : Option NodeId) :
    (f.setParents ids p).dialect = f.dialect := by
  induction ids generalizing f with
  | nil => rfl
  | cons id ids ih =>
      rw [setParents, List.foldl_cons]
      exact ih

theorem node?_setParents (ids : List NodeId) (p : Option NodeId) (i : Nat) :
    (f.setParents ids p).node? i =
      (f.node? i).map fun n => if i ∈ ids then { n with parent := p } else n := by
  induction ids generalizing f with
  | nil => simp [setParents]
  | cons id ids ih =>
      have hfirst : (f.setParent id p).node? i =
          (f.node? i).map fun n => if i = id then { n with parent := p } else n := by
        simp only [setParent, node?, Array.getElem?_modify]
        by_cases h : i = id
        · subst h; simp
        · simp [h, Ne.symm h]
      rw [setParents, List.foldl_cons]
      refine ih.trans ?_
      rw [hfirst, Option.map_map]
      congr 1
      funext n
      by_cases h₁ : i = id <;> by_cases h₂ : i ∈ ids <;> simp [h₁, h₂]

/-- What a forest is after a node was made of the children in some fields. -/
theorem build_ok {tag : String} {fields : Fields} {id : NodeId}
    (h : f.build tag fields = .ok (id, f')) : id = f.size ∧ f' = (f.append tag fields).2 := by
  unfold build at h
  cases hc : (Fields.children fields).forM f.checkOrphan with
  | error e => simp [hc, bind, Except.bind] at h
  | ok u =>
      simp only [hc, bind, Except.bind, pure, Except.pure, Except.ok.injEq] at h
      exact ⟨congrArg Prod.fst h.symm, congrArg Prod.snd h.symm⟩

section append

variable {tag : String} {fields : Fields}

theorem size_append : (f.append tag fields).2.size = f.size + 1 := by
  have := size_setParents (f := f) (Fields.children fields) (some f.size)
  simp only [append, size, Array.size_push] at this ⊢
  rw [this]

theorem node?_append (i : Nat) :
    (f.append tag fields).2.node? i =
      if i = f.size then some { tag, fields }
      else (f.node? i).map fun n =>
        if i ∈ fields.children then { n with parent := some f.size } else n := by
  rw [← node?_setParents]
  have := size_setParents (f := f) (Fields.children fields) (some f.size)
  simp only [append, node?, size, Array.getElem?_push] at this ⊢
  rw [this]
  rfl

theorem tag_append (i : Nat) :
    (f.append tag fields).2.tag i = if i = f.size then tag else f.tag i := by
  rw [Forest.tag, node?_append]
  split
  · rfl
  · rw [Forest.tag]
    cases f.node? i with
    | none => rfl
    | some n =>
        simp only [Option.map_some, Option.elim_some]
        split <;> rfl

theorem fields_append (i : Nat) :
    (f.append tag fields).2.fields i = if i = f.size then fields else f.fields i := by
  rw [Forest.fields, node?_append]
  split
  · rfl
  · rw [Forest.fields]
    cases f.node? i with
    | none => rfl
    | some n =>
        simp only [Option.map_some, Option.elim_some]
        split <;> rfl

theorem grows_append {kept : Nat} (hk : kept ≤ f.size) (hf : f.Fresh kept fields) :
    Grows kept f (f.append tag fields).2 where
  dialect := dialect_setParents ..
  size := by rw [size_append]; omega
  same id hid := by
    have hne : id ≠ f.size := by omega
    have hnot : id ∉ fields.children := fun hm => by
      have := (hf id hm).1
      omega
    rw [node?_append, if_neg hne]
    simp [hnot]
  shape id hid := by
    have hne : id ≠ f.size := by omega
    simp [tag_append, fields_append, hne]

theorem Descends.append (h : f.Descends least) (hf : f.Fresh least fields) :
    (f.append tag fields).2.Descends least := by
  intro id hl child hchild
  rw [fields_append] at hchild
  split at hchild
  next heq => exact heq ▸ hf child hchild
  next => exact h id hl child hchild

theorem linked_empty (d : Dialect) : Linked { dialect := d } := by
  intro id parent hp
  simp [parent?, node?] at hp

theorem Linked.append (h : f.Linked) : (f.append tag fields).2.Linked := by
  intro id parent hp
  rw [parent?, node?_append] at hp
  rw [size_append]
  split at hp
  · cases hp
  · cases hn : f.node? id with
    | none => simp [hn] at hp
    | some n =>
        rw [hn, Option.map_some, Option.bind_some] at hp
        split at hp
        · obtain rfl : f.size = parent := by simpa using hp
          omega
        · have := h id parent (by rw [parent?, hn]; exact hp)
          omega

theorem content_append (hd : f.Descends least) (hl : least ≤ f.size) (hf : f.Fresh least fields) :
    (f.append tag fields).2.content f.size = .node tag (fields.contents f.content) := by
  rw [content_eq (hd.append hf) hl, tag_append, fields_append, if_pos rfl, if_pos rfl,
    (grows_append hl hf).contents hd hf]

end append

theorem ext_of_node? (hd : f'.dialect = f.dialect) (hn : ∀ id : Nat, f'.node? id = f.node? id) :
    f' = f := by
  cases f
  cases f'
  obtain rfl := hd
  congr 1
  exact Array.ext_getElem? hn

/-- Dropping the nodes that were added gives back the forest. -/
theorem truncate_of_grows (h : f.Linked) (hg : Grows f.size f f') : f'.truncate f.size = f := by
  unfold truncate
  split
  next hle =>
    refine ext_of_node? hg.dialect fun id => ?_
    by_cases hid : id < f.size
    · exact hg.same id hid
    · have hid' : ¬ id < f'.size := by omega
      simp only [node?, size] at hid hid' ⊢
      rw [Array.getElem?_eq_none (by omega), Array.getElem?_eq_none (by omega)]
  next hlt =>
    refine ext_of_node? hg.dialect fun id => ?_
    have htake : (f'.nodes.take f.size)[id]? = f.nodes[id]? := by
      rw [Array.take_eq_extract, Array.getElem?_extract, Nat.zero_add]
      by_cases hid : id < f.size
      · rw [if_pos (by simp only [size] at *; omega)]
        exact hg.same id hid
      · rw [if_neg (by omega), Array.getElem?_eq_none (by simpa [size] using hid)]
    have hlinked := h id
    simp only [parent?, node?] at hlinked ⊢
    rw [Array.getElem?_map, htake]
    cases hn : f.nodes[id]? with
    | none => rfl
    | some n =>
        rw [hn, Option.bind_some] at hlinked
        rw [Option.map_some]
        congr 1
        cases hp : n.parent with
        | none => rw [Option.filter_none, ← hp]
        | some parent =>
            rw [Option.filter_some_pos (by simpa using hlinked parent hp), ← hp]

/-! ### Comparing trees -/

theorem lookup_contents (g : NodeId → Content) (fields : Fields) (name : String) :
    (fields.contents g).lookup name = (fields.lookup name).map (·.content g) := by
  induction fields with
  | nil => rfl
  | cons field rest ih =>
      obtain ⟨n, v⟩ := field
      simp only [Fields.contents, List.map_cons, List.lookup_cons] at ih ⊢
      split
      · rfl
      · exact ih

theorem sameItems_map {same : NodeId → NodeId → Bool} {g g' : NodeId → Content}
    (xs ys : List NodeId) (h : ∀ x ∈ xs, ∀ y ∈ ys, same x y = (g x).same (g' y)) :
    ((xs.zip ys).all fun p => same p.1 p.2) = Content.sameItems (xs.map g) (ys.map g') := by
  induction xs generalizing ys with
  | nil => simp [Content.sameItems]
  | cons x xs ih =>
      cases ys with
      | nil => simp [Content.sameItems]
      | cons y ys =>
          simp only [List.zip_cons_cons, List.all_cons, List.map_cons, Content.sameItems]
          rw [h x (by simp) y (by simp), ih ys]
          exact fun x hx y hy => h x (List.mem_cons_of_mem _ hx) y (List.mem_cons_of_mem _ hy)

section

variable {same : NodeId → NodeId → Bool} {g g' : NodeId → Content}
  (hg : ∀ id, g id = .node (g id).tag (g id).fields)
  (hg' : ∀ id, g' id = .node (g' id).tag (g' id).fields)

include hg hg'

theorem sameValue_eq {a b : FieldValue}
    (h : ∀ x ∈ a.children, ∀ y ∈ b.children, same x y = (g x).same (g' y)) :
    sameValue same a b = (a.content g).same (b.content g') := by
  cases a with
  | terminal t =>
      cases b with
      | terminal u => rfl
      | node y => rw [FieldValue.content, FieldValue.content, hg' y]; rfl
      | list ys => rfl
  | node x =>
      cases b with
      | terminal u => rw [FieldValue.content, FieldValue.content, hg x]; rfl
      | node y => exact h x (by simp [FieldValue.children]) y (by simp [FieldValue.children])
      | list ys => rw [FieldValue.content, FieldValue.content, hg x]; rfl
  | list xs =>
      cases b with
      | terminal u => rfl
      | node y => rw [FieldValue.content, FieldValue.content, hg' y]; rfl
      | list ys =>
          simp only [sameValue, FieldValue.content, Content.same, List.length_map]
          rw [sameItems_map xs ys h]

variable (same) in
theorem sameFields_contents {fields others : Fields}
    (h : ∀ x ∈ fields.children, ∀ y ∈ others.children, same x y = (g x).same (g' y)) :
    (fields.all fun field =>
      match others.lookup field.1 with
      | none => false
      | some theirs => sameValue same field.2 theirs) =
      Content.sameFields (fields.contents g) (others.contents g') := by
  induction fields with
  | nil => rfl
  | cons field rest ih =>
      obtain ⟨name, value⟩ := field
      have hrest := ih fun x hx => h x (by
        simp only [Fields.children, List.flatMap_cons, List.mem_append] at hx ⊢
        exact .inr hx)
      rw [List.all_cons, hrest]
      simp only [Fields.contents, List.map_cons, Content.sameFields]
      have hlookup := lookup_contents g' others name
      simp only [Fields.contents] at hlookup
      rw [hlookup]
      cases hl : others.lookup name with
      | none => rfl
      | some theirs =>
          obtain ⟨l₁, l₂, rfl, -⟩ := List.lookup_eq_some_iff.1 hl
          have hvalue : sameValue same value theirs = (value.content g).same (theirs.content g') := by
            apply sameValue_eq hg hg'
            intro x hx y hy
            refine h x ?_ y ?_
            · simp only [Fields.children, List.flatMap_cons, List.mem_append]
              exact .inl hx
            · simp only [Fields.children, List.flatMap_append, List.flatMap_cons, List.mem_append]
              exact .inr (.inl hy)
          simp only [Option.map_some, hvalue]

end

/-- Comparing nodes is comparing their trees. -/
theorem sameTo_eq {g : Forest} {least' : Nat} (hf : f.Descends least) (hg : g.Descends least')
    {depth a b : Nat} (ha : least ≤ a) (hb : least' ≤ b) (hd : a < depth) :
    f.sameTo g depth a b = (f.content a).same (g.content b) := by
  induction depth generalizing a b with
  | zero => exact absurd hd (Nat.not_lt_zero a)
  | succ depth ih =>
      rw [content_eq hf ha, content_eq hg hb, Content.same, sameTo,
        ← sameFields_contents (f.sameTo g depth) (fun _ => rfl) (fun _ => rfl)]
      · simp only [Fields.contents, List.length_map]
        rfl
      · intro x hx y hy
        obtain ⟨hx, hlt⟩ := hf a ha x hx
        exact ih hx (hg b hb y hy).1 (by omega)

/-- Whether a node repeats an item can be told from their trees. -/
theorem repeats_eq (h : f.Descends least) (policy : Singletons) (items : List NodeId) {id : Nat}
    (hitems : ∀ item : Nat, item ∈ items → least ≤ item ∧ item < f.size) (hid : least ≤ id) :
    policy.repeats f items id = Content.repeats policy (items.map f.content) (f.content id) := by
  cases policy with
  | unrestricted => rfl
  | byType => simp only [Singletons.repeats, Content.repeats, List.any_map]; rfl
  | byValue =>
      have hsame (item : Nat) (hitem : item ∈ items) :
          f.same item f id = (f.content item).same (f.content id) := by
        obtain ⟨hl, hlt⟩ := hitems item hitem
        exact sameTo_eq h h hl hid (by omega)
      rw [Singletons.repeats, Content.repeats, Bool.eq_iff_iff, List.any_eq_true, List.any_eq_true]
      constructor
      · rintro ⟨item, hitem, hs⟩
        exact ⟨_, List.mem_map_of_mem hitem, hsame item hitem ▸ hs⟩
      · rintro ⟨_, hx, hs⟩
        obtain ⟨item, hitem, rfl⟩ := List.mem_map.1 hx
        exact ⟨item, hitem, (hsame item hitem).trans hs⟩

/-! ### Heights -/

theorem heightFields_le {fields : List (String × Content)} {n : Nat} :
    Content.heightFields fields ≤ n ↔ ∀ field ∈ fields, field.2.height ≤ n := by
  induction fields with
  | nil => simp [Content.heightFields]
  | cons field rest ih =>
      rw [Content.heightFields, List.forall_mem_cons, ← ih]
      exact Nat.max_le

theorem heightItems_le {items : List Content} {n : Nat} :
    Content.heightItems items ≤ n ↔ ∀ x ∈ items, x.height ≤ n := by
  induction items with
  | nil => simp [Content.heightItems]
  | cons x rest ih =>
      rw [Content.heightItems, List.forall_mem_cons, ← ih]
      exact Nat.max_le

/-- The number of a node bounds the height of its tree. -/
theorem height_content_le (h : f.Descends least) {id : Nat} (hl : least ≤ id) :
    (f.content id).height ≤ id + 1 := by
  induction id using Nat.strongRecOn with
  | _ id ih =>
      have hchild (child : Nat) (hc : child ∈ (f.fields id).children) :
          (f.content child).height ≤ id := by
        obtain ⟨hle, hlt⟩ := h id hl child hc
        exact Nat.le_trans (ih child hlt hle) hlt
      rw [content_eq h hl, Content.height, Nat.succ_le_succ_iff, heightFields_le]
      intro field hfield
      obtain ⟨⟨name, value⟩, hvalue, rfl⟩ := List.mem_map.1 hfield
      have hmem (child : Nat) (hc : child ∈ value.children) :
          (f.content child).height ≤ id :=
        hchild child (List.mem_flatMap.2 ⟨_, hvalue, hc⟩)
      cases value with
      | terminal t => exact Nat.zero_le _
      | node child => exact hmem child (by simp [FieldValue.children])
      | list ids =>
          apply heightItems_le.2
          intro x hx
          obtain ⟨child, hc, rfl⟩ := List.mem_map.1 hx
          exact hmem child hc

end Forest

end DualSql
