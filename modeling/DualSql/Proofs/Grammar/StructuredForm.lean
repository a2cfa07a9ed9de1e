import DualSql.Grammar.Structured
import DualSql.Proofs.Grammar.Content
import DualSql.Proofs.Lookup

/-! # The structured form of a tree

The structured form of a node is that of its tree, and it keeps everything of
the tree but the kinds and the places of its terminals.

Main definitions: `Content.toJson`, `Content.bare` and `Content.Each`. Main
results: `Forest.toJson_eq`, and `Content.same_of_bare`, trees of which the
same is kept read the same. -/

namespace DualSql

/-- A terminal without its kind and its place. -/
def Terminal.bare (t : Terminal) : Terminal :=
  { t with kind := .identifier, position := ⟨0, 0⟩ }

namespace Content

mutual

/-- The structured form of a content. -/
def toJson : Content → Json
  | terminal t => t.toJson
  | node tag fields => .ofMembers ((nodeName, .string tag) :: membersJson fields)
  | list items => .array (itemsJson items)

/-- The structured forms of fields. -/
def membersJson : List (String × Content) → List (String × Json)
  | [] => []
  | (name, x) :: rest => (name, x.toJson) :: membersJson rest

/-- The structured forms of items. -/
def itemsJson : List Content → List Json
  | [] => []
  | x :: rest => x.toJson :: itemsJson rest

end

/-- What the structured form keeps. -/
abbrev bare (x : Content) : Content :=
  x.map Terminal.bare

mutual

/-- Every tree in a content has a property. -/
def Each (P : String → List (String × Content) → Prop) : Content → Prop
  | terminal _ => True
  | node tag fields => P tag fields ∧ EachField P fields
  | list items => EachItem P items

/-- Every tree in some fields has a property. -/
def EachField (P : String → List (String × Content) → Prop) : List (String × Content) → Prop
  | [] => True
  | (_, x) :: rest => x.Each P ∧ EachField P rest

/-- Every tree in some items has a property. -/
def EachItem (P : String → List (String × Content) → Prop) : List Content → Prop
  | [] => True
  | x :: rest => x.Each P ∧ EachItem P rest

end

theorem membersJson_eq (fields : List (String × Content)) :
    membersJson fields = fields.map fun f => (f.1, f.2.toJson) := by
  induction fields with
  | nil => rfl
  | cons f rest ih => rw [membersJson, ih, List.map_cons]

theorem itemsJson_eq (items : List Content) : itemsJson items = items.map toJson := by
  induction items with
  | nil => rfl
  | cons x rest ih => rw [itemsJson, ih, List.map_cons]

section

variable {P Q : String → List (String × Content) → Prop}

theorem eachField_iff {fields : List (String × Content)} :
    EachField P fields ↔ ∀ f ∈ fields, f.2.Each P := by
  induction fields with
  | nil => simp [EachField]
  | cons f rest ih => simp [EachField, ih]

theorem eachItem_iff {items : List Content} : EachItem P items ↔ ∀ x ∈ items, x.Each P := by
  induction items with
  | nil => simp [EachItem]
  | cons x rest ih => simp [EachItem, ih]

mutual

theorem each_of_forall (h : ∀ tag fields, P tag fields) : (x : Content) → x.Each P
  | terminal _ => trivial
  | node tag fields => ⟨h tag fields, eachField_of_forall h fields⟩
  | list items => eachItem_of_forall h items

theorem eachField_of_forall (h : ∀ tag fields, P tag fields) :
    (fields : List (String × Content)) → EachField P fields
  | [] => trivial
  | (_, x) :: rest => ⟨each_of_forall h x, eachField_of_forall h rest⟩

theorem eachItem_of_forall (h : ∀ tag fields, P tag fields) :
    (items : List Content) → EachItem P items
  | [] => trivial
  | x :: rest => ⟨each_of_forall h x, eachItem_of_forall h rest⟩

end

mutual

theorem Each.mono (h : ∀ tag fields, P tag fields → Q tag fields) :
    {x : Content} → x.Each P → x.Each Q
  | terminal _, _ => trivial
  | node tag fields, ⟨hnode, hfields⟩ => ⟨h tag fields hnode, EachField.mono h hfields⟩
  | list _, hitems => EachItem.mono h hitems

theorem EachField.mono (h : ∀ tag fields, P tag fields → Q tag fields) :
    {fields : List (String × Content)} → EachField P fields → EachField Q fields
  | [], _ => trivial
  | _ :: _, ⟨hx, hrest⟩ => ⟨Each.mono h hx, EachField.mono h hrest⟩

theorem EachItem.mono (h : ∀ tag fields, P tag fields → Q tag fields) :
    {items : List Content} → EachItem P items → EachItem Q items
  | [], _ => trivial
  | _ :: _, ⟨hx, hrest⟩ => ⟨Each.mono h hx, EachItem.mono h hrest⟩

end

mutual

theorem Each.and : {x : Content} → x.Each P → x.Each Q →
    x.Each fun tag fields => P tag fields ∧ Q tag fields
  | terminal _, _, _ => trivial
  | node _ _, ⟨hp, hps⟩, ⟨hq, hqs⟩ => ⟨⟨hp, hq⟩, EachField.and hps hqs⟩
  | list _, hps, hqs => EachItem.and hps hqs

theorem EachField.and : {fields : List (String × Content)} → EachField P fields →
    EachField Q fields → EachField (fun tag fields => P tag fields ∧ Q tag fields) fields
  | [], _, _ => trivial
  | _ :: _, ⟨hp, hps⟩, ⟨hq, hqs⟩ => ⟨Each.and hp hq, EachField.and hps hqs⟩

theorem EachItem.and : {items : List Content} → EachItem P items → EachItem Q items →
    EachItem (fun tag fields => P tag fields ∧ Q tag fields) items
  | [], _, _ => trivial
  | _ :: _, ⟨hp, hps⟩, ⟨hq, hqs⟩ => ⟨Each.and hp hq, EachItem.and hps hqs⟩

end

end

/-- What every tree in some fields has, the tree of each child has. -/
theorem EachField.child {P : String → List (String × Content) → Prop} {g : NodeId → Content}
    {fields : Fields} (h : EachField P (fields.contents g)) {id : NodeId}
    (hid : id ∈ fields.children) : (g id).Each P := by
  obtain ⟨f, hf, hid⟩ := List.mem_flatMap.1 hid
  have hvalue := eachField_iff.1 h _ (List.mem_map_of_mem hf)
  generalize f.2 = value at hid hvalue
  cases value with
  | terminal t => cases hid
  | node child =>
      obtain rfl := List.mem_singleton.1 hid
      exact hvalue
  | list ids => exact eachItem_iff.1 hvalue _ (List.mem_map_of_mem hid)

mutual

/-- Whether every tree in a content has a property can be decided tree by tree. -/
def decidableEach (P : String → List (String × Content) → Prop)
    [∀ tag fields, Decidable (P tag fields)] : (x : Content) → Decidable (x.Each P)
  | terminal _ => .isTrue trivial
  | node _ fields =>
    haveI := decidableEachField P fields
    inferInstanceAs (Decidable (_ ∧ _))
  | list items => decidableEachItem P items

/-- The fields one after the other. -/
def decidableEachField (P : String → List (String × Content) → Prop)
    [∀ tag fields, Decidable (P tag fields)] :
    (fields : List (String × Content)) → Decidable (EachField P fields)
  | [] => .isTrue trivial
  | (_, x) :: rest =>
    haveI := decidableEach P x
    haveI := decidableEachField P rest
    inferInstanceAs (Decidable (_ ∧ _))

/-- The items one after the other. -/
def decidableEachItem (P : String → List (String × Content) → Prop)
    [∀ tag fields, Decidable (P tag fields)] :
    (items : List Content) → Decidable (EachItem P items)
  | [] => .isTrue trivial
  | x :: rest =>
    haveI := decidableEach P x
    haveI := decidableEachItem P rest
    inferInstanceAs (Decidable (_ ∧ _))

end

instance (P : String → List (String × Content) → Prop) [∀ tag fields, Decidable (P tag fields)]
    (x : Content) : Decidable (x.Each P) :=
  decidableEach P x

/-- Trees whose fields have different names. -/
abbrev Distinct : Content → Prop :=
  Each fun _ fields => (fields.map Prod.fst).Nodup

/-- Trees whose fields have different names, none of them that of the type. -/
abbrev Named : Content → Prop :=
  Each fun _ fields => (nodeName :: fields.map Prod.fst).Nodup

theorem Named.distinct {x : Content} (h : x.Named) : x.Distinct :=
  h.mono fun _ _ hnames => (List.nodup_cons.1 hnames).2

/-! ### What is kept -/

mutual

/-- The structured form depends on what it keeps alone. -/
theorem toJson_of_bare : (x : Content) → x.bare.toJson = x.toJson
  | terminal _ => rfl
  | node tag fields => by
      rw [bare, map, toJson, toJson, membersJson_of_bare fields]
  | list items => by
      rw [bare, map, toJson, toJson, itemsJson_of_bare items]

theorem membersJson_of_bare : (fields : List (String × Content)) →
    membersJson (mapFields Terminal.bare fields) = membersJson fields
  | [] => rfl
  | (name, x) :: rest => by
      rw [mapFields, membersJson, membersJson, toJson_of_bare x, membersJson_of_bare rest]

theorem itemsJson_of_bare : (items : List Content) →
    itemsJson (mapItems Terminal.bare items) = itemsJson items
  | [] => rfl
  | x :: rest => by
      rw [mapItems, itemsJson, itemsJson, toJson_of_bare x, itemsJson_of_bare rest]

end

theorem toJson_congr {x y : Content} (h : x.bare = y.bare) : x.toJson = y.toJson := by
  rw [← toJson_of_bare x, h, toJson_of_bare y]

end Content

theorem Terminal.sameAs_of_bare {t u : Terminal} (h : t.bare = u.bare) : t.sameAs u = true := by
  simp only [bare, Terminal.mk.injEq, true_and, and_true] at h
  obtain ⟨hvalue, hquoted, hmodifier⟩ := h
  simp [sameAs, hvalue, hquoted, hmodifier]

namespace Content

mutual

/-- Trees of which the same is kept read the same. -/
theorem same_of_bare : {x y : Content} → x.Distinct → x.bare = y.bare → x.same y = true
  | terminal t, terminal u, _, h => by
      rw [same]
      exact Terminal.sameAs_of_bare (by simpa [map] using h)
  | node tag fields, node tag' others, hx, h => by
      simp only [map, Content.node.injEq] at h
      obtain ⟨rfl, hfields⟩ := h
      have hlength : fields.length = others.length := by
        simpa [mapFields_eq] using congrArg List.length hfields
      rw [same, beq_self_eq_true, hlength, beq_self_eq_true, Bool.true_and, Bool.true_and]
      refine sameFields_of_bare hx.2 fun f hf => ?_
      have hbare := lookup_of_mapFields hfields f.1
      rw [lookup_of_mem hx.1 hf, Option.map_some] at hbare
      obtain ⟨y, hy, hxy⟩ := Option.map_eq_some_iff.1 hbare.symm
      exact ⟨y, hy, hxy.symm⟩
  | list xs, list ys, hx, h => by
      simp only [map, Content.list.injEq] at h
      have hlength : xs.length = ys.length := by
        simpa [mapItems_eq] using congrArg List.length h
      rw [same, hlength, beq_self_eq_true, Bool.true_and]
      exact sameItems_of_bare hx h

theorem sameFields_of_bare : {fields others : List (String × Content)} →
    EachField (fun _ fields => (fields.map Prod.fst).Nodup) fields →
    (∀ f ∈ fields, ∃ y, others.lookup f.1 = some y ∧ f.2.bare = y.bare) →
    sameFields fields others = true
  | [], _, _, _ => rfl
  | (name, x) :: rest, others, ⟨hx, hrest⟩, h => by
      obtain ⟨⟨y, hy, hbare⟩, hothers⟩ := List.forall_mem_cons.1 h
      dsimp only at hy
      rw [sameFields, hy]
      dsimp only
      rw [same_of_bare hx hbare, sameFields_of_bare hrest hothers, Bool.true_and]

theorem sameItems_of_bare : {xs ys : List Content} →
    EachItem (fun _ fields => (fields.map Prod.fst).Nodup) xs →
    mapItems Terminal.bare xs = mapItems Terminal.bare ys → sameItems xs ys = true
  | [], ys, _, _ => by cases ys <;> rfl
  | x :: xs, [], _, _ => rfl
  | x :: xs, y :: ys, ⟨hx, hrest⟩, h => by
      simp only [mapItems, List.cons.injEq] at h
      rw [sameItems, same_of_bare hx h.1, sameItems_of_bare hrest h.2, Bool.true_and]

end

theorem names_mapFields (g : Terminal → Terminal) (fields : List (String × Content)) :
    (mapFields g fields).map Prod.fst = fields.map Prod.fst := by
  rw [mapFields_eq, List.map_map]
  rfl

mutual

theorem named_map (g : Terminal → Terminal) : (x : Content) → ((x.map g).Named ↔ x.Named)
  | terminal _ => Iff.rfl
  | node _ fields => by
      simp only [map, Named, Each, names_mapFields, named_mapFields g fields]
  | list items => by
      simp only [map, Named, Each, named_mapItems g items]

theorem named_mapFields (g : Terminal → Terminal) : (fields : List (String × Content)) →
    (EachField (fun _ fields => (nodeName :: fields.map Prod.fst).Nodup) (mapFields g fields) ↔
      EachField (fun _ fields => (nodeName :: fields.map Prod.fst).Nodup) fields)
  | [] => Iff.rfl
  | (_, x) :: rest => and_congr (named_map g x) (named_mapFields g rest)

theorem named_mapItems (g : Terminal → Terminal) : (items : List Content) →
    (EachItem (fun _ fields => (nodeName :: fields.map Prod.fst).Nodup) (mapItems g items) ↔
      EachItem (fun _ fields => (nodeName :: fields.map Prod.fst).Nodup) items)
  | [] => Iff.rfl
  | x :: rest => and_congr (named_map g x) (named_mapItems g rest)

end

theorem Named.of_bare {x y : Content} (hx : x.Named) (h : x.bare = y.bare) : y.Named := by
  rw [← named_map Terminal.bare, ← bare, ← h, bare, named_map]
  exact hx

end Content

/-! ### Objects -/

namespace Json

theorem insertMember_of_not_mem {key : String} {value : Json} {members : List (String × Json)}
    (h : key ∉ members.map Prod.fst) :
    insertMember key value members = members ++ [(key, value)] := by
  induction members with
  | nil => rfl
  | cons m rest ih =>
      obtain ⟨k, v⟩ := m
      simp only [List.map_cons, List.mem_cons, not_or] at h
      rw [insertMember, if_neg (Ne.symm h.1), ih h.2, List.cons_append]

/-- Members with different names are kept as they are. -/
theorem ofMembers_of_nodup {members : List (String × Json)} (h : (members.map Prod.fst).Nodup) :
    ofMembers members = object members := by
  have hfold (rest acc : List (String × Json)) (hnodup : ((acc ++ rest).map Prod.fst).Nodup) :
      rest.foldl (fun acc m => insertMember m.1 m.2 acc) acc = acc ++ rest := by
    induction rest generalizing acc with
    | nil => rw [List.foldl_nil, List.append_nil]
    | cons m rest ih =>
        have hnew : m.1 ∉ acc.map Prod.fst := by
          intro hmem
          rw [List.map_append, List.nodup_append] at hnodup
          exact hnodup.2.2 m.1 hmem m.1 (by simp) rfl
        rw [List.foldl_cons, insertMember_of_not_mem hnew, ih _ (by simpa using hnodup)]
        simp
  rw [ofMembers, hfold members [] (by simpa using h), List.nil_append]

end Json

namespace Content

/-- The members of the structured form of a tree. -/
theorem toJson_node {tag : String} {fields : List (String × Content)}
    (h : (nodeName :: fields.map Prod.fst).Nodup) :
    (node tag fields).toJson =
      .object ((nodeName, .string tag) :: fields.map fun f => (f.1, f.2.toJson)) := by
  rw [toJson, membersJson_eq, Json.ofMembers_of_nodup]
  simpa [Function.comp_def] using h

/-- The member of a field in the structured form of a tree. -/
theorem lookup_members {tag name : String} (fields : List (String × Content))
    (h : name ≠ nodeName) :
    (((nodeName, Json.string tag) :: fields.map fun f => (f.1, f.2.toJson)).lookup name) =
      (fields.lookup name).map toJson := by
  rw [List.lookup_cons, beq_false_of_ne h]
  induction fields with
  | nil => rfl
  | cons f rest ih =>
      obtain ⟨n, x⟩ := f
      simp only [List.map_cons, List.lookup_cons] at ih ⊢
      split
      · rfl
      · exact ih

end Content

namespace Forest

variable {f : Forest} {least : Nat}

theorem toJsonTo_eq (h : f.Descends least) {depth id : Nat} (hl : least ≤ id) (hd : id < depth) :
    f.toJsonTo depth id = (f.content id).toJson := by
  induction depth generalizing id with
  | zero => exact absurd hd (Nat.not_lt_zero id)
  | succ depth ih =>
      rw [content_eq h hl, Content.toJson, Content.membersJson_eq, toJsonTo, Fields.contents,
        List.map_map]
      congr 2
      apply List.map_congr_left
      rintro ⟨name, value⟩ hfield
      have hchild (child : Nat) (hc : child ∈ value.children) :
          f.toJsonTo depth child = (f.content child).toJson := by
        obtain ⟨hle, hlt⟩ := h id hl child (List.mem_flatMap.2 ⟨_, hfield, hc⟩)
        exact ih hle (by omega)
      simp only [Function.comp_apply, Prod.mk.injEq, true_and]
      cases value with
      | terminal t => rfl
      | node child => exact hchild child (List.mem_singleton.2 rfl)
      | list ids =>
          simp only [valueToJson, FieldValue.content, Content.toJson, Content.itemsJson_eq,
            List.map_map]
          congr 1
          apply List.map_congr_left
          intro child hc
          exact hchild child hc

/-- The structured form of a node is that of its tree. -/
theorem toJson_eq (h : f.Descends least) {id : Nat} (hl : least ≤ id) (hid : id < f.size) :
    f.toJson id = (f.content id).toJson :=
  toJsonTo_eq h hl hid

end Forest

end DualSql
