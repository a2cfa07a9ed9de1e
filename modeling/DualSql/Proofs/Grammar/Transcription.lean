import DualSql.Proofs.Grammar.ReadBack
import DualSql.Proofs.Grammar.Reader
import DualSql.Proofs.Json.Members

/-! # Writing undoes reading

What is read from a value has the value as its structured form, up to the order
of members and to the two ways in which a plain terminal can be written. So
nothing of the value is passed over, changed or made up, whatever the grammar.

Main definition: `Json.plain`, a value with its plain terminals as strings. Main
result: `Structured.toJson_of_readAny`.

## Implementation notes

The keys of an object are different, which `Json.Distinct` says of a value. -/

namespace DualSql

/-! ### Plain terminals -/

namespace Json

/-- A terminal with neither quotes nor a modifier as its text, any other without
the remark that it has no quotes. -/
def plainTerminal (members : List (String × Json)) : Json :=
  match members.lookup "value" with
  | some (.string text) =>
    if (members.lookup "quoted").bind bool? = some true ∨ (members.lookup "modifier").isSome then
      .object (members.filter fun m => !(m.1 == "quoted" && m.2.bool? == some false))
    else .string text
  | _ => .object members

mutual

/-- The value with its plain terminals as strings. An object that names no type
is a terminal. -/
def plain : Json → Json
  | array items => .array (plainItems items)
  | object members =>
    if (members.lookup nodeName).isSome then .object (plainMembers members)
    else plainTerminal members
  | j => j

/-- Items with their plain terminals as strings. -/
def plainItems : List Json → List Json
  | [] => []
  | item :: rest => item.plain :: plainItems rest

/-- Members with their plain terminals as strings. -/
def plainMembers : List (String × Json) → List (String × Json)
  | [] => []
  | (key, value) :: rest => (key, value.plain) :: plainMembers rest

end

theorem plainItems_eq (items : List Json) : plainItems items = items.map plain := by
  induction items with
  | nil => rfl
  | cons item rest ih => rw [plainItems, ih, List.map_cons]

theorem plainMembers_eq (members : List (String × Json)) :
    plainMembers members = members.map fun m => (m.1, m.2.plain) := by
  induction members with
  | nil => rfl
  | cons m rest ih => rw [plainMembers, ih, List.map_cons]

theorem lookup_plainMembers (members : List (String × Json)) (key : String) :
    (plainMembers members).lookup key = (members.lookup key).map plain := by
  induction members with
  | nil => rfl
  | cons m rest ih =>
      obtain ⟨k, value⟩ := m
      rw [plainMembers, List.lookup_cons, List.lookup_cons, ih]
      split <;> rfl

end Json

namespace Structured

open Json

/-- What a terminal that is an object has under each key. -/
def terminalMember (text : String) (quoted : Bool) (modifier : Option String) (key : String) :
    Option Json :=
  if key = "value" then some (.string text)
  else if key = "quoted" then if quoted then some (.bool true) else none
  else if key = "modifier" then modifier.map .string
  else none

theorem lookup_terminal (text : String) (quoted : Bool) (modifier : Option String) (key : String) :
    ([("value", Json.string text)] ++ (if quoted then [("quoted", Json.bool true)] else []) ++
      (modifier.map fun m => ("modifier", Json.string m)).toList).lookup key =
      terminalMember text quoted modifier key := by
  unfold terminalMember
  by_cases hvalue : key = "value"
  · simp [hvalue]
  by_cases hquoted : key = "quoted"
  · cases quoted <;> cases modifier <;> simp [hquoted, List.lookup_cons]
  by_cases hmodifier : key = "modifier"
  · cases quoted <;> cases modifier <;> simp [hmodifier, List.lookup_cons]
  · cases quoted <;> cases modifier <;>
      simp [List.lookup_cons, hvalue, hquoted, hmodifier, beq_false_of_ne hvalue,
        beq_false_of_ne hquoted, beq_false_of_ne hmodifier]

/-- What an object has to be to be read as a terminal. -/
theorem terminalParts?_object {members : List (String × Json)} {text : String} {quoted : Bool}
    {modifier : Option String}
    (h : terminalParts? (.object members) = some (text, quoted, modifier)) :
    members.lookup "value" = some (.string text) ∧
      (members.lookup "quoted" = some (.bool quoted) ∨
        members.lookup "quoted" = none ∧ quoted = false) ∧
      members.lookup "modifier" = modifier.map .string ∧
      ∀ m ∈ members, m.1 = "value" ∨ m.1 = "quoted" ∨ m.1 = "modifier" := by
  simp only [terminalParts?, Option.bind_eq_bind, Option.bind_eq_some_iff] at h
  obtain ⟨text', ⟨value, hvalue, htext⟩, quoted', hquoted, modifier', hmodifier, h⟩ := h
  split at h
  next hkeys =>
    cases h
    refine ⟨?_, ?_, ?_, ?_⟩
    · cases value <;> cases htext
      exact hvalue
    · cases hq : members.lookup "quoted" with
      | none =>
          rw [hq] at hquoted
          cases hquoted
          exact .inr ⟨rfl, rfl⟩
      | some flag =>
          rw [hq] at hquoted
          cases flag <;> cases hquoted
          exact .inl rfl
    · cases hm : members.lookup "modifier" with
      | none =>
          rw [hm] at hmodifier
          cases hmodifier
          rfl
      | some mark =>
          rw [hm] at hmodifier
          cases mark <;> cases hmodifier
          rfl
    · simpa using hkeys
  next => cases h

/-- A terminal that is read from an object is written with the members of the
object, up to the remark that it has no quotes. -/
theorem lookup_terminalParts {members : List (String × Json)} {text : String} {quoted : Bool}
    {modifier : Option String} (hnodup : (members.map Prod.fst).Nodup)
    (h : terminalParts? (.object members) = some (text, quoted, modifier)) (key : String) :
    (members.filter fun m => !(m.1 == "quoted" && m.2.bool? == some false)).lookup key =
      terminalMember text quoted modifier key := by
  obtain ⟨htext, hquoted, hmodifier, hkeys⟩ := terminalParts?_object h
  rw [lookup_filter hnodup]
  unfold terminalMember
  by_cases hvalue : key = "value"
  · simp [hvalue, htext]
  by_cases hflag : key = "quoted"
  · subst hflag
    rcases hquoted with hq | ⟨hq, rfl⟩
    · cases quoted <;> simp [hq, bool?]
    · simp [hq]
  by_cases hmark : key = "modifier"
  · cases modifier <;> simp [hmark, hmodifier]
  · have hnone : members.lookup key = none := by
      by_contra hfound
      obtain ⟨value, hfound⟩ := Option.ne_none_iff_exists'.1 hfound
      rcases hkeys _ (mem_of_lookup hfound) with hkey | hkey | hkey
      · exact hvalue hkey
      · exact hflag hkey
      · exact hmark hkey
    simp [hnone, hvalue, hflag, hmark]

/-- A terminal that is read is written as it was given. -/
theorem toJson_of_readTerminal? {d : Dialect} {kinds : List TokenKind} {values : List String}
    {value : Json} {t : Terminal} (hvalue : value.Distinct)
    (h : readTerminal? d kinds values value = some t) : t.toJson.Same value.plain := by
  simp only [readTerminal?, Option.bind_eq_bind, Option.bind_eq_some_iff] at h
  obtain ⟨⟨text, quoted, modifier⟩, hparts, kind, -, ht⟩ := h
  split at ht
  case isFalse => cases ht
  cases ht
  cases value with
  | null | bool | number | array => cases hparts
  | string s =>
      cases hparts
      exact .refl _
  | object members =>
      obtain ⟨htext, hquoted, hmodifier, hkeys⟩ := terminalParts?_object hparts
      have hname : members.lookup nodeName = none := by
        by_contra hfound
        obtain ⟨value, hfound⟩ := Option.ne_none_iff_exists'.1 hfound
        exact absurd (hkeys _ (mem_of_lookup hfound)) (by simp [nodeName])
      have hflag : (members.lookup "quoted").bind bool? = some true ↔ quoted = true := by
        rcases hquoted with hq | ⟨hq, rfl⟩ <;> simp [hq, bool?]
      rw [plain, hname, Option.isSome_none, if_neg (by simp), plainTerminal, htext]
      simp only [hflag, hmodifier, Option.isSome_map]
      rw [Terminal.toJson]
      by_cases hmarked : quoted = true ∨ modifier.isSome = true
      · rw [if_pos hmarked, if_neg (by cases quoted <;> cases modifier <;> simp at hmarked ⊢)]
        refine same_object ?_ ((List.filter_sublist.map _).nodup hvalue.1) fun key => ?_
        · cases quoted <;> cases modifier <;> simp
        · rw [lookup_terminalParts hvalue.1 hparts key, lookup_terminal]
          cases terminalMember text quoted modifier key with
          | none => exact .none
          | some value => exact .some (.refl _)
      · rw [if_neg hmarked, if_pos (by cases quoted <;> cases modifier <;> simp at hmarked ⊢)]
        exact .refl _

end Structured

/-! ### Trees -/

namespace Outline

open Structured Json

variable {o : Outline} {d : Dialect}

/-- Every shape has different fields, none of them named as the type is. -/
def Told (o : Outline) : Prop :=
  ∀ tag schema, (o.registry.schema tag o.options.dialect).1 = .ok schema →
    ∀ shape ∈ schema.shapes, (nodeName :: shape.map FieldSchema.name).Nodup

/-- What a shape holds is written as it was given, if the trees in it are. -/
theorem toJson_of_readValue {child : List String → Json → Option Content} {kind : FieldKind}
    {value : Json} {x : Content} (hvalue : value.Distinct)
    (hchild : ∀ types (item : Json), item.Distinct → ∀ y, child types item = some y →
      y.toJson.Same item.plain)
    (h : readValue d child kind value = some x) : x.toJson.Same value.plain := by
  cases kind with
  | terminal kinds values =>
      obtain ⟨t, ht, rfl⟩ := Option.map_eq_some_iff.1 h
      exact toJson_of_readTerminal? hvalue ht
  | node types => exact hchild types value hvalue x h
  | list types arity singletons =>
      rw [readValue] at h
      cases value with
      | null | bool | number | string | object => cases h
      | array items =>
          simp only [Json.items?] at h
          split at h
          · obtain ⟨xs, hxs, rfl⟩ := Option.map_eq_some_iff.1 h
            obtain ⟨more, rfl, hmore⟩ := readItems_eq_some hxs
            rw [Content.toJson, Content.itemsJson_eq, plain, plainItems_eq]
            refine .array (List.forall₂_map_left_iff.2 (List.forall₂_map_right_iff.2 (.flip ?_)))
            have hboth := (List.forall₂_and_left ..).2 ⟨distinctItems_iff.1 hvalue, hmore⟩
            exact hboth.imp fun item y hread => hchild types item hread.1 y hread.2
          · cases h

/-- The structured form of what is read by a shape has the members that were given. -/
theorem toJson_of_readShape {child : List String → Json → Option Content} {shape : Shape}
    {tag : String} {members : List (String × Json)} {parts : Parts}
    (hshape : (nodeName :: shape.map FieldSchema.name).Nodup)
    (hmembers : (Json.object members).Distinct)
    (hname : members.lookup nodeName = some (.string tag))
    (hchild : ∀ types (item : Json), item.Distinct → ∀ y, child types item = some y →
      y.toJson.Same item.plain)
    (h : readShape d child members shape = some parts) :
    (Content.node tag parts).toJson.Same (Json.object members).plain := by
  rw [readShape] at h
  split at h
  case isFalse => cases h
  next hcovered =>
    obtain ⟨more, hparts, hnames, hmore⟩ := readFields_eq_some h
    rw [List.nil_append] at hparts
    subst hparts
    obtain ⟨hnodup, hvalues⟩ := hmembers
    have hsub : (parts.map Prod.fst).Sublist (shape.map FieldSchema.name) :=
      hnames ▸ List.filter_sublist
    have hparts : (nodeName :: parts.map Prod.fst).Nodup := (hsub.cons_cons nodeName).nodup hshape
    rw [Content.toJson_node hparts, plain, hname, if_pos (by rfl)]
    refine same_object (by simpa [Function.comp_def] using hparts) ?_ fun key => ?_
    · rw [plainMembers_eq, List.map_map]
      exact hnodup
    · rw [lookup_plainMembers]
      by_cases hkey : key = nodeName
      · subst hkey
        rw [hname]
        simpa [plain] using Option.Rel.some (Same.refl (.string tag))
      · rw [Content.lookup_members parts hkey]
        cases hx : parts.lookup key with
        | some x =>
            obtain ⟨field, -, -, value, hvalue, hread⟩ := hmore _ (mem_of_lookup hx)
            have hdistinct := distinctMembers_iff.1 hvalues _ (mem_of_lookup hvalue)
            rw [hvalue]
            exact .some (toJson_of_readValue hdistinct hchild hread)
        | none =>
            cases hvalue : members.lookup key with
            | none => exact .none
            | some value =>
                -- A member that no field was read from is not covered by the shape.
                have hfield := mem_of_isCovered hcovered
                  (List.mem_map_of_mem (mem_of_lookup hvalue)) hkey
                have hpart : key ∈ parts.map Prod.fst := by
                  rw [hnames]
                  exact List.mem_filter.2 ⟨hfield, by simp [hvalue]⟩
                rw [← isSome_lookup_iff, hx] at hpart
                cases hpart

/-- The structured form of what is read is what was given. -/
theorem toJson_of_readTree (htold : o.Told) {depth : Nat} {types : List String} {tree : Json}
    {x : Content} (htree : tree.Distinct) (h : o.readTree depth types tree = some x) :
    x.toJson.Same tree.plain := by
  induction depth generalizing types tree x with
  | zero => cases h
  | succ depth ih =>
      rw [readTree] at h
      split at h
      next members tag hmembers htag =>
        split at h
        · cases h
        · split at h
          · cases h
          next schema hschema =>
            obtain ⟨shape, hshape, parts, hparts, rfl⟩ := readShapes_eq_some h
            cases tree with
            | null | bool | number | string | array => cases hmembers
            | object =>
                cases hmembers
                have hname : members.lookup nodeName = some (.string tag) := by
                  obtain ⟨value, hvalue, hstring⟩ := Option.bind_eq_some_iff.1 htag
                  cases value <;> cases hstring
                  exact hvalue
                exact toJson_of_readShape (htold tag schema hschema shape hshape) htree hname
                  (fun types item hitem y hy => ih hitem hy) hparts
      next => cases h

end Outline

namespace Standard

/-- The standard grammar is filled type by type. -/
theorem built : registry.Built := by
  have hextended : (extend {}).Built := by
    unfold extend statements expressions names literals
    repeat
      first
      | exact .empty
      | apply Registry.Built.declare
      | apply Registry.Built.climbing
  exact hextended.compileAll _

/-- What is checked of all types of the standard grammar holds of each. -/
theorem check_of_type {check : String × NodeType → Bool} (h : (extend {}).types.all check = true)
    {tag : String} {nodeType : NodeType} (htype : registry.type? tag = some nodeType) :
    check (tag, nodeType) = true := by
  rw [(agrees_registry .postgres).type?] at htype
  exact List.all_eq_true.1 h _ (Registry.mem_types htype)

/-- No field of the standard grammar has the name of the member for the type. -/
theorem nodeName_not_field (tag : String) (nodeType : NodeType)
    (h : registry.type? tag = some nodeType) : nodeName ∉ nodeType.rule.fieldNames := by
  have hall : (extend {}).types.all (fun entry => !entry.2.rule.fieldNames.contains nodeName) =
      true := by
    decide +kernel
  simpa using check_of_type hall h

end Standard

/-! ### Readers -/

namespace Structured

/-- Whatever was registered and read before: what a reader makes of a value has
that value as its structured form, up to the order of members and to how plain
terminals are written, if no field has the name of the member for the type. -/
theorem toJson_of_readAny {s s' : ReadState} (hs : Reached s)
    (hnames : ∀ tag nodeType, s.registry.type? tag = some nodeType →
      nodeName ∉ nodeType.rule.fieldNames)
    {options : ReadOptions} {types : List String} {tree : Json} (htree : tree.Distinct)
    {id : NodeId} (h : readAny options types tree s = (.ok (some id), s')) :
    (s'.forest.toJson id).Same tree.plain := by
  let o : Outline := { registry := s.registry, options := { dialect := options.dialect } }
  have htold : o.Told := by
    intro tag schema hschema shape hshape
    obtain ⟨nodeType, htype, hnodup, hdeclared⟩ := hs.built.fields_of_schema hschema hshape
    exact List.nodup_cons.2 ⟨fun hmem => hnames tag nodeType htype (hdeclared hmem), hnodup⟩
  obtain ⟨-, hplants, hcontent⟩ := readAnyTo_of_ok (o := o) rfl hs.linked (.refl _) h
  replace hplants : s.forest.Plants s'.forest [id] := hplants
  obtain ⟨hle, hlt⟩ := hplants.bounds List.mem_cons_self
  rw [Forest.toJson_eq hplants.descends hle hlt]
  exact Outline.toJson_of_readTree htold htree hcontent.symm

/-- An item of a list of columns, with its members in another order than that of
its fields. -/
def aliasedItem : Json :=
  .object [("alias", .object [("quoted", .bool false), ("value", .string "b")]),
    (nodeName, .string "SelectItem"),
    ("expr", .object [("value", .string "1"), (nodeName, .string "NumberLiteral")])]

theorem toJson_item :
    ∃ id s', readAny { dialect := .postgres } ["SelectItem"] aliasedItem
        (start Standard.registry .postgres) = (.ok (some id), s') ∧
      (s'.forest.toJson id).Same (.object [
        ("alias", .string "b"),
        (nodeName, .string "SelectItem"),
        ("expr", .object [("value", .string "1"), (nodeName, .string "NumberLiteral")])]) := by
  have hread : ((readAny { dialect := .postgres } ["SelectItem"] aliasedItem
      (start Standard.registry .postgres)).1.toOption.bind id).isSome = true := by
    rw [Standard.registry_eq]
    decide +kernel
  have hdistinct : aliasedItem.Distinct := by
    simp [aliasedItem, Json.Distinct, Json.DistinctMembers, nodeName]
  rcases hrun : readAny { dialect := .postgres } ["SelectItem"] aliasedItem
    (start Standard.registry .postgres) with ⟨_ | _ | id, s'⟩
  · rw [hrun] at hread
    cases hread
  · rw [hrun] at hread
    cases hread
  · exact ⟨id, s', rfl, toJson_of_readAny (.start Standard.built .postgres)
      Standard.nodeName_not_field hdistinct hrun⟩

end Structured

end DualSql
