import DualSql.Proofs.Grammar.Likeness
import DualSql.Proofs.Grammar.ReadBack

/-! # The text of a tree that was read back

The structured form of a tree leaves out the kinds of its terminals, and the
reader tells them from their texts. It tells all of them but the names of data
types that are phrases, which it takes for identifiers; a tree without such a
name is written as before it was read back.

Main definition: `Outline.Uniform`. Main results: `Tree.content_readBack` and
`Tree.toSqlWith_readBack`, and what becomes of a phrase, `Tree.phraseType_requoted`. -/

namespace DualSql

/-- The kinds of token that a field takes, if it takes one. -/
def FieldKind.kinds? : FieldKind → Option (List TokenKind)
  | terminal kinds _ => some kinds
  | node .. | list .. => none

/-- Every shape of a type takes tokens of the same kinds in a field. -/
structure Outline.Uniform (o : Outline) : Prop where
  kinds : ∀ {tag schema}, (o.registry.schema tag o.options.dialect).1 = .ok schema →
    ∀ shape ∈ schema.shapes, ∀ shape' ∈ schema.shapes, ∀ field ∈ shape, ∀ field' ∈ shape',
      field.name = field'.name → field.kind.kinds? = field'.kind.kinds?

/-! ### What is read -/

namespace Outline

open Structured

variable {o : Outline} {d : Dialect}

/-- Every field of a shape that fits is admitted there. -/
theorem admits_of_fits {has : String → Bool} {shape : Shape} {parts : Parts}
    (h : shape.Fits d has parts) :
    ∀ f ∈ parts, ∃ field ∈ shape, field.name = f.1 ∧ field.kind.Admits d f.2 := by
  induction shape generalizing parts with
  | nil =>
      obtain rfl : parts = [] := h
      simp
  | cons field rest ih =>
      intro f hf
      rcases h with ⟨-, h⟩ | ⟨x, more, rfl, -, hadmits, h⟩
      · obtain ⟨field', hfield', hadmits⟩ := ih h f hf
        exact ⟨field', List.mem_cons_of_mem _ hfield', hadmits⟩
      · rcases List.mem_cons.1 hf with rfl | hf
        · exact ⟨field, List.mem_cons_self, rfl, hadmits⟩
        · obtain ⟨field', hfield', hadmits⟩ := ih h f hf
          exact ⟨field', List.mem_cons_of_mem _ hfield', hadmits⟩

/-- What is read of a terminal does not depend on the values of the field. -/
theorem readTerminal?_unique {kinds : List TokenKind} {values values' : List String} {json : Json}
    {t u : Terminal} (ht : readTerminal? d kinds values json = some t)
    (hu : readTerminal? d kinds values' json = some u) : t = u := by
  simp only [readTerminal?, Option.bind_eq_bind, Option.bind_eq_some_iff,
    Option.ite_none_right_eq_some, Option.some.injEq] at ht hu
  obtain ⟨parts, hparts, kind, hkind, -, rfl⟩ := ht
  obtain ⟨parts', hparts', kind', hkind', -, rfl⟩ := hu
  obtain rfl := Option.some.inj (hparts.symm.trans hparts')
  obtain rfl := Option.some.inj (hkind.symm.trans hkind')
  rfl

/-- What is read of a field, given what is read of trees. -/
theorem reread_of_readValue {child : List String → Json → Option Content}
    {kind kind' : FieldKind} {x y : Content} (hx : x.Shaped o) (hnamed : x.Named)
    (hkinds : kind.kinds? = kind'.kinds?) (hadmits : kind'.Admits d x)
    (hchild : ∀ types (x : Content), x.Shaped o → ∀ y, child types x.toJson = some y →
      y = x.map (Terminal.reread d))
    (h : readValue d child kind x.toJson = some y) : y = x.map (Terminal.reread d) := by
  cases kind with
  | terminal kinds values =>
      obtain ⟨u, hu, rfl⟩ := Option.map_eq_some_iff.1 h
      cases kind' with
      | terminal kinds' values' =>
          obtain rfl : kinds = kinds' := Option.some.inj hkinds
          obtain ⟨t, rfl, hread⟩ := hadmits
          rw [Content.map, readTerminal?_unique hu hread]
      | node types => cases hkinds
      | list types arity singletons => cases hkinds
  | node types => exact hchild types x hx y h
  | list types arity singletons =>
      obtain ⟨xs, ys, rfl, rfl, hys⟩ := readList_eq_some hnamed h
      have hxs := Content.eachItem_iff.1 hx
      obtain ⟨more, rfl, hmore⟩ :=
        map_of_readItems id (Content.map (Terminal.reread d))
          (fun x hmem y hy => hchild types x (hxs x hmem) y hy) hys
      rw [List.map_id] at hmore
      rw [Content.map, Content.mapItems_eq, ← hmore]

/-- What is read from the form of a tree that fits the shapes of its types. -/
theorem reread_of_readTree (h : o.InOrder) (huniform : o.Uniform) {depth : Nat}
    {types : List String} {x y : Content} (hx : x.Shaped o)
    (hread : o.readTree depth types x.toJson = some y) :
    y = x.map (Terminal.reread o.options.dialect) := by
  induction depth generalizing types x y with
  | zero => cases hread
  | succ depth ih =>
      have hordered := h.ordered hx
      obtain ⟨tag, fields, parts, schema, shape, rfl, rfl, hschema, hshape, hnames, hparts⟩ :=
        readTree_eq_some h hordered hread
      obtain ⟨⟨schema', shape', hschema', hshape', hfits⟩, hfields⟩ := hx
      obtain rfl : schema = schema' := Except.ok.inj (hschema.symm.trans hschema')
      have hvalues : ∀ f ∈ parts, ∃ x, fields.lookup f.1 = some x ∧
          f.2 = x.map (Terminal.reread o.options.dialect) := by
        intro f hf
        obtain ⟨x, hlookup, field, hfield, hname, hvalue⟩ := hparts f hf
        have hmem := mem_of_lookup hlookup
        obtain ⟨field', hfield', hname', hadmits⟩ := admits_of_fits hfits _ hmem
        have hx := Content.eachField_iff.1 hfields _ hmem
        have hkinds := huniform.kinds hschema shape hshape shape' hshape' field hfield field' hfield'
          (hname.trans hname'.symm)
        refine ⟨x, hlookup, reread_of_readValue hx (h.named (h.ordered hx)) hkinds hadmits ?_ hvalue⟩
        exact fun types x hx y hy => ih hx hy
      have hsame := map_eq_of_lookup id (Content.map (Terminal.reread o.options.dialect)) hnames
        (hordered.1.nodup (List.nodup_dedup _)) hvalues
      rw [Content.map, Content.mapFields_eq, ← hsame]
      simp

end Outline

/-! ### The standard grammar -/

namespace Registry

/-- Whether every shape of a type takes tokens of the same kinds in a field. -/
def isUniform (r : Registry) (d : Dialect) : Bool :=
  r.types.all fun entry =>
    match (r.schema entry.1 d).1 with
    | .ok schema => schema.shapes.all fun shape => schema.shapes.all fun shape' =>
        shape.all fun field => shape'.all fun field' =>
          field.name != field'.name || field.kind.kinds? == field'.kind.kinds?
    | .error _ => true

end Registry

namespace Standard

theorem isUniform (d : Dialect) : (extend {}).isUniform d = true := by
  have hall : ∀ d ∈ Dialect.all, (extend {}).isUniform d = true := by decide +kernel
  exact hall d d.mem_all

theorem uniform (d : Dialect) : (outline d).toOutline.Uniform := by
  constructor
  intro tag schema hschema shape hshape shape' hshape' field hfield field' hfield' hname
  obtain ⟨nodeType, htype⟩ := Registry.exists_type_of_schema hschema
  have hentry := List.all_eq_true.1 (isUniform d) _ (Registry.mem_types htype)
  rw [show ((extend {}).schema tag d).1 = .ok schema from hschema] at hentry
  simp only [List.all_eq_true] at hentry
  simpa [hname] using hentry shape hshape shape' hshape' field hfield field' hfield'

end Standard

/-! ### Trees -/

namespace Tree

variable {d : Dialect} {types : List String} {sql : String} {t u : Tree}

/-- Trees that differ in the places of their terminals alone have the same text. -/
theorem Grown.toSqlWith_like (ht : t.Grown) (hu : u.Grown) (hd : t.dialect = u.dialect)
    (h : t.content.Like u.content) (d : Dialect) (o : FormatOptions) :
    t.toSqlWith d o = u.toSqlWith d o := by
  rw [toSqlWith, toSqlWith, layout, layout, Rendering.render, Rendering.render,
    Rendering.renderNode_like ht.descends hu.descends hd .free (Nat.lt_succ_of_lt ht.root)
      (Nat.lt_succ_of_lt hu.root) h]

/-- What is read back of a tree that a text is parsed to. -/
theorem content_readBack (h : parseAs d types sql = .ok t) :
    ∃ u, ofJson d [t.tag] t.toJson = .ok u ∧ u.Grown ∧ u.dialect = t.dialect ∧
      u.content = t.content.map (Terminal.reread d) := by
  have accepted := accepted_of_parseAs h
  have ht : t.Grown := ⟨accepted.descends, accepted.root⟩
  obtain ⟨trees, rest, fuel, hlexed, -, hfound, -⟩ := accepted.found
  have hx : (Standard.readable d).Fitting types t.content :=
    (((Standard.readable d).tells fuel).any hlexed hfound).2
  obtain ⟨u, hu, hgrown, -⟩ := exists_ofJson ht hx
  obtain ⟨-, hdialect, hread⟩ := content_of_ofJson hu
  rw [ht.toJson_eq] at hread
  refine ⟨u, hu, hgrown, hdialect.trans accepted.dialect.symm, ?_⟩
  exact Outline.reread_of_readTree (Standard.inOrder d) (Standard.uniform d) hx.2 hread

/-- A tree that a text is parsed to is read back from its structured form as it
was, with the kinds that its texts tell. If no name of a data type in it is a
phrase, it is written as before, in either dialect and with all choices. -/
theorem toSqlWith_readBack (h : parseAs d types sql = .ok t) :
    ∃ u, ofJson d [t.tag] t.toJson = .ok u ∧ u.content = t.content.map (Terminal.reread d) ∧
      ((∀ x ∈ t.content.terminals, x.kind = .dataType →
          Vocabulary.isDataType d (Text.toUpper x.value) = true) →
        ∀ d' o, u.toSqlWith d' o = t.toSqlWith d' o) := by
  have accepted := accepted_of_parseAs h
  obtain ⟨u, hu, hgrown, hdialect, hcontent⟩ := content_readBack h
  refine ⟨u, hu, hcontent, fun hwords d' o => ?_⟩
  refine hgrown.toSqlWith_like ⟨accepted.descends, accepted.root⟩ hdialect ?_ d' o
  rw [Content.Like, hcontent, Content.map_map]
  refine Content.map_congr _ fun x hx => ?_
  have hword : ¬(x.kind = .dataType ∧ Vocabulary.isDataType d (Text.toUpper x.value) = false) := by
    intro hphrase
    rw [hwords x hx hphrase.1] at hphrase
    cases hphrase.2
  rw [Terminal.unplaced, Terminal.unplaced, Terminal.reread, if_neg hword]

/-- A tree with names in quotes, operators and a cast is written as before. -/
theorem toSqlWith_readBack_cast :
    ∃ t u, parse .postgres "select cast(a || 'it''s' as text) \"x y\" from t where b is not null" =
        .ok t ∧ ofJson .postgres [t.tag] t.toJson = .ok u ∧
      u.content = t.content.map (Terminal.reread .postgres) ∧
      ∀ d' o, u.toSqlWith d' o = t.toSqlWith d' o := by
  have hwords : ((parse .postgres
      "select cast(a || 'it''s' as text) \"x y\" from t where b is not null").toOption.any fun t =>
        t.content.terminals.all fun x => x.kind != .dataType ||
          Vocabulary.isDataType .postgres (Text.toUpper x.value)) = true := by
    unfold parse parseAs parseChunks parseSource
    rw [Standard.registry_eq]
    decide +kernel
  cases ht : parse .postgres
      "select cast(a || 'it''s' as text) \"x y\" from t where b is not null" with
  | error e =>
      rw [ht] at hwords
      cases hwords
  | ok t =>
      rw [ht] at hwords
      obtain ⟨u, hu, hcontent, hsame⟩ := toSqlWith_readBack ht
      refine ⟨t, u, rfl, hu, hcontent, hsame fun x hx hkind => ?_⟩
      have hword := List.all_eq_true.1 hwords x hx
      simpa [hkind] using hword

/-- The text of a tree, and that of the tree that is read from its structured form. -/
def rewritten? (d : Dialect) (sql : String) : Option (String × String) := do
  let t ← (parse d sql).toOption
  let u ← (ofJson d [t.tag] t.toJson).toOption
  return (← (t.toSqlWith d {}).toOption, ← (u.toSqlWith d {}).toOption)

/-- The name of a data type that is a phrase is read back as an identifier, and
is then put in quotes. -/
theorem phraseType_requoted :
    rewritten? .postgres "select cast(a as double precision)" =
      some ("SELECT CAST(a AS DOUBLE PRECISION)",
        "SELECT CAST(a AS \"DOUBLE PRECISION\")") := by
  unfold rewritten? parse parseAs parseChunks parseSource ofJson toSqlWith layout
  rw [Standard.registry_eq]
  decide +kernel

end Tree

end DualSql
