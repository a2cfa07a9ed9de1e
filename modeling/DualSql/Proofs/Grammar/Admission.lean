import DualSql.Proofs.Grammar.Renderable
import DualSql.Proofs.Grammar.Transcription
import DualSql.Proofs.Layout
import DualSql.Proofs.Spacing

/-! # What a reader admits

A tree that is read has fields of a shape of its type, the required ones among
them. Where every shape leaves fields that suit the production of the type, the
tree can be rendered. This is checked by evaluation for the standard grammar,
up to aliases: their keyword is read without them, and is not written so.

Main definitions: `Shape.Covers` and `Production.assured`. Main results:
`Outline.covered_of_readTree`, `Tree.error_of_toSqlWith`, and its counterpart
`Tree.keyword_without_alias`. -/

namespace DualSql

/-- Fields of a shape, the required ones among them, with terminals where the
shape has terminals. -/
structure Shape.Covers (shape : Shape) (fields : Parts) : Prop where
  required : ∀ field ∈ shape.required, fields.has field.name = true
  within : ∀ part ∈ fields,
    ∃ field ∈ shape, field.name = part.1 ∧ field.kind.isTerminal = part.2.isTerminal

/-- Trees with fields of a shape of their type. -/
abbrev Content.Covered (o : Outline) : Content → Prop :=
  Each fun tag fields => ∃ schema shape,
    (o.registry.schema tag o.options.dialect).1 = .ok schema ∧ shape ∈ schema.shapes ∧
      shape.Covers fields

namespace Outline

variable {o : Outline} {d : Dialect}

/-- Fields are read by a shape only if the required ones are members. -/
theorem isSome_lookup_of_readFields {child : List String → Json → Option Content}
    {members : List (String × Json)} {shape : Shape} {parts parts' : Parts}
    (h : readFields d child members parts shape = some parts') :
    ∀ field ∈ shape.required, (members.lookup field.name).isSome = true := by
  induction shape generalizing parts with
  | nil => simp [Shape.required]
  | cons field rest ih =>
      have hrest : ∀ parts, readFields d child members parts rest = some parts' →
          ((members.lookup field.name).isSome = true ∨ field ∉ Shape.required (field :: rest)) →
          ∀ other ∈ Shape.required (field :: rest), (members.lookup other.name).isSome = true := by
        intro parts hread hfield other hother
        obtain ⟨hmem, hmust⟩ := List.mem_filter.1 hother
        rcases List.mem_cons.1 hmem with rfl | hmem
        · exact hfield.resolve_right (not_not_intro hother)
        · exact ih hread other (List.mem_filter.2 ⟨hmem, hmust⟩)
      rw [readFields] at h
      cases hvalue : members.lookup field.name with
      | none =>
          simp only [hvalue] at h
          split at h
          next hmissing =>
            refine hrest parts h (.inr fun hmem => ?_)
            have hmust := (List.mem_filter.1 hmem).2
            simp only [Bool.and_eq_true, Option.isNone_iff_eq_none] at hmust
            simp [hmust.2, Structured.applies] at hmissing
            simp [hmissing] at hmust
          next => cases h
      | some value =>
          simp only [hvalue] at h
          split at h
          · cases h
          · split at h
            · cases h
            · exact hrest _ h (.inl (by rw [hvalue]; rfl))

/-- What is read as a field is a terminal if the field holds terminals. -/
theorem covered_of_readValue {child : List String → Json → Option Content} {kind : FieldKind}
    (hchild : ∀ types item y, child types item = some y → y.isTerminal = false ∧ y.Covered o)
    {value : Json} {x : Content} (h : readValue d child kind value = some x) :
    kind.isTerminal = x.isTerminal ∧ x.Covered o := by
  cases kind with
  | terminal kinds values =>
      obtain ⟨t, -, rfl⟩ := Option.map_eq_some_iff.1 h
      exact ⟨rfl, trivial⟩
  | node types =>
      obtain ⟨hnode, hcovered⟩ := hchild types value x h
      exact ⟨hnode.symm, hcovered⟩
  | list types arity singletons =>
      rw [readValue] at h
      split at h
      · cases h
      · split at h
        · obtain ⟨xs, hxs, rfl⟩ := Option.map_eq_some_iff.1 h
          obtain ⟨more, rfl, hmore⟩ := readItems_eq_some hxs
          refine ⟨rfl, Content.eachItem_iff.2 fun x hx => ?_⟩
          obtain ⟨i, rfl⟩ := List.mem_iff_get.1 hx
          have hitem := hmore.get (by rw [hmore.length_eq]; exact i.2) i.2
          exact (hchild types _ _ hitem).2
        · cases h

/-- A tree that is read has the fields of a shape of its type. -/
theorem covered_of_readTree {depth : Nat} {types : List String} {tree : Json} {x : Content}
    (h : o.readTree depth types tree = some x) : x.isTerminal = false ∧ x.Covered o := by
  induction depth generalizing types tree x with
  | zero => cases h
  | succ depth ih =>
      rw [readTree] at h
      split at h
      next members tag hmembers htag =>
        split at h
        · cases h
        · split at h
          · cases h
          next schema hschema =>
            obtain ⟨shape, hshape, parts, hparts, rfl⟩ := readShapes_eq_some h
            rw [readShape] at hparts
            split at hparts
            case isFalse => cases hparts
            next =>
              have hrequired := isSome_lookup_of_readFields hparts
              obtain ⟨more, heq, hnames, hmore⟩ := readFields_eq_some hparts
              rw [List.nil_append] at heq
              subst heq
              have hread (part) (hpart : part ∈ parts) : ∃ field ∈ shape, field.name = part.1 ∧
                  field.kind.isTerminal = part.2.isTerminal ∧ part.2.Covered o := by
                obtain ⟨field, hfield, hname, value, -, hvalue⟩ := hmore part hpart
                exact ⟨field, hfield, hname,
                  covered_of_readValue (fun types item y hy => ih hy) hvalue⟩
              refine ⟨rfl, ⟨schema, shape, hschema, hshape, fun field hfield => ?_,
                fun part hpart => ?_⟩, Content.eachField_iff.2 fun part hpart => ?_⟩
              · rw [Parts.has, isSome_lookup_iff, hnames]
                exact List.mem_filter.2 ⟨List.mem_map_of_mem (List.mem_filter.1 hfield).1,
                  hrequired field hfield⟩
              · obtain ⟨field, hfield, hname, hkind, -⟩ := hread part hpart
                exact ⟨field, hfield, hname, hkind⟩
              · obtain ⟨-, -, -, -, hcovered⟩ := hread part hpart
                exact hcovered
      next => cases h

end Outline

namespace Production

/-- Whether the fields of a shape suit a production whenever pairs of fields only
come together. -/
def assured (pairs : List (String × String)) (shape : Shape) (p : Production) : Bool :=
  (p.slots.all fun slot =>
    shape.all fun field => field.name != slot.1 || field.kind.isTerminal == slot.2) &&
  (p.straight && p.secured pairs (shape.required.map FieldSchema.name) ||
    match p with
    | alternatives info branches =>
      info.attrs.name.isNone && straightAll branches && branches.any fun q =>
        shape.all (fun field => q.info.fields.contains field.name) &&
          q.secured pairs (shape.required.map FieldSchema.name)
    | _ => false)

theorem suits_of_assured {pairs : List (String × String)} {shape : Shape} {p : Production}
    {fields : Parts} (h : p.assured pairs shape = true) (hcovers : shape.Covers fields)
    (hpairs : ∀ pair ∈ pairs, fields.has pair.1 = true → fields.has pair.2 = true) :
    p.Suits fields := by
  have hsure : ∀ name ∈ shape.required.map FieldSchema.name, fields.has name = true := by
    intro name hname
    obtain ⟨field, hfield, rfl⟩ := List.mem_map.1 hname
    exact hcovers.required field hfield
  obtain ⟨hslots, hways⟩ := Bool.and_eq_true_iff.1 h
  refine ⟨fun slot hslot x hx => ?_, ?_⟩
  · obtain ⟨field, hfield, hname, hkind⟩ := hcovers.within _ (mem_of_lookup hx)
    have hagrees := List.all_eq_true.1 (List.all_eq_true.1 hslots slot hslot) field hfield
    rw [← hkind]
    simpa [hname] using hagrees
  · rcases Bool.or_eq_true_iff.1 hways with hplain | hchoice
    · obtain ⟨hstraight, hsecured⟩ := Bool.and_eq_true_iff.1 hplain
      exact .inl ⟨hstraight, fits_of_secured hpairs p hsure hsecured⟩
    · right
      cases p with
      | alternatives info branches =>
          simp only [Bool.and_eq_true, Option.isNone_iff_eq_none, List.any_eq_true] at hchoice
          obtain ⟨⟨hname, hstraight⟩, q, hq, hplace, hsecured⟩ := hchoice
          refine ⟨info, branches, rfl, hname, hstraight, q, hq, fun name _ hhas => ?_,
            fits_of_secured hpairs q hsure hsecured⟩
          obtain ⟨x, hx⟩ := Option.isSome_iff_exists.1 hhas
          obtain ⟨field, hfield, rfl, -⟩ := hcovers.within _ (mem_of_lookup hx)
          simpa using List.all_eq_true.1 hplace field hfield
      | token | node | sequence | block => cases hchoice

end Production

namespace Registry

/-- Whether the shapes of all types suit their productions if pairs of fields
only come together. -/
def isAssured (r : Registry) (pairs : List (String × String)) (d : Dialect) : Bool :=
  r.types.all fun entry =>
    match (r.schema entry.1 d).1 with
    | .ok schema => schema.shapes.all fun shape => schema.root.any (Production.assured pairs shape)
    | .error _ => true

variable {r : Registry} {pairs : List (String × String)} {d : Dialect} {tag : String}
  {schema : Schema} {shape : Shape}

theorem assured_of_isAssured (h : r.isAssured pairs d = true)
    (hschema : (r.schema tag d).1 = .ok schema) (hshape : shape ∈ schema.shapes) :
    ∃ root, schema.root = some root ∧ root.assured pairs shape = true := by
  obtain ⟨nodeType, htype⟩ := exists_type_of_schema hschema
  have hentry := List.all_eq_true.1 h _ (mem_types htype)
  rw [hschema] at hentry
  simpa [Option.any_eq_true] using List.all_eq_true.1 hentry shape hshape

end Registry

namespace Standard

/-- The keyword of an alias needs the alias. -/
def partners : List (String × String) :=
  [("as_keyword", "alias")]

theorem isAssured (d : Dialect) : (extend {}).isAssured partners d = true := by
  have hall : ∀ d ∈ Dialect.all, (extend {}).isAssured partners d = true := by decide +kernel
  exact hall d d.mem_all

end Standard

/-- Trees in which no keyword of an alias stands without the alias. -/
abbrev Content.Aliased : Content → Prop :=
  Each fun _ fields => Parts.has fields "as_keyword" = true → Parts.has fields "alias" = true

namespace Tree

variable {d : Dialect} {types : List String} {json : Json} {t : Tree} {o : FormatOptions}

/-- A tree that is read can be rendered, placeholders out of place aside, if no
keyword of an alias stands without the alias. Only a line that is too wide can keep
what is rendered from being printed. -/
theorem error_of_toSqlWith (h : ofJson d types json = .ok t) (haliased : t.content.Aliased)
    {e : Error} (herror : t.toSqlWith d o = .error e) :
    (∃ index position, e = .render (.bindOrder index position d)) ∨
      e = .capacity ∧ o.pretty = true ∧ ∃ layout, t.layout d o = .ok layout ∧
        ∃ level ≤ layout.depth, Writer.indentation? level o.indentWidth = none := by
  obtain ⟨hgrown, -, hread⟩ := content_of_ofJson h
  have hsuited : t.content.Suited (Standard.extend {}) d := by
    have hboth := (Outline.covered_of_readTree hread).2.and haliased
    refine hboth.mono fun tag fields ⟨hcovered, hpairs⟩ => ?_
    obtain ⟨schema, shape, hschema, hshape, hcovers⟩ := hcovered
    obtain ⟨root, hroot, hassured⟩ :=
      Registry.assured_of_isAssured (Standard.isAssured d) hschema hshape
    refine ⟨schema, root, hschema, hroot, Production.suits_of_assured hassured hcovers ?_⟩
    simpa [Standard.partners] using hpairs
  have hbinds : Rendering.OnlyBinds (Standard.extend {}) d
      (Rendering.render o d t.forest t.root) :=
    Rendering.onlyBinds_node hgrown.descends (Nat.lt_succ_of_lt hgrown.root) hsuited
  have hrender := (hbinds { registry := Standard.registry } (Standard.agrees_registry d)).2
  rw [toSqlWith] at herror
  cases hlayout : t.layout d o with
  | ok layout =>
      rw [hlayout] at herror
      obtain ⟨hfits, rfl⟩ := Layout.print_eq_error.1 herror
      obtain ⟨hpretty, hwide⟩ := Layout.exists_wide_of_fits hfits
      exact .inr ⟨rfl, hpretty, layout, rfl, hwide⟩
  | error e' =>
      rw [hlayout] at herror
      cases herror
      exact .inl (hrender e hlayout)

/-- An item of a list of columns that is a placeholder with a number and has an
alias with its keyword. -/
def placeholderItem : Json :=
  .object [(nodeName, .string "SelectItem"),
    ("expr", .object [(nodeName, .string "BindVariable"), ("value", .string "2")]),
    ("as_keyword", .string "AS"), ("alias", .string "b")]

theorem error_of_placeholderItem :
    ∃ t e, ofJson .mysql ["SelectItem"] placeholderItem = .ok t ∧ t.content.Aliased ∧
      t.toSqlWith .mysql {} = .error e ∧
      ∃ index position, e = .render (.bindOrder index position .mysql) := by
  have hfacts : ((ofJson .mysql ["SelectItem"] placeholderItem).toOption.any fun t =>
      decide t.content.Aliased && (t.toSqlWith .mysql {}).toOption.isNone) = true := by
    unfold ofJson toSqlWith layout
    rw [Standard.registry_eq]
    decide +kernel
  cases ht : ofJson .mysql ["SelectItem"] placeholderItem with
  | error e =>
      rw [ht] at hfacts
      cases hfacts
  | ok t =>
      rw [ht] at hfacts
      simp only [Except.toOption, Option.any_some, Bool.and_eq_true, decide_eq_true_eq] at hfacts
      obtain ⟨haliased, hunwritten⟩ := hfacts
      cases herror : t.toSqlWith .mysql {} with
      | ok text => simp [herror] at hunwritten
      | error e =>
          rcases error_of_toSqlWith ht haliased herror with hbinds | ⟨-, hpretty, -⟩
          · exact ⟨t, e, rfl, haliased, herror, hbinds⟩
          · cases hpretty

/-- The error of rendering a tree that is read. -/
def renderError? (d : Dialect) (types : List String) (json : Json) : Option Error := do
  let t ← (ofJson d types json).toOption
  match t.toSqlWith d {} with
  | .ok _ => none
  | .error e => some e

/-- The keyword of an alias is read without the alias, and cannot be rendered. -/
theorem keyword_without_alias :
    renderError? .postgres ["SelectItem"] (.object [(nodeName, .string "SelectItem"),
        ("expr", .object [(nodeName, .string "NumberLiteral"), ("value", .string "1")]),
        ("as_keyword", .string "AS")]) =
      some (.render (.missingField "SelectItem" "alias")) := by
  unfold renderError? ofJson toSqlWith layout
  rw [Standard.registry_eq]
  decide +kernel

end Tree

end DualSql
