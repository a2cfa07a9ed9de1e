import DualSql.Proofs.Grammar.Operators

/-! # Productions as they were matched

A production that matched is written from the fields it set, whatever else the
tree has, as long as its fields and those it asks for are as they were then.
What it is written as are the pieces of the tokens that it matched.

Main definitions: `Portion`, what is known of a part of a grammar in both
directions, and `Matched`, what a match comes to. Main results: one for each
kind of production, such as `yields_token`, `Matched.cons` and
`Matched.ofBranch`, and `yields_rule` for what they have in common. -/

namespace DualSql

/-- A part of a grammar, as far as reading and writing have to agree on it. -/
structure Portion where
  sets : List String
  asks : List String
  /-- Fields that a match sets in any case. -/
  musts : List String
  /-- Whether it matters what follows. -/
  trails : Bool
  /-- The least precedence in the operand that a match ends in. -/
  edge : Option Nat
  write : (Context → Content → Option (List Piece)) → Scene → Option (List Piece)
  fits : (String → Bool) → Bool

namespace Production

/-- A production with its attributes. -/
def portion (d : Dialect) (p : Production) : Portion where
  sets := p.sets
  asks := p.asks
  musts := if p.isOpen then [] else p.musts
  trails := p.trails
  edge := if p.isOpen then none else p.endEdge?
  write child scene := Writing.rule d child scene p
  fits := p.fits

/-- A production that is not passed over. -/
def bodyPortion (d : Dialect) (p : Production) : Portion :=
  { p.portion d with
    musts := p.musts
    edge := p.endEdge?
    write := fun child scene => Writing.body d child scene p }

/-- Productions one after the other. -/
def portionAll (d : Dialect) (parts : List Production) : Portion where
  sets := setsAll parts
  asks := asksAll parts
  musts := mustsAll parts
  trails := trailsAny parts
  edge := lastEdge? parts
  write child scene := Writing.all d child scene parts
  fits has := fitsAll has parts

mutual

/-- What a production must set it can set. -/
theorem musts_sub (p : Production) : ∀ name ∈ p.musts, name ∈ p.sets := by
  intro name hname
  match p with
  | token info kinds values => exact hname
  | node info types climb => exact hname
  | sequence info parts => exact mustsAll_sub parts name hname
  | alternatives info branches =>
      cases hn : info.attrs.name with
      | none => simp [musts, hn] at hname
      | some n => simpa [musts, sets, hn] using hname
  | block info bracket inner =>
      rw [musts] at hname
      split at hname
      · cases hname
      · exact musts_sub inner name hname

theorem mustsAll_sub (parts : List Production) :
    ∀ name ∈ mustsAll parts, name ∈ setsAll parts := by
  intro name hname
  match parts with
  | [] => exact hname
  | p :: rest =>
      rw [mustsAll, List.mem_append] at hname
      rw [setsAll, List.mem_append]
      rcases hname with hname | hname
      · split at hname
        · cases hname
        · exact .inl (musts_sub p name hname)
      · exact .inr (mustsAll_sub rest name hname)

end

end Production

namespace Parts

/-- Whether there is a field of a name. -/
def has (parts : Parts) (name : String) : Bool :=
  (parts.lookup name).isSome

/-- Two lists of fields agree on some names. -/
def AgreesOn (names : List String) (a b : Parts) : Prop :=
  ∀ name ∈ names, a.lookup name = b.lookup name

/-- None of the fields has one of the names. -/
def Lacks (parts : Parts) (names : List String) : Prop :=
  ∀ name ∈ names, parts.lookup name = none

variable {a b c : Parts} {names : List String} {name : String}

theorem lookup_append_of_lacks (h : b.lookup name = none) :
    (a ++ b).lookup name = a.lookup name := by
  rw [List.lookup_append, h, Option.or_none]

theorem lookup_eq_none (h : ∀ part ∈ a, part.1 ∈ names) (hname : name ∉ names) :
    a.lookup name = none := by
  apply List.lookup_eq_none_iff.2
  intro part hpart
  have hne : name ≠ part.1 := fun heq => hname (heq ▸ h part hpart)
  simpa using hne

theorem has_of_mem (h : name ∈ a.map Prod.fst) : a.has name = true := by
  obtain ⟨part, hpart, rfl⟩ := List.mem_map.1 h
  apply List.lookup_isSome_iff.2
  exact ⟨part, hpart, by simp⟩

theorem has_append : Parts.has (a ++ b) name = (a.has name || b.has name) := by
  rw [has, has, has, List.lookup_append]
  cases a.lookup name <;> simp

theorem AgreesOn.has (h : AgreesOn names a b) (hname : name ∈ names) :
    a.has name = b.has name := by
  rw [Parts.has, Parts.has, h name hname]

theorem AgreesOn.mono {names' : List String} (h : AgreesOn names a b)
    (hsub : ∀ name ∈ names', name ∈ names) : AgreesOn names' a b :=
  fun name hname => h name (hsub name hname)

theorem Lacks.mono {names' : List String} (h : a.Lacks names)
    (hsub : ∀ name ∈ names', name ∈ names) : a.Lacks names' :=
  fun name hname => h name (hsub name hname)

end Parts

namespace FaithfulOutline

open TokenTree Outline

/-- What a match of a portion comes to: the fields it added and the pieces it
is written as, from whatever tree they end up in. -/
structure Matched (g : FaithfulOutline) (q : Portion) (fields more : Parts)
    (trees rest : List TokenTree) (pieces : List Piece) : Prop where
  reads : Reads g.dialect trees rest pieces
  names : ∀ part ∈ more, part.1 ∈ q.sets
  musts : ∀ name ∈ q.musts, name ∈ more.map Prod.fst
  edge : ∀ minimum, q.edge = some minimum → g.Stops minimum rest
  writes : ∀ depth final context, Content.heightFields more ≤ depth →
    Parts.AgreesOn (q.sets ++ q.asks) final (fields ++ more) →
    (q.trails = true → g.Follows context.trailing rest) →
    q.write (g.write depth) ⟨final, context, none⟩ = some pieces
  fits : ∀ {final}, Parts.AgreesOn (q.sets ++ q.asks) final (fields ++ more) →
    q.fits (Parts.has final) = true

/-- Whatever an attempt finds is a match. -/
def Yields (g : FaithfulOutline) (q : Portion) (fields : Parts) (trees : List TokenTree)
    (a : Attempt Parts) : Prop :=
  ∀ fields' rest, a = .found fields' rest →
    ∃ more pieces, fields' = fields ++ more ∧ g.Matched q fields more trees rest pieces

variable {g : FaithfulOutline} {p : Production} {fields more final : Parts}
  {trees rest : List TokenTree} {pieces : List Piece}

/-! ### Productions with their attributes -/

theorem mem_asks {c : Condition} (h : p.attrs.condition = some c) : c.field ∈ p.asks := by
  cases p <;> simp_all [Production.asks, Production.attrs, Production.info]

theorem holds_congr {c : Condition} {has has' : String → Bool} (h : has c.field = has' c.field) :
    c.holds has = c.holds has' := by
  cases c <;> simp_all [Condition.holds, Condition.field]

/-- The facts about a production that do not depend on its kind. -/
structure Tidy (p : Production) : Prop where
  fields_sub : ∀ name ∈ p.info.fields, name ∈ p.sets
  sets_sub : ∀ name ∈ p.sets, name ∈ p.info.fields
  optional : p.attrs.optional = true → ∃ name, name ∈ p.musts
  condition : ∀ c, p.attrs.condition = some c → c.field ∉ p.sets

theorem tidy_of_faithful (h : p.faithful g.operands g.climb = true) : Tidy p := by
  unfold Production.faithful at h
  simp only [Bool.and_eq_true] at h
  obtain ⟨⟨⟨⟨hfields, hsets⟩, hoptional⟩, hcondition⟩, -⟩ := h
  refine ⟨?_, ?_, ?_, ?_⟩
  · intro name hname
    simpa using List.all_eq_true.1 hfields name hname
  · intro name hname
    simpa using List.all_eq_true.1 hsets name hname
  · intro ho
    rw [ho, Bool.not_true, Bool.false_or, Bool.not_eq_true', List.isEmpty_eq_false_iff_exists_mem]
      at hoptional
    exact hoptional
  · intro c hc
    simpa [hc] using hcondition

/-- What a condition says of the final fields is what it said when it was asked. -/
theorem condition_all (ht : Tidy p) (hnames : ∀ part ∈ more, part.1 ∈ p.sets)
    (hagrees : Parts.AgreesOn (p.sets ++ p.asks) final (fields ++ more)) :
    p.attrs.condition.all (·.holds final.has) = applies p fields := by
  rw [applies]
  cases hc : p.attrs.condition with
  | none => rfl
  | some c =>
      refine holds_congr ?_
      rw [hagrees.has (List.mem_append_right _ (mem_asks hc)), Parts.has,
        Parts.lookup_append_of_lacks (Parts.lookup_eq_none hnames (ht.condition c hc))]

/-- A production is passed over if its condition does not hold, or if it did not
have to match. -/
theorem matched_skipped (ht : Tidy p) (hlacks : Parts.Lacks fields p.sets)
    (hs : SoundAll g.dialect trees)
    (hskip : applies p fields = false ∨ p.attrs.optional = true) :
    g.Matched (p.portion g.dialect) fields [] trees trees [] := by
  have hopen : p.isOpen = true := by
    rcases hskip with happ | hopt
    · cases hc : p.attrs.condition with
      | none => simp [applies, hc] at happ
      | some c => simp [Production.isOpen, hc]
    · simp [Production.isOpen, hopt]
  have hskipped {final : Parts}
      (hagrees : Parts.AgreesOn (p.sets ++ p.asks) final (fields ++ [])) :
      p.isSkipped final.has = true := by
    have hnames : ∀ part ∈ ([] : Parts), part.1 ∈ p.sets := by simp
    rw [Production.isSkipped, condition_all ht hnames hagrees]
    rcases hskip with happ | hopt
    · simp [happ]
    · obtain ⟨name, hname⟩ := ht.optional hopt
      have hnonempty : p.info.fields ≠ [] :=
        List.ne_nil_of_mem (ht.sets_sub name (p.musts_sub name hname))
      have habsent (name : String) (hname : name ∈ p.info.fields) : final.has name = false := by
        have hset := ht.fields_sub name hname
        rw [hagrees.has (List.mem_append_left _ hset), List.append_nil, Parts.has,
          hlacks name hset]
        rfl
      have hany : p.info.fields.any final.has = false := by
        simpa using habsent
      simp [hopt, Production.isPresent, hnonempty, hany]
  constructor
  · exact .refl hs
  · simp
  · simp [Production.portion, hopen]
  · simp [Production.portion, hopen]
  · intro depth final context _ hagrees _
    exact (Writing.rule_eq ..).trans (if_pos (hskipped hagrees))
  · intro final hagrees
    change p.fits _ = true
    rw [Production.fits.eq_def, hskipped hagrees, Bool.true_or]

/-- A production that is not passed over is written as its body is. -/
theorem Matched.ofBody (ht : Tidy p) (happ : applies p fields = true)
    (h : g.Matched (p.bodyPortion g.dialect) fields more trees rest pieces) :
    g.Matched (p.portion g.dialect) fields more trees rest pieces := by
  have hkept {final : Parts}
      (hagrees : Parts.AgreesOn (p.sets ++ p.asks) final (fields ++ more)) :
      p.isSkipped final.has = false := by
    rw [Production.isSkipped, condition_all ht h.names hagrees, happ, Bool.not_true,
      Bool.false_or]
    cases hopt : p.attrs.optional with
    | false => rfl
    | true =>
        obtain ⟨name, hname⟩ := ht.optional hopt
        have hset := p.musts_sub name hname
        have hpresent : final.has name = true := by
          rw [hagrees.has (List.mem_append_left _ hset), Parts.has_append,
            Parts.has_of_mem (h.musts name hname), Bool.or_true]
        have hany : p.info.fields.any final.has = true :=
          List.any_eq_true.2 ⟨name, ht.sets_sub name hset, hpresent⟩
        simp [Production.isPresent, hany]
  constructor
  · exact h.reads
  · exact h.names
  · intro name hname
    apply h.musts
    simp only [Production.portion] at hname
    split at hname
    · cases hname
    · exact hname
  · intro minimum hedge
    apply h.edge
    simp only [Production.portion] at hedge
    split at hedge
    · cases hedge
    · exact hedge
  · intro depth final context hdepth hagrees htrails
    refine (Writing.rule_eq ..).trans ?_
    rw [show Scene.has _ = final.has from rfl, hkept hagrees, if_neg Bool.false_ne_true]
    exact h.writes depth final context hdepth hagrees htrails
  · exact h.fits

/-- What a rule finds, given what its body finds. -/
theorem yields_rule {fuel : Nat} (hf : p.faithful g.operands g.climb = true)
    (hlacks : Parts.Lacks fields p.sets) (hs : SoundAll g.dialect trees)
    (hbody : g.Yields (p.bodyPortion g.dialect) fields trees (g.body fuel p fields trees)) :
    g.Yields (p.portion g.dialect) fields trees (g.rule (fuel + 1) p fields trees) := by
  have ht := tidy_of_faithful hf
  intro fields' rest h
  rw [rule_succ] at h
  cases happ : applies p fields with
  | false =>
      rw [happ] at h
      cases h
      exact ⟨[], [], by simp, matched_skipped ht hlacks hs (.inl happ)⟩
  | true =>
      rw [happ] at h
      simp only [Bool.not_true, Bool.false_eq_true, if_false] at h
      cases hb : g.body fuel p fields trees with
      | stuck =>
          rw [hb] at h
          cases h
      | found fields'' rest'' =>
          rw [hb] at h
          cases h
          obtain ⟨more, pieces, heq, hmatched⟩ := hbody _ _ hb
          exact ⟨more, pieces, heq, hmatched.ofBody ht happ⟩
      | mismatch =>
          rw [hb, Attempt.orElse] at h
          split at h
          next hopt =>
            cases h
            exact ⟨[], [], by simp, matched_skipped ht hlacks hs (.inr hopt)⟩
          next => split at h <;> cases h

/-! ### Tokens -/

theorem token_found {kinds : List TokenKind} {values : List String} {name : Option String}
    {fields' : Parts} (h : token kinds values name fields trees = .found fields' rest) :
    ∃ tree, significant trees = tree :: rest ∧ Parsing.fits kinds values tree.token = true ∧
      fields' = fields ++ (name.map fun n => (n, .terminal (.ofToken tree.token))).toList := by
  unfold Outline.token at h
  split at h
  next => cases h
  next tree rest hsig =>
    split at h
    next hfits =>
      cases h
      exact ⟨tree, hsig, hfits, rfl⟩
    next => cases h

theorem isBlock_eq_false {kinds : List TokenKind} {values : List String} {t : Token}
    (hleaves : Production.leaves kinds = true) (h : Parsing.fits kinds values t = true) :
    t.kind.isBlock = false := by
  obtain ⟨hkind, -⟩ := Bool.and_eq_true_iff.1 h
  simpa using List.all_eq_true.1 hleaves t.kind (by simpa using hkind)

theorem tokens_found {name : String} {branches : List Production} {fields' : Parts}
    (hleaves : (branches.all fun b => b.token?.all fun t => Production.leaves t.1) = true)
    (h : tokens (some name) fields trees branches = .found fields' rest) :
    ∃ tree, significant trees = tree :: rest ∧ tree.token.kind.isBlock = false ∧
      fields' = fields ++ [(name, .terminal (.ofToken tree.token))] := by
  induction branches with
  | nil => cases h
  | cons p branches ih =>
      rw [List.all_cons, Bool.and_eq_true] at hleaves
      rw [tokens] at h
      cases ht : p.token? with
      | none =>
          rw [ht] at h
          exact ih hleaves.2 h
      | some kv =>
          obtain ⟨kinds, values⟩ := kv
          rw [ht] at h hleaves
          cases hfirst : token kinds values (some name) fields trees with
          | stuck =>
              simp only [hfirst] at h
              cases h
          | mismatch =>
              simp only [hfirst, Attempt.orElse] at h
              exact ih hleaves.2 h
          | found fields₁ rest₁ =>
              simp only [hfirst, Attempt.orElse] at h
              cases h
              obtain ⟨tree, hsig, hfits, rfl⟩ := token_found hfirst
              exact ⟨tree, hsig, isBlock_eq_false hleaves.1 hfits, rfl⟩

/-- A token that is kept in a field is written from there. -/
theorem matched_terminal {q : Portion} {name : String} {tree : TokenTree}
    (hs : SoundAll g.dialect trees) (hsig : significant trees = tree :: rest)
    (hkind : tree.token.kind.isBlock = false) (hsets : q.sets = [name]) (hmusts : q.musts = [name])
    (hedge : q.edge = none)
    (hwrite : ∀ child scene, q.write child scene = Writing.terminal g.dialect scene name)
    (hfits : ∀ has : String → Bool, has name = true → q.fits has = true)
    (hlacks : Parts.Lacks fields q.sets) :
    g.Matched q fields [(name, .terminal (.ofToken tree.token))] trees rest
      [(Terminal.ofToken tree.token).piece g.dialect] := by
  have hlookup {final : Parts} (hagrees : Parts.AgreesOn (q.sets ++ q.asks) final
      (fields ++ [(name, .terminal (.ofToken tree.token))])) :
      final.lookup name = some (.terminal (.ofToken tree.token)) := by
    have hname : name ∈ q.sets := by simp [hsets]
    rw [hagrees name (List.mem_append_left _ hname), List.lookup_append, hlacks name hname]
    simp
  constructor
  · exact .token hs hsig hkind
  · simp [hsets]
  · simp [hmusts]
  · simp [hedge]
  · intro depth final context _ hagrees _
    simp [hwrite, Writing.terminal, hlookup hagrees]
  · intro final hagrees
    apply hfits
    simp [Parts.has, hlookup hagrees]

theorem yields_token {info : RuleInfo} {kinds : List TokenKind} {values : List String}
    (hf : (Production.token info kinds values).faithful g.operands g.climb = true)
    (hlacks : Parts.Lacks fields (Production.token info kinds values).sets)
    (hs : SoundAll g.dialect trees) :
    g.Yields ((Production.token info kinds values).bodyPortion g.dialect) fields trees
      (token kinds values info.attrs.name fields trees) := by
  intro fields' rest h
  obtain ⟨tree, hsig, hfits, rfl⟩ := token_found h
  rw [Production.faithful.eq_def, Bool.and_eq_true] at hf
  obtain ⟨-, hf⟩ := hf
  dsimp only at hf
  cases hname : info.attrs.name with
  | some name =>
      rw [hname] at hf
      refine ⟨_, _, rfl, matched_terminal hs hsig (isBlock_eq_false hf hfits) ?_ ?_ rfl ?_ ?_
        hlacks⟩
      · simp [Production.bodyPortion, Production.portion, Production.sets, hname]
      · simp [Production.bodyPortion, Production.musts, hname]
      · intro child scene
        simp [Production.bodyPortion, Writing.body, hname]
      · intro has hhas
        simp [Production.bodyPortion, Production.portion, Production.fits, hname, hhas]
  | none =>
      simp only [hname, Option.isSome_none, Bool.false_eq_true, if_false] at hf
      split at hf
      next kind value =>
        refine ⟨[], [.text (fixedSpelling .upper kind value)], rfl, ?_⟩
        constructor
        · exact .fixed hf hs hsig hfits
        · nofun
        · simp [Production.bodyPortion, Production.musts, hname]
        · simp [Production.bodyPortion, Production.endEdge?, Production.edge?]
        · intro depth final context _ _ _
          simp [Production.bodyPortion, Writing.body, hname]
        · intro final _
          simp [Production.bodyPortion, Production.portion, Production.fits, hname]
      next => cases hf

/-! ### Productions one after the other -/

theorem disjoint_not_mem {names others : List String} {name : String}
    (h : Production.disjoint names others = true) (hname : name ∈ names) : name ∉ others := by
  simpa using List.all_eq_true.1 h name hname

theorem matched_nil (hs : SoundAll g.dialect trees) :
    g.Matched (Production.portionAll g.dialect []) fields [] trees trees [] where
  reads := .refl hs
  names := by simp
  musts := by simp [Production.portionAll, Production.mustsAll]
  edge := by simp [Production.portionAll, Production.lastEdge?]
  writes := by simp [Production.portionAll, Writing.all]
  fits := by simp [Production.portionAll, Production.fitsAll]

theorem endEdge_of_edge {minimum : Nat} (h : p.edge? = some minimum) :
    p.endEdge? = some minimum := by
  cases p <;> simp_all [Production.edge?, Production.endEdge?]

/-- Two matches one after the other. -/
theorem Matched.cons {parts : List Production} {more' : Parts} {rest' : List TokenTree}
    {pieces' : List Piece}
    (hf : Production.faithfulAll g.operands g.climb (p :: parts) = true)
    (h : g.Matched (p.portion g.dialect) fields more trees rest pieces)
    (h' : g.Matched (Production.portionAll g.dialect parts) (fields ++ more) more' rest rest'
      pieces')
    (hend : parts = [] → rest' = rest) :
    g.Matched (Production.portionAll g.dialect (p :: parts)) fields (more ++ more') trees rest'
      (pieces ++ pieces') := by
  simp only [Production.faithfulAll, Bool.and_eq_true, Bool.or_eq_true, Bool.not_eq_true',
    List.isEmpty_iff] at hf
  obtain ⟨⟨⟨⟨-, hsets⟩, hasks⟩, htrails⟩, -⟩ := hf
  -- What comes later neither sets the fields of the first production nor answers it.
  have hfirst {final : Parts} (hagrees : Parts.AgreesOn
      (Production.setsAll (p :: parts) ++ Production.asksAll (p :: parts)) final
      (fields ++ (more ++ more'))) :
      Parts.AgreesOn (p.sets ++ p.asks) final (fields ++ more) := by
    intro name hname
    have hlater : name ∉ Production.setsAll parts := by
      rcases List.mem_append.1 hname with hname | hname
      · exact disjoint_not_mem hsets hname
      · intro hmem
        exact disjoint_not_mem hasks hname (List.mem_append_right _ hmem)
    rw [hagrees name, ← List.append_assoc,
      Parts.lookup_append_of_lacks (Parts.lookup_eq_none h'.names hlater)]
    simp only [Production.setsAll, Production.asksAll, List.mem_append] at hname ⊢
    tauto
  have hrest {final : Parts} (hagrees : Parts.AgreesOn
      (Production.setsAll (p :: parts) ++ Production.asksAll (p :: parts)) final
      (fields ++ (more ++ more'))) :
      Parts.AgreesOn (Production.setsAll parts ++ Production.asksAll parts) final
        (fields ++ more ++ more') := by
    rw [List.append_assoc]
    refine hagrees.mono ?_
    intro name hname
    simp only [Production.setsAll, Production.asksAll, List.mem_append] at hname ⊢
    tauto
  constructor
  · exact h.reads.trans h'.reads
  · intro part hpart
    rw [List.mem_append] at hpart
    simp only [Production.portionAll, Production.setsAll, List.mem_append]
    exact hpart.imp (h.names part) (h'.names part)
  · intro name hname
    simp only [Production.portionAll, Production.mustsAll, List.mem_append] at hname
    rw [List.map_append, List.mem_append]
    exact hname.imp (h.musts name) (h'.musts name)
  · intro minimum hedge
    cases parts with
    | nil =>
        rw [hend rfl]
        apply h.edge
        simp only [Production.portionAll, Production.lastEdge?, Production.portion] at hedge ⊢
        split at hedge
        · cases hedge
        · rw [if_neg ‹_›]
          exact endEdge_of_edge hedge
    | cons p' parts => exact h'.edge minimum hedge
  · intro depth final context hdepth hagrees hfollows
    have hheights : Content.heightFields more ≤ depth ∧ Content.heightFields more' ≤ depth := by
      simp only [Forest.heightFields_le, List.mem_append] at hdepth ⊢
      exact ⟨fun f hf => hdepth f (.inl hf), fun f hf => hdepth f (.inr hf)⟩
    have hwrite := h.writes depth final context hheights.1 (hfirst hagrees) ?_
    have hwrite' := h'.writes depth final context hheights.2 (hrest hagrees) ?_
    · simp only [Production.portion, Production.portionAll] at hwrite hwrite' ⊢
      simp [Writing.all, hwrite, hwrite']
    · intro ht
      apply hfollows
      simp only [Production.portionAll, Production.trailsAny] at ht ⊢
      rw [ht, Bool.or_true]
    · intro ht
      have hnil : parts = [] := htrails.resolve_left (by simp [show p.trails = true from ht])
      rw [← hend hnil]
      apply hfollows
      simp only [Production.portionAll, Production.trailsAny]
      rw [show p.trails = true from ht, Bool.true_or]
  · intro final hagrees
    have hfits := h.fits (hfirst hagrees)
    have hfits' := h'.fits (hrest hagrees)
    simp only [Production.portion, Production.portionAll] at hfits hfits' ⊢
    simp [Production.fitsAll, hfits, hfits']

/-- A sequence is its parts. -/
theorem Matched.ofParts {info : RuleInfo} {parts : List Production}
    (h : g.Matched (Production.portionAll g.dialect parts) fields more trees rest pieces) :
    g.Matched ((Production.sequence info parts).bodyPortion g.dialect) fields more trees rest
      pieces := by
  have hparts {final : Parts} (hagrees : Parts.AgreesOn
      ((Production.sequence info parts).sets ++ (Production.sequence info parts).asks) final
      (fields ++ more)) :
      Parts.AgreesOn (Production.setsAll parts ++ Production.asksAll parts) final
        (fields ++ more) := by
    refine hagrees.mono ?_
    intro name hname
    simp only [Production.sets, Production.asks, List.mem_append] at hname ⊢
    exact hname.imp id .inr
  constructor
  · exact h.reads
  · exact h.names
  · exact h.musts
  · exact h.edge
  · intro depth final context hdepth hagrees hfollows
    exact h.writes depth final context hdepth (hparts hagrees) hfollows
  · intro final hagrees
    have hfits : Production.fitsAll (Parts.has final) parts = true := h.fits (hparts hagrees)
    change (Production.sequence info parts).fits _ = true
    rw [Production.fits.eq_def]
    simp [hfits]

/-! ### Alternatives -/

theorem setsAll_eq (branches : List Production) :
    Production.setsAll branches = branches.flatMap Production.sets := by
  induction branches with
  | nil => rfl
  | cons p rest ih => rw [Production.setsAll, ih, List.flatMap_cons]

theorem asksAll_eq (branches : List Production) :
    Production.asksAll branches = branches.flatMap Production.asks := by
  induction branches with
  | nil => rfl
  | cons p rest ih => rw [Production.asksAll, ih, List.flatMap_cons]

theorem trailsAny_eq (branches : List Production) :
    Production.trailsAny branches = branches.any Production.trails := by
  induction branches with
  | nil => rfl
  | cons p rest ih => rw [Production.trailsAny, ih, List.any_cons]

theorem fitsAny_eq (has : String → Bool) (branches : List Production) :
    Production.fitsAny has branches = branches.any (Production.fits has) := by
  induction branches with
  | nil => rfl
  | cons p rest ih => rw [Production.fitsAny, ih, List.any_cons]

theorem faithful_of_mem {branches : List Production}
    (h : Production.faithfulEach g.operands g.climb branches = true) (hp : p ∈ branches) :
    p.faithful g.operands g.climb = true ∧ p.isOpen = false := by
  induction branches with
  | nil => cases hp
  | cons q branches ih =>
      simp only [Production.faithfulEach, Bool.and_eq_true, Bool.not_eq_true'] at h
      rcases List.mem_cons.1 hp with rfl | hp
      · exact h.1
      · exact ih h.2 hp

/-- Branches before the one that matched have no place for what it must set. -/
theorem first_eq {branches : List Production} {child : Context → Content → Option (List Piece)}
    {scene : Scene} {present : List String} (hp : p ∈ branches)
    (htold : Production.toldApart branches = true)
    (hmusts : ∀ name ∈ p.musts, name ∈ present)
    (hpresent : (present.all p.info.fields.contains) = true) (hfits : p.fits scene.has = true) :
    Writing.first g.dialect child scene present branches =
      Writing.rule g.dialect child scene p := by
  induction branches with
  | nil => cases hp
  | cons q branches ih =>
      simp only [Production.toldApart, Bool.and_eq_true] at htold
      rw [Writing.first]
      rcases List.mem_cons.1 hp with rfl | hp
      · rw [if_pos (by simp only [hpresent, hfits, Bool.and_self])]
      · obtain ⟨name, hname, hnot⟩ := List.any_eq_true.1 (List.all_eq_true.1 htold.1 p hp)
        have hplace : present.all q.info.fields.contains = false := by
          apply List.all_eq_false.2
          exact ⟨name, hmusts name hname, by simpa using hnot⟩
        rw [if_neg (by simp [hplace])]
        exact ih hp htold.2

theorem Matched.ofBranch {info : RuleInfo} {branches : List Production}
    (hf : (Production.alternatives info branches).faithful g.operands g.climb = true)
    (hlacks : Parts.Lacks fields (Production.alternatives info branches).sets)
    (hname : info.attrs.name = none) (hp : p ∈ branches)
    (h : g.Matched (p.portion g.dialect) fields more trees rest pieces) :
    g.Matched ((Production.alternatives info branches).bodyPortion g.dialect) fields more trees
      rest pieces := by
  have ht := tidy_of_faithful hf
  rw [Production.faithful.eq_def, Bool.and_eq_true] at hf
  obtain ⟨-, hf⟩ := hf
  simp only [hname, Option.isSome_none, Bool.false_eq_true, if_false, Bool.and_eq_true] at hf
  obtain ⟨hfp, hopen⟩ := faithful_of_mem hf.1 hp
  have htp := tidy_of_faithful hfp
  have hsets : (Production.alternatives info branches).sets =
      branches.flatMap Production.sets := by
    simp [Production.sets, hname, setsAll_eq]
  have hbranch {final : Parts} (hagrees : Parts.AgreesOn
      ((Production.alternatives info branches).sets ++
        (Production.alternatives info branches).asks) final (fields ++ more)) :
      Parts.AgreesOn (p.sets ++ p.asks) final (fields ++ more) := by
    refine hagrees.mono ?_
    intro name hn
    simp only [hsets, Production.asks, asksAll_eq, List.mem_append, List.mem_flatMap] at hn ⊢
    exact hn.imp (⟨p, hp, ·⟩) fun hn => .inr ⟨p, hp, hn⟩
  constructor
  · exact h.reads
  · intro part hpart
    change part.1 ∈ (Production.alternatives info branches).sets
    rw [hsets]
    exact List.mem_flatMap.2 ⟨p, hp, h.names part hpart⟩
  · simp [Production.bodyPortion, Production.musts, hname]
  · simp [Production.bodyPortion, Production.endEdge?, Production.edge?]
  · intro depth final context hdepth hagrees hfollows
    have hwrite := h.writes depth final context hdepth (hbranch hagrees) fun htrails =>
      hfollows ((trailsAny_eq branches).trans (List.any_eq_true.2 ⟨p, hp, htrails⟩))
    have hfits : p.fits (Scene.has ⟨final, context, none⟩) = true := h.fits (hbranch hagrees)
    simp only [Production.bodyPortion, Writing.body, hname]
    rw [first_eq hp hf.2 ?_ ?_ hfits]
    · exact hwrite
    · intro name hn
      have hmem : name ∈ more.map Prod.fst := by
        apply h.musts
        simpa [Production.portion, hopen] using hn
      have hset : name ∈ (Production.alternatives info branches).sets := by
        rw [hsets]
        exact List.mem_flatMap.2 ⟨p, hp, p.musts_sub name hn⟩
      rw [List.mem_filter]
      refine ⟨ht.sets_sub name hset, ?_⟩
      change final.has name = true
      rw [hagrees.has (List.mem_append_left _ hset), Parts.has_append, Parts.has_of_mem hmem,
        Bool.or_true]
    · apply List.all_eq_true.2
      intro name hn
      obtain ⟨hfield, hhas⟩ := List.mem_filter.1 hn
      have hset := ht.fields_sub name hfield
      change final.has name = true at hhas
      rw [hagrees.has (List.mem_append_left _ hset), Parts.has_append, Parts.has,
        hlacks name hset, Option.isSome_none, Bool.false_or] at hhas
      by_contra hnot
      have hout : name ∉ p.sets := fun hmem => hnot (by simpa using htp.sets_sub name hmem)
      rw [Parts.has, Parts.lookup_eq_none h.names hout] at hhas
      cases hhas
  · intro final hagrees
    have hfits : Production.fitsAny (Parts.has final) branches = true :=
      (fitsAny_eq _ branches).trans (List.any_eq_true.2 ⟨p, hp, h.fits (hbranch hagrees)⟩)
    change (Production.alternatives info branches).fits _ = true
    rw [Production.fits.eq_def]
    simp [hname, hfits]

theorem yields_tokens {info : RuleInfo} {branches : List Production} {name : String}
    (hf : (Production.alternatives info branches).faithful g.operands g.climb = true)
    (hlacks : Parts.Lacks fields (Production.alternatives info branches).sets)
    (hs : SoundAll g.dialect trees) (hname : info.attrs.name = some name) :
    g.Yields ((Production.alternatives info branches).bodyPortion g.dialect) fields trees
      (tokens (some name) fields trees branches) := by
  intro fields' rest h
  rw [Production.faithful.eq_def, Bool.and_eq_true] at hf
  obtain ⟨-, hf⟩ := hf
  simp only [hname, Option.isSome_some, if_true] at hf
  obtain ⟨tree, hsig, hkind, rfl⟩ := tokens_found hf h
  refine ⟨_, _, rfl, matched_terminal hs hsig hkind ?_ ?_ rfl ?_ ?_ hlacks⟩
  · simp [Production.bodyPortion, Production.portion, Production.sets, hname]
  · simp [Production.bodyPortion, Production.musts, hname]
  · intro child scene
    simp [Production.bodyPortion, Writing.body, hname]
  · intro has hhas
    simp [Production.bodyPortion, Production.portion, Production.fits, hname, hhas]

/-! ### Blocks -/

theorem block_found {fuel : Nat} {bracket : Bracket} {inner : Production} {fields' : Parts}
    (h : g.block (fuel + 1) bracket inner fields trees = .found fields' rest) :
    ∃ t contents left, significant trees = .block t contents :: rest ∧
      t.kind = bracket.tokenKind ∧ g.rule fuel inner fields contents = .found fields' left ∧
      significant left = [] := by
  rw [Outline.block] at h
  split at h
  next t contents rest' hsig =>
    split at h
    next => cases h
    next hkind =>
      cases hr : g.rule fuel inner fields contents with
      | stuck =>
          rw [hr] at h
          cases h
      | mismatch =>
          rw [hr] at h
          cases h
      | found fields'' left =>
          rw [hr] at h
          simp only [closed, Attempt.andThen] at h
          split at h
          next hempty =>
            cases h
            exact ⟨t, contents, left, hsig, not_not.1 hkind, hr, List.isEmpty_iff.1 hempty⟩
          next => cases h
  next => cases h

/-- The pieces of a block are those of its contents with brackets around them. -/
theorem reads_block {bracket : Bracket} {t : Token} {contents left : List TokenTree}
    (hs : SoundAll g.dialect trees) (hsig : significant trees = .block t contents :: rest)
    (hkind : t.kind = bracket.tokenKind) (hleft : significant left = [])
    (h : Reads g.dialect contents left pieces) :
    Reads g.dialect trees rest (bracket.around pieces) := by
  obtain ⟨-, hreads⟩ := Reads.next hs hsig
  have hnone : piecesAll g.dialect left = [] := by
    rw [← (piecesAll_significant h.sound).2, hleft]
    rfl
  have hbracket : Bracket.ofTokenKind? t.kind = some bracket := by
    rw [hkind]
    cases bracket <;> rfl
  rw [TokenTree.pieces, hbracket] at hreads
  simpa only [h.eq, hnone, List.append_nil] using hreads

theorem Matched.ofInner {info : RuleInfo} {bracket : Bracket} {inner : Production} {t : Token}
    {contents left : List TokenTree}
    (hf : (Production.block info bracket inner).faithful g.operands g.climb = true)
    (hs : SoundAll g.dialect trees) (hsig : significant trees = .block t contents :: rest)
    (hkind : t.kind = bracket.tokenKind) (hleft : significant left = [])
    (h : g.Matched (inner.portion g.dialect) fields more contents left pieces) :
    g.Matched ((Production.block info bracket inner).bodyPortion g.dialect) fields more trees rest
      (bracket.around pieces) := by
  rw [Production.faithful.eq_def, Bool.and_eq_true] at hf
  obtain ⟨-, hf⟩ := hf
  simp only [Bool.and_eq_true, Bool.or_eq_true, Bool.not_eq_true'] at hf
  obtain ⟨hinner, hparens⟩ := hf
  have hti := tidy_of_faithful hinner
  have hagree {final : Parts} (hagrees : Parts.AgreesOn
      ((Production.block info bracket inner).sets ++ (Production.block info bracket inner).asks)
      final (fields ++ more)) : Parts.AgreesOn (inner.sets ++ inner.asks) final (fields ++ more) := by
    refine hagrees.mono ?_
    intro name hn
    simp only [Production.sets, Production.asks, List.mem_append] at hn ⊢
    exact hn.imp id .inr
  constructor
  · exact reads_block hs hsig hkind hleft h.reads
  · exact h.names
  · exact h.musts
  · simp [Production.bodyPortion, Production.endEdge?, Production.edge?]
  · intro depth final context hdepth hagrees _
    have hwrite := h.writes depth final .free hdepth (hagree hagrees) fun _ => follows_zero left
    simp only [Production.portion] at hwrite
    simp only [Production.bodyPortion, Writing.body, hwrite, Option.map_some]
    rw [if_neg]
    · rfl
    · -- Brackets that may be left out are around something that is there.
      rcases hparens with hparens | ⟨hopen, hmusts⟩
      · simp [hparens]
      · obtain ⟨name, hname⟩ := List.isEmpty_eq_false_iff_exists_mem.1 hmusts
        have hset := inner.musts_sub name hname
        have hmem : name ∈ more.map Prod.fst := by
          apply h.musts
          simpa [Production.portion, hopen] using hname
        have hhas : final.has name = true := by
          rw [(hagree hagrees).has (List.mem_append_left _ hset), Parts.has_append,
            Parts.has_of_mem hmem, Bool.or_true]
        have hany : inner.info.fields.any (Scene.has ⟨final, context, none⟩) = true :=
          List.any_eq_true.2 ⟨name, hti.sets_sub name hset, hhas⟩
        simp [hany]
  · intro final hagrees
    have hfits : inner.fits (Parts.has final) = true := h.fits (hagree hagrees)
    change (Production.block info bracket inner).fits _ = true
    rw [Production.fits.eq_def]
    simp [hfits]

end FaithfulOutline

end DualSql
