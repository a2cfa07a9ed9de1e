import DualSql.Proofs.Grammar.Matching

/-! # Writing undoes parsing

Where parsing finds a tree, writing the tree gives the pieces of the tokens
that were read for it, one for one.

Main definition: `Inverts`, what is to be shown of the functions of the outline
at some fuel. Main result: `inverts`. -/

namespace DualSql.FaithfulOutline

open TokenTree Outline

/-- A type that is matched by its own rule. -/
def Declares (g : FaithfulOutline) (tag : String) : Prop :=
  ∃ rule, g.registry.type? tag = some (.declared rule)

/-- The pieces of items, the first of which may need a separator before it. -/
def led (first : Bool) (separator : Option String) (items : List (List Piece)) : List Piece :=
  if first then Writing.between separator items
  else items.flatMap fun item => (separator.map Piece.text).toList ++ item

/-- What is read for a tree is what is written for it. -/
structure Inverts (g : FaithfulOutline) (fuel : Nat) : Prop where
  node {tag : String} {trees : List TokenTree} {x : Content} {rest : List TokenTree} :
    SoundAll g.dialect trees → g.node fuel tag trees = .found x rest →
    ∃ pieces, Reads g.dialect trees rest pieces ∧
      ∀ minimum, minimum = 0 ∨ g.Declares tag → g.Written minimum x rest pieces
  any {types : List String} {trees : List TokenTree} {x : Content} {rest : List TokenTree} :
    SoundAll g.dialect trees → g.any fuel types trees = .found x rest →
    ∃ pieces, Reads g.dialect trees rest pieces ∧
      ∀ minimum, (minimum = 0 ∨ ∀ tag ∈ types, g.Declares tag) → g.Written minimum x rest pieces
  type {tag : String} {trees : List TokenTree} {x : Content} {rest : List TokenTree} :
    g.Declares tag → SoundAll g.dialect trees → g.type fuel tag trees = .found x rest →
    ∃ pieces, Reads g.dialect trees rest pieces ∧ ∀ minimum, g.Written minimum x rest pieces
  climbing {minimum : Nat} {trees : List TokenTree} {x : Content} {rest : List TokenTree} :
    SoundAll g.dialect trees →
    g.climbing fuel g.operands g.climb minimum trees = .found x rest →
    ∃ pieces, Reads g.dialect trees rest pieces ∧ g.Written minimum x rest pieces ∧
      g.Stops minimum rest
  extending {minimum : Nat} {left : Content} {trees : List TokenTree} {before : List Piece}
      {x : Content} {rest : List TokenTree} :
    SoundAll g.dialect trees → g.Extensible minimum left trees before →
    g.extending fuel g.operands g.climb minimum left trees = .found x rest →
    ∃ pieces, Reads g.dialect trees rest pieces ∧
      g.Written minimum x rest (before ++ pieces) ∧ g.Stops minimum rest
  rule {p : Production} {fields : Parts} {trees : List TokenTree} :
    p.faithful g.operands g.climb = true → Parts.Lacks fields p.sets →
    SoundAll g.dialect trees →
    g.Yields (p.portion g.dialect) fields trees (g.rule fuel p fields trees)
  all {parts : List Production} {fields : Parts} {trees : List TokenTree} :
    Production.faithfulAll g.operands g.climb parts = true →
    Parts.Lacks fields (Production.setsAll parts) → SoundAll g.dialect trees →
    g.Yields (Production.portionAll g.dialect parts) fields trees (g.all fuel parts fields trees)
  first {branches : List Production} {fields fields' : Parts} {trees rest : List TokenTree} :
    Production.faithfulEach g.operands g.climb branches = true →
    Parts.Lacks fields (Production.setsAll branches) → SoundAll g.dialect trees →
    g.first fuel branches fields trees = .found fields' rest →
    ∃ p ∈ branches, ∃ more pieces, fields' = fields ++ more ∧
      g.Matched (p.portion g.dialect) fields more trees rest pieces
  block {info : RuleInfo} {bracket : Bracket} {inner : Production} {fields : Parts}
      {trees : List TokenTree} :
    (Production.block info bracket inner).faithful g.operands g.climb = true →
    Parts.Lacks fields inner.sets → SoundAll g.dialect trees →
    g.Yields ((Production.block info bracket inner).bodyPortion g.dialect) fields trees
      (g.block fuel bracket inner fields trees)
  field {info : RuleInfo} {types : List String} {climb : Option Climb} {fields : Parts}
      {trees : List TokenTree} :
    (Production.node info types climb).faithful g.operands g.climb = true →
    Parts.Lacks fields (Production.node info types climb).sets → SoundAll g.dialect trees →
    g.Yields ((Production.node info types climb).bodyPortion g.dialect) fields trees
      (g.field fuel info types climb fields trees)
  operand {info : RuleInfo} {types : List String} {climb : Option Climb}
      {trees : List TokenTree} {x : Content} {rest : List TokenTree} :
    (Production.node info types climb).faithful g.operands g.climb = true →
    SoundAll g.dialect trees → g.operand fuel info types climb trees = .found x rest →
    ∃ pieces, Reads g.dialect trees rest pieces ∧
      g.Written (info.attrs.minPrecedence.getD 0) x rest pieces ∧
      (climb.isSome = true → g.Stops (info.attrs.minPrecedence.getD 0) rest)
  items {info : RuleInfo} {types : List String} {climb : Option Climb} {arity : Arity}
      {sofar xs : List Content} {trees rest : List TokenTree} :
    (Production.node info types climb).faithful g.operands g.climb = true →
    SoundAll g.dialect trees →
    g.items fuel info types climb arity sofar trees = .found xs rest →
    ∃ more pieces, xs = sofar ++ more ∧ Reads g.dialect trees rest pieces ∧
      ∀ depth, Content.heightItems more ≤ depth →
        ∃ parts, more.mapM (g.write depth .free) = some parts ∧
          pieces = led sofar.isEmpty info.attrs.separator parts

variable {g : FaithfulOutline}

theorem inverts_zero : g.Inverts 0 := by
  constructor
  all_goals
    intros
    simp_all [Outline.node, Outline.any, Outline.type, Outline.climbing, Outline.extending,
      Outline.rule, Outline.all, Outline.first, Outline.block, Outline.field, Outline.operand,
      Outline.items, Yields]

/-! ### Trees -/

variable {fuel : Nat} {minimum : Nat} {tag : String} {types : List String}
  {trees rest : List TokenTree} {x left : Content} {before : List Piece}

/-- No brackets are put around a tree that was matched by its own rule. -/
theorem needsBrackets_eq_false {root : Production} {context : Context}
    (hbinding : root.operandBinding? = root.endEdge?.map (· - 1))
    (hedge : ∀ minimum, root.endEdge? = some minimum → g.Stops minimum rest)
    (hfollows : g.Follows context.trailing rest) :
    Rendering.needsBrackets root none context = false := by
  rw [Rendering.needsBrackets, hbinding]
  cases he : root.endEdge? with
  | none => rfl
  | some minimum =>
      have hstops := hedge minimum he context.trailing hfollows
      simp only [Option.map_some, Option.any_some, decide_eq_false_iff_not]
      omega

theorem type_step (ih : g.Inverts fuel) (hd : g.Declares tag) (hs : SoundAll g.dialect trees)
    (h : g.type (fuel + 1) tag trees = .found x rest) :
    ∃ pieces, Reads g.dialect trees rest pieces ∧ ∀ minimum, g.Written minimum x rest pieces := by
  obtain ⟨rule, htype⟩ := hd
  rw [Outline.type] at h
  split at h
  next => cases h
  next schema hschema =>
    split at h
    next => cases h
    next root hroot =>
      cases hr : g.rule fuel root [] trees with
      | stuck =>
          rw [hr] at h
          cases h
      | mismatch =>
          rw [hr] at h
          cases h
      | found fields rest' =>
          rw [hr] at h
          cases h
          have hfaithful := g.faithful tag rule schema root htype hschema hroot
          simp only [Production.faithfulRoot, Bool.and_eq_true, Bool.not_eq_true',
            beq_iff_eq] at hfaithful
          obtain ⟨⟨hf, hopen⟩, hbinding⟩ := hfaithful
          obtain ⟨more, pieces, rfl, hmatched⟩ := ih.rule hf (fun _ _ => rfl) hs _ _ hr
          refine ⟨pieces, hmatched.reads, ?_⟩
          intro minimum depth context hdepth _ hfollows
          obtain ⟨depth, rfl⟩ : ∃ n, depth = n + 1 := by
            refine ⟨depth - 1, ?_⟩
            rw [Content.height] at hdepth
            omega
          rw [Content.height, Nat.succ_le_succ_iff] at hdepth
          have hbrackets := needsBrackets_eq_false hbinding (fun minimum hedge =>
            hmatched.edge minimum (by simpa [Production.portion, hopen] using hedge)) hfollows
          have hwrite := hmatched.writes depth _ context hdepth (fun _ _ => rfl) fun _ => hfollows
          rw [Outline.write, htype, hschema]
          simp only [hroot, Option.bind_some, NodeType.climb?, Option.map_none, Writing.shape,
            hbrackets, Bool.false_eq_true, if_false]
          exact hwrite

theorem node_step (ih : g.Inverts fuel) (hs : SoundAll g.dialect trees)
    (h : g.node (fuel + 1) tag trees = .found x rest) :
    ∃ pieces, Reads g.dialect trees rest pieces ∧
      ∀ minimum, minimum = 0 ∨ g.Declares tag → g.Written minimum x rest pieces := by
  rw [Outline.node] at h
  split at h
  next => cases h
  next rule htype =>
    obtain ⟨pieces, hreads, hwritten⟩ := ih.type ⟨rule, htype⟩ hs h
    exact ⟨pieces, hreads, fun minimum _ => hwritten minimum⟩
  next types climb rule htype =>
    obtain ⟨rfl, rfl⟩ := g.climbs tag types climb rule htype
    cases hc : g.climbing fuel g.operands g.climb 0 trees with
    | stuck =>
        rw [hc] at h
        cases h
    | mismatch =>
        rw [hc] at h
        cases h
    | found y rest' =>
        rw [hc] at h
        simp only [Attempt.andThen] at h
        split at h
        next =>
          cases h
          obtain ⟨pieces, hreads, hwritten, -⟩ := ih.climbing hs hc
          refine ⟨pieces, hreads, ?_⟩
          rintro minimum (rfl | ⟨rule', hdeclared⟩)
          · exact hwritten
          · rw [htype] at hdeclared
            cases hdeclared
        next => cases h

theorem any_step (ih : g.Inverts fuel) (hs : SoundAll g.dialect trees)
    (h : g.any (fuel + 1) types trees = .found x rest) :
    ∃ pieces, Reads g.dialect trees rest pieces ∧
      ∀ minimum, (minimum = 0 ∨ ∀ tag ∈ types, g.Declares tag) →
        g.Written minimum x rest pieces := by
  cases types with
  | nil =>
      rw [Outline.any] at h
      cases h
  | cons tag types =>
      rw [Outline.any] at h
      cases hn : g.node fuel tag trees with
      | stuck =>
          rw [hn] at h
          cases h
      | mismatch =>
          rw [hn] at h
          obtain ⟨pieces, hreads, hwritten⟩ := ih.any hs h
          refine ⟨pieces, hreads, fun minimum hmin => hwritten minimum ?_⟩
          exact hmin.imp_right fun hall tag htag => hall tag (List.mem_cons_of_mem _ htag)
      | found y rest' =>
          rw [hn] at h
          cases h
          obtain ⟨pieces, hreads, hwritten⟩ := ih.node hs hn
          refine ⟨pieces, hreads, fun minimum hmin => hwritten minimum ?_⟩
          exact hmin.imp_right fun hall => hall tag List.mem_cons_self

theorem climbing_step (ih : g.Inverts fuel) (hs : SoundAll g.dialect trees)
    (h : g.climbing (fuel + 1) g.operands g.climb minimum trees = .found x rest) :
    ∃ pieces, Reads g.dialect trees rest pieces ∧ g.Written minimum x rest pieces ∧
      g.Stops minimum rest := by
  rw [Outline.climbing] at h
  cases ha : g.any fuel g.operands trees with
  | stuck =>
      rw [ha] at h
      cases h
  | mismatch =>
      rw [ha] at h
      cases h
  | found left rest' =>
      rw [ha] at h
      obtain ⟨before, hbefore, hleft⟩ := ih.any hs ha
      have hext : g.Extensible minimum left rest' before :=
        ⟨hleft minimum (.inr g.declared), fun _ _ _ _ _ => hleft _ (.inr g.declared)⟩
      obtain ⟨pieces, hreads, hwritten, hstops⟩ := ih.extending hbefore.sound hext h
      exact ⟨before ++ pieces, hbefore.trans hreads, hwritten, hstops⟩

theorem extending_step (ih : g.Inverts fuel) (hs : SoundAll g.dialect trees)
    (hleft : g.Extensible minimum left trees before)
    (h : g.extending (fuel + 1) g.operands g.climb minimum left trees = .found x rest) :
    ∃ pieces, Reads g.dialect trees rest pieces ∧
      g.Written minimum x rest (before ++ pieces) ∧ g.Stops minimum rest := by
  have hstay (hstops : g.Stops minimum trees) :
      ∃ pieces, Reads g.dialect trees trees pieces ∧
        g.Written minimum left trees (before ++ pieces) ∧ g.Stops minimum trees :=
    ⟨[], .refl hs, by simpa using hleft.alone, hstops⟩
  rw [Outline.extending] at h
  cases hop : operator minimum trees with
  | none =>
      rw [hop] at h
      cases h
      exact hstay (stops_of_operator_eq_none hop)
  | some next =>
      obtain ⟨t, info, after⟩ := next
      rw [hop] at h
      simp only at h
      cases hc : g.climbing fuel g.operands g.climb (Parsing.nextMinimum info) after with
      | stuck =>
          rw [hc] at h
          cases h
      | mismatch =>
          rw [hc] at h
          cases h
          exact hstay (stops_of_mismatch hop hc)
      | found right rest' =>
          rw [hc] at h
          obtain ⟨htoken, -⟩ := reads_operator hs hop
          obtain ⟨pieces, hreads, hright, hstops⟩ := ih.climbing htoken.sound hc
          have hext := extensible_joined hs hop hc hleft hright hreads.sound hstops
          obtain ⟨pieces', hreads', hwritten, hstops'⟩ := ih.extending hreads.sound hext h
          refine ⟨_, htoken.trans (hreads.trans hreads'), ?_, hstops'⟩
          simpa only [List.append_assoc] using hwritten

/-! ### Fields -/

variable {info : RuleInfo} {climb : Option Climb} {arity : Arity} {sofar xs : List Content}
  {fields : Parts}

/-- What is known of a production for trees. -/
theorem faithful_node
    (hf : (Production.node info types climb).faithful g.operands g.climb = true) :
    info.attrs.name.isSome = true ∧
      info.attrs.separator.all Production.plainSeparator = true ∧
      (climb = none → info.attrs.minPrecedence = none) ∧
      ∀ c, climb = some c → types = g.operands ∧ c = g.climb := by
  rw [Production.faithful.eq_def, Bool.and_eq_true] at hf
  obtain ⟨-, hf⟩ := hf
  simp only [Bool.and_eq_true] at hf
  obtain ⟨⟨hname, hseparator⟩, hclimb⟩ := hf
  refine ⟨hname, hseparator, ?_, ?_⟩
  · rintro rfl
    simpa using hclimb
  · rintro c rfl
    simpa using hclimb

theorem operand_step (ih : g.Inverts fuel)
    (hf : (Production.node info types climb).faithful g.operands g.climb = true)
    (hs : SoundAll g.dialect trees)
    (h : g.operand (fuel + 1) info types climb trees = .found x rest) :
    ∃ pieces, Reads g.dialect trees rest pieces ∧
      g.Written (info.attrs.minPrecedence.getD 0) x rest pieces ∧
      (climb.isSome = true → g.Stops (info.attrs.minPrecedence.getD 0) rest) := by
  obtain ⟨-, -, hnone, hsome⟩ := faithful_node hf
  cases climb with
  | none =>
      rw [Outline.operand] at h
      obtain ⟨pieces, hreads, hwritten⟩ := ih.any hs h
      refine ⟨pieces, hreads, ?_, fun hclimb => absurd hclimb Bool.false_ne_true⟩
      rw [hnone rfl]
      exact hwritten 0 (.inl rfl)
  | some c =>
      obtain ⟨rfl, rfl⟩ := hsome c rfl
      rw [Outline.operand] at h
      obtain ⟨pieces, hreads, hwritten, hstops⟩ := ih.climbing hs h
      exact ⟨pieces, hreads, hwritten, fun _ => hstops⟩

/-- The separator before an item is written as it stands. -/
theorem separate_reads {separator : Option String} {b : Bool}
    (hplain : separator.all Production.plainSeparator = true) (hs : SoundAll g.dialect trees)
    (h : separate separator sofar trees = (b, rest)) :
    Reads g.dialect trees rest
      (if b && !sofar.isEmpty then (separator.map Piece.text).toList else []) := by
  unfold separate at h
  split at h
  next =>
    cases h
    simpa using Reads.refl hs
  next symbol =>
    split at h
    next hempty =>
      cases h
      simpa [hempty] using Reads.refl hs
    next hempty =>
      obtain ⟨hsound, hpieces⟩ := piecesAll_significant hs
      split at h
      next hsig =>
        cases h
        rw [hsig] at hsound hpieces
        exact ⟨hsound, hpieces.symm⟩
      next tree rest hsig =>
        split at h
        next hsep =>
          cases h
          simpa [hempty] using Reads.separator hplain hs hsig hsep
        next =>
          cases h
          rw [hsig] at hsound hpieces
          exact ⟨hsound, hpieces.symm⟩

theorem led_cons (first : Bool) (separator : Option String) (item : List Piece)
    (items : List (List Piece)) :
    led first separator (item :: items) =
      (if first then [] else (separator.map Piece.text).toList) ++
        (item ++ led false separator items) := by
  cases first <;> simp [led, Writing.between]

theorem items_step (ih : g.Inverts fuel)
    (hf : (Production.node info types climb).faithful g.operands g.climb = true)
    (hs : SoundAll g.dialect trees)
    (h : g.items (fuel + 1) info types climb arity sofar trees = .found xs rest) :
    ∃ more pieces, xs = sofar ++ more ∧ Reads g.dialect trees rest pieces ∧
      ∀ depth, Content.heightItems more ≤ depth →
        ∃ parts, more.mapM (g.write depth .free) = some parts ∧
          pieces = led sofar.isEmpty info.attrs.separator parts := by
  obtain ⟨-, hplain, -, -⟩ := faithful_node hf
  have hnone {rest : List TokenTree} (hreads : Reads g.dialect trees rest []) :
      ∃ more pieces, sofar = sofar ++ more ∧ Reads g.dialect trees rest pieces ∧
        ∀ depth, Content.heightItems more ≤ depth →
          ∃ parts, more.mapM (g.write depth .free) = some parts ∧
            pieces = led sofar.isEmpty info.attrs.separator parts := by
    refine ⟨[], [], by simp, hreads, fun depth _ => ⟨[], rfl, ?_⟩⟩
    cases sofar.isEmpty <;> rfl
  rw [Outline.items] at h
  split at h
  next =>
    cases h
    exact hnone (.refl hs)
  next =>
    rcases hsep : separate info.attrs.separator sofar trees with ⟨_ | _, rest₁⟩
    · rw [hsep] at h
      cases h
      exact hnone (by simpa using separate_reads hplain hs hsep)
    · rw [hsep] at h
      simp only at h
      have hreads₁ := separate_reads hplain hs hsep
      cases ho : g.operand fuel info types climb rest₁ with
      | stuck =>
          rw [ho] at h
          cases h
      | mismatch =>
          rw [ho] at h
          cases h
          exact hnone (.refl hs)
      | found y rest₂ =>
          rw [ho] at h
          simp only at h
          split at h
          next =>
            cases h
            exact hnone (.refl hs)
          next =>
            obtain ⟨item, hreads₂, hwritten, -⟩ := ih.operand hf hreads₁.sound ho
            obtain ⟨more, pieces, rfl, hreads₃, hmore⟩ := ih.items hf hreads₂.sound h
            refine ⟨y :: more, _, by simp, hreads₁.trans (hreads₂.trans hreads₃), ?_⟩
            intro depth hdepth
            rw [Content.heightItems, Nat.max_le] at hdepth
            obtain ⟨parts, hparts, rfl⟩ := hmore depth hdepth.2
            refine ⟨item :: parts, ?_, ?_⟩
            · simp [List.mapM_cons, hwritten.free hdepth.1, hparts]
            · rw [led_cons]
              cases sofar <;> simp

/-- What is kept in a field is written from there. -/
theorem matched_field {name : String} {y : Content} {pieces : List Piece}
    (hname : info.attrs.name = some name)
    (hlacks : Parts.Lacks fields (Production.node info types climb).sets)
    (hreads : Reads g.dialect trees rest pieces)
    (hedge : ∀ minimum, (Production.node info types climb).edge? = some minimum →
      g.Stops minimum rest)
    (hwrite : ∀ depth final context, y.height ≤ depth → final.lookup name = some y →
      ((Production.node info types climb).trails = true → g.Follows context.trailing rest) →
      Writing.children (g.write depth) ⟨final, context, none⟩ info name = some pieces) :
    g.Matched ((Production.node info types climb).bodyPortion g.dialect) fields [(name, y)] trees
      rest pieces := by
  have hsets : (Production.node info types climb).sets = [name] := by
    simp [Production.sets, hname]
  have hlookup {final : Parts} (hagrees : Parts.AgreesOn
      ((Production.node info types climb).sets ++ (Production.node info types climb).asks) final
      (fields ++ [(name, y)])) : final.lookup name = some y := by
    have hmem : name ∈ (Production.node info types climb).sets := by simp [hsets]
    rw [hagrees name (List.mem_append_left _ hmem), List.lookup_append, hlacks name hmem]
    simp
  constructor
  · exact hreads
  · simp [Production.bodyPortion, Production.portion, hsets]
  · simp [Production.bodyPortion, Production.musts, hname]
  · exact hedge
  · intro depth final context hdepth hagrees hfollows
    have hheight : y.height ≤ depth := by simpa [Content.heightFields] using hdepth
    simp only [Production.bodyPortion, Writing.body, hname]
    exact hwrite depth final context hheight (hlookup hagrees) hfollows
  · intro final hagrees
    have hhas : final.has name = true := by simp [Parts.has, hlookup hagrees]
    simp [Production.bodyPortion, Production.portion, Production.fits, hname, hhas]

/-- A single tree in a field. -/
theorem yields_child (ih : g.Inverts fuel) {name : String} (hname : info.attrs.name = some name)
    (harity : info.attrs.arity = none)
    (hf : (Production.node info types climb).faithful g.operands g.climb = true)
    (hlacks : Parts.Lacks fields (Production.node info types climb).sets)
    (hs : SoundAll g.dialect trees) :
    g.Yields ((Production.node info types climb).bodyPortion g.dialect) fields trees
      ((g.operand fuel info types climb trees).map fun x => fields ++ [(name, x)]) := by
  intro fields' rest h
  cases ho : g.operand fuel info types climb trees with
  | stuck =>
      rw [ho] at h
      cases h
  | mismatch =>
      rw [ho] at h
      cases h
  | found x rest' =>
      rw [ho] at h
      cases h
      obtain ⟨pieces, hreads, hwritten, hstops⟩ := ih.operand hf hs ho
      obtain ⟨tag, parts, rfl⟩ := exists_node (hwritten.free (Nat.le_refl _))
      refine ⟨_, pieces, rfl, matched_field hname hlacks hreads ?_ ?_⟩
      · intro minimum hedge
        cases climb with
        | none => cases hedge
        | some c =>
            simp only [Production.edge?, harity, Option.isNone_none, if_true] at hedge
            simpa [hedge] using hstops rfl
      · intro depth final context hdepth hlookup hfollows
        rw [Writing.children, hlookup]
        -- Without a least precedence of its own the child stands free.
        cases hprec : info.attrs.minPrecedence with
        | none =>
            have hcontext : Scene.childContext ⟨final, context, none⟩ info name = .free := by
              simp [Scene.childContext, Frame.childContext, hprec]
            simp only [hcontext]
            exact hwritten.free hdepth
        | some minimum =>
            have hcontext : Scene.childContext ⟨final, context, none⟩ info name =
                ⟨minimum, context.trailing⟩ := by
              simp [Scene.childContext, Frame.childContext, hprec]
            simp only [hcontext]
            refine hwritten depth _ hdepth (by simp [hprec]) (hfollows ?_)
            simp [Production.trails, harity, hprec]

/-- A list of trees in a field. -/
theorem yields_list (ih : g.Inverts fuel) {name : String} (hname : info.attrs.name = some name)
    (harity : info.attrs.arity = some arity)
    (hf : (Production.node info types climb).faithful g.operands g.climb = true)
    (hlacks : Parts.Lacks fields (Production.node info types climb).sets)
    (hs : SoundAll g.dialect trees) :
    g.Yields ((Production.node info types climb).bodyPortion g.dialect) fields trees
      ((g.items fuel info types climb arity [] trees).andThen fun xs rest =>
        if xs.length < arity.least then .mismatch
        else .found (fields ++ [(name, .list xs)]) rest) := by
  intro fields' rest h
  cases hi : g.items fuel info types climb arity [] trees with
  | stuck =>
      rw [hi] at h
      cases h
  | mismatch =>
      rw [hi] at h
      cases h
  | found xs rest' =>
      rw [hi] at h
      simp only [Attempt.andThen] at h
      split at h
      next => cases h
      next =>
        cases h
        obtain ⟨more, pieces, rfl, hreads, hwritten⟩ := ih.items hf hs hi
        refine ⟨_, pieces, rfl, matched_field hname hlacks hreads ?_ ?_⟩
        · intro minimum hedge
          cases climb <;> simp [Production.edge?, harity] at hedge
        · intro depth final context hdepth hlookup _
          obtain ⟨parts, hparts, rfl⟩ := hwritten depth (by simpa [Content.height] using hdepth)
          rw [Writing.children, hlookup]
          simp [Writing.items, hparts, led]

theorem field_step (ih : g.Inverts fuel)
    (hf : (Production.node info types climb).faithful g.operands g.climb = true)
    (hlacks : Parts.Lacks fields (Production.node info types climb).sets)
    (hs : SoundAll g.dialect trees) :
    g.Yields ((Production.node info types climb).bodyPortion g.dialect) fields trees
      (g.field (fuel + 1) info types climb fields trees) := by
  rw [Outline.field]
  split
  next =>
    intro fields' rest h
    cases h
  next name hname =>
    split
    next harity => exact yields_child ih hname harity hf hlacks hs
    next arity harity => exact yields_list ih hname harity hf hlacks hs

/-! ### Productions -/

theorem body_step (ih : g.Inverts fuel) {p : Production}
    (hf : p.faithful g.operands g.climb = true) (hlacks : Parts.Lacks fields p.sets)
    (hs : SoundAll g.dialect trees) :
    g.Yields (p.bodyPortion g.dialect) fields trees (g.body fuel p fields trees) := by
  cases p with
  | token info kinds values => exact yields_token hf hlacks hs
  | node info types climb => exact ih.field hf hlacks hs
  | sequence info parts =>
      rw [Production.faithful.eq_def, Bool.and_eq_true] at hf
      intro fields' rest h
      obtain ⟨more, pieces, heq, hmatched⟩ := ih.all hf.2 hlacks hs _ _ h
      exact ⟨more, pieces, heq, hmatched.ofParts⟩
  | alternatives info branches =>
      rw [Outline.body]
      cases hname : info.attrs.name with
      | some name => exact yields_tokens hf hlacks hs hname
      | none =>
          intro fields' rest h
          have heach : Production.faithfulEach g.operands g.climb branches = true := by
            rw [Production.faithful.eq_def, Bool.and_eq_true] at hf
            simp only [hname, Option.isSome_none, Bool.false_eq_true, if_false,
              Bool.and_eq_true] at hf
            exact hf.2.1
          have hlacks' : Parts.Lacks fields (Production.setsAll branches) := by
            simpa [Production.sets, hname] using hlacks
          obtain ⟨p, hp, more, pieces, heq, hmatched⟩ := ih.first heach hlacks' hs h
          exact ⟨more, pieces, heq, hmatched.ofBranch hf hlacks hname hp⟩
  | block info bracket inner => exact ih.block hf hlacks hs

theorem all_step (ih : g.Inverts fuel) {parts : List Production}
    (hf : Production.faithfulAll g.operands g.climb parts = true)
    (hlacks : Parts.Lacks fields (Production.setsAll parts)) (hs : SoundAll g.dialect trees) :
    g.Yields (Production.portionAll g.dialect parts) fields trees
      (g.all (fuel + 1) parts fields trees) := by
  intro fields' rest h
  cases parts with
  | nil =>
      rw [Outline.all] at h
      cases h
      exact ⟨[], [], by simp, matched_nil hs⟩
  | cons p parts =>
      have hf' := hf
      simp only [Production.faithfulAll, Bool.and_eq_true] at hf'
      obtain ⟨⟨⟨⟨hp, hsets⟩, -⟩, -⟩, hparts⟩ := hf'
      have hlacks_p : Parts.Lacks fields p.sets :=
        hlacks.mono fun name hname => List.mem_append_left _ hname
      rw [Outline.all] at h
      cases hr : g.rule fuel p fields trees with
      | stuck =>
          rw [hr] at h
          cases h
      | mismatch =>
          rw [hr] at h
          cases h
      | found fields₁ rest₁ =>
          rw [hr] at h
          simp only [Attempt.andThen] at h
          obtain ⟨more, pieces, rfl, hmatched⟩ := ih.rule hp hlacks_p hs _ _ hr
          have hlacks_rest : Parts.Lacks (fields ++ more) (Production.setsAll parts) := by
            intro name hname
            have hout : name ∉ p.sets := fun hmem => disjoint_not_mem hsets hmem hname
            rw [Parts.lookup_append_of_lacks (Parts.lookup_eq_none hmatched.names hout)]
            exact hlacks name (List.mem_append_right _ hname)
          have hend : parts = [] → rest = rest₁ := by
            rintro rfl
            cases fuel <;> rw [Outline.all] at h <;> cases h
            rfl
          obtain ⟨more', pieces', rfl, hmatched'⟩ :=
            ih.all hparts hlacks_rest hmatched.reads.sound _ _ h
          exact ⟨more ++ more', pieces ++ pieces', by simp, hmatched.cons hf hmatched' hend⟩

theorem first_step (ih : g.Inverts fuel) {branches : List Production} {fields' : Parts}
    (hf : Production.faithfulEach g.operands g.climb branches = true)
    (hlacks : Parts.Lacks fields (Production.setsAll branches)) (hs : SoundAll g.dialect trees)
    (h : g.first (fuel + 1) branches fields trees = .found fields' rest) :
    ∃ p ∈ branches, ∃ more pieces, fields' = fields ++ more ∧
      g.Matched (p.portion g.dialect) fields more trees rest pieces := by
  cases branches with
  | nil =>
      rw [Outline.first] at h
      cases h
  | cons p branches =>
      simp only [Production.faithfulEach, Bool.and_eq_true] at hf
      rw [Outline.first] at h
      cases hr : g.rule fuel p fields trees with
      | stuck =>
          rw [hr] at h
          cases h
      | found fields₁ rest₁ =>
          rw [hr] at h
          cases h
          have hlacks_p : Parts.Lacks fields p.sets :=
            hlacks.mono fun name hname => List.mem_append_left _ hname
          exact ⟨p, List.mem_cons_self, ih.rule hf.1.1 hlacks_p hs _ _ hr⟩
      | mismatch =>
          rw [hr] at h
          have hlacks_rest : Parts.Lacks fields (Production.setsAll branches) :=
            hlacks.mono fun name hname => List.mem_append_right _ hname
          obtain ⟨q, hq, hmatched⟩ := ih.first hf.2 hlacks_rest hs h
          exact ⟨q, List.mem_cons_of_mem _ hq, hmatched⟩

theorem block_step (ih : g.Inverts fuel) {bracket : Bracket} {inner : Production}
    (hf : (Production.block info bracket inner).faithful g.operands g.climb = true)
    (hlacks : Parts.Lacks fields inner.sets) (hs : SoundAll g.dialect trees) :
    g.Yields ((Production.block info bracket inner).bodyPortion g.dialect) fields trees
      (g.block (fuel + 1) bracket inner fields trees) := by
  intro fields' rest h
  obtain ⟨t, contents, left, hsig, hkind, hr, hleft⟩ := block_found h
  have hinner : inner.faithful g.operands g.climb = true := by
    rw [Production.faithful.eq_def, Bool.and_eq_true] at hf
    exact (Bool.and_eq_true_iff.1 hf.2).1
  obtain ⟨⟨-, -, hcontents⟩, -⟩ := Reads.next hs hsig
  obtain ⟨more, pieces, rfl, hmatched⟩ := ih.rule hinner hlacks hcontents _ _ hr
  exact ⟨more, _, rfl, hmatched.ofInner hf hs hsig hkind hleft⟩

theorem inverts_succ (ih : g.Inverts fuel) : g.Inverts (fuel + 1) where
  node := node_step ih
  any := any_step ih
  type := type_step ih
  climbing := climbing_step ih
  extending := extending_step ih
  rule hf hlacks hs := yields_rule hf hlacks hs (body_step ih hf hlacks hs)
  all := all_step ih
  first := first_step ih
  block := block_step ih
  field := field_step ih
  operand := operand_step ih
  items := items_step ih

/-- What is written for a tree are the pieces of the tokens it was read from. -/
theorem inverts (g : FaithfulOutline) (fuel : Nat) : g.Inverts fuel := by
  induction fuel with
  | zero => exact inverts_zero
  | succ fuel ih => exact inverts_succ ih

end DualSql.FaithfulOutline
