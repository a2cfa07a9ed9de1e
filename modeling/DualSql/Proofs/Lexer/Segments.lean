import DualSql.Proofs.Lexer.Cuts
import DualSql.Proofs.Lexer.Restaging

/-! # Phrases as a segmentation

The bare words of a run that nothing but whitespace separates are cut into
segments from left to right. Each segment is the longest entry of the table of
phrases that the words from there on spell, or a single word. The tokens of
the run are those segments.

Main definitions: `Item.ofCuts` and `Segmented`. Main results:
`Segmented.unique` and `lexEvents_segmented`. -/

namespace DualSql

/-! ### What is joined, and what it is joined to -/

/-- What a run makes of a lexeme before words are joined. -/
inductive Item where
  /-- A bare word, or whitespace that is delivered. -/
  | part (token : Token)
  /-- What words are not joined across, with the events that are delivered for
  it: a comment, or a lexeme that is neither word nor whitespace. -/
  | apart (events : List Event)
  deriving DecidableEq, Repr

/-- Whether a lexeme is whitespace or a comment. -/
def Cut.isTrivia (cut : Cut) : Bool :=
  match cut.lexeme with
  | .token t => t.kind.isTrivia
  | .opening _ | .closing _ => false

namespace Item

/-- What a run makes of a lexeme that stands behind a blank or not. Whitespace
that is not delivered leaves nothing. -/
def ofCut (o : LexOptions) (spaceBefore : Bool) (cut : Cut) : List Item :=
  match cut.lexeme with
  | .token t =>
    match t.kind with
    | .whitespace => if o.emitWhitespace then [part t] else []
    | .comment => [apart (if o.emitComments then [.token t] else [])]
    | _ =>
      let t := { t with spaceBefore }
      if Phrase.isWord t then [part t] else [apart [.token t]]
  | .opening b =>
    let bracket : Token :=
      { kind := .punctuation, value := b.opener.toString, position := cut.place, spaceBefore }
    [apart [if o.structured then .opened b cut.place spaceBefore else .token bracket]]
  | .closing b =>
    let bracket : Token :=
      { kind := .punctuation, value := b.closer.toString, position := cut.place, spaceBefore }
    [apart [if o.structured then .closed b cut.place else .token bracket]]

/-- What a run makes of its lexemes, the first of which stands behind a blank or not. -/
def ofCuts (o : LexOptions) (spaceBefore : Bool) : List Cut → List Item
  | [] => []
  | cut :: cuts => ofCut o spaceBefore cut ++ ofCuts o cut.isTrivia cuts

end Item

/-! ### Segments -/

/-- A stretch of what a run makes of its lexemes, for which it delivers one
token, or for which it delivers what stands apart. -/
inductive Segment where
  | blank (token : Token)
  | alone (word : Token)
  | joined (first : Token) (more : List Token) (kind : TokenKind)
  | apart (events : List Event)
  deriving DecidableEq, Repr

namespace Segment

/-- What a segment is made of. -/
def items : Segment → List Item
  | blank t | alone t => [.part t]
  | joined first more _ => (first :: more).map .part
  | apart events => [.apart events]

/-- What is delivered for a segment. A phrase stands where its first word does,
and is the operator that the dialect knows by its spelling. -/
def events (d : Dialect) : Segment → List Event
  | blank t => [.token t]
  | alone t => [.token (Phrase.single d t)]
  | joined first more kind =>
    let phrase := Phrase.spelling (first :: more)
    [.token
      { kind
        value := phrase
        position := first.position
        spaceBefore := first.spaceBefore
        operator := Vocabulary.operator? d phrase }]
  | apart events => events

end Segment

/-- Words and blanks of which the last is a word. -/
def EndsInWord (tokens : List Token) : Prop :=
  ∃ t, tokens.getLast? = some t ∧ t.kind.isTrivia = false

/-- No entry of the table is spelled by the given words with more of those that
follow behind them. -/
def SpellsLongest (d : Dialect) (taken : List Token) (rest : List Item) : Prop :=
  ∀ more later, rest = more.map .part ++ later → EndsInWord more →
    (Vocabulary.compounds d).lookup (Phrase.spelling (taken ++ more)) = none

/-- The segmentation of what a run makes of its lexemes, from left to right. -/
inductive Segmented (d : Dialect) : List Item → List Segment → Prop
  | nil : Segmented d [] []
  | blank {t : Token} {rest : List Item} {segments : List Segment}
      (blank : t.kind.isTrivia = true) (later : Segmented d rest segments) :
      Segmented d (.part t :: rest) (.blank t :: segments)
  | alone {t : Token} {rest : List Item} {segments : List Segment}
      (word : t.kind.isTrivia = false) (longest : SpellsLongest d [t] rest)
      (later : Segmented d rest segments) : Segmented d (.part t :: rest) (.alone t :: segments)
  | joined {first : Token} {more : List Token} {kind : TokenKind} {rest : List Item}
      {segments : List Segment} (word : first.kind.isTrivia = false) (ends : EndsInWord more)
      (entry : (Vocabulary.compounds d).lookup (Phrase.spelling (first :: more)) = some kind)
      (longest : SpellsLongest d (first :: more) rest) (later : Segmented d rest segments) :
      Segmented d ((first :: more).map .part ++ rest) (.joined first more kind :: segments)
  | apart {events : List Event} {rest : List Item} {segments : List Segment}
      (later : Segmented d rest segments) :
      Segmented d (.apart events :: rest) (.apart events :: segments)

namespace Segmented

variable {d : Dialect}

/-- The segments make up the whole, in order. -/
theorem items_eq {items : List Item} {segments : List Segment} (h : Segmented d items segments) :
    segments.flatMap Segment.items = items := by
  induction h with
  | nil => rfl
  | blank _ _ ih | alone _ _ _ ih | joined _ _ _ _ _ ih | apart _ ih =>
      rw [List.flatMap_cons, ih]
      rfl

theorem endsInWord_right {before more : List Token} (h : EndsInWord (before ++ more))
    (hmore : more ≠ []) : EndsInWord more := by
  obtain ⟨t, hlast, ht⟩ := h
  rw [List.getLast?_append_of_ne_nil _ hmore] at hlast
  exact ⟨t, hlast, ht⟩

theorem not_endsInWord_nil : ¬EndsInWord [] := by
  rintro ⟨t, ht, -⟩
  cases ht

theorem part_injective : Function.Injective Item.part := by
  intro t u h
  cases h
  exact rfl

/-- Of two phrases that start at one word, the shorter one does not go as far
as the table allows. -/
theorem joined_le {first : Token} {more more' : List Token} {rest rest' : List Item}
    {kind' : TokenKind} (heq : more.map Item.part ++ rest = more'.map Item.part ++ rest')
    (ends' : EndsInWord more')
    (entry' : (Vocabulary.compounds d).lookup (Phrase.spelling (first :: more')) = some kind')
    (longest : SpellsLongest d (first :: more) rest) : more' <+: more := by
  rcases List.append_eq_append_iff.1 heq with ⟨extra, hmore', hrest⟩ | ⟨extra, hmore, -⟩
  · obtain ⟨before, behind, rfl, hbefore, rfl⟩ := List.map_eq_append_iff.1 hmore'
    obtain rfl : before = more := part_injective.list_map hbefore
    cases behind with
    | nil => exact ⟨[], by simp⟩
    | cons t behind =>
        have hnone := longest (t :: behind) rest' hrest
          (endsInWord_right ends' (List.cons_ne_nil t behind))
        cases hnone.symm.trans entry'
  · obtain ⟨before, behind, rfl, hbefore, rfl⟩ := List.map_eq_append_iff.1 hmore
    obtain rfl : before = more' := part_injective.list_map hbefore
    exact List.prefix_append before behind

/-- How the segmentation starts at a word or a blank. -/
theorem part_cases {t : Token} {rest : List Item} {segments : List Segment}
    (h : Segmented d (.part t :: rest) segments) :
    (∃ later, segments = .blank t :: later ∧ t.kind.isTrivia = true ∧ Segmented d rest later) ∨
      (∃ later, segments = .alone t :: later ∧ t.kind.isTrivia = false ∧
        SpellsLongest d [t] rest ∧ Segmented d rest later) ∨
      ∃ more kind behind later, segments = .joined t more kind :: later ∧
        t.kind.isTrivia = false ∧ rest = more.map .part ++ behind ∧ EndsInWord more ∧
        (Vocabulary.compounds d).lookup (Phrase.spelling (t :: more)) = some kind ∧
        SpellsLongest d (t :: more) behind ∧ Segmented d behind later := by
  generalize hitems : Item.part t :: rest = items at h
  cases h with
  | nil => cases hitems
  | blank blank later =>
      cases hitems
      exact .inl ⟨_, rfl, blank, later⟩
  | alone word longest later =>
      cases hitems
      exact .inr (.inl ⟨_, rfl, word, longest, later⟩)
  | joined word ends entry longest later =>
      obtain ⟨hfirst, rfl⟩ := List.cons.inj hitems
      cases hfirst
      exact .inr (.inr ⟨_, _, _, _, rfl, word, rfl, ends, entry, longest, later⟩)
  | apart later => cases hitems

/-- There is only one segmentation. -/
theorem unique {items : List Item} {segments segments' : List Segment}
    (h : Segmented d items segments) (h' : Segmented d items segments') : segments' = segments := by
  induction h generalizing segments' with
  | nil =>
      generalize hitems : ([] : List Item) = items at h'
      cases h' with
      | nil => rfl
      | _ => cases hitems
  | @blank t rest segments blank _ ih =>
      rcases part_cases h' with ⟨later, rfl, -, hlater⟩ | ⟨_, -, word, -⟩ | ⟨_, _, _, _, -, word, -⟩
      · rw [ih hlater]
      · cases blank.symm.trans word
      · cases blank.symm.trans word
  | @alone t rest segments word longest _ ih =>
      rcases part_cases h' with ⟨_, -, blank, -⟩ | ⟨later, rfl, -, -, hlater⟩ |
        ⟨more, kind, behind, later, -, -, rfl, ends, entry, -, -⟩
      · cases blank.symm.trans word
      · rw [ih hlater]
      · cases (longest more behind rfl ends).symm.trans entry
  | @joined first more kind rest segments word ends entry longest _ ih =>
      rcases part_cases h' with ⟨_, -, blank, -⟩ | ⟨later, -, -, longest', -⟩ |
        ⟨more', kind', behind, later, rfl, -, heq, ends', entry', longest', hlater⟩
      · cases blank.symm.trans word
      · cases (longest' more rest rfl ends).symm.trans entry
      · have hle := joined_le heq ends' entry' longest
        have hge := joined_le heq.symm ends entry longest'
        obtain rfl : more = more' :=
          hge.eq_of_length (Nat.le_antisymm hge.length_le hle.length_le)
        obtain rfl : rest = behind := List.append_cancel_left heq
        cases entry.symm.trans entry'
        rw [ih hlater]
  | apart _ ih =>
      generalize hitems : Item.apart _ :: _ = items at h'
      cases h' with
      | apart later =>
          cases hitems
          rw [ih later]
      | joined => cases (List.cons.inj hitems).1
      | _ => cases hitems

end Segmented

/-! ### What settling takes -/

namespace Phrase

variable {d : Dialect}

/-- Where the longest phrase behind the words seen so far ends, if there is one. -/
inductive Finds (d : Dialect) (phrase : String) (seen : Nat) (best : Option Found)
    (words : List Token) : Option Found → Prop
  | none (longest : ∀ more later, words = more ++ later → EndsInWord more →
      (Vocabulary.compounds d).lookup (extend phrase more) = none) :
      Finds d phrase seen best words best
  | found {taken later : List Token} {kind : TokenKind} (split : words = taken ++ later)
      (ends : EndsInWord taken)
      (entry : (Vocabulary.compounds d).lookup (extend phrase taken) = some kind)
      (longest : ∀ more rest, later = more ++ rest → EndsInWord more →
        (Vocabulary.compounds d).lookup (extend phrase (taken ++ more)) = none) :
      Finds d phrase seen best words (some ⟨extend phrase taken, kind, seen + taken.length⟩)

theorem endsInWord_cons {t : Token} {tokens : List Token} (h : EndsInWord tokens) :
    EndsInWord (t :: tokens) := by
  obtain ⟨last, hlast, hword⟩ := h
  refine ⟨last, ?_, hword⟩
  rw [List.getLast?_cons, hlast, Option.getD_some]

theorem endsInWord_of_cons {t : Token} {tokens : List Token} (h : EndsInWord (t :: tokens)) :
    (tokens = [] ∧ t.kind.isTrivia = false) ∨ EndsInWord tokens := by
  cases tokens with
  | nil =>
      obtain ⟨last, hlast, hword⟩ := h
      cases hlast
      exact .inl ⟨rfl, hword⟩
  | cons u tokens =>
      obtain ⟨last, hlast, hword⟩ := h
      exact .inr ⟨last, by rwa [List.getLast?_cons_cons] at hlast, hword⟩

/-- What is found behind one more token. -/
theorem Finds.cons {phrase grown : String} {seen : Nat} {best best' result : Option Found}
    {t : Token} {words : List Token} (h : Finds d grown (seen + 1) best' words result)
    (hgrown : ∀ more, extend phrase (t :: more) = extend grown more)
    (hbest : best' = best ∧ (t.kind.isTrivia = true ∨ (Vocabulary.compounds d).lookup grown = .none) ∨
      t.kind.isTrivia = false ∧ ∃ kind, (Vocabulary.compounds d).lookup grown = some kind ∧
        best' = some ⟨grown, kind, seen + 1⟩) :
    Finds d phrase seen best (t :: words) result := by
  cases h with
  | none longest =>
      have hlonger {more later : List Token} (hsplit : words = more ++ later)
          (hends : EndsInWord more) :
          (Vocabulary.compounds d).lookup (extend phrase (t :: more)) = .none := by
        rw [hgrown]
        exact longest more later hsplit hends
      rcases hbest with ⟨rfl, hnone⟩ | ⟨ht, kind, hentry, rfl⟩
      · refine .none fun more later hsplit hends => ?_
        cases more with
        | nil => cases Segmented.not_endsInWord_nil hends
        | cons u more =>
            obtain ⟨rfl, hrest⟩ := List.cons.inj hsplit
            rcases endsInWord_of_cons hends with ⟨rfl, hword⟩ | hmore
            · rw [hgrown]
              exact hnone.resolve_left (ne_true_of_eq_false hword)
            · exact hlonger hrest hmore
      · have hfound : Finds d phrase seen best (t :: words)
            (some ⟨extend phrase [t], kind, seen + [t].length⟩) :=
          .found rfl ⟨t, rfl, ht⟩ (by rw [hgrown]; exact hentry)
            fun more later hsplit hends => hlonger hsplit hends
        rwa [hgrown] at hfound
  | @found taken later kind split ends entry longest =>
      have hfound : Finds d phrase seen best (t :: words)
          (some ⟨extend phrase (t :: taken), kind, seen + (t :: taken).length⟩) := by
        refine .found (congrArg (t :: ·) split) (endsInWord_cons ends)
          (by rw [hgrown]; exact entry) fun more rest hsplit hends => ?_
        rw [List.cons_append, hgrown]
        exact longest more rest hsplit hends
      rwa [hgrown, List.length_cons, Nat.add_comm taken.length 1, ← Nat.add_assoc] at hfound

/-- The search for a compound finds the longest one. -/
theorem longest_finds (phrase : String) (seen : Nat) (best : Option Found) (words : List Token) :
    Finds d phrase seen best words (longest d phrase seen best words) := by
  induction words generalizing phrase seen best with
  | nil =>
      refine .none fun more later hsplit hends => ?_
      obtain ⟨rfl, rfl⟩ := List.append_eq_nil_iff.1 hsplit.symm
      cases Segmented.not_endsInWord_nil hends
  | cons t words ih =>
      rw [longest]
      cases ht : t.kind.isTrivia with
      | true => exact (ih phrase (seen + 1) best).cons (extend_trivia ht phrase) (.inl ⟨rfl, .inl ht⟩)
      | false =>
          have hgrown := extend_word ht phrase
          cases hentry : (Vocabulary.phrase d (phrase ++ " " ++ Text.toUpper t.value)).complete with
          | none =>
              simp only [Bool.false_eq_true, if_false, hentry]
              exact (ih _ (seen + 1) best).cons hgrown (.inl ⟨rfl, .inr hentry⟩)
          | some kind =>
              simp only [Bool.false_eq_true, if_false, hentry]
              exact (ih _ (seen + 1) _).cons hgrown (.inr ⟨ht, kind, hentry, rfl⟩)

/-- No words follow at once. -/
def Apart (rest : List Item) : Prop :=
  ∀ more later, rest = more.map .part ++ later → more = []

theorem apart_nil : Apart [] := by
  intro more later h
  exact List.map_eq_nil_iff.1 (List.append_eq_nil_iff.1 h.symm).1

theorem apart_cons (events : List Event) (rest : List Item) : Apart (.apart events :: rest) := by
  intro more later h
  cases more with
  | nil => rfl
  | cons t more => cases (List.cons.inj h).1

/-- What behind some words is spelled by more of those that follow. -/
theorem spellsLongest {taken words : List Token} {rest : List Item} (hrest : Apart rest)
    (h : ∀ more later, words = more ++ later → EndsInWord more →
      (Vocabulary.compounds d).lookup (spelling (taken ++ more)) = none) :
    SpellsLongest d taken (words.map .part ++ rest) := by
  intro more later hsplit hends
  rcases List.append_eq_append_iff.1 hsplit with ⟨extra, hmore, hlater⟩ | ⟨extra, hwords, -⟩
  · obtain ⟨before, behind, rfl, hbefore, rfl⟩ := List.map_eq_append_iff.1 hmore
    obtain rfl : before = words := Segmented.part_injective.list_map hbefore
    obtain rfl := hrest behind later hlater
    rw [List.append_nil] at hends ⊢
    exact h before [] (List.append_nil before).symm hends
  · obtain ⟨before, behind, rfl, hbefore, -⟩ := List.map_eq_append_iff.1 hwords
    obtain rfl : before = more := Segmented.part_injective.list_map hbefore
    exact h before behind rfl hends

/-- Settling words makes the tokens of their segmentation. -/
theorem exists_segmented (words : List Token) {rest : List Item} {segments : List Segment}
    (hrest : Apart rest) (h : Segmented d rest segments) :
    ∃ first, Segmented d (words.map .part ++ rest) (first ++ segments) ∧
      first.flatMap (Segment.events d) = (settle d true words).1.map .token := by
  fun_induction settle d true words with
  | case1 => exact ⟨[], h, rfl⟩
  | case2 t words ht out waiting hsettle ih =>
      obtain ⟨first, hfirst, hevents⟩ := ih
      rw [hsettle] at hevents
      refine ⟨.blank t :: first, .blank ht hfirst, ?_⟩
      rw [List.flatMap_cons, hevents]
      rfl
  | case3 t words ht hgrow => simp at hgrow
  | case4 t words ht hgrow token extent hhead out waiting hsettle ih =>
      have ht' : t.kind.isTrivia = false := Bool.eq_false_iff.2 ht
      obtain ⟨first, hfirst, hevents⟩ := ih
      rw [hsettle] at hevents
      have hfinds := longest_finds (d := d) (Text.toUpper t.value) 0 none words
      rw [head] at hhead
      generalize longest d (Text.toUpper t.value) 0 none words = result at hfinds hhead
      cases hfinds with
      | none longest =>
          cases hhead
          refine ⟨.alone t :: first, .alone ht' ?_ hfirst, ?_⟩
          · refine spellsLongest hrest fun more later hsplit hends => ?_
            rw [List.singleton_append, spelling_cons ht']
            exact longest more later hsplit hends
          · rw [List.flatMap_cons, hevents]
            rfl
      | @found taken later kind split ends entry longest =>
          cases hhead
          have hphrase := spelling_cons ht' taken
          rw [split, Nat.zero_add, List.drop_left] at hfirst
          refine ⟨.joined t taken kind :: first, ?_, ?_⟩
          · rw [split, ← List.cons_append, List.map_append, List.append_assoc]
            refine .joined ht' ends (hphrase ▸ entry) ?_ hfirst
            refine spellsLongest hrest fun more rest hsplit hends => ?_
            rw [List.cons_append, spelling_cons ht']
            exact longest more rest hsplit hends
          · rw [List.flatMap_cons, hevents, Segment.events, hphrase]
            rfl

end Phrase

/-! ### Runs -/

namespace Item

/-- The events that are decided, and the words that wait, behind one more item. -/
def settle (d : Dialect) (before : List Event × List Token) : Item → List Event × List Token
  | part t =>
    let (out, waiting) := Phrase.settle d false (before.2 ++ [t])
    (before.1 ++ out.map .token, waiting)
  | apart events => (before.1 ++ (Phrase.settle d true before.2).1.map .token ++ events, [])

/-- The events of items that are settled one after the other. -/
def settled (d : Dialect) (items : List Item) : List Event :=
  let (ready, words) := items.foldl (settle d) ([], [])
  ready ++ (Phrase.settle d true words).1.map .token

/-- The events of items that stand behind the words of a run. -/
def weave (d : Dialect) (run : List Token) : List Item → List Event
  | [] => (Phrase.settle d true run).1.map .token
  | part t :: items => weave d (run ++ [t]) items
  | apart events :: items =>
    (Phrase.settle d true run).1.map .token ++ events ++ weave d [] items

variable {d : Dialect}

/-- Words that are settled as they come in are those that are settled together. -/
theorem foldl_settle (before : List Event) (run : List Token) (items : List Item) :
    let (ready, words) := items.foldl (settle d)
      (before ++ (Phrase.settle d false run).1.map .token, (Phrase.settle d false run).2)
    ready ++ (Phrase.settle d true words).1.map .token = before ++ weave d run items := by
  induction items generalizing before run with
  | nil =>
      have hsettle := Phrase.settle_append (d := d) true run []
      rw [List.append_nil, List.append_nil] at hsettle
      rw [weave, hsettle]
      simp only [List.foldl_nil, List.map_append, List.append_assoc]
  | cons item items ih =>
      rw [List.foldl_cons]
      cases item with
      | part t =>
          have hrest := ih before (run ++ [t])
          rw [Phrase.settle_append] at hrest
          simpa only [settle, weave, List.map_append, List.append_assoc] using hrest
      | apart events =>
          have hsettle := Phrase.settle_append (d := d) true run []
          rw [List.append_nil, List.append_nil] at hsettle
          have hnil : Phrase.settle d false [] = ([], []) := by rw [Phrase.settle]
          have hrest := ih (before ++ (Phrase.settle d true run).1.map .token ++ events) []
          rw [hnil, List.map_nil, List.append_nil] at hrest
          simpa only [settle, weave, hsettle, List.map_append, List.append_assoc] using hrest

theorem settled_eq_weave (items : List Item) : settled d items = weave d [] items := by
  have hfold := foldl_settle (d := d) [] [] items
  have hnil : Phrase.settle d false [] = ([], []) := by rw [Phrase.settle]
  rwa [hnil, List.map_nil, List.append_nil, List.nil_append] at hfold

/-- The events of items are those of their segmentation. -/
theorem exists_segmented (run : List Token) (items : List Item) :
    ∃ segments, Segmented d (run.map .part ++ items) segments ∧
      weave d run items = segments.flatMap (Segment.events d) := by
  induction items generalizing run with
  | nil =>
      obtain ⟨first, hfirst, hevents⟩ := Phrase.exists_segmented run Phrase.apart_nil
        (.nil : Segmented d [] [])
      rw [List.append_nil first] at hfirst
      exact ⟨first, hfirst, hevents.symm⟩
  | cons item items ih =>
      cases item with
      | part t =>
          obtain ⟨segments, hsegments, hevents⟩ := ih (run ++ [t])
          rw [List.map_append, List.append_assoc] at hsegments
          exact ⟨segments, hsegments, hevents⟩
      | apart events =>
          obtain ⟨segments, hsegments, hevents⟩ := ih []
          obtain ⟨first, hfirst, hfirstEvents⟩ := Phrase.exists_segmented run
            (Phrase.apart_cons events items) (.apart hsegments)
          refine ⟨_, hfirst, ?_⟩
          rw [weave, hevents, List.flatMap_append, hfirstEvents, List.append_assoc]
          rfl

end Item

namespace Scanner

section Stage

variable (s : Scanner) {t : Token}

theorem stage_whitespace (h : t.kind = .whitespace) :
    s.stage t =
      if s.options.emitWhitespace then wait { s with spacePending := true } t
      else { s with spacePending := true } := by
  rw [stage, h]

theorem stage_comment (h : t.kind = .comment) :
    s.stage t =
      if s.options.emitComments then deliver { s with spacePending := true } (.token t)
      else flush { s with spacePending := true } := by
  rw [stage, h]

theorem stage_content (hwhitespace : t.kind ≠ .whitespace) (hcomment : t.kind ≠ .comment) :
    s.stage t = s.stageContent t := by
  unfold stage
  split
  next h => exact absurd h hwhitespace
  next h => exact absurd h hcomment
  next => rfl

theorem isTrivia_eq_false (hwhitespace : t.kind ≠ .whitespace) (hcomment : t.kind ≠ .comment) :
    t.kind.isTrivia = false := by
  unfold TokenKind.isTrivia
  split
  next h => exact absurd h hwhitespace
  next h => exact absurd h hcomment
  next => rfl

end Stage

/-- A scanner that has settled what a run made of its lexemes, and knows
whether a blank stands behind them. -/
structure Woven (items : List Item) (spacePending : Bool) (s : Scanner) : Prop where
  settled : (s.ready, s.words) = items.foldl (Item.settle s.dialect) ([], [])
  spacePending : s.spacePending = spacePending

namespace Woven

variable {s s' : Scanner} {items : List Item} {cut : Cut} {pending : Bool}

theorem wait (h : s.Woven items pending) (t : Token) :
    (s.wait t).Woven (items ++ [.part t]) pending := by
  refine ⟨?_, h.spacePending⟩
  rw [List.foldl_append]
  change _ = Item.settle s.dialect (items.foldl (Item.settle s.dialect) ([], [])) (.part t)
  rw [← h.settled]
  rfl

theorem apart (h : s.Woven items pending) (events : List Event) :
    Woven (items ++ [.apart events]) pending
      { s.flush with ready := s.flush.ready ++ events } := by
  refine ⟨?_, h.spacePending⟩
  rw [List.foldl_append]
  change _ = Item.settle s.dialect (items.foldl (Item.settle s.dialect) ([], [])) (.apart events)
  rw [← h.settled, Item.settle]
  exact congrArg (Prod.mk _) (Phrase.settle_final s.dialect s.words)

theorem deliver (h : s.Woven items pending) (e : Event) :
    (s.deliver e).Woven (items ++ [.apart [e]]) pending :=
  h.apart [e]

theorem flush (h : s.Woven items pending) : s.flush.Woven (items ++ [.apart []]) pending := by
  have hapart := h.apart []
  rwa [List.append_nil] at hapart

theorem setSpacePending (h : s.Woven items pending) (spacePending : Bool) :
    Woven items spacePending { s with spacePending } :=
  ⟨h.settled, rfl⟩

theorem setNesting (h : s.Woven items pending) (nesting : List (Bracket × Position)) :
    Woven items pending { s with nesting } :=
  ⟨h.settled, h.spacePending⟩

theorem stageContent (h : s.Woven items pending) (t : Token) :
    (s.stageContent t).Woven
      (items ++
        if Phrase.isWord { t with spaceBefore := pending } then
          [.part { t with spaceBefore := pending }]
        else [.apart [.token { t with spaceBefore := pending }]])
      false := by
  obtain rfl := h.spacePending
  unfold Scanner.stageContent
  dsimp only
  rw [show Phrase.isWord { t with spaceBefore := s.spacePending } = Phrase.isWord t from rfl]
  split
  next hword => exact (h.setSpacePending false).wait _
  next hword => exact (h.setSpacePending false).deliver _

theorem stage (h : s.Woven items pending) {t : Token} (hcut : cut.lexeme = .token t) :
    (s.stage t).Woven (items ++ Item.ofCut s.options pending cut) t.kind.isTrivia := by
  unfold Item.ofCut
  rw [hcut]
  dsimp only
  split
  next hkind =>
    rw [stage_whitespace s hkind, hkind]
    split
    · exact (h.setSpacePending true).wait t
    · rw [List.append_nil]
      exact h.setSpacePending true
  next hkind =>
    rw [stage_comment s hkind, hkind]
    split
    · exact (h.setSpacePending true).deliver (.token t)
    · exact (h.setSpacePending true).flush
  next hwhitespace hcomment =>
    rw [stage_content s hwhitespace hcomment, isTrivia_eq_false hwhitespace hcomment]
    exact h.stageContent t

/-- What a scanner has settled, the lexeme that it takes in now included. -/
theorem accept (h : s.Woven items pending) (ha : s.accept cut.place cut.lexeme = .ok s') :
    s'.Woven (items ++ Item.ofCut s.options pending cut) cut.isTrivia := by
  obtain ⟨lexeme, place, text⟩ := cut
  cases accepts_of_ok ha with
  | token t => exact h.stage rfl
  | opening b =>
      have hopen := h.setNesting ((b, place) :: s.nesting)
      unfold openBlock Item.ofCut Cut.isTrivia
      dsimp only
      split
      · rw [h.spacePending]
        exact (hopen.deliver _).setSpacePending false
      · exact hopen.stageContent
          { kind := .punctuation, value := b.opener.toString, position := place }
  | closing b =>
      have hclose := h.setNesting s.nesting.tail
      unfold closeBlock Item.ofCut Cut.isTrivia
      dsimp only
      split
      · exact (hclose.deliver _).setSpacePending false
      · exact hclose.stageContent
          { kind := .punctuation, value := b.closer.toString, position := place }

/-- What a run delivers that meets no error is woven from its lexemes. -/
theorem digest (h : s.Woven items pending) (hend : s.digest.2 = none) :
    s.digest.1.ready = Item.settled s.dialect (items ++ Item.ofCuts s.options pending s.cuts) := by
  fun_induction Scanner.digest s generalizing items pending with
  | case1 s hu b opened rest hn => cases hend
  | case2 s hu hn =>
      rw [cuts_of_nil hu, Item.ofCuts, List.append_nil, Item.settled, ← h.settled]
      rfl
  | case3 s c rest hu hl => exact absurd hl ((lexeme_stable s.context c).decides rest)
  | case4 s c rest hu e hl => cases hend
  | case5 s c rest hu lx width hl e ha => cases hend
  | case6 s c rest hu lx width hl s' ha ih =>
      have hs' : s'.Woven (items ++ Item.ofCut s.options pending
          ⟨lx, s.position, c :: rest.take width⟩) _ := h.accept ha
      have hcontext := context_accept ha
      have hdialect : s'.dialect = s.dialect := congrArg LexContext.dialect hcontext
      have hoptions : s'.options = s.options := congrArg LexContext.options hcontext
      have hskip : (s'.skip c rest width).Woven _ _ := ⟨hs'.settled, hs'.spacePending⟩
      have hrest : _ = Item.settled s'.dialect (_ ++ Item.ofCuts s'.options _ _) := ih hskip hend
      rw [hdialect, hoptions, List.append_assoc] at hrest
      simp only [cuts_of_cons hu, hl, ha]
      exact hrest

end Woven

end Scanner

/-- The words of a text that is read to its end are joined to phrases as the
longest entries of the table have it. What the run makes of its lexemes has one
segmentation, and its segments are what is delivered. The loop that takes in
words one by one leaves these segments for any words, and ends at a depth that
their number bounds. -/
theorem lexEvents_segmented (d : Dialect) (options : LexOptions) (chunks : List String)
    (h : (lexEvents d options chunks).2 = none) :
    let items := Item.ofCuts options false (lexCuts d options chunks)
    (∃ segments, Segmented d items segments ∧
      segments.flatMap Segment.items = items ∧
      (lexEvents d options chunks).1 = segments.flatMap (Segment.events d) ∧
      ∀ other, Segmented d items other → other = segments) ∧
    ∀ words : List Token, ∃ segments, Segmented d (words.map .part) segments ∧
      ∀ depth, 3 * words.length + 4 ≤ depth → ∃ out,
        Phrase.Buffer.run d depth words = some { out } ∧
        out.map .token = segments.flatMap (Segment.events d) := by
  intro items
  constructor
  · obtain ⟨segments, hsegments, hevents⟩ := Item.exists_segmented (d := d) [] items
    let s : Scanner := .completed { dialect := d, options } (String.join chunks)
    have hstart : s.Woven [] false := ⟨rfl, rfl⟩
    have hrun : lexEvents d options chunks = (s.digest.1.ready, s.digest.2) :=
      lexEvents_eq d options chunks
    rw [hrun] at h ⊢
    have hready : s.digest.1.ready = Item.settled d (Item.ofCuts options false s.cuts) :=
      hstart.digest h
    refine ⟨segments, hsegments, hsegments.items_eq, ?_, fun other hother =>
      hsegments.unique hother⟩
    have hitems : items = Item.ofCuts options false s.cuts :=
      congrArg (Item.ofCuts options false) (lexCuts_eq d options chunks)
    rw [← hevents, hitems, ← Item.settled_eq_weave]
    exact hready
  · intro words
    obtain ⟨segments, hsegments, hevents⟩ := Item.exists_segmented (d := d) words []
    rw [List.append_nil] at hsegments
    exact ⟨segments, hsegments, fun depth hdepth =>
      ⟨_, Phrase.Buffer.run_eq hdepth, hevents⟩⟩

/-- Where a longer phrase breaks off, the shorter one is taken. -/
theorem lexEvents_segmented_overlap :
    let run := lexEvents .postgres (.ofDialect .postgres) ["a IS NOT DISTI", "NCT b"]
    let items := Item.ofCuts (.ofDialect .postgres) false
      (lexCuts .postgres (.ofDialect .postgres) ["a IS NOT DISTI", "NCT b"])
    run.2 = none ∧ run.1.length = 4 ∧
      ∃ segments, Segmented .postgres items segments ∧
        run.1 = segments.flatMap (Segment.events .postgres) := by
  intro run items
  obtain ⟨hend, hlength⟩ : run.2 = none ∧ run.1.length = 4 := by
    unfold run
    rw [lexEvents_eq]
    decide +kernel
  obtain ⟨⟨segments, hsegments, -, hevents, -⟩, -⟩ := lexEvents_segmented .postgres _ _ hend
  exact ⟨hend, hlength, segments, hsegments, hevents⟩

end DualSql
