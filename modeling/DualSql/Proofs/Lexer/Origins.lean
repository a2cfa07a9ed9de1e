import Mathlib.Algebra.Group.Nat.Defs
import Mathlib.Data.List.Forall2
import DualSql.Proofs.Lexer.Cuts
import DualSql.Proofs.Lexer.Settling
import DualSql.Proofs.Lexer.Standing

/-! # Where events come from

Every event of a run begins with a lexeme of its own, in the order of the text,
and tells the place of that lexeme. Where a run ends early, the error tells the
place of the lexeme that was refused, or of the innermost bracket that is open.

Main definitions: `Position.IsBehind`, `Cut.Begins` and `Cut.Ends`. Main
result: `lexEvents_origins`. -/

namespace DualSql

/-! ### Places -/

namespace Position

/-- The place of the character behind a text, with lines and columns counted
from one. -/
structure IsBehind (p : Position) (text : List Char) : Prop where
  line : p.line.toNat = text.count '\n' + 1
  column : p.column.toNat = (text.reverse.takeWhile (· ≠ '\n')).length + 1

theorem isBehind_start : start.IsBehind [] :=
  ⟨rfl, rfl⟩

theorem IsBehind.advance {p : Position} {text : List Char} (h : p.IsBehind text) (c : Char)
    (hsize : text.length + 2 < 2 ^ 32) : (p.advance c).IsBehind (text ++ [c]) := by
  have hlines : text.count '\n' ≤ text.length := List.count_le_length
  have hcolumns : (text.reverse.takeWhile (· ≠ '\n')).length ≤ text.length :=
    Nat.le_trans (List.takeWhile_prefix _).length_le (Nat.le_of_eq List.length_reverse)
  obtain ⟨hline, hcolumn⟩ := h
  unfold Position.advance
  split
  next hc =>
    refine ⟨?_, ?_⟩
    · simp [UInt32.toNat_add, hline, hc]
      omega
    · simp [hc]
  next hc =>
    refine ⟨?_, ?_⟩
    · simp [hline, hc]
    · simp [UInt32.toNat_add, hcolumn, hc] at hcolumns ⊢
      omega

/-- A place moves over a text as lines and columns are counted. -/
theorem IsBehind.advanceAll {p : Position} {text : List Char} (h : p.IsBehind text)
    (more : List Char) (hsize : (text ++ more).length + 1 < 2 ^ 32) :
    (p.advanceAll more).IsBehind (text ++ more) := by
  induction more generalizing p text with
  | nil => rwa [List.append_nil]
  | cons c more ih =>
      rw [List.append_cons] at hsize ⊢
      refine ih (h.advance c ?_) hsize
      rw [List.length_append, List.length_append, List.length_singleton] at hsize
      omega

/-- What stands behind more text stands later. -/
theorem IsBehind.before {p q : Position} {text more : List Char} (hp : p.IsBehind text)
    (hq : q.IsBehind (text ++ more)) (hmore : more ≠ []) : p.before q = true := by
  have hline : p.line.toNat = text.count '\n' + 1 := hp.line
  have hline' := hq.line
  rw [List.count_append] at hline'
  unfold Position.before
  by_cases hfeed : '\n' ∈ more
  · have hpos : 0 < more.count '\n' := List.count_pos_iff.2 hfeed
    simp [UInt32.lt_iff_toNat_lt]
    omega
  · have hzero : more.count '\n' = 0 := List.count_eq_zero.2 hfeed
    have hsame : p.line = q.line := UInt32.toNat_inj.1 (by omega)
    have hcolumn := hp.column
    have hcolumn' := hq.column
    have hflat : ∀ c ∈ more.reverse, decide (c ≠ '\n') = true := by
      intro c hc
      refine decide_eq_true ?_
      rintro rfl
      exact hfeed (List.mem_reverse.1 hc)
    rw [List.reverse_append, List.takeWhile_append_of_pos hflat, List.length_append,
      List.length_reverse] at hcolumn'
    have hlength : 0 < more.length := List.length_pos_iff.2 hmore
    simp [UInt32.lt_iff_toNat_lt, hsame]
    omega

end Position

namespace Cut

theorem covered_append (cuts more : List Cut) :
    covered (cuts ++ more) = covered cuts ++ covered more :=
  List.flatMap_append

theorem covered_cons (cut : Cut) (cuts : List Cut) :
    covered (cut :: cuts) = cut.text ++ covered cuts :=
  List.flatMap_cons

theorem Placed.place_eq {p : Position} {before after : List Cut} {cut : Cut}
    (h : Placed p (before ++ cut :: after)) : cut.place = p.advanceAll (covered before) := by
  induction before generalizing p with
  | nil => exact h.1
  | cons first before ih =>
      rw [ih h.2.2, covered_cons, Position.advanceAll, Position.advanceAll, Position.advanceAll,
        List.foldl_append]

theorem Placed.text_ne_nil {p : Position} {cuts : List Cut} (h : Placed p cuts) :
    ∀ cut ∈ cuts, cut.text ≠ [] := by
  induction cuts generalizing p with
  | nil => exact fun cut hcut => (List.not_mem_nil hcut).elim
  | cons first cuts ih => exact List.forall_mem_cons.2 ⟨h.2.1, ih h.2.2⟩

/-- Cuts stand where lines and columns are counted. -/
theorem Placed.isBehind {before after : List Cut} {cut : Cut}
    (h : Placed .start (before ++ cut :: after))
    (hsize : (covered (before ++ cut :: after)).length < 2 ^ 32) :
    cut.place.IsBehind (covered before) := by
  have hpos : 0 < cut.text.length := List.length_pos_iff.2 (h.text_ne_nil cut (by simp))
  rw [covered_append, covered_cons, List.length_append, List.length_append] at hsize
  rw [h.place_eq]
  exact Position.isBehind_start.advanceAll (covered before) (by rw [List.nil_append]; omega)

/-- Later cuts stand at later places. -/
theorem Placed.increasing (before : List Cut) {cuts : List Cut} (h : Placed .start (before ++ cuts))
    (hsize : (covered (before ++ cuts)).length < 2 ^ 32) :
    cuts.Pairwise fun a b => a.place.before b.place = true := by
  induction cuts generalizing before with
  | nil => exact .nil
  | cons a cuts ih =>
      refine .cons (fun b hb => ?_) (ih (before ++ [a]) ?_ ?_)
      · obtain ⟨between, after, rfl⟩ := List.append_of_mem hb
        have ha := h.isBehind hsize
        rw [← List.cons_append, ← List.append_assoc] at h hsize
        have hb := h.isBehind hsize
        rw [covered_append] at hb
        refine ha.before hb ?_
        rw [covered_cons]
        exact List.append_ne_nil_of_left_ne_nil (h.text_ne_nil a (by simp)) _
      · rwa [← List.append_cons]
      · rwa [← List.append_cons]

/-! ### Brackets -/

/-- Cuts in which every bracket has its partner. -/
inductive Balanced : List Cut → Prop
  | nil : Balanced []
  | token {cut : Cut} {cuts : List Cut} {t : Token} (h : cut.lexeme = .token t)
      (rest : Balanced cuts) : Balanced (cut :: cuts)
  | block {opener closer : Cut} {inner cuts : List Cut} {b : Bracket}
      (opening : opener.lexeme = .opening b) (closing : closer.lexeme = .closing b)
      (within : Balanced inner) (rest : Balanced cuts) :
      Balanced (opener :: inner ++ closer :: cuts)

/-- Cuts in which the given brackets are open, innermost first. -/
inductive Nested : List Cut → List (Bracket × Position) → Prop
  | flat {cuts : List Cut} (h : Balanced cuts) : Nested cuts []
  | block {before inner : List Cut} {opener : Cut} {b : Bracket}
      {around : List (Bracket × Position)} (outer : Nested before around)
      (opening : opener.lexeme = .opening b) (within : Balanced inner) :
      Nested (before ++ opener :: inner) ((b, opener.place) :: around)

theorem Balanced.append {cuts more : List Cut} (h : Balanced cuts) (hmore : Balanced more) :
    Balanced (cuts ++ more) := by
  induction h with
  | nil => exact hmore
  | token hcut _ ih => exact .token hcut ih
  | @block opener closer inner cuts b opening closing within _ _ ih =>
      rw [List.append_assoc, List.cons_append]
      exact .block opening closing within ih

theorem Nested.append {cuts more : List Cut} {around : List (Bracket × Position)}
    (h : Nested cuts around) (hmore : Balanced more) : Nested (cuts ++ more) around := by
  cases h with
  | flat h => exact .flat (h.append hmore)
  | block outer opening within =>
      rw [List.append_assoc, List.cons_append]
      exact .block outer opening (within.append hmore)

theorem Nested.close {cuts : List Cut} {closer : Cut} {b : Bracket} {place : Position}
    {around : List (Bracket × Position)} (h : Nested cuts ((b, place) :: around))
    (closing : closer.lexeme = .closing b) : Nested (cuts ++ [closer]) around := by
  cases h with
  | @block before inner opener _ _ outer opening within =>
      rw [List.append_assoc, List.cons_append]
      exact outer.append (.block opening closing within .nil)

end Cut

/-! ### Phrases -/

namespace Phrase

theorem exists_longest_eq {d : Dialect} {phrase : String} {seen : Nat} {best : Option Found}
    {words : List Token} {found : Found} (h : longest d phrase seen best words = some found) :
    best = some found ∨ ∃ more, found.phrase = phrase ++ " " ++ more := by
  induction words generalizing phrase seen best with
  | nil => exact .inl h
  | cons t rest ih =>
      rw [longest] at h
      split at h
      · exact ih h
      · dsimp only at h
        rcases ih h with hbest | ⟨more, hmore⟩
        · split at hbest
          · cases hbest
            exact .inr ⟨_, rfl⟩
          · exact .inl hbest
        · exact .inr ⟨Text.toUpper t.value ++ " " ++ more, by simp only [hmore, String.append_assoc]⟩

end Phrase

/-- A token that was read as the given one. What it means as an operator and
whether a blank stands before it may be known of it besides. -/
structure Token.ReadAs (word t : Token) : Prop where
  kind : t.kind = word.kind
  value : t.value = word.value
  delimiter : t.delimiter = word.delimiter
  modifier : t.modifier = word.modifier

theorem Token.ReadAs.trans {word t u : Token} (h : word.ReadAs t) (h' : t.ReadAs u) :
    word.ReadAs u :=
  ⟨h'.kind.trans h.kind, h'.value.trans h.value, h'.delimiter.trans h.delimiter,
    h'.modifier.trans h.modifier⟩

/-- A token that was read as the given one, or a phrase that begins with it. -/
inductive Token.Opens (word t : Token) : Prop
  | alone (same : word.ReadAs t)
  | phrase (more : String) (value : t.value = Text.toUpper word.value ++ " " ++ more)

theorem Phrase.head_opens (d : Dialect) (word : Token) (rest : List Token) :
    word.Opens (head d word rest).1 ∧ (head d word rest).1.position = word.position := by
  unfold head
  split
  next found hfound =>
    rcases exists_longest_eq hfound with hnone | ⟨more, hmore⟩
    · cases hnone
    · exact ⟨.phrase more hmore, rfl⟩
  next =>
    unfold single
    split
    · exact ⟨.alone ⟨rfl, rfl, rfl, rfl⟩, rfl⟩
    · exact ⟨.alone ⟨rfl, rfl, rfl, rfl⟩, rfl⟩

/-! ### Events -/

/-- The place that an event tells. -/
def Event.position : Event → Position
  | .token t => t.position
  | .opened _ place _ | .closed _ place => place

namespace Cut

/-- An event whose first lexeme is the given one. -/
inductive Begins (cut : Cut) : Event → Prop
  | token {word t : Token} (lexeme : cut.lexeme = .token word) (place : t.position = cut.place)
      (opens : word.Opens t) : Begins cut (.token t)
  | opener {b : Bracket} {t : Token} (lexeme : cut.lexeme = .opening b)
      (place : t.position = cut.place) (kind : t.kind = .punctuation)
      (value : t.value = b.opener.toString) : Begins cut (.token t)
  | closer {b : Bracket} {t : Token} (lexeme : cut.lexeme = .closing b)
      (place : t.position = cut.place) (kind : t.kind = .punctuation)
      (value : t.value = b.closer.toString) : Begins cut (.token t)
  | opened {b : Bracket} {spaceBefore : Bool} (lexeme : cut.lexeme = .opening b) :
      Begins cut (.opened b cut.place spaceBefore)
  | closed {b : Bracket} (lexeme : cut.lexeme = .closing b) : Begins cut (.closed b cut.place)

theorem Begins.position {cut : Cut} {e : Event} (h : Begins cut e) : e.position = cut.place := by
  cases h with
  | token _ place | opener _ place | closer _ place => exact place
  | opened | closed => rfl

theorem map_position {firsts : List Cut} {events : List Event}
    (h : List.Forall₂ Begins firsts events) : events.map Event.position = firsts.map Cut.place := by
  induction h with
  | nil => rfl
  | cons hbegins _ ih => rw [List.map_cons, List.map_cons, hbegins.position, ih]

/-- A token that waits as it was read. -/
inductive Waits (cut : Cut) (t : Token) : Prop
  | intro {word : Token} (lexeme : cut.lexeme = .token word) (place : t.position = cut.place)
      (same : word.ReadAs t)

theorem Waits.begins {cut : Cut} {t : Token} (h : Waits cut t) : Begins cut (.token t) := by
  obtain ⟨lexeme, place, same⟩ := h
  exact .token lexeme place (.alone same)

theorem Waits.begins_head {cut : Cut} {word : Token} (h : Waits cut word) (d : Dialect)
    (rest : List Token) : Begins cut (.token (Phrase.head d word rest).1) := by
  obtain ⟨hopens, hplace⟩ := Phrase.head_opens d word rest
  obtain ⟨lexeme, place, same⟩ := h
  refine .token lexeme (hplace.trans place) ?_
  cases hopens with
  | alone same' => exact .alone (same.trans same')
  | phrase more hvalue => exact .phrase more (same.value ▸ hvalue)

/-- Events and waiting words that begin with lexemes of their own, in order. -/
inductive Origins (taken : List Cut) (ready : List Event) (words : List Token) : Prop
  | intro {early late : List Cut} (sublist : (early ++ late).Sublist taken)
      (ready : List.Forall₂ Begins early ready) (words : List.Forall₂ Waits late words)

theorem exists_settle_origins (d : Dialect) (final : Bool) {cuts : List Cut} {words : List Token}
    (h : List.Forall₂ Waits cuts words) :
    ∃ out waiting, (out ++ waiting).Sublist cuts ∧
      List.Forall₂ Begins out ((Phrase.settle d final words).1.map .token) ∧
      List.Forall₂ Waits waiting (Phrase.settle d final words).2 := by
  fun_induction Phrase.settle d final words generalizing cuts with
  | case1 => exact ⟨[], [], List.nil_sublist _, .nil, .nil⟩
  | case2 t rest _ out waiting hsettle ih =>
      cases h with
      | @cons cut _ cuts _ hcut hrest =>
          obtain ⟨early, late, hsub, hout, hwaiting⟩ := ih hrest
          rw [hsettle] at hout hwaiting
          exact ⟨cut :: early, late, hsub.cons_cons cut, .cons hcut.begins hout, hwaiting⟩
  | case3 t rest _ _ => exact ⟨[], cuts, .refl _, .nil, h⟩
  | case4 t rest _ _ first extent hhead out waiting hsettle ih =>
      cases h with
      | @cons cut _ cuts _ hcut hrest =>
          obtain ⟨early, late, hsub, hout, hwaiting⟩ := ih (List.forall₂_drop extent hrest)
          rw [hsettle] at hout hwaiting
          have hfirst := hcut.begins_head d rest
          rw [hhead] at hfirst
          exact ⟨cut :: early, late, (hsub.trans (List.drop_sublist _ _)).cons_cons cut,
            .cons hfirst hout, hwaiting⟩

namespace Origins

variable {taken : List Cut} {ready : List Event} {words : List Token} {cut : Cut}

theorem settle (h : Origins taken ready words) (d : Dialect) (final : Bool) :
    Origins taken (ready ++ (Phrase.settle d final words).1.map .token)
      (Phrase.settle d final words).2 := by
  obtain ⟨hsub, hready, hwords⟩ := h
  obtain ⟨out, waiting, hsettled, hout, hwaiting⟩ := exists_settle_origins d final hwords
  refine ⟨(?_ : (_ ++ waiting).Sublist taken), List.rel_append hready hout, hwaiting⟩
  rw [List.append_assoc]
  exact (hsettled.append_left _).trans hsub

theorem pass (h : Origins taken ready words) (cut : Cut) : Origins (taken ++ [cut]) ready words := by
  obtain ⟨hsub, hready, hwords⟩ := h
  exact ⟨hsub.trans (List.sublist_append_left _ _), hready, hwords⟩

theorem wait {t : Token} (h : Origins taken ready words) (ht : Waits cut t) :
    Origins (taken ++ [cut]) ready (words ++ [t]) := by
  obtain ⟨hsub, hready, hwords⟩ := h
  refine ⟨(?_ : (_ ++ (_ ++ [cut])).Sublist _), hready, List.rel_append hwords (.cons ht .nil)⟩
  rw [← List.append_assoc]
  exact hsub.append (.refl _)

theorem deliver {e : Event} (h : Origins taken ready []) (he : Begins cut e) :
    Origins (taken ++ [cut]) (ready ++ [e]) [] := by
  obtain ⟨hsub, hready, hwords⟩ := h
  cases hwords
  rw [List.append_nil] at hsub
  refine ⟨(?_ : ((_ ++ [cut]) ++ []).Sublist _), List.rel_append hready (.cons he .nil), .nil⟩
  rw [List.append_nil]
  exact hsub.append (.refl _)

end Origins

end Cut

/-! ### Scanners -/

namespace Scanner

/-- A scanner whose events, waiting words and open brackets come from the
lexemes that were taken in. -/
structure Tracks (taken : List Cut) (s : Scanner) : Prop where
  origins : Cut.Origins taken s.ready s.words
  nested : Cut.Nested taken s.nesting

variable {s s' : Scanner} {taken : List Cut} {cut : Cut}

theorem flush_origins (h : Cut.Origins taken s.ready s.words) :
    Cut.Origins taken s.flush.ready [] := by
  have hsettled := h.settle s.dialect true
  rwa [Phrase.settle_final] at hsettled

theorem flush_words (s : Scanner) : s.flush.words = [] :=
  Phrase.settle_final s.dialect s.words

theorem wait_origins {t : Token} (h : Cut.Origins taken s.ready s.words) (ht : Cut.Waits cut t) :
    Cut.Origins (taken ++ [cut]) (s.wait t).ready (s.wait t).words :=
  (h.wait ht).settle s.dialect false

theorem deliver_origins {e : Event} (h : Cut.Origins taken s.ready s.words)
    (he : Cut.Begins cut e) :
    Cut.Origins (taken ++ [cut]) (s.deliver e).ready (s.deliver e).words := by
  change Cut.Origins _ (s.flush.ready ++ [e]) s.flush.words
  rw [flush_words]
  exact (flush_origins h).deliver he

theorem stageContent_origins {t : Token} (h : Cut.Origins taken s.ready s.words)
    (hwaits : Phrase.isWord t = true → Cut.Waits cut { t with spaceBefore := s.spacePending })
    (hbegins : Cut.Begins cut (.token { t with spaceBefore := s.spacePending })) :
    Cut.Origins (taken ++ [cut]) (s.stageContent t).ready (s.stageContent t).words := by
  unfold stageContent
  dsimp only
  split
  next hword => exact wait_origins (s := { s with spacePending := false }) h (hwaits hword)
  next => exact deliver_origins (s := { s with spacePending := false }) h hbegins

theorem stage_origins {t : Token} (h : Cut.Origins taken s.ready s.words)
    (hlexeme : cut.lexeme = .token t) (hplace : t.position = cut.place) :
    Cut.Origins (taken ++ [cut]) (s.stage t).ready (s.stage t).words := by
  have hwaits : Cut.Waits cut t := ⟨hlexeme, hplace, ⟨rfl, rfl, rfl, rfl⟩⟩
  unfold stage
  split
  · dsimp only
    split
    · exact wait_origins (s := { s with spacePending := true }) h hwaits
    · exact h.pass cut
  · dsimp only
    split
    · exact deliver_origins (s := { s with spacePending := true }) h hwaits.begins
    · change Cut.Origins _ s.flush.ready s.flush.words
      rw [flush_words]
      exact (flush_origins h).pass cut
  · have hspaced : Cut.Waits cut { t with spaceBefore := s.spacePending } :=
      ⟨hlexeme, hplace, ⟨rfl, rfl, rfl, rfl⟩⟩
    exact stageContent_origins h (fun _ => hspaced) hspaced.begins

/-- What a scanner holds comes from what it took in, the lexeme that it takes
in now included. -/
theorem Tracks.accept (h : s.Tracks taken) (hplace : cut.lexeme.StandsAt cut.place)
    (ha : s.accept cut.place cut.lexeme = .ok s') : s'.Tracks (taken ++ [cut]) := by
  obtain ⟨horigins, hnested⟩ := h
  generalize hlexeme : cut.lexeme = lx at hplace ha
  cases accepts_of_ok ha with
  | token t =>
      refine ⟨stage_origins horigins hlexeme hplace, ?_⟩
      obtain ⟨_, _, _, hframe⟩ := s.restaged_stage t
      rw [hframe]
      exact hnested.append (.token hlexeme .nil)
  | opening b =>
      constructor
      · unfold openBlock
        dsimp only
        split
        · exact deliver_origins (s := { s with nesting := (b, cut.place) :: s.nesting }) horigins
            (.opened hlexeme)
        · exact stageContent_origins (s := { s with nesting := (b, cut.place) :: s.nesting })
            horigins nofun (.opener hlexeme rfl rfl rfl)
      · obtain ⟨_, _, _, hframe⟩ := s.restaged_openBlock b cut.place
        rw [hframe]
        exact hnested.block hlexeme .nil
  | @closing b opened around hpartner =>
      constructor
      · unfold closeBlock
        dsimp only
        split
        · exact deliver_origins (s := { s with nesting := s.nesting.tail }) horigins
            (.closed hlexeme)
        · exact stageContent_origins (s := { s with nesting := s.nesting.tail }) horigins nofun
            (.closer hlexeme rfl rfl rfl)
      · obtain ⟨_, _, _, hframe⟩ := s.restaged_closeBlock b cut.place
        rw [hpartner] at hnested
        rw [hframe, hpartner]
        exact hnested.close hlexeme

/-- What a scanner holds at the end of a run comes from what the run read. -/
theorem Tracks.digest (h : s.Tracks taken) : s.digest.1.Tracks (taken ++ s.cuts) := by
  fun_induction Scanner.digest s generalizing taken with
  | case1 s hu b opened rest hn =>
      rwa [cuts_of_nil hu, List.append_nil]
  | case2 s hu hn =>
      rw [cuts_of_nil hu, List.append_nil]
      refine ⟨?_, h.nested⟩
      rw [flush_words]
      exact flush_origins h.origins
  | case3 s c rest hu hl | case4 s c rest hu e hl =>
      rwa [cuts_of_cons hu, hl, List.append_nil]
  | case5 s c rest hu lx width hl e ha =>
      simpa only [cuts_of_cons hu, hl, ha, List.append_nil] using h
  | case6 s c rest hu lx width hl s' ha ih =>
      simp only [cuts_of_cons hu, hl, ha]
      have hplace : lx.StandsAt s.position :=
        (lexeme_stands s.context c).gives true rest lx width hl
      have hs' : s'.Tracks (taken ++ [⟨lx, s.position, c :: rest.take width⟩]) :=
        h.accept hplace ha
      have hskip : (s'.skip c rest width).Tracks
          (taken ++ [⟨lx, s.position, c :: rest.take width⟩]) := ⟨hs'.origins, hs'.nested⟩
      have hrest := ih hskip
      rwa [← List.append_cons] at hrest

/-- Why a scanner with all of its text stops where it does. -/
inductive StopsAt (s : Scanner) : Option LexError → Prop
  | ended (unread : s.unread = []) (nesting : s.nesting = []) : StopsAt s none
  | unclosed {b : Bracket} {opened : Position} {around : List (Bracket × Position)}
      (unread : s.unread = []) (nesting : s.nesting = (b, opened) :: around) :
      StopsAt s (some (.unclosed b.opener opened))
  | failed {c : Char} {rest : List Char} {e : LexError} (unread : s.unread = c :: rest)
      (lexeme : lexeme s.context c true rest = .fail e) : StopsAt s (some e)
  | refused {c : Char} {rest : List Char} {b : Bracket} {width : Nat}
      (unread : s.unread = c :: rest)
      (lexeme : lexeme s.context c true rest = .done (.closing b) width)
      (partner : s.nesting.head?.any (·.1 = b) = false) :
      StopsAt s (some (.unbalancedClose b.closer s.position))

theorem digest_stops (s : Scanner) : s.digest.1.StopsAt s.digest.2 := by
  fun_induction Scanner.digest s with
  | case1 s hu b opened rest hn => exact .unclosed hu hn
  | case2 s hu hn => exact .ended hu hn
  | case3 s c rest hu hl => exact absurd hl ((lexeme_stable s.context c).decides rest)
  | case4 s c rest hu e hl => exact .failed hu hl
  | case5 s c rest hu lx width hl e ha =>
      cases lx with
      | token | opening => cases ha
      | closing b =>
          rw [Scanner.accept] at ha
          split at ha
          next => cases ha
          next hpartner =>
            cases ha
            exact .refused hu hl (Bool.eq_false_iff.2 hpartner)
  | case6 s c rest hu lx width hl s' ha ih => exact ih

end Scanner

/-! ### Runs -/

/-- What is known before the lexeme behind the given cuts is read. -/
def Cut.contextBehind (d : Dialect) (options : LexOptions) (cuts : List Cut) (place : Position) :
    LexContext :=
  ⟨d, options, place, (covered cuts).getLast?⟩

/-- Why a run of a text ends behind the lexemes that it read: because the text
ends there, with every bracket closed or with a bracket open, or because the
next lexeme is malformed or closes a bracket that is not the innermost open one. -/
inductive Cut.Ends (d : Dialect) (options : LexOptions) (text : List Char) (cuts : List Cut) :
    Option LexError → Prop
  | ended (all : covered cuts = text) (balanced : Balanced cuts) : Ends d options text cuts none
  | unclosed {before inner : List Cut} {opener : Cut} {b : Bracket}
      (all : covered cuts = text) (split : cuts = before ++ opener :: inner)
      (opening : opener.lexeme = .opening b) (within : Balanced inner) :
      Ends d options text cuts (some (.unclosed b.opener opener.place))
  | failed {c : Char} {rest : List Char} {e : LexError} (split : covered cuts ++ c :: rest = text)
      (place : e.position.IsBehind (covered cuts))
      (inside : ∀ symbol opened, e ≠ .unclosed symbol opened)
      (fails : DualSql.lexeme (contextBehind d options cuts e.position) c true rest = .fail e) :
      Ends d options text cuts (some e)
  | refused {c : Char} {rest : List Char} {place : Position} {b : Bracket} {width : Nat}
      {around : List (Bracket × Position)} (split : covered cuts ++ c :: rest = text)
      (behind : place.IsBehind (covered cuts))
      (closing : DualSql.lexeme (contextBehind d options cuts place) c true rest =
        .done (.closing b) width)
      (nested : Nested cuts around) (partner : around.head?.any (·.1 = b) = false) :
      Ends d options text cuts (some (.unbalancedClose b.closer place))

theorem Cut.Nested.ends_of_nil {d : Dialect} {options : LexOptions} {cuts : List Cut}
    (h : Nested cuts []) : Ends d options (covered cuts) cuts none := by
  cases h with
  | flat balanced => exact .ended rfl balanced

theorem Cut.Nested.ends_of_cons {d : Dialect} {options : LexOptions} {cuts : List Cut} {b : Bracket}
    {opened : Position} {around : List (Bracket × Position)}
    (h : Nested cuts ((b, opened) :: around)) :
    Ends d options (covered cuts) cuts (some (.unclosed b.opener opened)) := by
  cases h with
  | block _ opening within => exact .unclosed rfl rfl opening within

/-- A scanner at the start of a complete text. -/
structure Scanner.Fresh (s : Scanner) : Prop where
  position : s.position = .start
  before : s.before = none
  nesting : s.nesting = []
  words : s.words = []
  ready : s.ready = []

namespace Scanner.Fresh

variable {s : Scanner}

theorem tracks (h : s.Fresh) : s.digest.1.Tracks s.cuts := by
  have hstart : s.Tracks [] := by
    refine ⟨?_, ?_⟩
    · rw [h.words, h.ready]
      exact ⟨List.nil_sublist _, .nil, .nil⟩
    · rw [h.nesting]
      exact .flat .nil
  exact hstart.digest

theorem context_digest (h : s.Fresh) :
    s.digest.1.context =
      Cut.contextBehind s.dialect s.options s.cuts (.advanceAll .start (Cut.covered s.cuts)) := by
  rw [Scanner.context_digest, h.position, h.before, Option.or_none]
  rfl

theorem exists_lexeme (h : s.Fresh) {earlier later : List Cut} {cut : Cut}
    (hcuts : s.cuts = earlier ++ cut :: later) :
    ∃ c rest width, Cut.covered earlier ++ c :: rest = s.unread ∧
      lexeme (Cut.contextBehind s.dialect s.options earlier cut.place) c true rest =
        .done cut.lexeme width ∧
      cut.text = c :: rest.take width := by
  have hread := Scanner.exists_lexeme_of_cuts hcuts
  simp only [h.before, Option.or_none] at hread
  exact hread

/-- A run ends behind what it read, and says why. -/
theorem ends (h : s.Fresh) (hsize : s.unread.length < 2 ^ 32) :
    Cut.Ends s.dialect s.options s.unread s.cuts s.digest.2 := by
  have hcovered := s.covered_cuts
  have hcontext := h.context_digest
  have hnested := h.tracks.nested
  have hposition : s.digest.1.position = .advanceAll .start (Cut.covered s.cuts) :=
    congrArg LexContext.start hcontext
  have hbehind (c : Char) (rest : List Char) (hu : s.digest.1.unread = c :: rest) :
      s.digest.1.position.IsBehind (Cut.covered s.cuts) := by
    rw [hposition]
    refine Position.isBehind_start.advanceAll _ ?_
    rw [← hcovered, hu, List.length_append, List.length_cons] at hsize
    rw [List.nil_append]
    omega
  rw [← hposition] at hcontext
  have hstops := s.digest_stops
  generalize s.digest.2 = error at hstops ⊢
  cases hstops with
  | ended hu hn =>
      rw [hu, List.append_nil] at hcovered
      rw [hn] at hnested
      exact hcovered ▸ hnested.ends_of_nil
  | unclosed hu hn =>
      rw [hu, List.append_nil] at hcovered
      rw [hn] at hnested
      exact hcovered ▸ hnested.ends_of_cons
  | @failed c rest e hu hfail =>
      have hat : e.At s.digest.1.position := (lexeme_stands _ _).fails _ _ _ hfail
      rw [hu] at hcovered
      rw [hcontext, ← hat.position] at hfail
      exact .failed hcovered (hat.position ▸ hbehind _ _ hu) hat.inside hfail
  | refused hu hread hpartner =>
      rw [hcontext] at hread
      rw [hu] at hcovered
      exact .refused hcovered (hbehind _ _ hu) hread hnested hpartner

end Scanner.Fresh

/-- What a run reads, delivers and reports comes from its text: the lexemes
that it reads cover the text from its start without a gap, up to the end if
none is refused, and stand where lines and columns are counted from the start
of the text; every event stands at its first lexeme, and later ones at later
places; and an error stands at the lexeme that was refused, or at the innermost
bracket that is open at the end. -/
theorem lexEvents_origins (d : Dialect) (options : LexOptions) (chunks : List String)
    (hsize : (String.join chunks).length < 2 ^ 32) :
    let text := (String.join chunks).toList
    let cuts := lexCuts d options chunks
    let run := lexEvents d options chunks
    (∀ earlier cut later, cuts = earlier ++ cut :: later →
      cut.text ≠ [] ∧ cut.place.IsBehind (Cut.covered earlier) ∧
        ∃ c rest width, Cut.covered earlier ++ c :: rest = text ∧
          lexeme (Cut.contextBehind d options earlier cut.place) c true rest =
            .done cut.lexeme width ∧
          cut.text = c :: rest.take width) ∧
      Cut.Ends d options text cuts run.2 ∧
      (∃ firsts, firsts.Sublist cuts ∧ List.Forall₂ Cut.Begins firsts run.1) ∧
      (run.1.map Event.position).Pairwise fun p q => p.before q = true := by
  intro text cuts run
  let s : Scanner := .completed { dialect := d, options } (String.join chunks)
  have hfresh : s.Fresh := ⟨rfl, rfl, rfl, rfl, rfl⟩
  have hcuts : cuts = s.cuts := lexCuts_eq d options chunks
  have hrun : run = (s.digest.1.ready, s.digest.2) := lexEvents_eq d options chunks
  have htext : s.unread.length < 2 ^ 32 := by
    rwa [show s.unread = text from List.nil_append _, String.length_toList]
  have hcovered : (Cut.covered s.cuts).length < 2 ^ 32 := by
    rw [← s.covered_cuts, List.length_append] at htext
    omega
  have hplaced : Cut.Placed .start s.cuts := s.placed_cuts
  rw [hcuts, hrun]
  obtain ⟨hsublist, hready, -⟩ := hfresh.tracks.origins
  rename_i early late
  refine ⟨fun earlier cut later h => ?_, hfresh.ends htext, ⟨early, ?_, hready⟩, ?_⟩
  · rw [h] at hplaced hcovered
    exact ⟨hplaced.text_ne_nil cut (by simp), hplaced.isBehind hcovered, hfresh.exists_lexeme h⟩
  · exact (List.sublist_append_left early late).trans hsublist
  · rw [Cut.map_position hready, List.pairwise_map]
    exact (hplaced.increasing [] hcovered).sublist
      ((List.sublist_append_left early late).trans hsublist)

/-- A phrase over two lines stands where its first word does. -/
theorem lexEvents_origins_phrase :
    let chunks := ["SELECT 1\nORD", "ER\n BY 2"]
    (String.join chunks).length < 2 ^ 32 ∧
      (lexEvents .mysql (.ofDialect .mysql) chunks).1.map Event.position =
        [⟨1, 1⟩, ⟨1, 8⟩, ⟨2, 1⟩, ⟨3, 5⟩] ∧
      ∃ firsts, firsts.Sublist (lexCuts .mysql (.ofDialect .mysql) chunks) ∧
        List.Forall₂ Cut.Begins firsts (lexEvents .mysql (.ofDialect .mysql) chunks).1 := by
  have hsize : (String.join ["SELECT 1\nORD", "ER\n BY 2"]).length < 2 ^ 32 := by decide
  refine ⟨hsize, ?_, ?_⟩
  · rw [lexEvents_eq]
    decide +kernel
  · exact (lexEvents_origins .mysql (.ofDialect .mysql) _ hsize).2.2.1

end DualSql
