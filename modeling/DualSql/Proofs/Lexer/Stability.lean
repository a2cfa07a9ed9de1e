import DualSql.Lexer.Lexeme

/-!
# Answers that further text cannot change

A recogniser that does not ask for more has decided. Its answer is the same
whatever arrives later and whether or not the text is then complete, and it
covers only characters that have arrived. When the text is complete it never
asks for more. Every recogniser of a lexeme is built from parts with these
properties.

## Implementation notes

The recursive bodies of quoted lexemes, comments and dollar strings are not
built with the combinators, so each has its own induction along its text. The
width bound is part of the property because the text behind an answer is
found by dropping its width.
-/

namespace DualSql

namespace Recogniser

variable {α β : Type}

/-- An answer to `text` that holds whatever follows. Asking for more promises
nothing. -/
def Lasting (p : Recogniser α) (text : List Char) : Scan α → Prop
  | .more => True
  | .fail e => ∀ closed more, p closed (text ++ more) = .fail e
  | .done a n => n ≤ text.length ∧ ∀ closed more, p closed (text ++ more) = .done a n

/-- Once a recogniser answers, no further text changes the answer, and on a
complete text it answers. -/
structure Stable (p : Recogniser α) : Prop where
  lasting (text : List Char) : Lasting p text (p false text)
  decides (text : List Char) : p true text ≠ .more

theorem Stable.fail_append {p : Recogniser α} (hp : Stable p) {text : List Char} {e : LexError}
    (h : p false text = .fail e) (closed : Bool) (more : List Char) :
    p closed (text ++ more) = .fail e := by
  have hl := hp.lasting text
  rw [h] at hl
  exact hl closed more

theorem Stable.width_le {p : Recogniser α} (hp : Stable p) {text : List Char} {a : α} {n : Nat}
    (h : p false text = .done a n) : n ≤ text.length := by
  have hl := hp.lasting text
  rw [h] at hl
  exact hl.1

theorem Stable.done_append {p : Recogniser α} (hp : Stable p) {text : List Char} {a : α}
    {n : Nat} (h : p false text = .done a n) (closed : Bool) (more : List Char) :
    p closed (text ++ more) = .done a n := by
  have hl := hp.lasting text
  rw [h] at hl
  exact hl.2 closed more

/-! ## Combinators -/

theorem Stable.pure (a : α) : Stable (Pure.pure a : Recogniser α) where
  lasting _ := ⟨Nat.zero_le _, fun _ _ => rfl⟩
  decides _ := nofun

theorem Stable.fail (e : LexError) : Stable (Recogniser.fail e : Recogniser α) where
  lasting _ _ _ := rfl
  decides _ := nofun

theorem Stable.bind {p : Recogniser α} {f : α → Recogniser β} (hp : Stable p)
    (hf : ∀ a, Stable (f a)) : Stable (p >>= f) := by
  constructor
  · intro text
    change Lasting (andThen p f) text (andThen p f false text)
    unfold andThen
    cases hr : p false text with
    | more => trivial
    | fail e =>
        intro closed more
        simp only [hp.fail_append hr]
    | done a n =>
        have hdrop (more : List Char) : (text ++ more).drop n = text.drop n ++ more :=
          List.drop_append_of_le_length (hp.width_le hr)
        cases hs : f a false (text.drop n) with
        | more => simp only [hs, Scan.widen, Lasting]
        | fail e =>
            simp only [hs, Scan.widen]
            intro closed more
            simp only [hp.done_append hr, hdrop, (hf a).fail_append hs]
        | done b m =>
            simp only [hs, Scan.widen]
            refine ⟨?_, fun closed more => ?_⟩
            · have h₁ := hp.width_le hr
              have h₂ := (hf a).width_le hs
              rw [List.length_drop] at h₂
              omega
            · simp only [hp.done_append hr, hdrop, (hf a).done_append hs]
  · intro text
    change andThen p f true text ≠ .more
    unfold andThen
    cases hr : p true text with
    | more => exact absurd hr (hp.decides text)
    | fail e => simp
    | done a n =>
        have := (hf a).decides (text.drop n)
        cases hs : f a true (text.drop n) with
        | more => exact absurd hs this
        | fail e => simp [hs, Scan.widen]
        | done b m => simp [hs, Scan.widen]

theorem Stable.ite {c : Prop} [Decidable c] {p q : Recogniser α} (hp : Stable p)
    (hq : Stable q) : Stable (if c then p else q) := by
  by_cases h : c
  · rwa [if_pos h]
  · rwa [if_neg h]

theorem Stable.look (n : Nat) : Stable (look n) := by
  constructor
  · intro text
    unfold Recogniser.look
    cases hc : text[n]? with
    | none => trivial
    | some c =>
        refine ⟨Nat.zero_le _, fun closed more => ?_⟩
        obtain ⟨hn, -⟩ := List.getElem?_eq_some_iff.mp hc
        simp only [List.getElem?_append_left hn, hc]
  · intro text
    unfold Recogniser.look
    cases text[n]? with
    | none => nofun
    | some c => nofun

theorem Stable.take (n : Nat) : Stable (take n) := by
  constructor
  · intro text
    unfold Recogniser.take
    by_cases hn : n ≤ text.length
    · rw [if_pos hn]
      refine ⟨hn, fun closed more => ?_⟩
      have hn' : n ≤ (text ++ more).length := by rw [List.length_append]; omega
      simp only [if_pos hn', List.take_append_of_le_length hn]
    · rw [if_neg hn]
      trivial
  · intro text
    unfold Recogniser.take
    split <;> nofun

theorem Stable.takeWhile (p : Char → Bool) : Stable (takeWhile p) := by
  constructor
  · intro text
    unfold Recogniser.takeWhile
    by_cases hn : (text.takeWhile p).length < text.length
    · simp only [if_pos hn]
      refine ⟨Nat.le_of_lt hn, fun closed more => ?_⟩
      have hrun : (text ++ more).takeWhile p = text.takeWhile p := by
        rw [List.takeWhile_append, if_neg (by omega)]
      simp only [hrun]
      rw [if_pos (by rw [List.length_append]; omega)]
    · simp only [if_neg hn]
      trivial
  · intro text
    unfold Recogniser.takeWhile
    dsimp only
    split <;> nofun

theorem Stable.ahead {p : Recogniser α} (hp : Stable p) : Stable (ahead p) := by
  constructor
  · intro text
    unfold Recogniser.ahead
    cases hr : p false text with
    | more => trivial
    | fail e =>
        intro closed more
        simp only [hp.fail_append hr]
    | done a n =>
        refine ⟨Nat.zero_le _, fun closed more => ?_⟩
        simp only [hp.done_append hr]
  · intro text
    unfold Recogniser.ahead
    cases hr : p true text with
    | more => exact absurd hr (hp.decides text)
    | fail e => nofun
    | done a n => nofun

theorem Stable.covered {p : Recogniser α} (hp : Stable p) : Stable (covered p) := by
  constructor
  · intro text
    unfold Recogniser.covered
    cases hr : p false text with
    | more => trivial
    | fail e =>
        intro closed more
        simp only [hp.fail_append hr]
    | done a n =>
        have hn := hp.width_le hr
        refine ⟨hn, fun closed more => ?_⟩
        simp only [hp.done_append hr, List.take_append_of_le_length hn]
  · intro text
    unfold Recogniser.covered
    cases hr : p true text with
    | more => exact absurd hr (hp.decides text)
    | fail e => nofun
    | done a n => nofun

end Recogniser

open Recogniser

/-! ## Bodies with a recursion of their own -/

/-- A body that reads `k` characters and leaves the rest to a lasting answer
has a lasting answer itself. -/
theorem Lasting.widen {α β : Type} {p : Recogniser β} {q : Recogniser α} {f : α → β} {k : Nat}
    {text rest : List Char} (hq : Lasting q rest (q false rest))
    (hlen : k + rest.length ≤ text.length)
    (hstep : ∀ closed more,
      p closed (text ++ more) = ((q closed (rest ++ more)).map f).widen k) :
    Lasting p text (((q false rest).map f).widen k) := by
  cases hr : q false rest with
  | more => trivial
  | fail e =>
      rw [hr] at hq
      intro closed more
      rw [hstep, hq closed more]
      rfl
  | done a n =>
      rw [hr] at hq
      refine ⟨?_, fun closed more => ?_⟩
      · have := hq.1
        omega
      · rw [hstep, hq.2 closed more]
        rfl

theorem Scan.map_ne_more {α β : Type} {f : α → β} {r : Scan α} (h : r ≠ .more) :
    r.map f ≠ .more := by
  cases r with
  | more => exact absurd rfl h
  | fail e => nofun
  | done a n => nofun

theorem Scan.widen_ne_more {α : Type} {k : Nat} {r : Scan α} (h : r ≠ .more) :
    r.widen k ≠ .more := by
  cases r with
  | more => exact absurd rfl h
  | fail e => nofun
  | done a n => nofun

theorem takeUpTo_lasting (max : Nat) (p : Char → Bool) (text : List Char) :
    Lasting (takeUpTo max p) text (takeUpTo max p false text) := by
  unfold takeUpTo
  have hle : ((text.take max).takeWhile p).length ≤ text.length :=
    Nat.le_trans (List.takeWhile_prefix p).length_le (List.take_prefix max text).length_le
  by_cases hend : ((text.take max).takeWhile p).length < max ∧
      ((text.take max).takeWhile p).length = text.length
  · simp only [if_pos hend]
    trivial
  · simp only [if_neg hend]
    refine ⟨hle, fun closed more => ?_⟩
    have hrun : ((text ++ more).take max).takeWhile p = (text.take max).takeWhile p := by
      by_cases hmax : max ≤ text.length
      · rw [List.take_append_of_le_length hmax]
      · -- The run stops inside the text, so the characters behind it do not count.
        have htake : text.take max = text := List.take_of_length_le (by omega)
        rw [htake] at hend hle ⊢
        rw [List.take_append, htake, List.takeWhile_append, if_neg (by omega)]
    simp only [hrun]
    rw [if_neg]
    rw [List.length_append]
    omega

theorem takeUpTo_stable (max : Nat) (p : Char → Bool) : Stable (takeUpTo max p) where
  lasting := takeUpTo_lasting max p
  decides text := by
    unfold takeUpTo
    dsimp only
    split <;> nofun

theorem LexContext.invalid_stable (ctx : LexContext) {α : Type} (what : Construct)
    (defect : Defect) : Stable (ctx.invalid what defect : Recogniser α) :=
  Stable.fail _

theorem postgresEscape_stable (ctx : LexContext) (letter : Char) :
    Stable (postgresEscape ctx letter) := by
  unfold postgresEscape
  cases postgresControl? letter with
  | some c => exact Stable.pure c
  | none =>
      cases numericEscape? letter with
      | none => exact Stable.pure letter
      | some escape =>
          obtain ⟨base, max, first⟩ := escape
          refine Stable.bind (takeUpTo_stable _ _) fun more => ?_
          refine Stable.ite (Stable.pure _) (Stable.ite (ctx.invalid_stable _ _) ?_)
          cases charOfCode? (numeral base (first ++ more)) with
          | some c => exact Stable.pure c
          | none => exact ctx.invalid_stable _ _

theorem quotedBody_lasting (ctx : LexContext) (quote : Char) (style : EscapeStyle)
    (what : Construct) (text : List Char) :
    Lasting (quotedBody ctx quote style what) text
      (quotedBody ctx quote style what false text) := by
  fun_induction quotedBody ctx quote style what false text with
  | case1 => trivial
  | case2 => trivial
  | case3 rest ih =>
      refine Lasting.widen ih (by simp; omega) fun closed more => ?_
      simp [quotedBody]
  | case4 q rest hq =>
      refine ⟨by simp, fun closed more => ?_⟩
      simp [quotedBody, hq]
  | case5 => trivial
  | case6 c hc hesc letter rest hstyle ih =>
      refine Lasting.widen ih (by simp; omega) fun closed more => ?_
      rw [List.cons_append, List.cons_append, quotedBody.eq_def]
      simp only [if_neg hc, if_pos hesc, if_pos hstyle]
  | case7 => trivial
  | case8 c hc hesc letter rest hstyle e he =>
      intro closed more
      rw [List.cons_append, List.cons_append, quotedBody.eq_def]
      simp only [if_neg hc, if_pos hesc, if_neg hstyle,
        (postgresEscape_stable ctx letter).fail_append he]
  | case9 c hc hesc letter rest hstyle d n hd ih =>
      have hn := (postgresEscape_stable ctx letter).width_le hd
      refine Lasting.widen ih (by simp; omega) fun closed more => ?_
      rw [List.cons_append, List.cons_append, quotedBody.eq_def]
      simp only [if_neg hc, if_pos hesc, if_neg hstyle,
        (postgresEscape_stable ctx letter).done_append hd,
        List.drop_append_of_le_length hn]
  | case10 c rest hc hesc ih =>
      refine Lasting.widen ih (by simp; omega) fun closed more => ?_
      rw [List.cons_append, quotedBody.eq_def]
      simp only [if_neg hc, if_neg hesc]

theorem quotedBody_stable (ctx : LexContext) (quote : Char) (style : EscapeStyle)
    (what : Construct) : Stable (quotedBody ctx quote style what) where
  lasting := quotedBody_lasting ctx quote style what
  decides text := by
    fun_induction quotedBody ctx quote style what true text with
    | case1 => nofun
    | case2 => nofun
    | case3 rest ih => exact Scan.widen_ne_more (Scan.map_ne_more ih)
    | case4 => nofun
    | case5 => nofun
    | case6 c hc hesc letter rest hstyle ih => exact Scan.widen_ne_more (Scan.map_ne_more ih)
    | case7 c hc hesc letter rest hstyle he =>
        exact absurd he ((postgresEscape_stable ctx letter).decides rest)
    | case8 => nofun
    | case9 c hc hesc letter rest hstyle d n hd ih => exact Scan.widen_ne_more (Scan.map_ne_more ih)
    | case10 c rest hc hesc ih => exact Scan.widen_ne_more (Scan.map_ne_more ih)

theorem Scan.map_id {α : Type} (r : Scan α) : r.map id = r := by
  cases r <;> rfl

theorem blockCommentBody_lasting (ctx : LexContext) (depth : Nat) (text : List Char) :
    Lasting (fun closed text => blockCommentBody ctx closed depth text) text
      (blockCommentBody ctx false depth text) := by
  fun_induction blockCommentBody ctx false depth text with
  | case1 => trivial
  | case2 => trivial
  | case3 depth c d rest h ih =>
      rw [← Scan.map_id (blockCommentBody ctx false (depth + 1) rest)]
      refine Lasting.widen ih (by simp; omega) fun closed more => ?_
      simp only [List.cons_append, blockCommentBody, if_pos h, Scan.map_id]
  | case4 depth c d rest h h' hd =>
      refine ⟨by simp, fun closed more => ?_⟩
      simp only [List.cons_append, blockCommentBody, if_neg h, if_pos h', if_pos hd]
  | case5 depth c d rest h h' hd ih =>
      rw [← Scan.map_id (blockCommentBody ctx false (depth - 1) rest)]
      refine Lasting.widen ih (by simp; omega) fun closed more => ?_
      simp only [List.cons_append, blockCommentBody, if_neg h, if_pos h', if_neg hd, Scan.map_id]
  | case6 depth c d rest h h' ih =>
      rw [← Scan.map_id (blockCommentBody ctx false depth (d :: rest))]
      refine Lasting.widen ih (by simp; omega) fun closed more => ?_
      simp only [List.cons_append, blockCommentBody, if_neg h, if_neg h', Scan.map_id]

theorem blockCommentBody_stable (ctx : LexContext) (depth : Nat) :
    Stable (fun closed text => blockCommentBody ctx closed depth text) where
  lasting := blockCommentBody_lasting ctx depth
  decides text := by
    fun_induction blockCommentBody ctx true depth text with
    | case1 => nofun
    | case2 => nofun
    | case3 depth c d rest h ih => exact Scan.widen_ne_more ih
    | case4 => nofun
    | case5 depth c d rest h h' hd ih => exact Scan.widen_ne_more ih
    | case6 depth c d rest h h' ih => exact Scan.widen_ne_more ih

/-- A prefix test that the text is long enough for does not see what follows. -/
theorem isPrefixOf_append_of_length_le {tag text : List Char} (more : List Char)
    (h : tag.length ≤ text.length) : tag.isPrefixOf (text ++ more) = tag.isPrefixOf text := by
  rw [Bool.eq_iff_iff, List.isPrefixOf_iff_prefix, List.isPrefixOf_iff_prefix]
  refine ⟨fun hp => ?_, fun hp => hp.trans (List.prefix_append text more)⟩
  exact List.prefix_of_prefix_length_le hp (List.prefix_append text more) h

theorem length_le_of_dollarBody {ctx : LexContext} {tag text value : List Char} {n : Nat}
    (h : dollarBody ctx tag false text = .done value n) : tag.length ≤ n ∧ n ≤ text.length := by
  fun_induction dollarBody ctx tag false text generalizing value n with
  | case1 => cases h
  | case2 c rest hp =>
      cases h
      exact ⟨Nat.le_refl _, (List.isPrefixOf_iff_prefix.mp hp).length_le⟩
  | case3 c rest hp ih =>
      cases hr : dollarBody ctx tag false rest with
      | more => simp [hr, Scan.map, Scan.widen] at h
      | fail e => simp [hr, Scan.map, Scan.widen] at h
      | done v m =>
          have hm := ih hr
          simp only [hr, Scan.map, Scan.widen, Scan.done.injEq] at h
          simp only [List.length_cons]
          omega

theorem dollarBody_ne_fail (ctx : LexContext) (tag text : List Char) (e : LexError) :
    dollarBody ctx tag false text ≠ .fail e := by
  fun_induction dollarBody ctx tag false text with
  | case1 => simp [atEnd]
  | case2 c rest hp => simp
  | case3 c rest hp ih =>
      cases hr : dollarBody ctx tag false rest with
      | more => simp [Scan.map, Scan.widen]
      | fail e' => simpa [hr, Scan.map, Scan.widen] using ih
      | done v m => simp [Scan.map, Scan.widen]

theorem dollarBody_lasting (ctx : LexContext) (tag text : List Char) :
    Lasting (dollarBody ctx tag) text (dollarBody ctx tag false text) := by
  fun_induction dollarBody ctx tag false text with
  | case1 => trivial
  | case2 c rest hp =>
      have hlen := (List.isPrefixOf_iff_prefix.mp hp).length_le
      refine ⟨hlen, fun closed more => ?_⟩
      have hp' := (isPrefixOf_append_of_length_le more hlen).trans hp
      rw [List.cons_append] at hp' ⊢
      rw [dollarBody, if_pos hp']
  | case3 c rest hp ih =>
      cases hr : dollarBody ctx tag false rest with
      | more => trivial
      | fail e => exact absurd hr (dollarBody_ne_fail ctx tag rest e)
      | done v n =>
          -- The tag stands whole in `rest`, so the text here is long enough to rule it out.
          have hlen := length_le_of_dollarBody hr
          rw [← hr]
          refine Lasting.widen ih (by simp; omega) fun closed more => ?_
          have hp' : ¬tag.isPrefixOf (c :: (rest ++ more)) := by
            rw [← List.cons_append, isPrefixOf_append_of_length_le more (by simp; omega)]
            exact hp
          rw [List.cons_append, dollarBody, if_neg hp']

theorem dollarBody_stable (ctx : LexContext) (tag : List Char) :
    Stable (dollarBody ctx tag) where
  lasting := dollarBody_lasting ctx tag
  decides text := by
    fun_induction dollarBody ctx tag true text with
    | case1 => nofun
    | case2 => nofun
    | case3 c rest hp ih => exact Scan.widen_ne_more (Scan.map_ne_more ih)

/-! ## Lexemes -/

theorem quoted_stable (ctx : LexContext) (quote : Char) (style : EscapeStyle)
    (what : Construct) : Stable (quoted ctx quote style what) :=
  Stable.bind (Stable.take 1) fun _ => quotedBody_stable ctx quote style what

theorem stringLexeme_stable (ctx : LexContext) (quote : Char) (modifier : Option String) :
    Stable (stringLexeme ctx quote modifier) :=
  Stable.bind (quotedBody_stable _ _ _ _) fun _ => Stable.pure _

theorem identifierLexeme_stable (ctx : LexContext) (quote : Char) :
    Stable (identifierLexeme ctx quote) :=
  Stable.bind (quotedBody_stable _ _ _ _) fun _ =>
    Stable.ite (ctx.invalid_stable _ _) (Stable.pure _)

theorem checkDigits_stable (ctx : LexContext) (what : Construct) (digits : List Char) :
    Stable (checkDigits ctx what digits) := by
  unfold checkDigits
  dsimp only
  split
  · exact ctx.invalid_stable _ _
  · exact Stable.pure _

theorem quotedDigits_stable (ctx : LexContext) (kind : TokenKind) (marker : String) :
    Stable (quotedDigits ctx kind marker) :=
  Stable.bind (quotedBody_stable _ _ _ _) fun _ =>
    Stable.bind (checkDigits_stable _ _ _) fun _ => Stable.pure _

theorem blockComment_stable (ctx : LexContext) : Stable (blockComment ctx) :=
  Stable.bind (Stable.covered (Stable.bind (Stable.take 1) fun _ =>
    blockCommentBody_stable ctx 1)) fun _ => Stable.pure _

theorem dashesStartComment_stable (ctx : LexContext) : Stable (dashesStartComment ctx) := by
  unfold dashesStartComment
  cases ctx.dialect with
  | postgres => exact Stable.pure _
  | mysql =>
      refine Stable.bind (Stable.look 1) fun c => ?_
      cases c with
      | none => exact Stable.pure _
      | some c => exact Stable.pure _

theorem lineComment_stable (ctx : LexContext) (first : Char) :
    Stable (lineComment ctx first) :=
  Stable.bind (Stable.takeWhile _) fun _ => Stable.pure _

theorem operatorLexeme_stable (ctx : LexContext) (first : Char) :
    Stable (operatorLexeme ctx first) := by
  refine Stable.bind (Stable.ahead (Stable.takeWhile _)) fun run => ?_
  cases Vocabulary.longestSymbol ctx.dialect (first :: run) with
  | none => exact Stable.fail _
  | some symbol => exact Stable.bind (Stable.take _) fun _ => Stable.pure _

theorem dollarString_stable (ctx : LexContext) (width : Nat) :
    Stable (dollarString ctx width) :=
  Stable.bind (Stable.take width) fun _ =>
    Stable.bind (dollarBody_stable ctx _) fun _ => Stable.pure _

theorem dollarLexeme_stable (ctx : LexContext) : Stable (dollarLexeme ctx) := by
  refine Stable.bind (Stable.look 0) fun c => ?_
  cases c with
  | none => exact Stable.pure _
  | some c =>
      refine Stable.ite (Stable.bind (Stable.takeWhile _) fun _ => Stable.pure _) ?_
      refine Stable.ite (dollarString_stable ctx 1) (Stable.ite ?_ (Stable.pure _))
      refine Stable.bind (Stable.ahead (Stable.takeWhile _)) fun name => ?_
      refine Stable.bind (Stable.look _) fun c => ?_
      exact Stable.ite (dollarString_stable ctx _) (Stable.pure _)

theorem variableName_stable (ctx : LexContext) (marker : String) :
    Stable (variableName ctx marker) := by
  refine Stable.bind (Stable.look 0) fun c => ?_
  cases c with
  | none => exact Stable.fail _
  | some c =>
      refine Stable.ite ?_ (Stable.ite ?_ (Stable.fail _))
      · exact Stable.bind (quoted_stable _ _ _ _) fun _ => Stable.pure _
      · exact Stable.bind (Stable.takeWhile _) fun _ => Stable.pure _

theorem variableLexeme_stable (ctx : LexContext) : Stable (variableLexeme ctx) := by
  refine Stable.bind (Stable.look 0) fun c => ?_
  exact Stable.ite (Stable.bind (Stable.take 1) fun _ => variableName_stable ctx _)
    (variableName_stable ctx _)

theorem dotStartsNumber_stable (ctx : LexContext) : Stable (dotStartsNumber ctx) :=
  Stable.ite (Stable.pure _) (Stable.bind (Stable.look 0) fun _ => Stable.pure _)

theorem exponentDigits_stable (ctx : LexContext) : Stable (exponentDigits ctx) := by
  refine Stable.bind (Stable.look 0) fun c => Stable.ite ?_ (ctx.invalid_stable _ _)
  exact Stable.bind (Stable.takeWhile _) fun _ => Stable.pure _

theorem exponent_stable (ctx : LexContext) : Stable (exponent ctx) := by
  refine Stable.bind (Stable.look 0) fun mark => Stable.ite ?_ (Stable.pure _)
  refine Stable.bind (Stable.take 1) fun _ => Stable.bind (Stable.look 0) fun sign => ?_
  exact Stable.ite (Stable.bind (Stable.take 1) fun _ => exponentDigits_stable ctx)
    (exponentDigits_stable ctx)

theorem fraction_stable (ctx : LexContext) : Stable (fraction ctx) := by
  refine Stable.bind (Stable.takeWhile _) fun _ => Stable.bind (Stable.look 0) fun c => ?_
  exact Stable.ite (ctx.invalid_stable _ _) (exponent_stable ctx)

theorem numberTail_stable (ctx : LexContext) (first : Char) : Stable (numberTail ctx first) := by
  refine Stable.ite (fraction_stable ctx) (Stable.bind (Stable.takeWhile _) fun _ => ?_)
  refine Stable.bind (Stable.look 0) fun c => ?_
  exact Stable.ite (Stable.bind (Stable.take 1) fun _ => fraction_stable ctx)
    (exponent_stable ctx)

theorem numberLexeme_stable (ctx : LexContext) (first : Char) :
    Stable (numberLexeme ctx first) :=
  Stable.bind (Stable.covered (numberTail_stable ctx first)) fun _ => Stable.pure _

theorem basedLexeme_stable (ctx : LexContext) (letter : Char) :
    Stable (basedLexeme ctx letter) := by
  unfold basedLexeme
  generalize (if letter = 'x' then (TokenKind.hexLiteral, Construct.hexLiteral, "0x")
    else (.bitLiteral, .bitLiteral, "0b")) = form
  obtain ⟨kind, what, marker⟩ := form
  refine Stable.bind (Stable.take 1) fun _ => Stable.bind (Stable.takeWhile _) fun digits => ?_
  refine Stable.ite (ctx.invalid_stable _ _) ?_
  exact Stable.bind (checkDigits_stable _ _ _) fun _ => Stable.pure _

theorem introducedLiteral_stable {ctx : LexContext} {word : List Char}
    {literal : Recogniser Lexeme} (h : introducedLiteral? ctx word = some literal) :
    Stable literal := by
  have behindQuote {p : Recogniser Lexeme} (hp : Stable p) :
      Stable (do let _ ← take 1; p) := Stable.bind (Stable.take 1) fun _ => hp
  unfold introducedLiteral? at h
  dsimp only at h
  split at h
  · cases h; exact behindQuote (stringLexeme_stable _ _ _)
  split at h
  · cases h; exact behindQuote (stringLexeme_stable _ _ _)
  split at h
  · cases h; exact behindQuote (quotedDigits_stable _ _ _)
  split at h
  · cases h; exact behindQuote (quotedDigits_stable _ _ _)
  split at h
  · cases h; exact behindQuote (stringLexeme_stable _ _ _)
  · cases h

theorem wordLexeme_stable (ctx : LexContext) (first : Char) :
    Stable (wordLexeme ctx first) := by
  refine Stable.bind (Stable.takeWhile _) fun rest => ?_
  refine Stable.bind (Stable.look 0) fun c => Stable.ite ?_ (Stable.pure _)
  cases h : introducedLiteral? ctx (first :: rest) with
  | none => exact Stable.pure _
  | some literal => exact introducedLiteral_stable h

theorem ordinaryLexeme_stable (ctx : LexContext) (c : Char) :
    Stable (ordinaryLexeme ctx c) := by
  unfold ordinaryLexeme
  refine Stable.ite (lineComment_stable _ _) (Stable.ite (stringLexeme_stable _ _ _) ?_)
  refine Stable.ite (Stable.ite (identifierLexeme_stable _ _) (stringLexeme_stable _ _ _)) ?_
  refine Stable.ite (identifierLexeme_stable _ _) (Stable.ite (dollarLexeme_stable _) ?_)
  refine Stable.ite (Stable.pure _) (Stable.ite (variableLexeme_stable _) ?_)
  refine Stable.ite (numberLexeme_stable _ _) (Stable.ite (Stable.pure _) ?_)
  split
  · exact Stable.pure _
  · exact Stable.pure _
  · exact Stable.ite (wordLexeme_stable _ _) (Stable.ite (operatorLexeme_stable _ _) (Stable.fail _))

/-- What a lexeme is depends on nothing behind the characters it asked for. -/
theorem lexeme_stable (ctx : LexContext) (c : Char) : Stable (lexeme ctx c) := by
  have ordinary := ordinaryLexeme_stable ctx c
  unfold lexeme
  refine Stable.ite (Stable.bind (Stable.takeWhile _) fun _ => Stable.pure _) ?_
  refine Stable.ite ?_ (Stable.ite ?_ (Stable.ite ?_ (Stable.ite ?_ ordinary)))
  · refine Stable.bind (Stable.look 0) fun next => Stable.ite ?_ ordinary
    refine Stable.bind (dashesStartComment_stable ctx) fun starts => ?_
    exact Stable.ite (lineComment_stable ctx c) ordinary
  · refine Stable.bind (Stable.look 0) fun next => ?_
    exact Stable.ite (blockComment_stable ctx) ordinary
  · refine Stable.bind (Stable.look 0) fun next => ?_
    split
    · exact basedLexeme_stable ctx 'x'
    · exact basedLexeme_stable ctx 'b'
    · exact ordinary
  · refine Stable.bind (dotStartsNumber_stable ctx) fun starts => ?_
    exact Stable.ite (numberLexeme_stable ctx c) ordinary

end DualSql
