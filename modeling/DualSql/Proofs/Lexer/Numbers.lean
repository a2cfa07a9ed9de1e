import Mathlib.Data.List.TakeWhile
import DualSql.Proofs.Lexer.Tokens

/-! # Numbers as they are written

A decimal number is made of digits, a point with digits behind it, and an exponent. The
lexer takes nothing else for a number, and takes each of these as one, unless what
follows could belong to it.

Main definitions: `Exponent`, `Decimal` and `extendsNumber`. Main results:
`exists_decimal_of_done` and `lexeme_decimal`. -/

namespace DualSql

/-! ### Recognisers that have the whole text -/

theorem Scan.widen_zero {α : Type} (r : Scan α) : r.widen 0 = r := by
  cases r <;> simp [widen]

theorem Scan.widen_eq_done {α : Type} {r : Scan α} {k n : Nat} {a : α} :
    r.widen k = .done a n ↔ ∃ m, r = .done a m ∧ n = k + m := by
  cases r with
  | more | fail => simp [widen]
  | done b m =>
      simp only [widen, done.injEq]
      constructor
      · rintro ⟨rfl, rfl⟩
        exact ⟨m, ⟨rfl, rfl⟩, rfl⟩
      · rintro ⟨m', ⟨rfl, rfl⟩, rfl⟩
        exact ⟨rfl, rfl⟩

theorem Scan.map_eq_done {α β : Type} {r : Scan α} {f : α → β} {n : Nat} {b : β} :
    r.map f = .done b n ↔ ∃ a, r = .done a n ∧ f a = b := by
  cases r with
  | more | fail => simp [map]
  | done a m =>
      simp only [map, done.injEq]
      constructor
      · rintro ⟨rfl, rfl⟩
        exact ⟨a, ⟨rfl, rfl⟩, rfl⟩
      · rintro ⟨a', ⟨rfl, rfl⟩, rfl⟩
        exact ⟨rfl, rfl⟩

namespace Recogniser

variable {α : Type}

theorem look_bind (f : Option Char → Recogniser α) (text : List Char) :
    (look 0 >>= f) true text = f text.head? true text := by
  have hlook : look 0 true text = .done text.head? 0 := by
    cases text <;> rfl
  rw [bind_of_done hlook, List.drop_zero, Scan.widen_zero]

theorem take_bind {n : Nat} {text : List Char} (h : n ≤ text.length)
    (f : List Char → Recogniser α) :
    (take n >>= f) true text = (f (text.take n) true (text.drop n)).widen n := by
  have htake : take n true text = .done (text.take n) n := by
    rw [take, if_pos h]
  rw [bind_of_done htake]

theorem takeWhile_closed (p : Char → Bool) (text : List Char) :
    takeWhile p true text = .done (text.takeWhile p) (text.takeWhile p).length := by
  unfold Recogniser.takeWhile
  dsimp only
  split <;> rfl

theorem drop_takeWhile (p : Char → Bool) (text : List Char) :
    text.drop (text.takeWhile p).length = text.dropWhile p := by
  have hsplit : text.take (text.takeWhile p).length ++ text.drop (text.takeWhile p).length =
      text.take (text.takeWhile p).length ++ text.dropWhile p := by
    rw [List.take_append_drop, ← List.prefix_iff_eq_take.1 (List.takeWhile_prefix p),
      List.takeWhile_append_dropWhile]
  exact List.append_cancel_left hsplit

theorem takeWhile_bind (p : Char → Bool) (f : List Char → Recogniser α) (text : List Char) :
    (takeWhile p >>= f) true text =
      (f (text.takeWhile p) true (text.dropWhile p)).widen (text.takeWhile p).length := by
  rw [bind_of_done (takeWhile_closed p text), drop_takeWhile]

end Recogniser

/-! ### Where a run of characters ends -/

/-- Whether a text does not go on with characters of a class. -/
def Stops (p : Char → Bool) (rest : List Char) : Prop :=
  ∀ c ∈ rest.head?, p c = false

theorem Stops.nil (p : Char → Bool) : Stops p [] := nofun

section

variable {p : Char → Bool} {run rest : List Char}

theorem Stops.dropWhile_eq (h : Stops p rest) : rest.dropWhile p = rest := by
  cases rest with
  | nil => rfl
  | cons c rest => exact List.dropWhile_cons_of_neg (by simp [h c rfl])

theorem Stops.takeWhile_eq (h : Stops p rest) : rest.takeWhile p = [] := by
  cases rest with
  | nil => rfl
  | cons c rest => exact List.takeWhile_cons_of_neg (by simp [h c rfl])

theorem Stops.takeWhile_append (h : Stops p rest) (hrun : ∀ c ∈ run, p c = true) :
    (run ++ rest).takeWhile p = run := by
  rw [List.takeWhile_append_of_pos hrun, h.takeWhile_eq, List.append_nil]

theorem Stops.dropWhile_append (h : Stops p rest) (hrun : ∀ c ∈ run, p c = true) :
    (run ++ rest).dropWhile p = rest := by
  rw [List.dropWhile_append_of_pos hrun, h.dropWhile_eq]

end

/-! ### Decimal numbers -/

/-- An exponent as it is written. -/
structure Exponent where
  mark : Char
  sign : List Char
  digits : List Char
  mark_eq : mark = 'e' ∨ mark = 'E'
  sign_mem : sign ∈ [[], ['+'], ['-']]
  isDigit_of_mem : ∀ c ∈ digits, c.isDigit = true
  digits_ne_nil : digits ≠ []

/-- A decimal number as it is written, which may begin or end with the point. -/
structure Decimal where
  whole : List Char
  /-- The digits behind the point, if there is one. -/
  fraction : Option (List Char)
  exponent : Option Exponent
  isDigit_of_mem_whole : ∀ c ∈ whole, c.isDigit = true
  isDigit_of_mem_fraction : ∀ digits ∈ fraction, ∀ c ∈ digits, c.isDigit = true
  spoken : whole = [] → ∃ digits ∈ fraction, digits ≠ []

namespace Exponent

/-- The characters of an exponent. -/
def text (e : Exponent) : List Char :=
  e.mark :: (e.sign ++ e.digits)

/-- The characters of an exponent, if there is one. -/
def optionalText (e : Option Exponent) : List Char :=
  e.elim [] text

end Exponent

/-- The characters of a number. -/
def Decimal.text (n : Decimal) : List Char :=
  n.whole ++ (n.fraction.elim [] ('.' :: ·) ++ Exponent.optionalText n.exponent)

theorem isWordChar_of_isDigit {c : Char} (h : c.isDigit = true) : isWordChar c = true := by
  have hrange : 48 ≤ c.toNat ∧ c.toNat ≤ 57 := by
    simpa [Char.isDigit, UInt32.le_iff_toNat_le] using h
  have hascii : c.toNat < 0x80 := by omega
  simp [isWordChar, Text.isAlphanumeric, Text.isNumeric, hascii, h]

/-- Whether a number goes on with a character: a digit, a point or the mark of an
exponent where it has no exponent, or the letter of another base. -/
def extendsNumber (d : Dialect) (number : List Char) (c : Char) : Bool :=
  c.isDigit || (['.', 'e', 'E'].contains c && !number.any ['e', 'E'].contains) ||
    (d == .mysql && number == ['0'] && ['x', 'b'].contains c)

/-- What follows does not belong to an exponent, and is none where there is none. -/
structure Exponent.Ends (e : Option Exponent) (rest : List Char) : Prop where
  digit : Stops Char.isDigit rest
  mark : e = none → Stops ['.', 'e', 'E'].contains rest

theorem Decimal.any_text_of_exponent {number : Decimal} (h : number.exponent = none) :
    number.text.any ['e', 'E'].contains = false := by
  obtain ⟨whole, fraction, e, hwhole, hfraction, hspoken⟩ := number
  obtain rfl : e = none := h
  have hdigits {digits : List Char} (hall : ∀ c ∈ digits, c.isDigit = true) :
      ∀ c ∈ digits, ¬c = 'e' ∧ ¬c = 'E' := by
    intro c hc
    constructor <;> rintro rfl <;> cases hall _ hc
  cases fraction with
  | none => simpa [text, Exponent.optionalText] using hdigits hwhole
  | some digits =>
      simpa [text, Exponent.optionalText] using ⟨hdigits hwhole, hdigits (hfraction _ rfl)⟩

/-- What does not belong to a number does not belong to its exponent. -/
theorem Decimal.ends_exponent {d : Dialect} {number : Decimal} {rest : List Char}
    (h : Stops (extendsNumber d number.text) rest) : Exponent.Ends number.exponent rest := by
  refine ⟨fun c hc => ?_, fun hnone c hc => ?_⟩
  · exact (Bool.or_eq_false_iff.1 (Bool.or_eq_false_iff.1 (h c hc)).1).1
  · have hmark := (Bool.or_eq_false_iff.1 (Bool.or_eq_false_iff.1 (h c hc)).1).2
    rwa [any_text_of_exponent hnone, Bool.not_false, Bool.and_true] at hmark

open Recogniser

variable {ctx : LexContext}

section Read

/-! #### Numbers that were read -/

variable {text : List Char} {n : Nat}

theorem exists_digits_of_done (h : exponentDigits ctx true text = .done () n) :
    text.take n ≠ [] ∧ ∀ c ∈ text.take n, c.isDigit = true := by
  rw [exponentDigits, look_bind] at h
  split at h
  next hfirst =>
    rw [takeWhile_bind, Scan.widen_eq_done] at h
    obtain ⟨m, hm, rfl⟩ := h
    cases hm
    rw [Nat.add_zero, ← List.prefix_iff_eq_take.1 (List.takeWhile_prefix _)]
    refine ⟨?_, fun c hc => List.mem_takeWhile_imp hc⟩
    cases text with
    | nil => simp at hfirst
    | cons c rest =>
        have hc : c.isDigit = true := by simpa using hfirst
        rw [List.takeWhile_cons_of_pos hc]
        exact List.cons_ne_nil _ _
  next => cases h

theorem exists_exponent_of_done (h : exponent ctx true text = .done () n) :
    ∃ e, text.take n = Exponent.optionalText e := by
  rw [exponent, look_bind] at h
  split at h
  next hmark =>
    cases text with
    | nil => simp at hmark
    | cons mark text =>
        rw [take_bind (by simp), Scan.widen_eq_done] at h
        obtain ⟨m, h, rfl⟩ := h
        rw [look_bind] at h
        replace hmark : mark = 'e' ∨ mark = 'E' := by simpa using hmark
        rw [Nat.add_comm, List.take_succ_cons]
        split at h
        next hsign =>
          cases text with
          | nil => simp at hsign
          | cons sign text =>
              rw [List.drop_succ_cons, List.drop_zero, take_bind (by simp),
                Scan.widen_eq_done] at h
              obtain ⟨m, h, rfl⟩ := h
              obtain ⟨hsome, hdigits⟩ := exists_digits_of_done h
              replace hsign : sign = '+' ∨ sign = '-' := by simpa using hsign
              exact ⟨some ⟨mark, [sign], _, hmark, by simpa using hsign, hdigits, hsome⟩, by
                rw [Nat.add_comm, List.take_succ_cons]
                rfl⟩
        next =>
          obtain ⟨hsome, hdigits⟩ := exists_digits_of_done h
          exact ⟨some ⟨mark, [], _, hmark, by simp, hdigits, hsome⟩, rfl⟩
  next =>
    cases h
    exact ⟨none, rfl⟩

/-- What a text begins with, if a run of a class and some characters behind it are taken. -/
theorem take_takeWhile_add (p : Char → Bool) (text : List Char) (n : Nat) :
    text.take ((text.takeWhile p).length + n) = text.takeWhile p ++ (text.dropWhile p).take n := by
  rw [List.take_add, drop_takeWhile, ← List.prefix_iff_eq_take.1 (List.takeWhile_prefix p)]

theorem exists_fraction_of_done (h : fraction ctx true text = .done () n) :
    ∃ e, text.take n = text.takeWhile Char.isDigit ++ Exponent.optionalText e := by
  rw [fraction, takeWhile_bind, Scan.widen_eq_done] at h
  obtain ⟨m, h, rfl⟩ := h
  rw [look_bind] at h
  split at h
  next => cases h
  next =>
    obtain ⟨e, he⟩ := exists_exponent_of_done h
    exact ⟨e, by rw [take_takeWhile_add, he]⟩

/-- Whatever is taken for a number is a decimal number. -/
theorem exists_decimal_of_done {first : Char} (h : numberTail ctx first true text = .done () n)
    (hfirst : first.isDigit = true ∨ first = '.' ∧ text.head?.any Char.isDigit = true) :
    ∃ number : Decimal, number.text = first :: text.take n := by
  unfold numberTail at h
  split at h
  next hpoint =>
    subst hpoint
    obtain ⟨e, he⟩ := exists_fraction_of_done h
    have hsome : text.takeWhile Char.isDigit ≠ [] := by
      obtain hdigit | ⟨-, hdigit⟩ := hfirst
      · cases hdigit
      · cases text with
        | nil => cases hdigit
        | cons c rest =>
            rw [List.takeWhile_cons_of_pos (by simpa using hdigit)]
            exact List.cons_ne_nil _ _
    exact ⟨⟨[], some (text.takeWhile Char.isDigit), e, nofun,
      fun digits hdigits c hc => List.mem_takeWhile_imp (Option.some.inj hdigits ▸ hc),
      fun _ => ⟨_, rfl, hsome⟩⟩, by rw [he]; rfl⟩
  next hpoint =>
    have hdigit : first.isDigit = true := hfirst.resolve_right fun hdot => hpoint hdot.1
    have hwhole : ∀ c ∈ first :: text.takeWhile Char.isDigit, c.isDigit = true :=
      List.forall_mem_cons.2 ⟨hdigit, fun c hc => List.mem_takeWhile_imp hc⟩
    rw [takeWhile_bind, Scan.widen_eq_done] at h
    obtain ⟨m, h, rfl⟩ := h
    rw [look_bind] at h
    rw [take_takeWhile_add]
    split at h
    next hdot =>
      cases hrest : text.dropWhile Char.isDigit with
      | nil => simp [hrest] at hdot
      | cons point rest =>
          obtain rfl : point = '.' := by simpa [hrest] using hdot
          rw [hrest, take_bind (by simp), Scan.widen_eq_done, List.drop_succ_cons,
            List.drop_zero] at h
          obtain ⟨k, h, rfl⟩ := h
          obtain ⟨e, he⟩ := exists_fraction_of_done h
          refine ⟨⟨_, some (rest.takeWhile Char.isDigit), e, hwhole,
            fun digits hdigits c hc => List.mem_takeWhile_imp (Option.some.inj hdigits ▸ hc),
            nofun⟩, ?_⟩
          rw [Nat.add_comm 1, List.take_succ_cons, he]
          rfl
    next =>
      obtain ⟨e, he⟩ := exists_exponent_of_done h
      exact ⟨⟨_, none, e, hwhole, nofun, nofun⟩, by rw [he]; rfl⟩

end Read

section Written

/-! #### Numbers that were written -/

variable {rest : List Char}

theorem exponentDigits_text {digits : List Char} (hdigits : ∀ c ∈ digits, c.isDigit = true)
    (hsome : digits ≠ []) (hrest : Stops Char.isDigit rest) :
    exponentDigits ctx true (digits ++ rest) = .done () digits.length := by
  obtain ⟨c, more, rfl⟩ := List.exists_cons_of_ne_nil hsome
  have hfirst : ((c :: more) ++ rest).head?.any Char.isDigit = true :=
    hdigits c List.mem_cons_self
  rw [exponentDigits, look_bind, if_pos hfirst, takeWhile_bind, hrest.takeWhile_append hdigits]
  rfl

theorem exponent_text (e : Option Exponent) (hrest : Exponent.Ends e rest) :
    exponent ctx true (Exponent.optionalText e ++ rest) =
      .done () (Exponent.optionalText e).length := by
  rw [exponent, look_bind]
  cases e with
  | none =>
      have hmark : ¬ (rest.head? = some 'e' ∨ rest.head? = some 'E') := by
        rintro (h | h) <;> cases hrest.mark rfl _ h
      change (ite (rest.head? = some 'e' ∨ rest.head? = some 'E') _ (pure ()) : Recogniser Unit)
        true rest = _
      rw [if_neg hmark]
      rfl
  | some e =>
      obtain ⟨mark, sign, digits, hmark, hsign, hdigits, hsome⟩ := e
      have hbody : exponentDigits ctx true (digits ++ rest) = .done () digits.length :=
        exponentDigits_text hdigits hsome hrest.digit
      change (ite (some mark = some 'e' ∨ some mark = some 'E') _ _ : Recogniser Unit) true
        (mark :: (sign ++ digits ++ rest)) = .done () (sign ++ digits).length.succ
      rw [if_pos (by simpa using hmark), take_bind (by simp), look_bind, List.drop_succ_cons,
        List.drop_zero, List.append_assoc]
      have hsigned : sign = [] ∨ ∃ c, sign = [c] ∧ (c = '+' ∨ c = '-') := by
        simp at hsign
        grind
      obtain rfl | ⟨c, rfl, hc⟩ := hsigned
      · have hplain : ¬ ((digits ++ rest).head? = some '+' ∨ (digits ++ rest).head? = some '-') := by
          obtain ⟨c, more, rfl⟩ := List.exists_cons_of_ne_nil hsome
          have hc : c.isDigit = true := hdigits c List.mem_cons_self
          rintro (h | h) <;> cases h <;> cases hc
        rw [List.nil_append, if_neg hplain, hbody]
        simp [Scan.widen, Nat.add_comm]
      · rw [if_pos (by simpa using hc), take_bind (by simp)]
        simp [hbody, Scan.widen]
        omega

/-- No point follows where an exponent can follow. -/
theorem head_exponent_ne_point (e : Option Exponent) (hrest : Exponent.Ends e rest) :
    (Exponent.optionalText e ++ rest).head? ≠ some '.' := by
  cases e with
  | none =>
      intro hpoint
      cases hrest.mark rfl _ hpoint
  | some e =>
      change some e.mark ≠ some '.'
      rcases e.mark_eq with hmark | hmark <;> rw [hmark] <;> decide

theorem stops_exponent (e : Option Exponent) (hrest : Exponent.Ends e rest) :
    Stops Char.isDigit (Exponent.optionalText e ++ rest) := by
  cases e with
  | none => exact hrest.digit
  | some e =>
      rintro c ⟨⟩
      rcases e.mark_eq with hmark | hmark <;> rw [hmark] <;> rfl

theorem fraction_text {digits : List Char} (hdigits : ∀ c ∈ digits, c.isDigit = true)
    (e : Option Exponent) (hrest : Exponent.Ends e rest) :
    fraction ctx true (digits ++ (Exponent.optionalText e ++ rest)) =
      .done () (digits ++ Exponent.optionalText e).length := by
  have hstops := stops_exponent e hrest
  have hpoint := head_exponent_ne_point e hrest
  rw [fraction, takeWhile_bind, look_bind, hstops.takeWhile_append hdigits,
    hstops.dropWhile_append hdigits, if_neg hpoint, exponent_text e hrest, List.length_append]
  rfl

/-- A decimal number is taken for one as it was written. -/
theorem numberTail_text {number : Decimal} {first : Char} {more : List Char}
    (hnumber : number.text = first :: more) (hrest : Exponent.Ends number.exponent rest) :
    numberTail ctx first true (more ++ rest) = .done () more.length := by
  obtain ⟨whole, fraction?, e, hwhole, hfraction, hspoken⟩ := number
  have hstops := stops_exponent e hrest
  have hpoint := head_exponent_ne_point e hrest
  cases whole with
  | nil =>
      obtain ⟨digits, rfl, -⟩ := hspoken rfl
      obtain ⟨rfl, hmore⟩ := List.cons.inj hnumber
      obtain rfl : digits ++ Exponent.optionalText e = more := hmore
      rw [numberTail, if_pos rfl, List.append_assoc, fraction_text (hfraction _ rfl) e hrest]
  | cons c whole =>
      obtain ⟨rfl, hmore⟩ := List.cons.inj hnumber
      obtain ⟨hc, hwhole⟩ := List.forall_mem_cons.1 hwhole
      have hdot : c ≠ '.' := by
        rintro rfl
        cases hc
      rw [numberTail, if_neg hdot, takeWhile_bind, look_bind]
      cases fraction? with
      | none =>
          obtain rfl : whole ++ Exponent.optionalText e = more := hmore
          rw [List.append_assoc, hstops.takeWhile_append hwhole, hstops.dropWhile_append hwhole, if_neg hpoint,
            exponent_text e hrest, List.length_append]
          rfl
      | some digits =>
          have hstops' : Stops Char.isDigit
              ('.' :: (digits ++ (Exponent.optionalText e ++ rest))) := by
            rintro c ⟨⟩
            rfl
          obtain rfl : whole ++ '.' :: (digits ++ Exponent.optionalText e) = more := hmore
          rw [List.append_assoc, List.cons_append, List.append_assoc, hstops'.takeWhile_append hwhole, hstops'.dropWhile_append hwhole,
            List.head?_cons, if_pos rfl, take_bind (by simp), List.drop_succ_cons, List.drop_zero,
            fraction_text (hfraction _ rfl) e hrest]
          simp [Scan.widen]
          omega

end Written

/-! ### Numbers as lexemes -/

theorem isDigit_cases {c : Char} (h : c.isDigit = true) :
    c ∈ ['0', '1', '2', '3', '4', '5', '6', '7', '8', '9'] := by
  have hrange : 48 ≤ c.toNat ∧ c.toNat ≤ 57 := by
    simpa [Char.isDigit, UInt32.le_iff_toNat_le] using h
  have hcode : c.toNat ∈ List.range' 48 10 := by
    rw [List.mem_range'_1]
    omega
  rw [← Char.ofNat_toNat c]
  exact List.mem_map_of_mem (f := Char.ofNat) hcode

theorem ordinaryLexeme_digit {c : Char} (h : c.isDigit = true) :
    ordinaryLexeme ctx c = numberLexeme ctx c := by
  obtain ⟨d, options, start, before⟩ := ctx
  have hcases := isDigit_cases h
  simp only [List.mem_cons, List.not_mem_nil, or_false] at hcases
  rcases hcases with rfl | rfl | rfl | rfl | rfl | rfl | rfl | rfl | rfl | rfl <;> cases d <;> rfl

/-- A digit starts a number, unless the letter of another base follows. -/
theorem lexeme_digit {c : Char} {text : List Char} (h : c.isDigit = true)
    (hletter : c = '0' ∧ ctx.dialect = .mysql → Stops ['x', 'b'].contains text) :
    lexeme ctx c true text = numberLexeme ctx c true text := by
  by_cases hbase : c = '0' ∧ ctx.dialect = .mysql
  · have hstops := hletter hbase
    obtain ⟨rfl, hd⟩ := hbase
    obtain ⟨d, options, start, before⟩ := ctx
    cases hd
    change (look 0 >>= (_ : Option Char → Recogniser Lexeme)) true text = _
    rw [look_bind, ← ordinaryLexeme_digit h]
    refine congrArg (fun p : Recogniser Lexeme => p true text) ?_
    split
    next hx => cases hstops _ hx
    next hb => cases hstops _ hb
    next => rfl
  · have hlexeme : lexeme ctx c = ordinaryLexeme ctx c := by
      have hcases := isDigit_cases h
      simp only [List.mem_cons, List.not_mem_nil, or_false] at hcases
      obtain ⟨d, options, start, before⟩ := ctx
      rcases hcases with rfl | rfl | rfl | rfl | rfl | rfl | rfl | rfl | rfl | rfl <;>
        cases d <;> first | rfl | exact absurd ⟨rfl, rfl⟩ hbase
    rw [hlexeme, ordinaryLexeme_digit h]

/-- The point starts a number in front of a digit, where no name ends before it. -/
theorem lexeme_point {text : List Char} (hbefore : ctx.before = none)
    (h : text.head?.any Char.isDigit = true) :
    lexeme ctx '.' true text = numberLexeme ctx '.' true text := by
  have hlexeme : lexeme ctx '.' = dotStartsNumber ctx >>= fun starts =>
      if starts then numberLexeme ctx '.' else ordinaryLexeme ctx '.' := by
    obtain ⟨d, options, start, before⟩ := ctx
    cases d <;> rfl
  have hstarts : dotStartsNumber ctx true text = .done true 0 := by
    rw [dotStartsNumber, hbefore]
    change (look 0 >>= fun c => pure (c.any Char.isDigit)) true text = _
    rw [look_bind, h]
    rfl
  rw [hlexeme, bind_of_done hstarts, List.drop_zero, Scan.widen_zero, if_pos rfl]

/-- A decimal number is read as one, if nothing that belongs to it follows. -/
theorem lexeme_decimal {number : Decimal} {first : Char} {more rest : List Char}
    (hnumber : number.text = first :: more)
    (hrest : Stops (extendsNumber ctx.dialect number.text) rest) (hbefore : ctx.before = none) :
    lexeme ctx first true (more ++ rest) =
      .done (ctx.plain .numberLiteral number.text) more.length := by
  have hread : numberLexeme ctx first true (more ++ rest) =
      .done (ctx.plain .numberLiteral number.text) more.length := by
    have hcovered : covered (numberTail ctx first) true (more ++ rest) =
        .done more more.length := by
      simp only [covered, numberTail_text hnumber (Decimal.ends_exponent hrest), List.take_left]
    rw [numberLexeme, bind_of_done hcovered, hnumber]
    rfl
  rw [← hread]
  obtain ⟨whole, fraction?, e, hwhole, hfraction, hspoken⟩ := number
  cases whole with
  | nil =>
      obtain ⟨digits, rfl, hsome⟩ := hspoken rfl
      obtain ⟨rfl, hmore⟩ := List.cons.inj hnumber
      obtain rfl : digits ++ Exponent.optionalText e = more := hmore
      obtain ⟨c, digits, rfl⟩ := List.exists_cons_of_ne_nil hsome
      exact lexeme_point hbefore (hfraction _ rfl c List.mem_cons_self)
  | cons c whole =>
      obtain ⟨rfl, hmore⟩ := List.cons.inj hnumber
      obtain ⟨hc, hwhole⟩ := List.forall_mem_cons.1 hwhole
      refine lexeme_digit hc fun hbase => ?_
      obtain rfl : whole ++ (fraction?.elim [] ('.' :: ·) ++ Exponent.optionalText e) = more :=
        hmore
      cases whole with
      | cons d whole =>
          rintro _ ⟨⟩
          have hd : d.isDigit = true := hwhole d List.mem_cons_self
          refine Bool.eq_false_iff.2 fun hletter => ?_
          have hd' : d = 'x' ∨ d = 'b' := by simpa using hletter
          rcases hd' with rfl | rfl <;> cases hd
      | nil =>
          cases fraction? with
          | some digits =>
              rintro _ ⟨⟩
              rfl
          | none =>
              cases e with
              | some e =>
                  rintro _ ⟨⟩
                  rcases e.mark_eq with hmark | hmark <;> rw [hmark] <;> rfl
              | none =>
                  intro letter hletter
                  obtain ⟨rfl, hd⟩ := hbase
                  have hends := (Bool.or_eq_false_iff.1 (hrest letter hletter)).2
                  rwa [hd] at hends

end DualSql
