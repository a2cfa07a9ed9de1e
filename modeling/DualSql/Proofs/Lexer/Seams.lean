import DualSql.Proofs.Lexer.Literals
import DualSql.Proofs.Lexer.Places
import DualSql.Proofs.Lexer.SpelledScalars

/-! # Lexemes that end where they are written to end

A lexeme that is written ends where it does, unless what follows could belong to it. What
a scanner has taken then does not depend on what follows, and a blank between it and
the next lexeme changes nothing.

Main definition: `Scanner.Takes`. Main results: `Scanner.takes_lexeme` and
`reading_of_takes`. -/

namespace DualSql

open Recogniser

namespace Scanner

/-- The scanner before other text, of which no more comes. -/
def on (s : Scanner) (text : List Char) : Scanner :=
  s.withText text true false

/-- From one state a scanner gets to the other by taking some characters, whatever
follows them, if what follows is right. -/
structure Takes (s : Scanner) (chars : List Char) (ok : List Char → Prop) (s' : Scanner) : Prop where
  digest : ∀ rest, ok rest → (s.on (chars ++ rest)).digest = (s'.on rest).digest
  dialect : s'.dialect = s.dialect
  options : s'.options = s.options
  before : s'.before = chars.getLast?

variable {s s' s'' : Scanner} {chars more : List Char} {ok ok' : List Char → Prop}

theorem Takes.append (h : s.Takes chars ok s') (h' : s'.Takes more ok' s'')
    (hok : ∀ rest, ok' rest → ok (more ++ rest)) (hmore : more ≠ []) :
    s.Takes (chars ++ more) ok' s'' where
  digest rest hrest := by
    rw [List.append_assoc, h.digest _ (hok rest hrest), h'.digest rest hrest]
  dialect := h'.dialect.trans h.dialect
  options := h'.options.trans h.options
  before := by
    rw [h'.before, List.getLast?_append_of_ne_nil _ hmore]

theorem config_stageContent (t : Token) :
    (s.stageContent t).dialect = s.dialect ∧ (s.stageContent t).options = s.options := by
  unfold stageContent
  dsimp only
  split <;> exact ⟨rfl, rfl⟩

/-- A lexeme changes neither the dialect nor the options. -/
theorem config_accept {place : Position} {lx : Lexeme} (h : s.accept place lx = .ok s') :
    s'.dialect = s.dialect ∧ s'.options = s.options := by
  cases lx with
  | token t =>
      cases h
      unfold stage
      split
      · dsimp only
        split <;> exact ⟨rfl, rfl⟩
      · dsimp only
        split <;> exact ⟨rfl, rfl⟩
      · exact config_stageContent t
  | opening b =>
      cases h
      unfold openBlock
      dsimp only
      split
      · exact ⟨rfl, rfl⟩
      · exact config_stageContent _
  | closing b =>
      rw [accept] at h
      split at h
      · cases h
        unfold closeBlock
        dsimp only
        split
        · exact ⟨rfl, rfl⟩
        · exact config_stageContent _
      · cases h

/-- A lexeme that ends where it is written to end is taken as it is. -/
theorem takes_lexeme {c : Char} {lx : Lexeme}
    (hlexeme : ∀ rest, ok rest → lexeme s.context c true (more ++ rest) = .done lx more.length)
    (haccept : s.accept s.position lx = .ok s') :
    s.Takes (c :: more) ok (s'.skip c more more.length) where
  digest rest hrest := by
    let t : Scanner := s.on (c :: (more ++ rest))
    have hlexeme' : lexeme t.context c true (more ++ rest) = .done lx more.length :=
      hlexeme rest hrest
    have haccept' : t.accept t.position lx = .ok (s'.on (c :: (more ++ rest))) := by
      change (s.on (c :: (more ++ rest))).accept s.position lx = _
      rw [on, accept_withText, haccept]
      rfl
    have hskip : (s'.on (c :: (more ++ rest))).skip c (more ++ rest) more.length =
        (s'.skip c more more.length).on rest := by
      simp only [skip, on, withText, List.drop_left, List.take_left, List.take_length]
    change t.digest = _
    rw [digest_of_cons (s := t) rfl, hlexeme']
    simp only [haccept', hskip]
  dialect := (config_accept haccept).1
  options := (config_accept haccept).2
  before := by
    rw [skip, List.take_length]

/-- A blank is taken where no further one follows. -/
theorem takes_blank (h : s.options.emitWhitespace = false) :
    ∃ s', s.Takes [' '] (Stops Text.isBlank) s' ∧ ∀ rest, (s.on rest).Alike (s'.on rest) := by
  have haccept : s.accept s.position (s.context.plain .whitespace [' ']) =
      .ok { s with spacePending := true } := by
    change Except.ok (if s.options.emitWhitespace then _ else _) = _
    rw [h]
    rfl
  have hlexeme (rest : List Char) (hrest : Stops Text.isBlank rest) :
      lexeme s.context ' ' true ([] ++ rest) = .done (s.context.plain .whitespace [' ']) 0 := by
    change (takeWhile Text.isBlank >>= fun text =>
      pure (s.context.plain .whitespace (' ' :: text))) true rest = _
    rw [takeWhile_bind, hrest.takeWhile_eq]
    rfl
  exact ⟨_, takes_lexeme hlexeme haccept, fun rest => ⟨rfl, rfl, rfl, rfl, rfl, rfl⟩⟩

/-- The scanner before a text in a dialect. -/
def start (d : Dialect) : Scanner :=
  { dialect := d, options := .ofDialect d }

end Scanner

/-- A text is read by a scanner that starts before it. -/
theorem reading_eq (d : Dialect) (text : String) :
    reading d text = ((((Scanner.start d).on text.toList).digest.1.ready.map Event.bare),
      ((Scanner.start d).on text.toList).digest.2.map LexError.bare) := by
  have hstart : Scanner.completed (.start d) (String.join [text]) = (Scanner.start d).on text.toList := by
    rw [String.join_cons, String.join_nil, String.append_empty]
    rfl
  rw [reading, lexEvents_eq]
  change ((Scanner.completed (.start d) (String.join [text])).outcome.1.map _,
    (Scanner.completed (.start d) (String.join [text])).outcome.2.map _) = _
  rw [hstart]
  rfl

/-- Whether a point stands behind a character that can end a name or a bracket. -/
def followsName (before : Option Char) : Bool :=
  before.any fun c =>
    Text.isAlphanumeric c || c == '_' || c == '"' || c == '\x60' || c == ')' || c == ']'

theorem dotStartsNumber_closed (ctx : LexContext) (text : List Char) :
    dotStartsNumber ctx true text =
      .done (!followsName ctx.before && text.head?.any Char.isDigit) 0 := by
  unfold dotStartsNumber
  rw [← followsName]
  cases followsName ctx.before with
  | true => rfl
  | false =>
      simp only [Bool.false_eq_true, if_false]
      rw [look_bind]
      rfl

/-- What was taken is read the same whether a blank follows it or not, if the next
lexeme may follow it directly. -/
theorem reading_of_takes {d : Dialect} {a b : String} {ok : List Char → Prop} {s : Scanner}
    (h : (Scanner.start d).Takes a.toList ok s) (hjoined : ok (b.toList ++ [' ']))
    (hspaced : ok (' ' :: (b.toList ++ [' ']))) (hblank : Stops Text.isBlank (b.toList ++ [' ']))
    (hpoint : ∀ rest, b.toList ++ [' '] = '.' :: rest → rest.head?.any Char.isDigit = true →
      followsName a.toList.getLast? = false) :
    reading d (a ++ b ++ " ") = reading d (a ++ " " ++ b ++ " ") := by
  have hoptions : s.options.emitWhitespace = false := by
    rw [h.options]
    rfl
  obtain ⟨s', htakes, halike⟩ := Scanner.takes_blank hoptions
  have hdigest := (halike (b.toList ++ [' '])).digest fun rest hrest => ?_
  · rw [reading_eq, reading_eq]
    have hleft : (a ++ b ++ " ").toList = a.toList ++ (b.toList ++ [' ']) := by
      simp [String.toList_append]
    have hright : (a ++ " " ++ b ++ " ").toList = a.toList ++ ' ' :: (b.toList ++ [' ']) := by
      simp [String.toList_append]
    have hskipped := htakes.digest _ hblank
    rw [List.singleton_append] at hskipped
    rw [hleft, hright, h.digest _ hjoined, h.digest _ hspaced, hskipped, hdigest.1, hdigest.2]
  · have hbefore : s'.before = some ' ' := htakes.before
    have hbefore' : s.before = a.toList.getLast? := h.before
    rw [dotStartsNumber_closed, dotStartsNumber_closed]
    change Scan.done (!followsName s'.before && _) 0 = Scan.done (!followsName s.before && _) 0
    rw [hbefore, hbefore']
    cases hdigit : rest.head?.any Char.isDigit with
    | false => rw [Bool.and_false, Bool.and_false]
    | true =>
        rw [hpoint rest hrest hdigit]
        rfl

end DualSql
