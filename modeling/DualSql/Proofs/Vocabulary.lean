import DualSql.Proofs.Lookup
import DualSql.Proofs.Text.Utf8
import DualSql.Text.Casing
import DualSql.Vocabulary

/-! # What the tables of a dialect have in common

Facts about every entry of the tables of operators, symbols and phrases. They
are checked by evaluation, so that a change to a table is checked anew.

Main definition: `Vocabulary.Tabled`. Main results: `Vocabulary.precedence_bounds`
and `Vocabulary.associativity_eq`, on which grouping rests. -/

/-- What holds of all dialects is evaluated for all of them at once. -/
theorem DualSql.Dialect.mem_all (d : Dialect) : d ∈ Dialect.all := by
  cases d <;> decide

namespace DualSql.Vocabulary

/-- What the tables of words, symbols and phrases of a dialect have in common. -/
structure Tabled (d : Dialect) : Prop where
  operators : ∀ entry ∈ operators d, Text.toUpper entry.1 = entry.1
  words : ∀ word ∈ keywords d ++ dataTypes d, Text.toUpper word = word
  symbols : ∀ s ∈ symbols d, (operator? d s).isSome = true ∧
    classify d (Text.toUpper s) = .identifier
  compounds : ∀ entry ∈ compounds d,
    (entry.2 ≠ .bindVariable ∧ entry.2 ≠ .identifier ∧ entry.2.isTrivia = false) ∧
    (Text.toUpper entry.1 = entry.1 ∧ classify d entry.1 = .identifier) ∧
    (entry.2 = .operator ↔ (operator? d entry.1).isSome = true)

/-- Whether a text is ASCII and its own upper case, as its bytes tell. -/
def isCapital (text : String) : Bool :=
  Utf8.isAscii text && (Utf8.asciiChars text).all fun c => Text.upperChars c == [c]

/-- Whether a text is made of letters and underscores alone. -/
def isLettered (text : String) : Bool :=
  (Utf8.asciiChars text).all fun c => c.isAlpha || c == '_'

theorem toUpper_of_isCapital {text : String} (h : isCapital text = true) :
    Text.toUpper text = text := by
  obtain ⟨hascii, hupper⟩ := Bool.and_eq_true_iff.1 h
  rw [← Utf8.toList_of_isAscii hascii] at hupper
  have hkept : text.toList.flatMap Text.upperChars = text.toList.flatMap fun c => [c] :=
    List.flatMap_congr fun c hc => beq_iff_eq.1 (List.all_eq_true.1 hupper c hc)
  rw [Text.toUpper, hkept, List.flatMap_singleton', String.ofList_toList]

theorem words_capital (d : Dialect) : ∀ word ∈ keywords d ++ dataTypes d,
    isCapital word = true ∧ isLettered word = true := by
  cases d <;> decide +kernel

theorem operators_capital (d : Dialect) : ∀ entry ∈ operators d, isCapital entry.1 = true := by
  cases d <;> decide +kernel

/-- What is not made of letters is no word that is listed. -/
theorem classify_of_not_isLettered {d : Dialect} {text : String}
    (h : isLettered text = false) : classify d text = .identifier := by
  have hunlisted : text ∉ keywords d ++ dataTypes d := fun hmem => by
    rw [(words_capital d text hmem).2] at h
    cases h
  rw [List.mem_append, not_or] at hunlisted
  rw [classify, isKeyword, isDataType, if_neg (by simpa using hunlisted.1),
    if_neg (by simpa using hunlisted.2)]

theorem tabled (d : Dialect) : Tabled d := by
  have hsymbols : ∀ s ∈ symbols d, (operator? d s).isSome = true ∧ isLettered s = false := by
    cases d <;> decide +kernel
  have hcompounds : ∀ entry ∈ compounds d,
      (entry.2 ≠ .bindVariable ∧ entry.2 ≠ .identifier ∧ entry.2.isTrivia = false) ∧
      (isCapital entry.1 = true ∧ isLettered entry.1 = false) ∧
      (entry.2 = .operator ↔ (operator? d entry.1).isSome = true) := by
    cases d <;> decide +kernel
  have hoperators : ∀ entry ∈ operators d, Text.toUpper entry.1 = entry.1 :=
    fun entry hentry => toUpper_of_isCapital (operators_capital d entry hentry)
  refine ⟨hoperators, fun word hword => toUpper_of_isCapital (words_capital d word hword).1,
    fun s hs => ?_, fun entry hentry => ?_⟩
  · obtain ⟨hoperator, hletters⟩ := hsymbols s hs
    obtain ⟨info, hinfo⟩ := Option.isSome_iff_exists.1 hoperator
    rw [hoperators (s, info) (mem_of_lookup hinfo)]
    exact ⟨hoperator, classify_of_not_isLettered hletters⟩
  · obtain ⟨hkind, ⟨hcapital, hletters⟩, hoperator⟩ := hcompounds entry hentry
    exact ⟨hkind, ⟨toUpper_of_isCapital hcapital, classify_of_not_isLettered hletters⟩, hoperator⟩

/-- Operators are listed in upper case. -/
theorem toUpper_of_operator {d : Dialect} {s : String} {info : OperatorInfo}
    (h : operator? d s = some info) : Text.toUpper s = s :=
  (tabled d).operators (s, info) (mem_of_lookup h)

/-- Levels leave room on both sides. -/
theorem precedence_bounds {d : Dialect} {s : String} {info : OperatorInfo}
    (h : operator? d s = some info) : 0 < info.precedence ∧ info.precedence < 255 := by
  have hall : ∀ entry ∈ operators d, 0 < entry.2.precedence ∧ entry.2.precedence < 255 := by
    cases d <;> decide
  exact hall _ (mem_of_lookup h)

/-- Operators of one level group alike. -/
theorem associativity_eq {d : Dialect} {s s' : String} {info info' : OperatorInfo}
    (h : operator? d s = some info) (h' : operator? d s' = some info')
    (heq : info.precedence = info'.precedence) : info.associativity = info'.associativity := by
  have hall : ∀ entry ∈ operators d, ∀ entry' ∈ operators d,
      entry.2.precedence = entry'.2.precedence →
        entry.2.associativity = entry'.2.associativity := by
    cases d <;> decide
  exact hall _ (mem_of_lookup h) _ (mem_of_lookup h') heq

theorem operator_of_symbol {d : Dialect} {s : String} (h : s ∈ symbols d) :
    (operator? d s).isSome = true :=
  ((tabled d).symbols s h).1

/-- What is chosen step by step is one of the items, or what was there first. -/
theorem foldl_eq_some {α : Type} {choose : Option α → α → Option α}
    (hchoose : ∀ best a, choose best a = best ∨ choose best a = some a) {items : List α}
    {best : Option α} {chosen : α} (h : items.foldl choose best = some chosen) :
    best = some chosen ∨ chosen ∈ items := by
  induction items generalizing best with
  | nil => exact .inl h
  | cons a rest ih =>
      rcases ih h with hbest | hmem
      · rcases hchoose best a with hkept | htaken
        · exact .inl (hkept.symm.trans hbest)
        · cases htaken.symm.trans hbest
          exact .inr List.mem_cons_self
      · exact .inr (List.mem_cons_of_mem _ hmem)

/-- The longest symbol is one of the symbols that the run starts with. -/
theorem longestSymbol_eq {d : Dialect} {run : List Char} {s : String}
    (h : longestSymbol d run = some s) : s ∈ symbols d ∧ s.toList <+: run := by
  have hmem : s ∈ (symbols d).filter fun s => s.toList.isPrefixOf run := by
    refine (foldl_eq_some (fun best s => ?_) h).resolve_left (by simp)
    cases best with
    | none => exact .inr rfl
    | some b =>
        dsimp only
        split
        · exact .inr rfl
        · exact .inl rfl
  obtain ⟨hsymbol, hstarts⟩ := List.mem_filter.1 hmem
  exact ⟨hsymbol, List.isPrefixOf_iff_prefix.1 hstarts⟩

/-- Phrases are no placeholders, and those that are operators are listed as such. -/
theorem phrase_complete {d : Dialect} {text : String} {kind : TokenKind}
    (h : (phrase d text).complete = some kind) :
    kind ≠ .bindVariable ∧ (kind = .operator → (operator? d text).isSome = true) := by
  obtain ⟨⟨hbind, -⟩, -, hoperator⟩ := (tabled d).compounds (text, kind) (mem_of_lookup h)
  exact ⟨hbind, hoperator.1⟩

/-- Phrases are content. -/
theorem isTrivia_of_complete {d : Dialect} {text : String} {kind : TokenKind}
    (h : (phrase d text).complete = some kind) : kind.isTrivia = false := by
  obtain ⟨⟨-, -, htrivia⟩, -⟩ := (tabled d).compounds (text, kind) (mem_of_lookup h)
  exact htrivia

/-- The kinds that a bare word can have. -/
def isWordKind (kind : TokenKind) : Bool :=
  kind matches .keyword | .dataType | .identifier

theorem isWordKind_classify (d : Dialect) (word : String) :
    isWordKind (classify d word) = true := by
  unfold classify
  split
  · rfl
  · split <;> rfl

theorem mem_words_of_classify {d : Dialect} {word : String} (h : classify d word ≠ .identifier) :
    word ∈ keywords d ++ dataTypes d := by
  unfold classify at h
  rw [List.mem_append]
  split at h
  next hkeyword => exact .inl (by simpa [isKeyword] using hkeyword)
  next =>
    split at h
    next htype => exact .inr (by simpa [isDataType] using htype)
    next => exact absurd rfl h

/-- Words that a dialect knows are listed in upper case. -/
theorem toUpper_of_classify {d : Dialect} {word : String} (h : classify d word ≠ .identifier) :
    Text.toUpper word = word :=
  (tabled d).words word (mem_words_of_classify h)

/-- Phrases are listed in upper case, and are no single words. Those that are
listed as operators have that kind. -/
theorem classify_of_complete {d : Dialect} {text : String} {kind : TokenKind}
    (h : (phrase d text).complete = some kind) :
    Text.toUpper text = text ∧ classify d text = .identifier ∧ kind ≠ .identifier ∧
      (kind ≠ .operator → operator? d text = none) := by
  obtain ⟨⟨-, hword, -⟩, ⟨hupper, hclass⟩, hoperator⟩ :=
    (tabled d).compounds (text, kind) (mem_of_lookup h)
  refine ⟨hupper, hclass, hword, fun hne => ?_⟩
  exact Option.not_isSome_iff_eq_none.1 fun hsome => hne (hoperator.2 hsome)

/-- Symbols are no words. -/
theorem classify_of_symbol {d : Dialect} {s : String} (h : s ∈ symbols d) :
    classify d (Text.toUpper s) = .identifier :=
  ((tabled d).symbols s h).2

end DualSql.Vocabulary
