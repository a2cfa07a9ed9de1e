import DualSql.Proofs.Lexer.Inheritance

/-! # Waiting words

Words are settled one after the other as they come in. What is decided early
is what would be decided with all the words at hand, because a phrase is only
decided once no entry of the table goes on behind the words that wait.

Main result: `Phrase.settle_append`. -/

namespace DualSql.Phrase

variable (d : Dialect)

/-! ### The phrase that words spell -/

/-- A phrase with the words of more tokens behind it. -/
def extend (phrase : String) (words : List Token) : String :=
  words.foldl (fun phrase t =>
    if t.kind.isTrivia then phrase else phrase ++ " " ++ Text.toUpper t.value) phrase

theorem extend_trivia {t : Token} (ht : t.kind.isTrivia = true) (phrase : String)
    (words : List Token) : extend phrase (t :: words) = extend phrase words := by
  rw [extend, List.foldl_cons, if_pos ht, extend]

theorem extend_word {t : Token} (ht : t.kind.isTrivia = false) (phrase : String)
    (words : List Token) :
    extend phrase (t :: words) = extend (phrase ++ " " ++ Text.toUpper t.value) words := by
  rw [extend, List.foldl_cons, if_neg (ne_true_of_eq_false ht), extend]

theorem extend_append (phrase : String) (words more : List Token) :
    extend phrase (words ++ more) = extend (extend phrase words) more :=
  List.foldl_append

theorem spelling_cons {t : Token} (ht : t.kind.isTrivia = false) (rest : List Token) :
    spelling (t :: rest) = extend (Text.toUpper t.value) rest := by
  have hextend (phrase : String) :
      " ".intercalate (phrase ::
          (rest.filter fun t => !t.kind.isTrivia).map fun t => Text.toUpper t.value) =
        extend phrase rest := by
    induction rest generalizing phrase with
    | nil => exact String.intercalate_singleton
    | cons u rest ih =>
        cases hu : u.kind.isTrivia with
        | true => rw [List.filter_cons_of_neg (by simp [hu]), ih, extend_trivia hu]
        | false =>
            rw [List.filter_cons_of_pos (by simp [hu]), List.map_cons,
              String.intercalate_cons_cons, ← String.intercalate_cons_append, ih, extend_word hu]
  rw [spelling, List.filter_cons_of_pos (by simp [ht]), List.map_cons, hextend]

theorem extend_cases (phrase : String) (words : List Token) :
    extend phrase words = phrase ∨ ∃ more, extend phrase words = phrase ++ " " ++ more := by
  induction words generalizing phrase with
  | nil => exact .inl rfl
  | cons t words ih =>
      cases ht : t.kind.isTrivia with
      | true =>
          rw [extend_trivia ht]
          exact ih phrase
      | false =>
          rw [extend_word ht]
          rcases ih (phrase ++ " " ++ Text.toUpper t.value) with h | ⟨more, h⟩
          · exact .inr ⟨_, h⟩
          · exact .inr ⟨Text.toUpper t.value ++ " " ++ more, by rw [h]; simp only [String.append_assoc]⟩

/-! ### Phrases that go on -/

variable {d}

/-- An entry that starts with a longer phrase starts with a shorter one. -/
theorem continues_of_longer {phrase more : String}
    (h : (Vocabulary.phrase d (phrase ++ " " ++ more)).continues = true) :
    (Vocabulary.phrase d phrase).continues = true := by
  obtain ⟨entry, hmem, hprefix⟩ := List.any_eq_true.1 h
  refine List.any_eq_true.2 ⟨entry, hmem, ?_⟩
  rw [List.isPrefixOf_iff_prefix] at hprefix ⊢
  simp only [String.toList_append, List.append_assoc] at hprefix ⊢
  rw [← List.append_assoc] at hprefix
  exact (List.prefix_append _ _).trans hprefix

/-- Behind the words of a shorter phrase a longer one goes on. -/
theorem continues_of_complete {phrase more : String} {kind : TokenKind}
    (h : (Vocabulary.phrase d (phrase ++ " " ++ more)).complete = some kind) :
    (Vocabulary.phrase d phrase).continues = true := by
  refine List.any_eq_true.2 ⟨_, mem_of_lookup h, ?_⟩
  rw [List.isPrefixOf_iff_prefix]
  exact ⟨more.toList, String.toList_append.symm⟩

/-- Nothing is found behind a phrase that does not go on. -/
theorem longest_of_stuck {phrase : String} {seen : Nat} {best : Option Found} {words : List Token}
    (h : (Vocabulary.phrase d phrase).continues = false) :
    longest d phrase seen best words = best := by
  induction words generalizing phrase seen with
  | nil => rfl
  | cons t words ih =>
      rw [longest]
      split
      · exact ih h
      · dsimp only
        cases hcomplete : (Vocabulary.phrase d (phrase ++ " " ++ Text.toUpper t.value)).complete with
        | some kind => cases (continues_of_complete hcomplete).symm.trans h
        | none =>
            refine ih (Bool.eq_false_iff.2 fun hlonger => ?_)
            cases (continues_of_longer hlonger).symm.trans h

theorem longest_append (phrase : String) (seen : Nat) (best : Option Found)
    (words more : List Token) :
    longest d phrase seen best (words ++ more) =
      longest d (extend phrase words) (seen + words.length) (longest d phrase seen best words)
        more := by
  induction words generalizing phrase seen best with
  | nil => rfl
  | cons t words ih =>
      rw [List.cons_append, longest, longest, List.length_cons, Nat.add_comm words.length 1,
        ← Nat.add_assoc]
      cases ht : t.kind.isTrivia with
      | true => simp only [if_true, extend_trivia ht, ih]
      | false => simp only [Bool.false_eq_true, if_false, extend_word ht, ih]

/-- Words that are decided do not look at the words that come later. -/
theorem head_append {t : Token} {rest : List Token} (ht : t.kind.isTrivia = false)
    (hstuck : mayGrow d (t :: rest) = false) (more : List Token) :
    head d t (rest ++ more) = head d t rest := by
  rw [mayGrow, spelling_cons ht] at hstuck
  rw [head, longest_append, longest_of_stuck hstuck, head]

theorem mayGrow_of_append {t : Token} {rest more : List Token} (ht : t.kind.isTrivia = false)
    (h : mayGrow d (t :: (rest ++ more)) = true) : mayGrow d (t :: rest) = true := by
  rw [mayGrow, spelling_cons ht] at h ⊢
  rw [extend_append] at h
  rcases extend_cases (extend (Text.toUpper t.value) rest) more with hsame | ⟨longer, hlonger⟩
  · rwa [hsame] at h
  · rw [hlonger] at h
    exact continues_of_longer h

theorem longest_extent_le {phrase : String} {seen : Nat} {best : Option Found} {words : List Token}
    {found : Found} (h : longest d phrase seen best words = some found)
    (hbest : ∀ b, best = some b → b.extent ≤ seen) : found.extent ≤ seen + words.length := by
  induction words generalizing phrase seen best with
  | nil => exact hbest found h
  | cons t words ih =>
      rw [List.length_cons, Nat.add_comm words.length 1, ← Nat.add_assoc]
      rw [longest] at h
      split at h
      · exact ih h fun b hb => Nat.le_succ_of_le (hbest b hb)
      · refine ih h fun b hb => ?_
        split at hb
        · cases hb
          exact Nat.le_refl _
        · exact Nat.le_succ_of_le (hbest b hb)

theorem head_extent_le (t : Token) (rest : List Token) : (head d t rest).2 ≤ rest.length := by
  unfold head
  split
  next found hfound => simpa using longest_extent_le hfound nofun
  next => exact Nat.zero_le _

/-! ### Settling -/

theorem settle_trivia {t : Token} (ht : t.kind.isTrivia = true) (final : Bool)
    (rest : List Token) :
    settle d final (t :: rest) = (t :: (settle d final rest).1, (settle d final rest).2) := by
  rw [settle, if_pos ht]

theorem settle_waits {t : Token} {rest : List Token} (ht : t.kind.isTrivia = false)
    (hgrows : mayGrow d (t :: rest) = true) : settle d false (t :: rest) = ([], t :: rest) := by
  rw [settle, if_neg (ne_true_of_eq_false ht), if_pos (by simpa using hgrows)]

theorem settle_decided {t : Token} {rest : List Token} {final : Bool}
    (ht : t.kind.isTrivia = false) (h : final = true ∨ mayGrow d (t :: rest) = false) :
    settle d final (t :: rest) =
      ((head d t rest).1 :: (settle d final (rest.drop (head d t rest).2)).1,
        (settle d final (rest.drop (head d t rest).2)).2) := by
  have hdecided : ¬(!final && mayGrow d (t :: rest)) = true := by
    rcases h with rfl | h
    · simp
    · simp [h]
  rw [settle, if_neg (ne_true_of_eq_false ht), if_neg hdecided]

/-- Nothing waits when no more words can come. -/
theorem settle_final (d : Dialect) (words : List Token) : (settle d true words).2 = [] := by
  fun_induction settle d true words with
  | case1 => rfl
  | case2 t rest _ out waiting h ih => rwa [h] at ih
  | case3 t rest _ hgrow => simp at hgrow
  | case4 t rest _ _ first extent _ out waiting h ih => rwa [h] at ih

/-- Settling some words early and the rest with more words behind it decides
what settling all of them together decides. -/
theorem settle_append (final : Bool) (words more : List Token) :
    settle d final (words ++ more) =
      ((settle d false words).1 ++ (settle d final ((settle d false words).2 ++ more)).1,
        (settle d final ((settle d false words).2 ++ more)).2) := by
  fun_induction settle d false words with
  | case1 => rfl
  | case2 t rest ht out waiting h ih =>
      rw [List.cons_append, settle_trivia ht, ih, h, List.cons_append]
  | case3 t rest ht hgrow => rfl
  | case4 t rest ht hgrow first extent hhead out waiting h ih =>
      have ht' : t.kind.isTrivia = false := Bool.eq_false_iff.2 ht
      have hstuck : mayGrow d (t :: rest) = false := by simpa using hgrow
      have hstuck' : mayGrow d (t :: (rest ++ more)) = false :=
        Bool.eq_false_iff.2 fun hmore => by
          cases (mayGrow_of_append ht' hmore).symm.trans hstuck
      have hextent := head_extent_le (d := d) t rest
      rw [List.cons_append, settle_decided ht' (.inr hstuck'), head_append ht' hstuck]
      rw [hhead] at hextent ⊢
      rw [List.drop_append_of_le_length hextent, ih, h, List.cons_append]

end DualSql.Phrase
