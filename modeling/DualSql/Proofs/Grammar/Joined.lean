import DualSql.Proofs.Grammar.Tightness
import DualSql.Proofs.Grammar.Unparsing
import DualSql.Proofs.Lexer.Adjoining

/-! # Lexemes that are written together

Where the text that is written for a tree has no blank between two lexemes, they
are read as if there were one, with exceptions: the first goes on with the second,
or is a variable that has lost its quotes.

Main definitions: `Joined` and `Tree.merged?`. Main results: `Event.spelled_of_mem_spellings` and
`Tree.reading_of_mem_joints`. -/

namespace DualSql

namespace Event

variable {d : Dialect}

theorem spelled_bracket (b : Bracket) :
    Spelled d b.opener.toString ∧ Spelled d b.closer.toString := by
  refine ⟨.of_chars ?_ (.opener b), .closer ?_⟩
  · cases b <;> rfl
  · cases b <;> decide

/-- What is written for the tokens and the brackets of a text has one of the forms of lexemes. -/
theorem spelled_of_mem_spellings {events : List Event}
    (h : ∀ t, .token t ∈ events →
      t.Lexed d ∧ (t.kind.isScalar = true → t.Scalar d) ∧ t.Formed d) {binds : Nat}
    {texts : List String} (hspell : spellings d binds events = .ok texts) :
    ∀ text ∈ texts, Spelled d text := by
  induction events generalizing binds texts with
  | nil =>
      cases hspell
      nofun
  | cons e rest ih =>
      have hrest := @ih fun t ht => h t (List.mem_cons_of_mem _ ht)
      have hled {text : String} {result : Except RenderError (List String)} {texts : List String}
          (hmap : result.map (text :: ·) = .ok texts) (htext : Spelled d text)
          (hresult : ∀ {texts}, result = .ok texts → ∀ text ∈ texts, Spelled d text) :
          ∀ text ∈ texts, Spelled d text := by
        cases result with
        | error e => cases hmap
        | ok others =>
            cases hmap
            exact List.forall_mem_cons.2 ⟨htext, hresult rfl⟩
      cases e with
      | token t =>
          rw [spellings] at hspell
          split at hspell
          next => exact hrest hspell
          next htrivia =>
            obtain ⟨ht, hscalar, hformed⟩ := h t List.mem_cons_self
            dsimp only at hspell
            split at hspell
            next => cases hspell
            next text hspelling =>
              refine hled hspell ?_ hrest
              exact t.spelled ht hscalar hformed (Bool.eq_false_iff.2 htrivia) hspelling
      | opened b p space => exact hled hspell (spelled_bracket b).1 hrest
      | closed b p => exact hled hspell (spelled_bracket b).2 hrest

end Event

/-- Two lexemes that can stand next to each other with no blank between them. -/
structure Joined (d : Dialect) (a b : String) : Prop where
  left : Spelled d a
  right : Spelled d b
  adjoins : Adjoins a.toList b.toList

namespace Tree

variable {d : Dialect} {types : List String} {sql : String} {t : Tree} {layout : Layout}

/-- Every lexeme of an accepted text has one of the forms of lexemes. -/
theorem Accepted.spelled (accepted : Accepted d types sql t) (hlayout : t.layout d {} = .ok layout) :
    ∀ text ∈ layout.lexemes, Spelled d text := by
  obtain ⟨layout', hlayout', hspell⟩ := accepted.exists_layout
  obtain rfl := Except.ok.inj (hlayout.symm.trans hlayout')
  refine Event.spelled_of_mem_spellings (fun t ht => ⟨?_, ?_, ?_⟩) hspell
  · exact (lexEvents_tells d [sql]).1 _ ht
  · exact scalar_of_mem_lexEvents ht
  · exact formed_of_mem_lexEvents ht

/-- Where a layout leaves out the blank, the lexemes on both sides can do without it. -/
theorem Accepted.joined (accepted : Accepted d types sql t) (hlayout : t.layout d {} = .ok layout)
    {a b : String} (hab : (a, b) ∈ layout.joints) : Joined d a b := by
  have hspelled := accepted.spelled hlayout
  obtain ⟨before, count, after, earlier, hstrokes, hspace⟩ := Layout.exists_of_mem_joints hab
  have ha : Spelled d a := hspelled a (layout.mem_lexemes (by simp [hstrokes]))
  have hb : Spelled d b := hspelled b (layout.mem_lexemes (by simp [hstrokes]))
  obtain ⟨c, more, hachars, -⟩ := ha.exists_cons
  obtain ⟨c', more', hbchars, -⟩ := hb.exists_cons
  refine ⟨ha, hb, adjoins_of_needsSpace (fun htight => ?_) (hbchars ▸ List.cons_ne_nil _ _) hspace
    (hachars ▸ List.cons_ne_nil _ _)⟩
  cases count with
  | zero => cases htight
  | succ count =>
      -- The last blank that is left out stands before the second lexeme.
      have hlast : layout.strokes =
          (before ++ .text a :: List.replicate count .tight) ++ .tight :: .text b :: after := by
        rw [hstrokes, List.replicate_succ']
        simp
      rcases snug_layout accepted hlayout _ _ hlast with hbracket | ⟨sign, hsign⟩
      · obtain ⟨⟩ := Option.some.inj hbracket
        exact .inl rfl
      · cases count with
        | zero =>
            have ha : a = sign.symbol := by simpa using hsign
            refine .inr ?_
            rw [ha]
            cases sign <;> exact ⟨_, by decide, rfl⟩
        | succ count =>
            have hmark : (before ++ .text a :: List.replicate (count + 1) Stroke.tight).getLast? =
                some .tight := by
              rw [List.replicate_succ', ← List.cons_append, ← List.append_assoc]
              exact List.getLast?_concat
            cases hmark.symm.trans hsign

/-- Two lexemes of an accepted text that are written with no blank between them are read
as with one, unless the first goes on with the second or has lost its quotes. -/
theorem reading_of_mem_joints (h : parseAs d types sql = .ok t)
    (hlayout : t.layout d {} = .ok layout) {a b : String} (hab : (a, b) ∈ layout.joints)
    (hclings : clings d a.toList b.toList = false) (hfrayed : isFrayed d a.toList = false) :
    reading d (a ++ b ++ " ") = reading d (a ++ " " ++ b ++ " ") := by
  obtain ⟨ha, hb, hadjoins⟩ := (accepted_of_parseAs h).joined hlayout hab
  exact reading_of_adjoins ha hb hadjoins hclings hfrayed

/-- A sign and its operand are read as they are with a blank between them. -/
theorem negated_call_joint :
    ∃ t layout, parseAs .mysql ["SelectStmt"] "select -f(a.b)" = .ok t ∧
      t.layout .mysql {} = .ok layout ∧ ("-", "f") ∈ layout.joints ∧
      clings .mysql "-".toList "f".toList = false ∧ isFrayed .mysql "-".toList = false ∧
      reading .mysql ("-" ++ "f" ++ " ") = reading .mysql ("-" ++ " " ++ "f" ++ " ") := by
  have hfacts : (((parseAs .mysql ["SelectStmt"] "select -f(a.b)").toOption.bind fun t =>
      (t.layout .mysql {}).toOption).any fun layout => layout.joints.contains ("-", "f")) = true := by
    unfold parseAs parseChunks parseSource layout
    rw [Standard.registry_eq]
    decide +kernel
  cases ht : parseAs .mysql ["SelectStmt"] "select -f(a.b)" with
  | error e =>
      rw [ht] at hfacts
      cases hfacts
  | ok t =>
      rw [ht] at hfacts
      cases hlayout : t.layout .mysql {} with
      | error e => simp [hlayout, Except.toOption] at hfacts
      | ok layout =>
          have hjoint : ("-", "f") ∈ layout.joints := by
            simpa [hlayout, Except.toOption] using hfacts
          have hclings : clings .mysql "-".toList "f".toList = false := by decide +kernel
          have hfrayed : isFrayed .mysql "-".toList = false := by decide
          exact ⟨t, layout, rfl, hlayout, hjoint, hclings, hfrayed,
            reading_of_mem_joints ht hlayout hjoint hclings hfrayed⟩

/-- The pairs of lexemes that are written without a blank between them for the
tree of a text and are read differently with one. -/
def merged? (d : Dialect) (sql : String) : Option (List (String × String)) := do
  let t ← (parse d sql).toOption
  let layout ← (t.layout d {}).toOption
  return layout.joints.filter fun (a, b) =>
    reading d (a ++ b ++ " ") ≠ reading d (a ++ " " ++ b ++ " ")

/-- A sign before a star is read as another operator, and a number or a name
that ends in a point goes on with what is written behind it. -/
theorem signs_and_points_merge :
    merged? .postgres "select ~ *" = some [("~", "*")] ∧
      merged? .postgres "select 1. e5" = some [("1.", "e5")] ∧
      merged? .mysql "select @a. b" = some [("@a.", "b")] := by
  unfold merged? parse parseAs parseChunks parseSource layout
  rw [Standard.registry_eq]
  decide +kernel

end Tree

end DualSql
