import DualSql.Proofs.Grammar.Accepted

/-! # Writing a tree gives back its tokens

The lexemes that are written for the tree of a text are the spellings of the
significant tokens and brackets of the text, one for one and in their order.

Main definition: `Event.spellings`. Main result: `Tree.layout_of_parseAs`. -/

namespace DualSql

namespace Event

/-- The lexemes of the significant tokens and the brackets of a text, after
some placeholders. -/
def spellings (d : Dialect) : Nat → List Event → Except RenderError (List String)
  | _, [] => .ok []
  | binds, token t :: rest =>
    if t.kind.isTrivia then spellings d binds rest
    else
      let position := if t.kind = .bindVariable then binds + 1 else binds
      match (Terminal.ofToken t).spelling .upper d position with
      | .error e => .error e
      | .ok text => (spellings d position rest).map (text :: ·)
  | binds, opened b _ _ :: rest => (spellings d binds rest).map (b.opener.toString :: ·)
  | binds, closed b _ :: rest => (spellings d binds rest).map (b.closer.toString :: ·)

variable {d : Dialect}

/-- The lexemes of events are those of their pieces. -/
theorem spellings_eq (binds : Nat) (events : List Event) :
    spellings d binds events = Piece.spell d binds (events.flatMap (pieces d)) := by
  induction events generalizing binds with
  | nil => rfl
  | cons e rest ih =>
      rw [List.flatMap_cons]
      cases e with
      | token t =>
          rw [spellings, pieces, Token.pieces]
          split
          next => exact ih binds
          next =>
            by_cases hbind : t.kind = .bindVariable
            · have hspelling : (Terminal.ofToken t).spelling .upper d (binds + 1) =
                  bindSpelling d (binds + 1) t.value := by
                simp only [Terminal.spelling, Terminal.ofToken, hbind]
              have hpiece : (Terminal.ofToken t).piece d = .placeholder t.value := if_pos hbind
              cases hbinding : bindSpelling d (binds + 1) t.value <;>
                simp only [hbind, if_true, hspelling, hpiece, List.singleton_append, Piece.spell,
                  ih, hbinding]
            · obtain ⟨text, hspelling, hpiece⟩ :=
                Terminal.spelling_of_ne (d := d) (t := .ofToken t) hbind binds
              simp only [hbind, if_false, hspelling, hpiece, List.singleton_append, Piece.spell, ih]
      | opened b p space => simp only [spellings, ih, pieces, List.singleton_append, Piece.spell]
      | closed b p => simp only [spellings, ih, pieces, List.singleton_append, Piece.spell]

/-- The placeholders of a text are in order. -/
theorem exists_bindSpelling {t : Token} (ht : t.Lexed d) (hkind : t.kind = .bindVariable)
    (position : Nat) : ∃ text, bindSpelling d position t.value = .ok text := by
  cases d with
  | postgres => exact ⟨_, rfl⟩
  | mysql =>
      rw [ht.placeholder hkind rfl]
      have hword : Text.word64? "?" = none := by decide
      exact ⟨Dialect.mysql.bindVariable position, by simp [bindSpelling, hword]⟩

/-- Every text has a spelling. -/
theorem exists_spellings {events : List Event} (h : ∀ e ∈ events, e.Lexed d) (binds : Nat) :
    ∃ texts, spellings d binds events = .ok texts := by
  induction events generalizing binds with
  | nil => exact ⟨[], rfl⟩
  | cons e rest ih =>
      obtain ⟨he, hrest⟩ := List.forall_mem_cons.1 h
      have hrest' := ih hrest
      cases e with
      | token t =>
          rw [spellings]
          split
          next => exact hrest' binds
          next =>
            by_cases hbind : t.kind = .bindVariable
            · obtain ⟨text, htext⟩ := exists_bindSpelling he hbind (binds + 1)
              obtain ⟨texts, htexts⟩ := hrest' (binds + 1)
              have hspelling : (Terminal.ofToken t).spelling .upper d (binds + 1) = .ok text := by
                simp only [Terminal.spelling, Terminal.ofToken, hbind, htext]
              exact ⟨text :: texts, by simp only [hbind, if_true, hspelling, htexts, Except.map]⟩
            · obtain ⟨text, hspelling, -⟩ :=
                Terminal.spelling_of_ne (d := d) (t := .ofToken t) hbind binds
              obtain ⟨texts, htexts⟩ := hrest' binds
              exact ⟨text :: texts, by simp only [hbind, if_false, hspelling, htexts, Except.map]⟩
      | opened b p space =>
          obtain ⟨texts, htexts⟩ := hrest' binds
          exact ⟨_, by rw [spellings, htexts]; rfl⟩
      | closed b p =>
          obtain ⟨texts, htexts⟩ := hrest' binds
          exact ⟨_, by rw [spellings, htexts]; rfl⟩

end Event

namespace Tree

open TokenTree

variable {d : Dialect} {types : List String} {sql : String} {t : Tree}

/-- What is written for an accepted tree are the pieces of the text. -/
theorem Accepted.written (h : Accepted d types sql t) :
    (Standard.outline d).write (t.forest.size + 1) .free (t.forest.content t.root) =
      some ((lexEvents d (.ofDialect d) [sql]).1.flatMap (Event.pieces d)) := by
  obtain ⟨trees, rest, fuel, hlexed, hpieces, hfound, hrest⟩ := h.found
  obtain ⟨pieces, hreads, hwritten⟩ :=
    ((Standard.outline d).inverts fuel).any hlexed.sound hfound
  change Reads d trees rest pieces at hreads
  have hnone : piecesAll d rest = [] := by
    rw [← (piecesAll_significant hreads.sound).2, hrest]
    rfl
  rw [hpieces, hreads.eq, hnone, List.append_nil]
  have hheight := Forest.height_content_le h.descends (Nat.zero_le t.root)
  exact (hwritten 0 (.inl rfl)).free (hheight.trans (Nat.succ_le_succ h.root.le))

/-- What is written for an accepted tree are the spellings of the tokens of the text. -/
theorem Accepted.exists_layout (accepted : Accepted d types sql t) :
    ∃ layout, t.layout d {} = .ok layout ∧
      Event.spellings d 0 (lexEvents d (.ofDialect d) [sql]).1 = .ok layout.lexemes := by
  obtain ⟨texts, htexts⟩ := Event.exists_spellings (lexEvents_tells d [sql]).1 0
  have hspell := htexts
  rw [Event.spellings_eq] at hspell
  obtain ⟨layout, s', hrun, hlexemes, -⟩ :=
    Writing.renderNode_writes accepted.descends accepted.dialect accepted.written
      { registry := Standard.registry } texts (Standard.agrees_registry d) hspell
  refine ⟨layout, ?_, ?_⟩
  · exact congrArg Prod.fst hrun
  · rw [hlexemes]
    exact htexts

/-- A text that is parsed can be written, and the lexemes that are written are
those of its tokens. -/
theorem layout_of_parseAs (h : parseAs d types sql = .ok t) :
    (lexEvents d (.ofDialect d) [sql]).2 = none ∧
      ∃ layout, t.layout d {} = .ok layout ∧
        Event.spellings d 0 (lexEvents d (.ofDialect d) [sql]).1 = .ok layout.lexemes := by
  have accepted := accepted_of_parseAs h
  exact ⟨accepted.ended, accepted.exists_layout⟩

/-- Brackets, operators and placeholders of a comparison are written as they were read. -/
theorem comparison_layout :
    ∃ t layout, parseAs .mysql ["BinaryExpr"] "(a + ?) = 2" = .ok t ∧
      t.layout .mysql {} = .ok layout ∧
      layout.lexemes = ["(", "a", "+", "?", ")", "=", "2"] := by
  -- The kernel lexes the text once for both.
  obtain ⟨hparse, hspell⟩ :
      (parseAs .mysql ["BinaryExpr"] "(a + ?) = 2").toOption.isSome = true ∧
      (Event.spellings .mysql 0
        (lexEvents .mysql (.ofDialect .mysql) ["(a + ?) = 2"]).1).toOption =
          some ["(", "a", "+", "?", ")", "=", "2"] := by
    unfold parseAs parseChunks parseSource
    rw [Standard.registry_eq]
    decide +kernel
  cases ht : parseAs .mysql ["BinaryExpr"] "(a + ?) = 2" with
  | error e =>
      rw [ht] at hparse
      cases hparse
  | ok t =>
      obtain ⟨-, layout, hlayout, hlexemes⟩ := layout_of_parseAs ht
      rw [hlexemes] at hspell
      exact ⟨t, layout, rfl, hlayout, Option.some.inj hspell⟩

/-- Whether the text that is written for the tree of a text is parsed to the same tree. -/
def rereads? (d : Dialect) (sql : String) : Option Bool := do
  let t ← (parse d sql).toOption
  let text ← t.toSql.toOption
  let u ← (parse d text).toOption
  return t.same u

/-- Each token is written, but not always so that it is read as one again: the
name of a variable loses its quotes, and what stands behind the blank in it is
read as an alias. -/
theorem quoted_variable_differs : rereads? .mysql "select @`x y`" = some false := by
  unfold rereads? parse parseAs parseChunks parseSource toSql toSqlWith layout
  rw [Standard.registry_eq]
  decide +kernel

end Tree

end DualSql
