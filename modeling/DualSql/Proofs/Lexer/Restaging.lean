import DualSql.Proofs.Lexer.Settling
import DualSql.Proofs.Lexer.Trivia

/-! # Words that are taken in one by one

The buffer of waiting words can be kept by three routines that call each
other: one takes in a word, one decides the first of the words that wait, and
one takes in again what stood behind it. The calls end, and leave what
settling the words does.

Main definitions: `Buffer.stageWord`, `Buffer.restage` and `Buffer.resolve`.
Main results: `Buffer.stageWord_eq` and `Buffer.run_eq`.

## Implementation notes

The routines are given the depth to which their calls may nest, and answer
nothing where that is not enough. That the calls end is then that a depth
suffices, which is known from the number of words. -/

namespace DualSql.Phrase

/-- Words that wait, and the tokens that were decided before them. -/
structure Buffer where
  words : List Token := []
  out : List Token := []
  deriving DecidableEq, Repr

namespace Buffer

/-- The buffer with a decided token. -/
def emit (b : Buffer) (t : Token) : Buffer :=
  { b with out := b.out ++ [t] }

/-- The buffer with one more token that waits. -/
def push (b : Buffer) (t : Token) : Buffer :=
  { b with words := b.words ++ [t] }

mutual

/-- Takes in a word. It waits if a phrase may go on behind it; if not, the
words before it are decided, together with it if they spell a phrase. -/
def stageWord (d : Dialect) : (depth : Nat) → Buffer → Token → Option Buffer
  | 0, _, _ => none
  | depth + 1, b, t =>
    if b.words.isEmpty then
      if (Vocabulary.phrase d (Text.toUpper t.value)).continues then some (b.push t)
      else some (b.emit (single d t))
    else
      let found := Vocabulary.phrase d (spelling b.words ++ " " ++ Text.toUpper t.value)
      if found.continues then some (b.push t)
      else if found.complete.isSome then resolve d depth (b.push t)
      else (resolve d depth b).bind fun b' => stageWord d depth b' t

/-- Takes in a word or a blank. A blank waits only behind words. -/
def restage (d : Dialect) : (depth : Nat) → Buffer → Token → Option Buffer
  | 0, _, _ => none
  | depth + 1, b, t =>
    if t.kind.isTrivia then some (if b.words.isEmpty then b.emit t else b.push t)
    else stageWord d depth b t

/-- Decides the first of the waiting words, alone or with those that form a
phrase with it, and takes in the others again. -/
def resolve (d : Dialect) : (depth : Nat) → Buffer → Option Buffer
  | 0, _ => none
  | depth + 1, b =>
    match b.words.dropWhile (·.kind.isTrivia) with
    | [] => some { out := b.out ++ b.words }
    | first :: rest =>
      let (token, extent) := head d first rest
      (rest.drop extent).foldlM (restage d depth) { out := b.out ++ [token] }

end

/-- Decides all waiting words. -/
def flush (d : Dialect) : (depth : Nat) → Buffer → Option Buffer
  | 0, _ => none
  | depth + 1, b =>
    if b.words.isEmpty then some b else (resolve d depth b).bind (flush d depth)

/-- Takes in words and blanks one by one and then decides those that wait. -/
def run (d : Dialect) (depth : Nat) (tokens : List Token) : Option Buffer :=
  (tokens.foldlM (restage d depth) {}).bind (flush d depth)

variable {d : Dialect}

/-- Words that wait until more words come. -/
def Waiting (d : Dialect) (words : List Token) : Prop :=
  settle d false words = ([], words)

theorem waiting_cases {words : List Token} (h : Waiting d words) :
    words = [] ∨ ∃ first rest, words = first :: rest ∧ first.kind.isTrivia = false ∧
      mayGrow d (first :: rest) = true := by
  cases words with
  | nil => exact .inl rfl
  | cons first rest =>
      refine .inr ⟨first, rest, rfl, ?_⟩
      cases htrivia : first.kind.isTrivia with
      | true =>
          rw [Waiting, settle_trivia htrivia] at h
          cases congrArg Prod.fst h
      | false =>
          cases hgrows : mayGrow d (first :: rest) with
          | true => exact ⟨rfl, rfl⟩
          | false =>
              rw [Waiting, settle_decided htrivia (.inr hgrows)] at h
              cases congrArg Prod.fst h

/-- The buffer with more tokens settled behind its words. -/
def settled (d : Dialect) (b : Buffer) (tokens : List Token) : Buffer where
  words := (settle d false (b.words ++ tokens)).2
  out := b.out ++ (settle d false (b.words ++ tokens)).1

theorem settled_append (b : Buffer) (tokens more : List Token) :
    b.settled d (tokens ++ more) = (b.settled d tokens).settled d more := by
  rw [settled, ← List.append_assoc b.words, settle_append, ← List.append_assoc b.out]
  rfl

theorem settled_nil {b : Buffer} (h : Waiting d b.words) : b.settled d [] = b := by
  rw [settled, List.append_nil, h, List.append_nil]

theorem waiting_settled (b : Buffer) (tokens : List Token) :
    Waiting d (b.settled d tokens).words :=
  settle_waiting d false _

theorem length_settled_le (b : Buffer) (tokens : List Token) :
    (b.settled d tokens).words.length ≤ b.words.length + tokens.length := by
  have h := length_settle d false (b.words ++ tokens)
  rw [List.length_append] at h
  exact Nat.le_trans (Nat.le_add_left _ _) h

/-- A decided word comes before what is settled behind it. -/
theorem settled_of_decided {b : Buffer} {first : Token} {words rest tokens : List Token}
    (hwords : b.words ++ tokens = first :: words) (hfirst : first.kind.isTrivia = false)
    (hstuck : mayGrow d (first :: words) = false)
    (hrest : words.drop (head d first words).2 = rest) :
    b.settled d tokens = settled d { out := b.out ++ [(head d first words).1] } rest := by
  simp only [settled, hwords, settle_decided hfirst (.inr hstuck), hrest, List.nil_append,
    List.append_assoc, List.singleton_append]

theorem settled_of_waits {b : Buffer} {first : Token} {words tokens : List Token}
    (hwords : b.words ++ tokens = first :: words) (hfirst : first.kind.isTrivia = false)
    (hgrows : mayGrow d (first :: words) = true) :
    b.settled d tokens = { b with words := b.words ++ tokens } := by
  rw [settled, hwords, settle_waits hfirst hgrows, List.append_nil]

/-- A blank is taken in as settling has it. -/
theorem restage_trivia {b : Buffer} {t : Token} (h : Waiting d b.words)
    (ht : t.kind.isTrivia = true) (depth : Nat) :
    restage d (depth + 1) b t = some (b.settled d [t]) := by
  rw [restage, if_pos ht]
  rcases waiting_cases h with hnil | ⟨first, rest, hwords, hfirst, hgrows⟩
  · have hsettle : settle d false [t] = ([t], []) := by
      rw [settle_trivia ht, settle]
    rw [settled, hnil, List.isEmpty_nil, if_pos rfl, List.nil_append, hsettle, emit, hnil]
  · have hwords' : b.words ++ [t] = first :: (rest ++ [t]) := by rw [hwords, List.cons_append]
    have hgrows' : mayGrow d (first :: (rest ++ [t])) = true := by
      rw [mayGrow, spelling_cons hfirst, extend_append, extend_trivia ht]
      rwa [mayGrow, spelling_cons hfirst] at hgrows
    rw [settled_of_waits hwords' hfirst hgrows', hwords, List.isEmpty_cons,
      if_neg Bool.false_ne_true, push, hwords]

/-- Tokens are taken in one after the other as settling has it, if each of them is. -/
theorem foldlM_restage {depth : Nat} (bound : Nat) {tokens : List Token} {b : Buffer}
    (h : Waiting d b.words) (hlength : b.words.length + tokens.length ≤ bound + 1)
    (hrestage : ∀ (b : Buffer) (t : Token), Waiting d b.words → b.words.length ≤ bound →
      restage d depth b t = some (b.settled d [t])) :
    tokens.foldlM (restage d depth) b = some (b.settled d tokens) := by
  induction tokens generalizing b with
  | nil => rw [settled_nil h, List.foldlM_nil, Option.pure_def]
  | cons t tokens ih =>
      rw [List.length_cons] at hlength
      have hfirst := length_settled_le (d := d) b [t]
      rw [List.length_singleton] at hfirst
      rw [List.foldlM_cons, hrestage b t h (by omega), Option.bind_eq_bind, Option.bind_some,
        ih (waiting_settled b [t]) (by omega), ← settled_append, List.singleton_append]

/-- Words are decided as settling has it, if they are taken in again so. -/
theorem resolve_eq {depth bound : Nat} {b : Buffer} {first : Token} {rest : List Token}
    (hwords : b.words = first :: rest) (hfirst : first.kind.isTrivia = false)
    (hlength : rest.length ≤ bound + 1)
    (hrestage : ∀ (b : Buffer) (t : Token), Waiting d b.words → b.words.length ≤ bound →
      restage d depth b t = some (b.settled d [t])) :
    resolve d (depth + 1) b =
      some (settled d { out := b.out ++ [(head d first rest).1] }
        (rest.drop (head d first rest).2)) := by
  have hdrop : b.words.dropWhile (·.kind.isTrivia) = first :: rest := by
    rw [hwords, List.dropWhile_cons, if_neg (ne_true_of_eq_false hfirst)]
  have hnil : Waiting d [] := by rw [Waiting, settle]
  rw [resolve, hdrop]
  refine foldlM_restage _ hnil ?_ hrestage
  rw [List.length_nil, List.length_drop]
  omega

/-- A word that forms no phrase with those that wait leaves the first of them
as it is without it. -/
theorem head_append_word {first t : Token} {rest : List Token}
    (hfirst : first.kind.isTrivia = false) (ht : t.kind.isTrivia = false)
    (hnone : (Vocabulary.phrase d
      (spelling (first :: rest) ++ " " ++ Text.toUpper t.value)).complete = none) :
    head d first (rest ++ [t]) = head d first rest := by
  rw [spelling_cons hfirst] at hnone
  rw [head, longest_append, longest, if_neg (ne_true_of_eq_false ht)]
  simp only [hnone, longest]
  rw [head]

theorem mayGrow_append_word {first t : Token} {rest : List Token}
    (hfirst : first.kind.isTrivia = false) (ht : t.kind.isTrivia = false) :
    mayGrow d (first :: (rest ++ [t])) =
      (Vocabulary.phrase d (spelling (first :: rest) ++ " " ++ Text.toUpper t.value)).continues := by
  rw [mayGrow, spelling_cons hfirst, spelling_cons hfirst, extend_append, extend_word ht]
  rfl

/-- Tokens are taken in as settling has it, if words are. -/
theorem restage_of_stageWord {depth : Nat} {b : Buffer} {t : Token} (h : Waiting d b.words)
    (hword : t.kind.isTrivia = false → stageWord d depth b t = some (b.settled d [t])) :
    restage d (depth + 1) b t = some (b.settled d [t]) := by
  cases ht : t.kind.isTrivia with
  | true => exact restage_trivia h ht depth
  | false => rw [restage, if_neg (ne_true_of_eq_false ht), hword ht]

/-- A word that comes to an empty buffer. -/
theorem stageWord_of_nil {b : Buffer} {t : Token} (hnil : b.words = [])
    (ht : t.kind.isTrivia = false) (depth : Nat) :
    stageWord d (depth + 1) b t = some (b.settled d [t]) := by
  have htoken : b.words ++ [t] = t :: [] := by rw [hnil, List.nil_append]
  have hgrows : mayGrow d [t] = (Vocabulary.phrase d (Text.toUpper t.value)).continues := by
    rw [mayGrow, spelling_cons ht]
    rfl
  rw [stageWord, hnil, List.isEmpty_nil, if_pos rfl]
  split
  next hcontinues => rw [settled_of_waits htoken ht (hgrows.trans hcontinues), push]
  next hcontinues =>
    have hhead : head d t [] = (single d t, 0) := by rw [head, longest]
    have hwaiting : Waiting d [] := by rw [Waiting, settle]
    rw [settled_of_decided htoken ht (hgrows.trans (Bool.eq_false_iff.2 hcontinues)) rfl, hhead,
      List.drop_nil, settled_nil hwaiting, emit, hnil]

/-- A word is taken in as settling has it, at a depth that the number of
waiting words bounds. -/
theorem stageWord_eq {b : Buffer} {t : Token} {depth : Nat} (h : Waiting d b.words)
    (ht : t.kind.isTrivia = false) (hdepth : 3 * b.words.length + 3 ≤ depth) :
    stageWord d depth b t = some (b.settled d [t]) := by
  generalize hn : b.words.length = n at hdepth
  induction n using Nat.strongRecOn generalizing b t depth with
  | ind n ih =>
      obtain ⟨depth, rfl⟩ : ∃ k, depth = k + 3 := ⟨depth - 3, by omega⟩
      rcases waiting_cases h with hnil | ⟨first, rest, hwords, hfirst, -⟩
      · exact stageWord_of_nil hnil ht _
      · rw [hwords, List.length_cons] at hn
        have hwords' : b.words ++ [t] = first :: (rest ++ [t]) := by rw [hwords, List.cons_append]
        have hgrows : mayGrow d (first :: (rest ++ [t])) = _ := mayGrow_append_word hfirst ht
        -- Whatever is taken in again meets fewer words than wait now.
        have hrestage (b : Buffer) (t : Token) (h : Waiting d b.words)
            (hlength : b.words.length ≤ rest.length) :
            restage d (depth + 1) b t = some (b.settled d [t]) :=
          restage_of_stageWord h fun ht => ih _ (by omega) h ht rfl (by omega)
        rw [stageWord, hwords, List.isEmpty_cons, if_neg Bool.false_ne_true]
        dsimp only
        split
        next hcontinues =>
          rw [settled_of_waits hwords' hfirst (hgrows.trans hcontinues), push]
        next hcontinues =>
          have hstuck := hgrows.trans (Bool.eq_false_iff.2 hcontinues)
          rw [settled_of_decided hwords' hfirst hstuck rfl]
          split
          next hcomplete =>
            exact resolve_eq (b := b.push t) hwords' hfirst (by simp) hrestage
          next hcomplete =>
            have hnone := Option.not_isSome_iff_eq_none.1 hcomplete
            have hextent := head_extent_le (d := d) first rest
            have hlength := length_settled_le (d := d)
              { out := b.out ++ [(head d first rest).1] } (rest.drop (head d first rest).2)
            rw [List.length_nil, List.length_drop] at hlength
            rw [resolve_eq hwords hfirst (by omega) hrestage, Option.bind_some,
              head_append_word hfirst ht hnone, List.drop_append_of_le_length hextent,
              settled_append]
            exact ih _ (by omega) (waiting_settled _ _) ht rfl (by omega)

theorem restage_eq {b : Buffer} {t : Token} {depth : Nat} (h : Waiting d b.words)
    (hdepth : 3 * b.words.length + 4 ≤ depth) : restage d depth b t = some (b.settled d [t]) := by
  obtain ⟨depth, rfl⟩ : ∃ k, depth = k + 1 := ⟨depth - 1, by omega⟩
  exact restage_of_stageWord h fun ht => stageWord_eq h ht (by omega)

/-- All waiting words are decided as settling has it. -/
theorem flush_eq {b : Buffer} {depth : Nat} (h : Waiting d b.words)
    (hdepth : 3 * b.words.length + 3 ≤ depth) :
    flush d depth b = some { out := b.out ++ (settle d true b.words).1 } := by
  generalize hn : b.words.length = n at hdepth
  induction n using Nat.strongRecOn generalizing b depth with
  | ind n ih =>
      obtain ⟨depth, rfl⟩ : ∃ k, depth = k + 2 := ⟨depth - 2, by omega⟩
      rcases waiting_cases h with hnil | ⟨first, rest, hwords, hfirst, -⟩
      · obtain ⟨words, out⟩ := b
        obtain rfl : words = [] := hnil
        rw [flush, if_pos List.isEmpty_nil, settle, List.append_nil]
      · rw [hwords, List.length_cons] at hn
        have hrestage (b : Buffer) (t : Token) (h : Waiting d b.words)
            (hlength : b.words.length ≤ rest.length) :
            restage d depth b t = some (b.settled d [t]) :=
          restage_eq h (by omega)
        have hlength := length_settled_le (d := d)
          { out := b.out ++ [(head d first rest).1] } (rest.drop (head d first rest).2)
        rw [List.length_nil, List.length_drop] at hlength
        have hrest := settle_append (d := d) true (rest.drop (head d first rest).2) []
        rw [List.append_nil, List.append_nil] at hrest
        rw [flush, hwords, List.isEmpty_cons, if_neg Bool.false_ne_true,
          resolve_eq hwords hfirst (Nat.le_succ _) hrestage, Option.bind_some,
          ih _ (by omega) (waiting_settled _ _) rfl (by omega),
          settle_decided hfirst (.inl rfl), hrest]
        simp only [settled, List.nil_append, List.append_assoc, List.cons_append]

/-- Words that are taken in one by one become the tokens that settling them
together makes, at a depth that their number bounds. -/
theorem run_eq {tokens : List Token} {depth : Nat} (hdepth : 3 * tokens.length + 4 ≤ depth) :
    run d depth tokens = some { out := (settle d true tokens).1 } := by
  have hwaiting : Waiting d [] := by rw [Waiting, settle]
  have hlength := length_settled_le (d := d) {} tokens
  rw [List.length_nil, Nat.zero_add] at hlength
  have hsettle := settle_append (d := d) true tokens []
  rw [List.append_nil, List.append_nil] at hsettle
  rw [run, foldlM_restage tokens.length (b := {}) hwaiting (by simp)
      fun b t h hlength => restage_eq h (by omega),
    Option.bind_some, flush_eq (waiting_settled _ _) (by omega), hsettle]
  rfl

end Buffer

end DualSql.Phrase
