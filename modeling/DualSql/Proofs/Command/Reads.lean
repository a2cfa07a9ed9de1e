import DualSql.Command.Run
import DualSql.Proofs.Grammar.Standard
import DualSql.Proofs.Lexer.Digest
import DualSql.Proofs.Text.Utf8

/-! # Reading the input of a command

How many bytes are asked for at a time, and how many arrive, shows nowhere but in the
place that is named in bytes that are no text: a command works on the text of its input.

Main definitions: `Command.Delivers` and `Command.inputText`. Main result:
`Command.chunkSize_irrelevant`.

## Implementation notes

How much memory there is is not modelled. A buffer can have any size that the system
has a number for. -/

namespace DualSql.Command

open Utf8

/-! ### Steps that fail alike -/

/-- Two steps give the same, or they fail with failures in a relation. -/
inductive Alike {α : Type} (R : Failure → Failure → Prop) :
    Except Failure α → Except Failure α → Prop
  | ok (a : α) : Alike R (.ok a) (.ok a)
  | error {e e' : Failure} (related : R e e') : Alike R (.error e) (.error e')

section

variable {α β : Type} {R : Failure → Failure → Prop} {x y : Except Failure α}

theorem Alike.refl (hR : ∀ e, R e e) (x : Except Failure α) : Alike R x x := by
  cases x with
  | error e => exact .error (hR e)
  | ok a => exact .ok a

theorem Alike.bind {k l : α → Except Failure β} (h : Alike R x y) (hk : ∀ a, Alike R (k a) (l a)) :
    Alike R (x >>= k) (y >>= l) := by
  cases h with
  | ok a => exact hk a
  | error related => exact .error related

theorem ok_of_toOption {x : Except Failure α} {a : α} (h : x.toOption = some a) : x = .ok a := by
  cases x with
  | error e => cases h
  | ok b => exact congrArg _ (Option.some.inj h)

end

/-- The message of a failure, if it is reported. -/
def messageOf : Failure → Option String
  | .reported report => some report.message
  | .capacity => none

/-- Two failures have the same message, but maybe not the same cause. -/
def SameMessage (e e' : Failure) : Prop :=
  messageOf e = messageOf e'

theorem sameMessage_refl (e : Failure) : SameMessage e e := rfl

/-- Failures with the same message leave the same behind, but for the cause. -/
theorem SameMessage.outcome {e e' : Failure} (h : SameMessage e e') :
    (Outcome.ofFailure e).status = (Outcome.ofFailure e').status ∧
    (Outcome.ofFailure e).output = (Outcome.ofFailure e').output ∧
    (Outcome.ofFailure e).failure.map Report.message =
      (Outcome.ofFailure e').failure.map Report.message := by
  cases e with
  | reported report =>
      cases e' with
      | reported report' => exact ⟨rfl, rfl, h⟩
      | capacity => cases h
  | capacity =>
      cases e' with
      | reported report' => cases h
      | capacity => exact ⟨rfl, rfl, rfl⟩

/-! ### The text of an input -/

/-- Every input arrives in reads of at least one byte, and at most as many as were
asked for. -/
def Delivers (arrivals : Option String → Nat → List UInt8 → List (List UInt8)) : Prop :=
  ∀ input size bytes, 0 < size → Cuts size bytes (arrivals input size bytes)

theorem delivers_usualArrivals : Delivers usualArrivals := by
  intro input size bytes hsize
  cases input with
  | none => exact cuts_bufferedReads bufferSize hsize bytes
  | some path => exact cuts_reads hsize bytes

variable {s s' : Surroundings} {i i' : Invocation} {R : Failure → Failure → Prop}

/-- The bytes of an input that can be opened and read. -/
def inputBytes (s : Surroundings) (i : Invocation) : Except Report (List UInt8) := do
  (← openInput s i)

/-- The text of an input. -/
def inputText (s : Surroundings) (i : Invocation) : Except Failure String :=
  (inputChunks s i).map String.join

/-- The bytes of an input are decoded in the reads in which they arrive. -/
theorem inputChunks_eq (fits : i.chunkSize ≤ greatestBuffer) : inputChunks s i =
    ((inputBytes s i).mapError .reported >>= fun bytes =>
      (decodeReads [] (s.arrivals i.input (max i.chunkSize leastChunk) bytes)).mapError
        fun fault => .reported (.ofFault fault)) := by
  have hbuffer : bufferFor i = .ok (max i.chunkSize leastChunk) := by
    rw [bufferFor, if_pos]
    exact Nat.max_le.2 ⟨fits, by decide⟩
  rw [inputChunks, inputReads, inputBytes, hbuffer]
  rcases openInput s i with _ | _ | _ <;> rfl

theorem flatten_arrivals (h : Delivers s.arrivals) (bytes : List UInt8) :
    (s.arrivals i.input (max i.chunkSize leastChunk) bytes).flatten = bytes :=
  (h _ _ _ (Nat.lt_of_lt_of_le (by decide) (Nat.le_max_right ..))).flatten

theorem inputText_of_bytes (fits : i.chunkSize ≤ greatestBuffer) {bytes : List UInt8}
    (hbytes : inputBytes s i = .ok bytes) : inputText s i =
    ((decodeReads [] (s.arrivals i.input (max i.chunkSize leastChunk) bytes)).map
      String.join).mapError fun fault => .reported (.ofFault fault) := by
  rw [inputText, inputChunks_eq fits, hbytes]
  change ((decodeReads [] (s.arrivals i.input (max i.chunkSize leastChunk) bytes)).mapError
    _).map _ = _
  cases decodeReads [] (s.arrivals i.input (max i.chunkSize leastChunk) bytes) <;> rfl

/-- What is decoded does not depend on the reads in which the bytes arrive. -/
theorem decode_arrivals (h : Delivers s.arrivals) (bytes : List UInt8) :
    ((decodeReads [] (s.arrivals i.input (max i.chunkSize leastChunk) bytes)).map
      String.join).mapError Fault.length? = (decode bytes).whole := by
  rw [decodeReads_whole _ decode_nil, List.nil_append, flatten_arrivals h]

/-- Decoding succeeds on the bytes of a text, and gives the text. -/
theorem inputText_toOption (h : Delivers s.arrivals) (fits : i.chunkSize ≤ greatestBuffer)
    {bytes : List UInt8} (hbytes : inputBytes s i = .ok bytes) :
    (inputText s i).toOption = String.fromUTF8? bytes.toByteArray := by
  rw [← whole_eq_fromUTF8?, ← decode_arrivals h, inputText_of_bytes fits hbytes]
  generalize (decodeReads [] _).map String.join = x
  cases x <;> rfl

theorem inputText_of_error (fits : i.chunkSize ≤ greatestBuffer) {report : Report}
    (hbytes : inputBytes s i = .error report) : inputText s i = .error (.reported report) := by
  rw [inputText, inputChunks_eq fits, hbytes]
  rfl

theorem message_ofFault (fault : Fault) : (Report.ofFault fault).message =
    fault.length?.elim "input ends inside a UTF-8 character"
      fun _ => "input is not valid UTF-8" := by
  cases fault <;> rfl

/-- However the same bytes arrive, their text is the same, or what is wrong with them. -/
theorem inputText_alike (h : Delivers s.arrivals) (h' : Delivers s'.arrivals)
    (fits : i.chunkSize ≤ greatestBuffer) (fits' : i'.chunkSize ≤ greatestBuffer)
    (hsame : inputBytes s' i' = inputBytes s i) :
    Alike SameMessage (inputText s i) (inputText s' i') := by
  cases hbytes : inputBytes s i with
  | error report =>
      rw [inputText_of_error fits hbytes, inputText_of_error fits' (hsame.trans hbytes)]
      exact .error rfl
  | ok bytes =>
      have hwhole : _ = (decode bytes).whole := decode_arrivals (i := i) h bytes
      rw [← decode_arrivals (i := i') h'] at hwhole
      rw [inputText_of_bytes fits hbytes, inputText_of_bytes fits' (hsame.trans hbytes)]
      -- Both texts are the whole of the same bytes, but faults may name different places.
      generalize (decodeReads [] (s.arrivals _ _ bytes)).map String.join = x,
        (decodeReads [] (s'.arrivals _ _ bytes)).map String.join = y at hwhole ⊢
      rcases x with fault | text <;> rcases y with fault' | text'
      · refine .error ?_
        have hlength : fault.length? = fault'.length? := Except.error.inj hwhole
        simp only [SameMessage, messageOf, message_ofFault, hlength]
      · cases hwhole
      · cases hwhole
      · cases hwhole
        exact .ok text

/-! ### Commands work on texts -/

theorem parseEager_of_join (d : Dialect) (types : List String) {chunks chunks' : List String}
    (h : String.join chunks' = String.join chunks) :
    Tree.parseEager d types chunks' = Tree.parseEager d types chunks := by
  rw [Tree.parseEager, Tree.parseEager, ← lexEvents_join, h, lexEvents_join]

section

variable (hR : ∀ e, R e e) (h : Alike R (inputText s i) (inputText s' i'))

include h in
/-- The pieces of two inputs whose texts are alike. -/
theorem inputChunks_cases :
    (∃ e e', R e e' ∧ inputChunks s i = .error e ∧ inputChunks s' i' = .error e') ∨
    ∃ chunks chunks', String.join chunks' = String.join chunks ∧
      inputChunks s i = .ok chunks ∧ inputChunks s' i' = .ok chunks' := by
  unfold inputText at h
  generalize inputChunks s i = x, inputChunks s' i' = y at h ⊢
  rcases x with e | chunks <;> rcases y with e' | chunks'
  · cases h with
    | error related => exact .inl ⟨e, e', related, rfl, rfl⟩
  · cases h
  · cases h
  · refine .inr ⟨chunks, chunks', ?_, rfl, rfl⟩
    change Alike R (.ok (String.join chunks)) (.ok (String.join chunks')) at h
    generalize String.join chunks = text, String.join chunks' = text' at h ⊢
    cases h
    rfl

include h in
/-- A step that works on the pieces of an input, whichever they are. -/
theorem Alike.chunks {α : Type} {k l : List String → Except Failure α}
    (hk : ∀ chunks chunks', String.join chunks' = String.join chunks →
      Alike R (k chunks) (l chunks')) :
    Alike R (inputChunks s i >>= k) (inputChunks s' i' >>= l) := by
  obtain ⟨e, e', related, he, he'⟩ | ⟨chunks, chunks', hjoin, hc, hc'⟩ := inputChunks_cases h
  · rw [he, he']
    exact .error related
  · rw [hc, hc']
    exact hk chunks chunks' hjoin

variable (hdialect : i'.dialect = i.dialect)
include hR h hdialect

theorem parseInput_alike (tag : String) :
    Alike R (parseInput s i tag) (parseInput s' i' tag) := by
  unfold parseInput
  refine (Alike.refl hR _).bind fun _ => Alike.chunks h fun chunks chunks' hjoin => ?_
  rw [hdialect, parseEager_of_join _ _ hjoin]
  exact Alike.refl hR _

theorem printed_alike (action : Action) :
    Alike R (printed s i action) (printed s' i' action) := by
  cases action with
  | tokenize whitespace comments => exact .ok ""
  | parse type compact =>
      exact (parseInput_alike hR h hdialect type).bind fun tree => Alike.refl hR _
  | format o =>
      simp only [printed, hdialect]
      exact (parseInput_alike hR h hdialect _).bind fun tree => Alike.refl hR _
  | convert target o =>
      exact (parseInput_alike hR h hdialect _).bind fun tree => Alike.refl hR _
  | render type o =>
      simp only [printed, hdialect]
      refine Alike.chunks h fun chunks chunks' hjoin => ?_
      rw [hjoin]
      exact Alike.refl hR _

/-- What a call leaves behind if it ends alike. -/
theorem perform_alike (haction : i'.action = i.action) : perform s i = perform s' i' ∨
    ∃ e e', R e e' ∧ perform s i = .ofFailure e ∧ perform s' i' = .ofFailure e' := by
  have hprinted := printed_alike hR h hdialect i.action
  unfold perform
  rw [haction]
  split
  next whitespace comments _ =>
    unfold listTokens
    obtain ⟨e, e', related, he, he'⟩ | ⟨chunks, chunks', hjoin, hc, hc'⟩ := inputChunks_cases h
    · rw [he, he']
      exact .inr ⟨e, e', related, rfl, rfl⟩
    · left
      simp only [hc, hc', hdialect]
      rw [← lexEvents_join _ _ chunks', hjoin, lexEvents_join]
  next =>
    generalize printed s i i.action = x, printed s' i' i.action = y at hprinted
    cases hprinted with
    | ok line => exact .inl rfl
    | error related => exact .inr ⟨_, _, related, rfl, rfl⟩

end

/-! ### The chunk size -/

/-- The number of bytes that are asked for at a time, and how many arrive, have no
influence on a command, but for the place that is named in bytes that are no text:
these are decoded exactly if they are one. Memory for the buffer is assumed. -/
theorem chunkSize_irrelevant (s : Surroundings) (i : Invocation)
    {arrivals arrivals' : Option String → Nat → List UInt8 → List (List UInt8)}
    {size size' : Nat} (h : Delivers arrivals) (h' : Delivers arrivals')
    (fits : size ≤ greatestBuffer) (fits' : size' ≤ greatestBuffer) :
    let s₁ := { s with arrivals }
    let s₂ := { s with arrivals := arrivals' }
    let i₁ := { i with chunkSize := size }
    let i₂ := { i with chunkSize := size' }
    (∀ bytes, inputBytes s i = .ok bytes →
      (inputChunks s₁ i₁).toOption.map String.join = String.fromUTF8? bytes.toByteArray) ∧
    ((∀ bytes, inputBytes s i = .ok bytes → bytes.toByteArray.IsValidUTF8) →
      perform s₁ i₁ = perform s₂ i₂) ∧
    (perform s₁ i₁).status = (perform s₂ i₂).status ∧
    (perform s₁ i₁).output = (perform s₂ i₂).output ∧
    (perform s₁ i₁).failure.map Report.message = (perform s₂ i₂).failure.map Report.message := by
  intro s₁ s₂ i₁ i₂
  have htext {bytes : List UInt8} (hbytes : inputBytes s i = .ok bytes) :
      (inputText s₁ i₁).toOption = String.fromUTF8? bytes.toByteArray :=
    inputText_toOption h fits hbytes
  refine ⟨fun bytes hbytes => ?_, fun hvalid => ?_, ?_⟩
  · rw [← htext hbytes, inputText]
    cases inputChunks s₁ i₁ <;> rfl
  · -- On bytes that spell a text no place is named, so that failures are the same.
    have hsame : Alike Eq (inputText s₁ i₁) (inputText s₂ i₂) := by
      cases hbytes : inputBytes s i with
      | error report =>
          have hfirst : inputText s₁ i₁ = _ := inputText_of_error fits hbytes
          have hsecond : inputText s₂ i₂ = _ := inputText_of_error fits' hbytes
          rw [hfirst, hsecond]
          exact .error rfl
      | ok bytes =>
          have hsecond : (inputText s₂ i₂).toOption = _ := inputText_toOption h' fits' hbytes
          have hfirst := htext hbytes
          rw [String.fromUTF8?, dif_pos (hvalid bytes hbytes)] at hfirst hsecond
          rw [ok_of_toOption hfirst, ok_of_toOption hsecond]
          exact .ok _
    obtain heq | ⟨e, _, rfl, he, he'⟩ := perform_alike (fun _ => rfl) hsame rfl rfl
    · exact heq
    · exact he.trans he'.symm
  · have halike : Alike SameMessage (inputText s₁ i₁) (inputText s₂ i₂) :=
      inputText_alike h h' fits fits' rfl
    have hends : perform s₁ i₁ = perform s₂ i₂ ∨ _ :=
      perform_alike sameMessage_refl halike rfl rfl
    obtain heq | ⟨e, e', related, he, he'⟩ := hends
    · rw [heq]
      exact ⟨rfl, rfl, rfl⟩
    · rw [he, he']
      exact related.outcome

/-- A text with a character of two bytes, on the standard input. -/
def accented : Surroundings where
  standardInput := [0x73, 0x65, 0x6C, 0x65, 0x63, 0x74, 0x20, 0x27, 0xC3, 0xA9, 0x27]
  file path := .unopenable path

/-- A call that formats the standard input. -/
def formatting : Invocation where
  dialect := .postgres
  chunkSize := 8192
  input := none
  action := .format {}

/-- The character may arrive in two reads. -/
theorem chunkSize_irrelevant_accented :
    let arrivals := fun (_ : Option String) (_ : Nat) (bytes : List UInt8) => bytes.map ([·])
    let s := { accented with arrivals }
    let i := { formatting with chunkSize := 1 }
    Delivers arrivals ∧ (inputChunks s i).toOption.map String.join = some "select 'é'" ∧
      perform s i = perform accented formatting := by
  intro arrivals s i
  have hdelivers : Delivers arrivals := by
    intro input size bytes hsize
    have hflatten : (bytes.map fun b => [b]).flatten = bytes := by
      rw [← List.flatMap_def, List.flatMap_singleton']
    refine ⟨hflatten, fun read hread => ?_⟩
    obtain ⟨b, -, rfl⟩ := List.mem_map.1 hread
    exact ⟨Nat.one_pos, hsize⟩
  have htext : String.fromUTF8? accented.standardInput.toByteArray = some "select 'é'" := by
    decide +kernel
  obtain ⟨hchunks, hsame, -⟩ := chunkSize_irrelevant accented formatting hdelivers
    delivers_usualArrivals (by decide : 1 ≤ greatestBuffer) (by decide : 8192 ≤ greatestBuffer)
  refine ⟨hdelivers, (hchunks _ rfl).trans htext, hsame fun bytes hbytes => ?_⟩
  cases hbytes
  decide +kernel

theorem inputChunks_of_lt (h : greatestBuffer < i.chunkSize)
    {content : Except Report (List UInt8)} (hopen : openInput s i = .ok content) :
    inputChunks s i = .error .capacity := by
  have hlarge : ¬ max i.chunkSize leastChunk ≤ greatestBuffer := by
    intro hle
    exact Nat.not_le_of_lt h (Nat.le_trans (Nat.le_max_left ..) hle)
  rw [inputChunks, inputReads, bufferFor, if_neg hlarge, hopen]
  rfl

theorem knownType_script : knownType Standard.script = .ok () := by
  have htype := (Standard.agrees_registry .postgres).type? Standard.script
  rw [knownType, htype, if_pos (by decide +kernel)]

/-- No buffer is as large as the greatest chunk sizes, so that the program breaks off. -/
theorem chunkSize_too_large :
    let i := { formatting with chunkSize := 2 ^ 63 }
    inputBytes accented i = .ok accented.standardInput ∧
      accented.standardInput.toByteArray.IsValidUTF8 ∧ Delivers accented.arrivals ∧
      (inputChunks accented i).toOption = none ∧ (perform accented i).status = 101 := by
  intro i
  have hchunks : inputChunks accented i = .error .capacity :=
    inputChunks_of_lt (by decide) rfl
  refine ⟨rfl, by decide +kernel, delivers_usualArrivals, by rw [hchunks]; rfl, ?_⟩
  have hprinted : printed accented i i.action = .error .capacity := by
    change printed accented i (.format {}) = _
    rw [printed, parseInput, knownType_script, hchunks]
    rfl
  unfold perform
  split
  next heq => cases heq
  next heq =>
    rw [hprinted]
    rfl

end DualSql.Command
