/-! # UTF-8

Decoding bytes that arrive in several reads. A character that is cut off at
the end of a read is completed by the next one; a sequence that no
continuation can complete is an error.

Main definitions: `Utf8.decode`, `Utf8.decodeReads`. -/

namespace DualSql.Utf8

/-- How a sequence of bytes begins. -/
inductive Start where
  | char (c : Char) (rest : List UInt8)
  /-- The given number of bytes begin no character. -/
  | invalid (length : Nat)
  /-- More bytes are needed to tell. -/
  | incomplete
  deriving DecidableEq, Repr

/-- Reads `missing` more bytes of a character of which `length` were read and
gave `code`. The next one must lie between the two bounds, those after it must
be continuation bytes. -/
def follow (code length : Nat) (least greatest : UInt8) : Nat → List UInt8 → Start
  | 0, bytes => .char (Char.ofNat code) bytes
  | _ + 1, [] => .incomplete
  | missing + 1, b :: rest =>
    if least ≤ b ∧ b ≤ greatest then
      follow (code * 64 + b.toNat % 64) (length + 1) 0x80 0xBF missing rest
    else .invalid length

/-- Reads one character. The first byte tells how many follow, and what the
second may be so that no code is written longer than it needs to be, denotes a
surrogate or is too large. -/
def first (b : UInt8) (rest : List UInt8) : Start :=
  if b < 0x80 then .char (Char.ofNat b.toNat) rest
  else if b < 0xC2 then .invalid 1
  else if b < 0xE0 then follow (b.toNat % 32) 1 0x80 0xBF 1 rest
  else if b < 0xF0 then
    follow (b.toNat % 16) 1 (if b = 0xE0 then 0xA0 else 0x80) (if b = 0xED then 0x9F else 0xBF)
      2 rest
  else if b < 0xF5 then
    follow (b.toNat % 8) 1 (if b = 0xF0 then 0x90 else 0x80) (if b = 0xF4 then 0x8F else 0xBF)
      3 rest
  else .invalid 1

theorem follow_length {code length : Nat} {least greatest : UInt8} {missing : Nat}
    {bytes rest : List UInt8} {c : Char}
    (h : follow code length least greatest missing bytes = .char c rest) :
    rest.length ≤ bytes.length := by
  induction missing generalizing code length least greatest bytes with
  | zero =>
    rw [follow] at h
    cases h
    exact Nat.le_refl _
  | succ missing ih =>
    cases bytes with
    | nil => simp [follow] at h
    | cons b bytes =>
      rw [follow] at h
      split at h
      · exact Nat.le_succ_of_le (ih h)
      · cases h

theorem first_length {b : UInt8} {bytes rest : List UInt8} {c : Char}
    (h : first b bytes = .char c rest) : rest.length ≤ bytes.length := by
  unfold first at h
  repeat' split at h
  all_goals first
    | exact follow_length h
    | (cases h; exact Nat.le_refl _)
    | cases h

/-- How far a sequence of bytes can be decoded. -/
structure Decoded where
  text : List Char
  /-- The bytes after the text: none, or the beginning of a character. -/
  rest : List UInt8
  /-- If the rest cannot become a character, how many of its bytes are wrong. -/
  invalid : Option Nat
  deriving DecidableEq, Repr

/-- Decodes bytes as far as possible. -/
def decode (bytes : List UInt8) : Decoded :=
  match bytes with
  | [] => ⟨[], [], none⟩
  | b :: more =>
    match _started : first b more with
    | .char c rest =>
      let decoded := decode rest
      { decoded with text := c :: decoded.text }
    | .invalid length => ⟨[], b :: more, some length⟩
    | .incomplete => ⟨[], b :: more, none⟩
termination_by bytes.length
decreasing_by
  have := first_length _started
  simp only [List.length_cons]
  omega

/-- Why bytes are not a text. -/
inductive Fault where
  /-- Wrong bytes, and their place after the last character of an earlier read. -/
  | invalid (length index : Nat)
  /-- The bytes end inside a character. -/
  | truncated
  deriving DecidableEq, Repr

/-- Decodes the bytes of several reads, given what was left over before them.
Each read gives one piece of the text. -/
def decodeReads (pending : List UInt8) : List (List UInt8) → Except Fault (List String)
  | [] => if pending.isEmpty then .ok [] else .error .truncated
  | read :: reads =>
    let bytes := pending ++ read
    let decoded := decode bytes
    match decoded.invalid with
    | some length => .error (.invalid length (bytes.length - decoded.rest.length))
    | none => do
      let pieces ← decodeReads decoded.rest reads
      return String.ofList decoded.text :: pieces

/-- Cuts bytes into reads of at most `size`, from a start of which `taken`
bytes belong to the present read. -/
def readsFrom (size taken : Nat) (present : List UInt8) : List UInt8 → List (List UInt8)
  | [] => if present.isEmpty then [] else [present.reverse]
  | b :: rest =>
    if taken < size then readsFrom size (taken + 1) (b :: present) rest
    else present.reverse :: readsFrom size 1 [b] rest

/-- Cuts bytes into reads of at most `size`. -/
def reads (size : Nat) (bytes : List UInt8) : List (List UInt8) :=
  readsFrom size 0 [] bytes

/-- Cuts bytes into reads from a buffer that is filled when it is empty, and
passed by if a read is at least as large. -/
def bufferedReads (buffer size : Nat) (bytes : List UInt8) : List (List UInt8) :=
  if size < buffer then (reads buffer bytes).flatMap (reads size) else reads size bytes

end DualSql.Utf8
