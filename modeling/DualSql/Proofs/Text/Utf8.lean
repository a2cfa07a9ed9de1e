import DualSql.Text.Utf8

/-! # Texts and the bytes that spell them

The decoder reads exactly the bytes that spell texts, however they are cut into
reads: what a read leaves over is the beginning of a character, to which the bytes of
the next read are added. Bytes that no more bytes can complete are told from those that
end too early.

Main definitions: `Utf8.Spells` and `Utf8.Cuts`. Main results: `Utf8.decodeReads_whole`
and `Utf8.whole_eq_fromUTF8?`. -/

namespace DualSql.Utf8

open String (utf8EncodeChar)

/-- A byte that goes on with a character. -/
def Continues (b : UInt8) : Prop :=
  0x80 ≤ b.toNat ∧ b.toNat ≤ 0xBF

/-- The bytes that spell a code. No code is spelled longer than it needs to be, and
surrogates and codes that are too large are not spelled at all. -/
inductive Spells : List UInt8 → Nat → Prop
  | one (b : UInt8) {code : Nat} (high : b.toNat < 0x80) (gives : code = b.toNat) :
      Spells [b] code
  | two (b x : UInt8) {code : Nat} (low : 0xC2 ≤ b.toNat) (high : b.toNat < 0xE0)
      (hx : Continues x) (gives : code = b.toNat % 32 * 64 + x.toNat % 64) : Spells [b, x] code
  | three (b x y : UInt8) {code : Nat} (low : 0xE0 ≤ b.toNat) (high : b.toNat < 0xF0)
      (hx : Continues x) (short : b.toNat = 0xE0 → 0xA0 ≤ x.toNat)
      (surrogate : b.toNat = 0xED → x.toNat ≤ 0x9F) (hy : Continues y)
      (gives : code = (b.toNat % 16 * 64 + x.toNat % 64) * 64 + y.toNat % 64) :
      Spells [b, x, y] code
  | four (b x y z : UInt8) {code : Nat} (low : 0xF0 ≤ b.toNat) (high : b.toNat < 0xF5)
      (hx : Continues x) (short : b.toNat = 0xF0 → 0x90 ≤ x.toNat)
      (large : b.toNat = 0xF4 → x.toNat ≤ 0x8F) (hy : Continues y) (hz : Continues z)
      (gives : code =
        ((b.toNat % 8 * 64 + x.toNat % 64) * 64 + y.toNat % 64) * 64 + z.toNat % 64) :
      Spells [b, x, y, z] code

theorem Spells.valid {bytes : List UInt8} {code : Nat} (h : Spells bytes code) :
    code.isValidChar := by
  have hbound (b : UInt8) : b.toNat < 256 := b.toNat_lt
  unfold Nat.isValidChar
  cases h with
  | one b high gives => omega
  | two b x low high hx gives => omega
  | three b x y low high hx short surrogate hy gives =>
      unfold Continues at hx hy
      omega
  | four b x y z low high hx short large hy hz gives =>
      unfold Continues at hx hy hz
      omega

/-! ### Spelling characters -/

/-- Every character is spelled by its bytes. -/
theorem spells_encode (c : Char) : Spells (utf8EncodeChar c) c.toNat := by
  have hvalid : c.toNat < 0xD800 ∨ 0xDFFF < c.toNat ∧ c.toNat < 0x110000 := c.valid
  have htoNat : c.val.toNat = c.toNat := rfl
  unfold utf8EncodeChar
  simp only [htoNat]
  generalize c.toNat = n at hvalid
  have hbyte (m : Nat) (hm : m < 256) : (UInt8.ofNat m).toNat = m := by
    rw [UInt8.toNat_ofNat']
    exact Nat.mod_eq_of_lt hm
  split
  · refine .one _ ?_ ?_ <;> rw [hbyte n (by omega)]
    omega
  split
  · refine .two _ _ ?_ ?_ ⟨?_, ?_⟩ ?_ <;> simp (disch := omega) only [hbyte] <;> omega
  split
  · refine .three _ _ _ ?_ ?_ ⟨?_, ?_⟩ ?_ ?_ ⟨?_, ?_⟩ ?_ <;>
      simp (disch := omega) only [hbyte] <;> omega
  · refine .four _ _ _ _ ?_ ?_ ⟨?_, ?_⟩ ?_ ?_ ⟨?_, ?_⟩ ⟨?_, ?_⟩ ?_ <;>
      simp (disch := omega) only [hbyte] <;> omega

/-- Nothing else spells a character. -/
theorem Spells.encode {bytes : List UInt8} {c : Char} (h : Spells bytes c.toNat) :
    utf8EncodeChar c = bytes := by
  have htoNat : c.val.toNat = c.toNat := rfl
  unfold utf8EncodeChar
  simp only [htoNat]
  generalize c.toNat = n at h
  have hbyte (m : Nat) (b : UInt8) (hm : m = b.toNat) : UInt8.ofNat m = b := by
    rw [hm, UInt8.ofNat_toNat]
  cases h with
  | one b high gives => rw [if_pos (by omega), hbyte _ _ gives]
  | two b x low high hx gives =>
      unfold Continues at hx
      rw [if_neg (by omega), if_pos (by omega)]
      simp only [List.cons.injEq, and_true]
      exact ⟨hbyte _ _ (by omega), hbyte _ _ (by omega)⟩
  | three b x y low high hx short surrogate hy gives =>
      unfold Continues at hx hy
      rw [if_neg (by omega), if_neg (by omega), if_pos (by omega)]
      simp only [List.cons.injEq, and_true]
      exact ⟨hbyte _ _ (by omega), hbyte _ _ (by omega), hbyte _ _ (by omega)⟩
  | four b x y z low high hx short large hy hz gives =>
      unfold Continues at hx hy hz
      rw [if_neg (by omega), if_neg (by omega), if_neg (by omega)]
      simp only [List.cons.injEq, and_true]
      exact ⟨hbyte _ _ (by omega), hbyte _ _ (by omega), hbyte _ _ (by omega),
        hbyte _ _ (by omega)⟩

/-! ### Reading characters -/

section

variable {code length missing : Nat} {least greatest b : UInt8} {bytes rest : List UInt8} {c : Char}

theorem follow_cons (h : least.toNat ≤ b.toNat ∧ b.toNat ≤ greatest.toNat) :
    follow code length least greatest (missing + 1) (b :: rest) =
      follow (code * 64 + b.toNat % 64) (length + 1) 0x80 0xBF missing rest :=
  if_pos h

theorem follow_continues (h : Continues b) :
    follow code length 0x80 0xBF (missing + 1) (b :: rest) =
      follow (code * 64 + b.toNat % 64) (length + 1) 0x80 0xBF missing rest :=
  if_pos h

theorem follow_eq_char : follow code length least greatest (missing + 1) bytes = .char c rest ↔
    ∃ b more, bytes = b :: more ∧ (least.toNat ≤ b.toNat ∧ b.toNat ≤ greatest.toNat) ∧
      follow (code * 64 + b.toNat % 64) (length + 1) 0x80 0xBF missing more = .char c rest := by
  cases bytes with
  | nil => simp [follow]
  | cons b more =>
      simp only [follow, UInt8.le_iff_toNat_le]
      split
      next h =>
        constructor
        · intro hmore
          exact ⟨b, more, rfl, h, hmore⟩
        · rintro ⟨_, _, heq, -, hmore⟩
          cases heq
          exact hmore
      next h =>
        constructor
        · intro hmore
          cases hmore
        · rintro ⟨_, _, heq, hin, -⟩
          cases heq
          exact absurd hin h

/-- What the first byte tells, in numbers. -/
theorem first_eq (b : UInt8) (rest : List UInt8) : first b rest =
    if b.toNat < 0x80 then .char (Char.ofNat b.toNat) rest
    else if b.toNat < 0xC2 then .invalid 1
    else if b.toNat < 0xE0 then follow (b.toNat % 32) 1 0x80 0xBF 1 rest
    else if b.toNat < 0xF0 then
      follow (b.toNat % 16) 1 (if b.toNat = 0xE0 then 0xA0 else 0x80)
        (if b.toNat = 0xED then 0x9F else 0xBF) 2 rest
    else if b.toNat < 0xF5 then
      follow (b.toNat % 8) 1 (if b.toNat = 0xF0 then 0x90 else 0x80)
        (if b.toNat = 0xF4 then 0x8F else 0xBF) 3 rest
    else .invalid 1 := by
  simp only [first, UInt8.lt_iff_toNat_lt, ← UInt8.toNat_inj]
  rfl

/-- What the second byte of a character may be. -/
theorem bounds_iff {p q : Prop} [Decidable p] [Decidable q] (low high : UInt8)
    (hlow : 0x80 ≤ low.toNat) (hhigh : high.toNat ≤ 0xBF) :
    ((if p then low else 0x80 : UInt8).toNat ≤ b.toNat ∧
      b.toNat ≤ (if q then high else 0xBF : UInt8).toNat) ↔
    Continues b ∧ (p → low.toNat ≤ b.toNat) ∧ (q → b.toNat ≤ high.toNat) := by
  unfold Continues
  split <;> split <;> simp_all <;> omega

/-- Bytes that spell a character are read as that character. -/
theorem Spells.first (h : Spells bytes c.toNat) (rest : List UInt8) :
    ∃ b more, bytes ++ rest = b :: more ∧ Utf8.first b more = .char c rest := by
  have hchar (code : Nat) (gives : c.toNat = code) : Char.ofNat code = c := by
    rw [← gives, Char.ofNat_toNat]
  cases h with
  | one b high gives =>
      refine ⟨b, rest, rfl, ?_⟩
      rw [first_eq, if_pos high, hchar _ gives]
  | two b x low high hx gives =>
      refine ⟨b, x :: rest, rfl, ?_⟩
      rw [first_eq, if_neg (by omega), if_neg (by omega), if_pos high, follow_continues hx,
        follow, hchar _ gives]
  | three b x y low high hx short surrogate hy gives =>
      refine ⟨b, x :: y :: rest, rfl, ?_⟩
      have hbounds := (bounds_iff 0xA0 0x9F (by decide) (by decide)).2 ⟨hx, short, surrogate⟩
      rw [first_eq, if_neg (by omega), if_neg (by omega), if_neg (by omega), if_pos high,
        follow_cons hbounds, follow_continues hy, follow, hchar _ gives]
  | four b x y z low high hx short large hy hz gives =>
      refine ⟨b, x :: y :: z :: rest, rfl, ?_⟩
      have hbounds := (bounds_iff 0x90 0x8F (by decide) (by decide)).2 ⟨hx, short, large⟩
      rw [first_eq, if_neg (by omega), if_neg (by omega), if_neg (by omega), if_neg (by omega),
        if_pos high, follow_cons hbounds, follow_continues hy, follow_continues hz, follow,
        hchar _ gives]

theorem toNat_ofNat {code : Nat} (h : code.isValidChar) : (Char.ofNat code).toNat = code := by
  rw [Char.ofNat, dif_pos h]
  rfl

/-- What is read as a character spells it. -/
theorem spells_first {more : List UInt8} (h : first b more = .char c rest) :
    ∃ bytes, Spells bytes c.toNat ∧ b :: more = bytes ++ rest := by
  have hnat {bytes : List UInt8} {code : Nat} (hs : Spells bytes code) (hc : Char.ofNat code = c) :
      Spells bytes c.toNat := by
    rw [← hc, toNat_ofNat hs.valid]
    exact hs
  rw [first_eq] at h
  split at h
  next high =>
    cases h
    exact ⟨[b], hnat (.one b high rfl) rfl, rfl⟩
  split at h
  next => cases h
  split at h
  next high =>
    simp only [follow_eq_char, follow, Start.char.injEq] at h
    obtain ⟨x, _, rfl, hx, hc, rfl⟩ := h
    exact ⟨[b, x], hnat (.two b x (by omega) high hx rfl) hc, rfl⟩
  split at h
  next high =>
    simp only [follow_eq_char, follow, Start.char.injEq] at h
    obtain ⟨x, _, rfl, hx, y, _, rfl, hy, hc, rfl⟩ := h
    obtain ⟨hx, short, surrogate⟩ := (bounds_iff _ _ (by decide) (by decide)).1 hx
    exact ⟨[b, x, y], hnat (.three b x y (by omega) high hx short surrogate hy rfl) hc, rfl⟩
  split at h
  next high =>
    simp only [follow_eq_char, follow, Start.char.injEq] at h
    obtain ⟨x, _, rfl, hx, y, _, rfl, hy, z, _, rfl, hz, hc, rfl⟩ := h
    obtain ⟨hx, short, large⟩ := (bounds_iff _ _ (by decide) (by decide)).1 hx
    exact ⟨[b, x, y, z], hnat (.four b x y z (by omega) high hx short large hy hz rfl) hc, rfl⟩
  next => cases h

/-! ### More bytes -/

/-- How a sequence of bytes begins that goes on. -/
def Start.append (more : List UInt8) : Start → Start
  | .char c rest => .char c (rest ++ more)
  | start => start

theorem follow_append (more : List UInt8)
    (h : follow code length least greatest missing bytes ≠ .incomplete) :
    follow code length least greatest missing (bytes ++ more) =
      (follow code length least greatest missing bytes).append more := by
  induction missing generalizing code length least greatest bytes with
  | zero => rfl
  | succ missing ih =>
      cases bytes with
      | nil => exact absurd rfl h
      | cons b bytes =>
          simp only [List.cons_append, follow] at h ⊢
          by_cases hin : least ≤ b ∧ b ≤ greatest
          · simp only [if_pos hin] at h ⊢
            exact ih h
          · simp only [if_neg hin]
            rfl

/-- What a sequence of bytes begins with is not changed by more bytes, once it is known. -/
theorem first_append (more : List UInt8) (h : first b bytes ≠ .incomplete) :
    first b (bytes ++ more) = (first b bytes).append more := by
  unfold first at h ⊢
  by_cases hone : b < 0x80
  · simp only [if_pos hone]
    rfl
  simp only [if_neg hone] at h ⊢
  by_cases hshort : b < 0xC2
  · simp only [if_pos hshort]
    rfl
  simp only [if_neg hshort] at h ⊢
  by_cases htwo : b < 0xE0
  · simp only [if_pos htwo] at h ⊢
    exact follow_append more h
  simp only [if_neg htwo] at h ⊢
  by_cases hthree : b < 0xF0
  · simp only [if_pos hthree] at h ⊢
    exact follow_append more h
  simp only [if_neg hthree] at h ⊢
  by_cases hfour : b < 0xF5
  · simp only [if_pos hfour] at h ⊢
    exact follow_append more h
  · simp only [if_neg hfour]
    rfl

end

/-! ### Decoding -/

variable {bytes : List UInt8}

theorem decode_nil : decode [] = ⟨[], [], none⟩ := by
  rw [decode]

theorem decode_of_char {b : UInt8} {more rest : List UInt8} {c : Char}
    (h : first b more = .char c rest) :
    decode (b :: more) = { decode rest with text := c :: (decode rest).text } := by
  rw [decode, h]

theorem decode_of_invalid {b : UInt8} {more : List UInt8} {length : Nat}
    (h : first b more = .invalid length) : decode (b :: more) = ⟨[], b :: more, some length⟩ := by
  rw [decode, h]

theorem decode_of_incomplete {b : UInt8} {more : List UInt8}
    (h : first b more = .incomplete) : decode (b :: more) = ⟨[], b :: more, none⟩ := by
  rw [decode, h]

/-- What is decoded when more bytes arrive: what was left over begins them. -/
theorem decode_append (bytes more : List UInt8) : decode (bytes ++ more) =
    match decode bytes with
    | ⟨text, rest, some length⟩ => ⟨text, rest ++ more, some length⟩
    | ⟨text, rest, none⟩ =>
      { decode (rest ++ more) with text := text ++ (decode (rest ++ more)).text } := by
  induction bytes using decode.induct with
  | case1 => rw [decode_nil]; rfl
  | case2 b bytes c rest hfirst ih =>
      have hmore := first_append more (by rw [hfirst]; nofun)
      rw [hfirst] at hmore
      rw [List.cons_append, decode_of_char hmore, decode_of_char hfirst, ih]
      rcases decode rest with ⟨text, rest', _ | length⟩ <;> rfl
  | case3 b bytes length hfirst =>
      have hmore := first_append more (by rw [hfirst]; nofun)
      rw [hfirst] at hmore
      rw [List.cons_append, decode_of_invalid hmore, decode_of_invalid hfirst]
      rfl
  | case4 b bytes hfirst =>
      -- All of it is left over, and is decoded anew.
      rw [decode_of_incomplete hfirst]
      rfl

/-- What is left over is the beginning of a character. -/
theorem decode_rest (h : (decode bytes).invalid = none) :
    decode (decode bytes).rest = ⟨[], (decode bytes).rest, none⟩ := by
  induction bytes using decode.induct with
  | case1 => rw [decode_nil, decode_nil]
  | case2 b bytes c rest hfirst ih =>
      rw [decode_of_char hfirst] at h ⊢
      exact ih h
  | case3 b bytes length hfirst =>
      rw [decode_of_invalid hfirst] at h
      cases h
  | case4 b bytes hfirst => rw [decode_of_incomplete hfirst, decode_of_incomplete hfirst]

/-- The text and what is left over spell the bytes. -/
theorem encode_decode (bytes : List UInt8) :
    (decode bytes).text.flatMap utf8EncodeChar ++ (decode bytes).rest = bytes := by
  induction bytes using decode.induct with
  | case1 => rw [decode_nil]; rfl
  | case2 b bytes c rest hfirst ih =>
      obtain ⟨spelled, hspells, heq⟩ := spells_first hfirst
      rw [decode_of_char hfirst, List.flatMap_cons, hspells.encode, List.append_assoc, ih, heq]
  | case3 b bytes length hfirst => rw [decode_of_invalid hfirst]; rfl
  | case4 b bytes hfirst => rw [decode_of_incomplete hfirst]; rfl

/-- The bytes of a text are decoded to the text. -/
theorem decode_encode (text : List Char) :
    decode (text.flatMap utf8EncodeChar) = ⟨text, [], none⟩ := by
  induction text with
  | nil => exact decode_nil
  | cons c text ih =>
      obtain ⟨b, more, heq, hfirst⟩ := (spells_encode c).first (text.flatMap utf8EncodeChar)
      rw [List.flatMap_cons, heq, decode_of_char hfirst, ih]

/-! ### Reads -/

/-- The text of bytes, if they are one. Otherwise it is said how many bytes are wrong, if it
is not that they end too early. -/
def Decoded.whole (d : Decoded) : Except (Option Nat) String :=
  match d.invalid with
  | some length => .error (some length)
  | none => if d.rest.isEmpty then .ok (String.ofList d.text) else .error none

/-- How many bytes are wrong. -/
def Fault.length? : Fault → Option Nat
  | .invalid length _ => some length
  | .truncated => none

theorem whole_behind (text : List Char) (d : Decoded) :
    Decoded.whole { d with text := text ++ d.text } = d.whole.map (String.ofList text ++ ·) := by
  unfold Decoded.whole
  cases d.invalid with
  | some length => rfl
  | none =>
      simp only
      split
      next => rw [String.ofList_append]; rfl
      next => rfl

/-- How bytes are cut into reads does not matter for the text, nor for what is wrong
with them. -/
theorem decodeReads_whole {pending : List UInt8} (reads : List (List UInt8))
    (h : decode pending = ⟨[], pending, none⟩) :
    ((decodeReads pending reads).map String.join).mapError Fault.length? =
      (decode (pending ++ reads.flatten)).whole := by
  -- What is pending before a read is what decoding left over, so nothing in it is decoded yet.
  induction reads generalizing pending with
  | nil =>
      rw [List.flatten_nil, List.append_nil, h, decodeReads, Decoded.whole]
      split <;> rfl
  | cons read reads ih =>
      rw [List.flatten_cons, ← List.append_assoc, decode_append, decodeReads]
      have hrest : (decode (pending ++ read)).invalid = none → _ := decode_rest
      generalize decode (pending ++ read) = d at hrest ⊢
      rcases d with ⟨text, rest, _ | length⟩
      · have hmore := ih (hrest rfl)
        simp only
        rw [whole_behind, ← hmore]
        cases decodeReads rest reads with
        | error fault => rfl
        | ok pieces =>
            change Except.ok (String.join (String.ofList text :: pieces)) = .ok _
            rw [String.join_cons]
      · rfl

theorem toByteArray_injective {bytes bytes' : List UInt8}
    (h : bytes.toByteArray = bytes'.toByteArray) : bytes = bytes' := by
  rw [← List.toList_data_toByteArray (l := bytes), h, List.toList_data_toByteArray]

/-- The text of bytes is the one that the standard library takes them for. -/
theorem whole_eq_fromUTF8? (bytes : List UInt8) :
    (decode bytes).whole.toOption = String.fromUTF8? bytes.toByteArray := by
  have hencode := encode_decode bytes
  by_cases hrest : (decode bytes).rest = []
  · rw [hrest, List.append_nil] at hencode
    generalize (decode bytes).text = text at hencode
    have hbytes : bytes.toByteArray = (String.ofList text).toByteArray := by
      rw [String.toByteArray_ofList, ← hencode]
      rfl
    have hdecode : decode bytes = ⟨text, [], none⟩ := by
      rw [← hencode, decode_encode]
    rw [hdecode, hbytes, String.fromUTF8?, dif_pos (String.ofList text).isValidUTF8]
    rfl
  · -- Nothing is left over of bytes that spell a text.
    have hinvalid : ¬ bytes.toByteArray.IsValidUTF8 := by
      rintro ⟨text, htext⟩
      have hbytes : bytes = text.flatMap utf8EncodeChar := toByteArray_injective htext
      exact hrest (by rw [hbytes, decode_encode])
    rw [String.fromUTF8?, dif_neg hinvalid, Decoded.whole]
    split
    next => rfl
    next => rw [if_neg (by simpa using hrest)]; rfl

/-- Reads that give bytes in order, at least one and at most so many at a time. -/
structure Cuts (size : Nat) (bytes : List UInt8) (reads : List (List UInt8)) : Prop where
  flatten : reads.flatten = bytes
  bounds : ∀ read ∈ reads, 0 < read.length ∧ read.length ≤ size

theorem cuts_readsFrom {size : Nat} (hsize : 0 < size) (present bytes : List UInt8)
    (hle : present.length ≤ size) :
    Cuts size (present.reverse ++ bytes) (readsFrom size present.length present bytes) := by
  -- The read that is being filled holds its bytes in reverse.
  induction bytes generalizing present with
  | nil =>
      rw [readsFrom]
      split
      next hempty =>
        rw [List.isEmpty_iff.1 hempty]
        exact ⟨rfl, nofun⟩
      next hsome =>
        have hpos : 0 < present.length := List.length_pos_iff.2 (by simpa using hsome)
        refine ⟨by simp, fun read hread => ?_⟩
        rw [List.mem_singleton.1 hread, List.length_reverse]
        omega
  | cons b bytes ih =>
      rw [readsFrom]
      split
      next hlt =>
        have hmore := ih (b :: present) hlt
        rwa [List.reverse_cons, List.append_assoc] at hmore
      next hfull =>
        have hmore := ih [b] hsize
        refine ⟨by rw [List.flatten_cons]; exact congrArg _ hmore.flatten, ?_⟩
        rintro read (_ | ⟨_, hread⟩)
        · rw [List.length_reverse]
          omega
        · exact hmore.bounds read hread

theorem cuts_reads {size : Nat} (hsize : 0 < size) (bytes : List UInt8) :
    Cuts size bytes (reads size bytes) :=
  cuts_readsFrom hsize [] bytes (Nat.zero_le size)

theorem cuts_bufferedReads {size : Nat} (buffer : Nat) (hsize : 0 < size)
    (bytes : List UInt8) : Cuts size bytes (bufferedReads buffer size bytes) := by
  unfold bufferedReads
  split
  next hlt =>
    have hagain (pieces : List (List UInt8)) :
        (pieces.flatMap (reads size)).flatten = pieces.flatten := by
      induction pieces with
      | nil => rfl
      | cons piece pieces ih =>
          rw [List.flatMap_cons, List.flatten_append, (cuts_reads hsize piece).flatten, ih,
            List.flatten_cons]
    refine ⟨?_, fun read hread => ?_⟩
    · rw [hagain, (cuts_reads (Nat.lt_trans hsize hlt) bytes).flatten]
    · obtain ⟨piece, -, hread⟩ := List.mem_flatMap.1 hread
      exact (cuts_reads hsize piece).bounds read hread
  next => exact cuts_reads hsize bytes

/-! ### ASCII texts -/

/-- Whether every character of a text is a single byte. -/
def isAscii (text : String) : Bool :=
  text.toByteArray.data.toList.all fun b => b < 0x80

/-- The characters that the bytes of a text are one by one. To evaluate them takes far
less than to decode the text. -/
def asciiChars (text : String) : List Char :=
  text.toByteArray.data.toList.map fun b => Char.ofNat b.toNat

theorem Spells.ascii {bytes : List UInt8} {c : Char} (h : Spells bytes c.toNat)
    (hsmall : bytes.all (fun b => b < 0x80) = true) :
    bytes.map (fun b => Char.ofNat b.toNat) = [c] := by
  have hfirst : ∀ b ∈ bytes, b.toNat < 0x80 := fun b hb => by
    simpa [UInt8.lt_iff_toNat_lt] using List.all_eq_true.1 hsmall b hb
  cases h with
  | one b high gives => rw [List.map_singleton, ← gives, Char.ofNat_toNat]
  | two b x low _ _ _ =>
      have := hfirst b List.mem_cons_self
      omega
  | three b x y low _ _ _ _ _ _ =>
      have := hfirst b List.mem_cons_self
      omega
  | four b x y z low _ _ _ _ _ _ _ =>
      have := hfirst b List.mem_cons_self
      omega

theorem toList_of_isAscii {text : String} (h : isAscii text = true) :
    text.toList = asciiChars text := by
  have hbytes : text.toByteArray.data.toList = text.toList.flatMap utf8EncodeChar := by
    calc text.toByteArray.data.toList
        = (String.ofList text.toList).toByteArray.data.toList := by rw [String.ofList_toList]
      _ = text.toList.flatMap utf8EncodeChar := by
        rw [String.toByteArray_ofList]
        exact List.toList_data_toByteArray
  rw [isAscii, hbytes] at h
  rw [asciiChars, hbytes]
  generalize text.toList = cs at h
  induction cs with
  | nil => rfl
  | cons c cs ih =>
      rw [List.flatMap_cons, List.all_append, Bool.and_eq_true] at h
      rw [List.flatMap_cons, List.map_append, (spells_encode c).ascii h.1, ← ih h.2]
      rfl
end DualSql.Utf8
