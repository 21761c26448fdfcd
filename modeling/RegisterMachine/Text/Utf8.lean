namespace RegisterMachine.Text.Utf8

/-!
# Text from bytes that may not be text

UTF-8 is read byte by byte.  Where the bytes at hand do not begin a
well-formed sequence, the longest part of them that could have begun one, or a
single byte when there is none, stands for one replacement character.
-/

/-- The character that stands for bytes which are not UTF-8. -/
def replacement : Char := '\uFFFD'

/-- How many bytes follow a lead byte, and the range that the first of them has. -/
def tail? (lead : UInt8) : Option (Nat × UInt8 × UInt8) :=
  if lead < 0xC2 then none
  else if lead < 0xE0 then some (1, 0x80, 0xBF)
  else if lead = 0xE0 then some (2, 0xA0, 0xBF)
  else if lead = 0xED then some (2, 0x80, 0x9F)
  else if lead < 0xF0 then some (2, 0x80, 0xBF)
  else if lead = 0xF0 then some (3, 0x90, 0xBF)
  else if lead < 0xF4 then some (3, 0x80, 0xBF)
  else if lead = 0xF4 then some (3, 0x80, 0x8F)
  else none

/-- The data bits of a lead byte that is followed by `count` bytes. -/
def leadBits (lead : UInt8) (count : Nat) : Nat :=
  lead.toNat % (1 <<< (6 - count))

/--
Read up to `count` continuation bytes, the first of them in the range
`low`..`high`.  Gives the character and the rest when all are there, and
otherwise the replacement character and the rest after those that are.
-/
def continuation (count : Nat) (low high : UInt8) (bits : Nat) :
    List UInt8 → Char × List UInt8
  | [] => (if count = 0 then Char.ofNat bits else replacement, [])
  | byte :: rest =>
      match count with
      | 0 => (Char.ofNat bits, byte :: rest)
      | more + 1 =>
          if low ≤ byte ∧ byte ≤ high then
            continuation more 0x80 0xBF (bits * 64 + byte.toNat % 64) rest
          else
            (replacement, byte :: rest)

/-- Reading continuation bytes never adds to the bytes that are left. -/
theorem length_continuation_le (count : Nat) (low high : UInt8) (bits : Nat)
    (bytes : List UInt8) :
    (continuation count low high bits bytes).2.length ≤ bytes.length := by
  induction bytes generalizing count low high bits with
  | nil => simp [continuation]
  | cons byte rest inductionHypothesis =>
      cases count with
      | zero => simp [continuation]
      | succ more =>
          simp only [continuation]
          split
          · exact Nat.le_succ_of_le (inductionHypothesis more _ _ _)
          · simp

/-- The first character of non-empty bytes, and the bytes after it. -/
def first (lead : UInt8) (rest : List UInt8) : Char × List UInt8 :=
  if lead < 0x80 then
    (Char.ofNat lead.toNat, rest)
  else
    match tail? lead with
    | none => (replacement, rest)
    | some (count, low, high) =>
        continuation count low high (leadBits lead count) rest

/-- Reading a character leaves no more than the bytes after the lead byte. -/
theorem length_first_le (lead : UInt8) (rest : List UInt8) :
    (first lead rest).2.length ≤ rest.length := by
  unfold first
  split
  · simp
  · split
    · simp
    · exact length_continuation_le _ _ _ _ _

/-- The characters of bytes, read with replacement. -/
def decodeLossy : List UInt8 → List Char
  | [] => []
  | lead :: rest =>
      (first lead rest).1 :: decodeLossy (first lead rest).2
  termination_by bytes => bytes.length
  decreasing_by
    exact Nat.lt_succ_of_le (length_first_le lead rest)

/-- The UTF-8 bytes of a text. -/
def encode (text : String) : List UInt8 :=
  text.toUTF8.toList

/-- The text with the given UTF-8 bytes, or `none` when they are not UTF-8. -/
def decode? (bytes : List UInt8) : Option String :=
  String.fromUTF8? bytes.toByteArray

end RegisterMachine.Text.Utf8
