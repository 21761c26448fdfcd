namespace RegisterMachine.Word

/-!
# Little-endian words

A word is a 64-bit unsigned value.  In a program image and in memory it takes
eight bytes, least significant first.
-/

/-- Number of bytes that a word takes. -/
def byteCount : Nat := 8

/-- The `count` least significant bytes of a value, least significant first. -/
def lowBytes : Nat → UInt64 → List UInt8
  | 0, _ => []
  | count + 1, value => value.toUInt8 :: lowBytes count (value / 256)

/-- The eight bytes of a word, least significant first. -/
def toBytes (value : UInt64) : List UInt8 :=
  lowBytes byteCount value

/-- The word whose bytes are given, least significant first. -/
def ofBytes (bytes : List UInt8) : UInt64 :=
  bytes.foldr (fun byte high => high * 256 + byte.toUInt64) 0

/-- The number of low bytes is the number asked for. -/
@[simp] theorem length_lowBytes (count : Nat) (value : UInt64) :
    (lowBytes count value).length = count := by
  induction count generalizing value with
  | zero => rfl
  | succ count inductionHypothesis =>
      simp [lowBytes, inductionHypothesis]

/-- A word has eight bytes. -/
@[simp] theorem length_toBytes (value : UInt64) :
    (toBytes value).length = byteCount :=
  length_lowBytes byteCount value

end RegisterMachine.Word
