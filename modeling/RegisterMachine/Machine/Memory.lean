import RegisterMachine.Word

namespace RegisterMachine

/-!
# Memory

Memory is a fixed number of bytes, addressed from zero.  A word access needs
all its eight bytes inside the memory; there is no wrap around at the end.
-/

/-- The bytes of a machine's memory. -/
structure Memory where
  bytes : Array UInt8
  deriving Repr, DecidableEq

namespace Memory

/-- The most bytes that one block of memory can have, on any host. -/
def maximumSize : Nat := 0x7FFFFFFFFFFFFFFF

/-- Number of bytes. -/
def size (memory : Memory) : Nat := memory.bytes.size

/-- Memory of a size that starts with an image and is zero after it. -/
def ofImage (image : List UInt8) (size : Nat) : Memory :=
  ⟨image.toArray ++ Array.replicate (size - image.length) 0⟩

/-- The byte at an address. -/
def byte? (memory : Memory) (address : Nat) : Option UInt8 :=
  memory.bytes[address]?

/-- The word at an address. -/
def word? (memory : Memory) (address : Nat) : Option UInt64 :=
  if address + Word.byteCount ≤ memory.size then
    some (Word.ofBytes (memory.bytes.extract address (address + Word.byteCount)).toList)
  else
    none

/-- Bytes put one after another from an address on. -/
def putBytes (bytes : Array UInt8) (address : Nat) : List UInt8 → Array UInt8
  | [] => bytes
  | byte :: rest => putBytes (bytes.setIfInBounds address byte) (address + 1) rest

/-- The memory with a word put at an address. -/
def setWord? (memory : Memory) (address : Nat) (value : UInt64) : Option Memory :=
  if address + Word.byteCount ≤ memory.size then
    some ⟨putBytes memory.bytes address (Word.toBytes value)⟩
  else
    none

/-- Putting bytes keeps their number. -/
@[simp] theorem size_putBytes (bytes : Array UInt8) (address : Nat)
    (values : List UInt8) :
    (putBytes bytes address values).size = bytes.size := by
  induction values generalizing bytes address with
  | nil => rfl
  | cons byte rest inductionHypothesis =>
      simp [putBytes, inductionHypothesis]

/-- An image that fits makes memory of the size asked for. -/
theorem size_ofImage {image : List UInt8} {size : Nat}
    (fits : image.length ≤ size) :
    (ofImage image size).size = size := by
  simp only [Memory.size, ofImage, Array.size_append, List.size_toArray,
    Array.size_replicate]
  omega

/-- A word is read exactly where its eight bytes are inside the memory. -/
theorem isSome_word?_iff {memory : Memory} {address : Nat} :
    (memory.word? address).isSome ↔ address + 8 ≤ memory.size := by
  unfold word? Word.byteCount
  split <;> simp_all

/-- Writing a word keeps the size of the memory. -/
theorem size_of_setWord? {memory changed : Memory} {address : Nat} {value : UInt64}
    (written : memory.setWord? address value = some changed) :
    changed.size = memory.size := by
  unfold setWord? at written
  split at written
  · simp only [Option.some.injEq] at written
    simp [← written, Memory.size]
  · simp at written

end Memory

end RegisterMachine
