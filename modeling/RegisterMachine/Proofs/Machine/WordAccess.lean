import RegisterMachine.Proofs.Machine.Effect
import RegisterMachine.Proofs.Machine.Logging

namespace RegisterMachine

/-!
# Reading and writing words

A word is read or written exactly where all its eight bytes are inside memory,
whatever its address is a multiple of.  Writing sets the bytes at the address and
no others, so that a word read afterwards is made of new bytes as far as it
overlaps the word written, and of old bytes beside it.
-/

namespace Memory

/-- The value of the byte at a position; zero outside memory. -/
def byteValue (memory : Memory) (position : Nat) : Nat :=
  (memory.byte? position).elim 0 UInt8.toNat

/-- The number that eight byte values denote, the least significant at the address. -/
def assembled (values : Nat → Nat) (address : Nat) : Nat :=
  Nat.ofDigits 256 ((List.range 8).map fun place => values (address + place))

/-- Byte values with the eight lowest bytes of a number laid over them at an address. -/
def overlaid (values : Nat → Nat) (address number position : Nat) : Nat :=
  if address ≤ position ∧ position < address + 8 then
    number / 256 ^ (position - address) % 256
  else
    values position

/-- A memory after another, with a number written over its bytes at an address. -/
structure Overwrites (before after : Memory) (address number : Nat) : Prop where
  size :
    after.size = before.size
  bytes :
    ∀ position,
      after.byteValue position =
        overlaid before.byteValue address number position

section Assembling

variable {values others : Nat → Nat} {address : Nat}

theorem assembled_congr
    (same : ∀ place < 8, values (address + place) = others (address + place)) :
    assembled values address = assembled others address := by
  refine congrArg (Nat.ofDigits 256) (List.map_congr_left ?_)
  intro place member
  exact same place (List.mem_range.mp member)

/-- The lowest digits of a number denote it below that power of the base. -/
theorem ofDigits_map_range (number count : Nat) :
    Nat.ofDigits 256 ((List.range count).map fun place => number / 256 ^ place % 256) =
      number % 256 ^ count := by
  induction count with
  | zero =>
      exact (Nat.mod_one number).symm
  | succ count inductionHypothesis =>
      rw [List.range_succ, List.map_append, List.map_singleton, Nat.ofDigits_append,
        inductionHypothesis, List.length_map, List.length_range,
        Nat.ofDigits_singleton, Nat.mod_pow_succ]

/-- A number laid over other bytes is read back at its own address. -/
theorem assembled_overlaid
    {number : Nat}
    (bound : number < 256 ^ 8) :
    assembled (overlaid values address number) address = number := by
  have lowest : assembled (overlaid values address number) address =
      Nat.ofDigits 256
        ((List.range 8).map fun place => number / 256 ^ place % 256) := by
    refine congrArg (Nat.ofDigits 256) (List.map_congr_left ?_)
    intro place member
    have small := List.mem_range.mp member
    rw [overlaid, if_pos ⟨Nat.le_add_right _ _, Nat.add_lt_add_left small _⟩,
      Nat.add_sub_cancel_left]
  rw [lowest, ofDigits_map_range, Nat.mod_eq_of_lt bound]

/-- Away from the number that is laid over them, bytes denote what they did. -/
theorem assembled_overlaid_of_apart
    {other number : Nat}
    (apart : other + 8 ≤ address ∨ address + 8 ≤ other) :
    assembled (overlaid values address number) other = assembled values other := by
  apply assembled_congr
  intro place small
  rw [overlaid, if_neg]
  omega

end Assembling

section Access

variable {memory after : Memory} {address : Nat}

/-- The number at an address is made of the values of the eight bytes there. -/
theorem number_eq_assembled
    (inside : address + 8 ≤ memory.size) :
    memory.number address = assembled memory.byteValue address := by
  refine congrArg (Nat.ofDigits 256) (List.ext_getElem? fun place => ?_)
  rw [List.getElem?_map, List.getElem?_map, List.getElem?_take]
  by_cases small : place < Word.byteCount
  · have isByte : (memory.bytesFrom address)[place]? =
        memory.byte? (address + place) := by
      rw [bytesFrom, List.getElem?_drop, Array.getElem?_toList, byte?]
    have within : address + place < memory.bytes.size :=
      Nat.lt_of_lt_of_le (Nat.add_lt_add_left small address) inside
    have isPlace : (List.range 8)[place]? = some place := List.getElem?_range small
    rw [if_pos small, isPlace, isByte, Option.map_some, byteValue, byte?,
      Array.getElem?_eq_getElem within]
    rfl
  · rw [if_neg small, List.getElem?_eq_none]
    · rfl
    · rw [List.length_range]
      exact Nat.le_of_not_lt small

/-- A word whose bytes are inside memory is read from them. -/
theorem exists_word?
    (inside : address + 8 ≤ memory.size) :
    ∃ word, memory.word? address = some word ∧
      word.toNat = assembled memory.byteValue address := by
  obtain ⟨word, read⟩ :=
    Option.isSome_iff_exists.mp (isSome_word?_iff.mpr inside)
  exact ⟨word, read, (toNat_of_word? read).trans (number_eq_assembled inside)⟩

theorem word?_eq_none
    (outside : memory.size < address + Word.byteCount) :
    memory.word? address = none := by
  rw [word?, if_neg (Nat.not_le.mpr outside)]

/-- Writing a word writes its value over the eight bytes at its address. -/
theorem overwrites_of_setWord?
    {value : UInt64}
    (written : memory.setWord? address value = some after) :
    Overwrites memory after address value.toNat := by
  obtain ⟨stored, untouched⟩ := byte?_of_setWord? written
  refine ⟨size_of_setWord? written, fun position => ?_⟩
  rw [overlaid]
  split
  · next within =>
      obtain ⟨place, rfl⟩ := Nat.exists_eq_add_of_le within.1
      rw [byteValue, stored place (Nat.lt_of_add_lt_add_left within.2),
        Nat.add_sub_cancel_left]
      exact UInt8.toNat_ofNat'
  · next notWithin =>
      rw [byteValue, untouched position (by omega), byteValue]

/-- A word inside memory can be written. -/
theorem exists_setWord?
    (inside : address + Word.byteCount ≤ memory.size)
    (value : UInt64) :
    ∃ after, memory.setWord? address value = some after := by
  rw [setWord?, if_pos inside]
  exact ⟨_, rfl⟩

theorem setWord?_eq_none
    (outside : memory.size < address + Word.byteCount)
    (value : UInt64) :
    memory.setWord? address value = none := by
  rw [setWord?, if_neg (Nat.not_le.mpr outside)]

/-- A word that is read after a write is made of new and old bytes. -/
theorem Overwrites.exists_word?
    {number other : Nat}
    (overwrites : Overwrites memory after address number)
    (inside : other + 8 ≤ memory.size) :
    ∃ word, after.word? other = some word ∧
      word.toNat = assembled (overlaid memory.byteValue address number) other := by
  obtain ⟨word, read, value⟩ :=
    Memory.exists_word? (Nat.le_trans inside (Nat.le_of_eq overwrites.size.symm))
  exact ⟨word, read, value.trans
    (assembled_congr fun place _ => overwrites.bytes (other + place))⟩

/-- The word that was written is read back. -/
theorem Overwrites.word?_self
    {value : UInt64}
    (overwrites : Overwrites memory after address value.toNat)
    (inside : address + 8 ≤ memory.size) :
    after.word? address = some value := by
  obtain ⟨word, read, number⟩ := overwrites.exists_word? inside
  rw [assembled_overlaid value.toNat_lt] at number
  rw [read, UInt64.toNat_inj.mp number]

/-- A word apart from the one that was written is read as before. -/
theorem Overwrites.word?_of_apart
    {number other : Nat}
    (overwrites : Overwrites memory after address number)
    (apart : other + 8 ≤ address ∨ address + 8 ≤ other) :
    after.word? other = memory.word? other := by
  by_cases inside : other + 8 ≤ memory.size
  · obtain ⟨word, read, value⟩ := overwrites.exists_word? inside
    obtain ⟨old, readBefore, oldValue⟩ := Memory.exists_word? inside
    rw [assembled_overlaid_of_apart apart, ← oldValue] at value
    rw [read, readBefore, UInt64.toNat_inj.mp value]
  · have outside : memory.size < other + 8 := Nat.lt_of_not_le inside
    rw [word?_eq_none outside,
      word?_eq_none (Nat.lt_of_le_of_lt (Nat.le_of_eq overwrites.size) outside)]

end Access

end Memory

namespace Machine

/--
Words are accessed exactly.  Where the eight bytes at an address are not all
inside memory, reading and writing there are refused with the address and the
size of memory, and a host that asked for the write has its machine unchanged.
Everywhere else both succeed: a word is the number that its bytes denote; a write
changes the eight bytes at its address and nothing else of the machine; it is
read back at its address, words apart from it are read as before, and a word
that overlaps it is made of the new and the old bytes.
-/
theorem word_access_exact
    (machine : Machine)
    (address : UInt64) :
    let size := machine.memory.size
    let refusal := Fault.outOfBounds address size
    let oldBytes := machine.memory.byteValue
    (size < address.toNat + 8 →
      machine.readWord address = .error refusal ∧
      ∀ value, machine.writeWord address value = .error refusal ∧
        ∀ (Device : Type) [Console Device] (device : Device)
          (journal : Log.Journal),
          (Call.writeWord address value).perform ⟨machine, device, journal⟩ =
            ⟨.refused refusal, ⟨machine, device, journal⟩⟩) ∧
    (address.toNat + 8 ≤ size →
      (∃ word, machine.readWord address = .ok word ∧
        word.toNat = Memory.assembled oldBytes address.toNat) ∧
      ∀ value, ∃ memory,
        let after := { machine with memory := memory }
        machine.writeWord address value = .ok after ∧
        memory.size = size ∧
        (∀ position, memory.byteValue position =
          if address.toNat ≤ position ∧ position < address.toNat + 8 then
            value.toNat / 256 ^ (position - address.toNat) % 256
          else
            oldBytes position) ∧
        after.readWord address = .ok value ∧
        ∀ other : UInt64,
          (other.toNat + 8 ≤ address.toNat ∨ address.toNat + 8 ≤ other.toNat →
            after.readWord other = machine.readWord other) ∧
          (other.toNat + 8 ≤ size →
            ∃ word, after.readWord other = .ok word ∧
              word.toNat = Memory.assembled
                (Memory.overlaid oldBytes address.toNat value.toNat)
                other.toNat)) := by
  intro size refusal oldBytes
  constructor
  · intro outside
    refine ⟨?_, fun value => ?_⟩
    · rw [readWord, Memory.word?_eq_none outside]
    · have refused : machine.writeWord address value = .error refusal := by
        rw [writeWord, Memory.setWord?_eq_none outside]
      refine ⟨refused, fun Device _ device journal => ?_⟩
      simp only [Call.perform, refused]
  · intro inside
    obtain ⟨word, read, number⟩ := Memory.exists_word? inside
    refine ⟨⟨word, by rw [readWord, read], number⟩, fun value => ?_⟩
    obtain ⟨memory, written⟩ := Memory.exists_setWord? inside value
    have overwrites := Memory.overwrites_of_setWord? written
    refine ⟨memory, by rw [writeWord, written], overwrites.size,
      overwrites.bytes, ?_, fun other => ⟨fun apart => ?_, fun within => ?_⟩⟩
    · rw [readWord, overwrites.word?_self inside]
    · rw [readWord, readWord, overwrites.word?_of_apart apart, overwrites.size]
    · obtain ⟨mixed, readMixed, made⟩ := overwrites.exists_word? within
      exact ⟨mixed, by rw [readWord, readMixed], made⟩

/-- Twelve bytes of memory that hold the numbers from one to twelve. -/
private def numbered : Machine :=
  { memory := ⟨#[1, 2, 3, 4, 5, 6, 7, 8, 9, 10, 11, 12]⟩, codeSize := 0 }

/--
An address at the end of the address space does not wrap around.  A word that
begins two bytes before the one written ends in six of its bytes.
-/
theorem word_access_exact_numbered :
    numbered.readWord 0xFFFFFFFFFFFFFFFC =
        .error (.outOfBounds 0xFFFFFFFFFFFFFFFC 12) ∧
      numbered.readWord 1 = .ok 0x0908070605040302 ∧
      ∃ memory,
        let after := { numbered with memory := memory }
        numbered.writeWord 3 0xA8A7A6A5A4A3A2A1 = .ok after ∧
          after.readWord 3 = .ok 0xA8A7A6A5A4A3A2A1 ∧
          after.readWord 1 = .ok 0xA6A5A4A3A2A10302 := by
  obtain ⟨refused, _⟩ :=
    (word_access_exact numbered 0xFFFFFFFFFFFFFFFC).1 (by decide)
  obtain ⟨_, writes⟩ := (word_access_exact numbered 3).2 (by decide)
  obtain ⟨memory, written, _, _, readBack, readOther⟩ := writes 0xA8A7A6A5A4A3A2A1
  obtain ⟨word, read, number⟩ := (readOther 1).2 (by decide)
  have mixed : word = 0xA6A5A4A3A2A10302 :=
    UInt64.toNat_inj.mp (number.trans (by decide +kernel))
  exact ⟨refused, rfl, memory, written, readBack, read.trans (congrArg _ mixed)⟩

end Machine

end RegisterMachine
