import RegisterMachine.Machine.Fetch
import RegisterMachine.Proofs.Image.Codec

namespace RegisterMachine

/-!
# What is fetched

The machine reads operands with a cursor over its memory, an image is decoded
from a list of bytes.  Both see the same operands: whatever the decoder reads
from the bytes at the cursor, the machine fetches, and nothing else stops a
fetch inside memory than an unknown code byte or operands past the end.
-/

namespace Memory

/-- The bytes of memory from an address on. -/
def bytesFrom (memory : Memory) (address : Nat) : List UInt8 :=
  memory.bytes.toList.drop address

@[simp] theorem length_bytesFrom (memory : Memory) (address : Nat) :
    (memory.bytesFrom address).length = memory.size - address := by
  rw [bytesFrom, List.length_drop, Array.length_toList, size]

theorem drop_bytesFrom (memory : Memory) (address count : Nat) :
    (memory.bytesFrom address).drop count = memory.bytesFrom (address + count) :=
  List.drop_drop

/-- Where bytes are left, memory has not ended. -/
theorem lt_size_of_bytesFrom
    {memory : Memory}
    {address : Nat}
    {byte : UInt8}
    {tail : List UInt8}
    (shape : memory.bytesFrom address = byte :: tail) :
    address < memory.size := by
  have length := length_bytesFrom memory address
  rw [shape, List.length_cons] at length
  omega

theorem byte?_eq_head?_bytesFrom (memory : Memory) (address : Nat) :
    memory.byte? address = (memory.bytesFrom address).head? := by
  rw [bytesFrom, List.head?_drop, Array.getElem?_toList, byte?]

/-- The word at an address is made of the first eight bytes from there on. -/
theorem word?_eq_of_le
    {memory : Memory}
    {address : Nat}
    (inside : address + Word.byteCount ≤ memory.size) :
    memory.word? address =
      some (Word.ofBytes ((memory.bytesFrom address).take Word.byteCount)) := by
  rw [word?, if_pos inside, Array.toList_extract, List.extract_eq_take_drop,
    Nat.add_sub_cancel_left, bytesFrom]

end Memory

namespace Fetch

variable {memory : Memory} {cursor : Nat}

theorem bind_eq_of_ok
    {α β : Type}
    {first : Fetch α}
    {next : α → Fetch β}
    {value : α}
    {after : Nat}
    (fetched : first cursor = .ok (value, after)) :
    (first >>= next) cursor = next value after := by
  simp only [bind, StateT.bind, fetched, Except.bind]

theorem map_eq_of_ok
    {α β : Type}
    {first : Fetch α}
    {make : α → β}
    {value : α}
    {after : Nat}
    (fetched : first cursor = .ok (value, after)) :
    (make <$> first) cursor = .ok (make value, after) := by
  simp only [Functor.map, StateT.map, fetched, bind, Except.bind, pure,
    Except.pure]

/-- The register that the decoder reads at the cursor is fetched. -/
theorem register_of_readOperand?
    {operand : Operand}
    {rest : List UInt8}
    (read :
      Image.readOperand? .register (memory.bytesFrom cursor) =
        some (operand, rest)) :
    ∃ register, Fetch.register memory cursor = .ok (register, cursor + 1) ∧
      operand = .register register.toByte ∧
      rest = memory.bytesFrom (cursor + 1) := by
  cases shape : memory.bytesFrom cursor with
  | nil =>
      rw [shape] at read
      simp [Image.readOperand?] at read
  | cons byte tail =>
      rw [shape] at read
      simp only [Image.readOperand?, Option.some.injEq, Prod.mk.injEq] at read
      obtain ⟨rfl, rfl⟩ := read
      have stands : memory.byte? cursor = some byte := by
        rw [Memory.byte?_eq_head?_bytesFrom, shape, List.head?_cons]
      have fetched : Fetch.byte memory cursor = .ok (byte, cursor + 1) := by
        rw [Fetch.byte, stands]
      refine ⟨Register.ofByte byte, map_eq_of_ok fetched, rfl, ?_⟩
      rw [← Memory.drop_bytesFrom, shape, List.drop_one, List.tail_cons]

/-- The word that the decoder reads at the cursor is fetched. -/
theorem word_of_readOperand?
    {operand : Operand}
    {rest : List UInt8}
    (read :
      Image.readOperand? .word (memory.bytesFrom cursor) =
        some (operand, rest)) :
    ∃ value, Fetch.word memory cursor = .ok (value, cursor + Word.byteCount) ∧
      operand = .word value ∧
      rest = memory.bytesFrom (cursor + Word.byteCount) := by
  simp only [Image.readOperand?] at read
  split at read
  · cases read
  · next enough =>
      simp only [Option.some.injEq, Prod.mk.injEq] at read
      obtain ⟨rfl, rfl⟩ := read
      rw [Memory.length_bytesFrom] at enough
      have inside : cursor + Word.byteCount ≤ memory.size := by
        have positive : 0 < Word.byteCount := by decide
        omega
      refine ⟨_, ?_, rfl, Memory.drop_bytesFrom memory cursor _⟩
      rw [Fetch.word, Memory.word?_eq_of_le inside]

theorem oneRegister_of_readOperands?
    {operands : List Operand}
    {rest : List UInt8}
    (read :
      Image.readOperands? [.register] (memory.bytesFrom cursor) =
        some (operands, rest))
    (make : Register → Instruction) :
    ∃ first, (make <$> register memory) cursor = .ok (make first, cursor + 1) ∧
      operands = [.register first.toByte] := by
  obtain ⟨_, _, _, firstRead, endRead, rfl⟩ :=
    Image.readOperands?_cons_inv read
  cases endRead
  obtain ⟨first, fetched, rfl, _⟩ := register_of_readOperand? firstRead
  exact ⟨first, map_eq_of_ok fetched, rfl⟩

theorem registerAndWord_of_readOperands?
    {operands : List Operand}
    {rest : List UInt8}
    (read :
      Image.readOperands? [.register, .word] (memory.bytesFrom cursor) =
        some (operands, rest))
    (make : Register → UInt64 → Instruction) :
    ∃ first second,
      registerAndWord memory make cursor =
        .ok (make first second, cursor + 1 + Word.byteCount) ∧
      operands = [.register first.toByte, .word second] := by
  obtain ⟨_, _, _, firstRead, laterRead, rfl⟩ :=
    Image.readOperands?_cons_inv read
  obtain ⟨first, fetched, rfl, rfl⟩ := register_of_readOperand? firstRead
  obtain ⟨_, _, _, secondRead, endRead, rfl⟩ :=
    Image.readOperands?_cons_inv laterRead
  cases endRead
  obtain ⟨second, secondFetched, rfl, _⟩ := word_of_readOperand? secondRead
  refine ⟨first, second, ?_, rfl⟩
  rw [registerAndWord, bind_eq_of_ok fetched, bind_eq_of_ok secondFetched]
  rfl

theorem twoRegisters_of_readOperands?
    {operands : List Operand}
    {rest : List UInt8}
    (read :
      Image.readOperands? [.register, .register] (memory.bytesFrom cursor) =
        some (operands, rest))
    (make : Register → Register → Instruction) :
    ∃ first second,
      twoRegisters memory make cursor = .ok (make first second, cursor + 1 + 1) ∧
      operands = [.register first.toByte, .register second.toByte] := by
  obtain ⟨_, _, _, firstRead, laterRead, rfl⟩ :=
    Image.readOperands?_cons_inv read
  obtain ⟨first, fetched, rfl, rfl⟩ := register_of_readOperand? firstRead
  obtain ⟨_, _, _, secondRead, endRead, rfl⟩ :=
    Image.readOperands?_cons_inv laterRead
  cases endRead
  obtain ⟨second, secondFetched, rfl, _⟩ := register_of_readOperand? secondRead
  refine ⟨first, second, ?_, rfl⟩
  rw [twoRegisters, bind_eq_of_ok fetched, bind_eq_of_ok secondFetched]
  rfl

theorem threeRegisters_of_readOperands?
    {operands : List Operand}
    {rest : List UInt8}
    (read :
      Image.readOperands? [.register, .register, .register]
          (memory.bytesFrom cursor) =
        some (operands, rest))
    (make : Register → Register → Register → Instruction) :
    ∃ first second third,
      threeRegisters memory make cursor =
        .ok (make first second third, cursor + 1 + 1 + 1) ∧
      operands =
        [.register first.toByte, .register second.toByte,
          .register third.toByte] := by
  obtain ⟨_, _, _, firstRead, laterRead, rfl⟩ :=
    Image.readOperands?_cons_inv read
  obtain ⟨first, fetched, rfl, rfl⟩ := register_of_readOperand? firstRead
  obtain ⟨_, _, _, secondRead, lastRead, rfl⟩ :=
    Image.readOperands?_cons_inv laterRead
  obtain ⟨second, secondFetched, rfl, rfl⟩ := register_of_readOperand? secondRead
  obtain ⟨_, _, _, thirdRead, endRead, rfl⟩ :=
    Image.readOperands?_cons_inv lastRead
  cases endRead
  obtain ⟨third, thirdFetched, rfl, _⟩ := register_of_readOperand? thirdRead
  refine ⟨first, second, third, ?_, rfl⟩
  rw [threeRegisters, bind_eq_of_ok fetched, bind_eq_of_ok secondFetched,
    bind_eq_of_ok thirdFetched]
  rfl

/-- An instruction is fetched with the operands that the decoder reads. -/
theorem instruction_of_readOperands?
    {opcode : Opcode}
    {operands : List Operand}
    {rest : List UInt8}
    (read :
      Image.readOperands? opcode.layout (memory.bytesFrom cursor) =
        some (operands, rest)) :
    ∃ instruction : Instruction,
      Fetch.instruction memory opcode cursor =
        .ok (instruction, cursor + opcode.operandSize) ∧
      instruction.opcode = opcode ∧ instruction.operands = operands := by
  cases opcode with
  | halt =>
      cases read
      exact ⟨.halt, rfl, rfl, rfl⟩
  | load | loadAddr | storeAddr =>
      obtain ⟨first, second, fetched, rfl⟩ :=
        registerAndWord_of_readOperands? read _
      exact ⟨_, fetched, rfl, rfl⟩
  | inc | dec | not | jump | print =>
      obtain ⟨first, fetched, rfl⟩ := oneRegister_of_readOperands? read _
      exact ⟨_, fetched, rfl, rfl⟩
  | move | jumpIfNz | jumpIfZ | loop | trap =>
      obtain ⟨first, second, fetched, rfl⟩ := twoRegisters_of_readOperands? read _
      exact ⟨_, fetched, rfl, rfl⟩
  | add | sub | mul | div | and | or | xor | cmp =>
      obtain ⟨first, second, third, fetched, rfl⟩ :=
        threeRegisters_of_readOperands? read _
      exact ⟨_, fetched, rfl, rfl⟩

end Fetch

end RegisterMachine
