import RegisterMachine.Instruction
import RegisterMachine.Machine.Basic

namespace RegisterMachine

/-!
# Fetching instructions

The instruction at the program counter is read from memory with a cursor that
moves over each operand.  Before that, the operands must all be inside memory.
-/

/-- Reading from memory at a cursor, which moves past what is read. -/
abbrev Fetch := StateT Nat (Except Fault)

namespace Fetch

/-- Read one byte. -/
def byte (memory : Memory) : Fetch UInt8 := fun cursor =>
  match memory.byte? cursor with
  | none => .error (.outOfBounds (UInt64.ofNat cursor) memory.size)
  | some byte => .ok (byte, cursor + 1)

/-- Read a register operand: one byte, reduced to the register that it names. -/
def register (memory : Memory) : Fetch Register :=
  Register.ofByte <$> byte memory

/-- Read a word operand. -/
def word (memory : Memory) : Fetch UInt64 := fun cursor =>
  match memory.word? cursor with
  | none => .error (.outOfBounds (UInt64.ofNat cursor) memory.size)
  | some value => .ok (value, cursor + Word.byteCount)

/-- Read a register operand and a word operand. -/
def registerAndWord (memory : Memory) (make : Register → UInt64 → Instruction) :
    Fetch Instruction := do
  let first ← register memory
  let second ← word memory
  return make first second

/-- Read two register operands. -/
def twoRegisters (memory : Memory) (make : Register → Register → Instruction) :
    Fetch Instruction := do
  let first ← register memory
  let second ← register memory
  return make first second

/-- Read three register operands. -/
def threeRegisters (memory : Memory)
    (make : Register → Register → Register → Instruction) : Fetch Instruction := do
  let first ← register memory
  let second ← register memory
  let third ← register memory
  return make first second third

/-- Read the operands of an instruction. -/
def instruction (memory : Memory) : Opcode → Fetch Instruction
  | .halt => return .halt
  | .load => registerAndWord memory .load
  | .loadAddr => registerAndWord memory .loadAddr
  | .storeAddr => registerAndWord memory .storeAddr
  | .move => twoRegisters memory .move
  | .add => threeRegisters memory (.binary .add)
  | .sub => threeRegisters memory (.binary .sub)
  | .mul => threeRegisters memory (.binary .mul)
  | .div => threeRegisters memory (.binary .div)
  | .inc => .unary .inc <$> register memory
  | .dec => .unary .dec <$> register memory
  | .and => threeRegisters memory (.binary .and)
  | .not => .unary .not <$> register memory
  | .or => threeRegisters memory (.binary .or)
  | .xor => threeRegisters memory (.binary .xor)
  | .cmp => threeRegisters memory (.binary .cmp)
  | .jump => .jump <$> register memory
  | .jumpIfNz => twoRegisters memory (.jumpIf .nonzero)
  | .jumpIfZ => twoRegisters memory (.jumpIf .zero)
  | .loop => twoRegisters memory .loop
  | .trap => twoRegisters memory .trap
  | .print => .print <$> register memory

end Fetch

namespace Machine

/-- The instruction at the program counter, and the address after it. -/
def fetch (machine : Machine) : Except Fault (Instruction × Nat) :=
  match Fetch.byte machine.memory machine.pc with
  | .error fault => .error fault
  | .ok (code, cursor) =>
      match Opcode.ofCode? code with
      | none => .error (.undecodable (.unknownOpcode code machine.pc))
      | some opcode =>
          if cursor + opcode.operandSize ≤ machine.memory.size then
            Fetch.instruction machine.memory opcode cursor
          else
            .error (.undecodable (.truncated opcode.mnemonic machine.pc))

end Machine

end RegisterMachine
