import RegisterMachine.Opcode

namespace RegisterMachine

/-!
# Instructions with their operands

An instruction as the machine runs it: operand registers are reduced to actual
registers, and instructions that differ only in the function that they apply
share a constructor.  `opcode` and `operands` give the catalog view; the
operands always fit the layout of the opcode (`map_kind_operands`).
-/

/-- The functions of two source registers. -/
inductive BinaryOp where
  | add | sub | mul | div | and | or | xor | cmp
  deriving Repr, DecidableEq

namespace BinaryOp

/-- The value of the function modulo 2^64, or `none` for a division by zero. -/
def result? (op : BinaryOp) (left right : UInt64) : Option UInt64 :=
  match op with
  | .add => some (left + right)
  | .sub => some (left - right)
  | .mul => some (left * right)
  | .div => if right = 0 then none else some (left / right)
  | .and => some (left &&& right)
  | .or => some (left ||| right)
  | .xor => some (left ^^^ right)
  | .cmp => some (if left = right then 1 else 0)

/-- The catalog row of the function. -/
def opcode : BinaryOp → Opcode
  | .add => .add
  | .sub => .sub
  | .mul => .mul
  | .div => .div
  | .and => .and
  | .or => .or
  | .xor => .xor
  | .cmp => .cmp

/-- The sign that the trace shows between the sources. -/
def symbol : BinaryOp → String
  | .add => "+"
  | .sub => "-"
  | .mul => "*"
  | .div => "/"
  | .and => "&"
  | .or => "|"
  | .xor => "^"
  | .cmp => "=="

/-- Only a division by zero has no value. -/
theorem result?_eq_none_iff {op : BinaryOp} {left right : UInt64} :
    op.result? left right = none ↔ op = .div ∧ right = 0 := by
  cases op <;> simp [result?]

end BinaryOp

/-- The functions of one register that replace its value. -/
inductive UnaryOp where
  | inc | dec | not
  deriving Repr, DecidableEq

namespace UnaryOp

/-- The value of the function modulo 2^64. -/
def apply (op : UnaryOp) (value : UInt64) : UInt64 :=
  match op with
  | .inc => value + 1
  | .dec => value - 1
  | .not => if value = 0 then 1 else 0

/-- The catalog row of the function. -/
def opcode : UnaryOp → Opcode
  | .inc => .inc
  | .dec => .dec
  | .not => .not

end UnaryOp

/-- The condition of a conditional jump on its register. -/
inductive Condition where
  | nonzero | zero
  deriving Repr, DecidableEq

namespace Condition

/-- Whether a register value meets the condition. -/
def holds : Condition → UInt64 → Bool
  | .nonzero, value => value != 0
  | .zero, value => value == 0

/-- The catalog row of the jump under this condition. -/
def opcode : Condition → Opcode
  | .nonzero => .jumpIfNz
  | .zero => .jumpIfZ

end Condition

/-- One instruction with its operands. -/
inductive Instruction where
  | halt
  | load (destination : Register) (value : UInt64)
  | loadAddr (destination : Register) (address : UInt64)
  | storeAddr (source : Register) (address : UInt64)
  | move (destination source : Register)
  | binary (op : BinaryOp) (destination left right : Register)
  | unary (op : UnaryOp) (destination : Register)
  | jump (target : Register)
  | jumpIf (condition : Condition) (tested target : Register)
  | loop (counter target : Register)
  | trap (number data : Register)
  | print (source : Register)
  deriving Repr, DecidableEq

namespace Instruction

/-- The catalog row of the instruction. -/
def opcode : Instruction → Opcode
  | .halt => .halt
  | .load _ _ => .load
  | .loadAddr _ _ => .loadAddr
  | .storeAddr _ _ => .storeAddr
  | .move _ _ => .move
  | .binary op _ _ _ => op.opcode
  | .unary op _ => op.opcode
  | .jump _ => .jump
  | .jumpIf condition _ _ => condition.opcode
  | .loop _ _ => .loop
  | .trap _ _ => .trap
  | .print _ => .print

/-- The operands of the instruction, in the order of encoding. -/
def operands : Instruction → List Operand
  | .halt => []
  | .load destination value => [.register destination.toByte, .word value]
  | .loadAddr destination address => [.register destination.toByte, .word address]
  | .storeAddr source address => [.register source.toByte, .word address]
  | .move destination source =>
      [.register destination.toByte, .register source.toByte]
  | .binary _ destination left right =>
      [.register destination.toByte, .register left.toByte, .register right.toByte]
  | .unary _ destination => [.register destination.toByte]
  | .jump target => [.register target.toByte]
  | .jumpIf _ tested target => [.register tested.toByte, .register target.toByte]
  | .loop counter target => [.register counter.toByte, .register target.toByte]
  | .trap number data => [.register number.toByte, .register data.toByte]
  | .print source => [.register source.toByte]

/-- The operands of an instruction fit the layout of its catalog row. -/
theorem map_kind_operands (instruction : Instruction) :
    instruction.operands.map Operand.kind = instruction.opcode.layout := by
  cases instruction with
  | binary op destination left right => cases op <;> rfl
  | unary op destination => cases op <;> rfl
  | jumpIf condition tested target => cases condition <;> rfl
  | _ => rfl

/-- An instruction is known from its catalog row and its operands. -/
theorem eq_of_opcode_of_operands {first second : Instruction}
    (sameOpcode : first.opcode = second.opcode)
    (sameOperands : first.operands = second.operands) : first = second := by
  rcases first with _ | _ | _ | _ | _ | ⟨⟨⟩, _, _, _⟩ | ⟨⟨⟩, _⟩ | _ |
      ⟨⟨⟩, _, _⟩ | _ | _ | _ <;>
    rcases second with _ | _ | _ | _ | _ | ⟨⟨⟩, _, _, _⟩ | ⟨⟨⟩, _⟩ | _ |
      ⟨⟨⟩, _, _⟩ | _ | _ | _ <;>
    -- Two instructions with one row are alike up to their operands.
    cases sameOpcode <;>
    simp_all only [operands, List.cons.injEq, Operand.register.injEq,
      Operand.word.injEq, Register.toByte_inj, and_true]

end Instruction

end RegisterMachine
