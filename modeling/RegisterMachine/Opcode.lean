import RegisterMachine.Operand

namespace RegisterMachine

/-!
# The instruction catalog

Every instruction of the machine has one row here: its code byte, its mnemonic
with the accepted aliases, and the layout of its operands.  The assembler, the
decoder and the machine read the encoding from these rows only.
-/

/-- The instructions of the machine, without their operands. -/
inductive Opcode where
  /-- `HALT`: stop. -/
  | halt
  /-- `LOAD rd, value`: `rd` takes the immediate value. -/
  | load
  /-- `LOAD_ADDR rd, address`: `rd` takes the word at the address. -/
  | loadAddr
  /-- `STORE_ADDR rs, address`: the word at the address takes `rs`. -/
  | storeAddr
  /-- `MOVE rd, rs`: `rd` takes `rs`. -/
  | move
  /-- `ADD rd, rs1, rs2`: sum, modulo 2^64. -/
  | add
  /-- `SUB rd, rs1, rs2`: difference, modulo 2^64. -/
  | sub
  /-- `MUL rd, rs1, rs2`: product, modulo 2^64. -/
  | mul
  /-- `DIV rd, rs1, rs2`: quotient; a zero divisor is a fault. -/
  | div
  /-- `INC rd`: one more, modulo 2^64. -/
  | inc
  /-- `DEC rd`: one less, modulo 2^64. -/
  | dec
  /-- `AND rd, rs1, rs2`: bitwise and. -/
  | and
  /-- `NOT rd`: one when `rd` is zero, otherwise zero. -/
  | not
  /-- `OR rd, rs1, rs2`: bitwise or. -/
  | or
  /-- `XOR rd, rs1, rs2`: bitwise exclusive or. -/
  | xor
  /-- `CMP rd, rs1, rs2`: one when the sources are equal, otherwise zero. -/
  | cmp
  /-- `JUMP ra`: continue at the address in `ra`. -/
  | jump
  /-- `JUMP_IF_NZ rc, ra`: jump when `rc` is not zero. -/
  | jumpIfNz
  /-- `JUMP_IF_Z rc, ra`: jump when `rc` is zero. -/
  | jumpIfZ
  /-- `LOOP rc, ra`: when `rc` is not zero, take one from it and jump. -/
  | loop
  /-- `TRAP rn, rd`: run the console trap whose number is in `rn` on `rd`. -/
  | trap
  /-- `PRINT rs`: write `rs` in decimal on a line of its own. -/
  | print
  deriving Repr, DecidableEq

namespace Opcode

/-- Every instruction, in the order of the code bytes. -/
def all : List Opcode :=
  [.halt, .load, .loadAddr, .storeAddr, .move, .add, .sub, .mul, .div, .inc,
    .dec, .and, .not, .or, .xor, .cmp, .jump, .jumpIfNz, .jumpIfZ, .loop,
    .trap, .print]

/-- The byte that an encoded instruction starts with. -/
def code : Opcode → UInt8
  | .halt => 0
  | .load => 1
  | .loadAddr => 2
  | .storeAddr => 3
  | .move => 4
  | .add => 5
  | .sub => 6
  | .mul => 7
  | .div => 8
  | .inc => 9
  | .dec => 10
  | .and => 11
  | .not => 12
  | .or => 13
  | .xor => 14
  | .cmp => 15
  | .jump => 16
  | .jumpIfNz => 17
  | .jumpIfZ => 18
  | .loop => 19
  | .trap => 20
  | .print => 21

/-- The name of the instruction in assembly text. -/
def mnemonic : Opcode → String
  | .halt => "HALT"
  | .load => "LOAD"
  | .loadAddr => "LOAD_ADDR"
  | .storeAddr => "STORE_ADDR"
  | .move => "MOVE"
  | .add => "ADD"
  | .sub => "SUB"
  | .mul => "MUL"
  | .div => "DIV"
  | .inc => "INC"
  | .dec => "DEC"
  | .and => "AND"
  | .not => "NOT"
  | .or => "OR"
  | .xor => "XOR"
  | .cmp => "CMP"
  | .jump => "JUMP"
  | .jumpIfNz => "JUMP_IF_NZ"
  | .jumpIfZ => "JUMP_IF_Z"
  | .loop => "LOOP"
  | .trap => "TRAP"
  | .print => "PRINT"

/-- Further names that the assembler accepts. -/
def aliases : Opcode → List String
  | .halt => ["HLT"]
  | .load => ["LD"]
  | .loadAddr => ["LA"]
  | .storeAddr => ["SA"]
  | .move => ["MOV"]
  | .jump => ["JMP"]
  | .jumpIfNz => ["JNZ"]
  | .jumpIfZ => ["JZ"]
  | .print => ["PRT"]
  | _ => []

/-- The kinds of the operands, in the order of encoding. -/
def layout : Opcode → List Operand.Kind
  | .halt => []
  | .load | .loadAddr | .storeAddr => [.register, .word]
  | .inc | .dec | .not | .jump | .print => [.register]
  | .move | .jumpIfNz | .jumpIfZ | .loop | .trap => [.register, .register]
  | .add | .sub | .mul | .div | .and | .or | .xor | .cmp =>
      [.register, .register, .register]

/-- Encoded size of all operands together, in bytes. -/
def operandSize (opcode : Opcode) : Nat :=
  Operand.Kind.totalSize opcode.layout

/-- Encoded size of the whole instruction: its code byte and its operands. -/
def size (opcode : Opcode) : Nat :=
  1 + opcode.operandSize

/-- The instruction with a code byte, if there is one. -/
def ofCode? (code : UInt8) : Option Opcode :=
  all.find? fun opcode => opcode.code == code

/-- Every name of an instruction: the mnemonic and the aliases. -/
def names (opcode : Opcode) : List String :=
  opcode.mnemonic :: opcode.aliases

/-- The instruction with a name, where an ASCII letter matches in either case. -/
def ofName? (name : String) : Option Opcode :=
  all.find? fun opcode => opcode.names.contains (name.map Char.toUpper)

/-- The catalog lists every instruction. -/
theorem mem_all (opcode : Opcode) : opcode ∈ all := by
  cases opcode <;> decide

/-- An instruction is found by its own code byte. -/
@[simp] theorem ofCode?_code (opcode : Opcode) :
    ofCode? opcode.code = some opcode := by
  cases opcode <;> rfl

/-- Whatever is found by a code byte has that code byte. -/
theorem code_of_ofCode? {code : UInt8} {opcode : Opcode}
    (found : ofCode? code = some opcode) :
    opcode.code = code := by
  have test := List.find?_some found
  simpa using test

/-- An instruction takes at least its code byte. -/
theorem size_pos (opcode : Opcode) : 0 < opcode.size := by
  unfold size
  omega

end Opcode

end RegisterMachine
