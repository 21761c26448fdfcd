import RegisterMachine.Instruction
import RegisterMachine.Machine.Registers
import RegisterMachine.Machine.Trap
import RegisterMachine.Machine.Fault
import RegisterMachine.Log.Record

namespace RegisterMachine

/-!
# Events of a run

A machine reports what it does as events.  Each has a level and a message: an
instruction that ran is traced with the values that it read and wrote.
-/

/-- The services that write to the console. -/
inductive Writer where
  | putc
  | print
  deriving Repr, DecidableEq

/-- The name of a writing service. -/
def Writer.name : Writer → String
  | .putc => "PUTC"
  | .print => "PRINT"

/-- Something that a machine reports. -/
inductive Event where
  /-- The program counter left the image. -/
  | endOfCode
  /-- An instruction ran without a fault. -/
  | executed (position : Nat) (instruction : Instruction) (before after : Registers)
  /-- A trap number has no service. -/
  | unknownTrap (number : UInt64)
  /-- Bytes could not be written to the console. -/
  | unwritten (writer : Writer) (reason : String)
  /-- The machine stopped with a fault. -/
  | faulted (fault : Fault)
  deriving Repr, DecidableEq

namespace Event

/-- The level that an event is reported at. -/
def level : Event → Log.Level
  | .endOfCode | .executed _ _ _ _ => .trace
  | .unknownTrap _ => .warn
  | .unwritten _ _ | .faulted _ => .error

/-- A register as shown in a trace. -/
def shown (register : Register) : String :=
  "R" ++ Nat.repr register.val

/-- A word as shown in a trace. -/
def decimal (value : UInt64) : String :=
  Nat.repr value.toNat

/-- An address as shown in a trace. -/
def bracketed (address : UInt64) : String :=
  "[0x" ++ Text.Numeral.hex 1 address.toNat ++ "]"

/-- The application of a function to two registers as shown in a trace. -/
def applied (op : BinaryOp) (left right : Register) : String :=
  let text := shown left ++ " " ++ op.symbol ++ " " ++ shown right
  if op = .cmp then "(" ++ text ++ ")" else text

/-- The trace of a conditional jump: the test that came out, and the target if taken. -/
def jumpTrace (condition : Condition) (tested : Register) (value target : UInt64) :
    String :=
  shown tested ++ (if value = 0 then " == 0" else " != 0") ++
    (if condition.holds value then " -> " ++ decimal target else ", fall through")

/-- The trace of a loop instruction: the new counter and the target if taken. -/
def loopTrace (counter : Register) (value left target : UInt64) : String :=
  if value = 0 then
    shown counter ++ " == 0, fall through"
  else
    shown counter ++ " = " ++ decimal left ++ " -> " ++ decimal target

/-- The trace of a trap: the byte read in hexadecimal, or else the data at hand. -/
def trapTrace (number : UInt64) (data : Register) (before after : UInt64) : String :=
  shown data ++ " = " ++
    if TrapCode.ofNumber? number = some .getc then
      "0x" ++ Text.Numeral.hex 2 after.toNat
    else
      decimal before

/-- The trace of an instruction between the registers before and after it. -/
def trace (position : Nat) (instruction : Instruction) (before after : Registers) :
    String :=
  let name := instruction.opcode.mnemonic
  match instruction with
  | .halt => name ++ ": program terminated at " ++ Nat.repr position
  | .load destination value =>
      name ++ ": " ++ shown destination ++ " = " ++ decimal value
  | .loadAddr destination address =>
      name ++ ": " ++ shown destination ++ " = " ++ bracketed address ++ " = " ++
        decimal (after.get destination)
  | .storeAddr source address =>
      name ++ ": " ++ bracketed address ++ " = " ++ shown source ++ " = " ++
        decimal (before.get source)
  | .move destination source =>
      name ++ ": " ++ shown destination ++ " = " ++ shown source ++ " = " ++
        decimal (before.get source)
  | .binary op destination left right =>
      name ++ ": " ++ shown destination ++ " = " ++ applied op left right ++ " = " ++
        decimal (after.get destination)
  | .unary _ destination =>
      name ++ ": " ++ shown destination ++ " = " ++ decimal (after.get destination)
  | .jump target =>
      name ++ ": " ++ shown target ++ " -> " ++ decimal (before.get target)
  | .jumpIf condition tested target =>
      name ++ ": " ++
        jumpTrace condition tested (before.get tested) (before.get target)
  | .loop counter target =>
      name ++ ": " ++
        loopTrace counter (before.get counter) (after.get counter) (after.get target)
  | .trap number data =>
      name ++ " " ++ decimal (before.get number) ++ ": " ++
        trapTrace (before.get number) data (before.get data) (after.get data)
  | .print source =>
      name ++ ": " ++ shown source ++ " = " ++ decimal (before.get source)

/-- The message of an event. -/
def message : Event → String
  | .endOfCode => "HALT: reached end of program"
  | .executed position instruction before after =>
      trace position instruction before after
  | .unknownTrap number =>
      "TRAP: unknown trap number " ++ decimal number ++ ", ignored"
  | .unwritten writer reason =>
      writer.name ++ ": failed to write to stdout: " ++ reason
  | .faulted fault => fault.message

/-- The log record of an event. -/
def record (event : Event) : Log.Record :=
  ⟨event.level, event.message⟩

/-- Write an event to a journal; its message is made only when it is kept. -/
def writeTo (event : Event) (journal : Log.Journal) : Log.Journal :=
  journal.write event.level fun _ => event.message

end Event

end RegisterMachine
