import RegisterMachine.Machine.Memory
import RegisterMachine.Machine.Registers
import RegisterMachine.Machine.Fault

namespace RegisterMachine

/-!
# Machines

A machine holds memory, registers and a program counter.  The program image is
at the start of memory; an instruction is run only from inside the image.  A
machine that has halted or faulted stays as it is.
-/

/-- Whether a machine can go on. -/
inductive Status where
  | running
  /-- Stopped by `HALT` or at the end of the image. -/
  | halted
  /-- Stopped by a fault. -/
  | faulted (fault : Fault)
  deriving Repr, DecidableEq

namespace Status

/-- Whether the machine has stopped for good. -/
def isTerminal : Status → Bool
  | .running => false
  | _ => true

/-- The fault that stopped the machine. -/
def fault? : Status → Option Fault
  | .faulted fault => some fault
  | _ => none

/-- Only a running machine has not stopped. -/
theorem isTerminal_eq_false_iff {status : Status} :
    status.isTerminal = false ↔ status = .running := by
  cases status <;> simp [isTerminal]

/-- A machine that is not running has stopped. -/
theorem isTerminal_of_ne_running {status : Status} (stopped : status ≠ .running) :
    status.isTerminal = true := by
  cases status with
  | running => exact (stopped rfl).elim
  | halted | faulted => rfl

/-- A status has a fault exactly if it is a stop by that fault. -/
theorem fault?_eq_some_iff {status : Status} {fault : Fault} :
    status.fault? = some fault ↔ status = .faulted fault := by
  cases status <;> simp [fault?]

end Status

/-- The state of a machine; `steps` counts started instructions modulo 2^64. -/
structure Machine where
  memory : Memory
  registers : Registers := {}
  pc : Nat := 0
  codeSize : Nat
  status : Status := .running
  steps : UInt64 := 0
  deriving Repr, DecidableEq

namespace Machine

/-- The memory size of a machine when no other is asked for. -/
def defaultMemorySize : Nat := 0xFFFF

/--
A machine with an image at the start of memory of a size.  That there is memory of
this size is up to the host, and is not asked here.
-/
def load (image : List UInt8) (memorySize : Nat) : Except ImageTooLarge Machine :=
  if image.length ≤ memorySize then
    .ok { memory := .ofImage image memorySize, codeSize := image.length }
  else
    .error ⟨image.length, memorySize⟩

/-- An image that fits is loaded. -/
theorem load_eq_ok {image : List UInt8} {memorySize : Nat}
    (fits : image.length ≤ memorySize) :
    load image memorySize =
      .ok { memory := .ofImage image memorySize, codeSize := image.length } := by
  rw [load, if_pos fits]

/-- The word at an address, as a program would load it. -/
def readWord (machine : Machine) (address : UInt64) : Except Fault UInt64 :=
  match machine.memory.word? address.toNat with
  | none => .error (.outOfBounds address machine.memory.size)
  | some value => .ok value

/-- The machine with a word put at an address, as a program would store it. -/
def writeWord (machine : Machine) (address value : UInt64) : Except Fault Machine :=
  match machine.memory.setWord? address.toNat value with
  | none => .error (.outOfBounds address machine.memory.size)
  | some memory => .ok { machine with memory := memory }

/-- The value of a register. -/
def readRegister (machine : Machine) (register : Register) : UInt64 :=
  machine.registers.get register

/-- The machine with one register changed. -/
def writeRegister (machine : Machine) (register : Register) (value : UInt64) :
    Machine :=
  { machine with registers := machine.registers.set register value }

end Machine

end RegisterMachine
