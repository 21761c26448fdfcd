import RegisterMachine.Machine.Fetch
import RegisterMachine.Machine.Console
import RegisterMachine.Machine.Event

namespace RegisterMachine

/-!
# Steps of a machine

A step runs one instruction.  What it asks of the console is data: a transition
is done, or writes bytes, or waits for a byte.  A step that faults leaves the
machine at the faulting instruction with memory and registers as they were.
-/

/-- A machine after a step, with the events to report in order. -/
structure Outcome where
  machine : Machine
  events : List Event
  deriving Repr, DecidableEq

/-- What a step asks of the console, and what follows. -/
inductive Transition where
  /-- Nothing is asked. -/
  | done (outcome : Outcome)
  /-- Bytes are to be written. -/
  | write (writer : Writer) (bytes : List UInt8) (outcome : Outcome)
  /-- A byte is to be read; the reason is handed on when there is none. -/
  | read (resume : Except String UInt8 → Outcome)

namespace Machine

/-- The machine stopped where it is by a fault. -/
def stop (machine : Machine) (fault : Fault) : Outcome :=
  ⟨{ machine with status := .faulted fault }, [.faulted fault]⟩

/-- The changed machine after an instruction that ran from the machine before. -/
def ran (before : Machine) (instruction : Instruction) (after : Machine) : Outcome :=
  ⟨after, [.executed before.pc instruction before.registers after.registers]⟩

/-- Run a trap on a data register. -/
def trap (machine : Machine) (instruction : Instruction) (next : Nat)
    (number data : Register) : Transition :=
  let value := machine.registers.get number
  match TrapCode.ofNumber? value with
  | some .putc =>
      .write .putc [(machine.registers.get data).toUInt8]
        (machine.ran instruction { machine with pc := next })
  | some .getc =>
      .read fun
        | .error reason => machine.stop (.consoleInput reason)
        | .ok byte =>
            machine.ran instruction
              { machine with
                pc := next
                registers := machine.registers.set data byte.toUInt64 }
  | none =>
      let outcome := machine.ran instruction { machine with pc := next }
      .done ⟨outcome.machine, .unknownTrap value :: outcome.events⟩

/-- Run an instruction that stands at the program counter and ends before `next`. -/
def execute (machine : Machine) (instruction : Instruction) (next : Nat) :
    Transition :=
  let registers := machine.registers
  let goOn (after : Machine) : Transition := .done (machine.ran instruction after)
  let assign (destination : Register) (value : UInt64) : Transition :=
    goOn { machine with pc := next, registers := registers.set destination value }
  match instruction with
  | .halt => goOn { machine with pc := next, status := .halted }
  | .load destination value => assign destination value
  | .loadAddr destination address =>
      match machine.readWord address with
      | .error fault => .done (machine.stop fault)
      | .ok value => assign destination value
  | .storeAddr source address =>
      match machine.writeWord address (registers.get source) with
      | .error fault => .done (machine.stop fault)
      | .ok after => goOn { after with pc := next }
  | .move destination source => assign destination (registers.get source)
  | .binary op destination left right =>
      match op.result? (registers.get left) (registers.get right) with
      | none => .done (machine.stop (.divisionByZero machine.pc))
      | some value => assign destination value
  | .unary op destination => assign destination (op.apply (registers.get destination))
  | .jump target => goOn { machine with pc := (registers.get target).toNat }
  | .jumpIf condition tested target =>
      if condition.holds (registers.get tested) then
        goOn { machine with pc := (registers.get target).toNat }
      else
        goOn { machine with pc := next }
  | .loop counter target =>
      if registers.get counter = 0 then
        goOn { machine with pc := next }
      else
        let counted := registers.set counter (registers.get counter - 1)
        goOn { machine with pc := (counted.get target).toNat, registers := counted }
  | .trap number data => machine.trap instruction next number data
  | .print source =>
      .write .print (decimalLine (registers.get source))
        (machine.ran instruction { machine with pc := next })

/-- The next transition of a machine. -/
def transition (machine : Machine) : Transition :=
  if machine.status.isTerminal then
    .done ⟨machine, []⟩
  else if machine.codeSize ≤ machine.pc then
    .done ⟨{ machine with status := .halted }, [.endOfCode]⟩
  else
    match machine.fetch with
    | .error fault => .done (machine.stop fault)
    | .ok (instruction, next) =>
        { machine with steps := machine.steps + 1 }.execute instruction next

end Machine

namespace Transition

/-- Carry a transition out on a console. -/
def carryOut {Device : Type} [Console Device] (transition : Transition)
    (device : Device) : Outcome × Device :=
  match transition with
  | .done outcome => (outcome, device)
  | .write writer bytes outcome =>
      match Console.write device bytes with
      | (device, none) => (outcome, device)
      | (device, some reason) =>
          (⟨outcome.machine, .unwritten writer reason :: outcome.events⟩, device)
  | .read resume =>
      match Console.read device with
      | (device, byte) => (resume byte, device)

end Transition

/-- Run one instruction of a machine on a console. -/
def Machine.step {Device : Type} [Console Device] (machine : Machine)
    (device : Device) : Outcome × Device :=
  machine.transition.carryOut device

/-- A machine that has stopped does nothing more. -/
theorem Machine.step_of_isTerminal {Device : Type} [Console Device]
    {machine : Machine} (terminal : machine.status.isTerminal = true)
    (device : Device) :
    machine.step device = (⟨machine, []⟩, device) := by
  simp [Machine.step, Machine.transition, terminal, Transition.carryOut]

end RegisterMachine
