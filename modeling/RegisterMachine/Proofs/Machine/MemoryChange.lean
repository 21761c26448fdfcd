import RegisterMachine.Machine.Execution
import RegisterMachine.Proofs.Machine.Step

namespace RegisterMachine

/-!
# Machines with a changed memory

Two machines that differ in their memory only do the same as long as they fetch
the same instructions and agree on the words that these load and store.  A
change of the memory then commutes with a step (`Execution.step_changeMemory`):
registers, program counter, status, step counter, events and console do not
notice it.
-/

/-- The address that an instruction loads from. -/
def Instruction.load? : Instruction → Option UInt64
  | .loadAddr _ address => some address
  | _ => none

/-- The machine with its memory changed. -/
def Machine.changeMemory (change : Memory → Memory) (machine : Machine) : Machine :=
  { machine with memory := change machine.memory }

/-- The outcome with the memory changed. -/
def Outcome.changeMemory (change : Memory → Memory) (outcome : Outcome) : Outcome :=
  ⟨outcome.machine.changeMemory change, outcome.events⟩

/-- The transition with the memory changed after it. -/
def Transition.changeMemory (change : Memory → Memory) : Transition → Transition
  | .done outcome => .done (outcome.changeMemory change)
  | .write writer bytes outcome =>
      .write writer bytes (outcome.changeMemory change)
  | .read resume => .read fun byte => (resume byte).changeMemory change

/-- The execution with the memory of its machine changed. -/
def Execution.changeMemory {Device : Type} (change : Memory → Memory)
    (execution : Execution Device) : Execution Device :=
  { execution with machine := execution.machine.changeMemory change }

theorem Transition.carryOut_changeMemory
    {Device : Type}
    [Console Device]
    (change : Memory → Memory)
    (transition : Transition)
    (device : Device) :
    (transition.changeMemory change).carryOut device =
      ((transition.carryOut device).1.changeMemory change,
        (transition.carryOut device).2) := by
  cases transition with
  | done | read =>
      rfl
  | write writer bytes outcome =>
      simp only [changeMemory, carryOut]
      split <;> rfl

namespace Machine

variable {change : Memory → Memory} {machine : Machine}

/--
The change goes unnoticed by an instruction: a word that it loads is the same,
and a word that it stores is stored in the changed memory as in the memory.
-/
structure Unnoticed (change : Memory → Memory) (machine : Machine)
    (instruction : Instruction) : Prop where
  load :
    ∀ address, instruction.load? = some address →
      (machine.changeMemory change).readWord address = machine.readWord address
  store :
    ∀ address value,
      instruction.store? machine.registers = some (address, value) →
        (machine.changeMemory change).writeWord address value =
          (machine.writeWord address value).map (Machine.changeMemory change)

theorem Unnoticed.of_no_access
    {instruction : Instruction}
    (loadsNothing : instruction.load? = none)
    (storesNothing : instruction.store? machine.registers = none) :
    Unnoticed change machine instruction := by
  constructor
  · intro address loads
    rw [loadsNothing] at loads
    cases loads
  · intro address value stores
    rw [storesNothing] at stores
    cases stores

/-- Executing an instruction commutes with a change that it does not notice. -/
theorem execute_changeMemory
    {instruction : Instruction}
    (unnoticed : Unnoticed change machine instruction)
    (next : Nat) :
    (machine.changeMemory change).execute instruction next =
      (machine.execute instruction next).changeMemory change := by
  have sameRegisters :
      (machine.changeMemory change).registers = machine.registers :=
    rfl
  cases instruction with
  | halt | load | move | unary | jump | print =>
      rfl
  -- Only these two look at memory; the others branch on registers.
  | loadAddr destination address =>
      simp only [execute, unnoticed.load address rfl]
      split <;> rfl
  | storeAddr source address =>
      simp only [execute, sameRegisters,
        unnoticed.store address (machine.registers.get source) rfl]
      cases machine.writeWord address (machine.registers.get source) <;> rfl
  | binary | jumpIf | loop =>
      simp only [execute, sameRegisters]
      split <;> rfl
  | trap number data =>
      simp only [execute, trap, sameRegisters]
      split
      · rfl
      · simp only [Transition.changeMemory]
        congr 1
        funext byte
        cases byte <;> rfl
      · rfl

/-- A transition commutes with a change that its instruction does not notice. -/
theorem transition_changeMemory
    (sameFetch :
      machine.status = .running → machine.pc < machine.codeSize →
        (machine.changeMemory change).fetch = machine.fetch)
    (unnoticed :
      ∀ instruction, machine.Dispatches instruction →
        Unnoticed change { machine with steps := machine.steps + 1 }
          instruction) :
    (machine.changeMemory change).transition =
      machine.transition.changeMemory change := by
  rcases transition_cases machine with
      ⟨terminal, stays⟩ | ⟨running, ended, halts⟩ |
      ⟨running, inCode, fault, failed, stops⟩ |
      ⟨running, inCode, instruction, next, fetched, executes⟩
  · rw [stays]
    exact transition_of_isTerminal terminal
  · rw [halts]
    exact transition_of_ended running ended
  · rw [stops]
    exact transition_of_fetch_error running inCode
      ((sameFetch running inCode).trans failed)
  · have dispatches : machine.Dispatches instruction :=
      ⟨running, inCode, next, fetched⟩
    rw [executes, ← execute_changeMemory (unnoticed instruction dispatches)]
    exact transition_of_fetch running inCode
      ((sameFetch running inCode).trans fetched)

end Machine

/-- A step commutes with a change of the memory that its instruction does not notice. -/
theorem Execution.step_changeMemory
    {Device : Type}
    [Console Device]
    {change : Memory → Memory}
    {execution : Execution Device}
    (same :
      (execution.machine.changeMemory change).transition =
        execution.machine.transition.changeMemory change) :
    (execution.changeMemory change).step = execution.step.changeMemory change := by
  have stepped :
      (execution.machine.changeMemory change).step execution.device =
        ((execution.machine.step execution.device).1.changeMemory change,
          (execution.machine.step execution.device).2) := by
    rw [Machine.step, same, Transition.carryOut_changeMemory]
    rfl
  simp only [changeMemory, step, stepped]
  rfl

end RegisterMachine
