import RegisterMachine.Proofs.Machine.Step

namespace RegisterMachine

/-!
# Faulting steps are atomic

Every instruction does what can fail before it changes anything.  So a step
that ends in a fault leaves memory, registers, program counter and console as
they were.  Only the status records the fault, and the step counter tells
whether an instruction had been started.
-/

theorem ConsoleBuffer.eq_of_read_error
    {buffer after : ConsoleBuffer}
    {reason : String}
    (failed : Console.read buffer = (after, .error reason)) :
    after = buffer := by
  change buffer.get = (after, .error reason) at failed
  unfold ConsoleBuffer.get at failed
  split at failed
  · cases failed
    rfl
  · cases failed

/-- How many instructions a step has started when it ends in a fault. -/
def Fault.startedCount : Fault → UInt64
  | .undecodable (.unknownOpcode _ _) => 0
  | .undecodable (.truncated _ _) => 0
  | .outOfBounds _ _ => 1
  | .divisionByZero _ => 1
  | .consoleInput _ => 1

namespace Fault

theorem startedCount_undecodable
    (cause : Image.DecodeError) :
    (Fault.undecodable cause).startedCount = 0 := by
  cases cause <;> rfl

theorem toNat_startedCount_le_one
    (fault : Fault) :
    fault.startedCount.toNat ≤ 1 := by
  cases fault with
  | undecodable cause =>
      rw [startedCount_undecodable]
      exact Nat.zero_le 1
  | outOfBounds | divisionByZero | consoleInput =>
      exact Nat.le_refl 1

end Fault

namespace Machine

/-- An instruction that raises a fault has been started. -/
theorem Raises.startedCount_eq
    {Device : Type}
    [Console Device]
    {machine : Machine}
    {device after : Device}
    {instruction : Instruction}
    {fault : Fault}
    (raised : Raises machine device instruction fault after) :
    fault.startedCount = 1 := by
  cases raised with
  | load | store | divide | getc =>
      rfl

/-- A fault is raised by a started instruction and leaves a console buffer as it is. -/
theorem Raises.console_eq
    {machine : Machine}
    {console after : ConsoleBuffer}
    {instruction : Instruction}
    {fault : Fault}
    (raised : Raises machine console instruction fault after) :
    after = console ∧ fault.startedCount = 1 := by
  refine ⟨?_, raised.startedCount_eq⟩
  cases raised with
  | load | store | divide =>
      rfl
  | getc _ failed =>
      exact ConsoleBuffer.eq_of_read_error failed

/--
A step that faults changes no register, no byte of memory and nothing of the
console, stays at the faulting instruction and records the fault that it
reports.  The step is counted exactly when an instruction had been decoded.
-/
theorem step_faulted_atomic
    {machine : Machine}
    {console : ConsoleBuffer}
    {fault : Fault}
    (running : machine.status = .running)
    (fits : machine.codeSize ≤ machine.memory.size)
    (faulted : (machine.step console).1.machine.status = .faulted fault) :
    let after := (machine.step console).1.machine
    after.registers = machine.registers ∧
      after.memory = machine.memory ∧
      after.codeSize = machine.codeSize ∧
      after.pc = machine.pc ∧
      (machine.step console).2 = console ∧
      (machine.step console).1.events = [.faulted fault] ∧
      after.steps = machine.steps + fault.startedCount := by
  rcases step_cases running fits console with
      ⟨_, stepped⟩ | ⟨_, cause, _, _, stepped⟩ | ⟨_, instruction, _, dispatched⟩
  · rw [stepped] at faulted
    cases faulted
  · rw [stepped] at faulted
    cases faulted
    rw [stepped]
    rw [Fault.startedCount_undecodable, UInt64.add_zero]
    exact ⟨rfl, rfl, rfl, rfl, rfl, rfl, rfl⟩
  · rw [Machine.step, dispatched] at faulted ⊢
    rcases execute_cases { machine with steps := machine.steps + 1 } instruction
        (machine.pc + instruction.opcode.size) console with
        ⟨raised, stopped, raises⟩ | advances
    · rw [stopped] at faulted
      cases faulted
      obtain ⟨sameConsole, counted⟩ := raises.console_eq
      rw [stopped, sameConsole, counted]
      exact ⟨rfl, rfl, rfl, rfl, rfl, rfl, rfl⟩
    · -- An instruction that advances leaves the machine running or halted.
      rw [advances.status, running] at faulted
      split at faulted <;> cases faulted

/-- A division by zero with input waiting at the console is such a step. -/
theorem step_faulted_atomic_divide :
    let machine : Machine :=
      { memory := .ofImage [8, 0, 1, 2] 9, codeSize := 4, steps := 6 }
    let console : ConsoleBuffer := { input := [65], written := #[66] }
    machine.status = .running ∧
      machine.codeSize ≤ machine.memory.size ∧
      (machine.step console).1.machine.status = .faulted (.divisionByZero 0) ∧
      (machine.step console).1.machine.steps = 7 ∧
      (machine.step console).2 = console := by
  intro machine console
  have running : machine.status = .running := rfl
  have fits : machine.codeSize ≤ machine.memory.size := by decide
  have faulted :
      (machine.step console).1.machine.status =
        .faulted (.divisionByZero 0) := by decide
  have atomic := step_faulted_atomic running fits faulted
  exact ⟨running, fits, faulted, atomic.2.2.2.2.2.2, atomic.2.2.2.2.1⟩

end Machine

end RegisterMachine
