import Mathlib.Data.Set.Finite.Lattice
import Mathlib.Order.Interval.Set.Nat
import RegisterMachine.Proofs.Machine.Runs

namespace RegisterMachine

/-!
# Only taken jumps keep a machine running

A step that takes no jump ends the run or goes forward in the image, whatever
the instruction is and whatever has been stored over it (`Machine.step_progress`).
So between two taken jumps there are at most as many steps as the image has
bytes, and a run with finitely many taken jumps comes to an end.
-/

namespace Machine

/-- The target of the jump that the next step takes, if it takes one. -/
def takenJump? (machine : Machine) : Option UInt64 :=
  machine.dispatched?.bind fun instruction =>
    instruction.jumpTarget? machine.registers

theorem takenJump?_eq_some_iff
    {machine : Machine}
    {target : UInt64} :
    machine.takenJump? = some target ↔
      ∃ instruction, machine.Dispatches instruction ∧
        instruction.jumpTarget? machine.registers = some target := by
  simp only [takenJump?, Option.bind_eq_some_iff, dispatched?_eq_some_iff]

theorem jumpTarget?_of_takenJump?_eq_none
    {machine : Machine}
    {instruction : Instruction}
    (noJump : machine.takenJump? = none)
    (dispatches : machine.Dispatches instruction) :
    instruction.jumpTarget? machine.registers = none := by
  refine Option.eq_none_iff_forall_ne_some.mpr fun target jumps => ?_
  rw [takenJump?_eq_some_iff.mpr ⟨instruction, dispatches, jumps⟩] at noJump
  cases noJump

/-- A step without a taken jump ends the run or goes forward inside the image. -/
theorem step_progress
    {Device : Type}
    [Console Device]
    {machine : Machine}
    (noJump : machine.takenJump? = none)
    (device : Device) :
    let after := (machine.step device).1.machine
    after.status.isTerminal = true ∨
      (machine.pc < machine.codeSize ∧ machine.pc < after.pc ∧
        after.codeSize = machine.codeSize) := by
  intro after
  rcases transition_cases machine with
      ⟨terminal, stays⟩ | ⟨_, _, halts⟩ | ⟨_, _, fault, _, stops⟩ |
      ⟨running, inCode, instruction, next, fetched, executes⟩
  · left
    simp only [after, step, stays, Transition.carryOut, terminal]
  · left
    simp only [after, step, halts, Transition.carryOut, Status.isTerminal]
  · left
    simp only [after, step, stops, Transition.carryOut, stop, Status.isTerminal]
  · obtain rfl := next_of_fetch fetched
    have notTaken := jumpTarget?_of_takenJump?_eq_none noJump
      ⟨running, inCode, _, fetched⟩
    simp only [after, step, executes]
    rcases execute_cases { machine with steps := machine.steps + 1 } instruction
        (machine.pc + instruction.opcode.size) device with
        ⟨fault, stopped, _⟩ | advances
    · left
      rw [stopped]
      rfl
    · right
      have pc := advances.pc
      rw [notTaken] at pc
      refine ⟨inCode, ?_, advances.codeSize⟩
      rw [pc]
      exact Nat.lt_add_of_pos_right instruction.opcode.size_pos

end Machine

namespace Execution

variable {Device : Type} [Console Device]

/-- Without taken jumps more steps than there are bytes of the image ahead stop a machine. -/
theorem isTerminal_of_no_taken_jumps
    {start : Execution Device}
    {count : Nat}
    (enough : start.machine.codeSize - start.machine.pc < count)
    (noJumps : ∀ index < count,
      (step^[index] start).machine.takenJump? = none) :
    (step^[count] start).machine.status.isTerminal = true := by
  induction count generalizing start with
  | zero =>
      exact (Nat.not_lt_zero _ enough).elim
  | succ count inductionHypothesis =>
      rw [Function.iterate_succ_apply]
      have noJump : start.machine.takenJump? = none := noJumps 0 (Nat.succ_pos count)
      rcases Machine.step_progress noJump start.device with
          terminal | ⟨inCode, forward, codeSize⟩
      · have stopped : start.step.machine.status.isTerminal = true := terminal
        rw [iterate_step_of_isTerminal stopped]
        exact stopped
      · -- The part of the image ahead has become shorter by at least one byte.
        have shorter :
            start.step.machine.codeSize - start.step.machine.pc < count := by
          have further : start.machine.pc < start.step.machine.pc := forward
          have sameSize : start.step.machine.codeSize = start.machine.codeSize :=
            codeSize
          rw [sameSize]
          omega
        exact inductionHypothesis shorter fun index inside =>
          noJumps (index + 1) (Nat.succ_lt_succ inside)

/--
A running machine that takes no jump within as many steps as there are bytes of
its image ahead, and one more, has stopped after some of them.  So a run to the
end terminates whenever only finitely many of its steps take a jump.
-/
theorem stops_without_taken_jumps
    (start : Execution Device) :
    let bound :=
      if start.machine.pc < start.machine.codeSize then
        start.machine.codeSize - start.machine.pc + 1
      else
        1
    (start.machine.status = .running →
      (∀ index < bound, (step^[index] start).machine.takenJump? = none) →
      ∃ count, 0 < count ∧ count ≤ bound ∧ start.StopsAfter count) ∧
    ({index | (step^[index] start).machine.takenJump?.isSome}.Finite →
      ∃ fuel final, start.run? fuel = some final) := by
  intro bound
  constructor
  · intro running noJumps
    have enough : start.machine.codeSize - start.machine.pc < bound := by
      simp only [bound]
      split <;> omega
    obtain ⟨count, le, stops⟩ :=
      exists_stopsAfter (isTerminal_of_no_taken_jumps enough noJumps)
    refine ⟨count, Nat.pos_of_ne_zero ?_, le, stops⟩
    rintro rfl
    have terminal := stops.stopped
    rw [Function.iterate_zero_apply, running] at terminal
    cases terminal
  · intro finite
    obtain ⟨last, isLast⟩ := finite.bddAbove
    let behind := step^[last + 1] start
    have noJumps : ∀ index,
        (step^[index] behind).machine.takenJump? = none := by
      intro index
      rw [← Option.not_isSome_iff_eq_none]
      intro taken
      rw [← Function.iterate_add_apply] at taken
      have within : index + (last + 1) ≤ last := isLast taken
      omega
    have stopped := isTerminal_of_no_taken_jumps
      (Nat.lt_succ_self (behind.machine.codeSize - behind.machine.pc))
      fun index _ => noJumps index
    rw [← Function.iterate_add_apply] at stopped
    obtain ⟨count, le, stops⟩ := exists_stopsAfter stopped
    exact ⟨count, _, run?_eq_some_iff.mpr ⟨count, Nat.le_refl _, stops, rfl⟩⟩

/--
A machine that stores zeros over the jump behind the store, so that it halts where
it would have jumped back to the store for ever.
-/
private def overwritten : Execution ConsoleBuffer where
  machine :=
    { memory := .ofImage [3, 0, 10, 0, 0, 0, 0, 0, 0, 0, 16, 0, 0, 0, 0, 0, 0, 0] 18
      codeSize := 18 }
  device := {}

/-- No jump is taken within the 19 steps that the image allows. -/
theorem stops_without_taken_jumps_overwritten :
    (∀ index < 19, (step^[index] overwritten).machine.takenJump? = none) ∧
      ∃ count, 0 < count ∧ count ≤ 19 ∧ overwritten.StopsAfter count := by
  have noJumps : ∀ index < 19,
      (step^[index] overwritten).machine.takenJump? = none := by
    decide +kernel
  exact ⟨noJumps, (stops_without_taken_jumps overwritten).1 rfl noJumps⟩

end Execution

end RegisterMachine
