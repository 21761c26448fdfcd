import Mathlib.Logic.Function.Iterate
import RegisterMachine.Machine.Execution
import RegisterMachine.Proofs.Machine.Step

namespace RegisterMachine

/-!
# Single steps, budgets and runs to the end

A machine can be driven by single steps, with a budget of steps, or until it
stops.  All three go through the same executions: a budget is that many steps
(`Execution.runFor_eq_iterate_step`), and a run to the end is the steps up to
the first stop (`Execution.run?_eq_some_iff`).  The step counter falls behind
the number of steps only by steps that start no instruction.
-/

/-- A status has no fault exactly if it is no stop by one. -/
theorem Status.fault?_eq_none_iff
    {status : Status} :
    status.fault? = none ↔ ∀ fault, status ≠ .faulted fault := by
  simp only [Option.eq_none_iff_forall_ne_some, ne_eq, fault?_eq_some_iff]

namespace Machine

/-- A running machine whose program counter is no longer inside the image. -/
def HasLeftImage (machine : Machine) : Prop :=
  machine.status = .running ∧ machine.codeSize ≤ machine.pc

instance (machine : Machine) : Decidable machine.HasLeftImage :=
  inferInstanceAs (Decidable (_ ∧ _))

/--
A step moves the step counter by at most one: by one if the machine is still
running after it, by none if it halts because the image has been left.
-/
theorem steps_step
    {Device : Type}
    [Console Device]
    (machine : Machine)
    (device : Device) :
    let after := (machine.step device).1.machine
    ∃ grown ≤ 1,
      after.steps = machine.steps + UInt64.ofNat grown ∧
      (after.status = .running → grown = 1) ∧
      (machine.HasLeftImage → grown = 0) := by
  intro after
  rcases transition_cases machine with
      ⟨terminal, stays⟩ | ⟨_, _, halts⟩ | ⟨_, inCode, fault, _, stops⟩ |
      ⟨_, inCode, instruction, next, _, executes⟩
  · have same : after = machine := by
      simp only [after, step, stays, Transition.carryOut]
    refine ⟨0, Nat.zero_le 1, ?_, ?_, fun _ => rfl⟩
    · rw [same]
      exact (UInt64.add_zero _).symm
    · intro running
      rw [same] at running
      rw [running] at terminal
      cases terminal
  · have halted : after = { machine with status := .halted } := by
      simp only [after, step, halts, Transition.carryOut]
    refine ⟨0, Nat.zero_le 1, ?_, ?_, fun _ => rfl⟩
    · rw [halted]
      exact (UInt64.add_zero _).symm
    · intro running
      rw [halted] at running
      cases running
  · have stopped : after = { machine with status := .faulted fault } := by
      simp only [after, step, stops, Transition.carryOut, stop]
    refine ⟨0, Nat.zero_le 1, ?_, ?_, fun _ => rfl⟩
    · rw [stopped]
      exact (UInt64.add_zero _).symm
    · intro running
      rw [stopped] at running
      cases running
  · -- The instruction is counted before it is executed, so also when it faults.
    refine ⟨1, Nat.le_refl 1, ?_, fun _ => rfl, ?_⟩
    · simp only [after, step, executes]
      rcases execute_cases { machine with steps := machine.steps + 1 }
          instruction next device with ⟨fault, stopped, _⟩ | advances
      · rw [stopped]
        rfl
      · exact advances.steps
    · rintro ⟨_, left⟩
      exact (Nat.not_lt.mpr left inCode).elim

end Machine

namespace Execution

section Verdict

variable {Device : Type} {execution : Execution Device}

/-- A run to the end returns a fault exactly if that fault stopped the machine. -/
theorem verdict_eq_error_iff
    {fault : Fault} :
    execution.verdict = .error fault ↔
      execution.machine.status = .faulted fault := by
  rw [← Status.fault?_eq_some_iff, verdict]
  cases execution.machine.status.fault? with
  | none =>
      exact ⟨nofun, nofun⟩
  | some cause =>
      rw [Except.error.injEq, Option.some.injEq]

theorem verdict_eq_ok_iff :
    execution.verdict = .ok () ↔
      ∀ fault, execution.machine.status ≠ .faulted fault := by
  unfold verdict
  cases status : execution.machine.status with
  | running | halted =>
      exact ⟨fun _ => nofun, fun _ => rfl⟩
  | faulted cause =>
      exact ⟨nofun, fun other => (other cause rfl).elim⟩

end Verdict

variable {Device : Type} [Console Device]

theorem step_of_isTerminal
    {execution : Execution Device}
    (terminal : execution.machine.status.isTerminal = true) :
    execution.step = execution := by
  simp only [step, Machine.step_of_isTerminal terminal, List.foldl_nil]

theorem iterate_step_of_isTerminal
    {execution : Execution Device}
    (terminal : execution.machine.status.isTerminal = true)
    (count : Nat) :
    step^[count] execution = execution :=
  Function.iterate_fixed (step_of_isTerminal terminal) count

theorem running_of_running_step
    {execution : Execution Device}
    (running : execution.step.machine.status = .running) :
    execution.machine.status = .running := by
  rw [← Status.isTerminal_eq_false_iff, ← Bool.not_eq_true]
  intro terminal
  rw [step_of_isTerminal terminal] at running
  rw [running] at terminal
  cases terminal

theorem running_of_running_iterate_step
    {start : Execution Device}
    {fewer count : Nat}
    (le : fewer ≤ count)
    (running : (step^[count] start).machine.status = .running) :
    (step^[fewer] start).machine.status = .running := by
  induction le with
  | refl =>
      exact running
  | step _ inductionHypothesis =>
      rw [Function.iterate_succ_apply'] at running
      exact inductionHypothesis (running_of_running_step running)

/--
A change of the execution that each step goes along with, unless the machine stops
for a cause that it has to do with, also commutes with every run.
-/
theorem iterate_step_commutes
    {change : Execution Device → Execution Device}
    {Stopped : Machine → Prop}
    (terminal : ∀ {machine : Machine},
      Stopped machine → machine.status.isTerminal = true)
    (commutes : ∀ execution : Execution Device,
      Stopped execution.step.machine ∨
        (change execution).step = change execution.step)
    (start : Execution Device)
    (count : Nat) :
    Stopped (step^[count] start).machine ∨
      step^[count] (change start) = change (step^[count] start) := by
  induction count with
  | zero =>
      exact .inr rfl
  | succ count inductionHypothesis =>
      rw [Function.iterate_succ_apply', Function.iterate_succ_apply']
      rcases inductionHypothesis with stopped | same
      · rw [step_of_isTerminal (terminal stopped)]
        exact .inl stopped
      · rw [same]
        exact commutes _

/-- Running with a budget is taking that many steps. -/
theorem runFor_eq_iterate_step
    (limit : Nat)
    (execution : Execution Device) :
    execution.runFor limit = step^[limit] execution := by
  induction limit generalizing execution with
  | zero =>
      rfl
  | succ limit inductionHypothesis =>
      cases terminal : execution.machine.status.isTerminal with
      | true =>
          rw [runFor_of_isTerminal terminal, iterate_step_of_isTerminal terminal]
      | false =>
          rw [runFor, terminal, if_neg Bool.false_ne_true, inductionHypothesis,
            Function.iterate_succ_apply]

/--
After a number of steps the step counter has grown by at most that number, by
exactly that number if the machine is still running, and by less if it halted
because the image had been left.
-/
theorem steps_iterate_step
    (start : Execution Device)
    (count : Nat) :
    ∃ grown ≤ count,
      (step^[count] start).machine.steps =
        start.machine.steps + UInt64.ofNat grown ∧
      ((step^[count] start).machine.status = .running → grown = count) ∧
      ∀ index < count,
        (step^[index] start).machine.HasLeftImage → grown < count := by
  induction count with
  | zero =>
      exact ⟨0, Nat.le_refl 0, (UInt64.add_zero _).symm, fun _ => rfl,
        fun _ inside => (Nat.not_lt_zero _ inside).elim⟩
  | succ count inductionHypothesis =>
      obtain ⟨before, beforeLe, counted, exact, fewer⟩ := inductionHypothesis
      obtain ⟨last, lastLe, lastCounted, lastExact, lastLeft⟩ :=
        Machine.steps_step (step^[count] start).machine
          (step^[count] start).device
      rw [Function.iterate_succ_apply']
      refine ⟨before + last, Nat.add_le_add beforeLe lastLe, ?_, ?_, ?_⟩
      · rw [UInt64.ofNat_add, ← UInt64.add_assoc, ← counted]
        exact lastCounted
      · intro running
        rw [exact (running_of_running_step running), lastExact running]
      · intro index inside left
        -- The step that was not counted is an earlier one or the last.
        rcases Nat.lt_succ_iff_lt_or_eq.mp inside with earlier | rfl
        · exact Nat.add_lt_add_of_lt_of_le (fewer index earlier left) lastLe
        · rw [lastLeft left]
          exact Nat.lt_succ_of_le beforeLe

/-- The machine runs for so many steps and has stopped after them. -/
structure StopsAfter (start : Execution Device) (count : Nat) : Prop where
  running :
    ∀ index < count, (step^[index] start).machine.status = .running
  stopped :
    (step^[count] start).machine.status.isTerminal = true

theorem stopsAfter_zero_iff
    {start : Execution Device} :
    start.StopsAfter 0 ↔ start.machine.status.isTerminal = true :=
  ⟨fun stops => stops.stopped,
    fun terminal => ⟨fun _ inside => (Nat.not_lt_zero _ inside).elim, terminal⟩⟩

theorem stopsAfter_succ_iff
    {start : Execution Device}
    {count : Nat} :
    start.StopsAfter (count + 1) ↔
      start.machine.status = .running ∧ start.step.StopsAfter count := by
  constructor
  · intro stops
    refine ⟨stops.running 0 (Nat.succ_pos count), ?_, stops.stopped⟩
    intro index inside
    exact stops.running (index + 1) (Nat.succ_lt_succ inside)
  · rintro ⟨first, stops⟩
    refine ⟨?_, stops.stopped⟩
    intro index inside
    cases index with
    | zero =>
        exact first
    | succ index =>
        exact stops.running index (Nat.lt_of_succ_lt_succ inside)

/-- A run to the end gives the execution at the first stop within the fuel. -/
theorem run?_eq_some_iff
    {fuel : Nat}
    {start final : Execution Device} :
    start.run? fuel = some final ↔
      ∃ count ≤ fuel, start.StopsAfter count ∧ step^[count] start = final := by
  -- By induction on the fuel from any start: a step takes one off fuel and count.
  induction fuel generalizing start with
  | zero =>
      rw [run?]
      constructor
      · intro ran
        split at ran
        · next terminal =>
            exact ⟨0, Nat.le_refl 0, stopsAfter_zero_iff.mpr terminal,
              Option.some.inj ran⟩
        · cases ran
      · rintro ⟨count, le, stops, rfl⟩
        obtain rfl := Nat.le_zero.mp le
        rw [if_pos (stopsAfter_zero_iff.mp stops)]
        rfl
  | succ fuel inductionHypothesis =>
      rw [run?]
      cases terminal : start.machine.status.isTerminal with
      | true =>
          rw [if_pos rfl]
          constructor
          · intro ran
            exact ⟨0, Nat.zero_le _, stopsAfter_zero_iff.mpr terminal,
              Option.some.inj ran⟩
          · rintro ⟨count, _, _, rfl⟩
            rw [iterate_step_of_isTerminal terminal]
      | false =>
          rw [if_neg Bool.false_ne_true, inductionHypothesis]
          have running := Status.isTerminal_eq_false_iff.mp terminal
          constructor
          · rintro ⟨count, le, stops, reached⟩
            exact ⟨count + 1, Nat.succ_le_succ le,
              stopsAfter_succ_iff.mpr ⟨running, stops⟩, reached⟩
          · rintro ⟨count, le, stops, reached⟩
            cases count with
            | zero =>
                rw [stopsAfter_zero_iff.mp stops] at terminal
                cases terminal
            | succ count =>
                exact ⟨count, Nat.le_of_succ_le_succ le,
                  (stopsAfter_succ_iff.mp stops).2, reached⟩

/-- From the first stop on, further steps change nothing. -/
theorem StopsAfter.iterate_step_of_le
    {start : Execution Device}
    {count later : Nat}
    (stops : start.StopsAfter count)
    (le : count ≤ later) :
    step^[later] start = step^[count] start := by
  obtain ⟨further, rfl⟩ := Nat.exists_eq_add_of_le le
  rw [Nat.add_comm, Function.iterate_add_apply,
    iterate_step_of_isTerminal stops.stopped]

/-- There is one first stop. -/
theorem StopsAfter.iterate_step_eq
    {start : Execution Device}
    {count other : Nat}
    (stops : start.StopsAfter count)
    (otherStops : start.StopsAfter other) :
    step^[count] start = step^[other] start := by
  rcases Nat.le_total count other with le | le
  · exact (stops.iterate_step_of_le le).symm
  · exact otherStops.iterate_step_of_le le

/-- What was logged before has no say in a run. -/
theorem iterate_step_of_same
    {first second : Execution Device}
    (machine : first.machine = second.machine)
    (device : first.device = second.device)
    (count : Nat) :
    (step^[count] first).machine = (step^[count] second).machine ∧
      (step^[count] first).device = (step^[count] second).device := by
  induction count with
  | zero =>
      exact ⟨machine, device⟩
  | succ count inductionHypothesis =>
      obtain ⟨sameMachine, sameDevice⟩ := inductionHypothesis
      rw [Function.iterate_succ_apply', Function.iterate_succ_apply']
      simp only [step, sameMachine, sameDevice, and_self]

/-- A machine is what a budget leaves or, without one, the first stop within the fuel. -/
def EndsWithin (fuel : Nat) (start : Execution Device) (limit : Option Nat)
    (final : Machine) : Prop :=
  match limit with
  | some limit => (start.runFor limit).machine = final
  | none => ∃ count ≤ fuel, start.StopsAfter count ∧
      (step^[count] start).machine = final

/-- A run ends in one way at most. -/
theorem EndsWithin.unique
    {fuel : Nat}
    {start : Execution Device}
    {limit : Option Nat}
    {final other : Machine}
    (ends : start.EndsWithin fuel limit final)
    (otherEnds : start.EndsWithin fuel limit other) :
    final = other := by
  cases limit with
  | some limit =>
      exact ends.symm.trans otherEnds
  | none =>
      obtain ⟨count, _, stops, rfl⟩ := ends
      obtain ⟨otherCount, _, otherStops, rfl⟩ := otherEnds
      rw [stops.iterate_step_eq otherStops]

theorem EndsWithin.exists_iterate_step
    {fuel : Nat}
    {start : Execution Device}
    {limit : Option Nat}
    {final : Machine}
    (ends : start.EndsWithin fuel limit final) :
    ∃ count, (step^[count] start).machine = final := by
  cases limit with
  | some limit =>
      rw [EndsWithin, runFor_eq_iterate_step] at ends
      exact ⟨limit, ends⟩
  | none =>
      obtain ⟨count, _, _, reached⟩ := ends
      exact ⟨count, reached⟩

theorem EndsWithin.of_same
    {fuel : Nat}
    {first second : Execution Device}
    {limit : Option Nat}
    {final : Machine}
    (machine : first.machine = second.machine)
    (device : first.device = second.device)
    (ends : first.EndsWithin fuel limit final) :
    second.EndsWithin fuel limit final := by
  have same (count : Nat) := (iterate_step_of_same machine device count).1
  cases limit with
  | some limit =>
      rw [EndsWithin, runFor_eq_iterate_step] at ends ⊢
      rw [← same limit, ends]
  | none =>
      obtain ⟨count, le, stops, reached⟩ := ends
      refine ⟨count, le, ⟨?_, same count ▸ stops.stopped⟩, same count ▸ reached⟩
      exact fun index inside => same index ▸ stops.running index inside

/-- A machine that has stopped within a number of steps has a first stop. -/
theorem exists_stopsAfter
    {start : Execution Device}
    {count : Nat}
    (stopped : (step^[count] start).machine.status.isTerminal = true) :
    ∃ first ≤ count, start.StopsAfter first := by
  induction count generalizing start with
  | zero =>
      exact ⟨0, Nat.le_refl 0, stopsAfter_zero_iff.mpr stopped⟩
  | succ count inductionHypothesis =>
      cases terminal : start.machine.status.isTerminal with
      | true =>
          exact ⟨0, Nat.zero_le _, stopsAfter_zero_iff.mpr terminal⟩
      | false =>
          obtain ⟨first, le, stops⟩ := inductionHypothesis stopped
          exact ⟨first + 1, Nat.succ_le_succ le,
            stopsAfter_succ_iff.mpr
              ⟨Status.isTerminal_eq_false_iff.mp terminal, stops⟩⟩

/--
With a budget the machine is running at the end exactly if it is running after
each of the steps; a budget of no step leaves it as it was.
-/
theorem status_runFor_eq_running_iff
    {limit : Nat}
    {start : Execution Device} :
    (start.runFor limit).machine.status = .running ↔
      (limit = 0 → start.machine.status = .running) ∧
        ∀ index < limit,
          (step^[index + 1] start).machine.status = .running := by
  rw [runFor_eq_iterate_step]
  constructor
  · intro running
    refine ⟨?_, fun index inside => running_of_running_iterate_step inside running⟩
    rintro rfl
    exact running
  · rintro ⟨none, each⟩
    cases limit with
    | zero =>
        exact none rfl
    | succ limit =>
        exact each limit (Nat.lt_succ_self limit)

/--
All ways to drive a machine agree.  Budgets add up, and a budget is that many
steps.  The machine is running after a budget exactly if it is running after
each step of it (and before, if there is none); the step counter has then grown
by the budget, and otherwise by no more, or by less if the machine halted at the
end of the image.  A run that ends after some steps gives what every budget of
at least so many steps gives, and returns the fault that stopped the machine,
if there is one.  A budget within which the machine stops gives what the run to
the end gives.
-/
theorem drivers_agree
    (start : Execution Device) :
    (∀ first second,
      (start.runFor first).runFor second = start.runFor (first + second)) ∧
    (∀ limit, start.runFor limit = step^[limit] start) ∧
    (∀ limit,
      let final := start.runFor limit
      (final.machine.status = .running ↔
        (limit = 0 → start.machine.status = .running) ∧
          ∀ index < limit,
            (step^[index + 1] start).machine.status = .running) ∧
      (final.machine.status = .running →
        final.machine.steps = start.machine.steps + UInt64.ofNat limit) ∧
      (final.machine.status ≠ .running →
        ∃ grown ≤ limit,
          final.machine.steps = start.machine.steps + UInt64.ofNat grown ∧
          ((∃ index < limit, (step^[index] start).machine.HasLeftImage) →
            grown + 1 ≤ limit))) ∧
    (∀ fuel final, start.run? fuel = some final →
      ∃ count ≤ fuel,
        start.StopsAfter count ∧
        (∀ limit, count ≤ limit → start.runFor limit = final) ∧
        (∀ fault, final.verdict = .error fault ↔
          final.machine.status = .faulted fault) ∧
        (final.verdict = .ok () ↔
          ∀ fault, final.machine.status ≠ .faulted fault)) ∧
    (∀ limit,
      (start.runFor limit).machine.status.isTerminal = true →
        ∃ fuel, start.run? fuel = some (start.runFor limit)) := by
  refine ⟨?_, fun limit => runFor_eq_iterate_step limit start, ?_, ?_, ?_⟩
  · intro first second
    rw [runFor_eq_iterate_step, runFor_eq_iterate_step, runFor_eq_iterate_step,
      Nat.add_comm, Function.iterate_add_apply]
  · intro limit final
    obtain ⟨grown, le, counted, exact, fewer⟩ := steps_iterate_step start limit
    have same : final = step^[limit] start := runFor_eq_iterate_step limit start
    rw [← same] at counted exact
    refine ⟨status_runFor_eq_running_iff, ?_, ?_⟩
    · intro running
      rw [counted, exact running]
    · intro _
      refine ⟨grown, le, counted, ?_⟩
      rintro ⟨index, inside, left⟩
      exact fewer index inside left
  · intro fuel final ran
    obtain ⟨count, le, stops, rfl⟩ := run?_eq_some_iff.mp ran
    refine ⟨count, le, stops, ?_, fun _ => verdict_eq_error_iff,
      verdict_eq_ok_iff⟩
    intro limit enough
    rw [runFor_eq_iterate_step, stops.iterate_step_of_le enough]
  · intro limit stopped
    rw [runFor_eq_iterate_step] at stopped ⊢
    obtain ⟨count, le, stops⟩ := exists_stopsAfter stopped
    refine ⟨limit, run?_eq_some_iff.mpr ⟨count, le, stops, ?_⟩⟩
    exact (stops.iterate_step_of_le le).symm

/-- A machine that has run its only instruction, which halts it. -/
private def halted : Execution ConsoleBuffer :=
  step ⟨{ memory := .ofImage [0] 8, codeSize := 1 }, {}, {}⟩

/--
Without the condition on a budget of no step the first equivalence fails: on a
halted machine all of no steps leave it running, but the budget does not.
-/
theorem status_runFor_zero_halted :
    ¬ ((halted.runFor 0).machine.status = .running ↔
        ∀ index < 0, (step^[index + 1] halted).machine.status = .running) := by
  intro agrees
  have notRunning : (halted.runFor 0).machine.status = .halted := rfl
  have running : (halted.runFor 0).machine.status = .running :=
    agrees.mpr fun _ inside => (Nat.not_lt_zero _ inside).elim
  rw [notRunning] at running
  cases running

end Execution

end RegisterMachine
