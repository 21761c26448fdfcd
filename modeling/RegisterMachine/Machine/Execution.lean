import RegisterMachine.Machine.Step

namespace RegisterMachine

/-!
# Runs of a machine

An execution is a machine at work on a console, with the journal of its events.
It is driven for a number of steps, or until the machine stops.
-/

/-- A machine with its console and the journal of the run. -/
structure Execution (Device : Type) where
  machine : Machine
  device : Device
  journal : Log.Journal := {}

namespace Execution

variable {Device : Type} [Console Device]

/-- Run one instruction. -/
def step (execution : Execution Device) : Execution Device :=
  match execution.machine.step execution.device with
  | (outcome, device) =>
      { machine := outcome.machine
        device := device
        journal := outcome.events.foldl (fun journal event => event.writeTo journal)
          execution.journal }

/-- Run at most a number of instructions. -/
def runFor : Nat → Execution Device → Execution Device
  | 0, execution => execution
  | limit + 1, execution =>
      if execution.machine.status.isTerminal then
        execution
      else
        runFor limit execution.step

/-- Run until the machine stops; `none` when it has not stopped within the fuel. -/
def run? : Nat → Execution Device → Option (Execution Device)
  | fuel, execution =>
      if execution.machine.status.isTerminal then
        some execution
      else
        match fuel with
        | 0 => none
        | fuel + 1 => run? fuel execution.step

/-- What a run to the end returns: the fault when the machine was stopped by one. -/
def verdict (execution : Execution Device) : Except Fault Unit :=
  match execution.machine.status.fault? with
  | some fault => .error fault
  | none => .ok ()

/-- A stopped execution is not changed by running it. -/
theorem runFor_of_isTerminal {execution : Execution Device}
    (terminal : execution.machine.status.isTerminal = true) (limit : Nat) :
    runFor limit execution = execution := by
  cases limit with
  | zero => rfl
  | succ limit => simp [runFor, terminal]

end Execution

end RegisterMachine
