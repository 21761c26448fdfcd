import Mathlib.Data.List.Basic
import RegisterMachine.Command.Session
import RegisterMachine.Proofs.Machine.Atomicity
import RegisterMachine.Proofs.Machine.Effect
import RegisterMachine.Proofs.Machine.Reachability

namespace RegisterMachine

/-!
# The log of a run

A run at the most verbose level writes one trace for each instruction that it
executes, in this order.  A trap without a service is warned of before its trace,
and so are bytes that the console did not take.  What ends the run comes last: the
fault, or a trace that the image has been left.
-/

namespace Instruction

/-- The number of a trap that has no service. -/
def unknownTrap? (registers : Registers) : Instruction → Option UInt64
  | .trap number _ =>
      let value := registers.get number
      if value = 0 ∨ value = 1 then none else some value
  | _ => none

/-- The service that an instruction writes with, and the bytes that it writes. -/
def output? (registers : Registers) : Instruction → Option (Writer × List UInt8)
  | .trap number data =>
      if registers.get number = 0 then
        some (.putc, [(registers.get data).toUInt8])
      else
        none
  | .print source => some (.print, decimalLine (registers.get source))
  | _ => none

/-- A trap that writes has a service. -/
theorem unknownTrap?_of_output?
    {registers : Registers}
    {instruction : Instruction}
    {output : Writer × List UInt8}
    (writes : instruction.output? registers = some output) :
    instruction.unknownTrap? registers = none := by
  cases instruction with
  | trap number data =>
      rw [output?, Option.ite_none_right_eq_some] at writes
      exact if_pos (.inl writes.1)
  | halt | load | loadAddr | storeAddr | move | binary | unary | jump | jumpIf
  | loop | print =>
      rfl

end Instruction

/-- An instruction that has been executed without a fault. -/
structure Executed where
  position : Nat
  instruction : Instruction
  before : Registers
  after : Registers
  /-- The service whose bytes the console did not take, and the reason. -/
  unwritten : Option (Writer × String)
  /-- What writes is no trap without a service. -/
  serviced :
    unwritten.isSome → instruction.unknownTrap? before = none
  deriving Repr, DecidableEq

namespace Executed

/-- The trace of an instruction. -/
def traced (executed : Executed) : Event :=
  .executed executed.position executed.instruction executed.before executed.after

/-- The warning of a trap that has no service. -/
def warning? (executed : Executed) : Option Event :=
  (executed.instruction.unknownTrap? executed.before).map .unknownTrap

/-- The error of bytes that the console did not take. -/
def failure? (executed : Executed) : Option Event :=
  executed.unwritten.map fun (writer, reason) => .unwritten writer reason

/-- All that an instruction reports: its trace, and at most one event before it. -/
def events (executed : Executed) : List Event :=
  (executed.warning?.or executed.failure?).toList ++ [executed.traced]

/-- The events of an instruction that are reported at a level. -/
def eventsAt (executed : Executed) : Log.Level → List Event
  | .trace => [executed.traced]
  | .info => []
  | .warn => executed.warning?.toList
  | .error => executed.failure?.toList

theorem filter_level_events
    (executed : Executed)
    (level : Log.Level) :
    (executed.events.filter fun event => event.level = level) =
      executed.eventsAt level := by
  have serviced := executed.serviced
  cases unknown : executed.instruction.unknownTrap? executed.before with
  | some number =>
      have written : executed.unwritten = none := by
        cases refused : executed.unwritten with
        | none =>
            rfl
        | some failure =>
            rw [refused, unknown] at serviced
            cases serviced rfl
      simp only [events, eventsAt, warning?, failure?, unknown, written]
      cases level <;> rfl
  | none =>
      simp only [events, eventsAt, warning?, failure?, unknown]
      cases executed.unwritten <;> cases level <;> rfl

end Executed

/-- Under the most verbose level all events are written. -/
theorem Event.records_foldl_writeTo
    {journal : Log.Journal}
    (verbose : journal.minimum = .trace)
    (events : List Event) :
    let written := events.foldl (fun journal event => event.writeTo journal) journal
    written.minimum = .trace ∧
      written.records = journal.records ++ events.map Event.record := by
  induction events generalizing journal with
  | nil =>
      exact ⟨verbose, (List.append_nil _).symm⟩
  | cons event rest inductionHypothesis =>
      have verboseStill : (event.writeTo journal).minimum = .trace := by
        rw [writeTo, Log.Journal.minimum_write, verbose]
      obtain ⟨minimum, records⟩ := inductionHypothesis verboseStill
      refine ⟨minimum, ?_⟩
      rw [List.foldl_cons, records, writeTo, Log.Journal.records_write, verbose,
        Log.Level.enabled_trace, if_pos rfl, List.append_assoc]
      rfl

namespace Machine

variable {Device : Type} [Console Device]

/-- An instruction of a machine as executed with a console, up to the registers after it. -/
def executed (machine : Machine) (device : Device) (instruction : Instruction)
    (after : Registers) : Executed where
  position := machine.pc
  instruction := instruction
  before := machine.registers
  after := after
  unwritten :=
    (instruction.output? machine.registers).bind fun (writer, bytes) =>
      (Console.write device bytes).2.map fun reason => (writer, reason)
  serviced := by
    intro refused
    cases writes : instruction.output? machine.registers with
    | none =>
        rw [writes] at refused
        cases refused
    | some output =>
        exact Instruction.unknownTrap?_of_output? writes

section Reports

variable {machine : Machine} {device : Device} {instruction : Instruction}

/-- An instruction that writes reports only that its bytes were not taken. -/
theorem events_executed_of_output?
    {writer : Writer}
    {bytes : List UInt8}
    (writes : instruction.output? machine.registers = some (writer, bytes))
    (after : Registers) :
    (machine.executed device instruction after).events =
      ((Console.write device bytes).2.map (.unwritten writer)).toList ++
        [.executed machine.pc instruction machine.registers after] := by
  simp only [Executed.events, Executed.warning?, Executed.failure?, executed,
    Executed.traced, Instruction.unknownTrap?_of_output? writes, writes,
    Option.map_none, Option.none_or, Option.bind_some, Option.map_map]
  rfl

theorem events_executed_of_unwritten
    (known : instruction.unknownTrap? machine.registers = none)
    (silent : instruction.output? machine.registers = none)
    (after : Registers) :
    (machine.executed device instruction after).events =
      [.executed machine.pc instruction machine.registers after] := by
  simp only [Executed.events, Executed.warning?, Executed.failure?, executed,
    Executed.traced, known, silent]
  rfl

theorem events_executed_of_unknownTrap?
    {number : UInt64}
    (unknown : instruction.unknownTrap? machine.registers = some number)
    (after : Registers) :
    (machine.executed device instruction after).events =
      [.unknownTrap number,
        .executed machine.pc instruction machine.registers after] := by
  simp only [Executed.events, Executed.warning?, executed, Executed.traced, unknown]
  rfl

end Reports

private theorem trap_reports
    (machine : Machine)
    (number data : Register)
    (next : Nat)
    (device : Device) :
    let instruction := Instruction.trap number data
    let result := (machine.trap instruction next number data).carryOut device
    (∃ fault, result.1 = machine.stop fault) ∨
      result.1.events =
        (machine.executed device instruction result.1.machine.registers).events := by
  intro instruction result
  cases service : TrapCode.ofNumber? (machine.registers.get number) with
  | none =>
      right
      have unknown : instruction.unknownTrap? machine.registers =
          some (machine.registers.get number) := by
        obtain ⟨notPutc, notGetc⟩ := TrapCode.ofNumber?_eq_none_iff.mp service
        exact if_neg (not_or.mpr ⟨notPutc, notGetc⟩)
      rw [events_executed_of_unknownTrap? unknown]
      simp only [result, trap, service, Transition.carryOut, ran]
  | some code =>
      have numbered := TrapCode.ofNumber?_eq_some_iff.mp service
      cases code with
      | putc =>
          right
          have writes : instruction.output? machine.registers =
              some (.putc, [(machine.registers.get data).toUInt8]) :=
            if_pos numbered
          rw [events_executed_of_output? writes]
          simp only [result, trap, service, fst_carryOut_write]
          rfl
      | getc =>
          rcases byteRead : Console.read device with ⟨after, byte⟩
          cases byte with
          | error reason =>
              left
              simp only [result, trap, service, Transition.carryOut, byteRead]
              exact ⟨_, rfl⟩
          | ok byte =>
              right
              have known : instruction.unknownTrap? machine.registers = none :=
                if_pos (.inr numbered)
              have silent : instruction.output? machine.registers = none := by
                refine if_neg ?_
                rw [numbered]
                decide
              rw [events_executed_of_unwritten known silent]
              simp only [result, trap, service, Transition.carryOut, byteRead]
              rfl

/-- An instruction that raises no fault reports its trace, after what is wrong with it. -/
theorem execute_reports
    (machine : Machine)
    (instruction : Instruction)
    (next : Nat)
    (device : Device) :
    let result := (machine.execute instruction next).carryOut device
    (∃ fault, result.1 = machine.stop fault) ∨
      result.1.events =
        (machine.executed device instruction result.1.machine.registers).events := by
  intro result
  cases instruction with
  | halt | load | move | unary | jump =>
      exact .inr rfl
  | loadAddr | storeAddr | binary =>
      simp only [result, execute]
      split
      · exact .inl ⟨_, rfl⟩
      · exact .inr rfl
  | jumpIf | loop =>
      simp only [result, execute]
      split <;> exact .inr rfl
  | trap number data =>
      exact trap_reports machine number data next device
  | print source =>
      right
      have writes : (Instruction.print source).output? machine.registers =
          some (.print, decimalLine (machine.registers.get source)) := rfl
      rw [events_executed_of_output? writes]
      simp only [result, execute, fst_carryOut_write]
      rfl

end Machine

/-- How many instructions have been started but not executed, because of a fault. -/
def Status.unfinished (status : Status) : Nat :=
  status.fault?.elim 0 fun fault => fault.startedCount.toNat

namespace Execution

variable {Device : Type} [Console Device]

/-- The instruction that the next step executes, if it does so without a fault. -/
def executed? (execution : Execution Device) : Option Executed :=
  if execution.step.machine.status.fault? = none then
    execution.machine.dispatched?.map fun instruction =>
      execution.machine.executed execution.device instruction
        execution.step.machine.registers
  else
    none

section Steps

variable {execution : Execution Device}

theorem executed?_eq_some_iff
    {executed : Executed} :
    execution.executed? = some executed ↔
      (∀ fault, execution.step.machine.status ≠ .faulted fault) ∧
        ∃ instruction, execution.machine.Dispatches instruction ∧
          execution.machine.executed execution.device instruction
            execution.step.machine.registers = executed := by
  rw [executed?, Option.ite_none_right_eq_some, Status.fault?_eq_none_iff]
  simp only [Option.map_eq_some_iff, Machine.dispatched?_eq_some_iff]

theorem executed?_eq_none_of_not_dispatches
    (idle : ∀ instruction, ¬ execution.machine.Dispatches instruction) :
    execution.executed? = none := by
  rw [executed?, Machine.dispatched?_eq_none_iff.mpr idle, Option.map_none, ite_self]

theorem executed?_eq_none_of_faulted
    {fault : Fault}
    (faulted : execution.step.machine.status = .faulted fault) :
    execution.executed? = none := by
  refine if_neg fun harmless => ?_
  rw [Status.fault?_eq_none_iff] at harmless
  exact harmless fault faulted

theorem machine_step_of_hasLeftImage
    (left : execution.machine.HasLeftImage) :
    execution.step.machine = { execution.machine with status := .halted } := by
  rw [step, Machine.step, Machine.transition_of_ended left.1 left.2,
    Transition.carryOut]

/-- What a step reports and counts: an instruction, the end of the image or a fault. -/
structure Accounted (execution : Execution Device) : Prop where
  events :
    (execution.machine.step execution.device).1.events =
      execution.executed?.toList.flatMap Executed.events ++
        (if execution.machine.HasLeftImage then [.endOfCode] else []) ++
        (execution.step.machine.status.fault?.map .faulted).toList
  steps :
    execution.step.machine.steps =
      execution.machine.steps +
        UInt64.ofNat (execution.executed?.toList.length +
          execution.step.machine.status.unfinished)
  single :
    execution.executed?.toList.length +
      execution.step.machine.status.unfinished ≤ 1

theorem accounted_of_hasLeftImage
    (left : execution.machine.HasLeftImage) :
    Accounted execution := by
  have halted := machine_step_of_hasLeftImage left
  have idle : execution.executed? = none :=
    executed?_eq_none_of_not_dispatches fun _ dispatches =>
      Nat.not_lt.mpr left.2 dispatches.2.1
  constructor
  · rw [idle, halted, if_pos left, Machine.step,
      Machine.transition_of_ended left.1 left.2]
    rfl
  · rw [idle, halted]
    exact (UInt64.add_zero _).symm
  · rw [idle, halted]
    exact Nat.zero_le 1

theorem accounted_of_stopped
    (fault : Fault)
    (inCode : execution.machine.pc < execution.machine.codeSize)
    (stopped :
      (execution.machine.step execution.device).1 =
        { execution.machine with
          steps := execution.machine.steps + fault.startedCount }.stop fault) :
    Accounted execution := by
  have faulted : execution.step.machine.status = .faulted fault :=
    congrArg (fun outcome => outcome.machine.status) stopped
  have steps : execution.step.machine.steps =
      execution.machine.steps + fault.startedCount :=
    congrArg (fun outcome => outcome.machine.steps) stopped
  have unfinished : execution.step.machine.status.unfinished =
      fault.startedCount.toNat := by
    rw [faulted]
    rfl
  have idle := executed?_eq_none_of_faulted faulted
  constructor
  · rw [idle, stopped, faulted, if_neg fun left => Nat.not_lt.mpr left.2 inCode]
    rfl
  · rw [idle, steps, unfinished, Option.toList_none, List.length_nil, Nat.zero_add,
      UInt64.ofNat_toNat]
  · rw [idle, unfinished, Option.toList_none, List.length_nil, Nat.zero_add]
    exact fault.toNat_startedCount_le_one

theorem accounted_of_advances
    {instruction : Instruction}
    {next : Nat}
    (running : execution.machine.status = .running)
    (inCode : execution.machine.pc < execution.machine.codeSize)
    (fetched : execution.machine.fetch = .ok (instruction, next))
    (advances :
      { execution.machine with steps := execution.machine.steps + 1 }.Advances
        instruction next execution.step.machine) :
    Accounted execution := by
  let started := { execution.machine with steps := execution.machine.steps + 1 }
  have noFault := advances.status_ne_faulted running
  have harmless := Status.fault?_eq_none_iff.mpr noFault
  let executed := execution.machine.executed execution.device instruction
    execution.step.machine.registers
  have executes : execution.executed? = some executed :=
    executed?_eq_some_iff.mpr
      ⟨noFault, instruction, ⟨running, inCode, next, fetched⟩, rfl⟩
  have stepped : execution.machine.step execution.device =
      (started.execute instruction next).carryOut execution.device := by
    rw [Machine.step, Machine.transition_of_fetch running inCode fetched]
  have events : (execution.machine.step execution.device).1.events =
      executed.events := by
    have machine : execution.step.machine =
        ((started.execute instruction next).carryOut
          execution.device).1.machine := by
      rw [step, stepped]
    rw [stepped]
    rcases Machine.execute_reports started instruction next execution.device with
        ⟨fault, stopped⟩ | reports
    · rw [stopped] at machine
      exact (noFault fault (congrArg Machine.status machine)).elim
    · rw [reports, ← machine]
      rfl
  constructor
  · rw [executes, events, harmless, if_neg fun left => Nat.not_lt.mpr left.2 inCode,
      Option.toList_some, List.flatMap_singleton, Option.map_none,
      Option.toList_none, List.append_nil, List.append_nil]
  · rw [executes, advances.steps, Status.unfinished, harmless]
    rfl
  · rw [executes, Status.unfinished, harmless]
    exact Nat.le_refl 1

/-- Each step of a running machine is accounted for. -/
theorem accounted
    (running : execution.machine.status = .running)
    (fits : execution.machine.codeSize ≤ execution.machine.memory.size) :
    Accounted execution := by
  rcases Machine.step_effect_cases running fits execution.device with
      ⟨ended, _⟩ | ⟨inCode, cause, _, _, stepped⟩ |
      ⟨inCode, instruction, fetched, ⟨fault, stopped, raises⟩ | advances⟩
  · exact accounted_of_hasLeftImage ⟨running, ended⟩
  · have uncounted : execution.machine.steps =
        execution.machine.steps + (Fault.undecodable cause).startedCount := by
      rw [Fault.startedCount_undecodable, UInt64.add_zero]
    refine accounted_of_stopped (.undecodable cause) inCode ?_
    rw [stepped, ← uncounted]
  · refine accounted_of_stopped fault inCode ?_
    rw [stopped, raises.startedCount_eq]
  · exact accounted_of_advances running inCode fetched advances

end Steps

section Runs

/-- The instructions that a number of steps executes without a fault, in their order. -/
def executed (start : Execution Device) (count : Nat) : List Executed :=
  (List.range count).filterMap fun index => (step^[index] start).executed?

/-- The run has halted because the program counter was no longer inside the image. -/
def LeavesImage (start : Execution Device) (count : Nat) : Prop :=
  ∃ index < count, (step^[index] start).machine.HasLeftImage

instance (start : Execution Device) (count : Nat) :
    Decidable (start.LeavesImage count) :=
  inferInstanceAs (Decidable (∃ index < count, _))

/-- The event that a run ends with, if it has ended otherwise than by an instruction. -/
def ending (start : Execution Device) (count : Nat) : List Event :=
  (if start.LeavesImage count then [.endOfCode] else []) ++
    ((step^[count] start).machine.status.fault?.map .faulted).toList

/-- All that a number of steps reports. -/
def reported (start : Execution Device) (count : Nat) : List Event :=
  (start.executed count).flatMap Executed.events ++ start.ending count

variable (start : Execution Device) (count : Nat)

theorem executed_succ :
    start.executed (count + 1) =
      start.executed count ++ (step^[count] start).executed?.toList := by
  rw [executed, List.range_succ, List.filterMap_append]
  rfl

theorem leavesImage_succ_iff :
    start.LeavesImage (count + 1) ↔
      start.LeavesImage count ∨ (step^[count] start).machine.HasLeftImage := by
  simp only [LeavesImage, Nat.lt_succ_iff_lt_or_eq, or_and_right, exists_or,
    exists_eq_left]

variable {start count}

/-- A run that has left the image has halted. -/
theorem LeavesImage.halted
    (leaves : start.LeavesImage count) :
    (step^[count] start).machine.status = .halted := by
  obtain ⟨index, inside, left⟩ := leaves
  have halted : (step^[index + 1] start).machine.status = .halted := by
    rw [Function.iterate_succ_apply', machine_step_of_hasLeftImage left]
  obtain ⟨more, rfl⟩ := Nat.exists_eq_add_of_le inside
  rw [Nat.add_comm, Function.iterate_add_apply, iterate_step_of_isTerminal]
  · exact halted
  · rw [halted]
    rfl

theorem reported_succ_of_running
    (running : (step^[count] start).machine.status = .running)
    (accounted : Accounted (step^[count] start)) :
    start.reported (count + 1) =
      start.reported count ++
        ((step^[count] start).machine.step (step^[count] start).device).1.events := by
  have notLeft : ¬ start.LeavesImage count := fun leaves => by
    rw [leaves.halted] at running
    cases running
  have nothingYet : start.ending count = [] := by
    rw [ending, if_neg notLeft, running]
    rfl
  have last : start.ending (count + 1) =
      (if (step^[count] start).machine.HasLeftImage then [.endOfCode] else []) ++
        ((step^[count] start).step.machine.status.fault?.map .faulted).toList := by
    rw [ending, Function.iterate_succ_apply']
    simp only [leavesImage_succ_iff, notLeft, false_or]
  rw [reported, reported, nothingYet, last, accounted.events, executed_succ,
    List.flatMap_append, List.append_nil]
  simp only [List.append_assoc]

theorem executed_succ_of_isTerminal
    (terminal : (step^[count] start).machine.status.isTerminal = true) :
    start.executed (count + 1) = start.executed count := by
  have idle : (step^[count] start).executed? = none :=
    executed?_eq_none_of_not_dispatches fun _ dispatches => by
      rw [dispatches.1] at terminal
      cases terminal
  rw [executed_succ, idle, Option.toList_none, List.append_nil]

theorem reported_succ_of_isTerminal
    (terminal : (step^[count] start).machine.status.isTerminal = true) :
    start.reported (count + 1) = start.reported count := by
  have stays : ¬ (step^[count] start).machine.HasLeftImage := fun left => by
    rw [left.1] at terminal
    cases terminal
  have last : start.ending (count + 1) = start.ending count := by
    rw [ending, ending, Function.iterate_succ_apply', step_of_isTerminal terminal]
    simp only [leavesImage_succ_iff, stays, or_false]
  rw [reported, reported, executed_succ_of_isTerminal terminal, last]

/-- The journal of a run has what its steps report, and all started steps are counted. -/
theorem journal_iterate_step
    (running : start.machine.status = .running)
    (fits : start.machine.codeSize ≤ start.machine.memory.size)
    (verbose : start.journal.minimum = .trace)
    (count : Nat) :
    let final := step^[count] start
    let started := (start.executed count).length + final.machine.status.unfinished
    final.journal.minimum = .trace ∧
      final.journal.records =
        start.journal.records ++ (start.reported count).map Event.record ∧
      final.machine.steps = start.machine.steps + UInt64.ofNat started ∧
      started ≤ count := by
  induction count with
  | zero =>
      have nothing : start.reported 0 = [] := by
        rw [reported, ending, if_neg fun ⟨_, inside, _⟩ => Nat.not_lt_zero _ inside,
          Function.iterate_zero_apply, running]
        rfl
      intro final started
      have none : started = 0 := by
        simp only [started, final, Function.iterate_zero_apply, running]
        rfl
      rw [nothing, none]
      exact ⟨verbose, (List.append_nil _).symm, (UInt64.add_zero _).symm,
        Nat.le_refl 0⟩
  | succ count inductionHypothesis =>
      obtain ⟨minimum, records, steps, le⟩ := inductionHypothesis
      by_cases goesOn : (step^[count] start).machine.status = .running
      · have account : Accounted (step^[count] start) :=
          accounted goesOn
            ((Machine.consistent_of_running running fits).iterate_step
              count).codeSize_le
        have finished : (step^[count] start).machine.status.unfinished = 0 := by
          rw [goesOn]
          rfl
        obtain ⟨nextMinimum, nextRecords⟩ := Event.records_foldl_writeTo minimum
          ((step^[count] start).machine.step (step^[count] start).device).1.events
        rw [finished] at steps le
        rw [reported_succ_of_running goesOn account, executed_succ,
          Function.iterate_succ_apply', List.length_append]
        refine ⟨nextMinimum, ?_, ?_, ?_⟩
        · rw [List.map_append, ← List.append_assoc, ← records]
          exact nextRecords
        · rw [account.steps, steps, Nat.add_zero, UInt64.add_assoc,
            ← UInt64.ofNat_add, Nat.add_assoc]
        · have single := account.single
          omega
      · have terminal := Status.isTerminal_of_ne_running goesOn
        rw [reported_succ_of_isTerminal terminal, executed_succ_of_isTerminal terminal,
          Function.iterate_succ_apply', step_of_isTerminal terminal]
        exact ⟨minimum, records, steps, Nat.le_succ_of_le le⟩

/-- What is reported at a level: of each instruction in turn, and of the end. -/
theorem filter_level_reported
    (level : Log.Level) :
    ((start.reported count).map Event.record).filter
        (fun record => record.level = level) =
      ((start.executed count).flatMap (fun executed => executed.eventsAt level) ++
        (start.ending count).filter fun event => event.level = level).map
          Event.record := by
  have pulled : ((start.reported count).map Event.record).filter
      (fun record => record.level = level) =
        ((start.reported count).filter fun event => event.level = level).map
          Event.record :=
    List.filter_map
  rw [pulled, reported, List.filter_append, List.filter_flatMap]
  simp only [Executed.filter_level_events]

theorem filter_level_ending
    (level : Log.Level) :
    ((start.ending count).filter fun event => event.level = level) =
      match level with
      | .trace => if start.LeavesImage count then [.endOfCode] else []
      | .info | .warn => []
      | .error => ((step^[count] start).machine.status.fault?.map .faulted).toList := by
  rw [ending, List.filter_append]
  cases (step^[count] start).machine.status.fault? <;> split <;> cases level <;> rfl

variable (start count)

theorem traces_reported :
    ((start.reported count).map Event.record).filter
        (fun record => record.level = .trace) =
      ((start.executed count).map Executed.traced ++
        if start.LeavesImage count then [Event.endOfCode] else []).map
          Event.record := by
  have traced : (start.executed count).flatMap (fun each => each.eventsAt .trace) =
      (start.executed count).map Executed.traced :=
    List.map_eq_flatMap.symm
  rw [filter_level_reported, filter_level_ending, traced]

theorem warnings_reported :
    ((start.reported count).map Event.record).filter
        (fun record => record.level = .warn) =
      ((start.executed count).filterMap Executed.warning?).map Event.record := by
  have warned : (start.executed count).flatMap (fun each => each.eventsAt .warn) =
      (start.executed count).filterMap Executed.warning? :=
    (List.filterMap_eq_flatMap_toList _ _).symm
  rw [filter_level_reported, filter_level_ending, warned, List.append_nil]

theorem errors_reported :
    ((start.reported count).map Event.record).filter
        (fun record => record.level = .error) =
      ((start.executed count).filterMap Executed.failure?).map Event.record ++
        ((step^[count] start).machine.status.fault?.map fun fault =>
          .error fault.message).toList := by
  have failed : (start.executed count).flatMap (fun each => each.eventsAt .error) =
      (start.executed count).filterMap Executed.failure? :=
    (List.filterMap_eq_flatMap_toList _ _).symm
  rw [filter_level_reported, filter_level_ending, failed, List.map_append]
  cases (step^[count] start).machine.status.fault? <;> rfl

variable {start count}

/-- A fault that has stopped a run is reported last. -/
theorem getLast?_reported
    {fault : Fault}
    (faulted : (step^[count] start).machine.status = .faulted fault) :
    (start.reported count).getLast? = some (.faulted fault) := by
  rw [reported, ending, faulted, ← List.append_assoc]
  exact List.getLast?_concat

theorem failure?_eq_none_of_mem_executed
    (takes : ∀ (device : Device) (bytes : List UInt8),
      (Console.write device bytes).2 = none)
    {executed : Executed}
    (member : executed ∈ start.executed count) :
    executed.failure? = none := by
  obtain ⟨index, _, executes⟩ := List.mem_filterMap.mp member
  obtain ⟨_, instruction, _, rfl⟩ := executed?_eq_some_iff.mp executes
  simp only [Executed.failure?, Machine.executed, takes, Option.map_none,
    Option.bind_fun_none]

end Runs

/-- What the records that a number of steps has written tell of these steps. -/
structure LogAccount (start : Execution Device) (count : Nat)
    (emitted : List Log.Record) : Prop where
  /-- The events of the executed instructions, one after the other, and of the end. -/
  order :
    emitted =
      ((start.executed count).flatMap Executed.events ++
        start.ending count).map Event.record
  /-- One trace for each executed instruction, and one if the image has been left. -/
  traces :
    emitted.filter (fun record => record.level = .trace) =
      ((start.executed count).map Executed.traced ++
        if start.LeavesImage count then [Event.endOfCode] else []).map Event.record
  /-- One warning for each trap that has no service. -/
  warnings :
    emitted.filter (fun record => record.level = .warn) =
      ((start.executed count).filterMap Executed.warning?).map Event.record
  /-- One error for each instruction whose bytes were not taken, and one for a fault. -/
  errors :
    emitted.filter (fun record => record.level = .error) =
      ((start.executed count).filterMap Executed.failure?).map Event.record ++
        ((step^[count] start).machine.status.fault?.map fun fault =>
          .error fault.message).toList
  last :
    ∀ fault, (step^[count] start).machine.status = .faulted fault →
      emitted.getLast? = some (.error fault.message)
  /-- There are as many traces as counted steps, but for what ended the run. -/
  number :
    ∃ grown ≤ count,
      (step^[count] start).machine.steps =
        start.machine.steps + UInt64.ofNat grown ∧
      (emitted.filter fun record => record.level = .trace).length +
          (step^[count] start).machine.status.unfinished =
        grown + if start.LeavesImage count then 1 else 0

/--
The log of a run at the most verbose level, from a running machine whose image is
inside its memory, accounts for what its steps did: the executed instructions, the
traps without a service, the bytes that were not taken, and what ended the run.
On a console that takes all bytes there is an error exactly if a fault has stopped
the machine.  A machine that has stopped logs nothing more.
-/
theorem log_accounts_for_run
    {start : Execution Device}
    (running : start.machine.status = .running)
    (fits : start.machine.codeSize ≤ start.machine.memory.size)
    (verbose : start.journal.minimum = .trace)
    (count : Nat) :
    let final := step^[count] start
    (∃ emitted,
      final.journal.records = start.journal.records ++ emitted ∧
      start.LogAccount count emitted ∧
      ((∀ (device : Device) (bytes : List UInt8),
          (Console.write device bytes).2 = none) →
        emitted.filter (fun record => record.level = .error) =
          (final.machine.status.fault?.map fun fault =>
            .error fault.message).toList)) ∧
    (final.machine.status.isTerminal = true →
      ∀ more, (step^[more] final).journal = final.journal) := by
  intro final
  obtain ⟨_, records, steps, le⟩ :=
    journal_iterate_step running fits verbose count
  have account : start.LogAccount count ((start.reported count).map Event.record) := by
    refine ⟨rfl, traces_reported start count, warnings_reported start count,
      errors_reported start count, ?_, _, le, steps, ?_⟩
    · intro fault faulted
      rw [List.getLast?_map, getLast?_reported faulted]
      rfl
    · rw [traces_reported, List.length_map, List.length_append, List.length_map]
      split <;> simp only [List.length_singleton, List.length_nil] <;> omega
  refine ⟨⟨_, records, account, ?_⟩, ?_⟩
  · intro takes
    have taken : (start.executed count).filterMap Executed.failure? = [] :=
      List.filterMap_eq_nil_iff.mpr fun _ member =>
        failure?_eq_none_of_mem_executed takes member
    rw [account.errors, taken]
    rfl
  · intro terminal more
    rw [iterate_step_of_isTerminal terminal]

/-- A trap with number 7, and a division by zero. -/
private def unknownTrap : Execution ConsoleBuffer where
  machine :=
    { memory := .ofImage [20, 0, 1, 8, 0, 1, 2] 8
      registers := ({} : Registers).set (Register.ofByte 0) 7
      codeSize := 7 }
  device := {}
  journal := { minimum := .trace }

/-- The trap is warned of and traced, the division is an error, and then nothing follows. -/
theorem log_accounts_for_run_unknownTrap :
    unknownTrap.machine.status = .running ∧
      unknownTrap.machine.codeSize ≤ unknownTrap.machine.memory.size ∧
      unknownTrap.journal.minimum = .trace ∧
      unknownTrap.LogAccount 4
        [.warn "TRAP: unknown trap number 7, ignored",
          ⟨.trace, "TRAP 7: R1 = 0"⟩,
          .error "division by zero at position 3"] := by
  have running : unknownTrap.machine.status = .running := rfl
  have fits : unknownTrap.machine.codeSize ≤ unknownTrap.machine.memory.size := by
    decide
  have verbose : unknownTrap.journal.minimum = .trace := rfl
  obtain ⟨⟨emitted, records, account, _⟩, _⟩ :=
    log_accounts_for_run running fits verbose 4
  have written : (step^[4] unknownTrap).journal.records =
      [.warn "TRAP: unknown trap number 7, ignored",
        ⟨.trace, "TRAP 7: R1 = 0"⟩,
        .error "division by zero at position 3"] := by
    decide +kernel
  obtain rfl := written.symm.trans records
  exact ⟨running, fits, verbose, account⟩

/-- A machine that prints to an output that is full. -/
private def fullOutput : Execution Command.Streams where
  machine := { memory := .ofImage [21, 0] 64, codeSize := 2 }
  device := { outputFailure := some "No space left on device (os error 28)" }
  journal := { minimum := .trace }

/-- On a console that does not take all bytes there are errors without a fault. -/
theorem not_error_iff_fault_fullOutput :
    let final := step^[2] fullOutput
    fullOutput.machine.status = .running ∧
      fullOutput.machine.codeSize ≤ fullOutput.machine.memory.size ∧
      fullOutput.journal.minimum = .trace ∧
      final.machine.status = .halted ∧
      final.journal.records =
        [.error "PRINT: failed to write to stdout: No space left on device (os error 28)",
          ⟨.trace, "PRINT: R0 = 0"⟩,
          ⟨.trace, "HALT: reached end of program"⟩] ∧
      ¬ ((∃ record ∈ final.journal.records, record.level = .error) ↔
        final.machine.status.fault?.isSome) := by
  decide +kernel

end Execution

end RegisterMachine
