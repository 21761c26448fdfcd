import RegisterMachine.Proofs.Machine.Atomicity
import RegisterMachine.Proofs.Machine.Effect

namespace RegisterMachine

/-!
# Console streams of a run

A machine takes the bytes of its input one by one: each trap with number 1 that
raises no fault takes the first byte that is left, and nothing else touches the
input.  Output is only appended.  A machine does not notice input that it has not
taken, so more of it makes a difference only to a machine that asked for a byte
when none was left.
-/

/-- The register that an instruction reads a byte into. -/
def Instruction.byteRegister? (registers : Registers) :
    Instruction → Option Register
  | .trap service data => if registers.get service = 1 then some data else none
  | _ => none

namespace Instruction

variable {registers : Registers} {instruction : Instruction}

theorem readCount_of_byteRegister?_eq_none
    (readsNone : instruction.byteRegister? registers = none) :
    instruction.readCount registers = 0 := by
  cases instruction with
  | trap service data =>
      rw [byteRegister?, ite_eq_right_iff] at readsNone
      exact if_neg fun isGetc => nomatch readsNone isGetc
  | halt | load | loadAddr | storeAddr | move | binary | unary | jump | jumpIf
  | loop | print =>
      rfl

theorem exists_trap_of_byteRegister?_eq_some
    {data : Register}
    (reads : instruction.byteRegister? registers = some data) :
    ∃ service, instruction = .trap service data ∧ registers.get service = 1 := by
  cases instruction with
  | trap service target =>
      rw [byteRegister?, Option.ite_none_right_eq_some, Option.some.injEq] at reads
      obtain ⟨isGetc, rfl⟩ := reads
      exact ⟨service, rfl, isGetc⟩
  | halt | load | loadAddr | storeAddr | move | binary | unary | jump | jumpIf
  | loop | print =>
      cases reads

end Instruction

/-- The console with bytes added at the end of its input. -/
def ConsoleBuffer.feed (extra : List UInt8) (buffer : ConsoleBuffer) :
    ConsoleBuffer :=
  { buffer with input := buffer.input ++ extra }

/-- A machine that was stopped because its console had no byte to read. -/
def Machine.Starved (machine : Machine) : Prop :=
  ∃ reason, machine.status = .faulted (.consoleInput reason)

theorem Machine.Starved.isTerminal
    {machine : Machine}
    (starved : machine.Starved) :
    machine.status.isTerminal = true := by
  obtain ⟨_, stopped⟩ := starved
  rw [stopped]
  rfl

section Reading

variable {machine : Machine} {console left : ConsoleBuffer}

/-- An instruction that reads no byte leaves the input as it is. -/
theorem Machine.Exchanges.input_of_none
    {after : Machine}
    {instruction : Instruction}
    (exchanges : Exchanges machine console instruction after left)
    (readsNone : instruction.byteRegister? machine.registers = none) :
    left.input = console.input := by
  rw [exchanges.input, Instruction.readCount_of_byteRegister?_eq_none readsNone,
    List.drop_zero]

/-- An instruction that reads a byte takes the first one into its register. -/
theorem Machine.Exchanges.input_of_some
    {after : Machine}
    {instruction : Instruction}
    {data : Register}
    (exchanges : Exchanges machine console instruction after left)
    (reads : instruction.byteRegister? machine.registers = some data) :
    ∃ byte, console.input = byte :: left.input ∧
      after.registers.get data = byte.toUInt64 := by
  obtain ⟨service, rfl, isGetc⟩ :=
    Instruction.exists_trap_of_byteRegister?_eq_some reads
  have one : (Instruction.trap service data).readCount machine.registers = 1 :=
    if_pos isGetc
  have enough := exchanges.enough
  have input := exchanges.input
  rw [one] at enough input
  obtain ⟨byte, rest, waiting⟩ := List.exists_cons_of_length_pos enough
  have assigned :
      (Instruction.trap service data).assigned? machine console.input =
        some (data, byte.toNat) := by
    rw [waiting]
    exact if_pos isGetc
  refine ⟨byte, ?_, ?_⟩
  · rw [input, waiting, List.drop_one, List.tail_cons]
  · apply UInt64.toNat_inj.mp
    rw [UInt8.toNat_toUInt64]
    exact exchanges.get.1 data byte.toNat assigned

end Reading

namespace Machine

/-- Executing an instruction waits for a byte only where a failed read stops it. -/
theorem stop_of_execute_eq_read
    {machine : Machine}
    {instruction : Instruction}
    {next : Nat}
    {resume : Except String UInt8 → Outcome}
    (waits : machine.execute instruction next = .read resume)
    (reason : String) :
    resume (.error reason) = machine.stop (.consoleInput reason) := by
  cases instruction with
  | halt | load | move | unary | jump | print =>
      cases waits
  | loadAddr | storeAddr | binary | jumpIf | loop =>
      simp only [execute] at waits
      split at waits <;> cases waits
  | trap service data =>
      simp only [execute, trap] at waits
      split at waits
      · cases waits
      · cases waits
        rfl
      · cases waits

theorem starved_of_transition_eq_read
    {machine : Machine}
    {resume : Except String UInt8 → Outcome}
    (waits : machine.transition = .read resume)
    (reason : String) :
    (resume (.error reason)).machine.Starved := by
  rcases transition_cases machine with
      ⟨_, stays⟩ | ⟨_, _, halts⟩ | ⟨_, _, fault, _, stops⟩ |
      ⟨_, _, instruction, next, _, executes⟩
  · cases stays.symm.trans waits
  · cases halts.symm.trans waits
  · cases stops.symm.trans waits
  · rw [stop_of_execute_eq_read (executes.symm.trans waits) reason]
    exact ⟨reason, rfl⟩

end Machine

/-- A transition that does not ask an empty input for a byte ignores further input. -/
theorem Transition.carryOut_feed
    (extra : List UInt8)
    (transition : Transition)
    (console : ConsoleBuffer) :
    (∃ resume, transition = .read resume ∧
      transition.carryOut console =
        (resume (.error ConsoleBuffer.endOfInput), console)) ∨
      transition.carryOut (console.feed extra) =
        ((transition.carryOut console).1,
          (transition.carryOut console).2.feed extra) := by
  cases transition with
  | done outcome =>
      exact .inr rfl
  | write writer bytes outcome =>
      exact .inr rfl
  | read resume =>
      obtain ⟨input, written⟩ := console
      cases input with
      | nil =>
          exact .inl ⟨resume, rfl, rfl⟩
      | cons byte rest =>
          exact .inr rfl

namespace Execution

/-- The register that the next step reads a byte into, if it does so without a fault. -/
def byteRegister? (execution : Execution ConsoleBuffer) : Option Register :=
  if execution.machine.status = .running ∧
      execution.machine.pc < execution.machine.codeSize ∧
      execution.step.machine.status.fault? = none then
    match execution.machine.fetch with
    | .ok (instruction, _) =>
        instruction.byteRegister? execution.machine.registers
    | .error _ => none
  else
    none

/-- How many of the first steps read a byte. -/
def bytesRead (start : Execution ConsoleBuffer) (count : Nat) : Nat :=
  (List.range count).countP fun index =>
    (step^[index] start).byteRegister?.isSome

/-- The execution with bytes added at the end of the input of its console. -/
def feed (extra : List UInt8) (execution : Execution ConsoleBuffer) :
    Execution ConsoleBuffer :=
  { execution with device := execution.device.feed extra }

section Steps

variable {execution : Execution ConsoleBuffer}

/-- A byte is read by a trap with number 1 that is executed and raises no fault. -/
theorem byteRegister?_eq_some_iff
    {data : Register} :
    execution.byteRegister? = some data ↔
      ∃ service, execution.machine.Dispatches (.trap service data) ∧
        execution.machine.registers.get service = 1 ∧
        ∀ fault, execution.step.machine.status ≠ .faulted fault := by
  rw [byteRegister?, Option.ite_none_right_eq_some, Status.fault?_eq_none_iff]
  constructor
  · rintro ⟨⟨running, inCode, harmless⟩, reads⟩
    split at reads
    · next instruction next fetched =>
        obtain ⟨service, rfl, isGetc⟩ :=
          Instruction.exists_trap_of_byteRegister?_eq_some reads
        exact ⟨service, ⟨running, inCode, next, fetched⟩, isGetc, harmless⟩
    · cases reads
  · rintro ⟨service, ⟨running, inCode, next, fetched⟩, isGetc, harmless⟩
    refine ⟨⟨running, inCode, harmless⟩, ?_⟩
    rw [fetched]
    exact if_pos isGetc

theorem byteRegister?_eq_none_of_faulted
    {fault : Fault}
    (faulted : execution.step.machine.status = .faulted fault) :
    execution.byteRegister? = none := by
  refine Option.eq_none_iff_forall_ne_some.mpr fun data reads => ?_
  obtain ⟨_, _, _, harmless⟩ := byteRegister?_eq_some_iff.mp reads
  exact harmless fault faulted

theorem byteRegister?_eq_none_of_not_dispatches
    (idle : ∀ instruction, ¬ execution.machine.Dispatches instruction) :
    execution.byteRegister? = none := by
  refine Option.eq_none_iff_forall_ne_some.mpr fun data reads => ?_
  obtain ⟨service, dispatches, _⟩ := byteRegister?_eq_some_iff.mp reads
  exact idle _ dispatches

theorem byteRegister?_of_fetch
    {instruction : Instruction}
    {next : Nat}
    (running : execution.machine.status = .running)
    (inCode : execution.machine.pc < execution.machine.codeSize)
    (fetched : execution.machine.fetch = .ok (instruction, next))
    (harmless : execution.step.machine.status.fault? = none) :
    execution.byteRegister? =
      instruction.byteRegister? execution.machine.registers := by
  rw [byteRegister?, if_pos ⟨running, inCode, harmless⟩, fetched]

/--
What a step does to the console: output is appended, and input is left alone
unless the step reads a byte, which is then the first one of the input.
-/
structure Streams (execution after : Execution ConsoleBuffer) : Prop where
  output :
    execution.device.output <+: after.device.output
  untouched :
    execution.byteRegister? = none →
      after.device.input = execution.device.input
  taken :
    ∀ data, execution.byteRegister? = some data →
      ∃ byte, execution.device.input = byte :: after.device.input ∧
        after.machine.registers.get data = byte.toUInt64

theorem streams_of_same_device
    {after : Execution ConsoleBuffer}
    (readsNone : execution.byteRegister? = none)
    (same : after.device = execution.device) :
    execution.Streams after := by
  refine ⟨⟨[], ?_⟩, fun _ => by rw [same], ?_⟩
  · rw [same, List.append_nil]
  · intro data reads
    rw [readsNone] at reads
    cases reads

theorem streams_step_of_fetch
    {instruction : Instruction}
    {next : Nat}
    (running : execution.machine.status = .running)
    (inCode : execution.machine.pc < execution.machine.codeSize)
    (fetched : execution.machine.fetch = .ok (instruction, next)) :
    execution.Streams execution.step := by
  let started := { execution.machine with steps := execution.machine.steps + 1 }
  let result := (started.execute instruction next).carryOut execution.device
  have stepped : execution.machine.step execution.device = result := by
    rw [Machine.step, Machine.transition_of_fetch running inCode fetched]
  have machine : execution.step.machine = result.1.machine := by
    rw [step, stepped]
  have device : execution.step.device = result.2 := by
    rw [step, stepped]
  rcases Machine.execute_cases started instruction next execution.device with
      ⟨fault, stopped, raises⟩ | advances
  · have faulted : execution.step.machine.status = .faulted fault := by
      rw [machine, stopped]
      rfl
    exact streams_of_same_device (byteRegister?_eq_none_of_faulted faulted)
      (device.trans raises.console_eq.1)
  · have noFault : ∀ fault, result.1.machine.status ≠ .faulted fault :=
      advances.status_ne_faulted running
    have harmless : execution.step.machine.status.fault? = none := by
      rw [machine]
      exact Status.fault?_eq_none_iff.mpr noFault
    have exchanges : Machine.Exchanges started execution.device instruction
        result.1.machine result.2 :=
      Machine.execute_exchanges noFault
    have reads := byteRegister?_of_fetch running inCode fetched harmless
    refine ⟨?_, ?_, ?_⟩
    · rw [device, exchanges.output]
      exact List.prefix_append _ _
    · intro readsNone
      rw [device]
      exact exchanges.input_of_none (reads.symm.trans readsNone)
    · intro data readsData
      rw [device, machine]
      exact exchanges.input_of_some (reads.symm.trans readsData)

/-- A step appends to the output and takes a byte only where it reads one. -/
theorem streams_step (execution : Execution ConsoleBuffer) :
    execution.Streams execution.step := by
  by_cases dispatches : ∃ instruction, execution.machine.Dispatches instruction
  · obtain ⟨instruction, running, inCode, next, fetched⟩ := dispatches
    exact streams_step_of_fetch running inCode fetched
  · refine streams_of_same_device
      (byteRegister?_eq_none_of_not_dispatches (not_exists.mp dispatches)) ?_
    -- Without an instruction a step asks nothing of the console.
    rcases Machine.transition_cases execution.machine with
        ⟨_, done⟩ | ⟨_, _, done⟩ | ⟨_, _, _, _, done⟩ |
        ⟨running, inCode, instruction, next, fetched, _⟩
    · simp only [step, Machine.step, done, Transition.carryOut]
    · simp only [step, Machine.step, done, Transition.carryOut]
    · simp only [step, Machine.step, done, Transition.carryOut]
    · exact (dispatches ⟨instruction, running, inCode, next, fetched⟩).elim

/-- A step asks for a byte that is not there, or ignores further input. -/
theorem step_feed
    (extra : List UInt8)
    (execution : Execution ConsoleBuffer) :
    execution.step.machine.Starved ∨
      (execution.feed extra).step = execution.step.feed extra := by
  rcases execution.machine.transition.carryOut_feed extra execution.device with
      ⟨resume, waits, carried⟩ | same
  · left
    have stepped : execution.step.machine =
        (resume (.error ConsoleBuffer.endOfInput)).machine := by
      rw [step, Machine.step, carried]
    rw [stepped]
    exact Machine.starved_of_transition_eq_read waits _
  · right
    simp only [step, Machine.step, feed, same]

end Steps

section Runs

variable (start : Execution ConsoleBuffer) (count : Nat)

theorem bytesRead_succ :
    start.bytesRead (count + 1) =
      start.bytesRead count +
        if (step^[count] start).byteRegister?.isSome then 1 else 0 := by
  rw [bytesRead, List.range_succ, List.countP_append, List.countP_singleton]
  rfl

/-- The input that is left is the input without as many bytes as have been read. -/
theorem input_iterate_step :
    start.bytesRead count ≤ start.device.input.length ∧
      (step^[count] start).device.input =
        start.device.input.drop (start.bytesRead count) := by
  induction count with
  | zero =>
      exact ⟨Nat.zero_le _, rfl⟩
  | succ count inductionHypothesis =>
      obtain ⟨enough, input⟩ := inductionHypothesis
      have streams := streams_step (step^[count] start)
      rw [bytesRead_succ, Function.iterate_succ_apply']
      cases reads : (step^[count] start).byteRegister? with
      | none =>
          exact ⟨enough, (streams.untouched reads).trans input⟩
      | some data =>
          obtain ⟨byte, waiting, _⟩ := streams.taken data reads
          rw [input] at waiting
          have length := congrArg List.length waiting
          rw [List.length_drop, List.length_cons] at length
          rw [Option.isSome_some, if_pos rfl, ← List.drop_drop, waiting]
          exact ⟨by omega, rfl⟩

/-- Each byte that is read is the one at its place in the input. -/
theorem byte_iterate_step
    {index : Nat}
    {data : Register}
    (reads : (step^[index] start).byteRegister? = some data) :
    ∃ byte, start.device.input[start.bytesRead index]? = some byte ∧
      (step^[index + 1] start).machine.registers.get data = byte.toUInt64 := by
  obtain ⟨byte, waiting, stored⟩ := (streams_step _).taken data reads
  refine ⟨byte, ?_, ?_⟩
  · rw [(input_iterate_step start index).2] at waiting
    rw [← List.head?_drop, waiting, List.head?_cons]
  · rw [Function.iterate_succ_apply']
    exact stored

theorem output_iterate_step
    {count later : Nat}
    (le : count ≤ later) :
    (step^[count] start).device.output <+: (step^[later] start).device.output := by
  induction le with
  | refl =>
      exact List.prefix_rfl
  | @step later _ inductionHypothesis =>
      rw [Function.iterate_succ_apply']
      exact inductionHypothesis.trans (streams_step _).output

/-- A run that did not ask for a byte that was not there ignores further input. -/
theorem iterate_step_feed
    (extra : List UInt8) :
    (step^[count] start).machine.Starved ∨
      step^[count] (start.feed extra) = (step^[count] start).feed extra :=
  iterate_step_commutes Machine.Starved.isTerminal (step_feed extra) start count

end Runs

/--
The console streams of a run from any start.  Output only grows.  As many bytes
are missing from the input as there were steps that read one, and these are its
first bytes; the step that reads after a number of others gets the byte at that
place of the input, in the data register of its trap.  A run that was not stopped
for lack of input is the same when the input goes on, which is then left over.
-/
theorem console_streams
    (start : Execution ConsoleBuffer)
    (count : Nat) :
    let reached := step^[count] start
    (∀ later, count ≤ later →
      reached.device.output <+: (step^[later] start).device.output) ∧
    start.bytesRead count ≤ start.device.input.length ∧
    reached.device.input = start.device.input.drop (start.bytesRead count) ∧
    (∀ index data, (step^[index] start).byteRegister? = some data →
      ∃ byte, start.device.input[start.bytesRead index]? = some byte ∧
        (step^[index + 1] start).machine.registers.get data = byte.toUInt64) ∧
    ((∀ reason, reached.machine.status ≠ .faulted (.consoleInput reason)) →
      ∀ extra, step^[count] (start.feed extra) = reached.feed extra) := by
  intro reached
  obtain ⟨enough, input⟩ := input_iterate_step start count
  refine ⟨fun later le => output_iterate_step start le, enough, input,
    fun index data reads => byte_iterate_step start reads, ?_⟩
  intro served extra
  rcases iterate_step_feed start count extra with ⟨reason, stopped⟩ | same
  · exact (served reason stopped).elim
  · exact same

/-- Two traps that read a byte each, into different registers, and one that writes. -/
private def readTwice : Execution ConsoleBuffer where
  machine :=
    { memory := .ofImage [20, 0, 2, 20, 0, 3, 20, 1, 3, 0] 10
      registers := ({} : Registers).set (Register.ofByte 0) 1
      codeSize := 10 }
  device := { input := [65, 66, 67] }

/-- Both bytes are read in order, and a fourth byte of input is left over. -/
theorem console_streams_readTwice :
    readTwice.bytesRead 4 = 2 ∧
      (step^[4] readTwice).device.input = [67] ∧
      (step^[2] readTwice).machine.registers.get 3 = 66 ∧
      (step^[4] (readTwice.feed [68])).device.input = [67, 68] ∧
      (step^[4] (readTwice.feed [68])).device.output = [66] := by
  have reads : readTwice.bytesRead 4 = 2 := by decide +kernel
  have before : readTwice.bytesRead 1 = 1 := by decide +kernel
  have second : (step^[1] readTwice).byteRegister? = some 3 := by decide +kernel
  have halted : (step^[4] readTwice).machine.status = .halted := by decide +kernel
  have output : (step^[4] readTwice).device.output = [66] := by decide +kernel
  obtain ⟨_, _, input, stored, ignores⟩ := console_streams readTwice 4
  rw [reads] at input
  obtain ⟨byte, place, value⟩ := stored 1 3 second
  rw [before] at place
  obtain rfl : 66 = byte := Option.some.inj place
  have left : (step^[4] readTwice).device.input = [67] := input
  have fed : step^[4] (readTwice.feed [68]) = (step^[4] readTwice).feed [68] := by
    refine ignores (fun reason => ?_) [68]
    rw [halted]
    nofun
  refine ⟨reads, left, value, ?_, ?_⟩
  · rw [fed, feed, ConsoleBuffer.feed, left]
    rfl
  · rw [fed]
    exact output

end Execution

end RegisterMachine
