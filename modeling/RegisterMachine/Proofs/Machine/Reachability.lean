import RegisterMachine.Proofs.Machine.Runs

namespace RegisterMachine

/-!
# Machines that a host can reach

A host loads an image, drives the machine with any console, and may write
registers and memory words in between, also inside the image.  Whatever it does,
the sizes stay as they were loaded, and a machine that has stopped by a fault
stands in its image at the instruction that the fault is about: the invariant is
`Machine.Consistent`, each call keeps it, and so it holds of every machine that
can be reached.
-/

/-- What has stopped, but not by a fault, has halted. -/
theorem Status.forall_ne_faulted_iff
    {status : Status}
    (terminal : status.isTerminal = true) :
    (∀ fault, status ≠ .faulted fault) ↔ status = .halted := by
  cases status with
  | running =>
      cases terminal
  | halted =>
      exact ⟨fun _ => rfl, fun _ => nofun⟩
  | faulted fault =>
      exact ⟨fun other => (other fault rfl).elim, nofun⟩

/-- The faults that a machine can have been stopped by, and what each says of it. -/
inductive Fault.Describes (machine : Machine) : Fault → Prop where
  | unknownOpcode {code : UInt8} :
      Describes machine (.undecodable (.unknownOpcode code machine.pc))
  | truncated {mnemonic : String} :
      Describes machine (.undecodable (.truncated mnemonic machine.pc))
  | outOfBounds {address : UInt64} :
      machine.memory.size < address.toNat + Word.byteCount →
      Describes machine (.outOfBounds address machine.memory.size)
  | divisionByZero :
      Describes machine (.divisionByZero machine.pc)
  | consoleInput {reason : String} :
      Describes machine (.consoleInput reason)

/-- What a fault says of a machine depends on where it stands and its memory size. -/
theorem Fault.Describes.congr
    {machine other : Machine}
    {fault : Fault}
    (describes : fault.Describes machine)
    (samePc : other.pc = machine.pc)
    (sameSize : other.memory.size = machine.memory.size) :
    fault.Describes other := by
  cases describes with
  | unknownOpcode =>
      rw [← samePc]
      exact .unknownOpcode
  | truncated =>
      rw [← samePc]
      exact .truncated
  | outOfBounds outside =>
      rw [← sameSize] at outside ⊢
      exact .outOfBounds outside
  | divisionByZero =>
      rw [← samePc]
      exact .divisionByZero
  | consoleInput =>
      exact .consoleInput

theorem Fault.Describes.position
    {machine : Machine}
    {fault : Fault}
    {position : Nat}
    (describes : fault.Describes machine)
    (named : fault.position? = some position) :
    position = machine.pc := by
  cases describes with
  | unknownOpcode | truncated | divisionByZero =>
      exact (Option.some.inj named).symm
  | outOfBounds _ =>
      cases named
  | consoleInput =>
      cases named

namespace Machine

theorem describes_of_decodeError
    {machine : Machine}
    {cause : Image.DecodeError}
    (position : cause.position = machine.pc) :
    (Fault.undecodable cause).Describes machine := by
  cases cause with
  | unknownOpcode code stands =>
      obtain rfl : stands = machine.pc := position
      exact .unknownOpcode
  | truncated mnemonic stands =>
      obtain rfl : stands = machine.pc := position
      exact .truncated

theorem Raises.describes
    {Device : Type}
    [Console Device]
    {machine : Machine}
    {device after : Device}
    {instruction : Instruction}
    {fault : Fault}
    (raised : Raises machine device instruction fault after) :
    fault.Describes machine := by
  cases raised with
  | load outside =>
      exact .outOfBounds outside
  | store outside =>
      exact .outOfBounds outside
  | divide _ =>
      exact .divisionByZero
  | getc _ _ =>
      exact .consoleInput

/-- An instruction that raises no fault keeps the size of the memory. -/
theorem Advances.memory_size
    {before after : Machine}
    {instruction : Instruction}
    {next : Nat}
    (advances : Advances before instruction next after) :
    after.memory.size = before.memory.size := by
  have memory := advances.memory
  split at memory
  · exact Memory.size_of_setWord? memory
  · rw [memory]

/-- What holds of every machine that was loaded with an image into a memory size. -/
structure Consistent (code : List UInt8) (memorySize : Nat)
    (machine : Machine) : Prop where
  memory :
    machine.memory.size = memorySize
  codeSize :
    machine.codeSize = code.length
  fits :
    code.length ≤ memorySize
  fault :
    ∀ fault, machine.status = .faulted fault →
      machine.pc < machine.codeSize ∧ fault.Describes machine

variable {code : List UInt8} {memorySize : Nat} {machine : Machine}

theorem Consistent.codeSize_le
    (consistent : Consistent code memorySize machine) :
    machine.codeSize ≤ machine.memory.size := by
  rw [consistent.codeSize, consistent.memory]
  exact consistent.fits

theorem consistent_of_load
    (load : Machine.load code memorySize = .ok machine) :
    Consistent code memorySize machine := by
  unfold Machine.load at load
  split at load
  · next fits =>
      cases load
      exact ⟨Memory.size_ofImage fits, rfl, fits, nofun⟩
  · cases load

/-- A running machine is consistent if its image is inside its memory. -/
theorem consistent_of_running
    (running : machine.status = .running)
    (fits : machine.codeSize ≤ machine.memory.size) :
    Consistent (machine.memory.bytes.toList.take machine.codeSize)
      machine.memory.size machine := by
  have length : (machine.memory.bytes.toList.take machine.codeSize).length =
      machine.codeSize := by
    rw [List.length_take, Array.length_toList]
    exact Nat.min_eq_left fits
  refine ⟨rfl, length.symm, Nat.le_trans (Nat.le_of_eq length) fits, ?_⟩
  intro fault faulted
  rw [running] at faulted
  cases faulted

/-- A change of registers or memory that keeps the memory size is harmless. -/
theorem Consistent.of_same
    {after : Machine}
    (consistent : Consistent code memorySize machine)
    (samePc : after.pc = machine.pc)
    (sameSize : after.memory.size = machine.memory.size)
    (sameCodeSize : after.codeSize = machine.codeSize)
    (sameStatus : after.status = machine.status) :
    Consistent code memorySize after := by
  refine ⟨sameSize.trans consistent.memory,
    sameCodeSize.trans consistent.codeSize, consistent.fits, ?_⟩
  intro fault faulted
  obtain ⟨inCode, describes⟩ :=
    consistent.fault fault (sameStatus.symm.trans faulted)
  rw [samePc, sameCodeSize]
  exact ⟨inCode, describes.congr samePc sameSize⟩

theorem Consistent.writeWord
    {after : Machine}
    {address value : UInt64}
    (consistent : Consistent code memorySize machine)
    (written : machine.writeWord address value = .ok after) :
    Consistent code memorySize after := by
  unfold Machine.writeWord at written
  split at written
  · cases written
  · next memory changed =>
      cases written
      exact consistent.of_same rfl (Memory.size_of_setWord? changed) rfl rfl

/-- A step of a consistent machine leaves it consistent. -/
theorem Consistent.step
    {Device : Type}
    [Console Device]
    (consistent : Consistent code memorySize machine)
    (device : Device) :
    Consistent code memorySize (machine.step device).1.machine := by
  by_cases running : machine.status = .running
  · rcases step_effect_cases running consistent.codeSize_le device with
        ⟨_, stepped⟩ | ⟨inCode, cause, _, position, stepped⟩ |
        ⟨inCode, instruction, _, ⟨fault, stopped, raises⟩ | advances⟩
    · rw [stepped]
      exact ⟨consistent.memory, consistent.codeSize, consistent.fits, nofun⟩
    · rw [stepped]
      refine ⟨consistent.memory, consistent.codeSize, consistent.fits, ?_⟩
      intro fault faulted
      cases faulted
      exact ⟨inCode, (describes_of_decodeError position).congr rfl rfl⟩
    · -- The count of started steps is all that a raised fault changes beside the status.
      rw [stopped]
      refine ⟨consistent.memory, consistent.codeSize, consistent.fits, ?_⟩
      intro fault faulted
      cases faulted
      exact ⟨inCode, raises.describes.congr rfl rfl⟩
    · refine ⟨advances.memory_size.trans consistent.memory,
        advances.codeSize.trans consistent.codeSize, consistent.fits, ?_⟩
      intro fault faulted
      exact (advances.status_ne_faulted running fault faulted).elim
  · rw [step_of_isTerminal (Status.isTerminal_of_ne_running running)]
    exact consistent

theorem Consistent.iterate_step
    {Device : Type}
    [Console Device]
    {start : Execution Device}
    (consistent : Consistent code memorySize start.machine)
    (count : Nat) :
    Consistent code memorySize (Execution.step^[count] start).machine := by
  induction count with
  | zero =>
      exact consistent
  | succ count inductionHypothesis =>
      rw [Function.iterate_succ_apply']
      exact inductionHypothesis.step _

/--
The machines that a host can reach from an image loaded into a memory size, by
calls in any order and with any console at each call.  A write outside memory is
refused and changes nothing.
-/
inductive Reachable (code : List UInt8) (memorySize : Nat) : Machine → Prop where
  | load {machine : Machine} :
      Machine.load code memorySize = .ok machine →
      Reachable code memorySize machine
  | step {Device : Type} [Console Device] {execution : Execution Device} :
      Reachable code memorySize execution.machine →
      Reachable code memorySize execution.step.machine
  | runFor {Device : Type} [Console Device] {execution : Execution Device}
      (limit : Nat) :
      Reachable code memorySize execution.machine →
      Reachable code memorySize (execution.runFor limit).machine
  | run {Device : Type} [Console Device] {execution final : Execution Device}
      {fuel : Nat} :
      Reachable code memorySize execution.machine →
      execution.run? fuel = some final →
      Reachable code memorySize final.machine
  | writeRegister {machine : Machine} (index : UInt8) (value : UInt64) :
      Reachable code memorySize machine →
      Reachable code memorySize
        (machine.writeRegister (Register.ofByte index) value)
  | writeWord {machine after : Machine} {address value : UInt64} :
      Reachable code memorySize machine →
      machine.writeWord address value = .ok after →
      Reachable code memorySize after

/-- Every machine that a host can reach is consistent. -/
theorem Reachable.consistent
    (reachable : Reachable code memorySize machine) :
    Consistent code memorySize machine := by
  induction reachable with
  | load loaded =>
      exact consistent_of_load loaded
  | step _ inductionHypothesis =>
      exact inductionHypothesis.step _
  | runFor limit _ inductionHypothesis =>
      rw [Execution.runFor_eq_iterate_step]
      exact inductionHypothesis.iterate_step limit
  | run _ ran inductionHypothesis =>
      obtain ⟨count, _, _, rfl⟩ := Execution.run?_eq_some_iff.mp ran
      exact inductionHypothesis.iterate_step count
  | writeRegister index value _ inductionHypothesis =>
      exact inductionHypothesis.of_same rfl rfl rfl rfl
  | writeWord _ written inductionHypothesis =>
      exact inductionHypothesis.writeWord written

/--
What holds of every machine that a host can reach.  Its memory and its image
have the sizes that they were loaded with.  It has a fault exactly if it was
stopped by one; it then stands inside its image, and the fault names where it
stands and the size of its memory.  Once it has stopped, driving it in any way
changes neither it nor the console, and a run returns its fault again.
-/
theorem reachable_invariant
    (reachable : Reachable code memorySize machine) :
    machine.memory.size = memorySize ∧
      machine.codeSize = code.length ∧
      code.length ≤ memorySize ∧
      (machine.status.fault?.isSome = true ↔
        ∃ fault, machine.status = .faulted fault) ∧
      (∀ fault, machine.status.fault? = some fault →
        machine.pc < machine.codeSize ∧
          fault.Describes machine ∧
          ∀ position, fault.position? = some position → position = machine.pc) ∧
      (machine.status.isTerminal = true →
        ∀ (Device : Type) [Console Device] (device : Device)
          (journal : Log.Journal),
          let execution : Execution Device := ⟨machine, device, journal⟩
          execution.step = execution ∧
            (∀ limit, execution.runFor limit = execution) ∧
            (∀ fuel, execution.run? fuel = some execution) ∧
            (∀ fault, execution.verdict = .error fault ↔
              machine.status.fault? = some fault) ∧
            (execution.verdict = .ok () ↔ machine.status = .halted)) := by
  have consistent := reachable.consistent
  refine ⟨consistent.memory, consistent.codeSize, consistent.fits, ?_, ?_, ?_⟩
  · rw [Option.isSome_iff_exists]
    exact exists_congr fun _ => Status.fault?_eq_some_iff
  · intro fault stopped
    obtain ⟨inCode, describes⟩ :=
      consistent.fault fault (Status.fault?_eq_some_iff.mp stopped)
    exact ⟨inCode, describes, fun _ => describes.position⟩
  · intro terminal Device _ device journal execution
    refine ⟨Execution.step_of_isTerminal terminal,
      fun limit => Execution.runFor_of_isTerminal terminal limit, ?_, ?_, ?_⟩
    · intro fuel
      exact Execution.run?_eq_some_iff.mpr
        ⟨0, Nat.zero_le fuel, Execution.stopsAfter_zero_iff.mpr terminal, rfl⟩
    · intro fault
      rw [Status.fault?_eq_some_iff]
      exact Execution.verdict_eq_error_iff
    · rw [Execution.verdict_eq_ok_iff]
      exact Status.forall_ne_faulted_iff terminal

/-- An image of two instructions, `INC R1` and `HALT`. -/
private def patchedImage : List UInt8 := [9, 1, 0]

private def patchedLoaded : Machine :=
  { memory := .ofImage patchedImage 12, codeSize := patchedImage.length }

private def patchedStepped : Execution ConsoleBuffer :=
  Execution.runFor 1 ⟨patchedLoaded, {}, {}⟩

/-- The machine after its host has put a load in the place of `HALT`. -/
private def patched : Machine :=
  { patchedStepped.machine.writeRegister (Register.ofByte 10) 7 with
    memory := ⟨#[9, 1, 2, 1, 5, 0, 0, 0, 0, 0, 0, 0]⟩ }

private def patchedStopped : Execution ConsoleBuffer :=
  Execution.step ⟨patched, { input := [65] }, {}⟩

/--
A load that the host put into the image runs past the end of memory: the machine
stands at it, inside its image, and stays there.
-/
theorem reachable_invariant_patched :
    Reachable patchedImage 12 patchedStopped.machine ∧
      patchedStopped.machine.status = .faulted (.outOfBounds 5 12) ∧
      patchedStopped.machine.pc < patchedStopped.machine.codeSize ∧
      (Fault.outOfBounds 5 12).Describes patchedStopped.machine ∧
      patchedStopped.step = patchedStopped ∧
      patchedStopped.verdict = .error (.outOfBounds 5 12) := by
  have loaded : Reachable patchedImage 12 patchedLoaded := .load rfl
  have stepped : Reachable patchedImage 12 patchedStepped.machine :=
    .runFor 1 loaded
  have patch :
      (patchedStepped.machine.writeRegister (Register.ofByte 10) 7).writeWord 2
        327938 = .ok patched := by rfl
  have ran :
      Execution.run? 1 ⟨patched, { input := [65] }, {}⟩ = some patchedStopped := by
    rfl
  have written : Reachable patchedImage 12 patched :=
    .writeWord (.writeRegister 10 7 stepped) patch
  have reachable : Reachable patchedImage 12 patchedStopped.machine :=
    .run written ran
  have stopped :
      patchedStopped.machine.status = .faulted (.outOfBounds 5 12) := rfl
  obtain ⟨_, _, _, _, faulted, stays⟩ := reachable_invariant reachable
  obtain ⟨inCode, describes, _⟩ :=
    faulted _ (Status.fault?_eq_some_iff.mpr stopped)
  obtain ⟨step, _, _, verdict, _⟩ :=
    stays rfl ConsoleBuffer patchedStopped.device patchedStopped.journal
  exact ⟨reachable, stopped, inCode, describes, step,
    (verdict _).mpr (Status.fault?_eq_some_iff.mpr stopped)⟩

end Machine

end RegisterMachine
