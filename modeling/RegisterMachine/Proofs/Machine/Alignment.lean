import Mathlib.Logic.Function.Iterate
import RegisterMachine.Machine.Execution
import RegisterMachine.Proofs.Machine.Step

namespace RegisterMachine

/-!
# Runs that stay on the decoded instructions

An image is decoded once from its start, a machine fetches wherever its program
counter stands.  As long as every taken jump lands on a decoded instruction or
behind the image, and no store changes the image, the machine runs exactly the
decoded instructions: the invariant is `Aligned`, one step keeps it
(`Aligned.step`) and so does every run.
-/

/-- A position where a decoded instruction stands, or one behind the image. -/
def OnBoundary (code : List UInt8) (entries : List Image.Entry)
    (position : Nat) : Prop :=
  (∃ entry ∈ entries, entry.offset = position) ∨ code.length ≤ position

namespace Memory

private theorem take_putBytes_of_le
    {bytes : Array UInt8}
    {values : List UInt8}
    {position address : Nat}
    (behind : position ≤ address) :
    (putBytes bytes address values).toList.take position =
      bytes.toList.take position := by
  induction values generalizing bytes address with
  | nil =>
      rfl
  | cons value rest inductionHypothesis =>
      rw [putBytes, inductionHypothesis (Nat.le_succ_of_le behind),
        Array.toList_setIfInBounds, List.take_set_of_le behind]

/-- A word that is stored behind an image leaves the image in memory. -/
theorem prefix_of_setWord?
    {code : List UInt8}
    {memory changed : Memory}
    {address : Nat}
    {value : UInt64}
    (image : code <+: memory.bytes.toList)
    (behind : code.length ≤ address)
    (written : memory.setWord? address value = some changed) :
    code <+: changed.bytes.toList := by
  unfold setWord? at written
  split at written
  · rw [← Option.some.inj written, List.prefix_iff_eq_take,
      take_putBytes_of_le behind]
    exact List.prefix_iff_eq_take.mp image
  · cases written

end Memory

namespace Machine

/--
The next step keeps to the image: a jump that is taken lands on a boundary, and
a store that succeeds is behind the image.
-/
def Confined (code : List UInt8) (entries : List Image.Entry)
    (machine : Machine) : Prop :=
  ∀ instruction, machine.Dispatches instruction →
    (∀ target, instruction.jumpTarget? machine.registers = some target →
      OnBoundary code entries target.toNat) ∧
    ∀ address value, instruction.store? machine.registers = some (address, value) →
      address.toNat + Word.byteCount ≤ machine.memory.size →
      code.length ≤ address.toNat

/-- A machine that holds its image unchanged and stands on a boundary while it runs. -/
structure Aligned (code : List UInt8) (entries : List Image.Entry)
    (machine : Machine) : Prop where
  codeSize :
    machine.codeSize = code.length
  image :
    code <+: machine.memory.bytes.toList
  pc :
    machine.status = .running → OnBoundary code entries machine.pc
  decodable :
    ∀ cause, machine.status ≠ .faulted (.undecodable cause)

namespace Aligned

variable {code : List UInt8} {entries : List Image.Entry} {machine : Machine}

theorem codeSize_le
    (aligned : Aligned code entries machine) :
    machine.codeSize ≤ machine.memory.size := by
  rw [aligned.codeSize, Memory.size, ← Array.length_toList]
  exact aligned.image.length_le

/-- A decoded instruction is fetched where it stands, up to the next boundary. -/
theorem fetch_entry
    (aligned : Aligned code entries machine)
    (decoded : Image.decode code = .ok entries)
    {entry : Image.Entry}
    (member : entry ∈ entries)
    (stands : machine.pc = entry.offset) :
    machine.pc < machine.codeSize ∧
      OnBoundary code entries (entry.offset + entry.opcode.size) ∧
      ∃ instruction : Instruction,
        machine.fetch =
            .ok (instruction, entry.offset + entry.opcode.size) ∧
          instruction.opcode = entry.opcode ∧
          instruction.operands = entry.operands := by
  obtain ⟨before, tail, rest, split, offset, read, followed⟩ :=
    Image.exists_split_of_mem decoded member
  rw [Nat.zero_add] at offset
  obtain ⟨data, memoryShape⟩ := aligned.image
  have shape :
      machine.memory.bytesFrom machine.pc =
        entry.opcode.code :: (tail ++ data) := by
    rw [Memory.bytesFrom, ← memoryShape, split, stands, offset,
      List.append_assoc, List.drop_left' rfl, List.cons_append]
  obtain ⟨instruction, fetched, sameOpcode, sameOperands⟩ :=
    fetch_of_readOperands? shape (Image.readOperands?_append read data)
  have length :
      code.length = before.length + (entry.opcode.size + rest.length) := by
    have taken := Image.length_of_readOperands? read
    rw [split, List.length_append, List.length_cons, taken, Opcode.size,
      Opcode.operandSize]
    omega
  have inCode : machine.pc < machine.codeSize := by
    have positive := entry.opcode.size_pos
    rw [aligned.codeSize, stands, offset, length]
    omega
  have boundary :
      OnBoundary code entries (entry.offset + entry.opcode.size) := by
    rcases followed with ⟨next, nextMember, nextOffset⟩ | ended
    · exact .inl ⟨next, nextMember, nextOffset⟩
    · right
      rw [length, ended, offset, List.length_nil]
      omega
  rw [stands] at fetched
  exact ⟨inCode, boundary, instruction, fetched, sameOpcode, sameOperands⟩

theorem exists_entry
    (aligned : Aligned code entries machine)
    (running : machine.status = .running)
    (inCode : machine.pc < machine.codeSize) :
    ∃ entry ∈ entries, machine.pc = entry.offset := by
  rcases aligned.pc running with ⟨entry, member, stands⟩ | behind
  · exact ⟨entry, member, stands.symm⟩
  · rw [aligned.codeSize] at inCode
    exact (Nat.not_lt.mpr behind inCode).elim

private theorem of_advances
    (aligned : Aligned code entries machine)
    (running : machine.status = .running)
    (confined : Confined code entries machine)
    {instruction : Instruction}
    (dispatches : machine.Dispatches instruction)
    {next : Nat}
    (boundary : OnBoundary code entries next)
    {after : Machine}
    (advances :
      Advances { machine with steps := machine.steps + 1 } instruction next
        after) :
    Aligned code entries after := by
  obtain ⟨jumps, stores⟩ := confined instruction dispatches
  refine ⟨advances.codeSize.trans aligned.codeSize, ?_, ?_, ?_⟩
  · have memory := advances.memory
    split at memory
    · next address value stored =>
        have inside : address.toNat + Word.byteCount ≤ machine.memory.size := by
          unfold Memory.setWord? at memory
          split at memory
          · assumption
          · cases memory
        exact Memory.prefix_of_setWord? aligned.image
          (stores address value stored inside) memory
    · rw [memory]
      exact aligned.image
  · intro _
    have pc := advances.pc
    split at pc
    · next target jumped =>
        rw [pc]
        exact jumps target jumped
    · rw [pc]
      exact boundary
  · exact fun cause => advances.status_ne_faulted running _

/-- A step that keeps to the image leaves an aligned machine aligned. -/
theorem step
    {Device : Type}
    [Console Device]
    (decoded : Image.decode code = .ok entries)
    (aligned : Aligned code entries machine)
    (confined : Confined code entries machine)
    (device : Device) :
    Aligned code entries (machine.step device).1.machine := by
  by_cases running : machine.status = .running
  · rcases step_effect_cases running aligned.codeSize_le device with
        ⟨_, stepped⟩ | ⟨inCode, cause, failed, _, _⟩ |
        ⟨inCode, instruction, fetched, ⟨fault, stopped, raises⟩ | advances⟩
    · rw [stepped]
      refine ⟨aligned.codeSize, aligned.image, ?_, ?_⟩
      · intro stillRunning
        cases stillRunning
      · intro cause undecodable
        cases undecodable
    · -- The decoder has read an instruction here, so it can be fetched.
      obtain ⟨entry, member, stands⟩ := aligned.exists_entry running inCode
      obtain ⟨_, _, instruction, fetched, _⟩ :=
        aligned.fetch_entry decoded member stands
      rw [failed] at fetched
      cases fetched
    · rw [stopped]
      refine ⟨aligned.codeSize, aligned.image, ?_, ?_⟩
      · intro stillRunning
        cases stillRunning
      · intro cause undecodable
        cases undecodable
        cases raises
    · obtain ⟨entry, member, stands⟩ := aligned.exists_entry running inCode
      obtain ⟨_, boundary, same, fetchedEntry, sameOpcode, _⟩ :=
        aligned.fetch_entry decoded member stands
      rw [fetched] at fetchedEntry
      injection fetchedEntry with sameFetch
      injection sameFetch with sameInstruction sameNext
      rw [sameNext] at advances
      exact aligned.of_advances running confined
        ⟨running, inCode, _, fetched⟩ boundary advances
  · rw [step_of_isTerminal (Status.isTerminal_of_ne_running running)]
    exact aligned

end Aligned

/-- A machine that was just loaded is aligned, whatever its registers hold. -/
theorem aligned_of_load
    {code : List UInt8}
    {entries : List Image.Entry}
    (decoded : Image.decode code = .ok entries)
    {memorySize : Nat}
    {loaded : Machine}
    (load : Machine.load code memorySize = .ok loaded)
    (registers : Registers) :
    Aligned code entries { loaded with registers := registers } := by
  unfold Machine.load at load
  split at load
  · cases load
    refine ⟨rfl, ?_, ?_, nofun⟩
    · simp only [Memory.ofImage, Array.toList_append]
      exact List.prefix_append _ _
    · intro _
      rcases Image.exists_first_of_decodeFrom decoded with first | empty
      · exact .inl first
      · exact .inr (Nat.le_of_eq (List.length_eq_zero_iff.mpr empty))
  · cases load

/-- A run whose steps all keep to the image stays aligned. -/
theorem Aligned.iterate_step
    {Device : Type}
    [Console Device]
    {code : List UInt8}
    {entries : List Image.Entry}
    (decoded : Image.decode code = .ok entries)
    {start : Execution Device}
    (aligned : Aligned code entries start.machine)
    (count : Nat)
    (confined : ∀ index < count,
      Confined code entries (Execution.step^[index] start).machine) :
    Aligned code entries (Execution.step^[count] start).machine := by
  induction count with
  | zero =>
      exact aligned
  | succ count inductionHypothesis =>
      have before := inductionHypothesis
        fun index inside => confined index (Nat.lt_succ_of_lt inside)
      rw [Function.iterate_succ_apply']
      exact before.step decoded (confined count (Nat.lt_succ_self count)) _

/--
The decoder and the machine agree over a whole run, from any registers, that
keeps to the image: a running machine stands on a boundary, on a decoded entry
it executes that entry's instruction with the entry's operands, goes on behind
it unless it jumps or faults, and never finds bytes that are no instruction.
-/
theorem run_agrees_with_decode
    {Device : Type}
    [Console Device]
    {code : List UInt8}
    {entries : List Image.Entry}
    {memorySize : Nat}
    (decoded : Image.decode code = .ok entries)
    (fits : code.length ≤ memorySize) :
    ∃ loaded, Machine.load code memorySize = .ok loaded ∧
      ∀ (registers : Registers) (device : Device) (journal : Log.Journal)
        (count : Nat),
        let start : Execution Device :=
          ⟨{ loaded with registers := registers }, device, journal⟩
        let reached := Execution.step^[count] start
        (∀ index < count,
          Confined code entries (Execution.step^[index] start).machine) →
        (reached.machine.status = .running →
          OnBoundary code entries reached.machine.pc) ∧
        (∀ cause, reached.machine.status ≠ .faulted (.undecodable cause)) ∧
        ∀ entry ∈ entries,
          reached.machine.status = .running →
          reached.machine.pc = entry.offset →
          ∃ instruction : Instruction,
            instruction.opcode = entry.opcode ∧
            instruction.operands = entry.operands ∧
            reached.machine.Dispatches instruction ∧
            reached.machine.transition =
              { reached.machine with
                steps := reached.machine.steps + 1 }.execute
                instruction (entry.offset + entry.opcode.size) ∧
            (instruction.jumpTarget? reached.machine.registers = none →
              (∀ fault, reached.step.machine.status ≠ .faulted fault) →
              reached.step.machine.pc = entry.offset + entry.opcode.size) := by
  have load := load_eq_ok fits
  refine ⟨_, load, ?_⟩
  intro registers device journal count start reached confined
  have aligned : Aligned code entries reached.machine :=
    (aligned_of_load decoded load registers).iterate_step decoded count confined
  refine ⟨aligned.pc, aligned.decodable, ?_⟩
  intro entry member running stands
  obtain ⟨inCode, _, instruction, fetched, sameOpcode, sameOperands⟩ :=
    aligned.fetch_entry decoded member stands
  have notTerminal : reached.machine.status.isTerminal = false :=
    Status.isTerminal_eq_false_iff.mpr running
  have dispatched :
      reached.machine.transition =
        { reached.machine with steps := reached.machine.steps + 1 }.execute
          instruction (entry.offset + entry.opcode.size) := by
    simp only [transition, notTerminal, Nat.not_le.mpr inCode, fetched,
      ↓reduceIte, Bool.false_eq_true]
  refine ⟨instruction, sameOpcode, sameOperands,
    ⟨running, inCode, _, fetched⟩, dispatched, ?_⟩
  intro notJump notFaulted
  have stepped :
      reached.step.machine =
        (({ reached.machine with steps := reached.machine.steps + 1 }.execute
          instruction (entry.offset + entry.opcode.size)).carryOut
            reached.device).1.machine := by
    rw [← dispatched]
    rfl
  rcases execute_cases
      { reached.machine with steps := reached.machine.steps + 1 } instruction
      (entry.offset + entry.opcode.size) reached.device with
      ⟨fault, stopped, _⟩ | advances
  · rw [stopped] at stepped
    rw [stepped] at notFaulted
    exact (notFaulted fault rfl).elim
  · rw [← stepped] at advances
    have pc := advances.pc
    rw [notJump] at pc
    exact pc

/-- A step keeps to the image if the instruction that it fetches does. -/
theorem confined_of_fetch
    {code : List UInt8}
    {entries : List Image.Entry}
    {machine : Machine}
    {instruction : Instruction}
    {next : Nat}
    (fetched : machine.fetch = .ok (instruction, next))
    (jumps : ∀ target,
      instruction.jumpTarget? machine.registers = some target →
        OnBoundary code entries target.toNat)
    (stores : ∀ address value,
      instruction.store? machine.registers = some (address, value) →
        code.length ≤ address.toNat) :
    Confined code entries machine := by
  intro dispatched dispatches
  rw [dispatches.eq_of_fetch fetched]
  exact ⟨jumps, fun address value stored _ => stores address value stored⟩

/-- An endless loop that stores a register in the word behind its image. -/
private def storeLoop : List UInt8 :=
  [1, 1, 0, 0, 0, 0, 0, 0, 0, 0, 3, 1, 22, 0, 0, 0, 0, 0, 0, 0, 16, 1]

private def storeLoopEntries : List Image.Entry :=
  [⟨0, .load, [.register 1, .word 0]⟩,
    ⟨10, .storeAddr, [.register 1, .word 22]⟩,
    ⟨20, .jump, [.register 1]⟩]

/-- The loop at its start, with ten bytes behind the image. -/
private def storeLoopStart : Execution ConsoleBuffer :=
  ⟨{ memory := .ofImage storeLoop 32, codeSize := storeLoop.length }, {}, {}⟩

/-- Three steps of the loop keep to its image and are back at its start. -/
theorem run_agrees_with_decode_storeLoop :
    Image.decode storeLoop = .ok storeLoopEntries ∧
      storeLoop.length ≤ 32 ∧
      (∀ index < 3,
        Confined storeLoop storeLoopEntries
          (Execution.step^[index] storeLoopStart).machine) ∧
      OnBoundary storeLoop storeLoopEntries
        (Execution.step^[3] storeLoopStart).machine.pc ∧
      ∃ instruction : Instruction,
        instruction.opcode = .load ∧
          (Execution.step^[3] storeLoopStart).machine.Dispatches instruction := by
  have decoded : Image.decode storeLoop = .ok storeLoopEntries := by cbv
  have fits : storeLoop.length ≤ 32 := by decide
  have first :
      (Execution.step^[0] storeLoopStart).machine.fetch =
        .ok (.load 1 0, 10) := by rfl
  have second :
      (Execution.step^[1] storeLoopStart).machine.fetch =
        .ok (.storeAddr 1 22, 20) := by rfl
  have third :
      (Execution.step^[2] storeLoopStart).machine.fetch =
        .ok (.jump 1, 22) := by rfl
  have target :
      (Execution.step^[2] storeLoopStart).machine.registers.get 1 = 0 := by rfl
  have running :
      (Execution.step^[3] storeLoopStart).machine.status = .running := by rfl
  have atStart : (Execution.step^[3] storeLoopStart).machine.pc = 0 := by rfl
  have confined : ∀ index < 3,
      Confined storeLoop storeLoopEntries
        (Execution.step^[index] storeLoopStart).machine := by
    intro index inside
    obtain rfl | rfl | rfl : index = 0 ∨ index = 1 ∨ index = 2 := by omega
    · refine confined_of_fetch first ?_ ?_
      · intro reached jumped
        cases jumped
      · intro address value stored
        cases stored
    · refine confined_of_fetch second ?_ ?_
      · intro reached jumped
        cases jumped
      · intro address value stored
        cases stored
        decide
    · refine confined_of_fetch third ?_ ?_
      · intro reached jumped
        obtain rfl : 0 = reached := target.symm.trans (Option.some.inj jumped)
        exact .inl ⟨⟨0, .load, [.register 1, .word 0]⟩, by decide, rfl⟩
      · intro address value stored
        cases stored
  obtain ⟨loaded, load, agrees⟩ :=
    @run_agrees_with_decode ConsoleBuffer _ _ _ _ decoded fits
  obtain rfl :
      { memory := .ofImage storeLoop 32, codeSize := storeLoop.length } =
        loaded :=
    Except.ok.inj load
  obtain ⟨boundary, _, dispatched⟩ := agrees {} {} {} 3 confined
  obtain ⟨instruction, sameOpcode, _, dispatches, _⟩ :=
    dispatched ⟨0, .load, [.register 1, .word 0]⟩ (by decide) running atStart
  exact ⟨decoded, fits, confined, boundary running, instruction, sameOpcode,
    dispatches⟩

end Machine

end RegisterMachine
