import RegisterMachine.Proofs.Assembly.Reassembly
import RegisterMachine.Proofs.Machine.Alignment
import RegisterMachine.Proofs.Machine.MemoryChange

namespace RegisterMachine

/-!
# Machines with an equivalent image

Assembling the text of a decoded image gives an image with other bytes that
decodes to the same instructions.  A machine that keeps to its instructions and
neither loads from its image nor stores to it cannot tell the two apart: the
machine with the other image runs in lockstep with it, over any number of steps
(`Machine.run_agrees_with_reassembly`).
-/

namespace Memory

/-- The memory with its first bytes replaced by an image. -/
def withImage (image : List UInt8) (memory : Memory) : Memory :=
  ⟨(image ++ memory.bytes.toList.drop image.length).toArray⟩

variable {image : List UInt8} {memory : Memory}

theorem toList_withImage :
    (memory.withImage image).bytes.toList =
      image ++ memory.bytes.toList.drop image.length :=
  rfl

theorem size_withImage
    (fits : image.length ≤ memory.size) :
    (memory.withImage image).size = memory.size := by
  rw [size, ← Array.length_toList, toList_withImage, List.length_append,
    List.length_drop, Array.length_toList]
  exact Nat.add_sub_of_le fits

/-- Behind the image the bytes are the old ones. -/
theorem bytesFrom_withImage
    {address : Nat}
    (behind : image.length ≤ address) :
    (memory.withImage image).bytesFrom address = memory.bytesFrom address := by
  rw [bytesFrom, toList_withImage, List.drop_append,
    List.drop_eq_nil_of_le behind, List.nil_append, List.drop_drop,
    Nat.add_sub_of_le behind, bytesFrom]

theorem word?_withImage
    {address : Nat}
    (fits : image.length ≤ memory.size)
    (apart : address + Word.byteCount ≤ memory.size → image.length ≤ address) :
    (memory.withImage image).word? address = memory.word? address := by
  by_cases inside : address + Word.byteCount ≤ memory.size
  · have insideAgain :
        address + Word.byteCount ≤ (memory.withImage image).size := by
      rw [size_withImage fits]
      exact inside
    rw [word?_eq_of_le inside, word?_eq_of_le insideAgain,
      bytesFrom_withImage (apart inside)]
  · rw [word?, size_withImage fits, if_neg inside, word?, if_neg inside]

private theorem putBytes_withImage
    {bytes : Array UInt8}
    {values : List UInt8}
    {address : Nat}
    (behind : image.length ≤ address) :
    putBytes (withImage image ⟨bytes⟩).bytes address values =
      (withImage image ⟨putBytes bytes address values⟩).bytes := by
  induction values generalizing bytes address with
  | nil =>
      rfl
  | cons value rest inductionHypothesis =>
      have first :
          (withImage image ⟨bytes⟩).bytes.setIfInBounds address value =
            (withImage image ⟨bytes.setIfInBounds address value⟩).bytes := by
        apply Array.toList_inj.mp
        rw [Array.toList_setIfInBounds, toList_withImage, toList_withImage,
          Array.toList_setIfInBounds, List.set_append_right _ _ behind,
          List.drop_set, if_neg (Nat.not_lt.mpr behind)]
      rw [putBytes, putBytes, first,
        inductionHypothesis (Nat.le_succ_of_le behind)]

/-- A store behind the image, or one that fails, goes the same way. -/
theorem setWord?_withImage
    {address : Nat}
    {value : UInt64}
    (fits : image.length ≤ memory.size)
    (apart : address + Word.byteCount ≤ memory.size → image.length ≤ address) :
    (memory.withImage image).setWord? address value =
      (memory.setWord? address value).map (withImage image) := by
  by_cases inside : address + Word.byteCount ≤ memory.size
  · rw [setWord?, size_withImage fits, if_pos inside, setWord?, if_pos inside,
      putBytes_withImage (apart inside)]
    rfl
  · rw [setWord?, size_withImage fits, if_neg inside, setWord?, if_neg inside]
    rfl

/-- Memory for an image is memory for another of the same length with that image in it. -/
theorem withImage_ofImage
    {code : List UInt8}
    {size : Nat}
    (sameLength : image.length = code.length) :
    (ofImage code size).withImage image = ofImage image size := by
  have zeros :
      (ofImage code size).bytes.toList.drop image.length =
        List.replicate (size - image.length) 0 := by
    rw [ofImage, Array.toList_append, sameLength, List.drop_left' rfl,
      Array.toList_replicate]
  rw [withImage, zeros, ofImage, ← List.append_toArray, List.toArray_replicate]

end Memory

namespace Machine

variable {code image : List UInt8} {entries : List Image.Entry}
  {machine : Machine}

/-- The machine with its first bytes of memory replaced by an image. -/
def withImage (image : List UInt8) (machine : Machine) : Machine :=
  machine.changeMemory (Memory.withImage image)

/--
The next step keeps to the image as it was decoded, and reads from it only to
fetch: a word that it loads is behind the image, or not fully inside memory.
-/
structure KeepsApart (code : List UInt8) (entries : List Image.Entry)
    (machine : Machine) : Prop where
  confined :
    Confined code entries machine
  load :
    ∀ instruction, machine.Dispatches instruction →
      ∀ address, instruction.load? = some address →
        address.toNat + Word.byteCount ≤ machine.memory.size →
        code.length ≤ address.toNat

/-- A machine is aligned also with another image that decodes to the same entries. -/
theorem Aligned.withImage
    (aligned : Aligned code entries machine)
    (sameLength : image.length = code.length) :
    Aligned image entries (machine.withImage image) := by
  refine ⟨aligned.codeSize.trans sameLength.symm, ?_, ?_, aligned.decodable⟩
  · rw [Machine.withImage, changeMemory, Memory.toList_withImage]
    exact List.prefix_append _ _
  · intro running
    rw [OnBoundary, sameLength]
    exact aligned.pc running

theorem Aligned.length_le
    (aligned : Aligned code entries machine)
    (sameLength : image.length = code.length) :
    image.length ≤ machine.memory.size := by
  rw [sameLength, ← aligned.codeSize]
  exact aligned.codeSize_le

/-- With either image the same instruction is fetched. -/
theorem Aligned.fetch_withImage
    (aligned : Aligned code entries machine)
    (decoded : Image.decode code = .ok entries)
    (decodedAgain : Image.decode image = .ok entries)
    (sameLength : image.length = code.length)
    (running : machine.status = .running)
    (inCode : machine.pc < machine.codeSize) :
    (machine.withImage image).fetch = machine.fetch := by
  -- Both images have the same entry here, and the entry determines the instruction.
  obtain ⟨entry, member, stands⟩ := aligned.exists_entry running inCode
  obtain ⟨_, _, first, fetched, opcode, operands⟩ :=
    aligned.fetch_entry decoded member stands
  obtain ⟨_, _, second, fetchedAgain, opcodeAgain, operandsAgain⟩ :=
    (aligned.withImage sameLength).fetch_entry decodedAgain member stands
  have same : second = first :=
    Instruction.eq_of_opcode_of_operands (opcodeAgain.trans opcode.symm)
      (operandsAgain.trans operands.symm)
  rw [fetched, fetchedAgain, same]

/-- A step that keeps apart from the image does not notice another image. -/
theorem KeepsApart.unnoticed
    (apart : KeepsApart code entries machine)
    (fits : image.length ≤ machine.memory.size)
    (sameLength : image.length = code.length)
    {instruction : Instruction}
    (dispatches : machine.Dispatches instruction) :
    Unnoticed (Memory.withImage image)
      { machine with steps := machine.steps + 1 } instruction := by
  constructor
  · intro address loads
    have behind := apart.load instruction dispatches address loads
    rw [← sameLength] at behind
    simp only [readWord, changeMemory, Memory.word?_withImage fits behind,
      Memory.size_withImage fits]
  · intro address value stores
    have behind := (apart.confined instruction dispatches).2 address value stores
    rw [← sameLength] at behind
    simp only [writeWord, changeMemory, Memory.setWord?_withImage fits behind,
      Memory.size_withImage fits]
    cases machine.memory.setWord? address.toNat value <;> rfl

end Machine

namespace Execution

variable {Device : Type} [Console Device] {code image : List UInt8}
  {entries : List Image.Entry}

/-- The execution with the first bytes of memory replaced by an image. -/
def withImage (image : List UInt8) (execution : Execution Device) :
    Execution Device :=
  execution.changeMemory (Memory.withImage image)

/-- A step that keeps apart from the image is the same with another image. -/
theorem step_withImage
    {execution : Execution Device}
    (aligned : Machine.Aligned code entries execution.machine)
    (apart : Machine.KeepsApart code entries execution.machine)
    (decoded : Image.decode code = .ok entries)
    (decodedAgain : Image.decode image = .ok entries)
    (sameLength : image.length = code.length) :
    (execution.withImage image).step = execution.step.withImage image :=
  step_changeMemory
    (Machine.transition_changeMemory
      (aligned.fetch_withImage decoded decodedAgain sameLength)
      fun _ => apart.unnoticed (aligned.length_le sameLength) sameLength)

theorem iterate_step_withImage
    {start : Execution Device}
    (aligned : Machine.Aligned code entries start.machine)
    (decoded : Image.decode code = .ok entries)
    (decodedAgain : Image.decode image = .ok entries)
    (sameLength : image.length = code.length)
    (count : Nat)
    (apart : ∀ index < count,
      Machine.KeepsApart code entries (step^[index] start).machine) :
    step^[count] (start.withImage image) =
      (step^[count] start).withImage image := by
  induction count with
  | zero =>
      rfl
  | succ count inductionHypothesis =>
      -- The first run alone carries the invariant; the other one is its image.
      have before : ∀ index < count,
          Machine.KeepsApart code entries (step^[index] start).machine :=
        fun index inside => apart index (Nat.lt_succ_of_lt inside)
      have alignedNow :=
        aligned.iterate_step decoded count
          fun index inside => (before index inside).confined
      rw [Function.iterate_succ_apply', Function.iterate_succ_apply',
        inductionHypothesis before]
      exact step_withImage alignedNow (apart count (Nat.lt_succ_self count))
        decoded decodedAgain sameLength

end Execution

namespace Machine

/--
Assembling the text of a decoded image keeps what the image does.  The text
assembles to an image of the same length, with the unused bits of the register
operands cleared.  From any registers and any console, machines on both images
run in lockstep for any number of steps in which the first jumps only to its
instructions or behind its image and loads and stores only behind it, unless it
faults: status, program counter, step count, registers, console and journal are
the same, and so is the memory behind the image.
-/
theorem run_agrees_with_reassembly
    {Device : Type}
    [Console Device]
    {code : List UInt8}
    {entries : List Image.Entry}
    {memorySize : Nat}
    (decoded : Image.decode code = .ok entries)
    (fits : code.length ≤ memorySize) :
    ∃ image loaded reloaded,
      Assembly.assemble (Image.sourceText entries) = .ok ⟨image, []⟩ ∧
      image = List.zipWith Image.clearUnused code
        (Image.registerFlags entries) ∧
      image.length = code.length ∧
      Machine.load code memorySize = .ok loaded ∧
      Machine.load image memorySize = .ok reloaded ∧
      ∀ (registers : Registers) (device : Device) (journal : Log.Journal)
        (count : Nat),
        let start : Execution Device :=
          ⟨{ loaded with registers := registers }, device, journal⟩
        let reached := Execution.step^[count] start
        let again := Execution.step^[count]
          ⟨{ reloaded with registers := registers }, device, journal⟩
        (∀ index < count,
          KeepsApart code entries (Execution.step^[index] start).machine) →
        again.machine.status = reached.machine.status ∧
          again.machine.pc = reached.machine.pc ∧
          again.machine.steps = reached.machine.steps ∧
          again.machine.registers = reached.machine.registers ∧
          again.machine.codeSize = reached.machine.codeSize ∧
          again.device = reached.device ∧
          again.journal = reached.journal ∧
          again.machine.memory.bytesFrom code.length =
            reached.machine.memory.bytesFrom code.length := by
  obtain ⟨image, assembled, cleared, sameLength, decodedAgain⟩ :=
    Assembly.assemble_sourceText decoded
  have fitsAgain : image.length ≤ memorySize := by
    rw [sameLength]
    exact fits
  have load := load_eq_ok fits
  refine ⟨image, _, _, assembled, cleared, sameLength, load,
    load_eq_ok fitsAgain, ?_⟩
  intro registers device journal count start reached again apart
  have aligned : Aligned code entries start.machine :=
    aligned_of_load decoded load registers
  have sameStart :
      start.withImage image =
        ⟨{ memory := .ofImage image memorySize, registers := registers,
           codeSize := image.length }, device, journal⟩ := by
    simp only [start, Execution.withImage, Execution.changeMemory, changeMemory,
      Memory.withImage_ofImage sameLength, sameLength]
  have same : again = reached.withImage image := by
    rw [← Execution.iterate_step_withImage aligned decoded decodedAgain sameLength
      count apart, sameStart]
  rw [same]
  refine ⟨rfl, rfl, rfl, rfl, rfl, rfl, rfl, ?_⟩
  exact Memory.bytesFrom_withImage (Nat.le_of_eq sameLength)

private theorem keepsApart_of_fetch
    {code : List UInt8}
    {entries : List Image.Entry}
    {machine : Machine}
    {instruction : Instruction}
    {next : Nat}
    (fetched : machine.fetch = .ok (instruction, next))
    (jumps : ∀ target,
      instruction.jumpTarget? machine.registers = some target →
        OnBoundary code entries target.toNat)
    (stores : ∀ address value,
      instruction.store? machine.registers = some (address, value) →
        code.length ≤ address.toNat)
    (loads : ∀ address, instruction.load? = some address →
      code.length ≤ address.toNat) :
    KeepsApart code entries machine := by
  refine ⟨confined_of_fetch fetched jumps stores, ?_⟩
  intro dispatched dispatches address loaded _
  rw [dispatches.eq_of_fetch fetched] at loaded
  exact loads address loaded

/--
An endless loop that puts 65 into the word behind its image, loads it from
there and prints it.  Its register operands have unused bits.
-/
private def printLoop : List UInt8 :=
  [1, 249, 65, 0, 0, 0, 0, 0, 0, 0, 3, 9, 34, 0, 0, 0, 0, 0, 0, 0,
    2, 10, 34, 0, 0, 0, 0, 0, 0, 0, 21, 250, 16, 251]

private def printLoopEntries : List Image.Entry :=
  [⟨0, .load, [.register 1, .word 65]⟩,
    ⟨10, .storeAddr, [.register 1, .word 34]⟩,
    ⟨20, .loadAddr, [.register 2, .word 34]⟩,
    ⟨30, .print, [.register 2]⟩,
    ⟨32, .jump, [.register 3]⟩]

/-- The loop at its start, with just one word of memory behind the image. -/
private def printLoopStart : Execution ConsoleBuffer :=
  ⟨{ memory := .ofImage printLoop 42, codeSize := printLoop.length }, {}, {}⟩

private theorem keepsApart_printLoop :
    ∀ index < 5,
      KeepsApart printLoop printLoopEntries
        (Execution.step^[index] printLoopStart).machine := by
  intro index inside
  obtain rfl | rfl | rfl | rfl | rfl :
      index = 0 ∨ index = 1 ∨ index = 2 ∨ index = 3 ∨ index = 4 := by
    omega
  · have fetched :
        (Execution.step^[0] printLoopStart).machine.fetch =
          .ok (.load 1 65, 10) := by rfl
    exact keepsApart_of_fetch fetched nofun nofun nofun
  · have fetched :
        (Execution.step^[1] printLoopStart).machine.fetch =
          .ok (.storeAddr 1 34, 20) := by rfl
    refine keepsApart_of_fetch fetched nofun ?_ nofun
    intro address value stored
    cases stored
    decide
  · have fetched :
        (Execution.step^[2] printLoopStart).machine.fetch =
          .ok (.loadAddr 2 34, 30) := by rfl
    refine keepsApart_of_fetch fetched nofun nofun ?_
    intro address loaded
    cases loaded
    decide
  · have fetched :
        (Execution.step^[3] printLoopStart).machine.fetch =
          .ok (.print 2, 32) := by rfl
    exact keepsApart_of_fetch fetched nofun nofun nofun
  · have fetched :
        (Execution.step^[4] printLoopStart).machine.fetch =
          .ok (.jump 3, 34) := by rfl
    have target :
        (Execution.step^[4] printLoopStart).machine.registers.get 3 = 0 := by rfl
    refine keepsApart_of_fetch fetched ?_ nofun nofun
    intro reached jumped
    obtain rfl : 0 = reached := target.symm.trans (Option.some.inj jumped)
    exact .inl ⟨⟨0, .load, [.register 1, .word 65]⟩, by decide, rfl⟩

/-- Once around, the loop from its text has printed the same and is at its start. -/
theorem run_agrees_with_reassembly_printLoop :
    Image.decode printLoop = .ok printLoopEntries ∧
      printLoop.length ≤ 42 ∧
      (∀ index < 5,
        KeepsApart printLoop printLoopEntries
          (Execution.step^[index] printLoopStart).machine) ∧
      ∃ image reloaded,
        Assembly.assemble (Image.sourceText printLoopEntries) =
          .ok ⟨image, []⟩ ∧
        image ≠ printLoop ∧
        Machine.load image 42 = .ok reloaded ∧
        let again : Execution ConsoleBuffer :=
          Execution.step^[5] ⟨reloaded, {}, {}⟩
        again.machine.status = .running ∧
          again.machine.pc = 0 ∧
          again.device.output = ['6'.toUInt8, '5'.toUInt8, '\n'.toUInt8] ∧
          again.machine.memory.bytesFrom 34 = [65, 0, 0, 0, 0, 0, 0, 0] := by
  have decoded : Image.decode printLoop = .ok printLoopEntries := by cbv
  have fits : printLoop.length ≤ 42 := by decide
  obtain ⟨image, loaded, reloaded, assembled, cleared, sameLength, load, reload,
      agrees⟩ :=
    @run_agrees_with_reassembly ConsoleBuffer _ _ _ _ decoded fits
  have fitsAgain : image.length ≤ 42 := sameLength.trans_le fits
  obtain rfl := Except.ok.inj ((load_eq_ok fits).symm.trans load)
  obtain rfl := Except.ok.inj ((load_eq_ok fitsAgain).symm.trans reload)
  have other : image ≠ printLoop := by
    rw [cleared]
    decide
  obtain ⟨status, pc, _, _, _, device, _, memory⟩ :=
    agrees {} {} {} 5 keepsApart_printLoop
  refine ⟨decoded, fits, keepsApart_printLoop, image, _, assembled, other, reload,
    status.trans rfl, pc.trans rfl, ?_, memory.trans ?_⟩
  · rw [device]
    rfl
  · rfl

end Machine

end RegisterMachine
