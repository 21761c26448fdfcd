import RegisterMachine.Proofs.Machine.Transform

namespace RegisterMachine

/-!
# Running straight-line code

Decoder and machine have bounds checks and errors of their own.  On code that
only assigns registers and prints they cannot be told apart: in a memory that the
code fills, a machine runs the instructions that the decoder reads, one after
another, and stops where decoding ends, by the decoder's error if there is one.
-/

/-- Whether the machine goes on behind the instruction whatever its memory and input. -/
def Opcode.isStraight (opcode : Opcode) : Bool :=
  opcode.worksOnRegisters || opcode == .print

namespace Image

/-- Operands are read alike from bytes that are cut behind them. -/
theorem readOperands?_take
    {kinds : List Operand.Kind}
    {bytes rest : List UInt8}
    {operands : List Operand}
    (read : readOperands? kinds bytes = some (operands, rest))
    (count : Nat) :
    readOperands? kinds (bytes.take (Operand.Kind.totalSize kinds + count)) =
      some (operands, rest.take count) := by
  obtain ⟨_, _, raw, rfl, rawLength, _⟩ := readOperands?_inv read
  have enough :
      Operand.Kind.totalSize kinds ≤ (raw ++ rest.take count).length := by
    rw [List.length_append, rawLength]
    exact Nat.le_add_right _ _
  obtain ⟨found, left, readFront⟩ := exists_readOperands? enough
  -- With the cut bytes put back the operands are read as before.
  have whole := readOperands?_append readFront (rest.drop count)
  rw [List.append_assoc, List.take_append_drop, read] at whole
  obtain ⟨rfl, same⟩ := Prod.mk.inj (Option.some.inj whole)
  have sameRest : rest.take count = left :=
    List.append_cancel_right ((List.take_append_drop count rest).trans same)
  rw [← rawLength, List.take_length_add_append, readFront, sameRest]

/-- The entries that are decoded before the end or the first error. -/
def leadingFrom (offset : Nat) : List UInt8 → List Entry
  | [] => []
  | code :: bytes =>
      match Opcode.ofCode? code with
      | none => []
      | some opcode =>
          match _found : readOperands? opcode.layout bytes with
          | none => []
          | some (operands, rest) =>
              ⟨offset, opcode, operands⟩ :: leadingFrom (offset + opcode.size) rest
  termination_by bytes => bytes.length
  decreasing_by
    have taken := length_of_readOperands? _found
    simp only [List.length_cons]
    omega

/-- The entries of an image that are decoded before its end or the first error. -/
def leading (image : List UInt8) : List Entry :=
  leadingFrom 0 image

theorem decodeFrom_of_unknown
    (offset : Nat)
    {code : UInt8}
    {bytes : List UInt8}
    (unknown : Opcode.ofCode? code = none) :
    decodeFrom offset (code :: bytes) = .error (.unknownOpcode code offset) := by
  rw [decodeFrom, unknown]

theorem decodeFrom_of_cut
    (offset : Nat)
    {code : UInt8}
    {opcode : Opcode}
    {bytes : List UInt8}
    (known : Opcode.ofCode? code = some opcode)
    (cut : readOperands? opcode.layout bytes = none) :
    decodeFrom offset (code :: bytes) =
      .error (.truncated opcode.mnemonic offset) := by
  rw [decodeFrom, known]
  simp only
  split
  · rfl
  · next read =>
      cases cut.symm.trans read

/--
Decoding gives the leading entries, or fails where they end; it is then the
part of the image in front of this position that they are decoded from.
-/
theorem decodeFrom_cases
    (offset : Nat)
    (bytes : List UInt8) :
    let entries := leadingFrom offset bytes
    decodeFrom offset bytes = .ok entries ∨
      ∃ cause, decodeFrom offset bytes = .error cause ∧
        cause.position = offset + sizeOf entries ∧
        decodeFrom offset (bytes.take (sizeOf entries)) = .ok entries := by
  have nothing : ∀ offset, decodeFrom offset [] = .ok [] := by
    intro offset
    rw [decodeFrom]
  fun_induction leadingFrom offset bytes with
  | case1 offset =>
      exact .inl (nothing offset)
  | case2 offset code bytes unknown =>
      exact .inr ⟨_, decodeFrom_of_unknown offset unknown, rfl, nothing offset⟩
  | case3 offset code bytes opcode known cut =>
      exact .inr ⟨_, decodeFrom_of_cut offset known cut, rfl, nothing offset⟩
  | case4 offset code bytes opcode known operands rest read inductionHypothesis =>
      rw [decodeFrom_cons known read]
      rcases inductionHypothesis with decoded | ⟨cause, failed, position, front⟩
      · left
        rw [decoded]
        rfl
      · refine .inr ⟨cause, ?_, ?_, ?_⟩
        · rw [failed]
          rfl
        · rw [position, sizeOf, sizeOf, List.map_cons, List.sum_cons, Nat.add_assoc]
        · have size : sizeOf (⟨offset, opcode, operands⟩ ::
              leadingFrom (offset + opcode.size) rest) =
                Operand.Kind.totalSize opcode.layout +
                  sizeOf (leadingFrom (offset + opcode.size) rest) + 1 := by
            simp only [sizeOf, List.map_cons, List.sum_cons, Opcode.size,
              Opcode.operandSize]
            omega
          rw [size, List.take_succ_cons,
            decodeFrom_cons known (readOperands?_take read _), front]
          rfl

end Image

variable {Device : Type} [Console Device]

namespace Machine

theorem Raises.isStraight_eq_false
    {machine : Machine}
    {device after : Device}
    {instruction : Instruction}
    {fault : Fault}
    (raised : Raises machine device instruction fault after) :
    instruction.opcode.isStraight = false := by
  cases raised with
  | load | store | divide | getc =>
      rfl

/-- An instruction of straight-line code raises no fault and goes on behind itself. -/
theorem execute_of_isStraight
    (machine : Machine)
    {instruction : Instruction}
    (straight : instruction.opcode.isStraight = true)
    (next : Nat)
    (device : Device) :
    let after := ((machine.execute instruction next).carryOut device).1.machine
    after.pc = next ∧ after.memory = machine.memory ∧
      after.codeSize = machine.codeSize ∧ after.status = machine.status ∧
      after.steps = machine.steps := by
  intro after
  rcases execute_cases machine instruction next device with
      ⟨fault, _, raised⟩ | advances
  · rw [raised.isStraight_eq_false] at straight
    cases straight
  · have noJump : instruction.jumpTarget? machine.registers = none := by
      cases instruction with
      | jump | loop =>
          cases straight
      | jumpIf condition =>
          cases condition <;> cases straight
      | halt | load | loadAddr | storeAddr | move | binary | unary | trap | print =>
          rfl
    have noStore : instruction.store? machine.registers = none := by
      cases instruction with
      | storeAddr =>
          cases straight
      | halt | load | loadAddr | move | binary | unary | jump | jumpIf | loop | trap
      | print =>
          rfl
    have notHalt : instruction ≠ .halt := by
      rintro rfl
      cases straight
    have pc := advances.pc
    have memory := advances.memory
    have status := advances.status
    rw [noJump] at pc
    rw [noStore] at memory
    rw [if_neg notHalt] at status
    exact ⟨pc, memory, advances.codeSize, status, advances.steps⟩

end Machine

namespace Execution

/-- The status of a machine that has run to where decoding has come to a result. -/
def statusOf {α : Type} : Except Image.DecodeError α → Status
  | .ok _ => .halted
  | .error cause => .faulted (.undecodable cause)

theorem statusOf_map
    {α β : Type}
    (result : Except Image.DecodeError α)
    (make : α → β) :
    statusOf (result.map make) = statusOf result := by
  cases result <;> rfl

/-- A machine runs entries one after another and then stops, as decoding does. -/
structure StopsBehind (start : Execution Device) (entries : List Image.Entry)
    (status : Status) : Prop where
  stops :
    start.StopsAfter (entries.length + 1)
  steps :
    (step^[entries.length + 1] start).machine.steps =
      start.machine.steps + UInt64.ofNat entries.length
  pc :
    (step^[entries.length + 1] start).machine.pc =
      start.machine.pc + Image.sizeOf entries
  status :
    (step^[entries.length + 1] start).machine.status = status

theorem StopsBehind.nil
    {start : Execution Device}
    {status : Status}
    (running : start.machine.status = .running)
    (terminal : status.isTerminal = true)
    (stopped : start.step.machine = { start.machine with status := status }) :
    start.StopsBehind [] status where
  stops := by
    refine stopsAfter_succ_iff.mpr ⟨running, stopsAfter_zero_iff.mpr ?_⟩
    rw [stopped]
    exact terminal
  steps := by
    rw [List.length_nil, Function.iterate_one, stopped]
    exact (UInt64.add_zero _).symm
  pc := by
    rw [List.length_nil, Function.iterate_one, stopped]
    rfl
  status := by
    rw [List.length_nil, Function.iterate_one, stopped]

theorem StopsBehind.cons
    {start : Execution Device}
    {entry : Image.Entry}
    {entries : List Image.Entry}
    {status : Status}
    (running : start.machine.status = .running)
    (counted : start.step.machine.steps = start.machine.steps + 1)
    (moved : start.step.machine.pc = start.machine.pc + entry.opcode.size)
    (behind : start.step.StopsBehind entries status) :
    start.StopsBehind (entry :: entries) status where
  stops :=
    stopsAfter_succ_iff.mpr ⟨running, behind.stops⟩
  steps := by
    rw [List.length_cons, Function.iterate_succ_apply, behind.steps, counted,
      Word.add_one_add_ofNat]
  pc := by
    rw [List.length_cons, Function.iterate_succ_apply, behind.pc, moved,
      Nat.add_assoc]
    rfl
  status := by
    rw [List.length_cons, Function.iterate_succ_apply, behind.status]

/--
A machine whose memory ends with its image runs the entries that are decoded
from where it stands, and then stops with what decoding has come to.
-/
theorem stopsBehind_leadingFrom
    {start : Execution Device}
    {offset : Nat}
    {bytes : List UInt8}
    (running : start.machine.status = .running)
    (whole : start.machine.codeSize = start.machine.memory.size)
    (stands : start.machine.pc = offset)
    (shape : start.machine.memory.bytesFrom offset = bytes)
    (straight : ∀ entry ∈ Image.leadingFrom offset bytes,
      entry.opcode.isStraight = true) :
    start.StopsBehind (Image.leadingFrom offset bytes)
      (statusOf (Image.decodeFrom offset bytes)) := by
  fun_induction Image.leadingFrom offset bytes generalizing start with
  | case1 offset =>
      have ended : start.machine.codeSize ≤ start.machine.pc := by
        have length := Memory.length_bytesFrom start.machine.memory offset
        rw [shape, List.length_nil] at length
        omega
      rw [Image.decodeFrom]
      refine .nil running rfl ?_
      simp only [step, Machine.step, Machine.transition_of_ended running ended,
        Transition.carryOut, statusOf]
  | case2 offset code bytes unknown =>
      subst stands
      have inCode := whole ▸ Memory.lt_size_of_bytesFrom shape
      rw [Image.decodeFrom_of_unknown _ unknown]
      refine .nil running rfl ?_
      simp only [step, Machine.step,
        Machine.transition_of_fetch_error running inCode
          (Machine.fetch_of_unknown shape unknown),
        Transition.carryOut, Machine.stop, statusOf]
  | case3 offset code bytes opcode known cut =>
      subst stands
      have inCode := whole ▸ Memory.lt_size_of_bytesFrom shape
      rw [Image.decodeFrom_of_cut _ known cut]
      rw [← Opcode.code_of_ofCode? known] at shape
      refine .nil running rfl ?_
      simp only [step, Machine.step,
        Machine.transition_of_fetch_error running inCode
          (Machine.fetch_of_cut shape cut),
        Transition.carryOut, Machine.stop, statusOf]
  | case4 offset code bytes opcode known operands rest read inductionHypothesis =>
      subst stands
      have inCode := whole ▸ Memory.lt_size_of_bytesFrom shape
      obtain ⟨first, others⟩ := List.forall_mem_cons.mp straight
      rw [Image.decodeFrom_cons known read, statusOf_map]
      rw [← Opcode.code_of_ofCode? known] at shape
      have behind : start.machine.memory.bytesFrom
          (start.machine.pc + opcode.size) = rest :=
        (Image.drop_of_readOperands? shape read).2
      obtain ⟨instruction, fetched, rfl, _⟩ :=
        Machine.fetch_of_readOperands? shape read
      have went := Machine.execute_of_isStraight
        { start.machine with steps := start.machine.steps + 1 } first
        (start.machine.pc + instruction.opcode.size) start.device
      rw [← Machine.transition_of_fetch running inCode fetched] at went
      obtain ⟨pc, memory, codeSize, status, steps⟩ := went
      have sameMemory : start.step.machine.memory = start.machine.memory := memory
      have sameCodeSize : start.step.machine.codeSize = start.machine.codeSize :=
        codeSize
      refine .cons running steps pc ?_
      refine inductionHypothesis (status.trans running) ?_ pc ?_ others
      · rw [sameMemory, sameCodeSize, whole]
      · rw [sameMemory, behind]

/--
A machine whose memory is filled by code that, as far as it can be decoded, is
straight-line code runs to an end.  It has then started exactly the instructions
that are decoded.  If all of the code is decoded the run has no fault; otherwise
it returns the error of the decoder as its fault, and the machine stands at the
position that the error names.
-/
theorem run_of_isStraight
    {code : List UInt8}
    (straight : ∀ entry ∈ Image.leading code, entry.opcode.isStraight = true) :
    ∃ loaded, Machine.load code code.length = .ok loaded ∧
      ∀ (device : Device) (journal : Log.Journal),
        let start : Execution Device := ⟨loaded, device, journal⟩
        ∃ fuel final, start.run? fuel = some final ∧
          final.machine.steps = UInt64.ofNat (Image.leading code).length ∧
          (final.verdict = .ok () ↔ ∃ entries, Image.decode code = .ok entries) ∧
          (∀ entries, Image.decode code = .ok entries →
            entries = Image.leading code ∧
              final.machine.pc = code.length) ∧
          ∀ cause, Image.decode code = .error cause →
            Image.decode (code.take cause.position) = .ok (Image.leading code) ∧
              final.verdict = .error (.undecodable cause) ∧
              final.machine.pc = cause.position := by
  have load := Machine.load_eq_ok (Nat.le_refl code.length)
  refine ⟨_, load, ?_⟩
  intro device journal start
  have fills : start.machine.memory.size = code.length :=
    Memory.size_ofImage (Nat.le_refl code.length)
  have shape : start.machine.memory.bytesFrom 0 = code := by
    simp only [start, Memory.bytesFrom, Memory.ofImage, Nat.sub_self,
      Array.replicate_zero, Array.append_empty, List.drop_zero]
  have ends : start.StopsBehind (Image.leading code) (statusOf (Image.decode code)) :=
    stopsBehind_leadingFrom rfl fills.symm rfl shape straight
  refine ⟨_, _, run?_eq_some_iff.mpr ⟨_, Nat.le_refl _, ends.stops, rfl⟩,
    ends.steps.trans (UInt64.zero_add _), ?_⟩
  rcases Image.decodeFrom_cases 0 code with decoded | ⟨cause, failed, position, front⟩
  · have decodes : Image.decode code = .ok (Image.leading code) := decoded
    have size : code.length = Image.sizeOf (Image.leading code) :=
      (Image.encodeEntries_of_decodeFrom decoded).1
    have halted := ends.status
    rw [decodes] at halted
    refine ⟨⟨fun _ => ⟨_, decodes⟩, fun _ => verdict_eq_ok_iff.mpr ?_⟩, ?_, ?_⟩
    · intro fault faulted
      cases halted.symm.trans faulted
    · intro entries sameDecodes
      refine ⟨Except.ok.inj (sameDecodes.symm.trans decodes), ?_⟩
      rw [ends.pc, ← size]
      exact Nat.zero_add _
    · intro cause fails
      cases decodes.symm.trans fails
  · have fails : Image.decode code = .error cause := failed
    have stopped := ends.status
    rw [fails] at stopped
    have verdict := verdict_eq_error_iff.mpr stopped
    have place : Image.sizeOf (Image.leading code) = cause.position := by
      rw [position, Nat.zero_add]
      rfl
    refine ⟨⟨?_, ?_⟩, ?_, ?_⟩
    · intro ok
      cases verdict.symm.trans ok
    · rintro ⟨entries, decodes⟩
      cases fails.symm.trans decodes
    · intro entries decodes
      cases fails.symm.trans decodes
    · intro other otherFails
      obtain rfl := Except.error.inj (fails.symm.trans otherFails)
      refine ⟨?_, verdict, ?_⟩
      · rw [← place]
        exact front
      · rw [ends.pc, place]
        exact Nat.zero_add _

/-- Two instructions, then a load that the image cuts short. -/
private def cutLoad : List UInt8 := [9, 10, 21, 2, 1, 0, 7]

/--
The machine prints, and is stopped at the load by the error that the decoder
gives; the register byte of the first instruction has an unused bit set.
-/
theorem run_of_isStraight_cutLoad :
    Image.decode cutLoad = .error (.truncated "LOAD" 4) ∧
      Image.leading cutLoad =
        [⟨0, .inc, [.register 2]⟩, ⟨2, .print, [.register 2]⟩] ∧
      ∃ loaded fuel final,
        Machine.load cutLoad 7 = .ok loaded ∧
          Execution.run? fuel (⟨loaded, {}, {}⟩ : Execution ConsoleBuffer) =
            some final ∧
          final.verdict = .error (.undecodable (.truncated "LOAD" 4)) ∧
          final.machine.pc = 4 ∧
          final.machine.steps = 2 := by
  have failed : Image.decode cutLoad = .error (.truncated "LOAD" 4) := by cbv
  have leads : Image.leading cutLoad =
      [⟨0, .inc, [.register 2]⟩, ⟨2, .print, [.register 2]⟩] := by cbv
  have straight : ∀ entry ∈ Image.leading cutLoad,
      entry.opcode.isStraight = true := by
    rw [leads]
    decide
  obtain ⟨loaded, load, runs⟩ := @run_of_isStraight ConsoleBuffer _ _ straight
  obtain ⟨fuel, final, ran, steps, _, _, stops⟩ := runs {} {}
  obtain ⟨_, verdict, pc⟩ := stops _ failed
  rw [leads] at steps
  exact ⟨failed, leads, loaded, fuel, final, load, ran, verdict, pc, steps⟩

end Execution

end RegisterMachine
