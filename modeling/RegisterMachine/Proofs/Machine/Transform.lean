import RegisterMachine.Proofs.Image.RoundTrip
import RegisterMachine.Proofs.Machine.Runs

namespace RegisterMachine

/-!
# Instructions that work on registers

Most instructions only assign a register, from registers and their operands.
Each of them stands for a function on register files, and a sequence of them for
the composition of these functions.  Where bytes in the image encode such a
sequence, a machine runs it as one function (`Execution.iterate_step_transformAll`).
-/

namespace Opcode

/-- Whether the instruction only assigns a register, from registers and its operands. -/
def worksOnRegisters : Opcode → Bool
  | .load | .move | .add | .sub | .mul | .inc | .dec | .and | .not | .or | .xor
  | .cmp => true
  | _ => false

end Opcode

namespace Registers

/-- Two register files that differ in one register at most. -/
def AgreeBut (register : Register) (first second : Registers) : Prop :=
  ∀ other, other ≠ register → first.get other = second.get other

theorem AgreeBut.set
    {register : Register}
    {first second : Registers}
    (agree : AgreeBut register first second)
    (destination : Register)
    (value : UInt64) :
    AgreeBut register (first.set destination value)
      (second.set destination value) := by
  intro other different
  rw [get_set, get_set, agree other different]

end Registers

namespace Instruction

/-- The register that an instruction assigns in any case. -/
def destination? : Instruction → Option Register
  | .load destination _ | .loadAddr destination _ | .move destination _
  | .binary _ destination _ _ | .unary _ destination => some destination
  | _ => none

/-- The registers that an instruction uses the values of. -/
def sources : Instruction → List Register
  | .halt | .load _ _ | .loadAddr _ _ => []
  | .storeAddr source _ | .move _ source | .print source => [source]
  | .binary _ _ left right => [left, right]
  | .unary _ destination => [destination]
  | .jump target => [target]
  | .jumpIf _ tested target => [tested, target]
  | .loop counter target => [counter, target]
  | .trap number data => [number, data]

/-- The registers after an instruction that works on registers. -/
def transform (instruction : Instruction) (registers : Registers) : Registers :=
  match instruction with
  | .load destination value => registers.set destination value
  | .move destination source => registers.set destination (registers.get source)
  | .binary op destination left right =>
      match op.result? (registers.get left) (registers.get right) with
      | some value => registers.set destination value
      | none => registers
  | .unary op destination =>
      registers.set destination (op.apply (registers.get destination))
  | _ => registers

/-- The registers after instructions that work on registers, one after another. -/
def transformAll (program : List Instruction) (registers : Registers) : Registers :=
  program.foldl (fun reached instruction => instruction.transform reached) registers

/-- An instruction changes no other register than its destination. -/
theorem get_transform_of_ne
    {instruction : Instruction}
    {register : Register}
    (other : instruction.destination? ≠ some register)
    (registers : Registers) :
    (instruction.transform registers).get register = registers.get register := by
  cases instruction with
  | load destination | move destination | unary op destination =>
      have different : destination ≠ register := fun same => other (congrArg some same)
      rw [transform, Registers.get_set, if_neg different]
  | binary op destination left right =>
      have different : destination ≠ register := fun same => other (congrArg some same)
      rw [transform]
      split
      · rw [Registers.get_set, if_neg different]
      · rfl
  | halt | loadAddr | storeAddr | jump | jumpIf | loop | trap | print =>
      rfl

theorem get_transformAll_of_ne
    {program : List Instruction}
    {register : Register}
    (other : ∀ instruction ∈ program, instruction.destination? ≠ some register)
    (registers : Registers) :
    (transformAll program registers).get register = registers.get register := by
  induction program generalizing registers with
  | nil =>
      rfl
  | cons instruction rest inductionHypothesis =>
      obtain ⟨first, later⟩ := List.forall_mem_cons.mp other
      rw [transformAll, List.foldl_cons]
      exact (inductionHypothesis later _).trans (get_transform_of_ne first registers)

/-- What an instruction assigns does not depend on registers that it does not use. -/
theorem transform_agreeBut
    {instruction : Instruction}
    {register : Register}
    {first second : Registers}
    (unused : register ∉ instruction.sources)
    (agree : Registers.AgreeBut register first second) :
    Registers.AgreeBut register (instruction.transform first)
      (instruction.transform second) := by
  have used : ∀ source ∈ instruction.sources,
      first.get source = second.get source := by
    intro source member
    refine agree source ?_
    rintro rfl
    exact unused member
  cases instruction with
  | load destination value =>
      exact agree.set destination value
  | move destination source =>
      rw [transform, transform, used source (by simp [sources])]
      exact agree.set destination _
  | unary op destination =>
      rw [transform, transform, used destination (by simp [sources])]
      exact agree.set destination _
  | binary op destination left right =>
      rw [transform, transform, used left (by simp [sources]),
        used right (by simp [sources])]
      split
      · exact agree.set destination _
      · exact agree
  | halt | loadAddr | storeAddr | jump | jumpIf | loop | trap | print =>
      exact agree

theorem transformAll_agreeBut
    {program : List Instruction}
    {register : Register}
    {first second : Registers}
    (unused : ∀ instruction ∈ program, register ∉ instruction.sources)
    (agree : Registers.AgreeBut register first second) :
    Registers.AgreeBut register (transformAll program first)
      (transformAll program second) := by
  induction program generalizing first second with
  | nil =>
      exact agree
  | cons instruction rest inductionHypothesis =>
      obtain ⟨here, later⟩ := List.forall_mem_cons.mp unused
      exact inductionHypothesis later (transform_agreeBut here agree)

end Instruction

namespace Image

/--
Bytes that hold instructions one after another, each with its own operands.  The
bits of a register byte that the machine does not use may have any value.
-/
inductive Encodes : List UInt8 → List Instruction → Prop where
  | nil :
      Encodes [] []
  | cons {instruction : Instruction} {bytes rest : List UInt8}
      {program : List Instruction} :
      readOperands? instruction.opcode.layout bytes =
        some (instruction.operands, rest) →
      Encodes rest program →
      Encodes (instruction.opcode.code :: bytes) (instruction :: program)

/-- An image holds the instructions that are decoded from it. -/
theorem encodes_of_decodeFrom
    {offset : Nat}
    {code : List UInt8}
    {entries : List Entry}
    {program : List Instruction}
    (decoded : decodeFrom offset code = .ok entries)
    (same : entries.map (fun entry => (entry.opcode, entry.operands)) =
      program.map fun instruction => (instruction.opcode, instruction.operands)) :
    Encodes code program := by
  induction program generalizing offset code entries with
  | nil =>
      obtain rfl := List.map_eq_nil_iff.mp same
      rw [eq_nil_of_decodeFrom_eq_nil decoded]
      exact .nil
  | cons instruction rest inductionHypothesis =>
      obtain ⟨entry, others, rfl, sameFirst, sameOthers⟩ := List.map_eq_cons_iff.mp same
      obtain ⟨sameOpcode, sameOperands⟩ := Prod.mk.inj sameFirst
      obtain ⟨tail, left, rfl, _, read, later⟩ := decodeFrom_inv decoded
      rw [sameOpcode, sameOperands] at read
      rw [sameOpcode]
      exact .cons read (inductionHypothesis later sameOthers)

theorem Encodes.length_eq
    {code : List UInt8}
    {program : List Instruction}
    (encodes : Encodes code program) :
    code.length = (program.map fun instruction => instruction.opcode.size).sum := by
  induction encodes with
  | nil =>
      rfl
  | cons read _ inductionHypothesis =>
      have length := length_of_readOperands? read
      rw [List.length_cons, length, inductionHypothesis, List.map_cons,
        List.sum_cons, Opcode.size, Opcode.operandSize]
      omega

theorem isDirect_operands (instruction : Instruction) :
    ∀ operand ∈ instruction.operands, operand.IsDirect := by
  have direct : ∀ register : Register,
      register.toByte.toNat < registerCount := by
    decide
  cases instruction <;>
    simp only [Instruction.operands, List.forall_mem_cons, List.not_mem_nil,
      false_implies, implies_true, Operand.IsDirect, direct, and_self]

/-- The encoded bytes of instructions hold them. -/
theorem encodes_encode (program : List Instruction) :
    Encodes
      (program.flatMap fun instruction =>
        encode instruction.opcode instruction.operands) program := by
  induction program with
  | nil =>
      exact .nil
  | cons instruction rest inductionHypothesis =>
      rw [List.flatMap_cons]
      refine .cons ?_ inductionHypothesis
      rw [← Instruction.map_kind_operands]
      exact readOperands?_encode (isDirect_operands instruction) _

end Image

namespace Machine

/-- The first of the instructions that bytes hold is fetched, and the others follow. -/
theorem fetch_of_encodes
    {machine : Machine}
    {code : List UInt8}
    {instruction : Instruction}
    {program : List Instruction}
    (encodes : Image.Encodes code (instruction :: program))
    (stands : code <+: machine.memory.bytesFrom machine.pc) :
    machine.fetch = .ok (instruction, machine.pc + instruction.opcode.size) ∧
      ∃ rest, Image.Encodes rest program ∧
        code.length = instruction.opcode.size + rest.length ∧
        rest <+: machine.memory.bytesFrom
          (machine.pc + instruction.opcode.size) := by
  obtain ⟨data, shape⟩ := stands
  cases encodes with
  | @cons _ bytes rest _ read others =>
      rw [List.cons_append] at shape
      have readMore := Image.readOperands?_append read data
      obtain ⟨fetched, fetches, sameOpcode, sameOperands⟩ :=
        fetch_of_readOperands? shape.symm readMore
      obtain rfl := Instruction.eq_of_opcode_of_operands sameOpcode sameOperands
      have length := Image.length_of_readOperands? read
      refine ⟨fetches, rest, others, ?_, data, ?_⟩
      · rw [List.length_cons, length, Opcode.size, Opcode.operandSize]
        omega
      · exact (Image.drop_of_readOperands? shape.symm readMore).2.symm

theorem execute_of_worksOnRegisters
    (machine : Machine)
    {instruction : Instruction}
    (works : instruction.opcode.worksOnRegisters = true)
    (next : Nat) :
    machine.execute instruction next =
      .done (machine.ran instruction
        { machine with
          pc := next
          registers := instruction.transform machine.registers }) := by
  cases instruction with
  | load | move | unary =>
      rfl
  | binary op =>
      cases op with
      | div =>
          cases works
      | add | sub | mul | and | or | xor | cmp =>
          rfl
  | jumpIf condition =>
      cases condition <;> cases works
  | halt | loadAddr | storeAddr | jump | loop | trap | print =>
      cases works

end Machine

namespace Execution

variable {Device : Type} [Console Device]

theorem step_of_worksOnRegisters
    {execution : Execution Device}
    {instruction : Instruction}
    {next : Nat}
    (running : execution.machine.status = .running)
    (inCode : execution.machine.pc < execution.machine.codeSize)
    (fetched : execution.machine.fetch = .ok (instruction, next))
    (works : instruction.opcode.worksOnRegisters = true) :
    execution.step.machine =
        { execution.machine with
          pc := next
          registers := instruction.transform execution.machine.registers
          steps := execution.machine.steps + 1 } ∧
      execution.step.device = execution.device := by
  simp only [step, Machine.step,
    Machine.transition_of_fetch running inCode fetched,
    Machine.execute_of_worksOnRegisters _ works, Transition.carryOut,
    Machine.ran, and_self]

/--
A machine that stands at instructions that work on registers runs all of them
and stands behind them; nothing but the registers and its counters has changed.
-/
theorem iterate_step_transformAll
    {start : Execution Device}
    {code : List UInt8}
    {body others : List Instruction}
    (running : start.machine.status = .running)
    (encodes : Image.Encodes code (body ++ others))
    (stands : code <+: start.machine.memory.bytesFrom start.machine.pc)
    (inCode : start.machine.pc + code.length ≤ start.machine.codeSize)
    (works : ∀ instruction ∈ body, instruction.opcode.worksOnRegisters = true) :
    ∃ rest size, Image.Encodes rest others ∧ code.length = size + rest.length ∧
      rest <+: start.machine.memory.bytesFrom (start.machine.pc + size) ∧
      (step^[body.length] start).machine =
        { start.machine with
          pc := start.machine.pc + size
          registers := Instruction.transformAll body start.machine.registers
          steps := start.machine.steps + UInt64.ofNat body.length } ∧
      (step^[body.length] start).device = start.device := by
  induction body generalizing start code with
  | nil =>
      exact ⟨code, 0, encodes, (Nat.zero_add _).symm, stands,
        by simp [Instruction.transformAll], rfl⟩
  | cons instruction body inductionHypothesis =>
      obtain ⟨first, later⟩ := List.forall_mem_cons.mp works
      obtain ⟨fetched, rest, restEncodes, length, restStands⟩ :=
        Machine.fetch_of_encodes encodes stands
      have positive := instruction.opcode.size_pos
      obtain ⟨machine, device⟩ :=
        step_of_worksOnRegisters running (by omega) fetched first
      have restInCode : start.step.machine.pc + rest.length ≤
          start.step.machine.codeSize := by
        rw [machine]
        simp only
        omega
      obtain ⟨left, size, leftEncodes, leftLength, leftStands, reached, sameDevice⟩ :=
        inductionHypothesis (by rw [machine]; exact running) restEncodes
          (by rw [machine]; exact restStands) restInCode later
      rw [machine] at leftStands reached
      refine ⟨left, instruction.opcode.size + size, leftEncodes, ?_, ?_, ?_, ?_⟩
      · rw [length, leftLength, Nat.add_assoc]
      · rw [← Nat.add_assoc]
        exact leftStands
      · rw [List.length_cons, Function.iterate_succ_apply, reached]
        simp only [Nat.add_assoc, Word.add_one_add_ofNat]
        rfl
      · exact sameDevice.trans device

end Execution

end RegisterMachine
