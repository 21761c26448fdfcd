import RegisterMachine.Machine.Step
import RegisterMachine.Proofs.Machine.Fetch

namespace RegisterMachine

/-!
# What a step can do

A step of a running machine stops at the end of the image, stops before it has
an instruction, or executes the instruction that it fetched.  An instruction
either raises a fault, which leaves everything in place, or advances the
machine.  All later statements about steps go through `Machine.transition_cases`,
`Machine.execute_cases` and, for machines whose image is inside their memory,
`Machine.step_cases` and `Machine.step_effect_cases`.
-/

namespace Instruction

/-- Where an instruction jumps to, when it is a jump that is taken. -/
def jumpTarget? (registers : Registers) : Instruction → Option UInt64
  | .jump target => some (registers.get target)
  | .jumpIf condition tested target =>
      if condition.holds (registers.get tested) then
        some (registers.get target)
      else
        none
  | .loop counter target =>
      if registers.get counter = 0 then
        none
      else
        some ((registers.set counter (registers.get counter - 1)).get target)
  | _ => none

/-- The address and the value that an instruction stores. -/
def store? (registers : Registers) : Instruction → Option (UInt64 × UInt64)
  | .storeAddr source address => some (address, registers.get source)
  | _ => none

end Instruction

namespace Machine

/-- The instruction is the one that the next step of the machine executes. -/
def Dispatches (machine : Machine) (instruction : Instruction) : Prop :=
  machine.status = .running ∧ machine.pc < machine.codeSize ∧
    ∃ next, machine.fetch = .ok (instruction, next)

theorem Dispatches.eq_of_fetch
    {machine : Machine}
    {instruction fetched : Instruction}
    {next : Nat}
    (dispatches : machine.Dispatches instruction)
    (fetch : machine.fetch = .ok (fetched, next)) :
    instruction = fetched := by
  obtain ⟨_, _, after, same⟩ := dispatches
  rw [fetch] at same
  exact (Prod.mk.inj (Except.ok.inj same)).1.symm

/-- The instruction that the next step of the machine executes, if there is one. -/
def dispatched? (machine : Machine) : Option Instruction :=
  if machine.status = .running ∧ machine.pc < machine.codeSize then
    match machine.fetch with
    | .ok (instruction, _) => some instruction
    | .error _ => none
  else
    none

theorem dispatched?_eq_some_iff
    {machine : Machine}
    {instruction : Instruction} :
    machine.dispatched? = some instruction ↔ machine.Dispatches instruction := by
  rw [dispatched?, Option.ite_none_right_eq_some]
  constructor
  · rintro ⟨⟨running, inCode⟩, found⟩
    split at found
    · next fetched next same =>
        obtain rfl := Option.some.inj found
        exact ⟨running, inCode, next, same⟩
    · cases found
  · rintro ⟨running, inCode, next, fetched⟩
    rw [fetched]
    exact ⟨⟨running, inCode⟩, rfl⟩

theorem dispatched?_eq_none_iff
    {machine : Machine} :
    machine.dispatched? = none ↔
      ∀ instruction, ¬ machine.Dispatches instruction := by
  simp only [Option.eq_none_iff_forall_ne_some, ne_eq, dispatched?_eq_some_iff]

variable {Device : Type} [Console Device]

section Fetching

variable {machine : Machine}

/-- The instruction whose bytes are at the program counter is fetched. -/
theorem fetch_of_readOperands?
    {opcode : Opcode}
    {operands : List Operand}
    {tail rest : List UInt8}
    (shape :
      machine.memory.bytesFrom machine.pc = opcode.code :: tail)
    (read : Image.readOperands? opcode.layout tail = some (operands, rest)) :
    ∃ instruction : Instruction,
      machine.fetch = .ok (instruction, machine.pc + opcode.size) ∧
        instruction.opcode = opcode ∧ instruction.operands = operands := by
  have stands : machine.memory.byte? machine.pc = some opcode.code := by
    rw [Memory.byte?_eq_head?_bytesFrom, shape, List.head?_cons]
  have behind : machine.memory.bytesFrom (machine.pc + 1) = tail := by
    rw [← Memory.drop_bytesFrom, shape, List.drop_one, List.tail_cons]
  rw [← behind] at read
  obtain ⟨instruction, fetched, sameOpcode, sameOperands⟩ :=
    Fetch.instruction_of_readOperands? read
  have fits :
      machine.pc + 1 + opcode.operandSize ≤ machine.memory.size := by
    have behindLength := Memory.length_bytesFrom machine.memory machine.pc
    have enough := Image.length_of_readOperands? read
    rw [behind] at enough
    rw [shape, List.length_cons] at behindLength
    simp only [Opcode.operandSize]
    omega
  refine ⟨instruction, ?_, sameOpcode, sameOperands⟩
  simp only [fetch, Fetch.byte, stands, Opcode.ofCode?_code, fits, ↓reduceIte,
    fetched]
  rw [Opcode.size, Nat.add_assoc]

/-- A byte that is no code keeps an instruction from being fetched. -/
theorem fetch_of_unknown
    {code : UInt8}
    {tail : List UInt8}
    (shape : machine.memory.bytesFrom machine.pc = code :: tail)
    (unknown : Opcode.ofCode? code = none) :
    machine.fetch = .error (.undecodable (.unknownOpcode code machine.pc)) := by
  have stands : machine.memory.byte? machine.pc = some code := by
    rw [Memory.byte?_eq_head?_bytesFrom, shape, List.head?_cons]
  simp only [fetch, Fetch.byte, stands, unknown]

/-- Operands past the end of memory keep an instruction from being fetched. -/
theorem fetch_of_cut
    {opcode : Opcode}
    {tail : List UInt8}
    (shape : machine.memory.bytesFrom machine.pc = opcode.code :: tail)
    (cut : Image.readOperands? opcode.layout tail = none) :
    machine.fetch =
      .error (.undecodable (.truncated opcode.mnemonic machine.pc)) := by
  have stands : machine.memory.byte? machine.pc = some opcode.code := by
    rw [Memory.byte?_eq_head?_bytesFrom, shape, List.head?_cons]
  have short : ¬ machine.pc + 1 + opcode.operandSize ≤ machine.memory.size := by
    intro fits
    have length := Memory.length_bytesFrom machine.memory machine.pc
    rw [shape, List.length_cons] at length
    have enough : Operand.Kind.totalSize opcode.layout ≤ tail.length := by
      simp only [Opcode.operandSize] at fits
      omega
    obtain ⟨operands, rest, read⟩ := Image.exists_readOperands? enough
    cases cut.symm.trans read
  simp only [fetch, Fetch.byte, stands, Opcode.ofCode?_code, short, ↓reduceIte]

/--
Inside memory only an unknown code byte or operands past the end keep an
instruction from being fetched.
-/
theorem fetch_cases
    (inside : machine.pc < machine.memory.size) :
    (∃ cause : Image.DecodeError,
      machine.fetch = .error (.undecodable cause) ∧
        cause.position = machine.pc) ∨
      ∃ instruction : Instruction,
        machine.fetch =
          .ok (instruction, machine.pc + instruction.opcode.size) := by
  cases shape : machine.memory.bytesFrom machine.pc with
  | nil =>
      have length := Memory.length_bytesFrom machine.memory machine.pc
      rw [shape, List.length_nil] at length
      omega
  | cons code tail =>
      cases known : Opcode.ofCode? code with
      | none =>
          exact .inl ⟨_, fetch_of_unknown shape known, rfl⟩
      | some opcode =>
          rw [← Opcode.code_of_ofCode? known] at shape
          cases read : Image.readOperands? opcode.layout tail with
          | none =>
              exact .inl ⟨_, fetch_of_cut shape read, rfl⟩
          | some found =>
              obtain ⟨instruction, fetched, sameOpcode, _⟩ :=
                fetch_of_readOperands? shape read
              exact .inr ⟨instruction, by rw [fetched, sameOpcode]⟩

/-- What is fetched ends where its size says, wherever the machine stands. -/
theorem next_of_fetch
    {instruction : Instruction}
    {next : Nat}
    (fetched : machine.fetch = .ok (instruction, next)) :
    next = machine.pc + instruction.opcode.size := by
  have inside : machine.pc < machine.memory.size := by
    by_contra outside
    have nothing : machine.memory.byte? machine.pc = none :=
      Array.getElem?_eq_none (Nat.le_of_not_lt outside)
    simp only [fetch, Fetch.byte, nothing] at fetched
    cases fetched
  rcases fetch_cases inside with ⟨cause, failed, _⟩ | ⟨same, fetchedSame⟩
  · rw [fetched] at failed
    cases failed
  · rw [fetched] at fetchedSame
    cases fetchedSame
    rfl

end Fetching

/-- How executing an instruction raises a fault, with the console after it. -/
inductive Raises (machine : Machine) (device : Device) :
    Instruction → Fault → Device → Prop where
  | load {destination : Register} {address : UInt64} :
      machine.memory.size < address.toNat + Word.byteCount →
      Raises machine device (.loadAddr destination address)
        (.outOfBounds address machine.memory.size) device
  | store {source : Register} {address : UInt64} :
      machine.memory.size < address.toNat + Word.byteCount →
      Raises machine device (.storeAddr source address)
        (.outOfBounds address machine.memory.size) device
  | divide {destination left right : Register} :
      machine.registers.get right = 0 →
      Raises machine device (.binary .div destination left right)
        (.divisionByZero machine.pc) device
  | getc {number data : Register} {reason : String} {after : Device} :
      TrapCode.ofNumber? (machine.registers.get number) = some .getc →
      Console.read device = (after, .error reason) →
      Raises machine device (.trap number data) (.consoleInput reason) after

/-- How an instruction that raises no fault leaves the machine. -/
structure Advances (before : Machine) (instruction : Instruction) (next : Nat)
    (after : Machine) : Prop where
  pc :
    after.pc =
      match instruction.jumpTarget? before.registers with
      | some target => target.toNat
      | none => next
  memory :
    match instruction.store? before.registers with
    | some (address, value) =>
        before.memory.setWord? address.toNat value = some after.memory
    | none => after.memory = before.memory
  status :
    after.status = if instruction = .halt then .halted else before.status
  steps :
    after.steps = before.steps
  codeSize :
    after.codeSize = before.codeSize

/-- An instruction that raises no fault leaves a running machine running or halted. -/
theorem Advances.status_ne_faulted
    {before after : Machine}
    {instruction : Instruction}
    {next : Nat}
    (advances : Advances before instruction next after)
    (running : before.status = .running)
    (fault : Fault) :
    after.status ≠ .faulted fault := by
  intro faulted
  rw [advances.status, running] at faulted
  split at faulted <;> cases faulted

private theorem lt_of_readWord_error
    {machine : Machine}
    {address : UInt64}
    {fault : Fault}
    (failed : machine.readWord address = .error fault) :
    machine.memory.size < address.toNat + Word.byteCount ∧
      fault = .outOfBounds address machine.memory.size := by
  unfold readWord Memory.word? at failed
  split at failed
  · next outside =>
      split at outside
      · cases outside
      · next notInside =>
          cases failed
          exact ⟨Nat.lt_of_not_le notInside, rfl⟩
  · cases failed

private theorem lt_of_writeWord_error
    {machine : Machine}
    {address value : UInt64}
    {fault : Fault}
    (failed : machine.writeWord address value = .error fault) :
    machine.memory.size < address.toNat + Word.byteCount ∧
      fault = .outOfBounds address machine.memory.size := by
  unfold writeWord Memory.setWord? at failed
  split at failed
  · next outside =>
      split at outside
      · cases outside
      · next notInside =>
          cases failed
          exact ⟨Nat.lt_of_not_le notInside, rfl⟩
  · cases failed

private theorem memory_of_writeWord
    {machine after : Machine}
    {address value : UInt64}
    (written : machine.writeWord address value = .ok after) :
    ∃ memory, machine.memory.setWord? address.toNat value = some memory ∧
      after = { machine with memory := memory } := by
  unfold writeWord at written
  split at written
  · cases written
  · next memory changed =>
      cases written
      exact ⟨memory, changed, rfl⟩

/-- Bytes that a console does not take are reported first and change nothing else. -/
theorem fst_carryOut_write
    (writer : Writer)
    (bytes : List UInt8)
    (outcome : Outcome)
    (device : Device) :
    ((Transition.write writer bytes outcome).carryOut device).1 =
      ⟨outcome.machine,
        ((Console.write device bytes).2.map (.unwritten writer)).toList ++
          outcome.events⟩ := by
  rcases written : Console.write device bytes with ⟨after, refused⟩
  cases refused <;> simp only [Transition.carryOut, written] <;> rfl

/-- A trap asks its service, and without a byte to read it raises a fault. -/
private theorem trap_cases
    (machine : Machine)
    (number data : Register)
    (next : Nat)
    (device : Device) :
    let result :=
      (machine.trap (.trap number data) next number data).carryOut device
    (∃ fault, result.1 = machine.stop fault ∧
      Raises machine device (.trap number data) fault result.2) ∨
      Advances machine (.trap number data) next result.1.machine := by
  intro result
  cases service : TrapCode.ofNumber? (machine.registers.get number) with
  | none =>
      right
      simp only [result, trap, service, Transition.carryOut]
      exact ⟨rfl, rfl, rfl, rfl, rfl⟩
  | some code =>
      cases code with
      | putc =>
          right
          simp only [result, trap, service, fst_carryOut_write]
          exact ⟨rfl, rfl, rfl, rfl, rfl⟩
      | getc =>
          rcases byteRead : Console.read device with ⟨after, byte⟩
          cases byte with
          | error reason =>
              left
              simp only [result, trap, service, Transition.carryOut, byteRead]
              exact ⟨_, rfl, .getc service byteRead⟩
          | ok byte =>
              right
              simp only [result, trap, service, Transition.carryOut, byteRead]
              exact ⟨rfl, rfl, rfl, rfl, rfl⟩

/-- Executing an instruction raises a fault in place or advances the machine. -/
theorem execute_cases
    (machine : Machine)
    (instruction : Instruction)
    (next : Nat)
    (device : Device) :
    let result := (machine.execute instruction next).carryOut device
    (∃ fault, result.1 = machine.stop fault ∧
      Raises machine device instruction fault result.2) ∨
      Advances machine instruction next result.1.machine := by
  intro result
  cases instruction with
  | halt | load | move | unary | jump =>
      exact .inr ⟨rfl, rfl, rfl, rfl, rfl⟩
  | loadAddr destination address =>
      cases loaded : machine.readWord address with
      | error fault =>
          left
          obtain ⟨outside, rfl⟩ := lt_of_readWord_error loaded
          simp only [result, execute, loaded, Transition.carryOut]
          exact ⟨_, rfl, .load outside⟩
      | ok value =>
          right
          simp only [result, execute, loaded, Transition.carryOut]
          exact ⟨rfl, rfl, rfl, rfl, rfl⟩
  | storeAddr source address =>
      cases stored :
          machine.writeWord address (machine.registers.get source) with
      | error fault =>
          left
          obtain ⟨outside, rfl⟩ := lt_of_writeWord_error stored
          simp only [result, execute, stored, Transition.carryOut]
          exact ⟨_, rfl, .store outside⟩
      | ok after =>
          right
          obtain ⟨memory, changed, rfl⟩ := memory_of_writeWord stored
          simp only [result, execute, stored, Transition.carryOut]
          exact ⟨rfl, changed, rfl, rfl, rfl⟩
  | binary op destination left right =>
      cases computed :
          op.result? (machine.registers.get left)
            (machine.registers.get right) with
      | none =>
          left
          obtain ⟨rfl, zero⟩ := BinaryOp.result?_eq_none_iff.mp computed
          simp only [result, execute, computed, Transition.carryOut]
          exact ⟨_, rfl, .divide zero⟩
      | some value =>
          right
          simp only [result, execute, computed, Transition.carryOut]
          exact ⟨rfl, rfl, rfl, rfl, rfl⟩
  | jumpIf condition tested target =>
      right
      cases taken : condition.holds (machine.registers.get tested) with
      | true =>
          simp only [result, execute, taken, ↓reduceIte, Transition.carryOut]
          refine ⟨?_, rfl, rfl, rfl, rfl⟩
          simp only [ran, Instruction.jumpTarget?, taken, ↓reduceIte]
      | false =>
          simp only [result, execute, taken, Bool.false_eq_true, ↓reduceIte,
            Transition.carryOut]
          refine ⟨?_, rfl, rfl, rfl, rfl⟩
          simp only [ran, Instruction.jumpTarget?, taken, Bool.false_eq_true,
            ↓reduceIte]
  | loop counter target =>
      right
      by_cases spent : machine.registers.get counter = 0
      · simp only [result, execute, spent, ↓reduceIte, Transition.carryOut]
        refine ⟨?_, rfl, rfl, rfl, rfl⟩
        simp only [ran, Instruction.jumpTarget?, spent, ↓reduceIte]
      · simp only [result, execute, spent, ↓reduceIte, Transition.carryOut]
        refine ⟨?_, rfl, rfl, rfl, rfl⟩
        simp only [ran, Instruction.jumpTarget?, spent, ↓reduceIte]
  | trap number data =>
      exact trap_cases machine number data next device
  | print source =>
      right
      simp only [result, execute, fst_carryOut_write]
      exact ⟨rfl, rfl, rfl, rfl, rfl⟩

section Transitions

variable {machine : Machine}

theorem transition_of_isTerminal
    (terminal : machine.status.isTerminal = true) :
    machine.transition = .done ⟨machine, []⟩ := by
  simp only [transition, terminal, ↓reduceIte]

theorem transition_of_ended
    (running : machine.status = .running)
    (ended : machine.codeSize ≤ machine.pc) :
    machine.transition =
      .done ⟨{ machine with status := .halted }, [.endOfCode]⟩ := by
  simp only [transition, Status.isTerminal_eq_false_iff.mpr running, ended,
    ↓reduceIte, Bool.false_eq_true]

theorem transition_of_fetch_error
    {fault : Fault}
    (running : machine.status = .running)
    (inCode : machine.pc < machine.codeSize)
    (failed : machine.fetch = .error fault) :
    machine.transition = .done (machine.stop fault) := by
  simp only [transition, Status.isTerminal_eq_false_iff.mpr running,
    Nat.not_le.mpr inCode, failed, ↓reduceIte, Bool.false_eq_true]

theorem transition_of_fetch
    {instruction : Instruction}
    {next : Nat}
    (running : machine.status = .running)
    (inCode : machine.pc < machine.codeSize)
    (fetched : machine.fetch = .ok (instruction, next)) :
    machine.transition =
      { machine with steps := machine.steps + 1 }.execute instruction next := by
  simp only [transition, Status.isTerminal_eq_false_iff.mpr running,
    Nat.not_le.mpr inCode, fetched, ↓reduceIte, Bool.false_eq_true]

/--
A stopped machine stays.  A running one halts behind the image, stops where it
cannot fetch an instruction, or executes the instruction that it fetched.
-/
theorem transition_cases
    (machine : Machine) :
    (machine.status.isTerminal = true ∧
      machine.transition = .done ⟨machine, []⟩) ∨
    (machine.status = .running ∧ machine.codeSize ≤ machine.pc ∧
      machine.transition =
        .done ⟨{ machine with status := .halted }, [.endOfCode]⟩) ∨
    (machine.status = .running ∧ machine.pc < machine.codeSize ∧
      ∃ fault, machine.fetch = .error fault ∧
        machine.transition = .done (machine.stop fault)) ∨
    (machine.status = .running ∧ machine.pc < machine.codeSize ∧
      ∃ instruction next,
        machine.fetch = .ok (instruction, next) ∧
          machine.transition =
            { machine with steps := machine.steps + 1 }.execute instruction
              next) := by
  by_cases running : machine.status = .running
  · rcases Nat.lt_or_ge machine.pc machine.codeSize with inCode | ended
    · cases fetched : machine.fetch with
      | error fault =>
          exact .inr (.inr (.inl ⟨running, inCode, fault, rfl,
            transition_of_fetch_error running inCode fetched⟩))
      | ok result =>
          exact .inr (.inr (.inr ⟨running, inCode, result.1, result.2, rfl,
            transition_of_fetch running inCode fetched⟩))
    · exact .inr (.inl ⟨running, ended, transition_of_ended running ended⟩)
  · have terminal := Status.isTerminal_of_ne_running running
    exact .inl ⟨terminal, transition_of_isTerminal terminal⟩

end Transitions

/--
A step of a running machine halts behind the image, stops at bytes that are no
instruction, or executes the instruction at the program counter.
-/
theorem step_cases
    {machine : Machine}
    (running : machine.status = .running)
    (fits : machine.codeSize ≤ machine.memory.size)
    (device : Device) :
    (machine.codeSize ≤ machine.pc ∧
      machine.step device =
        (⟨{ machine with status := .halted }, [.endOfCode]⟩, device)) ∨
    (machine.pc < machine.codeSize ∧
      ∃ cause : Image.DecodeError,
        machine.fetch = .error (.undecodable cause) ∧
          cause.position = machine.pc ∧
          machine.step device = (machine.stop (.undecodable cause), device)) ∨
    (machine.pc < machine.codeSize ∧
      ∃ instruction : Instruction,
        machine.fetch =
            .ok (instruction, machine.pc + instruction.opcode.size) ∧
          machine.transition =
            { machine with steps := machine.steps + 1 }.execute instruction
              (machine.pc + instruction.opcode.size)) := by
  rcases transition_cases machine with
      ⟨terminal, _⟩ | ⟨_, ended, halts⟩ | ⟨_, inCode, fault, failed, stops⟩ |
      ⟨_, inCode, instruction, next, fetched, executes⟩
  · rw [running] at terminal
    cases terminal
  · exact .inl ⟨ended, by rw [step, halts, Transition.carryOut]⟩
  · rcases fetch_cases (Nat.lt_of_lt_of_le inCode fits) with
        ⟨cause, undecodable, position⟩ | ⟨instruction, fetched⟩
    · obtain rfl : Fault.undecodable cause = fault :=
        Except.error.inj (undecodable.symm.trans failed)
      exact .inr (.inl ⟨inCode, cause, failed, position,
        by rw [step, stops, Transition.carryOut]⟩)
    · rw [failed] at fetched
      cases fetched
  · obtain rfl := next_of_fetch fetched
    exact .inr (.inr ⟨inCode, instruction, fetched, executes⟩)

/-- As `step_cases`, with what the instruction does in place of its execution. -/
theorem step_effect_cases
    {machine : Machine}
    (running : machine.status = .running)
    (fits : machine.codeSize ≤ machine.memory.size)
    (device : Device) :
    let started := { machine with steps := machine.steps + 1 }
    let result := machine.step device
    (machine.codeSize ≤ machine.pc ∧
      result = (⟨{ machine with status := .halted }, [.endOfCode]⟩, device)) ∨
    (machine.pc < machine.codeSize ∧
      ∃ cause : Image.DecodeError,
        machine.fetch = .error (.undecodable cause) ∧
          cause.position = machine.pc ∧
          result = (machine.stop (.undecodable cause), device)) ∨
    (machine.pc < machine.codeSize ∧
      ∃ instruction : Instruction,
        machine.fetch =
            .ok (instruction, machine.pc + instruction.opcode.size) ∧
          ((∃ fault, result.1 = started.stop fault ∧
            Raises started device instruction fault result.2) ∨
          Advances started instruction
            (machine.pc + instruction.opcode.size) result.1.machine)) := by
  intro started result
  rcases step_cases running fits device with
      left | undecodable | ⟨inCode, instruction, fetched, dispatched⟩
  · exact .inl left
  · exact .inr (.inl undecodable)
  · refine .inr (.inr ⟨inCode, instruction, fetched, ?_⟩)
    simp only [result, step, dispatched]
    exact execute_cases started instruction _ device

end Machine

end RegisterMachine
