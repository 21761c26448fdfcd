import RegisterMachine.Proofs.Machine.Reachability

namespace RegisterMachine

/-!
# Fetching stays inside memory

Before an instruction is executed its operands are checked to be inside memory
as a whole; they are then read one after another, each with a failure of its
own.  The reads are those of the catalog layout (`Fetch.operands_instruction`),
so the check covers every one of them, in every machine that a host can reach.
What is left of accesses outside memory is what loads and stores ask for.
-/

namespace Fetch

/-- Read one operand of a kind. -/
def operand (memory : Memory) : Operand.Kind → Fetch Operand
  | .register => (fun register => .register register.toByte) <$> register memory
  | .word => .word <$> word memory

/-- Read the operands of a layout one after another. -/
def operands (memory : Memory) : List Operand.Kind → Fetch (List Operand)
  | [] => return []
  | kind :: rest => do
      let first ← operand memory kind
      let later ← operands memory rest
      return first :: later

/-- Fetching an instruction reads the operands of its layout, and nothing else. -/
theorem operands_instruction
    (memory : Memory)
    (opcode : Opcode) :
    Instruction.operands <$> instruction memory opcode =
      operands memory opcode.layout := by
  -- One case for each layout, where both sides are the same reads in a row.
  cases opcode <;>
    simp only [instruction, registerAndWord, twoRegisters, threeRegisters,
      Opcode.layout, operands, operand, Instruction.operands, map_bind, map_pure,
      Functor.map_map, bind_map_left, bind_pure_comp]

variable {memory : Memory} {cursor : Nat}

theorem byte_of_lt
    (inside : cursor < memory.size) :
    ∃ byte, Fetch.byte memory cursor = .ok (byte, cursor + 1) := by
  refine ⟨memory.bytes[cursor], ?_⟩
  have stands : memory.byte? cursor = some memory.bytes[cursor] :=
    Array.getElem?_eq_getElem inside
  rw [Fetch.byte, stands]

/-- An operand that is inside memory is read, and the cursor moves behind it. -/
theorem operand_of_le
    {kind : Operand.Kind}
    (inside : cursor + kind.size ≤ memory.size) :
    ∃ value, operand memory kind cursor = .ok (value, cursor + kind.size) := by
  have enough : kind.size ≤ (memory.bytesFrom cursor).length := by
    rw [Memory.length_bytesFrom]
    exact Nat.le_sub_of_add_le' inside
  obtain ⟨value, rest, read⟩ := Image.exists_readOperand? enough
  cases kind with
  | register =>
      obtain ⟨register, fetched, _⟩ := register_of_readOperand? read
      exact ⟨_, map_eq_of_ok fetched⟩
  | word =>
      obtain ⟨word, fetched, _⟩ := word_of_readOperand? read
      exact ⟨_, map_eq_of_ok fetched⟩

/-- Every operand of a layout that is inside memory as a whole is read where it is. -/
theorem operand_of_layout
    {before after : List Operand.Kind}
    {kind : Operand.Kind}
    (inside :
      cursor + Operand.Kind.totalSize (before ++ kind :: after) ≤ memory.size) :
    let position := cursor + Operand.Kind.totalSize before
    position + kind.size ≤ memory.size ∧
      ∃ value,
        operand memory kind position = .ok (value, position + kind.size) := by
  intro position
  have within : position + kind.size ≤ memory.size := by
    rw [Operand.Kind.totalSize_append, Operand.Kind.totalSize] at inside
    omega
  exact ⟨within, operand_of_le within⟩

/-- Operands that are inside memory as a whole make an instruction. -/
theorem instruction_of_le
    {opcode : Opcode}
    (inside : cursor + opcode.operandSize ≤ memory.size) :
    ∃ fetched : Instruction,
      fetched.opcode = opcode ∧
        operands memory opcode.layout cursor =
          .ok (fetched.operands, cursor + opcode.operandSize) ∧
        instruction memory opcode cursor =
          .ok (fetched, cursor + opcode.operandSize) := by
  have enough :
      Operand.Kind.totalSize opcode.layout ≤
        (memory.bytesFrom cursor).length := by
    rw [Memory.length_bytesFrom]
    exact Nat.le_sub_of_add_le' inside
  obtain ⟨values, rest, read⟩ := Image.exists_readOperands? enough
  obtain ⟨fetched, stands, sameOpcode, _⟩ := instruction_of_readOperands? read
  refine ⟨fetched, sameOpcode, ?_, stands⟩
  rw [← operands_instruction]
  exact map_eq_of_ok stands

end Fetch

namespace Machine

variable {Device : Type} [Console Device] {machine : Machine}

/-- Only loads and stores raise an access outside memory, at their own address. -/
theorem Raises.access
    {device after : Device}
    {instruction : Instruction}
    {address : UInt64}
    {size : Nat}
    (raised :
      Raises machine device instruction (.outOfBounds address size) after) :
    size = machine.memory.size ∧
      machine.memory.size < address.toNat + Word.byteCount ∧
      ∃ register, instruction = .loadAddr register address ∨
        instruction = .storeAddr register address := by
  cases raised with
  | load outside =>
      exact ⟨rfl, outside, _, .inl rfl⟩
  | store outside =>
      exact ⟨rfl, outside, _, .inr rfl⟩

/-- Only a load or a store is stopped for leaving memory, and only when it does. -/
theorem exists_access_of_outOfBounds
    {address : UInt64}
    {size : Nat}
    {device : Device}
    (running : machine.status = .running)
    (fits : machine.codeSize ≤ machine.memory.size)
    (faulted :
      (machine.step device).1.machine.status =
        .faulted (.outOfBounds address size)) :
    size = machine.memory.size ∧
      machine.memory.size < address.toNat + Word.byteCount ∧
      ∃ instruction : Instruction,
        machine.Dispatches instruction ∧
          ∃ register, instruction = .loadAddr register address ∨
            instruction = .storeAddr register address := by
  rcases step_effect_cases running fits device with
      ⟨_, stepped⟩ | ⟨_, cause, _, _, stepped⟩ |
      ⟨inCode, instruction, fetched, ⟨raised, stopped, raises⟩ | advances⟩
  · rw [stepped] at faulted
    cases faulted
  · rw [stepped] at faulted
    cases faulted
  · rw [stopped] at faulted
    cases faulted
    obtain ⟨sameSize, outside, access⟩ := raises.access
    exact ⟨sameSize, outside, instruction, ⟨running, inCode, _, fetched⟩, access⟩
  · exact (advances.status_ne_faulted running _ faulted).elim

variable {code : List UInt8} {memorySize : Nat}

/--
Fetching in every machine that a host can reach.  Behind the image nothing is
fetched: the step only halts.  Inside it the code byte is inside memory, the
reads of the instruction are those of its layout, and once its operands fit,
each of them is read where the layout has it, and all together they move the
cursor by their size, never past the end of memory.  So only a load or a store
can be stopped for leaving memory, and only when the word at its address is not
fully inside.
-/
theorem fetch_within_memory
    (reachable : Reachable code memorySize machine) :
    (machine.status = .running →
      machine.codeSize ≤ machine.pc →
      ∀ device : Device,
        machine.step device =
          (⟨{ machine with status := .halted }, [.endOfCode]⟩, device)) ∧
    (machine.pc < machine.codeSize →
      machine.codeSize ≤ machine.memory.size ∧
      ∃ byte,
        Fetch.byte machine.memory machine.pc = .ok (byte, machine.pc + 1) ∧
        ∀ opcode, Opcode.ofCode? byte = some opcode →
          let cursor := machine.pc + 1
          Instruction.operands <$> Fetch.instruction machine.memory opcode =
            Fetch.operands machine.memory opcode.layout ∧
          (cursor + opcode.operandSize ≤ machine.memory.size →
            (∀ before kind after, opcode.layout = before ++ kind :: after →
              let position := cursor + Operand.Kind.totalSize before
              position + kind.size ≤ machine.memory.size ∧
                ∃ value, Fetch.operand machine.memory kind position =
                  .ok (value, position + kind.size)) ∧
            ∃ instruction : Instruction,
              instruction.opcode = opcode ∧
              Fetch.operands machine.memory opcode.layout cursor =
                .ok (instruction.operands, cursor + opcode.operandSize) ∧
              machine.fetch =
                .ok (instruction, cursor + opcode.operandSize))) ∧
    ∀ (device : Device) (address : UInt64) (size : Nat),
      machine.status = .running →
      (machine.step device).1.machine.status =
        .faulted (.outOfBounds address size) →
      size = machine.memory.size ∧
        machine.memory.size < address.toNat + Word.byteCount ∧
        ∃ instruction : Instruction,
          machine.Dispatches instruction ∧
            ∃ register, instruction = .loadAddr register address ∨
              instruction = .storeAddr register address := by
  have fits := reachable.consistent.codeSize_le
  refine ⟨?_, ?_, ?_⟩
  · intro running left device
    rw [step, transition_of_ended running left, Transition.carryOut]
  · intro inCode
    obtain ⟨byte, stands⟩ :=
      Fetch.byte_of_lt (Nat.lt_of_lt_of_le inCode fits)
    refine ⟨fits, byte, stands, ?_⟩
    intro opcode known cursor
    refine ⟨Fetch.operands_instruction _ opcode, fun inside => ⟨?_, ?_⟩⟩
    · intro before kind after split
      rw [Opcode.operandSize, split] at inside
      exact Fetch.operand_of_layout inside
    · obtain ⟨instruction, sameOpcode, operands, fetched⟩ :=
        Fetch.instruction_of_le inside
      refine ⟨instruction, sameOpcode, operands, ?_⟩
      -- The check that stands before the reads has gone well.
      simp only [fetch, stands, known, cursor] at inside ⊢
      rw [if_pos inside, fetched]
  · intro device address size running faulted
    exact exists_access_of_outOfBounds running fits faulted

/-- A jump to the address in `R0`, with one more byte of image behind it. -/
private def jumpImage : List UInt8 := [16, 0, 0]

private def jumpLoaded : Machine :=
  { memory := .ofImage jumpImage 12, codeSize := jumpImage.length }

/-- The machine after its host has put a load behind the jump. -/
private def jumpWritten : Machine :=
  { jumpLoaded.writeRegister 0 2 with
    memory := ⟨#[16, 0, 2, 1, 5, 0, 0, 0, 0, 0, 0, 0]⟩ }

/-- The machine at the load, the last byte of its image. -/
private def jumped : Execution ConsoleBuffer :=
  Execution.step ⟨jumpWritten, {}, {}⟩

/--
A load that a jump leads to, written by the host, with its operands up to the
very end of memory: they are read, and the load itself leaves memory.
-/
theorem fetch_within_memory_jumped :
    Reachable jumpImage 12 jumped.machine ∧
      (∃ instruction : Instruction, instruction.opcode = .loadAddr ∧
        jumped.machine.fetch = .ok (instruction, 12)) ∧
      (jumped.machine.step jumped.device).1.machine.status =
        .faulted (.outOfBounds 5 12) ∧
      12 < (5 : UInt64).toNat + Word.byteCount := by
  have write :
      (jumpLoaded.writeRegister (Register.ofByte 0) 2).writeWord 2 327938 =
        .ok jumpWritten := by
    rfl
  have written : Reachable jumpImage 12 jumpWritten :=
    .writeWord (.writeRegister 0 2 (.load rfl)) write
  have reachable : Reachable jumpImage 12 jumped.machine :=
    Reachable.step written
  have faulted :
      (jumped.machine.step jumped.device).1.machine.status =
        .faulted (.outOfBounds 5 12) := by
    rfl
  have load :
      Fetch.byte jumped.machine.memory jumped.machine.pc = .ok (2, 3) := by
    rfl
  obtain ⟨_, fetches, access⟩ :=
    @fetch_within_memory ConsoleBuffer _ _ _ _ reachable
  obtain ⟨_, byte, stands, fetched⟩ :=
    fetches (by decide : jumped.machine.pc < jumped.machine.codeSize)
  rw [load] at stands
  cases stands
  obtain ⟨_, read⟩ := fetched .loadAddr (by decide)
  obtain ⟨_, instruction, sameOpcode, _, whole⟩ := read (by decide)
  obtain ⟨_, outside, _⟩ := access jumped.device 5 12 rfl faulted
  exact ⟨reachable, ⟨instruction, sameOpcode, whole⟩, faulted, outside⟩

end Machine

end RegisterMachine
