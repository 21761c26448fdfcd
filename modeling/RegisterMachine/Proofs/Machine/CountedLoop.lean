import RegisterMachine.Proofs.Machine.Effect
import RegisterMachine.Proofs.Machine.Transform

namespace RegisterMachine

/-!
# Counted loops

A loop instruction behind a body that it leads back to makes the machine run the
body as often as its counter says, and once more.  The counter goes down between
two rounds of the body and not within one (`countDown`), so a body that does not
use the counter is the same function in every round.
-/

namespace Instruction

/-- The registers after a round of a body and the loop instruction that leads back to it. -/
def countDown (body : List Instruction) (counter : Register)
    (registers : Registers) : Registers :=
  let reached := transformAll body registers
  reached.set counter (reached.get counter - 1)

variable {body : List Instruction} {counter : Register}

theorem get_countDown_of_ne
    {register : Register}
    (different : counter ≠ register)
    (kept : ∀ instruction ∈ body, instruction.destination? ≠ some register)
    (registers : Registers) :
    (countDown body counter registers).get register = registers.get register := by
  rw [countDown, Registers.get_set, if_neg different,
    get_transformAll_of_ne kept registers]

theorem get_iterate_countDown_of_ne
    {register : Register}
    (different : counter ≠ register)
    (kept : ∀ instruction ∈ body, instruction.destination? ≠ some register)
    (registers : Registers)
    (rounds : Nat) :
    ((countDown body counter)^[rounds] registers).get register =
      registers.get register := by
  induction rounds with
  | zero =>
      rfl
  | succ rounds inductionHypothesis =>
      rw [Function.iterate_succ_apply', get_countDown_of_ne different kept,
        inductionHypothesis]

theorem get_countDown
    (kept : ∀ instruction ∈ body, instruction.destination? ≠ some counter)
    (registers : Registers) :
    (countDown body counter registers).get counter = registers.get counter - 1 := by
  rw [countDown, Registers.get_set, if_pos rfl, get_transformAll_of_ne kept]

/-- The counter goes down by one with each round. -/
theorem get_iterate_countDown
    (kept : ∀ instruction ∈ body, instruction.destination? ≠ some counter)
    (registers : Registers)
    (rounds : Nat) :
    ((countDown body counter)^[rounds] registers).get counter =
      registers.get counter - UInt64.ofNat rounds := by
  induction rounds with
  | zero =>
      exact (UInt64.sub_zero _).symm
  | succ rounds inductionHypothesis =>
      have oneLess : registers.get counter - UInt64.ofNat rounds - 1 =
          registers.get counter - (UInt64.ofNat rounds + 1) := by
        grind
      rw [Function.iterate_succ_apply', get_countDown kept, inductionHypothesis,
        oneLess, UInt64.ofNat_add]
      rfl

/-- Before the next round the registers are those after the body, but for the counter. -/
theorem countDown_agreeBut
    (registers : Registers) :
    Registers.AgreeBut counter (countDown body counter registers)
      (transformAll body registers) := by
  intro other different
  rw [countDown, Registers.get_set, if_neg different.symm]

/-- Rounds of a body that does not use the counter are rounds without a counter. -/
theorem iterate_countDown_agreeBut
    (unused : ∀ instruction ∈ body, counter ∉ instruction.sources)
    (registers : Registers)
    (rounds : Nat) :
    Registers.AgreeBut counter ((countDown body counter)^[rounds] registers)
      ((transformAll body)^[rounds] registers) := by
  induction rounds with
  | zero =>
      exact fun _ _ => rfl
  | succ rounds inductionHypothesis =>
      rw [Function.iterate_succ_apply', Function.iterate_succ_apply']
      intro other different
      exact (countDown_agreeBut _ other different).trans
        (transformAll_agreeBut unused inductionHypothesis other different)

end Instruction

/-- Bytes that hold a body and a loop instruction, whose registers the body leaves alone. -/
structure CountedLoop (code : List UInt8) (body : List Instruction)
    (counter target : Register) : Prop where
  encodes :
    Image.Encodes code (body ++ [.loop counter target])
  works :
    ∀ instruction ∈ body, instruction.opcode.worksOnRegisters = true
  keepsCounter :
    ∀ instruction ∈ body, instruction.destination? ≠ some counter
  keepsTarget :
    ∀ instruction ∈ body, instruction.destination? ≠ some target
  different :
    counter ≠ target

/-- A running machine that stands at a loop inside its image, with the way back to it. -/
structure Machine.AtLoop (code : List UInt8) (target : Register)
    (machine : Machine) : Prop where
  running :
    machine.status = .running
  stands :
    code <+: machine.memory.bytesFrom machine.pc
  inCode :
    machine.pc + code.length ≤ machine.codeSize
  back :
    (machine.registers.get target).toNat = machine.pc

namespace Execution

variable {Device : Type} [Console Device]

/-- A loop instruction goes back with the counter one lower, or on if it is zero. -/
theorem step_of_loop
    {execution : Execution Device}
    {counter target : Register}
    {next : Nat}
    (running : execution.machine.status = .running)
    (inCode : execution.machine.pc < execution.machine.codeSize)
    (fetched : execution.machine.fetch = .ok (.loop counter target, next)) :
    let registers := execution.machine.registers
    let counted := registers.set counter (registers.get counter - 1)
    execution.step.machine =
        (if registers.get counter = 0 then
          { execution.machine with
            pc := next
            steps := execution.machine.steps + 1 }
        else
          { execution.machine with
            pc := (counted.get target).toNat
            registers := counted
            steps := execution.machine.steps + 1 }) ∧
      execution.step.device = execution.device := by
  intro registers counted
  by_cases spent : execution.machine.registers.get counter = 0
  · simp only [step, Machine.step,
      Machine.transition_of_fetch running inCode fetched, Machine.execute, spent,
      ↓reduceIte, Transition.carryOut, Machine.ran, registers, and_self]
  · simp only [step, Machine.step,
      Machine.transition_of_fetch running inCode fetched, Machine.execute, spent,
      ↓reduceIte, Transition.carryOut, Machine.ran, registers, counted, and_self]

variable {code : List UInt8} {body : List Instruction} {counter target : Register}

/-- One round: back to the start with the counter one lower, or on if it is zero. -/
theorem iterate_step_round
    {start : Execution Device}
    (loop : CountedLoop code body counter target)
    (atLoop : start.machine.AtLoop code target) :
    let passed := step^[body.length + 1] start
    passed.machine =
        (if start.machine.registers.get counter = 0 then
          { start.machine with
            pc := start.machine.pc + code.length
            registers := Instruction.transformAll body start.machine.registers
            steps := start.machine.steps + UInt64.ofNat (body.length + 1) }
        else
          { start.machine with
            registers := Instruction.countDown body counter start.machine.registers
            steps := start.machine.steps + UInt64.ofNat (body.length + 1) }) ∧
      passed.device = start.device := by
  intro passed
  let behind := step^[body.length] start
  obtain ⟨rest, size, restEncodes, length, restStands, reached, sameDevice⟩ :=
    iterate_step_transformAll atLoop.running loop.encodes atLoop.stands
      atLoop.inCode loop.works
  have standsBehind : rest <+: behind.machine.memory.bytesFrom behind.machine.pc := by
    rw [reached]
    exact restStands
  obtain ⟨fetched, empty, emptyEncodes, restLength, _⟩ :=
    Machine.fetch_of_encodes restEncodes standsBehind
  cases emptyEncodes
  have inCode : behind.machine.pc < behind.machine.codeSize := by
    have whole := atLoop.inCode
    have positive := (Instruction.loop counter target).opcode.size_pos
    rw [reached]
    simp only
    omega
  have running : behind.machine.status = .running := by
    rw [reached]
    exact atLoop.running
  obtain ⟨stepped, steppedDevice⟩ := step_of_loop running inCode fetched
  have passes : passed = behind.step := Function.iterate_succ_apply' step _ start
  have sameCounter :
      (Instruction.transformAll body start.machine.registers).get counter =
        start.machine.registers.get counter :=
    Instruction.get_transformAll_of_ne loop.keepsCounter _
  have counted : start.machine.steps + UInt64.ofNat body.length + 1 =
      start.machine.steps + UInt64.ofNat (body.length + 1) := by
    rw [UInt64.ofNat_add, ← UInt64.add_assoc]
    rfl
  have ends : start.machine.pc + size + (Instruction.loop counter target).opcode.size =
      start.machine.pc + code.length := by
    rw [length, restLength, List.length_nil, Nat.add_zero, Nat.add_assoc]
  rw [passes]
  refine ⟨?_, steppedDevice.trans sameDevice⟩
  rw [stepped, reached]
  simp only [sameCounter, counted, ends]
  split
  · rfl
  · have back : ((Instruction.countDown body counter start.machine.registers).get
        target).toNat = start.machine.pc := by
      rw [Instruction.get_countDown_of_ne loop.different loop.keepsTarget]
      exact atLoop.back
    rw [Instruction.countDown, sameCounter] at back ⊢
    simp only [back]

/-- All rounds of a loop: back with one less as long as the counter is not zero. -/
theorem iterate_step_rounds
    {start : Execution Device}
    {count : Nat}
    (loop : CountedLoop code body counter target)
    (atLoop : start.machine.AtLoop code target)
    (counts : (start.machine.registers.get counter).toNat = count) :
    let final := step^[(count + 1) * (body.length + 1)] start
    final.machine =
        { start.machine with
          pc := start.machine.pc + code.length
          registers := Instruction.transformAll body
            ((Instruction.countDown body counter)^[count] start.machine.registers)
          steps := start.machine.steps +
            UInt64.ofNat ((count + 1) * (body.length + 1)) } ∧
      final.device = start.device := by
  -- By induction on the counter, with the state at the start of a round generalised.
  induction count generalizing start with
  | zero =>
      have spent : start.machine.registers.get counter = 0 :=
        UInt64.toNat_inj.mp counts
      have passed := iterate_step_round loop atLoop
      rw [if_pos spent] at passed
      rw [Nat.zero_add, Nat.one_mul]
      exact passed
  | succ count inductionHypothesis =>
      have notSpent : start.machine.registers.get counter ≠ 0 := by
        intro spent
        rw [spent] at counts
        cases counts
      let passed := step^[body.length + 1] start
      obtain ⟨machine, device⟩ := iterate_step_round loop atLoop
      rw [if_neg notSpent] at machine
      have atNext : passed.machine.AtLoop code target := by
        rw [machine]
        refine ⟨atLoop.running, atLoop.stands, atLoop.inCode, ?_⟩
        rw [Instruction.get_countDown_of_ne loop.different loop.keepsTarget]
        exact atLoop.back
      have countsNext : (passed.machine.registers.get counter).toNat = count := by
        rw [machine]
        simp only [Instruction.get_countDown loop.keepsCounter]
        rw [Machine.toNat_sub_one notSpent, counts]
        rfl
      obtain ⟨reached, sameDevice⟩ := inductionHypothesis atNext countsNext
      have steps : start.machine.steps + UInt64.ofNat (body.length + 1) +
          UInt64.ofNat ((count + 1) * (body.length + 1)) =
            start.machine.steps +
              UInt64.ofNat ((count + 1 + 1) * (body.length + 1)) := by
        rw [UInt64.add_assoc, ← UInt64.ofNat_add, Nat.add_comm, ← Nat.succ_mul]
      intro final
      have split : final = step^[(count + 1) * (body.length + 1)] passed := by
        simp only [final, passed, ← Function.iterate_add_apply]
        rw [Nat.succ_mul]
      rw [split, reached, machine]
      simp only [steps]
      exact ⟨rfl, sameDevice.trans device⟩

/--
A loop runs its body as often as its counter says, and once more: the machine
then stands behind the loop instruction with the counter at zero, and nothing
else but the registers and the count of its steps has changed.  The registers are
those of the body applied to the registers before each round, where the counter
stands at the number of rounds that are still to be counted.  If the body does
not use the counter, they are those of the body applied over and over.
-/
theorem loop_runs_body
    {start : Execution Device}
    (loop : CountedLoop code body counter target)
    (atLoop : start.machine.AtLoop code target) :
    let count := (start.machine.registers.get counter).toNat
    let before (round : Nat) :=
      (Instruction.countDown body counter)^[round] start.machine.registers
    let final := step^[(count + 1) * (body.length + 1)] start
    final.machine.status = .running ∧
    final.machine.pc =
      start.machine.pc +
        (body.map fun instruction => instruction.opcode.size).sum + 3 ∧
    final.machine.registers.get counter = 0 ∧
    final.machine.registers.get target = start.machine.registers.get target ∧
    final.machine.memory = start.machine.memory ∧
    final.machine.codeSize = start.machine.codeSize ∧
    final.device = start.device ∧
    final.machine.steps =
      start.machine.steps + UInt64.ofNat ((count + 1) * (body.length + 1)) ∧
    final.machine.registers = Instruction.transformAll body (before count) ∧
    (∀ round ≤ count,
      (before round).get counter = UInt64.ofNat (count - round)) ∧
    (∀ round,
      Registers.AgreeBut counter (before (round + 1))
        (Instruction.transformAll body (before round))) ∧
    ((∀ instruction ∈ body, counter ∉ instruction.sources) →
      Registers.AgreeBut counter final.machine.registers
        ((Instruction.transformAll body)^[count + 1] start.machine.registers)) := by
  intro count before final
  obtain ⟨machine, device⟩ := iterate_step_rounds loop atLoop rfl
  have registers : final.machine.registers =
      Instruction.transformAll body (before count) := by
    rw [machine]
  have counterBefore : ∀ round ≤ count,
      (before round).get counter = UInt64.ofNat (count - round) := by
    intro round le
    rw [Instruction.get_iterate_countDown loop.keepsCounter, UInt64.ofNat_sub le,
      UInt64.ofNat_toNat]
  refine ⟨?_, ?_, ?_, ?_, ?_, ?_, device, ?_, registers, counterBefore, ?_, ?_⟩
  · rw [machine]
    exact atLoop.running
  · have length := loop.encodes.length_eq
    rw [List.map_append, List.sum_append] at length
    rw [machine, Nat.add_assoc]
    exact congrArg (start.machine.pc + ·) length
  · rw [registers, Instruction.get_transformAll_of_ne loop.keepsCounter,
      counterBefore count (Nat.le_refl count), Nat.sub_self]
    rfl
  · rw [registers, Instruction.get_transformAll_of_ne loop.keepsTarget,
      Instruction.get_iterate_countDown_of_ne loop.different loop.keepsTarget]
  · rw [machine]
  · rw [machine]
  · rw [machine]
  · intro round
    simp only [before, Function.iterate_succ_apply']
    exact Instruction.countDown_agreeBut _
  · intro unused
    rw [registers, Function.iterate_succ_apply']
    exact Instruction.transformAll_agreeBut unused
      (Instruction.iterate_countDown_agreeBut unused _ count)

/-- A body that counts its rounds and adds up the counter before each of them. -/
private def summing : List Instruction :=
  [.unary .inc (Register.ofByte 0),
    .binary .add (Register.ofByte 3) (Register.ofByte 3) (Register.ofByte 1)]

/-- The body and its loop instruction, with an unused bit set in the first register byte. -/
private def summingCode : List UInt8 := [9, 8, 5, 3, 3, 1, 19, 1, 2]

/-- The loop behind two other bytes of the image, to be run three times. -/
private def summingStart : Execution ConsoleBuffer where
  machine :=
    { memory := .ofImage (0 :: 0 :: summingCode) 11
      registers :=
        (({} : Registers).set (Register.ofByte 1) 2).set (Register.ofByte 2) 2
      pc := 2
      codeSize := 11 }
  device := {}

/-- Nine steps are three rounds, before which the counter stands at two, one and zero. -/
theorem loop_runs_body_summing :
    CountedLoop summingCode summing 1 2 ∧
      summingStart.machine.AtLoop summingCode 2 ∧
      (step^[9] summingStart).machine.pc = 11 ∧
      (step^[9] summingStart).machine.registers.get 0 = 3 ∧
      (step^[9] summingStart).machine.registers.get 1 = 0 ∧
      (step^[9] summingStart).machine.registers.get 3 = 2 + 1 + 0 := by
  have decoded : Image.decode summingCode = .ok
      [⟨0, .inc, [.register 0]⟩,
        ⟨2, .add, [.register 3, .register 3, .register 1]⟩,
        ⟨6, .loop, [.register 1, .register 2]⟩] := by cbv
  have loop : CountedLoop summingCode summing 1 2 :=
    ⟨Image.encodes_of_decodeFrom decoded rfl, by decide, by decide, by decide,
      by decide⟩
  have atLoop : summingStart.machine.AtLoop summingCode 2 :=
    ⟨rfl, ⟨[], rfl⟩, by decide, rfl⟩
  obtain ⟨_, pc, counter, _, _, _, _, _, registers, _⟩ := loop_runs_body loop atLoop
  have reached : (step^[9] summingStart).machine.registers =
      Instruction.transformAll summing
        ((Instruction.countDown summing 1)^[2] summingStart.machine.registers) :=
    registers
  refine ⟨loop, atLoop, pc, ?_, counter, ?_⟩
  · rw [reached]
    decide
  · rw [reached]
    decide

/-- A body that adds the counter to another register. -/
private def adding : List Instruction :=
  [.binary .add (Register.ofByte 0) (Register.ofByte 0) (Register.ofByte 1)]

private def addingCode : List UInt8 := [5, 0, 0, 1, 19, 1, 2]

private def addingStart : Execution ConsoleBuffer where
  machine :=
    { memory := .ofImage addingCode 8
      registers := ({} : Registers).set (Register.ofByte 1) 1
      codeSize := 7 }
  device := {}

/--
The body cannot be applied over and over without regard to the counter: one that
uses it adds one and zero, and not one and one.
-/
theorem not_iterated_body_adding :
    CountedLoop addingCode adding 1 2 ∧
      addingStart.machine.AtLoop addingCode 2 ∧
      (addingStart.machine.registers.get 1).toNat = 1 ∧
      ¬ Registers.AgreeBut 1
        (step^[(1 + 1) * (adding.length + 1)] addingStart).machine.registers
        ((Instruction.transformAll adding)^[1 + 1]
          addingStart.machine.registers) := by
  have encodes : Image.Encodes addingCode (adding ++ [.loop 1 2]) := by
    have encoded : addingCode =
        (adding ++ [Instruction.loop 1 2]).flatMap fun instruction =>
          Image.encode instruction.opcode instruction.operands := by
      decide
    rw [encoded]
    exact Image.encodes_encode _
  have loop : CountedLoop addingCode adding 1 2 :=
    ⟨encodes, by decide, by decide, by decide, by decide⟩
  have atLoop : addingStart.machine.AtLoop addingCode 2 :=
    ⟨rfl, ⟨[0], rfl⟩, by decide, rfl⟩
  refine ⟨loop, atLoop, rfl, ?_⟩
  intro agree
  have ran : (step^[4] addingStart).machine.registers.get 0 = 1 := by
    decide +kernel
  have iterated : ((Instruction.transformAll adding)^[1 + 1]
      addingStart.machine.registers).get 0 = 2 := by
    decide
  have same := agree 0 (by decide)
  rw [iterated] at same
  cases ran.symm.trans same

end Execution

end RegisterMachine
