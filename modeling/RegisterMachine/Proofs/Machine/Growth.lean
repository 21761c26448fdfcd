import RegisterMachine.Proofs.Machine.MemoryChange
import RegisterMachine.Proofs.Machine.Runs

namespace RegisterMachine

/-!
# Machines with more memory

Memory that is larger has further zero bytes at its end.  A machine looks at
the size of its memory only to find that it has run out of it, so as long as it
has not, a machine with more memory does the same: `Machine.transition_extend`
says so for one transition, and every run follows.
-/

namespace Memory

/-- The memory with a number of zero bytes added at its end. -/
def extend (extra : Nat) (memory : Memory) : Memory :=
  ⟨memory.bytes ++ Array.replicate extra 0⟩

variable {memory : Memory} (extra : Nat)

theorem size_le_size_extend (memory : Memory) :
    memory.size ≤ (memory.extend extra).size := by
  rw [size, size, extend, Array.size_append]
  exact Nat.le_add_right _ _

theorem byte?_extend
    {address : Nat}
    {byte : UInt8}
    (found : memory.byte? address = some byte) :
    (memory.extend extra).byte? address = some byte := by
  obtain ⟨inside, _⟩ := Array.getElem?_eq_some_iff.mp found
  rw [byte?, extend, Array.getElem?_append_left inside]
  exact found

theorem word?_extend
    {address : Nat}
    {value : UInt64}
    (found : memory.word? address = some value) :
    (memory.extend extra).word? address = some value := by
  unfold word? at found ⊢
  split at found
  · next inside =>
      have behind : address + Word.byteCount - memory.bytes.size = 0 :=
        Nat.sub_eq_zero_of_le inside
      rw [if_pos (Nat.le_trans inside (size_le_size_extend extra memory)), extend,
        Array.extract_append, behind, Array.extract_empty_of_stop_le_start
          (Nat.zero_le _), Array.append_empty]
      exact found
  · cases found

private theorem putBytes_append
    (added : Array UInt8)
    {bytes : Array UInt8}
    {values : List UInt8}
    {address : Nat}
    (inside : address + values.length ≤ bytes.size) :
    putBytes (bytes ++ added) address values =
      putBytes bytes address values ++ added := by
  induction values generalizing bytes address with
  | nil =>
      rfl
  | cons value rest inductionHypothesis =>
      rw [List.length_cons] at inside
      have here : address < bytes.size := by omega
      rw [putBytes, putBytes, Array.setIfInBounds_append, if_pos here,
        inductionHypothesis]
      rw [Array.size_setIfInBounds]
      omega

theorem setWord?_extend
    {changed : Memory}
    {address : Nat}
    {value : UInt64}
    (written : memory.setWord? address value = some changed) :
    (memory.extend extra).setWord? address value =
      some (changed.extend extra) := by
  unfold setWord? at written ⊢
  split at written
  · next inside =>
      have fits : address + (Word.toBytes value).length ≤ memory.bytes.size := by
        rw [Word.length_toBytes]
        exact inside
      rw [if_pos (Nat.le_trans inside (size_le_size_extend extra memory)), extend,
        putBytes_append _ fits, ← Option.some.inj written, extend]
  · cases written

/-- Memory for an image is memory of any smaller size for it, extended. -/
theorem ofImage_eq_extend
    {image : List UInt8}
    {small large : Nat}
    (fits : image.length ≤ small)
    (grows : small ≤ large) :
    ofImage image large = (ofImage image small).extend (large - small) := by
  have zeros : large - image.length = small - image.length + (large - small) := by
    omega
  rw [ofImage, ofImage, extend, Array.append_assoc,
    Array.replicate_append_replicate, ← zeros]

end Memory

/-- The faults that stop a machine because it has run out of memory. -/
inductive Fault.IsShortage : Fault → Prop where
  | outOfBounds {address : UInt64} {memorySize : Nat} :
      IsShortage (.outOfBounds address memorySize)
  | truncated {mnemonic : String} {position : Nat} :
      IsShortage (.undecodable (.truncated mnemonic position))

namespace Fetch

/--
Reading fails only because memory has run out, and whatever is read from memory
is read in the same way from extended memory.
-/
structure Extends {α : Type} (read : Memory → Fetch α) : Prop where
  short :
    ∀ {memory : Memory} {cursor : Nat} {fault : Fault},
      read memory cursor = .error fault → fault.IsShortage
  again :
    ∀ {memory : Memory} {cursor : Nat} {result : α × Nat},
      read memory cursor = .ok result →
        ∀ extra, read (memory.extend extra) cursor = .ok result

variable {α β : Type}

theorem Extends.bind
    {first : Memory → Fetch α}
    {next : Memory → α → Fetch β}
    (firstExtends : Extends first)
    (nextExtends : ∀ value, Extends fun memory => next memory value) :
    Extends fun memory => first memory >>= next memory := by
  constructor
  · intro memory cursor fault failed
    simp only [Bind.bind, StateT.bind, Except.bind] at failed
    split at failed
    · next firstFailed =>
        cases failed
        exact firstExtends.short firstFailed
    · next read _ =>
        exact (nextExtends read.1).short failed
  · intro memory cursor result fetched extra
    simp only [Bind.bind, StateT.bind, Except.bind] at fetched ⊢
    split at fetched
    · cases fetched
    · next read firstFetched =>
        rw [firstExtends.again firstFetched extra]
        exact (nextExtends read.1).again fetched extra

theorem Extends.pure (value : α) :
    Extends fun _ => (Pure.pure value : Fetch α) :=
  ⟨nofun, fun fetched _ => fetched⟩

theorem Extends.map
    {first : Memory → Fetch α}
    (firstExtends : Extends first)
    (make : α → β) :
    Extends fun memory => make <$> first memory :=
  firstExtends.bind fun value => .pure (make value)

theorem extends_byte : Extends byte := by
  constructor
  · intro memory cursor fault failed
    unfold byte at failed
    split at failed <;> cases failed
    exact .outOfBounds
  · intro memory cursor result fetched extra
    unfold byte at fetched ⊢
    split at fetched
    · cases fetched
    · next found =>
        rw [Memory.byte?_extend extra found]
        exact fetched

theorem extends_word : Extends word := by
  constructor
  · intro memory cursor fault failed
    unfold word at failed
    split at failed <;> cases failed
    exact .outOfBounds
  · intro memory cursor result fetched extra
    unfold word at fetched ⊢
    split at fetched
    · cases fetched
    · next found =>
        rw [Memory.word?_extend extra found]
        exact fetched

theorem extends_register : Extends register :=
  extends_byte.map Register.ofByte

/-- The operands of an instruction are fetched in the same way from more memory. -/
theorem extends_instruction (opcode : Opcode) :
    Extends fun memory => instruction memory opcode := by
  cases opcode with
  | halt =>
      exact .pure Instruction.halt
  | load | loadAddr | storeAddr =>
      exact extends_register.bind fun _ => extends_word.bind fun _ => .pure _
  | inc | dec | not | jump | print =>
      exact extends_register.map _
  | move | jumpIfNz | jumpIfZ | loop | trap =>
      exact extends_register.bind fun _ => extends_register.bind fun _ => .pure _
  | add | sub | mul | div | and | or | xor | cmp =>
      exact extends_register.bind fun _ => extends_register.bind fun _ =>
        extends_register.bind fun _ => .pure _

end Fetch

namespace Machine

/-- The machine with a number of zero bytes added at the end of its memory. -/
def extend (extra : Nat) (machine : Machine) : Machine :=
  { machine with memory := machine.memory.extend extra }

/-- A machine that has stopped because it ran out of memory. -/
def RanOut (machine : Machine) : Prop :=
  ∃ fault, machine.status = .faulted fault ∧ fault.IsShortage

theorem RanOut.isTerminal
    {machine : Machine}
    (ranOut : machine.RanOut) :
    machine.status.isTerminal = true := by
  obtain ⟨_, stopped, _⟩ := ranOut
  rw [stopped]
  rfl

end Machine

/-- The outcome with a number of zero bytes added at the end of memory. -/
def Outcome.extend (extra : Nat) (outcome : Outcome) : Outcome :=
  ⟨outcome.machine.extend extra, outcome.events⟩

/-- The transition with a number of zero bytes added at the end of memory. -/
def Transition.extend (extra : Nat) : Transition → Transition
  | .done outcome => .done (outcome.extend extra)
  | .write writer bytes outcome => .write writer bytes (outcome.extend extra)
  | .read resume => .read fun byte => (resume byte).extend extra

theorem Transition.extend_eq_changeMemory
    (extra : Nat)
    (transition : Transition) :
    transition.extend extra = transition.changeMemory (Memory.extend extra) := by
  cases transition <;> rfl

namespace Machine

/-- The transition is a stop because memory has run out. -/
def StopsShort (machine : Machine) (transition : Transition) : Prop :=
  ∃ fault : Fault, fault.IsShortage ∧ transition = .done (machine.stop fault)

variable (machine : Machine) (extra : Nat)

theorem readWord_extend (address : UInt64) :
    (∃ fault : Fault, fault.IsShortage ∧
      machine.readWord address = .error fault) ∨
    ∃ value, machine.readWord address = .ok value ∧
      (machine.extend extra).readWord address = .ok value := by
  cases found : machine.memory.word? address.toNat with
  | none =>
      left
      exact ⟨_, .outOfBounds, by rw [readWord, found]⟩
  | some value =>
      right
      have again := Memory.word?_extend extra found
      exact ⟨value, by rw [readWord, found], by rw [readWord, extend, again]⟩

theorem writeWord_extend (address value : UInt64) :
    (∃ fault : Fault, fault.IsShortage ∧
      machine.writeWord address value = .error fault) ∨
    ∃ after, machine.writeWord address value = .ok after ∧
      (machine.extend extra).writeWord address value =
        .ok (after.extend extra) := by
  cases written : machine.memory.setWord? address.toNat value with
  | none =>
      left
      exact ⟨_, .outOfBounds, by rw [writeWord, written]⟩
  | some memory =>
      right
      have again := Memory.setWord?_extend extra written
      refine ⟨{ machine with memory := memory }, by rw [writeWord, written], ?_⟩
      rw [writeWord, extend, again]
      rfl

/-- An instruction runs out of memory or does not notice that there is more of it. -/
theorem stopsShort_or_unnoticed
    (instruction : Instruction)
    (next : Nat) :
    machine.StopsShort (machine.execute instruction next) ∨
      Unnoticed (Memory.extend extra) machine instruction := by
  cases instruction with
  | loadAddr destination address =>
      rcases readWord_extend machine extra address with
          ⟨fault, short, failed⟩ | ⟨value, loaded, again⟩
      · left
        exact ⟨fault, short, by simp only [execute, failed]⟩
      · right
        constructor
        · intro same loads
          cases loads
          exact again.trans loaded.symm
        · intro same value stores
          cases stores
  | storeAddr source address =>
      rcases writeWord_extend machine extra address
          (machine.registers.get source) with
          ⟨fault, short, failed⟩ | ⟨after, stored, again⟩
      · left
        exact ⟨fault, short, by simp only [execute, failed]⟩
      · right
        constructor
        · intro same loads
          cases loads
        · intro same value stores
          cases stores
          rw [stored]
          exact again
  | halt | load | move | binary | unary | jump | jumpIf | loop | trap | print =>
      exact .inr (.of_no_access rfl rfl)

/-- Fetching runs out of memory or gives the same in more of it. -/
theorem fetch_extend :
    (∃ fault : Fault, fault.IsShortage ∧ machine.fetch = .error fault) ∨
      (machine.extend extra).fetch = machine.fetch := by
  have samePc : (machine.extend extra).pc = machine.pc := rfl
  have moreMemory :
      (machine.extend extra).memory = machine.memory.extend extra := rfl
  cases code : Fetch.byte machine.memory machine.pc with
  | error fault =>
      exact .inl ⟨fault, Fetch.extends_byte.short code, by rw [fetch, code]⟩
  | ok read =>
      have codeAgain := Fetch.extends_byte.again code extra
      cases known : Opcode.ofCode? read.1 with
      | none =>
          right
          simp only [fetch, samePc, moreMemory, code, codeAgain, known]
      | some opcode =>
          by_cases fits : read.2 + opcode.operandSize ≤ machine.memory.size
          · have fitsAgain :=
              Nat.le_trans fits
                (Memory.size_le_size_extend extra machine.memory)
            cases operands : Fetch.instruction machine.memory opcode read.2 with
            | error fault =>
                left
                refine ⟨fault, (Fetch.extends_instruction opcode).short operands, ?_⟩
                simp only [fetch, code, known, fits, ↓reduceIte, operands]
            | ok result =>
                right
                have operandsAgain :=
                  (Fetch.extends_instruction opcode).again operands extra
                simp only [fetch, samePc, moreMemory, code, codeAgain, known, fits,
                  fitsAgain, ↓reduceIte, operands, operandsAgain]
          · left
            refine ⟨.undecodable (.truncated opcode.mnemonic machine.pc),
              .truncated, ?_⟩
            simp only [fetch, code, known, fits, ↓reduceIte]

/-- A transition is that of a machine with more memory, or memory has run out. -/
theorem transition_extend :
    (∃ outcome, machine.transition = .done outcome ∧ outcome.machine.RanOut) ∨
      (machine.extend extra).transition = machine.transition.extend extra := by
  rw [Transition.extend_eq_changeMemory]
  by_cases fetches : machine.status = .running ∧ machine.pc < machine.codeSize
  · obtain ⟨running, inCode⟩ := fetches
    rcases fetch_extend machine extra with ⟨fault, short, failed⟩ | again
    · left
      exact ⟨_, transition_of_fetch_error running inCode failed, fault, rfl, short⟩
    · cases fetched : machine.fetch with
      | error fault =>
          -- Bytes that are no instruction are none in more memory either.
          right
          refine transition_changeMemory (fun _ _ => again) ?_
          rintro _ ⟨_, _, _, dispatched⟩
          rw [fetched] at dispatched
          cases dispatched
      | ok result =>
          have executes := transition_of_fetch running inCode fetched
          rcases stopsShort_or_unnoticed
              { machine with steps := machine.steps + 1 } extra result.1
              result.2 with ⟨fault, short, stops⟩ | unnoticed
          · left
            exact ⟨_, executes.trans stops, fault, rfl, short⟩
          · right
            refine transition_changeMemory (fun _ _ => again) ?_
            intro instruction dispatches
            rw [dispatches.eq_of_fetch fetched]
            exact unnoticed
  · right
    exact transition_changeMemory
      (fun running inCode => (fetches ⟨running, inCode⟩).elim)
      fun _ dispatches => (fetches ⟨dispatches.1, dispatches.2.1⟩).elim

end Machine

namespace Execution

variable {Device : Type} [Console Device]

/-- The execution with a number of zero bytes added at the end of memory. -/
def extend (extra : Nat) (execution : Execution Device) : Execution Device :=
  { execution with machine := execution.machine.extend extra }

/-- A step runs out of memory or does the same in more of it. -/
theorem step_extend
    (extra : Nat)
    (execution : Execution Device) :
    execution.step.machine.RanOut ∨
      (execution.extend extra).step = execution.step.extend extra := by
  rcases Machine.transition_extend execution.machine extra with
      ⟨outcome, stops, ranOut⟩ | same
  · left
    have stepped : execution.step.machine = outcome.machine := by
      simp only [step, Machine.step, stops, Transition.carryOut]
    rw [stepped]
    exact ranOut
  · right
    rw [Transition.extend_eq_changeMemory] at same
    exact step_changeMemory same

/-- A run that has not run out of memory is the same in more of it. -/
theorem iterate_step_extend
    (extra : Nat)
    (start : Execution Device)
    (count : Nat) :
    (step^[count] start).machine.RanOut ∨
      step^[count] (start.extend extra) = (step^[count] start).extend extra :=
  iterate_step_commutes Machine.RanOut.isTerminal (step_extend extra) start count

end Execution

namespace Machine

/--
More memory never changes a run that did not run out of it: from the same
registers and the same console, after any number of steps, the machine with more
memory has the same status, program counter, step count and registers, the
console and the journal are the same, and its memory has only more zero bytes.
-/
theorem run_of_more_memory
    {Device : Type}
    [Console Device]
    {code : List UInt8}
    {small large : Nat}
    (fits : code.length ≤ small)
    (grows : small ≤ large) :
    ∃ loaded larger,
      Machine.load code small = .ok loaded ∧
      Machine.load code large = .ok larger ∧
      ∀ (registers : Registers) (device : Device) (journal : Log.Journal)
        (count : Nat),
        let reached := Execution.step^[count]
          ⟨{ loaded with registers := registers }, device, journal⟩
        let reachedLarger := Execution.step^[count]
          ⟨{ larger with registers := registers }, device, journal⟩
        (∀ fault : Fault, fault.IsShortage →
          reached.machine.status ≠ .faulted fault) →
        reachedLarger.machine.status = reached.machine.status ∧
          reachedLarger.machine.pc = reached.machine.pc ∧
          reachedLarger.machine.steps = reached.machine.steps ∧
          reachedLarger.machine.registers = reached.machine.registers ∧
          reachedLarger.machine.codeSize = reached.machine.codeSize ∧
          reachedLarger.device = reached.device ∧
          reachedLarger.journal = reached.journal ∧
          reachedLarger.machine.memory.bytes.toList =
            reached.machine.memory.bytes.toList ++
              List.replicate (large - small) 0 := by
  refine ⟨_, _, load_eq_ok fits, load_eq_ok (Nat.le_trans fits grows), ?_⟩
  intro registers device journal count reached reachedLarger notShort
  let start (size : Nat) : Execution Device :=
    ⟨{ memory := .ofImage code size, registers := registers,
       codeSize := code.length }, device, journal⟩
  have sameStart : start large = (start small).extend (large - small) := by
    simp only [start, Memory.ofImage_eq_extend fits grows]
    rfl
  have same : reachedLarger = reached.extend (large - small) := by
    rcases Execution.iterate_step_extend (large - small) (start small) count with
        ⟨fault, stopped, short⟩ | same
    · exact (notShort fault short stopped).elim
    · rw [← sameStart] at same
      exact same
  rw [same]
  refine ⟨rfl, rfl, rfl, rfl, rfl, rfl, rfl, ?_⟩
  simp only [Execution.extend, extend, Memory.extend, Array.toList_append,
    Array.toList_replicate]

/-- A program that reads a byte, stores it in the word behind itself and halts. -/
private def storeInput : List UInt8 :=
  [1, 0, 1, 0, 0, 0, 0, 0, 0, 0, 20, 0, 2,
    3, 2, 24, 0, 0, 0, 0, 0, 0, 0, 0]

/-- The store just fits in 32 bytes of memory, and goes the same way in 40. -/
theorem run_of_more_memory_storeInput :
    storeInput.length ≤ 32 ∧
      ∃ larger, Machine.load storeInput 40 = .ok larger ∧
        let reached : Execution ConsoleBuffer :=
          Execution.step^[4] ⟨larger, { input := [65, 66] }, {}⟩
        reached.machine.status = .halted ∧
          reached.device.input = [66] ∧
          reached.machine.memory.bytes.toList =
            storeInput ++ 65 :: List.replicate 15 0 := by
  have fits : storeInput.length ≤ 32 := by decide
  obtain ⟨loaded, larger, load, loadLarger, agrees⟩ :=
    @run_of_more_memory ConsoleBuffer _ _ _ _ fits (by decide : 32 ≤ 40)
  obtain rfl := Except.ok.inj ((load_eq_ok fits).symm.trans load)
  obtain rfl :=
    Except.ok.inj ((load_eq_ok (by decide)).symm.trans loadLarger)
  obtain ⟨status, _, _, _, _, device, _, memory⟩ :=
    agrees {} { input := [65, 66] } {} 4 (by
      intro fault _ stopped
      cases stopped)
  refine ⟨fits, _, loadLarger, status.trans rfl, ?_, memory.trans ?_⟩
  · rw [device]
    rfl
  · rfl

end Machine

end RegisterMachine
