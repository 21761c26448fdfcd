import Mathlib.Data.Nat.Digits.Defs
import RegisterMachine.Proofs.Word
import RegisterMachine.Proofs.Machine.Reachability

namespace RegisterMachine

/-!
# The effect of one instruction

What an instruction assigns, stores, writes and reads is a function of the
machine and the input before the step.  A step without a fault has this effect
and leaves everything else as it was, also where operands name one register
several times, and where a store overwrites the instruction itself.
-/

namespace Word

/-- Up to eight bytes denote the number that has them as digits to the base 256. -/
theorem toNat_ofBytes_eq_ofDigits
    {bytes : List UInt8}
    (bound : bytes.length ≤ 8) :
    (ofBytes bytes).toNat = Nat.ofDigits 256 (bytes.map UInt8.toNat) := by
  induction bytes with
  | nil =>
      rfl
  | cons byte rest inductionHypothesis =>
      have restBound : rest.length ≤ 7 := Nat.le_of_succ_le_succ bound
      rw [toNat_ofBytes_cons byte restBound, List.map_cons, Nat.ofDigits_cons,
        inductionHypothesis (Nat.le_succ_of_le restBound), Nat.add_comm,
        Nat.mul_comm]

/-- A byte of a word is the digit of its value at its place, to the base 256. -/
theorem getElem?_lowBytes
    {count place : Nat}
    (value : UInt64)
    (inside : place < count) :
    (lowBytes count value)[place]? =
      some (UInt8.ofNat (value.toNat / 256 ^ place)) := by
  induction count generalizing place value with
  | zero =>
      cases inside
  | succ count inductionHypothesis =>
      cases place with
      | zero =>
          simp [lowBytes]
      | succ place =>
          rw [lowBytes, List.getElem?_cons_succ,
            inductionHypothesis _ (Nat.lt_of_succ_lt_succ inside),
            UInt64.toNat_div, Nat.div_div_eq_div_mul, Nat.pow_succ']
          rfl

end Word

namespace Memory

/-- The number that the eight bytes at an address denote, least significant first. -/
def number (memory : Memory) (address : Nat) : Nat :=
  Nat.ofDigits 256
    (((memory.bytesFrom address).take Word.byteCount).map UInt8.toNat)

theorem toNat_of_word?
    {memory : Memory}
    {address : Nat}
    {value : UInt64}
    (read : memory.word? address = some value) :
    value.toNat = memory.number address := by
  by_cases inside : address + Word.byteCount ≤ memory.size
  · rw [word?_eq_of_le inside] at read
    obtain rfl := Option.some.inj read
    exact Word.toNat_ofBytes_eq_ofDigits (List.length_take_le _ _)
  · rw [word?, if_neg inside] at read
    cases read

theorem getElem?_putBytes
    {bytes : Array UInt8}
    {address : Nat}
    {values : List UInt8}
    (inside : address + values.length ≤ bytes.size)
    (position : Nat) :
    (putBytes bytes address values)[position]? =
      if address ≤ position ∧ position < address + values.length then
        values[position - address]?
      else
        bytes[position]? := by
  induction values generalizing bytes address with
  | nil =>
      simp [putBytes]
  | cons value rest inductionHypothesis =>
      rw [List.length_cons] at inside ⊢
      have restInside :
          address + 1 + rest.length ≤ (bytes.setIfInBounds address value).size := by
        rw [Array.size_setIfInBounds]
        omega
      rw [putBytes, inductionHypothesis restInside, Array.getElem?_setIfInBounds]
      rcases Nat.lt_trichotomy position address with before | rfl | behind
      · have notHere : ¬ address ≤ position := Nat.not_le.mpr before
        have notLater : ¬ address + 1 ≤ position := by omega
        simp only [notHere, notLater, Nat.ne_of_gt before, false_and, ↓reduceIte]
      · have notLater : ¬ position + 1 ≤ position := Nat.not_succ_le_self position
        have here : position < position + (rest.length + 1) := by omega
        have fits : position < bytes.size := by omega
        simp only [notLater, here, fits, Nat.le_refl, false_and, and_self, ↓reduceIte,
          Nat.sub_self, List.getElem?_cons_zero]
      · obtain ⟨distance, rfl⟩ := Nat.exists_eq_add_of_lt behind
        have place : address + distance + 1 - address = distance + 1 := by omega
        have restPlace : address + distance + 1 - (address + 1) = distance := by omega
        have sameRange :
            (address + 1 ≤ address + distance + 1 ∧
                address + distance + 1 < address + 1 + rest.length) ↔
              address ≤ address + distance + 1 ∧
                address + distance + 1 < address + (rest.length + 1) := by
          omega
        rw [place, restPlace, List.getElem?_cons_succ]
        simp only [sameRange, Nat.ne_of_lt behind, ↓reduceIte]

/-- Storing a word changes the eight bytes at its address and no others. -/
theorem byte?_of_setWord?
    {memory changed : Memory}
    {address : Nat}
    {value : UInt64}
    (written : memory.setWord? address value = some changed) :
    (∀ place < 8, changed.byte? (address + place) =
      some (UInt8.ofNat (value.toNat / 256 ^ place))) ∧
    ∀ position, position < address ∨ address + 8 ≤ position →
      changed.byte? position = memory.byte? position := by
  simp only [setWord?, Option.ite_none_right_eq_some, Option.some.injEq] at written
  obtain ⟨inside, rfl⟩ := written
  have length : (Word.toBytes value).length = 8 := Word.length_toBytes value
  have stored : ∀ position,
      (putBytes memory.bytes address (Word.toBytes value))[position]? = _ :=
    getElem?_putBytes inside
  constructor
  · intro place small
    have here : address ≤ address + place ∧
        address + place < address + (Word.toBytes value).length := by
      omega
    rw [byte?, stored, if_pos here, Nat.add_sub_cancel_left]
    exact Word.getElem?_lowBytes value small
  · intro position outside
    have notHere : ¬ (address ≤ position ∧
        position < address + (Word.toBytes value).length) := by
      omega
    rw [byte?, stored, if_neg notHere, byte?]

end Memory

namespace BinaryOp

/-- The function on numbers below 2^64, with its value modulo 2^64. -/
def value (op : BinaryOp) (left right : Nat) : Nat :=
  match op with
  | .add => (left + right) % 2 ^ 64
  | .sub => (left + 2 ^ 64 - right) % 2 ^ 64
  | .mul => left * right % 2 ^ 64
  | .div => left / right
  | .and => left &&& right
  | .or => left ||| right
  | .xor => left ^^^ right
  | .cmp => if left = right then 1 else 0

theorem toNat_of_result?
    {op : BinaryOp}
    {left right result : UInt64}
    (computed : op.result? left right = some result) :
    result.toNat = op.value left.toNat right.toNat := by
  cases op with
  | sub =>
      obtain rfl := Option.some.inj computed
      have bound := right.toNat_lt
      have reordered : 2 ^ 64 - right.toNat + left.toNat =
          left.toNat + 2 ^ 64 - right.toNat := by
        omega
      rw [UInt64.toNat_sub, reordered, value]
  | div =>
      simp only [result?, Option.ite_none_left_eq_some, Option.some.injEq] at computed
      obtain ⟨_, rfl⟩ := computed
      rfl
  | cmp =>
      obtain rfl := Option.some.inj computed
      simp only [value, UInt64.toNat_inj]
      split <;> rfl
  | add | mul | and | or | xor =>
      obtain rfl := Option.some.inj computed
      simp [value]

end BinaryOp

namespace UnaryOp

/-- The function on numbers below 2^64, with its value modulo 2^64. -/
def value (op : UnaryOp) (number : Nat) : Nat :=
  match op with
  | .inc => (number + 1) % 2 ^ 64
  | .dec => (number + 2 ^ 64 - 1) % 2 ^ 64
  | .not => if number = 0 then 1 else 0

theorem toNat_apply
    (op : UnaryOp)
    (word : UInt64) :
    (op.apply word).toNat = op.value word.toNat := by
  cases op with
  | inc =>
      simp [apply, value]
  | dec =>
      have reordered : 2 ^ 64 - (1 : UInt64).toNat + word.toNat =
          word.toNat + 2 ^ 64 - 1 := by
        rw [UInt64.toNat_one]
        omega
      rw [apply, UInt64.toNat_sub, reordered, value]
  | not =>
      have zeroIff : word = 0 ↔ word.toNat = 0 := UInt64.toNat_inj.symm
      simp only [apply, value, zeroIff]
      split <;> rfl

end UnaryOp

theorem TrapCode.ofNumber?_eq_some_iff
    {number : UInt64}
    {code : TrapCode} :
    ofNumber? number = some code ↔ number = code.number := by
  rw [ofNumber?]
  by_cases isPutc : number = TrapCode.putc.number
  · subst isPutc
    cases code <;> simp [TrapCode.number]
  · by_cases isGetc : number = TrapCode.getc.number
    · subst isGetc
      cases code <;> simp [TrapCode.number]
    · cases code <;> simp [isPutc, isGetc]

theorem TrapCode.ofNumber?_eq_none_iff
    {number : UInt64} :
    ofNumber? number = none ↔ number ≠ 0 ∧ number ≠ 1 := by
  constructor
  · intro unknown
    constructor
    · rintro rfl
      cases unknown
    · rintro rfl
      cases unknown
  · rintro ⟨notPutc, notGetc⟩
    exact (if_neg notPutc).trans (if_neg notGetc)

namespace Instruction

/-- The register that an instruction assigns, if any, with the number it gets. -/
def assigned? (before : Machine) (input : List UInt8) (instruction : Instruction) :
    Option (Register × Nat) :=
  let number (register : Register) : Nat := (before.registers.get register).toNat
  match instruction with
  | .load destination word => some (destination, word.toNat)
  | .loadAddr destination address =>
      some (destination, before.memory.number address.toNat)
  | .move destination source => some (destination, number source)
  | .binary op destination left right =>
      some (destination, op.value (number left) (number right))
  | .unary op destination => some (destination, op.value (number destination))
  | .loop counter _ =>
      if before.registers.get counter = 0 then
        none
      else
        some (counter, number counter - 1)
  | .trap service data =>
      if before.registers.get service = 1 then
        input.head?.map fun byte => (data, byte.toNat)
      else
        none
  | _ => none

/-- The bytes that an instruction writes to the console. -/
def written (registers : Registers) : Instruction → List UInt8
  | .trap service data =>
      if registers.get service = 0 then
        [UInt8.ofNat ((registers.get data).toNat % 256)]
      else
        []
  | .print source => decimalLine (registers.get source)
  | _ => []

/-- How many bytes an instruction reads from the console. -/
def readCount (registers : Registers) : Instruction → Nat
  | .trap service _ => if registers.get service = 1 then 1 else 0
  | _ => 0

end Instruction

namespace Machine

/-- What an instruction that raises no fault does to registers and console. -/
structure Exchanges (before : Machine) (console : ConsoleBuffer)
    (instruction : Instruction) (after : Machine) (left : ConsoleBuffer) :
    Prop where
  registers :
    match instruction.assigned? before console.input with
    | none => after.registers = before.registers
    | some (register, value) =>
        ∃ word : UInt64, word.toNat = value ∧
          after.registers = before.registers.set register word
  output :
    left.output = console.output ++ instruction.written before.registers
  enough :
    instruction.readCount before.registers ≤ console.input.length
  input :
    left.input = console.input.drop (instruction.readCount before.registers)

section Executing

variable {machine : Machine} {console : ConsoleBuffer}

/-- An instruction that asks nothing of the console and assigns a register. -/
theorem exchanges_of_assigned
    {instruction : Instruction}
    {after : Machine}
    {register : Register}
    {word : UInt64}
    (assigned :
      instruction.assigned? machine console.input = some (register, word.toNat))
    (silent : instruction.written machine.registers = [])
    (reads : instruction.readCount machine.registers = 0)
    (registers : after.registers = machine.registers.set register word) :
    Exchanges machine console instruction after console := by
  refine ⟨?_, ?_, ?_, ?_⟩
  · rw [assigned]
    exact ⟨word, rfl, registers⟩
  · rw [silent, List.append_nil]
  · rw [reads]
    exact Nat.zero_le _
  · rw [reads, List.drop_zero]

/-- An instruction that assigns no register and reads nothing from the console. -/
theorem exchanges_of_unassigned
    {instruction : Instruction}
    {after : Machine}
    {left : ConsoleBuffer}
    (unassigned : instruction.assigned? machine console.input = none)
    (reads : instruction.readCount machine.registers = 0)
    (registers : after.registers = machine.registers)
    (output :
      left.output = console.output ++ instruction.written machine.registers)
    (input : left.input = console.input) :
    Exchanges machine console instruction after left := by
  refine ⟨?_, output, ?_, ?_⟩
  · rw [unassigned]
    exact registers
  · rw [reads]
    exact Nat.zero_le _
  · rw [reads, List.drop_zero]
    exact input

theorem toNat_sub_one
    {word : UInt64}
    (positive : word ≠ 0) :
    (word - 1).toNat = word.toNat - 1 := by
  have notZero : word.toNat ≠ 0 := fun zero => positive (UInt64.toNat_inj.mp zero)
  have atLeastOne : 1 ≤ word := UInt64.le_iff_toNat_le.mpr
    (Nat.one_le_iff_ne_zero.mpr notZero)
  exact UInt64.toNat_sub_of_le _ _ atLeastOne

/-- A trap that reads a byte assigns it to its data register. -/
theorem exchanges_of_getc
    {number data : Register}
    {byte : UInt8}
    {rest : List UInt8}
    {after : Machine}
    (isGetc : machine.registers.get number = 1)
    (waiting : console.input = byte :: rest)
    (registers : after.registers = machine.registers.set data byte.toUInt64) :
    Exchanges machine console (.trap number data) after
      { console with input := rest } := by
  refine ⟨?_, ?_, ?_, ?_⟩
  · simp only [Instruction.assigned?, isGetc, waiting, ↓reduceIte,
      List.head?_cons, Option.map_some]
    exact ⟨byte.toUInt64, UInt8.toNat_toUInt64 byte, registers⟩
  · simp [Instruction.written, isGetc, ConsoleBuffer.output]
  · simp [Instruction.readCount, isGetc, waiting]
  · simp [Instruction.readCount, isGetc, waiting]

/-- A trap writes one byte, reads one byte, or does nothing. -/
theorem trap_exchanges
    {number data : Register}
    {next : Nat}
    (noFault : ∀ fault,
      ((machine.trap (.trap number data) next number data).carryOut
        console).1.machine.status ≠ .faulted fault) :
    let result :=
      (machine.trap (.trap number data) next number data).carryOut console
    Exchanges machine console (.trap number data) result.1.machine result.2 := by
  intro result
  cases service : TrapCode.ofNumber? (machine.registers.get number) with
  | none =>
      obtain ⟨notPutc, notGetc⟩ := TrapCode.ofNumber?_eq_none_iff.mp service
      simp only [result, trap, service, Transition.carryOut]
      refine exchanges_of_unassigned ?_ ?_ rfl ?_ rfl
      · simp [Instruction.assigned?, notGetc]
      · simp [Instruction.readCount, notGetc]
      · simp [Instruction.written, notPutc]
  | some code =>
      have called := TrapCode.ofNumber?_eq_some_iff.mp service
      cases code with
      | putc =>
          have isPutc : machine.registers.get number = 0 := called
          have lowByte :
              UInt8.ofNat ((machine.registers.get data).toNat % 256) =
                (machine.registers.get data).toUInt8 := by
            apply UInt8.toNat_inj.mp
            simp
          simp only [result, trap, service, Transition.carryOut]
          refine exchanges_of_unassigned ?_ ?_ rfl ?_ rfl
          · simp [Instruction.assigned?, isPutc]
          · simp [Instruction.readCount, isPutc]
          · simp only [Instruction.written, isPutc, ↓reduceIte, lowByte]
            exact ConsoleBuffer.output_put console _
      | getc =>
          cases waiting : console.input with
          | nil =>
              have read : Console.read console =
                  (console, .error ConsoleBuffer.endOfInput) := by
                simp only [Console.read, ConsoleBuffer.get, waiting]
              simp only [trap, service, Transition.carryOut, read] at noFault
              exact (noFault _ rfl).elim
          | cons byte rest =>
              have read : Console.read console =
                  ({ console with input := rest }, .ok byte) := by
                simp only [Console.read, ConsoleBuffer.get, waiting]
              simp only [result, trap, service, Transition.carryOut, read]
              exact exchanges_of_getc called waiting rfl

/-- An instruction that raises no fault assigns, writes and reads what it says. -/
theorem execute_exchanges
    {instruction : Instruction}
    {next : Nat}
    (noFault : ∀ fault,
      ((machine.execute instruction next).carryOut console).1.machine.status ≠
        .faulted fault) :
    let result := (machine.execute instruction next).carryOut console
    Exchanges machine console instruction result.1.machine result.2 := by
  intro result
  have unchanged : console.output = console.output ++ [] :=
    (List.append_nil _).symm
  cases instruction with
  | load destination word =>
      exact exchanges_of_assigned rfl rfl rfl rfl
  | move destination source =>
      exact exchanges_of_assigned rfl rfl rfl rfl
  | unary op destination =>
      have assigned := op.toNat_apply (machine.registers.get destination)
      refine exchanges_of_assigned ?_ rfl rfl rfl
      rw [assigned]
      rfl
  | binary op destination left right =>
      cases computed : op.result? (machine.registers.get left)
          (machine.registers.get right) with
      | none =>
          simp only [execute, computed, Transition.carryOut] at noFault
          exact (noFault _ rfl).elim
      | some word =>
          simp only [result, execute, computed, Transition.carryOut]
          refine exchanges_of_assigned ?_ rfl rfl rfl
          rw [BinaryOp.toNat_of_result? computed]
          rfl
  | loadAddr destination address =>
      cases read : machine.memory.word? address.toNat with
      | none =>
          simp only [execute, readWord, read, Transition.carryOut] at noFault
          exact (noFault _ rfl).elim
      | some word =>
          simp only [result, execute, readWord, read, Transition.carryOut]
          refine exchanges_of_assigned ?_ rfl rfl rfl
          rw [Memory.toNat_of_word? read]
          rfl
  | storeAddr source address =>
      cases written : machine.memory.setWord? address.toNat
          (machine.registers.get source) with
      | none =>
          simp only [execute, writeWord, written, Transition.carryOut] at noFault
          exact (noFault _ rfl).elim
      | some memory =>
          simp only [result, execute, writeWord, written, Transition.carryOut]
          exact exchanges_of_unassigned rfl rfl rfl unchanged rfl
  | halt | jump =>
      exact exchanges_of_unassigned rfl rfl rfl unchanged rfl
  | jumpIf condition tested target =>
      cases taken : condition.holds (machine.registers.get tested) <;>
        simp only [result, execute, taken, Bool.false_eq_true, ↓reduceIte,
          Transition.carryOut] <;>
        exact exchanges_of_unassigned rfl rfl rfl unchanged rfl
  | loop counter target =>
      by_cases spent : machine.registers.get counter = 0
      · simp only [result, execute, spent, ↓reduceIte, Transition.carryOut]
        refine exchanges_of_unassigned ?_ rfl rfl unchanged rfl
        simp only [Instruction.assigned?, spent, ↓reduceIte]
      · simp only [result, execute, spent, ↓reduceIte, Transition.carryOut]
        refine exchanges_of_assigned ?_ rfl rfl rfl
        rw [toNat_sub_one spent]
        simp only [Instruction.assigned?, spent, ↓reduceIte]
  | print source =>
      exact exchanges_of_unassigned rfl rfl rfl
        (ConsoleBuffer.output_put console _) rfl
  | trap number data =>
      exact trap_exchanges noFault

/-- What an instruction assigns is read back from its register, and no other changes. -/
theorem Exchanges.get
    {before after : Machine}
    {console left : ConsoleBuffer}
    {instruction : Instruction}
    (exchanges : Exchanges before console instruction after left) :
    (∀ register value,
      instruction.assigned? before console.input = some (register, value) →
        (after.registers.get register).toNat = value) ∧
    ∀ register,
      (∀ value,
        instruction.assigned? before console.input ≠ some (register, value)) →
        after.registers.get register = before.registers.get register := by
  have registers := exchanges.registers
  cases assigned : instruction.assigned? before console.input with
  | none =>
      rw [assigned] at registers
      refine ⟨nofun, fun register _ => ?_⟩
      rw [registers]
  | some target =>
      obtain ⟨destination, value⟩ := target
      rw [assigned] at registers
      obtain ⟨word, rfl, changed⟩ := registers
      rw [changed]
      constructor
      · rintro _ _ ⟨rfl, rfl⟩
        rw [Registers.get_set, if_pos rfl]
      · intro register otherwise
        have other : destination ≠ register := by
          rintro rfl
          exact otherwise _ rfl
        rw [Registers.get_set, if_neg other]

/-- An instruction stores the bytes of its word, and no other byte changes. -/
theorem Advances.bytes
    {before after : Machine}
    {instruction : Instruction}
    {next : Nat}
    (advances : Advances before instruction next after) :
    (∀ address value, instruction.store? before.registers = some (address, value) →
      ∀ place < 8, after.memory.byte? (address.toNat + place) =
        some (UInt8.ofNat (value.toNat / 256 ^ place))) ∧
    ∀ position,
      (∀ address value,
        instruction.store? before.registers = some (address, value) →
          position < address.toNat ∨ address.toNat + 8 ≤ position) →
        after.memory.byte? position = before.memory.byte? position := by
  have memory := advances.memory
  cases store : instruction.store? before.registers with
  | none =>
      rw [store] at memory
      rw [memory]
      exact ⟨nofun, fun _ _ => rfl⟩
  | some target =>
      obtain ⟨address, value⟩ := target
      rw [store] at memory
      obtain ⟨stored, untouched⟩ := Memory.byte?_of_setWord? memory
      constructor
      · rintro _ _ ⟨rfl, rfl⟩
        exact stored
      · intro position outside
        exact untouched position (outside address value rfl)

end Executing

end Machine

end RegisterMachine
