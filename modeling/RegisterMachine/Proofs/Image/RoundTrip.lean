import RegisterMachine.Proofs.Image.Position

namespace RegisterMachine

theorem Opcode.eq_of_code_eq
    {first second : Opcode}
    (same : first.code = second.code) :
    first = second := by
  rw [← Option.some_inj, ← ofCode?_code first, same, ofCode?_code]

namespace Image

/-!
# Images and instructions

Encoding and decoding are inverse to each other.  Instructions whose operands
fit their rows are decoded from their bytes, each behind those before it.  What
is decoded covers the image, and encodes to it up to the unused bits of register
operands.  Decoding fails exactly where walking over the image from its start
comes to a byte that is no code or to an instruction that is cut short.
-/

/-- The bytes of instructions, one after another. -/
def encodeInstructions (program : List (Opcode × List Operand)) : List UInt8 :=
  program.flatMap fun instruction => encode instruction.1 instruction.2

/-- Entries cover the positions below a length, each position by one of them. -/
structure Covers (entries : List Entry) (length : Nat) : Prop where
  apart :
    entries.Pairwise fun first second =>
      first.offset + first.opcode.size ≤ second.offset
  inside :
    ∀ entry ∈ entries, entry.offset + entry.opcode.size ≤ length
  covered :
    ∀ position < length, ∃ entry ∈ entries,
      entry.offset ≤ position ∧ position < entry.offset + entry.opcode.size

/-- At a position stands the byte of a register operand of an entry. -/
def IsRegisterByte (entries : List Entry) (position : Nat) : Prop :=
  ∃ entry ∈ entries, ∃ place, entry.opcode.layout[place]? = some .register ∧
    position =
      entry.offset + 1 + Operand.Kind.totalSize (entry.opcode.layout.take place)

/-- Walking over an image by the sizes of its instructions gets to a position. -/
inductive Reaches (image : List UInt8) : Nat → Nat → Prop where
  | here {position : Nat} :
      Reaches image position position
  | next {position target : Nat} {opcode : Opcode} :
      image[position]? = some opcode.code →
      Reaches image (position + opcode.size) target →
      Reaches image position target

/-- Why no instruction can be decoded at a position of an image. -/
inductive FailsAt (image : List UInt8) (position : Nat) : DecodeError → Prop where
  | unknownOpcode {code : UInt8} :
      image[position]? = some code →
      (∀ opcode : Opcode, opcode.code ≠ code) →
      FailsAt image position (.unknownOpcode code position)
  | truncated {opcode : Opcode} :
      image[position]? = some opcode.code →
      image.length < position + opcode.size →
      FailsAt image position (.truncated opcode.mnemonic position)

section Encoding

/-- Instructions that fit their rows are decoded from their bytes. -/
theorem decodeFrom_encodeInstructions
    {program : List (Opcode × List Operand)}
    (fits : ∀ instruction ∈ program,
      instruction.2.map Operand.kind = instruction.1.layout ∧
        ∀ operand ∈ instruction.2, operand.IsDirect)
    (offset : Nat) :
    ∃ entries, decodeFrom offset (encodeInstructions program) = .ok entries ∧
      entries.map (fun entry => (entry.opcode, entry.operands)) = program := by
  induction program generalizing offset with
  | nil =>
      exact ⟨[], by simp [encodeInstructions, decodeFrom], rfl⟩
  | cons instruction rest inductionHypothesis =>
      obtain ⟨opcode, operands⟩ := instruction
      obtain ⟨⟨kinds, direct⟩, restFits⟩ := List.forall_mem_cons.mp fits
      obtain ⟨entries, decoded, same⟩ :=
        inductionHypothesis restFits (offset + opcode.size)
      have read := readOperands?_encode direct (encodeInstructions rest)
      rw [kinds] at read
      have shape : encodeInstructions ((opcode, operands) :: rest) =
          opcode.code :: (operands.flatMap Operand.encode ++ encodeInstructions rest) := rfl
      refine ⟨⟨offset, opcode, operands⟩ :: entries, ?_, by rw [List.map_cons, same]⟩
      rw [shape, decodeFrom_cons (Opcode.ofCode?_code opcode) read, decoded]
      rfl

end Encoding

section Covering

/-- A tiling covers the positions from its start to its end. -/
theorem Tiles.covers_from
    {offset : Nat}
    {entries : List Entry}
    (tiles : Tiles offset entries) :
    (entries.Pairwise fun first second =>
      first.offset + first.opcode.size ≤ second.offset) ∧
    (∀ entry ∈ entries, offset ≤ entry.offset ∧
      entry.offset + entry.opcode.size ≤ offset + sizeOf entries) ∧
    ∀ position, offset ≤ position → position < offset + sizeOf entries →
      ∃ entry ∈ entries,
        entry.offset ≤ position ∧ position < entry.offset + entry.opcode.size := by
  induction tiles with
  | nil =>
      refine ⟨.nil, nofun, fun position behind before => ?_⟩
      exact (Nat.not_lt.mpr behind before).elim
  | @cons offset opcode operands rest _ _ _ inductionHypothesis =>
      obtain ⟨apart, inside, covered⟩ := inductionHypothesis
      have size : sizeOf (⟨offset, opcode, operands⟩ :: rest) =
          opcode.size + sizeOf rest := rfl
      rw [size]
      refine ⟨.cons (fun later member => (inside later member).1) apart, ?_, ?_⟩
      · rw [List.forall_mem_cons]
        refine ⟨⟨Nat.le_refl _, Nat.add_le_add_left (Nat.le_add_right _ _) _⟩,
          fun later member => ?_⟩
        obtain ⟨behind, before⟩ := inside later member
        omega
      · intro position behind before
        by_cases here : position < offset + opcode.size
        · exact ⟨_, List.mem_cons_self, behind, here⟩
        · obtain ⟨entry, member, range⟩ :=
            covered position (Nat.le_of_not_lt here) (by omega)
          exact ⟨entry, List.mem_cons_of_mem _ member, range⟩

theorem covers_of_decode
    {image : List UInt8}
    {entries : List Entry}
    (decoded : decode image = .ok entries) :
    Covers entries image.length := by
  obtain ⟨apart, inside, covered⟩ := (tiles_of_decodeFrom decoded).covers_from
  obtain ⟨length, _⟩ := encodeEntries_of_decodeFrom decoded
  rw [Nat.zero_add, ← length] at inside covered
  exact ⟨apart, fun entry member => (inside entry member).2,
    fun position before => covered position (Nat.zero_le _) before⟩

/-- The flags of a layout are set at its registers. -/
theorem getElem?_flags_iff
    {kinds : List Operand.Kind}
    {byte : Nat} :
    (kinds.flatMap Operand.Kind.registerFlags)[byte]? = some true ↔
      ∃ place, kinds[place]? = some .register ∧
        byte = Operand.Kind.totalSize (kinds.take place) := by
  induction kinds generalizing byte with
  | nil =>
      simp
  | cons kind rest inductionHypothesis =>
      have places :
          (∃ place, (kind :: rest)[place]? = some .register ∧
              byte = Operand.Kind.totalSize ((kind :: rest).take place)) ↔
            (kind = .register ∧ byte = 0) ∨
              ∃ place, rest[place]? = some .register ∧
                byte = kind.size + Operand.Kind.totalSize (rest.take place) := by
        constructor
        · rintro ⟨place | place, found, rfl⟩
          · exact .inl ⟨Option.some.inj found, rfl⟩
          · exact .inr ⟨place, found, rfl⟩
        · rintro (⟨rfl, rfl⟩ | ⟨place, found, rfl⟩)
          · exact ⟨0, rfl, rfl⟩
          · exact ⟨place + 1, found, rfl⟩
      rw [places, List.flatMap_cons]
      by_cases later : kind.size ≤ byte
      · -- The byte is behind the first operand.
        obtain ⟨distance, rfl⟩ := Nat.exists_eq_add_of_le later
        have positive : kind.size ≠ 0 := by
          cases kind <;> decide
        rw [List.getElem?_append_right (by simp), Operand.Kind.length_registerFlags,
          Nat.add_sub_cancel_left, inductionHypothesis]
        simp only [Nat.add_left_cancel_iff, Nat.add_eq_zero_iff, positive,
          false_and, and_false, false_or]
      · -- The byte is one of the first operand.
        have here : byte < kind.registerFlags.length := by
          rw [Operand.Kind.length_registerFlags]
          exact Nat.lt_of_not_le later
        have notLater : ∀ place,
            byte ≠ kind.size + Operand.Kind.totalSize (rest.take place) := by
          intro place same
          exact later (same ▸ Nat.le_add_right _ _)
        rw [List.getElem?_append_left here]
        simp only [notLater, and_false, exists_false, or_false]
        cases kind with
        | register =>
            obtain rfl : byte = 0 := Nat.lt_one_iff.mp here
            simp [Operand.Kind.registerFlags]
        | word =>
            simp only [reduceCtorEq, false_and, iff_false]
            intro found
            cases List.eq_of_mem_replicate (List.mem_of_getElem? found)

theorem Entry.length_registerFlags (entry : Entry) :
    entry.registerFlags.length = entry.opcode.size := by
  rw [registerFlags, List.length_cons,
    Operand.Kind.length_flatMap_registerFlags, Opcode.size, Opcode.operandSize,
    Nat.add_comm]

/-- The flags of an entry are set at the bytes of its register operands. -/
theorem Entry.getElem?_registerFlags_iff
    {entry : Entry}
    {byte : Nat} :
    entry.registerFlags[byte]? = some true ↔
      ∃ place, entry.opcode.layout[place]? = some .register ∧
        byte =
          1 + Operand.Kind.totalSize (entry.opcode.layout.take place) := by
  cases byte with
  | zero =>
      simp [registerFlags]
      omega
  | succ byte =>
      rw [registerFlags, List.getElem?_cons_succ, getElem?_flags_iff]
      simp only [Nat.add_comm 1, Nat.add_right_cancel_iff]

theorem length_registerFlags (entries : List Entry) :
    (registerFlags entries).length = sizeOf entries := by
  rw [registerFlags, List.length_flatMap, sizeOf]
  simp only [Entry.length_registerFlags]

/-- The flags of a tiling are set at the bytes of its register operands. -/
theorem Tiles.getElem?_registerFlags_iff
    {offset : Nat}
    {entries : List Entry}
    (tiles : Tiles offset entries)
    {byte : Nat} :
    (registerFlags entries)[byte]? = some true ↔
      IsRegisterByte entries (offset + byte) := by
  induction tiles generalizing byte with
  | nil =>
      simp [registerFlags, IsRegisterByte]
  | @cons offset opcode operands rest _ _ restTiles inductionHypothesis =>
      have split :
          IsRegisterByte (⟨offset, opcode, operands⟩ :: rest) (offset + byte) ↔
            (Entry.mk offset opcode operands).registerFlags[byte]? = some true ∨
              IsRegisterByte rest (offset + byte) := by
        simp only [IsRegisterByte, List.exists_mem_cons_iff,
          Entry.getElem?_registerFlags_iff, Nat.add_assoc,
          Nat.add_left_cancel_iff]
      have length := Entry.length_registerFlags ⟨offset, opcode, operands⟩
      rw [split, registerFlags, List.flatMap_cons, ← registerFlags]
      by_cases later : opcode.size ≤ byte
      · obtain ⟨distance, rfl⟩ := Nat.exists_eq_add_of_le later
        have outside : (Entry.mk offset opcode operands).registerFlags[
            opcode.size + distance]? = none :=
          List.getElem?_eq_none (length ▸ later)
        rw [List.getElem?_append_right (length ▸ later), length,
          Nat.add_sub_cancel_left, inductionHypothesis, outside, Nat.add_assoc]
        simp
      · have here := Nat.lt_of_not_le later
        have notLater : ¬ IsRegisterByte rest (offset + byte) := by
          rintro ⟨entry, member, place, _, same⟩
          have behind := (restTiles.covers_from.2.1 entry member).1
          omega
        rw [List.getElem?_append_left (length ▸ here), or_iff_left notLater]

/-- What is decoded encodes to the image with its register bytes reduced. -/
theorem getElem?_encodeEntries_of_decode
    {image : List UInt8}
    {entries : List Entry}
    (decoded : decode image = .ok entries)
    {position : Nat}
    {byte : UInt8}
    (stands : image[position]? = some byte) :
    (IsRegisterByte entries position →
      (encodeEntries entries)[position]? = some (byte &&& 7)) ∧
    (¬ IsRegisterByte entries position →
      (encodeEntries entries)[position]? = some byte) := by
  have tiles := tiles_of_decodeFrom decoded
  obtain ⟨length, encoded⟩ := encodeEntries_of_decodeFrom decoded
  have flagIff : (registerFlags entries)[position]? = some true ↔
      IsRegisterByte entries (0 + position) :=
    tiles.getElem?_registerFlags_iff
  rw [Nat.zero_add] at flagIff
  have inside : position < (registerFlags entries).length := by
    rw [length_registerFlags, ← length]
    exact (List.getElem?_eq_some_iff.mp stands).1
  rw [encoded, List.getElem?_zipWith, stands, ← flagIff,
    List.getElem?_eq_getElem inside]
  cases (registerFlags entries)[position] <;> simp [clearUnused]

end Covering

section Failing

variable {image : List UInt8}

theorem Reaches.le
    {position target : Nat}
    (reaches : Reaches image position target) :
    position ≤ target := by
  induction reaches with
  | here =>
      exact Nat.le_refl _
  | next _ _ inductionHypothesis =>
      exact Nat.le_of_add_right_le inductionHypothesis

theorem FailsAt.lt_length
    {position : Nat}
    {cause : DecodeError}
    (fails : FailsAt image position cause) :
    position < image.length := by
  cases fails with
  | unknownOpcode stands | truncated stands =>
      exact (List.getElem?_eq_some_iff.mp stands).1

theorem FailsAt.position_eq
    {position : Nat}
    {cause : DecodeError}
    (fails : FailsAt image position cause) :
    cause.position = position := by
  cases fails <;> rfl

theorem failsAt_iff_of_unknown
    {position : Nat}
    {code : UInt8}
    {cause : DecodeError}
    (stands : image[position]? = some code)
    (unknown : Opcode.ofCode? code = none) :
    FailsAt image position cause ↔ cause = .unknownOpcode code position := by
  have noCode : ∀ opcode : Opcode, opcode.code ≠ code := by
    rintro opcode rfl
    rw [Opcode.ofCode?_code] at unknown
    cases unknown
  constructor
  · intro fails
    cases fails with
    | unknownOpcode standsToo _ =>
        rw [Option.some.inj (standsToo.symm.trans stands)]
    | truncated standsToo _ =>
        exact (noCode _ (Option.some.inj (standsToo.symm.trans stands))).elim
  · rintro rfl
    exact .unknownOpcode stands noCode

theorem failsAt_iff_of_known
    {position : Nat}
    {opcode : Opcode}
    {cause : DecodeError}
    (stands : image[position]? = some opcode.code) :
    FailsAt image position cause ↔
      image.length < position + opcode.size ∧
        cause = .truncated opcode.mnemonic position := by
  constructor
  · intro fails
    cases fails with
    | unknownOpcode standsToo noCode =>
        exact (noCode opcode (Option.some.inj (stands.symm.trans standsToo))).elim
    | truncated standsToo short =>
        obtain rfl := Opcode.eq_of_code_eq
          (Option.some.inj (standsToo.symm.trans stands))
        exact ⟨short, rfl⟩
  · rintro ⟨short, rfl⟩
    exact .truncated stands short

/-- Where no code stands, walking ends. -/
theorem exists_failsAt_iff_of_unknown
    {offset : Nat}
    {code : UInt8}
    {cause : DecodeError}
    (stands : image[offset]? = some code)
    (unknown : Opcode.ofCode? code = none) :
    (∃ position, Reaches image offset position ∧ FailsAt image position cause) ↔
      cause = .unknownOpcode code offset := by
  rw [← failsAt_iff_of_unknown stands unknown]
  constructor
  · rintro ⟨position, reaches, fails⟩
    cases reaches with
    | here =>
        exact fails
    | next standsToo _ =>
        rw [← Option.some.inj (standsToo.symm.trans stands),
          Opcode.ofCode?_code] at unknown
        cases unknown
  · intro fails
    exact ⟨offset, .here, fails⟩

/-- Where an instruction stands, it is cut short or walking goes on behind it. -/
theorem exists_failsAt_iff_of_known
    {offset : Nat}
    {opcode : Opcode}
    {cause : DecodeError}
    (stands : image[offset]? = some opcode.code) :
    (∃ position, Reaches image offset position ∧ FailsAt image position cause) ↔
      (image.length < offset + opcode.size ∧
          cause = .truncated opcode.mnemonic offset) ∨
        ∃ position, Reaches image (offset + opcode.size) position ∧
          FailsAt image position cause := by
  rw [← failsAt_iff_of_known stands]
  constructor
  · rintro ⟨position, reaches, fails⟩
    cases reaches with
    | here =>
        exact .inl fails
    | next standsToo further =>
        obtain rfl := Opcode.eq_of_code_eq
          (Option.some.inj (standsToo.symm.trans stands))
        exact .inr ⟨position, further, fails⟩
  · rintro (fails | ⟨position, further, fails⟩)
    · exact ⟨offset, .here, fails⟩
    · exact ⟨position, .next stands further, fails⟩

/-- Behind an image nothing fails. -/
theorem not_exists_failsAt_of_length_le
    {offset : Nat}
    {cause : DecodeError}
    (behind : image.length ≤ offset) :
    ¬ ∃ position, Reaches image offset position ∧ FailsAt image position cause := by
  rintro ⟨position, reaches, fails⟩
  exact Nat.not_lt.mpr (Nat.le_trans behind reaches.le) fails.lt_length

/-- Operands are read where the image does not cut them short, and bytes are left. -/
theorem drop_of_readOperands?
    {offset : Nat}
    {opcode : Opcode}
    {operands : List Operand}
    {bytes rest : List UInt8}
    (shape : image.drop offset = opcode.code :: bytes)
    (read : readOperands? opcode.layout bytes = some (operands, rest)) :
    offset + opcode.size ≤ image.length ∧
      image.drop (offset + opcode.size) = rest := by
  obtain ⟨_, _, raw, rfl, rawLength, _⟩ := readOperands?_inv read
  have size : (opcode.code :: raw).length = opcode.size := by
    rw [List.length_cons, rawLength, Opcode.size, Opcode.operandSize, Nat.add_comm]
  rw [← List.cons_append] at shape
  constructor
  · have length := congrArg List.length shape
    have positive := opcode.size_pos
    rw [List.length_drop, List.length_append, size] at length
    omega
  · rw [← List.drop_drop, shape, ← size, List.drop_left]

theorem lt_of_readOperands?_eq_none
    {offset : Nat}
    {opcode : Opcode}
    {bytes : List UInt8}
    (shape : image.drop offset = opcode.code :: bytes)
    (short : readOperands? opcode.layout bytes = none) :
    image.length < offset + opcode.size := by
  by_contra complete
  have length := congrArg List.length shape
  rw [List.length_drop, List.length_cons] at length
  have enough : Operand.Kind.totalSize opcode.layout ≤ bytes.length := by
    simp only [Opcode.size, Opcode.operandSize] at complete
    omega
  obtain ⟨operands, rest, read⟩ := exists_readOperands? enough
  cases short.symm.trans read

/-- Decoding from a position fails where walking on from it comes to a failure. -/
theorem decodeFrom_eq_error_iff
    {offset : Nat}
    {bytes : List UInt8}
    (shape : image.drop offset = bytes)
    {cause : DecodeError} :
    decodeFrom offset bytes = .error cause ↔
      ∃ position, Reaches image offset position ∧
        FailsAt image position cause := by
  have standsAt : ∀ {offset code bytes}, image.drop offset = code :: bytes →
      image[offset]? = some code := by
    intro offset code bytes shape
    rw [← List.head?_drop, shape, List.head?_cons]
  fun_induction decodeFrom offset bytes with
  | case1 offset =>
      have behind : image.length ≤ offset := List.drop_eq_nil_iff.mp shape
      simp only [reduceCtorEq, not_exists_failsAt_of_length_le behind]
  | case2 offset code bytes unknown =>
      rw [exists_failsAt_iff_of_unknown (standsAt shape) unknown,
        Except.error.injEq, eq_comm]
  | case3 offset code bytes opcode known short =>
      obtain rfl := Opcode.code_of_ofCode? known
      have cut := lt_of_readOperands?_eq_none shape short
      simp only [exists_failsAt_iff_of_known (standsAt shape), cut, true_and,
        not_exists_failsAt_of_length_le (Nat.le_of_lt cut), or_false,
        Except.error.injEq, eq_comm]
  | case4 offset code bytes opcode known operands rest read other later
      inductionHypothesis =>
      obtain rfl := Opcode.code_of_ofCode? known
      obtain ⟨complete, behind⟩ := drop_of_readOperands? shape read
      simp only [exists_failsAt_iff_of_known (standsAt shape),
        Nat.not_lt.mpr complete, false_and, false_or, ← inductionHypothesis behind,
        later]
  | case5 offset code bytes opcode known operands rest read entries later
      inductionHypothesis =>
      obtain rfl := Opcode.code_of_ofCode? known
      obtain ⟨complete, behind⟩ := drop_of_readOperands? shape read
      simp only [exists_failsAt_iff_of_known (standsAt shape),
        Nat.not_lt.mpr complete, false_and, false_or, ← inductionHypothesis behind,
        later, reduceCtorEq]

/-- Walking from the start of an image comes to one failure at most. -/
theorem position_eq_of_decode
    {cause other : DecodeError}
    {position : Nat}
    (failed : decode image = .error cause)
    (reaches : Reaches image 0 position)
    (fails : FailsAt image position other) :
    position = cause.position := by
  have failedToo : decode image = .error other :=
    (decodeFrom_eq_error_iff List.drop_zero).mpr ⟨position, reaches, fails⟩
  obtain rfl := Except.error.inj (failed.symm.trans failedToo)
  exact fails.position_eq.symm

end Failing

/--
Instructions that fit their rows are decoded from their bytes, at offsets that
are the running sums of their sizes.  A decoded image is covered by its entries,
and they encode to it with every register byte reduced to its three low bits.
Decoding fails exactly when walking over the image comes to a position where no
instruction can be decoded, and with the reason at the first of them.
-/
theorem decode_encode_roundTrip :
    (∀ program : List (Opcode × List Operand),
      (∀ instruction ∈ program,
        instruction.2.map Operand.kind = instruction.1.layout ∧
          ∀ operand ∈ instruction.2, operand.IsDirect) →
      ∃ entries, decode (encodeInstructions program) = .ok entries ∧
        entries.map (fun entry => (entry.opcode, entry.operands)) = program ∧
        ∀ (index : Nat) (entry : Entry), entries[index]? = some entry →
          entry.offset =
            ((program.take index).map fun instruction =>
              instruction.1.size).sum) ∧
    (∀ image entries, decode image = .ok entries →
      Covers entries image.length ∧
      (encodeEntries entries).length = image.length ∧
      ∀ (position : Nat) (byte : UInt8), image[position]? = some byte →
        (IsRegisterByte entries position →
          (encodeEntries entries)[position]? = some (byte &&& 7)) ∧
        (¬ IsRegisterByte entries position →
          (encodeEntries entries)[position]? = some byte)) ∧
    ∀ image,
      ((∃ cause, decode image = .error cause) ↔
        ∃ position cause, Reaches image 0 position ∧
          FailsAt image position cause) ∧
      ∀ cause, decode image = .error cause ↔
        ∃ position, Reaches image 0 position ∧ FailsAt image position cause ∧
          ∀ earlier other, Reaches image 0 earlier →
            FailsAt image earlier other → position ≤ earlier := by
  refine ⟨?_, ?_, ?_⟩
  · intro program fits
    obtain ⟨entries, decoded, rfl⟩ := decodeFrom_encodeInstructions fits 0
    refine ⟨entries, decoded, rfl, fun index entry found => ?_⟩
    rw [(tiles_of_decodeFrom decoded).offset_eq found, Nat.zero_add, sizeOf,
      ← List.map_take, List.map_map]
    rfl
  · intro image entries decoded
    have fits : ∀ entry ∈ entries,
        entry.operands.map Operand.kind = entry.opcode.layout :=
      fun entry member => ((tiles_of_decodeFrom decoded).fits_of_mem entry member).1
    refine ⟨covers_of_decode decoded, ?_, fun position byte stands =>
      getElem?_encodeEntries_of_decode decoded stands⟩
    rw [length_encodeEntries fits, (encodeEntries_of_decodeFrom decoded).1]
  · intro image
    have failsIff : ∀ cause, decode image = .error cause ↔
        ∃ position, Reaches image 0 position ∧ FailsAt image position cause :=
      fun _ => decodeFrom_eq_error_iff List.drop_zero
    constructor
    · simp only [failsIff]
      exact exists_comm
    · intro cause
      constructor
      · intro failed
        obtain ⟨position, reaches, fails⟩ := (failsIff cause).mp failed
        refine ⟨position, reaches, fails, fun earlier other reachesToo failsToo => ?_⟩
        rw [position_eq_of_decode failed reachesToo failsToo, fails.position_eq]
      · rintro ⟨position, reaches, fails, _⟩
        exact (failsIff cause).mpr ⟨position, reaches, fails⟩

/-- An image with a register byte past the last register, cut short at its end. -/
private def cutImage : List UInt8 := [9, 255, 1, 0, 8]

/--
A program with a word of eight different bytes is decoded from its bytes, and the
image that is cut short is not decoded, for its second instruction.
-/
theorem decode_encode_roundTrip_cutImage :
    (∃ entries,
      decode (encodeInstructions
        [(.load, [.register 7, .word 0x0102030405060708]), (.halt, [])]) =
          .ok entries ∧
      entries.map Entry.offset = [0, 10]) ∧
    decode cutImage = .error (.truncated "LOAD" 2) := by
  constructor
  · obtain ⟨entries, decoded, same, offsets⟩ := decode_encode_roundTrip.1
      [(.load, [.register 7, .word 0x0102030405060708]), (.halt, [])]
      (by simp [Operand.kind, Opcode.layout, Operand.IsDirect, registerCount])
    have length := congrArg List.length same
    rw [List.length_map] at length
    obtain ⟨first, second, rfl⟩ := List.length_eq_two.mp length
    refine ⟨_, decoded, ?_⟩
    rw [List.map_cons, List.map_cons, offsets 0 first rfl, offsets 1 second rfl]
    decide
  · have standsFirst : cutImage[0]? = some Opcode.inc.code := rfl
    have standsSecond : cutImage[2]? = some Opcode.load.code := rfl
    refine ((decode_encode_roundTrip.2.2 cutImage).2 _).mpr
      ⟨2, .next standsFirst .here, .truncated standsSecond (by decide), ?_⟩
    rintro earlier other (_ | ⟨stands, further⟩) fails
    · obtain ⟨short, _⟩ := (failsAt_iff_of_known standsFirst).mp fails
      exact absurd short (by decide)
    · obtain rfl := Opcode.eq_of_code_eq
        (Option.some.inj (standsFirst.symm.trans stands))
      exact further.le

end Image

end RegisterMachine
