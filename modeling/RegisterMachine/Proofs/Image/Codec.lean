import RegisterMachine.Image.Decode
import RegisterMachine.Proofs.Word

namespace RegisterMachine

/-!
# Encoding and decoding images

A decoded image is a tiling: entries that stand one after another, each with
operands that fit its catalog row.  Encoding a tiling and decoding it gives the
tiling back, and a decoded image is determined by its entries up to the bits of
register operands that no register needs.
-/

namespace Operand

/-- A register operand in the form that decoding gives: a plain register index. -/
def IsDirect : Operand → Prop
  | .register index => index.toNat < registerCount
  | .word _ => True

/-- For each byte of an operand, whether it names a register. -/
def Kind.registerFlags : Kind → List Bool
  | .register => [true]
  | .word => List.replicate Word.byteCount false

/-- An operand has one flag for each byte. -/
@[simp] theorem Kind.length_registerFlags (kind : Kind) :
    kind.registerFlags.length = kind.size := by
  cases kind <;> rfl

theorem Kind.length_flatMap_registerFlags (kinds : List Kind) :
    (kinds.flatMap Kind.registerFlags).length = Kind.totalSize kinds := by
  induction kinds with
  | nil =>
      rfl
  | cons kind rest inductionHypothesis =>
      rw [List.flatMap_cons, List.length_append, inductionHypothesis,
        Kind.length_registerFlags, Kind.totalSize]

end Operand

theorem Register.toByte_ofByte_of_lt
    {index : UInt8}
    (low : index.toNat < registerCount) :
    (Register.ofByte index).toByte = index := by
  apply UInt8.toNat_inj.mp
  rw [Register.toNat_toByte_ofByte]
  exact Nat.mod_eq_of_lt low

/-- The byte that names the register of a raw byte is its three low bits. -/
theorem Register.toByte_ofByte (byte : UInt8) :
    (Register.ofByte byte).toByte = byte &&& 7 := by
  apply UInt8.toNat_inj.mp
  rw [Register.toNat_toByte_ofByte, UInt8.toNat_and]
  exact (Nat.and_two_pow_sub_one_eq_mod byte.toNat 3).symm

namespace Image

/-- The byte of an image with the unused bits of a register operand cleared. -/
def clearUnused (byte : UInt8) (isRegister : Bool) : UInt8 :=
  if isRegister then byte &&& 7 else byte

/-- For each byte of an encoded entry, whether it is a register operand. -/
def Entry.registerFlags (entry : Entry) : List Bool :=
  false :: entry.opcode.layout.flatMap Operand.Kind.registerFlags

/-- For each byte of encoded entries, whether it is a register operand. -/
def registerFlags (entries : List Entry) : List Bool :=
  entries.flatMap Entry.registerFlags

/-- The bytes of entries, one after another. -/
def encodeEntries (entries : List Entry) : List UInt8 :=
  entries.flatMap fun entry => encode entry.opcode entry.operands

/-- Total encoded size of entries. -/
def sizeOf (entries : List Entry) : Nat :=
  (entries.map fun entry => entry.opcode.size).sum

/--
Entries that stand one after another from an offset on, with operands that fit
their catalog rows and name registers directly.
-/
inductive Tiles : Nat → List Entry → Prop where
  | nil {offset : Nat} :
      Tiles offset []
  | cons {offset : Nat} {opcode : Opcode} {operands : List Operand}
      {rest : List Entry} :
      operands.map Operand.kind = opcode.layout →
      (∀ operand ∈ operands, operand.IsDirect) →
      Tiles (offset + opcode.size) rest →
      Tiles offset (⟨offset, opcode, operands⟩ :: rest)

/-- The operands of each entry of a tiling fit its row and name registers directly. -/
theorem Tiles.fits_of_mem
    {offset : Nat}
    {entries : List Entry}
    (tiles : Tiles offset entries) :
    ∀ entry ∈ entries,
      entry.operands.map Operand.kind = entry.opcode.layout ∧
        ∀ operand ∈ entry.operands, operand.IsDirect := by
  induction tiles with
  | nil =>
      exact nofun
  | cons fits direct _ inductionHypothesis =>
      exact List.forall_mem_cons.mpr ⟨⟨fits, direct⟩, inductionHypothesis⟩

section Operands

/-- An operand is read back from its own bytes. -/
theorem readOperand?_encode
    {operand : Operand}
    (direct : operand.IsDirect)
    (rest : List UInt8) :
    readOperand? operand.kind (operand.encode ++ rest) =
      some (operand, rest) := by
  cases operand with
  | register index =>
      have kept := Register.toByte_ofByte_of_lt direct
      simp [Operand.kind, Operand.encode, readOperand?, kept]
  | word value =>
      have taken : (Word.toBytes value ++ rest).take Word.byteCount =
          Word.toBytes value :=
        List.take_left' (Word.length_toBytes value)
      have dropped : (Word.toBytes value ++ rest).drop Word.byteCount = rest :=
        List.drop_left' (Word.length_toBytes value)
      have enough :
          ¬ (Word.toBytes value ++ rest).length < Word.byteCount := by
        rw [List.length_append, Word.length_toBytes]
        exact Nat.not_lt.mpr (Nat.le_add_right _ _)
      simp only [Operand.kind, Operand.encode, readOperand?, enough,
        ↓reduceIte, taken, dropped, Word.ofBytes_toBytes]

theorem readOperands?_encode
    {operands : List Operand}
    (direct : ∀ operand ∈ operands, operand.IsDirect)
    (rest : List UInt8) :
    readOperands? (operands.map Operand.kind)
        (operands.flatMap Operand.encode ++ rest) =
      some (operands, rest) := by
  induction operands with
  | nil =>
      rfl
  | cons operand others inductionHypothesis =>
      have first := readOperand?_encode
        (direct operand List.mem_cons_self)
        (others.flatMap Operand.encode ++ rest)
      have later := inductionHypothesis
        fun other member => direct other (List.mem_cons_of_mem _ member)
      simp only [List.map_cons, List.flatMap_cons, List.append_assoc,
        readOperands?, first, later]

/-- A read operand is that of the raw bytes in front, with unused bits cleared. -/
theorem readOperand?_inv
    {kind : Operand.Kind}
    {bytes rest : List UInt8}
    {operand : Operand}
    (read : readOperand? kind bytes = some (operand, rest)) :
    operand.kind = kind ∧ operand.IsDirect ∧
      ∃ raw, bytes = raw ++ rest ∧ raw.length = kind.size ∧
        operand.encode = List.zipWith clearUnused raw kind.registerFlags := by
  cases kind with
  | register =>
      cases bytes with
      | nil =>
          simp [readOperand?] at read
      | cons byte tail =>
          simp only [readOperand?, Option.some.injEq, Prod.mk.injEq] at read
          obtain ⟨rfl, rfl⟩ := read
          refine ⟨rfl, ?_, [byte], rfl, rfl, ?_⟩
          · rw [Operand.IsDirect, Register.toNat_toByte_ofByte]
            exact Nat.mod_lt _ (by decide)
          · simp [Operand.encode, Operand.Kind.registerFlags, clearUnused,
              Register.toByte_ofByte]
  | word =>
      simp only [readOperand?] at read
      split at read
      · cases read
      · next enough =>
          simp only [Option.some.injEq, Prod.mk.injEq] at read
          obtain ⟨rfl, rfl⟩ := read
          have length : (bytes.take Word.byteCount).length = Word.byteCount :=
            List.length_take_of_le (Nat.le_of_not_lt enough)
          refine ⟨rfl, trivial, bytes.take Word.byteCount,
            (List.take_append_drop _ _).symm, length, ?_⟩
          rw [Operand.encode, Word.toBytes_ofBytes length,
            Operand.Kind.registerFlags]
          apply List.ext_getElem
          · simp [length]
          · intro index inside _
            simp [clearUnused]

/-- The operands of a layout are read one after another. -/
theorem readOperands?_cons_inv
    {kind : Operand.Kind}
    {kinds : List Operand.Kind}
    {bytes rest : List UInt8}
    {operands : List Operand}
    (read : readOperands? (kind :: kinds) bytes = some (operands, rest)) :
    ∃ first middle others,
      readOperand? kind bytes = some (first, middle) ∧
        readOperands? kinds middle = some (others, rest) ∧
        operands = first :: others := by
  simp only [readOperands?] at read
  split at read
  · cases read
  · next first middle firstRead =>
      split at read
      · cases read
      · next others tail later =>
          simp only [Option.some.injEq, Prod.mk.injEq] at read
          obtain ⟨rfl, rfl⟩ := read
          exact ⟨first, middle, others, firstRead, later, rfl⟩

theorem readOperands?_inv
    {kinds : List Operand.Kind}
    {bytes rest : List UInt8}
    {operands : List Operand}
    (read : readOperands? kinds bytes = some (operands, rest)) :
    operands.map Operand.kind = kinds ∧
      (∀ operand ∈ operands, operand.IsDirect) ∧
      ∃ raw, bytes = raw ++ rest ∧
        raw.length = Operand.Kind.totalSize kinds ∧
        operands.flatMap Operand.encode =
          List.zipWith clearUnused raw
            (kinds.flatMap Operand.Kind.registerFlags) := by
  induction kinds generalizing bytes rest operands with
  | nil =>
      simp only [readOperands?, Option.some.injEq, Prod.mk.injEq] at read
      obtain ⟨rfl, rfl⟩ := read
      exact ⟨rfl, by simp, [], rfl, rfl, rfl⟩
  | cons kind kinds inductionHypothesis =>
      obtain ⟨operand, middle, others, first, later, rfl⟩ :=
        readOperands?_cons_inv read
      obtain ⟨sameKind, direct, raw, rfl, rawLength, encoded⟩ :=
        readOperand?_inv first
      obtain ⟨sameKinds, othersDirect, othersRaw, rfl, othersLength,
          othersEncoded⟩ := inductionHypothesis later
      refine ⟨by rw [List.map_cons, sameKind, sameKinds],
        List.forall_mem_cons.mpr ⟨direct, othersDirect⟩,
        raw ++ othersRaw, (List.append_assoc _ _ _).symm, ?_, ?_⟩
      · rw [List.length_append, rawLength, othersLength,
          Operand.Kind.totalSize]
      · rw [List.flatMap_cons, List.flatMap_cons, encoded, othersEncoded,
          List.zipWith_append]
        rw [rawLength, Operand.Kind.length_registerFlags]

/-- More bytes behind an operand do not change how it is read. -/
theorem readOperand?_append
    {kind : Operand.Kind}
    {bytes rest : List UInt8}
    {operand : Operand}
    (read : readOperand? kind bytes = some (operand, rest))
    (more : List UInt8) :
    readOperand? kind (bytes ++ more) = some (operand, rest ++ more) := by
  cases kind with
  | register =>
      cases bytes with
      | nil =>
          simp [readOperand?] at read
      | cons byte tail =>
          simp only [readOperand?, Option.some.injEq, Prod.mk.injEq] at read
          obtain ⟨rfl, rfl⟩ := read
          rfl
  | word =>
      simp only [readOperand?] at read
      split at read
      · cases read
      · next enough =>
          simp only [Option.some.injEq, Prod.mk.injEq] at read
          obtain ⟨rfl, rfl⟩ := read
          have inside : Word.byteCount ≤ bytes.length := Nat.le_of_not_lt enough
          have stillEnough : ¬ (bytes ++ more).length < Word.byteCount := by
            rw [List.length_append]
            exact Nat.not_lt.mpr (Nat.le_add_right_of_le inside)
          simp only [readOperand?, stillEnough, ↓reduceIte,
            List.take_append_of_le_length inside,
            List.drop_append_of_le_length inside]

theorem readOperands?_append
    {kinds : List Operand.Kind}
    {bytes rest : List UInt8}
    {operands : List Operand}
    (read : readOperands? kinds bytes = some (operands, rest))
    (more : List UInt8) :
    readOperands? kinds (bytes ++ more) = some (operands, rest ++ more) := by
  induction kinds generalizing bytes rest operands with
  | nil =>
      simp only [readOperands?, Option.some.injEq, Prod.mk.injEq] at read
      obtain ⟨rfl, rfl⟩ := read
      rfl
  | cons kind kinds inductionHypothesis =>
      obtain ⟨operand, middle, others, first, later, rfl⟩ :=
        readOperands?_cons_inv read
      simp only [readOperands?, readOperand?_append first more,
        inductionHypothesis later]

theorem exists_readOperand?
    {kind : Operand.Kind}
    {bytes : List UInt8}
    (enough : kind.size ≤ bytes.length) :
    ∃ operand rest, readOperand? kind bytes = some (operand, rest) := by
  cases kind with
  | register =>
      cases bytes with
      | nil =>
          simp [Operand.Kind.size] at enough
      | cons byte tail =>
          exact ⟨_, _, rfl⟩
  | word =>
      have notShort : ¬ bytes.length < Word.byteCount := Nat.not_lt.mpr enough
      refine ⟨.word (Word.ofBytes (bytes.take Word.byteCount)),
        bytes.drop Word.byteCount, ?_⟩
      rw [readOperand?, if_neg notShort]

theorem exists_readOperands?
    {kinds : List Operand.Kind}
    {bytes : List UInt8}
    (enough : Operand.Kind.totalSize kinds ≤ bytes.length) :
    ∃ operands rest, readOperands? kinds bytes = some (operands, rest) := by
  induction kinds generalizing bytes with
  | nil =>
      exact ⟨[], bytes, rfl⟩
  | cons kind kinds inductionHypothesis =>
      rw [Operand.Kind.totalSize] at enough
      obtain ⟨operand, middle, first⟩ :=
        exists_readOperand? (Nat.le_of_add_right_le enough)
      have length := length_of_readOperand? first
      have enoughLater :
          Operand.Kind.totalSize kinds ≤ middle.length := by
        omega
      obtain ⟨others, rest, later⟩ := inductionHypothesis enoughLater
      exact ⟨operand :: others, rest, by simp only [readOperands?, first, later]⟩

end Operands

section Decoding

/-- Decoding goes on behind an instruction that it has read. -/
theorem decodeFrom_cons
    {offset : Nat}
    {code : UInt8}
    {opcode : Opcode}
    {operands : List Operand}
    {bytes rest : List UInt8}
    (known : Opcode.ofCode? code = some opcode)
    (read : readOperands? opcode.layout bytes = some (operands, rest)) :
    decodeFrom offset (code :: bytes) =
      (decodeFrom (offset + opcode.size) rest).map
        (⟨offset, opcode, operands⟩ :: ·) := by
  rw [decodeFrom, known]
  simp only
  split
  · next missing =>
      rw [read] at missing
      cases missing
  · next found tail same =>
      rw [read] at same
      cases same
      cases decodeFrom (offset + opcode.size) rest <;> rfl

/-- What decodes to at least one entry starts with that entry's instruction. -/
theorem decodeFrom_inv
    {offset : Nat}
    {bytes : List UInt8}
    {entry : Entry}
    {others : List Entry}
    (decoded : decodeFrom offset bytes = .ok (entry :: others)) :
    ∃ tail rest,
      bytes = entry.opcode.code :: tail ∧ entry.offset = offset ∧
        readOperands? entry.opcode.layout tail = some (entry.operands, rest) ∧
        decodeFrom (offset + entry.opcode.size) rest = .ok others := by
  cases bytes with
  | nil =>
      simp [decodeFrom] at decoded
  | cons code tail =>
      rw [decodeFrom] at decoded
      split at decoded
      · cases decoded
      · next opcode known =>
          split at decoded
          · cases decoded
          · next operands rest read =>
              split at decoded
              · cases decoded
              · next entries later =>
                  cases decoded
                  rw [← Opcode.code_of_ofCode? known]
                  exact ⟨tail, rest, rfl, rfl, read, later⟩

theorem eq_nil_of_decodeFrom_eq_nil
    {offset : Nat}
    {bytes : List UInt8}
    (decoded : decodeFrom offset bytes = .ok []) :
    bytes = [] := by
  cases bytes with
  | nil =>
      rfl
  | cons code tail =>
      rw [decodeFrom] at decoded
      split at decoded
      · cases decoded
      · split at decoded
        · cases decoded
        · split at decoded <;> cases decoded

/-- Encoding a tiling and decoding it gives the tiling back. -/
theorem decodeFrom_encodeEntries
    {offset : Nat}
    {entries : List Entry}
    (tiles : Tiles offset entries) :
    decodeFrom offset (encodeEntries entries) = .ok entries := by
  induction tiles with
  | nil =>
      rw [encodeEntries, List.flatMap_nil, decodeFrom]
  | @cons offset opcode operands rest fits direct _ inductionHypothesis =>
      have read := readOperands?_encode direct (encodeEntries rest)
      rw [fits] at read
      have shape :
          encodeEntries (⟨offset, opcode, operands⟩ :: rest) =
            opcode.code ::
              (operands.flatMap Operand.encode ++ encodeEntries rest) := rfl
      rw [shape, decodeFrom_cons (Opcode.ofCode?_code opcode) read,
        inductionHypothesis]
      rfl

/-- A decoded image is a tiling. -/
theorem tiles_of_decodeFrom
    {offset : Nat}
    {bytes : List UInt8}
    {entries : List Entry}
    (decoded : decodeFrom offset bytes = .ok entries) :
    Tiles offset entries := by
  induction entries generalizing offset bytes with
  | nil =>
      exact .nil
  | cons entry others inductionHypothesis =>
      obtain ⟨tail, rest, _, rfl, read, later⟩ := decodeFrom_inv decoded
      obtain ⟨fits, direct, _⟩ := readOperands?_inv read
      exact .cons fits direct (inductionHypothesis later)

/--
A decoded image has the bytes of its entries, except for the unused bits of
its register operands.
-/
theorem encodeEntries_of_decodeFrom
    {offset : Nat}
    {bytes : List UInt8}
    {entries : List Entry}
    (decoded : decodeFrom offset bytes = .ok entries) :
    bytes.length = sizeOf entries ∧
      encodeEntries entries =
        List.zipWith clearUnused bytes (registerFlags entries) := by
  induction entries generalizing offset bytes with
  | nil =>
      obtain rfl := eq_nil_of_decodeFrom_eq_nil decoded
      exact ⟨rfl, rfl⟩
  | cons entry others inductionHypothesis =>
      obtain ⟨tail, rest, rfl, rfl, read, later⟩ := decodeFrom_inv decoded
      obtain ⟨_, _, raw, rfl, rawLength, encoded⟩ := readOperands?_inv read
      obtain ⟨restLength, restEncoded⟩ := inductionHypothesis later
      constructor
      · rw [List.length_cons, List.length_append, rawLength, restLength]
        simp only [sizeOf, List.map_cons, List.sum_cons, Opcode.size,
          Opcode.operandSize]
        omega
      · have flagsLength :
            raw.length =
              (entry.opcode.layout.flatMap
                Operand.Kind.registerFlags).length := by
          rw [rawLength, Operand.Kind.length_flatMap_registerFlags]
        have first :
            encode entry.opcode entry.operands =
              List.zipWith clearUnused (entry.opcode.code :: raw)
                entry.registerFlags := by
          rw [encode, encoded, Entry.registerFlags, List.zipWith_cons_cons]
          rfl
        rw [encodeEntries, List.flatMap_cons, first, registerFlags,
          List.flatMap_cons, ← List.cons_append, List.zipWith_append]
        · exact congrArg _ restEncoded
        · simp only [Entry.registerFlags, List.length_cons, flagsLength]

/-- An entry of a tiling stands behind all entries before it. -/
theorem Tiles.offset_eq
    {offset : Nat}
    {entries : List Entry}
    (tiles : Tiles offset entries)
    {index : Nat}
    {entry : Entry}
    (found : entries[index]? = some entry) :
    entry.offset = offset + sizeOf (entries.take index) := by
  induction tiles generalizing index with
  | nil =>
      simp at found
  | cons fits direct rest inductionHypothesis =>
      cases index with
      | zero =>
          cases found
          rfl
      | succ index =>
          rw [inductionHypothesis (List.getElem?_cons_succ.symm.trans found), List.take_succ_cons]
          simp only [sizeOf, List.map_cons, List.sum_cons]
          omega

/--
A decoded entry stands where its offset says, is read from the bytes there,
and is followed by another entry or the end of the image.
-/
theorem exists_split_of_mem
    {offset : Nat}
    {bytes : List UInt8}
    {entries : List Entry}
    (decoded : decodeFrom offset bytes = .ok entries)
    {entry : Entry}
    (member : entry ∈ entries) :
    ∃ before tail rest,
      bytes = before ++ entry.opcode.code :: tail ∧
        entry.offset = offset + before.length ∧
        readOperands? entry.opcode.layout tail = some (entry.operands, rest) ∧
        ((∃ next ∈ entries,
            next.offset = entry.offset + entry.opcode.size) ∨ rest = []) := by
  induction entries generalizing offset bytes with
  | nil =>
      cases member
  | cons first others inductionHypothesis =>
      obtain ⟨tail, rest, rfl, rfl, read, later⟩ := decodeFrom_inv decoded
      rcases List.mem_cons.mp member with rfl | inOthers
      · refine ⟨[], tail, rest, rfl, rfl, read, ?_⟩
        cases others with
        | nil =>
            exact .inr (eq_nil_of_decodeFrom_eq_nil later)
        | cons next others =>
            obtain ⟨_, _, _, standsNext, _⟩ := decodeFrom_inv later
            exact .inl ⟨next, by simp, standsNext⟩
      · obtain ⟨before, entryTail, entryRest, rfl, stands, entryRead, followed⟩ :=
          inductionHypothesis later inOthers
        obtain ⟨_, _, raw, rfl, rawLength, _⟩ := readOperands?_inv read
        refine ⟨first.opcode.code :: (raw ++ before), entryTail, entryRest, ?_, ?_,
          entryRead, ?_⟩
        · simp
        · rw [stands, List.length_cons, List.length_append, rawLength]
          simp only [Opcode.size, Opcode.operandSize]
          omega
        · rcases followed with ⟨next, nextMember, standsNext⟩ | ended
          · exact .inl ⟨next, List.mem_cons_of_mem _ nextMember, standsNext⟩
          · exact .inr ended

theorem exists_first_of_decodeFrom
    {offset : Nat}
    {bytes : List UInt8}
    {entries : List Entry}
    (decoded : decodeFrom offset bytes = .ok entries) :
    (∃ entry ∈ entries, entry.offset = offset) ∨ bytes = [] := by
  cases entries with
  | nil =>
      exact .inr (eq_nil_of_decodeFrom_eq_nil decoded)
  | cons entry others =>
      obtain ⟨_, _, _, stands, _⟩ := decodeFrom_inv decoded
      exact .inl ⟨entry, List.mem_cons_self, stands⟩

end Decoding

end Image

end RegisterMachine
