import Mathlib.Data.List.ReduceOption
import RegisterMachine.Proofs.Image.Codec

namespace RegisterMachine.Image

/-!
# Bytes at positions of an image

An image is a joining of parts: the encodings of its instructions, each of them
a code byte and the encodings of operands.  A part stands at the position that
is the length of the parts before it, and every byte belongs to one part.
-/

/-- The word in the eight bytes from a position on. -/
def wordAt? (image : List UInt8) (position : Nat) : Option UInt64 :=
  if position + Word.byteCount ≤ image.length then
    some (Word.ofBytes ((image.drop position).take Word.byteCount))
  else
    none

theorem wordAt?_of_isPrefix
    {image : List UInt8}
    {position : Nat}
    {value : UInt64}
    (stands : Word.toBytes value <+: image.drop position) :
    wordAt? image position = some value := by
  have length := stands.length_le
  rw [Word.length_toBytes, List.length_drop] at length
  have positive : 0 < Word.byteCount := by decide
  have taken : (image.drop position).take Word.byteCount = Word.toBytes value := by
    rw [List.prefix_iff_eq_take.mp stands, Word.length_toBytes]
  rw [wordAt?, if_pos (by omega), taken, Word.ofBytes_toBytes]

section Parts

variable {α : Type} {items : List α} (bytesOf : α → List UInt8)

/-- The bytes of an item stand behind those of the items before it. -/
theorem prefix_drop_flatMap
    {index : Nat}
    {item : α}
    (found : items[index]? = some item) :
    bytesOf item <+:
      (items.flatMap bytesOf).drop ((items.take index).flatMap bytesOf).length := by
  obtain ⟨inside, rfl⟩ := List.getElem?_eq_some_iff.mp found
  have split : items.flatMap bytesOf =
      (items.take index).flatMap bytesOf ++
        (bytesOf items[index] ++ (items.drop (index + 1)).flatMap bytesOf) := by
    rw [← List.flatMap_cons, ← List.drop_eq_getElem_cons inside,
      ← List.flatMap_append, List.take_append_drop]
  rw [split, List.drop_left]
  exact List.prefix_append _ _

/-- Every byte is one of the bytes of an item. -/
theorem exists_of_lt_length_flatMap
    {position : Nat}
    (inside : position < (items.flatMap bytesOf).length) :
    ∃ index item byte, items[index]? = some item ∧
      byte < (bytesOf item).length ∧
      position = ((items.take index).flatMap bytesOf).length + byte := by
  induction items generalizing position with
  | nil =>
      cases inside
  | cons first rest inductionHypothesis =>
      by_cases here : position < (bytesOf first).length
      · exact ⟨0, first, position, rfl, here, (Nat.zero_add position).symm⟩
      · rw [List.flatMap_cons, List.length_append] at inside
        have later : position - (bytesOf first).length <
            (rest.flatMap bytesOf).length := by
          omega
        obtain ⟨index, item, byte, found, within, place⟩ :=
          inductionHypothesis later
        refine ⟨index + 1, item, byte, found, within, ?_⟩
        rw [List.take_succ_cons, List.flatMap_cons, List.length_append]
        omega

end Parts

theorem getElem?_of_isPrefix
    {part image : List UInt8}
    {position byte : Nat}
    (stands : part <+: image.drop position)
    (within : byte < part.length) :
    image[position + byte]? = part[byte]? := by
  obtain ⟨rest, shape⟩ := stands
  rw [← List.getElem?_drop, ← shape, List.getElem?_append_left within]

section Lengths

theorem length_flatMap_encode (operands : List Operand) :
    (operands.flatMap Operand.encode).length =
      Operand.Kind.totalSize (operands.map Operand.kind) := by
  induction operands with
  | nil =>
      rfl
  | cons operand rest inductionHypothesis =>
      rw [List.flatMap_cons, List.length_append, inductionHypothesis,
        Operand.length_encode, List.map_cons, Operand.Kind.totalSize]

theorem length_encode
    {opcode : Opcode}
    {operands : List Operand}
    (fits : operands.map Operand.kind = opcode.layout) :
    (encode opcode operands).length = opcode.size := by
  rw [encode, List.length_cons, length_flatMap_encode, fits, Opcode.size,
    Opcode.operandSize, Nat.add_comm]

theorem length_encodeEntries
    {entries : List Entry}
    (fits : ∀ entry ∈ entries,
      entry.operands.map Operand.kind = entry.opcode.layout) :
    (encodeEntries entries).length = sizeOf entries := by
  induction entries with
  | nil =>
      rfl
  | cons entry rest inductionHypothesis =>
      obtain ⟨first, later⟩ := List.forall_mem_cons.mp fits
      have restLength := inductionHypothesis later
      rw [encodeEntries] at restLength ⊢
      rw [List.flatMap_cons, List.length_append, length_encode first,
        restLength]
      rfl

end Lengths

/-- An operand stands behind the code byte and the operands before it. -/
theorem prefix_drop_encode
    {opcode : Opcode}
    {operands : List Operand}
    (fits : operands.map Operand.kind = opcode.layout)
    {argument : Nat}
    {operand : Operand}
    (found : operands[argument]? = some operand) :
    operand.encode <+:
      (encode opcode operands).drop
        (1 + Operand.Kind.totalSize (opcode.layout.take argument)) := by
  have stands := prefix_drop_flatMap Operand.encode found
  rw [length_flatMap_encode, List.map_take, fits] at stands
  rw [encode, Nat.add_comm, List.drop_succ_cons]
  exact stands

end RegisterMachine.Image
