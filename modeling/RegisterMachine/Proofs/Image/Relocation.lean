import RegisterMachine.Proofs.Image.Position

namespace RegisterMachine.Image

/-!
# Relocated images

An image is relocated by adding a distance to the words at some positions.  The
other bytes stay as they are, so that the positions and the distance determine
the relocated image.  An image made of parts is relocated part by part
(`Relocated.flatMap`).
-/

/-- An image after a distance was added to the words at positions. -/
structure Relocated (distance : UInt64) (positions : Nat → Prop)
    (before after : List UInt8) : Prop where
  sameLength :
    after.length = before.length
  moved :
    ∀ position, positions position →
      ∃ value, wordAt? before position = some value ∧
        wordAt? after position = some (value + distance)
  kept :
    ∀ position,
      (∀ start, positions start →
        position < start ∨ start + Word.byteCount ≤ position) →
      after[position]? = before[position]?

/-- A word of a part is a word of the image that the part stands in. -/
theorem wordAt?_of_part
    {part image : List UInt8}
    {start position : Nat}
    {value : UInt64}
    (stands : part <+: image.drop start)
    (found : wordAt? part position = some value) :
    wordAt? image (start + position) = some value := by
  obtain ⟨inside, read⟩ := Option.ite_some_none_eq_some.mp found
  obtain ⟨rest, shape⟩ := stands
  have length := congrArg List.length shape
  rw [List.length_append, List.length_drop] at length
  have positive : 0 < Word.byteCount := by decide
  have sameBytes :
      (image.drop (start + position)).take Word.byteCount =
        (part.drop position).take Word.byteCount := by
    rw [← List.drop_drop, ← shape, List.drop_append_of_le_length (by omega),
      List.take_append_of_le_length]
    rw [List.length_drop]
    omega
  rw [wordAt?, if_pos (by omega), sameBytes, read]

/-- An image with no positions to move is its own relocation. -/
theorem Relocated.refl
    (distance : UInt64)
    (image : List UInt8) :
    Relocated distance (fun _ => False) image image where
  sameLength := rfl
  moved := nofun
  kept := fun _ _ => rfl

theorem Relocated.congr
    {distance : UInt64}
    {positions others : Nat → Prop}
    {before after : List UInt8}
    (same : ∀ position, positions position ↔ others position)
    (relocated : Relocated distance positions before after) :
    Relocated distance others before after where
  sameLength := relocated.sameLength
  moved := fun position other => relocated.moved position ((same position).mpr other)
  kept := fun position outside =>
    relocated.kept position fun start found => outside start ((same start).mp found)

/-- A word alone is relocated at its start. -/
theorem relocated_toBytes
    (value distance : UInt64) :
    Relocated distance (· = 0) (Word.toBytes value)
      (Word.toBytes (value + distance)) where
  sameLength := by
    rw [Word.length_toBytes, Word.length_toBytes]
  moved := by
    rintro _ rfl
    exact ⟨value, wordAt?_of_isPrefix (List.prefix_refl _),
      wordAt?_of_isPrefix (List.prefix_refl _)⟩
  kept := by
    intro position outside
    have behind : Word.byteCount ≤ position := by
      have apart := outside 0 rfl
      omega
    rw [List.getElem?_eq_none, List.getElem?_eq_none] <;>
      rwa [Word.length_toBytes]

section Parts

variable {α : Type} (items : List α) {before after : α → List UInt8}
  {positions : α → Nat → Prop} {distance : UInt64}

/-- A joining of parts is relocated where its parts are. -/
theorem Relocated.flatMap
    (parts : ∀ item ∈ items,
      Relocated distance (positions item) (before item) (after item)) :
    Relocated distance
      (fun position => ∃ index item start, items[index]? = some item ∧
        positions item start ∧
        position = ((items.take index).flatMap before).length + start)
      (items.flatMap before) (items.flatMap after) := by
  -- Parts keep their lengths, so that each starts at one place in both images.
  have sameLength : ∀ others : List α, (∀ item ∈ others, item ∈ items) →
      (others.flatMap after).length = (others.flatMap before).length := by
    intro others subset
    rw [List.length_flatMap, List.length_flatMap]
    congr 1
    exact List.map_congr_left fun item member =>
      (parts item (subset item member)).sameLength
  have samePlace : ∀ index,
      ((items.take index).flatMap after).length =
        ((items.take index).flatMap before).length := fun index =>
    sameLength _ fun _ member => List.mem_of_mem_take member
  refine ⟨sameLength items fun _ member => member, ?_, ?_⟩
  · rintro _ ⟨index, item, start, found, labelled, rfl⟩
    obtain ⟨value, wordBefore, wordAfter⟩ :=
      (parts item (List.mem_of_getElem? found)).moved start labelled
    refine ⟨value, ?_, ?_⟩
    · exact wordAt?_of_part (prefix_drop_flatMap before found) wordBefore
    · rw [← samePlace]
      exact wordAt?_of_part (prefix_drop_flatMap after found) wordAfter
  · intro position outside
    by_cases inside : position < (items.flatMap before).length
    · obtain ⟨index, item, byte, found, within, rfl⟩ :=
        exists_of_lt_length_flatMap before inside
      have part := parts item (List.mem_of_getElem? found)
      have stands := prefix_drop_flatMap after found
      rw [samePlace] at stands
      rw [getElem?_of_isPrefix (prefix_drop_flatMap before found) within,
        getElem?_of_isPrefix stands (part.sameLength ▸ within)]
      apply part.kept
      intro start labelled
      have apart := outside _ ⟨index, item, start, found, labelled, rfl⟩
      omega
    · have sameWhole := sameLength items fun _ member => member
      rw [List.getElem?_eq_none (by omega), List.getElem?_eq_none (by omega)]

end Parts

/-- Bytes before an image move the positions of its words. -/
theorem Relocated.append_left
    {distance : UInt64}
    {positions : Nat → Prop}
    {before after : List UInt8}
    (relocated : Relocated distance positions before after)
    (front : List UInt8) :
    Relocated distance
      (fun position => ∃ start, positions start ∧ position = front.length + start)
      (front ++ before) (front ++ after) where
  sameLength := by
    rw [List.length_append, List.length_append, relocated.sameLength]
  moved := by
    rintro _ ⟨start, labelled, rfl⟩
    obtain ⟨value, wordBefore, wordAfter⟩ := relocated.moved start labelled
    have stands : ∀ image : List UInt8,
        image <+: (front ++ image).drop front.length := fun image =>
      List.drop_left ▸ List.prefix_refl image
    exact ⟨value, wordAt?_of_part (stands before) wordBefore,
      wordAt?_of_part (stands after) wordAfter⟩
  kept := by
    intro position outside
    by_cases inside : position < front.length
    · rw [List.getElem?_append_left inside, List.getElem?_append_left inside]
    · rw [List.getElem?_append_right (by omega),
        List.getElem?_append_right (by omega)]
      apply relocated.kept
      intro start labelled
      have apart := outside _ ⟨start, labelled, rfl⟩
      omega

end RegisterMachine.Image
