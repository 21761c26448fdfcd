import Mathlib.Data.List.Infix
import RegisterMachine.Proofs.Assembly.Placement
import RegisterMachine.Proofs.Image.Position

namespace RegisterMachine.Assembly

/-!
# Words that stand for labels

A label that an instruction uses is a word of the image.  The word is the place
of the first line that defines the label, whether that line comes earlier or
later and whether it has an instruction or not, and at this place stands an
instruction or the end of the image.
-/

/--
At a position of the image begins the word of a label: an argument of an
instruction that is left, where the catalog asks for a word and the token is
neither a register nor a number.
-/
inductive LabelWord (lines : List (List Char))
    (slots : List (Option Image.Entry)) : Nat → String → Prop where
  | intro {index argument : Nat} {line : List Char} {entry : Image.Entry}
      {mnemonic token : Token} {arguments : List Token} :
      lines[index]? = some line →
      slots[index]? = some (some entry) →
      instructionTokens line = mnemonic :: arguments →
      arguments[argument]? = some token →
      entry.opcode.layout[argument]? = some .word →
      register? token.text = none →
      number? token.text = none →
      LabelWord lines slots
        (entry.offset + 1 +
          Operand.Kind.totalSize (entry.opcode.layout.take argument))
        token.text

/-- The bytes of a slot: those of its instruction, if it has one. -/
def slotBytes : Option Image.Entry → List UInt8
  | none => []
  | some entry => Image.encode entry.opcode entry.operands

section Slots

theorem flatMap_slotBytes (slots : List (Option Image.Entry)) :
    slots.flatMap slotBytes = Image.encodeEntries slots.reduceOption := by
  induction slots with
  | nil =>
      rfl
  | cons slot rest inductionHypothesis =>
      rw [List.flatMap_cons, inductionHypothesis]
      cases slot with
      | none =>
          rw [List.reduceOption_cons_of_none]
          rfl
      | some entry =>
          rw [List.reduceOption_cons_of_some]
          rfl

/-- The bytes of the slots before an index reach up to the start of its slot. -/
theorem length_flatMap_slotBytes
    {slots : List (Option Image.Entry)}
    (tiles : Image.Tiles 0 slots.reduceOption)
    (index : Nat) :
    ((slots.take index).flatMap slotBytes).length = startOf slots index := by
  rw [flatMap_slotBytes, Image.length_encodeEntries, startOf]
  intro entry member
  have inSlots : entry ∈ slots.reduceOption :=
    List.reduceOption_mem_iff.mpr
      (List.mem_of_mem_take (List.reduceOption_mem_iff.mp member))
  exact (tiles.fits_of_mem entry inSlots).1

/-- Every slot starts where some instruction stands or where the image ends. -/
theorem exists_entry_at_startOf
    {slots : List (Option Image.Entry)}
    (tiles : Image.Tiles 0 slots.reduceOption)
    (index : Nat) :
    (∃ entry ∈ slots.reduceOption, entry.offset = startOf slots index) ∨
      startOf slots index = Image.sizeOf slots.reduceOption := by
  have split := congrArg List.reduceOption (List.take_append_drop index slots)
  rw [List.reduceOption_append] at split
  cases behind : (slots.drop index).reduceOption with
  | nil =>
      right
      rw [behind, List.append_nil] at split
      rw [startOf, split]
  | cons entry rest =>
      left
      rw [behind] at split
      refine ⟨entry, by rw [← split]; simp, ?_⟩
      have found : slots.reduceOption[
          (slots.take index).reduceOption.length]? = some entry := by
        rw [← split, List.getElem?_append_right (Nat.le_refl _), Nat.sub_self]
        rfl
      rw [tiles.offset_eq found, Nat.zero_add, startOf, ← split, List.take_left]

end Slots

section Words

theorem DenoteAll.denotes_of_getElem?
    {address : String → Option Nat}
    {kinds : List Operand.Kind}
    {tokens : List Token}
    {operands : List Operand}
    (denoteAll : DenoteAll address kinds tokens operands)
    {argument : Nat}
    {kind : Operand.Kind}
    {token : Token}
    (asked : kinds[argument]? = some kind)
    (given : tokens[argument]? = some token) :
    ∃ operand, operands[argument]? = some operand ∧
      Denotes address kind token operand := by
  induction denoteAll generalizing argument with
  | nil =>
      cases asked
  | cons denotes _ inductionHypothesis =>
      cases argument with
      | zero =>
          cases asked
          cases given
          exact ⟨_, rfl, denotes⟩
      | succ argument =>
          exact inductionHypothesis asked given

/-- A label that an instruction uses has an address, which its word holds. -/
theorem LabelWord.prefix_drop
    {lines : List (List Char)}
    {slots : List (Option Image.Entry)}
    (placement : Placement lines slots)
    (tiles : Image.Tiles 0 slots.reduceOption)
    {position : Nat}
    {name : String}
    (labelWord : LabelWord lines slots position name) :
    ∃ address, addressIn lines slots name = some address ∧
      Word.toBytes (UInt64.ofNat address) <+:
        (slots.flatMap slotBytes).drop position := by
  obtain @⟨index, argument, line, entry, mnemonic, token, arguments, found,
    filled, shape, given, asked, notRegister, notNumber⟩ := labelWord
  obtain ⟨offset, instructs⟩ := placement.filled found filled
  obtain ⟨fits, _⟩ := instructs.fits
  rw [shape] at instructs
  obtain ⟨_, denoteAll⟩ := instructs
  obtain ⟨operand, holds, denotes⟩ :=
    denoteAll.denotes_of_getElem? asked given
  cases denotes with
  | number _ number =>
      rw [notNumber] at number
      cases number
  | @label _ address _ _ _ placed =>
      refine ⟨address, placed, ?_⟩
      have entryStands := Image.prefix_drop_flatMap slotBytes filled
      have operandStands := Image.prefix_drop_encode fits holds
      rw [length_flatMap_slotBytes tiles, ← offset] at entryStands
      have inside := List.IsPrefix.drop entryStands
        (1 + Operand.Kind.totalSize (entry.opcode.layout.take argument))
      rw [List.drop_drop, ← Nat.add_assoc] at inside
      exact operandStands.trans inside

end Words

/--
In an assembled image, the word of every label that an instruction uses is the
total size of the instructions on lines before the first line that defines the
label; in an image of fewer than 2^64 bytes the word is this size itself.  At
this place stands an instruction, or it is the end of the image.
-/
theorem wordAt?_image_of_assemble
    {source : String}
    {assembly : Assembled}
    (succeeded : assemble source = .ok assembly) :
    Placement (Text.lines source.toList) (slots source) ∧
      Image.decode assembly.image = .ok (slots source).reduceOption ∧
      ∀ position name,
        LabelWord (Text.lines source.toList) (slots source) position name →
        ∃ definition,
          (Text.lines source.toList).findIdx?
              (fun line => (namesDefined line).contains name) =
            some definition ∧
          Image.wordAt? assembly.image position =
            some (UInt64.ofNat (startOf (slots source) definition)) ∧
          ((∃ entry ∈ (slots source).reduceOption,
              entry.offset = startOf (slots source) definition) ∨
            startOf (slots source) definition = assembly.image.length) := by
  have assembled := assembleLines_readSource source
  simp only [assemble, assembled] at succeeded
  split at succeeded
  · cases succeeded
  · cases succeeded
    have tiles := tiles_slots source
    have decoded := Image.decodeFrom_encodeEntries tiles
    refine ⟨placement_slots source, decoded, ?_⟩
    intro position name labelWord
    obtain ⟨address, placed, stands⟩ :=
      labelWord.prefix_drop (placement_slots source) tiles
    obtain ⟨definition, first, rfl⟩ := Option.map_eq_some_iff.mp placed
    rw [flatMap_slotBytes] at stands
    refine ⟨definition, first, Image.wordAt?_of_isPrefix stands, ?_⟩
    have length := (Image.encodeEntries_of_decodeFrom decoded).1
    rw [length]
    exact exists_entry_at_startOf tiles definition

/--
A source that uses a label before and behind its definitions.  The line that
defines it first has an instruction that is skipped, and a second definition
follows.
-/
private def skippedDefinition : String :=
  "LOAD R0, tail\nINC R1\ntail: bogus\nHALT\ntail: INC R2\nLOAD R3, tail"

/-- Both words are the place of the skipped line, behind twelve bytes. -/
theorem wordAt?_image_of_assemble_skippedDefinition :
    ∃ assembly, assemble skippedDefinition = .ok assembly ∧
      Image.wordAt? assembly.image 2 = some 12 ∧
      Image.wordAt? assembly.image 17 = some 12 := by
  have computed : (assemble skippedDefinition).toOption.isSome = true := by
    decide +kernel
  cases result : assemble skippedDefinition with
  | error failure =>
      rw [result] at computed
      cases computed
  | ok assembly =>
      obtain ⟨_, _, words⟩ := wordAt?_image_of_assemble result
      have wordAt : ∀ position,
          LabelWord (Text.lines skippedDefinition.toList)
              (slots skippedDefinition) position "tail" →
            Image.wordAt? assembly.image position = some 12 := by
        intro position labelWord
        obtain ⟨definition, first, word, _⟩ := words position "tail" labelWord
        have third :
            (Text.lines skippedDefinition.toList).findIdx?
              (fun line => (namesDefined line).contains "tail") = some 2 := by
          decide +kernel
        rw [third] at first
        cases first
        have place : startOf (slots skippedDefinition) 2 = 12 := by
          decide +kernel
        rw [place] at word
        exact word
      have before := @LabelWord.intro (Text.lines skippedDefinition.toList)
        (slots skippedDefinition) 0 1 "LOAD R0, tail".toList
        ⟨0, .load, [.register 0, .word 12]⟩ ⟨"LOAD", 1⟩ ⟨"tail", 10⟩
        [⟨"R0", 6⟩, ⟨"tail", 10⟩] (by decide +kernel) (by decide +kernel)
        (by decide +kernel) rfl rfl (by decide +kernel) (by decide +kernel)
      have behind := @LabelWord.intro (Text.lines skippedDefinition.toList)
        (slots skippedDefinition) 5 1 "LOAD R3, tail".toList
        ⟨15, .load, [.register 3, .word 12]⟩ ⟨"LOAD", 1⟩ ⟨"tail", 10⟩
        [⟨"R3", 6⟩, ⟨"tail", 10⟩] (by decide +kernel) (by decide +kernel)
        (by decide +kernel) rfl rfl (by decide +kernel) (by decide +kernel)
      exact ⟨assembly, rfl, wordAt 2 before, wordAt 17 behind⟩

end RegisterMachine.Assembly
