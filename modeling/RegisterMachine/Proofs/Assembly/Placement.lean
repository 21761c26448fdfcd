import RegisterMachine.Proofs.Assembly.Denotation
import RegisterMachine.Proofs.Assembly.Layout

namespace RegisterMachine.Assembly

/-!
# Where the lines of a source are placed

An assembled image is described from its source alone: every line whose tokens
stand for an instruction has one entry, in the order of the lines, and a label
stands for the total size of the entries on lines before the one that defines
it first.  The main statement is that decoding an assembled image gives back
exactly these entries.
-/

/-- The tokens of a line behind its label definitions. -/
def instructionTokens (line : List Char) : List Token :=
  (tokens line).dropWhile fun token => isDefinition token.text

/-- The valid names that a line defines as labels. -/
def namesDefined (line : List Char) : List String :=
  (((tokens line).takeWhile fun token => isDefinition token.text).map
    fun token => definedName token.text).filter isLabelName

/-- Where a slot starts: behind all entries in the slots before it. -/
def startOf (slots : List (Option Image.Entry)) (index : Nat) : Nat :=
  Image.sizeOf (slots.take index).reduceOption

/-- The address of a label: where the first line starts that defines its name. -/
def addressIn (lines : List (List Char)) (slots : List (Option Image.Entry))
    (name : String) : Option Nat :=
  (lines.findIdx? fun line => (namesDefined line).contains name).map
    (startOf slots)

/--
One slot for each line.  A filled slot holds the instruction that the line
stands for, at its offset; a line with an empty slot stands for none.
-/
structure Placement (lines : List (List Char))
    (slots : List (Option Image.Entry)) : Prop where
  sameLength :
    slots.length = lines.length
  filled :
    ∀ {index : Nat} {line : List Char} {entry : Image.Entry},
      lines[index]? = some line →
      slots[index]? = some (some entry) →
      entry.offset = startOf slots index ∧
        Instructs (addressIn lines slots) (instructionTokens line)
          entry.opcode entry.operands
  empty :
    ∀ {index : Nat} {line : List Char},
      lines[index]? = some line →
      slots[index]? = some none →
      ∀ opcode operands,
        ¬ Instructs (addressIn lines slots) (instructionTokens line)
            opcode operands

/-- An entry starts inside the image or at its end. -/
theorem startOf_le
    (slots : List (Option Image.Entry))
    (index : Nat) :
    startOf slots index ≤ Image.sizeOf slots.reduceOption := by
  have split := congrArg List.reduceOption (List.take_append_drop index slots)
  rw [List.reduceOption_append] at split
  rw [startOf, ← split, Image.sizeOf, Image.sizeOf, List.map_append,
    List.sum_append]
  exact Nat.le_add_right _ _

section Reading

theorem getElem?_readSource
    (source : String)
    (index : Nat) :
    (readSource source)[index]? =
      (Text.lines source.toList)[index]?.map (readLine (1 + index)) := by
  rw [readSource, List.getElem?_map, List.getElem?_zipIdx, Option.map_map]
  rfl

theorem text_definitions_readLine
    (number : Nat)
    (line : List Char) :
    (readLine number line).definitions.map Token.text = namesDefined line := by
  rw [Line.definitions, readLine, readTokens, namesDefined, List.filter_map,
    List.filter_map, List.map_map]
  rfl

/-- A name is first defined by the same line before and after reading. -/
theorem findIdx?_defines
    (source name : String) :
    (resolve (readSource source)).findIdx? (Line.defines name) =
      (Text.lines source.toList).findIdx?
        fun line => (namesDefined line).contains name := by
  have numbered :
      (Text.lines source.toList).findIdx?
          (fun line => (namesDefined line).contains name) =
        ((Text.lines source.toList).zipIdx 1).findIdx?
          ((fun line => (namesDefined line).contains name) ∘ Prod.fst) := by
    rw [← List.findIdx?_map, List.zipIdx_map_fst]
  rw [numbered, resolve, List.findIdx?_map, readSource, List.findIdx?_map]
  congr 1
  funext numberedLine
  obtain ⟨line, number⟩ := numberedLine
  simp only [Function.comp_apply, Line.defines, definitions_resolve,
    text_definitions_readLine]

end Reading

section Placing

variable (source : String)

/-- The offsets of the labels of a source. -/
def labelOffsets : List (String × Nat) :=
  offsetsFrom 0 (resolve (readSource source))

/-- The slots of the lines of a source. -/
def slots : List (Option Image.Entry) :=
  slotsFrom (labelOffsets source) 0 (resolve (readSource source))

theorem isSome_labelOffsets_iff
    (name : String) :
    (offsetOf? (labelOffsets source) name).isSome ↔
      name ∈ definedNames (readSource source) := by
  rw [labelOffsets, isSome_offsetOf?_iff, definedNames_resolve]

/-- Every line that is left uses only labels that have an offset. -/
theorem isPlaced_resolve :
    ∀ line ∈ resolve (readSource source),
      line.IsPlaced (labelOffsets source) :=
  isPlaced_of_mem_resolve (readSource source)

/-- A label stands for the address that the placement gives it. -/
theorem offsetOf?_labelOffsets :
    offsetOf? (labelOffsets source) =
      addressIn (Text.lines source.toList) (slots source) := by
  funext name
  rw [labelOffsets, lookup_offsetsFrom, findIdx?_defines, addressIn]
  congr 1
  funext index
  rw [Nat.zero_add, startOf, slots,
    sizeOf_take_slotsFrom (isPlaced_resolve source)]

/-- The slot of a line holds the entry of the line as it was resolved. -/
theorem getElem?_slots
    {index : Nat}
    {line : List Char}
    (found : (Text.lines source.toList)[index]? = some line) :
    (slots source)[index]? =
      some (((readLine (1 + index) line).resolve
        (definedNames (readSource source))).slot (labelOffsets source)
          (startOf (slots source) index)) := by
  rw [startOf, slots, sizeOf_take_slotsFrom (isPlaced_resolve source),
    getElem?_slotsFrom, Nat.zero_add, resolve, List.getElem?_map,
    getElem?_readSource, found]
  rfl

private theorem instructs_of_resolve
    {number : Nat}
    {line : List Char}
    {statement : Statement}
    {operands : List Operand}
    (holds :
      ((readLine number line).resolve
        (definedNames (readSource source))).statement? = some statement)
    (resolved :
      operandsOf (labelOffsets source) statement.operands = .ok operands) :
    Instructs (offsetOf? (labelOffsets source)) (instructionTokens line)
      statement.opcode operands := by
  obtain ⟨body, _⟩ := statement?_resolve_iff.mp holds
  exact (instructs_iff number).mpr ⟨statement, body, rfl, resolved⟩

/-- The slots of a source place its lines. -/
theorem placement_slots :
    Placement (Text.lines source.toList) (slots source) := by
  refine ⟨?_, ?_, ?_⟩
  · have length : ∀ lines offset,
        (slotsFrom (labelOffsets source) offset lines).length =
          lines.length := by
      intro lines
      induction lines with
      | nil =>
          exact fun _ => rfl
      | cons line rest inductionHypothesis =>
          exact fun offset => congrArg Nat.succ (inductionHypothesis _)
    rw [slots, length, resolve, List.length_map, readSource, List.length_map,
      List.length_zipIdx]
  · intro index line entry found filled
    rw [getElem?_slots source found, Option.some.injEq, Line.slot] at filled
    obtain ⟨statement, holds, made⟩ := Option.bind_eq_some_iff.mp filled
    obtain ⟨operands, resolved⟩ :=
      (exists_operandsOf_iff (isSome_labelOffsets_iff source)).mpr
        (statement?_resolve_iff.mp holds).2
    rw [resolved] at made
    cases made
    rw [← offsetOf?_labelOffsets]
    exact ⟨rfl, instructs_of_resolve source holds resolved⟩
  · intro index line found empty opcode operands instructs
    rw [← offsetOf?_labelOffsets] at instructs
    obtain ⟨statement, body, _, resolved⟩ :=
      (instructs_iff (1 + index)).mp instructs
    have usesDefined :=
      (exists_operandsOf_iff (isSome_labelOffsets_iff source)).mp
        ⟨operands, resolved⟩
    have holds :
        ((readLine (1 + index) line).resolve
          (definedNames (readSource source))).statement? = some statement :=
      statement?_resolve_iff.mpr ⟨body, usesDefined⟩
    rw [getElem?_slots source found, Line.slot, holds, Option.bind_some,
      resolved] at empty
    cases empty

/-- The filled slots of a source are a tiling from its start on. -/
theorem tiles_slots :
    Image.Tiles 0 (slots source).reduceOption := by
  apply tiles_slotsFrom (isPlaced_resolve source)
  intro line member statement operands holds resolved
  obtain ⟨read, readMember, rfl⟩ := List.mem_map.mp member
  obtain ⟨numberedLine, _, rfl⟩ := List.mem_map.mp readMember
  exact (instructs_of_resolve source holds resolved).fits

/-- Lines that do not end the assembly give the image of their slots. -/
theorem assembleLines_readSource :
    assembleLines (readSource source) =
      .ok ⟨Image.encodeEntries (slots source).reduceOption,
        errorsFrom [] (resolve (readSource source))⟩ :=
  assembleLines_eq_ok (readSource source)

end Placing

/--
Assembling never meets a label without an offset.  An assembled image decodes,
to exactly the instructions that the lines of the source stand for: one entry
for each such line, in their order and one behind the other, with the operands
that the tokens of the line stand for.  No address is behind the image, so a
label word is the address itself in every image of fewer than 2^64 bytes.
-/
theorem decode_image_of_assemble
    (source : String) :
    (∀ label, assemble source ≠ .error (.unplaced label)) ∧
      ∀ assembly, assemble source = .ok assembly →
        ∃ slots, Placement (Text.lines source.toList) slots ∧
          Image.decode assembly.image = .ok slots.reduceOption ∧
          assembly.image.length = Image.sizeOf slots.reduceOption ∧
          ∀ name address,
            addressIn (Text.lines source.toList) slots name = some address →
              address ≤ assembly.image.length := by
  have assembled := assembleLines_readSource source
  constructor
  · intro label unplaced
    simp only [assemble, assembled] at unplaced
    split at unplaced <;> cases unplaced
  · intro assembly succeeded
    simp only [assemble, assembled] at succeeded
    split at succeeded
    · cases succeeded
    · cases succeeded
      have decoded := Image.decodeFrom_encodeEntries (tiles_slots source)
      have length := (Image.encodeEntries_of_decodeFrom decoded).1
      refine ⟨slots source, placement_slots source, decoded, length, ?_⟩
      intro name address found
      obtain ⟨index, _, rfl⟩ := Option.map_eq_some_iff.mp found
      rw [length]
      exact startOf_le _ _

/--
A source with a label before its definition, an alias, an unknown mnemonic and
an undefined label: the second and the fourth line are skipped.
-/
private def mixedSource : String :=
  "start: INC R0\nbogus R1\nLOAD R1, end\nLOAD R2, missing\nend: JMP r1"

private def mixedAssembly : Assembled where
  image := [9, 0, 1, 1, 12, 0, 0, 0, 0, 0, 0, 0, 16, 1]
  diagnostics :=
    [⟨2, 1, .unknownMnemonic "bogus"⟩, ⟨4, 10, .undefinedLabel "missing"⟩]

/-- The image of the mixed source decodes to the instructions of its lines. -/
theorem decode_image_of_assemble_mixedSource :
    assemble mixedSource = .ok mixedAssembly ∧
      ∃ slots, Placement (Text.lines mixedSource.toList) slots ∧
        Image.decode mixedAssembly.image = .ok slots.reduceOption ∧
        Image.sizeOf slots.reduceOption = 14 := by
  have computed : (assemble mixedSource).toOption = some mixedAssembly := by
    decide +kernel
  have assembled : assemble mixedSource = .ok mixedAssembly := by
    cases result : assemble mixedSource with
    | error failure =>
        rw [result] at computed
        cases computed
    | ok assembly =>
        rw [result] at computed
        exact congrArg Except.ok (Option.some.inj computed)
  obtain ⟨slots, placement, decoded, length, _⟩ :=
    (decode_image_of_assemble mixedSource).2 mixedAssembly assembled
  exact ⟨assembled, slots, placement, decoded, length.symm⟩

end RegisterMachine.Assembly
