import RegisterMachine.Proofs.Assembly.Placement
import RegisterMachine.Proofs.Assembly.Words
import RegisterMachine.Proofs.Text.Line

namespace RegisterMachine.Assembly

/-!
# Assembling the text of an image

The text of a decoded image has one line for each entry.  Reading that line
gives the instruction of the entry, with plain operands and without a label, so
that nothing is skipped and the slots of the source are the entries themselves.
-/

/-- The line that the text of a numbered entry is read as. -/
def lineOf (numbered : Image.Entry × Nat) : Line where
  number := numbered.2
  labels := []
  body := .statement ⟨numbered.1.opcode, numbered.1.operands.map .value⟩

section Reading

/-- The text of an entry is its mnemonic, then a blank before each operand. -/
theorem toList_text (entry : Image.Entry) :
    entry.text.toList =
      entry.opcode.mnemonic.toList ++
        (entry.operands.map Operand.text).flatMap
          fun word => ' ' :: word.toList := by
  rw [Image.Entry.text, String.toList_join, List.flatMap_cons,
    List.flatMap_map, List.flatMap_map]
  congr 2
  funext operand
  rw [String.toList_append]
  rfl

theorem text_tokens_text (entry : Image.Entry) :
    (tokens entry.text.toList).map Token.text =
      entry.opcode.mnemonic :: entry.operands.map Operand.text := by
  rw [toList_text]
  apply text_tokens_words (isWord_mnemonic entry.opcode)
  intro word member
  obtain ⟨operand, _, rfl⟩ := List.mem_map.mp member
  exact isWord_text operand

/-- The text of an entry is one line, and not an empty one. -/
theorem text_ne_nil_and_clean (entry : Image.Entry) :
    entry.text.toList ≠ [] ∧
      '\n' ∉ entry.text.toList ∧ '\r' ∉ entry.text.toList := by
  obtain ⟨notEmpty, named⟩ := isWord_mnemonic entry.opcode
  have plain : ∀ character ∈ entry.text.toList,
      character = ' ' ∨ isNameCharacter character = true := by
    intro character member
    rw [toList_text] at member
    rcases List.mem_append.mp member with inMnemonic | inOperands
    · exact .inr (named character inMnemonic)
    · obtain ⟨word, inWords, inWord⟩ := List.mem_flatMap.mp inOperands
      obtain ⟨operand, _, rfl⟩ := List.mem_map.mp inWords
      rcases List.mem_cons.mp inWord with blank | inside
      · exact .inl blank
      · exact .inr ((isWord_text operand).2 character inside)
  refine ⟨?_, ?_, ?_⟩
  · rw [toList_text]
    exact List.append_ne_nil_of_left_ne_nil notEmpty _
  · intro member
    rcases plain '\n' member with isBlank | isNamed
    · cases isBlank
    · exact (plain_of_isNameCharacter isNamed).2.2.1 rfl
  · intro member
    rcases plain '\r' member with isBlank | isNamed
    · cases isBlank
    · exact (plain_of_isNameCharacter isNamed).2.2.2.1 rfl

/-- Only values have operands when no label has an offset. -/
theorem eq_map_value_of_operandsOf_nil
    {references : List Reference}
    {operands : List Operand}
    (resolved : operandsOf [] references = .ok operands) :
    references = operands.map .value := by
  induction references generalizing operands with
  | nil =>
      cases resolved
      rfl
  | cons reference rest inductionHypothesis =>
      cases reference with
      | label token =>
          cases resolved
      | value operand =>
          obtain ⟨_, others, here, later, rfl⟩ :=
            operandsOf_cons_eq_ok_iff.mp resolved
          cases here
          rw [inductionHypothesis later, List.map_cons]

/-- Tokens that show an entry are read as the instruction of the entry. -/
theorem readTokens_of_text
    {entry : Image.Entry}
    (fits : entry.operands.map Operand.kind = entry.opcode.layout)
    (direct : ∀ operand ∈ entry.operands, operand.IsDirect)
    {line : List Token}
    (shown :
      line.map Token.text =
        entry.opcode.mnemonic :: entry.operands.map Operand.text)
    (number : Nat) :
    readTokens number line = lineOf (entry, number) := by
  obtain ⟨mnemonic, arguments, rfl, named, operandsShown⟩ :=
    List.map_eq_cons_iff.mp shown
  have notDefinition : isDefinition mnemonic.text = false := by
    rw [named]
    exact isDefinition_of_isWord (isWord_mnemonic entry.opcode)
  have denoteAll :
      DenoteAll (offsetOf? []) (entry.operands.map Operand.kind) arguments
        entry.operands :=
    denoteAll_text direct operandsShown
  rw [fits] at denoteAll
  have instructs :
      Instructs (offsetOf? []) (mnemonic :: arguments) entry.opcode
        entry.operands :=
    .intro (by rw [named, ofName?_mnemonic]) denoteAll
  obtain ⟨⟨opcode, references⟩, body, rfl, resolved⟩ :=
    (instructs_iff number).mp instructs
  obtain rfl := eq_map_value_of_operandsOf_nil resolved
  rw [readTokens_cons_of_not_isDefinition number mnemonic arguments notDefinition,
    body, lineOf]

theorem lines_sourceText (entries : List Image.Entry) :
    Text.lines (Image.sourceText entries).toList =
      entries.map fun entry => entry.text.toList := by
  rw [Image.sourceText, String.toList_intercalate, List.map_map]
  apply Text.lines_intercalate
  intro text member
  obtain ⟨entry, _, rfl⟩ := List.mem_map.mp member
  exact text_ne_nil_and_clean entry

/-- The text of a tiling is read as the lines of its entries. -/
theorem readSource_sourceText
    {offset : Nat}
    {entries : List Image.Entry}
    (tiles : Image.Tiles offset entries) :
    readSource (Image.sourceText entries) =
      (entries.zipIdx 1).map lineOf := by
  rw [readSource, lines_sourceText, List.zipIdx_map, List.map_map]
  apply List.map_congr_left
  intro numbered member
  obtain ⟨fits, direct⟩ :=
    tiles.fits_of_mem numbered.1 (List.fst_mem_of_mem_zipIdx member)
  exact readTokens_of_text fits direct (text_tokens_text numbered.1) numbered.2

end Reading

section Placing

theorem operandsOf_map_value
    (offsets : List (String × Nat))
    (operands : List Operand) :
    operandsOf offsets (operands.map .value) = .ok operands := by
  induction operands with
  | nil =>
      rfl
  | cons operand rest inductionHypothesis =>
      rw [List.map_cons, operandsOf, Reference.operand, inductionHypothesis]

/-- A line with the instruction of an entry is left as it is, whatever its labels. -/
theorem resolve_of_body
    {line : Line}
    {numbered : Image.Entry × Nat}
    (body : line.body = (lineOf numbered).body)
    (defined : List String) :
    line.resolve defined = line := by
  have noneUndefined :
      Statement.undefined? defined
        ⟨numbered.1.opcode, numbered.1.operands.map .value⟩ = none := by
    rw [Statement.undefined?, List.findSome?_eq_none_iff]
    intro reference member
    obtain ⟨operand, _, rfl⟩ := List.mem_map.mp member
    rfl
  rw [Line.resolve, body]
  simp only [lineOf, noneUndefined]

variable {read : Image.Entry × Nat → Line}

/-- The slots of lines with the instructions of a tiling are its entries. -/
theorem slotsFrom_map
    (bodies : ∀ numbered, (read numbered).body = (lineOf numbered).body)
    {offset : Nat}
    {entries : List Image.Entry}
    (tiles : Image.Tiles offset entries)
    (offsets : List (String × Nat))
    (first : Nat) :
    slotsFrom offsets offset ((entries.zipIdx first).map read) =
      entries.map some := by
  have statement? : ∀ numbered,
      (read numbered).statement? =
        some ⟨numbered.1.opcode, numbered.1.operands.map .value⟩ := by
    intro numbered
    rw [Line.statement?, bodies]
    rfl
  induction tiles generalizing first with
  | nil =>
      rfl
  | cons _ _ _ inductionHypothesis =>
      rw [List.zipIdx_cons, List.map_cons, slotsFrom, List.map_cons]
      congr 1
      · simp only [Line.slot, statement?, Option.bind_some, operandsOf_map_value]
        rfl
      · rw [Line.size, statement?]
        exact inductionHypothesis (first + 1)

theorem abortion?_eq_none
    {lines : List Line}
    (accepted : ∀ line ∈ lines, line.rejection? = none) :
    abortion? lines = none := by
  rw [abortion?_eq_none_iff]
  intro line member
  rw [Line.fatal?, accepted line member]
  rfl

theorem errorsFrom_eq_nil
    {lines : List Line}
    (accepted : ∀ line ∈ lines, line.rejection? = none)
    (unlabelled : ∀ line ∈ lines, line.labels = [])
    (earlier : List String) :
    errorsFrom earlier lines = [] := by
  induction lines generalizing earlier with
  | nil =>
      rfl
  | cons line rest inductionHypothesis =>
      obtain ⟨first, later⟩ := List.forall_mem_cons.mp accepted
      obtain ⟨noLabels, laterLabels⟩ := List.forall_mem_cons.mp unlabelled
      rw [errorsFrom, noLabels, first, inductionHypothesis later laterLabels]
      rfl

theorem rejection?_of_body
    {line : Line}
    {numbered : Image.Entry × Nat}
    (body : line.body = (lineOf numbered).body) :
    line.rejection? = none := by
  rw [Line.rejection?, body]
  rfl

/--
A source that is read as the instructions of a tiling, whatever its labels, gives
the bytes of the tiling, and only its labels can be in error.
-/
theorem assemble_of_bodies
    (bodies : ∀ numbered, (read numbered).body = (lineOf numbered).body)
    {source : String}
    {entries : List Image.Entry}
    (tiles : Image.Tiles 0 entries)
    (lines : readSource source = (entries.zipIdx 1).map read) :
    resolve (readSource source) = (entries.zipIdx 1).map read ∧
      assemble source =
        .ok ⟨Image.encodeEntries entries,
          errorsFrom [] ((entries.zipIdx 1).map read)⟩ := by
  have resolved :
      resolve (readSource source) = (entries.zipIdx 1).map read := by
    rw [lines, resolve, List.map_map]
    exact List.map_congr_left fun numbered _ => resolve_of_body (bodies numbered) _
  have filled : (slots source).reduceOption = entries := by
    rw [slots, resolved, slotsFrom_map bodies tiles, List.reduceOption,
      List.filterMap_map]
    exact List.filterMap_some
  have notAborted : abortion? (readSource source) = none := by
    rw [lines]
    apply abortion?_eq_none
    intro line member
    obtain ⟨numbered, _, rfl⟩ := List.mem_map.mp member
    exact rejection?_of_body (bodies numbered)
  refine ⟨resolved, ?_⟩
  simp only [assemble, notAborted]
  rw [assembleLines_readSource, filled, resolved]

end Placing

/--
The text of a decoded image assembles without a diagnostic.  The bytes are
those of the decoded image with the unused bits of its register operands
cleared, and they decode to the same entries.
-/
theorem assemble_sourceText
    {bytes : List UInt8}
    {entries : List Image.Entry}
    (decoded : Image.decode bytes = .ok entries) :
    ∃ image, assemble (Image.sourceText entries) = .ok ⟨image, []⟩ ∧
      image = List.zipWith Image.clearUnused bytes
        (Image.registerFlags entries) ∧
      image.length = bytes.length ∧
      Image.decode image = .ok entries := by
  have tiles := Image.tiles_of_decodeFrom decoded
  obtain ⟨length, encoded⟩ := Image.encodeEntries_of_decodeFrom decoded
  have again := Image.decodeFrom_encodeEntries tiles
  obtain ⟨_, assembled⟩ :=
    assemble_of_bodies (fun _ => rfl) tiles (readSource_sourceText tiles)
  have accepted :
      ∀ line ∈ (entries.zipIdx 1).map lineOf, line.rejection? = none := by
    intro line member
    obtain ⟨numbered, _, rfl⟩ := List.mem_map.mp member
    rfl
  have unlabelled :
      ∀ line ∈ (entries.zipIdx 1).map lineOf, line.labels = [] := by
    intro line member
    obtain ⟨numbered, _, rfl⟩ := List.mem_map.mp member
    rfl
  refine ⟨Image.encodeEntries entries, ?_, encoded, ?_, again⟩
  · rw [assembled, errorsFrom_eq_nil accepted unlabelled]
  · rw [length]
    exact (Image.encodeEntries_of_decodeFrom again).1

/--
An image whose two register operands have unused bits, which assembling its
text clears, and whose word is the largest one.
-/
private def unmaskedImage : List UInt8 :=
  [1, 249, 255, 255, 255, 255, 255, 255, 255, 255, 9, 10]

private def unmaskedEntries : List Image.Entry :=
  [⟨0, .load, [.register 1, .word 18446744073709551615]⟩,
    ⟨10, .inc, [.register 2]⟩]

/-- The text of the image assembles to the image with the unused bits cleared. -/
theorem assemble_sourceText_unmaskedImage :
    Image.decode unmaskedImage = .ok unmaskedEntries ∧
      assemble (Image.sourceText unmaskedEntries) =
        .ok ⟨[1, 1, 255, 255, 255, 255, 255, 255, 255, 255, 9, 2], []⟩ := by
  have decoded : Image.decode unmaskedImage = .ok unmaskedEntries := by
    cbv
  obtain ⟨image, assembled, cleared, _⟩ := assemble_sourceText decoded
  have computed :
      List.zipWith Image.clearUnused unmaskedImage
          (Image.registerFlags unmaskedEntries) =
        [1, 1, 255, 255, 255, 255, 255, 255, 255, 255, 9, 2] := by
    decide
  rw [cleared, computed] at assembled
  exact ⟨decoded, assembled⟩

end RegisterMachine.Assembly
