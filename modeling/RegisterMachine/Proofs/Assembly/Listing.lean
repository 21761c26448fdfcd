import RegisterMachine.Proofs.Assembly.Reassembly

namespace RegisterMachine.Assembly

/-!
# Assembling a listing

A listing shows each instruction of an image behind its offset and a colon, which
an assembler reads as the definition of a label.  An offset is written with at
least four hexadecimal digits, so that it is a label name exactly when its first
digit is a letter; from 40960 bytes on both kinds occur.  Either way the
instructions are read as in the text of the image, and the listing gives the
image again.
-/

/-- The offset of an entry as a listing shows it. -/
def shownOffset (entry : Image.Entry) : String :=
  Text.Numeral.hex 4 entry.offset

/-- Whether a text starts with a decimal digit. -/
def startsWithDigit (text : String) : Bool :=
  text.toList.head?.any Char.isDigit

/-- The report about an offset that is no label name, on the line of its entry. -/
def misnamedOffset (numbered : Image.Entry × Nat) : Diagnostic :=
  ⟨numbered.2, 1, .invalidLabel (shownOffset numbered.1)⟩

/-- The line that the line of a listing is read as. -/
def listedLine (numbered : Image.Entry × Nat) : Line :=
  { lineOf numbered with labels := [⟨shownOffset numbered.1, 1⟩] }

section Offsets

private theorem named_digitChar :
    ∀ digit < 16,
      isNameCharacter (Nat.digitChar digit) = true ∧
        isNameStart (Nat.digitChar digit) = !(Nat.digitChar digit).isDigit := by
  decide

variable {width number : Nat}

theorem named_of_mem_hex
    {character : Char}
    (member : character ∈ (Text.Numeral.hex width number).toList) :
    isNameCharacter character = true ∧
      isNameStart character = !character.isDigit := by
  obtain ⟨digit, below, rfl⟩ :=
    Text.Numeral.exists_digitChar_of_mem_padded (by decide) member
  exact named_digitChar digit below

theorem isWord_hex : IsWord (Text.Numeral.hex width number) :=
  ⟨Text.Numeral.toList_padded_ne_nil, fun _ member => (named_of_mem_hex member).1⟩

/-- A hexadecimal number is a label name unless it starts with a decimal digit. -/
theorem isLabelName_hex :
    isLabelName (Text.Numeral.hex width number) =
      !startsWithDigit (Text.Numeral.hex width number) := by
  have notEmpty : (Text.Numeral.hex width number).toList ≠ [] :=
    Text.Numeral.toList_padded_ne_nil
  obtain ⟨first, rest, shape⟩ := List.exists_cons_of_ne_nil notEmpty
  have named : ∀ character ∈ first :: rest,
      isNameCharacter character = true ∧
        isNameStart character = !character.isDigit := by
    intro character member
    rw [← shape] at member
    exact named_of_mem_hex member
  obtain ⟨⟨_, start⟩, restNamed⟩ := List.forall_mem_cons.mp named
  have restAll : rest.all isNameCharacter = true :=
    List.all_eq_true.mpr fun character member => (restNamed character member).1
  simp only [isLabelName, startsWithDigit, shape, start, restAll, Bool.and_true,
    List.head?_cons, Option.any_some]

/-- The first offset with four digits that starts with a letter. -/
example : isLabelName (Text.Numeral.hex 4 40960) = true := by decide +kernel

end Offsets

section Reading

/-- The words of an entry: its mnemonic, then the texts of its operands. -/
def entryWords (entry : Image.Entry) : List String :=
  entry.opcode.mnemonic :: entry.operands.map Operand.text

/-- The line of a listing without its end: the offset with a colon, then the words. -/
def listedText (entry : Image.Entry) : List Char :=
  (shownOffset entry ++ ":").toList ++
    (entryWords entry).flatMap fun word => ' ' :: word.toList

theorem toList_listingLine (entry : Image.Entry) :
    entry.listingLine.toList = listedText entry ++ ['\n'] := by
  simp only [Image.Entry.listingLine, listedText, shownOffset, entryWords,
    String.toList_append, toList_text, List.flatMap_cons, List.append_assoc,
    List.cons_append]
  rfl

theorem isWord_of_mem_entryWords (entry : Image.Entry) :
    ∀ word ∈ entryWords entry, IsWord word := by
  refine List.forall_mem_cons.mpr ⟨isWord_mnemonic entry.opcode, ?_⟩
  intro word member
  obtain ⟨operand, _, rfl⟩ := List.mem_map.mp member
  exact isWord_text operand

theorem toList_label (entry : Image.Entry) :
    (shownOffset entry ++ ":").toList = (shownOffset entry).toList ++ [':'] := by
  rw [String.toList_append]
  rfl

/-- The offset of a line is plain text, and so is the colon behind it. -/
theorem plain_of_mem_label
    {entry : Image.Entry}
    {character : Char}
    (member : character ∈ (shownOffset entry ++ ":").toList) :
    isTokenCharacter character = true ∧ isCommentMark character = false ∧
      character ≠ '\n' ∧ character ≠ '\r' := by
  rw [toList_label, List.mem_append] at member
  rcases member with inOffset | isColon
  · obtain ⟨inToken, noMark, noFeed, noReturn, _⟩ :=
      plain_of_isNameCharacter (isWord_hex.2 character inOffset)
    exact ⟨inToken, noMark, noFeed, noReturn⟩
  · obtain rfl : character = ':' := List.mem_singleton.mp isColon
    decide

/-- The text of a line of a listing holds no line ending. -/
theorem listedText_clean (entry : Image.Entry) :
    '\n' ∉ listedText entry ∧ '\r' ∉ listedText entry := by
  have clean : ∀ character ∈ listedText entry,
      character ≠ '\n' ∧ character ≠ '\r' := by
    intro character member
    rcases List.mem_append.mp member with inLabel | inWords
    · exact (plain_of_mem_label inLabel).2.2
    · obtain ⟨word, isOne, inWord⟩ := List.mem_flatMap.mp inWords
      rcases List.mem_cons.mp inWord with rfl | inside
      · decide
      · obtain ⟨_, _, noFeed, noReturn, _⟩ := plain_of_isNameCharacter
          ((isWord_of_mem_entryWords entry word isOne).2 character inside)
        exact ⟨noFeed, noReturn⟩
  exact ⟨fun feed => (clean _ feed).1 rfl, fun ended => (clean _ ended).2 rfl⟩

/-- The first token of a line defines the offset as a label. -/
theorem definedLabel_shownOffset
    (entry : Image.Entry)
    (column : Nat) :
    isDefinition (shownOffset entry ++ ":") = true ∧
      definedLabel ⟨shownOffset entry ++ ":", column⟩ =
        ⟨shownOffset entry, column⟩ := by
  have positive : 0 < (shownOffset entry).toList.length :=
    List.length_pos_iff.mpr Text.Numeral.toList_padded_ne_nil
  constructor
  · rw [isDefinition, toList_label, List.getLast?_concat, List.length_append,
      Bool.and_eq_true, decide_eq_true_eq]
    exact ⟨rfl, Nat.succ_lt_succ positive⟩
  · rw [definedLabel, definedName, toList_label, List.dropLast_concat,
      String.ofList_toList]

/-- The line of a listing is read as the label of its offset and the instruction. -/
theorem readLine_listedText
    {entry : Image.Entry}
    (fits : entry.operands.map Operand.kind = entry.opcode.layout)
    (direct : ∀ operand ∈ entry.operands, operand.IsDirect)
    (number : Nat) :
    readLine number (listedText entry) = listedLine (entry, number) := by
  have notEmpty : (shownOffset entry ++ ":").toList ≠ [] := by
    rw [toList_label]
    exact List.append_ne_nil_of_right_ne_nil _ (List.cons_ne_nil _ _)
  have plain : ∀ character ∈ (shownOffset entry ++ ":").toList,
      isTokenCharacter character = true ∧ isCommentMark character = false := by
    intro character member
    obtain ⟨inToken, noMark, _⟩ := plain_of_mem_label member
    exact ⟨inToken, noMark⟩
  obtain ⟨rest, split, shown⟩ :=
    exists_tokens_words notEmpty plain (isWord_of_mem_entryWords entry)
  obtain ⟨defines, label⟩ := definedLabel_shownOffset entry 1
  have instruction := readTokens_of_text fits direct shown number
  rw [readLine, listedText, split,
    readTokens_cons_of_isDefinition number ⟨shownOffset entry ++ ":", 1⟩ rest defines,
    instruction, label]
  rfl

/-- The listing of a tiling is read as the listed lines of its entries. -/
theorem readSource_listing
    {offset : Nat}
    {entries : List Image.Entry}
    (tiles : Image.Tiles offset entries) :
    readSource (String.join (entries.map Image.Entry.listingLine)) =
      (entries.zipIdx 1).map listedLine := by
  have ended : (String.join (entries.map Image.Entry.listingLine)).toList =
      (entries.map listedText).flatMap fun text => text ++ ['\n'] := by
    rw [String.toList_join, List.flatMap_map, List.flatMap_map]
    simp only [toList_listingLine]
  have clean : ∀ text ∈ entries.map listedText, '\n' ∉ text ∧ '\r' ∉ text := by
    intro text member
    obtain ⟨entry, _, rfl⟩ := List.mem_map.mp member
    exact listedText_clean entry
  rw [readSource, ended, Text.lines_flatMap_ended clean, List.zipIdx_map,
    List.map_map]
  apply List.map_congr_left
  intro numbered member
  obtain ⟨fits, direct⟩ :=
    tiles.fits_of_mem numbered.1 (List.fst_mem_of_mem_zipIdx member)
  exact readLine_listedText fits direct numbered.2

end Reading

section Labels

theorem definitions_listedLine (numbered : Image.Entry × Nat) :
    (listedLine numbered).definitions =
      if startsWithDigit (shownOffset numbered.1) then
        []
      else
        [⟨shownOffset numbered.1, 1⟩] := by
  have named : isLabelName (shownOffset numbered.1) =
      !startsWithDigit (shownOffset numbered.1) := isLabelName_hex
  cases digit : startsWithDigit (shownOffset numbered.1) <;>
    simp [Line.definitions, listedLine, named, digit]

/-- The labels of a listing are the offsets that are label names, at themselves. -/
theorem offsetsFrom_listedLine
    {offset : Nat}
    {entries : List Image.Entry}
    (tiles : Image.Tiles offset entries)
    (first : Nat) :
    offsetsFrom offset ((entries.zipIdx first).map listedLine) =
      (entries.filter fun entry => !startsWithDigit (shownOffset entry)).map
        fun entry => (shownOffset entry, entry.offset) := by
  induction tiles generalizing first with
  | nil =>
      rfl
  | @cons offset opcode operands rest _ _ _ inductionHypothesis =>
      have size : (listedLine (⟨offset, opcode, operands⟩, first)).size =
          opcode.size := rfl
      rw [List.zipIdx_cons, List.map_cons, offsetsFrom, size,
        inductionHypothesis (first + 1), definitions_listedLine,
        List.filter_cons]
      cases startsWithDigit (shownOffset ⟨offset, opcode, operands⟩) <;> rfl

/--
The only errors of a listing are the offsets that are no label names.  No offset
is defined twice, since the ones before it are smaller and shown differently.
-/
theorem errorsFrom_listedLine
    {offset : Nat}
    {entries : List Image.Entry}
    (tiles : Image.Tiles offset entries)
    {earlier : List String}
    (smaller : ∀ name ∈ earlier,
      ∃ position < offset, name = Text.Numeral.hex 4 position)
    (first : Nat) :
    errorsFrom earlier ((entries.zipIdx first).map listedLine) =
      ((entries.zipIdx first).filter fun numbered =>
        startsWithDigit (shownOffset numbered.1)).map misnamedOffset := by
  induction tiles generalizing earlier first with
  | nil =>
      rfl
  | @cons offset opcode operands rest _ _ _ inductionHypothesis =>
      let entry : Image.Entry := ⟨offset, opcode, operands⟩
      have isNew : shownOffset entry ∉ earlier := by
        intro member
        obtain ⟨position, before, same⟩ := smaller _ member
        have samePosition : offset = position :=
          (Text.Numeral.padded_inj (by decide) (by decide)).mp same
        exact Nat.ne_of_gt before samePosition
      have smallerLater : ∀ name ∈
          (listedLine (entry, first)).definitions.map Token.text ++ earlier,
          ∃ position < offset + opcode.size,
            name = Text.Numeral.hex 4 position := by
        intro name member
        rw [List.mem_append, definitions_listedLine] at member
        rcases member with here | before
        · split at here
          · cases here
          · obtain rfl := List.mem_singleton.mp here
            exact ⟨offset, Nat.lt_add_of_pos_right opcode.size_pos, rfl⟩
        · obtain ⟨position, before, shown⟩ := smaller name before
          exact ⟨position, Nat.lt_add_right _ before, shown⟩
      have named : isLabelName (shownOffset entry) =
          !startsWithDigit (shownOffset entry) := isLabelName_hex
      have labels : labelErrors (listedLine (entry, first)).number earlier
            (listedLine (entry, first)).labels =
          if startsWithDigit (shownOffset entry) then
            [misnamedOffset (entry, first)]
          else
            [] := by
        cases digit : startsWithDigit (shownOffset entry) <;>
          simp [listedLine, lineOf, labelErrors, named, digit, isNew, misnamedLabel,
            misnamedOffset]
      rw [List.zipIdx_cons, List.map_cons, errorsFrom, labels,
        inductionHypothesis smallerLater (first + 1), List.filter_cons]
      cases startsWithDigit (shownOffset entry) <;> rfl

end Labels

/--
The listing of an image assembles.  The bytes are those of the image with the
unused bits of its register operands cleared, and decode to the same entries.  An
offset that starts with a decimal digit is reported as an invalid label, in the
first column of its line, and nothing else is reported.  Every other offset
defines a label, which stands for just this offset.
-/
theorem assemble_disassemble
    {bytes : List UInt8}
    {text : String}
    (listed : Image.disassemble bytes = .ok text) :
    ∃ entries image,
      Image.decode bytes = .ok entries ∧
      assemble text =
        .ok ⟨image,
          ((entries.zipIdx 1).filter fun numbered =>
            startsWithDigit (shownOffset numbered.1)).map misnamedOffset⟩ ∧
      image = List.zipWith Image.clearUnused bytes
        (Image.registerFlags entries) ∧
      image.length = bytes.length ∧
      Image.decode image = .ok entries ∧
      labelOffsets text =
        (entries.filter fun entry => !startsWithDigit (shownOffset entry)).map
          fun entry => (shownOffset entry, entry.offset) := by
  obtain ⟨entries, decoded, rfl⟩ : ∃ entries, Image.decode bytes = .ok entries ∧
      text = String.join (entries.map Image.Entry.listingLine) := by
    rw [Image.disassemble] at listed
    cases decoded : Image.decode bytes with
    | error cause =>
        rw [decoded] at listed
        cases listed
    | ok entries =>
        rw [decoded] at listed
        exact ⟨entries, rfl, (Except.ok.inj listed).symm⟩
  have tiles := Image.tiles_of_decodeFrom decoded
  obtain ⟨length, encoded⟩ := Image.encodeEntries_of_decodeFrom decoded
  have again := Image.decodeFrom_encodeEntries tiles
  have bodies : ∀ numbered, (listedLine numbered).body = (lineOf numbered).body :=
    fun _ => rfl
  obtain ⟨resolved, assembled⟩ :=
    assemble_of_bodies bodies tiles (readSource_listing tiles)
  refine ⟨entries, Image.encodeEntries entries, decoded, ?_, encoded, ?_, again, ?_⟩
  · rw [assembled, errorsFrom_listedLine tiles fun _ member => (List.not_mem_nil member).elim]
  · rw [length]
    exact (Image.encodeEntries_of_decodeFrom again).1
  · rw [labelOffsets, resolved, offsetsFrom_listedLine tiles]

/-- The listing of two instructions, the first of which has unused operand bits. -/
private def twoLines : String := "0000: INC R2\n0002: HALT\n"

/-- Both offsets of the listing are reported, and the unused bits are cleared. -/
theorem assemble_disassemble_twoLines :
    Image.disassemble [9, 10, 0] = .ok twoLines ∧
      assemble twoLines =
        .ok ⟨[9, 2, 0],
          [⟨1, 1, .invalidLabel "0000"⟩, ⟨2, 1, .invalidLabel "0002"⟩]⟩ ∧
      labelOffsets twoLines = [] := by
  have decoded : Image.decode [9, 10, 0] =
      .ok [⟨0, .inc, [.register 2]⟩, ⟨2, .halt, []⟩] := by
    cbv
  have listed : Image.disassemble [9, 10, 0] = .ok twoLines := by
    rw [Image.disassemble, decoded]
    decide +kernel
  obtain ⟨entries, image, decodedAgain, assembled, cleared, _, _, labels⟩ :=
    assemble_disassemble listed
  obtain rfl := Except.ok.inj (decoded.symm.trans decodedAgain)
  have computed :
      List.zipWith Image.clearUnused [9, 10, 0]
          (Image.registerFlags [⟨0, .inc, [.register 2]⟩, ⟨2, .halt, []⟩]) =
        [9, 2, 0] := by
    decide
  rw [computed] at cleared
  subst cleared
  refine ⟨listed, assembled.trans ?_, labels.trans ?_⟩
  · decide +kernel
  · decide +kernel

end RegisterMachine.Assembly
