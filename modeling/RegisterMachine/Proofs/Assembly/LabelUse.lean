import RegisterMachine.Proofs.Assembly.Concatenation
import RegisterMachine.Proofs.Assembly.Diagnostics
import RegisterMachine.Proofs.Assembly.Words

namespace RegisterMachine.Assembly

/-!
# Using labels that are defined

Any name can be defined as a label, but a token that names a register is never
read as a label.  A line that loads the address of a label, put behind a source
that defines the label, therefore adds the address of the first definition to the
image, unless the label is named like a register: then the definition is accepted
and every use of it is reported.
-/

/-- The text of an instruction that loads the address of a label. -/
def loadText (name : String) : String :=
  "LOAD R0, " ++ name

/-- The line that this text is read as, when the name can be a label. -/
def loadLine (number : Nat) (name : String) : Line where
  number := number
  labels := []
  body :=
    if (register? name).isSome then
      .rejected ⟨number, 10, .expectedImmediate name⟩
    else
      .statement ⟨.load, [.value (.register 0), .label ⟨name, 10⟩]⟩

section Names

variable {name : String} (isName : isLabelName name = true)

theorem isNameCharacter_of_isNameStart
    {character : Char}
    (start : isNameStart character = true) :
    isNameCharacter character = true := by
  rw [isNameStart, Bool.or_eq_true] at start
  rw [isNameCharacter, Char.isAlphanum]
  rcases start with letter | underscore
  · rw [letter, Bool.true_or, Bool.true_or]
  · rw [underscore, Bool.or_true]

/-- A letter is not a decimal digit, and neither is `_`. -/
theorem digitOf?_of_isNameStart
    {character : Char}
    (start : isNameStart character = true) :
    Text.Numeral.digitOf? 10 character = none := by
  rw [isNameStart, Bool.or_eq_true, beq_iff_eq] at start
  rcases start with letter | rfl
  · delta Char.isAlpha Char.isUpper Char.isLower at letter
    simp only [Bool.or_eq_true, Bool.and_eq_true, decide_eq_true_eq] at letter
    have noDigit : ¬ ('0' ≤ character ∧ character ≤ '9') := by
      rintro ⟨_, high⟩
      rcases letter with ⟨low, _⟩ | ⟨low, _⟩
      · have lower : 65 ≤ character.toNat := low
        have upper : character.toNat ≤ 57 := high
        omega
      · have lower : 97 ≤ character.toNat := low
        have upper : character.toNat ≤ 57 := high
        omega
    -- As a digit of a larger base a letter is worth ten or more.
    rw [Text.Numeral.digitOf?, Text.Numeral.digitValue, if_neg noDigit]
    split
    · exact Option.filter_some_neg (by simp)
    · split
      · exact Option.filter_some_neg (by simp)
      · rfl
  · decide

include isName

theorem exists_start_of_isLabelName :
    ∃ first rest, name.toList = first :: rest ∧ isNameStart first = true ∧
      ∀ character ∈ rest, isNameCharacter character = true := by
  rw [isLabelName] at isName
  cases shape : name.toList with
  | nil =>
      rw [shape] at isName
      cases isName
  | cons first rest =>
      rw [shape] at isName
      obtain ⟨start, named⟩ := (Bool.and_eq_true _ _).mp isName
      exact ⟨first, rest, rfl, start, List.all_eq_true.mp named⟩

theorem isWord_of_isLabelName : IsWord name := by
  obtain ⟨first, rest, shape, start, named⟩ := exists_start_of_isLabelName isName
  rw [IsWord, shape]
  exact ⟨List.cons_ne_nil first rest,
    List.forall_mem_cons.mpr ⟨isNameCharacter_of_isNameStart start, named⟩⟩

/-- No label name is a number. -/
theorem number?_of_isLabelName : number? name = none := by
  obtain ⟨first, rest, shape, start, _⟩ := exists_start_of_isLabelName isName
  have starts : ∀ {other : Char} {others : List Char},
      name.toList = other :: others → isNameStart other = true := by
    intro other others same
    obtain ⟨rfl, _⟩ := List.cons.inj (shape.symm.trans same)
    exact start
  have decimal : number? name = number?.word? 10 name.toList := by
    apply number?_of_unmarked
    · intro others same
      cases starts same
    · intro mark others same
      cases starts same
  rw [decimal, shape, number?.word?, Text.Numeral.readBelow?, Text.Numeral.read?,
    List.isEmpty_cons]
  simp only [Bool.false_eq_true, ↓reduceIte, Text.Numeral.readFrom?,
    digitOf?_of_isNameStart start, Option.filter_none, Option.map_none]

/-- Where a word is expected, a name is read as a label unless it is a register. -/
theorem readReference_of_isLabelName (column : Nat) :
    readReference .word ⟨name, column⟩ =
      if (register? name).isSome then .error (.expectedImmediate name)
      else .ok (.label ⟨name, column⟩) := by
  rw [readReference, readWord]
  simp only [number?_of_isLabelName isName, isName, ↓reduceIte]

/-- The text has three tokens, of which the label begins in the tenth column. -/
theorem tokens_loadText :
    tokens (loadText name).toList =
      [⟨"LOAD", 1⟩, ⟨"R0", 6⟩, ⟨name, 10⟩] := by
  obtain ⟨notEmpty, named⟩ := isWord_of_isLabelName isName
  have plain : ∀ character ∈ name.toList,
      isTokenCharacter character = true ∧ isCommentMark character = false := by
    intro character member
    obtain ⟨inToken, noMark, _⟩ := plain_of_isNameCharacter (named character member)
    exact ⟨inToken, noMark⟩
  have shape : (loadText name).toList =
      "LOAD".toList ++ ' ' :: ("R0".toList ++ ',' :: ' ' :: (name.toList ++ [])) := by
    rw [loadText, String.toList_append, List.append_nil]
    rfl
  have uncommented : codePart (loadText name).toList = (loadText name).toList := by
    rw [codePart, List.takeWhile_eq_self_iff, loadText, String.toList_append,
      List.forall_mem_append]
    refine ⟨List.all_eq_true.mp (by decide), fun character member => ?_⟩
    rw [(plain character member).2]
    rfl
  rw [tokens, uncommented, shape,
    tokensFrom_word (by decide) (List.all_eq_true.mp (by decide)) rfl,
    tokensFrom, if_pos (by decide),
    tokensFrom_word (by decide) (List.all_eq_true.mp (by decide)) rfl,
    tokensFrom, if_pos (by decide), tokensFrom, if_pos (by decide),
    tokensFrom_word notEmpty (fun character member => (plain character member).1) rfl,
    tokensFrom]
  simp only [String.ofList_toList]
  rfl

/-- The text is one line. -/
theorem lines_loadText :
    Text.lines (loadText name).toList = [(loadText name).toList] := by
  have clean : ∀ character ∈ (loadText name).toList,
      character ≠ '\n' ∧ character ≠ '\r' := by
    rw [loadText, String.toList_append, List.forall_mem_append]
    refine ⟨by simp, fun character member => ?_⟩
    obtain ⟨_, _, noFeed, noReturn, _⟩ :=
      plain_of_isNameCharacter ((isWord_of_isLabelName isName).2 character member)
    exact ⟨noFeed, noReturn⟩
  have notEmpty : (loadText name).toList ≠ [] := by
    rw [loadText, String.toList_append]
    exact List.append_ne_nil_of_left_ne_nil (by decide) _
  have whole := @Text.lines_intercalate [(loadText name).toList]
    (List.forall_mem_singleton.mpr ⟨notEmpty, fun feed => (clean _ feed).1 rfl,
      fun ended => (clean _ ended).2 rfl⟩)
  rwa [List.intercalate_singleton] at whole

theorem readLine_loadText (number : Nat) :
    readLine number (loadText name).toList = loadLine number name := by
  have destination : readReference .register ⟨"R0", 6⟩ =
      .ok (.value (.register 0)) := by
    decide +kernel
  have called : Opcode.ofName? "LOAD" = some .load := by decide +kernel
  have layout : Opcode.load.layout = [.register, .word] := rfl
  have noDefinition : isDefinition "LOAD" = false := by decide
  rw [readLine, tokens_loadText isName, readTokens, List.takeWhile_cons,
    List.dropWhile_cons, noDefinition, loadLine]
  simp only [Bool.false_eq_true, ↓reduceIte, List.map_nil, readBody, readStatement,
    called, layout, List.length_cons, List.length_nil, readReferences, destination,
    readReference_of_isLabelName isName]
  cases (register? name).isSome <;> rfl

theorem readSource_loadText :
    readSource (loadText name) = [loadLine 1 name] := by
  rw [readSource, lines_loadText isName, List.zipIdx_singleton, List.map_singleton]
  exact congrArg ([·]) (readLine_loadText isName 1)

end Names

section Loading

variable {source name : String} {assembly : Assembled}

/-- A source with this line behind it is assembled to the same and what the line adds. -/
theorem assemble_append_loadText
    (assembled : assemble source = .ok assembly)
    (isName : isLabelName name = true) :
    let line := (loadLine (source.toList.count '\n' + 2) name).resolve
      (definedNames (readSource source))
    assemble (source ++ "\n" ++ loadText name) =
      .ok ⟨assembly.image ++ line.bytes (labelOffsets source),
        assembly.diagnostics ++ line.rejection?.toList⟩ := by
  obtain ⟨accepted, rfl⟩ := assemble_eq_ok_iff.mp assembled
  obtain ⟨before, alike, read⟩ := readSource_append source (loadText name)
  rw [readSource_loadText isName, List.map_singleton, ← readLine_loadText isName,
    ← readLine_add, readLine_loadText isName, Nat.add_comm 1] at read
  have noLabels : (loadLine (source.toList.count '\n' + 2) name).labels = [] := rfl
  rw [assemble_eq_ok_iff, read]
  constructor
  · rw [List.forall_mem_append, alike.accepted, List.forall_mem_singleton]
    refine ⟨accepted, ?_⟩
    rw [Line.fatal?, Line.rejection?, loadLine]
    cases (register? name).isSome <;> rfl
  · rw [imageOf_append_line before noLabels, errorsFrom_append_line before noLabels,
      alike.image, alike.offsets, alike.defined, alike.errors]
    rfl

/-- A defined label that is no register is loaded: the line adds its address. -/
theorem resolve_loadLine_of_defined
    (defined : name ∈ definedNames (readSource source))
    (notRegister : register? name = none)
    {address : Nat}
    (placed : offsetOf? (labelOffsets source) name = some address)
    (number : Nat) :
    let line := (loadLine number name).resolve (definedNames (readSource source))
    line.bytes (labelOffsets source) =
        Opcode.load.code :: 0 :: Word.toBytes (UInt64.ofNat address) ∧
      line.rejection? = none := by
  have usesDefined :
      Statement.undefined? (definedNames (readSource source))
        ⟨.load, [.value (.register 0), .label ⟨name, 10⟩]⟩ = none := by
    simp [Statement.undefined?, defined]
  have unchanged : (loadLine number name).resolve (definedNames (readSource source)) =
      loadLine number name := by
    simp [Line.resolve, loadLine, notRegister, usesDefined]
  rw [unchanged]
  simp [loadLine, notRegister, Line.bytes, Line.statement?, Line.rejection?,
    Reference.bytes, Reference.operand, placed, Operand.encode]

/-- A label that is named like a register is not loaded: the line is reported. -/
theorem resolve_loadLine_of_register
    {index : UInt8}
    (isRegister : register? name = some index)
    (defined : List String)
    (offsets : List (String × Nat))
    (number : Nat) :
    let line := (loadLine number name).resolve defined
    line.bytes offsets = [] ∧
      line.rejection? = some ⟨number, 10, .expectedImmediate name⟩ := by
  simp [Line.resolve, loadLine, isRegister, Line.bytes, Line.statement?,
    Line.rejection?]

end Loading

/--
A label that an assembled source defines can be loaded behind the source, unless it
is named like a register.  The line is then assembled to the address of the first
definition of the label, behind the same image and without a diagnostic.  A label
that is named like a register is defined all the same, but the line that loads it
adds nothing and is reported.
-/
theorem assemble_append_load
    {source : String}
    {assembly : Assembled}
    (assembled : assemble source = .ok assembly) :
    Placement (Text.lines source.toList) (slots source) ∧
      Image.decode assembly.image = .ok (slots source).reduceOption ∧
      ∀ line ∈ Text.lines source.toList, ∀ name ∈ namesDefined line,
        ∃ address,
          addressIn (Text.lines source.toList) (slots source) name =
            some address ∧
          (register? name = none →
            assemble (source ++ "\n" ++ loadText name) =
              .ok ⟨assembly.image ++
                  [Opcode.load.code, 0] ++ Word.toBytes (UInt64.ofNat address),
                assembly.diagnostics⟩) ∧
          ∀ index, register? name = some index →
            assemble (source ++ "\n" ++ loadText name) =
              .ok ⟨assembly.image,
                assembly.diagnostics ++
                  [⟨source.toList.count '\n' + 2, 10, .expectedImmediate name⟩]⟩ := by
  obtain ⟨_, shape⟩ := assembly_of_assemble assembled
  have decoded := Image.decodeFrom_encodeEntries (tiles_slots source)
  refine ⟨placement_slots source, ?_, ?_⟩
  · rw [shape]
    exact decoded
  · intro line inLines name defining
    have isName : isLabelName name = true := (List.mem_filter.mp defining).2
    have defined : name ∈ definedNames (readSource source) := by
      rw [definedNames_readSource]
      exact List.mem_flatMap.mpr ⟨line, inLines, defining⟩
    obtain ⟨address, placed⟩ :=
      Option.isSome_iff_exists.mp ((isSome_labelOffsets_iff source name).mpr defined)
    have appended := assemble_append_loadText assembled isName
    refine ⟨address, offsetOf?_labelOffsets source ▸ placed, ?_, ?_⟩
    · intro notRegister
      obtain ⟨bytes, accepted⟩ := resolve_loadLine_of_defined defined notRegister
        placed (source.toList.count '\n' + 2)
      rw [appended, bytes, accepted, Option.toList_none, List.append_nil,
        List.append_assoc]
      rfl
    · intro index isRegister
      obtain ⟨bytes, rejected⟩ := resolve_loadLine_of_register isRegister
        (definedNames (readSource source)) (labelOffsets source)
        (source.toList.count '\n' + 2)
      rw [appended, bytes, rejected, List.append_nil]
      rfl

/-- A source that defines a label with an ordinary name and one named like a register. -/
private def registerLabel : String :=
  "INC R0\nend: R1: HALT"

/-- Of the two labels at the same place only one can be loaded. -/
theorem assemble_append_load_registerLabel :
    assemble (registerLabel ++ "\n" ++ loadText "end") =
        .ok ⟨[9, 0, 0, 1, 0, 2, 0, 0, 0, 0, 0, 0, 0], []⟩ ∧
      assemble (registerLabel ++ "\n" ++ loadText "R1") =
        .ok ⟨[9, 0, 0], [⟨3, 10, .expectedImmediate "R1"⟩]⟩ := by
  have assembled : assemble registerLabel = .ok ⟨[9, 0, 0], []⟩ :=
    assemble_eq_ok_iff.mpr ⟨by decide +kernel, by decide +kernel⟩
  obtain ⟨_, _, loads⟩ := assemble_append_load assembled
  have found : "end: R1: HALT".toList ∈ Text.lines registerLabel.toList := by
    decide +kernel
  have names : namesDefined "end: R1: HALT".toList = ["end", "R1"] := by
    decide +kernel
  have second : addressIn (Text.lines registerLabel.toList) (slots registerLabel)
      "end" = some 2 := by
    decide +kernel
  obtain ⟨address, placed, loaded, _⟩ := loads _ found "end" (by rw [names]; decide)
  obtain ⟨_, _, _, reported⟩ := loads _ found "R1" (by rw [names]; decide)
  obtain rfl := Option.some.inj (second.symm.trans placed)
  exact ⟨loaded (by decide +kernel), reported 1 (by decide +kernel)⟩

/-- Of a label that is named like a register the definition is accepted, but no use. -/
theorem not_assemble_append_load_registerLabel :
    ¬ ∀ source assembly, assemble source = .ok assembly →
      ∀ line ∈ Text.lines source.toList, ∀ name ∈ namesDefined line,
        ∃ address,
          addressIn (Text.lines source.toList) (slots source) name =
            some address ∧
          assemble (source ++ "\n" ++ loadText name) =
            .ok ⟨assembly.image ++
                [Opcode.load.code, 0] ++ Word.toBytes (UInt64.ofNat address),
              assembly.diagnostics⟩ := by
  intro loads
  have assembled : assemble "R1: HALT" = .ok ⟨[0], []⟩ :=
    assemble_eq_ok_iff.mpr ⟨by decide +kernel, by decide +kernel⟩
  have reported : assemble ("R1: HALT" ++ "\n" ++ loadText "R1") =
      .ok ⟨[0], [⟨2, 10, .expectedImmediate "R1"⟩]⟩ :=
    assemble_eq_ok_iff.mpr ⟨by decide +kernel, by decide +kernel⟩
  have found : "R1: HALT".toList ∈ Text.lines "R1: HALT".toList := by decide +kernel
  have defining : "R1" ∈ namesDefined "R1: HALT".toList := by decide +kernel
  obtain ⟨_, _, loaded⟩ := loads _ _ assembled _ found _ defining
  rw [reported] at loaded
  cases loaded

end RegisterMachine.Assembly
