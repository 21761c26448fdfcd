import RegisterMachine.Proofs.Assembly.Columns
import RegisterMachine.Proofs.Assembly.Numbering

namespace RegisterMachine.Assembly

/-!
# Sources with the same tokens

The tokens of a line are the maximal runs of its code.  What a source is assembled to
depends on the texts of its tokens, line by line, and not on what separates them.
Letter case does not matter either in a mnemonic or where the catalog asks for a
register.
-/

/--
What is found in a line are the maximal runs of its code, which goes up to the first
comment mark, from left to right; each has the bytes that the line has at its place.
-/
structure TokensOf (line : List Char) (found : List Token) : Prop where
  runs :
    ∃ code comment, line = code ++ comment ∧
      (∀ character ∈ code, character ≠ ';' ∧ character ≠ '#') ∧
      (∀ character, comment.head? = some character →
        character = ';' ∨ character = '#') ∧
      ∀ token, token ∈ found ↔
        ∃ before run after, IsRun code before run after ∧
          token = ⟨String.ofList run, byteWidth before + 1⟩
  ordered :
    found.Pairwise fun first second => first.column < second.column
  bytes :
    ∀ token ∈ found,
      (String.ofList line).toUTF8.extract (token.column - 1)
          (token.column - 1 + token.text.toUTF8.size) =
        token.text.toUTF8

theorem isCommentMark_eq_true_iff {character : Char} :
    isCommentMark character = true ↔ character = ';' ∨ character = '#' := by
  rw [isCommentMark, Bool.or_eq_true, beq_iff_eq, beq_iff_eq]

theorem tokensOf_tokens (line : List Char) : TokensOf line (tokens line) where
  runs := by
    refine ⟨codePart line, line.dropWhile fun character => !isCommentMark character,
      List.takeWhile_append_dropWhile.symm, ?_, ?_, ?_⟩
    · intro character member
      have noMark := List.all_eq_true.mp List.all_takeWhile character member
      rw [Bool.not_eq_true', ← Bool.not_eq_true, isCommentMark_eq_true_iff,
        not_or] at noMark
      exact noMark
    · intro character first
      have mark := List.head?_dropWhile_not
        (fun character => !isCommentMark character) line
      rw [first] at mark
      have isMark : (!isCommentMark character) = false := mark
      rwa [Bool.not_eq_false', isCommentMark_eq_true_iff] at isMark
    · intro token
      rw [tokens, mem_tokensFrom_iff]
      simp only [Nat.add_comm 1]
  ordered :=
    pairwise_column_tokens line
  bytes := by
    intro token member
    obtain ⟨before, after, split, place⟩ := exists_split_of_mem_tokens member
    have size := size_toUTF8_ofList token.text.toList
    rw [String.ofList_toList] at size
    have found := extract_toUTF8_append before token.text.toList after
    rwa [← split, String.ofList_toList, ← size, ← Nat.add_sub_cancel (byteWidth before) 1,
      ← place] at found

/-- Texts that differ at most in the case of ASCII letters. -/
def SameUpToCase (first second : String) : Prop :=
  first.map Char.toUpper = second.map Char.toUpper

instance (first second : String) : Decidable (SameUpToCase first second) :=
  decidable_of_iff
    (first.toList.map Char.toUpper = second.toList.map Char.toUpper) <| by
    rw [SameUpToCase, ← String.toList_inj, String.toList_map, String.toList_map]

/-- Arguments with the same texts, up to letter case where a register has to stand. -/
structure ArgumentsAlike (mnemonic : String) (arguments others : List String) :
    Prop where
  sameLength :
    arguments.length = others.length
  alike :
    ∀ (place : Nat) (argument other : String),
      arguments[place]? = some argument →
      others[place]? = some other →
      argument = other ∨
        (∃ opcode : Opcode, opcode.IsCalled mnemonic ∧
          opcode.layout[place]? = some .register) ∧
        SameUpToCase argument other

/-- Texts of lines that are the same, up to letter case in mnemonic and registers. -/
inductive SameTexts : List String → List String → Prop where
  | empty :
      SameTexts [] []
  | label {text : String} {rest others : List String} :
      isDefinition text = true →
      SameTexts rest others →
      SameTexts (text :: rest) (text :: others)
  | instruction {mnemonic other : String} {arguments others : List String} :
      isDefinition mnemonic = false →
      SameUpToCase mnemonic other →
      ArgumentsAlike mnemonic arguments others →
      SameTexts (mnemonic :: arguments) (other :: others)

/-- The texts of the tokens of each line. -/
def tokenTexts (source : String) : List (List String) :=
  (Text.lines source.toList).map fun line => (tokens line).map Token.text

/-- The cause of an error, where quoted mnemonics and registers are in upper case. -/
def SyntaxError.foldCase : SyntaxError → SyntaxError
  | .unknownMnemonic name => .unknownMnemonic (name.map Char.toUpper)
  | .invalidRegister token => .invalidRegister (token.map Char.toUpper)
  | other => other

/-- The line of a diagnostic, and its cause up to letter case. -/
def Diagnostic.finding (diagnostic : Diagnostic) : Nat × SyntaxError :=
  (diagnostic.line, diagnostic.cause.foldCase)

section LetterCase

/-- To compare characters with their upper case, the first code points are enough. -/
theorem toUpper_cases
    (Compared : Char → Char → Prop)
    (same : ∀ character, Compared character character)
    (small : ∀ codePoint < 123,
      Compared (Char.ofNat codePoint) (Char.ofNat codePoint).toUpper)
    (character : Char) :
    Compared character character.toUpper := by
  by_cases isSmall : character.toNat < 123
  · have compared := small character.toNat isSmall
    rwa [Char.ofNat_toNat] at compared
  · have noLetter : ¬ ('a'.val ≤ character.val ∧ character.val ≤ 'z'.val) := by
      rintro ⟨_, high⟩
      exact isSmall (Nat.lt_succ_of_le high)
    have unchanged : character.toUpper = character := dif_neg noLetter
    rw [unchanged]
    exact same character

theorem digitOf?_toUpper (character : Char) :
    Text.Numeral.digitOf? 10 character.toUpper =
      Text.Numeral.digitOf? 10 character :=
  toUpper_cases
    (fun lower upper =>
      Text.Numeral.digitOf? 10 upper = Text.Numeral.digitOf? 10 lower)
    (fun _ => rfl) (by decide) character

theorem readFrom?_toUpper
    (value : Nat)
    (digits : List Char) :
    Text.Numeral.readFrom? 10 value (digits.map Char.toUpper) =
      Text.Numeral.readFrom? 10 value digits := by
  induction digits generalizing value with
  | nil =>
      rfl
  | cons character rest inductionHypothesis =>
      simp only [List.map_cons, Text.Numeral.readFrom?, digitOf?_toUpper,
        inductionHypothesis]

theorem isRegisterPrefix_toUpper (letter : Char) :
    (letter.toUpper = 'R' ∨ letter.toUpper = 'r') ↔ (letter = 'R' ∨ letter = 'r') :=
  toUpper_cases
    (fun lower upper =>
      (upper = 'R' ∨ upper = 'r') ↔ (lower = 'R' ∨ lower = 'r'))
    (fun _ => Iff.rfl) (by decide) letter

/-- A register is named in either letter case. -/
theorem register?_toUpper (token : String) :
    register? (token.map Char.toUpper) = register? token := by
  rw [register?, register?, String.toList_map]
  cases token.toList with
  | nil =>
      rfl
  | cons letter digits =>
      simp only [List.map_cons, isRegisterPrefix_toUpper, Text.Numeral.readBelow?,
        Text.Numeral.read?, List.isEmpty_map, readFrom?_toUpper]

theorem isColon_toUpper (character : Char) :
    character.toUpper = ':' ↔ character = ':' :=
  toUpper_cases (fun lower upper => upper = ':' ↔ lower = ':')
    (fun _ => Iff.rfl) (by decide) character

/-- A label is defined in either letter case. -/
theorem isDefinition_toUpper (token : String) :
    isDefinition (token.map Char.toUpper) = isDefinition token := by
  rw [Bool.eq_iff_iff, isDefinition, isDefinition, String.toList_map,
    List.getLast?_map, List.length_map]
  simp only [Bool.and_eq_true, beq_iff_eq, Option.map_eq_some_iff, isColon_toUpper,
    exists_eq_right]

variable {first second : String} (same : SameUpToCase first second)
include same

theorem SameUpToCase.register? : register? first = register? second := by
  rw [← register?_toUpper first, same, register?_toUpper]

theorem SameUpToCase.isDefinition : isDefinition first = isDefinition second := by
  rw [← isDefinition_toUpper first, same, isDefinition_toUpper]

theorem SameUpToCase.ofName? : Opcode.ofName? first = Opcode.ofName? second := by
  rw [Opcode.ofName?, same, Opcode.ofName?]

end LetterCase

/-- No columns, and quoted mnemonics and registers in upper case. -/
def Respelling.plain : Respelling where
  number := id
  column := fun _ => 0
  cause := SyntaxError.foldCase
  undefinedLabel := fun _ => rfl
  duplicateLabel := fun _ => rfl
  invalidLabel := fun _ => rfl
  isFatal := fun error => by cases error <;> rfl

/-- Tokens have the same text, up to letter case if a register has to stand there. -/
def ReadAlike (kind : Operand.Kind) (first second : Token) : Prop :=
  first.text = second.text ∨
    kind = .register ∧ SameUpToCase first.text second.text

/-- What reading an operand gave, without columns and letter case. -/
def plainReference (result : Except SyntaxError Reference) :
    Except SyntaxError Reference :=
  (result.mapError SyntaxError.foldCase).map (Reference.respell .plain)

/-- What reading operands gave, without columns and letter case. -/
def plainReferences (result : Except Diagnostic (List Reference)) :
    Except Diagnostic (List Reference) :=
  (result.mapError (Diagnostic.respell .plain)).map
    (List.map (Reference.respell .plain))

section Reading

theorem readReference_alike
    {kind : Operand.Kind}
    {first second : Token}
    (alike : ReadAlike kind first second) :
    plainReference (readReference kind first) =
      plainReference (readReference kind second) := by
  rcases alike with sameText | ⟨rfl, sameText⟩
  · obtain ⟨text, column⟩ := first
    obtain ⟨otherText, otherColumn⟩ := second
    obtain rfl : text = otherText := sameText
    cases kind with
    | register =>
        rfl
    | word =>
        simp only [readReference, readWord]
        split
        · rfl
        · cases number? text with
          | some value =>
              rfl
          | none =>
              cases isLabelName text <;> rfl
  · rw [readReference, readReference, sameText.register?]
    cases register? second.text with
    | some index =>
        rfl
    | none =>
        exact congrArg (fun text => Except.error (SyntaxError.invalidRegister text))
          sameText

/-- Without columns and letter case operands are read one after the other as well. -/
theorem plainReferences_cons
    (number : Nat)
    (kind : Operand.Kind)
    (kinds : List Operand.Kind)
    (token : Token)
    (rest : List Token) :
    plainReferences (readReferences number (kind :: kinds) (token :: rest)) =
      match plainReference (readReference kind token) with
      | .error cause => .error ⟨number, 0, cause⟩
      | .ok first =>
          match plainReferences (readReferences number kinds rest) with
          | .error diagnostic => .error diagnostic
          | .ok others => .ok (first :: others) := by
  rw [readReferences]
  cases readReference kind token with
  | error cause =>
      rfl
  | ok first =>
      cases readReferences number kinds rest <;> rfl

theorem readReferences_alike
    {number : Nat}
    {kinds : List Operand.Kind}
    {arguments others : List Token}
    (sameLength : arguments.length = others.length)
    (alike : ∀ (place : Nat) (kind : Operand.Kind) (first second : Token),
      kinds[place]? = some kind → arguments[place]? = some first →
      others[place]? = some second → ReadAlike kind first second) :
    plainReferences (readReferences number kinds arguments) =
      plainReferences (readReferences number kinds others) := by
  induction kinds generalizing arguments others with
  | nil =>
      have noKinds : ∀ tokens, readReferences number [] tokens = .ok [] := by
        intro tokens
        cases tokens <;> rfl
      rw [noKinds, noKinds]
  | cons kind kinds inductionHypothesis =>
      cases arguments with
      | nil =>
          rw [List.eq_nil_of_length_eq_zero sameLength.symm]
      | cons first arguments =>
          obtain ⟨second, others, rfl⟩ := List.exists_cons_of_length_eq_add_one
            sameLength.symm
          have here := readReference_alike (alike 0 kind first second rfl rfl rfl)
          have later := inductionHypothesis (Nat.succ.inj sameLength)
            fun place => alike (place + 1)
          rw [plainReferences_cons, plainReferences_cons, here, later]

/-- With as many arguments as it takes, an instruction is what its operands are. -/
theorem readBody_of_isCalled
    {number : Nat}
    {mnemonic : Token}
    {arguments : List Token}
    {opcode : Opcode}
    (called : opcode.IsCalled mnemonic.text)
    (enough : arguments.length = opcode.layout.length) :
    (readBody number (mnemonic :: arguments)).respell .plain =
      match plainReferences (readReferences number opcode.layout arguments) with
      | .error diagnostic => .rejected diagnostic
      | .ok references => .statement ⟨opcode, references⟩ := by
  rw [readBody, readStatement, Opcode.ofName?_eq_some_iff.mpr called]
  simp only [enough, ↓reduceIte]
  cases readReferences number opcode.layout arguments <;> rfl

/-- An instruction is read alike from alike tokens. -/
theorem readBody_alike
    {number : Nat}
    {mnemonic other : Token}
    {arguments others : List Token}
    (sameMnemonic : SameUpToCase mnemonic.text other.text)
    (alike : ArgumentsAlike mnemonic.text (arguments.map Token.text)
      (others.map Token.text)) :
    (readBody number (mnemonic :: arguments)).respell .plain =
      (readBody number (other :: others)).respell .plain := by
  have sameLength : arguments.length = others.length := by
    simpa using alike.sameLength
  have sameOpcode := sameMnemonic.ofName?
  cases named : Opcode.ofName? mnemonic.text with
  | none =>
      rw [readBody, readBody, readStatement, readStatement, ← sameOpcode, named]
      exact congrArg (fun name => Body.rejected ⟨number, 0, .unknownMnemonic name⟩)
        sameMnemonic
  | some opcode =>
      have called := Opcode.ofName?_eq_some_iff.mp named
      have otherCalled := Opcode.ofName?_eq_some_iff.mp (sameOpcode.symm.trans named)
      by_cases enough : arguments.length = opcode.layout.length
      · have sameReferences : plainReferences
            (readReferences number opcode.layout arguments) =
              plainReferences (readReferences number opcode.layout others) := by
          refine readReferences_alike sameLength ?_
          intro place kind first second asked isFirst isSecond
          rcases alike.alike place first.text second.text
              (by rw [List.getElem?_map, isFirst]; rfl)
              (by rw [List.getElem?_map, isSecond]; rfl) with
              sameText | ⟨⟨sameCalled, calls, register⟩, sameText⟩
          · exact .inl sameText
          · obtain rfl := called.unique calls
            exact .inr ⟨Option.some.inj (asked.symm.trans register), sameText⟩
        rw [readBody_of_isCalled called enough,
          readBody_of_isCalled otherCalled (sameLength.symm.trans enough),
          sameReferences]
      · rw [readBody, readBody, readStatement, readStatement, ← sameOpcode, named,
          ← sameLength]
        simp only [enough, ↓reduceIte]
        rfl

/-- A line is read alike from tokens with the same texts. -/
theorem readTokens_alike
    {number : Nat}
    {first second : List Token}
    (same : SameTexts (first.map Token.text) (second.map Token.text)) :
    (readTokens number first).respell .plain =
      (readTokens number second).respell .plain := by
  induction first generalizing second with
  | nil =>
      cases second with
      | nil =>
          rfl
      | cons token rest =>
          cases same
  | cons token rest inductionHypothesis =>
      cases second with
      | nil =>
          cases same
      | cons other others =>
          obtain ⟨text, column⟩ := token
          obtain ⟨otherText, otherColumn⟩ := other
          simp only [List.map_cons] at same
          cases same with
          | label defining later =>
              have sameLine := inductionHypothesis later
              rw [readTokens_cons_of_isDefinition number ⟨text, column⟩ rest defining,
                readTokens_cons_of_isDefinition number ⟨text, otherColumn⟩ others
                  defining]
              exact congrArg
                (fun line : Line =>
                  { line with labels := ⟨definedName text, 0⟩ :: line.labels })
                sameLine
          | instruction notDefining sameMnemonic alike =>
              have otherNotDefining := sameMnemonic.isDefinition.symm.trans notDefining
              rw [readTokens_cons_of_not_isDefinition number ⟨text, column⟩ rest
                  notDefining,
                readTokens_cons_of_not_isDefinition number ⟨otherText, otherColumn⟩
                  others otherNotDefining]
              exact congrArg (Line.mk number []) (readBody_alike sameMnemonic alike)

/-- Sources are read alike when their tokens have the same texts. -/
theorem readLines_alike
    {number : Nat}
    {lines others : List (List Char)}
    (same : List.Forall₂ SameTexts
      (lines.map fun line => (tokens line).map Token.text)
      (others.map fun line => (tokens line).map Token.text)) :
    (readLines number lines).map (Line.respell .plain) =
      (readLines number others).map (Line.respell .plain) := by
  rw [List.forall₂_map_left_iff, List.forall₂_map_right_iff] at same
  induction same generalizing number with
  | nil =>
      rfl
  | cons sameLine _ inductionHypothesis =>
      have later := @inductionHypothesis (number + 1)
      rw [readLines, readLines] at later ⊢
      rw [List.zipIdx_cons, List.zipIdx_cons, List.map_cons, List.map_cons,
        List.map_cons, List.map_cons, later]
      congr 1
      exact readTokens_alike sameLine

end Reading

theorem finding_eq_of_respell
    {first second : List Diagnostic}
    (same : first.map (Diagnostic.respell .plain) =
      second.map (Diagnostic.respell .plain)) :
    first.map Diagnostic.finding = second.map Diagnostic.finding := by
  have found : ∀ diagnostics : List Diagnostic, diagnostics.map Diagnostic.finding =
      (diagnostics.map (Diagnostic.respell .plain)).map fun diagnostic =>
        (diagnostic.line, diagnostic.cause) := by
    intro diagnostics
    rw [List.map_map]
    rfl
  rw [found, found, same]

/--
Every line has as its tokens the maximal runs of its code.  Sources whose lines have
tokens with the same texts, up to letter case in mnemonics and registers, are both
assembled, to the same image with the same findings in the same lines, or are both
not assembled, because of the same finding and with the same ones before it.
-/
theorem assemble_depends_on_texts :
    (∀ line, TokensOf line (tokens line)) ∧
      ∀ first second, List.Forall₂ SameTexts (tokenTexts first) (tokenTexts second) →
        (∃ assembly other, assemble first = .ok assembly ∧
          assemble second = .ok other ∧ assembly.image = other.image ∧
          assembly.diagnostics.map Diagnostic.finding =
            other.diagnostics.map Diagnostic.finding) ∨
        ∃ fatal skipped otherFatal otherSkipped,
          assemble first = .error (.aborted fatal skipped) ∧
          assemble second = .error (.aborted otherFatal otherSkipped) ∧
          fatal.finding = otherFatal.finding ∧
          skipped.map Diagnostic.finding = otherSkipped.map Diagnostic.finding := by
  refine ⟨tokensOf_tokens, fun first second same => ?_⟩
  -- Respelled alike, the lines are the same, and respelling keeps image and outcome.
  have sameLines : (readSource first).map (Line.respell .plain) =
      (readSource second).map (Line.respell .plain) :=
    readLines_alike same
  have sameAbortion := abortion?_respell .plain (readSource first)
  rw [sameLines, abortion?_respell] at sameAbortion
  cases firstFatal : abortion? (readSource first) with
  | none =>
      rw [firstFatal, Option.map_none, Option.map_eq_none_iff] at sameAbortion
      have sameImage := imageOf_respell .plain (readSource first)
      rw [sameLines, imageOf_respell] at sameImage
      have sameErrors := errorsFrom_respell .plain [] (resolve (readSource first))
      rw [← resolve_respell, sameLines, resolve_respell, errorsFrom_respell]
        at sameErrors
      left
      exact ⟨_, _, assemble_eq_ok_iff.mpr ⟨abortion?_eq_none_iff.mp firstFatal, rfl⟩,
        assemble_eq_ok_iff.mpr ⟨abortion?_eq_none_iff.mp sameAbortion, rfl⟩,
        sameImage.symm, finding_eq_of_respell sameErrors.symm⟩
  | some ended =>
      obtain ⟨fatal, skipped⟩ := ended
      rw [firstFatal, Option.map_some, Option.map_eq_some_iff] at sameAbortion
      obtain ⟨⟨otherFatal, otherSkipped⟩, secondFatal, sameErrors⟩ := sameAbortion
      obtain ⟨sameFatal, sameSkipped⟩ := Prod.mk.inj sameErrors
      right
      refine ⟨fatal, skipped, otherFatal, otherSkipped, ?_, ?_, ?_, ?_⟩
      · rw [assemble, firstFatal]
      · rw [assemble, secondFatal]
      · exact (congrArg (fun diagnostic : Diagnostic =>
          (diagnostic.line, diagnostic.cause)) sameFatal).symm
      · exact finding_eq_of_respell sameSkipped.symm

/-- Two lines with instructions, and between them one whose mnemonic is unknown. -/
private def spaced : String :=
  "again: INC r1 ; count\nfoo 1, 2\nJMP R1"

/-- The same lines with other separators, comments and letter cases. -/
private def crowded : String :=
  "again:,inc\tR1,#\n,FOO,1 2\n  jmp r1;"

/-- The only operand of an instruction is a register, in either letter case. -/
theorem argumentsAlike_of_register
    {mnemonic argument other : String}
    {opcode : Opcode}
    (called : opcode.IsCalled mnemonic)
    (layout : opcode.layout = [.register])
    (sameText : SameUpToCase argument other) :
    ArgumentsAlike mnemonic [argument] [other] := by
  refine ⟨rfl, fun place first second isFirst isSecond => ?_⟩
  cases place with
  | zero =>
      cases isFirst
      cases isSecond
      exact .inr ⟨⟨opcode, called, by rw [layout]; rfl⟩, sameText⟩
  | succ place =>
      cases isFirst

private theorem sameTexts_crowded :
    List.Forall₂ SameTexts (tokenTexts spaced) (tokenTexts crowded) := by
  have spacedTexts : tokenTexts spaced =
      [["again:", "INC", "r1"], ["foo", "1", "2"], ["JMP", "R1"]] := by
    decide +kernel
  have crowdedTexts : tokenTexts crowded =
      [["again:", "inc", "R1"], ["FOO", "1", "2"], ["jmp", "r1"]] := by
    decide +kernel
  have increments : Opcode.inc.IsCalled "INC" :=
    Opcode.ofName?_eq_some_iff.mp (by decide +kernel)
  have jumps : Opcode.jump.IsCalled "JMP" :=
    Opcode.ofName?_eq_some_iff.mp (by decide +kernel)
  rw [spacedTexts, crowdedTexts]
  refine .cons ?_ (.cons ?_ (.cons ?_ .nil))
  · exact .label (by decide) (.instruction (by decide) (by decide)
      (argumentsAlike_of_register increments rfl (by decide)))
  · refine .instruction (by decide) (by decide) ⟨rfl, ?_⟩
    intro place argument other isFirst isSecond
    exact .inl (Option.some.inj (isFirst.symm.trans isSecond))
  · exact .instruction (by decide) (by decide)
      (argumentsAlike_of_register jumps rfl (by decide))

/-- Both are assembled to the same image, with the unknown mnemonic in the same line. -/
theorem assemble_depends_on_texts_crowded :
    ∃ other,
      assemble spaced =
        .ok ⟨[9, 1, 16, 1], [⟨2, 1, .unknownMnemonic "foo"⟩]⟩ ∧
      assemble crowded = .ok other ∧ other.image = [9, 1, 16, 1] ∧
      other.diagnostics.map Diagnostic.finding = [(2, .unknownMnemonic "FOO")] := by
  have assembled : assemble spaced =
      .ok ⟨[9, 1, 16, 1], [⟨2, 1, .unknownMnemonic "foo"⟩]⟩ :=
    assemble_eq_ok_iff.mpr ⟨by decide +kernel, by decide +kernel⟩
  rcases assemble_depends_on_texts.2 spaced crowded sameTexts_crowded with
      ⟨assembly, other, first, second, image, found⟩ | ⟨_, _, _, _, failed, _⟩
  · obtain rfl := Except.ok.inj (assembled.symm.trans first)
    exact ⟨other, assembled, second, image.symm, found.symm.trans (by decide +kernel)⟩
  · cases assembled.symm.trans failed

end RegisterMachine.Assembly
