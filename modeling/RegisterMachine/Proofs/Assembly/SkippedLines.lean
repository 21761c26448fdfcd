import RegisterMachine.Proofs.Assembly.Diagnostics
import RegisterMachine.Proofs.Assembly.Skipping

namespace RegisterMachine.Assembly

/-!
# Counting skipped lines by their diagnostics

An error of an instruction skips the instruction, and a line has at most one.  An
error of a label skips the label only: the instruction behind it is emitted, and
what else is wrong with the line is reported as well.  So there is one diagnostic
for each skipped line, and none for other lines, exactly when each error of a
label is alone on a line that has no instruction (`countsSkippedLines_iff`).
-/

/--
The diagnostics stand for the skipped lines: no two are about the same line, and a
line with an instruction has no entry exactly when one of them is about it.
-/
structure CountsSkippedLines (lines : List (List Char))
    (slots : List (Option Image.Entry)) (diagnostics : List Diagnostic) :
    Prop where
  once :
    (diagnostics.map Diagnostic.line).Nodup
  skipped :
    ∀ (index : Nat) (line : List Char), lines[index]? = some line →
      instructionTokens line ≠ [] →
        (slots[index]? = some none ↔
          ∃ diagnostic ∈ diagnostics, diagnostic.line = 1 + index)

/-- The diagnostic is the only one of its line, which has no instruction. -/
structure Diagnostic.IsAlone (lines : List (List Char))
    (diagnostics : List Diagnostic) (diagnostic : Diagnostic) : Prop where
  noInstruction :
    ∀ (index : Nat) (line : List Char), lines[index]? = some line →
      diagnostic.line = 1 + index → instructionTokens line = []
  only :
    ∀ other ∈ diagnostics, other.line = diagnostic.line → other = diagnostic

theorem isSkipped_iff
    {diagnostics : List Diagnostic}
    {number : Nat} :
    isSkipped diagnostics number = true ↔
      ∃ diagnostic ∈ diagnostics, diagnostic.line = number ∧
        diagnostic.cause.skipsInstruction = true := by
  simp only [isSkipped, List.any_eq_true, Bool.and_eq_true, beq_iff_eq]

section Kinds

/-- What is wrong with an instruction skips it. -/
theorem InstructionError.skipsInstruction
    {defined : List String}
    {tokens : List Token}
    {token : Token}
    {cause : SyntaxError}
    (error : InstructionError defined tokens token cause) :
    cause.skipsInstruction = true := by
  cases error with
  | reading error =>
      cases error with
      | unknownMnemonic | arityMismatch =>
          rfl
      | word _ _ error =>
          cases error <;> rfl
  | undefinedLabel =>
      rfl

variable {lines : List (List Char)} {index : Nat} {line : List Char}
  {token : Token} {cause : SyntaxError}

/-- A line is in error in a label or in its instruction. -/
theorem SourceError.skipsLabel_eq
    (error : SourceError lines index line token cause) :
    cause.skipsLabel = !cause.skipsInstruction := by
  cases error with
  | invalidLabel | duplicateLabel =>
      rfl
  | instruction error =>
      rw [error.skipsInstruction,
        not_skipsLabel_of_skipsInstruction error.skipsInstruction]
      rfl

theorem SourceError.instructionError
    (error : SourceError lines index line token cause)
    (skips : cause.skipsInstruction = true) :
    InstructionError (lines.flatMap namesDefined) (instructionTokens line) token
      cause := by
  cases error with
  | invalidLabel | duplicateLabel =>
      cases skips
  | instruction error =>
      exact error

end Kinds

section Source

variable {source : String}
  (good : ∀ line ∈ Text.lines source.toList, ¬ BreaksOff line)
include good

/-- A line has its instruction skipped exactly when this is in error. -/
theorem isSkipped_errors_iff
    {index : Nat}
    {line : List Char}
    (found : (Text.lines source.toList)[index]? = some line) :
    isSkipped (errorsFrom [] (resolve (readSource source))) (1 + index) = true ↔
      ∃ token cause, InstructionError
        ((Text.lines source.toList).flatMap namesDefined)
        (instructionTokens line) token cause := by
  rw [isSkipped_iff]
  constructor
  · rintro ⟨diagnostic, member, sameLine, skips⟩
    obtain ⟨other, text, token, cause, otherFound, error, rfl⟩ :=
      (mem_errors_readSource_iff good).mp member
    obtain rfl : other = index := Nat.add_left_cancel sameLine
    obtain rfl := Option.some.inj (otherFound.symm.trans found)
    exact ⟨token, cause, error.instructionError skips⟩
  · rintro ⟨token, cause, error⟩
    refine ⟨⟨1 + index, token.column, cause⟩, ?_, rfl, error.skipsInstruction⟩
    exact (mem_errors_readSource_iff good).mpr
      ⟨index, line, token, cause, found, .instruction error, rfl⟩

/-- A line with an instruction is left without an entry when the instruction is skipped. -/
theorem slot_eq_none_iff
    {index : Nat}
    {line : List Char}
    (found : (Text.lines source.toList)[index]? = some line)
    (hasTokens : instructionTokens line ≠ []) :
    (slots source)[index]? = some none ↔
      isSkipped (errorsFrom [] (resolve (readSource source))) (1 + index) =
        true := by
  have filled := (exists_slot_iff good found).trans (and_iff_right hasTokens)
  rw [isSkipped_errors_iff good found]
  cases slot : (slots source)[index]? with
  | none =>
      rw [getElem?_slots source found] at slot
      cases slot
  | some content =>
      rw [slot] at filled
      cases content with
      | none =>
          have notFine := filled.not.mp nofun
          push Not at notFine
          exact iff_of_true rfl notFine
      | some entry =>
          have fine := filled.mp ⟨entry, rfl⟩
          refine iff_of_false nofun ?_
          rintro ⟨token, cause, error⟩
          exact fine token cause error

theorem nodup_errors :
    (errorsFrom [] (resolve (readSource source))).Nodup := by
  refine (pairwise_precedes_errors_readSource good).imp ?_
  rintro first _ precedes rfl
  rcases precedes with smaller | ⟨_, smaller⟩ <;> exact Nat.lt_irrefl _ smaller

/-- At most one instruction of a line is skipped. -/
theorem eq_of_skipsInstruction
    {first second : Diagnostic}
    (firstMember : first ∈ errorsFrom [] (resolve (readSource source)))
    (secondMember : second ∈ errorsFrom [] (resolve (readSource source)))
    (firstSkips : first.cause.skipsInstruction = true)
    (secondSkips : second.cause.skipsInstruction = true)
    (sameLine : first.line = second.line) :
    first = second := by
  obtain ⟨index, line, token, cause, found, error, rfl⟩ :=
    (mem_errors_readSource_iff good).mp firstMember
  obtain ⟨other, text, another, later, otherFound, otherError, rfl⟩ :=
    (mem_errors_readSource_iff good).mp secondMember
  obtain rfl : index = other := Nat.add_left_cancel sameLine
  obtain rfl := Option.some.inj (found.symm.trans otherFound)
  obtain ⟨rfl, rfl⟩ := (error.instructionError firstSkips).unique
    (good line (List.mem_of_getElem? found))
    (otherError.instructionError secondSkips)
  rfl

theorem skipsLabel_eq_of_mem
    {diagnostic : Diagnostic}
    (member : diagnostic ∈ errorsFrom [] (resolve (readSource source))) :
    diagnostic.cause.skipsLabel = !diagnostic.cause.skipsInstruction := by
  obtain ⟨_, _, _, _, _, error, rfl⟩ := (mem_errors_readSource_iff good).mp member
  exact error.skipsLabel_eq

/--
The diagnostics stand for the skipped lines exactly when each error of a label is
alone on a line that has no instruction.
-/
theorem countsSkippedLines_iff :
    CountsSkippedLines (Text.lines source.toList) (slots source)
        (errorsFrom [] (resolve (readSource source))) ↔
      ∀ diagnostic ∈ errorsFrom [] (resolve (readSource source)),
        diagnostic.cause.skipsLabel = true →
          diagnostic.IsAlone (Text.lines source.toList)
            (errorsFrom [] (resolve (readSource source))) := by
  constructor
  · intro counts label member skipsLabel
    have only : ∀ other ∈ errorsFrom [] (resolve (readSource source)),
        other.line = label.line → other = label := fun other otherMember =>
      List.inj_on_of_nodup_map counts.once otherMember member
    refine ⟨?_, only⟩
    intro index line found sameLine
    by_contra hasTokens
    -- The line would be skipped, and so have an error of its instruction as well.
    have empty := (counts.skipped index line found hasTokens).mpr
      ⟨label, member, sameLine⟩
    have skipped := (slot_eq_none_iff good found hasTokens).mp empty
    obtain ⟨other, otherMember, otherLine, skips⟩ := isSkipped_iff.mp skipped
    obtain rfl := only other otherMember (otherLine.trans sameLine.symm)
    rw [not_skipsLabel_of_skipsInstruction skips] at skipsLabel
    cases skipsLabel
  · intro alone
    constructor
    · refine (nodup_errors good).map_on ?_
      intro first firstMember second secondMember sameLine
      cases firstSkips : first.cause.skipsInstruction with
      | false =>
          have label := skipsLabel_eq_of_mem good firstMember
          rw [firstSkips] at label
          exact ((alone first firstMember label).only second secondMember
            sameLine.symm).symm
      | true =>
          cases secondSkips : second.cause.skipsInstruction with
          | false =>
              have label := skipsLabel_eq_of_mem good secondMember
              rw [secondSkips] at label
              exact (alone second secondMember label).only first firstMember
                sameLine
          | true =>
              exact eq_of_skipsInstruction good firstMember secondMember firstSkips
                secondSkips sameLine
    · intro index line found hasTokens
      rw [slot_eq_none_iff good found hasTokens, isSkipped_iff]
      constructor
      · rintro ⟨diagnostic, member, sameLine, _⟩
        exact ⟨diagnostic, member, sameLine⟩
      · rintro ⟨diagnostic, member, sameLine⟩
        refine ⟨diagnostic, member, sameLine, ?_⟩
        cases skips : diagnostic.cause.skipsInstruction with
        | true =>
            rfl
        | false =>
            have label := skipsLabel_eq_of_mem good member
            rw [skips] at label
            exact (hasTokens ((alone diagnostic member label).noInstruction index
              line found sameLine)).elim

/-- There are as many diagnostics as skipped instructions and errors of labels. -/
theorem length_errors :
    (errorsFrom [] (resolve (readSource source))).length =
      (List.range' 1 (Text.lines source.toList).length).countP
          (isSkipped (errorsFrom [] (resolve (readSource source)))) +
        (errorsFrom [] (resolve (readSource source))).countP
          fun diagnostic => diagnostic.cause.skipsLabel := by
  let errors := errorsFrom [] (resolve (readSource source))
  let skipping := errors.filter fun diagnostic => diagnostic.cause.skipsInstruction
  have labels : errors.countP (fun diagnostic => diagnostic.cause.skipsLabel) =
      errors.countP fun diagnostic =>
        ¬ diagnostic.cause.skipsInstruction = true := by
    apply List.countP_congr
    intro diagnostic member
    rw [skipsLabel_eq_of_mem good member, Bool.not_eq_true', decide_eq_true_iff,
      Bool.not_eq_true]
  have distinct : (skipping.map Diagnostic.line).Nodup := by
    refine ((nodup_errors good).filter _).map_on ?_
    intro first firstMember second secondMember sameLine
    obtain ⟨inErrors, skips⟩ := List.mem_filter.mp firstMember
    obtain ⟨alsoInErrors, alsoSkips⟩ := List.mem_filter.mp secondMember
    exact eq_of_skipsInstruction good inErrors alsoInErrors skips alsoSkips sameLine
  have sameLines : ∀ number, number ∈ skipping.map Diagnostic.line ↔
      number ∈ (List.range' 1 (Text.lines source.toList).length).filter
        (isSkipped errors) := by
    intro number
    simp only [skipping, List.mem_map, List.mem_filter, isSkipped_iff,
      List.mem_range'_1, and_assoc]
    constructor
    · rintro ⟨diagnostic, member, skips, rfl⟩
      obtain ⟨index, line, token, cause, found, _, rfl⟩ :=
        (mem_errors_readSource_iff good).mp member
      obtain ⟨inside, _⟩ := List.getElem?_eq_some_iff.mp found
      exact ⟨Nat.le_add_right 1 index, Nat.add_lt_add_left inside 1, _, member,
        rfl, skips⟩
    · rintro ⟨_, _, diagnostic, member, sameLine, skips⟩
      exact ⟨diagnostic, member, skips, sameLine⟩
  have sameCount := ((List.perm_ext_iff_of_nodup distinct
    (List.Nodup.filter _ List.nodup_range')).mpr sameLines).length_eq
  rw [List.length_map, ← List.countP_eq_length_filter,
    ← List.countP_eq_length_filter] at sameCount
  rw [labels, ← sameCount]
  exact List.length_eq_countP_add_countP _

end Source

/--
A line of an assembled source that has an instruction is left without an entry
exactly when a diagnostic says that its instruction was skipped.  The number of
diagnostics is that of the skipped lines only if no label is in error, since every
error of a label adds one; and they stand for the skipped lines one by one exactly
when each error of a label is alone on a line that has no instruction.
-/
theorem countsSkippedLines_of_assemble
    {source : String}
    {assembly : Assembled}
    (assembled : assemble source = .ok assembly) :
    let lines := Text.lines source.toList
    ∃ slots, Placement lines slots ∧
      Image.decode assembly.image = .ok slots.reduceOption ∧
      (∀ (index : Nat) (line : List Char), lines[index]? = some line →
        instructionTokens line ≠ [] →
          (slots[index]? = some none ↔
            isSkipped assembly.diagnostics (1 + index) = true)) ∧
      assembly.diagnostics.length =
        (List.range' 1 lines.length).countP (isSkipped assembly.diagnostics) +
          assembly.diagnostics.countP
            (fun diagnostic => diagnostic.cause.skipsLabel) ∧
      (CountsSkippedLines lines slots assembly.diagnostics ↔
        ∀ diagnostic ∈ assembly.diagnostics,
          diagnostic.cause.skipsLabel = true →
            diagnostic.IsAlone lines assembly.diagnostics) := by
  intro lines
  obtain ⟨good, rfl⟩ := assembly_of_assemble assembled
  exact ⟨slots source, placement_slots source,
    Image.decodeFrom_encodeEntries (tiles_slots source),
    fun _ _ => slot_eq_none_iff good, length_errors good,
    countsSkippedLines_iff good⟩

/-- A source with a skipped line, one error of a label on it and one on its own. -/
private def skippedAndMisnamed : String := "a: INC R0\na: FOO\n9: ; no label\nHALT"

private def skippedAndMisnamedErrors : List Diagnostic :=
  [⟨2, 1, .duplicateLabel "a"⟩, ⟨2, 4, .unknownMnemonic "FOO"⟩,
    ⟨3, 1, .invalidLabel "9"⟩]

/-- Three diagnostics stand for a single line whose instruction was skipped. -/
theorem countsSkippedLines_of_assemble_skippedAndMisnamed :
    assemble skippedAndMisnamed = .ok ⟨[9, 0, 0], skippedAndMisnamedErrors⟩ ∧
      (List.range' 1 4).countP (isSkipped skippedAndMisnamedErrors) = 1 ∧
      ∃ slots, slots.reduceOption = [⟨0, .inc, [.register 0]⟩, ⟨2, .halt, []⟩] ∧
        ¬ CountsSkippedLines (Text.lines skippedAndMisnamed.toList) slots
          skippedAndMisnamedErrors := by
  have assembled : assemble skippedAndMisnamed =
      .ok ⟨[9, 0, 0], skippedAndMisnamedErrors⟩ :=
    assemble_eq_ok_iff.mpr ⟨by decide +kernel, by decide +kernel⟩
  obtain ⟨slots, _, decoded, _, counted, counts⟩ :=
    countsSkippedLines_of_assemble assembled
  have entries : Image.decode [9, 0, 0] =
      .ok [⟨0, .inc, [.register 0]⟩, ⟨2, .halt, []⟩] := by
    decide +kernel
  refine ⟨assembled, ?_, slots, Except.ok.inj (decoded.symm.trans entries), ?_⟩
  · have three : skippedAndMisnamedErrors.length = 3 := rfl
    have two : skippedAndMisnamedErrors.countP
        (fun diagnostic => diagnostic.cause.skipsLabel) = 2 := rfl
    have four : (Text.lines skippedAndMisnamed.toList).length = 4 := by
      decide +kernel
    simp only [three, two, four] at counted
    omega
  · intro stands
    have alone := counts.mp stands ⟨2, 1, .duplicateLabel "a"⟩
      List.mem_cons_self rfl
    cases alone.only ⟨2, 4, .unknownMnemonic "FOO"⟩ (by decide) rfl

/-- A source whose second line defines a label again, before an instruction. -/
private def duplicateWithInstruction : String := "a:\na: HALT"

/-- The line is reported, and its instruction is emitted all the same. -/
theorem not_countsSkippedLines_duplicate :
    ¬ ∀ source assembly, assemble source = .ok assembly →
      CountsSkippedLines (Text.lines source.toList) (slots source)
        assembly.diagnostics := by
  intro counts
  have assembled : assemble duplicateWithInstruction =
      .ok ⟨[0], [⟨2, 1, .duplicateLabel "a"⟩]⟩ :=
    assemble_eq_ok_iff.mpr ⟨by decide +kernel, by decide +kernel⟩
  have emitted : (slots duplicateWithInstruction)[1]? =
      some (some ⟨0, .halt, []⟩) := by
    decide +kernel
  have found : (Text.lines duplicateWithInstruction.toList)[1]? =
      some "a: HALT".toList := by
    decide +kernel
  have skipped := ((counts _ _ assembled).skipped 1 _ found (by decide +kernel)).mpr
    ⟨_, List.mem_cons_self, rfl⟩
  rw [emitted] at skipped
  cases skipped

end RegisterMachine.Assembly
