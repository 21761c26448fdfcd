import Mathlib.Data.List.Nodup
import RegisterMachine.Proofs.Assembly.Alike

namespace RegisterMachine.Assembly

/-!
# Skipped lines

A line whose instruction is in error is assembled like its labels alone.  When
the instructions in error are cut out of a source, the image stays the same, and
of the diagnostics exactly those about labels are left.
-/

/-- Whether the error skips an instruction. -/
def SyntaxError.skipsInstruction : SyntaxError → Bool
  | .unknownMnemonic _ | .arityMismatch _ _ _ | .expectedImmediate _
  | .invalidImmediate _ | .undefinedLabel _ => true
  | _ => false

/-- Whether the error skips a label definition. -/
def SyntaxError.skipsLabel : SyntaxError → Bool
  | .invalidLabel _ | .duplicateLabel _ => true
  | _ => false

/-- Whether some diagnostic says that the instruction of a line was skipped. -/
def isSkipped (diagnostics : List Diagnostic) (number : Nat) : Bool :=
  diagnostics.any fun diagnostic =>
    diagnostic.line == number && diagnostic.cause.skipsInstruction

/-- The part of a line that is left when its instruction is cut out, if skipped. -/
def cutSkipped (diagnostics : List Diagnostic) (number : Nat) (line : List Char) :
    List Char :=
  if isSkipped diagnostics number then beforeInstruction line else line

/-- A source with each skipped instruction cut out of its line. -/
def withoutSkipped (diagnostics : List Diagnostic) (source : String) : String :=
  String.ofList (Text.mapLines (cutSkipped diagnostics) source.toList)

/-- A line that was read, without its instruction, if skipped. -/
def Line.cut (diagnostics : List Diagnostic) (line : Line) : Line :=
  if isSkipped diagnostics line.number then { line with body := .empty } else line

/-- A line with no error in the place of its instruction. -/
def Line.clear (line : Line) : Line :=
  match line.rejection? with
  | none => line
  | some _ => { line with body := .empty }

section Errors

theorem skipsInstruction_of_readReference
    {kind : Operand.Kind}
    {token : Token}
    {cause : SyntaxError}
    (read : readReference kind token = .error cause) :
    cause.isFatal = true ∨ cause.skipsInstruction = true := by
  cases kind with
  | register =>
      simp only [readReference] at read
      split at read
      · cases read
      · cases read
        exact .inl rfl
  | word =>
      simp only [readReference, readWord] at read
      split at read
      · cases read
        exact .inr rfl
      · split at read
        · cases read
        · split at read
          · cases read
          · cases read
            exact .inr rfl

theorem skipsInstruction_of_readReferences
    {number : Nat}
    {kinds : List Operand.Kind}
    {arguments : List Token}
    {diagnostic : Diagnostic}
    (read : readReferences number kinds arguments = .error diagnostic) :
    diagnostic.line = number ∧
      (diagnostic.isFatal = true ∨ diagnostic.cause.skipsInstruction = true) := by
  induction kinds generalizing arguments with
  | nil =>
      cases read
  | cons kind kinds inductionHypothesis =>
      cases arguments with
      | nil =>
          cases read
      | cons token rest =>
          simp only [readReferences] at read
          split at read
          · next cause failed =>
              cases read
              exact ⟨rfl, skipsInstruction_of_readReference failed⟩
          · split at read
            · next found failed =>
                cases read
                exact inductionHypothesis failed
            · cases read

/-- An instruction in error ends the assembly or is skipped. -/
theorem skipsInstruction_of_readBody
    {number : Nat}
    {tokens : List Token}
    {diagnostic : Diagnostic}
    (read : readBody number tokens = .rejected diagnostic) :
    diagnostic.line = number ∧
      (diagnostic.isFatal = true ∨ diagnostic.cause.skipsInstruction = true) := by
  cases tokens with
  | nil =>
      cases read
  | cons mnemonic arguments =>
      simp only [readBody, readStatement] at read
      split at read
      · next found failed =>
          cases read
          split at failed
          · cases failed
            exact ⟨rfl, .inr rfl⟩
          · split at failed
            · split at failed
              · next error operandsFailed =>
                  cases failed
                  exact skipsInstruction_of_readReferences operandsFailed
              · cases failed
            · cases failed
              exact ⟨rfl, .inr rfl⟩
      · cases read

end Errors

/-- Lines whose errors stand at their own line and skip their own instruction. -/
def SkipOnly (lines : List Line) : Prop :=
  ∀ line ∈ lines, ∀ diagnostic, line.rejection? = some diagnostic →
    diagnostic.line = line.number ∧ diagnostic.cause.skipsInstruction = true

section Reading

/-- What stands before an instruction is read as the labels of the line. -/
theorem readLine_beforeInstruction
    (number : Nat)
    (line : List Char) :
    readLine number (beforeInstruction line) =
      { readLine number line with body := .empty } := by
  have labels :
      ((tokens line).takeWhile fun token => isDefinition token.text).takeWhile
          (fun token => isDefinition token.text) =
        (tokens line).takeWhile fun token => isDefinition token.text :=
    List.takeWhile_eq_self_iff.mpr fun _ => List.mem_takeWhile_imp
  have noInstruction :
      ((tokens line).takeWhile fun token => isDefinition token.text).dropWhile
        (fun token => isDefinition token.text) = [] :=
    List.dropWhile_eq_nil_iff.mpr fun _ => List.mem_takeWhile_imp
  rw [readLine, tokens_beforeInstruction, readTokens, labels, noInstruction]
  rfl

theorem readLine_cutSkipped
    (diagnostics : List Diagnostic)
    (number : Nat)
    (line : List Char) :
    readLine number (cutSkipped diagnostics number line) =
      (readLine number line).cut diagnostics := by
  have sameNumber : (readLine number line).number = number := rfl
  rw [cutSkipped, Line.cut, sameNumber]
  split
  · exact readLine_beforeInstruction number line
  · rfl

theorem readLine_append_returnOf
    (number : Nat)
    (line piece : List Char) :
    readLine number (line ++ Text.returnOf piece) = readLine number line := by
  rw [Text.returnOf]
  split
  · rw [readLine, tokens_append_return, readLine]
  · rw [List.append_nil]

/-- Pieces with skipped instructions cut out are read as cut lines. -/
theorem readLines_mapPieces
    (diagnostics : List Diagnostic)
    (first : Nat)
    (pieces : List (List Char)) :
    readLines first
        ((Text.mapPieces (cutSkipped diagnostics) first pieces).map
          Text.dropReturn) =
      (readLines first (pieces.map Text.dropReturn)).map
        (Line.cut diagnostics) := by
  induction pieces generalizing first with
  | nil =>
      rfl
  | cons piece rest inductionHypothesis =>
      have readLines_cons : ∀ line lines,
          readLines first (line :: lines) =
            readLine first line :: readLines (first + 1) lines :=
        fun _ _ => rfl
      cases rest with
      | nil =>
          simp only [Text.mapPieces, List.map_cons, readLines_cons,
            readLine_dropReturn, readLine_cutSkipped]
          rfl
      | cons next others =>
          rw [List.map_cons, readLines_cons, List.map_cons,
            ← inductionHypothesis, ← readLine_cutSkipped, Text.mapPieces,
            List.map_cons, readLines_cons, readLine_dropReturn,
            readLine_append_returnOf]
          exact List.cons_ne_nil next others

theorem cutSkipped_clean
    (diagnostics : List Diagnostic)
    (number : Nat)
    (line : List Char)
    (clean : '\n' ∉ line) :
    '\n' ∉ cutSkipped diagnostics number line := by
  rw [cutSkipped]
  split
  · exact fun member => clean ((beforeInstruction_isPrefix line).subset member)
  · exact clean

/-- Cutting skipped instructions out of a source cuts them out of its lines. -/
theorem assembledAlike_withoutSkipped
    (diagnostics : List Diagnostic)
    (source : String) :
    AssembledAlike
      ((readLines 1 ((Text.pieces source.toList).map Text.dropReturn)).map
        (Line.cut diagnostics))
      (readSource (withoutSkipped diagnostics source)) := by
  have pieces := Text.pieces_mapLines (cutSkipped diagnostics)
    (cutSkipped_clean diagnostics) source.toList
  have alike := assembledAlike_pieces 1
    (Text.mapPieces (cutSkipped diagnostics) 1 (Text.pieces source.toList))
  rw [readLines_mapPieces, ← pieces] at alike
  rw [readSource, withoutSkipped, String.toList_ofList]
  exact alike

end Reading

section Clearing

variable {lines : List Line}

theorem definitions_clear (line : Line) :
    line.clear.definitions = line.definitions := by
  rw [Line.clear]
  split <;> rfl

theorem statement?_clear (line : Line) :
    line.clear.statement? = line.statement? := by
  rw [Line.clear, Line.rejection?, Line.statement?, Line.statement?]
  cases shape : line.body with
  | rejected diagnostic =>
      rfl
  | empty | statement =>
      simp only [shape]

theorem rejection?_clear (line : Line) :
    line.clear.rejection? = none := by
  rw [Line.clear]
  cases found : line.rejection? with
  | none =>
      exact found
  | some diagnostic =>
      rfl

theorem offsetsFrom_clear
    (offset : Nat)
    (lines : List Line) :
    offsetsFrom offset (lines.map Line.clear) = offsetsFrom offset lines := by
  induction lines generalizing offset with
  | nil =>
      rfl
  | cons line rest inductionHypothesis =>
      rw [List.map_cons, offsetsFrom, offsetsFrom, inductionHypothesis,
        definitions_clear, Line.size, Line.size, statement?_clear]

/-- Lines that are left the same, but for errors, have the same image. -/
theorem imageOf_of_resolve_eq_clear
    {others : List Line}
    (cleared : resolve others = (resolve lines).map Line.clear) :
    imageOf others = imageOf lines := by
  rw [imageOf, cleared, offsetsFrom_clear, List.flatMap_map]
  simp only [Line.bytes, statement?_clear]
  rfl

theorem skipsLabel_of_mem_labelErrors
    {number : Nat}
    {earlier : List String}
    {labels : List Token}
    {diagnostic : Diagnostic}
    (member : diagnostic ∈ labelErrors number earlier labels) :
    diagnostic.cause.skipsLabel = true := by
  induction labels generalizing earlier with
  | nil =>
      cases member
  | cons label rest inductionHypothesis =>
      rw [labelErrors] at member
      split at member
      · split at member
        · rcases List.mem_cons.mp member with rfl | later
          · rfl
          · exact inductionHypothesis later
        · exact inductionHypothesis member
      · rcases List.mem_cons.mp member with rfl | later
        · rfl
        · exact inductionHypothesis later

theorem not_skipsLabel_of_skipsInstruction
    {cause : SyntaxError}
    (skips : cause.skipsInstruction = true) :
    cause.skipsLabel = false := by
  cases cause <;> first | rfl | cases skips

/-- Clearing lines leaves their errors in labels. -/
theorem errorsFrom_clear
    (skipOnly : SkipOnly lines)
    (earlier : List String) :
    errorsFrom earlier (lines.map Line.clear) =
      (errorsFrom earlier lines).filter
        fun diagnostic => diagnostic.cause.skipsLabel := by
  induction lines generalizing earlier with
  | nil =>
      rfl
  | cons line rest inductionHypothesis =>
      obtain ⟨lineSkips, restSkips⟩ := List.forall_mem_cons.mp skipOnly
      have labels :
          (labelErrors line.number earlier line.labels).filter
              (fun diagnostic => diagnostic.cause.skipsLabel) =
            labelErrors line.number earlier line.labels :=
        List.filter_eq_self.mpr fun _ => skipsLabel_of_mem_labelErrors
      have instruction :
          line.rejection?.toList.filter
            (fun diagnostic => diagnostic.cause.skipsLabel) = [] := by
        rw [List.filter_eq_nil_iff]
        intro diagnostic member
        have skips := (lineSkips diagnostic (Option.mem_toList.mp member)).2
        rw [not_skipsLabel_of_skipsInstruction skips]
        exact Bool.false_ne_true
      have sameNumber : line.clear.number = line.number ∧
          line.clear.labels = line.labels := by
        rw [Line.clear]
        split <;> exact ⟨rfl, rfl⟩
      rw [List.map_cons, errorsFrom, errorsFrom, List.filter_append,
        List.filter_append, labels, instruction, rejection?_clear,
        sameNumber.1, sameNumber.2, definitions_clear,
        inductionHypothesis restSkips]
      rfl

end Clearing

section Cutting

theorem isSkipped_append
    (diagnostics others : List Diagnostic)
    (number : Nat) :
    isSkipped (diagnostics ++ others) number =
      (isSkipped diagnostics number || isSkipped others number) :=
  List.any_append

theorem isSkipped_labelErrors
    (number other : Nat)
    (earlier : List String)
    (labels : List Token) :
    isSkipped (labelErrors number earlier labels) other = false := by
  rw [isSkipped, List.any_eq_false]
  intro diagnostic member
  have labelled := skipsLabel_of_mem_labelErrors member
  cases skips : diagnostic.cause.skipsInstruction with
  | false =>
      simp
  | true =>
      rw [not_skipsLabel_of_skipsInstruction skips] at labelled
      cases labelled

/-- The skipped lines are those with an error in the place of their instruction. -/
theorem isSkipped_errorsFrom_iff
    {lines : List Line}
    (skipOnly : SkipOnly lines)
    {earlier : List String}
    {number : Nat} :
    isSkipped (errorsFrom earlier lines) number = true ↔
      ∃ line ∈ lines, line.number = number ∧ line.rejection?.isSome := by
  induction lines generalizing earlier with
  | nil =>
      simp [errorsFrom, isSkipped]
  | cons line rest inductionHypothesis =>
      obtain ⟨lineSkips, restSkips⟩ := List.forall_mem_cons.mp skipOnly
      have here :
          isSkipped line.rejection?.toList number = true ↔
            line.number = number ∧ line.rejection?.isSome := by
        cases found : line.rejection? with
        | none =>
            simp [isSkipped]
        | some diagnostic =>
            obtain ⟨place, skips⟩ := lineSkips diagnostic found
            simp [isSkipped, place, skips]
      rw [errorsFrom, isSkipped_append, isSkipped_append, isSkipped_labelErrors,
        Bool.false_or, Bool.or_eq_true, here, inductionHypothesis restSkips]
      simp only [List.exists_mem_cons_iff]

theorem definedNames_cut
    (diagnostics : List Diagnostic)
    (lines : List Line) :
    definedNames (lines.map (Line.cut diagnostics)) = definedNames lines := by
  rw [definedNames, List.flatMap_map, definedNames]
  congr 1
  funext line
  rw [Line.cut]
  split <;> rfl

/-- Cutting the skipped instructions out clears the lines that are left. -/
theorem resolve_cut
    {lines : List Line}
    (skipOnly : SkipOnly (resolve lines))
    (distinct : (lines.map Line.number).Nodup) :
    resolve (lines.map (Line.cut (errorsFrom [] (resolve lines)))) =
      (resolve lines).map Line.clear := by
  -- No two lines have the same number, so that an error belongs to one line.
  have isSkipped_iff : ∀ line ∈ lines,
      isSkipped (errorsFrom [] (resolve lines)) line.number = true ↔
        (line.resolve (definedNames lines)).rejection?.isSome := by
    intro line member
    rw [isSkipped_errorsFrom_iff skipOnly]
    constructor
    · rintro ⟨_, inResolved, sameNumber, rejected⟩
      obtain ⟨other, otherMember, rfl⟩ := List.mem_map.mp inResolved
      rw [(number_labels_resolve _ other).1] at sameNumber
      obtain rfl :=
        List.inj_on_of_nodup_map distinct otherMember member sameNumber
      exact rejected
    · intro rejected
      exact ⟨_, List.mem_map_of_mem member, (number_labels_resolve _ line).1,
        rejected⟩
  rw [resolve, definedNames_cut, List.map_map]
  conv_rhs => rw [resolve, List.map_map]
  apply List.map_congr_left
  intro line member
  have skippedHere := isSkipped_iff line member
  obtain ⟨sameNumber, sameLabels⟩ :=
    number_labels_resolve (definedNames lines) line
  rw [Function.comp_apply, Function.comp_apply, Line.cut, Line.clear]
  cases found : (line.resolve (definedNames lines)).rejection? with
  | none =>
      rw [found] at skippedHere
      rw [if_neg (by simp [skippedHere])]
  | some diagnostic =>
      rw [found] at skippedHere
      rw [if_pos (by simp [skippedHere])]
      simp only [sameNumber, sameLabels]
      rfl

theorem nodup_number_readLines
    (first : Nat)
    (texts : List (List Char)) :
    ((readLines first texts).map Line.number).Nodup := by
  have numbers : (readLines first texts).map Line.number =
      (texts.zipIdx first).map Prod.snd := by
    rw [readLines, List.map_map]
    rfl
  rw [numbers, List.zipIdx_map_snd]
  exact List.nodup_range'

/-- Lines that do not end the assembly only skip instructions of their own. -/
theorem skipOnly_resolve_readLines
    {first : Nat}
    {texts : List (List Char)}
    (accepted : ∀ line ∈ readLines first texts, line.fatal? = none) :
    SkipOnly (resolve (readLines first texts)) := by
  intro resolved member diagnostic rejected
  obtain ⟨line, inLines, rfl⟩ := List.mem_map.mp member
  have notFatal := accepted line inLines
  obtain ⟨⟨text, number⟩, _, rfl⟩ := List.mem_map.mp inLines
  rw [(number_labels_resolve _ _).1]
  rw [Line.resolve] at rejected
  split at rejected
  · next statement body =>
      split at rejected
      · rw [Line.rejection?, body] at rejected
        cases rejected
      · cases rejected
        exact ⟨rfl, rfl⟩
  · rw [Line.rejection?] at rejected
    split at rejected
    · next found body =>
        cases rejected
        obtain ⟨place, fatal | skips⟩ := skipsInstruction_of_readBody body
        · rw [Line.fatal?, Line.rejection?, body, Option.filter_some,
            if_pos fatal] at notFatal
          cases notFatal
        · exact ⟨place, skips⟩
    · cases rejected

end Cutting

/--
A source stays the same program when each skipped instruction is cut out of its
line, just before the first token that defines no label.  The image is the same,
and the diagnostics are those about labels, with their lines, columns and order.
-/
theorem assemble_withoutSkipped
    {source : String}
    {assembly : Assembled}
    (succeeded : assemble source = .ok assembly) :
    assemble (withoutSkipped assembly.diagnostics source) =
      .ok ⟨assembly.image,
        assembly.diagnostics.filter
          fun diagnostic => diagnostic.cause.skipsLabel⟩ := by
  have alike : AssembledAlike
      (readLines 1 ((Text.pieces source.toList).map Text.dropReturn))
      (readSource source) :=
    assembledAlike_pieces 1 _
  obtain ⟨accepted, rfl⟩ := (assemble_eq_ok_iff_of_alike alike).mp succeeded
  have skipOnly := skipOnly_resolve_readLines accepted
  have cleared := resolve_cut skipOnly (nodup_number_readLines 1 _)
  refine (assemble_eq_ok_iff_of_alike (assembledAlike_withoutSkipped _ _)).mpr
    ⟨?_, ?_⟩
  · intro cut member
    obtain ⟨line, inLines, rfl⟩ := List.mem_map.mp member
    rw [Line.cut]
    split
    · rfl
    · exact accepted line inLines
  · rw [imageOf_of_resolve_eq_clear cleared, cleared, errorsFrom_clear skipOnly]

/-- A source with three lines that are skipped, two of which define a label. -/
private def skippedLines : String :=
  "a: bogus R1\r\nLOAD R0, a ; here\na: INC R1, R2\nLOAD R2, missing"

/-- Without the instructions of three lines only the second label is reported. -/
theorem assemble_withoutSkipped_skippedLines :
    ∃ diagnostics, assemble skippedLines =
        .ok ⟨[1, 0, 0, 0, 0, 0, 0, 0, 0, 0], diagnostics⟩ ∧
      withoutSkipped diagnostics skippedLines =
        "a: \r\nLOAD R0, a ; here\na: \n" ∧
      assemble "a: \r\nLOAD R0, a ; here\na: \n" =
        .ok ⟨[1, 0, 0, 0, 0, 0, 0, 0, 0, 0], [⟨3, 1, .duplicateLabel "a"⟩]⟩ := by
  have succeeded :
      assemble skippedLines =
        .ok ⟨[1, 0, 0, 0, 0, 0, 0, 0, 0, 0],
          [⟨1, 4, .unknownMnemonic "bogus"⟩, ⟨3, 1, .duplicateLabel "a"⟩,
            ⟨3, 4, .arityMismatch "INC" 1 2⟩,
            ⟨4, 10, .undefinedLabel "missing"⟩]⟩ :=
    assemble_eq_ok_iff.mpr ⟨by decide +kernel, by decide +kernel⟩
  have cut :
      withoutSkipped
          [⟨1, 4, .unknownMnemonic "bogus"⟩, ⟨3, 1, .duplicateLabel "a"⟩,
            ⟨3, 4, .arityMismatch "INC" 1 2⟩,
            ⟨4, 10, .undefinedLabel "missing"⟩]
          skippedLines =
        "a: \r\nLOAD R0, a ; here\na: \n" := by
    decide +kernel
  have again := assemble_withoutSkipped succeeded
  rw [cut] at again
  exact ⟨_, succeeded, cut, again⟩

end RegisterMachine.Assembly
