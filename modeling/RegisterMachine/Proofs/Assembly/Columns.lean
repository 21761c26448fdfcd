import Mathlib.Data.List.Nodup
import RegisterMachine.Proofs.Assembly.LineErrors
import RegisterMachine.Proofs.Assembly.TokenRuns

namespace RegisterMachine.Assembly

/-!
# Where diagnostics stand

The columns of the tokens of a line increase, and a column is the place of a
token in the line, counted in bytes.  A line reports first about its labels,
left to right, and then about its instruction, so that what lines report is in
the order of lines and columns, with no place reported twice.
-/

/-- A diagnostic is about an earlier line than another, or stands further left. -/
def Diagnostic.Precedes (first second : Diagnostic) : Prop :=
  first.line < second.line ∨
    first.line = second.line ∧ first.column < second.column

section Tokens

theorem le_column_of_mem_tokensFrom
    {column : Nat}
    {characters : List Char}
    {token : Token}
    (member : token ∈ tokensFrom column characters) :
    column ≤ token.column := by
  obtain ⟨before, _, _, _, rfl⟩ := mem_tokensFrom_iff.mp member
  exact Nat.le_add_right column (byteWidth before)

/-- The columns of tokens increase from left to right. -/
theorem pairwise_column_tokensFrom
    (column : Nat)
    (characters : List Char) :
    (tokensFrom column characters).Pairwise fun first second =>
      first.column < second.column := by
  fun_induction tokensFrom column characters with
  | case1 =>
      exact .nil
  | case2 column character rest here inductionHypothesis =>
      exact inductionHypothesis
  | case3 column character rest notHere run inductionHypothesis =>
      refine .cons ?_ inductionHypothesis
      intro later member
      have behind := le_column_of_mem_tokensFrom member
      have width : character.utf8Size ≤ byteWidth run := Nat.le_add_right _ _
      have positive := character.utf8Size_pos
      have wide : column < column + byteWidth run := by omega
      exact Nat.lt_of_lt_of_le wide behind

theorem pairwise_column_tokens (line : List Char) :
    (tokens line).Pairwise fun first second => first.column < second.column :=
  pairwise_column_tokensFrom 1 (codePart line)

/-- No two tokens of a line have the same column. -/
theorem eq_of_column_eq
    {line : List Char}
    {first second : Token}
    (firstMember : first ∈ tokens line)
    (secondMember : second ∈ tokens line)
    (sameColumn : first.column = second.column) :
    first = second := by
  have distinct : ((tokens line).map Token.column).Nodup :=
    (List.pairwise_map.mpr (pairwise_column_tokens line)).imp Nat.ne_of_lt
  exact List.inj_on_of_nodup_map distinct firstMember secondMember sameColumn

/-- A token is a part of the characters, at its column. -/
theorem exists_split_of_mem_tokensFrom
    {column : Nat}
    {characters : List Char}
    {token : Token}
    (member : token ∈ tokensFrom column characters) :
    ∃ before after, characters = before ++ token.text.toList ++ after ∧
      token.column = column + byteWidth before := by
  obtain ⟨before, run, after, isRun, rfl⟩ := mem_tokensFrom_iff.mp member
  rw [String.toList_ofList]
  exact ⟨before, after, isRun.whole, rfl⟩

/-- A token of a line stands behind as many bytes as its column says. -/
theorem exists_split_of_mem_tokens
    {line : List Char}
    {token : Token}
    (member : token ∈ tokens line) :
    ∃ before after, line = before ++ token.text.toList ++ after ∧
      token.column = byteWidth before + 1 := by
  obtain ⟨before, after, split, place⟩ := exists_split_of_mem_tokensFrom member
  have inLine : codePart line ++
      line.dropWhile (fun character => !isCommentMark character) = line :=
    List.takeWhile_append_dropWhile
  refine ⟨before, after ++ line.dropWhile fun character =>
    !isCommentMark character, ?_, by omega⟩
  rw [← List.append_assoc, ← split, inLine]

theorem definingTokens_append_instructionTokens (line : List Char) :
    definingTokens line ++ instructionTokens line = tokens line :=
  List.takeWhile_append_dropWhile

theorem definingTokens_subset (line : List Char) :
    definingTokens line ⊆ tokens line := by
  rw [← definingTokens_append_instructionTokens]
  exact List.subset_append_left _ _

theorem instructionTokens_subset (line : List Char) :
    instructionTokens line ⊆ tokens line := by
  rw [← definingTokens_append_instructionTokens]
  exact List.subset_append_right _ _

/-- An instruction stands behind the labels of its line. -/
theorem column_lt_of_mem
    {line : List Char}
    {label token : Token}
    (defining : label ∈ definingTokens line)
    (inInstruction : token ∈ instructionTokens line) :
    label.column < token.column := by
  have ordered := pairwise_column_tokens line
  rw [← definingTokens_append_instructionTokens] at ordered
  exact (List.pairwise_append.mp ordered).2.2 label defining token inInstruction

end Tokens

/--
Labels from left to right, and an instruction that is in error at this line and
behind the labels, if it is.
-/
structure Line.Ordered (line : Line) : Prop where
  labels :
    line.labels.Pairwise fun first second => first.column < second.column
  rejection :
    ∀ diagnostic, line.rejection? = some diagnostic →
      diagnostic.line = line.number ∧
        ∀ label ∈ line.labels, label.column < diagnostic.column

section Lines

/-- Reports about the labels of a line, in order, and its rejection are in order. -/
theorem Line.Ordered.report
    {line : Line}
    (ordered : line.Ordered)
    {aboutLabels : List Diagnostic}
    (sameLine : ∀ diagnostic ∈ aboutLabels, diagnostic.line = line.number)
    (columns :
      List.Sublist (aboutLabels.map Diagnostic.column)
        (line.labels.map Token.column)) :
    (aboutLabels ++ line.rejection?.toList).Pairwise Diagnostic.Precedes ∧
      ∀ diagnostic ∈ aboutLabels ++ line.rejection?.toList,
        diagnostic.line = line.number := by
  have increasing : (line.labels.map Token.column).Pairwise (· < ·) :=
    List.pairwise_map.mpr ordered.labels
  refine ⟨List.pairwise_append.mpr ⟨?_, ?_, ?_⟩, ?_⟩
  · refine List.Pairwise.imp_of_mem ?_
      (List.pairwise_map.mp (increasing.sublist columns))
    intro first second firstMember secondMember before
    exact .inr ⟨(sameLine first firstMember).trans
      (sameLine second secondMember).symm, before⟩
  · cases line.rejection? <;> simp
  · intro first firstMember second secondMember
    obtain ⟨place, behind⟩ :=
      ordered.rejection second (Option.mem_toList.mp secondMember)
    obtain ⟨label, labelMember, sameColumn⟩ := List.mem_map.mp
      (columns.subset (List.mem_map_of_mem firstMember))
    refine .inr ⟨(sameLine first firstMember).trans place.symm, ?_⟩
    rw [← sameColumn]
    exact behind label labelMember
  · intro diagnostic member
    rcases List.mem_append.mp member with aboutLabel | rejected
    · exact sameLine diagnostic aboutLabel
    · exact (ordered.rejection diagnostic (Option.mem_toList.mp rejected)).1

theorem Line.Ordered.readingErrors
    {line : Line}
    (ordered : line.Ordered) :
    line.readingErrors.Pairwise Diagnostic.Precedes ∧
      ∀ diagnostic ∈ line.readingErrors, diagnostic.line = line.number := by
  refine ordered.report ?_ ?_
  · intro diagnostic member
    obtain ⟨label, _, rfl⟩ := List.mem_map.mp member
    rfl
  · rw [List.map_map]
    exact List.filter_sublist.map Token.column

/-- Reports of lines with increasing numbers are in order as a whole. -/
theorem pairwise_precedes_flatMap
    {lines : List Line}
    {report : Line → List Diagnostic}
    (numbered : lines.Pairwise fun first second => first.number < second.number)
    (ordered : ∀ line ∈ lines, (report line).Pairwise Diagnostic.Precedes ∧
      ∀ diagnostic ∈ report line, diagnostic.line = line.number) :
    (lines.flatMap report).Pairwise Diagnostic.Precedes := by
  refine List.pairwise_flatMap.mpr
    ⟨fun line member => (ordered line member).1, ?_⟩
  refine numbered.imp_of_mem ?_
  intro first second firstMember secondMember before early earlyMember late
    lateMember
  left
  rw [(ordered first firstMember).2 early earlyMember,
    (ordered second secondMember).2 late lateMember]
  exact before

/-- The lines of a source are numbered in their order. -/
theorem pairwise_number_readSource (source : String) :
    (readSource source).Pairwise fun first second =>
      first.number < second.number := by
  have numbers : (readSource source).map Line.number =
      List.range' 1 (Text.lines source.toList).length := by
    rw [readSource, List.map_map, ← List.zipIdx_map_snd]
    rfl
  have increasing := List.pairwise_lt_range' (s := 1)
    (n := (Text.lines source.toList).length)
  rw [← numbers] at increasing
  exact List.pairwise_map.mp increasing

/-- The label names of a line that was read, at the columns of their tokens. -/
theorem labels_readLine
    (number : Nat)
    (line : List Char) :
    (readLine number line).labels = (definingTokens line).map definedLabel :=
  rfl

theorem pairwise_labels_readLine
    (number : Nat)
    (line : List Char) :
    (readLine number line).labels.Pairwise fun first second =>
      first.column < second.column := by
  have ordered := pairwise_column_tokens line
  rw [← definingTokens_append_instructionTokens] at ordered
  rw [labels_readLine]
  exact List.pairwise_map.mpr (List.pairwise_append.mp ordered).1

/-- What is said about a token of an instruction stands behind the labels. -/
theorem column_label_lt
    {number : Nat}
    {line : List Char}
    {token : Token}
    (inInstruction : token ∈ instructionTokens line) :
    ∀ label ∈ (readLine number line).labels, label.column < token.column := by
  intro label member
  rw [labels_readLine] at member
  obtain ⟨defining, isDefining, rfl⟩ := List.mem_map.mp member
  have before := column_lt_of_mem isDefining inInstruction
  exact before

theorem ordered_readLine
    (number : Nat)
    (line : List Char) :
    (readLine number line).Ordered := by
  refine ⟨pairwise_labels_readLine number line, ?_⟩
  intro diagnostic rejected
  rw [Line.rejection?] at rejected
  split at rejected
  · next found body =>
      cases rejected
      rcases readBody_eq_rejected_iff.mp body with
          ⟨token, first, rfl⟩ | ⟨token, cause, error, rfl⟩
      · obtain ⟨_, argument, _⟩ := first.exists_place
        exact ⟨rfl, column_label_lt argument.mem⟩
      · exact ⟨rfl, column_label_lt error.mem⟩
  · cases rejected

/-- A line stays in order when undefined labels are found in it. -/
theorem ordered_resolve_readLine
    {defined : List String}
    {number : Nat}
    {line : List Char}
    (good : ∀ place token,
      ¬ BadRegister (instructionTokens line) place token) :
    ((readLine number line).resolve defined).Ordered := by
  obtain ⟨sameNumber, sameLabels⟩ :=
    number_labels_resolve defined (readLine number line)
  refine ⟨?_, ?_⟩
  · rw [sameLabels]
    exact pairwise_labels_readLine number line
  · intro diagnostic rejected
    obtain ⟨token, cause, error, rfl⟩ :=
      (rejection?_resolve_readLine_iff good).mp rejected
    rw [sameNumber, sameLabels]
    exact ⟨rfl, column_label_lt error.mem⟩

end Lines

end RegisterMachine.Assembly
