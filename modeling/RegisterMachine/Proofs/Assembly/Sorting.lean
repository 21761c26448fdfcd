import Mathlib.Data.List.Perm.Basic
import RegisterMachine.Proofs.Assembly.Diagnostics

namespace RegisterMachine.Assembly

/-!
# Sorting diagnostics

An assembler can look for errors in three walks: over the lines as they are
read, over the definitions of labels, and over the instructions that are left.
What it finds in them is then sorted by line and column.  This gives the same
list as one walk that reports each line at its place.
-/

/-- Definitions of names that are defined before, each with its line. -/
def redefinitions (earlier : List String) : List (Nat × Token) → List Diagnostic
  | [] => []
  | (line, label) :: rest =>
      if earlier.contains label.text then
        ⟨line, label.column, .duplicateLabel label.text⟩ ::
          redefinitions earlier rest
      else
        redefinitions (label.text :: earlier) rest

/-- The valid definitions of labels in lines, each with its line. -/
def numberedDefinitions (lines : List Line) : List (Nat × Token) :=
  lines.flatMap fun line => line.definitions.map fun label => (line.number, label)

/-- The error of a line that was read, when its instruction uses an undefined label. -/
def Line.undefinedError? (defined : List String) (line : Line) : Option Diagnostic :=
  line.statement?.bind fun statement =>
    (statement.undefined? defined).map fun token =>
      ⟨line.number, token.column, .undefinedLabel token.text⟩

/-- The errors of lines as three walks find them, one after the other. -/
def walkedErrors (lines : List Line) : List Diagnostic :=
  lines.flatMap Line.readingErrors ++
    redefinitions [] (numberedDefinitions lines) ++
    lines.filterMap (Line.undefinedError? (definedNames lines))

/-- A diagnostic is about an earlier line than another, or not further right. -/
def Diagnostic.notAfter (first second : Diagnostic) : Bool :=
  first.line < second.line ||
    (first.line == second.line && first.column ≤ second.column)

section Walks

theorem redefinitions_congr
    {earlier others : List String}
    {definitions : List (Nat × Token)}
    (same : ∀ name, name ∈ earlier ↔ name ∈ others) :
    redefinitions earlier definitions = redefinitions others definitions := by
  induction definitions generalizing earlier others with
  | nil =>
      rfl
  | cons definition rest inductionHypothesis =>
      have sameLater : ∀ name,
          name ∈ definition.2.text :: earlier ↔
            name ∈ definition.2.text :: others := by
        simp [same]
      simp only [redefinitions, List.contains_eq_mem, same,
        inductionHypothesis same, inductionHypothesis sameLater]

/-- The definitions of a line are checked before those behind it. -/
theorem redefinitions_append
    {number : Nat}
    {earlier : List String}
    {labels : List Token}
    {rest : List (Nat × Token)} :
    redefinitions earlier (labels.map (fun label => (number, label)) ++ rest) =
      redefinitions earlier (labels.map fun label => (number, label)) ++
        redefinitions (labels.map Token.text ++ earlier) rest := by
  induction labels generalizing earlier with
  | nil =>
      rfl
  | cons label others inductionHypothesis =>
      have reordered : ∀ names,
          (∀ name, name ∈ names ↔ name = label.text ∨ name ∈ earlier) →
          redefinitions (others.map Token.text ++ names) rest =
            redefinitions ((label :: others).map Token.text ++ earlier) rest := by
        intro names same
        apply redefinitions_congr
        intro name
        simp only [List.mem_append, List.map_cons, List.cons_append,
          List.mem_cons, same, or_left_comm]
      simp only [List.map_cons, List.cons_append, redefinitions]
      split
      · next isDefined =>
          rw [inductionHypothesis, reordered earlier, List.cons_append]
          · rfl
          · intro name
            rw [iff_or_self]
            rintro rfl
            exact List.contains_iff_mem.mp isDefined
      · rw [inductionHypothesis, reordered (label.text :: earlier)]
        · rfl
        · intro name
          exact List.mem_cons

/-- The labels of a line are in error when they are misnamed or defined again. -/
theorem labelErrors_perm
    {number : Nat}
    {earlier : List String}
    {labels : List Token} :
    (labelErrors number earlier labels).Perm
      ((labels.filter fun label => !isLabelName label.text).map
          (misnamedLabel number) ++
        redefinitions earlier
          ((labels.filter fun label => isLabelName label.text).map
            fun label => (number, label))) := by
  induction labels generalizing earlier with
  | nil =>
      exact .nil
  | cons label rest inductionHypothesis =>
      by_cases isName : isLabelName label.text = true
      · simp only [labelErrors, isName, ↓reduceIte, Bool.not_true,
          Bool.false_eq_true, not_false_eq_true, List.filter_cons_of_neg,
          List.filter_cons_of_pos, List.map_cons, redefinitions]
        split
        · exact (inductionHypothesis.cons _).trans List.perm_middle.symm
        · exact inductionHypothesis
      · simp only [labelErrors, isName, Bool.false_eq_true, ↓reduceIte,
          Bool.not_false, List.filter_cons_of_pos, not_false_eq_true,
          List.filter_cons_of_neg, List.map_cons, List.cons_append]
        exact inductionHypothesis.cons _

/-- A line that is left as it was read has no error; one put in error has one. -/
theorem rejection?_resolve
    (defined : List String)
    (line : Line) :
    (line.resolve defined).rejection?.toList =
      line.rejection?.toList ++ (line.undefinedError? defined).toList := by
  cases shape : line.body with
  | empty | rejected =>
      simp [Line.resolve, Line.rejection?, Line.undefinedError?, Line.statement?,
        shape]
  | statement statement =>
      cases found : statement.undefined? defined <;>
        simp [Line.resolve, Line.rejection?, Line.undefinedError?,
          Line.statement?, shape, found]

/-- One walk finds what three walks find. -/
theorem errorsFrom_perm
    {defined earlier : List String}
    {lines : List Line} :
    (errorsFrom earlier (lines.map (Line.resolve defined))).Perm
      (lines.flatMap Line.readingErrors ++
        redefinitions earlier (numberedDefinitions lines) ++
        lines.filterMap (Line.undefinedError? defined)) := by
  induction lines generalizing earlier with
  | nil =>
      exact .nil
  | cons line rest inductionHypothesis =>
      obtain ⟨sameNumber, sameLabels⟩ := number_labels_resolve defined line
      have undefined : (line :: rest).filterMap (Line.undefinedError? defined) =
          (line.undefinedError? defined).toList ++
            rest.filterMap (Line.undefinedError? defined) := by
        cases found : line.undefinedError? defined <;> simp [found]
      rw [undefined, List.map_cons, errorsFrom, sameNumber, sameLabels,
        rejection?_resolve, definitions_resolve, List.flatMap_cons,
        Line.readingErrors, numberedDefinitions, List.flatMap_cons,
        redefinitions_append, ← numberedDefinitions]
      -- Both sides have the same parts, in another order.
      refine List.perm_iff_count.mpr fun diagnostic => ?_
      have here : (labelErrors line.number earlier line.labels).count diagnostic =
          _ :=
        labelErrors_perm.count_eq diagnostic
      have later : (errorsFrom (line.definitions.map Token.text ++ earlier)
          (rest.map (Line.resolve defined))).count diagnostic = _ :=
        inductionHypothesis.count_eq diagnostic
      simp only [List.count_append, Line.misnamed, Line.definitions] at *
      omega

theorem Diagnostic.notAfter_iff
    {first second : Diagnostic} :
    first.notAfter second = true ↔
      first.line < second.line ∨
        first.line = second.line ∧ first.column ≤ second.column := by
  simp only [notAfter, Bool.or_eq_true, Bool.and_eq_true, decide_eq_true_eq,
    beq_iff_eq]

/-- What is found in three walks and sorted is what one walk finds in order. -/
theorem mergeSort_walkedErrors
    {source : String}
    {assembly : Assembled}
    (assembled : assemble source = .ok assembly) :
    (walkedErrors (readSource source)).mergeSort Diagnostic.notAfter =
      assembly.diagnostics := by
  obtain ⟨good, rfl⟩ := assembly_of_assemble assembled
  have ordered := pairwise_precedes_errors_readSource good
  have sameErrors := (List.mergeSort_perm (walkedErrors (readSource source))
    Diagnostic.notAfter).trans errorsFrom_perm.symm
  have sorted : ((walkedErrors (readSource source)).mergeSort
      Diagnostic.notAfter).Pairwise fun first second =>
        first.notAfter second = true := by
    apply List.pairwise_mergeSort
    · simp only [Diagnostic.notAfter_iff]
      omega
    · simp only [Bool.or_eq_true, Diagnostic.notAfter_iff]
      omega
  have distinct : ((errorsFrom [] (resolve (readSource source))).map
      fun diagnostic => (diagnostic.line, diagnostic.column)).Nodup := by
    refine List.pairwise_map.mpr (ordered.imp ?_)
    rintro first second (before | ⟨_, before⟩) samePlace
    · exact Nat.ne_of_lt before (congrArg Prod.fst samePlace)
    · exact Nat.ne_of_lt before (congrArg Prod.snd samePlace)
  refine List.Perm.eq_of_pairwise ?_ sorted (ordered.imp ?_) sameErrors
  · -- The place of a diagnostic decides which one it is.
    intro first second firstMember secondMember notAfter notBefore
    rw [Diagnostic.notAfter_iff] at notAfter notBefore
    have sameLine : first.line = second.line := by omega
    have sameColumn : first.column = second.column := by omega
    exact List.inj_on_of_nodup_map distinct (sameErrors.subset firstMember)
      secondMember (Prod.ext sameLine sameColumn)
  · intro first second before
    rw [Diagnostic.notAfter_iff]
    exact before.imp_right (And.imp_right Nat.le_of_lt)

end Walks

end RegisterMachine.Assembly
