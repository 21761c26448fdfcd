import RegisterMachine.Proofs.Assembly.Layout

namespace RegisterMachine.Assembly

/-!
# Lines before other lines

What the assembler finds in lines is independent of lines before or behind them
that neither define nor use the same labels: the same instructions are left, the
same errors are found, and labels only move, by the size of the lines before.
-/

/-- The name that an operand refers to as a label. -/
def Reference.name? : Reference → Option String
  | .value _ => none
  | .label token => some token.text

/-- The names that the instruction of a line refers to as labels. -/
def Line.usedNames (line : Line) : List String :=
  match line.statement? with
  | none => []
  | some statement => statement.operands.filterMap Reference.name?

theorem Line.mem_usedNames_iff
    {line : Line}
    {name : String} :
    name ∈ line.usedNames ↔
      ∃ statement token, line.statement? = some statement ∧
        .label token ∈ statement.operands ∧ token.text = name := by
  rw [Line.usedNames]
  cases line.statement? with
  | none =>
      simp
  | some statement =>
      simp only [Option.some.injEq, List.mem_filterMap]
      constructor
      · rintro ⟨reference, given, named⟩
        cases reference with
        | value operand =>
            cases named
        | label token =>
            cases named
            exact ⟨statement, token, rfl, given, rfl⟩
      · rintro ⟨_, token, rfl, given, rfl⟩
        exact ⟨.label token, given, rfl⟩

/-- The names that lines refer to as labels, defined or not, in source order. -/
def usedNames (lines : List Line) : List String :=
  lines.flatMap Line.usedNames

/-- Lines that neither define the labels of other lines nor refer to them. -/
structure Separate (first second : List Line) : Prop where
  definitions :
    ∀ name ∈ definedNames first, name ∉ definedNames second
  forward :
    ∀ name ∈ usedNames first, name ∉ definedNames second
  backward :
    ∀ name ∈ usedNames second, name ∉ definedNames first

/-- Number of bytes that lines add to the image. -/
def totalSize (lines : List Line) : Nat :=
  (lines.map Line.size).sum

theorem definedNames_append (first second : List Line) :
    definedNames (first ++ second) = definedNames first ++ definedNames second :=
  List.flatMap_append

section Resolving

theorem undefined?_congr
    {defined others : List String}
    {statement : Statement}
    (same : ∀ name ∈ statement.operands.filterMap Reference.name?,
      (name ∈ defined ↔ name ∈ others)) :
    statement.undefined? defined = statement.undefined? others := by
  obtain ⟨opcode, references⟩ := statement
  simp only [Statement.undefined?]
  induction references with
  | nil =>
      rfl
  | cons reference rest inductionHypothesis =>
      cases reference with
      | value operand =>
          exact inductionHypothesis same
      | label token =>
          obtain ⟨here, later⟩ := List.forall_mem_cons.mp same
          have sameHere : defined.contains token.text = others.contains token.text := by
            rw [Bool.eq_iff_iff, List.contains_iff_mem, List.contains_iff_mem]
            exact here
          simp only [List.findSome?_cons, sameHere, inductionHypothesis later]

theorem Line.resolve_congr
    {defined others : List String}
    {line : Line}
    (same : ∀ name ∈ line.usedNames, (name ∈ defined ↔ name ∈ others)) :
    line.resolve defined = line.resolve others := by
  cases shape : line.body with
  | empty | rejected =>
      simp only [Line.resolve, shape]
  | statement statement =>
      rw [Line.usedNames, Line.statement?, shape] at same
      simp only [Line.resolve, shape, undefined?_congr same]

/-- Labels elsewhere decide nothing about the lines that do not refer to them. -/
theorem resolve_append
    {first second : List Line}
    (separate : Separate first second) :
    resolve (first ++ second) = resolve first ++ resolve second := by
  rw [resolve, resolve, resolve, List.map_append, definedNames_append]
  congr 1
  · apply List.map_congr_left
    intro line member
    apply Line.resolve_congr
    intro name used
    have notLater := separate.forward name (List.mem_flatMap.mpr ⟨line, member, used⟩)
    rw [List.mem_append, or_iff_left notLater]
  · apply List.map_congr_left
    intro line member
    apply Line.resolve_congr
    intro name used
    have notEarlier := separate.backward name (List.mem_flatMap.mpr ⟨line, member, used⟩)
    rw [List.mem_append, or_iff_right notEarlier]

end Resolving

section Errors

theorem labelErrors_congr
    {number : Nat}
    {labels : List Token}
    {earlier others : List String}
    (same : ∀ label ∈ labels, isLabelName label.text = true →
      (label.text ∈ earlier ↔ label.text ∈ others)) :
    labelErrors number earlier labels = labelErrors number others labels := by
  induction labels generalizing earlier others with
  | nil =>
      rfl
  | cons label rest inductionHypothesis =>
      obtain ⟨here, later⟩ := List.forall_mem_cons.mp same
      by_cases isName : isLabelName label.text
      · have sameHere :
            earlier.contains label.text = others.contains label.text := by
          rw [Bool.eq_iff_iff, List.contains_iff_mem, List.contains_iff_mem]
          exact here isName
        have sameLater :
            labelErrors number (label.text :: earlier) rest =
              labelErrors number (label.text :: others) rest := by
          apply inductionHypothesis
          intro other member otherName
          rw [List.mem_cons, List.mem_cons, later other member otherName]
        simp only [labelErrors, isName, ↓reduceIte, sameHere, sameLater,
          inductionHypothesis later]
      · simp only [labelErrors, isName, Bool.false_eq_true, ↓reduceIte,
          inductionHypothesis later]

/-- Earlier names matter only where the lines define them again. -/
theorem errorsFrom_congr
    {lines : List Line}
    {earlier others : List String}
    (same : ∀ name ∈ definedNames lines, (name ∈ earlier ↔ name ∈ others)) :
    errorsFrom earlier lines = errorsFrom others lines := by
  induction lines generalizing earlier others with
  | nil =>
      rfl
  | cons line rest inductionHypothesis =>
      have sameHere :
          labelErrors line.number earlier line.labels =
            labelErrors line.number others line.labels := by
        apply labelErrors_congr
        intro label member isName
        apply same
        rw [definedNames, List.flatMap_cons, List.mem_append]
        exact .inl (List.mem_map_of_mem (List.mem_filter.mpr ⟨member, isName⟩))
      have sameLater :
          errorsFrom (line.definitions.map Token.text ++ earlier) rest =
            errorsFrom (line.definitions.map Token.text ++ others) rest := by
        apply inductionHypothesis
        intro name member
        rw [List.mem_append, List.mem_append, same name]
        rw [definedNames, List.flatMap_cons, List.mem_append]
        exact .inr member
      rw [errorsFrom, errorsFrom, sameHere, sameLater]

theorem errorsFrom_append
    (earlier : List String)
    (first second : List Line) :
    errorsFrom earlier (first ++ second) =
      errorsFrom earlier first ++
        errorsFrom (definedNames first ++ earlier) second := by
  induction first generalizing earlier with
  | nil =>
      rfl
  | cons line rest inductionHypothesis =>
      rw [List.cons_append, errorsFrom, errorsFrom, inductionHypothesis,
        List.append_assoc _ (errorsFrom _ rest)]
      congr 2
      -- The earlier names differ in their order only.
      apply errorsFrom_congr
      intro name _
      simp only [definedNames, List.flatMap_cons, List.mem_append]
      rw [or_left_comm, or_assoc]

/-- The errors of lines do not depend on separate lines before them. -/
theorem errorsFrom_resolve_append
    {first second : List Line}
    (separate : Separate first second) :
    errorsFrom [] (resolve (first ++ second)) =
      errorsFrom [] (resolve first) ++ errorsFrom [] (resolve second) := by
  rw [resolve_append separate, errorsFrom_append, definedNames_resolve]
  congr 1
  apply errorsFrom_congr
  intro name member
  rw [definedNames_resolve] at member
  have notEarlier : name ∉ definedNames first := fun earlier =>
    separate.definitions name earlier member
  simp [notEarlier]

end Errors

section Offsets

theorem offsetsFrom_append
    (offset : Nat)
    (first second : List Line) :
    offsetsFrom offset (first ++ second) =
      offsetsFrom offset first ++
        offsetsFrom (offset + totalSize first) second := by
  induction first generalizing offset with
  | nil =>
      rfl
  | cons line rest inductionHypothesis =>
      rw [List.cons_append, offsetsFrom, offsetsFrom, inductionHypothesis,
        totalSize, totalSize, List.map_cons, List.sum_cons, List.append_assoc,
        Nat.add_assoc]

theorem offsetOf?_eq_none_iff
    {offset : Nat}
    {lines : List Line}
    {name : String} :
    offsetOf? (offsetsFrom offset lines) name = none ↔
      name ∉ definedNames lines := by
  rw [← isSome_offsetOf?_iff, Option.not_isSome_iff_eq_none]

/-- A label that only the second lines define is placed behind the first. -/
theorem offsetOf?_append_of_not_mem
    {first second : List Line}
    {name : String}
    (notEarlier : name ∉ definedNames first) :
    offsetOf? (offsetsFrom 0 (first ++ second)) name =
      (offsetOf? (offsetsFrom 0 second) name).map (totalSize first + ·) := by
  have missing : offsetOf? (offsetsFrom 0 first) name = none :=
    offsetOf?_eq_none_iff.mpr notEarlier
  rw [offsetsFrom_append, offsetOf?, List.lookup_append, ← offsetOf?, missing,
    Option.none_or, ← offsetOf?, lookup_offsetsFrom, lookup_offsetsFrom,
    Option.map_map]
  congr 1
  funext index
  simp only [Function.comp_apply, Nat.zero_add]

/-- A label that only the first lines define keeps its place. -/
theorem offsetOf?_append_of_not_mem_right
    {first second : List Line}
    {name : String}
    (notLater : name ∉ definedNames second) :
    offsetOf? (offsetsFrom 0 (first ++ second)) name =
      offsetOf? (offsetsFrom 0 first) name := by
  have missing :
      offsetOf? (offsetsFrom (0 + totalSize first) second) name = none :=
    offsetOf?_eq_none_iff.mpr notLater
  rw [offsetsFrom_append, offsetOf?, List.lookup_append, ← offsetOf?, ← offsetOf?,
    missing, Option.or_none]

end Offsets

end RegisterMachine.Assembly
