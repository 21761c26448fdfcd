import RegisterMachine.Proofs.Assembly.Abortion
import RegisterMachine.Proofs.Assembly.Numbering

namespace RegisterMachine.Assembly

/-!
# The diagnostics of an assembled source

A label is reported when its name is no identifier, and when its name is defined
before; an instruction is reported for the first error that applies to it.  The
diagnostics of an assembled source are these and no others, in the order of lines
and columns, and the lines that add nothing to the image are those without
tokens behind their labels and those whose instruction is reported.
-/

/-- The name is defined on an earlier line, or further left on the same line. -/
def DefinedBefore (lines : List (List Char)) (index : Nat) (line : List Char)
    (token : Token) : Prop :=
  (∃ earlier other, earlier < index ∧ lines[earlier]? = some other ∧
      definedName token.text ∈ namesDefined other) ∨
    ∃ other ∈ definingTokens line, other.column < token.column ∧
      definedName other.text = definedName token.text

/-- What is wrong with a line of a source, and its token where it is. -/
inductive SourceError (lines : List (List Char)) (index : Nat) (line : List Char) :
    Token → SyntaxError → Prop where
  | invalidLabel {token : Token} :
      token ∈ definingTokens line →
      isLabelName (definedName token.text) = false →
      SourceError lines index line token (.invalidLabel (definedName token.text))
  | duplicateLabel {token : Token} :
      token ∈ definingTokens line →
      isLabelName (definedName token.text) = true →
      DefinedBefore lines index line token →
      SourceError lines index line token
        (.duplicateLabel (definedName token.text))
  | instruction {token : Token} {cause : SyntaxError} :
      InstructionError (lines.flatMap namesDefined) (instructionTokens line) token
        cause →
      SourceError lines index line token cause

section Labels

variable {number : Nat}

/-- The error of a label, given the names that are defined before it. -/
def labelError? (number : Nat) (earlier : List String) (label : Token) :
    Option Diagnostic :=
  if isLabelName label.text then
    if earlier.contains label.text then
      some ⟨number, label.column, .duplicateLabel label.text⟩
    else
      none
  else
    some (misnamedLabel number label)

/-- Every label is checked against all names before it, valid or not. -/
theorem labelErrors_cons
    {earlier : List String}
    {label : Token}
    {rest : List Token} :
    labelErrors number earlier (label :: rest) =
      (labelError? number earlier label).toList ++
        labelErrors number (label.text :: earlier) rest := by
  have noChange (same : ∀ other ∈ rest, isLabelName other.text = true →
      other.text = label.text → label.text ∈ earlier) :
      labelErrors number earlier rest =
        labelErrors number (label.text :: earlier) rest := by
    apply labelErrors_congr
    intro other member isName
    simp only [List.mem_cons, iff_or_self]
    intro sameName
    rw [sameName]
    exact same other member isName sameName
  by_cases isName : isLabelName label.text = true
  · by_cases defined : label.text ∈ earlier
    · simp [labelErrors, labelError?, isName, defined,
        noChange fun _ _ _ _ => defined]
    · simp [labelErrors, labelError?, isName, defined]
  · have otherName : ∀ other ∈ rest, isLabelName other.text = true →
        other.text = label.text → label.text ∈ earlier := by
      intro other _ otherIsName sameName
      rw [sameName] at otherIsName
      exact (isName otherIsName).elim
    simp [labelErrors, labelError?, isName, noChange otherName]

theorem labelError?_eq_some
    {earlier : List String}
    {label : Token}
    {diagnostic : Diagnostic}
    (error : labelError? number earlier label = some diagnostic) :
    diagnostic.line = number ∧ diagnostic.column = label.column := by
  rw [labelError?] at error
  split at error
  · split at error
    · cases error
      exact ⟨rfl, rfl⟩
    · cases error
  · cases error
    exact ⟨rfl, rfl⟩

theorem line_of_mem_labelErrors
    {earlier : List String}
    {labels : List Token}
    {diagnostic : Diagnostic}
    (member : diagnostic ∈ labelErrors number earlier labels) :
    diagnostic.line = number := by
  induction labels generalizing earlier with
  | nil =>
      cases member
  | cons label rest inductionHypothesis =>
      rw [labelErrors_cons, List.mem_append, Option.mem_toList] at member
      rcases member with here | later
      · exact (labelError?_eq_some here).1
      · exact inductionHypothesis later

/-- Labels are reported from left to right, each at most once. -/
theorem columns_labelErrors
    (earlier : List String)
    (labels : List Token) :
    List.Sublist ((labelErrors number earlier labels).map Diagnostic.column)
      (labels.map Token.column) := by
  induction labels generalizing earlier with
  | nil =>
      exact .slnil
  | cons label rest inductionHypothesis =>
      have later := inductionHypothesis (label.text :: earlier)
      rw [labelErrors_cons, List.map_append, List.map_cons]
      cases error : labelError? number earlier label with
      | none =>
          exact later.cons _
      | some diagnostic =>
          obtain ⟨_, sameColumn⟩ := labelError?_eq_some error
          simp only [Option.toList_some, List.map_cons, List.map_nil, sameColumn,
            List.singleton_append]
          exact later.cons_cons _

theorem labelError?_eq_some_iff
    {earlier : List String}
    {label : Token}
    {diagnostic : Diagnostic} :
    labelError? number earlier label = some diagnostic ↔
      (isLabelName label.text = false ∧
          diagnostic = misnamedLabel number label) ∨
        isLabelName label.text = true ∧ label.text ∈ earlier ∧
          diagnostic = ⟨number, label.column, .duplicateLabel label.text⟩ := by
  rw [labelError?]
  cases isLabelName label.text <;> simp [eq_comm]

/-- A label is reported when it is misnamed, or when its name is defined before. -/
theorem mem_labelErrors_iff
    {earlier : List String}
    {labels : List Token}
    {diagnostic : Diagnostic}
    (ordered :
      labels.Pairwise fun first second => first.column < second.column) :
    diagnostic ∈ labelErrors number earlier labels ↔
      ∃ label ∈ labels,
        (isLabelName label.text = false ∧
          diagnostic = misnamedLabel number label) ∨
        isLabelName label.text = true ∧
          (label.text ∈ earlier ∨ ∃ other ∈ labels,
            other.column < label.column ∧ other.text = label.text) ∧
          diagnostic = ⟨number, label.column, .duplicateLabel label.text⟩ := by
  induction labels generalizing earlier with
  | nil =>
      simp [labelErrors]
  | cons label rest inductionHypothesis =>
      obtain ⟨first, restOrdered⟩ := List.pairwise_cons.mp ordered
      -- Nothing is left of the first label, and it is left of all others.
      have here : (∃ other ∈ label :: rest, other.column < label.column ∧
          other.text = label.text) ↔ False := by
        rw [List.exists_mem_cons_iff, iff_false]
        rintro (⟨before, _⟩ | ⟨other, member, before, _⟩)
        · exact Nat.lt_irrefl _ before
        · exact Nat.lt_asymm (first other member) before
      have there : ∀ later ∈ rest,
          ((later.text ∈ earlier ∨ ∃ other ∈ label :: rest,
              other.column < later.column ∧ other.text = later.text) ↔
            later.text ∈ label.text :: earlier ∨ ∃ other ∈ rest,
              other.column < later.column ∧ other.text = later.text) := by
        intro later member
        have left := first later member
        rw [List.exists_mem_cons_iff, List.mem_cons]
        simp only [left, true_and, eq_comm]
        rw [or_left_comm, or_assoc]
      rw [labelErrors_cons, List.mem_append, Option.mem_toList,
        labelError?_eq_some_iff, inductionHypothesis restOrdered,
        List.exists_mem_cons_iff, here, or_false]
      apply or_congr_right
      apply exists_congr
      intro later
      apply and_congr_right
      intro member
      rw [there later member]

end Labels

section Lines

/-- Lines report their labels, given all names of earlier lines, and their rejections. -/
theorem mem_errorsFrom_iff
    {earlier : List String}
    {lines : List Line}
    {diagnostic : Diagnostic} :
    diagnostic ∈ errorsFrom earlier lines ↔
      ∃ index line, lines[index]? = some line ∧
        (diagnostic ∈ labelErrors line.number
            (definedNames (lines.take index) ++ earlier) line.labels ∨
          line.rejection? = some diagnostic) := by
  induction lines generalizing earlier with
  | nil =>
      simp [errorsFrom]
  | cons line rest inductionHypothesis =>
      have reordered : ∀ index (later : Line),
          labelErrors later.number
              (definedNames (rest.take index) ++
                (line.definitions.map Token.text ++ earlier)) later.labels =
            labelErrors later.number
              (definedNames ((line :: rest).take (index + 1)) ++ earlier)
              later.labels := by
        intro index later
        apply labelErrors_congr
        intro label _ _
        simp only [definedNames, List.take_succ_cons, List.flatMap_cons,
          List.mem_append]
        rw [or_left_comm, or_assoc]
      rw [errorsFrom, List.mem_append, List.mem_append, Option.mem_toList,
        inductionHypothesis]
      simp only [reordered]
      constructor
      · rintro (here | ⟨index, later, found, error⟩)
        · exact ⟨0, line, rfl, here⟩
        · exact ⟨index + 1, later, found, error⟩
      · rintro ⟨index, later, found, error⟩
        cases index with
        | zero =>
            cases found
            exact .inl error
        | succ index =>
            exact .inr ⟨index, later, found, error⟩

/-- A diagnostic is about one of the lines. -/
theorem exists_line_of_mem_errorsFrom
    {earlier : List String}
    {lines : List Line}
    {diagnostic : Diagnostic}
    (ordered : ∀ line ∈ lines, line.Ordered)
    (member : diagnostic ∈ errorsFrom earlier lines) :
    ∃ line ∈ lines, diagnostic.line = line.number := by
  obtain ⟨index, line, found, error⟩ := mem_errorsFrom_iff.mp member
  have isLine := List.mem_of_getElem? found
  refine ⟨line, isLine, ?_⟩
  rcases error with aboutLabel | rejected
  · exact line_of_mem_labelErrors aboutLabel
  · exact ((ordered line isLine).rejection diagnostic rejected).1

/-- What lines report is in the order of lines and columns. -/
theorem pairwise_precedes_errorsFrom
    {earlier : List String}
    {lines : List Line}
    (numbered : lines.Pairwise fun first second => first.number < second.number)
    (ordered : ∀ line ∈ lines, line.Ordered) :
    (errorsFrom earlier lines).Pairwise Diagnostic.Precedes := by
  induction lines generalizing earlier with
  | nil =>
      exact .nil
  | cons line rest inductionHypothesis =>
      obtain ⟨first, restNumbered⟩ := List.pairwise_cons.mp numbered
      obtain ⟨lineOrdered, restOrdered⟩ := List.forall_mem_cons.mp ordered
      obtain ⟨here, atLine⟩ := lineOrdered.report
        (fun _ => line_of_mem_labelErrors)
        (columns_labelErrors earlier line.labels)
      refine List.pairwise_append.mpr
        ⟨here, inductionHypothesis restNumbered restOrdered, ?_⟩
      intro early earlyMember late lateMember
      obtain ⟨later, laterMember, place⟩ :=
        exists_line_of_mem_errorsFrom restOrdered lateMember
      left
      rw [atLine early earlyMember, place]
      exact first later laterMember

end Lines

section Source

variable {source : String}

theorem definedNames_readSource :
    definedNames (readSource source) =
      (Text.lines source.toList).flatMap namesDefined := by
  simp only [definedNames, readSource, List.flatMap_map, text_definitions_readLine]
  rw [← List.flatMap_map, List.zipIdx_map_fst]

/-- The names defined before a line are those that earlier lines define. -/
theorem mem_definedNames_take_iff
    {index : Nat}
    {name : String} :
    name ∈ definedNames ((resolve (readSource source)).take index) ↔
      ∃ earlier other, earlier < index ∧
        (Text.lines source.toList)[earlier]? = some other ∧
        name ∈ namesDefined other := by
  rw [definedNames, resolve, ← List.map_take, List.flatMap_map]
  simp only [definitions_resolve, List.mem_flatMap, mem_take_readSource_iff]
  constructor
  · rintro ⟨_, ⟨earlier, other, before, found, rfl⟩, named⟩
    rw [text_definitions_readLine] at named
    exact ⟨earlier, other, before, found, named⟩
  · rintro ⟨earlier, other, before, found, named⟩
    refine ⟨_, ⟨earlier, other, before, found, rfl⟩, ?_⟩
    rw [text_definitions_readLine]
    exact named

/-- What a line of a source reports is exactly what is wrong with it. -/
theorem mem_lineErrors_iff
    {index number : Nat}
    {line : List Char}
    (good : ¬ BreaksOff line)
    {diagnostic : Diagnostic} :
    (diagnostic ∈ labelErrors number
          (definedNames ((resolve (readSource source)).take index))
          (readLine number line).labels ∨
        ((readLine number line).resolve
          (definedNames (readSource source))).rejection? = some diagnostic) ↔
      ∃ token cause,
        SourceError (Text.lines source.toList) index line token cause ∧
        diagnostic = ⟨number, token.column, cause⟩ := by
  have noBadRegister : ∀ place token,
      ¬ BadRegister (instructionTokens line) place token :=
    fun place token badRegister => good ⟨place, token, badRegister⟩
  rw [mem_labelErrors_iff (pairwise_labels_readLine number line), labels_readLine,
    rejection?_resolve_readLine_iff noBadRegister, definedNames_readSource]
  simp only [List.mem_map, exists_exists_and_eq_and, mem_definedNames_take_iff]
  constructor
  · rintro (⟨token, defining, ⟨misnamed, rfl⟩ | ⟨isName, before, rfl⟩⟩ |
      ⟨token, cause, error, rfl⟩)
    · exact ⟨token, _, .invalidLabel defining misnamed, rfl⟩
    · exact ⟨token, _, .duplicateLabel defining isName before, rfl⟩
    · exact ⟨token, cause, .instruction error, rfl⟩
  · rintro ⟨token, cause, error, rfl⟩
    cases error with
    | invalidLabel defining misnamed =>
        exact .inl ⟨token, defining, .inl ⟨misnamed, rfl⟩⟩
    | duplicateLabel defining isName before =>
        exact .inl ⟨token, defining, .inr ⟨isName, before, rfl⟩⟩
    | instruction error =>
        exact .inr ⟨token, cause, error, rfl⟩

/-- What the lines of a source report is exactly what is wrong with them. -/
theorem mem_errors_readSource_iff
    (good : ∀ line ∈ Text.lines source.toList, ¬ BreaksOff line)
    {diagnostic : Diagnostic} :
    diagnostic ∈ errorsFrom [] (resolve (readSource source)) ↔
      ∃ index line token cause,
        (Text.lines source.toList)[index]? = some line ∧
        SourceError (Text.lines source.toList) index line token cause ∧
        diagnostic = ⟨1 + index, token.column, cause⟩ := by
  have lineIff : ∀ index line, (Text.lines source.toList)[index]? = some line →
      (diagnostic ∈ labelErrors
            ((readLine (1 + index) line).resolve
              (definedNames (readSource source))).number
            (definedNames ((resolve (readSource source)).take index) ++ [])
            ((readLine (1 + index) line).resolve
              (definedNames (readSource source))).labels ∨
          ((readLine (1 + index) line).resolve
            (definedNames (readSource source))).rejection? = some diagnostic ↔
        ∃ token cause,
          SourceError (Text.lines source.toList) index line token cause ∧
          diagnostic = ⟨1 + index, token.column, cause⟩) := by
    intro index line found
    obtain ⟨sameNumber, sameLabels⟩ := number_labels_resolve
      (definedNames (readSource source)) (readLine (1 + index) line)
    rw [sameNumber, sameLabels, List.append_nil]
    exact mem_lineErrors_iff (good line (List.mem_of_getElem? found))
  rw [mem_errorsFrom_iff]
  simp only [getElem?_resolve_readSource, Option.map_eq_some_iff]
  constructor
  · rintro ⟨index, _, ⟨line, found, rfl⟩, error⟩
    obtain ⟨token, cause, error, same⟩ := (lineIff index line found).mp error
    exact ⟨index, line, token, cause, found, error, same⟩
  · rintro ⟨index, line, token, cause, found, error, same⟩
    exact ⟨index, _, ⟨line, found, rfl⟩,
      (lineIff index line found).mpr ⟨token, cause, error, same⟩⟩

/-- The reports of a source are in the order of lines and columns. -/
theorem pairwise_precedes_errors_readSource
    (good : ∀ line ∈ Text.lines source.toList, ¬ BreaksOff line) :
    (errorsFrom [] (resolve (readSource source))).Pairwise
      Diagnostic.Precedes := by
  apply pairwise_precedes_errorsFrom
  · have numbered := pairwise_number_readSource source
    rw [resolve, List.pairwise_map]
    simpa only [number_labels_resolve] using numbered
  · intro line member
    obtain ⟨index, found⟩ := List.mem_iff_getElem?.mp member
    rw [getElem?_resolve_readSource, Option.map_eq_some_iff] at found
    obtain ⟨text, isText, rfl⟩ := found
    refine ordered_resolve_readLine fun place token badRegister => ?_
    exact good text (List.mem_of_getElem? isText) ⟨place, token, badRegister⟩

/-- A line is in error at one of its tokens. -/
theorem SourceError.mem
    {lines : List (List Char)}
    {index : Nat}
    {line : List Char}
    {token : Token}
    {cause : SyntaxError}
    (error : SourceError lines index line token cause) :
    token ∈ tokens line := by
  cases error with
  | invalidLabel defining | duplicateLabel defining =>
      exact definingTokens_subset line defining
  | instruction error =>
      exact instructionTokens_subset line error.mem

/-- An instruction is in error in one way only. -/
theorem InstructionError.unique
    {defined : List String}
    {line : List Char}
    {first second : Token}
    {cause another : SyntaxError}
    (good : ¬ BreaksOff line)
    (error : InstructionError defined (instructionTokens line) first cause)
    (other : InstructionError defined (instructionTokens line) second another) :
    first = second ∧ cause = another := by
  have noBadRegister : ∀ place token,
      ¬ BadRegister (instructionTokens line) place token :=
    fun place token badRegister => good ⟨place, token, badRegister⟩
  have rejected : ((readLine 1 line).resolve defined).rejection? =
      some ⟨1, first.column, cause⟩ :=
    (rejection?_resolve_readLine_iff noBadRegister).mpr
      ⟨first, cause, error, rfl⟩
  have rejectedToo : ((readLine 1 line).resolve defined).rejection? =
      some ⟨1, second.column, another⟩ :=
    (rejection?_resolve_readLine_iff noBadRegister).mpr
      ⟨second, another, other, rfl⟩
  obtain ⟨_, sameColumn, sameCause⟩ := Diagnostic.mk.inj
    (Option.some.inj (rejected.symm.trans rejectedToo))
  exact ⟨eq_of_column_eq (instructionTokens_subset line error.mem)
    (instructionTokens_subset line other.mem) sameColumn, sameCause⟩

theorem body_resolve_eq_empty_iff
    {defined : List String}
    {line : Line} :
    (line.resolve defined).body = .empty ↔ line.body = .empty := by
  cases shape : line.body with
  | empty | rejected =>
      simp only [Line.resolve, shape]
  | statement statement =>
      cases found : statement.undefined? defined <;>
        simp [Line.resolve, shape, found]

/-- A line with an instruction that is not in error is left as it is. -/
theorem isSome_statement?_resolve_readLine_iff
    {defined : List String}
    (number : Nat)
    {line : List Char}
    (good : ¬ BreaksOff line) :
    ((readLine number line).resolve defined).statement?.isSome ↔
      instructionTokens line ≠ [] ∧
        ∀ token cause,
          ¬ InstructionError defined (instructionTokens line) token cause := by
  have noError : ((readLine number line).resolve defined).rejection? = none ↔
      ∀ token cause,
        ¬ InstructionError defined (instructionTokens line) token cause := by
    rw [Option.eq_none_iff_forall_ne_some]
    simp only [ne_eq, rejection?_resolve_readLine_iff
      fun place token badRegister => good ⟨place, token, badRegister⟩]
    constructor
    · intro notRejected token cause error
      exact notRejected _ ⟨token, cause, error, rfl⟩
    · rintro fine _ ⟨token, cause, error, _⟩
      exact fine token cause error
  have empty : ((readLine number line).resolve defined).body = .empty ↔
      instructionTokens line = [] := by
    rw [body_resolve_eq_empty_iff]
    exact readBody_eq_empty_iff
  rw [← noError, Ne, ← empty, Line.statement?, Line.rejection?]
  cases ((readLine number line).resolve defined).body <;> simp

/-- A line is emitted when it has an instruction that is not in error. -/
theorem exists_slot_iff
    (good : ∀ line ∈ Text.lines source.toList, ¬ BreaksOff line)
    {index : Nat}
    {line : List Char}
    (found : (Text.lines source.toList)[index]? = some line) :
    (∃ entry, (slots source)[index]? = some (some entry)) ↔
      instructionTokens line ≠ [] ∧
        ∀ token cause, ¬ InstructionError
          ((Text.lines source.toList).flatMap namesDefined)
          (instructionTokens line) token cause := by
  have isResolved : (resolve (readSource source))[index]? =
      some ((readLine (1 + index) line).resolve
        (definedNames (readSource source))) := by
    rw [getElem?_resolve_readSource, found, Option.map_some]
  have placed := isPlaced_resolve source _ (List.mem_of_getElem? isResolved)
  rw [← definedNames_readSource, ← isSome_statement?_resolve_readLine_iff
    (1 + index) (good line (List.mem_of_getElem? found)),
    getElem?_slots source found]
  rcases Line.slot_cases placed (startOf (slots source) index) with
      ⟨noStatement, noEntry, _⟩ | ⟨_, _, isStatement, _, entry, _⟩
  · simp [noStatement, noEntry]
  · simp [isStatement, entry]

/-- No line of an assembled source breaks off, and the lines give image and reports. -/
theorem assembly_of_assemble
    {assembly : Assembled}
    (assembled : assemble source = .ok assembly) :
    (∀ line ∈ Text.lines source.toList, ¬ BreaksOff line) ∧
      assembly = ⟨Image.encodeEntries (slots source).reduceOption,
        errorsFrom [] (resolve (readSource source))⟩ := by
  cases ends : abortion? (readSource source) with
  | some result =>
      simp only [assemble, ends] at assembled
      cases assembled
  | none =>
      simp only [assemble, ends, assembleLines_readSource, Except.ok.injEq]
        at assembled
      exact ⟨abortion?_readSource_eq_none_iff.mp ends, assembled.symm⟩

end Source

/--
The diagnostics of an assembled source are in the order of lines and columns, no
two at one place, and say exactly what is wrong with its lines.  Each stands at
the column where its token begins in its line, and no other token begins there.
An instruction is in error in at most one way, and it is emitted exactly when it
is not in error.  Each diagnostic is reported as one warning, in the same order.
-/
theorem diagnostics_of_assemble
    {source : String}
    {assembly : Assembled}
    (assembled : assemble source = .ok assembly) :
    let lines := Text.lines source.toList
    let defined := lines.flatMap namesDefined
    assembly.diagnostics.Pairwise Diagnostic.Precedes ∧
    (∀ diagnostic, diagnostic ∈ assembly.diagnostics ↔
      ∃ index line token cause, lines[index]? = some line ∧
        SourceError lines index line token cause ∧
        diagnostic = ⟨1 + index, token.column, cause⟩) ∧
    (∀ index line token cause, lines[index]? = some line →
      SourceError lines index line token cause →
        token ∈ tokens line ∧
        ∃ before after, line = before ++ token.text.toList ++ after ∧
          token.column = byteWidth before + 1) ∧
    (∀ line ∈ lines, (tokens line).Pairwise fun first second =>
      first.column < second.column) ∧
    (∀ line ∈ lines, ∀ first second cause another,
      InstructionError defined (instructionTokens line) first cause →
      InstructionError defined (instructionTokens line) second another →
        first = second ∧ cause = another) ∧
    (∃ slots, Placement lines slots ∧
      Image.decode assembly.image = .ok slots.reduceOption ∧
      ∀ (index : Nat) (line : List Char), lines[index]? = some line →
        instructionTokens line ≠ [] →
        ((∃ entry, slots[index]? = some (some entry)) ↔
          ∀ token cause,
            ¬ InstructionError defined (instructionTokens line) token cause)) ∧
    ∀ file, report file source (assemble source) =
      assembly.diagnostics.map fun diagnostic =>
        .warn (diagnostic.render file lines) := by
  intro lines defined
  obtain ⟨good, rfl⟩ := assembly_of_assemble assembled
  have decoded := Image.decodeFrom_encodeEntries (tiles_slots source)
  refine ⟨pairwise_precedes_errors_readSource good,
    fun _ => mem_errors_readSource_iff good, ?_,
    fun line _ => pairwise_column_tokens line, ?_,
    ⟨slots source, placement_slots source, decoded, ?_⟩, ?_⟩
  · intro index line token cause _ error
    exact ⟨error.mem, exists_split_of_mem_tokens error.mem⟩
  · intro line member first second cause another error other
    exact error.unique (good line member) other
  · intro index line found hasTokens
    rw [exists_slot_iff good found]
    exact and_iff_right hasTokens
  · intro file
    simp only [assembled, report, lines]

/-- A source with an error of every kind that skips something, and a wide letter. -/
private def faultySource : String :=
  "a: é: a: INC R0\r\nb: a: bogus R1 ; a:\nLOAD R1, R2\n-: LOAD R9\n" ++
    "LOAD R1, 5z\nc: LOAD R1, d\nJUMP R1"

private def faultyAssembly : Assembled where
  image := [9, 0, 16, 1]
  diagnostics :=
    [⟨1, 4, .invalidLabel "é"⟩, ⟨1, 8, .duplicateLabel "a"⟩,
      ⟨2, 4, .duplicateLabel "a"⟩, ⟨2, 7, .unknownMnemonic "bogus"⟩,
      ⟨3, 10, .expectedImmediate "R2"⟩, ⟨4, 1, .invalidLabel "-"⟩,
      ⟨4, 4, .arityMismatch "LOAD" 2 1⟩, ⟨5, 10, .invalidImmediate "5z"⟩,
      ⟨6, 13, .undefinedLabel "d"⟩]

/-- The errors of the faulty source, in their order and each with its warning. -/
theorem diagnostics_of_assemble_faultySource :
    assemble faultySource = .ok faultyAssembly ∧
      faultyAssembly.diagnostics.Pairwise Diagnostic.Precedes ∧
      report "a.asm" faultySource (assemble faultySource) =
        faultyAssembly.diagnostics.map fun diagnostic =>
          .warn (diagnostic.render "a.asm" (Text.lines faultySource.toList)) := by
  have assembled : assemble faultySource = .ok faultyAssembly :=
    assemble_eq_ok_iff.mpr ⟨by decide +kernel, by decide +kernel⟩
  obtain ⟨ordered, _, _, _, _, _, reported⟩ := diagnostics_of_assemble assembled
  exact ⟨assembled, ordered, reported "a.asm"⟩

end RegisterMachine.Assembly
