import Mathlib.Data.List.DropRight
import RegisterMachine.Proofs.Assembly.Columns

namespace RegisterMachine.Assembly

/-!
# Sources that have no image

Only a token that is no register, where an instruction needs one, ends an
assembly.  It is the first such token of the first line that has one; what the
assembler has reported until then are the errors of single lines, and nothing
behind that line has any influence.
-/

/-- What is wrong with a line by itself, and its token where it is. -/
inductive LineError (line : List Char) : Token → SyntaxError → Prop where
  | invalidLabel {token : Token} :
      token ∈ definingTokens line →
      isLabelName (definedName token.text) = false →
      LineError line token (.invalidLabel (definedName token.text))
  | instruction {token : Token} {cause : SyntaxError} :
      ReadingError (instructionTokens line) token cause →
      LineError line token cause

/-- The instruction of a line has a bad register. -/
def BreaksOff (line : List Char) : Prop :=
  ∃ place token, BadRegister (instructionTokens line) place token

/-- At an index is the first line with a bad register, and the token is its first one. -/
structure EndsAt (lines : List (List Char)) (index : Nat) (token : Token) :
    Prop where
  here :
    ∃ line, lines[index]? = some line ∧
      IsFirst (BadRegister (instructionTokens line)) token
  first :
    ∀ earlier line, lines[earlier]? = some line → BreaksOff line →
      index ≤ earlier

section Lines

theorem ReadingError.isFatal_eq_false
    {tokens : List Token}
    {token : Token}
    {cause : SyntaxError}
    (error : ReadingError tokens token cause) :
    cause.isFatal = false := by
  cases error with
  | unknownMnemonic | arityMismatch =>
      rfl
  | word _ _ error =>
      cases error <;> rfl

theorem rejection?_readLine_iff
    {number : Nat}
    {line : List Char}
    {diagnostic : Diagnostic} :
    (readLine number line).rejection? = some diagnostic ↔
      readBody number (instructionTokens line) = .rejected diagnostic := by
  have body : (readLine number line).body =
      readBody number (instructionTokens line) := rfl
  rw [Line.rejection?, body]
  cases readBody number (instructionTokens line) <;> simp

/-- A line ends the assembly for the first of its bad registers. -/
theorem fatal?_readLine_iff
    {number : Nat}
    {line : List Char}
    {diagnostic : Diagnostic} :
    (readLine number line).fatal? = some diagnostic ↔
      ∃ token, IsFirst (BadRegister (instructionTokens line)) token ∧
        diagnostic = ⟨number, token.column, .invalidRegister token.text⟩ := by
  rw [Line.fatal?, Option.filter_eq_some_iff, rejection?_readLine_iff,
    readBody_eq_rejected_iff]
  constructor
  · rintro ⟨fatal | ⟨token, cause, error, rfl⟩, isFatal⟩
    · exact fatal
    · have notFatal := error.isFatal_eq_false
      exact (Bool.eq_false_iff.mp notFatal isFatal).elim
  · rintro ⟨token, first, rfl⟩
    exact ⟨.inl ⟨token, first, rfl⟩, rfl⟩

theorem fatal?_readLine_eq_none_iff
    {number : Nat}
    {line : List Char} :
    (readLine number line).fatal? = none ↔ ¬ BreaksOff line := by
  constructor
  · rintro notFatal ⟨place, token, badRegister⟩
    obtain ⟨first, isFirst⟩ := exists_isFirst badRegister
    have ends : (readLine number line).fatal? = some _ :=
      fatal?_readLine_iff.mpr ⟨first, isFirst, rfl⟩
    simp [notFatal] at ends
  · intro good
    rw [Option.eq_none_iff_forall_ne_some]
    intro diagnostic fatal
    obtain ⟨token, first, _⟩ := fatal?_readLine_iff.mp fatal
    obtain ⟨place, badRegister⟩ := first.exists_place
    exact good ⟨place, token, badRegister⟩

/-- The misnamed labels of a line are reported where their tokens stand. -/
theorem mem_misnamed_readLine_iff
    {number : Nat}
    {line : List Char}
    {diagnostic : Diagnostic} :
    diagnostic ∈ (readLine number line).misnamed.map (misnamedLabel number) ↔
      ∃ token ∈ definingTokens line, isLabelName (definedName token.text) = false ∧
        diagnostic =
          ⟨number, token.column, .invalidLabel (definedName token.text)⟩ := by
  simp only [Line.misnamed, labels_readLine, List.mem_map, List.mem_filter,
    Bool.not_eq_true', misnamedLabel]
  constructor
  · rintro ⟨_, ⟨⟨token, defining, rfl⟩, misnamed⟩, rfl⟩
    exact ⟨token, defining, misnamed, rfl⟩
  · rintro ⟨token, defining, misnamed, rfl⟩
    exact ⟨definedLabel token, ⟨⟨token, defining, rfl⟩, misnamed⟩, rfl⟩

/-- A line that does not break off reports its errors. -/
theorem mem_readingErrors_readLine_iff
    {number : Nat}
    {line : List Char}
    (good : ¬ BreaksOff line)
    {diagnostic : Diagnostic} :
    diagnostic ∈ (readLine number line).readingErrors ↔
      ∃ token cause, LineError line token cause ∧
        diagnostic = ⟨number, token.column, cause⟩ := by
  have sameNumber : (readLine number line).number = number := rfl
  rw [Line.readingErrors, List.mem_append, sameNumber, mem_misnamed_readLine_iff,
    Option.mem_toList, rejection?_readLine_iff, readBody_eq_rejected_iff]
  constructor
  · rintro (⟨token, defining, misnamed, rfl⟩ | ⟨token, first, _⟩ |
      ⟨token, cause, error, rfl⟩)
    · exact ⟨token, _, .invalidLabel defining misnamed, rfl⟩
    · obtain ⟨place, badRegister⟩ := first.exists_place
      exact (good ⟨place, token, badRegister⟩).elim
    · exact ⟨token, cause, .instruction error, rfl⟩
  · rintro ⟨token, cause, ⟨defining, misnamed⟩ | error, rfl⟩
    · exact .inl ⟨token, defining, misnamed, rfl⟩
    · exact .inr (.inr ⟨token, cause, error, rfl⟩)

/-- A line that breaks off reports nothing but its misnamed labels before. -/
theorem mem_misnamed_readLine_iff_of_breaksOff
    {number : Nat}
    {line : List Char}
    (breaksOff : BreaksOff line)
    {diagnostic : Diagnostic} :
    diagnostic ∈ (readLine number line).misnamed.map (misnamedLabel number) ↔
      ∃ token cause, LineError line token cause ∧
        diagnostic = ⟨number, token.column, cause⟩ := by
  rw [mem_misnamed_readLine_iff]
  constructor
  · rintro ⟨token, defining, misnamed, rfl⟩
    exact ⟨token, _, .invalidLabel defining misnamed, rfl⟩
  · rintro ⟨token, cause, ⟨defining, misnamed⟩ | error, rfl⟩
    · exact ⟨token, defining, misnamed, rfl⟩
    · obtain ⟨place, other, badRegister⟩ := breaksOff
      exact (error.not_badRegister badRegister).elim

/-- An assembly ends at the first line that ends it, with what was read before. -/
theorem abortion?_eq_some_iff
    {lines : List Line}
    {fatal : Diagnostic}
    {skipped : List Diagnostic} :
    abortion? lines = some (fatal, skipped) ↔
      ∃ before line after, lines = before ++ line :: after ∧
        (∀ earlier ∈ before, earlier.fatal? = none) ∧
        line.fatal? = some fatal ∧
        skipped = before.flatMap Line.readingErrors ++
          line.misnamed.map (misnamedLabel line.number) := by
  induction lines generalizing skipped with
  | nil =>
      simp [abortion?]
  | cons line rest inductionHypothesis =>
      cases ends : line.fatal? with
      | some found =>
          simp only [abortion?, ends, Option.some.injEq, Prod.mk.injEq]
          constructor
          · rintro ⟨rfl, rfl⟩
            exact ⟨[], line, rest, rfl, List.forall_mem_nil _, ends, rfl⟩
          · rintro ⟨before, other, after, split, accepted, endsOther, rfl⟩
            cases before with
            | nil =>
                obtain ⟨rfl, rfl⟩ := List.cons.inj split
                exact ⟨Option.some.inj (ends.symm.trans endsOther), rfl⟩
            | cons first others =>
                obtain ⟨rfl, _⟩ := List.cons.inj split
                cases ends.symm.trans (accepted line List.mem_cons_self)
      | none =>
          simp only [abortion?, ends, Option.map_eq_some_iff, Prod.mk.injEq,
            Prod.exists]
          constructor
          · rintro ⟨_, later, found, rfl, rfl⟩
            obtain ⟨before, other, after, rfl, accepted, endsOther, rfl⟩ :=
              inductionHypothesis.mp found
            exact ⟨line :: before, other, after, rfl,
              List.forall_mem_cons.mpr ⟨ends, accepted⟩, endsOther,
              by simp⟩
          · rintro ⟨before, other, after, split, accepted, endsOther, rfl⟩
            cases before with
            | nil =>
                obtain ⟨rfl, rfl⟩ := List.cons.inj split
                cases ends.symm.trans endsOther
            | cons first others =>
                obtain ⟨rfl, rfl⟩ := List.cons.inj split
                exact ⟨fatal, _, inductionHypothesis.mpr ⟨others, other, after,
                  rfl, fun earlier member =>
                    accepted earlier (List.mem_cons_of_mem _ member),
                  endsOther, rfl⟩, rfl, by simp⟩

end Lines

section Source

variable {source : String}

/-- The lines before an index were read from the lines of the source there. -/
theorem mem_take_readSource_iff
    {index : Nat}
    {line : Line} :
    line ∈ (readSource source).take index ↔
      ∃ earlier text, earlier < index ∧
        (Text.lines source.toList)[earlier]? = some text ∧
        line = readLine (1 + earlier) text := by
  simp only [List.mem_iff_getElem?, List.getElem?_take, getElem?_readSource,
    Option.ite_none_right_eq_some, Option.map_eq_some_iff]
  constructor
  · rintro ⟨earlier, before, text, found, rfl⟩
    exact ⟨earlier, text, before, found, rfl⟩
  · rintro ⟨earlier, text, before, found, rfl⟩
    exact ⟨earlier, before, text, found, rfl⟩

/-- What was reported when the line at an index, with this text, ends the assembly. -/
def reportedBefore (source : String) (index : Nat) (text : List Char) :
    List Diagnostic :=
  ((readSource source).take index).flatMap Line.readingErrors ++
    (readLine (1 + index) text).misnamed.map (misnamedLabel (1 + index))

/-- A source ends at its first line that breaks off, for the first bad register. -/
theorem abortion?_readSource_eq_some_iff
    {fatal : Diagnostic}
    {skipped : List Diagnostic} :
    abortion? (readSource source) = some (fatal, skipped) ↔
      ∃ index text token, (Text.lines source.toList)[index]? = some text ∧
        IsFirst (BadRegister (instructionTokens text)) token ∧
        (∀ earlier other, earlier < index →
          (Text.lines source.toList)[earlier]? = some other → ¬ BreaksOff other) ∧
        fatal = ⟨1 + index, token.column, .invalidRegister token.text⟩ ∧
        skipped = reportedBefore source index text := by
  rw [abortion?_eq_some_iff]
  constructor
  · rintro ⟨before, line, after, split, accepted, ends, rfl⟩
    have here : (readSource source)[before.length]? = some line := by
      simp [split]
    have earlierLines : (readSource source).take before.length = before := by
      simp [split]
    rw [getElem?_readSource] at here
    obtain ⟨text, isText, rfl⟩ := Option.map_eq_some_iff.mp here
    obtain ⟨token, first, rfl⟩ := fatal?_readLine_iff.mp ends
    refine ⟨before.length, text, token, isText, first, ?_, rfl, ?_⟩
    · intro earlier other isBefore isOther
      have member : readLine (1 + earlier) other ∈ before := by
        rw [← earlierLines]
        exact mem_take_readSource_iff.mpr ⟨earlier, other, isBefore, isOther, rfl⟩
      exact fatal?_readLine_eq_none_iff.mp (accepted _ member)
    · rw [reportedBefore, earlierLines]
      rfl
  · rintro ⟨index, text, token, isText, first, goodBefore, rfl, rfl⟩
    have here : (readSource source)[index]? = some (readLine (1 + index) text) := by
      rw [getElem?_readSource, isText]
      rfl
    obtain ⟨inside, isLine⟩ := List.getElem?_eq_some_iff.mp here
    refine ⟨(readSource source).take index, readLine (1 + index) text,
      (readSource source).drop (index + 1), ?_, ?_,
      fatal?_readLine_iff.mpr ⟨token, first, rfl⟩, rfl⟩
    · rw [← isLine, ← List.drop_eq_getElem_cons, List.take_append_drop]
    · intro line member
      obtain ⟨earlier, other, isBefore, isOther, rfl⟩ :=
        mem_take_readSource_iff.mp member
      exact fatal?_readLine_eq_none_iff.mpr
        (goodBefore earlier other isBefore isOther)

/-- A source does not end early exactly when no line breaks off. -/
theorem abortion?_readSource_eq_none_iff :
    abortion? (readSource source) = none ↔
      ∀ line ∈ Text.lines source.toList, ¬ BreaksOff line := by
  rw [abortion?_eq_none_iff, readSource]
  constructor
  · intro accepted line member
    obtain ⟨index, found⟩ := List.mem_iff_getElem?.mp member
    have numbered : (line, 1 + index) ∈ (Text.lines source.toList).zipIdx 1 :=
      List.mk_add_mem_zipIdx_iff_getElem?.mpr found
    exact fatal?_readLine_eq_none_iff.mp
      (accepted _ (List.mem_map_of_mem numbered))
  · intro good read member
    obtain ⟨⟨line, number⟩, numbered, rfl⟩ := List.mem_map.mp member
    exact fatal?_readLine_eq_none_iff.mpr
      (good line (List.fst_mem_of_mem_zipIdx numbered))

/-- What is reported before the assembly ends is in the order of lines and columns. -/
theorem pairwise_reportedBefore
    {index : Nat}
    {text : List Char}
    (isText : (Text.lines source.toList)[index]? = some text) :
    (reportedBefore source index text).Pairwise Diagnostic.Precedes := by
  have upToHere : (readSource source).take (index + 1) =
      (readSource source).take index ++ [readLine (1 + index) text] := by
    rw [List.take_add_one, getElem?_readSource, isText]
    rfl
  have ordered := pairwise_precedes_flatMap
    ((pairwise_number_readSource source).sublist (List.take_sublist (index + 1) _))
    fun line member => by
      obtain ⟨earlier, other, _, _, rfl⟩ := mem_take_readSource_iff.mp member
      exact (ordered_readLine _ other).readingErrors
  -- The line that ends the assembly reports its labels and then the end.
  rw [upToHere, List.flatMap_append, List.flatMap_singleton, Line.readingErrors,
    ← List.append_assoc] at ordered
  exact (List.pairwise_append.mp ordered).1

/-- The errors of every line up to the one that ends the assembly are reported. -/
theorem mem_reportedBefore_iff
    {index : Nat}
    {text : List Char}
    (isText : (Text.lines source.toList)[index]? = some text)
    (breaksOff : BreaksOff text)
    (goodBefore : ∀ earlier other, earlier < index →
      (Text.lines source.toList)[earlier]? = some other → ¬ BreaksOff other)
    {diagnostic : Diagnostic} :
    diagnostic ∈ reportedBefore source index text ↔
      ∃ earlier line token cause, earlier ≤ index ∧
        (Text.lines source.toList)[earlier]? = some line ∧
        LineError line token cause ∧
        diagnostic = ⟨1 + earlier, token.column, cause⟩ := by
  rw [reportedBefore, List.mem_append, List.mem_flatMap,
    mem_misnamed_readLine_iff_of_breaksOff breaksOff]
  constructor
  · rintro (⟨_, inBefore, reported⟩ | ⟨token, cause, error, rfl⟩)
    · obtain ⟨earlier, other, isBefore, isOther, rfl⟩ :=
        mem_take_readSource_iff.mp inBefore
      obtain ⟨token, cause, error, rfl⟩ := (mem_readingErrors_readLine_iff
        (goodBefore earlier other isBefore isOther)).mp reported
      exact ⟨earlier, other, token, cause, Nat.le_of_lt isBefore, isOther, error,
        rfl⟩
    · exact ⟨index, text, token, cause, Nat.le_refl index, isText, error, rfl⟩
  · rintro ⟨earlier, other, token, cause, notBehind, isOther, error, rfl⟩
    rcases Nat.lt_or_eq_of_le notBehind with isBefore | rfl
    · have reported : (⟨1 + earlier, token.column, cause⟩ : Diagnostic) ∈
          (readLine (1 + earlier) other).readingErrors :=
        (mem_readingErrors_readLine_iff
          (goodBefore earlier other isBefore isOther)).mpr
          ⟨token, cause, error, rfl⟩
      exact .inl ⟨_, mem_take_readSource_iff.mpr
        ⟨earlier, other, isBefore, isOther, rfl⟩, reported⟩
    · obtain rfl : text = other := Option.some.inj (isText.symm.trans isOther)
      exact .inr ⟨token, cause, error, rfl⟩

end Source

section Influence

/-- Carriage returns at the end of a line add no token. -/
theorem tokens_shownLine (line : List Char) :
    tokens (Diagnostic.shownLine line) = tokens line := by
  induction line using List.reverseRecOn with
  | nil =>
      rfl
  | append_singleton rest last inductionHypothesis =>
      have shown : Diagnostic.shownLine (rest ++ [last]) =
          (rest ++ [last]).rdropWhile (· == '\r') := rfl
      by_cases isReturn : last = '\r'
      · subst isReturn
        rw [shown, List.rdropWhile_concat_pos _ _ _ rfl, tokens_append_return]
        exact inductionHypothesis
      · rw [shown, List.rdropWhile_concat_neg _ _ _ (by simpa using isReturn)]

/-- Lines are the same up to an index, but for carriage returns at their ends. -/
def SameUpTo (index : Nat) (lines others : List (List Char)) : Prop :=
  ∀ earlier ≤ index,
    others[earlier]?.map Diagnostic.shownLine =
      lines[earlier]?.map Diagnostic.shownLine

theorem SameUpTo.exists_line
    {index earlier : Nat}
    {lines others : List (List Char)}
    (same : SameUpTo index lines others)
    (notBehind : earlier ≤ index)
    {line : List Char}
    (found : lines[earlier]? = some line) :
    ∃ other, others[earlier]? = some other ∧ tokens other = tokens line := by
  have shown := same earlier notBehind
  rw [found, Option.map_some] at shown
  obtain ⟨other, isOther, sameShown⟩ := Option.map_eq_some_iff.mp shown
  refine ⟨other, isOther, ?_⟩
  rw [← tokens_shownLine other, sameShown, tokens_shownLine]

theorem SameUpTo.symm
    {index : Nat}
    {lines others : List (List Char)}
    (same : SameUpTo index lines others) :
    SameUpTo index others lines :=
  fun earlier notBehind => (same earlier notBehind).symm

/-- A diagnostic is shown with its own line and no other. -/
theorem render_eq_of_sameUpTo
    {index : Nat}
    {lines others : List (List Char)}
    (same : SameUpTo index lines others)
    {diagnostic : Diagnostic}
    (notBehind : diagnostic.line ≤ 1 + index)
    (file : String) :
    diagnostic.render file others = diagnostic.render file lines := by
  have shown := same (diagnostic.line - 1) (by omega)
  simp only [Diagnostic.render]
  congr 1
  cases here : lines[diagnostic.line - 1]? with
  | none =>
      rw [here, Option.map_none, Option.map_eq_none_iff] at shown
      rw [shown]
  | some line =>
      rw [here, Option.map_some] at shown
      obtain ⟨other, isOther, sameShown⟩ := Option.map_eq_some_iff.mp shown
      simp only [isOther, Diagnostic.quotation, sameShown]

/-- Diagnostics of lines up to an index are reported with these lines alone. -/
theorem report_aborted_of_sameUpTo
    {index : Nat}
    {source other : String}
    (same : SameUpTo index (Text.lines source.toList) (Text.lines other.toList))
    {fatal : Diagnostic}
    {skipped : List Diagnostic}
    (fatalLine : fatal.line ≤ 1 + index)
    (skippedLines : ∀ diagnostic ∈ skipped, diagnostic.line ≤ 1 + index)
    (file : String) :
    report file other (.error (.aborted fatal skipped)) =
      report file source (.error (.aborted fatal skipped)) := by
  simp only [report, render_eq_of_sameUpTo same fatalLine]
  congr 1
  apply List.map_congr_left
  intro diagnostic member
  rw [render_eq_of_sameUpTo same (skippedLines diagnostic member)]

/-- What is read of lines depends on their tokens alone. -/
theorem take_readSource_of_sameUpTo
    {index count : Nat}
    {source other : String}
    (same : SameUpTo index (Text.lines source.toList) (Text.lines other.toList))
    (within : count ≤ index + 1) :
    (readSource other).take count = (readSource source).take count := by
  apply List.ext_getElem?
  intro earlier
  rw [List.getElem?_take, List.getElem?_take]
  split
  · next before =>
      rw [getElem?_readSource, getElem?_readSource]
      cases found : (Text.lines source.toList)[earlier]? with
      | some line =>
          obtain ⟨another, isOther, sameTokens⟩ :=
            same.exists_line (by omega) found
          rw [isOther, Option.map_some, Option.map_some, readLine, sameTokens,
            readLine]
      | none =>
          have shown := same earlier (by omega)
          rw [found, Option.map_none, Option.map_eq_none_iff] at shown
          rw [shown]
  · rfl

theorem breaksOff_congr
    {line other : List Char}
    (same : tokens other = tokens line) :
    BreaksOff other ↔ BreaksOff line := by
  rw [BreaksOff, BreaksOff, instructionTokens, same, instructionTokens]

/-- The end of an assembly does not depend on what is behind it. -/
theorem abortion?_of_sameUpTo
    {index : Nat}
    {source other : String}
    {text : List Char}
    {token : Token}
    (same : SameUpTo index (Text.lines source.toList) (Text.lines other.toList))
    (isText : (Text.lines source.toList)[index]? = some text)
    (first : IsFirst (BadRegister (instructionTokens text)) token)
    (goodBefore : ∀ earlier line, earlier < index →
      (Text.lines source.toList)[earlier]? = some line → ¬ BreaksOff line) :
    abortion? (readSource other) =
      some (⟨1 + index, token.column, .invalidRegister token.text⟩,
        reportedBefore source index text) := by
  obtain ⟨another, isOther, sameTokens⟩ :=
    same.exists_line (Nat.le_refl index) isText
  refine abortion?_readSource_eq_some_iff.mpr
    ⟨index, another, token, isOther, ?_, ?_, rfl, ?_⟩
  · rw [instructionTokens, sameTokens]
    exact first
  · intro earlier line isBefore isLine breaksOff
    obtain ⟨original, isOriginal, sameThere⟩ :=
      same.symm.exists_line (Nat.le_of_lt isBefore) isLine
    exact goodBefore earlier original isBefore isOriginal
      ((breaksOff_congr sameThere).mpr breaksOff)
  · rw [reportedBefore, reportedBefore,
      take_readSource_of_sameUpTo same (Nat.le_succ index), readLine, readLine,
      sameTokens]

end Influence

/--
An assembly fails exactly when some line has a bad register in an instruction
that is called with as many arguments as it takes.  The failure is about the
first such token of the first such line.  Reported before it are the errors of
single lines up to this one, in their order, and after it nothing.  Whatever the
lines behind it are, outcome and report stay the same.
-/
theorem assemble_aborts_iff (source : String) :
    let lines := Text.lines source.toList
    ((∃ failure, assemble source = .error failure) ↔
      ∃ line ∈ lines, BreaksOff line) ∧
    ∀ failure, assemble source = .error failure →
      ∃ index token skipped,
        let fatal : Diagnostic :=
          ⟨1 + index, token.column, .invalidRegister token.text⟩
        EndsAt lines index token ∧
        failure = .aborted fatal skipped ∧
        fatal.cause.message = "invalid register '" ++ token.text ++ "'" ∧
        skipped.Pairwise Diagnostic.Precedes ∧
        (∀ diagnostic, diagnostic ∈ skipped ↔
          ∃ earlier line place cause, earlier ≤ index ∧
            lines[earlier]? = some line ∧ LineError line place cause ∧
            diagnostic = ⟨1 + earlier, place.column, cause⟩) ∧
        (∀ file, report file source (assemble source) =
          skipped.map (fun diagnostic => .warn (diagnostic.render file lines)) ++
            [.error (fatal.render file lines)]) ∧
        ∀ other, SameUpTo index lines (Text.lines other.toList) →
          assemble other = assemble source ∧
          ∀ file, report file other (assemble other) =
            report file source (assemble source) := by
  intro lines
  cases ends : abortion? (readSource source) with
  | none =>
      have succeeds : ∀ failure, assemble source ≠ .error failure := by
        intro failure failed
        simp only [assemble, ends, assembleLines_readSource] at failed
        cases failed
      have good := abortion?_readSource_eq_none_iff.mp ends
      refine ⟨⟨?_, ?_⟩, ?_⟩
      · rintro ⟨failure, failed⟩
        exact (succeeds failure failed).elim
      · rintro ⟨line, member, breaksOff⟩
        exact (good line member breaksOff).elim
      · intro failure failed
        exact (succeeds failure failed).elim
  | some result =>
      obtain ⟨fatal, skipped⟩ := result
      obtain ⟨index, text, token, isText, first, goodBefore, rfl, rfl⟩ :=
        abortion?_readSource_eq_some_iff.mp ends
      have breaksOff : BreaksOff text := by
        obtain ⟨place, badRegister⟩ := first.exists_place
        exact ⟨place, token, badRegister⟩
      have fails : assemble source = .error (.aborted
          ⟨1 + index, token.column, .invalidRegister token.text⟩
          (reportedBefore source index text)) := by
        simp only [assemble, ends]
      refine ⟨⟨fun _ => ⟨text, List.mem_of_getElem? isText, breaksOff⟩,
        fun _ => ⟨_, fails⟩⟩, ?_⟩
      intro failure failed
      obtain rfl := Except.error.inj (fails.symm.trans failed)
      refine ⟨index, token, reportedBefore source index text, ⟨⟨text, isText, first⟩,
        ?_⟩, rfl, rfl, pairwise_reportedBefore isText, ?_, ?_, ?_⟩
      · intro earlier line found breaksOffThere
        by_contra isBefore
        exact goodBefore earlier line (Nat.lt_of_not_le isBefore) found
          breaksOffThere
      · intro diagnostic
        exact mem_reportedBefore_iff isText breaksOff goodBefore
      · intro file
        simp only [failed, report, lines]
      · intro other same
        have failsToo : assemble other = assemble source := by
          rw [failed]
          simp only [assemble,
            abortion?_of_sameUpTo same isText first goodBefore]
        refine ⟨failsToo, fun file => ?_⟩
        rw [failsToo, failed]
        apply report_aborted_of_sameUpTo same (Nat.le_refl _)
        intro diagnostic member
        obtain ⟨earlier, _, _, _, notBehind, _, _, rfl⟩ :=
          (mem_reportedBefore_iff isText breaksOff goodBefore).mp member
        exact Nat.add_le_add_left notBehind 1

/--
A source with an error of every kind that reading shows before its fourth line,
where two of three arguments are bad registers.
-/
private def brokenSource : String :=
  "x: bogus\n1a: INC R0, R1\nLOAD R1, 5z\nb-: ADD r1, R8, Q ; stop\nx: HALT"

/-- The same lines with other endings and another end. -/
private def brokenAlike : String :=
  "x: bogus\r\n1a: INC R0, R1\nLOAD R1, 5z\nb-: ADD r1, R8, Q ; stop\r\r\n\njump"

private def brokenFailure : Failure :=
  .aborted ⟨4, 13, .invalidRegister "R8"⟩
    [⟨1, 4, .unknownMnemonic "bogus"⟩, ⟨2, 1, .invalidLabel "1a"⟩,
      ⟨2, 5, .arityMismatch "INC" 1 2⟩, ⟨3, 10, .invalidImmediate "5z"⟩,
      ⟨4, 1, .invalidLabel "b-"⟩]

/-- Both sources fail alike, at the first of the two registers. -/
theorem assemble_aborts_iff_brokenSource :
    assemble brokenSource = .error brokenFailure ∧
      SameUpTo 3 (Text.lines brokenSource.toList)
        (Text.lines brokenAlike.toList) ∧
      assemble brokenAlike = .error brokenFailure := by
  have ends : abortion? (readSource brokenSource) =
      some (⟨4, 13, .invalidRegister "R8"⟩,
        [⟨1, 4, .unknownMnemonic "bogus"⟩, ⟨2, 1, .invalidLabel "1a"⟩,
          ⟨2, 5, .arityMismatch "INC" 1 2⟩, ⟨3, 10, .invalidImmediate "5z"⟩,
          ⟨4, 1, .invalidLabel "b-"⟩]) := by
    decide +kernel
  have failed : assemble brokenSource = .error brokenFailure := by
    simp only [assemble, ends, brokenFailure]
  have same : SameUpTo 3 (Text.lines brokenSource.toList)
      (Text.lines brokenAlike.toList) := by
    unfold SameUpTo
    decide +kernel
  obtain ⟨index, token, skipped, _, isFailure, _, _, _, _, unaffected⟩ :=
    (assemble_aborts_iff brokenSource).2 brokenFailure failed
  have third : 1 + index = 4 := by
    have fatal := (Failure.aborted.inj isFailure).1
    exact (congrArg Diagnostic.line fatal).symm
  obtain rfl : index = 3 := by omega
  exact ⟨failed, same, (unaffected brokenAlike same).1.trans failed⟩

end RegisterMachine.Assembly
