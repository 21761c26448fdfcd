import RegisterMachine.Proofs.Assembly.Diagnostics
import RegisterMachine.Proofs.Text.Line

namespace RegisterMachine.Assembly

/-!
# Carets under quoted lines

A rendered diagnostic ends in two rows: its line, behind a gutter with the number of
the line, and a caret behind as many spaces as there are bytes before the token.  The
number has at least four places and the caret row leaves four, so that the caret is
under the token only when numbers of five digits and characters of several bytes
do not move one of the rows against the other.
-/

/-- A diagnostic that assembling a source reports, whether this gives an image or not. -/
inductive Reported (source : String) (diagnostic : Diagnostic) : Prop where
  | assembled {assembly : Assembled} :
      assemble source = .ok assembly →
      diagnostic ∈ assembly.diagnostics →
      Reported source diagnostic
  | aborted {fatal : Diagnostic} {skipped : List Diagnostic} :
      assemble source = .error (.aborted fatal skipped) →
      diagnostic ∈ skipped ++ [fatal] →
      Reported source diagnostic

/-- A token of a line is what a diagnostic with this cause is about. -/
inductive Offends (lines : List (List Char)) (index : Nat) (line : List Char)
    (token : Token) : SyntaxError → Prop where
  | skipped {cause : SyntaxError} :
      SourceError lines index line token cause →
      Offends lines index line token cause
  | fatal :
      IsFirst (BadRegister (instructionTokens line)) token →
      Offends lines index line token (.invalidRegister token.text)

/-- A text ends in a row for a line, behind a gutter, and a row for a caret. -/
def EndsInRows (text : String) (gutter line indent : List Char) : Prop :=
  ∃ above, Text.pieces text.toList = above ++ [gutter ++ line, indent ++ ['^']]

/--
A rendered diagnostic quotes the line that it is about, without the carriage returns
at its end, and marks a place with a caret.  The token that it is about, in the column
of the diagnostic, stands behind these characters of the line.
-/
def Quotes (source file : String) (diagnostic : Diagnostic)
    (gutter before indent : List Char) : Prop :=
  ∃ index line returns token after,
    (Text.lines source.toList)[index]? = some line ∧
    diagnostic.line = index + 1 ∧
    line = Diagnostic.shownLine line ++ List.replicate returns '\r' ∧
    EndsInRows (diagnostic.render file (Text.lines source.toList)) gutter
      (Diagnostic.shownLine line) indent ∧
    Offends (Text.lines source.toList) index line token diagnostic.cause ∧
    token.column = diagnostic.column ∧
    Diagnostic.shownLine line = before ++ token.text.toList ++ after ∧
    token.column = byteWidth before + 1

section Reporting

variable {source : String} {diagnostic : Diagnostic}

/-- What is wrong with a line by itself is wrong with it in the source. -/
theorem LineError.sourceError
    {lines : List (List Char)}
    {index : Nat}
    {line : List Char}
    {token : Token}
    {cause : SyntaxError}
    (error : LineError line token cause) :
    SourceError lines index line token cause := by
  cases error with
  | invalidLabel defining misnamed =>
      exact .invalidLabel defining misnamed
  | instruction error =>
      exact .instruction (.reading error)

theorem Offends.mem
    {lines : List (List Char)}
    {index : Nat}
    {line : List Char}
    {token : Token}
    {cause : SyntaxError}
    (offends : Offends lines index line token cause) :
    token ∈ tokens line := by
  cases offends with
  | skipped error =>
      exact error.mem
  | fatal first =>
      obtain ⟨_, argument, _⟩ := first.exists_place
      exact instructionTokens_subset line argument.mem

/-- Every reported diagnostic is about a token of a line of the source. -/
theorem Reported.exists_offends
    (reported : Reported source diagnostic) :
    ∃ index line token cause,
      (Text.lines source.toList)[index]? = some line ∧
      Offends (Text.lines source.toList) index line token cause ∧
      diagnostic = ⟨1 + index, token.column, cause⟩ := by
  cases reported with
  | assembled assembled member =>
      obtain ⟨good, rfl⟩ := assembly_of_assemble assembled
      obtain ⟨index, line, token, cause, found, error, same⟩ :=
        (mem_errors_readSource_iff good).mp member
      exact ⟨index, line, token, cause, found, .skipped error, same⟩
  | aborted failed member =>
      obtain ⟨index, token, skipped, endsAt, sameFailure, _, _, isSkipped, _⟩ :=
        (assemble_aborts_iff source).2 _ failed
      obtain ⟨rfl, rfl⟩ := Failure.aborted.inj sameFailure
      rcases List.mem_append.mp member with inSkipped | isFatal
      · obtain ⟨earlier, line, place, cause, _, found, error, same⟩ :=
          (isSkipped diagnostic).mp inSkipped
        exact ⟨earlier, line, place, cause, found, .skipped error.sourceError, same⟩
      · obtain ⟨line, found, first⟩ := endsAt.here
        exact ⟨index, line, token, _, found, .fatal first,
          List.mem_singleton.mp isFatal⟩

end Reporting

section Rows

/-- The gutter before a quoted line: its number in at least four places, and a bar. -/
def gutter (number : Nat) : List Char :=
  Log.Layout.pad { width := 4, alignment := .right } (Nat.toDigits 10 number) ++
    [' ', '|', ' ']

/-- What stands before the caret of a column. -/
def indent (column : Nat) : List Char :=
  List.replicate 5 ' ' ++ ['|', ' '] ++ List.replicate (column - 1) ' '

theorem length_gutter (number : Nat) :
    (gutter number).length = max 4 (Nat.toDigits 10 number).length + 3 := by
  rw [gutter, List.length_append, Log.Layout.length_pad]
  rfl

theorem length_indent (column : Nat) :
    (indent column).length = 7 + (column - 1) := by
  rw [indent, List.length_append, List.length_replicate]
  rfl

theorem newline_not_mem_gutter (number : Nat) : '\n' ∉ gutter number := by
  have noDigit : '\n' ∉ Nat.toDigits 10 number := by
    intro member
    cases Nat.isDigit_of_mem_toDigits (by decide) (by decide) member
  simp [gutter, Log.Layout.pad, noDigit]

theorem newline_not_mem_indent (column : Nat) : '\n' ∉ indent column := by
  simp [indent]

/-- Only carriage returns at the end of a line are not shown. -/
theorem exists_returns (line : List Char) :
    ∃ count, line = Diagnostic.shownLine line ++ List.replicate count '\r' := by
  have allReturns : ∀ character ∈ line.reverse.takeWhile (· == '\r'),
      character = '\r' := by
    intro character member
    exact beq_iff_eq.mp (List.all_eq_true.mp List.all_takeWhile character member)
  refine ⟨(line.reverse.takeWhile (· == '\r')).length, ?_⟩
  rw [← List.reverse_replicate, ← List.eq_replicate_of_mem allReturns,
    Diagnostic.shownLine, ← List.reverse_append, List.takeWhile_append_dropWhile,
    List.reverse_reverse]

theorem toList_quotation
    (diagnostic : Diagnostic)
    (line : List Char) :
    (diagnostic.quotation line).toList =
      "     |".toList ++ '\n' ::
        (gutter diagnostic.line ++ Diagnostic.shownLine line ++ '\n' ::
          (indent diagnostic.column ++ ['^'])) := by
  have feed : "     |\n".toList = "     |".toList ++ ['\n'] := by decide
  have bar : " | ".toList = [' ', '|', ' '] := by decide
  have margin : "     | ".toList = List.replicate 5 ' ' ++ ['|', ' '] := by decide
  have caret : "^".toList = ['^'] := by decide
  have newline : "\n".toList = ['\n'] := by decide
  simp only [Diagnostic.quotation, String.toList_append, String.toList_ofList,
    Log.Layout.apply, Log.Layout.cut, Nat.toList_repr, feed, bar, margin, caret,
    newline, gutter, indent, List.append_assoc, List.cons_append, List.nil_append]

/-- A rendered diagnostic about a line ends in its row and the row of the caret. -/
theorem endsInRows_render
    (diagnostic : Diagnostic)
    {lines : List (List Char)}
    {line : List Char}
    (found : lines[diagnostic.line - 1]? = some line)
    (oneRow : '\n' ∉ line)
    (file : String) :
    EndsInRows (diagnostic.render file lines) (gutter diagnostic.line)
      (Diagnostic.shownLine line) (indent diagnostic.column) := by
  have quotedRow : '\n' ∉ gutter diagnostic.line ++ Diagnostic.shownLine line := by
    rw [List.mem_append, not_or]
    refine ⟨newline_not_mem_gutter diagnostic.line, fun shown => oneRow ?_⟩
    obtain ⟨count, split⟩ := exists_returns line
    rw [split]
    exact List.mem_append_left _ shown
  have caretRow : '\n' ∉ indent diagnostic.column ++ ['^'] := by
    rw [List.mem_append, not_or]
    exact ⟨newline_not_mem_indent diagnostic.column, by decide⟩
  rw [EndsInRows, Diagnostic.render, found, String.toList_append, toList_quotation,
    ← List.append_assoc, Text.pieces_append, Text.pieces_append_newline quotedRow,
    Text.pieces_of_not_mem caretRow]
  exact ⟨_, rfl⟩

end Rows

section Widths

/-- Every character takes at least one byte. -/
theorem length_le_byteWidth (characters : List Char) :
    characters.length ≤ byteWidth characters := by
  induction characters with
  | nil =>
      exact Nat.le_refl 0
  | cons character rest inductionHypothesis =>
      have positive := character.utf8Size_pos
      rw [List.length_cons, byteWidth]
      omega

/-- An ASCII character takes one byte. -/
theorem byteWidth_of_ascii
    {characters : List Char}
    (ascii : ∀ character ∈ characters, character.toNat < 128) :
    byteWidth characters = characters.length := by
  induction characters with
  | nil =>
      rfl
  | cons character rest inductionHypothesis =>
      obtain ⟨here, later⟩ := List.forall_mem_cons.mp ascii
      have narrow : character.utf8Size = 1 :=
        Char.utf8Size_eq_one_iff.mpr (Nat.le_of_lt_succ here)
      rw [byteWidth, inductionHypothesis later, narrow, List.length_cons, Nat.add_comm]

end Widths

/--
Every reported diagnostic quotes its line.  The caret stands to the right of the token
by one place for each byte before the token that is not the first of its character,
and to the left by one for each digit of the line number beyond four; it is under the
token up to line 9999 if only ASCII characters stand before it.
-/
theorem caret_of_reported
    {source : String}
    {diagnostic : Diagnostic}
    (reported : Reported source diagnostic)
    (file : String) :
    ∃ gutter before indent, Quotes source file diagnostic gutter before indent ∧
      indent.length + ((Nat.toDigits 10 diagnostic.line).length - 4) =
        (gutter ++ before).length + (byteWidth before - before.length) ∧
      (diagnostic.line < 10000 → (∀ character ∈ before, character.toNat < 128) →
        indent.length = (gutter ++ before).length) := by
  obtain ⟨index, line, token, cause, found, offends, rfl⟩ := reported.exists_offends
  -- What is quoted is the line as shown, which has the same tokens.
  have isShown : token ∈ tokens (Diagnostic.shownLine line) := by
    rw [tokens_shownLine]
    exact offends.mem
  obtain ⟨before, after, split, place⟩ := exists_split_of_mem_tokens isShown
  obtain ⟨returns, ended⟩ := exists_returns line
  have rows := endsInRows_render ⟨1 + index, token.column, cause⟩
    (by rw [Nat.add_sub_cancel_left, found])
    (Text.not_mem_of_mem_lines (List.mem_of_getElem? found)) file
  have caretWidth := length_indent token.column
  have gutterWidth := length_gutter (1 + index)
  have wide := length_le_byteWidth before
  refine ⟨gutter (1 + index), before, indent token.column,
    ⟨index, line, returns, token, after, found, Nat.add_comm 1 index, ended, rows,
      offends, rfl, split, place⟩, ?_, fun fourDigits ascii => ?_⟩
  · rw [List.length_append]
    simp only
    omega
  · have fewDigits : (Nat.toDigits 10 (1 + index)).length ≤ 4 :=
      (Nat.length_toDigits_le_iff (by decide) (by decide)).mpr fourDigits
    have narrow := byteWidth_of_ascii ascii
    rw [List.length_append]
    omega

/-- The caret is under an unknown mnemonic at the start of the second line. -/
theorem caret_of_reported_secondLine :
    let source := "INC R0\nFOO R1\n"
    let diagnostic : Diagnostic := ⟨2, 1, .unknownMnemonic "FOO"⟩
    Reported source diagnostic ∧
      ∃ gutter before indent,
        Quotes source "prog.asm" diagnostic gutter before indent ∧
        indent.length = (gutter ++ before).length := by
  intro source diagnostic
  have assembled : assemble source = .ok ⟨[9, 0], [diagnostic]⟩ :=
    assemble_eq_ok_iff.mpr ⟨by decide +kernel, by decide +kernel⟩
  have reported : Reported source diagnostic :=
    .assembled assembled List.mem_cons_self
  obtain ⟨gutter, before, indent, quotes, _, aligned⟩ :=
    caret_of_reported reported "prog.asm"
  refine ⟨reported, gutter, before, indent, quotes, aligned (by decide) ?_⟩
  obtain ⟨_, _, _, token, _, _, _, _, _, _, column, _, place⟩ := quotes
  have width := length_le_byteWidth before
  have noWidth : byteWidth before = 0 :=
    Nat.succ.inj (place.symm.trans column)
  obtain rfl : before = [] := List.eq_nil_of_length_eq_zero (by omega)
  exact nofun

/-- A letter of two bytes before the token moves the caret one place too far. -/
theorem not_caret_under_token_wideLetter :
    ¬ ∀ source diagnostic file, Reported source diagnostic →
      ∃ gutter before indent, Quotes source file diagnostic gutter before indent ∧
        indent.length = (gutter ++ before).length := by
  intro pointed
  have assembled : assemble "é: FOO" =
      .ok ⟨[], [⟨1, 1, .invalidLabel "é"⟩, ⟨1, 5, .unknownMnemonic "FOO"⟩]⟩ :=
    assemble_eq_ok_iff.mpr ⟨by decide +kernel, by decide +kernel⟩
  obtain ⟨gutter, before, indent, ⟨index, line, _, token, after, found, number, _,
      ⟨above, rows⟩, _, column, split, place⟩, aligned⟩ :=
    pointed "é: FOO" ⟨1, 5, .unknownMnemonic "FOO"⟩ unnamedFile
      (.assembled assembled (by decide))
  obtain rfl : 0 = index := Nat.succ.inj number
  have oneLine : Text.lines "é: FOO".toList = ["é: FOO".toList] := by decide
  rw [oneLine] at found
  obtain rfl : "é: FOO".toList = line := Option.some.inj found
  have isBefore : before = "é: ".toList := by
    have fourBytes : byteWidth before = 4 := Nat.succ.inj (place.symm.trans column)
    have cut := takeBytes_byteWidth before (token.text.toList ++ after)
    rw [fourBytes, ← List.append_assoc, ← split] at cut
    rw [← cut]
    decide
  have lastRows : gutter ++ Diagnostic.shownLine "é: FOO".toList =
        "   1 | é: FOO".toList ∧
      indent ++ ['^'] = "     |     ^".toList := by
    have rendered : Text.pieces (Diagnostic.render ⟨1, 5, .unknownMnemonic "FOO"⟩
        unnamedFile (Text.lines "é: FOO".toList)).toList =
          ["unknown instruction 'FOO'".toList, " --> <source>:1:5".toList,
            "     |".toList] ++
          ["   1 | é: FOO".toList, "     |     ^".toList] := by
      decide +kernel
    have last := (List.append_inj' (rows.symm.trans rendered) rfl).2
    simpa only [List.cons.injEq, and_true] using last
  have quotedWidth := congrArg List.length lastRows.1
  have caretWidth := congrArg List.length lastRows.2
  have shownWidth : (Diagnostic.shownLine "é: FOO".toList).length = 6 := by decide
  have quotedRow : "   1 | é: FOO".toList.length = 13 := by decide
  have caretRow : "     |     ^".toList.length = 12 := by decide
  have beforeWidth : "é: ".toList.length = 3 := by decide
  rw [isBefore, List.length_append, beforeWidth] at aligned
  rw [List.length_append, shownWidth, quotedRow] at quotedWidth
  rw [List.length_append, caretRow, List.length_singleton] at caretWidth
  omega

end RegisterMachine.Assembly
