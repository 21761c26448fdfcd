import RegisterMachine.Proofs.Assembly.Cut
import RegisterMachine.Proofs.Assembly.Numbering
import RegisterMachine.Proofs.Text.Line

namespace RegisterMachine.Assembly

/-!
# Lines that are assembled alike

An empty line at the end of a source adds nothing, and neither does a carriage
return at the end of a line.  A source is therefore assembled like the pieces
between its line feeds, whether or not the last of them is empty.
-/

/-- Lines with the same labels, the same bytes and the same errors. -/
structure AssembledAlike (lines others : List Line) : Prop where
  accepted :
    (∀ line ∈ lines, line.fatal? = none) ↔ ∀ line ∈ others, line.fatal? = none
  defined :
    definedNames lines = definedNames others
  used :
    usedNames lines = usedNames others
  size :
    totalSize (resolve lines) = totalSize (resolve others)
  offsets :
    offsetsFrom 0 (resolve lines) = offsetsFrom 0 (resolve others)
  image :
    imageOf lines = imageOf others
  errors :
    errorsFrom [] (resolve lines) = errorsFrom [] (resolve others)

section WithoutLabels

variable (lines : List Line) {line : Line} (noLabels : line.labels = [])
include noLabels

private theorem definitions_of_noLabels : line.definitions = [] := by
  rw [Line.definitions, noLabels, List.filter_nil]

theorem definedNames_append_line :
    definedNames (lines ++ [line]) = definedNames lines := by
  rw [definedNames_append, definedNames, definedNames, List.flatMap_singleton,
    definitions_of_noLabels noLabels]
  exact List.append_nil _

/-- A line that defines no label decides nothing about the lines before it. -/
theorem resolve_append_line :
    resolve (lines ++ [line]) =
      resolve lines ++ [line.resolve (definedNames lines)] := by
  rw [resolve, definedNames_append_line lines noLabels, List.map_append, resolve]
  rfl

theorem offsetsFrom_resolve_append_line :
    offsetsFrom 0 (resolve (lines ++ [line])) =
      offsetsFrom 0 (resolve lines) := by
  have noDefinitions : (line.resolve (definedNames lines)).definitions = [] := by
    rw [definitions_resolve, definitions_of_noLabels noLabels]
  rw [resolve_append_line lines noLabels, offsetsFrom_append, offsetsFrom,
    noDefinitions]
  exact List.append_nil _

/-- The image of lines is followed by the bytes of a line that defines no label. -/
theorem imageOf_append_line :
    imageOf (lines ++ [line]) =
      imageOf lines ++
        (line.resolve (definedNames lines)).bytes
          (offsetsFrom 0 (resolve lines)) := by
  rw [imageOf, offsetsFrom_resolve_append_line lines noLabels,
    resolve_append_line lines noLabels, List.flatMap_append,
    List.flatMap_singleton, imageOf]

/-- The errors of lines are followed by that of a line that defines no label. -/
theorem errorsFrom_append_line :
    errorsFrom [] (resolve (lines ++ [line])) =
      errorsFrom [] (resolve lines) ++
        (line.resolve (definedNames lines)).rejection?.toList := by
  rw [resolve_append_line lines noLabels, errorsFrom_append, errorsFrom,
    (number_labels_resolve _ line).2, noLabels, labelErrors, List.nil_append,
    errorsFrom, List.append_nil]

end WithoutLabels

section Blank

/-- A line without text. -/
def blankLine (number : Nat) : Line where
  number := number
  labels := []
  body := .empty

theorem readLine_nil (number : Nat) :
    readLine number [] = blankLine number := by
  rw [readLine, tokens, codePart, List.takeWhile_nil, tokensFrom]
  rfl

theorem AssembledAlike.refl (lines : List Line) : AssembledAlike lines lines :=
  ⟨.rfl, rfl, rfl, rfl, rfl, rfl, rfl⟩

/-- An empty line at the end adds nothing. -/
theorem assembledAlike_append_blankLine
    (lines : List Line)
    (number : Nat) :
    AssembledAlike (lines ++ [blankLine number]) lines := by
  have noLabels : (blankLine number).labels = [] := rfl
  refine ⟨?_, definedNames_append_line lines noLabels, ?_, ?_,
    offsetsFrom_resolve_append_line lines noLabels, ?_, ?_⟩
  · have accepted : (blankLine number).fatal? = none := rfl
    rw [List.forall_mem_append, List.forall_mem_singleton, and_iff_left accepted]
  · rw [usedNames, List.flatMap_append]
    exact List.append_nil _
  · rw [resolve_append_line lines noLabels, totalSize, List.map_append,
      List.sum_append]
    rfl
  · rw [imageOf_append_line lines noLabels]
    exact List.append_nil _
  · rw [errorsFrom_append_line lines noLabels]
    exact List.append_nil _

end Blank

section Reading

/-- A carriage return at the end of a line changes nothing in it. -/
theorem readLine_dropReturn
    (number : Nat)
    (piece : List Char) :
    readLine number (Text.dropReturn piece) = readLine number piece := by
  rw [readLine, tokens_dropReturn, readLine]

/-- Pieces are read as their lines, and an empty last piece as an empty line. -/
theorem assembledAlike_pieces
    (first : Nat)
    (pieces : List (List Char)) :
    AssembledAlike (readLines first (pieces.map Text.dropReturn))
      (readLines first (Text.linesOfPieces pieces)) := by
  rcases pieces.eq_nil_or_concat with rfl | ⟨ended, last, rfl⟩
  · exact .refl _
  · rw [List.concat_eq_append,
      Text.linesOfPieces_append ended (List.cons_ne_nil last []),
      List.map_append, readLines_append, readLines_append]
    -- Only an empty last piece is no line of its own.
    cases last with
    | nil =>
        have noLine : ∀ number, readLines number (Text.linesOfPieces [[]]) = [] :=
          fun _ => rfl
        have oneBlank : ∀ number,
            readLines number (List.map Text.dropReturn [[]]) =
              [blankLine number] := fun number =>
          congrArg ([·]) (readLine_nil number)
        rw [oneBlank, noLine, List.append_nil]
        exact assembledAlike_append_blankLine _ _
    | cons character rest =>
        have sameLast : ∀ number,
            readLines number (List.map Text.dropReturn [character :: rest]) =
              readLines number (Text.linesOfPieces [character :: rest]) :=
          fun number =>
            congrArg ([·]) (readLine_dropReturn number (character :: rest))
        rw [sameLast]
        exact .refl _

end Reading

/-- A source is assembled like any lines that are like its own. -/
theorem assemble_eq_ok_iff_of_alike
    {source : String}
    {lines : List Line}
    (alike : AssembledAlike lines (readSource source))
    {assembly : Assembled} :
    assemble source = .ok assembly ↔
      (∀ line ∈ lines, line.fatal? = none) ∧
        assembly = ⟨imageOf lines, errorsFrom [] (resolve lines)⟩ := by
  rw [assemble_eq_ok_iff, alike.accepted, alike.image, alike.errors]

end RegisterMachine.Assembly
