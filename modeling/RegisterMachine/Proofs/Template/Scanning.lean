import RegisterMachine.Proofs.Template.Segment
import RegisterMachine.Proofs.Text.Blank

namespace RegisterMachine.Template

/-!
# Scanning a well-formed template

A scan goes through the text of segments one segment at a time, whatever stands
beside it: of braces in a row it splits off the escapes and finds the one that
opens a placeholder.  So it gives what the placeholders refer to, in their order
(`placeholders_textOf`).
-/

/-- What a segment refers to: the name in a placeholder without blanks around it, if any is left. -/
def Segment.reference? : Segment → Option String
  | .placeholder content =>
      let name := Text.trimBlank content.name
      if name.isEmpty then none else some (String.ofList name)
  | _ => none

/-- The characters between the braces of a placeholder. -/
def Placeholder.inside (placeholder : Placeholder) : List Char :=
  placeholder.name ++ placeholder.format.elim [] (':' :: ·)

namespace Placeholder

variable (placeholder : Placeholder)

theorem text_eq_inside :
    placeholder.text = openBrace :: (placeholder.inside ++ [closeBrace]) := by
  rw [text, ending, inside, List.append_assoc]
  cases placeholder.format <;> rfl

theorem isInside_of_mem_inside :
    ∀ character ∈ placeholder.inside, isInside character = true := by
  have inside_of_noBrace {character : Char} (noBrace : ¬ IsBrace character) :
      isInside character = true :=
    bne_iff_ne.mpr fun closes => noBrace (.inr closes)
  intro character member
  rcases List.mem_append.mp member with inName | inFormat
  · exact inside_of_noBrace fun brace =>
      placeholder.nameClean character inName (.inl brace)
  · have formatClean := placeholder.formatClean
    cases isFormat : placeholder.format with
    | none =>
        rw [isFormat] at inFormat
        cases inFormat
    | some format =>
        rw [isFormat] at inFormat
        rcases List.mem_cons.mp inFormat with rfl | inFormat
        · decide
        · exact inside_of_noBrace (formatClean format isFormat character inFormat)

/-- The name ends where the format starts. -/
theorem placeholderName_inside :
    placeholderName placeholder.inside = Text.trimBlank placeholder.name := by
  have noColon : ∀ character ∈ placeholder.name, (character != ':') = true :=
    fun character member => bne_iff_ne.mpr fun isColon =>
      placeholder.nameClean character member (.inr isColon)
  have nothingLeft :
      (placeholder.format.elim [] (':' :: ·)).takeWhile (· != ':') = [] := by
    cases placeholder.format <;> rfl
  rw [placeholderName, inside, List.takeWhile_append_of_pos noColon, nothingLeft,
    List.append_nil]

end Placeholder

section Scan

theorem scan_cons_of_ne
    {character : Char}
    (notOpen : character ≠ openBrace)
    (rest : List Char) :
    scan (character :: rest) = scan rest := by
  rw [scan, if_neg notOpen]

/-- An escaped brace is passed over, and the next brace is looked at afresh. -/
theorem scan_openEscape (rest : List Char) :
    scan (openBrace :: openBrace :: rest) = scan rest := by
  rw [scan, if_pos rfl, if_pos (List.head?_cons ..), List.drop_one, List.tail_cons]

/-- A placeholder gives what it refers to, and is passed over with its last brace. -/
theorem scan_placeholder
    (content : Placeholder)
    (rest : List Char) :
    scan (content.text ++ rest) =
      (Segment.placeholder content).reference?.toList ++ scan rest := by
  have inside := content.isInside_of_mem_inside
  let behind := content.inside ++ closeBrace :: rest
  have shape : content.text ++ rest = openBrace :: behind := by
    rw [content.text_eq_inside, List.cons_append, List.append_assoc]
    rfl
  have notEscape : behind.head? ≠ some openBrace := by
    intro first
    obtain ⟨later, isBehind⟩ := List.head?_eq_some_iff.mp first
    exact Placeholder.text_append_ne (shape.trans (congrArg (openBrace :: ·) isBehind))
  have taken : behind.takeWhile isInside = content.inside := by
    rw [List.takeWhile_append_of_pos inside]
    exact List.append_nil content.inside
  have left : behind.dropWhile isInside = closeBrace :: rest := by
    rw [List.dropWhile_append_of_pos inside]
    rfl
  rw [shape, scan, if_pos rfl, if_neg notEscape, taken, left, content.placeholderName_inside,
    List.drop_one, List.tail_cons, Segment.reference?]
  dsimp only
  split <;> rfl

/-- A segment is scanned apart from what follows it. -/
theorem scan_segment
    (segment : Segment)
    (rest : List Char) :
    scan (segment.text ++ rest) = segment.reference?.toList ++ scan rest := by
  cases segment with
  | literal character noBrace =>
      exact scan_cons_of_ne (fun isOpen => noBrace (.inl isOpen)) rest
  | openEscape =>
      exact scan_openEscape rest
  | closeEscape =>
      have notOpen : closeBrace ≠ openBrace := by
        decide
      exact (scan_cons_of_ne notOpen _).trans (scan_cons_of_ne notOpen rest)
  | placeholder content =>
      exact scan_placeholder content rest

/-- Scanning the text of segments gives what they refer to. -/
theorem scan_textOf (segments : List Segment) :
    scan (textOf segments) = segments.filterMap Segment.reference? := by
  induction segments with
  | nil =>
      rw [textOf, List.flatMap_nil, scan, List.filterMap_nil]
  | cons segment rest inductionHypothesis =>
      rw [textOf, List.flatMap_cons, scan_segment, ← textOf, inductionHypothesis,
        List.filterMap_cons]
      cases segment.reference? <;> rfl

end Scan

/-- A segment refers to a name when it is a placeholder with only blanks around the name. -/
theorem Segment.reference?_eq_some_iff
    {segment : Segment}
    {name : String} :
    segment.reference? = some name ↔
      ∃ content, segment = .placeholder content ∧ name ≠ "" ∧
        Text.IsTrimmed name.toList ∧ Text.BlankAround name.toList content.name := by
  constructor
  · intro refers
    cases segment with
    | placeholder content =>
        obtain ⟨notEmpty, isName⟩ := Option.ite_none_left_eq_some.mp refers
        obtain rfl := Option.some.inj isName
        refine ⟨content, rfl, ?_, Text.trimBlank_eq_iff.mp String.toList_ofList.symm⟩
        intro empty
        rw [← String.toList_eq_nil_iff, String.toList_ofList] at empty
        exact notEmpty (List.isEmpty_iff.mpr empty)
    | literal => cases refers
    | openEscape => cases refers
    | closeEscape => cases refers
  · rintro ⟨content, rfl, notEmpty, trimmed⟩
    have isName := Text.trimBlank_eq_iff.mpr trimmed
    have notNil : ¬ name.toList.isEmpty = true := by
      rwa [List.isEmpty_iff, String.toList_eq_nil_iff]
    rw [reference?, isName, if_neg notNil, String.ofList_toList]

/-- A trimmed name is referred to where a placeholder has only blanks around it. -/
theorem mem_references_iff
    {segments : List Segment}
    {name : String}
    (notEmpty : name ≠ "")
    (trimmed : Text.IsTrimmed name.toList) :
    name ∈ segments.filterMap Segment.reference? ↔
      ∃ content, .placeholder content ∈ segments ∧
        Text.BlankAround name.toList content.name := by
  rw [List.mem_filterMap]
  constructor
  · rintro ⟨segment, member, refers⟩
    obtain ⟨content, rfl, _, _, around⟩ := Segment.reference?_eq_some_iff.mp refers
    exact ⟨content, member, around⟩
  · rintro ⟨content, member, around⟩
    exact ⟨.placeholder content, member,
      Segment.reference?_eq_some_iff.mpr ⟨content, rfl, notEmpty, trimmed, around⟩⟩

/--
Scanning a well-formed template gives the names in its placeholders, in order and
as often as they stand there, without the blanks around them and without the
empty ones.  Literal characters and escapes give nothing.
-/
theorem placeholders_textOf (segments : List Segment) :
    placeholders (String.ofList (textOf segments)) =
        segments.filterMap Segment.reference? ∧
      ∀ segment name, Segment.reference? segment = some name ↔
        ∃ content, segment = .placeholder content ∧ name ≠ "" ∧
          Text.IsTrimmed name.toList ∧ Text.BlankAround name.toList content.name := by
  refine ⟨?_, fun segment name => Segment.reference?_eq_some_iff⟩
  rw [placeholders, String.toList_ofList, scan_textOf]

/-- Three opening braces are an escape and the brace of a placeholder. -/
example : placeholders "\x7b\x7b\x7b a :x\x7d\x7d\x7d" = ["a"] := by
  cbv

end RegisterMachine.Template
