import RegisterMachine.Proofs.Template.Renaming
import RegisterMachine.Proofs.Template.Segment

namespace RegisterMachine.Template

/-!
# What renaming does to literal text

Renaming the indices of a well-formed template gives a well-formed template.
A placeholder that is named by an index gets the letter `f` in front of its
name, as it should.  But the renaming does not tell a brace that opens a
placeholder from the second brace of an escape: when literal text that reads
like an index and the end of a name follows an escaped brace, the letter is put
into the literal text.  Apart from that the literal text is kept
(`literals_of_nameFields`).
-/

/-- Whether the text of segments starts with an index and the end of a name. -/
def StartsWithIndex (count : Nat) (segments : List Segment) : Prop :=
  ∃ word ∈ indexEndings (List.range count), word <+: textOf segments

instance (count : Nat) (segments : List Segment) :
    Decidable (StartsWithIndex count segments) :=
  inferInstanceAs (Decidable (∃ word ∈ _, _))

/-- Whether a name is an index below a count. -/
def IsIndex (count : Nat) (name : List Char) : Prop :=
  ∃ index < count, name = (Nat.repr index).toList

instance (count : Nat) (name : List Char) : Decidable (IsIndex count name) :=
  inferInstanceAs (Decidable (∃ index < count, _))

/-- A placeholder with the letter `f` in front of a name that is an index. -/
def Placeholder.renamed (count : Nat) (placeholder : Placeholder) : Placeholder :=
  if IsIndex count placeholder.name then
    { placeholder with
      name := 'f' :: placeholder.name
      nameClean := List.forall_mem_cons.mpr ⟨by decide, placeholder.nameClean⟩ }
  else
    placeholder

/-- What renaming the indices below a count makes of segments. -/
def renamed (count : Nat) : List Segment → List Segment
  | [] => []
  | .literal character noBrace :: rest => .literal character noBrace :: renamed count rest
  | .openEscape :: rest =>
      if StartsWithIndex count rest then
        .openEscape :: .literal 'f' (by decide) :: renamed count rest
      else
        .openEscape :: renamed count rest
  | .closeEscape :: rest => .closeEscape :: renamed count rest
  | .placeholder content :: rest =>
      .placeholder (content.renamed count) :: renamed count rest

/-- No escaped opening brace is followed by an index and the end of a name. -/
def NoIndexEscaped (count : Nat) (segments : List Segment) : Prop :=
  ∀ rest, .openEscape :: rest <:+ segments → ¬ StartsWithIndex count rest

/-- A segment without the name of its placeholder. -/
def Segment.withoutName : Segment → Segment
  | .placeholder content => .placeholder { content with name := [], nameClean := nofun }
  | segment => segment

/-- The character that a segment is printed as; a placeholder is printed as its value. -/
def Segment.printed : Segment → Option Char
  | .literal character _ => some character
  | .openEscape => some openBrace
  | .closeEscape => some closeBrace
  | .placeholder _ => none

section Placeholder

private theorem not_endsName_digitChar :
    ∀ digit < 10, ¬ EndsName (Nat.digitChar digit) := by
  decide

theorem not_endsName_of_mem_repr
    {index : Nat}
    {character : Char}
    (member : character ∈ (Nat.repr index).toList) :
    ¬ EndsName character := by
  obtain ⟨digit, isDigit, rfl⟩ := exists_digit_of_mem_repr member
  exact not_endsName_digitChar digit isDigit

theorem endsName_of_mem
    {after : Char}
    (isAfter : after ∈ [closeBrace, ':']) :
    EndsName after := by
  rcases List.mem_cons.mp isAfter with rfl | isColon
  · exact .inl (.inr rfl)
  · exact .inr (List.mem_singleton.mp isColon)

/-- An index and the end of a name follow the brace of a placeholder when it is named so. -/
theorem starts_placeholder_iff
    (placeholder : Placeholder)
    (count : Nat)
    (after : List Char) :
    (∃ word ∈ indexEndings (List.range count),
        word <+: placeholder.name ++ placeholder.ending ++ after) ↔
      IsIndex count placeholder.name := by
  obtain ⟨stop, isStop, rest, ending⟩ := placeholder.exists_stop
  rw [ending, List.append_assoc]
  constructor
  · rintro ⟨word, member, later, same⟩
    obtain ⟨index, below, last, isLast, rfl⟩ := mem_indexEndings_iff.mp member
    rw [List.append_assoc] at same
    obtain ⟨isName, _⟩ :=
      append_cons_inj (endsName_of_mem isLast) (endsName_of_mem isStop)
        (fun _ => not_endsName_of_mem_repr) placeholder.nameClean same
    exact ⟨index, List.mem_range.mp below, isName.symm⟩
  · rintro ⟨index, below, isName⟩
    refine ⟨(Nat.repr index).toList ++ [stop],
      mem_indexEndings_iff.mpr ⟨index, List.mem_range.mpr below, stop, isStop, rfl⟩,
      rest ++ after, ?_⟩
    rw [isName, List.append_assoc]
    rfl

/-- A pass renames a placeholder and goes on behind it. -/
theorem letterBefore_placeholder
    (placeholder : Placeholder)
    (count : Nat)
    (after : List Char) :
    letterBefore (indexEndings (List.range count)) (placeholder.text ++ after) =
      (placeholder.renamed count).text ++
        letterBefore (indexEndings (List.range count)) after := by
  have noBrace : openBrace ∉ placeholder.name ++ placeholder.ending := by
    intro opens
    rcases List.mem_append.mp opens with inName | inEnding
    · exact placeholder.nameClean openBrace inName (.inl (.inl rfl))
    · exact placeholder.noBrace_ending inEnding
  have starts := starts_placeholder_iff placeholder count after
  rw [Placeholder.text, List.cons_append]
  by_cases isIndex : IsIndex count placeholder.name
  · rw [letterBefore_openBrace (starts.mpr isIndex), letterBefore_append noBrace,
      Placeholder.renamed, if_pos isIndex]
    rfl
  · rw [letterBefore_cons_of_not fun marked => isIndex (starts.mp marked.2),
      letterBefore_append noBrace, Placeholder.renamed, if_neg isIndex]
    rfl

end Placeholder

section Segments

variable (count : Nat)

/-- The first brace of an escape is not taken for the start of a placeholder. -/
theorem letterBefore_openEscape (after : List Char) :
    letterBefore (indexEndings (List.range count)) (openBrace :: openBrace :: after) =
      openBrace :: letterBefore (indexEndings (List.range count)) (openBrace :: after) := by
  refine letterBefore_cons_of_not ?_
  rintro ⟨_, word, member, starts⟩
  have plain := isPlain_of_mem_indexEndings member
  obtain ⟨first, later, rfl, _⟩ := plain.start
  exact plain.noBrace (List.mem_cons.mpr (.inl (List.cons_prefix_cons.mp starts).1.symm))

/-- Renaming in the text of segments is renaming in the segments. -/
theorem letterBefore_textOf (segments : List Segment) :
    letterBefore (indexEndings (List.range count)) (textOf segments) =
      textOf (renamed count segments) := by
  induction segments with
  | nil =>
      rfl
  | cons segment rest inductionHypothesis =>
      cases segment with
      | literal character noBrace =>
          have notOpen : character ≠ openBrace := fun isOpen => noBrace (.inl isOpen)
          exact (letterBefore_cons_of_ne notOpen _).trans
            (congrArg (character :: ·) inductionHypothesis)
      | openEscape =>
          refine (letterBefore_openEscape count (textOf rest)).trans ?_
          by_cases starts : StartsWithIndex count rest
          · rw [letterBefore_openBrace starts, inductionHypothesis, renamed, if_pos starts]
            rfl
          · rw [letterBefore_cons_of_not fun marked => starts marked.2,
              inductionHypothesis, renamed, if_neg starts]
            rfl
      | closeEscape =>
          have notOpen : openBrace ∉ Segment.closeEscape.text := by
            decide
          exact (letterBefore_append notOpen _).trans
            (congrArg (Segment.closeEscape.text ++ ·) inductionHypothesis)
      | placeholder content =>
          exact (letterBefore_placeholder content count _).trans
            (congrArg ((content.renamed count).text ++ ·) inductionHypothesis)

variable {count}

theorem noIndexEscaped_cons_iff
    {segment : Segment}
    {rest : List Segment} :
    NoIndexEscaped count (segment :: rest) ↔
      (segment = .openEscape → ¬ StartsWithIndex count rest) ∧
        NoIndexEscaped count rest := by
  constructor
  · intro none
    refine ⟨?_, fun later suffix => none later (suffix.trans (List.suffix_cons _ _))⟩
    rintro rfl
    exact none rest List.suffix_rfl
  · rintro ⟨notFirst, notLater⟩ later suffix
    rcases List.suffix_cons_iff.mp suffix with same | inRest
    · obtain ⟨isEscape, rfl⟩ := List.cons.inj same
      exact notFirst isEscape.symm
    · exact notLater later inRest

theorem Placeholder.withoutName_renamed (placeholder : Placeholder) :
    (Segment.placeholder (placeholder.renamed count)).withoutName =
      (Segment.placeholder placeholder).withoutName := by
  unfold Placeholder.renamed
  split <;> rfl

/-- Where no index is escaped only names of placeholders are changed. -/
theorem withoutName_renamed
    {segments : List Segment}
    (none : NoIndexEscaped count segments) :
    (renamed count segments).map Segment.withoutName =
      segments.map Segment.withoutName := by
  induction segments with
  | nil =>
      rfl
  | cons segment rest inductionHypothesis =>
      obtain ⟨notFirst, notLater⟩ := noIndexEscaped_cons_iff.mp none
      have sameRest := inductionHypothesis notLater
      cases segment with
      | literal character noBrace =>
          rw [renamed, List.map_cons, sameRest, List.map_cons]
      | openEscape =>
          rw [renamed, if_neg (notFirst rfl), List.map_cons, sameRest, List.map_cons]
      | closeEscape =>
          rw [renamed, List.map_cons, sameRest, List.map_cons]
      | placeholder content =>
          rw [renamed, List.map_cons, sameRest, List.map_cons, content.withoutName_renamed]

/-- The name of a placeholder is not printed. -/
theorem printed_withoutName (segment : Segment) :
    segment.withoutName.printed = segment.printed := by
  cases segment <;> rfl

theorem length_le_renamed (segments : List Segment) :
    segments.length ≤ (renamed count segments).length := by
  induction segments with
  | nil =>
      exact Nat.le_refl 0
  | cons segment rest inductionHypothesis =>
      cases segment with
      | literal => exact Nat.succ_le_succ inductionHypothesis
      | openEscape =>
          rw [renamed]
          split
          · exact Nat.le_succ_of_le (Nat.succ_le_succ inductionHypothesis)
          · exact Nat.succ_le_succ inductionHypothesis
      | closeEscape => exact Nat.succ_le_succ inductionHypothesis
      | placeholder => exact Nat.succ_le_succ inductionHypothesis

/-- Where an index is escaped a letter more is printed. -/
theorem noIndexEscaped_of_printed
    {segments : List Segment}
    (same :
      (renamed count segments).map Segment.printed = segments.map Segment.printed) :
    NoIndexEscaped count segments := by
  induction segments with
  | nil =>
      intro rest suffix
      cases List.suffix_nil.mp suffix
  | cons segment rest inductionHypothesis =>
      rw [noIndexEscaped_cons_iff]
      cases segment with
      | literal character noBrace =>
          exact ⟨nofun, inductionHypothesis (List.cons.inj same).2⟩
      | openEscape =>
          rw [renamed] at same
          by_cases starts : StartsWithIndex count rest
          · rw [if_pos starts] at same
            have lengths := congrArg List.length same
            have atLeast : rest.length ≤ (renamed count rest).length := length_le_renamed rest
            simp only [List.length_map, List.length_cons] at lengths
            omega
          · rw [if_neg starts] at same
            exact ⟨fun _ => starts, inductionHypothesis (List.cons.inj same).2⟩
      | closeEscape =>
          exact ⟨nofun, inductionHypothesis (List.cons.inj same).2⟩
      | placeholder content =>
          exact ⟨nofun, inductionHypothesis (List.cons.inj same).2⟩

theorem printed_renamed_iff (segments : List Segment) :
    (renamed count segments).map Segment.printed = segments.map Segment.printed ↔
      NoIndexEscaped count segments := by
  refine ⟨noIndexEscaped_of_printed, fun none => ?_⟩
  have printed := congrArg (List.map Segment.printed) (withoutName_renamed none)
  simpa only [List.map_map, Function.comp_def, printed_withoutName] using printed

end Segments

/--
The text that the indices of a well-formed template are renamed in is read in
one way, with the letter `f` in front of the names that are indices.  It has the
same literal characters and escapes in the same places, and prints the same
literal text, exactly when no escaped opening brace is followed by an index and
a closing brace or a colon.
-/
theorem literals_of_nameFields
    (segments : List Segment)
    (count : Nat) :
    (∀ read,
      textOf read = (nameFields (String.ofList (textOf segments)) count).toList ↔
        read = renamed count segments) ∧
      ((renamed count segments).map Segment.withoutName =
          segments.map Segment.withoutName ↔
        NoIndexEscaped count segments) ∧
      ((renamed count segments).map Segment.printed = segments.map Segment.printed ↔
        NoIndexEscaped count segments) := by
  refine ⟨fun read => ?_, ⟨fun same => ?_, withoutName_renamed⟩,
    printed_renamed_iff segments⟩
  · rw [toList_nameFields, String.toList_ofList, letterBefore_textOf]
    exact textOf_injective.eq_iff
  · have printed := congrArg (List.map Segment.printed) same
    simp only [List.map_map, Function.comp_def, printed_withoutName] at printed
    exact noIndexEscaped_of_printed printed

/-- An escaped name beside a placeholder with an index: only the index is renamed. -/
theorem literals_of_nameFields_escapedName :
    let name (first : Char) (clean : ¬ EndsName first) : Segment :=
      .placeholder ⟨[first], none, List.forall_mem_singleton.mpr clean, nofun⟩
    let segments : List Segment :=
      [.openEscape, .literal 'x' (by decide), .closeEscape, name '0' (by decide)]
    textOf segments = "\x7b\x7bx\x7d\x7d\x7b0\x7d".toList ∧
      NoIndexEscaped 1 segments ∧
      nameFields (String.ofList (textOf segments)) 1 = "\x7b\x7bx\x7d\x7d\x7bf0\x7d" := by
  intro name segments
  obtain ⟨reading, kept, _⟩ := literals_of_nameFields segments 1
  refine ⟨by decide, kept.mp (by decide), String.toList_inj.mp ?_⟩
  rw [← (reading _).mpr rfl]
  decide

/-- An index in escaped braces is literal text, and gets the letter of a name. -/
theorem not_keeps_literals_escapedIndex :
    ¬ ∀ segments count read,
      textOf read = (nameFields (String.ofList (textOf segments)) count).toList →
        read.map Segment.withoutName = segments.map Segment.withoutName := by
  intro keeps
  have same :=
    keeps [.openEscape, .literal '0' (by decide), .closeEscape] 1
      [.openEscape, .literal 'f' (by decide), .literal '0' (by decide), .closeEscape]
      (by rw [toList_nameFields, String.toList_ofList]; decide)
  cases congrArg List.length same

end RegisterMachine.Template
