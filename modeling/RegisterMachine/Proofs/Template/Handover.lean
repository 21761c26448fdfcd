import RegisterMachine.Template.Expansion
import RegisterMachine.Proofs.Template.LiteralText
import RegisterMachine.Proofs.Template.Scanning

namespace RegisterMachine.Template

/-!
# Fields handed over and fields referred to

The fields of a tuple that a template names are handed over under their field
names, and the renamed template has to refer to the same fields.  Scanning drops
the blanks around the index in a placeholder, but the renaming looks for the bare
index.  So the two agree exactly when each index that is named with blanks around
it is named without them as well (`usedIndices_of_nameFields`).
-/

open RegisterMachine.Text

/-- A placeholder has an index, perhaps with blanks around it. -/
def NamesIndex (segments : List Segment) (index : Nat) : Prop :=
  ∃ content, .placeholder content ∈ segments ∧
    BlankAround (Nat.repr index).toList content.name

/-- A placeholder has an index without blanks around it. -/
def NamesBareIndex (segments : List Segment) (index : Nat) : Prop :=
  ∃ content, .placeholder content ∈ segments ∧
    content.name = (Nat.repr index).toList

/-- Every placeholder has an index, perhaps with blanks around it. -/
def NamedByIndices (segments : List Segment) : Prop :=
  ∀ content, .placeholder content ∈ segments →
    ∃ index, BlankAround (Nat.repr index).toList content.name

section Names

variable (index : Nat)

theorem repr_injective : Function.Injective Nat.repr := by
  intro index other same
  have digits : Nat.toDigits 10 index = Nat.toDigits 10 other := by
    rw [← Nat.toList_repr, same, Nat.toList_repr]
  have read : Numeral.read? 10 (Nat.toDigits 10 index) = some index :=
    Numeral.read?_toDigits (by decide) (by decide) index
  rw [digits, Numeral.read?_toDigits (by decide) (by decide)] at read
  exact (Option.some.inj read).symm

private theorem isBlank_digitChar :
    ∀ digit < 10, isBlank (Nat.digitChar digit) = false := by
  decide

theorem noBlank_repr :
    ∀ character ∈ (Nat.repr index).toList, isBlank character = false := by
  intro character member
  obtain ⟨digit, isDigit, rfl⟩ := exists_digit_of_mem_repr member
  exact isBlank_digitChar digit isDigit

theorem isTrimmed_repr : IsTrimmed (Nat.repr index).toList :=
  isTrimmed_of_noBlank (noBlank_repr index)

theorem repr_ne_empty : Nat.repr index ≠ "" := by
  rw [← String.toList_eq_nil_iff.ne, Nat.toList_repr]
  exact Nat.toDigits_ne_nil

theorem toList_fieldName :
    (fieldName index).toList = 'f' :: (Nat.repr index).toList := by
  rw [fieldName, String.toList_append]
  rfl

theorem isTrimmed_fieldName : IsTrimmed (fieldName index).toList := by
  rw [toList_fieldName]
  exact isTrimmed_of_noBlank (List.forall_mem_cons.mpr ⟨by decide, noBlank_repr index⟩)

theorem fieldName_ne_empty : fieldName index ≠ "" := by
  rw [← String.toList_eq_nil_iff.ne, toList_fieldName]
  exact List.cons_ne_nil _ _

/-- No index reads like the name of a field. -/
theorem toList_fieldName_ne_repr (other : Nat) :
    (fieldName index).toList ≠ (Nat.repr other).toList := by
  intro same
  rw [toList_fieldName] at same
  exact (unmarked_of_mem_repr (same ▸ List.mem_cons_self)).2 rfl

end Names

section Renamed

variable {segments : List Segment} {count index : Nat}

theorem mem_renamed_iff
    {content : Placeholder} :
    .placeholder content ∈ renamed count segments ↔
      ∃ original, .placeholder original ∈ segments ∧
        content = original.renamed count := by
  induction segments with
  | nil =>
      simp [renamed]
  | cons segment rest inductionHypothesis =>
      cases segment with
      | literal character noBrace =>
          simp [renamed, inductionHypothesis]
      | openEscape =>
          rw [renamed]
          split <;> simp [inductionHypothesis]
      | closeEscape =>
          simp [renamed, inductionHypothesis]
      | placeholder original =>
          simp [renamed, inductionHypothesis, or_and_right, exists_or]

/-- A placeholder with an index gets the name of a field exactly from its bare index. -/
theorem blankAround_renamed_iff
    {content : Placeholder}
    {other : Nat}
    (around : BlankAround (Nat.repr other).toList content.name) :
    BlankAround (fieldName index).toList (content.renamed count).name ↔
      index < count ∧ content.name = (Nat.repr index).toList := by
  by_cases isIndex : IsIndex count content.name
  · have renamedName : (content.renamed count).name = 'f' :: content.name := by
      rw [Placeholder.renamed, if_pos isIndex]
    obtain ⟨bare, below, isName⟩ := isIndex
    rw [renamedName, isName, ← toList_fieldName]
    constructor
    · intro aroundField
      have same : (fieldName index).toList = (fieldName bare).toList :=
        aroundField.unique (.refl _) (isTrimmed_fieldName index) (isTrimmed_fieldName bare)
      rw [toList_fieldName, toList_fieldName, List.cons_inj_right] at same
      rw [repr_injective (String.toList_inj.mp same)]
      exact ⟨below, rfl⟩
    · rintro ⟨_, same⟩
      rw [toList_fieldName, toList_fieldName, same]
      exact .refl _
  · -- the index has blanks around it or is too large, and reads like no name of a field
    have kept : content.renamed count = content := by
      rw [Placeholder.renamed, if_neg isIndex]
    rw [kept]
    refine iff_of_false (fun aroundField => ?_) fun bare => isIndex ⟨index, bare⟩
    exact toList_fieldName_ne_repr index other
      (aroundField.unique around (isTrimmed_fieldName index) (isTrimmed_repr other))

theorem repr_mem_placeholders_iff :
    Nat.repr index ∈ placeholders (String.ofList (textOf segments)) ↔
      NamesIndex segments index := by
  rw [placeholders, String.toList_ofList, scan_textOf]
  exact mem_references_iff (repr_ne_empty index) (isTrimmed_repr index)

theorem mem_usedIndices_iff :
    index ∈ usedIndices (String.ofList (textOf segments)) count ↔
      index < count ∧ NamesIndex segments index := by
  rw [usedIndices, List.mem_filter, List.mem_range, List.contains_iff_mem,
    repr_mem_placeholders_iff]

/-- The renamed template refers to the fields that a bare index names. -/
theorem fieldName_mem_placeholders_iff
    (indexed : NamedByIndices segments) :
    fieldName index ∈ placeholders (nameFields (String.ofList (textOf segments)) count) ↔
      index < count ∧ NamesBareIndex segments index := by
  rw [placeholders, toList_nameFields, String.toList_ofList, letterBefore_textOf,
    scan_textOf, mem_references_iff (fieldName_ne_empty index) (isTrimmed_fieldName index)]
  constructor
  · rintro ⟨_, member, aroundField⟩
    obtain ⟨original, isOriginal, rfl⟩ := mem_renamed_iff.mp member
    obtain ⟨_, around⟩ := indexed original isOriginal
    obtain ⟨below, isName⟩ := (blankAround_renamed_iff around).mp aroundField
    exact ⟨below, original, isOriginal, isName⟩
  · rintro ⟨below, original, isOriginal, isName⟩
    obtain ⟨_, around⟩ := indexed original isOriginal
    exact ⟨original.renamed count, mem_renamed_iff.mpr ⟨original, isOriginal, rfl⟩,
      (blankAround_renamed_iff around).mpr ⟨below, isName⟩⟩

end Renamed

/--
In a template whose placeholders have indices, with or without blanks around them,
the fields that are handed over are those that an index names, and the renamed
template refers to those that a bare index names.  It refers to no other field, and
to all that are handed over exactly when no index is named only with blanks.
-/
theorem usedIndices_of_nameFields
    {segments : List Segment}
    (indexed : NamedByIndices segments)
    (count : Nat) :
    let template := String.ofList (textOf segments)
    let refersTo (index : Nat) : Prop :=
      fieldName index ∈ placeholders (nameFields template count)
    (∀ index, index ∈ usedIndices template count ↔
      index < count ∧ NamesIndex segments index) ∧
    (∀ index, refersTo index ↔ index < count ∧ NamesBareIndex segments index) ∧
    (∀ index, refersTo index → index ∈ usedIndices template count) ∧
    ((∀ index < count,
        Nat.repr index ∈ placeholders template ↔ refersTo index) ↔
      ∀ index < count, NamesIndex segments index → NamesBareIndex segments index) := by
  intro template refersTo
  have bare (index : Nat) : refersTo index ↔ index < count ∧ NamesBareIndex segments index :=
    fieldName_mem_placeholders_iff indexed
  have named {index : Nat} (isBare : NamesBareIndex segments index) :
      NamesIndex segments index := by
    obtain ⟨content, member, isName⟩ := isBare
    exact ⟨content, member, isName ▸ BlankAround.refl _⟩
  refine ⟨fun index => mem_usedIndices_iff, bare, fun index refers => ?_, ?_⟩
  · obtain ⟨below, isBare⟩ := (bare index).mp refers
    exact mem_usedIndices_iff.mpr ⟨below, named isBare⟩
  · refine forall₂_congr fun index below => ?_
    rw [repr_mem_placeholders_iff, bare, and_iff_right below]
    exact ⟨Iff.mp, fun onlyIf => ⟨onlyIf, named⟩⟩

/-- An index with a blank behind it, which stands bare in braces behind an escape as well. -/
theorem usedIndices_of_nameFields_blankAndBare :
    let blankEnd : Placeholder :=
      ⟨['0', ' '], none,
        List.forall_mem_cons.mpr ⟨by decide, List.forall_mem_singleton.mpr (by decide)⟩, nofun⟩
    let bare : Placeholder :=
      ⟨['0'], none, List.forall_mem_singleton.mpr (by decide), nofun⟩
    let segments : List Segment :=
      [.placeholder blankEnd, .openEscape, .placeholder bare, .closeEscape]
    let template := String.ofList (textOf segments)
    textOf segments = "\x7b0 \x7d\x7b\x7b\x7b0\x7d\x7d\x7d".toList ∧
      NamedByIndices segments ∧
      0 ∈ usedIndices template 1 ∧
      fieldName 0 ∈ placeholders (nameFields template 1) := by
  intro blankEnd bare segments template
  have named : NamesBareIndex segments 0 :=
    ⟨bare, by decide, by decide⟩
  have indexed : NamedByIndices segments := by
    intro content member
    simp only [segments, List.mem_cons, Segment.placeholder.injEq, reduceCtorEq,
      List.not_mem_nil, or_false, false_or] at member
    rcases member with rfl | rfl
    · exact ⟨0, [], [' '], nofun, List.forall_mem_singleton.mpr (by decide), by decide⟩
    · exact ⟨0, .refl _⟩
  obtain ⟨_, refersTo, handedOver, _⟩ := usedIndices_of_nameFields indexed 1
  have refers := (refersTo 0).mpr ⟨by decide, named⟩
  exact ⟨by decide, indexed, handedOver 0 refers, refers⟩

/-- A field that is named only with a blank behind its index is handed over for nothing. -/
theorem not_refersTo_usedIndices_blankEnd :
    ¬ ∀ segments count, NamedByIndices segments → ∀ index < count,
      Nat.repr index ∈ placeholders (String.ofList (textOf segments)) ↔
        fieldName index ∈ placeholders (nameFields (String.ofList (textOf segments)) count) := by
  intro agree
  let content : Placeholder :=
    ⟨['1', ' '], none,
      List.forall_mem_cons.mpr ⟨by decide, List.forall_mem_singleton.mpr (by decide)⟩, nofun⟩
  have around : BlankAround (Nat.repr 1).toList content.name :=
    ⟨[], [' '], nofun, List.forall_mem_singleton.mpr (by decide), by decide⟩
  have only {other : Placeholder} (member : .placeholder other ∈ [Segment.placeholder content]) :
      other = content :=
    Segment.placeholder.inj (List.mem_singleton.mp member)
  have indexed : NamedByIndices [.placeholder content] :=
    fun _ member => ⟨1, only member ▸ around⟩
  have named : NamesIndex [.placeholder content] 1 :=
    ⟨content, List.mem_singleton_self _, around⟩
  have refers := (agree _ 2 indexed 1 (by decide)).mp (repr_mem_placeholders_iff.mpr named)
  obtain ⟨_, other, member, isBare⟩ := (fieldName_mem_placeholders_iff indexed).mp refers
  rw [only member] at isBare
  exact absurd isBare (by decide)

end RegisterMachine.Template
