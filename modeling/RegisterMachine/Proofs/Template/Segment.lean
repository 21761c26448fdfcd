import Mathlib.Data.List.Basic
import RegisterMachine.Template.Placeholder

namespace RegisterMachine.Template

/-!
# Templates by their segments

A well-formed template is a sequence of literal characters, doubled braces and
placeholders.  No two segments can be taken for each other, whatever follows
them, so that a text is read as segments in at most one way
(`textOf_injective`).
-/

/-- Whether a character is one of the braces. -/
def IsBrace (character : Char) : Prop :=
  character = openBrace ∨ character = closeBrace

instance (character : Char) : Decidable (IsBrace character) :=
  inferInstanceAs (Decidable (_ ∨ _))

/-- Whether a character ends the name of a placeholder. -/
def EndsName (character : Char) : Prop :=
  IsBrace character ∨ character = ':'

instance (character : Char) : Decidable (EndsName character) :=
  inferInstanceAs (Decidable (_ ∨ _))

/-- What stands in braces: a name, and perhaps a format for its value. -/
structure Placeholder where
  name : List Char
  format : Option (List Char)
  nameClean : ∀ character ∈ name, ¬ EndsName character
  formatClean : ∀ characters ∈ format, ∀ character ∈ characters, ¬ IsBrace character
  deriving DecidableEq

namespace Placeholder

/-- The characters behind the name. -/
def ending (placeholder : Placeholder) : List Char :=
  match placeholder.format with
  | none => [closeBrace]
  | some format => ':' :: (format ++ [closeBrace])

/-- The characters of a placeholder. -/
def text (placeholder : Placeholder) : List Char :=
  openBrace :: (placeholder.name ++ placeholder.ending)

end Placeholder

/-- A part of a well-formed template. -/
inductive Segment where
  /-- A character that stands for itself. -/
  | literal (character : Char) (noBrace : ¬ IsBrace character)
  /-- Two opening braces, which stand for one. -/
  | openEscape
  /-- Two closing braces, which stand for one. -/
  | closeEscape
  | placeholder (content : Placeholder)
  deriving DecidableEq

/-- The characters of a segment. -/
def Segment.text : Segment → List Char
  | .literal character _ => [character]
  | .openEscape => [openBrace, openBrace]
  | .closeEscape => [closeBrace, closeBrace]
  | .placeholder content => content.text

/-- The characters of segments. -/
def textOf (segments : List Segment) : List Char :=
  segments.flatMap Segment.text

section Reading

/-- Where the first element of a kind stands tells what is before it and behind it. -/
theorem append_cons_inj
    {α : Type}
    {stops : α → Prop}
    {before others : List α}
    {stop other : α}
    {after rest : List α}
    (stopped : stops stop)
    (otherStopped : stops other)
    (free : ∀ element ∈ before, ¬ stops element)
    (othersFree : ∀ element ∈ others, ¬ stops element)
    (same : before ++ stop :: after = others ++ other :: rest) :
    before = others ∧ stop = other ∧ after = rest := by
  induction before generalizing others with
  | nil =>
      cases others with
      | nil =>
          obtain ⟨sameStop, sameRest⟩ := List.cons.inj same
          exact ⟨rfl, sameStop, sameRest⟩
      | cons first later =>
          obtain ⟨isFirst, _⟩ := List.cons.inj same
          exact (othersFree first List.mem_cons_self (isFirst ▸ stopped)).elim
  | cons first later inductionHypothesis =>
      cases others with
      | nil =>
          obtain ⟨isFirst, _⟩ := List.cons.inj same
          exact (free first List.mem_cons_self (isFirst ▸ otherStopped)).elim
      | cons otherFirst otherLater =>
          obtain ⟨sameFirst, sameLater⟩ := List.cons.inj same
          obtain ⟨sameBefore, sameStop, sameRest⟩ :=
            inductionHypothesis
              (fun element member => free element (List.mem_cons_of_mem _ member))
              (fun element member => othersFree element (List.mem_cons_of_mem _ member))
              sameLater
          exact ⟨by rw [sameFirst, sameBefore], sameStop, sameRest⟩

namespace Placeholder

/-- The character behind the name ends it. -/
theorem exists_stop (placeholder : Placeholder) :
    ∃ stop ∈ [closeBrace, ':'], ∃ rest, placeholder.ending = stop :: rest := by
  unfold ending
  split
  · exact ⟨closeBrace, by decide, [], rfl⟩
  · next format _ =>
      exact ⟨':', by decide, format ++ [closeBrace], rfl⟩

theorem noBrace_ending (placeholder : Placeholder) :
    openBrace ∉ placeholder.ending := by
  have formatClean := placeholder.formatClean
  unfold ending
  split
  · decide
  · next format isFormat =>
      intro opens
      rcases List.mem_cons.mp opens with isColon | behind
      · exact absurd isColon (by decide)
      · rcases List.mem_append.mp behind with inFormat | isLast
        · exact formatClean format isFormat openBrace inFormat (.inl rfl)
        · exact absurd isLast (by decide)

/-- A placeholder is found again from its characters, whatever follows them. -/
theorem eq_of_text_append
    {placeholder other : Placeholder}
    {after rest : List Char}
    (same : placeholder.text ++ after = other.text ++ rest) :
    placeholder = other ∧ after = rest := by
  obtain ⟨name, format, nameClean, formatClean⟩ := placeholder
  obtain ⟨otherName, otherFormat, otherNameClean, otherFormatClean⟩ := other
  have closes : IsBrace closeBrace := .inr rfl
  simp only [text, List.cons_append, List.cons.injEq, true_and, List.append_assoc] at same
  cases format with
  | none =>
      cases otherFormat with
      | none =>
          obtain ⟨rfl, _, rfl⟩ :=
            append_cons_inj (.inl closes) (.inl closes) nameClean otherNameClean same
          exact ⟨rfl, rfl⟩
      | some otherFormat =>
          obtain ⟨_, impossible, _⟩ :=
            append_cons_inj (.inl closes) (.inr rfl) nameClean otherNameClean same
          exact absurd impossible (by decide)
  | some format =>
      cases otherFormat with
      | none =>
          obtain ⟨_, impossible, _⟩ :=
            append_cons_inj (.inr rfl) (.inl closes) nameClean otherNameClean same
          exact absurd impossible (by decide)
      | some otherFormat =>
          obtain ⟨rfl, _, sameFormat⟩ :=
            append_cons_inj (.inr rfl) (.inr rfl) nameClean otherNameClean same
          simp only [List.append_eq, List.append_assoc] at sameFormat
          obtain ⟨rfl, _, rfl⟩ :=
            append_cons_inj closes closes (formatClean format rfl)
              (otherFormatClean otherFormat rfl) sameFormat
          exact ⟨rfl, rfl⟩

/-- Behind the brace that opens a placeholder no other brace opens. -/
theorem text_append_ne
    {placeholder : Placeholder}
    {after rest : List Char} :
    placeholder.text ++ after ≠ openBrace :: openBrace :: rest := by
  intro same
  have clean := placeholder.nameClean
  obtain ⟨stop, isStop, later, ending⟩ := placeholder.exists_stop
  have behind := (List.cons.inj same).2
  rw [ending] at behind
  cases isName : placeholder.name with
  | nil =>
      rw [isName] at behind
      rw [(List.cons.inj behind).1] at isStop
      exact absurd isStop (by decide)
  | cons first _ =>
      rw [isName] at behind clean
      exact clean first List.mem_cons_self (.inl (.inl (List.cons.inj behind).1))

end Placeholder

/-- A segment is found again from its characters, whatever follows them. -/
theorem Segment.eq_of_text_append
    {segment other : Segment}
    {after rest : List Char}
    (same : segment.text ++ after = other.text ++ rest) :
    segment = other ∧ after = rest := by
  cases segment with
  | literal character noBrace =>
      cases other with
      | literal otherCharacter _ =>
          obtain ⟨rfl, rfl⟩ := List.cons.inj same
          exact ⟨rfl, rfl⟩
      | openEscape => exact (noBrace (.inl (List.cons.inj same).1)).elim
      | closeEscape => exact (noBrace (.inr (List.cons.inj same).1)).elim
      | placeholder content => exact (noBrace (.inl (List.cons.inj same).1)).elim
  | openEscape =>
      cases other with
      | literal otherCharacter noBrace =>
          exact (noBrace (.inl (List.cons.inj same).1.symm)).elim
      | openEscape =>
          exact ⟨rfl, List.append_cancel_left same⟩
      | closeEscape => exact absurd (List.cons.inj same).1 (by decide)
      | placeholder content =>
          exact (Placeholder.text_append_ne same.symm).elim
  | closeEscape =>
      cases other with
      | literal otherCharacter noBrace =>
          exact (noBrace (.inr (List.cons.inj same).1.symm)).elim
      | openEscape => exact absurd (List.cons.inj same).1 (by decide)
      | closeEscape =>
          exact ⟨rfl, List.append_cancel_left same⟩
      | placeholder content => exact absurd (List.cons.inj same).1 (by decide)
  | placeholder content =>
      cases other with
      | literal otherCharacter noBrace =>
          exact (noBrace (.inl (List.cons.inj same).1.symm)).elim
      | openEscape => exact (Placeholder.text_append_ne same).elim
      | closeEscape => exact absurd (List.cons.inj same).1 (by decide)
      | placeholder otherContent =>
          obtain ⟨rfl, rfl⟩ := Placeholder.eq_of_text_append same
          exact ⟨rfl, rfl⟩

theorem Segment.text_ne_nil (segment : Segment) : segment.text ≠ [] := by
  cases segment <;> exact List.cons_ne_nil _ _

/-- Segments are found again from their characters. -/
theorem textOf_injective : Function.Injective textOf := by
  intro segments others same
  induction segments generalizing others with
  | nil =>
      cases others with
      | nil =>
          rfl
      | cons other rest =>
          exact (List.append_ne_nil_of_left_ne_nil other.text_ne_nil _ same.symm).elim
  | cons segment rest inductionHypothesis =>
      cases others with
      | nil =>
          exact (List.append_ne_nil_of_left_ne_nil segment.text_ne_nil _ same).elim
      | cons other later =>
          obtain ⟨rfl, sameRest⟩ := Segment.eq_of_text_append same
          rw [inductionHypothesis sameRest]

end Reading

end RegisterMachine.Template
