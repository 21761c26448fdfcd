import Mathlib.Data.List.TakeWhile
import RegisterMachine.Text.Blank

namespace RegisterMachine.Text

/-!
# Text without the blanks around it

Trimming leaves what no blank starts or ends and only blanks stand around.
Nothing else in a text is like that (`trimBlank_eq_iff`).
-/

/-- No blank starts or ends the characters. -/
structure IsTrimmed (characters : List Char) : Prop where
  start : ∀ character ∈ characters.head?, isBlank character = false
  finish : ∀ character ∈ characters.getLast?, isBlank character = false

/-- Characters are a core with only blanks around it. -/
def BlankAround (core characters : List Char) : Prop :=
  ∃ before after, (∀ character ∈ before, isBlank character = true) ∧
    (∀ character ∈ after, isBlank character = true) ∧
    characters = before ++ core ++ after

section Trimming

variable {core characters : List Char}

/-- The characters themselves are the core when no blank stands around them. -/
theorem BlankAround.refl (characters : List Char) : BlankAround characters characters :=
  ⟨[], [], nofun, nofun, (List.append_nil characters).symm⟩

/-- Characters without any blank are trimmed. -/
theorem isTrimmed_of_noBlank
    (noBlank : ∀ character ∈ characters, isBlank character = false) :
    IsTrimmed characters where
  start := fun character first => noBlank character (List.mem_of_mem_head? first)
  finish := fun character last => noBlank character (List.mem_of_getLast? last)

/-- Leading blanks are dropped up to the first character that is not one. -/
theorem dropWhile_isBlank_append
    {before rest : List Char}
    (blank : ∀ character ∈ before, isBlank character = true)
    (start : ∀ character ∈ rest.head?, isBlank character = false) :
    (before ++ rest).dropWhile isBlank = rest := by
  rw [List.dropWhile_append_of_pos blank]
  cases rest with
  | nil =>
      rfl
  | cons first later =>
      rw [List.dropWhile_cons, start first rfl]
      rfl

theorem trimBlank_append
    {before after : List Char}
    (blankBefore : ∀ character ∈ before, isBlank character = true)
    (blankAfter : ∀ character ∈ after, isBlank character = true)
    (trimmed : IsTrimmed core) :
    trimBlank (before ++ core ++ after) = core := by
  cases core with
  | nil =>
      have blank : ∀ character ∈ before ++ [] ++ after, isBlank character = true := by
        intro character member
        rw [List.append_nil] at member
        exact (List.mem_append.mp member).elim (blankBefore character) (blankAfter character)
      rw [trimBlank, List.dropWhile_eq_nil_iff.mpr blank]
      rfl
  | cons first later =>
      have front :
          (before ++ (first :: later ++ after)).dropWhile isBlank = first :: later ++ after :=
        dropWhile_isBlank_append blankBefore trimmed.start
      have back :
          (after.reverse ++ (first :: later).reverse).dropWhile isBlank =
            (first :: later).reverse := by
        apply dropWhile_isBlank_append
        · exact fun character member => blankAfter character (List.mem_reverse.mp member)
        · rw [List.head?_reverse]
          exact trimmed.finish
      rw [trimBlank, List.append_assoc, front, List.reverse_append, back, List.reverse_reverse]

private theorem head?_dropWhile_isBlank
    (characters : List Char) :
    ∀ character ∈ (characters.dropWhile isBlank).head?, isBlank character = false := by
  intro character first
  have notBlank := List.head?_dropWhile_not isBlank characters
  rw [Option.mem_def.mp first] at notBlank
  exact notBlank

theorem isTrimmed_trimBlank (characters : List Char) : IsTrimmed (trimBlank characters) := by
  refine ⟨?_, ?_⟩
  · intro character first
    -- the back is trimmed later, and keeps what the front starts with
    have kept : trimBlank characters <+: characters.dropWhile isBlank := by
      rw [trimBlank, ← List.reverse_suffix, List.reverse_reverse]
      exact List.dropWhile_suffix isBlank
    obtain ⟨rest, front⟩ := kept
    apply head?_dropWhile_isBlank characters character
    rw [← front, List.head?_append, Option.mem_def.mp first]
    rfl
  · rw [trimBlank, List.getLast?_reverse]
    exact head?_dropWhile_isBlank _

theorem blankAround_trimBlank (characters : List Char) :
    BlankAround (trimBlank characters) characters := by
  have blank (text : List Char) :
      ∀ character ∈ text.takeWhile isBlank, isBlank character = true :=
    fun _ => List.mem_takeWhile_imp
  let front := characters.dropWhile isBlank
  refine ⟨characters.takeWhile isBlank, (front.reverse.takeWhile isBlank).reverse,
    blank characters, fun character member => blank _ character (List.mem_reverse.mp member), ?_⟩
  have back : trimBlank characters ++ (front.reverse.takeWhile isBlank).reverse = front := by
    rw [trimBlank, ← List.reverse_append, List.takeWhile_append_dropWhile,
      List.reverse_reverse]
  rw [List.append_assoc, back, List.takeWhile_append_dropWhile]

/-- Trimming gives the part that no blank starts or ends and only blanks stand around. -/
theorem trimBlank_eq_iff :
    trimBlank characters = core ↔ IsTrimmed core ∧ BlankAround core characters := by
  constructor
  · rintro rfl
    exact ⟨isTrimmed_trimBlank characters, blankAround_trimBlank characters⟩
  · rintro ⟨trimmed, before, after, blankBefore, blankAfter, rfl⟩
    exact trimBlank_append blankBefore blankAfter trimmed

/-- Only one trimmed part of a text has nothing but blanks around it. -/
theorem BlankAround.unique
    {other : List Char}
    (around : BlankAround core characters)
    (aroundOther : BlankAround other characters)
    (trimmed : IsTrimmed core)
    (trimmedOther : IsTrimmed other) :
    core = other :=
  (trimBlank_eq_iff.mpr ⟨trimmed, around⟩).symm.trans
    (trimBlank_eq_iff.mpr ⟨trimmedOther, aroundOther⟩)

end Trimming

end RegisterMachine.Text
