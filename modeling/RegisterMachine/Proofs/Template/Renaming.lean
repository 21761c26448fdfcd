import Mathlib.Data.List.Infix
import RegisterMachine.Template.Positional
import RegisterMachine.Proofs.Text.Numeral

namespace RegisterMachine.Template

/-!
# Renaming all indices at once

The fields of a template are renamed index by index, and for each index once
before a closing brace and once before a colon.  All these replacements come to
one pass over the template, which puts the letter `f` behind each opening brace
that an index and one of the two characters follow (`nameFields_at_once`).

The pass is stated for any words.  It keeps apart what the words look at and
what it adds: words without an opening brace are found behind a brace as they
were before, and no word is found behind a brace that has the letter already.
So two passes are one pass for the words of both.
-/

/-- The letter `f` put behind every opening brace that one of some words follows. -/
def letterBefore (words : List (List Char)) : List Char → List Char
  | [] => []
  | character :: rest =>
      if character = openBrace ∧ ∃ word ∈ words, word <+: rest then
        character :: 'f' :: letterBefore words rest
      else
        character :: letterBefore words rest

/-- An index and a character that can end the name of a placeholder. -/
def indexEndings (indices : List Nat) : List (List Char) :=
  indices.flatMap fun index =>
    [closeBrace, ':'].map fun after => (Nat.repr index).toList ++ [after]

/-- A word that a pass neither changes nor hides: no brace opens in it, and no `f` starts it. -/
structure IsPlain (word : List Char) : Prop where
  noBrace : openBrace ∉ word
  start : ∃ first rest, word = first :: rest ∧ first ≠ 'f'

section Pass

variable {words : List (List Char)}

theorem letterBefore_cons_of_not
    {character : Char}
    {rest : List Char}
    (unmarked : ¬ (character = openBrace ∧ ∃ word ∈ words, word <+: rest)) :
    letterBefore words (character :: rest) = character :: letterBefore words rest :=
  if_neg unmarked

theorem letterBefore_openBrace
    {rest : List Char}
    (marked : ∃ word ∈ words, word <+: rest) :
    letterBefore words (openBrace :: rest) =
      openBrace :: 'f' :: letterBefore words rest :=
  if_pos ⟨rfl, marked⟩

theorem letterBefore_cons_of_ne
    {character : Char}
    (noBrace : character ≠ openBrace)
    (rest : List Char) :
    letterBefore words (character :: rest) = character :: letterBefore words rest :=
  letterBefore_cons_of_not fun marked => noBrace marked.1

/-- Text in which no brace opens is kept. -/
theorem letterBefore_append
    {before : List Char}
    (noBrace : openBrace ∉ before)
    (after : List Char) :
    letterBefore words (before ++ after) = before ++ letterBefore words after := by
  induction before with
  | nil =>
      rfl
  | cons character rest inductionHypothesis =>
      have notFirst := List.ne_of_not_mem_cons noBrace
      have notLater := List.not_mem_of_not_mem_cons noBrace
      rw [List.cons_append, letterBefore_cons_of_ne (Ne.symm notFirst),
        inductionHypothesis notLater]
      rfl

/-- Without words nothing is changed. -/
theorem letterBefore_nil (text : List Char) : letterBefore [] text = text := by
  induction text with
  | nil =>
      rfl
  | cons character rest inductionHypothesis =>
      rw [letterBefore_cons_of_not (by simp), inductionHypothesis]

/-- Only which words there are matters. -/
theorem letterBefore_congr
    {others : List (List Char)}
    (same : ∀ word, word ∈ words ↔ word ∈ others)
    (text : List Char) :
    letterBefore words text = letterBefore others text := by
  induction text with
  | nil =>
      rfl
  | cons character rest inductionHypothesis =>
      have marks :
          (∃ word ∈ words, word <+: rest) ↔ ∃ word ∈ others, word <+: rest :=
        exists_congr fun word => and_congr_left' (same word)
      simp only [letterBefore, inductionHypothesis, marks]

/-- A word without an opening brace starts a text after a pass as it did before. -/
theorem isPrefix_letterBefore_iff
    {word : List Char}
    (noBrace : openBrace ∉ word)
    (text : List Char) :
    word <+: letterBefore words text ↔ word <+: text := by
  induction word generalizing text with
  | nil =>
      exact iff_of_true List.nil_prefix List.nil_prefix
  | cons first later inductionHypothesis =>
      have notFirst := List.ne_of_not_mem_cons noBrace
      have notLater := List.not_mem_of_not_mem_cons noBrace
      cases text with
      | nil =>
          rfl
      | cons character rest =>
          by_cases opens : character = openBrace
          · -- the pass keeps the brace, and the word does not start with one
            subst opens
            have notStarted (text : List Char) :
                ¬ first :: later <+: openBrace :: text :=
              fun starts => notFirst (List.cons_prefix_cons.mp starts).1.symm
            by_cases marked : ∃ word ∈ words, word <+: rest
            · rw [letterBefore_openBrace marked]
              exact iff_of_false (notStarted _) (notStarted _)
            · rw [letterBefore_cons_of_not fun both => marked both.2]
              exact iff_of_false (notStarted _) (notStarted _)
          · rw [letterBefore_cons_of_ne opens, List.cons_prefix_cons,
              List.cons_prefix_cons, inductionHypothesis notLater]

/-- Two passes are one pass for the words of both. -/
theorem letterBefore_letterBefore
    {others : List (List Char)}
    (plain : ∀ word ∈ others, IsPlain word)
    (text : List Char) :
    letterBefore others (letterBefore words text) =
      letterBefore (words ++ others) text := by
  induction text with
  | nil =>
      rfl
  | cons character rest inductionHypothesis =>
      by_cases opens : character = openBrace
      · subst opens
        have both :
            (∃ word ∈ words ++ others, word <+: rest) ↔
              (∃ word ∈ words, word <+: rest) ∨ ∃ word ∈ others, word <+: rest := by
          simp only [List.mem_append, or_and_right, exists_or]
        by_cases marked : ∃ word ∈ words, word <+: rest
        · -- no other word is found in front of the letter
          have unmarked :
              ¬ ∃ word ∈ others, word <+: 'f' :: letterBefore words rest := by
            rintro ⟨word, member, starts⟩
            obtain ⟨first, later, rfl, notLetter⟩ := (plain word member).start
            exact notLetter (List.cons_prefix_cons.mp starts).1
          rw [letterBefore_openBrace marked, letterBefore_openBrace (both.mpr (.inl marked)),
            letterBefore_cons_of_not fun again => unmarked again.2,
            letterBefore_cons_of_ne (by decide), inductionHypothesis]
        · have sameMarks :
              (∃ word ∈ others, word <+: letterBefore words rest) ↔
                ∃ word ∈ others, word <+: rest :=
            exists_congr fun word => and_congr_right fun member =>
              isPrefix_letterBefore_iff (plain word member).noBrace rest
          rw [letterBefore_cons_of_not fun again => marked again.2]
          by_cases otherwise : ∃ word ∈ others, word <+: rest
          · rw [letterBefore_openBrace (sameMarks.mpr otherwise),
              letterBefore_openBrace (both.mpr (.inr otherwise)), inductionHypothesis]
          · rw [letterBefore_cons_of_not fun again => otherwise (sameMarks.mp again.2),
              letterBefore_cons_of_not fun again =>
                (both.mp again.2).elim marked otherwise,
              inductionHypothesis]
      · rw [letterBefore_cons_of_ne opens, letterBefore_cons_of_ne opens,
          letterBefore_cons_of_ne opens, inductionHypothesis]

end Pass

section Replacement

/-- Replacing what a brace and a word start is a pass for that word. -/
theorem replaceAll_eq_letterBefore
    {word : List Char}
    (noBrace : openBrace ∉ word)
    (text : List Char) :
    replaceAll (openBrace :: word) (openBrace :: 'f' :: word) text =
      letterBefore [word] text := by
  fun_induction replaceAll (openBrace :: word) (openBrace :: 'f' :: word) text with
  | case1 =>
      rfl
  | case2 character rest found inductionHypothesis =>
      obtain ⟨isBrace, after, rfl⟩ :=
        List.cons_prefix_cons.mp (List.isPrefixOf_iff_prefix.mp found)
      have marked : ∃ marking ∈ [word], marking <+: word ++ after :=
        ⟨word, List.mem_singleton_self word, List.prefix_append word after⟩
      rw [List.length_cons, Nat.add_sub_cancel, List.drop_left] at inductionHypothesis ⊢
      rw [← isBrace, letterBefore_openBrace marked, letterBefore_append noBrace,
        inductionHypothesis]
      rfl
  | case3 character rest notFound inductionHypothesis =>
      have unmarked : ¬ (character = openBrace ∧ ∃ marking ∈ [word], marking <+: rest) := by
        rintro ⟨rfl, marking, isWord, starts⟩
        rw [List.mem_singleton.mp isWord] at starts
        exact notFound (List.isPrefixOf_iff_prefix.mpr
          (List.cons_prefix_cons.mpr ⟨rfl, starts⟩))
      rw [letterBefore_cons_of_not unmarked, inductionHypothesis]

theorem mem_indexEndings_iff
    {indices : List Nat}
    {word : List Char} :
    word ∈ indexEndings indices ↔
      ∃ index ∈ indices, ∃ after ∈ [closeBrace, ':'],
        word = (Nat.repr index).toList ++ [after] := by
  simp only [indexEndings, List.mem_flatMap, List.mem_map, eq_comm]

theorem indexEndings_cons
    (index : Nat)
    (indices : List Nat) :
    indexEndings (index :: indices) = indexEndings [index] ++ indexEndings indices := by
  rw [indexEndings, List.flatMap_cons, indexEndings, List.flatMap_singleton, indexEndings]

theorem exists_digit_of_mem_repr
    {index : Nat}
    {character : Char}
    (member : character ∈ (Nat.repr index).toList) :
    ∃ digit < 10, character = Nat.digitChar digit := by
  rw [Nat.toList_repr] at member
  exact Text.Numeral.exists_digitChar_of_mem_toDigits (by decide) member

private theorem digitChar_unmarked :
    ∀ digit < 10, Nat.digitChar digit ≠ openBrace ∧ Nat.digitChar digit ≠ 'f' := by
  decide

/-- The characters of an index neither open a placeholder nor are the letter put before it. -/
theorem unmarked_of_mem_repr
    {index : Nat}
    {character : Char}
    (member : character ∈ (Nat.repr index).toList) :
    character ≠ openBrace ∧ character ≠ 'f' := by
  obtain ⟨digit, isDigit, rfl⟩ := exists_digit_of_mem_repr member
  exact digitChar_unmarked digit isDigit

theorem isPlain_of_mem_indexEndings
    {indices : List Nat}
    {word : List Char}
    (member : word ∈ indexEndings indices) :
    IsPlain word := by
  obtain ⟨index, _, after, isAfter, rfl⟩ := mem_indexEndings_iff.mp member
  refine ⟨?_, ?_⟩
  · intro opens
    rcases List.mem_append.mp opens with inDigits | isLast
    · exact (unmarked_of_mem_repr inDigits).1 rfl
    · rw [← List.mem_singleton.mp isLast] at isAfter
      exact absurd isAfter (by decide)
  · have notEmpty : (Nat.repr index).toList ≠ [] := by
      rw [Nat.toList_repr]
      exact Nat.toDigits_ne_nil
    obtain ⟨first, later, digits⟩ := List.exists_cons_of_ne_nil notEmpty
    refine ⟨first, later ++ [after], ?_, ?_⟩
    · rw [digits]
      rfl
    · exact (unmarked_of_mem_repr (digits ▸ List.mem_cons_self)).2

theorem noBrace_of_after
    (index : Nat)
    {after : Char}
    (isAfter : after ∈ [closeBrace, ':']) :
    openBrace ∉ (Nat.repr index).toList ++ [after] :=
  (isPlain_of_mem_indexEndings
    (mem_indexEndings_iff.mpr
      ⟨index, List.mem_singleton_self index, after, isAfter, rfl⟩)).noBrace

/-- Renaming the placeholders of one index is a pass for its two words. -/
theorem nameField_eq_letterBefore
    (text : List Char)
    (index : Nat) :
    nameField text index = letterBefore (indexEndings [index]) text := by
  have renamed
      {after : Char}
      (isAfter : after ∈ [closeBrace, ':'])
      (text : List Char) :
      replaceAll (opening (Nat.repr index) after) (opening (fieldName index) after) text =
        letterBefore [(Nat.repr index).toList ++ [after]] text := by
    have replacement :
        opening (fieldName index) after =
          openBrace :: 'f' :: ((Nat.repr index).toList ++ [after]) := by
      rw [opening, fieldName, String.toList_append]
      rfl
    rw [replacement]
    exact replaceAll_eq_letterBefore (noBrace_of_after index isAfter) text
  simp only [nameField]
  rw [renamed (by decide), renamed (by decide), letterBefore_letterBefore]
  · rfl
  · intro word member
    exact isPlain_of_mem_indexEndings
      (mem_indexEndings_iff.mpr
        ⟨index, List.mem_singleton_self index, ':', by decide, List.mem_singleton.mp member⟩)

/-- Renaming the placeholders of indices in any order is a pass for their words. -/
theorem foldl_nameField_eq_letterBefore
    (indices : List Nat)
    (text : List Char) :
    indices.foldl nameField text = letterBefore (indexEndings indices) text := by
  induction indices generalizing text with
  | nil =>
      exact (letterBefore_nil text).symm
  | cons index rest inductionHypothesis =>
      rw [List.foldl_cons, inductionHypothesis, nameField_eq_letterBefore,
        letterBefore_letterBefore fun _ => isPlain_of_mem_indexEndings,
        ← indexEndings_cons]

theorem mem_indexEndings_congr
    {indices others : List Nat}
    (same : ∀ index, index ∈ indices ↔ index ∈ others)
    (word : List Char) :
    word ∈ indexEndings indices ↔ word ∈ indexEndings others := by
  simp only [mem_indexEndings_iff, same]

/-- Renaming the placeholders of a template is a pass for the words of its indices. -/
theorem toList_nameFields
    (template : String)
    (count : Nat) :
    (nameFields template count).toList =
      letterBefore (indexEndings (List.range count)) template.toList := by
  rw [nameFields, String.toList_ofList, foldl_nameField_eq_letterBefore]
  exact letterBefore_congr (mem_indexEndings_congr fun _ => List.mem_reverse) _

end Replacement

/--
Renaming the indices one after the other puts the letter `f` behind exactly the
opening braces that an index below the count and a closing brace or a colon
follow.  In whatever order the indices are taken the outcome is the same, and
renaming again changes nothing.
-/
theorem nameFields_at_once
    (template : String)
    (count : Nat) :
    (nameFields template count).toList =
        letterBefore (indexEndings (List.range count)) template.toList ∧
      (∀ indices : List Nat, (∀ index, index ∈ indices ↔ index < count) →
        indices.foldl nameField template.toList = (nameFields template count).toList) ∧
      nameFields (nameFields template count) count = nameFields template count := by
  refine ⟨toList_nameFields template count, ?_, ?_⟩
  · intro indices sameIndices
    have sameWords :
        ∀ word, word ∈ indexEndings indices ↔ word ∈ indexEndings (List.range count) :=
      mem_indexEndings_congr fun index => (sameIndices index).trans List.mem_range.symm
    rw [toList_nameFields, foldl_nameField_eq_letterBefore]
    exact letterBefore_congr sameWords _
  · have twice (word : List Char) :
        word ∈ indexEndings (List.range count) ++ indexEndings (List.range count) ↔
          word ∈ indexEndings (List.range count) := by
      rw [List.mem_append, or_self]
    apply String.toList_inj.mp
    rw [toList_nameFields, toList_nameFields,
      letterBefore_letterBefore fun _ => isPlain_of_mem_indexEndings]
    exact letterBefore_congr twice _

/-- Indices taken upwards, of which one starts with the digits of another. -/
theorem nameFields_at_once_upwards :
    let template := "\x7b1\x7d \x7b10:x\x7d \x7b11\x7d"
    (∀ index, index ∈ List.range 11 ↔ index < 11) ∧
      (List.range 11).foldl nameField template.toList =
        "\x7bf1\x7d \x7bf10:x\x7d \x7b11\x7d".toList := by
  intro template
  have below : ∀ index, index ∈ List.range 11 ↔ index < 11 :=
    fun _ => List.mem_range
  obtain ⟨atOnce, anyOrder, _⟩ := nameFields_at_once template 11
  have renamed :
      letterBefore (indexEndings (List.range 11)) template.toList =
        "\x7bf1\x7d \x7bf10:x\x7d \x7b11\x7d".toList := by
    decide
  exact ⟨below, (anyOrder _ below).trans (atOnce.trans renamed)⟩

end RegisterMachine.Template
