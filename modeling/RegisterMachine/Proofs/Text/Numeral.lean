import RegisterMachine.Text.Numeral

namespace RegisterMachine.Text.Numeral

/-!
# Reading written numbers

Digits of any base up to sixteen are read back as the number they were written
for, whatever its size and however many zeros stand before them.  So different
numbers are written differently.
-/

private theorem digitValue_digitChar :
    ∀ digit < 16, digitValue (Nat.digitChar digit) = some digit := by
  decide

/-- A digit of a base is read from its character. -/
theorem digitOf?_digitChar
    {base digit : Nat}
    (low : base ≤ 16)
    (below : digit < base) :
    digitOf? base (Nat.digitChar digit) = some digit := by
  have value := digitValue_digitChar digit (Nat.lt_of_lt_of_le below low)
  rw [digitOf?, value, Option.filter_some, if_pos (decide_eq_true below)]

private theorem readFrom?_digitChar
    {base value digit : Nat}
    (low : base ≤ 16)
    (below : digit < base) :
    readFrom? base value [Nat.digitChar digit] =
      some (value * base + digit) := by
  simp only [readFrom?, digitOf?_digitChar low below]

theorem readFrom?_append
    {base value : Nat}
    (first second : List Char) :
    readFrom? base value (first ++ second) =
      (readFrom? base value first).bind (readFrom? base · second) := by
  induction first generalizing value with
  | nil =>
      rfl
  | cons character rest inductionHypothesis =>
      simp only [List.cons_append, readFrom?]
      split
      · rfl
      · exact inductionHypothesis

private theorem readFrom?_toDigits
    {base : Nat}
    (positional : 1 < base)
    (low : base ≤ 16)
    (number : Nat) :
    readFrom? base 0 (Nat.toDigits base number) = some number := by
  induction number using Nat.strongRecOn with
  | ind number inductionHypothesis =>
      by_cases single : number < base
      · rw [Nat.toDigits_of_lt_base single, readFrom?_digitChar low single,
          Nat.zero_mul, Nat.zero_add]
      · have atLeast : base ≤ number := Nat.le_of_not_lt single
        have positive : 0 < number := by omega
        have remainder : number % base < base :=
          Nat.mod_lt _ (Nat.lt_of_succ_lt positional)
        have higher := inductionHypothesis (number / base)
          (Nat.div_lt_self positive positional)
        rw [Nat.toDigits_of_base_le positional atLeast, readFrom?_append,
          higher, Option.bind_some, readFrom?_digitChar low remainder,
          Nat.div_add_mod']

/-- A number is read back from its digits. -/
theorem read?_toDigits
    {base : Nat}
    (positional : 1 < base)
    (low : base ≤ 16)
    (number : Nat) :
    read? base (Nat.toDigits base number) = some number := by
  have notEmpty : (Nat.toDigits base number).isEmpty = false :=
    List.isEmpty_eq_false_iff.mpr Nat.toDigits_ne_nil
  rw [read?, notEmpty, readFrom?_toDigits positional low]
  rfl

/-- A number below a bound is read back from its digits under that bound. -/
theorem readBelow?_toDigits
    {base bound number : Nat}
    (positional : 1 < base)
    (low : base ≤ 16)
    (below : number < bound) :
    readBelow? bound base (Nat.toDigits base number) = some number := by
  rw [readBelow?, read?_toDigits positional low, Option.filter_some,
    if_pos (decide_eq_true below)]

section Padding

variable {base width number : Nat}

theorem toList_padded :
    (padded base width number).toList =
      List.replicate (width - (Nat.toDigits base number).length) '0' ++
        Nat.toDigits base number := by
  rw [padded, String.toList_ofList, List.leftpad]

theorem toList_padded_ne_nil : (padded base width number).toList ≠ [] := by
  rw [toList_padded]
  exact List.append_ne_nil_of_right_ne_nil _ Nat.toDigits_ne_nil

theorem exists_digitChar_of_mem_toDigits
    (positional : 1 < base)
    {character : Char}
    (member : character ∈ Nat.toDigits base number) :
    ∃ digit < base, character = Nat.digitChar digit := by
  induction number using Nat.strongRecOn with
  | ind number inductionHypothesis =>
      by_cases single : number < base
      · rw [Nat.toDigits_of_lt_base single, List.mem_singleton] at member
        exact ⟨number, single, member⟩
      · have atLeast : base ≤ number := Nat.le_of_not_lt single
        have positive : 0 < number := by omega
        rw [Nat.toDigits_of_base_le positional atLeast, List.mem_append,
          List.mem_singleton] at member
        rcases member with higher | lowest
        · exact inductionHypothesis _ (Nat.div_lt_self positive positional) higher
        · exact ⟨number % base, Nat.mod_lt _ (Nat.lt_of_succ_lt positional), lowest⟩

/-- Every character of a written number is a digit of the base. -/
theorem exists_digitChar_of_mem_padded
    (positional : 1 < base)
    {character : Char}
    (member : character ∈ (padded base width number).toList) :
    ∃ digit < base, character = Nat.digitChar digit := by
  rw [toList_padded, List.mem_append] at member
  rcases member with padding | inDigits
  · exact ⟨0, Nat.lt_of_succ_lt positional, List.eq_of_mem_replicate padding⟩
  · exact exists_digitChar_of_mem_toDigits positional inDigits

/-- Zeros in front of digits do not change the number that is read. -/
theorem readFrom?_replicate_zero
    (positional : 1 < base)
    (low : base ≤ 16)
    (count : Nat)
    (digits : List Char) :
    readFrom? base 0 (List.replicate count '0' ++ digits) =
      readFrom? base 0 digits := by
  have zero : digitOf? base '0' = some 0 :=
    digitOf?_digitChar low (Nat.lt_of_succ_lt positional)
  induction count with
  | zero =>
      rfl
  | succ count inductionHypothesis =>
      simp only [List.replicate_succ, List.cons_append, readFrom?, zero,
        Nat.zero_mul, Nat.zero_add]
      exact inductionHypothesis

/-- A number is read back from its digits behind any number of zeros. -/
theorem read?_padded
    (positional : 1 < base)
    (low : base ≤ 16) :
    read? base (padded base width number).toList = some number := by
  rw [read?, List.isEmpty_eq_false_iff.mpr toList_padded_ne_nil, toList_padded,
    readFrom?_replicate_zero positional low, readFrom?_toDigits positional low]
  rfl

/-- Different numbers are written differently. -/
theorem padded_inj
    (positional : 1 < base)
    (low : base ≤ 16)
    {other : Nat} :
    padded base width number = padded base width other ↔ number = other := by
  refine ⟨fun same => ?_, congrArg _⟩
  have readsOther : read? base (padded base width other).toList = some number := by
    rw [← same, read?_padded positional low]
  exact Option.some.inj (readsOther.symm.trans (read?_padded positional low))

end Padding

end RegisterMachine.Text.Numeral
