import Mathlib.Data.List.Forall2
import Mathlib.Data.Nat.Digits.Defs
import RegisterMachine.Proofs.Text.Numeral

namespace RegisterMachine.Text.Numeral

/-!
# What digits denote

Characters are read as a number exactly when they are one or more digits of the
base, letters in either case, and then as the number that has these digits in
positional notation.
-/

/-- A character is the digit of a base that has a value, in either letter case. -/
def IsDigit (base : Nat) (character : Char) (digit : Nat) : Prop :=
  digit < base ∧
    (character = Nat.digitChar digit ∨
      character = (Nat.digitChar digit).toUpper)

/-- One or more digits of a base denote a number, the most significant one first. -/
def Denotes (base : Nat) (characters : List Char) (number : Nat) : Prop :=
  ∃ digits, digits ≠ [] ∧ List.Forall₂ (IsDigit base) characters digits ∧
    number = Nat.ofDigits base digits.reverse

section Digit

private theorem toNat_lt_of_digitValue
    {character : Char}
    {digit : Nat}
    (value : digitValue character = some digit) :
    character.toNat < 123 := by
  rw [digitValue] at value
  split at value
  · next decimal =>
      have high : character.toNat ≤ 57 := decimal.2
      omega
  · split at value
    · next lower =>
        have high : character.toNat ≤ 122 := lower.2
        omega
    · split at value
      · next upper =>
          have high : character.toNat ≤ 90 := upper.2
          omega
      · cases value

private theorem digitValue_ofNat :
    ∀ codePoint < 123, ∀ digit < 16,
      digitValue (Char.ofNat codePoint) = some digit ↔
        Char.ofNat codePoint = Nat.digitChar digit ∨
          Char.ofNat codePoint = (Nat.digitChar digit).toUpper := by
  decide +kernel

private theorem toNat_digitChar_lt :
    ∀ digit < 16, (Nat.digitChar digit).toNat < 123 ∧
      (Nat.digitChar digit).toUpper.toNat < 123 := by
  decide

theorem digitValue_eq_some_iff
    {character : Char}
    {digit : Nat}
    (low : digit < 16) :
    digitValue character = some digit ↔
      character = Nat.digitChar digit ∨
        character = (Nat.digitChar digit).toUpper := by
  by_cases small : character.toNat < 123
  · have found := digitValue_ofNat character.toNat small digit low
    rwa [Char.ofNat_toNat] at found
  · obtain ⟨lower, upper⟩ := toNat_digitChar_lt digit low
    constructor
    · intro value
      exact (small (toNat_lt_of_digitValue value)).elim
    · rintro (rfl | rfl)
      · exact (small lower).elim
      · exact (small upper).elim

variable {base : Nat} (low : base ≤ 16)
include low

/-- A character is read as the digit of a base that it is. -/
theorem digitOf?_eq_some_iff
    {character : Char}
    {digit : Nat} :
    digitOf? base character = some digit ↔ IsDigit base character digit := by
  rw [digitOf?, Option.filter_eq_some_iff, decide_eq_true_eq, and_comm, IsDigit]
  exact and_congr_right fun below =>
    digitValue_eq_some_iff (Nat.lt_of_lt_of_le below low)

end Digit

section Digits

variable {base : Nat} (low : base ≤ 16)
include low

/-- Reading goes on behind a number with digits that are worth less than it. -/
theorem readFrom?_eq_some_iff
    {value number : Nat}
    {characters : List Char} :
    readFrom? base value characters = some number ↔
      ∃ digits, List.Forall₂ (IsDigit base) characters digits ∧
        number = value * base ^ digits.length +
          Nat.ofDigits base digits.reverse := by
  induction characters generalizing value with
  | nil =>
      simp [readFrom?, List.forall₂_nil_left_iff, eq_comm]
  | cons character rest inductionHypothesis =>
      rw [readFrom?]
      constructor
      · intro read
        split at read
        · cases read
        · next digit isDigit =>
            obtain ⟨digits, areDigits, rfl⟩ := inductionHypothesis.mp read
            refine ⟨digit :: digits,
              .cons ((digitOf?_eq_some_iff low).mp isDigit) areDigits, ?_⟩
            rw [Nat.ofDigits_reverse_cons, List.length_cons, Nat.pow_succ]
            ring
      · rintro ⟨_, areDigits, rfl⟩
        cases areDigits with
        | cons isDigit areDigits =>
            rw [(digitOf?_eq_some_iff low).mpr isDigit]
            refine inductionHypothesis.mpr ⟨_, areDigits, ?_⟩
            rw [Nat.ofDigits_reverse_cons, List.length_cons, Nat.pow_succ]
            ring

/-- Characters are read as the number that they denote. -/
theorem read?_eq_some_iff
    {number : Nat}
    {characters : List Char} :
    read? base characters = some number ↔ Denotes base characters number := by
  cases characters with
  | nil =>
      constructor
      · nofun
      · rintro ⟨digits, notEmpty, areDigits, _⟩
        cases areDigits
        exact (notEmpty rfl).elim
  | cons character rest =>
      rw [read?, List.isEmpty_cons]
      simp only [Bool.false_eq_true, ↓reduceIte, readFrom?_eq_some_iff low,
        Nat.zero_mul, Nat.zero_add, Denotes]
      refine exists_congr fun digits => ?_
      constructor
      · rintro ⟨areDigits, value⟩
        refine ⟨?_, areDigits, value⟩
        rintro rfl
        cases areDigits
      · exact And.right

theorem readBelow?_eq_some_iff
    {bound number : Nat}
    {characters : List Char} :
    readBelow? bound base characters = some number ↔
      Denotes base characters number ∧ number < bound := by
  rw [readBelow?, Option.filter_eq_some_iff, read?_eq_some_iff low,
    decide_eq_true_eq]

omit low in
theorem exists_digit_of_mem
    {characters : List Char}
    {digits : List Nat}
    (areDigits : List.Forall₂ (IsDigit base) characters digits)
    {character : Char}
    (member : character ∈ characters) :
    ∃ digit, IsDigit base character digit := by
  induction areDigits with
  | nil =>
      cases member
  | cons isDigit _ inductionHypothesis =>
      rcases List.mem_cons.mp member with rfl | later
      · exact ⟨_, isDigit⟩
      · exact inductionHypothesis later

/-- A character that is no digit of a base stands in no number written to it. -/
theorem not_denotes_of_mem
    {number : Nat}
    {characters : List Char}
    {character : Char}
    (noDigit : digitOf? base character = none)
    (member : character ∈ characters) :
    ¬ Denotes base characters number := by
  rintro ⟨digits, _, areDigits, _⟩
  obtain ⟨digit, isDigit⟩ := exists_digit_of_mem areDigits member
  cases noDigit.symm.trans ((digitOf?_eq_some_iff low).mpr isDigit)

/-- A number is denoted by its digits behind any number of zeros. -/
theorem denotes_padded
    (positional : 1 < base)
    (width number : Nat) :
    Denotes base (padded base width number).toList number :=
  (read?_eq_some_iff low).mp (read?_padded positional low)

end Digits

end RegisterMachine.Text.Numeral
