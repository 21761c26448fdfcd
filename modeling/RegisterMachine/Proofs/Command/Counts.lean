import RegisterMachine.Command.Runner
import RegisterMachine.Proofs.Assembly.Literals

namespace RegisterMachine.Command.Runner

/-!
# The grammar of counts

The value of an option that takes a count is written in decimal or in hexadecimal.
A plus sign in front of the digits is passed over, which no number of the assembly
language may have.  So a text that has no sign there and is not in binary is read as
a count exactly when it is read as a number, and as the same one (`count?_grammar`).
-/

open RegisterMachine.Text RegisterMachine.Assembly

/-- How a count is written, with a sign in front of its digits. -/
inductive IsCount (sign : List Char) : List Char → Nat → Prop where
  | decimal {digits : List Char} {value : Nat} :
      Numeral.Denotes 10 digits value →
      value < 2 ^ 64 →
      IsCount sign (sign ++ digits) value
  | hexadecimal {mark : Char} {digits : List Char} {value : Nat} :
      mark = 'x' ∨ mark = 'X' →
      Numeral.Denotes 16 digits value →
      value < 2 ^ 64 →
      IsCount sign ('0' :: mark :: (sign ++ digits)) value

section Sign

variable {base value : Nat} {digits characters : List Char}

/-- No digit of a number is a plus sign. -/
theorem plus_not_mem_of_denotes
    (low : base ≤ 16)
    (denotes : Numeral.Denotes base digits value) :
    '+' ∉ digits :=
  fun member => Numeral.not_denotes_of_mem low rfl member denotes

theorem IsCount.plus_not_mem
    (written : IsCount [] characters value) :
    '+' ∉ characters := by
  cases written with
  | decimal denotes =>
      exact plus_not_mem_of_denotes (by decide) denotes
  | hexadecimal mark denotes =>
      refine List.not_mem_cons_of_ne_of_not_mem (by decide)
        (List.not_mem_cons_of_ne_of_not_mem ?_
          (plus_not_mem_of_denotes (by decide) denotes))
      rcases mark with rfl | rfl <;> decide

theorem IsCount.plus_mem
    (written : IsCount ['+'] characters value) :
    '+' ∈ characters := by
  cases written with
  | decimal => exact List.mem_cons_self
  | hexadecimal => exact List.mem_cons_of_mem _ (List.mem_cons_of_mem _ List.mem_cons_self)

/-- Digits are read with no sign or with one plus sign in front of them. -/
theorem readBelow?_withoutPlus_eq_some_iff
    (low : base ≤ 16) :
    Numeral.readBelow? UInt64.size base (withoutPlus characters) = some value ↔
      ∃ sign ∈ [[], ['+']], ∃ digits, characters = sign ++ digits ∧
        Numeral.Denotes base digits value ∧ value < 2 ^ 64 := by
  rw [Numeral.readBelow?_eq_some_iff low]
  constructor
  · intro read
    unfold withoutPlus at read
    split at read
    · next digits =>
        exact ⟨['+'], by decide, digits, rfl, read⟩
    · exact ⟨[], by decide, characters, rfl, read⟩
  · rintro ⟨sign, isSign, digits, rfl, denotes, below⟩
    have unsigned : withoutPlus (sign ++ digits) = digits := by
      rcases List.mem_cons.mp isSign with rfl | isPlus
      · rw [List.nil_append, withoutPlus.eq_2]
        rintro rest rfl
        exact plus_not_mem_of_denotes low denotes List.mem_cons_self
      · rw [List.mem_singleton.mp isPlus]
        rfl
    rw [unsigned]
    exact ⟨denotes, below⟩

end Sign

section Reading

variable {characters : List Char} {value : Nat}

/-- Without a mark behind a zero, a count is read in decimal. -/
theorem count?_of_unmarked
    (noMark : ∀ mark rest, characters = '0' :: mark :: rest → ¬ (mark = 'x' ∨ mark = 'X')) :
    count? (String.ofList characters) =
      Numeral.readBelow? UInt64.size 10 (withoutPlus characters) := by
  rw [count?, String.toList_ofList]
  split
  · exact (noMark _ _ rfl (.inl rfl)).elim
  · exact (noMark _ _ rfl (.inr rfl)).elim
  · rfl

/-- A text is read as a count when it is written as one, perhaps with a plus sign. -/
theorem count?_eq_some_iff :
    count? (String.ofList characters) = some value ↔
      ∃ sign ∈ [[], ['+']], IsCount sign characters value := by
  constructor
  · intro read
    rw [count?, String.toList_ofList] at read
    split at read
    · obtain ⟨sign, isSign, digits, rfl, denotes, below⟩ :=
        (readBelow?_withoutPlus_eq_some_iff (by decide)).mp read
      exact ⟨sign, isSign, .hexadecimal (.inl rfl) denotes below⟩
    · obtain ⟨sign, isSign, digits, rfl, denotes, below⟩ :=
        (readBelow?_withoutPlus_eq_some_iff (by decide)).mp read
      exact ⟨sign, isSign, .hexadecimal (.inr rfl) denotes below⟩
    · obtain ⟨sign, isSign, digits, rfl, denotes, below⟩ :=
        (readBelow?_withoutPlus_eq_some_iff (by decide)).mp read
      exact ⟨sign, isSign, .decimal denotes below⟩
  · rintro ⟨sign, isSign, written⟩
    cases written with
    | decimal denotes below =>
        rw [count?_of_unmarked]
        · exact (readBelow?_withoutPlus_eq_some_iff (by decide)).mpr
            ⟨sign, isSign, _, rfl, denotes, below⟩
        · intro mark rest shape isMark
          rcases List.mem_cons.mp isSign with rfl | isPlus
          · exact unmarked_of_decimal denotes mark rest shape (isMark.imp_right .inl)
          · rw [List.mem_singleton.mp isPlus] at shape
            exact absurd (List.cons.inj shape).1 (by decide)
    | hexadecimal mark denotes below =>
        rcases mark with rfl | rfl <;>
          rw [count?, String.toList_ofList] <;>
          exact (readBelow?_withoutPlus_eq_some_iff (by decide)).mpr
            ⟨sign, isSign, _, rfl, denotes, below⟩

/-- A number without a minus sign and not in binary is written as a count is. -/
theorem isNumber_iff_isCount
    (plain : ∀ start ∈ ["-", "0b", "0B"], ¬ start.toList <+: characters) :
    IsNumber characters value ↔ IsCount [] characters value := by
  constructor
  · intro written
    cases written with
    | negative =>
        exact (plain "-" (by decide) ⟨_, rfl⟩).elim
    | hexadecimal mark denotes below =>
        exact .hexadecimal mark denotes below
    | binary mark =>
        rcases mark with rfl | rfl
        · exact (plain "0b" (by decide) ⟨_, rfl⟩).elim
        · exact (plain "0B" (by decide) ⟨_, rfl⟩).elim
    | decimal denotes below =>
        exact .decimal denotes below
  · intro written
    cases written with
    | decimal denotes below => exact .decimal denotes below
    | hexadecimal mark denotes below => exact .hexadecimal mark denotes below

/-- Only what is written without a sign is read as a count when nothing has a plus sign. -/
theorem reads_unsigned_iff :
    (∀ value, count? (String.ofList characters) = some value ↔ IsCount [] characters value) ↔
      ∀ value, ¬ IsCount ['+'] characters value := by
  constructor
  · intro unsigned value written
    have read : count? (String.ofList characters) = some value :=
      count?_eq_some_iff.mpr ⟨['+'], by decide, written⟩
    exact ((unsigned value).mp read).plus_not_mem written.plus_mem
  · intro noPlus value
    rw [count?_eq_some_iff]
    simp [noPlus]

end Reading

/--
A text is read as a count exactly when it has decimal digits, or hexadecimal digits
behind a mark, for a value below 2^64, perhaps with a plus sign in front of the digits.
Without the plus sign it is a count as it should be written, and one that does not
start like a negative or a binary number is the same number in the assembly language.
With the plus sign it is neither.
-/
theorem count?_grammar (text : String) :
    (∀ value, count? text = some value ↔
      IsCount [] text.toList value ∨ IsCount ['+'] text.toList value) ∧
    ((∀ value, count? text = some value ↔ IsCount [] text.toList value) ↔
      ∀ value, ¬ IsCount ['+'] text.toList value) ∧
    ((∀ start ∈ ["-", "0b", "0B"], ¬ start.toList <+: text.toList) →
      (count? text = (number? text).map UInt64.toNat ↔
        ∀ value, ¬ IsCount ['+'] text.toList value)) := by
  rw [← String.ofList_toList (s := text), String.toList_ofList]
  refine ⟨fun value => ?_, reads_unsigned_iff, fun plain => ?_⟩
  · rw [count?_eq_some_iff]
    simp
  · rw [← reads_unsigned_iff, Option.ext_iff]
    refine forall_congr' fun value => ?_
    rw [map_number?_eq_some_iff, isNumber_iff_isCount plain]

/-- A hexadecimal count that is a number of the assembly language as well. -/
theorem count?_grammar_hexadecimal :
    (∀ start ∈ ["-", "0b", "0B"], ¬ start.toList <+: "0X1f".toList) ∧
      count? "0X1f" = (number? "0X1f").map UInt64.toNat ∧
      IsCount [] "0X1f".toList 31 := by
  have plain : ∀ start ∈ ["-", "0b", "0B"], ¬ start.toList <+: "0X1f".toList := by
    decide
  have noPlus : ∀ value, ¬ IsCount ['+'] "0X1f".toList value :=
    fun _ written => absurd written.plus_mem (by decide)
  obtain ⟨_, unsigned, agree⟩ := count?_grammar "0X1f"
  exact ⟨plain, (agree plain).mpr noPlus, (unsigned.mpr noPlus 31).mp (by decide)⟩

/-- Hexadecimal digits behind a plus sign are read as a count. -/
theorem not_reads_unsigned_plus :
    ¬ ∀ text value, count? text = some value ↔ IsCount [] text.toList value := by
  intro unsigned
  have written := (unsigned "0x+10" 16).mp (by decide)
  exact absurd (by decide) written.plus_not_mem

end RegisterMachine.Command.Runner
