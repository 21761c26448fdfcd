import RegisterMachine.Proofs.Assembly.LabelUse
import RegisterMachine.Proofs.Text.Digits

namespace RegisterMachine.Assembly

/-!
# The grammar of literals

A token is read as a number or as a register exactly when it is written as one,
and then as the value that its digits denote.  A number can be written in decimal
with or without a sign, in hexadecimal and in binary; no way to write it could
also be the name of a label.
-/

open RegisterMachine.Text

/-- How the value of a word is written. -/
inductive IsNumber : List Char → Nat → Prop where
  /-- A sign and a magnitude; the value is the two's complement. -/
  | negative {digits : List Char} {magnitude : Nat} :
      Numeral.Denotes 10 digits magnitude →
      magnitude ≤ 2 ^ 63 →
      IsNumber ('-' :: digits) ((2 ^ 64 - magnitude) % 2 ^ 64)
  | hexadecimal {mark : Char} {digits : List Char} {value : Nat} :
      mark = 'x' ∨ mark = 'X' →
      Numeral.Denotes 16 digits value →
      value < 2 ^ 64 →
      IsNumber ('0' :: mark :: digits) value
  | binary {mark : Char} {digits : List Char} {value : Nat} :
      mark = 'b' ∨ mark = 'B' →
      Numeral.Denotes 2 digits value →
      value < 2 ^ 64 →
      IsNumber ('0' :: mark :: digits) value
  | decimal {digits : List Char} {value : Nat} :
      Numeral.Denotes 10 digits value →
      value < 2 ^ 64 →
      IsNumber digits value

/-- How the index of a register is written. -/
inductive IsRegister : List Char → Nat → Prop where
  | intro {letter : Char} {digits : List Char} {index : Nat} :
      letter = 'R' ∨ letter = 'r' →
      Numeral.Denotes 10 digits index →
      index ≤ 7 →
      IsRegister (letter :: digits) index

section Reading

/-- Digits are read as the word that they denote. -/
theorem word?_eq_some_iff
    {base : Nat}
    (low : base ≤ 16)
    {digits : List Char}
    {value : UInt64} :
    number?.word? base digits = some value ↔
      Numeral.Denotes base digits value.toNat := by
  rw [number?.word?, Option.map_eq_some_iff]
  constructor
  · rintro ⟨number, read, rfl⟩
    obtain ⟨denotes, below⟩ := (Numeral.readBelow?_eq_some_iff low).mp read
    rwa [UInt64.toNat_ofNat_of_lt' below]
  · intro denotes
    exact ⟨value.toNat,
      (Numeral.readBelow?_eq_some_iff low).mpr ⟨denotes, value.toNat_lt⟩,
      UInt64.ofNat_toNat⟩

/-- A magnitude behind a sign is read as its two's complement. -/
theorem negated_eq_some_iff
    {digits : List Char}
    {value : UInt64} :
    (Numeral.readBelow? (UInt64.size / 2 + 1) 10 digits).map (fun magnitude =>
        UInt64.ofNat (UInt64.size - magnitude)) = some value ↔
      ∃ magnitude, Numeral.Denotes 10 digits magnitude ∧ magnitude ≤ 2 ^ 63 ∧
        value.toNat = (2 ^ 64 - magnitude) % 2 ^ 64 := by
  rw [Option.map_eq_some_iff]
  refine exists_congr fun magnitude => ?_
  rw [Numeral.readBelow?_eq_some_iff (by decide), ← UInt64.toNat_inj,
    UInt64.toNat_ofNat', Nat.lt_succ_iff, and_assoc, eq_comm (b := value.toNat)]
  rfl

/-- No mark of another base follows a zero in decimal digits. -/
theorem unmarked_of_decimal
    {digits : List Char}
    {value : Nat}
    (denotes : Numeral.Denotes 10 digits value)
    (mark : Char)
    (rest : List Char)
    (shape : digits = '0' :: mark :: rest) :
    ¬ (mark = 'x' ∨ mark = 'X' ∨ mark = 'b' ∨ mark = 'B') := by
  intro isMark
  have member : mark ∈ digits :=
    shape ▸ List.mem_cons_of_mem _ List.mem_cons_self
  refine Numeral.not_denotes_of_mem (by decide) ?_ member denotes
  rcases isMark with rfl | rfl | rfl | rfl <;> decide

private theorem number?_of_decimal
    {characters : List Char}
    {value : Nat}
    (denotes : Numeral.Denotes 10 characters value) :
    number? (String.ofList characters) = number?.word? 10 characters := by
  have signNoDigit : Numeral.digitOf? 10 '-' = none := by
    decide
  have unmarked : number? (String.ofList characters) =
      number?.word? 10 (String.ofList characters).toList := by
    apply number?_of_unmarked
    · intro rest shape
      rw [String.toList_ofList] at shape
      exact Numeral.not_denotes_of_mem (by decide) signNoDigit
        (shape ▸ List.mem_cons_self) denotes
    · rw [String.toList_ofList]
      exact unmarked_of_decimal denotes
  rwa [String.toList_ofList] at unmarked

/-- A token is read as a number exactly when it is written as one. -/
theorem number?_eq_some_iff
    {characters : List Char}
    {value : UInt64} :
    number? (String.ofList characters) = some value ↔
      IsNumber characters value.toNat := by
  constructor
  · intro read
    unfold number? at read
    rw [String.toList_ofList] at read
    split at read
    · obtain ⟨magnitude, denotes, bound, same⟩ := negated_eq_some_iff.mp read
      rw [same]
      exact .negative denotes bound
    · exact .hexadecimal (.inl rfl) ((word?_eq_some_iff (by decide)).mp read)
        value.toNat_lt
    · exact .hexadecimal (.inr rfl) ((word?_eq_some_iff (by decide)).mp read)
        value.toNat_lt
    · exact .binary (.inl rfl) ((word?_eq_some_iff (by decide)).mp read)
        value.toNat_lt
    · exact .binary (.inr rfl) ((word?_eq_some_iff (by decide)).mp read)
        value.toNat_lt
    · exact .decimal ((word?_eq_some_iff (by decide)).mp read) value.toNat_lt
  · intro written
    generalize same : value.toNat = number at written
    cases written with
    | negative denotes bound =>
        rw [number?, String.toList_ofList]
        exact negated_eq_some_iff.mpr ⟨_, denotes, bound, same⟩
    | hexadecimal mark denotes =>
        rw [← same] at denotes
        rcases mark with rfl | rfl <;>
          rw [number?, String.toList_ofList] <;>
          exact (word?_eq_some_iff (by decide)).mpr denotes
    | binary mark denotes =>
        rw [← same] at denotes
        rcases mark with rfl | rfl <;>
          rw [number?, String.toList_ofList] <;>
          exact (word?_eq_some_iff (by decide)).mpr denotes
    | decimal denotes =>
        rw [← same] at denotes
        rw [number?_of_decimal denotes]
        exact (word?_eq_some_iff (by decide)).mpr denotes

theorem IsNumber.lt
    (written : IsNumber characters value) :
    value < 2 ^ 64 := by
  cases written with
  | negative => exact Nat.mod_lt _ (by decide)
  | hexadecimal _ _ below => exact below
  | binary _ _ below => exact below
  | decimal _ below => exact below

/-- A token denotes the values that it is written as. -/
theorem map_number?_eq_some_iff :
    (number? (String.ofList characters)).map UInt64.toNat = some value ↔
      IsNumber characters value := by
  rw [Option.map_eq_some_iff]
  constructor
  · rintro ⟨word, read, rfl⟩
    exact number?_eq_some_iff.mp read
  · intro written
    have sameValue : (UInt64.ofNat value).toNat = value :=
      UInt64.toNat_ofNat_of_lt' written.lt
    exact ⟨UInt64.ofNat value, number?_eq_some_iff.mpr (sameValue.symm ▸ written), sameValue⟩

/-- A token is read as a register exactly when it is written as one. -/
theorem register?_eq_some_iff
    {characters : List Char}
    {index : UInt8} :
    register? (String.ofList characters) = some index ↔
      IsRegister characters index.toNat := by
  rw [register?, String.toList_ofList]
  constructor
  · intro read
    cases characters with
    | nil =>
        cases read
    | cons letter digits =>
        obtain ⟨isLetter, isIndex⟩ := Option.ite_none_right_eq_some.mp read
        obtain ⟨number, below, rfl⟩ := Option.map_eq_some_iff.mp isIndex
        obtain ⟨denotes, small⟩ :=
          (Numeral.readBelow?_eq_some_iff (by decide)).mp below
        have low : number < 8 := small
        rw [UInt8.toNat_ofNat_of_lt' (Nat.lt_trans low (by decide))]
        exact .intro isLetter denotes (Nat.le_of_lt_succ low)
  · intro written
    generalize same : index.toNat = number at written
    obtain ⟨isLetter, denotes, low⟩ := written
    have read : Numeral.readBelow? registerCount 10 _ = some number :=
      (Numeral.readBelow?_eq_some_iff (by decide)).mpr
        ⟨denotes, Nat.lt_succ_of_le low⟩
    rw [← same] at read
    simp only [isLetter, ↓reduceIte, read, Option.map_some, UInt8.ofNat_toNat]

end Reading

section Writing

variable (value : UInt64) (width : Nat)

theorem number?_padded_decimal :
    number? (Numeral.padded 10 width value.toNat) = some value := by
  rw [← String.ofList_toList (s := Numeral.padded 10 width value.toNat)]
  exact number?_eq_some_iff.mpr
    (.decimal (Numeral.denotes_padded (by decide) (by decide) width _)
      value.toNat_lt)

theorem number?_padded_hexadecimal :
    number? ("0x" ++ Numeral.padded 16 width value.toNat) = some value := by
  rw [← String.ofList_toList (s := "0x" ++ _), String.toList_append]
  exact number?_eq_some_iff.mpr
    (.hexadecimal (.inl rfl)
      (Numeral.denotes_padded (by decide) (by decide) width _) value.toNat_lt)

theorem number?_padded_binary :
    number? ("0b" ++ Numeral.padded 2 width value.toNat) = some value := by
  rw [← String.ofList_toList (s := "0b" ++ _), String.toList_append]
  exact number?_eq_some_iff.mpr
    (.binary (.inl rfl)
      (Numeral.denotes_padded (by decide) (by decide) width _) value.toNat_lt)

end Writing

/--
A token is read as a number or as a register exactly when it is written as one,
as the value that it denotes.  Every word is read back from its decimal, its
hexadecimal and its binary digits behind any number of zeros.  No token is both a
number and the name of a label.
-/
theorem literal_grammar (token : String) :
    (∀ value, number? token = some value ↔ IsNumber token.toList value.toNat) ∧
    (∀ index, register? token = some index ↔
      IsRegister token.toList index.toNat) ∧
    (∀ value width,
      number? (Numeral.padded 10 width value.toNat) = some value ∧
      number? ("0x" ++ Numeral.padded 16 width value.toNat) = some value ∧
      number? ("0b" ++ Numeral.padded 2 width value.toNat) = some value) ∧
    ¬ (number? token ≠ none ∧ isLabelName token = true) := by
  refine ⟨fun value => ?_, fun index => ?_, fun value width => ?_, ?_⟩
  · rw [← number?_eq_some_iff, String.ofList_toList]
  · rw [← register?_eq_some_iff, String.ofList_toList]
  · exact ⟨number?_padded_decimal value width,
      number?_padded_hexadecimal value width,
      number?_padded_binary value width⟩
  · rintro ⟨isNumber, isName⟩
    exact isNumber (number?_of_isLabelName isName)

end RegisterMachine.Assembly
