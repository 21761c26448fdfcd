namespace RegisterMachine.Text.Numeral

/-!
# Numerals

Digits of the bases up to sixteen, read from characters in either letter case
and written in lower case, with padding to a least width.
-/

/-- The value of an ASCII digit or letter as a digit of any base up to 36. -/
def digitValue (character : Char) : Option Nat :=
  if '0' ≤ character ∧ character ≤ '9' then
    some (character.toNat - '0'.toNat)
  else if 'a' ≤ character ∧ character ≤ 'z' then
    some (character.toNat - 'a'.toNat + 10)
  else if 'A' ≤ character ∧ character ≤ 'Z' then
    some (character.toNat - 'A'.toNat + 10)
  else
    none

/-- The value of a character as a digit of one base. -/
def digitOf? (base : Nat) (character : Char) : Option Nat :=
  (digitValue character).filter (· < base)

/-- Continue reading digits of a base after those that gave `value`. -/
def readFrom? (base value : Nat) : List Char → Option Nat
  | [] => some value
  | character :: rest =>
      match digitOf? base character with
      | none => none
      | some digit => readFrom? base (value * base + digit) rest

/-- The number that one or more digits of a base denote. -/
def read? (base : Nat) (digits : List Char) : Option Nat :=
  if digits.isEmpty then none else readFrom? base 0 digits

/-- The number that digits denote, when it is below a bound. -/
def readBelow? (bound base : Nat) (digits : List Char) : Option Nat :=
  (read? base digits).filter (· < bound)

/-- The text of a number in a base, at least `width` digits with leading zeros. -/
def padded (base width number : Nat) : String :=
  String.ofList ((Nat.toDigits base number).leftpad width '0')

/-- A number in lower case hexadecimal, at least `width` digits. -/
def hex (width number : Nat) : String :=
  padded 16 width number

/-- A number in decimal, at least `width` digits. -/
def decimal (width number : Nat) : String :=
  padded 10 width number

/-- No digits denote no number. -/
@[simp] theorem read?_nil (base : Nat) : read? base [] = none := rfl

/-- Every value read is below the bound. -/
theorem lt_of_readBelow? {bound base value : Nat} {digits : List Char}
    (found : readBelow? bound base digits = some value) :
    value < bound := by
  simpa using (Option.filter_eq_some_iff.mp found).2

end RegisterMachine.Text.Numeral
