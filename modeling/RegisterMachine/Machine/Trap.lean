namespace RegisterMachine

/-!
# Traps

A trap is a console service, chosen by number.  Other numbers are no fault:
the instruction then only leaves a warning.
-/

/-- The console services. -/
inductive TrapCode where
  /-- Write the low byte of the data register. -/
  | putc
  /-- Read one byte into the data register. -/
  | getc
  deriving Repr, DecidableEq

namespace TrapCode

/-- The number of a service. -/
def number : TrapCode → UInt64
  | .putc => 0
  | .getc => 1

/-- The service with a number, if there is one. -/
def ofNumber? (number : UInt64) : Option TrapCode :=
  if number = TrapCode.putc.number then some .putc
  else if number = TrapCode.getc.number then some .getc
  else none

/-- A service is found by its own number. -/
@[simp] theorem ofNumber?_number (code : TrapCode) :
    ofNumber? code.number = some code := by
  cases code <;> rfl

end TrapCode

end RegisterMachine
