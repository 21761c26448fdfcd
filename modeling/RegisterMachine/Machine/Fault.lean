import RegisterMachine.Image.Decode

namespace RegisterMachine

/-!
# Faults

The causes that stop a machine, and the one cause that keeps it from starting.
-/

/-- Why a machine stopped before its program did. -/
inductive Fault where
  /-- The bytes at the program counter are no instruction. -/
  | undecodable (cause : Image.DecodeError)
  /-- A word access was not fully inside memory. -/
  | outOfBounds (address : UInt64) (memorySize : Nat)
  /-- The instruction at this position divides by zero. -/
  | divisionByZero (position : Nat)
  /-- The console had no byte to read. -/
  | consoleInput (reason : String)
  deriving Repr, DecidableEq

namespace Fault

/-- The text of a fault. -/
def message : Fault → String
  | .undecodable cause => cause.message
  | .outOfBounds address memorySize =>
      "out of bounds memory access at address " ++ Nat.repr address.toNat ++
        " (memory size " ++ Nat.repr memorySize ++ ")"
  | .divisionByZero position => "division by zero at position " ++ Nat.repr position
  | .consoleInput reason => "console input failed: " ++ reason

/-- The position that a fault names, if it names one. -/
def position? : Fault → Option Nat
  | .undecodable cause => some cause.position
  | .divisionByZero position => some position
  | _ => none

end Fault

/-- A program image is larger than the memory that it should be loaded into. -/
structure ImageTooLarge where
  imageSize : Nat
  memorySize : Nat
  deriving Repr, DecidableEq

/-- The text for an image that is too large. -/
def ImageTooLarge.message (cause : ImageTooLarge) : String :=
  "program of " ++ Nat.repr cause.imageSize ++ " bytes does not fit in " ++
    Nat.repr cause.memorySize ++ " bytes of memory"

end RegisterMachine
