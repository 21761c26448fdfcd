import RegisterMachine.Operand

namespace RegisterMachine

/-!
# The register file

Eight registers of 64 bits, all zero at the start.  A write changes the
register that it names and no other (`get_set`).
-/

/-- The values of the general purpose registers. -/
structure Registers where
  values : Vector UInt64 8 := Vector.replicate 8 0
  deriving Repr, DecidableEq

namespace Registers

/-- The value of a register. -/
def get (registers : Registers) (register : Register) : UInt64 :=
  registers.values[register.val]

/-- The registers with one of them changed. -/
def set (registers : Registers) (register : Register) (value : UInt64) : Registers :=
  ⟨registers.values.set register.val value register.isLt⟩

/-- The values of all registers, lowest index first. -/
def toList (registers : Registers) : List UInt64 :=
  registers.values.toList

/-- A written register has the new value and every other its old one. -/
theorem get_set (registers : Registers) (written read : Register) (value : UInt64) :
    (registers.set written value).get read =
      if written = read then value else registers.get read := by
  simp only [get, set, Vector.getElem_set, Fin.ext_iff]

end Registers

end RegisterMachine
