namespace RegisterMachine

/-!
# Consoles

A machine writes bytes to a console and reads single bytes from it.  Either can
fail for a reason; a failed write goes on, a failed read stops the machine.  A
console buffer serves its input from a list and collects its output.
-/

/-- What a machine needs of a console whose state has type `Device`. -/
class Console (Device : Type) where
  /-- Write bytes; the reason is given when they could not be written. -/
  write : Device → List UInt8 → Device × Option String
  /-- Read one byte, or give the reason why there is none. -/
  read : Device → Device × Except String UInt8

/-- A console in memory. -/
structure ConsoleBuffer where
  input : List UInt8 := []
  written : Array UInt8 := #[]
  deriving Repr, DecidableEq

namespace ConsoleBuffer

/-- The reason of a read at the end of the input. -/
def endOfInput : String := "unexpected end of file"

/-- Append bytes to the output. -/
def put (buffer : ConsoleBuffer) (bytes : List UInt8) : ConsoleBuffer :=
  { buffer with written := buffer.written ++ bytes }

/-- Take the first byte of the input. -/
def get (buffer : ConsoleBuffer) : ConsoleBuffer × Except String UInt8 :=
  match buffer.input with
  | [] => (buffer, .error endOfInput)
  | byte :: rest => ({ buffer with input := rest }, .ok byte)

/-- All bytes written so far. -/
def output (buffer : ConsoleBuffer) : List UInt8 :=
  buffer.written.toList

instance : Console ConsoleBuffer where
  write buffer bytes := (buffer.put bytes, none)
  read buffer := buffer.get

/-- Written bytes are at the end of the output. -/
@[simp] theorem output_put (buffer : ConsoleBuffer) (bytes : List UInt8) :
    (buffer.put bytes).output = buffer.output ++ bytes := by
  simp [put, output]

end ConsoleBuffer

/-- A value in decimal as the bytes of a line. -/
def decimalLine (value : UInt64) : List UInt8 :=
  (Nat.toDigits 10 value.toNat).map Char.toUInt8 ++ ['\n'.toUInt8]

end RegisterMachine
