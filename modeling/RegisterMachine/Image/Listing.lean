import RegisterMachine.Image.Decode

namespace RegisterMachine.Image

/-!
# Texts of an image

Three texts show an image: the assembly text of each instruction, the listing
with an offset before each instruction, and the dump of the bytes in
hexadecimal, sixteen to a line.
-/

/-- The assembly text of an instruction: its mnemonic and its operands. -/
def Entry.text (entry : Entry) : String :=
  String.join (entry.opcode.mnemonic ::
    entry.operands.map fun operand => " " ++ operand.text)

/-- The line of a listing: the offset in hexadecimal, then the instruction. -/
def Entry.listingLine (entry : Entry) : String :=
  Text.Numeral.hex 4 entry.offset ++ ": " ++ entry.text ++ "\n"

/-- The assembly text of decoded instructions, one on a line. -/
def sourceText (entries : List Entry) : String :=
  String.intercalate "\n" (entries.map Entry.text)

/-- The listing of an image, one line for each instruction. -/
def disassemble (image : List UInt8) : Except DecodeError String :=
  (decode image).map fun entries => String.join (entries.map Entry.listingLine)

/-- Number of bytes on a line of a dump. -/
def dumpWidth : Nat := 16

/-- The bytes in rows of the dump width; the last row may be shorter. -/
def dumpRows (bytes : List UInt8) : List (List UInt8) :=
  if bytes.isEmpty then
    []
  else
    bytes.take dumpWidth :: dumpRows (bytes.drop dumpWidth)
  termination_by bytes.length
  decreasing_by
    cases bytes with
    | nil => contradiction
    | cons byte rest =>
        simp only [dumpWidth, List.length_drop, List.length_cons]
        omega

/-- One byte as two hexadecimal digits. -/
def byteText (byte : UInt8) : String :=
  Text.Numeral.hex 2 byte.toNat

/-- The bytes in hexadecimal, sixteen on a line, with a space between two. -/
def hexDump (bytes : List UInt8) : String :=
  String.intercalate "\n" ((dumpRows bytes).map fun row =>
    String.intercalate " " (row.map byteText))

end RegisterMachine.Image
