import RegisterMachine.Operand
import RegisterMachine.Text.Numeral

namespace RegisterMachine.Assembly

/-!
# Literals of the assembly language

The three kinds of names and numbers that a token can be: a register, a word
written as a number, and a label.  No token is more than one of register and
number, or of number and label.
-/

open RegisterMachine.Text

/-- The register that a token names: `R` or `r`, then decimal digits below eight. -/
def register? (token : String) : Option UInt8 :=
  match token.toList with
  | [] => none
  | letter :: digits =>
      if letter = 'R' ∨ letter = 'r' then
        (Numeral.readBelow? registerCount 10 digits).map UInt8.ofNat
      else
        none

/--
The word that a token denotes: decimal, hexadecimal after `0x`, binary after
`0b`, or a negative decimal as its two's complement.
-/
def number? (token : String) : Option UInt64 :=
  match token.toList with
  | '-' :: digits =>
      (Numeral.readBelow? (UInt64.size / 2 + 1) 10 digits).map fun magnitude =>
        UInt64.ofNat (UInt64.size - magnitude)
  | '0' :: 'x' :: digits => word? 16 digits
  | '0' :: 'X' :: digits => word? 16 digits
  | '0' :: 'b' :: digits => word? 2 digits
  | '0' :: 'B' :: digits => word? 2 digits
  | digits => word? 10 digits
where
  /-- The word that digits of a base denote. -/
  word? (base : Nat) (digits : List Char) : Option UInt64 :=
    (Numeral.readBelow? UInt64.size base digits).map UInt64.ofNat

/-- Whether a character can start a label name: an ASCII letter or `_`. -/
def isNameStart (character : Char) : Bool :=
  character.isAlpha || character == '_'

/-- Whether a character can follow in a label name: also an ASCII digit. -/
def isNameCharacter (character : Char) : Bool :=
  character.isAlphanum || character == '_'

/-- Whether a text can be the name of a label. -/
def isLabelName (name : String) : Bool :=
  match name.toList with
  | [] => false
  | first :: rest => isNameStart first && rest.all isNameCharacter

/-- Whether a token defines a label: it ends in a colon and is more than that. -/
def isDefinition (token : String) : Bool :=
  token.toList.getLast? == some ':' && token.toList.length > 1

/-- The name in a token that defines a label: all but the colon. -/
def definedName (token : String) : String :=
  String.ofList token.toList.dropLast

end RegisterMachine.Assembly
