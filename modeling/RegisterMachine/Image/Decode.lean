import RegisterMachine.Instruction
import RegisterMachine.Text.Numeral

namespace RegisterMachine.Image

/-!
# Program images

A program image is a plain sequence of encoded instructions.  An instruction
is its code byte followed by its operands in the order of the catalog layout.
Decoding walks the image from its start and stops at the first byte that is no
code byte, or at the first instruction that the image cuts short.
-/

/-- One instruction found in an image, with the offset of its code byte. -/
structure Entry where
  offset : Nat
  opcode : Opcode
  operands : List Operand
  deriving Repr, DecidableEq

/-- Why bytes are not an instruction. -/
inductive DecodeError where
  /-- No catalog row has this code byte. -/
  | unknownOpcode (code : UInt8) (position : Nat)
  /-- The operands run past the end. -/
  | truncated (mnemonic : String) (position : Nat)
  deriving Repr, DecidableEq

namespace DecodeError

/-- The text of a decoding error. -/
def message : DecodeError → String
  | .unknownOpcode code position =>
      "unknown opcode 0x" ++ Text.Numeral.hex 2 code.toNat ++
        " at position " ++ Nat.repr position
  | .truncated mnemonic position =>
      "truncated " ++ mnemonic ++ " instruction at position " ++ Nat.repr position

/-- The position that a decoding error names. -/
def position : DecodeError → Nat
  | .unknownOpcode _ position => position
  | .truncated _ position => position

end DecodeError

/-- The encoded bytes of an instruction with given operands. -/
def encode (opcode : Opcode) (operands : List Operand) : List UInt8 :=
  opcode.code :: operands.flatMap Operand.encode

/-- Read one operand of a kind; a register byte is reduced to the register it names. -/
def readOperand? (kind : Operand.Kind) (bytes : List UInt8) :
    Option (Operand × List UInt8) :=
  match kind with
  | .register =>
      match bytes with
      | [] => none
      | byte :: rest => some (.register (Register.ofByte byte).toByte, rest)
  | .word =>
      if bytes.length < Word.byteCount then
        none
      else
        some (.word (Word.ofBytes (bytes.take Word.byteCount)),
          bytes.drop Word.byteCount)

/-- Read the operands of a layout from the start of the bytes. -/
def readOperands? : List Operand.Kind → List UInt8 →
    Option (List Operand × List UInt8)
  | [], bytes => some ([], bytes)
  | kind :: kinds, bytes =>
      match readOperand? kind bytes with
      | none => none
      | some (operand, rest) =>
          match readOperands? kinds rest with
          | none => none
          | some (operands, tail) => some (operand :: operands, tail)

/-- Reading an operand takes as many bytes as its kind says. -/
theorem length_of_readOperand? {kind : Operand.Kind} {bytes rest : List UInt8}
    {operand : Operand} (found : readOperand? kind bytes = some (operand, rest)) :
    bytes.length = kind.size + rest.length := by
  cases kind with
  | register =>
      cases bytes with
      | nil => simp [readOperand?] at found
      | cons byte tail =>
          simp only [readOperand?, Option.some.injEq, Prod.mk.injEq] at found
          simp [Operand.Kind.size, ← found.2]
          omega
  | word =>
      simp only [readOperand?] at found
      split at found
      · simp at found
      · next enough =>
          simp only [Option.some.injEq, Prod.mk.injEq] at found
          simp only [← found.2, Operand.Kind.size, List.length_drop]
          omega

/-- Reading operands takes as many bytes as the layout says. -/
theorem length_of_readOperands? {kinds : List Operand.Kind}
    {bytes rest : List UInt8} {operands : List Operand}
    (found : readOperands? kinds bytes = some (operands, rest)) :
    bytes.length = Operand.Kind.totalSize kinds + rest.length := by
  induction kinds generalizing bytes rest operands with
  | nil =>
      simp only [readOperands?, Option.some.injEq, Prod.mk.injEq] at found
      simp [found.2, Operand.Kind.totalSize]
  | cons kind kinds inductionHypothesis =>
      simp only [readOperands?] at found
      split at found
      · simp at found
      · next operand middle first =>
          split at found
          · simp at found
          · next others tail second =>
              simp only [Option.some.injEq, Prod.mk.injEq] at found
              have whole := length_of_readOperand? first
              have later := inductionHypothesis second
              simp only [Operand.Kind.totalSize]
              rw [← found.2]
              omega

/-- Decode bytes that stand at an offset of an image. -/
def decodeFrom (offset : Nat) : List UInt8 → Except DecodeError (List Entry)
  | [] => .ok []
  | code :: bytes =>
      match Opcode.ofCode? code with
      | none => .error (.unknownOpcode code offset)
      | some opcode =>
          match _found : readOperands? opcode.layout bytes with
          | none => .error (.truncated opcode.mnemonic offset)
          | some (operands, rest) =>
              match decodeFrom (offset + opcode.size) rest with
              | .error cause => .error cause
              | .ok entries => .ok (⟨offset, opcode, operands⟩ :: entries)
  termination_by bytes => bytes.length
  decreasing_by
    have taken := length_of_readOperands? _found
    simp only [List.length_cons]
    omega

/-- Decode a whole image. -/
def decode (image : List UInt8) : Except DecodeError (List Entry) :=
  decodeFrom 0 image

end RegisterMachine.Image
