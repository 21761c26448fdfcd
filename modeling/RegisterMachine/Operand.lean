import RegisterMachine.Word

namespace RegisterMachine

/-!
# Operands

An instruction carries registers and words.  A register operand is one raw
byte, of which only the value modulo the register count matters when the
instruction runs; a word operand is eight bytes.  An operand knows its kind,
its encoded bytes and its text.
-/

/-- Number of general purpose registers. -/
def registerCount : Nat := 8

/-- The index of a general purpose register. -/
abbrev Register := Fin 8

namespace Register

/-- The register that a raw operand byte names: the byte modulo the register count. -/
def ofByte (byte : UInt8) : Register :=
  ⟨byte.toNat % 8, Nat.mod_lt _ (by decide)⟩

/-- The operand byte that names a register directly. -/
def toByte (register : Register) : UInt8 :=
  UInt8.ofNat register.val

/-- A register is recovered from the byte that names it. -/
@[simp] theorem ofByte_toByte (register : Register) :
    ofByte register.toByte = register := by
  revert register
  decide

/-- Different registers are named by different bytes. -/
theorem toByte_inj {first second : Register} :
    first.toByte = second.toByte ↔ first = second := by
  constructor
  · intro same
    rw [← ofByte_toByte first, same, ofByte_toByte]
  · rintro rfl
    rfl

/-- Naming by a byte and back reduces the byte modulo the register count. -/
theorem toNat_toByte_ofByte (byte : UInt8) :
    (ofByte byte).toByte.toNat = byte.toNat % 8 := by
  have small : byte.toNat % 8 < 8 := Nat.mod_lt _ (by decide)
  simp [ofByte, toByte]
  omega

end Register

namespace Operand

/-- What an operand position of an instruction holds. -/
inductive Kind where
  /-- A register index in one byte. -/
  | register
  /-- An address or an immediate value in eight bytes. -/
  | word
  deriving Repr, DecidableEq

/-- Encoded size of an operand of this kind, in bytes. -/
def Kind.size : Kind → Nat
  | .register => 1
  | .word => Word.byteCount

/-- Encoded size of operands of these kinds together, in bytes. -/
def Kind.totalSize : List Kind → Nat
  | [] => 0
  | kind :: rest => kind.size + totalSize rest

/-- Operands of two layouts, one after the other, take the sum of their sizes. -/
theorem Kind.totalSize_append (first second : List Kind) :
    totalSize (first ++ second) = totalSize first + totalSize second := by
  induction first with
  | nil => rw [List.nil_append, totalSize, Nat.zero_add]
  | cons kind rest inductionHypothesis =>
      rw [List.cons_append, totalSize, totalSize, inductionHypothesis, Nat.add_assoc]

end Operand

/-- The value of one operand. -/
inductive Operand where
  /-- A register, by the raw byte that names it. -/
  | register (index : UInt8)
  /-- An address or an immediate value. -/
  | word (value : UInt64)
  deriving Repr, DecidableEq

namespace Operand

/-- The kind of position that the operand fits. -/
def kind : Operand → Kind
  | .register _ => .register
  | .word _ => .word

/-- The encoded bytes of an operand. -/
def encode : Operand → List UInt8
  | .register index => [index]
  | .word value => Word.toBytes value

/-- The text of an operand: `R` and the index, or the word in decimal. -/
def text : Operand → String
  | .register index => "R" ++ Nat.repr index.toNat
  | .word value => Nat.repr value.toNat

/-- An operand is encoded in as many bytes as its kind says. -/
@[simp] theorem length_encode (operand : Operand) :
    operand.encode.length = operand.kind.size := by
  cases operand with
  | register index => rfl
  | word value => exact Word.length_toBytes value

end Operand

end RegisterMachine
