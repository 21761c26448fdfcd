import RegisterMachine.Image.Decode
import RegisterMachine.Assembly.Line

namespace RegisterMachine.Assembly

/-!
# Labels and their offsets

A label is defined when some line defines it with a valid name.  A line whose
instruction uses an undefined label is in error.  The offset of a label is the
size of all instructions on lines before the line of its first definition, where
lines in error count nothing.
-/

/-- The valid label names that lines define, in source order. -/
def definedNames (lines : List Line) : List String :=
  lines.flatMap fun line => line.definitions.map Token.text

namespace Statement

/-- The first operand that is a label outside the defined names. -/
def undefined? (defined : List String) (statement : Statement) : Option Token :=
  statement.operands.findSome? fun reference =>
    match reference with
    | .value _ => none
    | .label token => if defined.contains token.text then none else some token

end Statement

namespace Line

/-- The line, with an instruction that uses an undefined label put in error. -/
def resolve (defined : List String) (line : Line) : Line :=
  match line.body with
  | .statement statement =>
      match statement.undefined? defined with
      | none => line
      | some token =>
          { line with
            body := .rejected ⟨line.number, token.column, .undefinedLabel token.text⟩ }
  | _ => line

/-- Number of bytes that the line adds to the image. -/
def size (line : Line) : Nat :=
  match line.statement? with
  | none => 0
  | some statement => statement.opcode.size

end Line

/-- The lines, with every use of an undefined label put in error. -/
def resolve (lines : List Line) : List Line :=
  lines.map (Line.resolve (definedNames lines))

/-- Label names with offsets, in source order, for lines that start at an offset. -/
def offsetsFrom (offset : Nat) : List Line → List (String × Nat)
  | [] => []
  | line :: rest =>
      line.definitions.map (fun label => (label.text, offset)) ++
        offsetsFrom (offset + line.size) rest

/-- The offset of a label: that of its first definition. -/
def offsetOf? (offsets : List (String × Nat)) (label : String) : Option Nat :=
  offsets.lookup label

/-- The operand that a reference stands for; the label itself when it has no offset. -/
def Reference.operand (offsets : List (String × Nat)) :
    Reference → Except String Operand
  | .value operand => .ok operand
  | .label token =>
      match offsetOf? offsets token.text with
      | none => .error token.text
      | some offset => .ok (.word (UInt64.ofNat offset))

/-- The operands that references stand for; the first label without an offset fails. -/
def operandsOf (offsets : List (String × Nat)) :
    List Reference → Except String (List Operand)
  | [] => .ok []
  | reference :: rest =>
      match reference.operand offsets with
      | .error label => .error label
      | .ok operand =>
          match operandsOf offsets rest with
          | .error label => .error label
          | .ok operands => .ok (operand :: operands)

/-- Operands are resolved one after the other. -/
theorem operandsOf_cons_eq_ok_iff {offsets : List (String × Nat)}
    {reference : Reference} {rest : List Reference} {operands : List Operand} :
    operandsOf offsets (reference :: rest) = .ok operands ↔
      ∃ operand others, reference.operand offsets = .ok operand ∧
        operandsOf offsets rest = .ok others ∧ operands = operand :: others := by
  rw [operandsOf]
  cases reference.operand offsets with
  | error label => simp
  | ok operand =>
      cases operandsOf offsets rest with
      | error label => simp
      | ok others => simp [eq_comm]

/-- The bytes of an instruction. -/
def Statement.encode (offsets : List (String × Nat)) (statement : Statement) :
    Except String (List UInt8) :=
  (operandsOf offsets statement.operands).map (Image.encode statement.opcode)

/-- The bytes of instructions in order. -/
def encodeAll (offsets : List (String × Nat)) :
    List Statement → Except String (List UInt8)
  | [] => .ok []
  | statement :: rest =>
      match statement.encode offsets with
      | .error label => .error label
      | .ok bytes =>
          match encodeAll offsets rest with
          | .error label => .error label
          | .ok others => .ok (bytes ++ others)

end RegisterMachine.Assembly
