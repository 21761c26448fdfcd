import RegisterMachine.Text.Line
import RegisterMachine.Opcode
import RegisterMachine.Assembly.Literal
import RegisterMachine.Assembly.Diagnostic

namespace RegisterMachine.Assembly

/-!
# Source lines

A source line defines labels and then may hold one instruction.  Reading a line
checks the mnemonic, then the number of operands, then the operands from left
to right; the first error takes the place of the instruction.
-/

/-- An operand as written: a value, or a label whose offset is not known yet. -/
inductive Reference where
  | value (operand : Operand)
  | label (token : Token)
  deriving Repr, DecidableEq

/-- An instruction as written. -/
structure Statement where
  opcode : Opcode
  operands : List Reference
  deriving Repr, DecidableEq

/-- What a line holds after its label definitions. -/
inductive Body where
  /-- No instruction. -/
  | empty
  /-- An instruction. -/
  | statement (statement : Statement)
  /-- An instruction that is in error. -/
  | rejected (diagnostic : Diagnostic)
  deriving Repr, DecidableEq

/-- A source line: its number from one, the names it defines, and its body. -/
structure Line where
  number : Nat
  labels : List Token
  body : Body
  deriving Repr, DecidableEq

/-- Read a token where a word has to stand. -/
def readWord (token : Token) : Except SyntaxError Reference :=
  if (register? token.text).isSome then
    .error (.expectedImmediate token.text)
  else
    match number? token.text with
    | some value => .ok (.value (.word value))
    | none =>
        if isLabelName token.text then
          .ok (.label token)
        else
          .error (.invalidImmediate token.text)

/-- Read a token as an operand of a kind. -/
def readReference (kind : Operand.Kind) (token : Token) :
    Except SyntaxError Reference :=
  match kind with
  | .register =>
      match register? token.text with
      | some index => .ok (.value (.register index))
      | none => .error (.invalidRegister token.text)
  | .word => readWord token

/-- Read tokens as the operands of a layout; the first error is reported. -/
def readReferences (line : Nat) : List Operand.Kind → List Token →
    Except Diagnostic (List Reference)
  | kind :: kinds, token :: rest =>
      match readReference kind token with
      | .error cause => .error ⟨line, token.column, cause⟩
      | .ok first =>
          match readReferences line kinds rest with
          | .error diagnostic => .error diagnostic
          | .ok others => .ok (first :: others)
  | _, _ => .ok []

/-- Read the tokens of an instruction, which starts with its mnemonic. -/
def readStatement (line : Nat) (mnemonic : Token) (arguments : List Token) :
    Except Diagnostic Statement :=
  match Opcode.ofName? mnemonic.text with
  | none => .error ⟨line, mnemonic.column, .unknownMnemonic mnemonic.text⟩
  | some opcode =>
      if arguments.length = opcode.layout.length then
        match readReferences line opcode.layout arguments with
        | .error diagnostic => .error diagnostic
        | .ok references => .ok ⟨opcode, references⟩
      else
        .error ⟨line, mnemonic.column,
          .arityMismatch opcode.mnemonic opcode.layout.length arguments.length⟩

/-- Read the tokens after the label definitions of a line. -/
def readBody (line : Nat) : List Token → Body
  | [] => .empty
  | mnemonic :: arguments =>
      match readStatement line mnemonic arguments with
      | .error diagnostic => .rejected diagnostic
      | .ok statement => .statement statement

/-- The name that a defining token defines, at the column of the token. -/
def definedLabel (token : Token) : Token :=
  ⟨definedName token.text, token.column⟩

/-- Read the tokens of a line. -/
def readTokens (number : Nat) (line : List Token) : Line where
  number := number
  labels := (line.takeWhile fun token => isDefinition token.text).map definedLabel
  body := readBody number (line.dropWhile fun token => isDefinition token.text)

/-- Read the characters of a line. -/
def readLine (number : Nat) (line : List Char) : Line :=
  readTokens number (tokens line)

/-- The lines of a source, numbered from one. -/
def readSource (source : String) : List Line :=
  (Text.lines source.toList).zipIdx 1 |>.map fun (line, number) =>
    readLine number line

namespace Line

/-- The labels of a line whose names are identifiers. -/
def definitions (line : Line) : List Token :=
  line.labels.filter fun label => isLabelName label.text

/-- The labels of a line whose names are not identifiers. -/
def misnamed (line : Line) : List Token :=
  line.labels.filter fun label => !isLabelName label.text

/-- The instruction of a line, if it has one that is not in error. -/
def statement? (line : Line) : Option Statement :=
  match line.body with
  | .statement statement => some statement
  | _ => none

/-- The error that takes the place of the instruction of a line. -/
def rejection? (line : Line) : Option Diagnostic :=
  match line.body with
  | .rejected diagnostic => some diagnostic
  | _ => none

/-- The error of a line that ends the whole assembly. -/
def fatal? (line : Line) : Option Diagnostic :=
  line.rejection?.filter Diagnostic.isFatal

end Line

/-- A defining token at the start of a line adds the first label. -/
theorem readTokens_cons_of_isDefinition (number : Nat) (token : Token)
    (rest : List Token) (defines : isDefinition token.text = true) :
    readTokens number (token :: rest) =
      { readTokens number rest with
        labels := definedLabel token :: (readTokens number rest).labels } := by
  rw [readTokens, List.takeWhile_cons, List.dropWhile_cons, defines]
  rfl

/-- Any other token at the start of a line leaves no labels. -/
theorem readTokens_cons_of_not_isDefinition (number : Nat) (token : Token)
    (rest : List Token) (defines : isDefinition token.text = false) :
    readTokens number (token :: rest) =
      ⟨number, [], readBody number (token :: rest)⟩ := by
  rw [readTokens, List.takeWhile_cons, List.dropWhile_cons, defines]
  rfl

/-- Operands are read one after the other. -/
theorem readReferences_cons_eq_ok_iff {line : Nat} {kind : Operand.Kind}
    {kinds : List Operand.Kind} {token : Token} {rest : List Token}
    {references : List Reference} :
    readReferences line (kind :: kinds) (token :: rest) = .ok references ↔
      ∃ first others, readReference kind token = .ok first ∧
        readReferences line kinds rest = .ok others ∧
        references = first :: others := by
  rw [readReferences]
  cases readReference kind token with
  | error cause => simp
  | ok first =>
      cases readReferences line kinds rest with
      | error diagnostic => simp
      | ok others => simp [eq_comm]

/-- Operands that fit a layout are read in its number. -/
theorem length_of_readReferences {line : Nat} {kinds : List Operand.Kind}
    {arguments : List Token} {references : List Reference}
    (read : readReferences line kinds arguments = .ok references)
    (sameLength : arguments.length = kinds.length) :
    references.length = kinds.length := by
  induction kinds generalizing arguments references with
  | nil =>
      simp only [readReferences, Except.ok.injEq] at read
      simp [← read]
  | cons kind kinds inductionHypothesis =>
      cases arguments with
      | nil => simp at sameLength
      | cons token rest =>
          obtain ⟨first, others, _, later, rfl⟩ :=
            readReferences_cons_eq_ok_iff.mp read
          have restLength := inductionHypothesis later (by simpa using sameLength)
          simp [restLength]

end RegisterMachine.Assembly
