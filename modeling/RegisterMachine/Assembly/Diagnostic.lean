import RegisterMachine.Assembly.Token
import RegisterMachine.Log.Record

namespace RegisterMachine.Assembly

/-!
# What can be wrong in a source

A diagnostic is the cause of an error with the line and column of the token
that it is about.  Only a token that is no register, where one has to stand,
ends the whole assembly; every other error skips its line.
-/

/-- Why a line of a source is in error. -/
inductive SyntaxError where
  /-- The catalog has no instruction of this name. -/
  | unknownMnemonic (name : String)
  /-- The number of operands is not that of the catalog. -/
  | arityMismatch (mnemonic : String) (expected actual : Nat)
  /-- The token is not the name of a register. -/
  | invalidRegister (token : String)
  /-- The token is neither a number nor a label name. -/
  | invalidImmediate (token : String)
  /-- A register stands where a word is expected. -/
  | expectedImmediate (token : String)
  /-- A label is used that no line defines. -/
  | undefinedLabel (label : String)
  /-- A label is defined again. -/
  | duplicateLabel (label : String)
  /-- A label is defined whose name is not an identifier. -/
  | invalidLabel (label : String)
  deriving Repr, DecidableEq

namespace SyntaxError

/-- The text of an error. -/
def message : SyntaxError → String
  | .unknownMnemonic name => "unknown instruction '" ++ name ++ "'"
  | .arityMismatch mnemonic expected actual =>
      "operand count mismatch: " ++ mnemonic ++ " expects " ++ Nat.repr expected ++
        ", got " ++ Nat.repr actual
  | .invalidRegister token => "invalid register '" ++ token ++ "'"
  | .invalidImmediate token => "invalid immediate '" ++ token ++ "'"
  | .expectedImmediate token =>
      "expected an immediate or label, got register '" ++ token ++ "'"
  | .undefinedLabel label => "undefined label '" ++ label ++ "'"
  | .duplicateLabel label => "duplicate label '" ++ label ++ "'"
  | .invalidLabel label => "invalid label name '" ++ label ++ "'"

/-- Whether the error ends the whole assembly instead of skipping its line. -/
def isFatal : SyntaxError → Bool
  | .invalidRegister _ => true
  | _ => false

end SyntaxError

/-- The text of an error on a line. -/
def onLine (line : Nat) (message : String) : String :=
  "line " ++ Nat.repr line ++ ": " ++ message

/-- An error with the line and the byte column that it is about. -/
structure Diagnostic where
  line : Nat
  column : Nat
  cause : SyntaxError
  deriving Repr, DecidableEq

namespace Diagnostic

/-- The text of a diagnostic: its line and its cause. -/
def message (diagnostic : Diagnostic) : String :=
  onLine diagnostic.line diagnostic.cause.message

/-- Whether the diagnostic ends the whole assembly. -/
def isFatal (diagnostic : Diagnostic) : Bool :=
  diagnostic.cause.isFatal

/-- A line as it is shown: without the carriage returns at its end. -/
def shownLine (line : List Char) : List Char :=
  (line.reverse.dropWhile (· == '\r')).reverse

/-- The rows that quote a source line and mark the column under it. -/
def quotation (diagnostic : Diagnostic) (line : List Char) : String :=
  "     |\n" ++
    Log.Layout.apply { width := 4, alignment := .right } (Nat.repr diagnostic.line) ++
    " | " ++ String.ofList (shownLine line) ++ "\n" ++
    "     | " ++ String.ofList (List.replicate (diagnostic.column - 1) ' ') ++ "^"

/--
The cause, the place, and the quoted line with a mark under the column, for a
diagnostic about one of the lines of a source.
-/
def render (diagnostic : Diagnostic) (file : String) (lines : List (List Char)) : String :=
  diagnostic.cause.message ++ "\n --> " ++ file ++ ":" ++
    Nat.repr diagnostic.line ++ ":" ++ Nat.repr diagnostic.column ++ "\n" ++
    match lines[diagnostic.line - 1]? with
    | none => ""
    | some line => diagnostic.quotation line

end Diagnostic

end RegisterMachine.Assembly
