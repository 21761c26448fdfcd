import RegisterMachine.Assembly.Layout

namespace RegisterMachine.Assembly

/-!
# Assembling a source

A source becomes a program image and the list of what was skipped.  The first
token that is no register, where one has to stand, ends the assembly instead.
Diagnostics are listed by line and, within a line, by column.
-/

/-- A program image, with one diagnostic for each error that was skipped. -/
structure Assembled where
  image : List UInt8
  diagnostics : List Diagnostic
  deriving Repr, DecidableEq

/-- Why a source has no image. -/
inductive Failure where
  /-- An error that ends the assembly, after the skipped ones met before it. -/
  | aborted (fatal : Diagnostic) (skipped : List Diagnostic)
  /-- A label in use had no offset. -/
  | unplaced (label : String)
  deriving Repr, DecidableEq

/-- The text of a failed assembly: that of the error that ended it. -/
def Failure.message : Failure → String
  | .aborted fatal _ => fatal.message
  | .unplaced label => (SyntaxError.undefinedLabel label).message

/-- The diagnostic of a label whose name is not an identifier. -/
def misnamedLabel (line : Nat) (label : Token) : Diagnostic :=
  ⟨line, label.column, .invalidLabel label.text⟩

/-- The errors of a line that reading it alone shows, left to right. -/
def Line.readingErrors (line : Line) : List Diagnostic :=
  line.misnamed.map (misnamedLabel line.number) ++ line.rejection?.toList

/-- The errors in the labels of a line, given the names that are defined before. -/
def labelErrors (line : Nat) (earlier : List String) : List Token → List Diagnostic
  | [] => []
  | label :: rest =>
      if isLabelName label.text then
        if earlier.contains label.text then
          ⟨line, label.column, .duplicateLabel label.text⟩ ::
            labelErrors line earlier rest
        else
          labelErrors line (label.text :: earlier) rest
      else
        misnamedLabel line label :: labelErrors line earlier rest

/-- The errors of lines, given the names that are defined before them. -/
def errorsFrom (earlier : List String) : List Line → List Diagnostic
  | [] => []
  | line :: rest =>
      labelErrors line.number earlier line.labels ++ line.rejection?.toList ++
        errorsFrom (line.definitions.map Token.text ++ earlier) rest

/-- The first error that ends the assembly, with the errors read before it. -/
def abortion? : List Line → Option (Diagnostic × List Diagnostic)
  | [] => none
  | line :: rest =>
      match line.fatal? with
      | some fatal => some (fatal, line.misnamed.map (misnamedLabel line.number))
      | none =>
          (abortion? rest).map fun (fatal, skipped) =>
            (fatal, line.readingErrors ++ skipped)

/-- Assemble lines none of which ends the assembly. -/
def assembleLines (lines : List Line) : Except Failure Assembled :=
  let resolved := resolve lines
  match encodeAll (offsetsFrom 0 resolved) (resolved.filterMap Line.statement?) with
  | .error label => .error (.unplaced label)
  | .ok image => .ok ⟨image, errorsFrom [] resolved⟩

/-- Assemble a source text. -/
def assemble (source : String) : Except Failure Assembled :=
  let lines := readSource source
  match abortion? lines with
  | some (fatal, skipped) => .error (.aborted fatal skipped)
  | none => assembleLines lines

/-- The log records of an assembly: a warning for each skipped error, then the fatal one. -/
def report (file source : String) (result : Except Failure Assembled) : List Log.Record :=
  let lines := Text.lines source.toList
  match result with
  | .ok assembly =>
      assembly.diagnostics.map fun diagnostic => .warn (diagnostic.render file lines)
  | .error (.aborted fatal skipped) =>
      skipped.map (fun diagnostic => .warn (diagnostic.render file lines)) ++
        [.error (fatal.render file lines)]
  | .error (.unplaced _) => []

/-- The file name shown for a source that is not from a file. -/
def unnamedFile : String := "<source>"

end RegisterMachine.Assembly
