import RegisterMachine.Template.Positional
import RegisterMachine.Text.Numeral

namespace RegisterMachine.Template

/-!
# Error types from templates

An error type is described by its name, its variants or fields, and a message
template for each.  Its expansion is the text of the implementation that
displays each value by its template, with the fields that the template names
handed over.  A field that the template does not name is not bound.

A template is given by an attribute, `#[error("..")]`.  Attributes come here as
they were parsed.
-/

/-- A literal; only the text of a string can be a template. -/
inductive Literal where
  | text (value : String)
  | other
  deriving Repr, DecidableEq

/-- What follows the name of an attribute. -/
inductive AttributeContent where
  /-- Nothing follows, as in `#[name]`. -/
  | absent
  /-- A value follows, as in `#[name = value]`. -/
  | value
  /-- Brackets follow; what they hold is one literal, or something else. -/
  | list (content : Option Literal)
  deriving Repr, DecidableEq

/-- An attribute; the name is `none` when it is not a single name. -/
structure Attribute where
  name : Option String
  content : AttributeContent
  deriving Repr, DecidableEq

/-- The fields of a structure or of a variant. -/
inductive Fields where
  /-- No fields and no brackets. -/
  | unit
  /-- Fields by position. -/
  | tuple (count : Nat)
  /-- Fields by name. -/
  | named (names : List String)
  deriving Repr, DecidableEq

/-- A variant of an error type. -/
structure Variant where
  name : String
  attributes : List Attribute
  fields : Fields
  deriving Repr, DecidableEq

/-- The form of an error type. -/
inductive Shape where
  | variants (variants : List Variant)
  | record (attributes : List Attribute) (fields : Fields)
  | overlay
  deriving Repr, DecidableEq

/-- The description of an error type. -/
structure ErrorType where
  name : String
  shape : Shape
  deriving Repr, DecidableEq

/-- Why a description has no expansion. -/
inductive ExpansionError where
  /-- Something has no attribute with a message. -/
  | missing (target : String)
  /-- The attribute has no list. -/
  | malformed
  /-- The list of the attribute is not one string literal. -/
  | notText
  /-- Fields that share their place cannot be displayed. -/
  | overlay
  deriving Repr, DecidableEq

/-- The text of an expansion error. -/
def ExpansionError.message : ExpansionError → String
  | .missing target => "missing #[error(\"...\")] attribute on " ++ target
  | .malformed => "invalid #[error] attribute; use #[error(\"message\")]"
  | .notText =>
      "#[error] expects a string literal, e.g. " ++
        "#[error(\"unknown opcode \x7bopcode\x7d\")]"
  | .overlay => "Error derive does not support unions"

/-- The template in the first attribute that gives a message. -/
def templateOf (attributes : List Attribute) (target : String) :
    Except ExpansionError String :=
  match attributes.find? fun candidate => candidate.name == some "error" with
  | none => .error (.missing target)
  | some chosen =>
      match chosen.content with
      | .list (some (.text template)) => .ok template
      | .list _ => .error .notText
      | _ => .error .malformed

/-- The indices below a count that a template names. -/
def usedIndices (template : String) (count : Nat) : List Nat :=
  (List.range count).filter fun index =>
    (placeholders template).contains (Nat.repr index)

/-- The names in a list that a template names. -/
def usedNames (template : String) (names : List String) : List String :=
  names.filter (placeholders template).contains

/-- Tokens with a space between two. -/
def spaced (tokens : List String) : String :=
  String.intercalate " " tokens

/-- Tokens in round brackets. -/
def parenthesized (tokens : List String) : String :=
  "(" ++ spaced tokens ++ ")"

/-- Tokens in braces. -/
def braced (tokens : List String) : String :=
  spaced ("\x7b" :: tokens ++ ["\x7d"])

/-- One character of a string literal. -/
def literalCharacter (character : Char) (nextIsDigit : Bool) : String :=
  match character with
  | '"' => "\\\""
  | '\\' => "\\\\"
  | '\n' => "\\n"
  | '\t' => "\\t"
  | '\r' => "\\r"
  | '\x00' => if nextIsDigit then "\\x00" else "\\0"
  | _ =>
      if character.toNat < 0x20 ∨ 0x7F ≤ character.toNat ∧ character.toNat < 0xA0 then
        "\\u\x7b" ++ Text.Numeral.hex 1 character.toNat ++ "\x7d"
      else
        character.toString

/-- Whether characters start with an octal digit. -/
def startsOctal (characters : List Char) : Bool :=
  characters.head?.any fun character => '0' ≤ character && character ≤ '7'

/-- The characters of a string literal. -/
def literalBody : List Char → String
  | [] => ""
  | character :: rest =>
      literalCharacter character (startsOctal rest) ++ literalBody rest

/-- A text as a string literal. -/
def literal (text : String) : String :=
  "\"" ++ literalBody text.toList ++ "\""

/-- Items with a separator between two. -/
def separated (separator : String) : List (List String) → List String
  | [] => []
  | [item] => item
  | item :: rest => item ++ separator :: separated separator rest

/-- The tokens that write a template with values handed over by name. -/
def writeCall (template : String) (values : Option (List (List String))) :
    List String :=
  ["write", "!", parenthesized (["f", ",", literal template] ++
    match values with
    | none => []
    | some values => "," :: separated "," values)]

/-- One value handed over under a name. -/
def handed (name : String) (value : List String) : List String :=
  name :: "=" :: value

/-- The binding of a field of a tuple: its name when it is used. -/
def tupleBinding (used : List Nat) (index : Nat) : List String :=
  [if used.contains index then fieldName index else "_"]

/-- The tokens of the arm that displays a variant. -/
def Variant.arm (variant : Variant) (template : String) : List String :=
  let target := ["Self", "::", variant.name]
  let (pattern, call) :=
    match variant.fields with
    | .unit => ([], writeCall template none)
    | .tuple count =>
        let used := usedIndices template count
        ([parenthesized (separated "," ((List.range count).map (tupleBinding used)))],
          writeCall (nameFields template count)
            (some (used.map fun index => handed (fieldName index) [fieldName index])))
    | .named names =>
        let used := usedNames template names
        ([braced (used.flatMap (fun name => [name, ","]) ++ [".."])],
          writeCall template (some (used.map fun name => handed name [name])))
  target ++ pattern ++ ["=>"] ++ call ++ [","]

/-- The tokens that display a structure with given fields. -/
def displayRecord (template : String) : Fields → List String
  | .unit => writeCall template none
  | .tuple count =>
      writeCall (nameFields template count)
        (some ((usedIndices template count).map fun index =>
          handed (fieldName index) ["self", ".", Nat.repr index]))
  | .named names =>
      writeCall template
        (some ((usedNames template names).map fun name =>
          handed name ["self", ".", name]))

/-- The arms of variants, up to the first variant without a template. -/
def arms : List Variant → Except ExpansionError (List String)
  | [] => .ok []
  | variant :: rest =>
      match templateOf variant.attributes ("variant `" ++ variant.name ++ "`") with
      | .error cause => .error cause
      | .ok template =>
          match arms rest with
          | .error cause => .error cause
          | .ok others => .ok (variant.arm template ++ others)

/-- The tokens of the body that displays a value of the type. -/
def ErrorType.display (type : ErrorType) : Except ExpansionError (List String) :=
  match type.shape with
  | .variants variants =>
      (arms variants).map fun arms => ["match", "self", braced arms]
  | .record attributes fields =>
      (templateOf attributes ("type `" ++ type.name ++ "`")).map fun template =>
        displayRecord template fields
  | .overlay => .error .overlay

/-- A path from the root of the standard library. -/
def standardPath (names : List String) : List String :=
  ("std" :: names).flatMap fun name => ["::", name]

/-- The tokens of the function that displays a value. -/
def displayFunction (body : List String) : List String :=
  ["fn", "fmt",
    parenthesized (["&", "self", ",", "f", ":", "&", "mut"] ++
      standardPath ["fmt", "Formatter"] ++ ["<", "'_", ">"]),
    "->"] ++ standardPath ["fmt", "Result"] ++ [braced body]

/-- The text of the implementation for an error type. -/
def ErrorType.expand (type : ErrorType) : Except ExpansionError String :=
  type.display.map fun body =>
    spaced (["impl"] ++ standardPath ["fmt", "Display"] ++
      ["for", type.name, braced (displayFunction body)] ++
      ["impl"] ++ standardPath ["error", "Error"] ++ ["for", type.name, braced []])

end RegisterMachine.Template
