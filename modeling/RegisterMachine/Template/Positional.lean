import RegisterMachine.Template.Placeholder

namespace RegisterMachine.Template

/-!
# Positional placeholders

The fields of a tuple have no names, so a template names them by index.  To
hand them over by name, an index that is a field gets the letter `f` in front
wherever a placeholder starts with it.
-/

/-- Every occurrence of a pattern replaced, left to right; the pattern is not empty. -/
def replaceAll (pattern replacement : List Char) : List Char → List Char
  | [] => []
  | character :: rest =>
      if pattern.isPrefixOf (character :: rest) then
        replacement ++ replaceAll pattern replacement (rest.drop (pattern.length - 1))
      else
        character :: replaceAll pattern replacement rest
  termination_by characters => characters.length
  decreasing_by
    · simp only [List.length_drop, List.length_cons]
      omega
    · simp

/-- The name under which the field of an index is handed over. -/
def fieldName (index : Nat) : String :=
  "f" ++ Nat.repr index

/-- A placeholder's opening brace, a name, and the character after the name. -/
def opening (name : String) (after : Char) : List Char :=
  openBrace :: name.toList ++ [after]

/-- The template with the placeholders of one index renamed. -/
def nameField (template : List Char) (index : Nat) : List Char :=
  let renamed (text : List Char) (after : Char) : List Char :=
    replaceAll (opening (Nat.repr index) after) (opening (fieldName index) after) text
  renamed (renamed template closeBrace) ':'

/-- The template with the placeholders of the indices below a count renamed. -/
def nameFields (template : String) (count : Nat) : String :=
  String.ofList ((List.range count).reverse.foldl nameField template.toList)

end RegisterMachine.Template
