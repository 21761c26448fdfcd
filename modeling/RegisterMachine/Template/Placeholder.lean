import RegisterMachine.Text.Blank

namespace RegisterMachine.Template

/-!
# Placeholders of a message template

A template is text with placeholders in braces.  A placeholder holds the name
of a value, and after a colon a format for it.  Two opening braces in a row
stand for one brace and open no placeholder.
-/

/-- The character that opens a placeholder. -/
def openBrace : Char := '\x7b'

/-- The character that closes a placeholder. -/
def closeBrace : Char := '\x7d'

/-- Whether a character belongs to the inside of a placeholder. -/
def isInside (character : Char) : Bool :=
  character != closeBrace

/-- The name at the start of the inside of a placeholder, without blanks around it. -/
def placeholderName (inside : List Char) : List Char :=
  Text.trimBlank (inside.takeWhile (· != ':'))

/-- The names in the placeholders of a template, in order; empty names are left out. -/
def scan : List Char → List String
  | [] => []
  | character :: rest =>
      if character = openBrace then
        if rest.head? = some openBrace then
          scan (rest.drop 1)
        else
          let name := placeholderName (rest.takeWhile isInside)
          let later := scan ((rest.dropWhile isInside).drop 1)
          if name.isEmpty then later else String.ofList name :: later
      else
        scan rest
  termination_by characters => characters.length
  decreasing_by
    · simp only [List.length_drop, List.length_cons]
      omega
    · have shorter := (List.dropWhile_suffix isInside (l := rest)).length_le
      simp only [List.length_drop, List.length_cons]
      omega
    · simp

/-- The names in the placeholders of a template text. -/
def placeholders (template : String) : List String :=
  scan template.toList

end RegisterMachine.Template
