namespace RegisterMachine.Text

/-!
# Blank characters

The characters with the Unicode property `White_Space`.  Every character that
the ASCII test `Char.isWhitespace` accepts is among them (`isBlank_of_isWhitespace`).
-/

/-- The code points with the Unicode property `White_Space`. -/
def blankCodePoints : List Nat :=
  [0x09, 0x0A, 0x0B, 0x0C, 0x0D, 0x20, 0x85, 0xA0, 0x1680,
    0x2000, 0x2001, 0x2002, 0x2003, 0x2004, 0x2005, 0x2006, 0x2007, 0x2008,
    0x2009, 0x200A, 0x2028, 0x2029, 0x202F, 0x205F, 0x3000]

/-- Whether a character has the property `White_Space`. -/
def isBlank (character : Char) : Bool :=
  blankCodePoints.contains character.toNat

/-- The characters without the blank ones at both ends. -/
def trimBlank (characters : List Char) : List Char :=
  ((characters.dropWhile isBlank).reverse.dropWhile isBlank).reverse

/-- ASCII whitespace is blank. -/
theorem isBlank_of_isWhitespace {character : Char}
    (whitespace : character.isWhitespace = true) :
    isBlank character = true := by
  simp only [Char.isWhitespace, Bool.or_eq_true, decide_eq_true_eq] at whitespace
  rcases whitespace with ((same | same) | same) | same <;> subst same <;> decide

end RegisterMachine.Text
