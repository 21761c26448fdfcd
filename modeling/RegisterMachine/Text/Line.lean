namespace RegisterMachine.Text

/-!
# Lines of a text

A line ends at a line feed.  The line feed is not part of the line, and neither
is one carriage return just before it.  Text after the last line feed is a line
only when there is some, and a carriage return at its end stays.
-/

/-- The pieces of a text between its line feeds; at least one piece. -/
def pieces (characters : List Char) : List (List Char) :=
  characters.foldr
    (fun character later =>
      if character = '\n' then
        [] :: later
      else
        match later with
        | [] => [[character]]
        | piece :: rest => (character :: piece) :: rest)
    [[]]

/-- A piece without one carriage return at its end. -/
def dropReturn (piece : List Char) : List Char :=
  if piece.getLast? = some '\r' then piece.dropLast else piece

/-- The lines that pieces make: all but the last piece were ended by a line feed. -/
def linesOfPieces : List (List Char) → List (List Char)
  | [] => []
  | [last] => if last.isEmpty then [] else [last]
  | piece :: rest => dropReturn piece :: linesOfPieces rest

/-- The lines of a text, without their endings. -/
def lines (characters : List Char) : List (List Char) :=
  linesOfPieces (pieces characters)

/-- A text has at least one piece. -/
theorem pieces_ne_nil (characters : List Char) : pieces characters ≠ [] := by
  induction characters with
  | nil => simp [pieces]
  | cons character rest inductionHypothesis =>
      simp only [pieces, List.foldr_cons]
      split
      · simp
      · split <;> simp

/-- The empty text has no lines. -/
@[simp] theorem lines_nil : lines [] = [] := rfl

end RegisterMachine.Text
