import RegisterMachine.Text.Blank

namespace RegisterMachine.Assembly

/-!
# Tokens of a source line

The code of a line is what stands before the first comment mark.  Its tokens
are the maximal runs of characters that are neither commas nor blank.  A token
remembers the column where it starts, counted in UTF-8 bytes from one.
-/

/-- A run of characters of a line, with the byte column of its first character. -/
structure Token where
  text : String
  column : Nat
  deriving Repr, DecidableEq

/-- Whether a character starts a comment. -/
def isCommentMark (character : Char) : Bool :=
  character == ';' || character == '#'

/-- Whether a character stands between tokens. -/
def isSeparator (character : Char) : Bool :=
  character == ',' || Text.isBlank character

/-- Whether a character can be part of a token. -/
def isTokenCharacter (character : Char) : Bool :=
  !isSeparator character

/-- Number of UTF-8 bytes that characters take. -/
def byteWidth : List Char → Nat
  | [] => 0
  | character :: rest => character.utf8Size + byteWidth rest

/-- The part of a line before its comment. -/
def codePart (line : List Char) : List Char :=
  line.takeWhile fun character => !isCommentMark character

/-- The tokens of characters whose first one stands at a column. -/
def tokensFrom (column : Nat) : List Char → List Token
  | [] => []
  | character :: rest =>
      if isSeparator character then
        tokensFrom (column + character.utf8Size) rest
      else
        let run := character :: rest.takeWhile isTokenCharacter
        ⟨String.ofList run, column⟩ ::
          tokensFrom (column + byteWidth run) (rest.dropWhile isTokenCharacter)
  termination_by characters => characters.length
  decreasing_by
    · simp
    · simp only [List.length_cons]
      exact Nat.lt_succ_of_le (List.dropWhile_suffix isTokenCharacter).length_le

/-- The tokens of a line, left to right. -/
def tokens (line : List Char) : List Token :=
  tokensFrom 1 (codePart line)

/-- No token is empty. -/
theorem text_ne_empty_of_mem_tokensFrom {column : Nat} {characters : List Char}
    {token : Token} (member : token ∈ tokensFrom column characters) :
    token.text ≠ "" := by
  fun_induction tokensFrom column characters with
  | case1 => simp at member
  | case2 column character rest separator inductionHypothesis =>
      exact inductionHypothesis member
  | case3 column character rest separator run inductionHypothesis =>
      rcases List.mem_cons.mp member with same | later
      · subst same
        simp [run]
      · exact inductionHypothesis later

end RegisterMachine.Assembly
