import RegisterMachine.Proofs.Assembly.Placement
import RegisterMachine.Proofs.Assembly.Words

namespace RegisterMachine.Assembly

/-!
# Cutting a line between tokens

A separator at the end of a line changes none of its tokens, and the characters
before a token have the tokens before it.
-/

/-- The longest part from the start that takes at most a number of UTF-8 bytes. -/
def takeBytes (count : Nat) : List Char → List Char
  | [] => []
  | character :: rest =>
      if character.utf8Size ≤ count then
        character :: takeBytes (count - character.utf8Size) rest
      else
        []

theorem takeBytes_byteWidth (first rest : List Char) :
    takeBytes (byteWidth first) (first ++ rest) = first := by
  induction first with
  | nil =>
      cases rest with
      | nil =>
          rfl
      | cons character rest =>
          have positive := character.utf8Size_pos
          rw [byteWidth, List.nil_append, takeBytes, if_neg (by omega)]
  | cons character others inductionHypothesis =>
      rw [byteWidth, List.cons_append, takeBytes,
        if_pos (Nat.le_add_right _ _), Nat.add_sub_cancel_left,
        inductionHypothesis]

theorem takeBytes_isPrefix
    (count : Nat)
    (characters : List Char) :
    takeBytes count characters <+: characters := by
  induction characters generalizing count with
  | nil =>
      exact List.prefix_refl []
  | cons character rest inductionHypothesis =>
      rw [takeBytes]
      split
      · exact (List.prefix_cons_inj character).mpr (inductionHypothesis _)
      · exact List.nil_prefix

theorem byteWidth_append (first second : List Char) :
    byteWidth (first ++ second) = byteWidth first + byteWidth second := by
  induction first with
  | nil =>
      exact (Nat.zero_add _).symm
  | cons character rest inductionHypothesis =>
      rw [List.cons_append, byteWidth, byteWidth, inductionHypothesis,
        Nat.add_assoc]

section Tokens

/-- No token goes on where the first character separates. -/
theorem takeWhile_eq_nil
    {characters : List Char}
    (separated : ∀ character, characters.head? = some character →
      isTokenCharacter character = false) :
    characters.takeWhile isTokenCharacter = [] := by
  cases characters with
  | nil =>
      rfl
  | cons character rest =>
      rw [List.takeWhile_cons, separated character rfl]
      rfl

theorem separates_of_head?_dropWhile
    {characters : List Char}
    {character : Char}
    (first : (characters.dropWhile isTokenCharacter).head? = some character) :
    isTokenCharacter character = false := by
  have separates := List.head?_dropWhile_not isTokenCharacter characters
  rw [first] at separates
  exact separates

private theorem tokensFrom_run
    {character : Char}
    {rest behind : List Char}
    (notSeparator : ¬ isSeparator character = true)
    (separated : behind.takeWhile isTokenCharacter = [])
    (column : Nat) :
    let run := character :: rest.takeWhile isTokenCharacter
    tokensFrom column (run ++ behind) =
      ⟨String.ofList run, column⟩ ::
        tokensFrom (column + byteWidth run) behind := by
  refine tokensFrom_word (List.cons_ne_nil _ _) ?_ separated column
  refine List.forall_mem_cons.mpr ⟨?_, ?_⟩
  · rw [isTokenCharacter, (Bool.not_eq_true _).mp notSeparator]
    rfl
  · exact List.all_eq_true.mp List.all_takeWhile

/-- A separator at the end adds no token. -/
theorem tokensFrom_append_separator
    {separator : Char}
    (separates : isSeparator separator = true)
    (column : Nat)
    (characters : List Char) :
    tokensFrom column (characters ++ [separator]) =
      tokensFrom column characters := by
  fun_induction tokensFrom column characters with
  | case1 column =>
      rw [List.nil_append, tokensFrom, if_pos separates, tokensFrom]
  | case2 column character rest here inductionHypothesis =>
      rw [List.cons_append, tokensFrom, if_pos here, inductionHypothesis]
  | case3 column character rest notHere run inductionHypothesis =>
      have whole : character :: rest ++ [separator] =
          run ++ (rest.dropWhile isTokenCharacter ++ [separator]) := by
        rw [← List.append_assoc]
        exact congrArg (character :: · ++ [separator])
          List.takeWhile_append_dropWhile.symm
      have separated :
          (rest.dropWhile isTokenCharacter ++ [separator]).takeWhile
            isTokenCharacter = [] := by
        refine takeWhile_eq_nil fun first isFirst => ?_
        cases shape : rest.dropWhile isTokenCharacter with
        | nil =>
            rw [shape] at isFirst
            cases isFirst
            rw [isTokenCharacter, separates]
            rfl
        | cons other others =>
            apply separates_of_head?_dropWhile
            rw [shape] at isFirst ⊢
            exact isFirst
      rw [whole, tokensFrom_run notHere separated, inductionHypothesis]

/-- The characters before a token have the tokens before it. -/
theorem exists_split_of_tokensFrom
    {column : Nat}
    {characters : List Char}
    {earlier later : List Token}
    {token : Token}
    (found : tokensFrom column characters = earlier ++ token :: later) :
    ∃ before after, characters = before ++ after ∧
      token.column = column + byteWidth before ∧
      tokensFrom column before = earlier := by
  fun_induction tokensFrom column characters generalizing earlier with
  | case1 column =>
      exact (List.append_ne_nil_of_right_ne_nil _ (List.cons_ne_nil _ _)
        found.symm).elim
  | case2 column character rest here inductionHypothesis =>
      obtain ⟨before, after, rfl, place, tokens⟩ := inductionHypothesis found
      refine ⟨character :: before, after, rfl, ?_, ?_⟩
      · rw [place, byteWidth, Nat.add_assoc]
      · rw [tokensFrom, if_pos here, tokens]
  | case3 column character rest notHere run =>
      rename_i inductionHypothesis
      cases earlier with
      | nil =>
          refine ⟨[], character :: rest, rfl, ?_, by rw [tokensFrom]⟩
          obtain ⟨rfl, _⟩ := List.cons.inj found
          rfl
      | cons first others =>
          obtain ⟨rfl, foundLater⟩ := List.cons.inj found
          obtain ⟨before, after, split, place, tokens⟩ :=
            inductionHypothesis foundLater
          have separated : before.takeWhile isTokenCharacter = [] := by
            refine takeWhile_eq_nil fun first isFirst => ?_
            apply separates_of_head?_dropWhile
            rw [split, List.head?_append, isFirst]
            rfl
          refine ⟨run ++ before, after, ?_, ?_, ?_⟩
          · rw [List.append_assoc, ← split]
            exact congrArg (character :: ·)
              List.takeWhile_append_dropWhile.symm
          · rw [place, byteWidth_append, Nat.add_assoc]
          · rw [tokensFrom_run notHere separated, tokens]

end Tokens

/-- A carriage return at the end of a line adds no token. -/
theorem tokens_append_return (line : List Char) :
    tokens (line ++ ['\r']) = tokens line := by
  have separates : isSeparator '\r' = true := by decide
  rw [tokens, tokens, codePart, List.takeWhile_append]
  split
  · next whole =>
      have uncommented :
          line.takeWhile (fun character => !isCommentMark character) = line :=
        (List.takeWhile_prefix _).eq_of_length whole
      rw [codePart, uncommented]
      exact tokensFrom_append_separator separates 1 line
  · rfl

theorem tokens_dropReturn (piece : List Char) :
    tokens (Text.dropReturn piece) = tokens piece := by
  rw [Text.dropReturn]
  split
  · next ended =>
      obtain ⟨line, rfl⟩ := List.getLast?_eq_some_iff.mp ended
      rw [List.dropLast_concat, tokens_append_return]
  · rfl

/-- The part of a line before its first token that defines no label. -/
def beforeInstruction (line : List Char) : List Char :=
  match instructionTokens line with
  | [] => line
  | token :: _ => takeBytes (token.column - 1) line

theorem beforeInstruction_isPrefix (line : List Char) :
    beforeInstruction line <+: line := by
  rw [beforeInstruction]
  split
  · exact List.prefix_refl line
  · exact takeBytes_isPrefix _ line

/-- What stands before the instruction of a line has the labels of the line. -/
theorem tokens_beforeInstruction (line : List Char) :
    tokens (beforeInstruction line) =
      (tokens line).takeWhile fun token => isDefinition token.text := by
  have whole : (tokens line).takeWhile (fun token => isDefinition token.text) ++
      instructionTokens line = tokens line :=
    List.takeWhile_append_dropWhile
  rw [beforeInstruction]
  split
  · next none =>
      rw [none, List.append_nil] at whole
      exact whole.symm
  · next token others shape =>
      rw [shape, tokens] at whole
      obtain ⟨before, after, split, place, earlier⟩ :=
        exists_split_of_tokensFrom whole.symm
      have inLine : line = before ++
          (after ++ line.dropWhile fun character => !isCommentMark character) := by
        rw [← List.append_assoc, ← split, codePart,
          List.takeWhile_append_dropWhile]
      have cut : takeBytes (token.column - 1) line = before := by
        rw [place, Nat.add_sub_cancel_left, inLine, takeBytes_byteWidth]
      have uncommented : codePart before = before := by
        rw [codePart, List.takeWhile_eq_self_iff]
        intro character member
        have inCode : character ∈ codePart line := by
          rw [split]
          exact List.mem_append_left _ member
        exact List.all_eq_true.mp List.all_takeWhile character inCode
      rw [cut, tokens, uncommented, earlier, tokens]

end RegisterMachine.Assembly
