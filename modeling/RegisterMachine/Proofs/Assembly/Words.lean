import Mathlib.Data.List.TakeWhile
import RegisterMachine.Image.Listing
import RegisterMachine.Proofs.Assembly.Denotation
import RegisterMachine.Proofs.Text.Numeral

namespace RegisterMachine.Assembly

/-!
# Tokens of shown instructions

The text of an instruction is its mnemonic and its operands, joined by blanks.
All of them are words of letters, digits and `_`, so that the tokens of the text
are these words again, and each word stands for what it was shown for.
-/

/-- A text of at least one letter, digit or `_`. -/
def IsWord (text : String) : Prop :=
  text.toList ≠ [] ∧ ∀ character ∈ text.toList, isNameCharacter character = true

private theorem toNat_of_isNameCharacter
    {character : Char}
    (named : isNameCharacter character = true) :
    character.toNat < 123 ∧
      (48 ≤ character.toNat ∧ character.toNat ≤ 57 ∨
        65 ≤ character.toNat ∧ character.toNat ≤ 90 ∨
        character.toNat = 95 ∨ 97 ≤ character.toNat) := by
  delta isNameCharacter Char.isAlphanum Char.isAlpha Char.isUpper Char.isLower
    Char.isDigit at named
  simp only [Bool.or_eq_true, Bool.and_eq_true, decide_eq_true_eq,
    beq_iff_eq] at named
  rcases named with (((⟨low, high⟩ | ⟨low, high⟩) | ⟨low, high⟩) | rfl)
  · have lower : 65 ≤ character.toNat := low
    have upper : character.toNat ≤ 90 := high
    omega
  · have lower : 97 ≤ character.toNat := low
    have upper : character.toNat ≤ 122 := high
    omega
  · have lower : 48 ≤ character.toNat := low
    have upper : character.toNat ≤ 57 := high
    omega
  · decide

private theorem blankCodePoints_of_word :
    ∀ codePoint < 123,
      (48 ≤ codePoint ∧ codePoint ≤ 57 ∨ 65 ≤ codePoint ∧ codePoint ≤ 90 ∨
        codePoint = 95 ∨ 97 ≤ codePoint) →
      Text.blankCodePoints.contains codePoint = false := by
  decide

/-- A character of a word neither ends a token nor starts a comment. -/
theorem plain_of_isNameCharacter
    {character : Char}
    (named : isNameCharacter character = true) :
    isTokenCharacter character = true ∧ isCommentMark character = false ∧
      character ≠ '\n' ∧ character ≠ '\r' ∧ character ≠ ':' := by
  obtain ⟨bound, range⟩ := toNat_of_isNameCharacter named
  have notBlank : Text.isBlank character = false :=
    blankCodePoints_of_word character.toNat bound range
  have differs : ∀ other : Char,
      ¬ (48 ≤ other.toNat ∧ other.toNat ≤ 57 ∨
          65 ≤ other.toNat ∧ other.toNat ≤ 90 ∨
          other.toNat = 95 ∨ 97 ≤ other.toNat) →
        character ≠ other := by
    rintro other outside rfl
    exact outside range
  have notComma : character ≠ ',' := differs ',' (by decide)
  have notSemicolon : character ≠ ';' := differs ';' (by decide)
  have notHash : character ≠ '#' := differs '#' (by decide)
  refine ⟨?_, ?_, differs '\n' (by decide), differs '\r' (by decide),
    differs ':' (by decide)⟩
  · simp [isTokenCharacter, isSeparator, notBlank, notComma]
  · simp [isCommentMark, notSemicolon, notHash]

section Tokens

/-- A word in front of a separator, or of the end, is one token. -/
theorem tokensFrom_word
    {word rest : List Char}
    (notEmpty : word ≠ [])
    (plain : ∀ character ∈ word, isTokenCharacter character = true)
    (separated : rest.takeWhile isTokenCharacter = [])
    (column : Nat) :
    tokensFrom column (word ++ rest) =
      ⟨String.ofList word, column⟩ ::
        tokensFrom (column + byteWidth word) rest := by
  cases word with
  | nil =>
      exact (notEmpty rfl).elim
  | cons first others =>
      obtain ⟨firstPlain, othersPlain⟩ := List.forall_mem_cons.mp plain
      have notSeparator : isSeparator first = false := by
        rw [← Bool.not_eq_true', ← isTokenCharacter]
        exact firstPlain
      have run : (others ++ rest).takeWhile isTokenCharacter = others := by
        rw [List.takeWhile_append_of_pos othersPlain, separated,
          List.append_nil]
      have behind : (others ++ rest).dropWhile isTokenCharacter = rest := by
        have whole : (others ++ rest).takeWhile isTokenCharacter ++
            (others ++ rest).dropWhile isTokenCharacter = others ++ rest :=
          List.takeWhile_append_dropWhile
        rw [run] at whole
        exact List.append_cancel_left whole
      rw [List.cons_append, tokensFrom, notSeparator, run, behind]
      rfl

theorem text_tokensFrom_words
    {words : List String}
    (areWords : ∀ word ∈ words, IsWord word)
    (column : Nat) :
    (tokensFrom column (words.flatMap fun word => ' ' :: word.toList)).map
        Token.text =
      words := by
  induction words generalizing column with
  | nil =>
      rw [List.flatMap_nil, tokensFrom, List.map_nil]
  | cons word rest inductionHypothesis =>
      obtain ⟨⟨notEmpty, named⟩, restWords⟩ := List.forall_mem_cons.mp areWords
      have separated :
          (rest.flatMap fun word => ' ' :: word.toList).takeWhile
            isTokenCharacter = [] := by
        cases rest <;> rfl
      have blank : isSeparator ' ' = true := by decide
      rw [List.flatMap_cons, List.cons_append, tokensFrom, if_pos blank,
        tokensFrom_word notEmpty
          (fun character member =>
            (plain_of_isNameCharacter (named character member)).1)
          separated,
        List.map_cons, inductionHypothesis restWords, String.ofList_toList]

/-- A text that can be a token is the first one in front of words joined by blanks. -/
theorem exists_tokens_words
    {first : String}
    {others : List String}
    (notEmpty : first.toList ≠ [])
    (plain : ∀ character ∈ first.toList,
      isTokenCharacter character = true ∧ isCommentMark character = false)
    (otherWords : ∀ word ∈ others, IsWord word) :
    ∃ rest,
      tokens (first.toList ++ others.flatMap fun word => ' ' :: word.toList) =
          ⟨first, 1⟩ :: rest ∧
        rest.map Token.text = others := by
  have uncommented :
      codePart (first.toList ++
          others.flatMap fun word => ' ' :: word.toList) =
        first.toList ++ others.flatMap fun word => ' ' :: word.toList := by
    rw [codePart, List.takeWhile_eq_self_iff]
    intro character member
    rw [Bool.not_eq_true']
    rcases List.mem_append.mp member with inFirst | inOthers
    · exact (plain character inFirst).2
    · obtain ⟨word, inWords, inWord⟩ := List.mem_flatMap.mp inOthers
      rcases List.mem_cons.mp inWord with rfl | inside
      · decide
      · exact (plain_of_isNameCharacter
          ((otherWords word inWords).2 character inside)).2.1
  have separated :
      (others.flatMap fun word => ' ' :: word.toList).takeWhile
        isTokenCharacter = [] := by
    cases others <;> rfl
  refine ⟨_, ?_, text_tokensFrom_words otherWords (1 + byteWidth first.toList)⟩
  rw [tokens, uncommented,
    tokensFrom_word notEmpty (fun character member => (plain character member).1)
      separated,
    String.ofList_toList]

/-- The tokens of words joined by blanks are the words. -/
theorem text_tokens_words
    {first : String}
    {others : List String}
    (firstWord : IsWord first)
    (otherWords : ∀ word ∈ others, IsWord word) :
    (tokens (first.toList ++
        others.flatMap fun word => ' ' :: word.toList)).map Token.text =
      first :: others := by
  obtain ⟨notEmpty, named⟩ := firstWord
  have plain : ∀ character ∈ first.toList,
      isTokenCharacter character = true ∧ isCommentMark character = false := by
    intro character member
    obtain ⟨inToken, noMark, _⟩ := plain_of_isNameCharacter (named character member)
    exact ⟨inToken, noMark⟩
  obtain ⟨rest, split, shown⟩ := exists_tokens_words notEmpty plain otherWords
  rw [split, List.map_cons, shown]

theorem isDefinition_of_isWord
    {text : String}
    (word : IsWord text) :
    isDefinition text = false := by
  rw [isDefinition, Bool.and_eq_false_imp]
  intro colon
  have member := List.mem_of_getLast? (beq_iff_eq.mp colon)
  exact ((plain_of_isNameCharacter (word.2 ':' member)).2.2.2.2 rfl).elim

end Tokens

section Operands

private theorem isNameCharacter_of_mem_toDigits
    {character : Char}
    {number : Nat}
    (member : character ∈ Nat.toDigits 10 number) :
    isNameCharacter character = true := by
  have digit : character.isDigit = true :=
    Nat.isDigit_of_mem_toDigits (by decide) (by decide) member
  rw [isNameCharacter, Char.isAlphanum, digit, Bool.or_true, Bool.true_or]

private theorem toList_text_register (index : UInt8) :
    (Operand.register index).text.toList =
      'R' :: Nat.toDigits 10 index.toNat := by
  rw [Operand.text, String.toList_append, Nat.toList_repr]
  rfl

private theorem toList_text_word (value : UInt64) :
    (Operand.word value).text.toList = Nat.toDigits 10 value.toNat := by
  rw [Operand.text, Nat.toList_repr]

theorem isWord_text (operand : Operand) : IsWord operand.text := by
  cases operand with
  | register index =>
      rw [IsWord, toList_text_register]
      refine ⟨List.cons_ne_nil _ _, List.forall_mem_cons.mpr ⟨by decide, ?_⟩⟩
      exact fun character => isNameCharacter_of_mem_toDigits
  | word value =>
      rw [IsWord, toList_text_word]
      exact ⟨Nat.toDigits_ne_nil, fun character =>
        isNameCharacter_of_mem_toDigits⟩

theorem isWord_mnemonic (opcode : Opcode) : IsWord opcode.mnemonic := by
  cases opcode <;> exact ⟨by decide, List.all_eq_true.mp (by decide)⟩

/-- An instruction is found by its mnemonic. -/
theorem ofName?_mnemonic (opcode : Opcode) :
    Opcode.ofName? opcode.mnemonic = some opcode := by
  cases opcode <;> decide +kernel

theorem register?_text
    {index : UInt8}
    (low : index.toNat < registerCount) :
    register? (Operand.register index).text = some index := by
  have read :
      Text.Numeral.readBelow? registerCount 10
        (Nat.toDigits 10 index.toNat) = some index.toNat :=
    Text.Numeral.readBelow?_toDigits (by decide) (by decide) low
  simp only [register?, toList_text_register, true_or, ↓reduceIte, read, Option.map_some,
    UInt8.ofNat_toNat]

/-- Without a sign first and a mark behind a zero, a token is read in decimal. -/
theorem number?_of_unmarked
    {token : String}
    (noSign : ∀ rest, token.toList ≠ '-' :: rest)
    (noMark : ∀ mark rest, token.toList = '0' :: mark :: rest →
      ¬ (mark = 'x' ∨ mark = 'X' ∨ mark = 'b' ∨ mark = 'B')) :
    number? token = number?.word? 10 token.toList := by
  unfold number?
  split
  · next shape =>
      exact (noSign _ shape).elim
  · next shape =>
      exact (noMark _ _ shape (by decide)).elim
  · next shape =>
      exact (noMark _ _ shape (by decide)).elim
  · next shape =>
      exact (noMark _ _ shape (by decide)).elim
  · next shape =>
      exact (noMark _ _ shape (by decide)).elim
  · rfl

private theorem number?_of_digits
    {token : String}
    (digits : ∀ character ∈ token.toList, character.isDigit = true) :
    register? token = none ∧
      number? token = number?.word? 10 token.toList := by
  constructor
  · unfold register?
    split
    · rfl
    · next letter rest shape =>
        have digit := digits letter (shape ▸ List.mem_cons_self)
        split
        · next isLetter =>
            rcases isLetter with rfl | rfl <;> cases digit
        · rfl
  · apply number?_of_unmarked
    · intro rest shape
      cases digits '-' (shape ▸ List.mem_cons_self)
    · intro mark rest shape isMark
      have digit := digits mark
        (shape ▸ List.mem_cons_of_mem _ List.mem_cons_self)
      rcases isMark with rfl | rfl | rfl | rfl <;> cases digit

/-- The text of a word denotes the word, and names no register. -/
theorem number?_text (value : UInt64) :
    register? (Operand.word value).text = none ∧
      number? (Operand.word value).text = some value := by
  have digits :
      ∀ character ∈ (Operand.word value).text.toList,
        character.isDigit = true := by
    rw [toList_text_word]
    exact fun character => Nat.isDigit_of_mem_toDigits (by decide) (by decide)
  obtain ⟨notRegister, number⟩ := number?_of_digits digits
  refine ⟨notRegister, ?_⟩
  rw [number, toList_text_word, number?.word?,
    Text.Numeral.readBelow?_toDigits (by decide) (by decide) value.toNat_lt,
    Option.map_some, UInt64.ofNat_toNat]

/-- The text of an operand stands for the operand. -/
theorem denotes_text
    {address : String → Option Nat}
    {token : Token}
    {operand : Operand}
    (direct : operand.IsDirect)
    (shown : token.text = operand.text) :
    Denotes address operand.kind token operand := by
  cases operand with
  | register index =>
      exact .register (by rw [shown, register?_text direct]) direct
  | word value =>
      obtain ⟨notRegister, number⟩ := number?_text value
      exact .number (by rw [shown, notRegister]) (by rw [shown, number])

theorem denoteAll_text
    {address : String → Option Nat}
    {arguments : List Token}
    {operands : List Operand}
    (direct : ∀ operand ∈ operands, operand.IsDirect)
    (shown : arguments.map Token.text = operands.map Operand.text) :
    DenoteAll address (operands.map Operand.kind) arguments operands := by
  induction operands generalizing arguments with
  | nil =>
      obtain rfl := List.map_eq_nil_iff.mp shown
      exact .nil
  | cons operand rest inductionHypothesis =>
      obtain ⟨first, restDirect⟩ := List.forall_mem_cons.mp direct
      obtain ⟨token, others, rfl, same, sameOthers⟩ :=
        List.map_eq_cons_iff.mp shown
      exact .cons (denotes_text first same)
        (inductionHypothesis restDirect sameOthers)

end Operands

end RegisterMachine.Assembly
