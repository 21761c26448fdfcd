import Mathlib.Order.Nat
import RegisterMachine.Proofs.Assembly.Relocation

namespace RegisterMachine

/-!
# What is wrong with a line

The errors of a line, said about its tokens and without reading them step by
step.  The tokens behind the labels have to call an instruction with as many
arguments as it takes; the arguments have to be registers and words where the
catalog asks for them.  Since every layout has its registers before its words, a
bad register ends the assembly whatever the words of the line are
(`readBody_eq_rejected_iff`).
-/

namespace Opcode

/-- A name calls an instruction, where an ASCII letter matches in either case. -/
def IsCalled (opcode : Opcode) (name : String) : Prop :=
  name.map Char.toUpper ∈ opcode.names

/-- No two instructions have a name in common. -/
theorem eq_of_mem_names
    {first second : Opcode}
    {name : String}
    (namesFirst : name ∈ first.names)
    (namesSecond : name ∈ second.names) :
    first = second := by
  have distinct : ∀ first ∈ all, ∀ name ∈ first.names, ∀ second ∈ all,
      name ∈ second.names → first = second := by
    decide +kernel
  exact distinct first (mem_all first) name namesFirst second (mem_all second)
    namesSecond

theorem ofName?_eq_some_iff
    {name : String}
    {opcode : Opcode} :
    ofName? name = some opcode ↔ opcode.IsCalled name := by
  have sound : ∀ found, ofName? name = some found → found.IsCalled name := by
    intro found named
    have test := List.find?_some named
    exact List.contains_iff_mem.mp test
  constructor
  · exact sound opcode
  · intro called
    cases named : ofName? name with
    | none =>
        have unnamed := List.find?_eq_none.mp named opcode (mem_all opcode)
        exact (unnamed (List.contains_iff_mem.mpr called)).elim
    | some found =>
        exact congrArg some (eq_of_mem_names (sound found named) called)

theorem ofName?_eq_none_iff
    {name : String} :
    ofName? name = none ↔ ∀ opcode : Opcode, ¬ opcode.IsCalled name := by
  simp only [← ofName?_eq_some_iff, Option.eq_none_iff_forall_ne_some, ne_eq]

theorem IsCalled.unique
    {first second : Opcode}
    {name : String}
    (callsFirst : first.IsCalled name)
    (callsSecond : second.IsCalled name) :
    first = second :=
  eq_of_mem_names callsFirst callsSecond

/-- Every layout has its registers before its words. -/
theorem pairwise_layout (opcode : Opcode) :
    opcode.layout.Pairwise fun earlier later =>
      later = .register → earlier = .register := by
  cases opcode <;> decide

/-- Before a register of a layout there are only registers. -/
theorem kind_eq_register_of_le
    {opcode : Opcode}
    {earlier later : Nat}
    {kind : Operand.Kind}
    (inOrder : earlier ≤ later)
    (first : opcode.layout[earlier]? = some kind)
    (second : opcode.layout[later]? = some .register) :
    kind = .register := by
  rcases Nat.lt_or_eq_of_le inOrder with before | rfl
  · obtain ⟨_, isFirst⟩ := List.getElem?_eq_some_iff.mp first
    obtain ⟨_, isSecond⟩ := List.getElem?_eq_some_iff.mp second
    have ordered := List.pairwise_iff_getElem.mp opcode.pairwise_layout
      earlier later ‹_› ‹_› before
    exact isFirst.symm.trans (ordered isSecond)
  · exact Option.some.inj (first.symm.trans second)

end Opcode

namespace Assembly

/-- The tokens at the start of a line that define labels. -/
def definingTokens (line : List Char) : List Token :=
  (tokens line).takeWhile fun token => isDefinition token.text

/--
An instruction is called with as many arguments as it takes, and has this token
at a place where an operand of this kind is asked for.
-/
inductive ArgumentAt : List Token → Operand.Kind → Nat → Token → Prop where
  | intro {mnemonic token : Token} {arguments : List Token} {opcode : Opcode}
      {kind : Operand.Kind} {place : Nat} :
      opcode.IsCalled mnemonic.text →
      arguments.length = opcode.layout.length →
      opcode.layout[place]? = some kind →
      arguments[place]? = some token →
      ArgumentAt (mnemonic :: arguments) kind place token

/-- The token at the first place that has a property. -/
def IsFirst (holds : Nat → Token → Prop) (token : Token) : Prop :=
  ∃ place, holds place token ∧ ∀ other later, holds other later → place ≤ other

/-- An argument that has to be a register is none. -/
def BadRegister (tokens : List Token) (place : Nat) (token : Token) : Prop :=
  ArgumentAt tokens .register place token ∧ register? token.text = none

/-- Why a text is no word: it names a register, or is neither number nor label. -/
inductive WordError (text : String) : SyntaxError → Prop where
  | register :
      register? text ≠ none →
      WordError text (.expectedImmediate text)
  | neither :
      register? text = none →
      number? text = none →
      isLabelName text = false →
      WordError text (.invalidImmediate text)

/-- An argument that has to be a word is none. -/
def BadWord (tokens : List Token) (place : Nat) (token : Token) : Prop :=
  ArgumentAt tokens .word place token ∧ ∃ cause, WordError token.text cause

/-- An argument refers to a label that is not among the defined names. -/
def UndefinedUse (defined : List String) (tokens : List Token) (place : Nat)
    (token : Token) : Prop :=
  ArgumentAt tokens .word place token ∧ register? token.text = none ∧
    number? token.text = none ∧ token.text ∉ defined

/--
What is wrong with an instruction by itself, and its token where it is: the
first of these errors that applies.  A line with a bad register has none of them.
-/
inductive ReadingError (tokens : List Token) : Token → SyntaxError → Prop where
  | unknownMnemonic {mnemonic : Token} {arguments : List Token} :
      tokens = mnemonic :: arguments →
      (∀ opcode : Opcode, ¬ opcode.IsCalled mnemonic.text) →
      ReadingError tokens mnemonic (.unknownMnemonic mnemonic.text)
  | arityMismatch {mnemonic : Token} {arguments : List Token}
      {opcode : Opcode} :
      tokens = mnemonic :: arguments →
      opcode.IsCalled mnemonic.text →
      arguments.length ≠ opcode.layout.length →
      ReadingError tokens mnemonic
        (.arityMismatch opcode.mnemonic opcode.layout.length arguments.length)
  | word {token : Token} {cause : SyntaxError} :
      (∀ place other, ¬ BadRegister tokens place other) →
      IsFirst (BadWord tokens) token →
      WordError token.text cause →
      ReadingError tokens token cause

/--
What is wrong with an instruction of a source that defines these names: an error
that reading it shows, or else the first label that is not defined.
-/
inductive InstructionError (defined : List String) (tokens : List Token) :
    Token → SyntaxError → Prop where
  | reading {token : Token} {cause : SyntaxError} :
      ReadingError tokens token cause →
      InstructionError defined tokens token cause
  | undefinedLabel {token : Token} :
      (∀ other cause, ¬ ReadingError tokens other cause) →
      IsFirst (UndefinedUse defined tokens) token →
      InstructionError defined tokens token (.undefinedLabel token.text)

section Places

theorem exists_isFirst
    {holds : Nat → Token → Prop}
    {place : Nat}
    {token : Token}
    (found : holds place token) :
    ∃ first, IsFirst holds first := by
  classical
  have exists_place : ∃ place token, holds place token := ⟨place, token, found⟩
  obtain ⟨first, isHeld⟩ := Nat.find_spec exists_place
  exact ⟨first, Nat.find exists_place, isHeld, fun other later holdsLater =>
    Nat.find_min' exists_place ⟨later, holdsLater⟩⟩

theorem IsFirst.exists_place
    {holds : Nat → Token → Prop}
    {token : Token}
    (first : IsFirst holds token) :
    ∃ place, holds place token :=
  first.imp fun _ => And.left

theorem ArgumentAt.mem
    {tokens : List Token}
    {kind : Operand.Kind}
    {place : Nat}
    {token : Token}
    (argument : ArgumentAt tokens kind place token) :
    token ∈ tokens := by
  obtain ⟨_, _, _, tokenAt⟩ := argument
  exact List.mem_cons_of_mem _ (List.mem_of_getElem? tokenAt)

/-- The arguments of an instruction that is called are those behind its name. -/
theorem argumentAt_cons_iff
    {mnemonic token : Token}
    {arguments : List Token}
    {opcode : Opcode}
    {kind : Operand.Kind}
    {place : Nat}
    (called : opcode.IsCalled mnemonic.text)
    (sameLength : arguments.length = opcode.layout.length) :
    ArgumentAt (mnemonic :: arguments) kind place token ↔
      opcode.layout[place]? = some kind ∧ arguments[place]? = some token := by
  constructor
  · rintro ⟨calledToo, _, kindAt, tokenAt⟩
    obtain rfl := called.unique calledToo
    exact ⟨kindAt, tokenAt⟩
  · rintro ⟨kindAt, tokenAt⟩
    exact .intro called sameLength kindAt tokenAt

/-- A line with a bad register has no other error that reading it shows. -/
theorem ReadingError.not_badRegister
    {tokens : List Token}
    {token other : Token}
    {cause : SyntaxError}
    {place : Nat}
    (error : ReadingError tokens token cause) :
    ¬ BadRegister tokens place other := by
  rintro ⟨argument, noRegister⟩
  cases error with
  | unknownMnemonic shape unknown =>
      subst shape
      obtain ⟨called, _⟩ := argument
      exact unknown _ called
  | arityMismatch shape called otherLength =>
      subst shape
      obtain ⟨calledToo, sameLength, _⟩ := argument
      obtain rfl := called.unique calledToo
      exact otherLength sameLength
  | word noBadRegister =>
      exact noBadRegister place other ⟨argument, noRegister⟩

theorem ReadingError.mem
    {tokens : List Token}
    {token : Token}
    {cause : SyntaxError}
    (error : ReadingError tokens token cause) :
    token ∈ tokens := by
  cases error with
  | unknownMnemonic shape | arityMismatch shape =>
      subst shape
      exact List.mem_cons_self
  | word _ first _ =>
      obtain ⟨_, argument, _⟩ := first.exists_place
      exact argument.mem

/-- An instruction is in error at one of its tokens. -/
theorem InstructionError.mem
    {defined : List String}
    {tokens : List Token}
    {token : Token}
    {cause : SyntaxError}
    (error : InstructionError defined tokens token cause) :
    token ∈ tokens := by
  cases error with
  | reading error =>
      exact error.mem
  | undefinedLabel _ first =>
      obtain ⟨_, argument, _⟩ := first.exists_place
      exact argument.mem

end Places

section Reading

theorem readReference_register_eq_error_iff
    {token : Token}
    {cause : SyntaxError} :
    readReference .register token = .error cause ↔
      register? token.text = none ∧ cause = .invalidRegister token.text := by
  simp only [readReference]
  cases register? token.text with
  | none => simp [eq_comm]
  | some index => simp

theorem readReference_word_eq_error_iff
    {token : Token}
    {cause : SyntaxError} :
    readReference .word token = .error cause ↔ WordError token.text cause := by
  constructor
  · intro read
    simp only [readReference, readWord] at read
    split at read
    · next isRegister =>
        cases read
        exact .register (Option.isSome_iff_ne_none.mp isRegister)
    · next noRegister =>
        split at read
        · cases read
        · next noNumber =>
            split at read
            · cases read
            · next noName =>
                cases read
                exact .neither (Option.not_isSome_iff_eq_none.mp noRegister)
                  noNumber (Bool.eq_false_iff.mpr noName)
  · intro error
    cases error with
    | register isRegister =>
        simp only [readReference, readWord,
          Option.isSome_iff_ne_none.mpr isRegister, ↓reduceIte]
    | neither noRegister noNumber noName =>
        simp only [readReference, readWord, noRegister, noNumber, noName,
          Option.isSome_none, Bool.false_eq_true, ↓reduceIte]

/-- The token at a place is not read as an operand of the kind at this place. -/
def FailsAt (kinds : List Operand.Kind) (arguments : List Token) (place : Nat)
    (token : Token) (cause : SyntaxError) : Prop :=
  ∃ kind, kinds[place]? = some kind ∧ arguments[place]? = some token ∧
    readReference kind token = .error cause

theorem failsAt_zero_iff
    {kind : Operand.Kind}
    {kinds : List Operand.Kind}
    {token other : Token}
    {rest : List Token}
    {cause : SyntaxError} :
    FailsAt (kind :: kinds) (token :: rest) 0 other cause ↔
      token = other ∧ readReference kind token = .error cause := by
  simp only [FailsAt, List.getElem?_cons_zero, Option.some.injEq,
    exists_eq_left', and_congr_right_iff]
  rintro rfl
  rfl

/-- Operands are read one after the other, until one is in error. -/
theorem readReferences_cons_eq_error_iff
    {number : Nat}
    {kind : Operand.Kind}
    {kinds : List Operand.Kind}
    {token : Token}
    {rest : List Token}
    {diagnostic : Diagnostic} :
    readReferences number (kind :: kinds) (token :: rest) = .error diagnostic ↔
      (∃ cause, readReference kind token = .error cause ∧
        diagnostic = ⟨number, token.column, cause⟩) ∨
      (∃ reference, readReference kind token = .ok reference) ∧
        readReferences number kinds rest = .error diagnostic := by
  cases first : readReference kind token with
  | error cause =>
      simp [readReferences, first, eq_comm]
  | ok reference =>
      simp only [readReferences, first]
      cases readReferences number kinds rest <;> simp

/-- Reading operands fails with the error of the first token that is not read. -/
theorem readReferences_eq_error_iff
    {number : Nat}
    {kinds : List Operand.Kind}
    {arguments : List Token}
    {diagnostic : Diagnostic} :
    readReferences number kinds arguments = .error diagnostic ↔
      ∃ place token cause, FailsAt kinds arguments place token cause ∧
        (∀ other later error, FailsAt kinds arguments other later error →
          place ≤ other) ∧
        diagnostic = ⟨number, token.column, cause⟩ := by
  induction kinds generalizing arguments with
  | nil =>
      simp [readReferences, FailsAt]
  | cons kind kinds inductionHypothesis =>
      cases arguments with
      | nil =>
          simp [readReferences, FailsAt]
      | cons token rest =>
          rw [readReferences_cons_eq_error_iff, inductionHypothesis]
          constructor
          · rintro (⟨cause, failed, rfl⟩ |
              ⟨⟨reference, read⟩, place, other, error, fails, least, same⟩)
            · exact ⟨0, token, cause, failsAt_zero_iff.mpr ⟨rfl, failed⟩,
                fun _ _ _ _ => Nat.zero_le _, rfl⟩
            · refine ⟨place + 1, other, error, fails, ?_, same⟩
              intro later another cause failsLater
              cases later with
              | zero =>
                  cases read.symm.trans (failsAt_zero_iff.mp failsLater).2
              | succ later =>
                  exact Nat.succ_le_succ (least later another cause failsLater)
          · rintro ⟨place, other, error, fails, least, same⟩
            cases place with
            | zero =>
                obtain ⟨rfl, failed⟩ := failsAt_zero_iff.mp fails
                exact .inl ⟨error, failed, same⟩
            | succ place =>
                cases first : readReference kind token with
                | error cause =>
                    cases least 0 token cause (failsAt_zero_iff.mpr ⟨rfl, first⟩)
                | ok reference =>
                    exact .inr ⟨⟨reference, rfl⟩, place, other, error, fails,
                      fun later another cause failsLater =>
                        Nat.le_of_succ_le_succ
                          (least (later + 1) another cause failsLater), same⟩

/-- An argument fails to be read where it is a bad register or a bad word. -/
theorem failsAt_iff
    {mnemonic token : Token}
    {arguments : List Token}
    {opcode : Opcode}
    {place : Nat}
    {cause : SyntaxError}
    (called : opcode.IsCalled mnemonic.text)
    (sameLength : arguments.length = opcode.layout.length) :
    FailsAt opcode.layout arguments place token cause ↔
      (BadRegister (mnemonic :: arguments) place token ∧
          cause = .invalidRegister token.text) ∨
        (ArgumentAt (mnemonic :: arguments) .word place token ∧
          WordError token.text cause) := by
  simp only [BadRegister, argumentAt_cons_iff called sameLength]
  constructor
  · rintro ⟨kind, kindAt, tokenAt, failed⟩
    cases kind with
    | register =>
        obtain ⟨noRegister, same⟩ := readReference_register_eq_error_iff.mp failed
        exact .inl ⟨⟨⟨kindAt, tokenAt⟩, noRegister⟩, same⟩
    | word =>
        exact .inr ⟨⟨kindAt, tokenAt⟩, readReference_word_eq_error_iff.mp failed⟩
  · rintro (⟨⟨⟨kindAt, tokenAt⟩, noRegister⟩, same⟩ | ⟨⟨kindAt, tokenAt⟩, error⟩)
    · exact ⟨.register, kindAt, tokenAt,
        readReference_register_eq_error_iff.mpr ⟨noRegister, same⟩⟩
    · exact ⟨.word, kindAt, tokenAt, readReference_word_eq_error_iff.mpr error⟩

/-- An instruction called with all its arguments is rejected for one of them. -/
theorem readBody_eq_rejected_iff_of_called
    {number : Nat}
    {mnemonic : Token}
    {arguments : List Token}
    {opcode : Opcode}
    {diagnostic : Diagnostic}
    (called : opcode.IsCalled mnemonic.text)
    (sameLength : arguments.length = opcode.layout.length) :
    readBody number (mnemonic :: arguments) = .rejected diagnostic ↔
      readReferences number opcode.layout arguments = .error diagnostic := by
  have named := Opcode.ofName?_eq_some_iff.mpr called
  simp only [readBody, readStatement, named, sameLength, ↓reduceIte]
  cases readReferences number opcode.layout arguments <;> simp

/-- No argument is bad before the first bad register of an instruction. -/
theorem le_of_failsAt_of_isFirst_badRegister
    {mnemonic other : Token}
    {arguments : List Token}
    {opcode : Opcode}
    {place later : Nat}
    {cause : SyntaxError}
    (called : opcode.IsCalled mnemonic.text)
    (sameLength : arguments.length = opcode.layout.length)
    (registerAt : opcode.layout[place]? = some .register)
    (least : ∀ later other, BadRegister (mnemonic :: arguments) later other →
      place ≤ later)
    (fails : FailsAt opcode.layout arguments later other cause) :
    place ≤ later := by
  rcases (failsAt_iff called sameLength).mp fails with
      ⟨badRegister, _⟩ | ⟨argument, _⟩
  · exact least later other badRegister
  · -- A word does not stand before a register.
    by_contra notLater
    obtain ⟨wordAt, _⟩ := (argumentAt_cons_iff called sameLength).mp argument
    cases Opcode.kind_eq_register_of_le (Nat.le_of_not_le notLater) wordAt
      registerAt

/-- Where a bad word is the first argument that fails, no register is bad. -/
theorem not_badRegister_of_le
    {mnemonic token other : Token}
    {arguments : List Token}
    {opcode : Opcode}
    {place later : Nat}
    (called : opcode.IsCalled mnemonic.text)
    (sameLength : arguments.length = opcode.layout.length)
    (word : ArgumentAt (mnemonic :: arguments) .word place token)
    (least : ∀ later other error,
      FailsAt opcode.layout arguments later other error → place ≤ later) :
    ¬ BadRegister (mnemonic :: arguments) later other := by
  intro badLater
  have isLater := least later other _
    ((failsAt_iff called sameLength).mpr (.inl ⟨badLater, rfl⟩))
  obtain ⟨wordAt, _⟩ := (argumentAt_cons_iff called sameLength).mp word
  obtain ⟨registerAt, _⟩ := (argumentAt_cons_iff called sameLength).mp badLater.1
  cases Opcode.kind_eq_register_of_le isLater wordAt registerAt

/-- Arguments of the right number are rejected for a bad register or a bad word. -/
theorem readReferences_eq_error_iff_of_called
    {number : Nat}
    {mnemonic : Token}
    {arguments : List Token}
    {opcode : Opcode}
    {diagnostic : Diagnostic}
    (called : opcode.IsCalled mnemonic.text)
    (sameLength : arguments.length = opcode.layout.length) :
    readReferences number opcode.layout arguments = .error diagnostic ↔
      (∃ token, IsFirst (BadRegister (mnemonic :: arguments)) token ∧
        diagnostic = ⟨number, token.column, .invalidRegister token.text⟩) ∨
      ∃ token cause,
        (∀ place other, ¬ BadRegister (mnemonic :: arguments) place other) ∧
        IsFirst (BadWord (mnemonic :: arguments)) token ∧
        WordError token.text cause ∧
        diagnostic = ⟨number, token.column, cause⟩ := by
  rw [readReferences_eq_error_iff]
  constructor
  · rintro ⟨place, token, cause, fails, least, rfl⟩
    rcases (failsAt_iff called sameLength).mp fails with
        ⟨badRegister, rfl⟩ | ⟨argument, error⟩
    · refine .inl ⟨token, ⟨place, badRegister, ?_⟩, rfl⟩
      intro other later badLater
      exact least other later _
        ((failsAt_iff called sameLength).mpr (.inl ⟨badLater, rfl⟩))
    · refine .inr ⟨token, cause, fun _ _ =>
        not_badRegister_of_le called sameLength argument least,
        ⟨place, ⟨argument, cause, error⟩, ?_⟩, error, rfl⟩
      rintro other later ⟨argumentLater, errorLater, isError⟩
      exact least other later errorLater
        ((failsAt_iff called sameLength).mpr (.inr ⟨argumentLater, isError⟩))
  · rintro (⟨token, ⟨place, badRegister, least⟩, rfl⟩ |
      ⟨token, cause, noBadRegister, ⟨place, ⟨argument, _⟩, least⟩, error, rfl⟩)
    · obtain ⟨registerAt, _⟩ :=
        (argumentAt_cons_iff called sameLength).mp badRegister.1
      refine ⟨place, token, _,
        (failsAt_iff called sameLength).mpr (.inl ⟨badRegister, rfl⟩), ?_, rfl⟩
      intro later other error fails
      exact le_of_failsAt_of_isFirst_badRegister called sameLength registerAt
        least fails
    · refine ⟨place, token, cause,
        (failsAt_iff called sameLength).mpr (.inr ⟨argument, error⟩), ?_, rfl⟩
      intro later other errorLater fails
      rcases (failsAt_iff called sameLength).mp fails with
          ⟨badRegister, _⟩ | ⟨argumentLater, isError⟩
      · exact (noBadRegister later other badRegister).elim
      · exact least later other ⟨argumentLater, errorLater, isError⟩

/-- What reading shows of an instruction that is called with all its arguments. -/
theorem readingError_iff_of_called
    {mnemonic token : Token}
    {arguments : List Token}
    {opcode : Opcode}
    {cause : SyntaxError}
    (called : opcode.IsCalled mnemonic.text)
    (sameLength : arguments.length = opcode.layout.length) :
    ReadingError (mnemonic :: arguments) token cause ↔
      (∀ place other, ¬ BadRegister (mnemonic :: arguments) place other) ∧
        IsFirst (BadWord (mnemonic :: arguments)) token ∧
        WordError token.text cause := by
  constructor
  · intro error
    cases error with
    | unknownMnemonic shape unknown =>
        cases shape
        exact (unknown opcode called).elim
    | arityMismatch shape calledToo otherLength =>
        cases shape
        obtain rfl := calledToo.unique called
        exact (otherLength sameLength).elim
    | word noBadRegister first error =>
        exact ⟨noBadRegister, first, error⟩
  · rintro ⟨noBadRegister, first, error⟩
    exact .word noBadRegister first error

/-- An instruction that is not called with all its arguments has no argument. -/
theorem not_argumentAt
    {mnemonic token : Token}
    {arguments : List Token}
    {kind : Operand.Kind}
    {place : Nat}
    (uncalled : ∀ opcode : Opcode, opcode.IsCalled mnemonic.text →
      arguments.length ≠ opcode.layout.length) :
    ¬ ArgumentAt (mnemonic :: arguments) kind place token := by
  rintro ⟨called, sameLength, _⟩
  exact uncalled _ called sameLength

/-- Such an instruction is rejected at its mnemonic. -/
theorem readBody_eq_rejected_iff_of_uncalled
    {number : Nat}
    {mnemonic : Token}
    {arguments : List Token}
    {diagnostic : Diagnostic}
    (uncalled : ∀ opcode : Opcode, opcode.IsCalled mnemonic.text →
      arguments.length ≠ opcode.layout.length) :
    readBody number (mnemonic :: arguments) = .rejected diagnostic ↔
      ∃ token cause, ReadingError (mnemonic :: arguments) token cause ∧
        diagnostic = ⟨number, token.column, cause⟩ := by
  constructor
  · intro rejected
    cases named : Opcode.ofName? mnemonic.text with
    | none =>
        simp only [readBody, readStatement, named, Body.rejected.injEq] at rejected
        exact ⟨mnemonic, _,
          .unknownMnemonic rfl (Opcode.ofName?_eq_none_iff.mp named), rejected.symm⟩
    | some opcode =>
        have called := Opcode.ofName?_eq_some_iff.mp named
        have otherLength := uncalled opcode called
        simp only [readBody, readStatement, named, otherLength, ↓reduceIte,
          Body.rejected.injEq] at rejected
        exact ⟨mnemonic, _, .arityMismatch rfl called otherLength, rejected.symm⟩
  · rintro ⟨token, cause, error, rfl⟩
    cases error with
    | unknownMnemonic shape unknown =>
        cases shape
        simp only [readBody, readStatement, Opcode.ofName?_eq_none_iff.mpr unknown]
    | arityMismatch shape called otherLength =>
        cases shape
        simp only [readBody, readStatement, Opcode.ofName?_eq_some_iff.mpr called,
          otherLength, ↓reduceIte]
    | word _ first _ =>
        obtain ⟨_, argument, _⟩ := first.exists_place
        exact (not_argumentAt uncalled argument).elim

/--
An instruction is rejected for its first bad register, or for another error when
all its registers are good.
-/
theorem readBody_eq_rejected_iff
    {number : Nat}
    {tokens : List Token}
    {diagnostic : Diagnostic} :
    readBody number tokens = .rejected diagnostic ↔
      (∃ token, IsFirst (BadRegister tokens) token ∧
        diagnostic = ⟨number, token.column, .invalidRegister token.text⟩) ∨
      ∃ token cause, ReadingError tokens token cause ∧
        diagnostic = ⟨number, token.column, cause⟩ := by
  cases tokens with
  | nil =>
      constructor
      · nofun
      · rintro (⟨_, first, _⟩ | ⟨_, _, error, _⟩)
        · obtain ⟨_, argument, _⟩ := first.exists_place
          cases argument.mem
        · cases error.mem
  | cons mnemonic arguments =>
      by_cases isCalled : ∃ opcode : Opcode, opcode.IsCalled mnemonic.text ∧
          arguments.length = opcode.layout.length
      · obtain ⟨opcode, called, sameLength⟩ := isCalled
        simp only [readBody_eq_rejected_iff_of_called called sameLength,
          readReferences_eq_error_iff_of_called called sameLength,
          readingError_iff_of_called called sameLength, and_assoc]
      · have uncalled : ∀ opcode : Opcode, opcode.IsCalled mnemonic.text →
            arguments.length ≠ opcode.layout.length :=
          fun opcode called sameLength => isCalled ⟨opcode, called, sameLength⟩
        rw [readBody_eq_rejected_iff_of_uncalled uncalled, or_iff_right]
        rintro ⟨_, first, _⟩
        obtain ⟨_, argument, _⟩ := first.exists_place
        exact not_argumentAt uncalled argument

end Reading

section Resolving

variable {defined : List String}

/-- The operand at a place is an undefined label where the argument is. -/
theorem undefinedUse_iff
    {number place : Nat}
    {mnemonic token : Token}
    {arguments : List Token}
    {opcode : Opcode}
    {references : List Reference}
    (called : opcode.IsCalled mnemonic.text)
    (sameLength : arguments.length = opcode.layout.length)
    (read : readReferences number opcode.layout arguments = .ok references) :
    UndefinedUse defined (mnemonic :: arguments) place token ↔
      references[place]? = some (.label token) ∧ token.text ∉ defined := by
  simp only [UndefinedUse, argumentAt_cons_iff called sameLength,
    getElem?_eq_label_iff read]
  tauto

/-- The undefined label that an instruction is in error for is its first one. -/
theorem undefined?_eq_some_iff
    {number : Nat}
    {mnemonic token : Token}
    {arguments : List Token}
    {opcode : Opcode}
    {references : List Reference}
    (called : opcode.IsCalled mnemonic.text)
    (sameLength : arguments.length = opcode.layout.length)
    (read : readReferences number opcode.layout arguments = .ok references) :
    (Statement.mk opcode references).undefined? defined = some token ↔
      IsFirst (UndefinedUse defined (mnemonic :: arguments)) token := by
  have useIff : ∀ place token,
      UndefinedUse defined (mnemonic :: arguments) place token ↔
        references[place]? = some (.label token) ∧ token.text ∉ defined :=
    fun _ _ => undefinedUse_iff called sameLength read
  simp only [Statement.undefined?, IsFirst, useIff]
  rw [List.findSome?_eq_some_iff]
  constructor
  · rintro ⟨before, reference, after, rfl, isUndefined, earlierDefined⟩
    cases reference with
    | value operand =>
        cases isUndefined
    | label label =>
        simp only [List.contains_iff_mem, Option.ite_none_left_eq_some,
          Option.some.injEq] at isUndefined
        obtain ⟨notDefined, rfl⟩ := isUndefined
        refine ⟨before.length, ⟨by simp, notDefined⟩, ?_⟩
        rintro other later ⟨found, laterUndefined⟩
        by_contra isEarlier
        rw [List.getElem?_append_left (Nat.lt_of_not_le isEarlier)] at found
        have isDefined := earlierDefined _ (List.mem_of_getElem? found)
        simp [laterUndefined] at isDefined
  · rintro ⟨place, ⟨found, notDefined⟩, least⟩
    obtain ⟨inside, isLabel⟩ := List.getElem?_eq_some_iff.mp found
    refine ⟨references.take place, .label token, references.drop (place + 1),
      ?_, ?_, ?_⟩
    · rw [← isLabel, ← List.drop_eq_getElem_cons, List.take_append_drop]
    · simp [notDefined]
    · intro reference member
      obtain ⟨other, before, isReference⟩ := List.mem_take_iff_getElem.mp member
      cases reference with
      | value operand =>
          rfl
      | label later =>
          by_contra laterUndefined
          have isLater := least other later
            ⟨List.getElem?_eq_some_iff.mpr ⟨by omega, isReference⟩,
              by simpa using laterUndefined⟩
          omega

theorem readBody_eq_empty_iff
    {number : Nat}
    {tokens : List Token} :
    readBody number tokens = .empty ↔ tokens = [] := by
  cases tokens with
  | nil =>
      simp [readBody]
  | cons mnemonic arguments =>
      simp only [readBody, reduceCtorEq, iff_false]
      split <;> simp

/-- Without bad registers, an instruction is rejected for what reading it shows. -/
theorem readBody_eq_rejected_iff_of_good
    {number : Nat}
    {tokens : List Token}
    (good : ∀ place token, ¬ BadRegister tokens place token)
    {diagnostic : Diagnostic} :
    readBody number tokens = .rejected diagnostic ↔
      ∃ token cause, ReadingError tokens token cause ∧
        diagnostic = ⟨number, token.column, cause⟩ := by
  rw [readBody_eq_rejected_iff, or_iff_right]
  rintro ⟨token, first, _⟩
  obtain ⟨place, badRegister⟩ := first.exists_place
  exact good place token badRegister

/-- An instruction that was read is in error exactly for an undefined label. -/
theorem instructionError_iff_of_statement
    {number : Nat}
    {tokens : List Token}
    {statement : Statement}
    (good : ∀ place token, ¬ BadRegister tokens place token)
    (body : readBody number tokens = .statement statement)
    {token : Token}
    {cause : SyntaxError} :
    InstructionError defined tokens token cause ↔
      statement.undefined? defined = some token ∧
        cause = .undefinedLabel token.text := by
  obtain ⟨mnemonic, arguments, shape, named, sameLength, read⟩ :=
    readBody_eq_statement_iff.mp body
  have called := Opcode.ofName?_eq_some_iff.mp named
  have noError : ∀ token cause, ¬ ReadingError tokens token cause := by
    intro token cause error
    cases body.symm.trans
      ((readBody_eq_rejected_iff_of_good good).mpr ⟨token, cause, error, rfl⟩)
  have undefinedIff : statement.undefined? defined = some token ↔
      IsFirst (UndefinedUse defined tokens) token := by
    rw [shape]
    exact undefined?_eq_some_iff called sameLength read
  rw [undefinedIff]
  constructor
  · rintro (error | ⟨_, first⟩)
    · exact (noError token cause error).elim
    · exact ⟨first, rfl⟩
  · rintro ⟨first, rfl⟩
    exact .undefinedLabel noError first

/-- A rejected instruction is in error exactly for what reading it shows. -/
theorem instructionError_iff_of_rejected
    {number : Nat}
    {tokens : List Token}
    {rejection : Diagnostic}
    (good : ∀ place token, ¬ BadRegister tokens place token)
    (body : readBody number tokens = .rejected rejection)
    {token : Token}
    {cause : SyntaxError} :
    InstructionError defined tokens token cause ↔
      ReadingError tokens token cause := by
  refine ⟨?_, .reading⟩
  rintro (error | ⟨noError, _⟩)
  · exact error
  · obtain ⟨first, cause, error, _⟩ :=
      (readBody_eq_rejected_iff_of_good good).mp body
    exact (noError first cause error).elim

/-- A line is in error exactly when its instruction is, given the defined names. -/
theorem rejection?_resolve_readLine_iff
    {number : Nat}
    {line : List Char}
    {diagnostic : Diagnostic}
    (good : ∀ place token,
      ¬ BadRegister (instructionTokens line) place token) :
    ((readLine number line).resolve defined).rejection? = some diagnostic ↔
      ∃ token cause, InstructionError defined (instructionTokens line) token cause ∧
        diagnostic = ⟨number, token.column, cause⟩ := by
  have body : (readLine number line).body =
      readBody number (instructionTokens line) := rfl
  cases shape : readBody number (instructionTokens line) with
  | empty =>
      have noError : ∀ token cause,
          ¬ InstructionError defined (instructionTokens line) token cause := by
        intro token cause error
        have member := error.mem
        rw [readBody_eq_empty_iff.mp shape] at member
        cases member
      simp [Line.resolve, body, shape, Line.rejection?, noError]
  | rejected rejection =>
      simp only [Line.resolve, body, shape, Line.rejection?, Option.some.injEq,
        instructionError_iff_of_rejected good shape,
        ← readBody_eq_rejected_iff_of_good good, Body.rejected.injEq]
  | statement statement =>
      simp only [instructionError_iff_of_statement good shape]
      cases found : statement.undefined? defined with
      | none =>
          simp [Line.resolve, body, shape, found, Line.rejection?]
      | some token =>
          have number : (readLine number line).number = number := rfl
          simp [Line.resolve, body, shape, found, Line.rejection?, number, eq_comm]

end Resolving

end Assembly

end RegisterMachine
