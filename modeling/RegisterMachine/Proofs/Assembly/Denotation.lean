import RegisterMachine.Assembly.Layout
import RegisterMachine.Proofs.Image.Codec

namespace RegisterMachine.Assembly

/-!
# What the tokens of a line stand for

The meaning of an instruction line, said without reading it step by step: the
first token behind the label definitions names an instruction, and each further
token stands for an operand of the kind that the catalog row asks for, where a
label stands for its address.  A line has a meaning exactly when reading it
gives an instruction whose labels are all placed (`instructs_iff`).
-/

/-- The operand that a token stands for, given the addresses of labels. -/
inductive Denotes (address : String → Option Nat) :
    Operand.Kind → Token → Operand → Prop where
  | register {token : Token} {index : UInt8} :
      register? token.text = some index →
      index.toNat < registerCount →
      Denotes address .register token (.register index)
  | number {token : Token} {value : UInt64} :
      register? token.text = none →
      number? token.text = some value →
      Denotes address .word token (.word value)
  | label {token : Token} {offset : Nat} :
      register? token.text = none →
      number? token.text = none →
      isLabelName token.text = true →
      address token.text = some offset →
      Denotes address .word token (.word (UInt64.ofNat offset))

/-- Each token stands for the operand at its place, one for each kind. -/
inductive DenoteAll (address : String → Option Nat) :
    List Operand.Kind → List Token → List Operand → Prop where
  | nil :
      DenoteAll address [] [] []
  | cons {kind : Operand.Kind} {token : Token} {operand : Operand}
      {kinds : List Operand.Kind} {tokens : List Token}
      {operands : List Operand} :
      Denotes address kind token operand →
      DenoteAll address kinds tokens operands →
      DenoteAll address (kind :: kinds) (token :: tokens) (operand :: operands)

/-- The instruction that tokens stand for: a name, and operands that fit its row. -/
inductive Instructs (address : String → Option Nat) :
    List Token → Opcode → List Operand → Prop where
  | intro {mnemonic : Token} {arguments : List Token} {opcode : Opcode}
      {operands : List Operand} :
      Opcode.ofName? mnemonic.text = some opcode →
      DenoteAll address opcode.layout arguments operands →
      Instructs address (mnemonic :: arguments) opcode operands

section Reading

variable {offsets : List (String × Nat)}

/-- A token that names a register names one of the register file. -/
theorem lt_of_register?
    {token : String}
    {index : UInt8}
    (named : register? token = some index) :
    index.toNat < registerCount := by
  unfold register? at named
  split at named
  · cases named
  · split at named
    · obtain ⟨value, below, rfl⟩ := Option.map_eq_some_iff.mp named
      have bound := Text.Numeral.lt_of_readBelow? below
      have small : registerCount ≤ 256 := by decide
      rw [UInt8.toNat_ofNat_of_lt' (Nat.lt_of_lt_of_le bound small)]
      exact bound
    · cases named

/-- A token is read, and its label is placed, exactly when it stands for an operand. -/
theorem denotes_iff
    {kind : Operand.Kind}
    {token : Token}
    {operand : Operand} :
    Denotes (offsetOf? offsets) kind token operand ↔
      ∃ reference, readReference kind token = .ok reference ∧
        reference.operand offsets = .ok operand := by
  constructor
  · intro denotes
    cases denotes with
    | register named _ =>
        exact ⟨.value _, by rw [readReference, named], rfl⟩
    | number notRegister read =>
        refine ⟨.value _, ?_, rfl⟩
        rw [readReference, readWord, notRegister, read]
        rfl
    | label notRegister notNumber isName placed =>
        refine ⟨.label token, ?_, ?_⟩
        · rw [readReference, readWord, notRegister, notNumber, isName]
          rfl
        · rw [Reference.operand, placed]
  · rintro ⟨reference, read, resolved⟩
    cases kind with
    | register =>
        simp only [readReference] at read
        split at read
        · next index named =>
            cases read
            cases resolved
            exact .register named (lt_of_register? named)
        · cases read
    | word =>
        simp only [readReference, readWord] at read
        split at read
        · cases read
        · next notRegister =>
            have noRegister : register? token.text = none :=
              Option.not_isSome_iff_eq_none.mp notRegister
            split at read
            · next value number =>
                cases read
                cases resolved
                exact .number noRegister number
            · next notNumber =>
                split at read
                · next isName =>
                    cases read
                    simp only [Reference.operand] at resolved
                    split at resolved
                    · cases resolved
                    · next offset placed =>
                        cases resolved
                        exact .label noRegister notNumber isName placed
                · cases read

/-- Tokens are read in full exactly when they stand for operands. -/
theorem denoteAll_iff
    (line : Nat)
    {kinds : List Operand.Kind}
    {arguments : List Token}
    {operands : List Operand} :
    DenoteAll (offsetOf? offsets) kinds arguments operands ↔
      arguments.length = kinds.length ∧
        ∃ references, readReferences line kinds arguments = .ok references ∧
          operandsOf offsets references = .ok operands := by
  constructor
  · intro denoteAll
    induction denoteAll with
    | nil =>
        exact ⟨rfl, [], rfl, rfl⟩
    | @cons kind token operand kinds tokens operands denotes _
        inductionHypothesis =>
        obtain ⟨sameLength, references, read, resolved⟩ := inductionHypothesis
        obtain ⟨reference, first, value⟩ := denotes_iff.mp denotes
        refine ⟨congrArg Nat.succ sameLength, reference :: references, ?_, ?_⟩
        · rw [readReferences, first, read]
        · rw [operandsOf, value, resolved]
  · rintro ⟨sameLength, references, read, resolved⟩
    induction kinds generalizing arguments references operands with
    | nil =>
        obtain rfl := List.eq_nil_of_length_eq_zero sameLength
        cases read
        cases resolved
        exact .nil
    | cons kind kinds inductionHypothesis =>
        cases arguments with
        | nil =>
            cases sameLength
        | cons token rest =>
            obtain ⟨first, others, firstRead, othersRead, rfl⟩ :=
              readReferences_cons_eq_ok_iff.mp read
            obtain ⟨operand, values, value, othersValue, rfl⟩ :=
              operandsOf_cons_eq_ok_iff.mp resolved
            exact .cons (denotes_iff.mpr ⟨first, firstRead, value⟩)
              (inductionHypothesis (Nat.succ.inj sameLength)
                others othersRead othersValue)

/-- An instruction is read from its name and arguments in the number asked for. -/
theorem readBody_eq_statement_iff
    {line : Nat}
    {tokens : List Token}
    {statement : Statement} :
    readBody line tokens = .statement statement ↔
      ∃ mnemonic arguments, tokens = mnemonic :: arguments ∧
        Opcode.ofName? mnemonic.text = some statement.opcode ∧
        arguments.length = statement.opcode.layout.length ∧
        readReferences line statement.opcode.layout arguments =
          .ok statement.operands := by
  constructor
  · intro read
    cases tokens with
    | nil =>
        cases read
    | cons mnemonic arguments =>
        simp only [readBody, readStatement] at read
        split at read
        · cases read
        · next found isRead =>
            cases read
            split at isRead
            · cases isRead
            · next opcode named =>
                split at isRead
                · next sameLength =>
                    split at isRead
                    · cases isRead
                    · next references referencesRead =>
                        cases isRead
                        exact ⟨mnemonic, arguments, rfl, named, sameLength,
                          referencesRead⟩
                · cases isRead
  · rintro ⟨mnemonic, arguments, rfl, named, sameLength, referencesRead⟩
    simp only [readBody, readStatement, named, sameLength, ↓reduceIte,
      referencesRead]

/-- An instruction is read, and its labels are placed, exactly when tokens stand for it. -/
theorem instructs_iff
    (line : Nat)
    {tokens : List Token}
    {opcode : Opcode}
    {operands : List Operand} :
    Instructs (offsetOf? offsets) tokens opcode operands ↔
      ∃ statement, readBody line tokens = .statement statement ∧
        statement.opcode = opcode ∧
        operandsOf offsets statement.operands = .ok operands := by
  constructor
  · rintro ⟨named, denoteAll⟩
    obtain ⟨sameLength, references, read, resolved⟩ :=
      (denoteAll_iff line).mp denoteAll
    exact ⟨⟨opcode, references⟩,
      readBody_eq_statement_iff.mpr ⟨_, _, rfl, named, sameLength, read⟩,
      rfl, resolved⟩
  · rintro ⟨statement, body, rfl, resolved⟩
    obtain ⟨mnemonic, arguments, rfl, named, sameLength, read⟩ :=
      readBody_eq_statement_iff.mp body
    exact .intro named
      ((denoteAll_iff line).mpr ⟨sameLength, _, read, resolved⟩)

end Reading

theorem DenoteAll.fits
    {address : String → Option Nat}
    {kinds : List Operand.Kind}
    {tokens : List Token}
    {operands : List Operand}
    (denoteAll : DenoteAll address kinds tokens operands) :
    operands.map Operand.kind = kinds ∧
      ∀ operand ∈ operands, operand.IsDirect := by
  induction denoteAll with
  | nil =>
      exact ⟨rfl, nofun⟩
  | cons denotes _ inductionHypothesis =>
      obtain ⟨fits, direct⟩ := inductionHypothesis
      rw [List.map_cons, fits]
      cases denotes with
      | register _ low =>
          exact ⟨rfl, List.forall_mem_cons.mpr ⟨low, direct⟩⟩
      | number | label =>
          exact ⟨rfl, List.forall_mem_cons.mpr ⟨trivial, direct⟩⟩

/-- The operands of an instruction fit its catalog row. -/
theorem Instructs.fits
    {address : String → Option Nat}
    {tokens : List Token}
    {opcode : Opcode}
    {operands : List Operand}
    (instructs : Instructs address tokens opcode operands) :
    operands.map Operand.kind = opcode.layout ∧
      ∀ operand ∈ operands, operand.IsDirect := by
  cases instructs with
  | intro _ denoteAll =>
      exact denoteAll.fits

end RegisterMachine.Assembly
