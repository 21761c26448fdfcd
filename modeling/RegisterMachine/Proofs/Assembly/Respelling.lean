import RegisterMachine.Proofs.Assembly.Relocation

namespace RegisterMachine.Assembly

/-!
# Lines that are written down differently

Which number a line has, in which columns its tokens stand and how a diagnostic
spells what it quotes shows in diagnostics and nowhere else.  Lines that differ in
nothing but this are assembled to the same bytes, with diagnostics that differ in
nothing but this.
-/

/-- Other line numbers, other columns, and other causes that end an assembly alike. -/
structure Respelling where
  number : Nat → Nat
  column : Nat → Nat
  cause : SyntaxError → SyntaxError
  undefinedLabel :
    ∀ label, cause (.undefinedLabel label) = .undefinedLabel label
  duplicateLabel :
    ∀ label, cause (.duplicateLabel label) = .duplicateLabel label
  invalidLabel :
    ∀ label, cause (.invalidLabel label) = .invalidLabel label
  isFatal :
    ∀ error, (cause error).isFatal = error.isFatal

def Diagnostic.respell (change : Respelling) (diagnostic : Diagnostic) : Diagnostic where
  line := change.number diagnostic.line
  column := change.column diagnostic.column
  cause := change.cause diagnostic.cause

def Token.respell (change : Respelling) (token : Token) : Token where
  text := token.text
  column := change.column token.column

def Reference.respell (change : Respelling) : Reference → Reference
  | .value operand => .value operand
  | .label token => .label (token.respell change)

def Statement.respell (change : Respelling) (statement : Statement) : Statement where
  opcode := statement.opcode
  operands := statement.operands.map (Reference.respell change)

def Body.respell (change : Respelling) : Body → Body
  | .empty => .empty
  | .statement instruction => .statement (instruction.respell change)
  | .rejected diagnostic => .rejected (diagnostic.respell change)

def Line.respell (change : Respelling) (line : Line) : Line where
  number := change.number line.number
  labels := line.labels.map (Token.respell change)
  body := line.body.respell change

variable (change : Respelling)

section Lines

theorem definitions_respell (line : Line) :
    (line.respell change).definitions =
      line.definitions.map (Token.respell change) :=
  List.filter_map

theorem misnamed_respell (line : Line) :
    (line.respell change).misnamed = line.misnamed.map (Token.respell change) :=
  List.filter_map

theorem statement?_respell (line : Line) :
    (line.respell change).statement? =
      line.statement?.map (Statement.respell change) := by
  rw [Line.statement?, Line.statement?, Line.respell]
  cases line.body <;> rfl

theorem rejection?_respell (line : Line) :
    (line.respell change).rejection? =
      line.rejection?.map (Diagnostic.respell change) := by
  rw [Line.rejection?, Line.rejection?, Line.respell]
  cases line.body <;> rfl

theorem fatal?_respell (line : Line) :
    (line.respell change).fatal? = line.fatal?.map (Diagnostic.respell change) := by
  have sameFatal : Diagnostic.isFatal ∘ Diagnostic.respell change =
      Diagnostic.isFatal :=
    funext fun diagnostic => change.isFatal diagnostic.cause
  rw [Line.fatal?, Line.fatal?, rejection?_respell, Option.filter_map, sameFatal]

theorem definedNames_respell (lines : List Line) :
    definedNames (lines.map (Line.respell change)) = definedNames lines := by
  rw [definedNames, List.flatMap_map]
  simp only [definitions_respell, List.map_map]
  rfl

theorem usedNames_respell (lines : List Line) :
    usedNames (lines.map (Line.respell change)) = usedNames lines := by
  have sameName : Reference.name? ∘ Reference.respell change = Reference.name? := by
    funext reference
    cases reference <;> rfl
  rw [usedNames, List.flatMap_map, usedNames]
  congr 1
  funext line
  rw [Line.usedNames, Line.usedNames, statement?_respell]
  cases line.statement? with
  | none =>
      rfl
  | some statement =>
      simp only [Option.map_some, Statement.respell, List.filterMap_map, sameName]

theorem undefined?_respell
    (defined : List String)
    (statement : Statement) :
    (statement.respell change).undefined? defined =
      (statement.undefined? defined).map (Token.respell change) := by
  rw [Statement.undefined?, Statement.undefined?, Statement.respell,
    List.findSome?_map, List.map_findSome?]
  congr 1
  funext reference
  cases reference with
  | value operand =>
      rfl
  | label token =>
      rw [Function.comp_apply, Function.comp_apply,
        apply_ite (Option.map (Token.respell change))]
      rfl

theorem resolve_respell (lines : List Line) :
    resolve (lines.map (Line.respell change)) =
      (resolve lines).map (Line.respell change) := by
  rw [resolve, definedNames_respell, List.map_map, resolve, List.map_map]
  apply List.map_congr_left
  intro line _
  simp only [Function.comp_apply, Line.resolve]
  cases shape : line.body with
  | empty | rejected =>
      simp only [Line.respell, shape, Body.respell]
  | statement statement =>
      simp only [Line.respell, shape, Body.respell, undefined?_respell]
      cases statement.undefined? (definedNames lines) with
      | none =>
          simp only [Option.map_none, shape]
      | some token =>
          simp only [Option.map_some, Diagnostic.respell, Token.respell,
            change.undefinedLabel]

end Lines

section Images

theorem size_respell (line : Line) : (line.respell change).size = line.size := by
  rw [Line.size, Line.size, statement?_respell]
  cases line.statement? <;> rfl

theorem offsetsFrom_respell
    (offset : Nat)
    (lines : List Line) :
    offsetsFrom offset (lines.map (Line.respell change)) =
      offsetsFrom offset lines := by
  induction lines generalizing offset with
  | nil =>
      rfl
  | cons line rest inductionHypothesis =>
      rw [List.map_cons, offsetsFrom, offsetsFrom, size_respell,
        inductionHypothesis, definitions_respell, List.map_map]
      rfl

theorem bytes_reference_respell
    (offsets : List (String × Nat))
    (reference : Reference) :
    (reference.respell change).bytes offsets = reference.bytes offsets := by
  cases reference <;> rfl

theorem bytes_respell
    (offsets : List (String × Nat))
    (line : Line) :
    (line.respell change).bytes offsets = line.bytes offsets := by
  rw [Line.bytes, Line.bytes, statement?_respell]
  cases line.statement? with
  | none =>
      rfl
  | some statement =>
      simp only [Option.map_some, Statement.respell, List.flatMap_map,
        bytes_reference_respell]

/-- Lines have the same image however they are written down. -/
theorem imageOf_respell (lines : List Line) :
    imageOf (lines.map (Line.respell change)) = imageOf lines := by
  rw [imageOf, resolve_respell, offsetsFrom_respell, List.flatMap_map, imageOf]
  simp only [bytes_respell]

theorem lineLabelAt_respell
    {offsets : List (String × Nat)}
    {line : Line}
    {start : Nat} :
    (line.respell change).LabelAt offsets start ↔ line.LabelAt offsets start := by
  have sameBytes : ∀ references : List Reference,
      (references.map (Reference.respell change)).flatMap (Reference.bytes offsets) =
        references.flatMap (Reference.bytes offsets) := by
    intro references
    rw [List.flatMap_map]
    simp only [bytes_reference_respell]
  rw [Line.LabelAt, Line.LabelAt, statement?_respell]
  constructor
  · rintro ⟨_, argument, _, holds, isLabel, rfl⟩
    obtain ⟨statement, here, rfl⟩ := Option.map_eq_some_iff.mp holds
    rw [Statement.respell, List.getElem?_map, Option.map_eq_some_iff] at isLabel
    obtain ⟨reference, found, respelled⟩ := isLabel
    cases reference with
    | value operand =>
        cases respelled
    | label token =>
        refine ⟨statement, argument, token, here, found, ?_⟩
        rw [Statement.respell, ← List.map_take, sameBytes]
  · rintro ⟨statement, argument, token, here, found, rfl⟩
    refine ⟨statement.respell change, argument, token.respell change, ?_, ?_, ?_⟩
    · rw [here, Option.map_some]
    · rw [Statement.respell, List.getElem?_map, found]
      rfl
    · rw [Statement.respell, ← List.map_take, sameBytes]

/-- Lines have their labels at the same positions of the image. -/
theorem labelAt_respell
    {lines : List Line}
    {position : Nat} :
    LabelAt (lines.map (Line.respell change)) position ↔
      LabelAt lines position := by
  have sameBytes : ∀ others : List Line,
      (others.map (Line.respell change)).flatMap
          (Line.bytes (offsetsFrom 0 (resolve lines))) =
        others.flatMap (Line.bytes (offsetsFrom 0 (resolve lines))) := by
    intro others
    rw [List.flatMap_map]
    simp only [bytes_respell]
  rw [LabelAt, LabelAt, resolve_respell, offsetsFrom_respell]
  simp only [List.getElem?_map, ← List.map_take, sameBytes,
    Option.map_eq_some_iff]
  constructor
  · rintro ⟨index, _, start, ⟨line, found, rfl⟩, labelled, place⟩
    exact ⟨index, line, start, found, (lineLabelAt_respell change).mp labelled, place⟩
  · rintro ⟨index, line, start, found, labelled, place⟩
    exact ⟨index, _, start, ⟨line, found, rfl⟩,
      (lineLabelAt_respell change).mpr labelled, place⟩

end Images

section Errors

theorem misnamedLabel_respell
    (number : Nat)
    (label : Token) :
    misnamedLabel (change.number number) (label.respell change) =
      (misnamedLabel number label).respell change := by
  rw [misnamedLabel, misnamedLabel, Diagnostic.respell, change.invalidLabel]
  rfl

theorem labelErrors_respell
    (number : Nat)
    (earlier : List String)
    (labels : List Token) :
    labelErrors (change.number number) earlier
        (labels.map (Token.respell change)) =
      (labelErrors number earlier labels).map (Diagnostic.respell change) := by
  induction labels generalizing earlier with
  | nil =>
      rfl
  | cons label rest inductionHypothesis =>
      have sameText : (label.respell change).text = label.text := rfl
      simp only [List.map_cons, labelErrors, inductionHypothesis, sameText,
        misnamedLabel_respell]
      split
      · split
        · rw [List.map_cons, Diagnostic.respell, change.duplicateLabel]
          rfl
        · rfl
      · rfl

/-- Lines have the same errors, written down differently. -/
theorem errorsFrom_respell
    (earlier : List String)
    (lines : List Line) :
    errorsFrom earlier (lines.map (Line.respell change)) =
      (errorsFrom earlier lines).map (Diagnostic.respell change) := by
  induction lines generalizing earlier with
  | nil =>
      rfl
  | cons line rest inductionHypothesis =>
      rw [List.map_cons, errorsFrom, errorsFrom, List.map_append,
        List.map_append, ← labelErrors_respell, rejection?_respell,
        Option.toList_map, ← inductionHypothesis, definitions_respell,
        List.map_map]
      rfl

theorem misnamedErrors_respell (line : Line) :
    (line.respell change).misnamed.map (misnamedLabel (line.respell change).number) =
      (line.misnamed.map (misnamedLabel line.number)).map
        (Diagnostic.respell change) := by
  rw [misnamed_respell, List.map_map, List.map_map]
  exact List.map_congr_left fun label _ =>
    misnamedLabel_respell change line.number label

/-- An assembly ends at the same error, after the same errors. -/
theorem abortion?_respell (lines : List Line) :
    abortion? (lines.map (Line.respell change)) =
      (abortion? lines).map
        (Prod.map (Diagnostic.respell change) (List.map (Diagnostic.respell change))) := by
  induction lines with
  | nil =>
      rfl
  | cons line rest inductionHypothesis =>
      rw [List.map_cons, abortion?, abortion?, fatal?_respell, inductionHypothesis,
        misnamedErrors_respell]
      cases line.fatal? with
      | some fatal =>
          rfl
      | none =>
          rw [Option.map_none, Line.readingErrors, misnamedErrors_respell,
            rejection?_respell, Option.toList_map, ← List.map_append,
            ← Line.readingErrors, Option.map_map, Option.map_map]
          refine Option.map_congr fun ended _ => ?_
          simp only [Function.comp_apply, Prod.map, List.map_append]

end Errors

end RegisterMachine.Assembly
