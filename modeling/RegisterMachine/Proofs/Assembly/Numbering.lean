import RegisterMachine.Proofs.Assembly.Respelling

namespace RegisterMachine.Assembly

/-!
# Lines by their number

The number of a line shows in its diagnostics and nowhere else.  Lines that
stand further down are assembled to the same bytes, with the same errors at the
larger numbers.
-/

/-- The diagnostic of a line that stands a number of lines further down. -/
def Diagnostic.moveDown (count : Nat) (diagnostic : Diagnostic) : Diagnostic :=
  { diagnostic with line := diagnostic.line + count }

/-- The body of a line that stands a number of lines further down. -/
def Body.moveDown (count : Nat) : Body → Body
  | .empty => .empty
  | .statement instruction => .statement instruction
  | .rejected diagnostic => .rejected (diagnostic.moveDown count)

/-- A line that stands a number of lines further down. -/
def Line.moveDown (count : Nat) (line : Line) : Line where
  number := line.number + count
  labels := line.labels
  body := line.body.moveDown count

/-- Read lines, of which the first has a number. -/
def readLines (first : Nat) (lines : List (List Char)) : List Line :=
  (lines.zipIdx first).map fun (line, number) => readLine number line

section Reading

theorem readReferences_add
    (number count : Nat)
    (kinds : List Operand.Kind)
    (arguments : List Token) :
    readReferences (number + count) kinds arguments =
      (readReferences number kinds arguments).mapError
        (Diagnostic.moveDown count) := by
  induction kinds generalizing arguments with
  | nil =>
      rfl
  | cons kind kinds inductionHypothesis =>
      cases arguments with
      | nil =>
          rfl
      | cons token rest =>
          simp only [readReferences, inductionHypothesis]
          cases readReference kind token with
          | error cause =>
              rfl
          | ok first =>
              cases readReferences number kinds rest <;> rfl

theorem readBody_add
    (number count : Nat)
    (tokens : List Token) :
    readBody (number + count) tokens = (readBody number tokens).moveDown count := by
  cases tokens with
  | nil =>
      rfl
  | cons mnemonic arguments =>
      simp only [readBody, readStatement]
      cases Opcode.ofName? mnemonic.text with
      | none =>
          rfl
      | some opcode =>
          by_cases sameLength : arguments.length = opcode.layout.length
          · simp only [sameLength, ↓reduceIte, readReferences_add]
            cases readReferences number opcode.layout arguments <;> rfl
          · simp only [sameLength, ↓reduceIte]
            rfl

/-- A line further down is read as the same line with a larger number. -/
theorem readLine_add
    (number count : Nat)
    (line : List Char) :
    readLine (number + count) line = (readLine number line).moveDown count := by
  rw [readLine, readTokens, readBody_add]
  rfl

theorem readLines_append
    (first : Nat)
    (lines others : List (List Char)) :
    readLines first (lines ++ others) =
      readLines first lines ++ readLines (first + lines.length) others := by
  rw [readLines, List.zipIdx_append, List.map_append]
  rfl

theorem readLines_add
    (first count : Nat)
    (lines : List (List Char)) :
    readLines (first + count) lines =
      (readLines first lines).map (Line.moveDown count) := by
  induction lines generalizing first with
  | nil =>
      rfl
  | cons line rest inductionHypothesis =>
      have later := inductionHypothesis (first + 1)
      rw [Nat.add_right_comm] at later
      rw [readLines, readLines] at later ⊢
      rw [List.zipIdx_cons, List.zipIdx_cons, List.map_cons, List.map_cons,
        List.map_cons, later]
      congr 1
      exact readLine_add first count line

end Reading

section Assembling

/-- The lines stand further down, and nothing else is different. -/
def Respelling.down (count : Nat) : Respelling where
  number := (· + count)
  column := id
  cause := id
  undefinedLabel := fun _ => rfl
  duplicateLabel := fun _ => rfl
  invalidLabel := fun _ => rfl
  isFatal := fun _ => rfl

variable (count : Nat)

theorem moveDown_eq_respell :
    Line.moveDown count = Line.respell (.down count) := by
  have sameToken : Token.respell (.down count) = id := rfl
  have sameReference : Reference.respell (.down count) = id := by
    funext reference
    cases reference <;> rfl
  have sameBody : Body.moveDown count = Body.respell (.down count) := by
    funext body
    cases body with
    | empty | rejected =>
        rfl
    | statement instruction =>
        rw [Body.moveDown, Body.respell, Statement.respell, sameReference,
          List.map_id]
  funext line
  rw [Line.moveDown, Line.respell, sameToken, List.map_id, sameBody]
  rfl

theorem definedNames_moveDown (lines : List Line) :
    definedNames (lines.map (Line.moveDown count)) = definedNames lines := by
  rw [moveDown_eq_respell, definedNames_respell]

theorem usedNames_moveDown (lines : List Line) :
    usedNames (lines.map (Line.moveDown count)) = usedNames lines := by
  rw [moveDown_eq_respell, usedNames_respell]

theorem resolve_moveDown (lines : List Line) :
    resolve (lines.map (Line.moveDown count)) =
      (resolve lines).map (Line.moveDown count) := by
  rw [moveDown_eq_respell, resolve_respell]

/-- Lines further down have the same image. -/
theorem imageOf_moveDown (lines : List Line) :
    imageOf (lines.map (Line.moveDown count)) = imageOf lines := by
  rw [moveDown_eq_respell, imageOf_respell]

/-- Lines further down have their labels at the same positions of the image. -/
theorem labelAt_moveDown
    {lines : List Line}
    {position : Nat} :
    LabelAt (lines.map (Line.moveDown count)) position ↔
      LabelAt lines position := by
  rw [moveDown_eq_respell, labelAt_respell]

/-- Lines further down have the same errors, at larger line numbers. -/
theorem errorsFrom_moveDown
    (earlier : List String)
    (lines : List Line) :
    errorsFrom earlier (lines.map (Line.moveDown count)) =
      (errorsFrom earlier lines).map (Diagnostic.moveDown count) := by
  rw [moveDown_eq_respell, errorsFrom_respell]
  rfl

theorem fatal?_moveDown (line : Line) :
    (line.moveDown count).fatal? =
      line.fatal?.map (Diagnostic.moveDown count) := by
  rw [moveDown_eq_respell, fatal?_respell]
  rfl

end Assembling

/-- A source is assembled exactly when no line ends the assembly. -/
theorem assemble_eq_ok_iff
    {source : String}
    {assembly : Assembled} :
    assemble source = .ok assembly ↔
      (∀ line ∈ readSource source, line.fatal? = none) ∧
        assembly = ⟨imageOf (readSource source),
          errorsFrom [] (resolve (readSource source))⟩ := by
  rw [← abortion?_eq_none_iff]
  simp only [assemble, assembleLines_eq_ok_imageOf]
  cases abortion? (readSource source) with
  | none =>
      simp [eq_comm]
  | some fatal =>
      simp

end RegisterMachine.Assembly
