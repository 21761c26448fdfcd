import Mathlib.Data.List.ReduceOption
import RegisterMachine.Assembly.Assemble
import RegisterMachine.Proofs.Image.Codec

namespace RegisterMachine.Assembly

/-!
# Laying lines out

Lines get their place in the image in two walks: one collects the offsets of
labels, the other emits bytes.  Both count the same sizes, so that a label has
the offset of the line that defines it first, and once every label in use is
defined the emitted bytes are those of a tiling.
-/

/-- Total size of the lines before an index. -/
def sizeBefore (lines : List Line) (index : Nat) : Nat :=
  ((lines.take index).map Line.size).sum

namespace Line

/-- Whether a line defines a name as a label. -/
def defines (name : String) (line : Line) : Bool :=
  (line.definitions.map Token.text).contains name

/-- The entry that the instruction of a line takes in the image. -/
def slot (offsets : List (String × Nat)) (offset : Nat) (line : Line) :
    Option Image.Entry :=
  line.statement?.bind fun statement =>
    (operandsOf offsets statement.operands).toOption.map fun operands =>
      ⟨offset, statement.opcode, operands⟩

/-- Every label that the instruction of a line uses has an offset. -/
def IsPlaced (offsets : List (String × Nat)) (line : Line) : Prop :=
  ∀ statement, line.statement? = some statement →
    ∃ operands, operandsOf offsets statement.operands = .ok operands

/-- A placed line takes no entry and no bytes, or the entry of its instruction. -/
theorem slot_cases
    {offsets : List (String × Nat)}
    {line : Line}
    (placed : line.IsPlaced offsets)
    (offset : Nat) :
    (line.statement? = none ∧ line.slot offsets offset = none ∧
        line.size = 0) ∨
      ∃ statement operands,
        line.statement? = some statement ∧
        operandsOf offsets statement.operands = .ok operands ∧
        line.slot offsets offset =
          some ⟨offset, statement.opcode, operands⟩ ∧
        line.size = statement.opcode.size := by
  cases holds : line.statement? with
  | none =>
      rw [slot, size, holds]
      exact .inl ⟨rfl, rfl, rfl⟩
  | some statement =>
      obtain ⟨operands, resolved⟩ := placed statement holds
      rw [slot, size, holds, Option.bind_some, resolved]
      exact .inr ⟨statement, operands, rfl, resolved, rfl, rfl⟩

end Line

/-- The entries of lines that start at an offset; lines without one are empty slots. -/
def slotsFrom (offsets : List (String × Nat)) (offset : Nat) :
    List Line → List (Option Image.Entry)
  | [] => []
  | line :: rest =>
      line.slot offsets offset :: slotsFrom offsets (offset + line.size) rest

section Slots

variable {offsets : List (String × Nat)}

/-- Each line has one slot, which starts behind the lines before it. -/
theorem getElem?_slotsFrom
    (offset : Nat)
    (lines : List Line)
    (index : Nat) :
    (slotsFrom offsets offset lines)[index]? =
      lines[index]?.map
        (Line.slot offsets (offset + sizeBefore lines index)) := by
  induction lines generalizing offset index with
  | nil =>
      rfl
  | cons line rest inductionHypothesis =>
      cases index with
      | zero =>
          rfl
      | succ index =>
          rw [slotsFrom, List.getElem?_cons_succ, inductionHypothesis,
            List.getElem?_cons_succ, sizeBefore, sizeBefore,
            List.take_succ_cons, List.map_cons, List.sum_cons, Nat.add_assoc]

/-- Slots take exactly the bytes of their lines. -/
theorem sizeOf_take_slotsFrom
    {lines : List Line}
    (placed : ∀ line ∈ lines, line.IsPlaced offsets)
    (offset index : Nat) :
    Image.sizeOf ((slotsFrom offsets offset lines).take index).reduceOption =
      sizeBefore lines index := by
  induction lines generalizing offset index with
  | nil =>
      simp [slotsFrom, sizeBefore, Image.sizeOf]
  | cons line rest inductionHypothesis =>
      obtain ⟨linePlaced, restPlaced⟩ := List.forall_mem_cons.mp placed
      cases index with
      | zero =>
          rfl
      | succ index =>
          have later :=
            inductionHypothesis restPlaced (offset + line.size) index
          rw [slotsFrom, List.take_succ_cons, sizeBefore, List.take_succ_cons,
            List.map_cons, List.sum_cons]
          rcases line.slot_cases linePlaced offset with
              ⟨_, noEntry, noSize⟩ | ⟨_, _, _, _, entry, size⟩
          · rw [noEntry, List.reduceOption_cons_of_none, later, noSize,
              Nat.zero_add, sizeBefore]
          · rw [entry, List.reduceOption_cons_of_some, ← sizeBefore, ← later,
              size]
            rfl

/-- The emitted bytes are those of the entries in the slots. -/
theorem encodeAll_eq_ok
    {lines : List Line}
    (placed : ∀ line ∈ lines, line.IsPlaced offsets)
    (offset : Nat) :
    encodeAll offsets (lines.filterMap Line.statement?) =
      .ok (Image.encodeEntries
        (slotsFrom offsets offset lines).reduceOption) := by
  induction lines generalizing offset with
  | nil =>
      rfl
  | cons line rest inductionHypothesis =>
      obtain ⟨linePlaced, restPlaced⟩ := List.forall_mem_cons.mp placed
      have later := inductionHypothesis restPlaced (offset + line.size)
      rcases line.slot_cases linePlaced offset with
          ⟨empty, noEntry, _⟩ | ⟨statement, operands, holds, resolved, entry, _⟩
      · rw [List.filterMap_cons_none empty, slotsFrom, noEntry,
          List.reduceOption_cons_of_none, later]
      · have encoded :
            statement.encode offsets =
              .ok (Image.encode statement.opcode operands) := by
          rw [Statement.encode, resolved]
          rfl
        rw [List.filterMap_cons_some holds, slotsFrom, entry,
          List.reduceOption_cons_of_some, encodeAll, encoded, later]
        rfl

/-- The entries in the slots are a tiling when operands fit their catalog rows. -/
theorem tiles_slotsFrom
    {lines : List Line}
    (placed : ∀ line ∈ lines, line.IsPlaced offsets)
    (fits : ∀ line ∈ lines, ∀ statement operands,
      line.statement? = some statement →
        operandsOf offsets statement.operands = .ok operands →
        operands.map Operand.kind = statement.opcode.layout ∧
          ∀ operand ∈ operands, operand.IsDirect)
    (offset : Nat) :
    Image.Tiles offset (slotsFrom offsets offset lines).reduceOption := by
  induction lines generalizing offset with
  | nil =>
      exact .nil
  | cons line rest inductionHypothesis =>
      obtain ⟨linePlaced, restPlaced⟩ := List.forall_mem_cons.mp placed
      obtain ⟨lineFits, restFits⟩ := List.forall_mem_cons.mp fits
      have later :=
        inductionHypothesis restPlaced restFits (offset + line.size)
      rw [slotsFrom]
      rcases line.slot_cases linePlaced offset with
          ⟨_, noEntry, noSize⟩ | ⟨statement, operands, holds, resolved, entry, size⟩
      · rw [noSize, Nat.add_zero] at later ⊢
        rw [noEntry, List.reduceOption_cons_of_none]
        exact later
      · obtain ⟨kinds, direct⟩ := lineFits statement operands holds resolved
        rw [size] at later ⊢
        rw [entry, List.reduceOption_cons_of_some]
        exact .cons kinds direct later

end Slots

section Offsets

private theorem lookup_map_text
    (labels : List Token)
    (offset : Nat)
    (name : String) :
    (labels.map fun label => (label.text, offset)).lookup name =
      if (labels.map Token.text).contains name then some offset else none := by
  induction labels with
  | nil =>
      rfl
  | cons label rest inductionHypothesis =>
      rw [List.map_cons, List.lookup_cons, inductionHypothesis, List.map_cons,
        List.contains_cons]
      cases same : name == label.text <;> simp

/-- A label has the offset of the first line that defines it. -/
theorem lookup_offsetsFrom
    (offset : Nat)
    (lines : List Line)
    (name : String) :
    offsetOf? (offsetsFrom offset lines) name =
      (lines.findIdx? (Line.defines name)).map
        fun index => offset + sizeBefore lines index := by
  induction lines generalizing offset with
  | nil =>
      rfl
  | cons line rest inductionHypothesis =>
      have later := inductionHypothesis (offset + line.size)
      rw [offsetOf?] at later ⊢
      rw [offsetsFrom, List.lookup_append, later, lookup_map_text,
        List.findIdx?_cons]
      by_cases here : line.defines name
      · have contained :
            (line.definitions.map Token.text).contains name = true := here
        rw [if_pos contained, if_pos here, Option.some_or, Option.map_some]
        rfl
      · have missing :
            ¬ (line.definitions.map Token.text).contains name = true := here
        rw [if_neg missing, if_neg here, Option.none_or, Option.map_map]
        apply congrArg (Option.map · (rest.findIdx? (Line.defines name)))
        funext index
        simp only [Function.comp_apply, sizeBefore, List.take_succ_cons,
          List.map_cons, List.sum_cons, Nat.add_assoc]

theorem mem_definedNames_iff
    {lines : List Line}
    {name : String} :
    name ∈ definedNames lines ↔ ∃ line ∈ lines, line.defines name = true := by
  simp only [definedNames, List.mem_flatMap, Line.defines, List.contains_iff_mem]

/-- A label has an offset exactly when some line defines it. -/
theorem isSome_offsetOf?_iff
    {offset : Nat}
    {lines : List Line}
    {name : String} :
    (offsetOf? (offsetsFrom offset lines) name).isSome ↔
      name ∈ definedNames lines := by
  rw [lookup_offsetsFrom, Option.isSome_map, List.findIdx?_isSome,
    List.any_eq_true, mem_definedNames_iff]

end Offsets

section Resolving

theorem number_labels_resolve
    (defined : List String)
    (line : Line) :
    (line.resolve defined).number = line.number ∧
      (line.resolve defined).labels = line.labels := by
  rw [Line.resolve]
  split
  · split <;> exact ⟨rfl, rfl⟩
  · exact ⟨rfl, rfl⟩

theorem definitions_resolve
    (defined : List String)
    (line : Line) :
    (line.resolve defined).definitions = line.definitions := by
  unfold Line.resolve
  split
  · split <;> rfl
  · rfl

theorem definedNames_resolve (lines : List Line) :
    definedNames (resolve lines) = definedNames lines := by
  rw [definedNames, resolve, List.flatMap_map, definedNames]
  simp only [definitions_resolve]

/-- The instructions that are left use defined labels only. -/
theorem statement?_resolve_iff
    {defined : List String}
    {line : Line}
    {statement : Statement} :
    (line.resolve defined).statement? = some statement ↔
      line.body = .statement statement ∧
        statement.undefined? defined = none := by
  cases shape : line.body with
  | empty | rejected =>
      simp [Line.resolve, Line.statement?, shape]
  | statement found =>
      cases undefined : found.undefined? defined with
      | none =>
          simp only [Line.resolve, Line.statement?, shape, undefined,
            Option.some.injEq, Body.statement.injEq]
          constructor
          · rintro rfl
            exact ⟨rfl, undefined⟩
          · exact And.left
      | some token =>
          simp only [Line.resolve, Line.statement?, shape, undefined,
            reduceCtorEq, Body.statement.injEq, false_iff, not_and]
          rintro rfl
          rw [undefined]
          exact Option.some_ne_none token

/-- Operands can be resolved exactly when none of them is an undefined label. -/
theorem exists_operandsOf_iff
    {offsets : List (String × Nat)}
    {defined : List String}
    (placed : ∀ name, (offsetOf? offsets name).isSome ↔ name ∈ defined)
    {statement : Statement} :
    (∃ operands, operandsOf offsets statement.operands = .ok operands) ↔
      statement.undefined? defined = none := by
  obtain ⟨opcode, references⟩ := statement
  rw [Statement.undefined?, List.findSome?_eq_none_iff]
  induction references with
  | nil =>
      exact ⟨fun _ => nofun, fun _ => ⟨[], rfl⟩⟩
  | cons reference rest inductionHypothesis =>
      rw [List.forall_mem_cons, ← inductionHypothesis]
      have split :
          (∃ operands, operandsOf offsets (reference :: rest) = .ok operands) ↔
            (∃ operand, reference.operand offsets = .ok operand) ∧
              ∃ others, operandsOf offsets rest = .ok others := by
        constructor
        · rintro ⟨_, resolved⟩
          obtain ⟨operand, others, here, later, _⟩ :=
            operandsOf_cons_eq_ok_iff.mp resolved
          exact ⟨⟨operand, here⟩, others, later⟩
        · rintro ⟨⟨operand, here⟩, others, later⟩
          exact ⟨_, operandsOf_cons_eq_ok_iff.mpr
            ⟨operand, others, here, later, rfl⟩⟩
      rw [split]
      apply and_congr_left'
      cases reference with
      | value operand =>
          exact ⟨fun _ => rfl, fun _ => ⟨operand, rfl⟩⟩
      | label token =>
          have isDefined := placed token.text
          simp only [Reference.operand, List.contains_iff_mem, ← isDefined]
          cases offsetOf? offsets token.text <;> simp

/-- Every line that is left uses only labels that have an offset. -/
theorem isPlaced_of_mem_resolve (lines : List Line) :
    ∀ line ∈ resolve lines, line.IsPlaced (offsetsFrom 0 (resolve lines)) := by
  intro line member statement holds
  obtain ⟨read, _, rfl⟩ := List.mem_map.mp member
  obtain ⟨_, usesDefined⟩ := statement?_resolve_iff.mp holds
  refine (exists_operandsOf_iff fun name => ?_).mpr usesDefined
  rw [isSome_offsetOf?_iff, definedNames_resolve]

/-- The slots of lines, with every label that they define at its offset. -/
def layoutOf (lines : List Line) : List (Option Image.Entry) :=
  slotsFrom (offsetsFrom 0 (resolve lines)) 0 (resolve lines)

/-- Lines that do not end the assembly give the image of their slots. -/
theorem assembleLines_eq_ok (lines : List Line) :
    assembleLines lines =
      .ok ⟨Image.encodeEntries (layoutOf lines).reduceOption,
        errorsFrom [] (resolve lines)⟩ := by
  have encoded := encodeAll_eq_ok (isPlaced_of_mem_resolve lines) 0
  simp only [assembleLines, encoded]
  rfl

end Resolving

/-- The assembly is ended exactly when some line ends it. -/
theorem abortion?_eq_none_iff
    {lines : List Line} :
    abortion? lines = none ↔ ∀ line ∈ lines, line.fatal? = none := by
  induction lines with
  | nil =>
      exact ⟨fun _ => nofun, fun _ => rfl⟩
  | cons line rest inductionHypothesis =>
      rw [List.forall_mem_cons, ← inductionHypothesis, abortion?]
      cases line.fatal? with
      | none =>
          simp
      | some fatal =>
          simp

end RegisterMachine.Assembly
