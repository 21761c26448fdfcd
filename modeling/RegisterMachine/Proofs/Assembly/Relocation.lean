import RegisterMachine.Proofs.Assembly.Joining
import RegisterMachine.Proofs.Assembly.LabelWord
import RegisterMachine.Proofs.Image.Relocation

namespace RegisterMachine.Assembly

/-!
# Moving the bytes of lines

Each line adds its own bytes to the image, and only the words of labels depend
on what other lines add.  Behind other lines, the bytes of lines are therefore
relocated by the size of the lines before (`imageOf_append`).
-/

section Bytes

/-- The bytes that an operand adds to the image. -/
def Reference.bytes (offsets : List (String × Nat)) (reference : Reference) :
    List UInt8 :=
  match reference.operand offsets with
  | .error _ => []
  | .ok operand => operand.encode

/-- The bytes that a line adds to the image. -/
def Line.bytes (offsets : List (String × Nat)) (line : Line) : List UInt8 :=
  match line.statement? with
  | none => []
  | some statement =>
      statement.opcode.code ::
        statement.operands.flatMap (Reference.bytes offsets)

/-- In the bytes of a line begins the word of a label. -/
def Line.LabelAt (offsets : List (String × Nat)) (line : Line) (start : Nat) :
    Prop :=
  ∃ statement argument token, line.statement? = some statement ∧
    statement.operands[argument]? = some (.label token) ∧
    start =
      1 + ((statement.operands.take argument).flatMap
        (Reference.bytes offsets)).length

/-- The image of lines. -/
def imageOf (lines : List Line) : List UInt8 :=
  (resolve lines).flatMap (Line.bytes (offsetsFrom 0 (resolve lines)))

theorem map_bytes_of_operandsOf
    {offsets : List (String × Nat)}
    {references : List Reference}
    {operands : List Operand}
    (resolved : operandsOf offsets references = .ok operands) :
    references.map (Reference.bytes offsets) = operands.map Operand.encode := by
  induction references generalizing operands with
  | nil =>
      cases resolved
      rfl
  | cons reference rest inductionHypothesis =>
      obtain ⟨operand, others, here, later, rfl⟩ :=
        operandsOf_cons_eq_ok_iff.mp resolved
      rw [List.map_cons, List.map_cons, inductionHypothesis later,
        Reference.bytes, here]

/-- A line adds the bytes of its slot. -/
theorem map_slotBytes_slotsFrom
    {offsets : List (String × Nat)}
    {lines : List Line}
    (placed : ∀ line ∈ lines, line.IsPlaced offsets)
    (offset : Nat) :
    (slotsFrom offsets offset lines).map slotBytes =
      lines.map (Line.bytes offsets) := by
  induction lines generalizing offset with
  | nil =>
      rfl
  | cons line rest inductionHypothesis =>
      obtain ⟨linePlaced, restPlaced⟩ := List.forall_mem_cons.mp placed
      rw [slotsFrom, List.map_cons, List.map_cons, inductionHypothesis restPlaced]
      congr 1
      rcases line.slot_cases linePlaced offset with
          ⟨empty, noEntry, _⟩ | ⟨statement, operands, holds, resolved, entry, _⟩
      · rw [noEntry, Line.bytes, empty]
        rfl
      · rw [entry, Line.bytes, holds]
        simp only [slotBytes, Image.encode, List.flatMap_def,
          map_bytes_of_operandsOf resolved]

/-- Lines that do not end the assembly give their image and their errors. -/
theorem assembleLines_eq_ok_imageOf (lines : List Line) :
    assembleLines lines = .ok ⟨imageOf lines, errorsFrom [] (resolve lines)⟩ := by
  rw [assembleLines_eq_ok, ← flatMap_slotBytes, layoutOf, List.flatMap_def,
    map_slotBytes_slotsFrom (isPlaced_of_mem_resolve lines), imageOf,
    List.flatMap_def]

/-- The same offsets of the labels in use give a line the same bytes. -/
theorem Line.bytes_congr
    {offsets others : List (String × Nat)}
    {line : Line}
    (same : ∀ name ∈ line.usedNames,
      offsetOf? offsets name = offsetOf? others name) :
    line.bytes offsets = line.bytes others := by
  cases holds : line.statement? with
  | none =>
      rw [Line.bytes, Line.bytes, holds]
  | some statement =>
      rw [Line.bytes, Line.bytes, holds]
      simp only [List.flatMap_def]
      congr 2
      apply List.map_congr_left
      intro reference member
      cases reference with
      | value operand =>
          rfl
      | label token =>
          have here := same token.text
            (Line.mem_usedNames_iff.mpr ⟨statement, token, holds, member, rfl⟩)
          rw [Reference.bytes, Reference.bytes, Reference.operand,
            Reference.operand, here]

theorem usedNames_of_mem_resolve
    {lines : List Line}
    {line : Line}
    (member : line ∈ resolve lines)
    {name : String}
    (used : name ∈ line.usedNames) :
    name ∈ usedNames lines := by
  obtain ⟨read, readMember, rfl⟩ := List.mem_map.mp member
  obtain ⟨statement, token, holds, given, named⟩ :=
    Line.mem_usedNames_iff.mp used
  obtain ⟨body, _⟩ := statement?_resolve_iff.mp holds
  have readHolds : read.statement? = some statement := by
    rw [Line.statement?, body]
  exact List.mem_flatMap.mpr ⟨read, readMember,
    Line.mem_usedNames_iff.mpr ⟨statement, token, readHolds, given, named⟩⟩

/-- Every label that an instruction uses, of those that are left, has an offset. -/
theorem exists_offset_of_mem_resolve
    {lines : List Line}
    {line : Line}
    (member : line ∈ resolve lines)
    {name : String}
    (used : name ∈ line.usedNames) :
    ∃ offset, offsetOf? (offsetsFrom 0 (resolve lines)) name = some offset := by
  obtain ⟨read, _, rfl⟩ := List.mem_map.mp member
  obtain ⟨statement, token, holds, given, rfl⟩ :=
    Line.mem_usedNames_iff.mp used
  obtain ⟨_, usesDefined⟩ := statement?_resolve_iff.mp holds
  rw [Statement.undefined?, List.findSome?_eq_none_iff] at usesDefined
  have isDefined := usesDefined _ given
  simp only [ite_eq_left_iff, reduceCtorEq, imp_false, not_not,
    List.contains_iff_mem] at isDefined
  rwa [← Option.isSome_iff_exists, isSome_offsetOf?_iff, definedNames_resolve]

end Bytes

section Moving

/-- At a position of the image of lines begins the word of a label. -/
def LabelAt (lines : List Line) (position : Nat) : Prop :=
  ∃ index line start, (resolve lines)[index]? = some line ∧
    line.LabelAt (offsetsFrom 0 (resolve lines)) start ∧
    position =
      (((resolve lines).take index).flatMap
        (Line.bytes (offsetsFrom 0 (resolve lines)))).length + start

/-- Moving the label that an operand refers to moves its word. -/
theorem Reference.relocated
    {offsets others : List (String × Nat)}
    {distance : Nat}
    {reference : Reference}
    (moved : ∀ name, reference.name? = some name →
      ∃ offset, offsetOf? offsets name = some offset ∧
        offsetOf? others name = some (distance + offset)) :
    Image.Relocated (UInt64.ofNat distance)
      (fun start => start = 0 ∧ ∃ token, reference = .label token)
      (reference.bytes offsets) (reference.bytes others) := by
  cases reference with
  | value operand =>
      refine (Image.Relocated.refl _ _).congr fun start => ?_
      constructor
      · exact False.elim
      · rintro ⟨_, _, shape⟩
        cases shape
  | label token =>
      obtain ⟨offset, here, there⟩ := moved token.text rfl
      have increased :
          UInt64.ofNat (distance + offset) =
            UInt64.ofNat offset + UInt64.ofNat distance := by
        rw [Nat.add_comm, UInt64.ofNat_add]
      simp only [Reference.bytes, Reference.operand, here, there,
        Operand.encode, increased]
      refine (Image.relocated_toBytes _ _).congr fun start => ?_
      exact ⟨fun first => ⟨first, token, rfl⟩, And.left⟩

/-- Moving the labels that a line uses moves their words in its bytes. -/
theorem Line.relocated
    {offsets others : List (String × Nat)}
    {distance : Nat}
    {line : Line}
    (moved : ∀ name ∈ line.usedNames,
      ∃ offset, offsetOf? offsets name = some offset ∧
        offsetOf? others name = some (distance + offset)) :
    Image.Relocated (UInt64.ofNat distance) (line.LabelAt offsets)
      (line.bytes offsets) (line.bytes others) := by
  cases holds : line.statement? with
  | none =>
      have empty : ∀ offsets, line.bytes offsets = [] := by
        intro offsets
        rw [Line.bytes, holds]
      rw [empty, empty]
      refine (Image.Relocated.refl _ _).congr fun start => ?_
      constructor
      · exact False.elim
      · rintro ⟨statement, _, _, found, _⟩
        rw [holds] at found
        cases found
  | some statement =>
      rw [Line.usedNames, holds] at moved
      have operands := Image.Relocated.flatMap statement.operands
        fun reference member =>
          Reference.relocated fun name named =>
            moved name (List.mem_filterMap.mpr ⟨reference, member, named⟩)
      have whole := operands.append_left [statement.opcode.code]
      rw [Line.bytes, Line.bytes, holds]
      refine whole.congr fun start => ?_
      constructor
      · rintro ⟨_, ⟨argument, _, _, found, ⟨rfl, token, rfl⟩, rfl⟩, rfl⟩
        exact ⟨statement, argument, token, holds, found, rfl⟩
      · rintro ⟨_, argument, token, found, given, rfl⟩
        rw [holds] at found
        cases found
        exact ⟨_, ⟨argument, .label token, 0, given, ⟨rfl, token, rfl⟩, rfl⟩, rfl⟩

/-- The bytes of lines behind separate lines are relocated by their size. -/
theorem imageOf_append
    {first second : List Line}
    (separate : Separate first second) :
    ∃ relocated, imageOf (first ++ second) = imageOf first ++ relocated ∧
      Image.Relocated (UInt64.ofNat (totalSize (resolve first)))
        (LabelAt second) (imageOf second) relocated := by
  refine ⟨(resolve second).flatMap
    (Line.bytes (offsetsFrom 0 (resolve first ++ resolve second))), ?_, ?_⟩
  · rw [imageOf, resolve_append separate, List.flatMap_append, imageOf]
    congr 1
    rw [List.flatMap_def, List.flatMap_def]
    congr 1
    apply List.map_congr_left
    intro line member
    apply Line.bytes_congr
    intro name used
    apply offsetOf?_append_of_not_mem_right
    rw [definedNames_resolve]
    exact separate.forward name (usedNames_of_mem_resolve member used)
  · apply Image.Relocated.flatMap (resolve second)
    intro line member
    apply Line.relocated
    intro name used
    obtain ⟨offset, placed⟩ := exists_offset_of_mem_resolve member used
    have notEarlier : name ∉ definedNames (resolve first) := by
      rw [definedNames_resolve]
      exact separate.backward name (usedNames_of_mem_resolve member used)
    refine ⟨offset, placed, ?_⟩
    rw [offsetOf?_append_of_not_mem notEarlier, placed]
    rfl

end Moving

section Words

theorem readReference_eq_label_iff
    {kind : Operand.Kind}
    {token label : Token} :
    readReference kind token = .ok (.label label) ↔
      token = label ∧ kind = .word ∧ isLabelName token.text = true ∧
        register? token.text = none ∧ number? token.text = none := by
  cases kind with
  | register =>
      simp only [readReference, reduceCtorEq, false_and, and_false, iff_false]
      split <;> simp
  | word =>
      simp only [readReference, readWord, Option.isSome_iff_ne_none]
      split
      · next isRegister =>
          simp [isRegister]
      · next notRegister =>
          rw [not_not] at notRegister
          split
          · next number =>
              simp [number]
          · next notNumber =>
              split
              · next isName =>
                  simp [notRegister, notNumber, isName]
              · next notName =>
                  simp [notName]

/-- Each operand is read from the token at its place, by the kind at its place. -/
theorem getElem?_readReferences_iff
    {number : Nat}
    {kinds : List Operand.Kind}
    {arguments : List Token}
    {references : List Reference}
    (read : readReferences number kinds arguments = .ok references)
    {argument : Nat}
    {reference : Except SyntaxError Reference} :
    references[argument]?.map .ok = some reference ↔
      ∃ kind token, kinds[argument]? = some kind ∧
        arguments[argument]? = some token ∧
        readReference kind token = reference := by
  induction kinds generalizing arguments references argument with
  | nil =>
      cases read
      simp
  | cons kind kinds inductionHypothesis =>
      cases arguments with
      | nil =>
          cases read
          simp
      | cons token rest =>
          obtain ⟨first, others, firstRead, othersRead, rfl⟩ :=
            readReferences_cons_eq_ok_iff.mp read
          cases argument with
          | zero =>
              simp [firstRead]
          | succ argument =>
              exact inductionHypothesis othersRead

/-- An operand is a label where a word is asked for and the token is no value. -/
theorem getElem?_eq_label_iff
    {number : Nat}
    {kinds : List Operand.Kind}
    {arguments : List Token}
    {references : List Reference}
    (read : readReferences number kinds arguments = .ok references)
    {argument : Nat}
    {token : Token} :
    references[argument]? = some (.label token) ↔
      arguments[argument]? = some token ∧ kinds[argument]? = some .word ∧
        register? token.text = none ∧ number? token.text = none := by
  constructor
  · intro found
    have readSame := (getElem?_readReferences_iff read).mp
      (congrArg (Option.map Except.ok) found)
    obtain ⟨kind, other, asked, given, isLabel⟩ := readSame
    obtain ⟨rfl, rfl, _, notRegister, notNumber⟩ :=
      readReference_eq_label_iff.mp isLabel
    exact ⟨given, asked, notRegister, notNumber⟩
  · rintro ⟨given, asked, notRegister, notNumber⟩
    have readSame := (getElem?_readReferences_iff read).mpr
      ⟨.word, token, asked, given, rfl⟩
    obtain ⟨reference, found, isRead⟩ := Option.map_eq_some_iff.mp readSame
    rw [readReference, readWord, notRegister, notNumber] at isRead
    simp only [Option.isSome_none, Bool.false_eq_true, ↓reduceIte] at isRead
    split at isRead
    · cases isRead
      exact found
    · cases isRead

end Words

section Source

variable (source : String)

theorem getElem?_resolve_readSource (index : Nat) :
    (resolve (readSource source))[index]? =
      (Text.lines source.toList)[index]?.map fun line =>
        (readLine (1 + index) line).resolve (definedNames (readSource source)) := by
  rw [resolve, List.getElem?_map, getElem?_readSource, Option.map_map]
  rfl

/-- The bytes of the lines before an index reach up to the start of its slot. -/
theorem length_flatMap_bytes (index : Nat) :
    (((resolve (readSource source)).take index).flatMap
      (Line.bytes (labelOffsets source))).length =
        startOf (slots source) index := by
  rw [← length_flatMap_slotBytes (tiles_slots source), List.flatMap_def,
    List.flatMap_def, List.map_take, List.map_take, slots,
    map_slotBytes_slotsFrom (isPlaced_resolve source)]

/-- The argument of an instruction stands behind its code and the arguments before it. -/
theorem length_flatMap_reference_bytes
    {offsets : List (String × Nat)}
    {references : List Reference}
    {operands : List Operand}
    {kinds : List Operand.Kind}
    (resolved : operandsOf offsets references = .ok operands)
    (fits : operands.map Operand.kind = kinds)
    (argument : Nat) :
    ((references.take argument).flatMap (Reference.bytes offsets)).length =
      Operand.Kind.totalSize (kinds.take argument) := by
  rw [← fits, ← List.map_take, ← Image.length_flatMap_encode, List.flatMap_def,
    List.flatMap_def, List.map_take, List.map_take,
    map_bytes_of_operandsOf resolved]

/-- The words of labels in the image of a source are those of its tokens. -/
theorem labelAt_iff
    {position : Nat} :
    LabelAt (readSource source) position ↔
      ∃ name, LabelWord (Text.lines source.toList) (slots source) position
        name := by
  constructor
  · rintro ⟨index, resolved, _, isResolved,
      ⟨statement, argument, token, holds, isLabel, rfl⟩, rfl⟩
    rw [getElem?_resolve_readSource] at isResolved
    obtain ⟨line, found, rfl⟩ := Option.map_eq_some_iff.mp isResolved
    obtain ⟨body, usesDefined⟩ := statement?_resolve_iff.mp holds
    obtain ⟨operands, placed⟩ :=
      (exists_operandsOf_iff (isSome_labelOffsets_iff source)).mpr usesDefined
    have filled := getElem?_slots source found
    rw [Line.slot, holds, Option.bind_some, placed] at filled
    obtain ⟨_, instructs⟩ := (placement_slots source).filled found filled
    obtain ⟨mnemonic, arguments, shape, _, _, read⟩ :=
      readBody_eq_statement_iff.mp body
    obtain ⟨given, asked, notRegister, notNumber⟩ :=
      (getElem?_eq_label_iff read).mp isLabel
    refine ⟨token.text, ?_⟩
    have place := LabelWord.intro found filled shape given asked notRegister
      notNumber
    rw [← labelOffsets, length_flatMap_bytes,
      length_flatMap_reference_bytes placed instructs.fits.1, ← Nat.add_assoc]
    exact place
  · rintro ⟨name, labelWord⟩
    obtain @⟨index, argument, line, entry, mnemonic, token, arguments, found,
      filled, shape, given, asked, notRegister, notNumber⟩ := labelWord
    obtain ⟨offset, instructs⟩ := (placement_slots source).filled found filled
    have slot := getElem?_slots source found
    rw [filled, Option.some.injEq, Line.slot, eq_comm] at slot
    obtain ⟨statement, holds, made⟩ := Option.bind_eq_some_iff.mp slot
    obtain ⟨body, usesDefined⟩ := statement?_resolve_iff.mp holds
    obtain ⟨operands, placed⟩ :=
      (exists_operandsOf_iff (isSome_labelOffsets_iff source)).mpr usesDefined
    rw [placed] at made
    cases made
    obtain ⟨_, _, sameShape, _, _, read⟩ := readBody_eq_statement_iff.mp body
    cases shape.symm.trans sameShape
    have isLabel := (getElem?_eq_label_iff read).mpr
      ⟨given, asked, notRegister, notNumber⟩
    have isResolved := getElem?_resolve_readSource source index
    rw [found] at isResolved
    refine ⟨index, _, _, isResolved,
      ⟨statement, argument, token, holds, isLabel, rfl⟩, ?_⟩
    rw [← labelOffsets, length_flatMap_bytes,
      length_flatMap_reference_bytes placed instructs.fits.1, ← Nat.add_assoc]

end Source

end RegisterMachine.Assembly
