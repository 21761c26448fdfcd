import RegisterMachine.Proofs.Assembly.Alike

namespace RegisterMachine.Assembly

/-!
# Sources behind each other

A source, a line feed and another source are assembled together as the two
sources alone, when neither defines labels of the other or refers to them.  The
second image is relocated by the size of the first, and the second diagnostics
move down by the number of lines before.
-/

/-- The lines of joined sources are those of the sources, the second further down. -/
theorem readSource_append (first second : String) :
    ∃ before, AssembledAlike before (readSource first) ∧
      readSource (first ++ "\n" ++ second) =
        before ++ (readSource second).map
          (Line.moveDown (first.toList.count '\n' + 1)) := by
  refine ⟨_, assembledAlike_pieces 1 (Text.pieces first.toList), ?_⟩
  have joined :
      (first ++ "\n" ++ second).toList =
        first.toList ++ '\n' :: second.toList := by
    rw [String.toList_append, String.toList_append, List.append_assoc]
    rfl
  have whole :
      readSource (first ++ "\n" ++ second) =
        readLines 1 (Text.lines (first ++ "\n" ++ second).toList) := rfl
  rw [whole, joined, Text.lines_append, readLines_append, List.length_map,
    Text.length_pieces, readLines_add]
  rfl

/-- The size of the lines of a source is the length of their image. -/
theorem totalSize_readSource (source : String) :
    totalSize (resolve (readSource source)) =
      (imageOf (readSource source)).length := by
  have length := length_flatMap_bytes source (resolve (readSource source)).length
  rw [List.take_length, startOf, slots,
    sizeOf_take_slotsFrom (isPlaced_resolve source), sizeBefore,
    List.take_length] at length
  exact length.symm

/--
Two sources that are assembled, of which neither defines a label that the other
defines or refers to, are assembled with a line feed between them.  The image is
the first image and then the second one, with the length of the first added to
exactly the words of its labels.  The diagnostics are those of the first source
and then those of the second one, moved down by the lines before.
-/
theorem assemble_append
    {first second : String}
    {earlier later : Assembled}
    (firstSucceeded : assemble first = .ok earlier)
    (secondSucceeded : assemble second = .ok later)
    (separate : Separate (readSource first) (readSource second)) :
    ∃ relocated,
      assemble (first ++ "\n" ++ second) =
        .ok ⟨earlier.image ++ relocated,
          earlier.diagnostics ++ later.diagnostics.map
            (Diagnostic.moveDown (first.toList.count '\n' + 1))⟩ ∧
      Image.Relocated (UInt64.ofNat earlier.image.length)
        (fun position => ∃ name,
          LabelWord (Text.lines second.toList) (slots second) position name)
        later.image relocated := by
  obtain ⟨firstAccepted, rfl⟩ := assemble_eq_ok_iff.mp firstSucceeded
  obtain ⟨secondAccepted, rfl⟩ := assemble_eq_ok_iff.mp secondSucceeded
  obtain ⟨before, alike, read⟩ := readSource_append first second
  have separateMoved : Separate before ((readSource second).map
      (Line.moveDown (first.toList.count '\n' + 1))) := by
    constructor
    · rw [alike.defined, definedNames_moveDown]
      exact separate.definitions
    · rw [alike.used, definedNames_moveDown]
      exact separate.forward
    · rw [alike.defined, usedNames_moveDown]
      exact separate.backward
  obtain ⟨relocated, image, moved⟩ := imageOf_append separateMoved
  refine ⟨relocated, ?_, ?_⟩
  · rw [assemble_eq_ok_iff, read]
    constructor
    · intro line member
      rcases List.mem_append.mp member with inBefore | inMoved
      · exact alike.accepted.mpr firstAccepted line inBefore
      · obtain ⟨original, inSecond, rfl⟩ := List.mem_map.mp inMoved
        rw [fatal?_moveDown, secondAccepted original inSecond]
        rfl
    · rw [image, alike.image, errorsFrom_resolve_append separateMoved,
        alike.errors, resolve_moveDown, errorsFrom_moveDown]
  · rw [imageOf_moveDown, alike.size, totalSize_readSource] at moved
    exact moved.congr fun position =>
      (labelAt_moveDown _).trans (labelAt_iff second)

/-- A source of one instruction and one line that is skipped. -/
private def firstPart : String :=
  "a: LOAD R0, a\nbogus"

/-- A source whose label stands behind its use, and is defined twice. -/
private def secondPart : String :=
  "INC R1\nLOAD R2, b\nb: b:"

/-- Behind an image of ten bytes the word of the label grows from 12 to 22. -/
theorem assemble_append_twoParts :
    ∃ relocated,
      assemble (firstPart ++ "\n" ++ secondPart) =
        .ok ⟨[1, 0, 0, 0, 0, 0, 0, 0, 0, 0] ++ relocated,
          [⟨2, 1, .unknownMnemonic "bogus"⟩, ⟨5, 4, .duplicateLabel "b"⟩]⟩ ∧
      Image.wordAt? relocated 4 = some 22 := by
  have firstSucceeded :
      assemble firstPart =
        .ok ⟨[1, 0, 0, 0, 0, 0, 0, 0, 0, 0],
          [⟨2, 1, .unknownMnemonic "bogus"⟩]⟩ :=
    assemble_eq_ok_iff.mpr ⟨by decide +kernel, by decide +kernel⟩
  have secondSucceeded :
      assemble secondPart =
        .ok ⟨[9, 1, 1, 2, 12, 0, 0, 0, 0, 0, 0, 0],
          [⟨3, 4, .duplicateLabel "b"⟩]⟩ :=
    assemble_eq_ok_iff.mpr ⟨by decide +kernel, by decide +kernel⟩
  have separate : Separate (readSource firstPart) (readSource secondPart) :=
    ⟨by decide +kernel, by decide +kernel, by decide +kernel⟩
  obtain ⟨relocated, assembled, moved⟩ :=
    assemble_append firstSucceeded secondSucceeded separate
  have labelWord := @LabelWord.intro (Text.lines secondPart.toList)
    (slots secondPart) 1 1 "LOAD R2, b".toList
    ⟨2, .load, [.register 2, .word 12]⟩ ⟨"LOAD", 1⟩ ⟨"b", 10⟩
    [⟨"R2", 6⟩, ⟨"b", 10⟩] (by decide +kernel) (by decide +kernel)
    (by decide +kernel) rfl rfl (by decide +kernel) (by decide +kernel)
  obtain ⟨value, before, after⟩ := moved.moved 4 ⟨"b", labelWord⟩
  have word :
      Image.wordAt? [9, 1, 1, 2, 12, 0, 0, 0, 0, 0, 0, 0] 4 = some 12 := by
    decide
  obtain rfl := Option.some.inj (word.symm.trans before)
  exact ⟨relocated, assembled, after⟩

end RegisterMachine.Assembly
