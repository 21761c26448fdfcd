import Mathlib.Data.List.Basic
import Mathlib.Data.Option.Basic
import RegisterMachine.Image.Listing
import RegisterMachine.Proofs.Text.Numeral

namespace RegisterMachine.Image

/-!
# Reading a dump

The text of a dump is taken apart at its line feeds and spaces.  All lines but
the last have sixteen entries, every entry is two hexadecimal digits, and the
entries in order are the bytes (`hexDump_isDump`).  So different bytes have
different dumps.
-/

/-- The lines of a dump; the empty text has none. -/
def dumpLines (text : List Char) : List (List Char) :=
  if text.isEmpty then [] else text.splitOn '\n'

/-- The entries on a line of a dump. -/
def dumpEntries (line : List Char) : List (List Char) :=
  line.splitOn ' '

/-- The digits that a dump is written with. -/
def isDumpDigit (character : Char) : Bool :=
  "0123456789abcdef".toList.contains character

/-- What a text has to be to show bytes, sixteen on a line. -/
structure IsDump (bytes : List UInt8) (text : List Char) : Prop where
  /-- There is a line for every sixteen bytes begun. -/
  lineCount : (dumpLines text).length = (bytes.length + 15) / 16
  fullLines : ∀ line ∈ (dumpLines text).dropLast, (dumpEntries line).length = 16
  lastLine :
    ∀ line ∈ (dumpLines text).getLast?,
      1 ≤ (dumpEntries line).length ∧ (dumpEntries line).length ≤ 16
  digits :
    ∀ line ∈ dumpLines text, ∀ entry ∈ dumpEntries line,
      entry.length = 2 ∧ ∀ character ∈ entry, isDumpDigit character
  noSeparatorAtEnds :
    ∀ separator ∈ [' ', '\n'],
      text.head? ≠ some separator ∧ text.getLast? ≠ some separator
  /-- The entries are the bytes in base 16. -/
  readBack :
    ((dumpLines text).flatMap dumpEntries).map (Text.Numeral.read? 16) =
      bytes.map fun byte => some byte.toNat

section Rows

@[simp] theorem dumpRows_nil : dumpRows [] = [] := by
  rw [dumpRows]
  rfl

theorem dumpRows_of_ne_nil
    {bytes : List UInt8}
    (notEmpty : bytes ≠ []) :
    dumpRows bytes = bytes.take 16 :: dumpRows (bytes.drop 16) := by
  rw [dumpRows, List.isEmpty_eq_false_iff.mpr notEmpty]
  rfl

/-- The rows in order are the bytes. -/
theorem flatten_dumpRows (bytes : List UInt8) : (dumpRows bytes).flatten = bytes := by
  fun_induction dumpRows bytes with
  | case1 bytes isEmpty =>
      exact (List.isEmpty_iff.mp isEmpty).symm
  | case2 bytes notEmpty inductionHypothesis =>
      rw [List.flatten_cons, inductionHypothesis, List.take_append_drop]

theorem length_dumpRows (bytes : List UInt8) :
    (dumpRows bytes).length = (bytes.length + 15) / 16 := by
  fun_induction dumpRows bytes with
  | case1 bytes isEmpty =>
      rw [List.isEmpty_iff.mp isEmpty]
      rfl
  | case2 bytes notEmpty inductionHypothesis =>
      have positive : 0 < bytes.length :=
        List.length_pos_of_ne_nil (List.isEmpty_eq_false_iff.mp (by simpa using notEmpty))
      rw [List.length_cons, inductionHypothesis, List.length_drop, dumpWidth]
      omega

/-- Every row but the last is full, and the last is not empty. -/
theorem dumpRows_eq_append
    {bytes : List UInt8}
    (notEmpty : bytes ≠ []) :
    ∃ full last, dumpRows bytes = full ++ [last] ∧
      (∀ row ∈ full, row.length = 16) ∧ 1 ≤ last.length ∧ last.length ≤ 16 := by
  fun_induction dumpRows bytes with
  | case1 bytes isEmpty =>
      exact (notEmpty (List.isEmpty_iff.mp isEmpty)).elim
  | case2 bytes _ inductionHypothesis =>
      have positive := List.length_pos_of_ne_nil notEmpty
      by_cases more : bytes.drop dumpWidth = []
      · refine ⟨[], bytes.take dumpWidth, ?_, nofun, ?_⟩
        · rw [more, dumpRows_nil]
          rfl
        · rw [List.length_take, dumpWidth]
          omega
      · obtain ⟨full, last, rows, fullRows, lastRow⟩ := inductionHypothesis more
        refine ⟨bytes.take dumpWidth :: full, last, ?_, ?_, lastRow⟩
        · rw [rows]
          rfl
        · intro row member
          rcases List.mem_cons.mp member with isFirst | later
          · have long : 16 < bytes.length :=
              Nat.lt_of_not_le fun short => more (List.drop_eq_nil_of_le short)
            rw [isFirst, List.length_take, dumpWidth]
            omega
          · exact fullRows row later

end Rows

section Texts

variable {α : Type} {separator : α} {texts : List (List α)}

/-- What joined texts are made of. -/
theorem mem_intercalate
    {element : α}
    (member : element ∈ [separator].intercalate texts) :
    element = separator ∨ ∃ text ∈ texts, element ∈ text := by
  induction texts with
  | nil =>
      cases member
  | cons text rest inductionHypothesis =>
      by_cases isLast : rest = []
      · subst isLast
        rw [List.intercalate_singleton] at member
        exact .inr ⟨text, List.mem_cons_self, member⟩
      · rw [List.intercalate_cons_of_ne_nil isLast, List.append_assoc,
          List.mem_append, List.mem_append, List.mem_singleton] at member
        rcases member with inFirst | isSeparator | inRest
        · exact .inr ⟨text, List.mem_cons_self, inFirst⟩
        · exact .inl isSeparator
        · rcases inductionHypothesis inRest with isSeparator | ⟨later, inTexts, inLater⟩
          · exact .inl isSeparator
          · exact .inr ⟨later, List.mem_cons_of_mem _ inTexts, inLater⟩

/-- A text that begins and ends with elements of a kind. -/
def HasEnds (good : α → Prop) (text : List α) : Prop :=
  (∃ first, good first ∧ text.head? = some first) ∧
    ∃ last, good last ∧ text.getLast? = some last

theorem HasEnds.ne_nil
    {good : α → Prop}
    {text : List α}
    (ends : HasEnds good text) :
    text ≠ [] := by
  rintro rfl
  obtain ⟨⟨_, _, isFirst⟩, _⟩ := ends
  cases isFirst

theorem hasEnds_of_forall
    {good : α → Prop}
    {text : List α}
    (notEmpty : text ≠ [])
    (allGood : ∀ element ∈ text, good element) :
    HasEnds good text :=
  ⟨⟨text.head notEmpty, allGood _ (List.head_mem notEmpty),
      List.head?_eq_some_head notEmpty⟩,
    text.getLast notEmpty, allGood _ (List.getLast_mem notEmpty),
    List.getLast?_eq_some_getLast notEmpty⟩

/-- An element of no good kind is at neither end. -/
theorem HasEnds.ne_of_not
    {good : α → Prop}
    {text : List α}
    (ends : HasEnds good text)
    {element : α}
    (notGood : ¬ good element) :
    text.head? ≠ some element ∧ text.getLast? ≠ some element := by
  obtain ⟨⟨first, goodFirst, isFirst⟩, last, goodLast, isLast⟩ := ends
  rw [isFirst, isLast]
  refine ⟨?_, ?_⟩
  · rintro ⟨⟩
    exact notGood goodFirst
  · rintro ⟨⟩
    exact notGood goodLast

/-- Joined texts begin as the first of them and end as the last. -/
theorem HasEnds.intercalate
    {good : α → Prop}
    (notEmpty : texts ≠ [])
    (ends : ∀ text ∈ texts, HasEnds good text) :
    HasEnds good ([separator].intercalate texts) := by
  induction texts with
  | nil =>
      exact (notEmpty rfl).elim
  | cons text rest inductionHypothesis =>
      have textEnds := ends text List.mem_cons_self
      by_cases isLast : rest = []
      · subst isLast
        rw [List.intercalate_singleton]
        exact textEnds
      · obtain ⟨⟨first, goodFirst, isFirst⟩, _⟩ := textEnds
        obtain ⟨_, last, goodLast, isLastElement⟩ :=
          inductionHypothesis isLast fun later inRest =>
            ends later (List.mem_cons_of_mem _ inRest)
        rw [List.intercalate_cons_of_ne_nil isLast]
        refine ⟨⟨first, goodFirst, ?_⟩, last, goodLast, ?_⟩
        · rw [List.append_assoc, List.head?_append, isFirst]
          rfl
        · rw [List.getLast?_append, isLastElement]
          rfl

end Texts

section Entries

/-- A byte is written as its two digits. -/
theorem toList_byteText (byte : UInt8) :
    (byteText byte).toList =
      [Nat.digitChar (byte.toNat / 16), Nat.digitChar (byte.toNat % 16)] := by
  have small := byte.toNat_lt
  rw [byteText, Text.Numeral.hex, Text.Numeral.toList_padded]
  by_cases single : byte.toNat < 16
  · rw [Nat.toDigits_of_lt_base single, Nat.div_eq_of_lt single,
      Nat.mod_eq_of_lt single]
    rfl
  · have high : byte.toNat / 16 < 16 := by
      omega
    rw [Nat.toDigits_of_base_le (by decide) (Nat.le_of_not_lt single),
      Nat.toDigits_of_lt_base high]
    rfl

private theorem isDumpDigit_digitChar :
    ∀ digit < 16, isDumpDigit (Nat.digitChar digit) = true := by
  decide

theorem isDumpDigit_of_mem_byteText
    {byte : UInt8}
    {character : Char}
    (member : character ∈ (byteText byte).toList) :
    isDumpDigit character = true := by
  have small := byte.toNat_lt
  rw [toList_byteText, List.mem_cons, List.mem_singleton] at member
  rcases member with isHigh | isLow
  · rw [isHigh]
    exact isDumpDigit_digitChar _ (by omega)
  · rw [isLow]
    exact isDumpDigit_digitChar _ (Nat.mod_lt _ (by decide))

theorem not_mem_byteText
    {separator : Char}
    (noDigit : isDumpDigit separator = false)
    (byte : UInt8) :
    separator ∉ (byteText byte).toList := by
  intro member
  cases noDigit.symm.trans (isDumpDigit_of_mem_byteText member)

/-- A byte is read back from its text. -/
theorem read?_byteText (byte : UInt8) :
    Text.Numeral.read? 16 (byteText byte).toList = some byte.toNat := by
  rw [byteText, Text.Numeral.hex]
  exact Text.Numeral.read?_padded (by decide) (by decide)

/-- The characters of a row. -/
def rowText (row : List UInt8) : List Char :=
  [' '].intercalate (row.map fun byte => (byteText byte).toList)

theorem dumpEntries_rowText
    {row : List UInt8}
    (notEmpty : row ≠ []) :
    dumpEntries (rowText row) = row.map fun byte => (byteText byte).toList := by
  refine List.splitOn_intercalate ' ' ?_ (List.map_eq_nil_iff.not.mpr notEmpty)
  intro entry inRow
  obtain ⟨byte, _, rfl⟩ := List.mem_map.mp inRow
  exact not_mem_byteText (by decide) byte

theorem length_dumpEntries_rowText
    {row : List UInt8}
    (notEmpty : row ≠ []) :
    (dumpEntries (rowText row)).length = row.length := by
  rw [dumpEntries_rowText notEmpty, List.length_map]

theorem newline_not_mem_rowText (row : List UInt8) : '\n' ∉ rowText row := by
  intro member
  rcases mem_intercalate member with isSeparator | ⟨entry, inRow, inEntry⟩
  · exact absurd isSeparator (by decide)
  · obtain ⟨byte, _, rfl⟩ := List.mem_map.mp inRow
    exact not_mem_byteText (by decide) byte inEntry

theorem hasEnds_rowText
    {row : List UInt8}
    (notEmpty : row ≠ []) :
    HasEnds (isDumpDigit ·) (rowText row) := by
  refine HasEnds.intercalate (List.map_eq_nil_iff.not.mpr notEmpty) ?_
  intro entry inRow
  obtain ⟨byte, _, rfl⟩ := List.mem_map.mp inRow
  refine hasEnds_of_forall ?_ fun _ => isDumpDigit_of_mem_byteText
  rw [toList_byteText]
  exact List.cons_ne_nil _ _

end Entries

section Lines

theorem toList_hexDump (bytes : List UInt8) :
    (hexDump bytes).toList = ['\n'].intercalate ((dumpRows bytes).map rowText) := by
  rw [hexDump, String.toList_intercalate, List.map_map]
  congr 1
  refine List.map_congr_left fun row _ => ?_
  rw [Function.comp_apply, String.toList_intercalate, List.map_map]
  rfl

theorem ne_nil_of_mem_dumpRows
    {bytes row : List UInt8}
    (member : row ∈ dumpRows bytes) :
    row ≠ [] := by
  by_cases notEmpty : bytes = []
  · rw [notEmpty, dumpRows_nil] at member
    cases member
  · obtain ⟨full, last, rows, fullRows, positive, _⟩ := dumpRows_eq_append notEmpty
    rw [rows, List.mem_append, List.mem_singleton] at member
    rintro rfl
    rcases member with inFull | rfl
    · cases fullRows [] inFull
    · cases positive

theorem hasEnds_hexDump
    {bytes : List UInt8}
    (notEmpty : bytes ≠ []) :
    HasEnds (isDumpDigit ·) (hexDump bytes).toList := by
  rw [toList_hexDump]
  refine HasEnds.intercalate ?_ ?_
  · rw [dumpRows_of_ne_nil notEmpty]
    exact List.cons_ne_nil _ _
  · intro line inLines
    obtain ⟨row, inRows, rfl⟩ := List.mem_map.mp inLines
    exact hasEnds_rowText (ne_nil_of_mem_dumpRows inRows)

/-- The lines of a dump are its rows. -/
theorem dumpLines_hexDump (bytes : List UInt8) :
    dumpLines (hexDump bytes).toList = (dumpRows bytes).map rowText := by
  by_cases notEmpty : bytes = []
  · rw [notEmpty, toList_hexDump, dumpRows_nil]
    rfl
  · have textNotEmpty := (hasEnds_hexDump notEmpty).ne_nil
    rw [dumpLines, List.isEmpty_eq_false_iff.mpr textNotEmpty, toList_hexDump]
    refine List.splitOn_intercalate '\n' ?_ ?_
    · intro line inLines
      obtain ⟨row, _, rfl⟩ := List.mem_map.mp inLines
      exact newline_not_mem_rowText row
    · rw [dumpRows_of_ne_nil notEmpty]
      exact List.cons_ne_nil _ _

/-- The entries of a dump in order are the texts of the bytes. -/
theorem flatMap_dumpEntries (bytes : List UInt8) :
    (dumpLines (hexDump bytes).toList).flatMap dumpEntries =
      bytes.map fun byte => (byteText byte).toList := by
  have entries :
      (dumpRows bytes).map (dumpEntries ∘ rowText) =
        (dumpRows bytes).map (List.map fun byte => (byteText byte).toList) :=
    List.map_congr_left fun row inRows =>
      dumpEntries_rowText (ne_nil_of_mem_dumpRows inRows)
  rw [dumpLines_hexDump, List.flatMap_def, List.map_map, entries, ← List.map_flatten,
    flatten_dumpRows]

theorem dumpLines_hexDump_of_rows
    {bytes last : List UInt8}
    {full : List (List UInt8)}
    (rows : dumpRows bytes = full ++ [last]) :
    dumpLines (hexDump bytes).toList = full.map rowText ++ [rowText last] := by
  rw [dumpLines_hexDump, rows, List.map_append, List.map_singleton]

theorem fullLines_hexDump
    {bytes : List UInt8}
    {line : List Char}
    (member : line ∈ (dumpLines (hexDump bytes).toList).dropLast) :
    (dumpEntries line).length = 16 := by
  by_cases notEmpty : bytes = []
  · rw [dumpLines_hexDump, notEmpty, dumpRows_nil] at member
    cases member
  · obtain ⟨full, last, rows, fullRows, _⟩ := dumpRows_eq_append notEmpty
    rw [dumpLines_hexDump_of_rows rows, List.dropLast_concat] at member
    obtain ⟨row, inFull, rfl⟩ := List.mem_map.mp member
    have width := fullRows row inFull
    have rowNotEmpty : row ≠ [] := List.ne_nil_of_length_eq_add_one width
    rw [length_dumpEntries_rowText rowNotEmpty, width]

theorem lastLine_hexDump
    {bytes : List UInt8}
    {line : List Char}
    (member : line ∈ (dumpLines (hexDump bytes).toList).getLast?) :
    1 ≤ (dumpEntries line).length ∧ (dumpEntries line).length ≤ 16 := by
  by_cases notEmpty : bytes = []
  · rw [dumpLines_hexDump, notEmpty, dumpRows_nil] at member
    cases member
  · obtain ⟨full, last, rows, _, lastRow⟩ := dumpRows_eq_append notEmpty
    rw [dumpLines_hexDump_of_rows rows, List.getLast?_concat, Option.mem_some_iff] at member
    subst member
    rw [length_dumpEntries_rowText (List.ne_nil_of_length_pos lastRow.1)]
    exact lastRow

theorem isDump_hexDump (bytes : List UInt8) : IsDump bytes (hexDump bytes).toList where
  lineCount := by
    rw [dumpLines_hexDump, List.length_map, length_dumpRows]
  fullLines := fun _ => fullLines_hexDump
  lastLine := fun _ => lastLine_hexDump
  digits := by
    intro line inLines entry inLine
    have inDump : entry ∈ (dumpLines (hexDump bytes).toList).flatMap dumpEntries :=
      List.mem_flatMap.mpr ⟨line, inLines, inLine⟩
    rw [flatMap_dumpEntries] at inDump
    obtain ⟨byte, _, rfl⟩ := List.mem_map.mp inDump
    refine ⟨?_, fun _ => isDumpDigit_of_mem_byteText⟩
    rw [toList_byteText]
    rfl
  noSeparatorAtEnds := by
    intro separator isSeparator
    have noDigit : isDumpDigit separator = false := by
      rcases List.mem_cons.mp isSeparator with rfl | isNewline
      · decide
      · rw [List.mem_singleton.mp isNewline]
        decide
    by_cases notEmpty : bytes = []
    · rw [notEmpty, toList_hexDump, dumpRows_nil]
      exact ⟨nofun, nofun⟩
    · exact (hasEnds_hexDump notEmpty).ne_of_not (ne_true_of_eq_false noDigit)
  readBack := by
    rw [flatMap_dumpEntries, List.map_map]
    refine List.map_congr_left fun byte _ => ?_
    rw [Function.comp_apply, read?_byteText]

end Lines

/-- Two byte strings that a text shows are the same. -/
theorem IsDump.unique
    {first second : List UInt8}
    {text : List Char}
    (showsFirst : IsDump first text)
    (showsSecond : IsDump second text) :
    first = second := by
  have same := showsFirst.readBack.symm.trans showsSecond.readBack
  refine List.map_injective_iff.mpr ?_ same
  exact (Option.some_injective _).comp fun _ _ => UInt8.toNat_inj.mp

/--
The text of a dump shows its bytes, it is empty only when there are none, and
different bytes have different dumps.
-/
theorem hexDump_loses_nothing :
    (∀ bytes, IsDump bytes (hexDump bytes).toList) ∧
      (∀ bytes, hexDump bytes = "" ↔ bytes = []) ∧
      Function.Injective hexDump := by
  refine ⟨isDump_hexDump, fun bytes => ⟨fun isEmpty => ?_, ?_⟩, fun first second same => ?_⟩
  · by_contra notEmpty
    exact (hasEnds_hexDump notEmpty).ne_nil (congrArg String.toList isEmpty)
  · rintro rfl
    rw [hexDump, dumpRows_nil]
    rfl
  · have showsSecond := isDump_hexDump second
    rw [← same] at showsSecond
    exact (isDump_hexDump first).unique showsSecond

end RegisterMachine.Image
