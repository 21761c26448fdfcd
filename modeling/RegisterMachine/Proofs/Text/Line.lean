import RegisterMachine.Text.Line

namespace RegisterMachine.Text

/-!
# Lines of joined texts

Texts that are joined by a line feed keep their pieces, and texts that hold no
line ending of their own are the lines of their joining.
-/

theorem pieces_of_not_mem
    {text : List Char}
    (clean : '\n' ∉ text) :
    pieces text = [text] := by
  induction text with
  | nil =>
      rfl
  | cons character rest inductionHypothesis =>
      rw [List.mem_cons, not_or] at clean
      have later := inductionHypothesis clean.2
      simp only [pieces, List.foldr_cons] at later ⊢
      rw [if_neg (Ne.symm clean.1), later]

/-- A line feed between two texts keeps their pieces apart. -/
theorem pieces_append (first second : List Char) :
    pieces (first ++ '\n' :: second) = pieces first ++ pieces second := by
  induction first with
  | nil =>
      rfl
  | cons character rest inductionHypothesis =>
      simp only [pieces, List.cons_append, List.foldr_cons] at inductionHypothesis ⊢
      rw [inductionHypothesis]
      split
      · rfl
      · cases shape : rest.foldr _ [[]] with
        | nil =>
            exact (pieces_ne_nil rest shape).elim
        | cons piece others =>
            rfl

/-- A line feed ends the piece before it. -/
theorem pieces_append_newline
    {text : List Char}
    (clean : '\n' ∉ text)
    (rest : List Char) :
    pieces (text ++ '\n' :: rest) = text :: pieces rest := by
  rw [pieces_append, pieces_of_not_mem clean]
  rfl

/-- There is one piece more than there are line feeds. -/
theorem length_pieces (text : List Char) :
    (pieces text).length = text.count '\n' + 1 := by
  induction text with
  | nil =>
      rfl
  | cons character rest inductionHypothesis =>
      rw [List.count_cons, ← Nat.add_right_comm, ← inductionHypothesis]
      simp only [pieces, List.foldr_cons, beq_iff_eq]
      split
      · rfl
      · cases shape : rest.foldr _ [[]] with
        | nil =>
            exact (pieces_ne_nil rest shape).elim
        | cons piece others =>
            rfl

theorem not_mem_of_mem_pieces
    {text piece : List Char}
    (member : piece ∈ pieces text) :
    '\n' ∉ piece := by
  induction text generalizing piece with
  | nil =>
      obtain rfl := List.mem_singleton.mp member
      exact List.not_mem_nil
  | cons character rest inductionHypothesis =>
      simp only [pieces, List.foldr_cons] at member inductionHypothesis
      split at member
      · rcases List.mem_cons.mp member with rfl | later
        · exact List.not_mem_nil
        · exact inductionHypothesis later
      · next ordinary =>
          split at member
          · next shape =>
              exact (pieces_ne_nil rest shape).elim
          · next first others shape =>
              rw [shape] at inductionHypothesis
              rcases List.mem_cons.mp member with rfl | later
              · rw [List.mem_cons, not_or]
                exact ⟨Ne.symm ordinary,
                  inductionHypothesis List.mem_cons_self⟩
              · exact inductionHypothesis (List.mem_cons_of_mem _ later)

/-- All pieces but the last were ended by a line feed. -/
theorem linesOfPieces_append
    (first : List (List Char))
    {second : List (List Char)}
    (notEmpty : second ≠ []) :
    linesOfPieces (first ++ second) =
      first.map dropReturn ++ linesOfPieces second := by
  induction first with
  | nil =>
      rfl
  | cons piece rest inductionHypothesis =>
      have more : rest ++ second ≠ [] := List.append_ne_nil_of_right_ne_nil _ notEmpty
      rw [List.cons_append, linesOfPieces, inductionHypothesis]
      · rfl
      · exact more

/-- The lines of a text, a line feed and another text. -/
theorem lines_append (first second : List Char) :
    lines (first ++ '\n' :: second) =
      (pieces first).map dropReturn ++ lines second := by
  rw [lines, pieces_append, linesOfPieces_append _ (pieces_ne_nil second), lines]

/-- A line is a piece, perhaps without a carriage return at its end. -/
theorem exists_piece_of_mem_linesOfPieces
    {texts : List (List Char)}
    {line : List Char}
    (member : line ∈ linesOfPieces texts) :
    ∃ piece ∈ texts, line <+: piece := by
  fun_induction linesOfPieces texts with
  | case1 | case2 =>
      cases member
  | case3 last =>
      exact ⟨line, member, List.prefix_rfl⟩
  | case4 piece rest more inductionHypothesis =>
      rcases List.mem_cons.mp member with rfl | later
      · refine ⟨piece, List.mem_cons_self, ?_⟩
        rw [dropReturn]
        split
        · exact List.dropLast_prefix piece
        · exact List.prefix_rfl
      · obtain ⟨other, isPiece, isPrefix⟩ := inductionHypothesis later
        exact ⟨other, List.mem_cons_of_mem piece isPiece, isPrefix⟩

/-- No line contains a line feed. -/
theorem not_mem_of_mem_lines
    {text line : List Char}
    (member : line ∈ lines text) :
    '\n' ∉ line := by
  obtain ⟨piece, isPiece, isPrefix⟩ := exists_piece_of_mem_linesOfPieces member
  exact fun feed => not_mem_of_mem_pieces isPiece (isPrefix.subset feed)

/-- The pieces of joined texts are the texts. -/
theorem pieces_intercalate
    {texts : List (List Char)}
    (notEmpty : texts ≠ [])
    (clean : ∀ text ∈ texts, '\n' ∉ text) :
    pieces (['\n'].intercalate texts) = texts := by
  induction texts with
  | nil =>
      exact (notEmpty rfl).elim
  | cons text rest inductionHypothesis =>
      obtain ⟨textClean, restClean⟩ := List.forall_mem_cons.mp clean
      cases rest with
      | nil =>
          rw [List.intercalate_singleton, pieces_of_not_mem textClean]
      | cons next others =>
          rw [List.intercalate_cons_cons, List.append_assoc,
            List.singleton_append, pieces_append_newline textClean,
            inductionHypothesis (List.cons_ne_nil _ _) restClean]

theorem dropReturn_of_not_mem
    {piece : List Char}
    (clean : '\r' ∉ piece) :
    dropReturn piece = piece := by
  rw [dropReturn, if_neg]
  exact fun last => clean (List.mem_of_getLast? last)

private theorem linesOfPieces_of_clean
    {texts : List (List Char)}
    (clean : ∀ text ∈ texts, text ≠ [] ∧ '\r' ∉ text) :
    linesOfPieces texts = texts := by
  induction texts with
  | nil =>
      rfl
  | cons text rest inductionHypothesis =>
      obtain ⟨⟨notEmpty, noReturn⟩, restClean⟩ := List.forall_mem_cons.mp clean
      cases rest with
      | nil =>
          rw [linesOfPieces, List.isEmpty_eq_false_iff.mpr notEmpty]
          rfl
      | cons next others =>
          rw [linesOfPieces, dropReturn_of_not_mem noReturn,
            inductionHypothesis restClean]
          exact List.cons_ne_nil next others

/-- Texts without line endings of their own are the lines of their joining. -/
theorem lines_intercalate
    {texts : List (List Char)}
    (clean : ∀ text ∈ texts, text ≠ [] ∧ '\n' ∉ text ∧ '\r' ∉ text) :
    lines (['\n'].intercalate texts) = texts := by
  cases texts with
  | nil =>
      rfl
  | cons text rest =>
      rw [lines, pieces_intercalate (List.cons_ne_nil _ _)]
      · exact linesOfPieces_of_clean fun member inTexts =>
          ⟨(clean member inTexts).1, (clean member inTexts).2.2⟩
      · exact fun member inTexts => (clean member inTexts).2.1

/-- Texts without line endings of their own are the lines that they make when ended. -/
theorem lines_flatMap_ended
    {texts : List (List Char)}
    (clean : ∀ text ∈ texts, '\n' ∉ text ∧ '\r' ∉ text) :
    lines (texts.flatMap fun text => text ++ ['\n']) = texts := by
  induction texts with
  | nil =>
      rfl
  | cons text rest inductionHypothesis =>
      obtain ⟨⟨noFeed, noReturn⟩, restClean⟩ := List.forall_mem_cons.mp clean
      rw [List.flatMap_cons, List.append_assoc, List.singleton_append, lines_append,
        pieces_of_not_mem noFeed, List.map_singleton, dropReturn_of_not_mem noReturn,
        inductionHypothesis restClean]
      rfl

section Changing

variable (change : Nat → List Char → List Char)

/-- The carriage return at the end of a piece, which `dropReturn` drops. -/
def returnOf (piece : List Char) : List Char :=
  if piece.getLast? = some '\r' then ['\r'] else []

/-- Pieces with the line in each of them changed, by its number. -/
def mapPieces (number : Nat) : List (List Char) → List (List Char)
  | [] => []
  | [last] => [change number last]
  | piece :: rest =>
      (change number (dropReturn piece) ++ returnOf piece) ::
        mapPieces (number + 1) rest

/-- A text with each line changed, by its number from one; line endings stay. -/
def mapLines (text : List Char) : List Char :=
  ['\n'].intercalate (mapPieces change 1 (pieces text))

theorem dropReturn_append_returnOf (piece : List Char) :
    dropReturn piece ++ returnOf piece = piece := by
  rw [dropReturn, returnOf]
  split
  · next ended =>
      obtain ⟨line, rfl⟩ := List.getLast?_eq_some_iff.mp ended
      rw [List.dropLast_concat]
  · exact List.append_nil piece

theorem not_mem_of_mem_mapPieces
    (clean : ∀ number line, '\n' ∉ line → '\n' ∉ change number line)
    {texts : List (List Char)}
    (textsClean : ∀ text ∈ texts, '\n' ∉ text)
    (number : Nat) :
    ∀ text ∈ mapPieces change number texts, '\n' ∉ text := by
  induction texts generalizing number with
  | nil =>
      exact nofun
  | cons piece rest inductionHypothesis =>
      obtain ⟨pieceClean, restClean⟩ := List.forall_mem_cons.mp textsClean
      cases rest with
      | nil =>
          exact List.forall_mem_singleton.mpr (clean number piece pieceClean)
      | cons next others =>
          refine List.forall_mem_cons.mpr ⟨?_, inductionHypothesis restClean _⟩
          rw [List.mem_append, not_or]
          constructor
          · apply clean
            rw [← dropReturn_append_returnOf piece, List.mem_append, not_or]
              at pieceClean
            exact pieceClean.1
          · rw [returnOf]
            split <;> decide

/-- Changing lines within themselves changes pieces one by one. -/
theorem pieces_mapLines
    (clean : ∀ number line, '\n' ∉ line → '\n' ∉ change number line)
    (text : List Char) :
    pieces (mapLines change text) = mapPieces change 1 (pieces text) := by
  apply pieces_intercalate
  · cases shape : pieces text with
    | nil =>
        exact (pieces_ne_nil text shape).elim
    | cons piece rest =>
        cases rest <;> exact List.cons_ne_nil _ _
  · exact not_mem_of_mem_mapPieces change clean
      (fun _ member => not_mem_of_mem_pieces member) 1

theorem intercalate_pieces (text : List Char) :
    ['\n'].intercalate (pieces text) = text := by
  induction text with
  | nil =>
      rfl
  | cons character rest inductionHypothesis =>
      simp only [pieces, List.foldr_cons] at inductionHypothesis ⊢
      cases shape : rest.foldr _ [[]] with
      | nil =>
          exact (pieces_ne_nil rest shape).elim
      | cons piece others =>
          rw [shape] at inductionHypothesis
          split
          · next isNewline =>
              rw [List.intercalate_cons_cons, inductionHypothesis, isNewline]
              rfl
          · cases others with
            | nil =>
                rw [List.intercalate_singleton] at inductionHypothesis ⊢
                rw [inductionHypothesis]
            | cons next others =>
                rw [List.intercalate_cons_cons] at inductionHypothesis ⊢
                rw [← inductionHypothesis]
                rfl

/-- Changing no line changes nothing in a text. -/
theorem mapLines_same (text : List Char) :
    mapLines (fun _ line => line) text = text := by
  have same : ∀ number texts,
      mapPieces (fun _ line => line) number texts = texts := by
    intro number texts
    induction texts generalizing number with
    | nil =>
        rfl
    | cons piece rest inductionHypothesis =>
        cases rest with
        | nil =>
            rfl
        | cons next others =>
            rw [mapPieces, dropReturn_append_returnOf, inductionHypothesis]
            exact List.cons_ne_nil next others
  rw [mapLines, same, intercalate_pieces]

end Changing

end RegisterMachine.Text
