import RegisterMachine.Proofs.Assembly.Cut

namespace RegisterMachine.Assembly

/-!
# Tokens as maximal runs

The tokens of a line are the maximal runs of characters in its code that neither
are commas nor blank, each at the place where it begins.
-/

/-- A maximal run of characters that do not separate, between what is before and after it. -/
structure IsRun (characters before run after : List Char) : Prop where
  whole :
    characters = before ++ run ++ after
  notEmpty :
    run ≠ []
  plain :
    ∀ character ∈ run, isSeparator character = false
  starts :
    ∀ character, before.getLast? = some character →
      isSeparator character = true
  ends :
    ∀ character, after.head? = some character → isSeparator character = true

section Runs

variable {character : Char} {rest before run after : List Char}

theorem isTokenCharacter_eq_true_iff :
    isTokenCharacter character = true ↔ isSeparator character = false := by
  rw [isTokenCharacter, Bool.not_eq_true']

/-- A run that nothing stands before is what is taken while no separator comes. -/
theorem IsRun.takeWhile_eq
    {characters : List Char}
    (isRun : IsRun characters [] run after) :
    characters.takeWhile isTokenCharacter = run ∧
      characters.dropWhile isTokenCharacter = after := by
  have plain : ∀ character ∈ run, isTokenCharacter character = true :=
    fun character member =>
      isTokenCharacter_eq_true_iff.mpr (isRun.plain character member)
  have separated : after.takeWhile isTokenCharacter = [] := by
    refine takeWhile_eq_nil fun character first => ?_
    rw [isTokenCharacter, isRun.ends character first]
    rfl
  have taken : characters.takeWhile isTokenCharacter = run := by
    rw [isRun.whole, List.nil_append, List.takeWhile_append_of_pos plain, separated,
      List.append_nil]
  have whole : characters.takeWhile isTokenCharacter ++
      characters.dropWhile isTokenCharacter = run ++ after :=
    List.takeWhile_append_dropWhile.trans isRun.whole
  rw [taken] at whole
  exact ⟨taken, List.append_cancel_left whole⟩

/-- No run contains a separator that stands first. -/
theorem isRun_cons_separator_iff
    (here : isSeparator character = true) :
    IsRun (character :: rest) before run after ↔
      ∃ others, before = character :: others ∧ IsRun rest others run after := by
  constructor
  · intro isRun
    cases before with
    | nil =>
        have member : character ∈ run := by
          obtain ⟨first, others, rfl⟩ := List.exists_cons_of_ne_nil isRun.notEmpty
          obtain ⟨rfl, _⟩ := List.cons.inj isRun.whole
          exact List.mem_cons_self
        cases here.symm.trans (isRun.plain character member)
    | cons first others =>
        obtain ⟨rfl, whole⟩ := List.cons.inj isRun.whole
        refine ⟨others, rfl, whole, isRun.notEmpty, isRun.plain, ?_, isRun.ends⟩
        intro last isLast
        apply isRun.starts
        rw [List.getLast?_cons, isLast]
        rfl
  · rintro ⟨others, rfl, isRun⟩
    refine ⟨congrArg (character :: ·) isRun.whole, isRun.notEmpty, isRun.plain, ?_,
      isRun.ends⟩
    intro last isLast
    cases found : others.getLast? with
    | none =>
        rw [List.getLast?_cons, found] at isLast
        cases isLast
        exact here
    | some other =>
        rw [List.getLast?_cons, found] at isLast
        cases isLast
        exact isRun.starts _ found

/-- A run is the first one, or it is a run of what is behind the first one. -/
theorem isRun_cons_iff
    (notHere : isSeparator character = false) :
    let first := character :: rest.takeWhile isTokenCharacter
    let behind := rest.dropWhile isTokenCharacter
    IsRun (character :: rest) before run after ↔
      (before = [] ∧ run = first ∧ after = behind) ∨
        ∃ others, before = first ++ others ∧ IsRun behind others run after := by
  intro first behind
  have isPlain := isTokenCharacter_eq_true_iff.mpr notHere
  have isFirst : (character :: rest).takeWhile isTokenCharacter = first := by
    rw [List.takeWhile_cons, isPlain]
    rfl
  have isBehind : (character :: rest).dropWhile isTokenCharacter = behind := by
    rw [List.dropWhile_cons, isPlain]
    rfl
  have split : character :: rest = first ++ behind := by
    rw [← isFirst, ← isBehind, List.takeWhile_append_dropWhile]
  have separates : ∀ character, behind.head? = some character →
      isSeparator character = true := by
    intro other isHead
    have notPlain := separates_of_head?_dropWhile isHead
    rwa [isTokenCharacter, Bool.not_eq_false'] at notPlain
  have plain : ∀ character ∈ first, isSeparator character = false :=
    List.forall_mem_cons.mpr ⟨notHere, fun other member =>
      isTokenCharacter_eq_true_iff.mp
        (List.all_eq_true.mp List.all_takeWhile other member)⟩
  constructor
  · intro isRun
    cases last : before.getLast? with
    | none =>
        obtain rfl := List.getLast?_eq_none_iff.mp last
        obtain ⟨taken, dropped⟩ := isRun.takeWhile_eq
        exact .inl ⟨rfl, taken.symm.trans isFirst, dropped.symm.trans isBehind⟩
    | some separator =>
        -- The first run ends before the separator that this one stands behind.
        right
        have here := isRun.starts separator last
        have whole : first ++ behind = before ++ (run ++ after) := by
          rw [← split, isRun.whole, List.append_assoc]
        rcases List.append_eq_append_iff.mp whole with
            ⟨others, rfl, shape⟩ | ⟨others, tooLong, _⟩
        · refine ⟨others, rfl, ?_, isRun.notEmpty, isRun.plain, ?_, isRun.ends⟩
          · rw [shape, List.append_assoc]
          · intro other isLast
            apply isRun.starts
            rw [List.getLast?_append, isLast]
            rfl
        · have member : separator ∈ first := by
            rw [tooLong]
            exact List.mem_append_left others (List.mem_of_getLast? last)
          cases here.symm.trans (plain separator member)
  · rintro (⟨rfl, rfl, rfl⟩ | ⟨others, rfl, isRun⟩)
    · refine ⟨split, List.cons_ne_nil _ _, plain, ?_, separates⟩
      intro last isLast
      cases isLast
    · refine ⟨?_, isRun.notEmpty, isRun.plain, ?_, isRun.ends⟩
      · rw [split, isRun.whole]
        simp only [List.append_assoc]
      · intro last isLast
        cases found : others.getLast? with
        | some other =>
            rw [List.getLast?_append, found] at isLast
            cases isLast
            exact isRun.starts last found
        | none =>
            obtain rfl := List.getLast?_eq_none_iff.mp found
            obtain ⟨start, more, rfl⟩ := List.exists_cons_of_ne_nil isRun.notEmpty
            have isHead : behind.head? = some start := by
              rw [isRun.whole]
              rfl
            cases (separates start isHead).symm.trans
              (isRun.plain start List.mem_cons_self)

/-- The tokens of characters are their maximal runs, where they begin. -/
theorem mem_tokensFrom_iff
    {column : Nat}
    {characters : List Char}
    {token : Token} :
    token ∈ tokensFrom column characters ↔
      ∃ before run after, IsRun characters before run after ∧
        token = ⟨String.ofList run, column + byteWidth before⟩ := by
  fun_induction tokensFrom column characters with
  | case1 column =>
      constructor
      · intro member
        cases member
      · rintro ⟨before, run, after, isRun, _⟩
        obtain ⟨noBefore, _⟩ := List.append_eq_nil_iff.mp isRun.whole.symm
        exact (isRun.notEmpty (List.append_eq_nil_iff.mp noBefore).2).elim
  | case2 column character rest here inductionHypothesis =>
      rw [inductionHypothesis]
      simp only [isRun_cons_separator_iff here]
      constructor
      · rintro ⟨before, run, after, isRun, rfl⟩
        exact ⟨character :: before, run, after, ⟨before, rfl, isRun⟩,
          by rw [byteWidth, Nat.add_assoc]⟩
      · rintro ⟨_, run, after, ⟨before, rfl, isRun⟩, rfl⟩
        exact ⟨before, run, after, isRun, by rw [byteWidth, Nat.add_assoc]⟩
  | case3 column character rest notHere run inductionHypothesis =>
      have plain : isSeparator character = false := (Bool.not_eq_true _).mp notHere
      rw [List.mem_cons, inductionHypothesis]
      simp only [isRun_cons_iff plain]
      constructor
      · rintro (rfl | ⟨before, later, after, isRun, rfl⟩)
        · exact ⟨[], run, _, .inl ⟨rfl, rfl, rfl⟩, rfl⟩
        · exact ⟨run ++ before, later, after, .inr ⟨before, rfl, isRun⟩,
            by rw [byteWidth_append, Nat.add_assoc]⟩
      · rintro ⟨_, later, after, ⟨rfl, rfl, rfl⟩ | ⟨before, rfl, isRun⟩, rfl⟩
        · exact .inl rfl
        · exact .inr ⟨before, later, after, isRun,
            by rw [byteWidth_append, Nat.add_assoc]⟩

end Runs

section Bytes

/-- The width of characters is the number of their UTF-8 bytes. -/
theorem size_toUTF8_ofList (characters : List Char) :
    (String.ofList characters).toUTF8.size = byteWidth characters := by
  rw [String.toUTF8_eq_toByteArray, String.toByteArray_ofList]
  induction characters with
  | nil =>
      rfl
  | cons character rest inductionHypothesis =>
      rw [List.utf8Encode_cons, ByteArray.size_append, inductionHypothesis,
        List.utf8Encode_singleton, List.size_toByteArray,
        String.length_utf8EncodeChar, byteWidth]

/-- The bytes of a part of a line are those of the line at the place of the part. -/
theorem extract_toUTF8_append
    (before run after : List Char) :
    (String.ofList (before ++ run ++ after)).toUTF8.extract (byteWidth before)
        (byteWidth before + byteWidth run) =
      (String.ofList run).toUTF8 := by
  have beforeSize := size_toUTF8_ofList before
  have runSize := size_toUTF8_ofList run
  simp only [String.toUTF8_eq_toByteArray, String.toByteArray_ofList,
    List.utf8Encode_append, ByteArray.append_assoc] at beforeSize runSize ⊢
  have behind : (before.utf8Encode ++ (run.utf8Encode ++ after.utf8Encode)).extract
      (before.utf8Encode.size + 0)
      (before.utf8Encode.size + run.utf8Encode.size) = _ :=
    ByteArray.extract_append_size_add
  rw [← beforeSize, ← runSize]
  exact behind.trans (ByteArray.extract_append_eq_left rfl)

end Bytes

end RegisterMachine.Assembly
