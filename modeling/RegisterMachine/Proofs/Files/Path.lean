import RegisterMachine.Files.Path

namespace RegisterMachine.Files.Path

/-!
# Where the image of a source goes

A path is its last name after all before it.  The path for the image changes only
the last name: it starts where the path of the source starts and leads there
through the same names, apart from names `.` that count for nothing.
-/

/-- Names of a path that is given by its characters. -/
def namesOf (characters : List Char) : List String :=
  ((characters.splitOn '/').filter fun piece => !piece.isEmpty).map String.ofList

theorem namesOf_append_slash (before after : List Char) :
    namesOf (before ++ '/' :: after) = namesOf before ++ namesOf after := by
  rw [namesOf, List.splitOn_append_cons_self, List.filter_append, List.map_append]
  rfl

theorem namesOf_of_not_mem
    {name : List Char}
    (clean : '/' ∉ name)
    (notEmpty : name ≠ []) :
    namesOf name = [String.ofList name] := by
  simp [namesOf, List.splitOn_eq_singleton clean, notEmpty]

theorem endsInSlash_iff {path : String} :
    endsInSlash path = true ↔ ∃ before, path.toList = before ++ ['/'] := by
  rw [endsInSlash, beq_iff_eq, List.getLast?_eq_some_iff]

section Join

variable {directory name : String}

/-- A name below a path comes after the names of the path. -/
theorem names_join
    (clean : '/' ∉ name.toList)
    (notEmpty : name ≠ "") :
    names (join directory name) = names directory ++ [name] := by
  have alone : namesOf name.toList = [name] := by
    rw [namesOf_of_not_mem clean (by simpa using notEmpty), String.ofList_toList]
  change namesOf _ = namesOf _ ++ [name]
  rw [join]
  split
  · next ends =>
      obtain rfl | ends := ends
      · rw [String.empty_append, alone]
        rfl
      · obtain ⟨before, shape⟩ := endsInSlash_iff.mp ends
        rw [String.toList_append, shape, List.append_assoc, List.singleton_append,
          namesOf_append_slash, namesOf_append_slash, alone, List.append_assoc]
        rfl
  · have shape : (directory ++ "/" ++ name).toList =
        directory.toList ++ '/' :: name.toList := by
      simp
    rw [shape, namesOf_append_slash, alone]

/-- A name below a path starts where the path starts. -/
theorem isAbsolute_join
    (clean : '/' ∉ name.toList) :
    isAbsolute (join directory name) = isAbsolute directory := by
  have relative : isAbsolute name = false := by
    rw [isAbsolute, beq_eq_false_iff_ne]
    exact fun starts => clean (List.mem_of_head? starts)
  by_cases empty : directory = ""
  · subst empty
    rw [join, if_pos (.inl rfl), String.empty_append, relative]
    rfl
  · have notEmpty : directory.toList ≠ [] := by simpa using empty
    obtain ⟨first, others, shape⟩ := List.exists_cons_of_ne_nil notEmpty
    rw [join]
    split <;> simp [isAbsolute, shape]

end Join

section TrimBack

/-- A path starts as before when what counts for nothing is gone from its end. -/
theorem getLast?_trimBack (back : List Char) :
    (trimBack back).getLast? = back.getLast? := by
  fun_induction trimBack back with
  | case1 next rest inductionHypothesis =>
      rw [inductionHypothesis, List.getLast?_cons_cons]
  | case2 rest inductionHypothesis =>
      rw [inductionHypothesis, List.getLast?_cons_cons]
  | case3 characters noSlash noDot =>
      rfl

/-- Only names `.` are gone from the end. -/
theorem namesOf_trimBack (back : List Char) :
    ∃ dots, namesOf back.reverse = namesOf (trimBack back).reverse ++ dots ∧
      ∀ name ∈ dots, name = "." := by
  fun_induction trimBack back with
  | case1 next rest inductionHypothesis =>
      obtain ⟨dots, names, allDots⟩ := inductionHypothesis
      refine ⟨dots, ?_, allDots⟩
      rw [List.reverse_cons, namesOf_append_slash, names]
      exact List.append_nil _
  | case2 rest inductionHypothesis =>
      obtain ⟨dots, names, allDots⟩ := inductionHypothesis
      refine ⟨dots ++ ["."], ?_, ?_⟩
      · have slash : namesOf ('/' :: rest).reverse = namesOf rest.reverse := by
          rw [List.reverse_cons, namesOf_append_slash]
          exact List.append_nil _
        rw [List.reverse_cons, List.reverse_cons, List.append_assoc,
          List.singleton_append, namesOf_append_slash, ← slash, names,
          List.append_assoc]
        rfl
      · simp only [List.mem_append, List.mem_singleton]
        rintro name (earlier | rfl)
        · exact allDots name earlier
        · rfl
  | case3 characters noSlash noDot =>
      exact ⟨[], (List.append_nil _).symm, nofun⟩

/-- Nothing is gone from the end of a name that says something. -/
theorem trimBack_name
    {name : List Char}
    (clean : '/' ∉ name)
    (notEmpty : name ≠ [])
    (notDot : name ≠ ['.'])
    (before : List Char) :
    trimBack (name ++ before) = name ++ before := by
  obtain ⟨first, others, rfl⟩ := List.exists_cons_of_ne_nil notEmpty
  rw [List.cons_append, trimBack.eq_3]
  · intro next rest shape
    obtain rfl := (List.cons.inj shape).1
    exact clean List.mem_cons_self
  · intro rest shape
    obtain ⟨isDot, more⟩ := List.cons.inj shape
    cases others with
    | nil =>
        exact notDot (congrArg (· :: []) isDot)
    | cons second others =>
        obtain rfl := (List.cons.inj more).1
        exact clean (List.mem_cons_of_mem _ List.mem_cons_self)

end TrimBack

/-- The characters of a path, cut behind its last slash. -/
structure Cut (path : String) (front name : List Char) : Prop where
  whole :
    path.toList = front ++ name
  clean :
    '/' ∉ name
  ended :
    front = [] ∨ ∃ before, front = before ++ ['/']

theorem exists_cut (path : String) : ∃ front name, Cut path front name := by
  let back := path.toList.reverse
  refine ⟨(back.dropWhile (· != '/')).reverse, (back.takeWhile (· != '/')).reverse,
    ?_, ?_, ?_⟩
  · rw [← List.reverse_append, List.takeWhile_append_dropWhile, List.reverse_reverse]
  · intro member
    have ordinary :=
      List.all_eq_true.mp List.all_takeWhile _ (List.mem_reverse.mp member)
    cases ordinary
  · have stops := List.head?_dropWhile_not (· != '/') back
    cases rest : back.dropWhile (· != '/') with
    | nil =>
        exact .inl rfl
    | cons first others =>
        have slash : first = '/' := by simpa [rest] using stops
        exact .inr ⟨others.reverse, by rw [slash, List.reverse_cons]⟩

namespace Cut

variable {path : String} {front name : List Char} (cut : Cut path front name)

include cut

theorem names_eq : names path = namesOf front ++ namesOf name := by
  change namesOf path.toList = _
  rw [cut.whole]
  obtain rfl | ⟨before, rfl⟩ := cut.ended
  · rfl
  · rw [List.append_assoc, List.singleton_append, namesOf_append_slash,
      namesOf_append_slash, List.append_assoc]
    rfl

theorem isAbsolute_eq : isAbsolute path = (front.head? == some '/') := by
  rw [isAbsolute, cut.whole]
  obtain rfl | ⟨before, rfl⟩ := cut.ended
  · rw [List.nil_append]
    cases starts : name.head? with
    | none =>
        rfl
    | some first =>
        have notSlash : first ≠ '/' := by
          rintro rfl
          exact cut.clean (List.mem_of_head? starts)
        simpa using notSlash
  · simp [List.head?_append]

/-- From behind, the last name is what comes before the first slash. -/
theorem stops :
    (name.reverse ++ front.reverse).takeWhile (· != '/') = name.reverse ∧
      (name.reverse ++ front.reverse).dropWhile (· != '/') = front.reverse := by
  have ordinary : ∀ character ∈ name.reverse, (character != '/') = true := by
    intro character member
    rw [bne_iff_ne]
    rintro rfl
    exact cut.clean (List.mem_reverse.mp member)
  rw [List.takeWhile_append_of_pos ordinary, List.dropWhile_append_of_pos ordinary]
  obtain rfl | ⟨before, rfl⟩ := cut.ended
  · simp
  · simp

section Named

variable (notEmpty : name ≠ []) (notDot : name ≠ ['.'])

include notEmpty notDot

theorem reversed_eq : reversed path = name.reverse ++ front.reverse := by
  rw [reversed, cut.whole, List.reverse_append]
  exact trimBack_name (by simpa using cut.clean) (by simpa using notEmpty)
    (by simpa using notDot) _

theorem fileName?_eq (notUp : name ≠ ['.', '.']) :
    fileName? path = some (String.ofList name) := by
  rw [fileName?, cut.reversed_eq notEmpty notDot, cut.stops.1, List.reverse_reverse,
    if_neg]
  simp [← String.toList_inj, notEmpty, notDot, notUp]

theorem parent?_eq :
    parent? path = some (String.ofList (trimBack front.reverse).reverse) := by
  rw [parent?, cut.reversed_eq notEmpty notDot]
  have notRoot : name.reverse ++ front.reverse ≠ ['/'] := by
    intro root
    have slash : (name.reverse ++ front.reverse).takeWhile (· != '/') = [] := by
      rw [root]
      rfl
    rw [cut.stops.1, List.reverse_eq_nil_iff] at slash
    exact notEmpty slash
  split
  · next empty => simp [notEmpty] at empty
  · next root => exact (notRoot root).elim
  · rw [cut.stops.2]

end Named

end Cut

/-- Without a slash at its end, a path is cut before the last of its names. -/
theorem exists_cut_of_names
    {path name : String}
    {front : List String}
    (leads : names path = front ++ [name])
    (noSlash : endsInSlash path = false) :
    ∃ before, Cut path before name.toList ∧ name ≠ "" ∧ namesOf before = front := by
  obtain ⟨before, last, cut⟩ := exists_cut path
  have notEmpty : last ≠ [] := by
    rintro rfl
    obtain rfl | ⟨more, rfl⟩ := cut.ended
    · rw [cut.names_eq] at leads
      exact List.append_ne_nil_of_right_ne_nil front (List.cons_ne_nil _ _) leads.symm
    · have ends := endsInSlash_iff.mpr ⟨more, cut.whole.trans (List.append_nil _)⟩
      rw [noSlash] at ends
      cases ends
  rw [cut.names_eq, namesOf_of_not_mem cut.clean notEmpty] at leads
  obtain ⟨sameFront, isName⟩ := List.append_inj' leads rfl
  obtain rfl := (List.cons.inj isName).1
  exact ⟨before, by rwa [String.toList_ofList], by simpa using notEmpty, sameFront⟩

/-- What the last name becomes. -/
def imageName (name : String) : String :=
  withoutExtension name ++ ".bin"

theorem mem_of_mem_withoutExtension
    {name : String}
    {character : Char}
    (member : character ∈ (withoutExtension name).toList) :
    character ∈ name.toList := by
  rw [withoutExtension] at member
  split at member
  · exact member
  · rw [String.toList_ofList, List.mem_reverse] at member
    exact List.mem_reverse.mp
      ((List.dropWhile_sublist _).mem ((List.drop_sublist _ _).mem member))

theorem imageName_clean
    {name : String}
    (clean : '/' ∉ name.toList) :
    '/' ∉ (imageName name).toList := by
  rw [imageName, String.toList_append, List.mem_append]
  rintro (member | member)
  · exact clean (mem_of_mem_withoutExtension member)
  · simp at member

theorem imageName_ne_dots (name : String) :
    imageName name ≠ "" ∧ imageName name ≠ "." ∧ imageName name ≠ ".." := by
  have length : 4 ≤ (imageName name).length := by
    rw [imageName, String.length_append]
    exact Nat.le_add_left 4 _
  refine ⟨?_, ?_, ?_⟩
  all_goals
    intro same
    rw [same] at length
    exact absurd length (by decide)

theorem withoutExtension_append_bin
    {before : String}
    (notEmpty : before ≠ "") :
    withoutExtension (before ++ ".bin") = before := by
  have back : (before ++ ".bin").toList.reverse =
      ['n', 'i', 'b'] ++ '.' :: before.toList.reverse := by
    simp
  have dropped : ((before ++ ".bin").toList.reverse.dropWhile (· != '.')).drop 1 =
      before.toList.reverse := by
    rw [back]
    rfl
  rw [withoutExtension, dropped, if_neg (by simpa using notEmpty),
    List.reverse_reverse, String.ofList_toList]

/-- A name is its own image exactly if it ends in `.bin` and is more than that. -/
theorem imageName_eq_iff {name : String} :
    imageName name = name ↔ ∃ before, before ≠ "" ∧ name = before ++ ".bin" := by
  constructor
  · intro same
    refine ⟨withoutExtension name, ?_, same.symm⟩
    intro empty
    rw [imageName, empty] at same
    rw [← same] at empty
    exact absurd empty (by decide)
  · rintro ⟨before, notEmpty, rfl⟩
    rw [imageName, withoutExtension_append_bin notEmpty]

/--
A path that ends in a name leads through the same names, except for some names `.`,
as the path for the image, and both start in the same place.
-/
theorem imagePath_spec
    {path name : String}
    {front : List String}
    (leads : names path = front ++ [name])
    (noSlash : endsInSlash path = false)
    (notDot : name ≠ ".")
    (notUp : name ≠ "..") :
    fileName? path = some name ∧
      isAbsolute (imagePath path) = isAbsolute path ∧
      ∃ directory dots, front = directory ++ dots ∧ (∀ dot ∈ dots, dot = ".") ∧
        names (imagePath path) = directory ++ [imageName name] := by
  obtain ⟨before, cut, notEmpty, rfl⟩ := exists_cut_of_names leads noSlash
  have hasName : name.toList ≠ [] := by simpa using notEmpty
  have notDots : name.toList ≠ ['.'] := fun same => notDot (String.toList_inj.mp same)
  have named : fileName? path = some name := by
    rw [cut.fileName?_eq hasName notDots fun same => notUp (String.toList_inj.mp same),
      String.ofList_toList]
  -- The parent is what is before the name, without what counts for nothing at its end.
  let directory := String.ofList (trimBack before.reverse).reverse
  have goes : imagePath path = join directory (imageName name) := by
    rw [imagePath, cut.parent?_eq hasName notDots, stem, named]
    rfl
  have clean : '/' ∉ (imageName name).toList := imageName_clean cut.clean
  obtain ⟨dots, kept, allDots⟩ := namesOf_trimBack before.reverse
  refine ⟨named, ?_, names directory, dots, ?_, allDots, ?_⟩
  · rw [goes, isAbsolute_join clean, cut.isAbsolute_eq, isAbsolute,
      String.toList_ofList, List.head?_reverse, getLast?_trimBack,
      List.getLast?_reverse]
  · rw [List.reverse_reverse] at kept
    rw [kept, names, String.toList_ofList]
    rfl
  · rw [goes, names_join clean (imageName_ne_dots name).1]

end RegisterMachine.Files.Path
