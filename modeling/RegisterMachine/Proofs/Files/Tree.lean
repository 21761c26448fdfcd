import RegisterMachine.Files.Tree
import RegisterMachine.Proofs.Files.Path

namespace RegisterMachine.Files.FileTree

/-!
# Reading after a write

A path is followed through directories only, and a file is never written where a
directory is.  So a write moves no path: another path leads where it led before,
and what is read there has changed only if both paths lead to the same place.
-/

variable {tree changed : FileTree} {directory location target : Location}

section Following

theorem child_cases
    {name : String}
    (found : child directory name = .ok location) :
    (name = "." ∧ location = directory) ∨
      (name = ".." ∧ location = directory.dropLast) ∨
      (name ≠ "." ∧ name ≠ ".." ∧ location = directory ++ [name]) := by
  unfold child at found
  split at found
  · next isDot =>
      cases found
      exact .inl ⟨isDot, rfl⟩
  · next notDot =>
      split at found
      · next isUp =>
          cases found
          exact .inr (.inl ⟨isUp, rfl⟩)
      · next notUp =>
          split at found
          · cases found
          · cases found
            exact .inr (.inr ⟨notDot, notUp, rfl⟩)

theorem descend_cons_eq_ok_iff
    {name : String}
    {rest : List String} :
    tree.descend directory (name :: rest) = .ok location ↔
      ∃ next, child directory name = .ok next ∧
        tree.lookup? next = some .directory ∧
        tree.descend next rest = .ok location := by
  rw [descend]
  split
  · next failed => simp [failed]
  · next next found =>
      split
      · next nothing => simp [found, nothing]
      · next file => simp [found, file]
      · next isDirectory => simp [found, isDirectory]

theorem descend_append_eq_ok_iff
    {first second : List String} :
    tree.descend directory (first ++ second) = .ok location ↔
      ∃ middle, tree.descend directory first = .ok middle ∧
        tree.descend middle second = .ok location := by
  induction first generalizing directory with
  | nil =>
      simp [descend]
  | cons name rest inductionHypothesis =>
      simp only [List.cons_append, descend_cons_eq_ok_iff, inductionHypothesis]
      constructor
      · rintro ⟨next, found, isDirectory, middle, leads, onward⟩
        exact ⟨middle, ⟨next, found, isDirectory, leads⟩, onward⟩
      · rintro ⟨middle, ⟨next, found, isDirectory, leads⟩, onward⟩
        exact ⟨next, found, isDirectory, middle, leads, onward⟩

/-- Names `.` lead nowhere else. -/
theorem eq_of_descend_dots
    {dots : List String}
    (allDots : ∀ dot ∈ dots, dot = ".")
    (leads : tree.descend directory dots = .ok location) :
    location = directory := by
  induction dots generalizing directory with
  | nil =>
      rw [descend] at leads
      cases leads
      rfl
  | cons dot rest inductionHypothesis =>
      obtain rfl := allDots dot List.mem_cons_self
      obtain ⟨next, found, _, onward⟩ := descend_cons_eq_ok_iff.mp leads
      rw [child, if_pos rfl] at found
      cases found
      exact inductionHypothesis (fun dot member => allDots dot (.tail _ member)) onward

end Following

section Directories

/-- There are only directories from the root to a location. -/
def Descends (tree : FileTree) (location : Location) : Prop :=
  ∀ before, before <+: location → tree.lookup? before = some .directory

theorem Descends.lookup?
    (descends : tree.Descends directory) :
    tree.lookup? directory = some .directory :=
  descends directory (List.prefix_refl directory)

theorem descends_working : tree.Descends tree.working := by
  intro before isPrefix
  rw [FileTree.lookup?, if_pos (List.isPrefixOf_iff_prefix.mpr isPrefix)]

theorem Descends.of_prefix
    (descends : tree.Descends directory)
    (isPrefix : location <+: directory) :
    tree.Descends location :=
  fun before shorter => descends before (shorter.trans isPrefix)

theorem Descends.descend
    {names : List String}
    (descends : tree.Descends directory)
    (leads : tree.descend directory names = .ok location) :
    tree.Descends location := by
  induction names generalizing directory with
  | nil =>
      rw [FileTree.descend] at leads
      cases leads
      exact descends
  | cons name rest inductionHypothesis =>
      obtain ⟨next, found, isDirectory, onward⟩ := descend_cons_eq_ok_iff.mp leads
      refine inductionHypothesis ?_ onward
      obtain ⟨_, rfl⟩ | ⟨_, rfl⟩ | ⟨_, _, rfl⟩ := child_cases found
      · exact descends
      · exact descends.of_prefix (List.dropLast_prefix directory)
      · intro before isPrefix
        obtain rfl | shorter := List.prefix_concat_iff.mp isPrefix
        · exact isDirectory
        · exact descends before shorter

end Directories

section Reading

/-- Where a path starts. -/
def startOf (tree : FileTree) (path : String) : Location :=
  if Path.isAbsolute path then [] else tree.working

theorem descends_startOf (path : String) : tree.Descends (tree.startOf path) := by
  rw [startOf]
  split
  · exact descends_working.of_prefix (List.nil_prefix)
  · exact descends_working

/-- A path with a last name leads to what the name is in the directory before it. -/
theorem locate_eq_ok_iff
    {path name : String}
    {front : List String}
    (names : Path.names path = front ++ [name]) :
    tree.locate path = .ok location ↔
      checkPath path = .ok () ∧
      ∃ directory, tree.descend (tree.startOf path) front = .ok directory ∧
        child directory name = .ok location := by
  rw [locate, parentOf, names, List.dropLast_concat, List.getLast?_concat, startOf]
  cases checked : checkPath path with
  | error cause =>
      simp
  | ok _ =>
      dsimp only
      split
      · next failed => simp [failed]
      · next directory leads => simp [leads]

/-- A path without names leads to where it starts. -/
theorem eq_startOf_of_locate
    {path : String}
    (names : Path.names path = [])
    (located : tree.locate path = .ok location) :
    location = tree.startOf path := by
  rw [locate, parentOf, names] at located
  cases checked : checkPath path with
  | error cause =>
      simp [checked] at located
  | ok _ =>
      simp only [checked, List.dropLast_nil, descend, List.getLast?_nil,
        Except.ok.injEq] at located
      rw [← located, startOf]

theorem read_eq_ok_iff
    {path : String}
    {content : List UInt8} :
    tree.read path = .ok content ↔
      Path.endsInSlash path = false ∧
      ∃ location, tree.locate path = .ok location ∧
        tree.lookup? location = some (.file content) := by
  rw [read, find]
  cases located : tree.locate path with
  | error cause =>
      simp
  | ok location =>
      cases found : tree.lookup? location with
      | none => simp [found]
      | some entry =>
          cases entry with
          | directory => simp [found]
          | file bytes => cases slash : Path.endsInSlash path <;> simp [found]

/-- A path to a file ends in a name of its own, below a directory. -/
structure LeadsTo (tree : FileTree) (path : String) (front : List String)
    (name : String) (directory : Location) : Prop where
  names :
    Path.names path = front ++ [name]
  noSlash :
    Path.endsInSlash path = false
  notDot :
    name ≠ "."
  notUp :
    name ≠ ".."
  descend :
    tree.descend (tree.startOf path) front = .ok directory
  locate :
    tree.locate path = .ok (directory ++ [name])

/-- What is read is a file; names `.` and `..`, and no name, lead to directories. -/
theorem exists_leadsTo_of_read
    {path : String}
    {content : List UInt8}
    (read : tree.read path = .ok content) :
    ∃ front name directory, tree.LeadsTo path front name directory := by
  obtain ⟨noSlash, location, located, isFile⟩ := read_eq_ok_iff.mp read
  have notDirectory (descends : tree.Descends location) : False := by
    rw [descends.lookup?] at isFile
    cases isFile
  obtain names | ⟨front, name, names⟩ := List.eq_nil_or_concat (Path.names path)
  · rw [eq_startOf_of_locate names located] at notDirectory
    exact (notDirectory (descends_startOf path)).elim
  · rw [List.concat_eq_append] at names
    obtain ⟨_, directory, leads, found⟩ := (locate_eq_ok_iff names).mp located
    have descends := (descends_startOf path).descend leads
    -- A name `.` or `..` stays on the way down to the directory.
    obtain ⟨_, rfl⟩ | ⟨_, rfl⟩ | ⟨notDot, notUp, rfl⟩ := child_cases found
    · exact (notDirectory descends).elim
    · exact (notDirectory (descends.of_prefix (List.dropLast_prefix directory))).elim
    · exact ⟨front, name, directory, names, noSlash, notDot, notUp, leads, located⟩

end Reading

section Writing

variable {entry : Entry}

theorem lookup_filter_ne
    (entries : List (Location × Entry))
    (apart : location ≠ target) :
    (entries.filter fun old => old.1 != target).lookup location =
      entries.lookup location := by
  induction entries with
  | nil =>
      rfl
  | cons old rest inductionHypothesis =>
      obtain ⟨place, kept⟩ := old
      by_cases isTarget : place = target
      · subst isTarget
        simp [List.lookup_cons, beq_eq_false_iff_ne.mpr apart, inductionHypothesis]
      · simp [isTarget, List.lookup_cons, inductionHypothesis]

theorem lookup?_put_of_ne
    (apart : location ≠ target) :
    (tree.put target entry).lookup? location = tree.lookup? location := by
  simp only [lookup?, put, List.lookup_cons, beq_eq_false_iff_ne.mpr apart,
    lookup_filter_ne tree.entries apart]

theorem descend_put
    {names : List String}
    (noDirectory : tree.lookup? target ≠ some .directory)
    (leads : tree.descend directory names = .ok location) :
    (tree.put target entry).descend directory names = .ok location := by
  -- The way leads through directories only, so never through the target.
  induction names generalizing directory with
  | nil =>
      exact leads
  | cons name rest inductionHypothesis =>
      obtain ⟨next, found, isDirectory, onward⟩ := descend_cons_eq_ok_iff.mp leads
      have apart : next ≠ target := by
        rintro rfl
        exact noDirectory isDirectory
      exact descend_cons_eq_ok_iff.mpr ⟨next, found,
        (lookup?_put_of_ne apart).trans isDirectory, inductionHypothesis onward⟩

theorem LeadsTo.put
    {path name : String}
    {front : List String}
    (leadsTo : tree.LeadsTo path front name directory)
    (noDirectory : tree.lookup? target ≠ some .directory) :
    (tree.put target entry).LeadsTo path front name directory := by
  obtain ⟨checked, parent, leads, found⟩ :=
    (locate_eq_ok_iff leadsTo.names).mp leadsTo.locate
  exact { leadsTo with
    descend := descend_put noDirectory leadsTo.descend
    locate := (locate_eq_ok_iff leadsTo.names).mpr
      ⟨checked, parent, descend_put noDirectory leads, found⟩ }

/-- A write puts the content where the path leads, and there is no directory there. -/
theorem put_of_write
    {path : String}
    {content : List UInt8}
    (written : tree.write path content = .ok changed)
    (located : tree.locate path = .ok target) :
    tree.lookup? target ≠ some .directory ∧
      changed = tree.put target (.file content) := by
  cases found : tree.lookup? target with
  | none =>
      simp only [write, located, found] at written
      split at written
      · cases written
      · cases written
        exact ⟨nofun, rfl⟩
  | some entry =>
      cases entry with
      | directory =>
          simp [write, located, found] at written
      | file bytes =>
          simp only [write, located, found] at written
          split at written
          · cases written
          · cases written
            exact ⟨nofun, rfl⟩

theorem exists_locate_of_write
    {path : String}
    {content : List UInt8}
    (written : tree.write path content = .ok changed) :
    ∃ target, tree.locate path = .ok target := by
  cases located : tree.locate path with
  | error cause => simp [write, located] at written
  | ok target => exact ⟨target, rfl⟩

/--
After a write another path leads to the new content if it leads to the same place,
and otherwise to what it led to before.
-/
theorem read_of_write
    {path other : String}
    {content before : List UInt8}
    (written : tree.write path content = .ok changed)
    (located : tree.locate path = .ok target)
    (read : tree.read other = .ok before)
    (leads : tree.locate other = .ok location) :
    changed.read other =
      .ok (if location = target then content else before) := by
  obtain ⟨noDirectory, rfl⟩ := put_of_write written located
  obtain ⟨front, name, directory, leadsTo⟩ := exists_leadsTo_of_read read
  obtain ⟨noSlash, there, isThere, isFile⟩ := read_eq_ok_iff.mp read
  obtain rfl := Except.ok.inj (leads.symm.trans isThere)
  obtain rfl := Except.ok.inj (leads.symm.trans leadsTo.locate)
  refine read_eq_ok_iff.mpr ⟨noSlash, _, (leadsTo.put noDirectory).locate, ?_⟩
  split
  · next same =>
      rw [same]
      refine lookup?_put ?_
      rw [← Bool.not_eq_true]
      exact fun isPrefix => noDirectory (if_pos isPrefix)
  · next apart => rw [lookup?_put_of_ne apart, isFile]

end Writing

/-- The image of a file has its place in the directory of the file. -/
theorem locate_imagePath
    {path name : String}
    {front : List String}
    (leadsTo : tree.LeadsTo path front name directory)
    (located : tree.locate (Path.imagePath path) = .ok target) :
    Path.fileName? path = some name ∧
      target = directory ++ [Path.imageName name] := by
  obtain ⟨isName, sameStart, before, dots, rfl, allDots, names⟩ :=
    Path.imagePath_spec leadsTo.names leadsTo.noSlash leadsTo.notDot leadsTo.notUp
  obtain ⟨_, middle, leads, found⟩ := (locate_eq_ok_iff names).mp located
  obtain ⟨parent, leadsThere, dotsLead⟩ :=
    descend_append_eq_ok_iff.mp leadsTo.descend
  rw [startOf, sameStart] at leads
  -- Both paths start in one place and lead through the same names but for dots.
  obtain rfl := Except.ok.inj (leads.symm.trans leadsThere)
  obtain rfl := eq_of_descend_dots allDots dotsLead
  obtain ⟨_, notDot, notUp⟩ := Path.imageName_ne_dots name
  obtain ⟨isDot, _⟩ | ⟨isUp, _⟩ | ⟨_, _, rfl⟩ := child_cases found
  · exact (notDot isDot).elim
  · exact (notUp isUp).elim
  · exact ⟨isName, rfl⟩

end RegisterMachine.Files.FileTree
