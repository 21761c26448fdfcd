import RegisterMachine.Files.Path
import RegisterMachine.Files.Error

namespace RegisterMachine.Files

/-!
# File trees

A file tree is files and directories by location, with a working directory
where relative paths start.  A path is followed name by name: everything but
its last name has to be a directory, also where `..` leads back up.
-/

/-- The names from the root to a file or directory. -/
abbrev Location := List String

/-- What is at a location. -/
inductive Entry where
  | file (content : List UInt8)
  | directory
  deriving Repr, DecidableEq

/-- Files and directories by location, and the working directory. -/
structure FileTree where
  working : Location := []
  entries : List (Location × Entry) := []
  deriving Repr, DecidableEq

/-- The most bytes that a name of a path can have. -/
def maxNameSize : Nat := 255

/-- The most bytes that a path can have. -/
def maxPathSize : Nat := 4095

namespace FileTree

/-- What is at a location; the way down to the working directory is always there. -/
def lookup? (tree : FileTree) (location : Location) : Option Entry :=
  if location.isPrefixOf tree.working then
    some .directory
  else
    tree.entries.lookup location

/-- The tree with something put at a location. -/
def put (tree : FileTree) (location : Location) (entry : Entry) : FileTree :=
  { tree with
    entries := (location, entry) :: tree.entries.filter fun old => old.1 != location }

/-- The location of a name in a directory. -/
def child (directory : Location) (name : String) : Except FileError Location :=
  if name = "." then .ok directory
  else if name = ".." then .ok directory.dropLast
  else if maxNameSize < name.utf8ByteSize then .error .nameTooLong
  else .ok (directory ++ [name])

/-- The directory that names lead to from a directory. -/
def descend (tree : FileTree) (directory : Location) :
    List String → Except FileError Location
  | [] => .ok directory
  | name :: rest =>
      match child directory name with
      | .error cause => .error cause
      | .ok location =>
          match tree.lookup? location with
          | none => .error .notFound
          | some (.file _) => .error .notDirectory
          | some .directory => tree.descend location rest

/-- Refuse texts that can be no path. -/
def checkPath (path : String) : Except FileError Unit :=
  if path.toList.contains '\x00' then .error .nulInPath
  else if path = "" then .error .notFound
  else if maxPathSize < path.utf8ByteSize then .error .nameTooLong
  else .ok ()

/-- The directory that all but the last name of a path lead to. -/
def parentOf (tree : FileTree) (path : String) : Except FileError Location :=
  match checkPath path with
  | .error cause => .error cause
  | .ok () =>
      tree.descend (if Path.isAbsolute path then [] else tree.working)
        (Path.names path).dropLast

/-- The location of a path, whether or not something is there. -/
def locate (tree : FileTree) (path : String) : Except FileError Location :=
  match tree.parentOf path with
  | .error cause => .error cause
  | .ok directory =>
      match (Path.names path).getLast? with
      | none => .ok directory
      | some name => child directory name

/-- What a path leads to; a path that ends in a slash leads to a directory only. -/
def find (tree : FileTree) (path : String) : Except FileError Entry :=
  match tree.locate path with
  | .error cause => .error cause
  | .ok location =>
      match tree.lookup? location with
      | none => .error .notFound
      | some .directory => .ok .directory
      | some (.file content) =>
          if Path.endsInSlash path then .error .notDirectory else .ok (.file content)

/-- Whether a path leads to something. -/
def pathExists (tree : FileTree) (path : String) : Bool :=
  match tree.find path with
  | .error _ => false
  | .ok _ => true

/-- The content of a file. -/
def read (tree : FileTree) (path : String) : Except FileError (List UInt8) :=
  match tree.find path with
  | .error cause => .error cause
  | .ok .directory => .error .isDirectory
  | .ok (.file content) => .ok content

/--
The tree with the content of a file replaced, or a new file made.  A path that
ends in a slash names no file: neither one that is there nor a new one.
-/
def write (tree : FileTree) (path : String) (content : List UInt8) :
    Except FileError FileTree :=
  match tree.locate path with
  | .error cause => .error cause
  | .ok location =>
      match tree.lookup? location with
      | some .directory => .error .isDirectory
      | some (.file _) =>
          if Path.endsInSlash path then .error .notDirectory
          else .ok (tree.put location (.file content))
      | none =>
          if Path.endsInSlash path then .error .isDirectory
          else .ok (tree.put location (.file content))

/-- What was put at a location is found there, unless it is on the way to work. -/
theorem lookup?_put {tree : FileTree} {location : Location} {entry : Entry}
    (apart : location.isPrefixOf tree.working = false) :
    (tree.put location entry).lookup? location = some entry := by
  simp [lookup?, put, apart]

/-- Writing a file keeps the working directory. -/
theorem working_of_write {tree changed : FileTree} {path : String}
    {content : List UInt8} (written : tree.write path content = .ok changed) :
    changed.working = tree.working := by
  unfold write at written
  repeat' split at written
  all_goals simp only [reduceCtorEq, Except.ok.injEq] at written
  all_goals simp [← written, put]

end FileTree

end RegisterMachine.Files
