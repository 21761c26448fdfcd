namespace RegisterMachine.Files.Path

/-!
# Paths as text

A path is a sequence of names between slashes.  Repeated slashes, and names `.`
other than a first one, count for nothing.  Here a path is taken apart and put
together as text, without asking what exists.
-/

/-- Names of a path: its pieces between slashes that are not empty. -/
def names (path : String) : List String :=
  ((path.toList.splitOn '/').filter fun piece => !piece.isEmpty).map String.ofList

/-- Whether a path starts at the root. -/
def isAbsolute (path : String) : Bool :=
  path.toList.head? == some '/'

/-- Whether a path ends in a slash. -/
def endsInSlash (path : String) : Bool :=
  path.toList.getLast? == some '/'

/--
Characters of a path, last one first, without slashes and names `.` after the
last name.  A slash that is the whole path stays, and so does a first name `.`.
-/
def trimBack : List Char → List Char
  | '/' :: next :: rest => trimBack (next :: rest)
  | '.' :: '/' :: rest => trimBack ('/' :: rest)
  | characters => characters

/-- The characters of a path, last one first, without what counts for nothing at the end. -/
def reversed (path : String) : List Char :=
  trimBack path.toList.reverse

/-- The path without its last name; there is none for the root and the empty path. -/
def parent? (path : String) : Option String :=
  match reversed path with
  | [] => none
  | ['/'] => none
  | back => some (String.ofList (trimBack (back.dropWhile (· != '/'))).reverse)

/-- The last name of a path, unless it is `.` or `..`. -/
def fileName? (path : String) : Option String :=
  let name := String.ofList ((reversed path).takeWhile (· != '/')).reverse
  if name = "" ∨ name = "." ∨ name = ".." then none else some name

/-- A name up to its last dot; a dot that starts the name ends nothing. -/
def withoutExtension (name : String) : String :=
  let before := (name.toList.reverse.dropWhile (· != '.')).drop 1
  if before.isEmpty then name else String.ofList before.reverse

/-- The last name of a path without its extension; empty when there is none. -/
def stem (path : String) : String :=
  ((fileName? path).map withoutExtension).getD ""

/-- A name below a path. -/
def join (directory name : String) : String :=
  if directory = "" ∨ endsInSlash directory then
    directory ++ name
  else
    directory ++ "/" ++ name

/-- The path next to a source where its image goes: the same stem, ending in `.bin`. -/
def imagePath (source : String) : String :=
  join ((parent? source).getD ".") (stem source ++ ".bin")

end RegisterMachine.Files.Path
