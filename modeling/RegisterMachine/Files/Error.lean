namespace RegisterMachine.Files

/-!
# Failing file accesses

Why a file cannot be read or written, and the texts for it.
-/

/-- Why a file cannot be read or written. -/
inductive FileError where
  /-- No file has the path. -/
  | notFound
  /-- A file stands where the path needs a directory. -/
  | notDirectory
  /-- The path is that of a directory. -/
  | isDirectory
  /-- The path, or a name in it, is too long. -/
  | nameTooLong
  /-- The path holds the character zero. -/
  | nulInPath
  /-- The content of the file is not UTF-8. -/
  | notText
  /-- Another reason. -/
  | other (reason : String)
  deriving Repr, DecidableEq

/-- The text of a file error. -/
def FileError.message : FileError → String
  | .notFound => "No such file or directory (os error 2)"
  | .notDirectory => "Not a directory (os error 20)"
  | .isDirectory => "Is a directory (os error 21)"
  | .nameTooLong => "File name too long (os error 36)"
  | .nulInPath => "file name contained an unexpected NUL byte"
  | .notText => "stream did not contain valid UTF-8"
  | .other reason => reason

/-- Why the file of a path cannot be used. -/
inductive AccessError where
  /-- The file cannot be read or written. -/
  | file (path : String) (cause : FileError)
  /-- The file is no program image, as it is empty. -/
  | emptyImage (path : String)
  deriving Repr, DecidableEq

/-- The text of an access error: the path, then the cause. -/
def AccessError.message : AccessError → String
  | .file path cause => path ++ ": " ++ cause.message
  | .emptyImage path => path ++ ": empty program"

end RegisterMachine.Files
