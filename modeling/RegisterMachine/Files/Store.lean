import RegisterMachine.Files.Tree

namespace RegisterMachine.Files

/-!
# Stores of files

A command asks of its files only that they are read and written by path.  What
the paths mean, and why a file cannot be read or written, is up to the store.
-/

/--
Files that are read and written by path.  Both can fail for any reason, and only
a write that succeeds changes anything: it gives the files as they are after it.
-/
class FileStore (Store : Type) where
  /-- The content of a file. -/
  read : Store → String → Except FileError (List UInt8)
  /-- Replace the content of a file, or make a new one. -/
  write : Store → String → List UInt8 → Except FileError Store
  /-- Whether a path leads to something. -/
  pathExists : Store → String → Bool

instance : FileStore FileTree where
  read := FileTree.read
  write := FileTree.write
  pathExists := FileTree.pathExists

end RegisterMachine.Files
