import RegisterMachine.Command.Host
import RegisterMachine.Files.Store
import RegisterMachine.Machine.Execution

namespace RegisterMachine.Command

/-!
# Sessions

A session is all that a command can see and change, as a value: files, the two
standard streams and the log.  It also remembers what the command has done, file
by file and run by run.  It is a host, so that a command can be run on a session
and the session looked at afterwards.
-/

/-- The standard streams of a command; either can be broken for a reason. -/
structure Streams where
  input : List UInt8 := []
  inputFailure : Option String := none
  written : Array UInt8 := #[]
  outputFailure : Option String := none
  deriving Repr, DecidableEq

namespace Streams

/-- Append bytes to the output, unless it is broken. -/
def put (streams : Streams) (bytes : List UInt8) : Streams × Option String :=
  match streams.outputFailure with
  | some reason => (streams, some reason)
  | none => ({ streams with written := streams.written ++ bytes }, none)

/-- Take the first byte of the input, unless it is broken. -/
def get (streams : Streams) : Streams × Except String UInt8 :=
  match streams.inputFailure with
  | some reason => (streams, .error reason)
  | none =>
      match streams.input with
      | [] => (streams, .error ConsoleBuffer.endOfInput)
      | byte :: rest => ({ streams with input := rest }, .ok byte)

/-- All bytes written to the output. -/
def output (streams : Streams) : List UInt8 :=
  streams.written.toList

instance : Console Streams where
  write := put
  read := get

end Streams

/-- What a command has done beside printing and logging. -/
inductive Deed where
  /-- A file was given a content. -/
  | wrote (path : String) (content : List UInt8)
  /-- A machine was run, for at most a number of steps if one is given. -/
  | ran (machine : Machine) (limit : Option Nat)
  deriving Repr, DecidableEq

/--
What a command can see and change, with files in a store of any kind; `fuel`
bounds a run without a step limit, and `memoryLimit` the memory of a machine.
-/
structure SessionOn (Store : Type) where
  files : Store
  streams : Streams := {}
  journal : Log.Journal := {}
  /-- What has been done so far, in this order. -/
  deeds : List Deed := []
  fuel : Nat
  memoryLimit : Nat := Memory.maximumSize
  deriving Repr, DecidableEq

/-- Commands on a session; there is no result when a run does not end within the fuel. -/
abbrev SessionOnM (Store : Type) := StateT (SessionOn Store) Option

/-- A session with its files in a file tree. -/
abbrev Session := SessionOn Files.FileTree

/-- Commands on a session with a file tree. -/
abbrev SessionM := SessionOnM Files.FileTree

namespace SessionOn

variable {Store : Type} [Files.FileStore Store]

/-- Read a file. -/
def readFile (path : String) :
    SessionOnM Store (Except Files.FileError (List UInt8)) := do
  return Files.FileStore.read (← get).files path

/-- Write a file. -/
def writeFile (path : String) (content : List UInt8) :
    SessionOnM Store (Except Files.FileError Unit) := do
  let session ← get
  match Files.FileStore.write session.files path content with
  | .error cause => return .error cause
  | .ok files =>
      set { session with
        files := files
        deeds := session.deeds ++ [Deed.wrote path content] }
      return .ok ()

/-- Print text; without any text nothing is written, and nothing can fail. -/
def print (text : String) : SessionOnM Store (Except String Unit) := do
  let session ← get
  if text = "" then
    return .ok ()
  else
    match session.streams.put (Text.Utf8.encode text) with
    | (streams, none) =>
        set { session with streams := streams }
        return .ok ()
    | (_, some reason) => return .error reason

/-- Run a machine on the streams; time does not pass in a session. -/
def run (machine : Machine) (limit : Option Nat) :
    SessionOnM Store (Machine × Nat) := do
  let session ← get
  let execution : Execution Streams :=
    { machine := machine, device := session.streams, journal := session.journal }
  let final ←
    match limit with
    | some limit => pure (execution.runFor limit)
    | none => StateT.lift (execution.run? session.fuel)
  set { session with
    streams := final.device
    journal := final.journal
    deeds := session.deeds ++ [Deed.ran machine limit] }
  return (final.machine, 0)

instance : Host (SessionOnM Store) where
  readFile := readFile
  writeFile := writeFile
  pathExists path := return Files.FileStore.pathExists (← get).files path
  print := print
  hasMemory size := return decide (size ≤ (← get).memoryLimit)
  log record := modify fun session =>
    { session with journal := session.journal.add record }
  setMinimum level := modify fun session =>
    { session with journal := { session.journal with minimum := level } }
  run := run

end SessionOn

end RegisterMachine.Command
