import RegisterMachine.Assembly.Assemble
import RegisterMachine.Machine.Basic
import RegisterMachine.Files.Error
import RegisterMachine.Text.Utf8

namespace RegisterMachine.Command

/-!
# What a command needs around it

A command reads and writes files, prints text, writes log records and lets a
machine run on the console.  A host is any monad that offers these; what a
command does is written once for all of them.
-/

/-- What makes a command break off in the middle of its work. -/
inductive Breakdown where
  /-- Text could not be printed, for a reason. -/
  | output (reason : String)
  /-- Memory was asked for in a size that no block of memory has. -/
  | capacity
  /-- Memory was asked for that the host does not have. -/
  | exhausted (size : Nat)
  deriving Repr, DecidableEq

/-- The text that a command leaves when it breaks off. -/
def Breakdown.message : Breakdown → String
  | .output reason => "failed printing to stdout: " ++ reason
  | .capacity => "capacity overflow"
  | .exhausted size => "memory allocation of " ++ Nat.repr size ++ " bytes failed"

/-- How a command ends. -/
inductive Exit where
  | success
  /-- The command gave up, and has logged why. -/
  | failure
  /-- The command was broken off. -/
  | broken (cause : Breakdown)
  deriving Repr, DecidableEq

/--
The number that a process ends with.  A panic ends in 101; without memory the
process is aborted by signal 6, which shells report as 128 and the signal.
-/
def Exit.code : Exit → Nat
  | .success => 0
  | .failure => 1
  | .broken (.output _) => 101
  | .broken .capacity => 101
  | .broken (.exhausted _) => 134

/-- The services that a command calls on. -/
class Host (m : Type → Type) where
  /-- The content of a file. -/
  readFile : String → m (Except Files.FileError (List UInt8))
  /-- Replace the content of a file, or make a new one. -/
  writeFile : String → List UInt8 → m (Except Files.FileError Unit)
  /-- Whether a path leads to a file or directory. -/
  pathExists : String → m Bool
  /-- Print text, in whole lines, on the output of the command, or give the reason why not. -/
  print : String → m (Except String Unit)
  /-- Whether the host has a block of memory of this many bytes. -/
  hasMemory : Nat → m Bool
  /-- Write a record to the log, if its level reaches the minimum. -/
  log : Log.Record → m Unit
  /-- Set the minimum level of the log. -/
  setMinimum : Log.Level → m Unit
  /-- Run a machine, for at most a number of steps if one is given; also its microseconds. -/
  run : Machine → Option Nat → m (Machine × Nat)

variable {m : Type → Type} [Monad m] [Host m]

/-- Write records to the log in order. -/
def logAll : List Log.Record → m Unit
  | [] => return ()
  | record :: rest => do
      Host.log record
      logAll rest

/-- Write an error to the log and end in failure. -/
def fail (message : String) : m Exit := do
  Host.log (.error message)
  return .failure

/-- Read a program image; an empty file is none. -/
def loadImage (path : String) : m (Except Files.AccessError (List UInt8)) := do
  match ← Host.readFile path with
  | .error cause => return .error (.file path cause)
  | .ok [] => return .error (.emptyImage path)
  | .ok image => return .ok image

/-- Write a program image to a file. -/
def storeImage (path : String) (image : List UInt8) :
    m (Except Files.AccessError Unit) := do
  match ← Host.writeFile path image with
  | .error cause => return .error (.file path cause)
  | .ok () => return .ok ()

/-- Why a source file has no image. -/
inductive SourceError where
  | unreadable (cause : Files.AccessError)
  | failed (failure : Assembly.Failure)
  deriving Repr, DecidableEq

/-- The text of a source error. -/
def SourceError.message : SourceError → String
  | .unreadable cause => cause.message
  | .failed failure => failure.message

/-- Assemble the source in a file; what is wrong in it is logged under the file's path. -/
def assembleFile (path : String) : m (Except SourceError Assembly.Assembled) := do
  match ← Host.readFile path with
  | .error cause => return .error (.unreadable (.file path cause))
  | .ok bytes =>
      match Text.Utf8.decode? bytes with
      | none => return .error (.unreadable (.file path .notText))
      | some source =>
          let result := Assembly.assemble source
          logAll (Assembly.report path source result)
          match result with
          | .error failure => return .error (.failed failure)
          | .ok assembly => return .ok assembly

/-- Whether an argument asks for the usage text. -/
def asksForHelp (argument : String) : Bool :=
  argument == "--help" || argument == "-h"

/-- The lines of a usage text, each of them ended. -/
def usageText (lines : List String) : String :=
  String.join (lines.map fun line => line ++ "\n")

/-- The text for an argument that is no option. -/
def unexpected (argument : String) : String :=
  "Unexpected argument: " ++ argument ++ "\n"

/-- The text for an option without its value. -/
def missingValue (option : String) : String :=
  option ++ " requires an argument"

end RegisterMachine.Command
