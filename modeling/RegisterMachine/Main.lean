import RegisterMachine.Command.Runner
import RegisterMachine.Command.Assembler
import RegisterMachine.Machine.Step
import Std.Time.DateTime.Timestamp

namespace RegisterMachine

/-!
# The program

The commands run in a process: files are those of the system, the console is
the standard streams, and log records go to standard error with the time of the
clock.  The first argument chooses the command.
-/

/-- What a process keeps beside the system's own state: the style of its log. -/
abbrev Process := StateT Log.Style IO

namespace Process

/-- The system's number for an input or output error. -/
def errorNumber? : IO.Error → Option UInt32
  | .noFileOrDirectory _ number _ => some number
  | .inappropriateType _ number _ => some number
  | .invalidArgument _ number _ => some number
  | .noSuchThing _ number _ => some number
  | .otherError number _ => some number
  | _ => none

/-- The cause of a failed file access. -/
def causeOf (error : IO.Error) : Files.FileError :=
  match errorNumber? error with
  | some 2 => .notFound
  | some 20 => .notDirectory
  | some 21 => .isDirectory
  | some 36 => .nameTooLong
  | _ => .other (toString error)

/-- The moment that the clock shows. -/
def now : IO Log.Moment := do
  let time := (← Std.Time.Timestamp.now).toNanosecondsSinceUnixEpoch.val
  return .ofClock (time / 1000000000) (time % 1000000000).toNat

/-- Write a record to standard error. -/
def log (record : Log.Record) : Process Unit := do
  (← IO.getStderr).putStr ((← get).render (← now) record)

/-- Report events in order. -/
def report (events : List Event) : Process Unit :=
  events.forM fun event => log event.record

/-- Write bytes to standard output; the reason is given when that fails. -/
def writeBytes (bytes : List UInt8) : IO (Option String) := do
  try
    let output ← IO.getStdout
    output.write bytes.toByteArray
    output.flush
    return none
  catch error =>
    return some (causeOf error).message

/-- Read one byte from standard input, or give the reason why there is none. -/
def readByte : IO (Except String UInt8) := do
  try
    let bytes ← (← IO.getStdin).read 1
    return match bytes.toList with
      | [] => .error ConsoleBuffer.endOfInput
      | byte :: _ => .ok byte
  catch error =>
    return .error (causeOf error).message

/-- Carry out what a step asks of the console. -/
def carryOut : Transition → Process Outcome
  | .done outcome => return outcome
  | .write writer bytes outcome => do
      match ← writeBytes bytes with
      | none => return outcome
      | some reason => return { outcome with
          events := .unwritten writer reason :: outcome.events }
  | .read resume => do
      return resume (← readByte)

/-- Run a machine until it stops, or for a number of steps if one is given. -/
partial def drive (machine : Machine) (limit : Option Nat) : Process Machine := do
  if machine.status.isTerminal || limit == some 0 then
    return machine
  let outcome ← carryOut machine.transition
  report outcome.events
  drive outcome.machine (limit.map (· - 1))

instance : Command.Host Process where
  readFile path := do
    try
      return .ok (← IO.FS.readBinFile path).toList
    catch error =>
      return .error (causeOf error)
  writeFile path content := do
    try
      IO.FS.writeBinFile path content.toByteArray
      return .ok ()
    catch error =>
      return .error (causeOf error)
  pathExists path := do
    try
      discard (IO.FS.realPath path)
      return true
    catch _ =>
      return false
  print text := do
    match ← writeBytes (Text.Utf8.encode text) with
    | none => return .ok ()
    | some reason => return .error reason
  -- When memory runs out later, the process is stopped from outside.
  hasMemory _ := return true
  log := log
  setMinimum level := modify fun style => { style with minimum := level }
  run machine limit := do
    let start ← IO.monoNanosNow
    let final ← drive machine limit
    return (final, ((← IO.monoNanosNow) - start) / 1000)

end Process

/-- The command that an argument chooses; without one it is the runner. -/
def command : List String → Process Command.Exit
  | "assemble" :: arguments => Command.Assembler.run "assemble" arguments
  | "run" :: arguments => Command.Runner.run "run" arguments
  | arguments => Command.Runner.run "run" arguments

end RegisterMachine

/-- Run the command that the arguments ask for. -/
def main (arguments : List String) : IO UInt32 := do
  let (exit, _) ← (RegisterMachine.command arguments).run {}
  if let .broken cause := exit then
    (← IO.getStderr).putStr (cause.message ++ "\n")
  return exit.code.toUInt32
