import RegisterMachine.Command.Host
import RegisterMachine.Image.Listing

namespace RegisterMachine.Command.Runner

/-!
# The command that runs an image

The first argument is the image to run, the others are options.  The image is
loaded and run, and how the run ended is logged; the command fails only when
the machine could not be started or its memory not be written out.  Before the
run it breaks off when the dump of the image cannot be printed, or when there is
no memory of the size that was asked for.
-/

/-- What the options ask for. -/
structure Options where
  memorySize : Nat := Machine.defaultMemorySize
  maxSteps : Option Nat := none
  hexDump : Bool := false
  trace : Bool := false
  dumpPath : Option String := none
  deriving Repr, DecidableEq

/-- What is wrong with the options. -/
inductive OptionError where
  | missingValue (option : String)
  | memorySize (value : String)
  | maxSteps (value : String)
  | unexpected (argument : String)
  deriving Repr, DecidableEq

/-- The text of an option error. -/
def OptionError.message : OptionError → String
  | .missingValue option => Command.missingValue option
  | .memorySize value => "Invalid memory size: '" ++ value ++ "'"
  | .maxSteps value => "Invalid step count: '" ++ value ++ "'"
  | .unexpected argument => Command.unexpected argument

/-- Digits without one plus sign in front. -/
def withoutPlus : List Char → List Char
  | '+' :: digits => digits
  | digits => digits

/-- The count below 2^64 that a text denotes: decimal, or hexadecimal after `0x`. -/
def count? (value : String) : Option Nat :=
  match value.toList with
  | '0' :: 'x' :: digits => Text.Numeral.readBelow? UInt64.size 16 (withoutPlus digits)
  | '0' :: 'X' :: digits => Text.Numeral.readBelow? UInt64.size 16 (withoutPlus digits)
  | digits => Text.Numeral.readBelow? UInt64.size 10 (withoutPlus digits)

/-- Options changed by the value of an option that takes one. -/
def Options.set? (options : Options) (option value : String) :
    Except OptionError Options :=
  if option = "--memory" then
    match count? value with
    | none => .error (.memorySize value)
    | some size => .ok { options with memorySize := size }
  else if option = "--max-steps" then
    match count? value with
    | none => .error (.maxSteps value)
    | some limit => .ok { options with maxSteps := some limit }
  else
    .ok { options with dumpPath := some value }

/-- Whether an argument is an option that takes a value. -/
def takesValue (argument : String) : Bool :=
  argument == "--memory" || argument == "--max-steps" || argument == "--dump-memory"

/-- Read arguments as options; later ones win, and the first error is reported. -/
def Options.parse (options : Options) : List String → Except OptionError Options
  | [] => .ok options
  | argument :: rest =>
      if takesValue argument then
        match rest with
        | [] => .error (.missingValue argument)
        | value :: rest =>
            match options.set? argument value with
            | .error cause => .error cause
            | .ok options => options.parse rest
      else if argument = "--trace" then
        { options with trace := true }.parse rest
      else if argument = "--hex" then
        { options with hexDump := true }.parse rest
      else
        .error (.unexpected argument)

/-- The lines of the usage text. -/
def usageLines (program : String) : List String :=
  ["Bytecode Runner",
    "",
    "USAGE:",
    "    " ++ program ++ " <program.bin> [OPTIONS]",
    "",
    "ARGS:",
    "    <program.bin>    Bytecode image to execute",
    "",
    "OPTIONS:",
    "    --memory <bytes>        Memory capacity in bytes (defaults to 0xFFFF)",
    "    --max-steps <n>         Stop after n instructions",
    "    --trace                 Log every executed instruction",
    "    --hex                   Print a hex dump of the program before running",
    "    --dump-memory <file>    Write the final memory image to file",
    "    -h, --help              Print this help message",
    "",
    "EXAMPLES:",
    "    # Run a program",
    "    " ++ program ++ " program.bin",
    "",
    "    # Run with 1 KiB of memory and instruction tracing",
    "    " ++ program ++ " program.bin --memory 1024 --trace"]

/-- The usage text. -/
def usage (program : String) : String :=
  Command.usageText (usageLines program)

/-- Microseconds as seconds with six places. -/
def secondsText (microseconds : Nat) : String :=
  Nat.repr (microseconds / 1000000) ++ "." ++
    Text.Numeral.decimal 6 (microseconds % 1000000)

/-- The text for the time that a run took. -/
def timeText (microseconds : Nat) : String :=
  "Total time: " ++ secondsText microseconds ++ " seconds"

/-- The record that says how a run ended. -/
def ending (machine : Machine) : Log.Record :=
  let steps := Nat.repr machine.steps.toNat ++ " steps"
  match machine.status with
  | .halted => .info ("Program halted after " ++ steps)
  | .faulted fault =>
      .error ("Program faulted after " ++ steps ++ ": " ++ fault.message)
  | .running =>
      .warn ("Step limit reached after " ++ steps ++
        " (pc = " ++ Nat.repr machine.pc ++ ")")

variable {m : Type → Type} [Monad m] [Host m]

/-- Write the memory of a machine to a file, and log that. -/
def dump (machine : Machine) (path : String) : m Exit := do
  match ← Host.writeFile path machine.memory.bytes.toList with
  | .error cause =>
      fail ("Failed to write memory dump " ++ path ++ ": " ++ cause.message)
  | .ok () =>
      Host.log (.info ("Wrote " ++ Nat.repr machine.memory.size ++
        " bytes of memory to " ++ path))
      return .success

/-- Run a loaded machine and report on the run. -/
def execute (machine : Machine) (options : Options) : m Exit := do
  let (final, microseconds) ← Host.run machine options.maxSteps
  Host.log (ending final)
  let dumped ←
    match options.dumpPath with
    | none => pure .success
    | some path => dump final path
  match dumped with
  | .success =>
      Host.log (.info (timeText microseconds))
      return .success
  | exit => return exit

/-- The text of an image that is shown before the run. -/
def dumpText (image : List UInt8) : String :=
  "Hex dump:\n" ++ Image.hexDump image ++ "\n"

/-- Print the bytes of an image, if the options ask for it. -/
def showImage (image : List UInt8) (options : Options) : m (Except String Unit) := do
  if options.hexDump then
    Host.print (dumpText image)
  else
    return .ok ()

/--
What there is no memory for.  The image is compared with the size first: one that
is too large is refused before any memory is asked for.
-/
def shortage? (image : List UInt8) (size : Nat) : m (Option Breakdown) := do
  if size < image.length then
    return none
  else if Memory.maximumSize < size then
    return some .capacity
  else if ← Host.hasMemory size then
    return none
  else
    return some (.exhausted size)

/-- Load an image and execute it, if there is memory for that. -/
def start (image : List UInt8) (options : Options) : m Exit := do
  match ← shortage? image options.memorySize with
  | some cause => return .broken cause
  | none =>
      match Machine.load image options.memorySize with
      | .error cause => fail cause.message
      | .ok machine => execute machine options

/-- Show an image if the options ask for it, then start it. -/
def launch (image : List UInt8) (options : Options) : m Exit := do
  match ← showImage image options with
  | .error reason => return .broken (.output reason)
  | .ok () => start image options

/-- Read an image and launch it. -/
def runImage (path : String) (options : Options) : m Exit := do
  match ← loadImage path with
  | .error cause => fail cause.message
  | .ok image =>
      Host.log (.info ("File size: " ++ Nat.repr image.length ++ " bytes"))
      launch image options

/-- Report what is wrong with the options, with the usage text when it may help. -/
def refuse (program : String) (cause : OptionError) : m Exit := do
  Host.log (.error cause.message)
  match cause with
  | .unexpected _ => Host.log (.info (usage program))
  | _ => pure ()
  return .failure

/-- The command, under its own name and with its arguments. -/
def run (program : String) (arguments : List String) : m Exit := do
  match arguments with
  | [] =>
      Host.log (.info (usage program))
      return .success
  | path :: rest =>
      if asksForHelp path then
        Host.log (.info (usage program))
        return .success
      else
        match Options.parse {} rest with
        | .error cause => refuse program cause
        | .ok options =>
            if options.trace then
              Host.setMinimum .trace
            runImage path options

end RegisterMachine.Command.Runner
