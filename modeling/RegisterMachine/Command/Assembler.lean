import RegisterMachine.Command.Host
import RegisterMachine.Files.Path
import RegisterMachine.Image.Listing

namespace RegisterMachine.Command.Assembler

/-!
# The command that assembles a source

The first argument is the source file.  Its image goes to the file that the
options name, or else next to the source; then the listing of the image is
printed.  Nothing is written when anything is wrong before that.  If the listing
cannot be printed, the command breaks off, and the image stays.
-/

/-- What is wrong with the options. -/
inductive OptionError where
  | missingValue (option : String)
  | unexpected (argument : String)
  deriving Repr, DecidableEq

/-- The text of an option error. -/
def OptionError.message : OptionError → String
  | .missingValue option => Command.missingValue option
  | .unexpected argument => Command.unexpected argument

/-- Whether an argument is the option that names the image file. -/
def namesOutput (argument : String) : Bool :=
  argument == "--output" || argument == "-o"

/-- The image file that arguments name; the last one wins. -/
def parse (output : Option String) : List String → Except OptionError (Option String)
  | [] => .ok output
  | argument :: rest =>
      if namesOutput argument then
        match rest with
        | [] => .error (.missingValue argument)
        | value :: rest => parse (some value) rest
      else
        .error (.unexpected argument)

/-- The lines of the usage text. -/
def usageLines (program : String) : List String :=
  ["Assembly Compiler",
    "",
    "USAGE:",
    "    " ++ program ++ " <input.asm> [OPTIONS]",
    "",
    "ARGS:",
    "    <input.asm>    Assembly source file to compile",
    "",
    "OPTIONS:",
    "    -o, --output <file>     Output file path (defaults to <input>.bin)",
    "    -h, --help              Print this help message",
    "",
    "EXAMPLES:",
    "    # Compile to default output name",
    "    " ++ program ++ " program.asm",
    "",
    "    # Compile with explicit output",
    "    " ++ program ++ " program.asm -o output.bin"]

/-- The usage text. -/
def usage (program : String) : String :=
  Command.usageText (usageLines program)

variable {m : Type → Type} [Monad m] [Host m]

/-- Print the listing of an image. -/
def list (image : List UInt8) : m (Except String Unit) := do
  match Image.disassemble image with
  | .error cause =>
      Host.log (.warn ("Could not disassemble output: " ++ cause.message))
      return .ok ()
  | .ok text => Host.print text

/-- Write an image to a file and list it. -/
def deliver (source output : String) (image : List UInt8) : m Exit := do
  match ← storeImage output image with
  | .error cause => fail ("Failed to write output file: " ++ cause.message)
  | .ok () =>
      Host.log (.info ("Compiled " ++ source ++ " -> " ++ output ++
        " (" ++ Nat.repr image.length ++ " bytes)"))
      match ← list image with
      | .error reason => return .broken (.output reason)
      | .ok () => return .success

/-- Assemble a source file that exists into a file whose directory exists. -/
def assembleTo (source output : String) : m Exit := do
  match ← assembleFile source with
  | .error cause => fail ("Assembly failed: " ++ cause.message)
  | .ok assembly =>
      if !assembly.diagnostics.isEmpty then
        Host.log (.warn (Nat.repr assembly.diagnostics.length ++
          " line(s) skipped because of errors"))
      deliver source output assembly.image

/-- The directory of a path, if the path names one and it is not there. -/
def missingDirectory? (path : String) : m (Option String) := do
  match Files.Path.parent? path with
  | none => return none
  | some directory =>
      if directory = "" then
        return none
      else if ← Host.pathExists directory then
        return none
      else
        return some directory

/-- Check the two paths, then assemble from the one into the other. -/
def assemblePaths (source output : String) : m Exit := do
  if ← Host.pathExists source then
    match ← missingDirectory? output with
    | some directory => fail ("Output directory does not exist: " ++ directory)
    | none => assembleTo source output
  else
    fail ("Input file does not exist: " ++ source)

/-- Report what is wrong with the options, with the usage text when it may help. -/
def refuse (program : String) (cause : OptionError) : m Exit := do
  Host.log (.error cause.message)
  match cause with
  | .unexpected _ => Host.log (.info (usage program))
  | .missingValue _ => pure ()
  return .failure

/-- The command, under its own name and with its arguments. -/
def run (program : String) (arguments : List String) : m Exit := do
  match arguments with
  | [] =>
      Host.log (.info (usage program))
      return .failure
  | source :: rest =>
      if asksForHelp source then
        Host.log (.info (usage program))
        return .success
      else
        match parse none rest with
        | .error cause => refuse program cause
        | .ok output =>
            assemblePaths source (output.getD (Files.Path.imagePath source))

end RegisterMachine.Command.Assembler
