import RegisterMachine.Image.Listing
import RegisterMachine.Assembly.Assemble
import RegisterMachine.Machine.Execution
import RegisterMachine.Template.Expansion
import RegisterMachine.Command.Runner
import RegisterMachine.Command.Assembler
import RegisterMachine.Command.Session
import RegisterMachine.Main
import RegisterMachine.Proofs.Word
import RegisterMachine.Proofs.Image.Codec
import RegisterMachine.Proofs.Image.Position
import RegisterMachine.Proofs.Image.Relocation
import RegisterMachine.Proofs.Machine.Fetch
import RegisterMachine.Proofs.Machine.Step
import RegisterMachine.Proofs.Machine.Atomicity
import RegisterMachine.Proofs.Machine.Alignment
import RegisterMachine.Proofs.Machine.Growth
import RegisterMachine.Proofs.Assembly.Denotation
import RegisterMachine.Proofs.Assembly.Layout
import RegisterMachine.Proofs.Assembly.Placement
import RegisterMachine.Proofs.Assembly.Reassembly
import RegisterMachine.Proofs.Assembly.Words
import RegisterMachine.Proofs.Assembly.LabelWord
import RegisterMachine.Proofs.Assembly.Cut
import RegisterMachine.Proofs.Assembly.Joining
import RegisterMachine.Proofs.Assembly.Relocation
import RegisterMachine.Proofs.Assembly.Numbering
import RegisterMachine.Proofs.Assembly.Alike
import RegisterMachine.Proofs.Assembly.Concatenation
import RegisterMachine.Proofs.Assembly.Skipping
import RegisterMachine.Proofs.Text.Numeral
import RegisterMachine.Proofs.Text.Line
import RegisterMachine.Proofs.Machine.Runs
import RegisterMachine.Proofs.Machine.Reachability
import RegisterMachine.Proofs.Machine.FetchBounds
import RegisterMachine.Proofs.Machine.MemoryChange
import RegisterMachine.Proofs.Machine.ImageExchange
import RegisterMachine.Proofs.Assembly.Columns
import RegisterMachine.Proofs.Assembly.Abortion
import RegisterMachine.Proofs.Assembly.Diagnostics
import RegisterMachine.Proofs.Assembly.Sorting
import RegisterMachine.Proofs.Assembly.LineErrors
import RegisterMachine.Proofs.Image.RoundTrip
import RegisterMachine.Proofs.Machine.Effect
import RegisterMachine.Proofs.Machine.Streams
import RegisterMachine.Proofs.Assembly.Listing
import RegisterMachine.Proofs.Machine.Logging
import RegisterMachine.Proofs.Assembly.SkippedLines
import RegisterMachine.Proofs.Assembly.LabelUse
import RegisterMachine.Proofs.Command.Assembler
import RegisterMachine.Proofs.Command.Runner
import RegisterMachine.Proofs.Command.Session
import RegisterMachine.Proofs.Command.Settings
import RegisterMachine.Proofs.Files.Path
import RegisterMachine.Proofs.Files.Tree
import RegisterMachine.Proofs.Command.SourceFile
import RegisterMachine.Proofs.Machine.StraightLine
import RegisterMachine.Proofs.Machine.Termination
import RegisterMachine.Proofs.Machine.CountedLoop
import RegisterMachine.Proofs.Machine.Accounting
import RegisterMachine.Proofs.Assembly.Literals
import RegisterMachine.Proofs.Machine.WordAccess
import RegisterMachine.Proofs.Assembly.TokenRuns
import RegisterMachine.Proofs.Assembly.TokenTexts
import RegisterMachine.Proofs.Assembly.Caret
import RegisterMachine.Proofs.Log.Calendar
import RegisterMachine.Proofs.Log.FixedWidth
import RegisterMachine.Proofs.Image.Dump
import RegisterMachine.Proofs.Template.LiteralText
import RegisterMachine.Proofs.Template.Scanning
import RegisterMachine.Proofs.Template.Handover
import RegisterMachine.Proofs.Command.Counts
