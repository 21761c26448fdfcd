import RegisterMachine.Command.Assembler
import RegisterMachine.Proofs.Command.Session
import RegisterMachine.Proofs.Assembly.Diagnostics

namespace RegisterMachine.Command

open SessionOn

/-!
# What the assembler leaves behind

The assembler writes at most one file, and only when nothing before it went
wrong.  Each part of the command refuses, and then only its log tells, unless
something is possible, and then it is done; so it is with the whole command.
What comes after the file was written is the listing, and this is broken off if
the output is broken.  That there always is a listing rests on the images that
are assembled: they decode.
-/

/-- Only the empty image has an empty listing. -/
theorem listing_eq_empty_iff
    {image : List UInt8}
    {listing : String}
    (listed : Image.disassemble image = .ok listing) :
    listing = "" ↔ image = [] := by
  rw [Image.disassemble] at listed
  cases decoded : Image.decode image with
  | error cause =>
      rw [decoded] at listed
      cases listed
  | ok entries =>
      rw [decoded] at listed
      cases listed
      cases entries with
      | nil =>
          exact ⟨fun _ => Image.eq_nil_of_decodeFrom_eq_nil decoded, fun _ => rfl⟩
      | cons entry others =>
          have notEmpty : image ≠ [] := by
            rintro rfl
            rw [Image.decode, Image.decodeFrom] at decoded
            cases decoded
          simp [Image.Entry.listingLine, notEmpty]

/-- The image of an assembled source has a listing. -/
theorem exists_disassemble_of_assemble
    {text : String}
    {assembly : Assembly.Assembled}
    (assembled : Assembly.assemble text = .ok assembly) :
    ∃ listing, Image.disassemble assembly.image = .ok listing := by
  obtain ⟨_, shape⟩ := Assembly.assembly_of_assemble assembled
  have decoded := Image.decodeFrom_encodeEntries (Assembly.tiles_slots text)
  exact ⟨_, by rw [shape, Image.disassemble, Image.decode, decoded]; rfl⟩

section SourceFiles

variable {Store : Type} [Files.FileStore Store]

/-- The source file can be read, it is UTF-8, and its text is assembled. -/
def AssembledFrom (files : Store) (source : String)
    (assembly : Assembly.Assembled) : Prop :=
  ∃ bytes text, Files.FileStore.read files source = .ok bytes ∧
    Text.Utf8.decode? bytes = some text ∧ Assembly.assemble text = .ok assembly

/-- A source is assembled in one way. -/
theorem AssembledFrom.unique
    {files : Store}
    {source : String}
    {assembly other : Assembly.Assembled}
    (fromSource : AssembledFrom files source assembly)
    (otherFrom : AssembledFrom files source other) :
    assembly = other := by
  obtain ⟨bytes, text, read, decoded, assembled⟩ := fromSource
  obtain ⟨_, _, otherRead, otherDecoded, otherAssembled⟩ := otherFrom
  rw [read] at otherRead
  cases otherRead
  rw [decoded] at otherDecoded
  cases otherDecoded
  rw [assembled] at otherAssembled
  exact Except.ok.inj otherAssembled

/-- What is wrong in a source file that holds text is logged, as it is reported. -/
theorem run_assembleFile_of_text
    (session : SessionOn Store)
    {source text : String}
    {bytes : List UInt8}
    (read : Files.FileStore.read session.files source = .ok bytes)
    (decoded : Text.Utf8.decode? bytes = some text) :
    (assembleFile source : SessionOnM Store _).run session =
      some ((Assembly.assemble text).mapError .failed,
        session.loggedAll
          (Assembly.report source text (Assembly.assemble text))) := by
  rw [assembleFile, run_bind_of_run (run_readFile session source), read]
  simp only [decoded]
  rw [run_bind_of_run (run_logAll session _)]
  cases Assembly.assemble text <;> rfl

/--
After a source file that holds text was assembled, the log has the report on it,
record by record as far as they reach the level of the log, behind what it had.
-/
theorem records_of_run_assembleFile
    (session : SessionOn Store)
    {source text : String}
    {bytes : List UInt8}
    (read : Files.FileStore.read session.files source = .ok bytes)
    (decoded : Text.Utf8.decode? bytes = some text) :
    ∃ result after,
      (assembleFile source : SessionOnM Store _).run session = some (result, after) ∧
      after.journal.records = session.journal.records ++
        (Assembly.report source text (Assembly.assemble text)).filter fun record =>
          session.journal.minimum.enabled record.level :=
  ⟨_, _, run_assembleFile_of_text session read decoded, records_loggedAll session _⟩

/-- Assembling a source file only logs, and says whether it can be assembled. -/
theorem run_assembleFile
    (session : SessionOn Store)
    (source : String) :
    ∃ result after,
      (assembleFile source : SessionOnM Store _).run session = some (result, after) ∧
      OnlyLogged session after ∧
      ∀ assembly, result = .ok assembly ↔
        AssembledFrom session.files source assembly := by
  cases read : Files.FileStore.read session.files source with
  | error cause =>
      refine ⟨.error (.unreadable (.file source cause)), session, ?_, .refl session, ?_⟩
      · rw [assembleFile, run_bind_of_run (run_readFile session source), read]
        rfl
      · simp [AssembledFrom, read]
  | ok bytes =>
      cases decoded : Text.Utf8.decode? bytes with
      | none =>
          refine ⟨.error (.unreadable (.file source .notText)), session, ?_,
            .refl session, ?_⟩
          · rw [assembleFile, run_bind_of_run (run_readFile session source), read]
            simp only [decoded]
            rfl
          · simp [AssembledFrom, read, decoded]
      | some text =>
          refine ⟨_, _, run_assembleFile_of_text session read decoded,
            .loggedAll session _, ?_⟩
          cases assembled : Assembly.assemble text <;>
            simp [AssembledFrom, read, decoded, assembled, Except.mapError]

theorem run_storeImage_of_error
    (session : SessionOn Store)
    {path : String}
    {image : List UInt8}
    {cause : Files.FileError}
    (failed : Files.FileStore.write session.files path image = .error cause) :
    (storeImage path image : SessionOnM Store _).run session =
      some (.error (.file path cause), session) := by
  rw [storeImage, run_bind_of_run (run_writeFile_of_error session failed)]
  rfl

theorem run_storeImage_of_ok
    (session : SessionOn Store)
    {path : String}
    {image : List UInt8}
    {files : Store}
    (written : Files.FileStore.write session.files path image = .ok files) :
    (storeImage path image : SessionOnM Store _).run session =
      some (.ok (), session.wrote path image files) := by
  rw [storeImage, run_bind_of_run (run_writeFile_of_ok session written)]
  rfl

end SourceFiles

namespace Assembler

variable {Store : Type} [Files.FileStore Store]

/-- One file was written, with an image; no other file was, and nothing was run. -/
structure Stored (before : SessionOn Store) (output : String)
    (image : List UInt8) (after : SessionOn Store) : Prop where
  written :
    Files.FileStore.write before.files output image = .ok after.files
  deeds :
    after.deeds = before.deeds ++ [.wrote output image]

/--
An image was stored.  Then its listing was printed, or the command was broken off
as the listing has text in it and the output is broken.
-/
inductive Delivered (before : SessionOn Store) (output : String)
    (image : List UInt8) : Exit → SessionOn Store → Prop where
  | listed {listing : String} {after : SessionOn Store} :
      Stored before output image after → Image.disassemble image = .ok listing →
        before.streams.outputFailure = none ∨ listing = "" →
        after.streams = before.streams.showing listing →
          Delivered before output image .success after
  | unlisted {listing reason : String} {after : SessionOn Store} :
      Stored before output image after → Image.disassemble image = .ok listing →
        before.streams.outputFailure = some reason → listing ≠ "" →
        after.streams = before.streams →
          Delivered before output image (.broken (.output reason)) after

theorem Stored.of_onlyLogged
    {first second third : SessionOn Store}
    {output : String}
    {image : List UInt8}
    (logged : OnlyLogged first second)
    (stored : Stored second output image third) :
    Stored first output image third where
  written := logged.files ▸ stored.written
  deeds := logged.deeds ▸ stored.deeds

theorem Delivered.of_onlyLogged
    {first second third : SessionOn Store}
    {output : String}
    {image : List UInt8}
    {exit : Exit}
    (logged : OnlyLogged first second)
    (delivered : Delivered second output image exit third) :
    Delivered first output image exit third := by
  cases delivered with
  | listed stored listed canPrint shown =>
      exact .listed (stored.of_onlyLogged logged) listed
        (logged.streams ▸ canPrint) (logged.streams ▸ shown)
  | unlisted stored listed broken notEmpty unchanged =>
      exact .unlisted (stored.of_onlyLogged logged) listed
        (logged.streams ▸ broken) notEmpty (unchanged.trans logged.streams)

theorem list_of_disassemble
    {image : List UInt8}
    {listing : String}
    (listed : Image.disassemble image = .ok listing) :
    (list image : SessionOnM Store _) = Host.print listing := by
  rw [list, listed]

/-- An image that has a listing is written and listed, if it can be written. -/
theorem refusesUnless_deliver
    (session : SessionOn Store)
    (source output : String)
    {image : List UInt8}
    {listing : String}
    (listed : Image.disassemble image = .ok listing) :
    RefusesUnless (deliver source output image) session
      (∃ changed, Files.FileStore.write session.files output image = .ok changed)
      (Delivered session output image) := by
  cases written : Files.FileStore.write session.files output image with
  | error cause =>
      exact .inl ⟨nofun, .of_run (run_storeImage_of_error session written)
        (.refl session) (refuses_fail session _)⟩
  | ok files =>
      refine .inr ⟨⟨files, rfl⟩, ?_⟩
      rw [deliver, run_bind_of_run (run_storeImage_of_ok session written)]
      dsimp only
      rw [run_bind_of_run (run_log _ _), list_of_disassemble listed]
      -- Writing and logging have left the streams of the session as they were.
      let later := session.wrote output image files
      obtain canPrint | ⟨reason, broken, notEmpty⟩ :=
        session.streams.canPrint_or_broken listing
      · rw [run_bind_of_run (run_print_of_ok (later.logged _) canPrint)]
        exact ⟨_, _, rfl, .listed ⟨written, rfl⟩ listed canPrint rfl⟩
      · rw [run_bind_of_run (run_print_of_error (later.logged _) broken notEmpty)]
        exact ⟨_, _, rfl, .unlisted ⟨written, rfl⟩ listed broken notEmpty rfl⟩

/-- The source can be assembled, and its image written to the output. -/
def Assembles (files : Store) (source output : String) : Prop :=
  ∃ assembly changed, AssembledFrom files source assembly ∧
    Files.FileStore.write files output assembly.image = .ok changed

/-- A source file is assembled and delivered, if both can be done. -/
theorem refusesUnless_assembleTo
    (session : SessionOn Store)
    (source output : String) :
    RefusesUnless (assembleTo source output) session
      (Assembles session.files source output)
      fun exit after => ∃ assembly, AssembledFrom session.files source assembly ∧
        Delivered session output assembly.image exit after := by
  obtain ⟨result, after, ran, logged, assembles⟩ := run_assembleFile session source
  cases result with
  | error cause =>
      refine .inl ⟨?_, .of_run ran logged (refuses_fail after _)⟩
      rintro ⟨assembly, _, fromSource, _⟩
      cases (assembles assembly).mpr fromSource
  | ok assembly =>
      have fromSource := (assembles assembly).mp rfl
      have possible :
          (∃ changed, Files.FileStore.write session.files output assembly.image =
            .ok changed) ↔ Assembles session.files source output := by
        constructor
        · exact fun ⟨changed, written⟩ => ⟨assembly, changed, fromSource, written⟩
        · rintro ⟨other, changed, fromOther, written⟩
          cases (assembles other).mpr fromOther
          exact ⟨changed, written⟩
      obtain ⟨_, text, _, _, assembled⟩ := fromSource
      obtain ⟨listing, listed⟩ := exists_disassemble_of_assemble assembled
      have delivers (started : SessionOn Store) (logged : OnlyLogged session started) :
          RefusesUnless (deliver source output assembly.image) started
            (Assembles session.files source output)
            fun exit after => ∃ assembly,
              AssembledFrom session.files source assembly ∧
                Delivered session output assembly.image exit after := by
        refine (refusesUnless_deliver started source output listed).mono ?_ ?_
        · rw [logged.files]
          exact possible
        · intro exit last delivered
          exact ⟨assembly, (assembles assembly).mp rfl, delivered.of_onlyLogged logged⟩
      refine .of_run ran logged ?_
      dsimp only
      split
      · refine .of_run (run_log after _) (.logged after _) ?_
        exact delivers _ (logged.trans (.logged after _))
      · exact delivers after logged

/-- The directory of a path is there, if the path names one. -/
def DirectoryExists (files : Store) (path : String) : Prop :=
  ∀ directory, Files.Path.parent? path = some directory → directory ≠ "" →
    Files.FileStore.pathExists files directory = true

/-- A directory that is missing is looked for, and that is all. -/
theorem run_missingDirectory?
    (session : SessionOn Store)
    (path : String) :
    ∃ missing, (missingDirectory? path : SessionOnM Store _).run session =
        some (missing, session) ∧
      (missing = none ↔ DirectoryExists session.files path) := by
  rw [missingDirectory?]
  cases parent : Files.Path.parent? path with
  | none =>
      exact ⟨none, rfl, by simp [DirectoryExists, parent]⟩
  | some directory =>
      by_cases empty : directory = ""
      · refine ⟨none, ?_, by simp [DirectoryExists, parent, empty]⟩
        simp only [if_pos empty]
        rfl
      · simp only [if_neg empty]
        rw [run_bind_of_run (run_pathExists session directory)]
        cases found : Files.FileStore.pathExists session.files directory with
        | true =>
            exact ⟨none, rfl, by simp [DirectoryExists, parent, found]⟩
        | false =>
            exact ⟨some directory, rfl, by simp [DirectoryExists, parent, empty, found]⟩

/-- What it takes to assemble from one path into another. -/
structure Possible (files : Store) (source output : String) : Prop where
  sourceExists :
    Files.FileStore.pathExists files source = true
  directoryExists :
    DirectoryExists files output
  assembles :
    Assembles files source output

theorem refusesUnless_assemblePaths
    (session : SessionOn Store)
    (source output : String) :
    RefusesUnless (assemblePaths source output) session
      (Possible session.files source output)
      fun exit after => ∃ assembly, AssembledFrom session.files source assembly ∧
        Delivered session output assembly.image exit after := by
  rw [assemblePaths]
  refine .of_run (run_pathExists session source) (.refl session) ?_
  split
  · next isThere =>
      obtain ⟨missing, ran, noneMissing⟩ := run_missingDirectory? session output
      refine .of_run ran (.refl session) ?_
      cases missing with
      | none =>
          refine (refusesUnless_assembleTo session source output).mono ?_ fun _ _ => id
          exact ⟨fun assembles => ⟨isThere, noneMissing.mp rfl, assembles⟩,
            Possible.assembles⟩
      | some directory =>
          refine .inl ⟨fun possible => ?_, refuses_fail session _⟩
          cases noneMissing.mpr possible.directoryExists
  · next notThere =>
      exact .inl ⟨fun possible => notThere possible.sourceExists,
        refuses_fail session _⟩

theorem refuses_refuse
    (session : SessionOn Store)
    (program : String)
    (cause : OptionError) :
    Refuses (refuse program cause) session := by
  rw [refuse]
  refine .of_run (run_log session _) (.logged session _) ?_
  cases cause with
  | unexpected argument =>
      exact .of_run (run_log _ _) (.logged _ _) ⟨_, rfl, .refl _⟩
  | missingValue option =>
      exact ⟨_, rfl, .refl _⟩

/-- The arguments that give options, each followed by its value. -/
def optionArguments (options : List (String × String)) : List String :=
  options.flatMap fun option => [option.1, option.2]

/--
The file of the image: the value of the last option, or else beside the source with
its stem and the ending `.bin`.
-/
def outputPath (source : String) (options : List (String × String)) : String :=
  (options.getLast?.map Prod.snd).getD
    (Files.Path.join ((Files.Path.parent? source).getD ".")
      (Files.Path.stem source ++ ".bin"))

/-- Arguments are accepted just as options with values, and the last value counts. -/
theorem parse_eq_ok_iff
    {output named : Option String}
    {arguments : List String} :
    parse output arguments = .ok named ↔
      ∃ options, arguments = optionArguments options ∧
        (∀ option ∈ options, namesOutput option.1 = true) ∧
        named = (options.getLast?.map Prod.snd).or output := by
  constructor
  · intro parsed
    fun_induction parse output arguments with
    | case1 output =>
        cases parsed
        exact ⟨[], rfl, by simp, by simp⟩
    | case2 =>
        cases parsed
    | case3 output argument names value rest inductionHypothesis =>
        obtain ⟨options, rfl, allName, last⟩ := inductionHypothesis parsed
        refine ⟨(argument, value) :: options, rfl, by simpa [names] using allName, ?_⟩
        rw [last, List.getLast?_cons]
        cases options.getLast? <;> rfl
    | case4 =>
        cases parsed
  · rintro ⟨options, rfl, allName, rfl⟩
    induction options generalizing output with
    | nil =>
        rfl
    | cons option rest inductionHypothesis =>
        obtain ⟨named, restName⟩ := List.forall_mem_cons.mp allName
        have parsed := @inductionHypothesis (some option.2) restName
        rw [optionArguments, List.flatMap_cons]
        change parse output (option.1 :: option.2 :: optionArguments rest) = _
        rw [parse, if_pos named, parsed, List.getLast?_cons]
        cases rest.getLast? <;> rfl

/--
Arguments that do not ask for the usage text name a source and, by options, the
file for its image.  All is there to assemble the one into the other.
-/
inductive Produces (files : Store) :
    List String → String → Assembly.Assembled → Prop where
  | intro {source : String} {options : List (String × String)}
      {assembly : Assembly.Assembled} :
      asksForHelp source = false →
        (∀ option ∈ options, namesOutput option.1 = true) →
        Possible files source (outputPath source options) →
        AssembledFrom files source assembly →
          Produces files (source :: optionArguments options)
            (outputPath source options) assembly

/-- The arguments ask for the usage text, or for an assembly that is possible. -/
inductive CanSucceed (files : Store) : List String → Prop where
  | usage {source : String} {rest : List String} :
      asksForHelp source = true → CanSucceed files (source :: rest)
  | assembly {arguments : List String} {output : String}
      {assembly : Assembly.Assembled} :
      Produces files arguments output assembly → CanSucceed files arguments

/-- The image that the arguments ask for has bytes to list, and the output is broken. -/
def ListingFails (session : SessionOn Store) (arguments : List String) : Prop :=
  session.streams.outputFailure ≠ none ∧ ∃ output assembly,
    Produces session.files arguments output assembly ∧ assembly.image ≠ []

section Arguments

variable
  {files : Store}
  {source output : String}
  {rest : List String}
  {assembly : Assembly.Assembled}

/-- What produces an image is what the command reads from its arguments. -/
theorem produces_cons_iff :
    Produces files (source :: rest) output assembly ↔
      asksForHelp source = false ∧ ∃ named, parse none rest = .ok named ∧
        output = named.getD (Files.Path.imagePath source) ∧
        Possible files source output ∧ AssembledFrom files source assembly := by
  constructor
  · intro produces
    cases produces with
    | intro noHelp allName possible fromSource =>
        refine ⟨noHelp, _, parse_eq_ok_iff.mpr ⟨_, rfl, allName, rfl⟩, ?_, possible,
          fromSource⟩
        rw [Option.or_none]
        rfl
  · rintro ⟨noHelp, named, parsed, rfl, possible, fromSource⟩
    obtain ⟨options, rfl, allName, rfl⟩ := parse_eq_ok_iff.mp parsed
    rw [Option.or_none] at possible ⊢
    exact .intro noHelp allName possible fromSource

theorem Produces.unique
    {arguments : List String}
    {otherOutput : String}
    {other : Assembly.Assembled}
    (produces : Produces files arguments output assembly)
    (otherProduces : Produces files arguments otherOutput other) :
    output = otherOutput ∧ assembly = other := by
  obtain ⟨source, rest, rfl⟩ : ∃ source rest, arguments = source :: rest := by
    cases produces
    exact ⟨_, _, rfl⟩
  obtain ⟨_, named, parsed, rfl, _, fromSource⟩ := produces_cons_iff.mp produces
  obtain ⟨_, _, otherParsed, rfl, _, otherFrom⟩ := produces_cons_iff.mp otherProduces
  rw [parsed] at otherParsed
  cases otherParsed
  exact ⟨rfl, fromSource.unique otherFrom⟩

theorem CanSucceed.exists_parse
    (canSucceed : CanSucceed files (source :: rest))
    (noHelp : asksForHelp source = false) :
    ∃ named, parse none rest = .ok named ∧
      Possible files source (named.getD (Files.Path.imagePath source)) := by
  cases canSucceed with
  | usage help =>
      rw [noHelp] at help
      cases help
  | assembly produces =>
      obtain ⟨_, named, parsed, rfl, possible, _⟩ := produces_cons_iff.mp produces
      exact ⟨named, parsed, possible⟩

end Arguments

/-- How the command ends, and what the session is then. -/
inductive Outcome (program : String) (arguments : List String)
    (before : SessionOn Store) : Exit → SessionOn Store → Prop where
  | refused {after : SessionOn Store} :
      ¬ CanSucceed before.files arguments → OnlyLogged before after →
        Outcome program arguments before .failure after
  | usage {source : String} {rest : List String} :
      arguments = source :: rest → asksForHelp source = true →
        Outcome program arguments before .success
          (before.logged (.info (usage program)))
  | delivered {output : String} {assembly : Assembly.Assembled} {exit : Exit}
      {after : SessionOn Store} :
      Produces before.files arguments output assembly →
        Delivered before output assembly.image exit after →
          Outcome program arguments before exit after

/-- The command ends, in one of these ways. -/
theorem exists_outcome
    (program : String)
    (arguments : List String)
    (session : SessionOn Store) :
    ∃ exit after,
      (Assembler.run program arguments : SessionOnM Store Exit).run session =
        some (exit, after) ∧
      Outcome program arguments session exit after := by
  cases arguments with
  | nil =>
      refine ⟨.failure, session.logged (.info (usage program)), rfl,
        .refused ?_ (.logged session _)⟩
      rintro (_ | ⟨⟨⟩⟩)
  | cons source rest =>
      cases help : asksForHelp source with
      | true =>
          refine ⟨.success, _, ?_, .usage rfl help⟩
          simp only [Assembler.run, help]
          rfl
      | false =>
          cases parsed : parse none rest with
          | error cause =>
              obtain ⟨after, ran, logged⟩ := refuses_refuse session program cause
              refine ⟨.failure, after, ?_, .refused ?_ logged⟩
              · simpa [Assembler.run, help, parsed] using ran
              · intro canSucceed
                obtain ⟨named, accepted, _⟩ := canSucceed.exists_parse help
                rw [parsed] at accepted
                cases accepted
          | ok named =>
              have runsOn :
                  (Assembler.run program (source :: rest) : SessionOnM Store Exit) =
                    assemblePaths source
                      (named.getD (Files.Path.imagePath source)) := by
                simp [Assembler.run, help, parsed]
              rw [runsOn]
              obtain ⟨impossible, after, ran, logged⟩ |
                  ⟨possible, exit, after, ran, assembly, fromSource, delivered⟩ :=
                refusesUnless_assemblePaths session source
                  (named.getD (Files.Path.imagePath source))
              · refine ⟨.failure, after, ran, .refused ?_ logged⟩
                intro canSucceed
                obtain ⟨other, accepted, possible⟩ := canSucceed.exists_parse help
                rw [parsed] at accepted
                cases accepted
                exact impossible possible
              · have produces := produces_cons_iff.mpr
                  ⟨help, named, parsed, rfl, possible, fromSource⟩
                exact ⟨exit, after, ran, .delivered produces delivered⟩

/-- What was delivered was listed, unless the output is broken and there is an image. -/
theorem Delivered.code_eq
    {before after : SessionOn Store}
    {output : String}
    {image : List UInt8}
    {exit : Exit}
    (delivered : Delivered before output image exit after) :
    (exit.code = 0 ∧ (before.streams.outputFailure = none ∨ image = [])) ∨
      (exit.code = 101 ∧ before.streams.outputFailure ≠ none ∧ image ≠ []) := by
  cases delivered with
  | listed _ listed canPrint _ =>
      exact .inl ⟨rfl, canPrint.imp_right (listing_eq_empty_iff listed).mp⟩
  | unlisted _ listed broken notEmpty _ =>
      exact .inr ⟨rfl, by simp [broken], mt (listing_eq_empty_iff listed).mpr notEmpty⟩

theorem Delivered.exists_listing
    {before after : SessionOn Store}
    {output : String}
    {image : List UInt8}
    {exit : Exit}
    (delivered : Delivered before output image exit after) :
    ∃ listing, Image.disassemble image = .ok listing ∧
      Stored before output image after ∧
      (exit.code = 0 →
        after.streams.output = before.streams.output ++ Text.Utf8.encode listing) ∧
      (exit.code = 101 → after.streams = before.streams) := by
  cases delivered with
  | listed stored listed _ shown =>
      exact ⟨_, listed, stored, fun _ => by rw [shown, Streams.output_showing], nofun⟩
  | unlisted stored listed _ _ unchanged =>
      exact ⟨_, listed, stored, nofun, fun _ => unchanged⟩

/--
For every store of files, every list of arguments and every session, the command
ends with code 0, 1 or 101.  The code is 1 if and only if the arguments ask for
nothing that can be done, and then all but the log is as before: no file was
written and nothing was printed.  Otherwise the usage text was asked for and
logged, or the arguments were a source and options, the source was assembled, its
image was written to the file that the last option names or else beside the source,
and this was the only file that was written.  With code 0 the listing of the image,
which there always is, was then added to the output.  The code is 101, and the
output as before, just if the output is broken and the image is not empty.
-/
theorem run_all_or_nothing
    (program : String)
    (arguments : List String)
    (session : SessionOn Store) :
    ∃ exit after,
      (Assembler.run program arguments : SessionOnM Store Exit).run session =
        some (exit, after) ∧
      (exit.code = 1 ↔ ¬ CanSucceed session.files arguments) ∧
      (exit.code = 101 ↔ ListingFails session arguments) ∧
      (exit.code ≠ 1 → exit.code ≠ 101 → exit.code = 0) ∧
      (exit.code = 1 → OnlyLogged session after) ∧
      (exit.code ≠ 1 →
        (∃ source rest, arguments = source :: rest ∧ asksForHelp source = true ∧
          after = session.logged (.info (usage program))) ∨
        ∃ output assembly listing,
          Produces session.files arguments output assembly ∧
          Image.disassemble assembly.image = .ok listing ∧
          Stored session output assembly.image after ∧
          (exit.code = 0 → after.streams.output =
            session.streams.output ++ Text.Utf8.encode listing) ∧
          (exit.code = 101 → after.streams = session.streams)) := by
  obtain ⟨exit, after, ran, outcome⟩ := exists_outcome program arguments session
  refine ⟨exit, after, ran, ?_⟩
  cases outcome with
  | refused cannot logged =>
      refine ⟨⟨fun _ => cannot, fun _ => rfl⟩, ⟨nofun, ?_⟩, by simp [Exit.code],
        fun _ => logged, by simp [Exit.code]⟩
      rintro ⟨_, _, _, produces, _⟩
      exact (cannot (.assembly produces)).elim
  | @usage source rest shape help =>
      refine ⟨⟨nofun, fun cannot => (cannot (shape ▸ .usage help)).elim⟩, ⟨nofun, ?_⟩,
        fun _ _ => rfl, nofun, fun _ => .inl ⟨source, rest, shape, help, rfl⟩⟩
      rintro ⟨_, _, _, produces, _⟩
      rw [shape, produces_cons_iff, help] at produces
      cases produces.1
  | @delivered output assembly _ _ produces delivered =>
      obtain ⟨listing, listed, stored, shown, unchanged⟩ := delivered.exists_listing
      have fails : ListingFails session arguments ↔
          session.streams.outputFailure ≠ none ∧ assembly.image ≠ [] := by
        constructor
        · rintro ⟨broken, _, other, otherProduces, notEmpty⟩
          obtain ⟨-, rfl⟩ := produces.unique otherProduces
          exact ⟨broken, notEmpty⟩
        · exact fun ⟨broken, notEmpty⟩ => ⟨broken, output, assembly, produces, notEmpty⟩
      have can : CanSucceed session.files arguments := .assembly produces
      rw [fails]
      obtain ⟨code, canPrint⟩ | ⟨code, broken, notEmpty⟩ := delivered.code_eq
      · rw [code] at shown unchanged ⊢
        refine ⟨by simp [can], ⟨nofun, ?_⟩, fun _ _ => rfl, nofun, fun _ => .inr ?_⟩
        · rintro ⟨broken, notEmpty⟩
          exact (canPrint.elim broken notEmpty).elim
        · exact ⟨output, assembly, listing, produces, listed, stored, shown, unchanged⟩
      · rw [code] at shown unchanged ⊢
        refine ⟨by simp [can], by simp [broken, notEmpty], by simp, nofun,
          fun _ => .inr ?_⟩
        exact ⟨output, assembly, listing, produces, listed, stored, shown, unchanged⟩

end Assembler

end RegisterMachine.Command
