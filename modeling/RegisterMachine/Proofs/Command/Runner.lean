import RegisterMachine.Proofs.Command.Settings
import RegisterMachine.Proofs.Command.Session
import RegisterMachine.Proofs.Machine.Reachability

namespace RegisterMachine.Command.Runner

open SessionOn

/-!
# What the runner leaves behind

Before anything is run the runner can refuse (`Refused`) or break off (`Breaks`),
and then it has written nothing.  From a start (`Starts`) it runs one machine; after
that only the file for the memory can fail, and how the machine ended does not
matter (`Finished`).
-/

/-- Whether there are no arguments or the first one asks for help. -/
def asksUsage : List String → Bool
  | [] => true
  | argument :: _ => asksForHelp argument

variable {Store : Type} [Files.FileStore Store]

/-- Arguments give options, and name a file that holds an image. -/
inductive Names (files : Store) : List String → Options → List UInt8 → Prop where
  | intro {path : String} {rest : List String} {settings : List Setting}
      {image : List UInt8} :
      asksForHelp path = false → Reads rest settings →
        Files.FileStore.read files path = .ok image → image ≠ [] →
          Names files (path :: rest) (Options.applying {} settings) image

/-- The dump of an image is not asked for, or it can be printed. -/
def CanShow (streams : Streams) (options : Options) : Prop :=
  options.hexDump = true → streams.outputFailure = none

/-- The streams when the machine starts: with the dump of the image, if it is asked for. -/
def shown (streams : Streams) (options : Options) (image : List UInt8) : Streams :=
  if options.hexDump then
    streams.showing ("Hex dump:\n" ++ Image.hexDump image ++ "\n")
  else
    streams

/-- Why nothing is run: for an option, or for the file of the image. -/
inductive Refused (session : SessionOn Store) : List String → Prop where
  | misused {path : String} {rest : List String} :
      Misused rest → Refused session (path :: rest)
  | unreadable {path : String} {rest : List String} {cause : Files.FileError} :
      Files.FileStore.read session.files path = .error cause →
        Refused session (path :: rest)
  | emptyImage {path : String} {rest : List String} :
      Files.FileStore.read session.files path = .ok [] → Refused session (path :: rest)
  | imageTooLarge {arguments : List String} {options : Options}
      {image : List UInt8} :
      Names session.files arguments options image →
        CanShow session.streams options → options.memorySize < image.length →
          Refused session arguments

/-- Memory of a size is not there, on a host that has memory up to a limit. -/
inductive Short (limit size : Nat) : Breakdown → Prop where
  | capacity :
      Memory.maximumSize < size → Short limit size .capacity
  | exhausted :
      size ≤ Memory.maximumSize → limit < size → Short limit size (.exhausted size)

/--
What breaks the command off before the run: that the dump of the image cannot be
printed, or that there is no memory of the size that was asked for.
-/
inductive Breaks (session : SessionOn Store) (arguments : List String) :
    Breakdown → Prop where
  | output {options : Options} {image : List UInt8} {reason : String} :
      Names session.files arguments options image → options.hexDump = true →
        session.streams.outputFailure = some reason →
          Breaks session arguments (.output reason)
  | memory {options : Options} {image : List UInt8} {cause : Breakdown} :
      Names session.files arguments options image →
        CanShow session.streams options → image.length ≤ options.memorySize →
        Short session.memoryLimit options.memorySize cause →
          Breaks session arguments cause

/--
Arguments give options, and name an image that is loaded into memory of their size,
which the host has, for an execution to start.
-/
inductive Starts (session : SessionOn Store) (arguments : List String)
    (options : Options) : Execution Streams → Prop where
  | intro {image : List UInt8} {machine : Machine} :
      Names session.files arguments options image →
        CanShow session.streams options →
        options.memorySize ≤ Memory.maximumSize →
        options.memorySize ≤ session.memoryLimit →
        Machine.load image options.memorySize = .ok machine →
          Starts session arguments options
            ⟨machine, shown session.streams options image, {}⟩

/--
What is left when a machine has been run: nothing but that, or its last memory in
the file that was asked for.
-/
inductive Finished (before : SessionOn Store) (machine : Machine) (options : Options)
    (final : Machine) : Exit → SessionOn Store → Prop where
  | noDump {after : SessionOn Store} :
      options.dumpPath = none → after.files = before.files →
        after.deeds = before.deeds ++ [.ran machine options.maxSteps] →
          Finished before machine options final .success after
  | dumpFailed {after : SessionOn Store} {path : String} {cause : Files.FileError} :
      options.dumpPath = some path →
        Files.FileStore.write before.files path final.memory.bytes.toList =
          .error cause →
        after.files = before.files →
        after.deeds = before.deeds ++ [.ran machine options.maxSteps] →
          Finished before machine options final .failure after
  | dumped {after : SessionOn Store} {path : String} :
      options.dumpPath = some path →
        Files.FileStore.write before.files path final.memory.bytes.toList =
          .ok after.files →
        after.deeds = before.deeds ++ [.ran machine options.maxSteps,
          .wrote path final.memory.bytes.toList] →
          Finished before machine options final .success after

theorem Finished.of_same
    {first second after : SessionOn Store}
    {machine final : Machine}
    {options : Options}
    {exit : Exit}
    (finished : Finished second machine options final exit after)
    (files : second.files = first.files)
    (deeds : second.deeds = first.deeds) :
    Finished first machine options final exit after := by
  cases finished with
  | noDump none unchanged ran =>
      exact .noDump none (unchanged.trans files) (deeds ▸ ran)
  | dumpFailed some failed unchanged ran =>
      exact .dumpFailed some (files ▸ failed) (unchanged.trans files) (deeds ▸ ran)
  | dumped some written ran =>
      exact .dumped some (files ▸ written) (deeds ▸ ran)

/-- After a run the command fails only for the file of the memory. -/
theorem Finished.code_eq_one_iff
    {before after : SessionOn Store}
    {machine final : Machine}
    {options : Options}
    {exit : Exit}
    (finished : Finished before machine options final exit after) :
    exit.code = 1 ↔ ∃ path cause, options.dumpPath = some path ∧
      Files.FileStore.write before.files path final.memory.bytes.toList =
        .error cause := by
  cases finished with
  | noDump none _ _ => simp [none, Exit.code]
  | dumpFailed some failed _ _ => simp [some, failed, Exit.code]
  | dumped some written _ => simp [some, written, Exit.code]

theorem Finished.code_le_one
    {before after : SessionOn Store}
    {machine final : Machine}
    {options : Options}
    {exit : Exit}
    (finished : Finished before machine options final exit after) :
    exit.code ≤ 1 := by
  cases finished <;> decide

/-- The memory was to be written to a file when the run had ended, and could not be. -/
def DumpFails (session : SessionOn Store) (arguments : List String) : Prop :=
  ∃ options start final path cause,
    Starts session arguments options start ∧
      start.EndsWithin session.fuel options.maxSteps final ∧
      options.dumpPath = some path ∧
      Files.FileStore.write session.files path final.memory.bytes.toList =
        .error cause

theorem Names.asksUsage_eq_false
    {files : Store}
    {arguments : List String}
    {options : Options}
    {image : List UInt8}
    (names : Names files arguments options image) :
    asksUsage arguments = false := by
  cases names with
  | intro noHelp _ _ _ => exact noHelp

theorem Names.unique
    {files : Store}
    {arguments : List String}
    {options others : Options}
    {image other : List UInt8}
    (names : Names files arguments options image)
    (otherNames : Names files arguments others other) :
    options = others ∧ image = other := by
  cases names with
  | intro _ reads read _ =>
      cases otherNames with
      | intro _ otherReads otherRead _ =>
          rw [read] at otherRead
          cases otherRead
          exact ⟨reads.applying_eq otherReads, rfl⟩

/-- When an image is named, the command is refused only if it is too large. -/
theorem Names.refused_iff
    {session : SessionOn Store}
    {arguments : List String}
    {options : Options}
    {image : List UInt8}
    (names : Names session.files arguments options image) :
    Refused session arguments ↔
      CanShow session.streams options ∧ options.memorySize < image.length := by
  constructor
  · intro refused
    cases refused with
    | misused misused =>
        cases names with
        | intro _ reads _ _ => exact (reads.not_misused misused).elim
    | unreadable failed =>
        cases names with
        | intro _ _ read _ =>
            rw [failed] at read
            cases read
    | emptyImage isEmpty =>
        cases names with
        | intro _ _ read nonempty =>
            rw [isEmpty] at read
            cases read
            exact (nonempty rfl).elim
    | imageTooLarge otherNames canShow tooLarge =>
        obtain ⟨rfl, rfl⟩ := names.unique otherNames
        exact ⟨canShow, tooLarge⟩
  · exact fun ⟨canShow, tooLarge⟩ => .imageTooLarge names canShow tooLarge

theorem Short.unique
    {limit size : Nat}
    {cause other : Breakdown}
    (short : Short limit size cause)
    (otherShort : Short limit size other) :
    cause = other := by
  cases short with
  | capacity tooMuch =>
      cases otherShort with
      | capacity _ => rfl
      | exhausted fits _ => exact (Nat.not_lt.mpr fits tooMuch).elim
  | exhausted fits _ =>
      cases otherShort with
      | capacity tooMuch => exact (Nat.not_lt.mpr fits tooMuch).elim
      | exhausted _ _ => rfl

section Exclusion

variable
  {session : SessionOn Store}
  {arguments : List String}
  {options : Options}
  {start : Execution Streams}
  {cause : Breakdown}

/-- The command is broken off for one cause. -/
theorem Breaks.unique
    {other : Breakdown}
    (breaks : Breaks session arguments cause)
    (otherBreaks : Breaks session arguments other) :
    cause = other := by
  cases breaks with
  | output names asked broken =>
      cases otherBreaks with
      | output _ _ alsoBroken =>
          exact congrArg Breakdown.output (Option.some.inj (broken.symm.trans alsoBroken))
      | memory otherNames canShow _ _ =>
          obtain ⟨rfl, rfl⟩ := names.unique otherNames
          rw [canShow asked] at broken
          cases broken
  | memory names canShow _ short =>
      cases otherBreaks with
      | output otherNames asked broken =>
          obtain ⟨rfl, rfl⟩ := names.unique otherNames
          rw [canShow asked] at broken
          cases broken
      | memory otherNames _ _ otherShort =>
          obtain ⟨rfl, rfl⟩ := names.unique otherNames
          exact short.unique otherShort

/-- What is broken off is not refused. -/
theorem Breaks.not_refused
    (breaks : Breaks session arguments cause) :
    ¬ Refused session arguments := by
  cases breaks with
  | output names asked broken =>
      rw [names.refused_iff]
      rintro ⟨canShow, _⟩
      rw [canShow asked] at broken
      cases broken
  | memory names _ fits _ =>
      rw [names.refused_iff]
      exact fun ⟨_, tooLarge⟩ => Nat.not_lt.mpr fits tooLarge

/-- There is one start. -/
theorem Starts.unique
    {others : Options}
    {other : Execution Streams}
    (starts : Starts session arguments options start)
    (otherStarts : Starts session arguments others other) :
    options = others ∧ start = other := by
  cases starts with
  | intro names _ _ _ loaded =>
      cases otherStarts with
      | intro otherNames _ _ _ otherLoaded =>
          obtain ⟨rfl, rfl⟩ := names.unique otherNames
          rw [loaded] at otherLoaded
          cases otherLoaded
          exact ⟨rfl, rfl⟩

theorem Starts.asksUsage_eq_false
    (starts : Starts session arguments options start) :
    asksUsage arguments = false := by
  cases starts with
  | intro names _ _ _ _ => exact names.asksUsage_eq_false

theorem fits_of_load
    {image : List UInt8}
    {size : Nat}
    {machine : Machine}
    (loaded : Machine.load image size = .ok machine) :
    image.length ≤ size := by
  by_contra tooLarge
  rw [Machine.load, if_neg tooLarge] at loaded
  cases loaded

/-- What starts is neither refused nor broken off. -/
theorem Starts.not_refused
    (starts : Starts session arguments options start) :
    ¬ Refused session arguments := by
  cases starts with
  | intro names _ _ _ loaded =>
      rw [names.refused_iff]
      exact fun ⟨_, tooLarge⟩ => Nat.not_lt.mpr (fits_of_load loaded) tooLarge

theorem Starts.not_breaks
    (starts : Starts session arguments options start) :
    ¬ Breaks session arguments cause := by
  intro breaks
  cases starts with
  | intro names canShow possible within _ =>
      cases breaks with
      | output otherNames asked broken =>
          obtain ⟨rfl, rfl⟩ := names.unique otherNames
          rw [canShow asked] at broken
          cases broken
      | memory otherNames _ _ short =>
          obtain ⟨rfl, rfl⟩ := names.unique otherNames
          cases short with
          | capacity tooMuch => exact Nat.not_lt.mpr possible tooMuch
          | exhausted _ tooMuch => exact Nat.not_lt.mpr within tooMuch

/-- At the end of a run the memory has the size that was asked for. -/
theorem Starts.length_memory
    {fuel : Nat}
    {final : Machine}
    (starts : Starts session arguments options start)
    (ends : start.EndsWithin fuel options.maxSteps final) :
    final.memory.bytes.toList.length = options.memorySize := by
  cases starts with
  | intro _ _ _ _ loaded =>
      obtain ⟨count, rfl⟩ := ends.exists_iterate_step
      exact ((Machine.consistent_of_load loaded).iterate_step count).memory

end Exclusion

section Running

variable (session : SessionOn Store)

theorem refuses_dump
    {machine : Machine}
    {path : String}
    {cause : Files.FileError}
    (failed : Files.FileStore.write session.files path machine.memory.bytes.toList =
      .error cause) :
    Refuses (dump machine path) session :=
  .of_run (run_writeFile_of_error session failed) (.refl session)
    (refuses_fail session _)

theorem run_dump_of_ok
    {machine : Machine}
    {path : String}
    {files : Store}
    (written : Files.FileStore.write session.files path machine.memory.bytes.toList =
      .ok files) :
    ∃ after,
      (dump machine path : SessionOnM Store Exit).run session =
        some (.success, after) ∧
      OnlyLogged (session.wrote path machine.memory.bytes.toList files) after := by
  rw [dump, run_bind_of_run (run_writeFile_of_ok session written)]
  exact ⟨_, rfl, .logged _ _⟩

/--
From a start the run has no end within the fuel, and there is no result; or it
has one, and what is done after it is done.
-/
theorem execute_cases
    (machine : Machine)
    (options : Options) :
    let start : Execution Streams := ⟨machine, session.streams, {}⟩
    ((execute machine options : SessionOnM Store Exit).run session = none ∧
      ∀ final, ¬ start.EndsWithin session.fuel options.maxSteps final) ∨
    ∃ final exit after,
      (execute machine options : SessionOnM Store Exit).run session =
        some (exit, after) ∧
      start.EndsWithin session.fuel options.maxSteps final ∧
      Finished session machine options final exit after := by
  intro start
  obtain ⟨ran, endless⟩ | ⟨final, later, ran, ends, files, deeds⟩ :=
    run_run_cases session machine options.maxSteps
  · refine .inl ⟨?_, endless⟩
    rw [execute, StateT.run_bind, ran]
    rfl
  · right
    rw [execute, run_bind_of_run ran]
    dsimp only
    rw [run_bind_of_run (run_log later _)]
    cases dumps : options.dumpPath with
    | none =>
        exact ⟨final, .success, _, rfl, ends, .noDump dumps files deeds⟩
    | some path =>
        cases written : Files.FileStore.write session.files path
            final.memory.bytes.toList with
        | error cause =>
            obtain ⟨after, fails, logged⟩ :=
              refuses_dump (later.logged (ending final)) (files ▸ written)
            refine ⟨final, .failure, after, ?_, ends, .dumpFailed dumps written
              (logged.files.trans files) (logged.deeds.trans deeds)⟩
            dsimp only
            rw [run_bind_of_run fails]
            rfl
        | ok changed =>
            obtain ⟨after, succeeds, logged⟩ :=
              run_dump_of_ok (later.logged (ending final)) (files ▸ written)
            refine ⟨final, .success, after.logged (.info (timeText 0)), ?_, ends,
              .dumped dumps ?_ ?_⟩
            · dsimp only
              rw [run_bind_of_run succeeds]
              rfl
            · exact logged.files ▸ written
            · exact logged.deeds.trans (by simp [wrote, SessionOn.logged, deeds])

theorem run_loadImage_of_ok
    {path : String}
    {image : List UInt8}
    (read : Files.FileStore.read session.files path = .ok image)
    (nonempty : image ≠ []) :
    (loadImage path : SessionOnM Store _).run session = some (.ok image, session) := by
  rw [loadImage, run_bind_of_run (run_readFile session path), read]
  cases image with
  | nil => exact (nonempty rfl).elim
  | cons byte rest => rfl

/-- A dump that is asked for is not printed on a broken output, and all breaks off. -/
theorem run_launch_of_broken
    {image : List UInt8}
    {options : Options}
    {reason : String}
    (asked : options.hexDump = true)
    (broken : session.streams.outputFailure = some reason) :
    (launch image options : SessionOnM Store Exit).run session =
      some (.broken (.output reason), session) := by
  have notEmpty : dumpText image ≠ "" := by simp [dumpText]
  rw [launch, showImage, if_pos asked,
    run_bind_of_run (run_print_of_error session broken notEmpty)]
  rfl

/-- When there is nothing to show, or it can be shown, a machine is started. -/
theorem run_launch_of_canShow
    {image : List UInt8}
    {options : Options}
    (canShow : CanShow session.streams options) :
    (launch image options : SessionOnM Store Exit).run session =
      (start image options : SessionOnM Store Exit).run
        { session with streams := shown session.streams options image } := by
  rw [launch, showImage, shown]
  split
  · next asked =>
      rw [run_bind_of_run (run_print_of_ok session (.inl (canShow asked)))]
      rfl
  · rfl

/-- An image that is too large is refused before any memory is asked for. -/
theorem refuses_start_of_tooLarge
    {image : List UInt8}
    {options : Options}
    (tooLarge : options.memorySize < image.length) :
    Refuses (start image options) session := by
  have noShortage :
      (shortage? image options.memorySize : SessionOnM Store _).run session =
        some (none, session) := by
    rw [shortage?, if_pos tooLarge]
    rfl
  refine .of_run noShortage (.refl session) ?_
  dsimp only
  rw [Machine.load, if_neg (Nat.not_le.mpr tooLarge)]
  exact refuses_fail session _

/-- Without memory of the size that is asked for, all breaks off. -/
theorem run_start_of_short
    {image : List UInt8}
    {options : Options}
    {cause : Breakdown}
    (fits : image.length ≤ options.memorySize)
    (short : Short session.memoryLimit options.memorySize cause) :
    (start image options : SessionOnM Store Exit).run session =
      some (.broken cause, session) := by
  have shortage :
      (shortage? image options.memorySize : SessionOnM Store _).run session =
        some (some cause, session) := by
    rw [shortage?, if_neg (Nat.not_lt.mpr fits)]
    cases short with
    | capacity tooMuch =>
        rw [if_pos tooMuch]
        rfl
    | exhausted possible tooMuch =>
        rw [if_neg (Nat.not_lt.mpr possible),
          run_bind_of_run (run_hasMemory session _), decide_eq_false (Nat.not_le.mpr tooMuch)]
        rfl
  rw [start, run_bind_of_run shortage]
  rfl

/-- With memory of the size that is asked for, the image is loaded and executed. -/
theorem run_start_of_load
    {image : List UInt8}
    {options : Options}
    {machine : Machine}
    (possible : options.memorySize ≤ Memory.maximumSize)
    (within : options.memorySize ≤ session.memoryLimit)
    (loaded : Machine.load image options.memorySize = .ok machine) :
    (start image options : SessionOnM Store Exit).run session =
      (execute machine options : SessionOnM Store Exit).run session := by
  have noShortage :
      (shortage? image options.memorySize : SessionOnM Store _).run session =
        some (none, session) := by
    rw [shortage?, if_neg (Nat.not_lt.mpr (fits_of_load loaded)),
      if_neg (Nat.not_lt.mpr possible), run_bind_of_run (run_hasMemory session _),
      decide_eq_true within]
    rfl
  rw [start, run_bind_of_run noShortage]
  dsimp only
  rw [loaded]

theorem refuses_refuse
    (program : String)
    (cause : OptionError) :
    Refuses (refuse program cause) session := by
  rw [refuse]
  refine .of_run (run_log session _) (.logged session _) ?_
  cases cause with
  | unexpected argument =>
      exact .of_run (run_log _ _) (.logged _ _) ⟨_, rfl, .refl _⟩
  | missingValue _ | memorySize _ | maxSteps _ =>
      exact ⟨_, rfl, .refl _⟩

variable (program : String)

theorem run_of_asksUsage
    {arguments : List String}
    (asks : asksUsage arguments = true) :
    (Runner.run program arguments : SessionOnM Store Exit).run session =
      some (.success, session.logged (.info (usage program))) := by
  cases arguments with
  | nil =>
      rfl
  | cons path rest =>
      have help : asksForHelp path = true := asks
      simp only [Runner.run, help]
      rfl

theorem refuses_run_of_misused
    {path : String}
    {rest : List String}
    (noHelp : asksForHelp path = false)
    (misused : Misused rest) :
    Refuses (Runner.run program (path :: rest)) session := by
  obtain ⟨cause, failed⟩ := exists_parse_eq_error misused {}
  have refuses := refuses_refuse session program cause
  simpa [Runner.run, noHelp, failed] using refuses

/-- With options that are right a file is read, after the level of the log was set. -/
theorem run_of_reads
    {path : String}
    {rest : List String}
    {settings : List Setting}
    (noHelp : asksForHelp path = false)
    (reads : Reads rest settings) :
    ∃ started, OnlyLogged session started ∧
      (Runner.run program (path :: rest) : SessionOnM Store Exit).run session =
        (runImage path (Options.applying {} settings) :
          SessionOnM Store Exit).run started := by
  have parsed := parse_of_reads reads {}
  simp only [Runner.run, noHelp, parsed]
  cases traces : (Options.applying {} settings).trace with
  | true =>
      obtain ⟨after, ran, logged⟩ := run_setMinimum session .trace
      exact ⟨after, logged, run_bind_of_run ran _⟩
  | false =>
      exact ⟨session, .refl session, rfl⟩

/-- An image that is named is launched, and up to there only the log has changed. -/
theorem run_of_names
    {arguments : List String}
    {options : Options}
    {image : List UInt8}
    (names : Names session.files arguments options image) :
    ∃ later, OnlyLogged session later ∧
      (Runner.run program arguments : SessionOnM Store Exit).run session =
        (launch image options : SessionOnM Store Exit).run later := by
  cases names with
  | @intro path rest settings image noHelp reads read nonempty =>
      obtain ⟨started, logged, ran⟩ := run_of_reads session program noHelp reads
      have readStill : Files.FileStore.read started.files path = .ok image :=
        logged.files.symm ▸ read
      rw [ran, runImage,
        run_bind_of_run (run_loadImage_of_ok started readStill nonempty)]
      exact ⟨_, logged.trans (.logged started _), run_bind_of_run (run_log started _) _⟩

/-- Without an image in the file nothing is run. -/
theorem refuses_runImage
    {path : String}
    {options : Options}
    (noImage : ∀ image, Files.FileStore.read session.files path = .ok image →
      image = []) :
    Refuses (runImage path options) session := by
  have failed : ∃ cause, (loadImage path : SessionOnM Store _).run session =
      some (.error cause, session) := by
    rw [loadImage, run_bind_of_run (run_readFile session path)]
    cases read : Files.FileStore.read session.files path with
    | error cause =>
        exact ⟨_, rfl⟩
    | ok image =>
        obtain rfl := noImage image read
        exact ⟨_, rfl⟩
  obtain ⟨cause, ran⟩ := failed
  exact .of_run ran (.refl session) (refuses_fail session _)

theorem refuses_run_of_noImage
    {path : String}
    {rest : List String}
    (noHelp : asksForHelp path = false)
    (noImage : ∀ image, Files.FileStore.read session.files path = .ok image →
      image = []) :
    Refuses (Runner.run program (path :: rest)) session := by
  obtain ⟨settings, reads⟩ | misused := reads_or_misused rest
  · obtain ⟨started, logged, ran⟩ := run_of_reads session program noHelp reads
    obtain ⟨after, ends, later⟩ :=
      refuses_runImage started (logged.files.symm ▸ noImage)
    exact ⟨after, ran.trans ends, logged.trans later⟩
  · exact refuses_run_of_misused session program noHelp misused

/-- Whatever keeps the runner from running anything, nothing else is done either. -/
theorem run_of_refused
    {arguments : List String}
    (noUsage : asksUsage arguments = false)
    (refused : Refused session arguments) :
    ∃ after, (Runner.run program arguments : SessionOnM Store Exit).run session =
      some (.failure, after) ∧ NothingDone session after := by
  cases refused with
  | misused misused =>
      obtain ⟨after, ran, logged⟩ :=
        refuses_run_of_misused session program noUsage misused
      exact ⟨after, ran, logged.nothingDone⟩
  | unreadable failed =>
      obtain ⟨after, ran, logged⟩ :=
        refuses_run_of_noImage session program noUsage (by simp [failed])
      exact ⟨after, ran, logged.nothingDone⟩
  | emptyImage isEmpty =>
      obtain ⟨after, ran, logged⟩ :=
        refuses_run_of_noImage session program noUsage (by simp [isEmpty])
      exact ⟨after, ran, logged.nothingDone⟩
  | @imageTooLarge _ options image names canShow tooLarge =>
      obtain ⟨later, logged, ran⟩ := run_of_names session program names
      rw [ran, run_launch_of_canShow later (logged.streams ▸ canShow)]
      obtain ⟨after, ends, last⟩ := refuses_start_of_tooLarge
        { later with streams := shown later.streams options image } tooLarge
      exact ⟨after, ends, last.files.trans logged.files, last.deeds.trans logged.deeds⟩

/-- What breaks the command off does so before anything is run or written. -/
theorem run_of_breaks
    {arguments : List String}
    {cause : Breakdown}
    (breaks : Breaks session arguments cause) :
    ∃ after, (Runner.run program arguments : SessionOnM Store Exit).run session =
      some (.broken cause, after) ∧ NothingDone session after := by
  cases breaks with
  | output names asked broken =>
      obtain ⟨later, logged, ran⟩ := run_of_names session program names
      rw [ran, run_launch_of_broken later asked (logged.streams ▸ broken)]
      exact ⟨later, rfl, logged.nothingDone⟩
  | @memory options image _ names canShow fits short =>
      obtain ⟨later, logged, ran⟩ := run_of_names session program names
      rw [ran, run_launch_of_canShow later (logged.streams ▸ canShow)]
      let prepared := { later with streams := shown later.streams options image }
      have shortStill : Short prepared.memoryLimit options.memorySize cause :=
        logged.memoryLimit.symm ▸ short
      exact ⟨prepared, run_start_of_short prepared fits shortStill, logged.files,
        logged.deeds⟩

/-- From a start the command is the run of the machine and what is done after it. -/
theorem run_of_starts
    {arguments : List String}
    {options : Options}
    {start : Execution Streams}
    (starts : Starts session arguments options start) :
    ((Runner.run program arguments : SessionOnM Store Exit).run session = none ∧
      ∀ final, ¬ start.EndsWithin session.fuel options.maxSteps final) ∨
    ∃ final exit after,
      (Runner.run program arguments : SessionOnM Store Exit).run session =
        some (exit, after) ∧
      start.EndsWithin session.fuel options.maxSteps final ∧
      Finished session start.machine options final exit after := by
  cases starts with
  | @intro image machine names canShow possible within loaded =>
      obtain ⟨later, logged, ran⟩ := run_of_names session program names
      rw [ran, run_launch_of_canShow later (logged.streams ▸ canShow)]
      let prepared := { later with streams := shown later.streams options image }
      have withinStill : options.memorySize ≤ prepared.memoryLimit :=
        logged.memoryLimit.symm ▸ within
      have executes := execute_cases prepared machine options
      rw [← run_start_of_load prepared possible withinStill loaded] at executes
      -- Up to here only the log and the streams can differ from those of the session.
      have fuel : prepared.fuel = session.fuel := logged.fuel
      have streams : prepared.streams = shown session.streams options image := by
        rw [← logged.streams]
      rw [fuel, streams] at executes
      obtain endless | ⟨final, exit, after, ends, within, finished⟩ := executes
      · exact .inl endless
      · exact .inr ⟨final, exit, after, ends, within,
          finished.of_same logged.files logged.deeds⟩

theorem finished_of_run
    {arguments : List String}
    {options : Options}
    {start : Execution Streams}
    {exit : Exit}
    {after : SessionOn Store}
    (starts : Starts session arguments options start)
    (ran : (Runner.run program arguments : SessionOnM Store Exit).run session =
      some (exit, after)) :
    ∃ final, start.EndsWithin session.fuel options.maxSteps final ∧
      Finished session start.machine options final exit after := by
  obtain ⟨noResult, _⟩ | ⟨final, _, _, result, ends, finished⟩ :=
    run_of_starts session program starts
  · rw [noResult] at ran
    cases ran
  · rw [result] at ran
    cases ran
    exact ⟨final, ends, finished⟩

theorem run_eq_none_iff_of_starts
    {arguments : List String}
    {options : Options}
    {start : Execution Streams}
    (starts : Starts session arguments options start) :
    (Runner.run program arguments : SessionOnM Store Exit).run session = none ↔
      ∀ final, ¬ start.EndsWithin session.fuel options.maxSteps final := by
  obtain ⟨noResult, endless⟩ | ⟨final, _, _, result, ends, _⟩ :=
    run_of_starts session program starts
  · simp only [noResult, true_iff]
    exact endless
  · simp only [result, reduceCtorEq, false_iff]
    exact fun endless => endless final ends

end Running

variable {session : SessionOn Store} {arguments : List String}

/-- An image that is named is refused, is broken off or starts. -/
theorem Names.refused_or_breaks_or_starts
    {options : Options}
    {image : List UInt8}
    (names : Names session.files arguments options image) :
    Refused session arguments ∨ (∃ cause, Breaks session arguments cause) ∨
      ∃ options start, Starts session arguments options start := by
  by_cases canShow : CanShow session.streams options
  · obtain tooLarge | fits := Nat.lt_or_ge options.memorySize image.length
    · exact .inl (.imageTooLarge names canShow tooLarge)
    obtain tooMuch | possible := Nat.lt_or_ge Memory.maximumSize options.memorySize
    · exact .inr (.inl ⟨_, .memory names canShow fits (.capacity tooMuch)⟩)
    obtain tooMuch | within := Nat.lt_or_ge session.memoryLimit options.memorySize
    · exact .inr (.inl ⟨_, .memory names canShow fits (.exhausted possible tooMuch)⟩)
    · exact .inr (.inr ⟨options, _,
        .intro names canShow possible within (Machine.load_eq_ok fits)⟩)
  · obtain ⟨asked, broken⟩ := Classical.not_imp.mp canShow
    obtain ⟨reason, broken⟩ := Option.ne_none_iff_exists'.mp broken
    exact .inr (.inl ⟨_, .output names asked broken⟩)

/-- What does not ask for the usage text is refused, is broken off or starts. -/
theorem refused_or_breaks_or_starts
    (session : SessionOn Store)
    (noUsage : asksUsage arguments = false) :
    Refused session arguments ∨ (∃ cause, Breaks session arguments cause) ∨
      ∃ options start, Starts session arguments options start := by
  cases arguments with
  | nil =>
      cases noUsage
  | cons path rest =>
      obtain ⟨settings, reads⟩ | misused := reads_or_misused rest
      · cases read : Files.FileStore.read session.files path with
        | error cause =>
            exact .inl (.unreadable read)
        | ok image =>
            by_cases empty : image = []
            · exact .inl (.emptyImage (empty ▸ read))
            · exact (Names.intro noUsage reads read empty).refused_or_breaks_or_starts
      · exact .inl (.misused misused)

/-- From a start, the memory cannot be written if that is so for the memory at the end. -/
theorem Starts.dumpFails_iff
    {options : Options}
    {start : Execution Streams}
    {final : Machine}
    (starts : Starts session arguments options start)
    (ends : start.EndsWithin session.fuel options.maxSteps final) :
    DumpFails session arguments ↔ ∃ path cause, options.dumpPath = some path ∧
      Files.FileStore.write session.files path final.memory.bytes.toList =
        .error cause := by
  constructor
  · rintro ⟨_, _, last, path, cause, otherStarts, otherEnds, dumps, notWritten⟩
    obtain ⟨rfl, rfl⟩ := starts.unique otherStarts
    obtain rfl := ends.unique otherEnds
    exact ⟨path, cause, dumps, notWritten⟩
  · rintro ⟨path, cause, dumps, notWritten⟩
    exact ⟨options, start, final, path, cause, starts, ends, dumps, notWritten⟩

/-- The dump of the image cannot be printed, or no block of memory has the size asked for. -/
def Panics (session : SessionOn Store) (arguments : List String) : Prop :=
  Breaks session arguments .capacity ∨ ∃ reason, Breaks session arguments (.output reason)

/-- The host does not have the memory that is asked for. -/
def RunsOut (session : SessionOn Store) (arguments : List String) : Prop :=
  ∃ size, Breaks session arguments (.exhausted size)

/-- Nothing else breaks the command off. -/
theorem forall_not_breaks_iff :
    (∀ cause, ¬ Breaks session arguments cause) ↔
      ¬ Panics session arguments ∧ ¬ RunsOut session arguments := by
  constructor
  · intro goesOn
    refine ⟨?_, fun ⟨_, runsOut⟩ => goesOn _ runsOut⟩
    rintro (panics | ⟨_, panics⟩)
    · exact goesOn _ panics
    · exact goesOn _ panics
  · rintro ⟨noPanic, noEnd⟩ cause breaks
    cases cause with
    | output reason => exact noPanic (.inr ⟨reason, breaks⟩)
    | capacity => exact noPanic (.inl breaks)
    | exhausted size => exact noEnd ⟨size, breaks⟩

/-- The code of a command that is broken off tells why. -/
theorem Breaks.code_iff
    {cause : Breakdown}
    (breaks : Breaks session arguments cause) :
    ((Exit.broken cause).code = 101 ↔ Panics session arguments) ∧
      ((Exit.broken cause).code = 134 ↔ RunsOut session arguments) := by
  have onlyThis {other : Breakdown} (otherBreaks : Breaks session arguments other) :
      cause = other := breaks.unique otherBreaks
  cases cause with
  | output reason =>
      refine ⟨⟨fun _ => .inr ⟨reason, breaks⟩, fun _ => rfl⟩, ⟨nofun, ?_⟩⟩
      rintro ⟨size, runsOut⟩
      cases onlyThis runsOut
  | capacity =>
      refine ⟨⟨fun _ => .inl breaks, fun _ => rfl⟩, ⟨nofun, ?_⟩⟩
      rintro ⟨size, runsOut⟩
      cases onlyThis runsOut
  | exhausted size =>
      refine ⟨⟨nofun, ?_⟩, ⟨fun _ => ⟨size, breaks⟩, fun _ => rfl⟩⟩
      rintro (panics | ⟨reason, panics⟩)
      · cases onlyThis panics
      · cases onlyThis panics

theorem Breaks.asksUsage_eq_false
    {cause : Breakdown}
    (breaks : Breaks session arguments cause) :
    asksUsage arguments = false := by
  cases breaks with
  | output names _ _ => exact names.asksUsage_eq_false
  | memory names _ _ _ => exact names.asksUsage_eq_false

/--
How the command ends: for which reason with which code, that nothing is done where
it does not come to a run, and what is done otherwise.
-/
structure Ends (session : SessionOn Store) (arguments : List String) (exit : Exit)
    (after : SessionOn Store) : Prop where
  failure :
    exit.code = 1 ↔ asksUsage arguments = false ∧
      (Refused session arguments ∨ DumpFails session arguments)
  panic :
    exit.code = 101 ↔ Panics session arguments
  abort :
    exit.code = 134 ↔ RunsOut session arguments
  codes :
    exit.code = 0 ∨ exit.code = 1 ∨ exit.code = 101 ∨ exit.code = 134
  withoutRun :
    asksUsage arguments = true ∨ Refused session arguments ∨
        Panics session arguments ∨ RunsOut session arguments →
      NothingDone session after
  withRun :
    asksUsage arguments = false → ¬ Refused session arguments →
        ¬ Panics session arguments → ¬ RunsOut session arguments →
      ∃ options start final, Starts session arguments options start ∧
        start.EndsWithin session.fuel options.maxSteps final ∧
        final.memory.bytes.toList.length = options.memorySize ∧
        Finished session start.machine options final exit after

theorem ends_of_asksUsage
    (session : SessionOn Store)
    (asks : asksUsage arguments = true)
    (record : Log.Record) :
    Ends session arguments .success (session.logged record) := by
  have goesOn (cause : Breakdown) : ¬ Breaks session arguments cause := by
    intro breaks
    rw [breaks.asksUsage_eq_false] at asks
    cases asks
  obtain ⟨noPanic, noEnd⟩ := forall_not_breaks_iff.mp goesOn
  exact {
    failure := by simp [Exit.code, asks]
    panic := by simp [Exit.code, noPanic]
    abort := by simp [Exit.code, noEnd]
    codes := .inl rfl
    withoutRun := fun _ => (OnlyLogged.logged session record).nothingDone
    withRun := by simp [asks] }

theorem ends_of_refused
    {after : SessionOn Store}
    (asks : asksUsage arguments = false)
    (refused : Refused session arguments)
    (nothingDone : NothingDone session after) :
    Ends session arguments .failure after := by
  have goesOn (cause : Breakdown) : ¬ Breaks session arguments cause :=
    fun breaks => breaks.not_refused refused
  obtain ⟨noPanic, noEnd⟩ := forall_not_breaks_iff.mp goesOn
  exact {
    failure := by simp [Exit.code, asks, refused]
    panic := by simp [Exit.code, noPanic]
    abort := by simp [Exit.code, noEnd]
    codes := .inr (.inl rfl)
    withoutRun := fun _ => nothingDone
    withRun := fun _ accepted => (accepted refused).elim }

theorem ends_of_breaks
    {cause : Breakdown}
    {after : SessionOn Store}
    (breaks : Breaks session arguments cause)
    (nothingDone : NothingDone session after) :
    Ends session arguments (.broken cause) after := by
  have broken : Panics session arguments ∨ RunsOut session arguments := by
    by_contra goesOn
    exact forall_not_breaks_iff.mpr (not_or.mp goesOn) cause breaks
  have noDump : ¬ DumpFails session arguments :=
    fun ⟨_, _, _, _, _, starts, _⟩ => starts.not_breaks breaks
  have notOne : (Exit.broken cause).code ≠ 1 := by
    cases cause <;> simp [Exit.code]
  obtain ⟨panics, runsOut⟩ := breaks.code_iff
  exact {
    failure := by simp [notOne, breaks.not_refused, noDump]
    panic := panics
    abort := runsOut
    codes := by
      rw [panics, runsOut]
      exact .inr (.inr broken)
    withoutRun := fun _ => nothingDone
    withRun := fun _ _ noPanic noEnd => (broken.elim noPanic noEnd).elim }

theorem ends_of_finished
    {options : Options}
    {start : Execution Streams}
    {final : Machine}
    {exit : Exit}
    {after : SessionOn Store}
    (starts : Starts session arguments options start)
    (ends : start.EndsWithin session.fuel options.maxSteps final)
    (finished : Finished session start.machine options final exit after) :
    Ends session arguments exit after := by
  have asks := starts.asksUsage_eq_false
  have accepted := starts.not_refused
  have goesOn (cause : Breakdown) : ¬ Breaks session arguments cause :=
    starts.not_breaks
  obtain ⟨noPanic, noEnd⟩ := forall_not_breaks_iff.mp goesOn
  have atMostOne := finished.code_le_one
  exact {
    failure := by
      rw [finished.code_eq_one_iff, starts.dumpFails_iff ends]
      simp [asks, accepted]
    panic := by
      simp only [noPanic, iff_false]
      omega
    abort := by
      simp only [noEnd, iff_false]
      omega
    codes := by omega
    withoutRun := by simp [asks, accepted, noPanic, noEnd]
    withRun := fun _ _ _ _ =>
      ⟨options, start, final, starts, ends, starts.length_memory ends, finished⟩ }

/-- A command that ends without a start has this one result. -/
theorem ends_of_run_of_not_starts
    {command : SessionOnM Store Exit}
    {ended : Exit}
    {last : SessionOn Store}
    {Endless : Options → Execution Streams → Prop}
    (ran : command.run session = some (ended, last))
    (notStarts : ∀ options start, ¬ Starts session arguments options start)
    (ends : Ends session arguments ended last) :
    (command.run session = none ↔
      ∃ options start, Starts session arguments options start ∧
        Endless options start) ∧
    ∀ exit after, command.run session = some (exit, after) →
      Ends session arguments exit after := by
  rw [ran]
  refine ⟨⟨nofun, ?_⟩, ?_⟩
  · rintro ⟨options, start, starts, _⟩
    exact (notStarts options start starts).elim
  · intro exit after result
    cases result
    exact ends

/--
For every store of files, all arguments and every session: the command has no
result exactly if it starts a run that has no end.  Where it has one, its code is 0,
1, 101 or 134.  The code is 1 exactly if the usage text was not asked for and either
an option is wrong, the file of the image cannot be read, is empty or is larger than
the memory, or the last memory cannot be written to the file that was asked for.
It is 101 exactly if the dump of the image is asked for and the output is broken, or
more memory is asked for than a block of memory can have, for an image that fits; it
is 134 if the host does not have that memory.  With the usage text, and where the
command does not come to the run, no file is written and nothing is run.  Otherwise
one machine is run, with the image and as the last options of each kind ask for;
only its last memory is written, in the size that was asked for, and only where the
last such option says.  How the machine ended does not matter.
-/
theorem run_exit_and_effects
    (program : String)
    (arguments : List String)
    (session : SessionOn Store) :
    let command : SessionOnM Store Exit := Runner.run program arguments
    (command.run session = none ↔
      ∃ options start, Starts session arguments options start ∧
        ∀ final, ¬ start.EndsWithin session.fuel options.maxSteps final) ∧
    ∀ exit after, command.run session = some (exit, after) →
      Ends session arguments exit after := by
  intro command
  -- The usage text, a refusal, a breakdown and a start exclude each other.
  cases asks : asksUsage arguments with
  | true =>
      refine ends_of_run_of_not_starts (run_of_asksUsage session program asks) ?_
        (ends_of_asksUsage session asks _)
      intro options start starts
      rw [starts.asksUsage_eq_false] at asks
      cases asks
  | false =>
      obtain refused | ⟨cause, breaks⟩ | ⟨options, start, starts⟩ :=
        refused_or_breaks_or_starts session asks
      · obtain ⟨last, ran, nothingDone⟩ :=
          run_of_refused session program asks refused
        exact ends_of_run_of_not_starts ran
          (fun _ _ starts => starts.not_refused refused)
          (ends_of_refused asks refused nothingDone)
      · obtain ⟨last, ran, nothingDone⟩ := run_of_breaks session program breaks
        exact ends_of_run_of_not_starts ran
          (fun _ _ starts => starts.not_breaks breaks)
          (ends_of_breaks breaks nothingDone)
      · constructor
        · constructor
          · intro noResult
            exact ⟨options, start, starts,
              (run_eq_none_iff_of_starts session program starts).mp noResult⟩
          · rintro ⟨_, _, otherStarts, endless⟩
            exact (run_eq_none_iff_of_starts session program otherStarts).mpr endless
        · intro exit after ran
          obtain ⟨final, ends, finished⟩ :=
            finished_of_run session program starts ran
          exact ends_of_finished starts ends finished

/-- A session with one image, that of a machine which halts at once. -/
private def haltingImage : Session where
  files := { entries := [(["p.bin"], .file [0])] }
  fuel := 1

/--
Arguments that are accepted can break the command off, with a code that is neither 0
nor 1; and behind the image the usage text is not to be had.
-/
theorem exists_run_breaks_off :
    (∃ exit after,
      (Runner.run "rvm" ["p.bin", "--memory", "18446744073709551615"] :
        SessionM Exit).run haltingImage = some (exit, after) ∧
      Options.parse {} ["--memory", "18446744073709551615"] =
        .ok { memorySize := 18446744073709551615 } ∧
      exit.code = 101) ∧
    ∃ exit after,
      (Runner.run "rvm" ["p.bin", "--help"] : SessionM Exit).run haltingImage =
        some (exit, after) ∧
      asksForHelp "--help" = true ∧ exit.code = 1 := by
  have breaksOff : ((Runner.run "rvm" ["p.bin", "--memory", "18446744073709551615"] :
      SessionM Exit).run haltingImage).map (fun result => result.1.code) =
        some 101 := by
    decide +kernel
  have refuses : ((Runner.run "rvm" ["p.bin", "--help"] :
      SessionM Exit).run haltingImage).map (fun result => result.1.code) = some 1 := by
    decide +kernel
  obtain ⟨⟨exit, after⟩, ran, code⟩ := Option.map_eq_some_iff.mp breaksOff
  obtain ⟨⟨other, last⟩, otherRan, otherCode⟩ := Option.map_eq_some_iff.mp refuses
  exact ⟨⟨exit, after, ran, by decide +kernel, code⟩,
    ⟨other, last, otherRan, by decide, otherCode⟩⟩

end RegisterMachine.Command.Runner
