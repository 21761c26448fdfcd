import RegisterMachine.Command.Session
import RegisterMachine.Proofs.Machine.Runs

namespace RegisterMachine.Command

/-!
# What the services of a session do

Each service of a session has an equation that says what it gives and what the
session is afterwards.  Most that a command does is to log: this leaves all but
the journal as it was (`OnlyLogged`), and there the records stand in the order in
which they came (`records_loggedAll`).  A command that refuses to do its work does
nothing else (`Refuses`).
-/

namespace Streams

/-- The streams with a text added to the output. -/
def showing (streams : Streams) (text : String) : Streams :=
  { streams with written := streams.written ++ Text.Utf8.encode text }

@[simp] theorem output_showing (streams : Streams) (text : String) :
    (streams.showing text).output = streams.output ++ Text.Utf8.encode text := by
  simp [showing, output]

theorem showing_empty (streams : Streams) : streams.showing "" = streams := by
  simp [showing, Text.Utf8.encode]

/-- A text can be printed, or it has something in it and the output is broken. -/
theorem canPrint_or_broken (streams : Streams) (text : String) :
    (streams.outputFailure = none ∨ text = "") ∨
      ∃ reason, streams.outputFailure = some reason ∧ text ≠ "" := by
  cases broken : streams.outputFailure with
  | none => exact .inl (.inl rfl)
  | some reason =>
      by_cases empty : text = ""
      · exact .inl (.inr empty)
      · exact .inr ⟨reason, rfl, empty⟩

end Streams

namespace SessionOn

variable {Store : Type}

/-- The session after a record was offered to its log. -/
def logged (session : SessionOn Store) (record : Log.Record) : SessionOn Store :=
  { session with journal := session.journal.add record }

/-- The session after records were offered to its log, one after the other. -/
def loggedAll (session : SessionOn Store) (records : List Log.Record) :
    SessionOn Store :=
  { session with journal := session.journal.addAll records }

/-- The session after a text was printed. -/
def printed (session : SessionOn Store) (text : String) : SessionOn Store :=
  { session with streams := session.streams.showing text }

/-- The session after a content was written to a file, which left these files. -/
def wrote (session : SessionOn Store) (path : String) (content : List UInt8)
    (files : Store) : SessionOn Store :=
  { session with files := files, deeds := session.deeds ++ [.wrote path content] }

/-- The journal may have changed, and nothing else. -/
structure OnlyLogged (before after : SessionOn Store) : Prop where
  files :
    after.files = before.files
  streams :
    after.streams = before.streams
  deeds :
    after.deeds = before.deeds
  fuel :
    after.fuel = before.fuel
  memoryLimit :
    after.memoryLimit = before.memoryLimit

/-- No file was written and no machine was run. -/
structure NothingDone (before after : SessionOn Store) : Prop where
  files :
    after.files = before.files
  deeds :
    after.deeds = before.deeds

namespace OnlyLogged

variable {first second third : SessionOn Store}

theorem refl (session : SessionOn Store) : OnlyLogged session session :=
  ⟨rfl, rfl, rfl, rfl, rfl⟩

theorem trans
    (earlier : OnlyLogged first second)
    (later : OnlyLogged second third) :
    OnlyLogged first third :=
  ⟨later.files.trans earlier.files, later.streams.trans earlier.streams,
    later.deeds.trans earlier.deeds, later.fuel.trans earlier.fuel,
    later.memoryLimit.trans earlier.memoryLimit⟩

theorem logged (session : SessionOn Store) (record : Log.Record) :
    OnlyLogged session (session.logged record) :=
  ⟨rfl, rfl, rfl, rfl, rfl⟩

theorem loggedAll (session : SessionOn Store) (records : List Log.Record) :
    OnlyLogged session (session.loggedAll records) :=
  ⟨rfl, rfl, rfl, rfl, rfl⟩

theorem nothingDone
    (onlyLogged : OnlyLogged first second) :
    NothingDone first second :=
  ⟨onlyLogged.files, onlyLogged.deeds⟩

end OnlyLogged

/-- Of the records that are offered, the log keeps those that reach its level, in order. -/
theorem records_loggedAll
    (session : SessionOn Store)
    (records : List Log.Record) :
    (session.loggedAll records).journal.records =
      session.journal.records ++ records.filter fun record =>
        session.journal.minimum.enabled record.level :=
  Log.Journal.records_addAll session.journal records

/-- A command ends in failure, and does nothing but to log. -/
def Refuses (command : SessionOnM Store Exit) (session : SessionOn Store) : Prop :=
  ∃ after, command.run session = some (.failure, after) ∧ OnlyLogged session after

/--
A command refuses unless something holds; then it does its work, and how it ends and
the session that it leaves have a property.
-/
def RefusesUnless (command : SessionOnM Store Exit) (session : SessionOn Store)
    (possible : Prop) (Done : Exit → SessionOn Store → Prop) : Prop :=
  (¬ possible ∧ Refuses command session) ∨
    (possible ∧ ∃ exit after,
      command.run session = some (exit, after) ∧ Done exit after)

section Sequences

variable {α β : Type} {session after : SessionOn Store}

/-- What comes after a part that gives a result goes on from there. -/
theorem run_bind_of_run
    {first : SessionOnM Store α}
    {value : α}
    (ran : first.run session = some (value, after))
    (next : α → SessionOnM Store β) :
    (first >>= next).run session = (next value).run after := by
  rw [StateT.run_bind, ran]
  rfl

variable
  {first : SessionOnM Store α}
  {value : α}
  {next : α → SessionOnM Store Exit}

theorem Refuses.of_run
    (ran : first.run session = some (value, after))
    (logged : OnlyLogged session after)
    (refuses : Refuses (next value) after) :
    Refuses (first >>= next) session := by
  obtain ⟨last, ends, later⟩ := refuses
  exact ⟨last, (run_bind_of_run ran next).trans ends, logged.trans later⟩

theorem RefusesUnless.mono
    {command : SessionOnM Store Exit}
    {possible same : Prop}
    {Done Meant : Exit → SessionOn Store → Prop}
    (refusesUnless : RefusesUnless command session possible Done)
    (iff : possible ↔ same)
    (means : ∀ exit last, Done exit last → Meant exit last) :
    RefusesUnless command session same Meant := by
  obtain ⟨impossible, refuses⟩ | ⟨possible, exit, last, ends, done⟩ := refusesUnless
  · exact .inl ⟨mt iff.mpr impossible, refuses⟩
  · exact .inr ⟨iff.mp possible, exit, last, ends, means exit last done⟩

theorem RefusesUnless.of_run
    {possible : Prop}
    {Done : Exit → SessionOn Store → Prop}
    (ran : first.run session = some (value, after))
    (logged : OnlyLogged session after)
    (refusesUnless : RefusesUnless (next value) after possible Done) :
    RefusesUnless (first >>= next) session possible Done := by
  obtain ⟨impossible, refuses⟩ | ⟨possible, exit, last, ends, done⟩ := refusesUnless
  · exact .inl ⟨impossible, refuses.of_run ran logged⟩
  · exact .inr ⟨possible, exit, last, (run_bind_of_run ran next).trans ends, done⟩

end Sequences

section Services

variable [Files.FileStore Store] (session : SessionOn Store)

theorem run_log (record : Log.Record) :
    (Host.log record : SessionOnM Store Unit).run session =
      some ((), session.logged record) :=
  rfl

/-- A text is printed, if the output is not broken or there is nothing in the text. -/
theorem run_print_of_ok
    {text : String}
    (canPrint : session.streams.outputFailure = none ∨ text = "") :
    (Host.print text : SessionOnM Store _).run session =
      some (.ok (), session.printed text) := by
  change (SessionOn.print text).run session = _
  by_cases empty : text = ""
  · subst empty
    simp [SessionOn.print, printed, Streams.showing_empty]
  · have works := canPrint.resolve_right empty
    simp [SessionOn.print, empty, Streams.put, works, printed, Streams.showing]

/-- On a broken output a text is not printed, and all stays as it was. -/
theorem run_print_of_error
    {text reason : String}
    (broken : session.streams.outputFailure = some reason)
    (notEmpty : text ≠ "") :
    (Host.print text : SessionOnM Store _).run session =
      some (.error reason, session) := by
  change (SessionOn.print text).run session = _
  simp [SessionOn.print, notEmpty, Streams.put, broken]

theorem run_hasMemory (size : Nat) :
    (Host.hasMemory size : SessionOnM Store Bool).run session =
      some (decide (size ≤ session.memoryLimit), session) :=
  rfl

theorem run_readFile (path : String) :
    (Host.readFile path : SessionOnM Store _).run session =
      some (Files.FileStore.read session.files path, session) :=
  rfl

theorem run_pathExists (path : String) :
    (Host.pathExists path : SessionOnM Store _).run session =
      some (Files.FileStore.pathExists session.files path, session) :=
  rfl

/-- A file that cannot be written leaves everything as it was. -/
theorem run_writeFile_of_error
    {path : String}
    {content : List UInt8}
    {cause : Files.FileError}
    (failed : Files.FileStore.write session.files path content = .error cause) :
    (Host.writeFile path content : SessionOnM Store _).run session =
      some (.error cause, session) := by
  change (SessionOn.writeFile path content).run session = _
  simp [SessionOn.writeFile, failed]

theorem run_writeFile_of_ok
    {path : String}
    {content : List UInt8}
    {files : Store}
    (written : Files.FileStore.write session.files path content = .ok files) :
    (Host.writeFile path content : SessionOnM Store _).run session =
      some (.ok (), session.wrote path content files) := by
  change (SessionOn.writeFile path content).run session = _
  simp [SessionOn.writeFile, written, wrote]

theorem refuses_fail (message : String) :
    Refuses (fail message : SessionOnM Store Exit) session :=
  ⟨session.logged (.error message), rfl, .logged session (.error message)⟩

theorem run_setMinimum (level : Log.Level) :
    ∃ after, (Host.setMinimum level : SessionOnM Store Unit).run session =
      some ((), after) ∧ OnlyLogged session after :=
  ⟨_, rfl, rfl, rfl, rfl, rfl, rfl⟩

/--
A run has no end within the fuel, or it is done: this changes no file, and what
the machine is in the end does not depend on the log.
-/
theorem run_run_cases (machine : Machine) (limit : Option Nat) :
    let start : Execution Streams := ⟨machine, session.streams, {}⟩
    ((Host.run machine limit : SessionOnM Store _).run session = none ∧
      ∀ final, ¬ start.EndsWithin session.fuel limit final) ∨
    ∃ final after,
      (Host.run machine limit : SessionOnM Store _).run session =
        some ((final, 0), after) ∧
      start.EndsWithin session.fuel limit final ∧
      after.files = session.files ∧
      after.deeds = session.deeds ++ [.ran machine limit] := by
  intro start
  -- The run itself starts with the journal of the session.
  let started : Execution Streams := ⟨machine, session.streams, session.journal⟩
  have sameMachine : started.machine = start.machine := rfl
  have sameDevice : started.device = start.device := rfl
  cases limit with
  | some limit =>
      right
      have ends : started.EndsWithin session.fuel (some limit)
          (started.runFor limit).machine := rfl
      exact ⟨_, _, rfl, ends.of_same sameMachine sameDevice, rfl, rfl⟩
  | none =>
      change ((SessionOn.run machine none).run session = none ∧ _) ∨
        ∃ final after, (SessionOn.run machine none).run session = _ ∧ _
      cases ran : started.run? session.fuel with
      | none =>
          left
          refine ⟨by simp [SessionOn.run, started, ran], ?_⟩
          intro final ends
          obtain ⟨count, le, stops, _⟩ :=
            ends.of_same sameMachine.symm sameDevice.symm
          have stopped := Execution.run?_eq_some_iff.mpr ⟨count, le, stops, rfl⟩
          rw [ran] at stopped
          cases stopped
      | some final =>
          right
          obtain ⟨count, le, stops, reached⟩ := Execution.run?_eq_some_iff.mp ran
          have ends : started.EndsWithin session.fuel none final.machine :=
            ⟨count, le, stops, congrArg Execution.machine reached⟩
          let after : SessionOn Store := { session with
            streams := final.device
            journal := final.journal
            deeds := session.deeds ++ [.ran machine none] }
          refine ⟨final.machine, after, ?_,
            ends.of_same sameMachine sameDevice, rfl, rfl⟩
          simp [SessionOn.run, started, ran, after]

theorem run_logAll (records : List Log.Record) :
    (logAll records : SessionOnM Store Unit).run session =
      some ((), session.loggedAll records) := by
  induction records generalizing session with
  | nil =>
      rfl
  | cons record rest inductionHypothesis =>
      exact inductionHypothesis (session.logged record)

end Services

end SessionOn

end RegisterMachine.Command
