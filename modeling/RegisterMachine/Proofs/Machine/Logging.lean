import RegisterMachine.Proofs.Machine.Runs

namespace RegisterMachine

/-!
# Runs under different log levels

What a machine reports is written to a journal and never read again.  Raising the
minimum level of a journal drops the records below it; doing so before a call of
the host or after it comes to the same (`Call.perform_raise`).  So runs that
differ in the minimum level only cannot be told apart by anything but their
journals, and these differ just in the records below the level.
-/

namespace Log

/-- Of two minimum levels the higher one lets through what both let through. -/
theorem Level.enabled_ite
    (minimum level reported : Level) :
    (if minimum.enabled level then level else minimum).enabled reported =
      (minimum.enabled reported && level.enabled reported) := by
  rw [Bool.eq_iff_iff, Bool.and_eq_true]
  simp only [enabled, decide_eq_true_eq]
  split <;> omega

/-- The journal as it is if its minimum level is raised to a level from the start. -/
def Journal.raise (level : Level) (journal : Journal) : Journal where
  minimum := if journal.minimum.enabled level then level else journal.minimum
  written := journal.written.filter fun record => level.enabled record.level

namespace Journal

theorem records_raise
    (level : Level)
    (journal : Journal) :
    (journal.raise level).records =
      journal.records.filter fun record => level.rank ≤ record.level.rank := by
  rw [records, raise, Array.toList_filter]
  rfl

theorem raise_write
    (level : Level)
    (journal : Journal)
    (reported : Level)
    (message : Unit → String) :
    (journal.write reported message).raise level =
      (journal.raise level).write reported message := by
  have both : (journal.raise level).minimum.enabled reported =
      (journal.minimum.enabled reported && level.enabled reported) :=
    Level.enabled_ite journal.minimum level reported
  rw [write, write, both]
  cases journal.minimum.enabled reported with
  | false =>
      rfl
  | true =>
      cases kept : level.enabled reported <;> simp [raise, kept]

end Journal

end Log

/-- Raising the minimum level before or after events are written comes to the same. -/
theorem Event.raise_foldl_writeTo
    (level : Log.Level)
    (journal : Log.Journal)
    (events : List Event) :
    (events.foldl (fun journal event => event.writeTo journal) journal).raise level =
      events.foldl (fun journal event => event.writeTo journal)
        (journal.raise level) := by
  induction events generalizing journal with
  | nil =>
      rfl
  | cons event rest inductionHypothesis =>
      rw [List.foldl_cons, inductionHypothesis, writeTo, Log.Journal.raise_write]
      rfl

/-- The execution with the minimum level of its journal raised to a level. -/
def Execution.raise {Device : Type} (level : Log.Level)
    (execution : Execution Device) : Execution Device :=
  { execution with journal := execution.journal.raise level }

/-- A call of the host on an execution. -/
inductive Call where
  | step
  | runFor (limit : Nat)
  | writeRegister (index : UInt8) (value : UInt64)
  | writeWord (address value : UInt64)
  deriving Repr, DecidableEq

/-- What a call returns to the host. -/
inductive Reply where
  /-- Where the machine is after it was driven. -/
  | status (status : Status)
  | written
  /-- The word to write is not fully inside memory. -/
  | refused (fault : Fault)
  deriving Repr, DecidableEq

/-- What has come of a call: its reply, and the execution after it. -/
structure Called (Device : Type) where
  reply : Reply
  after : Execution Device

namespace Called

variable {Device : Type}

/-- The same with the minimum level of the journal raised. -/
def raise (level : Log.Level) (called : Called Device) : Called Device :=
  { called with after := called.after.raise level }

/-- All that has come of a call beside the journal. -/
def shown (called : Called Device) : Reply × Machine × Device :=
  (called.reply, called.after.machine, called.after.device)

/-- The records that have been written after a call. -/
def records (called : Called Device) : List Log.Record :=
  called.after.journal.records

end Called

variable {Device : Type} [Console Device]

namespace Execution

/-- A step and a raised minimum level come to the same in either order. -/
theorem commute_raise_step
    (level : Log.Level) :
    Function.Commute (raise level) (step : Execution Device → _) := by
  intro execution
  simp only [raise, step, Event.raise_foldl_writeTo]

theorem runFor_raise
    (level : Log.Level)
    (limit : Nat)
    (execution : Execution Device) :
    (execution.raise level).runFor limit =
      (execution.runFor limit).raise level := by
  rw [runFor_eq_iterate_step, runFor_eq_iterate_step]
  exact ((commute_raise_step level).iterate_right limit execution).symm

/-- The reply to driving a machine is its status. -/
def driven (after : Execution Device) : Called Device :=
  ⟨.status after.machine.status, after⟩

end Execution

namespace Call

/-- Make a call. -/
def perform (execution : Execution Device) : Call → Called Device
  | .step => execution.step.driven
  | .runFor limit => (execution.runFor limit).driven
  | .writeRegister index value =>
      let machine :=
        execution.machine.writeRegister (Register.ofByte index) value
      ⟨.written, { execution with machine := machine }⟩
  | .writeWord address value =>
      match execution.machine.writeWord address value with
      | .error fault => ⟨.refused fault, execution⟩
      | .ok machine => ⟨.written, { execution with machine := machine }⟩

/-- Make calls one after the other; what has come of each. -/
def performAll (execution : Execution Device) : List Call → List (Called Device)
  | [] => []
  | call :: rest =>
      let called := call.perform execution
      called :: performAll called.after rest

/-- A call and a raised minimum level come to the same in either order. -/
theorem perform_raise
    (level : Log.Level)
    (execution : Execution Device)
    (call : Call) :
    call.perform (execution.raise level) =
      (call.perform execution).raise level := by
  cases call with
  | step =>
      have same : (execution.raise level).step = execution.step.raise level :=
        (Execution.commute_raise_step level execution).symm
      rw [perform, same]
      rfl
  | runFor limit =>
      rw [perform, Execution.runFor_raise]
      rfl
  | writeRegister index value =>
      rfl
  | writeWord address value =>
      have same : (execution.raise level).machine = execution.machine := rfl
      simp only [perform, same]
      split <;> rfl

theorem performAll_raise
    (level : Log.Level)
    (execution : Execution Device)
    (calls : List Call) :
    performAll (execution.raise level) calls =
      (performAll execution calls).map (Called.raise level) := by
  induction calls generalizing execution with
  | nil =>
      rfl
  | cons call rest inductionHypothesis =>
      rw [performAll, perform_raise, performAll, List.map_cons]
      exact congrArg _ (inductionHypothesis _)

/--
Logging changes nothing that calls of a host return or leave behind, and the
records kept under a minimum level are those kept under the most verbose one that
are at least at this level, in their order and after each call.
-/
theorem performAll_under_levels
    (machine : Machine)
    (device : Device)
    (calls : List Call) :
    let called (level : Log.Level) :=
      performAll ⟨machine, device, { minimum := level }⟩ calls
    (∀ first second,
      (called first).map Called.shown = (called second).map Called.shown) ∧
    ∀ level, (called level).map Called.records =
      (called .trace).map fun each =>
        each.records.filter fun record => level.rank ≤ record.level.rank := by
  intro called
  have raised : ∀ level,
      called level = (called .trace).map (Called.raise level) := by
    intro level
    have start :
        (⟨machine, device, { minimum := level }⟩ : Execution Device) =
          Execution.raise level ⟨machine, device, { minimum := .trace }⟩ := by
      simp [Execution.raise, Log.Journal.raise]
    simp only [called]
    rw [start, performAll_raise]
  constructor
  · have shown : ∀ level,
        (called level).map Called.shown = (called .trace).map Called.shown := by
      intro level
      rw [raised level, List.map_map]
      rfl
    intro first second
    rw [shown first, shown second]
  · intro level
    rw [raised level, List.map_map]
    apply List.map_congr_left
    intro each _
    exact Log.Journal.records_raise level each.after.journal

end Call

end RegisterMachine
