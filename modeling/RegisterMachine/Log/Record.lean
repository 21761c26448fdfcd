import RegisterMachine.Log.Level
import RegisterMachine.Log.Calendar

namespace RegisterMachine.Log

/-!
# Log records

A record is a message at a level.  A log keeps the records that reach its
minimum level, in the order written (`records_write`).  The text of a record
is the message on a line, after the parts that the style shows.
-/

/-- A message at a level. -/
structure Record where
  level : Level
  message : String
  deriving Repr, DecidableEq

namespace Record

/-- The text of a record: its level in brackets, then its message, as a line. -/
def text (record : Record) : String :=
  "[" ++ Layout.apply { width := 5 } record.level.name ++ "] " ++
    record.message ++ "\n"

/-- A record of level `info`. -/
def info (message : String) : Record := ⟨.info, message⟩

/-- A record of level `warn`. -/
def warn (message : String) : Record := ⟨.warn, message⟩

/-- A record of level `error`. -/
def error (message : String) : Record := ⟨.error, message⟩

end Record

/-- The records that were written under a minimum level. -/
structure Journal where
  minimum : Level := .info
  written : Array Record := #[]
  deriving Repr, DecidableEq

namespace Journal

/-- Write a record, whose message is made only when the minimum level lets it through. -/
def write (journal : Journal) (level : Level) (message : Unit → String) : Journal :=
  if journal.minimum.enabled level then
    { journal with written := journal.written.push ⟨level, message ()⟩ }
  else
    journal

/-- Write a record that is at hand. -/
def add (journal : Journal) (record : Record) : Journal :=
  journal.write record.level fun _ => record.message

/-- Write records in order. -/
def addAll (journal : Journal) (records : List Record) : Journal :=
  records.foldl add journal

/-- The records written so far, oldest first. -/
def records (journal : Journal) : List Record :=
  journal.written.toList

/-- The text of all records written so far. -/
def text (journal : Journal) : String :=
  String.join (journal.records.map Record.text)

/-- Writing keeps the minimum level. -/
@[simp] theorem minimum_write (journal : Journal) (level : Level)
    (message : Unit → String) :
    (journal.write level message).minimum = journal.minimum := by
  unfold write
  split <;> rfl

/-- A record is appended exactly when its level reaches the minimum. -/
theorem records_write (journal : Journal) (level : Level)
    (message : Unit → String) :
    (journal.write level message).records =
      journal.records ++
        (if journal.minimum.enabled level then [⟨level, message ()⟩] else []) := by
  unfold write
  split <;> simp [records]

/-- Of records written in order, those that reach the minimum level are appended. -/
theorem records_addAll (journal : Journal) (records : List Record) :
    (journal.addAll records).records =
      journal.records ++ records.filter fun record =>
        journal.minimum.enabled record.level := by
  induction records generalizing journal with
  | nil => exact (List.append_nil _).symm
  | cons record rest inductionHypothesis =>
      have later := inductionHypothesis (journal.add record)
      rw [add, minimum_write, records_write, List.append_assoc] at later
      rw [addAll, List.foldl_cons, ← addAll, add, later, List.filter_cons]
      split <;> rfl

end Journal

/-- What the text of a record shows beside the message. -/
structure Style where
  minimum : Level := .info
  showMoment : Bool := true
  showLevel : Bool := true
  colored : Bool := false
  deriving Repr, DecidableEq

namespace Style

/-- The terminal code that ends all colours and weights. -/
def reset : String := "\x1b[0m"

/-- The terminal codes that records of a level are shown in. -/
def color : Level → String
  | .trace => "\x1b[2m\x1b[36m"
  | .info => ""
  | .warn => "\x1b[1m\x1b[33m"
  | .error => "\x1b[1m\x1b[31m"

/-- A record of a moment as written in a style; nothing below the minimum level. -/
def render (style : Style) (moment : Moment) (record : Record) : String :=
  if style.minimum.enabled record.level then
    (if style.colored then reset ++ color record.level else "") ++
      (if style.showMoment then moment.text ++ " " else "") ++
      (if style.showLevel then record.text else record.message ++ "\n") ++
      (if style.colored then reset else "")
  else
    ""

end Style

end RegisterMachine.Log
