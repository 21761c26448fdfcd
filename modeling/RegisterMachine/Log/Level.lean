namespace RegisterMachine.Log

/-!
# Log levels

Four levels, from the most verbose to the most severe.  A record is written
when its level is at least the minimum level.  The name of a level can be cut
and padded for display.
-/

/-- How severe a record is. -/
inductive Level where
  | trace
  | info
  | warn
  | error
  deriving Repr, DecidableEq

namespace Level

/-- Every level, least severe first. -/
def all : List Level := [.trace, .info, .warn, .error]

/-- The rank of a level among the levels. -/
def rank : Level → Nat
  | .trace => 0
  | .info => 1
  | .warn => 2
  | .error => 3

/-- Whether a record of this level is written under a minimum level. -/
def enabled (minimum level : Level) : Bool :=
  minimum.rank ≤ level.rank

/-- The displayed name of a level. -/
def name : Level → String
  | .trace => "TRACE"
  | .info => "INFO"
  | .warn => "WARN"
  | .error => "ERROR"

/-- The levels that a level is at least as severe as, least severe first. -/
def reached (level : Level) : List Level :=
  all.filter (enabled · level)

/-- A level is written under itself as the minimum. -/
@[simp] theorem enabled_self (level : Level) : enabled level level = true := by
  simp [enabled]

/-- Under the most verbose minimum every level is written. -/
@[simp] theorem enabled_trace (level : Level) : enabled .trace level = true := by
  simp [enabled, rank]

end Level

/-- Where padding goes when a text is shorter than the width. -/
inductive Alignment where
  /-- The text first, then the padding. -/
  | left
  /-- The padding first, then the text. -/
  | right
  /-- Padding on both sides; an odd space goes after the text. -/
  | center
  deriving Repr, DecidableEq

/-- How a text is laid out: at most `precision` characters, at least `width`. -/
structure Layout where
  width : Nat := 0
  alignment : Alignment := .left
  precision : Option Nat := none
  deriving Repr, DecidableEq

namespace Layout

/-- The characters that the precision keeps. -/
def cut (layout : Layout) (characters : List Char) : List Char :=
  match layout.precision with
  | none => characters
  | some count => characters.take count

/-- Characters with spaces around them up to the width. -/
def pad (layout : Layout) (characters : List Char) : List Char :=
  let missing := layout.width - characters.length
  let before :=
    match layout.alignment with
    | .left => 0
    | .right => missing
    | .center => missing / 2
  List.replicate before ' ' ++ characters ++ List.replicate (missing - before) ' '

/-- A text cut to the precision, then padded to the width. -/
def apply (layout : Layout) (text : String) : String :=
  String.ofList (layout.pad (layout.cut text.toList))

/-- Padding reaches the width and never cuts. -/
@[simp] theorem length_pad (layout : Layout) (characters : List Char) :
    (layout.pad characters).length = max layout.width characters.length := by
  simp only [pad, List.length_append, List.length_replicate]
  split <;> omega

end Layout

end RegisterMachine.Log
