import SpanReport.Config
import SpanReport.Finding.Mark
import SpanReport.Text.UpperCase

/-! # Detecting capitals

Flags the part of every word from its first capital on, where a word ends at a space or at the end
of its line. `scanColumns` scans a line in a single pass and yields the columns of the flagged
parts; `detectCapitals` marks those of all lines. Blanks other than the space neither begin nor end
a flagged part. -/

namespace SpanReport

/-- Where the scan of a line stands. -/
inductive ScanState
  /-- Outside of a flagged part. -/
  | idle
  /-- Inside of a flagged part that begins at the column `start`. -/
  | flagging (start : Nat)
  deriving DecidableEq, Repr

namespace ScanState

/-- One step of the scan of a line with `length` characters: the state behind the character with
the given index, counted from zero, and the columns of the part that the step closes. A space ends
the part in front of it; the last character of the line belongs to its part. -/
def step (length : Nat) (state : ScanState) (index : Nat) (c : Char) :
    ScanState × Option (Nat × Nat) :=
  match state with
  | idle => (if isCapital c then flagging (index + 1) else idle, none)
  | flagging start =>
    if c = ' ' then (idle, some (start, index + 1))
    else if index + 1 = length then (idle, some (start, index + 2))
    else (flagging start, none)

/-- What is left to be closed behind the last character: a part that begins there. -/
def finish (length : Nat) : ScanState → List (Nat × Nat)
  | idle => []
  | flagging start => [(start, length + 1)]

/-- The columns of the parts that the scan closes from the character with the given index on. -/
def run (length : Nat) (state : ScanState) (index : Nat) : Text → List (Nat × Nat)
  | [] => state.finish length
  | c :: rest =>
    let (next, closed) := state.step length index c
    closed.toList ++ run length next (index + 1) rest

end ScanState

/-- The columns of the flagged parts of a line. -/
def scanColumns (line : Text) : List (Nat × Nat) :=
  ScanState.idle.run line.length 0 line

/-- The marks of the flagged parts of a line with the given number. -/
def capitalMarks (message : String) (number : Nat) (line : Text) : List (Mark String) :=
  (scanColumns line).map fun (start, stop) => ⟨message, start, stop, some number⟩

/-- The marks of the flagged parts of a text, line by line. -/
def detectCapitals (config : Config) (text : Text) : List (Mark String) :=
  ((config.terminator.lines text).zipIdx 1).flatMap fun (line, number) =>
    capitalMarks config.capitalMessage number line

end SpanReport
