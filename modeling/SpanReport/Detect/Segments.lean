import SpanReport.Config
import SpanReport.Finding.Mark
import SpanReport.Text.UpperCase

/-! # Capitals by segments

Another account of the flagged parts of a text: a line is split at its spaces, and every segment
that holds a capital is flagged from its first capital to its end. -/

namespace SpanReport

/-- Lay the segments of a line one after another from `column` on, a space between neighbours. -/
def laySegments : Nat → List Text → List (Nat × Text)
  | _, [] => []
  | column, segment :: later =>
    (column, segment) :: laySegments (column + segment.length + 1) later

/-- The columns of the flagged part of a segment that starts at `column`. -/
def segmentColumns? (column : Nat) (segment : Text) : Option (Nat × Nat) :=
  (segment.findIdx? isCapital).map fun index => (column + index, column + segment.length)

/-- The marks of the flagged segments of a line with the given number. -/
def segmentMarks (message : String) (number : Nat) (line : Text) : List (Mark String) :=
  (laySegments 1 (split [' '] line)).filterMap fun (column, segment) =>
    (segmentColumns? column segment).map fun (start, stop) => ⟨message, start, stop, some number⟩

/-- The marks of the flagged segments of a text, line by line. -/
def detectSegments (config : Config) (text : Text) : List (Mark String) :=
  ((config.terminator.lines text).zipIdx 1).flatMap fun (line, number) =>
    segmentMarks config.capitalMessage number line

end SpanReport
