import SpanReport.Text.Position
import SpanReport.Text.Terminator

/-! # Walking the lines

Another account of editor positions: the lines of a text are walked from the first, and each takes
its own length and one terminator from the offset, until the offset falls into a line. -/

namespace SpanReport

/-- Walk `lines`, the first of which has the given number, with `remaining` characters to go. -/
def walkLines (width : Nat) : Nat → Nat → List Text → Option Position
  | _, _, [] => none
  | number, remaining, line :: later =>
    if remaining < line.length + width then some ⟨number, remaining + 1⟩
    else walkLines width (number + 1) (remaining - (line.length + width)) later

/-- The position at which the walk over the lines of a text stops for an offset. -/
def walkTo? (text : Text) (terminator : Terminator) (offset : Nat) : Option Position :=
  walkLines terminator.width 1 offset (terminator.lines text)

end SpanReport
