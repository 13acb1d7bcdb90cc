import SpanReport.Text.Span

/-! # Marks

A `Mark` is a diagnostic in its plainest form: a message and a range of the text. The range is flat,
that is, given by offsets into the whole text, unless the mark names a line; then its bounds are
columns of that line, counted from one. Nothing is assumed of the bounds. -/

namespace SpanReport

/-- A message and the range of the text that it is about. -/
structure Mark (μ : Type) where
  /-- What is said about the range. -/
  message : μ
  /-- The first offset, or the first column of the line. -/
  start : Nat
  /-- One past the last offset or column. -/
  stop : Nat
  /-- The line of a mark whose bounds are columns; flat marks have none. -/
  line : Option Nat
  deriving DecidableEq, Repr

namespace Mark

variable {μ : Type}

/-- Whether the bounds are offsets into the whole text. -/
def isFlat (mark : Mark μ) : Bool :=
  mark.line.isNone

/-- The range of the mark, if its end does not precede its start. -/
def span (mark : Mark μ) : Except RangeError Span :=
  Span.ofBounds mark.start mark.stop

end Mark

end SpanReport
