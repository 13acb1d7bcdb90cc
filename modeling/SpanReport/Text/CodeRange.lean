/-! # Ranges of code points

A `CodeRange` is an arithmetic progression of code points, the unit in which tables of character
properties are written. -/

namespace SpanReport

/-- Every `step`-th code point from `first` up to and including `last`. -/
structure CodeRange where
  /-- The lowest code point. -/
  first : Nat
  /-- The highest code point. -/
  last : Nat
  /-- The distance between neighbours. -/
  step : Nat
  deriving DecidableEq, Repr

namespace CodeRange

/-- Whether a code point belongs to the range. -/
def contains (range : CodeRange) (code : Nat) : Bool :=
  range.first ≤ code && code ≤ range.last && (code - range.first) % range.step == 0

/-- The range of a single code point. -/
def single (code : Nat) : CodeRange := ⟨code, code, 1⟩

end CodeRange

end SpanReport
