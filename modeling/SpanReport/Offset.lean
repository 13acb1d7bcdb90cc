/-! # Offsets

Offsets, columns and lengths are natural numbers below `offsetLimit`. Ranges are formed from two of
them by the checked operations here: `offsetSum` refuses a sum that reaches the limit, and
`RangeError` names the two ways in which a range cannot be formed. -/

namespace SpanReport

/-- Every offset, column and length lies below this bound. -/
def offsetLimit : Nat := UInt64.size

/-- Why a range of offsets cannot be formed. -/
inductive RangeError
  /-- The end lies before the start. -/
  | reversed
  /-- A sum of offsets reaches `offsetLimit`. -/
  | overflow
  deriving DecidableEq, Repr

/-- The wording of a range error. -/
def RangeError.message : RangeError → String
  | .reversed => "span start should not exceed its end"
  | .overflow => "attempt to add with overflow"

/-- The sum of two offsets, refused when it reaches `offsetLimit`. -/
def offsetSum (a b : Nat) : Except RangeError Nat :=
  if a + b < offsetLimit then .ok (a + b) else .error .overflow

theorem offsetSum_of_lt {a b : Nat} (h : a + b < offsetLimit) : offsetSum a b = .ok (a + b) :=
  if_pos h

theorem offsetSum_of_le {a b : Nat} (h : offsetLimit ≤ a + b) :
    offsetSum a b = .error .overflow :=
  if_neg (Nat.not_lt.2 h)

end SpanReport
