/-! # Hexadecimal digits

Numbers in base sixteen with a fixed number of digits, written with small letters. -/

namespace SpanReport

/-- A digit in base sixteen. -/
def hexDigit (value : Nat) : Char :=
  if value < 10 then Char.ofNat (48 + value) else Char.ofNat (87 + value)

/-- The last `count` digits of a number, the highest first. -/
def hexDigits : Nat → Nat → List Char
  | 0, _ => []
  | count + 1, value => hexDigit ((value >>> (4 * count)) % 16) :: hexDigits count value

@[simp] theorem length_hexDigits (count value : Nat) : (hexDigits count value).length = count := by
  induction count with
  | zero => rfl
  | succ count ih => simp [hexDigits, ih]

end SpanReport
