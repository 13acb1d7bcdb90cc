/-! # Numbers on a command line

Whole numbers as the options of the program take them: decimal digits, with any number of leading
zeros, after an optional sign. -/

namespace SpanReport

/-- The number that decimal digits stand for; there has to be one at least, and nothing else. -/
def readDigits : List Char → Option Nat
  | [] => none
  | digits@(_ :: _) =>
    if digits.all Char.isDigit then
      some (digits.foldl (fun value digit => 10 * value + (digit.toNat - '0'.toNat)) 0)
    else none

/-- A number below `limit`, with an optional plus sign. -/
def readUnsigned (limit : Nat) (text : String) : Option Nat :=
  let digits :=
    match text.toList with
    | '+' :: digits => digits
    | digits => digits
  (readDigits digits).filter (· < limit)

/-- A number below `limit`, with an optional sign of either kind; only zero is allowed a minus
sign. -/
def readSigned (limit : Nat) (text : String) : Option Nat :=
  match text.toList with
  | '-' :: digits => (readDigits digits).filter (· = 0)
  | _ => readUnsigned limit text

end SpanReport
