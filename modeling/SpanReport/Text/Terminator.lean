import SpanReport.Text.Split

/-! # Line terminators

The two sequences that may separate the lines of a text, how to recognise the one a text uses, and
the lines it separates. A trailing terminator yields a final empty line, so that the lines and one
terminator per boundary make up the text. -/

namespace SpanReport

/-- The sequence that separates two lines. -/
inductive Terminator
  /-- A line feed. -/
  | lf
  /-- A carriage return and a line feed. -/
  | crlf
  deriving DecidableEq, Repr

namespace Terminator

/-- The characters of a terminator. -/
def chars : Terminator → Text
  | lf => ['\n']
  | crlf => ['\r', '\n']

/-- The number of characters that a line boundary takes. -/
def width : Terminator → Nat
  | lf => 1
  | crlf => 2

@[simp] theorem length_chars (terminator : Terminator) :
    terminator.chars.length = terminator.width := by
  cases terminator <;> rfl

theorem width_pos (terminator : Terminator) : 0 < terminator.width := by
  cases terminator <;> decide

/-- The name of a terminator. -/
def name : Terminator → String
  | lf => "lf"
  | crlf => "crlf"

/-- The terminator of a text: `crlf` if a carriage return stands right before its first line feed,
and `lf` otherwise. -/
def detect : Text → Terminator
  | '\n' :: _ => lf
  | '\r' :: '\n' :: _ => crlf
  | _ :: rest => detect rest
  | [] => lf

/-- The lines of a text. -/
def lines (terminator : Terminator) (text : Text) : List Text :=
  split terminator.chars text

theorem lines_ne_nil (terminator : Terminator) (text : Text) : terminator.lines text ≠ [] :=
  split_ne_nil _ _

end Terminator

end SpanReport
