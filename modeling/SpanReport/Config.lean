import SpanReport.Text.Terminator

/-! # Configuration

What the detectors can be told: the line terminator, how often and in which coordinates the sampling
detector flags a token, and the messages of both detectors. -/

namespace SpanReport

/-- The coordinates in which the sampling detector reports. -/
inductive OffsetMode
  /-- Offsets into the tokens written one after another, without the blanks between them. -/
  | concatenated
  /-- Offsets into the text itself. -/
  | textAware
  deriving DecidableEq, Repr

/-- The word for an offset mode. -/
def OffsetMode.name : OffsetMode → String
  | .concatenated => "concatenated"
  | .textAware => "text-aware"

/-- The offset mode that a word stands for. -/
def OffsetMode.ofName? : String → Option OffsetMode
  | "concatenated" => some .concatenated
  | "text-aware" => some .textAware
  | _ => none

@[simp] theorem OffsetMode.ofName?_name (mode : OffsetMode) :
    OffsetMode.ofName? mode.name = some mode := by
  cases mode <;> rfl

/-- The settings of the detectors; those left out have their default. -/
structure Config where
  /-- The terminator that separates the lines of the text. -/
  terminator : Terminator := .lf
  /-- A token is flagged if its draw is above this number. -/
  threshold : Nat := 6
  /-- The coordinates in which sampled tokens are reported. -/
  offsets : OffsetMode := .textAware
  /-- What is said about a sampled token. -/
  sampleMessage : String := "errorroror"
  /-- What is said about a capital. -/
  capitalMessage : String := "errorror"
  deriving DecidableEq, Repr

namespace Config

/-- The default settings for texts whose lines end in a carriage return and a line feed. -/
def crlf : Config := { terminator := .crlf }

/-- The default settings with offsets into the concatenated tokens. -/
def concatenated : Config := { offsets := .concatenated }

/-- The default settings with the terminator that a text uses. -/
def forText (text : Text) : Config := { terminator := .detect text }

end Config

end SpanReport
