import SpanReport.Finding.Mark
import SpanReport.Text.Position

/-! # Records of a report

An `Entry` is a diagnostic whose place in the text has been found. It can be seen in two ways: in
the coordinates of an editor (`Entry.editor`) and in flat offsets (`Entry.flat`). -/

namespace SpanReport

/-- A diagnostic in editor coordinates, which count from one. -/
structure EditorRecord (μ : Type) where
  /-- The line. -/
  line : Nat
  /-- The first column. -/
  startColumn : Nat
  /-- One past the last column. -/
  endColumn : Nat
  /-- What is said about the range. -/
  message : μ
  deriving DecidableEq, Repr

/-- A diagnostic in offsets of the whole text. -/
structure FlatRecord (μ : Type) where
  /-- The first offset. -/
  startOffset : Nat
  /-- One past the last offset. -/
  endOffset : Nat
  /-- What is said about the range. -/
  message : μ
  deriving DecidableEq, Repr

/-- A diagnostic whose first character is known both by its position and by its offset. -/
structure Entry (μ : Type) where
  /-- The position of the first character. -/
  position : Position
  /-- The offset of the first character. -/
  offset : Nat
  /-- The number of characters. -/
  length : Nat
  /-- What is said about the range. -/
  message : μ
  deriving DecidableEq, Repr

variable {μ : Type}

/-- An entry in editor coordinates; its columns are counted on even past the end of the line. -/
def Entry.editor (entry : Entry μ) : EditorRecord μ where
  line := entry.position.line
  startColumn := entry.position.column
  endColumn := entry.position.column + entry.length
  message := entry.message

/-- An entry in flat offsets. -/
def Entry.flat (entry : Entry μ) : FlatRecord μ where
  startOffset := entry.offset
  endOffset := entry.offset + entry.length
  message := entry.message

/-- The span of the text that a flat record is about. -/
def FlatRecord.span (record : FlatRecord μ) : Except RangeError Span :=
  Span.ofBounds record.startOffset record.endOffset

/-- The record of a mark whose bounds are columns, taken as they are; flat marks have none. -/
def EditorRecord.ofMark? (mark : Mark μ) : Option (EditorRecord μ) :=
  mark.line.map fun line => ⟨line, mark.start, mark.stop, mark.message⟩

end SpanReport
