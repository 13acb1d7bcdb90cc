import SpanReport.Line.Table
import SpanReport.Report.Record

/-! # Reports

A `Report` shows the same diagnostics twice, in editor coordinates and in flat offsets.
`Report.ofMarks` builds it from marks over the line table of a text. The first mark that cannot be
placed decides the error; of a single mark, the order of its bounds is checked first, then its
start is looked up, and last the ends of both views are summed. -/

namespace SpanReport

/-- Why a mark cannot be reported. -/
inductive ReportError
  /-- The end of the mark precedes its start. -/
  | inverted (start stop : Nat)
  /-- The start of the mark names no character. -/
  | locate (error : LocateError)
  /-- An end of the mark cannot be written as an offset or a column. -/
  | range (error : RangeError)
  deriving DecidableEq, Repr

/-- The wording of a report error. -/
def ReportError.message : ReportError → String
  | .inverted start stop => s!"span end {stop} precedes its start {start}"
  | .locate error => error.message
  | .range error => error.message

/-- The diagnostics of a text. -/
structure Report (μ : Type) where
  /-- The diagnostics in the order in which they were given. -/
  entries : List (Entry μ)
  deriving DecidableEq, Repr

/-- The position and the offset of the first character of a mark. -/
def Mark.locate {μ : Type} (table : LineTable) (mark : Mark μ) :
    Except LocateError (Position × Nat) :=
  match mark.line with
  | none => (table.position mark.start).map fun position => (position, mark.start)
  | some line =>
    let position := ⟨line, mark.start⟩
    (table.offset position).map fun offset => (position, offset)

/-- The entry of a mark. -/
def Entry.ofMark {μ : Type} (table : LineTable) (mark : Mark μ) : Except ReportError (Entry μ) := do
  if mark.stop < mark.start then throw (.inverted mark.start mark.stop)
  let length := mark.stop - mark.start
  let (position, offset) ← (mark.locate table).mapError .locate
  let _ ← (offsetSum position.column length).mapError .range
  let _ ← (offsetSum offset length).mapError .range
  return ⟨position, offset, length, mark.message⟩

namespace Report

variable {μ : Type}

/-- The report without diagnostics. -/
def empty : Report μ := ⟨[]⟩

/-- The report of marks over the text of a line table. -/
def ofMarks (table : LineTable) (marks : List (Mark μ)) : Except ReportError (Report μ) :=
  (marks.mapM (Entry.ofMark table)).map Report.mk

/-- The number of diagnostics. -/
def size (report : Report μ) : Nat :=
  report.entries.length

/-- Whether there is nothing to report. -/
def isEmpty (report : Report μ) : Bool :=
  report.entries.isEmpty

/-- The diagnostics in editor coordinates. -/
def editor (report : Report μ) : List (EditorRecord μ) :=
  report.entries.map Entry.editor

/-- The diagnostics in flat offsets. -/
def flat (report : Report μ) : List (FlatRecord μ) :=
  report.entries.map Entry.flat

@[simp] theorem length_editor (report : Report μ) : report.editor.length = report.size := by
  simp [editor, size]

@[simp] theorem length_flat (report : Report μ) : report.flat.length = report.size := by
  simp [flat, size]

end Report

end SpanReport
