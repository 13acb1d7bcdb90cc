import SpanReport.Json.Value
import SpanReport.Report.External

/-! # Reports as JSON

The members of a report and its records, in the order in which they are written. Both records call
their bounds `start` and `end`. -/

namespace SpanReport

variable {μ : Type}

/-- An editor record as an object, given how messages are written. -/
def EditorRecord.json (message : μ → JsonValue) (record : EditorRecord μ) : JsonValue :=
  .object [("line", .number record.line), ("start", .number record.startColumn),
    ("end", .number record.endColumn), ("message", message record.message)]

/-- A flat record as an object, given how messages are written. -/
def FlatRecord.json (message : μ → JsonValue) (record : FlatRecord μ) : JsonValue :=
  .object [("start", .number record.startOffset), ("end", .number record.endOffset),
    ("message", message record.message)]

/-- A report as an object, given how messages are written. -/
def Report.json (message : μ → JsonValue) (report : Report μ) : JsonValue :=
  .object [("pretty", .array (report.editor.map (EditorRecord.json message))),
    ("raw", .array (report.flat.map (FlatRecord.json message)))]

/-- A bilingual message as an object. -/
def Bilingual.json (message : Bilingual) : JsonValue :=
  .object [("fin", .text message.fin), ("eng", .text message.eng)]

end SpanReport
