import SpanReport.Finding.Basic

/-! # Logs of findings

A `Log` keeps findings in the order in which they are made, by hand (`Log.report`) or by a detector
(`Log.record`). `Log.marks` are the marks of those that have a place, in that order. -/

namespace SpanReport

/-- The findings made so far, the earliest first. -/
structure Log where
  /-- The findings in the order in which they were made. -/
  findings : List Finding
  deriving DecidableEq, Repr

namespace Log

/-- The log without findings. -/
def empty : Log := ⟨[]⟩

/-- The number of findings, with or without a place. -/
def size (log : Log) : Nat :=
  log.findings.length

/-- Whether nothing was found. -/
def isEmpty (log : Log) : Bool :=
  log.findings.isEmpty

/-- Add a finding with the given message and point it at the anchors in turn. The finding is kept
even if an anchor is refused. -/
def report (log : Log) (message : String) (anchors : List Anchor) : Log × Except RangeError Unit :=
  let (finding, outcome) := Finding.anchored ⟨message, none⟩ anchors
  (⟨log.findings ++ [finding]⟩, outcome)

/-- Add a finding for every mark of a detector. -/
def record (log : Log) (marks : List (Mark String)) : Log :=
  ⟨log.findings ++ marks.map Finding.ofMark⟩

/-- The marks of the findings that have a place, in the order in which they were made. -/
def marks (log : Log) : Except RangeError (List (Mark String)) :=
  (log.findings.mapM Finding.mark).map (List.filterMap id)

end Log

end SpanReport
