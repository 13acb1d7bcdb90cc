import SpanReport.Report.Basic

/-! # Reports of an external compiler

An external compiler answers a text with the problems it found, each with a message in two
languages and flat offsets. Their report is that of their marks. -/

namespace SpanReport

/-- A message in Finnish and in English. -/
structure Bilingual where
  /-- The message in Finnish. -/
  fin : String
  /-- The message in English. -/
  eng : String
  deriving DecidableEq, Repr

/-- A problem that an external compiler found in a text. -/
structure Problem where
  /-- What is wrong. -/
  message : Bilingual
  /-- The first offset of the problem. -/
  start : Nat
  /-- One past its last offset. -/
  stop : Nat
  deriving DecidableEq, Repr

/-- The flat mark of a problem. -/
def Problem.mark (problem : Problem) : Mark Bilingual :=
  ⟨problem.message, problem.start, problem.stop, none⟩

/-- The report of what `compiler` finds in a text; without problems no line table is built. -/
def reportExternal (compiler : Text → List Problem) (text : Text) (terminator : Terminator) :
    Except ReportError (Report Bilingual) :=
  match compiler text with
  | [] => .ok .empty
  | problems@(_ :: _) =>
    Report.ofMarks (LineTable.ofText text terminator) (problems.map Problem.mark)

end SpanReport
