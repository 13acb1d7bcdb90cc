import SpanReport.Detect.Capitals
import SpanReport.Detect.Sample
import SpanReport.Finding.Log

/-! # Detection sessions

A `Session` collects findings from several steps into one log: single findings that are reported by
hand, and the passes of both detectors. The draws of the sampling detector go on from one pass to
the next. What was found can be taken out of the session, which then goes on with an empty log. -/

namespace SpanReport

/-- A log and the draws that are left. -/
structure Session (σ : Type) where
  /-- What was found so far. -/
  log : Log
  /-- The draws that are left. -/
  source : σ

namespace Session

/-- What can be done in a session. -/
inductive Step
  /-- Report a finding and point it at the anchors in turn. -/
  | report (message : String) (anchors : List Anchor)
  /-- Flag the capitals of a text. -/
  | capitals (text : Text)
  /-- Sample the tokens of a text. -/
  | sample (text : Text)
  deriving DecidableEq, Repr

variable {σ : Type}

/-- The session with nothing found. -/
def start (source : σ) : Session σ :=
  ⟨.empty, source⟩

/-- Do a step. Only an anchor can be refused, and what was found up to then is kept. -/
def perform [DrawSource σ] (config : Config) (session : Session σ) :
    Step → Except RangeError Unit × Session σ
  | .report message anchors =>
    let (log, outcome) := session.log.report message anchors
    (outcome, { session with log := log })
  | .capitals text =>
    (.ok (), { session with log := session.log.record (detectCapitals config text) })
  | .sample text =>
    let (marks, source) := detectSample config text session.source
    (.ok (), ⟨session.log.record marks, source⟩)

/-- The session after a list of steps. -/
def performAll [DrawSource σ] (config : Config) (session : Session σ) (steps : List Step) :
    Session σ :=
  steps.foldl (fun session step => (session.perform config step).2) session

/-- Take out the marks of what was found. -/
def takeMarks (session : Session σ) : Except RangeError (List (Mark String)) × Session σ :=
  (session.log.marks, start session.source)

/-- Take out what was found. -/
def takeFindings (session : Session σ) : List Finding × Session σ :=
  (session.log.findings, start session.source)

end Session

end SpanReport
