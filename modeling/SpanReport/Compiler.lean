import SpanReport.Artifact.Store
import SpanReport.Detect.Capitals
import SpanReport.Detect.Sample
import SpanReport.Report.Basic

/-! # The stand-in compiler

A `Compiler` takes the place of a real one: it flags sampled tokens of a text, stores an artifact
for it, and reports the flagged tokens (`Compiler.compile`). It can also check the lines of a text
for capitals (`Compiler.compileLines`), which stores nothing. Its draws go on from one compilation
to the next. -/

namespace SpanReport

/-- Why a text is not compiled. -/
inductive CompileError
  /-- The artifact is not stored. -/
  | store (error : StoreError)
  /-- The flagged tokens cannot be reported. -/
  | report (error : ReportError)
  deriving DecidableEq, Repr

namespace CompileError

/-- The wording of a compile error. -/
def message : CompileError → String
  | store error => error.message
  | report error => error.message

/-- What lies behind a compile error, if anything does. -/
def cause? : CompileError → Option FileError
  | store error => error.cause?
  | report _ => none

end CompileError

/-- The stand-in compiler, whose sink acts in `m` and whose draws come from a state in `σ`. -/
structure Compiler (m : Type → Type) (σ : Type) where
  /-- The settings of its detectors. -/
  config : Config
  /-- The draws that are left. -/
  source : σ
  /-- Where its artifacts are stored. -/
  sink : Sink m

/-- The report of the capitals of a text. -/
def reportCapitals (config : Config) (text : Text) : Except ReportError (Report String) :=
  Report.ofMarks (LineTable.ofText text config.terminator) (detectCapitals config text)

/-- The report of the sampled tokens of a text, and the draws that remain. -/
def reportSample {σ : Type} [DrawSource σ] (config : Config) (text : Text) (source : σ) :
    Except ReportError (Report String) × σ :=
  let (marks, source) := detectSample config text source
  (Report.ofMarks (LineTable.ofText text config.terminator) marks, source)

namespace Compiler

variable {m : Type → Type} {σ : Type}

/-- Report the sampled tokens of a text once its artifact is stored, and tell the compiler that is
left. The draws are taken even if the artifact is not stored. -/
def compile [Monad m] [DrawSource σ] (compiler : Compiler m σ) (identity : Identity)
    (file : String) (text : Text) :
    m (Except CompileError (Report String) × Compiler m σ) := do
  let (report, source) := reportSample compiler.config text compiler.source
  let outcome :=
    match ← compiler.sink identity file text with
    | .error error => .error (.store error)
    | .ok _ => report.mapError .report
  return (outcome, { compiler with source := source })

/-- The capitals of a text in editor coordinates. Nothing is stored, and no draw is taken. -/
def compileLines (compiler : Compiler m σ) (text : Text) : List (EditorRecord String) :=
  (detectCapitals compiler.config text).filterMap EditorRecord.ofMark?

/-- What a compiler can be asked for. -/
inductive Request
  /-- Compile a text for an identity, with a file name for the artifact. -/
  | compile (identity : Identity) (file : String) (text : Text)
  /-- Check the lines of a text. -/
  | lines (text : Text)
  deriving DecidableEq, Repr

/-- What a compiler answers. -/
inductive Answer
  /-- The outcome of a compilation. -/
  | compiled (outcome : Except CompileError (Report String))
  /-- The capitals of a text. -/
  | checked (records : List (EditorRecord String))

/-- Answer a request. -/
def answer [Monad m] [DrawSource σ] (compiler : Compiler m σ) :
    Request → m (Answer × Compiler m σ)
  | .compile identity file text => do
    let (outcome, compiler) ← compiler.compile identity file text
    return (.compiled outcome, compiler)
  | .lines text => return (.checked (compiler.compileLines text), compiler)

/-- Answer requests one after another. -/
def answerAll [Monad m] [DrawSource σ] (compiler : Compiler m σ) :
    List Request → m (List Answer × Compiler m σ)
  | [] => return ([], compiler)
  | request :: later => do
    let (first, compiler) ← compiler.answer request
    let (others, compiler) ← compiler.answerAll later
    return (first :: others, compiler)

end Compiler

end SpanReport
