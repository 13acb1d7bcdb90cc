import SpanReport.Command.Options
import SpanReport.Compiler
import SpanReport.Draw.Generator
import SpanReport.Report.Json

/-! # Running a command

What the program does with a command line, for any file system: it reads the file, runs the
detector that is asked for, and prints the report as JSON. -/

namespace SpanReport

/-- What a run leaves for the caller to see. -/
structure Outcome where
  /-- The exit code. -/
  exitCode : Nat
  /-- What is printed. -/
  stdout : String
  /-- What is said about a failure. -/
  stderr : String
  deriving DecidableEq, Repr

namespace Outcome

/-- The outcome of a run that has a report. -/
def ofReport (report : Report String) : Outcome where
  exitCode := 0
  stdout := (report.json JsonValue.text).render .pretty ++ "\n"
  stderr := ""

/-- The outcome of a run that fails, and what lies behind the failure. -/
def ofFailure (message : String) (cause : Option FileError) : Outcome where
  exitCode := 1
  stdout := ""
  stderr :=
    "Error: " ++ message ++ "\n" ++
      match cause with
      | none => ""
      | some cause => "\nCaused by:\n    " ++ cause.message ++ "\n"

/-- The outcome of a command line that is not understood. -/
def ofUsageError (error : UsageError) : Outcome where
  exitCode := 2
  stdout := ""
  stderr := "error: " ++ error.message ++ "\n"

end Outcome

variable {m : Type → Type} [Monad m] [FileAccess m] {σ : Type} [DrawSource σ]

/-- The sink that the options ask for. -/
def Options.sink (options : Options) : Sink m :=
  match options.outDir with
  | some root => .directory root
  | none => .discard

/-- The report that the options ask for on a text. -/
def Options.report (options : Options) (drawSource : Option UInt64 → m σ) (text : Text) :
    m (Except CompileError (Report String)) := do
  let config := options.config text
  match options.strategy with
  | .capitals => return (reportCapitals config text).mapError .report
  | .sample =>
    let compiler := Compiler.mk config (← drawSource options.seed) options.sink
    let (report, _) ← compiler.compile (.ofName? options.user) options.outputFile text
    return report

/-- Do what the options ask for. Draws come from `drawSource`, which is told the seed. -/
def Options.run (options : Options) (drawSource : Option UInt64 → m σ) : m Outcome := do
  match ← readText (Path.ofString options.file) with
  | .error error => return .ofFailure ("failed to read " ++ options.file) error
  | .ok text =>
    match ← options.report drawSource text with
    | .error error => return .ofFailure error.message error.cause?
    | .ok report => return .ofReport report

/-- Do what the words of a command line ask for. -/
def runWords (drawSource : Option UInt64 → m σ) (words : List String) : m Outcome :=
  match Options.ofWords words with
  | .error error => return .ofUsageError error
  | .ok options => options.run drawSource

/-- The generator of a seed; without a seed, the one of a key that `entropy` yields. -/
def generatorFor (entropy : m ChaCha.Key) : Option UInt64 → m Generator
  | some seed => return .seeded seed
  | none => return .ofKey (← entropy)

end SpanReport
