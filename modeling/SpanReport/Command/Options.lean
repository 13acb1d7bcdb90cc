import SpanReport.Command.Arguments
import SpanReport.Command.Number
import SpanReport.Config

/-! # Options of a command

What a command line asks for (`Options`), read from its arguments: one file, and every option and
switch at most once. -/

namespace SpanReport

/-- The detector that is run. -/
inductive Strategy
  /-- Flag sampled tokens. -/
  | sample
  /-- Flag capitals. -/
  | capitals
  deriving DecidableEq, Repr

/-- The strategy that a word stands for. -/
def Strategy.ofName? : String → Option Strategy
  | "stochastic" => some sample
  | "pattern" => some capitals
  | _ => none

/-- What a command line asks for; what it leaves out has its default. -/
structure Options where
  /-- The file to check. -/
  file : String
  /-- The detector to run. -/
  strategy : Strategy := .capitals
  /-- The seed of the draws; without one they cannot be foreseen. -/
  seed : Option UInt64 := none
  /-- A token is flagged if its draw is above this number. -/
  threshold : Nat := 6
  /-- The coordinates in which sampled tokens are reported. -/
  offsets : OffsetMode := .textAware
  /-- Whether lines end in a carriage return and a line feed, whatever the file looks like. -/
  crlf : Bool := false
  /-- The user for whom the artifact is stored. -/
  user : Option String := none
  /-- The directory below which the artifact is stored; without one nothing is stored. -/
  outDir : Option String := none
  /-- The file name of the artifact. -/
  outputFile : String := "Main.java"
  /-- Whether the program logs in JSON. -/
  logJson : Bool := false
  deriving DecidableEq, Repr

/-- The only element of a list that may have one, or nothing; an error if there are more. -/
def atMostOne {α : Type} (name : String) : List α → Except UsageError (Option α)
  | [] => .ok none
  | [value] => .ok (some value)
  | _ => .error (.repeated name)

/-- The value that the arguments give to an option. -/
def valueOf (arguments : List Argument) (option : ValueOption) :
    Except UsageError (Option String) :=
  atMostOne option.name <| arguments.filterMap fun
    | .value other value => if other = option then some value else none
    | _ => none

/-- The value that the arguments give to an option, once it is read. -/
def readValueOf {α : Type} (read : String → Option α) (arguments : List Argument)
    (option : ValueOption) : Except UsageError (Option α) := do
  match ← valueOf arguments option with
  | none => return none
  | some value =>
    match read value with
    | some result => return some result
    | none => throw (.invalidValue option value)

/-- Whether the arguments turn a switch on. -/
def switchedOn (arguments : List Argument) (switch : Switch) : Except UsageError Bool :=
  Except.map Option.isSome <| atMostOne switch.name <| arguments.filter (· = .switch switch)

/-- The file among the arguments. -/
def fileOf (arguments : List Argument) : Except UsageError String :=
  let files := arguments.filterMap fun
    | .positional text => some text
    | _ => none
  match files with
  | [] => .error .missingFile
  | [file] => if file = "" then .error .emptyFile else .ok file
  | _ :: file :: _ => .error (.extraFile file)

namespace Options

/-- The options that arguments stand for. -/
def ofArguments (arguments : List Argument) : Except UsageError Options := do
  let file ← fileOf arguments
  let strategy ← readValueOf Strategy.ofName? arguments .strategy
  let seed ← readValueOf (readUnsigned UInt64.size) arguments .seed
  let threshold ← readValueOf (readSigned UInt8.size) arguments .threshold
  let offsets ← readValueOf OffsetMode.ofName? arguments .offsets
  let crlf ← switchedOn arguments .crlf
  let user ← valueOf arguments .user
  let outDir ← readValueOf (fun value => if value = "" then none else some value) arguments .outDir
  let outputFile ← valueOf arguments .outputFile
  let logJson ← switchedOn arguments .logJson
  let options : Options := { file := file }
  return { options with
    strategy := strategy.getD options.strategy
    seed := seed.map UInt64.ofNat
    threshold := threshold.getD options.threshold
    offsets := offsets.getD options.offsets
    crlf := crlf
    user := user
    outDir := outDir
    outputFile := outputFile.getD options.outputFile
    logJson := logJson }

/-- The options that the words of a command line stand for. -/
def ofWords (words : List String) : Except UsageError Options := do
  ofArguments (← readArguments words)

/-- The settings of the detectors for a text. -/
def config (options : Options) (text : Text) : Config :=
  { if options.crlf then Config.crlf else Config.forText text with
    threshold := options.threshold
    offsets := options.offsets }

end Options

end SpanReport
