/-! # Command-line arguments

The options of the program and how the words of a command line are read as arguments
(`readArguments`). An option takes its value from the same word, after an equals sign, or from the
next one; a switch takes none; after the word `--` all words are positional. -/

namespace SpanReport

/-- An option that takes a value. -/
inductive ValueOption
  /-- The detector to run. -/
  | strategy
  /-- The seed of the draws. -/
  | seed
  /-- The number that a draw has to exceed. -/
  | threshold
  /-- The coordinates of sampled tokens. -/
  | offsets
  /-- The user for whom the artifact is stored. -/
  | user
  /-- The directory below which the artifact is stored. -/
  | outDir
  /-- The file name of the artifact. -/
  | outputFile
  deriving DecidableEq, Repr

/-- An option without a value. -/
inductive Switch
  /-- Lines end in a carriage return and a line feed. -/
  | crlf
  /-- The program logs in JSON. -/
  | logJson
  deriving DecidableEq, Repr

/-- The word for an option, without its hyphens. -/
def ValueOption.name : ValueOption → String
  | strategy => "strategy"
  | seed => "seed"
  | threshold => "threshold"
  | offsets => "offsets"
  | user => "user"
  | outDir => "out-dir"
  | outputFile => "output-file"

/-- The option that a word stands for. -/
def ValueOption.ofName? : String → Option ValueOption
  | "strategy" => some strategy
  | "seed" => some seed
  | "threshold" => some threshold
  | "offsets" => some offsets
  | "user" => some user
  | "out-dir" => some outDir
  | "output-file" => some outputFile
  | _ => none

/-- The word for a switch, without its hyphens. -/
def Switch.name : Switch → String
  | crlf => "crlf"
  | logJson => "log-json"

/-- The switch that a word stands for. -/
def Switch.ofName? : String → Option Switch
  | "crlf" => some crlf
  | "log-json" => some logJson
  | _ => none

@[simp] theorem ValueOption.ofName?_name (option : ValueOption) :
    ValueOption.ofName? option.name = some option := by
  cases option <;> rfl

@[simp] theorem Switch.ofName?_name (switch : Switch) :
    Switch.ofName? switch.name = some switch := by
  cases switch <;> rfl

/-- Why a command line is not understood. -/
inductive UsageError
  /-- No option has this name. -/
  | unknownOption (word : String)
  /-- The option is given without a value. -/
  | missingValue (option : ValueOption)
  /-- The switch is given with a value. -/
  | unexpectedValue (switch : Switch)
  /-- The option or the switch is given more than once. -/
  | repeated (name : String)
  /-- The option cannot take this value. -/
  | invalidValue (option : ValueOption) (value : String)
  /-- No file is given. -/
  | missingFile
  /-- The name of the file is empty. -/
  | emptyFile
  /-- More than one file is given. -/
  | extraFile (file : String)
  deriving DecidableEq, Repr

/-- The wording of a usage error. -/
def UsageError.message : UsageError → String
  | unknownOption word => "unexpected argument '" ++ word ++ "'"
  | missingValue option => "a value is required for '--" ++ option.name ++ "'"
  | unexpectedValue switch => "no value is expected for '--" ++ switch.name ++ "'"
  | repeated name => "'--" ++ name ++ "' cannot be used more than once"
  | invalidValue option value => "invalid value '" ++ value ++ "' for '--" ++ option.name ++ "'"
  | missingFile => "a file is required"
  | emptyFile => "the name of the file is empty"
  | extraFile file => "unexpected argument '" ++ file ++ "'"

/-- An argument of a command line. -/
inductive Argument
  /-- An option with its value. -/
  | value (option : ValueOption) (value : String)
  /-- A switch. -/
  | switch (switch : Switch)
  /-- A positional argument. -/
  | positional (text : String)
  deriving DecidableEq, Repr

/-- A word of a command line, seen for itself. -/
inductive Word
  /-- The word `--`. -/
  | endOfOptions
  /-- An option by its long name, with the value after the equals sign if there is one. -/
  | long (name : String) (value : Option String)
  /-- A single hyphen with something after it. -/
  | short
  /-- Any other word, among them the empty one and a hyphen alone. -/
  | plain
  deriving DecidableEq, Repr

/-- The name before the first equals sign and, if there is one, the value after it. -/
def splitValue (letters : List Char) : String × Option String :=
  let name := String.ofList (letters.takeWhile (· ≠ '='))
  match letters.dropWhile (· ≠ '=') with
  | [] => (name, none)
  | _ :: value => (name, some (String.ofList value))

/-- What a word is. -/
def Word.ofString (word : String) : Word :=
  match word.toList with
  | ['-', '-'] => endOfOptions
  | '-' :: '-' :: letters =>
    let (name, value) := splitValue letters
    long name value
  | ['-'] => plain
  | '-' :: _ => short
  | _ => plain

/-- Put an argument in front of those that follow it. -/
def consArgument (argument : Argument) :
    Except UsageError (List Argument) → Except UsageError (List Argument) :=
  Except.map (argument :: ·)

/-- The arguments that the words of a command line stand for. -/
def readArguments : List String → Except UsageError (List Argument)
  | [] => .ok []
  | word :: later =>
    match Word.ofString word with
    | .endOfOptions => .ok (later.map .positional)
    | .plain => consArgument (.positional word) (readArguments later)
    | .short => .error (.unknownOption word)
    | .long name value =>
      match ValueOption.ofName? name, Switch.ofName? name, value with
      | some option, _, some value => consArgument (.value option value) (readArguments later)
      | some option, _, none =>
        match later with
        | [] => .error (.missingValue option)
        | value :: later =>
          if Word.ofString value = .plain then
            consArgument (.value option value) (readArguments later)
          else .error (.missingValue option)
      | none, some switch, none => consArgument (.switch switch) (readArguments later)
      | none, some switch, some _ => .error (.unexpectedValue switch)
      | none, none, _ => .error (.unknownOption word)

end SpanReport
