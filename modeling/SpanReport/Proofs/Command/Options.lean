import SpanReport.Command.Options
import SpanReport.Proofs.Command.Number
import SpanReport.Proofs.Except

/-! # What a command line asks for

A command line is understood exactly if it names one file, gives every option at most one value,
which can be read, and turns every switch on at most once (`Options.ofWords_eq_ok_iff`); an option
that is left out has its default. So the settings of the detectors are told by the switch for the
terminator, the threshold and the coordinates, and no number that is read is cut to the size of its
type (`Options.config_ofWords`). -/

namespace SpanReport

/-! ## Arguments -/

/-- The values that arguments give to an option. -/
def valuesGiven (arguments : List Argument) (option : ValueOption) : List String :=
  arguments.filterMap fun
    | .value other value => if other = option then some value else none
    | _ => none

/-- The positional arguments. -/
def positionals (arguments : List Argument) : List String :=
  arguments.filterMap fun
    | .positional text => some text
    | _ => none

/-- What the values given to an option make of a setting: it has its default if there is no value,
and is made of what is read from the value if there is one. More than one value is too many. -/
def Settles {α β : Type} (read : String → Option β) (make : Option β → α) (values : List String)
    (setting : α) : Prop :=
  values = [] ∧ setting = make none ∨
    ∃ value found, values = [value] ∧ read value = some found ∧ setting = make (some found)

/-- A list has one element at most exactly if it is what an option holds. -/
theorem atMostOne_eq_ok_iff {α : Type} {name : String} {values : List α} {result : Option α} :
    atMostOne name values = .ok result ↔ values = result.toList := by
  match values with
  | [] => cases result <;> simp [atMostOne]
  | [value] => cases result <;> simp [atMostOne]
  | _ :: _ :: _ => cases result <;> simp [atMostOne]

/-- An option whose value is read. -/
theorem exists_readValueOf_iff {α β : Type} {read : String → Option β} {arguments : List Argument}
    {option : ValueOption} {make : Option β → α} {setting : α} :
    (∃ result, readValueOf read arguments option = .ok result ∧ setting = make result) ↔
      Settles read make (valuesGiven arguments option) setting := by
  have hvalue : valueOf arguments option =
      atMostOne option.name (valuesGiven arguments option) := rfl
  simp only [readValueOf, bind_eq_ok_iff, hvalue, atMostOne_eq_ok_iff, Settles]
  constructor
  · rintro ⟨result, ⟨_ | value, hvalues, hread⟩, rfl⟩
    · obtain rfl : none = result := Except.ok.inj hread
      exact .inl ⟨hvalues, rfl⟩
    · cases hfound : read value with
      | none =>
          simp only [hfound] at hread
          exact absurd hread nofun
      | some found =>
          simp only [hfound] at hread
          obtain rfl : some found = result := Except.ok.inj hread
          exact .inr ⟨value, found, hvalues, hfound, rfl⟩
  · rintro (⟨hvalues, rfl⟩ | ⟨value, found, hvalues, hfound, rfl⟩)
    · exact ⟨none, ⟨none, hvalues, rfl⟩, rfl⟩
    · refine ⟨some found, ⟨some value, hvalues, ?_⟩, rfl⟩
      simp only [hfound]
      rfl

/-- An option whose value is taken as it stands. -/
theorem exists_valueOf_iff {α : Type} {arguments : List Argument} {option : ValueOption}
    {make : Option String → α} {setting : α} :
    (∃ result, valueOf arguments option = .ok result ∧ setting = make result) ↔
      Settles some make (valuesGiven arguments option) setting := by
  have hvalue : valueOf arguments option = readValueOf some arguments option := by
    rw [readValueOf]
    rcases valueOf arguments option with _ | (_ | _) <;> rfl
  rw [hvalue]
  exact exists_readValueOf_iff

/-- A switch is on if it is turned on, once at most. -/
theorem switchedOn_eq_ok_iff {arguments : List Argument} {switch : Switch} {on : Bool} :
    switchedOn arguments switch = .ok on ↔ arguments.count (.switch switch) = on.toNat := by
  rw [switchedOn, List.filter_eq]
  generalize arguments.count (.switch switch) = count
  match count with
  | 0 => cases on <;> simp [atMostOne, Except.map]
  | 1 => cases on <;> simp [atMostOne, Except.map]
  | count + 2 => cases on <;> simp [atMostOne, Except.map, List.replicate_succ]

/-- A single file is named, and not by the empty name. -/
theorem fileOf_eq_ok_iff {arguments : List Argument} {file : String} :
    fileOf arguments = .ok file ↔ positionals arguments = [file] ∧ file ≠ "" := by
  rw [fileOf]
  generalize hfound : List.filterMap _ arguments = found
  have hpositionals : positionals arguments = found := hfound
  rw [hpositionals]
  rcases found with _ | ⟨name, _ | ⟨other, later⟩⟩
  · simp
  · by_cases hname : name = ""
    · simp [hname]
    · simp [hname]
      grind
  · simp

/-! ## Options -/

namespace Options

/-- The options that arguments ask for. -/
structure Asked (arguments : List Argument) (options : Options) : Prop where
  /-- The file is the only positional argument. -/
  file : positionals arguments = [options.file]
  /-- The name of the file is not empty. -/
  file_ne : options.file ≠ ""
  /-- The detector is the one that is named, or that of capitals. -/
  strategy : Settles Strategy.ofName? (·.getD .capitals) (valuesGiven arguments .strategy)
    options.strategy
  /-- The seed is a number of 64 bits, if there is one. -/
  seed : Settles (readUnsigned UInt64.size) (·.map UInt64.ofNat) (valuesGiven arguments .seed)
    options.seed
  /-- The threshold is a number of 8 bits, or 6. -/
  threshold : Settles (readSigned UInt8.size) (·.getD 6) (valuesGiven arguments .threshold)
    options.threshold
  /-- The coordinates are those that are named, or those of the text. -/
  offsets : Settles OffsetMode.ofName? (·.getD .textAware) (valuesGiven arguments .offsets)
    options.offsets
  /-- Whether lines are said to end in a carriage return and a line feed. -/
  crlf : arguments.count (.switch .crlf) = options.crlf.toNat
  /-- The user is the one that is named, if there is one. -/
  user : Settles some id (valuesGiven arguments .user) options.user
  /-- The directory has a name that is not empty, if there is one. -/
  outDir : Settles (fun value => if value = "" then none else some value) id
    (valuesGiven arguments .outDir) options.outDir
  /-- The file name of the artifact is the one that is given, or the default. -/
  outputFile : Settles some (·.getD "Main.java") (valuesGiven arguments .outputFile)
    options.outputFile
  /-- Whether the program logs in JSON. -/
  logJson : arguments.count (.switch .logJson) = options.logJson.toNat

/-- **Arguments are understood exactly if they ask for options.** -/
theorem ofArguments_eq_ok_iff {arguments : List Argument} {options : Options} :
    ofArguments arguments = .ok options ↔ Asked arguments options := by
  simp only [ofArguments, bind_eq_ok_iff, fileOf_eq_ok_iff, switchedOn_eq_ok_iff, pure,
    Except.pure, Except.ok.injEq]
  constructor
  · rintro ⟨file, ⟨hfile, hne⟩, strategy, hstrategy, seed, hseed, threshold, hthreshold, offsets,
      hoffsets, crlf, hcrlf, user, huser, outDir, houtDir, outputFile, houtputFile, logJson,
      hlogJson, rfl⟩
    exact {
      file := hfile
      file_ne := hne
      strategy := exists_readValueOf_iff.mp ⟨strategy, hstrategy, rfl⟩
      seed := exists_readValueOf_iff.mp ⟨seed, hseed, rfl⟩
      threshold := exists_readValueOf_iff.mp ⟨threshold, hthreshold, rfl⟩
      offsets := exists_readValueOf_iff.mp ⟨offsets, hoffsets, rfl⟩
      crlf := hcrlf
      user := exists_valueOf_iff.mp ⟨user, huser, rfl⟩
      outDir := exists_readValueOf_iff.mp ⟨outDir, houtDir, rfl⟩
      outputFile := exists_valueOf_iff.mp ⟨outputFile, houtputFile, rfl⟩
      logJson := hlogJson }
  · intro h
    obtain ⟨strategy, hstrategy, heqStrategy⟩ := exists_readValueOf_iff.mpr h.strategy
    obtain ⟨seed, hseed, heqSeed⟩ := exists_readValueOf_iff.mpr h.seed
    obtain ⟨threshold, hthreshold, heqThreshold⟩ := exists_readValueOf_iff.mpr h.threshold
    obtain ⟨offsets, hoffsets, heqOffsets⟩ := exists_readValueOf_iff.mpr h.offsets
    obtain ⟨user, huser, heqUser⟩ := exists_valueOf_iff.mpr h.user
    obtain ⟨outDir, houtDir, heqOutDir⟩ := exists_readValueOf_iff.mpr h.outDir
    obtain ⟨outputFile, houtputFile, heqOutputFile⟩ := exists_valueOf_iff.mpr h.outputFile
    refine ⟨options.file, ⟨h.file, h.file_ne⟩, strategy, hstrategy, seed, hseed, threshold,
      hthreshold, offsets, hoffsets, options.crlf, h.crlf, user, huser, outDir, houtDir, outputFile,
      houtputFile, options.logJson, h.logJson, ?_⟩
    obtain rfl : user = options.user := heqUser.symm
    obtain rfl : outDir = options.outDir := heqOutDir.symm
    rw [← heqStrategy, ← heqSeed, ← heqThreshold, ← heqOffsets, ← heqOutputFile]

/-- **A command line is understood exactly if its arguments ask for options.** -/
theorem ofWords_eq_ok_iff {words : List String} {options : Options} :
    ofWords words = .ok options ↔
      ∃ arguments, readArguments words = .ok arguments ∧ Asked arguments options := by
  simp only [ofWords, bind_eq_ok_iff, ofArguments_eq_ok_iff]

/-- A threshold is below the limit of its type. -/
theorem Asked.threshold_lt {arguments : List Argument} {options : Options}
    (h : Asked arguments options) : options.threshold < UInt8.size := by
  rcases h.threshold with ⟨-, hdefault⟩ | ⟨value, found, -, hread, hfound⟩
  · rw [hdefault]
    decide
  · rw [hfound]
    exact lt_of_readSigned (by decide) hread

/-- A seed is the number that is given for it. -/
theorem Asked.seed_eq {arguments : List Argument} {options : Options} (h : Asked arguments options)
    {seed : UInt64} (hseed : options.seed = some seed) :
    ∃ value, valuesGiven arguments .seed = [value] ∧
      readUnsigned UInt64.size value = some seed.toNat := by
  rcases h.seed with ⟨-, hdefault⟩ | ⟨value, found, hvalues, hread, hfound⟩
  · exact absurd (hseed.symm.trans hdefault) nofun
  · obtain rfl : seed = UInt64.ofNat found := Option.some.inj (hseed.symm.trans hfound)
    have hlt := (readUnsigned_eq_some_iff.mp hread).1
    rw [UInt64.toNat_ofNat_of_lt' hlt]
    exact ⟨value, hvalues, hread⟩

/-- **The settings of the detectors.** The terminator is that of the switch if it is on, and else
the one that the text uses; threshold and coordinates are those that the arguments ask for, and the
messages have their defaults. Threshold and seed are below the limits of their types, so that the
seed is the very number that is given. -/
theorem config_ofWords {words : List String} {options : Options}
    (h : ofWords words = .ok options) (text : Text) :
    ∃ arguments, readArguments words = .ok arguments ∧ Asked arguments options ∧
      options.config text =
        { terminator := if options.crlf then .crlf else .detect text
          threshold := options.threshold
          offsets := options.offsets } ∧
      options.threshold < UInt8.size ∧
      ∀ seed, options.seed = some seed → ∃ value, valuesGiven arguments .seed = [value] ∧
        readUnsigned UInt64.size value = some seed.toNat := by
  obtain ⟨arguments, harguments, hasked⟩ := ofWords_eq_ok_iff.mp h
  refine ⟨arguments, harguments, hasked, ?_, hasked.threshold_lt, fun seed => hasked.seed_eq⟩
  cases hcrlf : options.crlf <;> simp [config, hcrlf, Config.crlf, Config.forText]

/-- A threshold with a sign, a seed with leading zeros, and a switch. -/
example :
    ofWords ["--threshold=+9", "--offsets", "concatenated", "a.txt", "--crlf", "--seed=007"] =
      .ok { file := "a.txt", seed := some 7, threshold := 9, offsets := .concatenated,
            crlf := true } := rfl

end Options

end SpanReport
