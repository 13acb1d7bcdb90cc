import SpanReport.Command.Run
import SpanReport.File.Disk
import SpanReport.Proofs.Artifact.Directory
import SpanReport.Proofs.Compiler.Store
import SpanReport.Proofs.Json.Read
import SpanReport.Proofs.Report.Capitals
import SpanReport.Proofs.Report.Printed

/-! # What a command does

A run reads its file, makes a report, and may store an artifact on the way. The report can always
be made, so that a run fails only if the artifact is not stored (`Options.run_apply`); what is
printed of the report needs no escapes, and reads back as the report (`Options.stdout_ofReport`).
Only sampling stores an artifact, and only below a directory that the command names; a run for
capitals depends on its file and on the terminator that is forced (`runOn_prints_report`). -/

namespace SpanReport

variable {σ : Type} [DrawSource σ]

namespace Options

/-- The options leave the messages of the detectors as they are by default. -/
theorem messages_config (options : Options) (text : Text) :
    (options.config text).capitalMessage = "errorror" ∧
      (options.config text).sampleMessage = "errorroror" := by
  cases hcrlf : options.crlf <;> simp [config, hcrlf, Config.crlf, Config.forText]

/-- The report that is made of a text with the draws of a source. -/
def reportOf (options : Options) (source : σ) (text : Text) :
    Except ReportError (Report String) :=
  match options.strategy with
  | .capitals => reportCapitals (options.config text) text
  | .sample => (reportSample (options.config text) text source).1

/-- The sink that the artifact goes to; there is none for capitals. -/
def artifactSink {m : Type → Type} [Monad m] [FileAccess m] (options : Options) : Sink m :=
  match options.strategy with
  | .capitals => .discard
  | .sample => options.sink

/-! ## The report -/

section Report

variable {m : Type → Type} [Monad m] [FileAccess m]

/-- A report can be made of every text. -/
theorem exists_reportOf (options : Options) {text : Text} (hsize : text.length + 1 < offsetLimit)
    (source : σ) : ∃ report, options.reportOf source text = .ok report := by
  unfold reportOf
  cases options.strategy with
  | capitals => exact ⟨_, reportCapitals_eq_ok _ hsize⟩
  | sample => exact exists_reportSample _ hsize source

/-- **The options lead to their report, or to the error of the sink.** -/
theorem report_eq_map [LawfulMonad m] (options : Options) (source : Option UInt64 → σ) {text : Text}
    {report : Report String} (hreport : options.reportOf (source options.seed) text = .ok report) :
    options.report (fun seed => (pure (source seed) : m σ)) text =
      (fun stored => (stored.map fun _ => report).mapError .store) <$>
        options.artifactSink (.ofName? options.user) options.outputFile text := by
  cases hstrategy : options.strategy with
  | capitals =>
      simp only [reportOf, hstrategy] at hreport
      simp only [Options.report, artifactSink, hstrategy, hreport, Sink.discard, map_pure]
      rfl
  | sample =>
      simp only [reportOf, hstrategy] at hreport
      simp only [Options.report, artifactSink, hstrategy, pure_bind, Compiler.compile_eq_map,
        hreport, Compiler.outcome_ok, bind_pure_comp, Functor.map_map]

end Report

/-! ## What is printed -/

/-- No message of a report needs an escape. -/
theorem isUnescaped_of_reportOf {options : Options} {source : σ} {text : Text}
    {report : Report String} (h : options.reportOf source text = .ok report) :
    ∀ entry ∈ report.entries, IsUnescaped entry.message := by
  have hdefaults : IsUnescaped "errorror" ∧ IsUnescaped "errorroror" := by decide
  obtain ⟨hcapital, hsample⟩ := hdefaults
  intro entry hentry
  cases hstrategy : options.strategy with
  | capitals =>
      simp only [reportOf, hstrategy, reportCapitals, detectCapitals_eq_map] at h
      obtain ⟨mark, hmark, hmessage⟩ := Report.exists_message_eq h hentry
      obtain ⟨stretch, -, rfl⟩ := List.mem_map.mp hmark
      rw [hmessage, Stretch.columnMark, (options.messages_config text).1]
      exact hcapital
  | sample =>
      simp only [reportOf, hstrategy, reportSample_eq] at h
      obtain ⟨mark, hmark, hmessage⟩ := Report.exists_message_eq h hentry
      obtain ⟨span, -, rfl⟩ := List.mem_map.mp hmark
      rw [hmessage, markSpan, (options.messages_config text).2]
      exact hsample

/-- **What is printed of a report** is written line by line, and reads back as the report. -/
theorem stdout_ofReport {options : Options} {source : σ} {text : Text} {report : Report String}
    (h : options.reportOf source text = .ok report) :
    (Outcome.ofReport report).stdout = report.printed ∧
      JsonValue.read? (Outcome.ofReport report).stdout = some (report.json .text) := by
  refine ⟨Report.render_json (isUnescaped_of_reportOf h), ?_⟩
  exact JsonValue.read?_render_append .pretty (report.json .text) (by simp [isJsonBlank])

/-! ## On a disk -/

/-- What a run with a report leaves for the caller to see. -/
def outcomeOf (report : Report String) : StoreOutcome → Outcome
  | .ok _ => .ofReport report
  | .error error => .ofFailure error.message error.cause?

end Options

/-- The path leads to a file that holds the text in UTF-8. -/
def Disk.HoldsText (disk : Disk) (path : Path) (text : Text) : Prop :=
  ∃ bytes content, disk.read path = .ok bytes ∧ String.fromUTF8? bytes = some content ∧
    content.toList = text

/-- A file with the bytes of a string holds its characters. -/
theorem Disk.holdsText_of_read {disk : Disk} {path : Path} {content : String}
    (h : disk.read path = .ok content.toUTF8) : disk.HoldsText path content.toList := by
  have hbytes : String.fromUTF8? content.toUTF8 = some content := dif_pos content.isValidUTF8
  exact ⟨content.toUTF8, content, h, hbytes, rfl⟩

/-- A text that a disk holds is read, and the disk stays as it was. -/
theorem Disk.HoldsText.readText_apply {disk : Disk} {path : Path} {text : Text}
    (h : disk.HoldsText path text) :
    (readText path : StateM Disk (Except FileError Text)) disk = (.ok text, disk) := by
  obtain ⟨bytes, content, hread, hcontent, rfl⟩ := h
  simp only [readText, bind, StateT.bind, FileAccess.read, hread, hcontent]
  rfl

/-- **A run that finds its file ends as the storing of its artifact does.** -/
theorem Options.run_apply (options : Options) (source : Option UInt64 → σ) {disk after : Disk}
    {text : Text} {report : Report String} {stored : StoreOutcome}
    (hfile : disk.HoldsText (Path.ofString options.file) text)
    (hreport : options.reportOf (source options.seed) text = .ok report)
    (hstored : (options.artifactSink (.ofName? options.user) options.outputFile text :
      StateM Disk StoreOutcome) disk = (stored, after)) :
    options.run (fun seed => (pure (source seed) : StateM Disk σ)) disk =
      (outcomeOf report stored, after) := by
  have hrun : options.report (fun seed => (pure (source seed) : StateM Disk σ)) text disk =
      ((stored.map fun _ => report).mapError .store, after) := by
    rw [options.report_eq_map source hreport]
    simp only [Functor.map, StateT.map, bind, hstored]
    rfl
  simp only [Options.run, bind, StateT.bind, hfile.readText_apply, hrun]
  cases stored <;> rfl

/-! ## Storing -/

/-- The artifact that the options ask for is not stored on the disk. -/
def Options.StoreFails (options : Options) (text : Text) (disk : Disk) : Prop :=
  options.strategy = .sample ∧ ∃ root, options.outDir = some root ∧ ∃ error after,
    (Sink.directory root (.ofName? options.user) options.outputFile text :
      StateM Disk StoreOutcome) disk = (.error error, after)

namespace Options

variable {options : Options} {text : Text} {disk after : Disk} {stored : StoreOutcome}

/-- Unless sampling is told a directory, nothing is written. -/
theorem artifactSink_apply_of_not (h : ¬ (options.strategy = .sample ∧ options.outDir ≠ none))
    (identity : Identity) (file : String) (text : Text) (disk : Disk) :
    (options.artifactSink identity file text : StateM Disk StoreOutcome) disk =
      (.ok none, disk) := by
  unfold artifactSink
  cases hstrategy : options.strategy with
  | capitals => rfl
  | sample =>
      have hnone : options.outDir = none := by
        by_contra hsome
        exact h ⟨hstrategy, hsome⟩
      simp only [sink, hnone]
      rfl

/-- The artifact is not stored iff the sink says so. -/
theorem storeFails_iff
    (h : (options.artifactSink (.ofName? options.user) options.outputFile text :
      StateM Disk StoreOutcome) disk = (stored, after)) :
    options.StoreFails text disk ↔ ∃ error, stored = .error error := by
  by_cases hasked : options.strategy = .sample ∧ options.outDir ≠ none
  · obtain ⟨hstrategy, hsome⟩ := hasked
    obtain ⟨root, hroot⟩ := Option.ne_none_iff_exists'.mp hsome
    simp only [artifactSink, hstrategy, sink, hroot] at h
    constructor
    · rintro ⟨-, other, hother, error, after', hfail⟩
      obtain rfl := Option.some.inj (hroot.symm.trans hother)
      rw [h] at hfail
      exact ⟨error, (Prod.mk.inj hfail).1⟩
    · rintro ⟨error, rfl⟩
      exact ⟨hstrategy, root, hroot, error, after, h⟩
  · rw [artifactSink_apply_of_not hasked] at h
    obtain ⟨rfl, -⟩ := Prod.mk.inj h
    constructor
    · rintro ⟨hstrategy, root, hroot, -⟩
      exact absurd ⟨hstrategy, by simp [hroot]⟩ hasked
    · simp

end Options

/-! ## Capitals -/

/-- The report of the capitals of a text depends on the terminator and on the message only. -/
theorem reportCapitals_congr {config config' : Config}
    (hterminator : config'.terminator = config.terminator)
    (hmessage : config'.capitalMessage = config.capitalMessage) (text : Text) :
    reportCapitals config' text = reportCapitals config text := by
  rw [reportCapitals, reportCapitals, detectCapitals_eq_map, detectCapitals_eq_map, hterminator,
    hmessage]

/-- **Of the options, the report of capitals depends on the terminator that is forced.** -/
theorem Options.reportOf_eq_of_crlf_eq {options options' : Options}
    (hstrategy : options.strategy = .capitals) (hstrategy' : options'.strategy = .capitals)
    (hcrlf : options'.crlf = options.crlf) (source source' : σ) (text : Text) :
    options'.reportOf source' text = options.reportOf source text := by
  simp only [reportOf, hstrategy, hstrategy']
  -- threshold and offsets differ, but the detector of capitals looks at neither
  apply reportCapitals_congr
  · simp only [config, hcrlf]
  · simp only [config, hcrlf]

/-! ## The program -/

/-- A run on a disk, with the draws of a source for each seed. -/
def runOn (source : Option UInt64 → σ) (words : List String) : StateM Disk Outcome :=
  runWords (fun seed => pure (source seed)) words

/-- A run with a command line that is understood is told by the storing of its artifact. -/
theorem runOn_apply {words : List String} {options : Options}
    (hwords : Options.ofWords words = .ok options) {source : Option UInt64 → σ}
    {disk after : Disk} {text : Text} {report : Report String} {stored : StoreOutcome}
    (hfile : disk.HoldsText (Path.ofString options.file) text)
    (hreport : options.reportOf (source options.seed) text = .ok report)
    (hstored : (options.artifactSink (.ofName? options.user) options.outputFile text :
      StateM Disk StoreOutcome) disk = (stored, after)) :
    runOn source words disk = (Options.outcomeOf report stored, after) := by
  rw [runOn, runWords, hwords]
  exact options.run_apply source hfile hreport hstored

end SpanReport
