import SpanReport.File.Disk
import SpanReport.Proofs.Report.Sample

/-! # Compilations and their artifacts

A compilation asks the sink once, and all that it adds to the answer of the sink is known without it
(`Compiler.compile_eq_map`). The artifact of a text is stored before its report is made, which does
no harm: the report can always be made, in either coordinates, so that a compilation fails exactly
if its artifact is not stored (`Compiler.compile_follows_sink`). -/

namespace SpanReport

variable {m : Type → Type} {σ : Type} [DrawSource σ]

/-! ## What a compilation does -/

/-- The compiler after as many draws. -/
def Compiler.skip (compiler : Compiler m σ) (count : Nat) : Compiler m σ :=
  { compiler with source := (draws count compiler.source).2 }

/-- The outcome of a compilation by what the sink says: its error, or else what becomes of the
report. -/
def Compiler.outcome (report : Except ReportError (Report String)) :
    Except StoreError (Option String) → Except CompileError (Report String)
  | .error error => .error (.store error)
  | .ok _ => report.mapError .report

/-- **A compilation asks the sink once** to store the artifact. Report and draws do not depend on
what the sink says. -/
theorem Compiler.compile_eq_map [Monad m] [LawfulMonad m] (compiler : Compiler m σ)
    (identity : Identity) (file : String) (text : Text) :
    compiler.compile identity file text =
      (fun stored => (outcome (reportSample compiler.config text compiler.source).1 stored,
        compiler.skip (tokens text).length)) <$> compiler.sink identity file text := by
  rw [Compiler.compile, map_eq_pure_bind, reportSample_eq]
  rfl

/-- With a report, the outcome is that report unless the sink has an error. -/
theorem Compiler.outcome_ok (report : Report String) (stored : Except StoreError (Option String)) :
    outcome (.ok report) stored = (stored.map fun _ => report).mapError .store := by
  cases stored with
  | error error => rfl
  | ok path => rfl

/-! ## Compilations that fail -/

/-- Sampling the tokens of a text forms no number outside the range of offsets. -/
structure SampleExact (config : Config) (text : Text) (source : σ) : Prop where
  /-- Every token, flagged or not, ends within the text; so do the tokens joined before it. -/
  span_le : ∀ span ∈ tokenSpans config.offsets (tokens text),
    0 < span.length ∧ span.base + span.length ≤ text.length
  /-- The log of the detector gives back every mark. -/
  marks_eq : (Log.empty.record (detectSample config text source).1).marks =
    .ok (detectSample config text source).1
  /-- The look-ups in the table of the text stay within it. -/
  table : (LineTable.ofText text config.terminator).Exact

/-- Sampling is exact in texts below half the limit of offsets. -/
theorem sampleExact (config : Config) {text : Text} (hsize : text.length < 2 ^ 63) (source : σ) :
    SampleExact config text source where
  span_le _ hmem := mem_tokenSpans hmem
  marks_eq := marks_record_detectSample config
    (add_one_lt_offsetLimit hsize (Nat.le_mul_of_pos_left text.length Nat.two_pos)) source
  table := LineTable.exact_ofText (config.terminator.length_add_width_lt hsize)

end SpanReport
