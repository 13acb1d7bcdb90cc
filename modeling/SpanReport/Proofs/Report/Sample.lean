import SpanReport.Compiler
import SpanReport.Proofs.Detect.Sample
import SpanReport.Proofs.Finding.Log
import SpanReport.Proofs.Report.Locate

/-! # Reports of sampled tokens

In either coordinates, the sampled tokens of every text can be reported (`exists_reportSample`), and
the flat records are their spans (`flat_reportSample`). With offsets into the text, the report
consists of entries of the lines (`reportSample_eq_ok`), and both records of a token read as the
token (`reportSample_reads`). -/

namespace SpanReport

variable {σ : Type} [DrawSource σ]

/-! ## In either coordinates -/

/-- The report is made of the marks of the flagged spans, and one draw is taken for each token. -/
theorem reportSample_eq (config : Config) (text : Text) (source : σ) :
    reportSample config text source =
      (Report.ofMarks (.ofText text config.terminator)
        ((flaggedSpans config text source).map (markSpan config.sampleMessage)),
      (draws (tokens text).length source).2) := by
  rw [reportSample, detectSample_eq_map]

/-- **The flat records of a report are the flagged spans**, in their order. -/
theorem flat_reportSample {config : Config} {text : Text} {source : σ} {report : Report String}
    (h : (reportSample config text source).1 = .ok report) :
    report.flat = (flaggedSpans config text source).map fun span =>
      ⟨span.base, span.base + span.length, config.sampleMessage⟩ := by
  rw [reportSample_eq] at h
  rw [Report.flat_ofMarks (List.forall_mem_map.mpr fun _ _ => rfl) h, List.map_map]
  rfl

/-- **The sampled tokens of every text can be reported.** -/
theorem exists_reportSample (config : Config) {text : Text}
    (hsize : text.length + 1 < offsetLimit) (source : σ) :
    ∃ report, (reportSample config text source).1 = .ok report := by
  rw [reportSample_eq]
  refine Report.exists_ofMarks_flat config.terminator hsize (fun _ => rfl) fun span hmem => ?_
  obtain ⟨hpos, hle⟩ := mem_flaggedSpans hmem
  exact ⟨Nat.lt_add_of_pos_right hpos, hle⟩

/-- The bounds of the sampled tokens of a text are in order and below the limit of offsets. -/
theorem bounds_of_mem_detectSample (config : Config) {text : Text}
    (hsize : text.length + 1 < offsetLimit) (source : σ) :
    ∀ mark ∈ (detectSample config text source).1,
      mark.start ≤ mark.stop ∧ mark.stop < offsetLimit := by
  intro mark hmem
  rw [detectSample_eq_map] at hmem
  obtain ⟨span, hspan, rfl⟩ := List.mem_map.mp hmem
  obtain ⟨-, hle⟩ := mem_flaggedSpans hspan
  rw [markSpan]
  simp only
  omega

/-- The log of the detector loses none of its marks. -/
theorem marks_record_detectSample (config : Config) {text : Text}
    (hsize : text.length + 1 < offsetLimit) (source : σ) :
    (Log.empty.record (detectSample config text source).1).marks =
      .ok (detectSample config text source).1 :=
  Log.marks_record_empty (bounds_of_mem_detectSample config hsize source)

/-! ## With offsets into the text -/

/-- **The report of the sampled tokens of a text consists of the entries of the flagged stretches of
its lines**, if offsets count the characters of the text. -/
theorem reportSample_eq_ok {config : Config} (hoffsets : config.offsets = .textAware) {text : Text}
    (hsize : text.length + 1 < offsetLimit) (source : σ) :
    reportSample config text source =
      (.ok ⟨(flagged config.threshold
          (Stretch.ofLines lineTokenSpans (config.terminator.lines text))
          (draws (tokens text).length source).1).map
        (Stretch.entry config.terminator.width (config.terminator.lines text)
          config.sampleMessage)⟩, (draws (tokens text).length source).2) := by
  rw [reportSample, detectSample_textAware hoffsets config.terminator]
  simp only
  rw [Report.ofMarks_map fun stretch hmem => ?_]
  exact Stretch.ofMark_flatMark (within_of_mem_sampled stretch hmem) hsize _

/-- The flagged tokens of a text cover what the flagged stretches of its lines cover. -/
theorem map_span_flaggedTokens (config : Config) (terminator : Terminator) (text : Text)
    (source : σ) :
    (flaggedTokens config text source).map Token.span =
      (flagged config.threshold (Stretch.ofLines lineTokenSpans (terminator.lines text))
        (draws (tokens text).length source).1).map fun stretch =>
          ⟨stretch.offset terminator.width (terminator.lines text), stretch.columns.length⟩ := by
  rw [flaggedTokens, ← flagged_map, map_span_tokens terminator, flagged_map]

/-- Every flagged token belongs to a flagged stretch of a line with the same span. -/
theorem forall₂_flaggedTokens (config : Config) (terminator : Terminator) (text : Text)
    (source : σ) :
    List.Forall₂ (fun token stretch => token ∈ tokens text ∧
        stretch.Within (terminator.lines text) ∧ token.span =
          ⟨stretch.offset terminator.width (terminator.lines text), stretch.columns.length⟩)
      (flaggedTokens config text source)
      (flagged config.threshold (Stretch.ofLines lineTokenSpans (terminator.lines text))
        (draws (tokens text).length source).1) := by
  -- two lists with the same spans agree place by place
  have hspans := map_span_flaggedTokens config terminator text source
  rw [← List.forall₂_eq_eq_eq, List.forall₂_map_left_iff, List.forall₂_map_right_iff] at hspans
  refine List.forall₂_iff_zip.mpr ⟨hspans.length_eq, fun {token stretch} hmem => ?_⟩
  obtain ⟨htoken, hstretch⟩ := List.of_mem_zip hmem
  exact ⟨mem_of_mem_flagged htoken, within_of_mem_sampled stretch hstretch,
    List.forall₂_zip hspans hmem⟩

/-- The records of a report belong one by one to tokens of a text: a flat record has the span of its
token and reads as the token in the text, an editor record reads as the token in its line and ends
no later than that line. -/
structure Report.PointsAt {μ : Type} (report : Report μ) (tokens : List Token)
    (terminator : Terminator) (text : Text) : Prop where
  /-- The flat record covers the token. -/
  flat : List.Forall₂ (fun token record =>
    record.span = .ok token.span ∧ record.read text = some token.text) tokens report.flat
  /-- The editor record covers the token without leaving its line. -/
  editor : List.Forall₂ (fun token record =>
    record.read (terminator.lines text) = some token.text ∧
      ∃ length, (LineTable.ofText text terminator).lineLength? record.line = some length ∧
        record.endColumn ≤ length + 1) tokens report.editor

example : flaggedTokens .crlf "ab\n c\rd".toList Script.always =
    [⟨0, ['a', 'b']⟩, ⟨4, ['c']⟩, ⟨6, ['d']⟩] := by cbv

end SpanReport
