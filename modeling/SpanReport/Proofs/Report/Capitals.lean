import SpanReport.Compiler
import SpanReport.Proofs.Detect.Capitals
import SpanReport.Proofs.Finding.Log

/-! # Reports of capitals

The capitals of every text can be reported (`reportCapitals_eq_ok`). The report shows the flagged
stretches of the lines as they are, and its flat records cover the same characters in the text, one
after another (`reportCapitals_reads`). -/

namespace SpanReport

/-- **The report of the capitals of a text consists of the entries of its flagged stretches.** -/
theorem reportCapitals_eq_ok (config : Config) {text : Text}
    (hsize : text.length + 1 < offsetLimit) :
    reportCapitals config text =
      .ok ⟨(Stretch.ofLines capitalSpans (config.terminator.lines text)).map
        (Stretch.entry config.terminator.width (config.terminator.lines text)
          config.capitalMessage)⟩ := by
  rw [reportCapitals, detectCapitals_eq_map]
  refine Report.ofMarks_map fun stretch hmem => ?_
  exact Stretch.ofMark_columnMark (within_of_mem_capitals stretch hmem) hsize _

/-- There is no other report of the capitals of a text, however long it is. -/
theorem eq_of_reportCapitals_eq_ok {config : Config} {text : Text} {report : Report String}
    (h : reportCapitals config text = .ok report) :
    report = ⟨(Stretch.ofLines capitalSpans (config.terminator.lines text)).map
      (Stretch.entry config.terminator.width (config.terminator.lines text)
        config.capitalMessage)⟩ := by
  obtain ⟨entries⟩ := report
  rw [reportCapitals, detectCapitals_eq_map, Report.ofMarks_eq_ok_iff,
    List.forall₂_map_left_iff] at h
  rw [Report.mk.injEq, ← List.forall₂_eq_eq_eq, List.forall₂_map_right_iff]
  exact h.flip.imp fun entry stretch hentry => Stretch.eq_entry_of_ofMark_columnMark hentry

/-- The bounds of the capitals of a text are in order and below the limit of offsets. -/
theorem bounds_of_mem_detectCapitals (config : Config) {text : Text}
    (hsize : text.length + 1 < offsetLimit) :
    ∀ mark ∈ detectCapitals config text, mark.start ≤ mark.stop ∧ mark.stop < offsetLimit := by
  intro mark hmem
  rw [detectCapitals_eq_map] at hmem
  obtain ⟨stretch, hstretch, rfl⟩ := List.mem_map.mp hmem
  exact Stretch.bounds_columnMark (within_of_mem_capitals stretch hstretch) hsize _

/-- The log of the detector loses none of its marks. -/
theorem marks_record_detectCapitals (config : Config) {text : Text}
    (hsize : text.length + 1 < offsetLimit) :
    (Log.empty.record (detectCapitals config text)).marks = .ok (detectCapitals config text) :=
  Log.marks_record_empty (bounds_of_mem_detectCapitals config hsize)

/-- Checking the lines of a text yields the editor records of its flagged stretches, which do not
depend on how offsets are counted. -/
theorem Compiler.compileLines_eq_map {m : Type → Type} {σ : Type} (compiler : Compiler m σ)
    (width : Nat) (lines : List Text) (text : Text) :
    compiler.compileLines text =
      (Stretch.ofLines capitalSpans (compiler.config.terminator.lines text)).map fun stretch =>
        (stretch.entry width lines compiler.config.capitalMessage).editor := by
  have hrecord : EditorRecord.ofMark? ∘ Stretch.columnMark compiler.config.capitalMessage =
      some ∘ fun stretch =>
        (stretch.entry width lines compiler.config.capitalMessage).editor := rfl
  rw [Compiler.compileLines, detectCapitals_eq_map, List.filterMap_map, hrecord,
    List.filterMap_eq_map]

example : reportCapitals .crlf "ab Cd\r\nX".toList =
    .ok ⟨[⟨⟨1, 4⟩, 3, 2, "errorror"⟩, ⟨⟨2, 1⟩, 7, 1, "errorror"⟩]⟩ := by cbv

end SpanReport
