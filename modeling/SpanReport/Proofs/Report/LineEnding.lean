import SpanReport.Proofs.Report.Capitals
import SpanReport.Proofs.Report.Sample
import SpanReport.Proofs.Text.LineEnding

/-! # Reports of converted texts

A text and its conversion by `toCrlf` have the same lines, so both detectors find the same stretches
in them. Their reports differ in the flat records only, and there by one character for each line
before the record (`report_toCrlf`). -/

namespace SpanReport

variable {μ : Type}

/-- The flat record that many characters further on. -/
def FlatRecord.later (record : FlatRecord μ) (count : Nat) : FlatRecord μ :=
  ⟨record.startOffset + count, record.endOffset + count, record.message⟩

/-- One report has the editor records of another one, and each of its flat records stands later by
the number of lines before it. -/
structure Report.MovedByLines (report moved : Report μ) : Prop where
  /-- The editor records are the same. -/
  editor_eq : moved.editor = report.editor
  /-- Every flat record moves by one character for each line before it. -/
  flat_eq : moved.flat =
    List.zipWith (fun editor flat => flat.later (editor.line - 1)) report.editor report.flat

/-- Entries of stretches that start later by the number of lines before them. -/
theorem Report.movedByLines_map_entry {width width' : Nat} {lines : List Text}
    {stretches : List Stretch} (message : μ)
    (h : ∀ stretch ∈ stretches,
      lineStart width' lines stretch.index = lineStart width lines stretch.index + stretch.index) :
    Report.MovedByLines ⟨stretches.map (Stretch.entry width lines message)⟩
      ⟨stretches.map (Stretch.entry width' lines message)⟩ where
  editor_eq := by
    -- an editor record does not depend on where the lines start
    simp only [Report.editor, List.map_map]
    rfl
  flat_eq := by
    simp only [Report.editor, Report.flat, List.map_map, List.zipWith_map, List.zipWith_self]
    refine List.map_congr_left fun stretch hmem => ?_
    have hoffset : stretch.offset width' lines = stretch.offset width lines + stretch.index := by
      rw [Stretch.offset, Stretch.offset, h stretch hmem]
      omega
    simp only [Function.comp_apply, Entry.flat, Entry.editor, Stretch.entry, Stretch.position,
      FlatRecord.later, hoffset, Nat.add_sub_cancel]
    congr 1
    omega

/-- The stretches of a text are moved by its conversion. -/
theorem lineStart_toCrlf_of_within {text : Text} (h : ¬ ['\r', '\n'] <:+: text) {stretch : Stretch}
    (hwithin : stretch.Within ((Terminator.detect text).lines text)) :
    lineStart (Terminator.detect (toCrlf text)).width ((Terminator.detect text).lines text)
        stretch.index =
      lineStart (Terminator.detect text).width ((Terminator.detect text).lines text)
        stretch.index + stretch.index := by
  obtain ⟨-, line, hline, -⟩ := hwithin
  exact lineStart_toCrlf h (List.getElem?_eq_some_iff.mp hline).1

/-- The converted text has as many tokens. -/
theorem length_tokens_toCrlf {text : Text} (h : ¬ ['\r', '\n'] <:+: text) :
    (tokens (toCrlf text)).length = (tokens text).length := by
  rw [← length_ofLines_lineTokenSpans (Terminator.detect (toCrlf text)),
    ← length_ofLines_lineTokenSpans (Terminator.detect text), lines_detect_toCrlf h]

end SpanReport
