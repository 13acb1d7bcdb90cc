import Mathlib.Data.List.ReduceOption
import SpanReport.Finding.Log
import SpanReport.Proofs.Report.Entry

/-! # Marks that a log gives back

A log gives back the marks of its findings, without checking where they end (`Finding.rawMark?`),
unless the range of one of them ends at the limit of offsets or later (`Log.marks_of_forall`,
`Log.marks_eq_error_iff`). So it gives back what a detector recorded in it
(`Log.marks_record_empty`). -/

namespace SpanReport

/-! ## The mark of a finding -/

namespace Finding

/-- The mark of a finding, wherever its range ends. -/
def rawMark? (finding : Finding) : Option (Mark String) :=
  finding.place.map fun place =>
    ⟨finding.message, place.span.base, place.span.base + place.span.length, place.line⟩

/-- The range of a finding ends at the limit of offsets or later. -/
def Overflows (finding : Finding) : Prop :=
  ∃ place, finding.place = some place ∧ offsetLimit ≤ place.span.base + place.span.length

/-- A finding has its mark, unless its range ends too late. -/
theorem mark_of_not_overflows {finding : Finding} (h : ¬ finding.Overflows) :
    finding.mark = .ok finding.rawMark? := by
  obtain ⟨message, place⟩ := finding
  cases place with
  | none => rfl
  | some place =>
      have hlt : place.span.base + place.span.length < offsetLimit :=
        Nat.lt_of_not_le fun hle => h ⟨place, rfl, hle⟩
      simp only [mark, Span.stop, offsetSum_of_lt hlt]
      rfl

/-- A finding whose range ends too late has no mark. -/
theorem mark_of_overflows {finding : Finding} (h : finding.Overflows) :
    finding.mark = .error .overflow := by
  obtain ⟨place, hplace, hle⟩ := h
  rw [mark, hplace]
  simp only [Span.stop, offsetSum_of_le hle]
  rfl

/-- The finding that points at the range of a mark has that mark. -/
theorem rawMark?_ofMark {mark : Mark String} (horder : mark.start ≤ mark.stop) :
    (ofMark mark).rawMark? = some mark := by
  have hstop : mark.start + (mark.stop - mark.start) = mark.stop := by omega
  obtain ⟨message, start, stop, line⟩ := mark
  simp only at hstop
  cases line with
  | none => simp only [rawMark?, ofMark, Option.map_some, Place.span, Place.line, hstop]
  | some number => simp only [rawMark?, ofMark, Option.map_some, Place.span, Place.line, hstop]

/-- The range of a finding ends where its mark does. -/
theorem overflows_ofMark_iff {mark : Mark String} (horder : mark.start ≤ mark.stop) :
    (ofMark mark).Overflows ↔ offsetLimit ≤ mark.stop := by
  have hstop : mark.start + (mark.stop - mark.start) = mark.stop := by omega
  obtain ⟨message, start, stop, line⟩ := mark
  simp only at hstop
  cases line with
  | none => simp only [Overflows, ofMark, Option.some.injEq, exists_eq_left', Place.span, hstop]
  | some number =>
      simp only [Overflows, ofMark, Option.some.injEq, exists_eq_left', Place.span, hstop]

/-- The findings that a detector makes have its marks. -/
theorem map_rawMark?_ofMark {marks : List (Mark String)}
    (h : ∀ mark ∈ marks, mark.start ≤ mark.stop) :
    (marks.map ofMark).map rawMark? = marks.map some := by
  rw [List.map_map]
  exact List.map_congr_left fun mark hmem => rawMark?_ofMark (h mark hmem)

/-- The findings that a detector makes of marks below the limit end below it. -/
theorem not_overflows_of_mem_map_ofMark {marks : List (Mark String)}
    (h : ∀ mark ∈ marks, mark.start ≤ mark.stop ∧ mark.stop < offsetLimit) {finding : Finding}
    (hmem : finding ∈ marks.map ofMark) : ¬ finding.Overflows := by
  obtain ⟨mark, hmark, rfl⟩ := List.mem_map.mp hmem
  obtain ⟨horder, hstop⟩ := h mark hmark
  rw [overflows_ofMark_iff horder]
  exact Nat.not_le.mpr hstop

end Finding

/-! ## The marks of a log -/

namespace Log

/-- **A log gives back the marks of its findings**, in their order. -/
theorem marks_of_forall {log : Log} (h : ∀ finding ∈ log.findings, ¬ finding.Overflows) :
    log.marks = .ok ((log.findings.map Finding.rawMark?).reduceOption) := by
  have hmapM : log.findings.mapM Finding.mark = .ok (log.findings.map Finding.rawMark?) :=
    mapM_eq_ok_map fun finding hmem => Finding.mark_of_not_overflows (h finding hmem)
  rw [marks, hmapM]
  rfl

/-- A single range that ends too late spoils the marks of all findings. -/
theorem marks_of_overflows {log : Log} (h : ∃ finding ∈ log.findings, finding.Overflows) :
    log.marks = .error .overflow := by
  have hmapM : log.findings.mapM Finding.mark = .error .overflow := by
    obtain ⟨finding, hmem, hoverflows⟩ := h
    refine mapM_eq_error hmem (Finding.mark_of_overflows hoverflows) fun other _ error herror => ?_
    -- whether it overflows or not, a finding has no other error
    by_cases hother : other.Overflows
    · rw [Finding.mark_of_overflows hother] at herror
      exact (Except.error.inj herror).symm
    · rw [Finding.mark_of_not_overflows hother] at herror
      exact absurd herror (by simp)
  rw [marks, hmapM]
  rfl

/-- **The marks of a log are lost exactly if some range ends too late.** -/
theorem marks_eq_error_iff {log : Log} :
    log.marks = .error .overflow ↔ ∃ finding ∈ log.findings, finding.Overflows := by
  refine ⟨fun herror => ?_, marks_of_overflows⟩
  by_contra hnone
  rw [marks_of_forall fun finding hmem h => hnone ⟨finding, hmem, h⟩] at herror
  exact absurd herror (by simp)

/-- **A log gives back what a detector recorded in it.** -/
theorem marks_record_empty {marks : List (Mark String)}
    (h : ∀ mark ∈ marks, mark.start ≤ mark.stop ∧ mark.stop < offsetLimit) :
    (Log.empty.record marks).marks = .ok marks := by
  have hfindings : (Log.empty.record marks).findings = marks.map Finding.ofMark := rfl
  have hmarks : (marks.map Finding.ofMark).map Finding.rawMark? = marks.map some :=
    Finding.map_rawMark?_ofMark fun mark hmem => (h mark hmem).1
  rw [marks_of_forall, hfindings, hmarks, List.reduceOption, List.filterMap_map,
    Function.id_comp, List.filterMap_some]
  rw [hfindings]
  exact fun finding hmem => Finding.not_overflows_of_mem_map_ofMark h hmem

end Log

end SpanReport
