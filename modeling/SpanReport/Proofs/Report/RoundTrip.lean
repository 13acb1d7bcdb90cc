import SpanReport.Proofs.Report.Locate

/-! # Reporting the records of a report

Both records of an entry can be taken as marks again: the editor record by its columns
(`EditorRecord.mark`), the flat record by its offsets (`FlatRecord.mark`). Either mark tells the
entry that the record was made of, so that a report is the report of either of its views
(`Report.ofMarks_records`). -/

namespace SpanReport

variable {μ : Type}

/-- The mark that points at the columns of an editor record. -/
def EditorRecord.mark (record : EditorRecord μ) : Mark μ :=
  ⟨record.message, record.startColumn, record.endColumn, some record.line⟩

/-- The mark that points at the offsets of a flat record. -/
def FlatRecord.mark (record : FlatRecord μ) : Mark μ :=
  ⟨record.message, record.startOffset, record.endOffset, none⟩

/-- The editor record of an entry tells the entry. -/
theorem Entry.tells_mark_editor (entry : Entry μ) : entry.editor.mark.Tells entry :=
  ⟨rfl, rfl, rfl⟩

/-- The flat record of an entry tells the entry as well. -/
theorem Entry.tells_mark_flat (entry : Entry μ) : entry.flat.mark.Tells entry :=
  ⟨rfl, rfl, rfl⟩

section Text

variable {terminator : Terminator} {text : Text} {marks : List (Mark μ)} {report : Report μ}

/-- All entries of a report lie in the text. -/
theorem Report.placed_of_mem (h : Report.ofMarks (.ofText text terminator) marks = .ok report)
    {entry : Entry μ} (hmem : entry ∈ report.entries) : entry.Placed terminator text := by
  rw [Report.ofMarks_eq_ok_iff] at h
  obtain ⟨mark, -, hmark⟩ := exists_of_mem_forall₂ h hmem
  exact (Entry.ofMark_ofText_iff.mp hmark).1

/-- Marks that tell the entries of a report in turn have that report again. -/
theorem Report.ofMarks_map_entries
    (h : Report.ofMarks (.ofText text terminator) marks = .ok report) {mark : Entry μ → Mark μ}
    (htells : ∀ entry, (mark entry).Tells entry) :
    Report.ofMarks (.ofText text terminator) (report.entries.map mark) = .ok report := by
  rw [Report.ofMarks_eq_ok_iff, List.forall₂_map_left_iff, List.forall₂_same]
  intro entry hmem
  exact Entry.ofMark_ofText_iff.mpr ⟨Report.placed_of_mem h hmem, htells entry⟩

/-- **Either view of a report can be reported again.** Whatever marks a report was made of, flat or
by columns, starting in a terminator or ending past the text: the editor records, taken by their
columns, have that report again, and so have the flat records, taken by their offsets. -/
theorem Report.ofMarks_records (h : Report.ofMarks (.ofText text terminator) marks = .ok report) :
    Report.ofMarks (.ofText text terminator) (report.editor.map EditorRecord.mark) = .ok report ∧
      Report.ofMarks (.ofText text terminator) (report.flat.map FlatRecord.mark) = .ok report := by
  constructor
  · rw [Report.editor, List.map_map]
    exact Report.ofMarks_map_entries h Entry.tells_mark_editor
  · rw [Report.flat, List.map_map]
    exact Report.ofMarks_map_entries h Entry.tells_mark_flat

end Text

/-- A mark that starts in the first terminator and one that starts on the last line, both of them
with an end past the text. -/
theorem Report.ofMarks_records_past_end :
    Report.ofMarks (.ofText "ab\r\n\r\ncd".toList .crlf)
        [⟨"in a terminator", 4, 90, some 1⟩, ⟨"on the last line", 7, 12, none⟩] =
      .ok ⟨[⟨⟨1, 4⟩, 3, 86, "in a terminator"⟩, ⟨⟨3, 2⟩, 7, 5, "on the last line"⟩]⟩ ∧
    Report.ofMarks (.ofText "ab\r\n\r\ncd".toList .crlf)
        [⟨"in a terminator", 4, 90, some 1⟩, ⟨"on the last line", 2, 7, some 3⟩] =
      .ok ⟨[⟨⟨1, 4⟩, 3, 86, "in a terminator"⟩, ⟨⟨3, 2⟩, 7, 5, "on the last line"⟩]⟩ ∧
    Report.ofMarks (.ofText "ab\r\n\r\ncd".toList .crlf)
        [⟨"in a terminator", 3, 89, none⟩, ⟨"on the last line", 7, 12, none⟩] =
      .ok ⟨[⟨⟨1, 4⟩, 3, 86, "in a terminator"⟩, ⟨⟨3, 2⟩, 7, 5, "on the last line"⟩]⟩ := by
  have h : Report.ofMarks (.ofText "ab\r\n\r\ncd".toList .crlf)
        [⟨"in a terminator", 4, 90, some 1⟩, ⟨"on the last line", 7, 12, none⟩] =
      .ok ⟨[⟨⟨1, 4⟩, 3, 86, "in a terminator"⟩, ⟨⟨3, 2⟩, 7, 5, "on the last line"⟩]⟩ := by cbv
  exact ⟨h, Report.ofMarks_records h⟩

end SpanReport
