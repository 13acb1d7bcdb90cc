import SpanReport.Proofs.Report.Locate
import SpanReport.Report.External

/-! # Which mark decides a report

`Mark.Fails` lists what can be wrong with a mark, each kind with the error that it causes; a mark
with nothing wrong is acceptable. The first mark that is not decides the error of a report, and a
report of acceptable marks shows all of them in their order (`Report.ofMarks_decided`). The reports
of an external compiler are decided in the same way, its empty ones included. -/

namespace SpanReport

variable {μ : Type}

/-! ## What can be wrong with a mark -/

namespace Mark

/-- What is wrong with a mark, in the order in which it is found out, and the error that it causes:
the bounds, then the place of the first character, then the sums for the two ends. -/
inductive Fails (table : LineTable) (mark : Mark μ) : ReportError → Prop
  /-- The end precedes the start. -/
  | inverted (hbounds : mark.stop < mark.start) :
      Fails table mark (.inverted mark.start mark.stop)
  /-- A flat mark starts outside of the text. -/
  | outOfBounds (hbounds : mark.start ≤ mark.stop) (hline : mark.line = none)
      (hstart : table.size ≤ mark.start) :
      Fails table mark (.locate (.outOfBounds mark.start table.size))
  /-- The columns of a mark start where their line has no character. -/
  | noSuchPosition {line : Nat} (hbounds : mark.start ≤ mark.stop) (hline : mark.line = some line)
      (hstart : table.offset? ⟨line, mark.start⟩ = none) :
      Fails table mark (.locate (.noSuchPosition ⟨line, mark.start⟩))
  /-- An end is too large to be written. -/
  | overflow {position : Position} {offset : Nat} (hbounds : mark.start ≤ mark.stop)
      (hstart : mark.IsAt table position offset)
      (hsum : offsetLimit ≤ position.column + (mark.stop - mark.start) ∨
        offsetLimit ≤ offset + (mark.stop - mark.start)) :
      Fails table mark (.range .overflow)

/-- Nothing is wrong with a mark. -/
def Acceptable (table : LineTable) (mark : Mark μ) : Prop :=
  ∀ error, ¬ mark.Fails table error

variable {table : LineTable} {mark : Mark μ}

/-- A mark has no place if the table knows no character at its start. -/
theorem locate_eq_error_iff {error : LocateError} :
    mark.locate table = .error error ↔
      (mark.line = none ∧ table.size ≤ mark.start ∧
          .outOfBounds mark.start table.size = error) ∨
        ∃ line, mark.line = some line ∧ table.offset? ⟨line, mark.start⟩ = none ∧
          .noSuchPosition ⟨line, mark.start⟩ = error := by
  rw [Mark.locate]
  cases mark.line with
  | none => simp [map_eq_error_iff, LineTable.position_eq_error_iff]
  | some line => simp [map_eq_error_iff, LineTable.offset_eq_error_iff]

end Mark

/-- **A mark has no entry** exactly if something is wrong with it, and that tells the error. -/
theorem Entry.ofMark_eq_error_iff {table : LineTable} {mark : Mark μ} {error : ReportError} :
    Entry.ofMark table mark = .error error ↔ mark.Fails table error := by
  rw [Entry.ofMark]
  by_cases hinverted : mark.stop < mark.start
  · rw [if_pos hinverted]
    constructor
    · rintro ⟨⟩
      exact .inverted hinverted
    · intro h
      cases h with
      | inverted => rfl
      | outOfBounds hbounds => omega
      | noSuchPosition hbounds => omega
      | overflow hbounds => omega
  · -- the remaining steps fail one after the other: the look-up, then either of the sums
    have hbounds := Nat.le_of_not_lt hinverted
    rw [if_neg hinverted]
    simp only [bind_eq_error_iff, mapError_eq_error_iff, mapError_eq_ok_iff,
      offsetSum_eq_error_iff, offsetSum_eq_ok_iff]
    constructor
    · rintro (⟨_, hlocate, rfl⟩ | ⟨⟨position, offset⟩, hlocate, ⟨_, ⟨hcolumn, rfl⟩, rfl⟩ |
        ⟨_, -, ⟨_, ⟨hoffset, rfl⟩, rfl⟩ | ⟨_, -, hpure⟩⟩⟩)
      · rcases Mark.locate_eq_error_iff.mp hlocate with
          ⟨hline, hstart, rfl⟩ | ⟨line, hline, hstart, rfl⟩
        · exact .outOfBounds hbounds hline hstart
        · exact .noSuchPosition hbounds hline hstart
      · exact .overflow hbounds (Mark.locate_eq_ok_iff_isAt.mp hlocate) (.inl hcolumn)
      · exact .overflow hbounds (Mark.locate_eq_ok_iff_isAt.mp hlocate) (.inr hoffset)
      · cases hpure
    · intro h
      cases h with
      | inverted h => exact absurd h hinverted
      | outOfBounds _ hline hstart =>
          exact .inl ⟨_, Mark.locate_eq_error_iff.mpr (.inl ⟨hline, hstart, rfl⟩), rfl⟩
      | noSuchPosition _ hline hstart =>
          exact .inl ⟨_, Mark.locate_eq_error_iff.mpr (.inr ⟨_, hline, hstart, rfl⟩), rfl⟩
      | @overflow position offset _ hstart hsum =>
          refine .inr ⟨(position, offset), Mark.locate_eq_ok_iff_isAt.mpr hstart, ?_⟩
          by_cases hcolumn : offsetLimit ≤ position.column + (mark.stop - mark.start)
          · exact .inl ⟨_, ⟨hcolumn, rfl⟩, rfl⟩
          · have hoffset := hsum.resolve_left hcolumn
            exact .inr ⟨_, ⟨Nat.lt_of_not_le hcolumn, rfl⟩, .inl ⟨_, ⟨hoffset, rfl⟩, rfl⟩⟩

/-- A mark has an entry exactly if nothing is wrong with it. -/
theorem Entry.exists_ofMark_iff {table : LineTable} {mark : Mark μ} :
    (∃ entry, Entry.ofMark table mark = .ok entry) ↔ mark.Acceptable table := by
  rw [exists_eq_ok_iff, Mark.Acceptable]
  simp only [ne_eq, Entry.ofMark_eq_error_iff]

/-! ## How a mark is shown -/

/-- How a mark is shown: both records carry its message and are as long as the mark; the record in
the coordinates of the mark tells its bounds, and the start of the other one is looked up. -/
structure Mark.ShownAs (table : LineTable) (mark : Mark μ) (editor : EditorRecord μ)
    (flat : FlatRecord μ) : Prop where
  /-- The bounds of the mark are in order. -/
  start_le_stop : mark.start ≤ mark.stop
  /-- Both records carry the message of the mark. -/
  message_eq : editor.message = mark.message ∧ flat.message = mark.message
  /-- The editor record is as long as the mark. -/
  endColumn_eq : editor.endColumn = editor.startColumn + (mark.stop - mark.start)
  /-- The flat record is as long as the mark. -/
  endOffset_eq : flat.endOffset = flat.startOffset + (mark.stop - mark.start)
  /-- A flat mark keeps its offsets, and its start is translated to a position. -/
  of_flat : mark.line = none → flat.startOffset = mark.start ∧ flat.endOffset = mark.stop ∧
    table.position mark.start = .ok ⟨editor.line, editor.startColumn⟩
  /-- Any other mark keeps its line and its columns, and the offset of its start is looked up. -/
  of_columns : ∀ line, mark.line = some line → editor.line = line ∧
    editor.startColumn = mark.start ∧ editor.endColumn = mark.stop ∧
      table.offset? ⟨line, mark.start⟩ = some flat.startOffset

/-- The records of an entry show the mark that it was made of. -/
theorem Mark.shownAs_of_ofMark {table : LineTable} {mark : Mark μ} {entry : Entry μ}
    (h : Entry.ofMark table mark = .ok entry) : mark.ShownAs table entry.editor entry.flat := by
  obtain ⟨horder, hlocate, hlength, hmessage, -, -⟩ := Entry.ofMark_eq_ok_iff.mp h
  have hstart := Mark.locate_eq_ok_iff_isAt.mp hlocate
  have hstop : mark.start + entry.length = mark.stop := by omega
  rw [Mark.IsAt] at hstart
  refine ⟨horder, ⟨hmessage, hmessage⟩, ?_, ?_, ?_, ?_⟩
  · rw [← hlength]
    rfl
  · rw [← hlength]
    rfl
  · intro hline
    rw [hline] at hstart
    obtain ⟨hposition, hoffset⟩ := hstart
    refine ⟨hoffset.symm, ?_, hposition⟩
    rw [Entry.flat, ← hoffset, hstop]
  · intro line hline
    rw [hline] at hstart
    obtain ⟨hoffset, hposition⟩ := hstart
    rw [Entry.editor, ← hposition]
    exact ⟨rfl, rfl, hstop, hoffset⟩

/-! ## Whole reports -/

namespace Report

/-- A report shows marks in their order, each by the two records at its place. -/
structure Shows (report : Report μ) (table : LineTable) (marks : List (Mark μ)) : Prop where
  /-- There is one editor record for each mark. -/
  length_editor : report.editor.length = marks.length
  /-- There is one flat record for each mark. -/
  length_flat : report.flat.length = marks.length
  /-- The two records at the place of a mark show this mark. -/
  shownAs : List.Forall₂ (fun mark records => mark.ShownAs table records.1 records.2) marks
    (report.editor.zip report.flat)

variable {table : LineTable} {marks : List (Mark μ)}

/-- A report shows the marks that it was made of. -/
theorem shows_of_ofMarks {report : Report μ} (h : ofMarks table marks = .ok report) :
    report.Shows table marks := by
  have hentries := ofMarks_eq_ok_iff.mp h
  have hlength := hentries.length_eq.symm
  refine ⟨?_, ?_, ?_⟩
  · rwa [length_editor]
  · rwa [length_flat]
  · rw [editor, flat, List.zip_map', List.forall₂_map_right_iff]
    exact hentries.imp fun _ _ => Mark.shownAs_of_ofMark

/-- **The first mark that is not acceptable decides the error of a report.** -/
theorem ofMarks_eq_error_iff {error : ReportError} :
    ofMarks table marks = .error error ↔ ∃ earlier mark later, marks = earlier ++ mark :: later ∧
      (∀ other ∈ earlier, other.Acceptable table) ∧ mark.Fails table error := by
  rw [ofMarks, map_eq_error_iff, mapM_eq_error_iff]
  simp only [Entry.exists_ofMark_iff, Entry.ofMark_eq_error_iff]

/-- Marks can be reported exactly if all of them are acceptable. -/
theorem exists_ofMarks_iff :
    (∃ report, ofMarks table marks = .ok report) ↔ ∀ mark ∈ marks, mark.Acceptable table := by
  constructor
  · rintro ⟨report, hreport⟩ mark hmem
    rw [← Entry.exists_ofMark_iff]
    obtain ⟨entry, -, hentry⟩ := exists_of_mem_forall₂ (ofMarks_eq_ok_iff.mp hreport).flip hmem
    exact ⟨entry, hentry⟩
  · intro h
    exact exists_ofMarks fun mark hmem => Entry.exists_ofMark_iff.mpr (h mark hmem)

/-- An external compiler without problems has the same report that no marks have. -/
theorem reportExternal_eq (compiler : Text → List Problem) (text : Text) (terminator : Terminator) :
    reportExternal compiler text terminator =
      ofMarks (.ofText text terminator) ((compiler text).map Problem.mark) := by
  rw [reportExternal]
  cases compiler text with
  | nil => rfl
  | cons problem later => rfl

/-- **A report is decided by its first mark that is not acceptable.** Over the table of a text, with
marks of both kinds and any bounds: a report has the error of the first mark with something wrong,
whatever the later marks are; it is made exactly if all marks are acceptable, and then shows all of
them in their order. The report of an external compiler is that of the marks of its problems, also
if there are none. -/
theorem ofMarks_decided (text : Text) (terminator : Terminator) (marks : List (Mark μ)) :
    (∀ error, ofMarks (.ofText text terminator) marks = .error error ↔
      ∃ earlier mark later, marks = earlier ++ mark :: later ∧
        (∀ other ∈ earlier, other.Acceptable (.ofText text terminator)) ∧
          mark.Fails (.ofText text terminator) error) ∧
    ((∃ report, ofMarks (.ofText text terminator) marks = .ok report) ↔
      ∀ mark ∈ marks, mark.Acceptable (.ofText text terminator)) ∧
    (∀ report, ofMarks (.ofText text terminator) marks = .ok report →
      report.Shows (.ofText text terminator) marks) ∧
    (∀ compiler : Text → List Problem, reportExternal compiler text terminator =
      ofMarks (.ofText text terminator) ((compiler text).map Problem.mark)) :=
  ⟨fun _ => ofMarks_eq_error_iff, exists_ofMarks_iff, fun _ => shows_of_ofMarks,
    fun compiler => reportExternal_eq compiler text terminator⟩

/-- Columns that end past the text are shown, and a mark with its bounds reversed decides the error
although a later one starts outside of the text. -/
theorem ofMarks_decided_inverted :
    (∃ report, ofMarks (.ofText "ab\r\ncd".toList .crlf)
        [⟨"columns", 1, 9, some 2⟩, ⟨"flat", 3, 5, none⟩] = .ok report ∧
      report.Shows (.ofText "ab\r\ncd".toList .crlf)
        [⟨"columns", 1, 9, some 2⟩, ⟨"flat", 3, 5, none⟩]) ∧
    ofMarks (.ofText "ab\r\ncd".toList .crlf)
        [⟨"columns", 1, 9, some 2⟩, ⟨"reversed", 3, 2, none⟩, ⟨"outside", 6, 7, none⟩] =
      .error (.inverted 3 2) := by
  have hshown : ofMarks (.ofText "ab\r\ncd".toList .crlf)
      [⟨"columns", 1, 9, some 2⟩, ⟨"flat", 3, 5, none⟩] =
        .ok ⟨[⟨⟨2, 1⟩, 4, 8, "columns"⟩, ⟨⟨1, 4⟩, 3, 2, "flat"⟩]⟩ := by cbv
  obtain ⟨-, haccept, hshows, -⟩ := ofMarks_decided "ab\r\ncd".toList .crlf
    [⟨"columns", 1, 9, some 2⟩, ⟨"flat", 3, 5, none⟩]
  obtain ⟨hfirst, -, -, -⟩ := ofMarks_decided "ab\r\ncd".toList .crlf
    [⟨"columns", 1, 9, some 2⟩, ⟨"reversed", 3, 2, none⟩, ⟨"outside", 6, 7, none⟩]
  refine ⟨⟨_, hshown, hshows _ hshown⟩, (hfirst _).mpr ?_⟩
  refine ⟨[⟨"columns", 1, 9, some 2⟩], ⟨"reversed", 3, 2, none⟩, [⟨"outside", 6, 7, none⟩], rfl, ?_,
    .inverted (by decide)⟩
  intro other hother
  rw [List.mem_singleton.mp hother]
  exact haccept.mp ⟨_, hshown⟩ _ List.mem_cons_self

end Report

end SpanReport
