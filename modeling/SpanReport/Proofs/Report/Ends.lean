import SpanReport.Proofs.Report.Decision
import SpanReport.Proofs.Report.Stretch

/-! # Where marks end

A report looks up where a mark starts, but it only sums up where the mark ends
(`Entry.ofMark_of_isAt`). So it is lost if one of the two sums reaches the limit of offsets, which
depends on the line on which the mark starts (`Mark.endsSummed`), and an end past the text is shown
like any other (`Report.forall_liesIn_iff`). -/

namespace SpanReport

variable {μ : Type}

/-- **The entry of a mark whose start is found**: the mark has one unless a sum for one of its two
ends reaches the limit of offsets. -/
theorem Entry.ofMark_of_isAt {table : LineTable} {mark : Mark μ} {position : Position}
    {offset : Nat} (horder : mark.start ≤ mark.stop) (hstart : mark.IsAt table position offset) :
    Entry.ofMark table mark =
      if position.column + (mark.stop - mark.start) < offsetLimit ∧
          offset + (mark.stop - mark.start) < offsetLimit then
        .ok ⟨position, offset, mark.stop - mark.start, mark.message⟩
      else .error (.range .overflow) := by
  split
  next hsums =>
    have hlocate := Mark.locate_eq_ok_iff_isAt.mpr hstart
    exact Entry.ofMark_eq_ok_iff.mpr ⟨horder, hlocate, rfl, rfl, hsums.1, hsums.2⟩
  next hsums =>
    refine Entry.ofMark_eq_error_iff.mpr (.overflow horder hstart ?_)
    omega

/-- The report of a single mark whose start is found is lost exactly if one of the sums reaches the
limit, and otherwise shows the mark. -/
theorem Report.ofMarks_singleton {table : LineTable} {mark : Mark μ} {position : Position}
    {offset : Nat} (horder : mark.start ≤ mark.stop) (hstart : mark.IsAt table position offset) :
    Report.ofMarks table [mark] =
      if position.column + (mark.stop - mark.start) < offsetLimit ∧
          offset + (mark.stop - mark.start) < offsetLimit then
        .ok ⟨[⟨position, offset, mark.stop - mark.start, mark.message⟩]⟩
      else .error (.range .overflow) := by
  rw [Report.ofMarks, List.mapM_cons, List.mapM_nil, Entry.ofMark_of_isAt horder hstart]
  split
  · rfl
  · rfl

/-- The report of a single mark whose start is found is lost exactly if a sum for one of its ends
reaches the limit. -/
theorem Report.ofMarks_singleton_eq_error_iff {table : LineTable} {mark : Mark μ}
    {position : Position} {offset : Nat} (horder : mark.start ≤ mark.stop)
    (hstart : mark.IsAt table position offset) :
    Report.ofMarks table [mark] = .error (.range .overflow) ↔
      offsetLimit ≤ position.column + (mark.stop - mark.start) ∨
        offsetLimit ≤ offset + (mark.stop - mark.start) := by
  rw [Report.ofMarks_singleton horder hstart]
  split
  next hsums => exact ⟨nofun, fun hlate => by omega⟩
  next hsums => exact ⟨fun _ => by omega, fun _ => rfl⟩

section Text

variable {terminator : Terminator} {text : Text} {mark : Mark μ} {position : Position}
  {offset : Nat}

/-- A mark starts at the character that it tells by one of its coordinates. -/
theorem Mark.isAt_ofText_iff :
    mark.IsAt (.ofText text terminator) position offset ↔
      position.Names terminator text offset ∧ mark.StartsAt position offset :=
  Mark.locate_eq_ok_iff_isAt.symm.trans Mark.locate_eq_ok_iff

/-! ## Ends at the limit of offsets -/

/-- A line starts at the first character of a text exactly if it is the first line. -/
theorem Position.Names.lineStart_eq_zero_iff (h : position.Names terminator text offset) :
    lineStart terminator.width (terminator.lines text) (position.line - 1) = 0 ↔
      position.line = 1 := by
  have hpos := h.line_pos
  constructor
  · intro hzero
    have hindex : position.line - 1 ≤ (terminator.lines text).length :=
      Nat.le_trans (Nat.sub_le _ _) h.line_le
    have hle := le_lineStart terminator.width_pos hindex
    omega
  · intro hline
    rw [hline]
    exact lineStart_zero _ _

/-- The first column of the line of a character names the character at the start of this line. -/
theorem Position.Names.first_column (h : position.Names terminator text offset) :
    Position.Names ⟨position.line, 1⟩ terminator text
      (lineStart terminator.width (terminator.lines text) (position.line - 1)) := by
  have hlt := h.offset_lt
  have hle : lineStart terminator.width (terminator.lines text) (position.line - 1) ≤ offset :=
    h.start_add ▸ Nat.le_add_right _ _
  exact ⟨h.line_pos, Nat.one_pos, Nat.lt_of_le_of_lt hle hlt, rfl, Nat.lt_of_le_of_lt hle h.lt_next⟩

/-- The sums for the ends of a flat mark: that for the last column reaches the limit exactly if the
mark ends at the greatest offset of all and starts on the first line, that for the last offset never
does. -/
theorem Mark.flat_sums (hflat : mark.line = none) (horder : mark.start ≤ mark.stop)
    (hstop : mark.stop < offsetLimit)
    (hstart : mark.IsAt (.ofText text terminator) position offset) :
    (offsetLimit ≤ position.column + (mark.stop - mark.start) ↔
        mark.stop + 1 = offsetLimit ∧ position.line = 1) ∧
      offset + (mark.stop - mark.start) < offsetLimit := by
  obtain ⟨hnames, hstarts⟩ := Mark.isAt_ofText_iff.mp hstart
  rw [Mark.StartsAt, hflat] at hstarts
  have hcolumn := hnames.column_pos
  have hadd := hnames.start_add
  -- the column is the offset of the start less that of its line, counted from one
  rw [← hnames.lineStart_eq_zero_iff]
  omega

/-- The sums for the ends of a mark by columns: that for the last column is the end of the mark,
that for the last offset is counted from the first character of the line. -/
theorem Mark.columns_sums {line : Nat} (hline : mark.line = some line)
    (horder : mark.start ≤ mark.stop)
    (hstart : mark.IsAt (.ofText text terminator) position offset) :
    position.column + (mark.stop - mark.start) = mark.stop ∧
      ∃ first, (LineTable.ofText text terminator).offset? ⟨line, 1⟩ = some first ∧
        offset + (mark.stop - mark.start) = first + (mark.stop - 1) ∧ (line = 1 → first = 0) := by
  obtain ⟨hnames, hstarts⟩ := Mark.isAt_ofText_iff.mp hstart
  rw [Mark.StartsAt, hline] at hstarts
  subst hstarts
  have hcolumn : 0 < mark.start := hnames.column_pos
  have hadd : lineStart terminator.width (terminator.lines text) (line - 1) + (mark.start - 1) =
      offset := hnames.start_add
  refine ⟨Nat.add_sub_of_le horder, _, LineTable.offset?_eq_some_iff.mpr hnames.first_column, ?_,
    hnames.lineStart_eq_zero_iff.mpr⟩
  show offset + _ = lineStart terminator.width (terminator.lines text) (line - 1) + _
  omega

end Text

/-- How the ends of a single mark, which starts at a position and an offset, are summed up, and when
no report is made because a sum reaches the limit of offsets. -/
structure Mark.EndsSummed (mark : Mark μ) (table : LineTable) (position : Position)
    (offset : Nat) : Prop where
  /-- Of a flat mark, only the sum for the last column can be too large: it is if the mark ends at
  the greatest offset of all and starts on the first line. -/
  of_flat : mark.line = none →
    (Report.ofMarks table [mark] = .error (.range .overflow) ↔
      mark.stop + 1 = offsetLimit ∧ position.line = 1) ∧
    offset + (mark.stop - mark.start) < offsetLimit
  /-- Of a mark by columns, only the sum for the last offset can be too large: it is if the columns
  before the end, counted from the first character of the line, reach the limit. On the first line
  they never do. -/
  of_columns : ∀ line, mark.line = some line →
    ∃ first, table.offset? ⟨line, 1⟩ = some first ∧
      (Report.ofMarks table [mark] = .error (.range .overflow) ↔
        offsetLimit ≤ first + (mark.stop - 1)) ∧
      (line = 1 → Report.ofMarks table [mark] ≠ .error (.range .overflow)) ∧
      position.column + (mark.stop - mark.start) < offsetLimit
  /-- In all other cases both records are made, with the exact sums. -/
  of_not_overflow : Report.ofMarks table [mark] ≠ .error (.range .overflow) →
    ∃ report, Report.ofMarks table [mark] = .ok report ∧
      report.editor = [⟨position.line, position.column,
        position.column + (mark.stop - mark.start), mark.message⟩] ∧
      report.flat = [⟨offset, offset + (mark.stop - mark.start), mark.message⟩] ∧
      position.column + (mark.stop - mark.start) < offsetLimit ∧
      offset + (mark.stop - mark.start) < offsetLimit

/-- **When the ends of a mark are too large.** Over the table of a text, for a mark with its bounds
in order and below the limit of offsets, whose start is found: a flat mark is lost exactly if it
ends at the greatest offset of all and starts on the first line, and a mark by columns exactly if
its end, counted from the first character of its line, reaches the limit. In all other cases both
records show the exact sums. -/
theorem Mark.endsSummed (text : Text) (terminator : Terminator) {mark : Mark μ}
    {position : Position} {offset : Nat} (horder : mark.start ≤ mark.stop)
    (hstop : mark.stop < offsetLimit)
    (hstart : mark.locate (.ofText text terminator) = .ok (position, offset)) :
    mark.EndsSummed (.ofText text terminator) position offset := by
  have hat := Mark.locate_eq_ok_iff_isAt.mp hstart
  have herror := Report.ofMarks_singleton_eq_error_iff horder hat
  refine ⟨?_, ?_, ?_⟩
  · intro hflat
    obtain ⟨hcolumn, hoffset⟩ := Mark.flat_sums hflat horder hstop hat
    refine ⟨?_, hoffset⟩
    rw [herror, or_iff_left (Nat.not_le.mpr hoffset), hcolumn]
  · intro line hline
    obtain ⟨hcolumn, first, hfirst, hoffset, hzero⟩ := Mark.columns_sums hline horder hat
    have hlate : ¬ offsetLimit ≤ mark.stop := Nat.not_le.mpr hstop
    rw [hcolumn, hoffset, or_iff_right hlate] at herror
    refine ⟨first, hfirst, herror, ?_, ?_⟩
    · intro hone
      rw [ne_eq, herror, hzero hone]
      omega
    · rw [hcolumn]
      exact hstop
  · intro hmade
    rw [ne_eq, herror, not_or, Nat.not_le, Nat.not_le] at hmade
    rw [Report.ofMarks_singleton horder hat, if_pos hmade]
    exact ⟨_, rfl, rfl, rfl, hmade⟩

/-- A flat mark that is lost on the first line, and one by columns that is lost on the second. -/
theorem Mark.endsSummed_greatest_end :
    let flat : Mark String := ⟨"flat", 1, 2 ^ 64 - 1, none⟩
    let columns : Mark String := ⟨"columns", 1, 2 ^ 64 - 1, some 2⟩
    (flat.start ≤ flat.stop ∧ flat.stop < offsetLimit ∧
      flat.locate (.ofText "a\nb".toList .lf) = .ok (⟨1, 2⟩, 1) ∧
      flat.EndsSummed (.ofText "a\nb".toList .lf) ⟨1, 2⟩ 1 ∧
      Report.ofMarks (.ofText "a\nb".toList .lf) [flat] = .error (.range .overflow)) ∧
    (columns.start ≤ columns.stop ∧ columns.stop < offsetLimit ∧
      columns.locate (.ofText "a\nb".toList .lf) = .ok (⟨2, 1⟩, 2) ∧
      columns.EndsSummed (.ofText "a\nb".toList .lf) ⟨2, 1⟩ 2 ∧
      Report.ofMarks (.ofText "a\nb".toList .lf) [columns] = .error (.range .overflow)) := by
  intro flat columns
  have hflat : flat.locate (.ofText "a\nb".toList .lf) = .ok (⟨1, 2⟩, 1) := by cbv
  have hcolumns : columns.locate (.ofText "a\nb".toList .lf) = .ok (⟨2, 1⟩, 2) := by cbv
  have hfirst : (LineTable.ofText "a\nb".toList .lf).offset? ⟨2, 1⟩ = some 2 := by cbv
  have hsummed : flat.EndsSummed (.ofText "a\nb".toList .lf) ⟨1, 2⟩ 1 :=
    Mark.endsSummed "a\nb".toList .lf (by decide) (by decide) hflat
  have hsummed' : columns.EndsSummed (.ofText "a\nb".toList .lf) ⟨2, 1⟩ 2 :=
    Mark.endsSummed "a\nb".toList .lf (by decide) (by decide) hcolumns
  refine ⟨⟨by decide, by decide, hflat, hsummed, ?_⟩, by decide, by decide, hcolumns, hsummed', ?_⟩
  · exact (hsummed.of_flat rfl).1.mpr ⟨rfl, rfl⟩
  · obtain ⟨first, hfound, hlost, -⟩ := hsummed'.of_columns 2 rfl
    rw [hfirst, Option.some.injEq] at hfound
    subst hfound
    exact hlost.mpr (by decide)

/-! ## Ends past the text -/

/-- A mark ends in the text of a table: its start is found, and the characters from there to its end
are no more than the text has. -/
def Mark.EndsIn (mark : Mark μ) (table : LineTable) : Prop :=
  ∃ position offset, mark.IsAt table position offset ∧
    offset + (mark.stop - mark.start) ≤ table.size

/-- A flat record lies in a text: it does not end past the text, and it reads as a part of it. -/
def FlatRecord.LiesIn (record : FlatRecord μ) (text : Text) : Prop :=
  record.endOffset ≤ text.length ∧ ∃ characters, record.read text = some characters

/-- The flat record of an entry lies in a text exactly if it does not end past it. -/
theorem Entry.liesIn_flat_iff {entry : Entry μ} {text : Text} :
    entry.flat.LiesIn text ↔ entry.offset + entry.length ≤ text.length := by
  refine ⟨And.left, fun hle => ⟨hle, ?_⟩⟩
  have hspan : entry.flat.span = .ok ⟨entry.offset, entry.length⟩ := by
    rw [FlatRecord.span, Entry.flat, Span.ofBounds_of_le (Nat.le_add_right _ _),
      Nat.add_sub_cancel_left]
  rw [FlatRecord.read, hspan]
  exact ⟨_, Span.read_of_le hle⟩

section Text

variable {terminator : Terminator} {text : Text}

/-- The flat record of a mark lies in the text exactly if the mark ends in it. -/
theorem Mark.liesIn_flat_iff {mark : Mark μ} {entry : Entry μ}
    (h : Entry.ofMark (.ofText text terminator) mark = .ok entry) :
    entry.flat.LiesIn text ↔ mark.EndsIn (.ofText text terminator) := by
  obtain ⟨-, hlocate, hlength, -⟩ := Entry.ofMark_eq_ok_iff.mp h
  rw [Entry.liesIn_flat_iff, hlength]
  constructor
  · intro hle
    exact ⟨_, _, Mark.locate_eq_ok_iff_isAt.mp hlocate, hle⟩
  · rintro ⟨position, offset, hat, hle⟩
    -- a mark starts at one offset only
    rw [Mark.locate_eq_ok_iff_isAt.mpr hat, Except.ok.injEq, Prod.mk.injEq] at hlocate
    rwa [← hlocate.2]

/-- **A report shows its marks wherever they end.** The flat record of every mark starts in the
text, and it lies in the text exactly if the mark ends there. -/
theorem Report.forall₂_liesIn_iff {marks : List (Mark μ)} {report : Report μ}
    (h : Report.ofMarks (.ofText text terminator) marks = .ok report) :
    List.Forall₂ (fun mark record => record.startOffset < text.length ∧
        (record.LiesIn text ↔ mark.EndsIn (.ofText text terminator))) marks report.flat := by
  rw [Report.flat, List.forall₂_map_right_iff]
  refine (Report.ofMarks_eq_ok_iff.mp h).imp fun mark entry hentry => ?_
  exact ⟨(Entry.ofMark_ofText_iff.mp hentry).1.names.offset_lt, Mark.liesIn_flat_iff hentry⟩

end Text

/-- **When all that a report shows lies in the text.** The end of a mark is not looked up. So all
flat records of a report lie in the text, and can be read there, exactly if all marks end in the
text, or some mark is refused for another reason and no report is made. -/
theorem Report.forall_liesIn_iff (text : Text) (terminator : Terminator) (marks : List (Mark μ)) :
    (∀ report, Report.ofMarks (.ofText text terminator) marks = .ok report →
        ∀ record ∈ report.flat, record.LiesIn text) ↔
      (∃ mark ∈ marks, ¬ mark.Acceptable (.ofText text terminator)) ∨
        ∀ mark ∈ marks, mark.EndsIn (.ofText text terminator) := by
  constructor
  · intro h
    by_cases hall : ∀ mark ∈ marks, mark.Acceptable (.ofText text terminator)
    · obtain ⟨report, hreport⟩ := Report.exists_ofMarks_iff.mpr hall
      refine .inr fun mark hmem => ?_
      obtain ⟨record, hrecord, -, hiff⟩ :=
        exists_of_mem_forall₂ (Report.forall₂_liesIn_iff hreport).flip hmem
      exact hiff.mp (h report hreport record hrecord)
    · push Not at hall
      exact .inl hall
  · rintro (⟨mark, hmem, hrefused⟩ | hends) report hreport record hrecord
    · exact absurd (Report.exists_ofMarks_iff.mp ⟨report, hreport⟩ mark hmem) hrefused
    · obtain ⟨mark, hmem, -, hiff⟩ :=
        exists_of_mem_forall₂ (Report.forall₂_liesIn_iff hreport) hrecord
      exact hiff.mpr (hends mark hmem)

/-- A mark that starts at the last character and ends past the text has a report, whose record
cannot be read. -/
theorem Report.not_forall_liesIn_past_end :
    ¬ ∀ report, Report.ofMarks (.ofText "ab".toList .lf)
        [(⟨"x", 1, 5, none⟩ : Mark String)] = .ok report →
      ∀ record ∈ report.flat, record.LiesIn "ab".toList := by
  intro h
  have hreport : Report.ofMarks (.ofText "ab".toList .lf) [(⟨"x", 1, 5, none⟩ : Mark String)] =
      .ok ⟨[⟨⟨1, 2⟩, 1, 4, "x"⟩]⟩ := by cbv
  obtain ⟨hle, -⟩ := h _ hreport ⟨1, 5, "x"⟩ (List.mem_singleton.mpr rfl)
  exact absurd hle (by decide)

end SpanReport
