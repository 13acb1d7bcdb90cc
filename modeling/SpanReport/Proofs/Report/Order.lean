import SpanReport.Proofs.Report.RoundTrip

/-! # The order of positions

Positions are ordered by line and then by column. This is the order of the characters that they name
(`Position.Names.lt_iff_lt`): the lines of a text follow one another, and so do the columns of a
line, those of its terminator included. So both look-ups of a line table keep the order, and a
report of flat marks shows them by position as the marks stand by offset
(`Report.editor_inOrder`). -/

namespace SpanReport

/-! ## Comparing positions -/

namespace Position

variable {p q : Position}

/-- Of two positions, one precedes the other, unless they are the same. -/
theorem lt_trichotomy (p q : Position) : p < q ∨ p = q ∨ q < p := by
  obtain ⟨pline, pcolumn⟩ := p
  obtain ⟨qline, qcolumn⟩ := q
  simp only [lt_def, Position.mk.injEq]
  omega

/-- A position precedes another or equals it exactly if the other one does not precede it. -/
theorem le_iff_not_lt : p ≤ q ↔ ¬ q < p := by
  rw [le_def, lt_def]
  omega

variable {terminator : Terminator} {text : Text} {first second : Nat}

/-- An earlier position names an earlier character. -/
theorem Names.lt_of_lt (hp : p.Names terminator text first) (hq : q.Names terminator text second)
    (h : p < q) : first < second := by
  have hp_add := hp.start_add
  have hq_add := hq.start_add
  have hp_pos := hp.column_pos
  rcases lt_def.mp h with hline | ⟨hline, hcolumn⟩
  · -- the line of `p` ends before that of `q` starts
    have hle := lineStart_le_lineStart terminator.width (terminator.lines text)
      (Nat.le_sub_one_of_lt hline)
    have hnext := hp.lt_next
    omega
  · rw [hline] at hp_add
    omega

/-- **Positions are in the order of the characters that they name.** -/
theorem Names.lt_iff_lt (hp : p.Names terminator text first)
    (hq : q.Names terminator text second) : p < q ↔ first < second := by
  refine ⟨hp.lt_of_lt hq, fun h => ?_⟩
  -- neither of the other two cases agrees with the order of the characters
  rcases lt_trichotomy p q with hlt | rfl | hgt
  · exact hlt
  · have hp_add := hp.start_add
    have hq_add := hq.start_add
    omega
  · exact absurd (hq.lt_of_lt hp hgt) (Nat.lt_asymm h)

/-- A position that does not come after another names a character that does not either. -/
theorem Names.le_iff_le (hp : p.Names terminator text first)
    (hq : q.Names terminator text second) : p ≤ q ↔ first ≤ second := by
  rw [le_iff_not_lt, hq.lt_iff_lt hp, Nat.not_lt]

end Position

/-! ## Look-ups -/

/-- Both look-ups of a table keep the order. -/
structure LineTable.InOrder (table : LineTable) : Prop where
  /-- All offsets below the size have positions, and these are in the order of the offsets. -/
  position_lt_iff : ∀ first < table.size, ∀ second < table.size, ∃ p q,
    table.position first = .ok p ∧ table.position second = .ok q ∧ (first < second ↔ p < q)
  /-- The offsets that positions have are in the order of the positions. -/
  offset?_lt_iff : ∀ p q first second, table.offset? p = some first →
    table.offset? q = some second → (p < q ↔ first < second)

/-- The look-ups of the table of a text keep the order. -/
theorem LineTable.inOrder_ofText (text : Text) (terminator : Terminator) :
    (ofText text terminator).InOrder where
  position_lt_iff first hfirst second hsecond := by
    obtain ⟨p, hp, hp_names⟩ := position_ofText_names terminator hfirst
    obtain ⟨q, hq, hq_names⟩ := position_ofText_names terminator hsecond
    exact ⟨p, q, hp, hq, (hp_names.lt_iff_lt hq_names).symm⟩
  offset?_lt_iff p q first second hp hq :=
    (offset?_eq_some_iff.mp hp).lt_iff_lt (offset?_eq_some_iff.mp hq)

/-! ## Reports -/

variable {μ : Type}

/-- The position at which an editor record starts. -/
def EditorRecord.position (record : EditorRecord μ) : Position :=
  ⟨record.line, record.startColumn⟩

section Report

variable {terminator : Terminator} {text : Text} {marks : List (Mark μ)} {report : Report μ}

/-- The entries of a report of flat marks start at the offsets of the marks. -/
theorem Report.map_offset_entries (hflat : ∀ mark ∈ marks, mark.line = none)
    (h : Report.ofMarks (.ofText text terminator) marks = .ok report) :
    report.entries.map Entry.offset = marks.map Mark.start := by
  have hrecords := congrArg (List.map FlatRecord.startOffset) (Report.flat_ofMarks hflat h)
  rwa [Report.flat, List.map_map, List.map_map] at hrecords

/-- A relation of positions that comes down to one of the offsets that they name holds throughout a
report of flat marks exactly if the latter holds throughout the marks. -/
theorem Report.pairwise_editor_iff {r : Nat → Nat → Prop} {s : Position → Position → Prop}
    (hrs : ∀ {p q first second}, p.Names terminator text first → q.Names terminator text second →
      (s p q ↔ r first second))
    (hflat : ∀ mark ∈ marks, mark.line = none)
    (h : Report.ofMarks (.ofText text terminator) marks = .ok report) :
    report.editor.Pairwise (fun earlier later => s earlier.position later.position) ↔
      marks.Pairwise fun earlier later => r earlier.start later.start := by
  rw [← List.pairwise_map (f := Mark.start), ← Report.map_offset_entries hflat h,
    List.pairwise_map, Report.editor, List.pairwise_map]
  refine List.Pairwise.iff_of_mem fun hearlier hlater => ?_
  exact hrs (Report.placed_of_mem h hearlier).names (Report.placed_of_mem h hlater).names

end Report

/-- **Positions keep the order of offsets.** Over the table of a text, an offset precedes another
exactly if its position does, and the other way round for the positions that name a character. So a
report of flat marks shows them in the order of their positions exactly if the marks stand in the
order of their starts, strictly or not, and such marks can be reported. -/
theorem Report.editor_inOrder (text : Text) (terminator : Terminator) :
    (LineTable.ofText text terminator).InOrder ∧
      ∀ marks : List (Mark μ), (∀ mark ∈ marks, mark.line = none) →
        (∀ report, Report.ofMarks (.ofText text terminator) marks = .ok report →
          (report.editor.Pairwise (·.position ≤ ·.position) ↔ marks.Pairwise (·.start ≤ ·.start)) ∧
          (report.editor.Pairwise (·.position < ·.position) ↔
            marks.Pairwise (·.start < ·.start))) ∧
        ((∀ mark ∈ marks, mark.start ≤ mark.stop ∧ mark.start < text.length ∧
            mark.stop + 1 < offsetLimit) →
          ∃ report, Report.ofMarks (.ofText text terminator) marks = .ok report) := by
  refine ⟨LineTable.inOrder_ofText text terminator, fun marks hflat => ⟨fun report hreport => ?_,
    fun hmarks => ?_⟩⟩
  · exact ⟨Report.pairwise_editor_iff Position.Names.le_iff_le hflat hreport,
      Report.pairwise_editor_iff Position.Names.lt_iff_lt hflat hreport⟩
  · refine Report.exists_ofMarks fun mark hmem => ?_
    obtain ⟨horder, hstart, hstop⟩ := hmarks mark hmem
    exact Entry.exists_ofMark_flat terminator (hflat mark hmem) horder hstart hstop

/-- Marks in a line, in its terminator and behind it, in order and out of order. -/
theorem Report.editor_inOrder_terminator :
    (∃ report, Report.ofMarks (.ofText "a\r\n\r\nb".toList .crlf)
        [⟨"x", 0, 5, none⟩, ⟨"y", 2, 2, none⟩, ⟨"z", 3, 4, none⟩] = .ok report ∧
      report.editor.Pairwise (·.position < ·.position)) ∧
    ∃ report, Report.ofMarks (.ofText "a\r\n\r\nb".toList .crlf)
        [⟨"y", 2, 2, none⟩, ⟨"x", 0, 5, none⟩, ⟨"z", 3, 4, none⟩] = .ok report ∧
      ¬ report.editor.Pairwise (·.position ≤ ·.position) := by
  obtain ⟨-, hmarks⟩ := @Report.editor_inOrder String "a\r\n\r\nb".toList .crlf
  constructor
  · obtain ⟨horder, hreport⟩ := hmarks
      [⟨"x", 0, 5, none⟩, ⟨"y", 2, 2, none⟩, ⟨"z", 3, 4, none⟩] (by decide)
    obtain ⟨report, hreport⟩ := hreport (by decide)
    exact ⟨report, hreport, (horder report hreport).2.mpr (by decide)⟩
  · obtain ⟨horder, hreport⟩ := hmarks
      [⟨"y", 2, 2, none⟩, ⟨"x", 0, 5, none⟩, ⟨"z", 3, 4, none⟩] (by decide)
    obtain ⟨report, hreport⟩ := hreport (by decide)
    refine ⟨report, hreport, fun hpairwise => ?_⟩
    exact absurd ((horder report hreport).1.mp hpairwise) (by decide)

example : (LineTable.ofText "a\r\n\r\nb".toList .crlf).position 2 = .ok ⟨1, 3⟩ ∧
    (LineTable.ofText "a\r\n\r\nb".toList .crlf).position 3 = .ok ⟨2, 1⟩ := by cbv

end SpanReport
