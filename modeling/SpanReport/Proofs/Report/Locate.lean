import SpanReport.Proofs.Line.Lookup
import SpanReport.Proofs.Report.Entry

/-! # Marks over a text

A mark starts where a table finds its first character (`Mark.IsAt`). Over the line table of a text,
a mark has an entry exactly if the mark tells that entry and the entry lies in the text
(`Entry.ofMark_ofText_iff`). A mark may tell an entry in two ways, by its position or by its offset;
which of them it uses makes no difference. So a flat mark that starts in the text has an entry,
unless it ends at the limit of offsets (`Entry.exists_ofMark_flat`). -/

namespace SpanReport

variable {μ : Type} {terminator : Terminator} {text : Text}

/-! ## Where a mark starts -/

/-- No column is further on than its offset. -/
theorem Position.Names.column_le {position : Position} {offset : Nat}
    (h : position.Names terminator text offset) : position.column ≤ offset + 1 := by
  have hadd := h.start_add
  omega

/-- A mark starts at a character: a flat mark at its offset, any other one at its position. -/
def Mark.StartsAt (mark : Mark μ) (position : Position) (offset : Nat) : Prop :=
  match mark.line with
  | none => mark.start = offset
  | some line => ⟨line, mark.start⟩ = position

/-- Where a table finds the first character of a mark: a flat mark tells the offset, any other one
the position, and the other coordinate is looked up. -/
def Mark.IsAt (table : LineTable) (mark : Mark μ) (position : Position) (offset : Nat) : Prop :=
  match mark.line with
  | none => table.position mark.start = .ok position ∧ mark.start = offset
  | some line => table.offset? ⟨line, mark.start⟩ = some offset ∧ ⟨line, mark.start⟩ = position

/-- The place of a mark is where the table finds its first character. -/
theorem Mark.locate_eq_ok_iff_isAt {table : LineTable} {mark : Mark μ} {position : Position}
    {offset : Nat} :
    mark.locate table = .ok (position, offset) ↔ mark.IsAt table position offset := by
  rw [Mark.locate, Mark.IsAt]
  cases mark.line with
  | none =>
      simp only [map_eq_ok_iff, Prod.mk.injEq]
      constructor
      · rintro ⟨_, hposition, rfl, hoffset⟩
        exact ⟨hposition, hoffset⟩
      · rintro ⟨hposition, hoffset⟩
        exact ⟨position, hposition, rfl, hoffset⟩
  | some line =>
      simp only [map_eq_ok_iff, Prod.mk.injEq, LineTable.offset_eq_ok_iff_offset?]
      constructor
      · rintro ⟨_, hoffset, hposition, rfl⟩
        exact ⟨hoffset, hposition⟩
      · rintro ⟨hoffset, hposition⟩
        exact ⟨offset, hoffset, hposition, rfl⟩

/-- **The place of a mark** is the character at which it starts, by position and by offset. -/
theorem Mark.locate_eq_ok_iff {mark : Mark μ} {position : Position} {offset : Nat} :
    mark.locate (.ofText text terminator) = .ok (position, offset) ↔
      position.Names terminator text offset ∧ mark.StartsAt position offset := by
  rw [Mark.locate_eq_ok_iff_isAt, Mark.IsAt, Mark.StartsAt]
  -- the two kinds of marks are looked up in opposite directions
  cases mark.line with
  | none =>
      refine and_congr_left fun hoffset => ?_
      rw [hoffset, LineTable.position_eq_ok_iff]
  | some line =>
      refine and_congr_left fun hposition => ?_
      rw [hposition, LineTable.offset?_eq_some_iff]

/-! ## The entry that a mark tells -/

/-- An entry lies in a text: its position names the character at its offset, and both its ends are
below the limit of offsets. They may lie past the end of the text. -/
structure Entry.Placed (entry : Entry μ) (terminator : Terminator) (text : Text) : Prop where
  /-- The position names the character at the offset. -/
  names : entry.position.Names terminator text entry.offset
  /-- The last column can be written. -/
  endColumn_lt : entry.position.column + entry.length < offsetLimit
  /-- The last offset can be written. -/
  endOffset_lt : entry.offset + entry.length < offsetLimit

/-- A mark tells an entry: it starts at the character of the entry, by whichever of its coordinates,
its bounds are as far apart as the entry is long, and it says the same. -/
structure Mark.Tells (mark : Mark μ) (entry : Entry μ) : Prop where
  /-- The mark starts where the entry does. -/
  startsAt : mark.StartsAt entry.position entry.offset
  /-- The bounds of the mark are in order, and as far apart as the entry is long. -/
  stop_eq : mark.stop = mark.start + entry.length
  /-- The message of the entry is that of the mark. -/
  message_eq : mark.message = entry.message

/-- **A mark has an entry** over the table of a text exactly if the entry lies in the text and the
mark tells it. -/
theorem Entry.ofMark_ofText_iff {mark : Mark μ} {entry : Entry μ} :
    Entry.ofMark (.ofText text terminator) mark = .ok entry ↔
      entry.Placed terminator text ∧ mark.Tells entry := by
  rw [Entry.ofMark_eq_ok_iff, Mark.locate_eq_ok_iff]
  constructor
  · rintro ⟨horder, ⟨hnames, hstarts⟩, hlength, hmessage, hcolumn, hoffset⟩
    exact ⟨⟨hnames, hcolumn, hoffset⟩, hstarts, by omega, hmessage.symm⟩
  · rintro ⟨⟨hnames, hcolumn, hoffset⟩, hstarts, hstop, hmessage⟩
    exact ⟨by omega, ⟨hnames, hstarts⟩, by omega, hmessage.symm, hcolumn, hoffset⟩

/-- An entry within the text is placed if its position names the character at its offset. -/
theorem Entry.placed_of_le (hsize : text.length + 1 < offsetLimit) {entry : Entry μ}
    (hnames : entry.position.Names terminator text entry.offset)
    (hstop : entry.offset + entry.length ≤ text.length) : entry.Placed terminator text := by
  have hcolumn := hnames.column_le
  exact ⟨hnames, by omega, by omega⟩

/-- A flat mark that starts in the text has an entry, at the position of its first character, unless
it ends at the limit of offsets. -/
theorem Entry.exists_ofMark_flat (terminator : Terminator) {mark : Mark μ}
    (hflat : mark.line = none) (horder : mark.start ≤ mark.stop) (hstart : mark.start < text.length)
    (hstop : mark.stop + 1 < offsetLimit) :
    ∃ entry, Entry.ofMark (.ofText text terminator) mark = .ok entry := by
  obtain ⟨position, -, hnames⟩ := LineTable.position_ofText_names terminator hstart
  have hcolumn := hnames.column_le
  have hlength : mark.start + (mark.stop - mark.start) = mark.stop := by omega
  have hstarts : mark.StartsAt position mark.start := by rw [Mark.StartsAt, hflat]
  refine ⟨⟨position, mark.start, mark.stop - mark.start, mark.message⟩, ?_⟩
  rw [Entry.ofMark_ofText_iff]
  refine ⟨⟨hnames, ?_, ?_⟩, hstarts, hlength.symm, rfl⟩
  · show position.column + (mark.stop - mark.start) < offsetLimit
    omega
  · show mark.start + (mark.stop - mark.start) < offsetLimit
    omega

/-! ## Reports of flat marks -/

/-- The record of a flat mark, taken as it is. -/
def FlatRecord.ofMark (mark : Mark μ) : FlatRecord μ :=
  ⟨mark.start, mark.stop, mark.message⟩

/-- The flat record of an entry is the mark that tells it, if that one is flat. -/
theorem Mark.Tells.flat_eq {mark : Mark μ} {entry : Entry μ} (h : mark.Tells entry)
    (hflat : mark.line = none) : entry.flat = .ofMark mark := by
  have hstart := h.startsAt
  rw [Mark.StartsAt, hflat] at hstart
  rw [FlatRecord.ofMark, Entry.flat, ← hstart, ← h.stop_eq, h.message_eq]

section Report

variable {α : Type} {mark : α → Mark μ} {items : List α}

/-- **A report of flat marks shows them as they are.** -/
theorem Report.flat_ofMarks {marks : List (Mark μ)} {report : Report μ}
    (hflat : ∀ mark ∈ marks, mark.line = none)
    (h : Report.ofMarks (.ofText text terminator) marks = .ok report) :
    report.flat = marks.map .ofMark := by
  have hentries := (List.forall₂_and_left ..).mpr ⟨hflat, Report.ofMarks_eq_ok_iff.mp h⟩
  rw [Report.flat, ← List.forall₂_eq_eq_eq, List.forall₂_map_left_iff, List.forall₂_map_right_iff]
  refine hentries.flip.imp fun entry mark hentry => ?_
  exact (Entry.ofMark_ofText_iff.mp hentry.2).2.flat_eq hentry.1

/-- Flat marks within the text can be reported. -/
theorem Report.exists_ofMarks_flat (terminator : Terminator) (hsize : text.length + 1 < offsetLimit)
    (hflat : ∀ item, (mark item).line = none)
    (hbounds : ∀ item ∈ items,
      (mark item).start < (mark item).stop ∧ (mark item).stop ≤ text.length) :
    ∃ report, Report.ofMarks (.ofText text terminator) (items.map mark) = .ok report := by
  refine Report.exists_ofMarks fun found hmem => ?_
  obtain ⟨item, hitem, rfl⟩ := List.mem_map.mp hmem
  obtain ⟨horder, hstop⟩ := hbounds item hitem
  exact Entry.exists_ofMark_flat terminator (hflat item) (Nat.le_of_lt horder) (by omega) (by omega)

end Report

end SpanReport
