import SpanReport.Proofs.Report.Locate

/-! # Stretches of lines

A `Stretch` is a range of columns of one line, the form in which both detectors find what they flag.
A stretch that lies in a line of the text has an entry, whether it is marked by its columns or by
its offsets (`Stretch.ofMark_columnMark`, `Stretch.ofMark_flatMark`), and both records of that entry
read as the characters of the stretch (`Stretch.read_editor`, `Stretch.read_flat`). So both views of
a report of stretches read alike (`Report.readsAlike_map_entry`). -/

namespace SpanReport

variable {μ : Type}

/-! ## What records read as -/

/-- The characters that an editor record covers; none unless its line is one of `lines` and has a
character at all its columns. -/
def EditorRecord.read (record : EditorRecord μ) (lines : List Text) : Option Text :=
  match record.line, record.startColumn with
  | index + 1, first + 1 =>
    lines[index]?.bind fun line => Span.read ⟨first, record.endColumn - (first + 1)⟩ line
  | _, _ => none

/-- The characters that a flat record covers; none unless the text has a character at all its
offsets. -/
def FlatRecord.read (record : FlatRecord μ) (text : Text) : Option Text :=
  record.span.toOption.bind fun span => span.read text

/-! ## Stretches -/

/-- A range of columns of a line, where line and columns are counted from zero. -/
structure Stretch where
  /-- The index of the line. -/
  index : Nat
  /-- The columns. -/
  columns : Span
  deriving DecidableEq, Repr

namespace Stretch

/-- The stretch covers at least one character of one of the lines, and nothing past its end. -/
def Within (stretch : Stretch) (lines : List Text) : Prop :=
  0 < stretch.columns.length ∧ ∃ line, lines[stretch.index]? = some line ∧
    stretch.columns.base + stretch.columns.length ≤ line.length

/-- The stretch ends before another one starts, with something in between: a character of their
line, or a line boundary. -/
def Precedes (earlier later : Stretch) : Prop :=
  earlier.index < later.index ∨ (earlier.index = later.index ∧
    earlier.columns.base + earlier.columns.length < later.columns.base)

/-- The position of the first character. -/
def position (stretch : Stretch) : Position :=
  ⟨stretch.index + 1, stretch.columns.base + 1⟩

/-- The offset of the first character, with `width` characters at every boundary of the lines. -/
def offset (width : Nat) (lines : List Text) (stretch : Stretch) : Nat :=
  lineStart width lines stretch.index + stretch.columns.base

/-- The characters of the stretch. -/
def read (stretch : Stretch) (lines : List Text) : Option Text :=
  lines[stretch.index]?.bind stretch.columns.read

/-- The entry of the stretch in a report. -/
def entry (width : Nat) (lines : List Text) (message : μ) (stretch : Stretch) : Entry μ :=
  ⟨stretch.position, stretch.offset width lines, stretch.columns.length, message⟩

/-- The mark of the stretch by its columns. -/
def columnMark (message : μ) (stretch : Stretch) : Mark μ :=
  ⟨message, stretch.columns.base + 1, stretch.columns.base + 1 + stretch.columns.length,
    some (stretch.index + 1)⟩

/-- The mark of the stretch by its offsets. -/
def flatMark (width : Nat) (lines : List Text) (message : μ) (stretch : Stretch) : Mark μ :=
  ⟨message, stretch.offset width lines, stretch.offset width lines + stretch.columns.length, none⟩

section Lines

variable {stretch : Stretch} {terminator : Terminator} {text : Text}

/-- A stretch of a line has all its characters. -/
theorem exists_read_eq_some {lines : List Text} (h : stretch.Within lines) :
    ∃ characters, stretch.read lines = some characters := by
  obtain ⟨-, line, hline, hle⟩ := h
  have hread := Span.read_of_le hle
  exact ⟨_, by rw [read, hline, Option.bind_some, hread]⟩

/-- A stretch of a line of the text ends within the text. -/
theorem offset_add_length_le (h : stretch.Within (terminator.lines text)) :
    stretch.offset terminator.width (terminator.lines text) + stretch.columns.length ≤
      text.length := by
  obtain ⟨-, line, hline, hle⟩ := h
  have hend := Terminator.lineStart_add_length_le hline
  rw [offset]
  omega

/-- The position of a stretch names its first character. -/
theorem position_names (h : stretch.Within (terminator.lines text)) :
    stretch.position.Names terminator text
      (stretch.offset terminator.width (terminator.lines text)) := by
  have hend := offset_add_length_le h
  obtain ⟨hpos, line, hline, hle⟩ := h
  refine ⟨Nat.succ_pos _, Nat.succ_pos _, by omega, rfl, ?_⟩
  rw [position, lineStart_succ terminator.width hline, offset]
  omega

/-- The columns of a stretch are no more than the text has characters. -/
theorem columns_le (h : stretch.Within (terminator.lines text)) :
    stretch.columns.base + stretch.columns.length ≤ text.length := by
  obtain ⟨-, line, hline, hle⟩ := h
  have hend := Terminator.lineStart_add_length_le hline
  omega

/-- The marks of a stretch have their bounds in order and below the limit of offsets. -/
theorem bounds_columnMark (h : stretch.Within (terminator.lines text))
    (hsize : text.length + 1 < offsetLimit) (message : μ) :
    (stretch.columnMark message).start ≤ (stretch.columnMark message).stop ∧
      (stretch.columnMark message).stop < offsetLimit := by
  have hcolumns := columns_le h
  rw [columnMark]
  simp only
  omega

/-- The entry of a stretch of the text lies in the text. -/
theorem placed_entry (h : stretch.Within (terminator.lines text))
    (hsize : text.length + 1 < offsetLimit) (message : μ) :
    (stretch.entry terminator.width (terminator.lines text) message).Placed terminator text :=
  Entry.placed_of_le hsize (position_names h) (offset_add_length_le h)

/-- A stretch that is marked by its columns has its entry. -/
theorem ofMark_columnMark (h : stretch.Within (terminator.lines text))
    (hsize : text.length + 1 < offsetLimit) (message : μ) :
    Entry.ofMark (.ofText text terminator) (stretch.columnMark message) =
      .ok (stretch.entry terminator.width (terminator.lines text) message) :=
  Entry.ofMark_ofText_iff.mpr ⟨placed_entry h hsize message, rfl, rfl, rfl⟩

/-- No other entry belongs to the mark of its columns. -/
theorem eq_entry_of_ofMark_columnMark {message : μ} {entry : Entry μ}
    (h : Entry.ofMark (.ofText text terminator) (stretch.columnMark message) = .ok entry) :
    entry = stretch.entry terminator.width (terminator.lines text) message := by
  obtain ⟨hplaced, hstarts, hstop, hmessage⟩ := Entry.ofMark_ofText_iff.mp h
  obtain ⟨position, offset, length, said⟩ := entry
  -- the columns of the mark give the position, and the position has a single offset
  have hposition : stretch.position = position := hstarts
  have hoffset : stretch.offset terminator.width (terminator.lines text) = offset := by
    have hadd := hplaced.names.start_add
    simp only [← hposition, Stretch.position, Nat.add_sub_cancel] at hadd
    exact hadd
  have hlength : stretch.columns.length = length := by
    simp only [columnMark] at hstop
    omega
  have hsaid : message = said := hmessage
  rw [Stretch.entry, hposition, hoffset, hlength, hsaid]

/-- A stretch that is marked by its offsets has the same entry. -/
theorem ofMark_flatMark (h : stretch.Within (terminator.lines text))
    (hsize : text.length + 1 < offsetLimit) (message : μ) :
    Entry.ofMark (.ofText text terminator)
        (stretch.flatMark terminator.width (terminator.lines text) message) =
      .ok (stretch.entry terminator.width (terminator.lines text) message) :=
  Entry.ofMark_ofText_iff.mpr ⟨placed_entry h hsize message, rfl, rfl, rfl⟩

/-- The editor record of a stretch reads as its characters. -/
theorem read_editor (width : Nat) (lines : List Text) (message : μ) (stretch : Stretch) :
    (stretch.entry width lines message).editor.read lines = stretch.read lines := by
  rw [EditorRecord.read, Entry.editor, entry, position]
  simp only [Nat.add_sub_cancel_left]
  rfl

/-- The flat record of a stretch covers as many offsets as the stretch has columns. -/
theorem span_flat (width : Nat) (lines : List Text) (message : μ) (stretch : Stretch) :
    (stretch.entry width lines message).flat.span =
      .ok ⟨stretch.offset width lines, stretch.columns.length⟩ := by
  rw [FlatRecord.span, Entry.flat, entry, Span.ofBounds_of_le (Nat.le_add_right _ _)]
  simp only [Nat.add_sub_cancel_left]

/-- **The flat record of a stretch reads as its characters**, although it counts in offsets of the
text. -/
theorem read_flat (h : stretch.Within (terminator.lines text)) (message : μ) :
    (stretch.entry terminator.width (terminator.lines text) message).flat.read text =
      stretch.read (terminator.lines text) := by
  obtain ⟨-, line, hline, hle⟩ := h
  have hread := read_intercalate terminator.chars hline hle
  rw [terminator.intercalate_lines, terminator.length_chars] at hread
  rw [FlatRecord.read, span_flat, read, hline]
  exact hread

/-- Of two stretches of the text, the flat range of the earlier one ends before that of the later
one. -/
theorem offset_lt_of_precedes {earlier later : Stretch}
    (hearlier : earlier.Within (terminator.lines text)) (h : earlier.Precedes later) :
    earlier.offset terminator.width (terminator.lines text) + earlier.columns.length <
      later.offset terminator.width (terminator.lines text) := by
  obtain ⟨-, line, hline, hle⟩ := hearlier
  rw [offset, offset]
  obtain hindex | ⟨hindex, hcolumns⟩ := h
  · have hindex' : earlier.index + 1 ≤ later.index := hindex
    have hmono := lineStart_le_lineStart terminator.width (terminator.lines text) hindex'
    have hnext := lineStart_succ terminator.width hline
    have hpos := terminator.width_pos
    omega
  · rw [← hindex]
    omega

end Lines

/-! ## The stretches of all lines -/

/-- The stretches that `spans` finds in each of the lines. -/
def ofLines (spans : Text → List Span) (lines : List Text) : List Stretch :=
  lines.zipIdx.flatMap fun (line, index) => (spans line).map (Stretch.mk index)

section OfLines

variable {spans : Text → List Span} {lines : List Text}

/-- A stretch is found in the line that it names. -/
theorem mem_ofLines_iff {stretch : Stretch} :
    stretch ∈ ofLines spans lines ↔
      ∃ line, lines[stretch.index]? = some line ∧ stretch.columns ∈ spans line := by
  simp only [ofLines, List.mem_flatMap, List.mem_map, Prod.exists, List.mem_zipIdx_iff_getElem?]
  constructor
  · rintro ⟨line, index, hline, span, hspan, rfl⟩
    exact ⟨line, hline, hspan⟩
  · rintro ⟨line, hline, hspan⟩
    exact ⟨line, stretch.index, hline, stretch.columns, hspan, rfl⟩

/-- Stretches lie within their lines if the spans that are found in a line do. -/
theorem within_of_mem_ofLines
    (hspans : ∀ line, ∀ span ∈ spans line,
      0 < span.length ∧ span.base + span.length ≤ line.length)
    {stretch : Stretch} (h : stretch ∈ ofLines spans lines) : stretch.Within lines := by
  obtain ⟨line, hline, hmem⟩ := mem_ofLines_iff.mp h
  obtain ⟨hpos, hle⟩ := hspans line _ hmem
  exact ⟨hpos, line, hline, hle⟩

/-- Stretches are found in the order of the text if the spans of every line are. -/
theorem pairwise_precedes_ofLines
    (hspans : ∀ line, (spans line).Pairwise fun earlier later =>
      earlier.base + earlier.length < later.base) :
    (ofLines spans lines).Pairwise Precedes := by
  -- within a line the spans are in order, across lines the indices are
  have hlines : lines.zipIdx.Pairwise fun earlier later => earlier.2 < later.2 := by
    rw [← List.pairwise_map (f := Prod.snd), List.zipIdx_map_snd]
    exact List.pairwise_lt_range'
  rw [ofLines, List.pairwise_flatMap]
  refine ⟨fun ⟨line, index⟩ _ => ?_, hlines.imp fun hindex => ?_⟩
  · rw [List.pairwise_map]
    exact (hspans line).imp fun hcolumns => .inr ⟨rfl, hcolumns⟩
  · intro earlier hearlier later hlater
    obtain ⟨_, -, rfl⟩ := List.mem_map.mp hearlier
    obtain ⟨_, -, rfl⟩ := List.mem_map.mp hlater
    exact .inl hindex

/-- The stretch, so many lines further down. -/
def lower (count : Nat) (stretch : Stretch) : Stretch :=
  { stretch with index := count + stretch.index }

/-- In lines that are put after others, the same stretches are found further down. -/
theorem ofLines_append (spans : Text → List Span) (earlier later : List Text) :
    ofLines spans (earlier ++ later) =
      ofLines spans earlier ++ (ofLines spans later).map (lower earlier.length) := by
  have hlower (line : Text) (index : Nat) :
      (spans line).map (Stretch.mk (earlier.length + index)) =
        ((spans line).map (Stretch.mk index)).map (lower earlier.length) := by
    rw [List.map_map]
    rfl
  rw [ofLines, ofLines, ofLines, List.zipIdx_append, List.flatMap_append, List.map_flatMap]
  rw [Nat.zero_add, List.zipIdx_eq_map_add (i := earlier.length), List.flatMap_map]
  simp only [hlower]

end OfLines

end Stretch

/-! ## Reports of stretches -/

namespace Report

/-- The flat records of a report lie in the text, cover at least one character each, and follow one
another with a gap. -/
structure InOrder (report : Report μ) (text : Text) : Prop where
  /-- No record is empty. -/
  start_lt_end : ∀ record ∈ report.flat, record.startOffset < record.endOffset
  /-- No record ends past the text. -/
  end_le_length : ∀ record ∈ report.flat, record.endOffset ≤ text.length
  /-- Every record ends before the later ones start. -/
  end_lt_start : report.flat.Pairwise fun earlier later => earlier.endOffset < later.startOffset

/-- Both records of every diagnostic read as the same characters, the editor record in its line and
the flat record in the text. -/
def ReadsAlike (report : Report μ) (lines : List Text) (text : Text) : Prop :=
  List.Forall₂ (fun editor flat => ∃ characters,
    editor.read lines = some characters ∧ flat.read text = some characters)
    report.editor report.flat

variable {terminator : Terminator} {text : Text} {stretches : List Stretch}

/-- The entries of stretches that precede one another are in order. -/
theorem inOrder_map_entry (hwithin : ∀ stretch ∈ stretches, stretch.Within (terminator.lines text))
    (hpairwise : stretches.Pairwise Stretch.Precedes) (message : μ) :
    Report.InOrder ⟨stretches.map
      (Stretch.entry terminator.width (terminator.lines text) message)⟩ text where
  start_lt_end record hmem := by
    rw [Report.flat, List.map_map] at hmem
    obtain ⟨stretch, hstretch, rfl⟩ := List.mem_map.mp hmem
    exact Nat.lt_add_of_pos_right (hwithin stretch hstretch).1
  end_le_length record hmem := by
    rw [Report.flat, List.map_map] at hmem
    obtain ⟨stretch, hstretch, rfl⟩ := List.mem_map.mp hmem
    exact Stretch.offset_add_length_le (hwithin stretch hstretch)
  end_lt_start := by
    rw [Report.flat, List.map_map, List.pairwise_map]
    exact hpairwise.imp_of_mem fun hearlier _ hprecedes =>
      Stretch.offset_lt_of_precedes (hwithin _ hearlier) hprecedes

/-- **The entries of stretches read alike.** -/
theorem readsAlike_map_entry
    (hwithin : ∀ stretch ∈ stretches, stretch.Within (terminator.lines text)) (message : μ) :
    Report.ReadsAlike ⟨stretches.map
      (Stretch.entry terminator.width (terminator.lines text) message)⟩
      (terminator.lines text) text := by
  rw [ReadsAlike, Report.editor, Report.flat, List.map_map, List.map_map,
    List.forall₂_map_left_iff, List.forall₂_map_right_iff, List.forall₂_same]
  intro stretch hstretch
  obtain ⟨characters, hread⟩ := Stretch.exists_read_eq_some (hwithin stretch hstretch)
  refine ⟨characters, ?_, ?_⟩
  · rw [Function.comp_apply, Stretch.read_editor, hread]
  · rw [Function.comp_apply, Stretch.read_flat (hwithin stretch hstretch), hread]

end Report

end SpanReport
