import Mathlib.Algebra.Group.Nat.Defs
import Mathlib.Tactic.ByContra
import SpanReport.Proofs.Line.Layout

/-! # Look-ups in a line table

`Position.Names` says, by the line starts alone, which position names the character at an offset.
Both look-ups of the table of a text decide this relation: `position` finds the position of an
offset by its binary search (`position_eq_ok_iff`), and `offset?` the offset of a position by the
reach of its line (`offset?_eq_some_iff`). So they are inverse to each other, and no number that
they form leaves the range of offsets (`position_offset?_inverse`). -/

namespace SpanReport

/-! ## Positions and the offsets they name -/

/-- A position names the character at an offset: it counts the columns from the start of its line,
and the next line starts later. -/
structure Position.Names (position : Position) (terminator : Terminator) (text : Text)
    (offset : Nat) : Prop where
  /-- Lines are counted from one. -/
  line_pos : 0 < position.line
  /-- Columns are counted from one. -/
  column_pos : 0 < position.column
  /-- The text has a character at the offset. -/
  offset_lt : offset < text.length
  /-- The column counts the characters from the start of the line. -/
  start_add : lineStart terminator.width (terminator.lines text) (position.line - 1) +
    (position.column - 1) = offset
  /-- The next line starts after the character. -/
  lt_next : offset < lineStart terminator.width (terminator.lines text) position.line

variable {terminator : Terminator} {text : Text}

/-- The line of a position that names a character is a line of the text. -/
theorem Position.Names.line_le {position : Position} {offset : Nat}
    (h : position.Names terminator text offset) :
    position.line ≤ (terminator.lines text).length := by
  by_contra hlt
  have hprev : (terminator.lines text).length ≤ position.line - 1 := by omega
  have hline : (terminator.lines text).length ≤ position.line := by omega
  have hstart := lineStart_of_length_le terminator.width hprev
  have hend := lineStart_of_length_le terminator.width hline
  have hadd := h.start_add
  have hnext := h.lt_next
  omega

/-- A position names a character from its line: the column is one of the line or of one boundary
behind it. -/
theorem Position.names_iff {position : Position} {offset : Nat} :
    position.Names terminator text offset ↔ offset < text.length ∧ ∃ index column line,
      position = ⟨index + 1, column + 1⟩ ∧ (terminator.lines text)[index]? = some line ∧
        lineStart terminator.width (terminator.lines text) index + column = offset ∧
          column < line.length + terminator.width := by
  constructor
  · intro h
    have hle := h.line_le
    have hadd := h.start_add
    have hnext := h.lt_next
    obtain ⟨line, column⟩ := position
    obtain ⟨index, rfl⟩ := Nat.exists_eq_add_one.mpr h.line_pos
    obtain ⟨column, rfl⟩ := Nat.exists_eq_add_one.mpr h.column_pos
    simp only [Nat.add_sub_cancel] at hle hadd hnext
    have hline := List.getElem?_eq_getElem (Nat.lt_of_succ_le hle)
    rw [lineStart_succ terminator.width hline] at hnext
    exact ⟨h.offset_lt, index, column, _, rfl, hline, hadd, by omega⟩
  · rintro ⟨hlt, index, column, line, rfl, hline, hadd, hcolumn⟩
    refine ⟨Nat.succ_pos _, Nat.succ_pos _, hlt, hadd, ?_⟩
    simp only [lineStart_succ terminator.width hline]
    omega

/-- Of two positions with the same character, neither is on a later line. -/
theorem Position.Names.line_le_line {p q : Position} {offset : Nat}
    (hp : p.Names terminator text offset) (hq : q.Names terminator text offset) :
    p.line ≤ q.line := by
  by_contra hlt
  -- the line of `q` would end before that of `p` starts
  have hle := lineStart_le_lineStart terminator.width (terminator.lines text)
    (Nat.le_sub_one_of_lt (Nat.lt_of_not_le hlt))
  have hnext := hq.lt_next
  have hadd := hp.start_add
  omega

/-- At most one position names the character at an offset. -/
theorem Position.Names.position_eq {p q : Position} {offset : Nat}
    (hp : p.Names terminator text offset) (hq : q.Names terminator text offset) : p = q := by
  have hline : p.line = q.line := Nat.le_antisymm (hp.line_le_line hq) (hq.line_le_line hp)
  have hp_add := hp.start_add
  have hq_add := hq.start_add
  have hp_pos := hp.column_pos
  have hq_pos := hq.column_pos
  rw [hline] at hp_add
  have hcolumn : p.column = q.column := by omega
  obtain ⟨pline, pcolumn⟩ := p
  obtain ⟨qline, qcolumn⟩ := q
  simp only at hline hcolumn
  rw [hline, hcolumn]

/-- The starts of the lines of a text end one boundary after the text. -/
theorem Terminator.length_add_width (terminator : Terminator) (text : Text) :
    text.length + terminator.width =
      lineStart terminator.width (terminator.lines text) (terminator.lines text).length := by
  have h := length_intercalate_add terminator.chars (terminator.lines_ne_nil text)
  rwa [terminator.intercalate_lines, terminator.length_chars] at h

/-- No line of a text reaches past the end of the text. -/
theorem Terminator.lineStart_add_length_le {index : Nat} {line : Text}
    (h : (terminator.lines text)[index]? = some line) :
    lineStart terminator.width (terminator.lines text) index + line.length ≤ text.length := by
  have hle := SpanReport.lineStart_add_length_le terminator.chars h
  rwa [terminator.intercalate_lines, terminator.length_chars] at hle

/-- A line that no other line follows ends with the text. -/
theorem Terminator.length_eq_of_last {index : Nat} {line : Text}
    (h : (terminator.lines text)[index]? = some line)
    (hlast : index + 1 = (terminator.lines text).length) :
    text.length = lineStart terminator.width (terminator.lines text) index + line.length := by
  have hnext := lineStart_succ terminator.width h
  have htotal := terminator.length_add_width text
  rw [hlast] at hnext
  omega

/-- A text has at most one line more than characters. -/
theorem Terminator.length_lines_le (terminator : Terminator) (text : Text) :
    (terminator.lines text).length ≤ text.length + 1 := by
  have hpos := List.length_pos_iff.mpr (terminator.lines_ne_nil text)
  have hlast : (terminator.lines text).length - 1 < (terminator.lines text).length := by omega
  have hindex := le_lineStart terminator.width_pos (Nat.le_of_lt hlast)
  have hle := Terminator.lineStart_add_length_le (List.getElem?_eq_getElem hlast)
  omega

/-- No boundary takes more than two characters. -/
theorem Terminator.width_le_two (terminator : Terminator) : terminator.width ≤ 2 := by
  cases terminator <;> decide

/-- Below half the limit of offsets, a text has room for one more terminator. -/
theorem Terminator.length_add_width_lt (terminator : Terminator) (hsize : text.length < 2 ^ 63) :
    text.length + terminator.width < offsetLimit := by
  have hwidth := terminator.width_le_two
  have hlimit : offsetLimit = 2 ^ 64 := rfl
  omega

namespace LineTable

/-! ## Outcomes of look-ups -/

section Outcomes

variable {table : LineTable} {offset : Nat} {position : Position} {error : LocateError}

/-- An offset that is not below the size has no position, and no other offset is refused. -/
theorem position_eq_error_iff :
    table.position offset = .error error ↔
      table.size ≤ offset ∧ .outOfBounds offset table.size = error := by
  rw [LineTable.position]
  split
  next hlt => exact ⟨nofun, fun h => absurd hlt (Nat.not_lt.mpr h.1)⟩
  next hle => rw [Except.error.injEq, and_iff_right (Nat.le_of_not_lt hle)]

/-- The offset of a position is the one that is looked up. -/
theorem offset_eq_ok_iff_offset? :
    table.offset position = .ok offset ↔ table.offset? position = some offset := by
  rw [LineTable.offset]
  cases table.offset? position with
  | none => exact ⟨nofun, nofun⟩
  | some found =>
      show Except.ok found = .ok offset ↔ _
      rw [Except.ok.injEq, Option.some.injEq]

/-- Only a position whose offset is not found is refused. -/
theorem offset_eq_error_iff :
    table.offset position = .error error ↔
      table.offset? position = none ∧ .noSuchPosition position = error := by
  rw [LineTable.offset]
  cases table.offset? position with
  | none =>
      show Except.error _ = .error error ↔ _
      rw [Except.error.injEq, and_iff_right rfl]
  | some found => exact ⟨nofun, fun h => absurd h.1 nofun⟩

end Outcomes

/-! ## The entries of the table -/

/-- The table of a text holds the start and the length of every line of the text. -/
theorem getElem?_lines_ofText (text : Text) (terminator : Terminator) (index : Nat) :
    (ofText text terminator).lines[index]? = (terminator.lines text)[index]?.map fun line =>
      ⟨lineStart terminator.width (terminator.lines text) index, line.length⟩ := by
  rw [ofText, List.getElem?_toArray, getElem?_layLines]
  simp only [Nat.zero_add]

/-- The start of a line in the table of a text. -/
theorem start_getElem_lines_ofText {index : Nat} (h : index < (ofText text terminator).lines.size) :
    (ofText text terminator).lines[index].start =
      lineStart terminator.width (terminator.lines text) index := by
  have hentry := getElem?_lines_ofText text terminator index
  rw [Array.getElem?_eq_getElem h] at hentry
  obtain ⟨line, -, hline⟩ := Option.map_eq_some_iff.mp hentry.symm
  rw [← hline]

/-- The table of a text has as many lines as the text. -/
theorem size_lines_ofText (text : Text) (terminator : Terminator) :
    (ofText text terminator).lines.size = (terminator.lines text).length :=
  lineCount_ofText text terminator

/-- The table of a text knows the lengths of the lines of the text, and of no others. -/
theorem lineLength?_ofText_succ (text : Text) (terminator : Terminator) (index : Nat) :
    (ofText text terminator).lineLength? (index + 1) =
      (terminator.lines text)[index]?.map List.length := by
  rw [lineLength?, getElem?_lines_ofText, Option.map_map]
  rfl

/-- The table of a text knows the length of every line. -/
theorem lineLength?_ofText {index : Nat} {line : Text}
    (h : (terminator.lines text)[index]? = some line) :
    (ofText text terminator).lineLength? (index + 1) = some line.length := by
  rw [lineLength?_ofText_succ, h]
  rfl

/-- A column lies within the reach of its line if it lies in the text and before the next line. -/
theorem lt_reach_ofText_iff {index column : Nat} {line : Text}
    (h : (terminator.lines text)[index]? = some line) (start : Nat) :
    column < (ofText text terminator).reach index ⟨start, line.length⟩ ↔
      lineStart terminator.width (terminator.lines text) index + column < text.length ∧
        lineStart terminator.width (terminator.lines text) index + column <
          lineStart terminator.width (terminator.lines text) (index + 1) := by
  obtain ⟨hindex, -⟩ := List.getElem?_eq_some_iff.mp h
  have hnext := lineStart_succ terminator.width h
  have htotal := terminator.length_add_width text
  have hpos := terminator.width_pos
  rw [reach, size_lines_ofText, terminator_ofText]
  simp only
  split
  next hlast =>
    -- the last line ends where the text ends
    rw [hlast] at hnext
    rw [hlast]
    omega
  next hnotlast =>
    -- another line starts at the end of this one's terminator, and no later than the text ends
    have hlater : index + 1 < (terminator.lines text).length := by omega
    have hle := Terminator.lineStart_add_length_le (List.getElem?_eq_getElem hlater)
    omega

/-! ## From positions to offsets -/

/-- **`offset?` finds the offset whose character a position names.** -/
theorem offset?_eq_some_iff {position : Position} {offset : Nat} :
    (ofText text terminator).offset? position = some offset ↔
      position.Names terminator text offset := by
  constructor
  · intro h
    obtain ⟨line, column⟩ := position
    match line, column, h with
    | index + 1, column + 1, h =>
        rw [offset?, getElem?_lines_ofText] at h
        cases hline : (terminator.lines text)[index]? with
        | none =>
            rw [hline] at h
            exact absurd h (by simp)
        | some line =>
            rw [hline] at h
            simp only [Option.map_some, lt_reach_ofText_iff hline] at h
            obtain ⟨hreach, hoffset⟩ := Option.ite_none_right_eq_some.mp h
            rw [Option.some.injEq] at hoffset
            subst hoffset
            exact ⟨Nat.succ_pos _, Nat.succ_pos _, hreach.1, rfl, hreach.2⟩
  · intro h
    obtain ⟨hlt, index, column, line, rfl, hline, hadd, hcolumn⟩ := Position.names_iff.mp h
    have hnext := lineStart_succ terminator.width hline
    rw [offset?, getElem?_lines_ofText, hline]
    simp only [Option.map_some, lt_reach_ofText_iff hline]
    rw [if_pos (by omega), hadd]

/-! ## From offsets to positions -/

/-- **The binary search finds the line around an offset**, if the offset lies between the starts at
the two ends of the search: that line starts at or before the offset, and the next one after it. -/
theorem lastStarting_spec {lines : Array Line} {offset low high : Nat} (hlow : low < high)
    (hhigh : high ≤ lines.size) (hfirst : (lines[low]).start ≤ offset)
    (hlast : ∀ h : high < lines.size, offset < lines[high].start) {index : Fin lines.size}
    (hindex : lastStarting lines offset low high hlow hhigh = index) :
    (lines[index]).start ≤ offset ∧
      ∀ h : index.val + 1 < lines.size, offset < lines[index.val + 1].start := by
  -- both halves keep the offset between the starts at their ends
  induction low, high, hlow, hhigh using lastStarting.induct lines offset with
  | case1 low high hlow hhigh hwide middle hstart ih =>
      rw [lastStarting, dif_pos hwide, if_pos hstart] at hindex
      exact ih hstart hlast hindex
  | case2 low high hlow hhigh hwide middle hstart ih =>
      rw [lastStarting, dif_pos hwide, if_neg hstart] at hindex
      exact ih hfirst (fun _ => Nat.lt_of_not_le hstart) hindex
  | case3 low high hlow hhigh hnarrow =>
      rw [lastStarting, dif_neg hnarrow] at hindex
      obtain rfl : high = low + 1 := by omega
      subst hindex
      exact ⟨hfirst, hlast⟩

/-- The line that is found for an offset starts at or before it, and the next one after it. -/
theorem lineAt_ofText_spec (terminator : Terminator) {offset : Nat} (h : offset < text.length) :
    lineStart terminator.width (terminator.lines text) ((ofText text terminator).lineAt offset) ≤
        offset ∧
      offset < lineStart terminator.width (terminator.lines text)
        ((ofText text terminator).lineAt offset + 1) := by
  have hpos := (ofText text terminator).lines_pos
  have hfirst : ((ofText text terminator).lines[0]).start ≤ offset := by
    rw [start_getElem_lines_ofText, lineStart_zero]
    exact Nat.zero_le _
  have hlineAt : lastStarting (ofText text terminator).lines offset 0 _ hpos (Nat.le_refl _) =
      (ofText text terminator).lineAt offset := rfl
  obtain ⟨hstart, hnext⟩ := lastStarting_spec hpos (Nat.le_refl _) hfirst
    (fun hout => absurd hout (Nat.lt_irrefl _)) hlineAt
  refine ⟨by rwa [Fin.getElem_fin, start_getElem_lines_ofText] at hstart, ?_⟩
  by_cases hlater :
      ((ofText text terminator).lineAt offset).val + 1 < (ofText text terminator).lines.size
  · have hlt := hnext hlater
    rwa [start_getElem_lines_ofText] at hlt
  · -- after the last line, the starts end one boundary past the text
    have hsize := size_lines_ofText text terminator
    have htotal := terminator.length_add_width text
    rw [lineStart_of_length_le _ (by omega)]
    omega

/-- The position of an offset of the text names the character at that offset. -/
theorem position_ofText_names (terminator : Terminator) {offset : Nat}
    (h : offset < text.length) :
    ∃ position, (ofText text terminator).position offset = .ok position ∧
      position.Names terminator text offset := by
  obtain ⟨hstart, hnext⟩ := lineAt_ofText_spec terminator h
  rw [position, size_ofText, if_pos h]
  refine ⟨_, rfl, Nat.succ_pos _, Nat.succ_pos _, h, ?_, hnext⟩
  simp only [Fin.getElem_fin, start_getElem_lines_ofText, Nat.add_sub_cancel]
  omega

/-- **`position` finds the position that names the character at an offset.** -/
theorem position_eq_ok_iff {position : Position} {offset : Nat} :
    (ofText text terminator).position offset = .ok position ↔
      position.Names terminator text offset := by
  constructor
  · intro h
    have hlt : offset < text.length := by
      by_contra hge
      have herror : (ofText text terminator).position offset = .error _ :=
        position_eq_error_iff.mpr ⟨Nat.le_of_not_lt hge, rfl⟩
      rw [herror] at h
      cases h
    obtain ⟨found, hfound, hnames⟩ := position_ofText_names terminator hlt
    rw [hfound, Except.ok.injEq] at h
    rwa [← h]
  · intro h
    obtain ⟨found, hfound, hnames⟩ := position_ofText_names terminator h.offset_lt
    rw [hfound, hnames.position_eq h]

/-! ## Both directions together -/

/-- The two look-ups of a table are inverse to each other: they match the offsets below its size and
the positions that name a character. -/
structure Invertible (table : LineTable) : Prop where
  /-- Every offset below the size has a position, and that position leads back. -/
  offset?_position : ∀ offset < table.size, ∃ position,
    table.position offset = .ok position ∧ table.offset? position = some offset
  /-- Any other offset is refused. -/
  position_of_le : ∀ offset, table.size ≤ offset →
    table.position offset = .error (.outOfBounds offset table.size)
  /-- The offset of a position lies below the size and leads back. -/
  position_offset? : ∀ position offset, table.offset? position = some offset →
    offset < table.size ∧ table.position offset = .ok position
  /-- Only positions without an offset are refused. -/
  offset?_eq_none_iff : ∀ position, table.offset? position = none ↔
    ∀ offset, table.position offset ≠ .ok position

/-- The look-ups of a table stay within it and within the range of offsets: the search ends at a
line of the table that does not start after the offset, so that its start can be taken away, and
every sum of a start, a length, a column and a boundary is an offset. -/
structure Exact (table : LineTable) : Prop where
  /-- The lines that start at or before an offset are those up to the one that is found for it, so
  the number of these lines is neither zero nor above the number of lines. -/
  start_le_iff : ∀ offset < table.size, ∀ index, ∀ h : index < table.lines.size,
    table.lines[index].start ≤ offset ↔ index ≤ table.lineAt offset
  /-- One boundary past the end of a line is an offset, even after the last line. -/
  boundary_lt : ∀ line ∈ table.lines,
    line.start + line.length + table.terminator.width < offsetLimit
  /-- The size is an offset, and so is every column of the table. -/
  size_lt : table.size + table.terminator.width < offsetLimit
  /-- Every line number is an offset. -/
  lineCount_lt : table.lineCount < offsetLimit

/-- The look-ups of the table of a text are inverse to each other. -/
theorem invertible_ofText (text : Text) (terminator : Terminator) :
    (ofText text terminator).Invertible where
  offset?_position offset h := by
    obtain ⟨position, hposition, hnames⟩ := position_ofText_names terminator h
    exact ⟨position, hposition, offset?_eq_some_iff.mpr hnames⟩
  position_of_le _ h := position_eq_error_iff.mpr ⟨h, rfl⟩
  position_offset? position offset h := by
    have hnames := offset?_eq_some_iff.mp h
    exact ⟨hnames.offset_lt, position_eq_ok_iff.mpr hnames⟩
  offset?_eq_none_iff position := by
    simp only [Option.eq_none_iff_forall_ne_some, ne_eq, offset?_eq_some_iff, position_eq_ok_iff]

/-- The look-ups of the table of a text stay within the range of offsets, if the text does. -/
theorem exact_ofText {text : Text} {terminator : Terminator}
    (hsize : text.length + terminator.width < offsetLimit) :
    (ofText text terminator).Exact where
  start_le_iff offset hlt index hindex := by
    obtain ⟨hstart, hnext⟩ := lineAt_ofText_spec terminator hlt
    rw [start_getElem_lines_ofText]
    constructor
    · intro hle
      by_contra hafter
      have hlater : ((ofText text terminator).lineAt offset).val + 1 ≤ index := by omega
      have hmono := lineStart_le_lineStart terminator.width (terminator.lines text) hlater
      omega
    · intro hle
      exact Nat.le_trans (lineStart_le_lineStart _ _ hle) hstart
  boundary_lt line hmem := by
    obtain ⟨index, hindex⟩ := Array.getElem?_of_mem hmem
    rw [getElem?_lines_ofText] at hindex
    obtain ⟨content, hcontent, rfl⟩ := Option.map_eq_some_iff.mp hindex
    have hle := Terminator.lineStart_add_length_le hcontent
    rw [terminator_ofText]
    simp only
    omega
  size_lt := hsize
  lineCount_lt := by
    rw [lineCount_ofText]
    have hle := terminator.length_lines_le text
    have hpos := terminator.width_pos
    omega

/-- **Offsets and positions are in bijection.** For every text and terminator, `position` maps the
offsets of the text one to one onto the positions that name a character, `offset?` is its inverse,
all other arguments are refused, and both stay within the table and the range of offsets. -/
theorem position_offset?_inverse (text : Text) (terminator : Terminator)
    (hsize : text.length < 2 ^ 63) :
    (ofText text terminator).Invertible ∧ (ofText text terminator).Exact :=
  ⟨invertible_ofText text terminator, exact_ofText (terminator.length_add_width_lt hsize)⟩

/-- A blank line, a carriage return of its own and a terminator at the end. -/
theorem position_offset?_inverse_blank_line :
    "a\r\r\n\r\n".toList.length < 2 ^ 63 ∧
      (ofText "a\r\r\n\r\n".toList .crlf).Invertible ∧
        (ofText "a\r\r\n\r\n".toList .crlf).Exact :=
  ⟨by decide, position_offset?_inverse "a\r\r\n\r\n".toList .crlf (by decide)⟩

end LineTable

end SpanReport
