import SpanReport.Proofs.Line.Lookup

/-! # The characters at positions

The starts in a line table are those of the lines in the text: a joined text holds the content of
each line at its start (`getElem?_content`) and then, before the next line, the separator
(`getElem?_boundary`). So the position that the table of a text finds for an offset shows the
character at this offset, in its line or in the terminator behind its line
(`position_shows`). -/

namespace SpanReport

/-! ## Characters of a joined text -/

section Joined

variable (separator : Text) {lines : List Text} {index column : Nat} {content : Text}

/-- A character of a line stands at its column from the start of the line. -/
theorem getElem?_content (h : lines[index]? = some content) (hcolumn : column < content.length) :
    (separator.intercalate lines)[lineStart separator.length lines index + column]? =
      content[column]? := by
  obtain ⟨after, hafter⟩ := line_prefix_drop_lineStart separator h
  rw [← List.getElem?_drop, ← hafter, List.getElem?_append_left hcolumn]

/-- From the start of a line that another line follows, a joined text goes on with the line, the
separator and all later lines. -/
theorem drop_lineStart_eq_append (h : lines[index]? = some content)
    (hnext : index + 1 < lines.length) :
    (separator.intercalate lines).drop (lineStart separator.length lines index) =
      content ++ (separator ++ separator.intercalate (lines.drop (index + 1))) := by
  obtain ⟨hindex, hcontent⟩ := List.getElem?_eq_some_iff.mp h
  have hlater : lines.drop (index + 1) ≠ [] := by simpa using hnext
  rw [drop_lineStart_intercalate separator hindex, List.drop_eq_getElem_cons hindex, hcontent,
    List.intercalate_cons_of_ne_nil hlater, List.append_assoc]

/-- Behind the content of a line that another line follows stands the separator. -/
theorem getElem?_boundary (h : lines[index]? = some content) (hnext : index + 1 < lines.length)
    (hcolumn : column < separator.length) :
    (separator.intercalate lines)[lineStart separator.length lines index +
      (content.length + column)]? = separator[column]? := by
  rw [← List.getElem?_drop, drop_lineStart_eq_append separator h hnext,
    List.getElem?_append_right (Nat.le_add_right _ _), Nat.add_sub_cancel_left,
    List.getElem?_append_left hcolumn]

end Joined

/-! ## Characters of a text -/

variable {terminator : Terminator} {text : Text}

/-- A position shows a character of a text. -/
structure Position.Shows (position : Position) (terminator : Terminator) (text : Text)
    (c : Char) : Prop where
  /-- Lines are counted from one. -/
  line_pos : 0 < position.line
  /-- Columns are counted from one. -/
  column_pos : 0 < position.column
  /-- The line holds the character at the column. Behind its content, the terminator does, and
  another line follows. -/
  shown : ∃ content, (terminator.lines text)[position.line - 1]? = some content ∧
    (LineTable.ofText text terminator).lineLength? position.line = some content.length ∧
    (position.column ≤ content.length → content[position.column - 1]? = some c) ∧
    (content.length < position.column → position.line < (terminator.lines text).length ∧
      position.column - content.length ≤ terminator.width ∧
      terminator.chars[position.column - content.length - 1]? = some c)

/-- The position that names the character at an offset shows this character. -/
theorem Position.Names.shows {position : Position} {offset : Nat} {c : Char}
    (h : position.Names terminator text offset) (hc : text[offset]? = some c) :
    position.Shows terminator text c := by
  obtain ⟨hlt, index, column, content, rfl, hcontent, hadd, hcolumn⟩ := Position.names_iff.mp h
  have hjoined := terminator.intercalate_lines text
  refine ⟨h.line_pos, h.column_pos, content, hcontent, LineTable.lineLength?_ofText hcontent, ?_,
    ?_⟩
  · intro hinside
    have hchar := getElem?_content terminator.chars hcontent hinside
    rw [hjoined, terminator.length_chars, hadd, hc] at hchar
    exact hchar.symm
  · intro hbehind
    obtain ⟨beyond, rfl⟩ := Nat.exists_eq_add_of_le (Nat.le_of_lt_succ hbehind)
    have hwidth : beyond < terminator.width := Nat.lt_of_add_lt_add_left hcolumn
    -- the character lies behind the content, so the text does not end there
    have hlater : index + 1 < (terminator.lines text).length := by
      refine Nat.lt_of_le_of_ne h.line_le fun hlast => ?_
      have hlength := Terminator.length_eq_of_last hcontent hlast
      omega
    have hchar := getElem?_boundary terminator.chars hcontent hlater
      (by rwa [terminator.length_chars])
    rw [hjoined, terminator.length_chars, hadd, hc] at hchar
    have hcount : content.length + beyond + 1 - content.length = beyond + 1 := by omega
    refine ⟨hlater, ?_, ?_⟩
    · rw [hcount]
      exact hwidth
    · rw [hcount, hchar]
      rfl

namespace LineTable

/-- **A position shows the character at its offset.** The position that the table of a text finds
for an offset is that of the character there: a column of a line, or one of the terminator behind
it. -/
theorem position_shows (text : Text) (terminator : Terminator) {offset : Nat}
    (h : offset < text.length) :
    ∃ position, (ofText text terminator).position offset = .ok position ∧
      position.Shows terminator text text[offset] := by
  obtain ⟨position, hposition, hnames⟩ := position_ofText_names terminator h
  exact ⟨position, hposition, hnames.shows (List.getElem?_eq_getElem h)⟩

/-- The terminator behind a carriage return that belongs to the line. -/
theorem position_shows_carriage_return :
    2 < "é\r\r\nb".toList.length ∧
      Position.Shows ⟨1, 3⟩ .crlf "é\r\r\nb".toList '\r' := by
  have hlt : 2 < "é\r\r\nb".toList.length := by decide
  obtain ⟨position, hposition, hshows⟩ := position_shows "é\r\r\nb".toList .crlf hlt
  have hfound : (ofText "é\r\r\nb".toList .crlf).position 2 = .ok ⟨1, 3⟩ := by cbv
  rw [hfound, Except.ok.injEq] at hposition
  subst hposition
  exact ⟨hlt, hshows⟩

end LineTable

end SpanReport
