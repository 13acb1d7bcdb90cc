import Mathlib.Algebra.GroupWithZero.Nat
import SpanReport.Line.Walk
import SpanReport.Proofs.Line.Lookup

/-! # The walk and the search

A walk over the lines of a text stops at the line around an offset (`walkLines_eq_some`), which is
also where the binary search of the line table ends. The position that both tell counts the
characters up to the offset: those of the earlier lines, with one boundary each, and those before
its column (`Position.Counts`). So the position of an offset comes from the search, from the walk
and from the count alike (`position_eq_ok_iff_walkTo?_counts`). -/

namespace SpanReport

variable {terminator : Terminator} {text : Text}

/-! ## Walking -/

/-- **A walk stops at the line in which its characters end**, with those of them that are left when
it comes to this line. -/
theorem walkLines_eq_some {width index column : Nat} {lines : List Text} {line : Text}
    (h : lines[index]? = some line) (hcolumn : column < line.length + width) (number : Nat) :
    walkLines width number (lineStart width lines index + column) lines =
      some ⟨number + index, column + 1⟩ := by
  induction lines generalizing index number with
  | nil => exact absurd h (Option.some_ne_none line).symm
  | cons first later ih =>
      cases index with
      | zero =>
          rw [List.getElem?_cons_zero, Option.some.injEq] at h
          rw [lineStart_zero, Nat.zero_add, walkLines, h, if_pos hcolumn]
          rfl
      | succ index =>
          -- the first line and its boundary are taken from the characters that are left to go
          rw [List.getElem?_cons_succ] at h
          rw [lineStart_cons_succ, Nat.add_assoc, walkLines,
            if_neg (Nat.not_lt.mpr (Nat.le_add_right _ _)), Nat.add_sub_cancel_left,
            ih h (number + 1), Nat.add_assoc, Nat.add_comm 1 index]

/-- A walk over the lines of a text stops at the position that names a character. -/
theorem Position.Names.walkTo?_eq {position : Position} {offset : Nat}
    (h : position.Names terminator text offset) :
    walkTo? text terminator offset = some position := by
  obtain ⟨-, index, column, line, rfl, hline, rfl, hcolumn⟩ := Position.names_iff.mp h
  rw [walkTo?, walkLines_eq_some hline hcolumn, Nat.add_comm 1 index]

/-- It stops at no other position. -/
theorem walkTo?_eq_some_iff {offset : Nat} (h : offset < text.length) {position : Position} :
    walkTo? text terminator offset = some position ↔ position.Names terminator text offset := by
  refine ⟨fun hwalk => ?_, Position.Names.walkTo?_eq⟩
  obtain ⟨found, -, hnames⟩ := LineTable.position_ofText_names terminator h
  rw [hnames.walkTo?_eq, Option.some.injEq] at hwalk
  rwa [← hwalk]

/-! ## Counting -/

/-- A line starts after as many characters as the lines before it have, each with one boundary. -/
theorem lineStart_eq_sum (width : Nat) (lines : List Text) (index : Nat) :
    lineStart width lines index =
      (((lines.take index).map List.length).map (· + width)).sum := by
  induction lines generalizing index with
  | nil => simp
  | cons line later ih =>
      cases index with
      | zero => simp
      | succ index =>
          rw [lineStart_cons_succ, ih, List.take_succ_cons, List.map_cons, List.map_cons,
            List.sum_cons]

/-- A position counts the characters up to an offset: all those of the earlier lines, with one
boundary behind each, and those before its column in its own line. -/
structure Position.Counts (position : Position) (table : LineTable) (offset : Nat) : Prop where
  /-- Lines are counted from one. -/
  line_pos : 0 < position.line
  /-- Columns are counted from one. -/
  column_pos : 0 < position.column
  /-- The column is one of the line or of one boundary behind it. -/
  column_le : ∃ length, table.lineLength? position.line = some length ∧
    position.column ≤ length + table.terminator.width
  /-- The characters of the earlier lines, of their boundaries and of the earlier columns. -/
  sum_add : ∃ lengths : List Nat, (List.range' 1 (position.line - 1)).map table.lineLength? =
      lengths.map some ∧
    (lengths.map (· + table.terminator.width)).sum + (position.column - 1) = offset

namespace LineTable

/-- The lengths of the first lines, one after the other. -/
theorem map_lineLength?_range' {index : Nat} (h : index ≤ (terminator.lines text).length) :
    (List.range' 1 index).map (ofText text terminator).lineLength? =
      (((terminator.lines text).take index).map List.length).map some := by
  refine List.ext_getElem (by simp [h]) fun i hi _ => ?_
  have hline : i < (terminator.lines text).length := by
    rw [List.length_map, List.length_range'] at hi
    exact Nat.lt_of_lt_of_le hi h
  simp only [List.getElem_map, List.getElem_range', Nat.one_mul, List.getElem_take]
  rw [Nat.add_comm 1 i, lineLength?_ofText_succ, List.getElem?_eq_getElem hline]
  rfl

/-- **The position that names a character is the one that counts the characters up to it.** -/
theorem counts_ofText_iff {offset : Nat} (h : offset < text.length) {position : Position} :
    position.Counts (ofText text terminator) offset ↔ position.Names terminator text offset := by
  constructor
  · rintro ⟨hline, hcolumn, ⟨length, hlength, hcolumn_le⟩, lengths, hlengths, hsum⟩
    obtain ⟨line, column⟩ := position
    obtain ⟨index, rfl⟩ := Nat.exists_eq_add_one.mpr hline
    obtain ⟨column, rfl⟩ := Nat.exists_eq_add_one.mpr hcolumn
    rw [lineLength?_ofText_succ] at hlength
    obtain ⟨content, hcontent, rfl⟩ := Option.map_eq_some_iff.mp hlength
    obtain ⟨hindex, -⟩ := List.getElem?_eq_some_iff.mp hcontent
    -- the lengths that are added up are those of the lines in front
    simp only [Nat.add_sub_cancel] at hlengths hsum
    rw [map_lineLength?_range' (Nat.le_of_lt hindex),
      List.map_inj_right fun _ _ => Option.some.inj] at hlengths
    rw [← hlengths, terminator_ofText, ← lineStart_eq_sum] at hsum
    exact Position.names_iff.mpr ⟨h, index, column, content, rfl, hcontent, hsum, hcolumn_le⟩
  · intro hnames
    obtain ⟨-, index, column, content, rfl, hcontent, hadd, hcolumn⟩ :=
      Position.names_iff.mp hnames
    obtain ⟨hindex, -⟩ := List.getElem?_eq_some_iff.mp hcontent
    refine ⟨Nat.succ_pos _, Nat.succ_pos _,
      ⟨content.length, lineLength?_ofText hcontent, hcolumn⟩,
      _, map_lineLength?_range' (Nat.le_of_lt hindex), ?_⟩
    rw [terminator_ofText, ← lineStart_eq_sum]
    exact hadd

/-- **The search ends where the walk does.** For every offset of a text, a walk over its lines stops
before they are used up; the position at which it stops is the one that the table finds, and the one
that counts the characters up to the offset. -/
theorem position_eq_ok_iff_walkTo?_counts (text : Text) (terminator : Terminator) {offset : Nat}
    (h : offset < text.length) :
    (∃ position, walkTo? text terminator offset = some position) ∧
      ∀ position, ((ofText text terminator).position offset = .ok position ↔
          walkTo? text terminator offset = some position) ∧
        ((ofText text terminator).position offset = .ok position ↔
          position.Counts (ofText text terminator) offset) := by
  constructor
  · obtain ⟨position, -, hnames⟩ := position_ofText_names terminator h
    exact ⟨position, (walkTo?_eq_some_iff h).mpr hnames⟩
  · intro position
    rw [position_eq_ok_iff, walkTo?_eq_some_iff h, counts_ofText_iff h]
    exact ⟨Iff.rfl, Iff.rfl⟩

/-- The line feed of a terminator behind a blank line. -/
theorem position_eq_ok_iff_walkTo?_counts_blank_line :
    4 < "a\r\n\r\nb".toList.length ∧
      (ofText "a\r\n\r\nb".toList .crlf).position 4 = .ok ⟨2, 2⟩ ∧
        walkTo? "a\r\n\r\nb".toList .crlf 4 = some ⟨2, 2⟩ := by
  have hlt : 4 < "a\r\n\r\nb".toList.length := by decide
  have hwalk : walkTo? "a\r\n\r\nb".toList .crlf 4 = some ⟨2, 2⟩ := by cbv
  have hsame := position_eq_ok_iff_walkTo?_counts "a\r\n\r\nb".toList .crlf hlt
  exact ⟨hlt, (hsame.2 ⟨2, 2⟩).1.mpr hwalk, hwalk⟩

end LineTable

end SpanReport
