import SpanReport.Proofs.Line.Lookup

/-! # Positions in a text that grows

Text that is put behind a text leaves the earlier lines as they are, and the last one where it
starts. It may shorten the last line, by half a terminator that it makes whole; the columns that the
line loses are then those of the terminator. So the position that names a character keeps naming it
(`Position.Names.append`), and the table of the longer text finds it (`position_append`). -/

namespace SpanReport

variable {terminator : Terminator} {a : Text}

/-- **A position that names a character of a text names the same one when the text goes on.** -/
theorem Position.Names.append {position : Position} {offset : Nat}
    (h : position.Names terminator a offset) (b : Text) :
    position.Names terminator (a ++ b) offset := by
  obtain ⟨hlt, index, column, line, rfl, hline, hadd, hcolumn⟩ := Position.names_iff.mp h
  obtain ⟨earlier, last, hlines, happend⟩ := terminator.lines_append a
  have hlonger : offset < (a ++ b).length := by
    rw [List.length_append]
    omega
  have hle : index ≤ earlier.length := by
    have hline_le := h.line_le
    rw [hlines, List.length_append, List.length_singleton] at hline_le
    exact Nat.le_of_succ_le_succ hline_le
  refine Position.names_iff.mpr ⟨hlonger, index, column, ?_⟩
  rw [happend, lineStart_append_of_le _ _ hle]
  rcases Nat.lt_or_eq_of_le hle with hbefore | hlast
  · -- the earlier lines stay as they are
    rw [hlines, List.getElem?_append_left hbefore] at hline
    rw [hlines, lineStart_append_of_le _ _ hle] at hadd
    exact ⟨line, rfl, by rwa [List.getElem?_append_left hbefore], hadd, hcolumn⟩
  · -- what the last line loses becomes a part of the terminator behind it
    have hend := Terminator.length_eq_of_last hline (by rw [hlines, hlast]; simp)
    rw [hlines, lineStart_append_of_le _ _ hle] at hadd hend
    rw [hlines, hlast, List.getElem?_concat_length, Option.some.injEq] at hline
    have hself : terminator.lines last = [last] := by
      have hnothing := happend []
      rw [List.append_nil, List.append_nil, hlines] at hnothing
      exact (List.append_cancel_left hnothing).symm
    obtain ⟨first, later, hfirst⟩ :=
      List.exists_cons_of_ne_nil (terminator.lines_ne_nil (last ++ b))
    have hkept := Terminator.length_lt_of_lines_append hself hfirst
    rw [hline] at hkept
    refine ⟨first, rfl, ?_, hadd, by omega⟩
    rw [hfirst, hlast, List.getElem?_append_right (Nat.le_refl _), Nat.sub_self]
    rfl

namespace LineTable

/-- **Text behind a text moves no position of it.** For every offset of the text in front, the table
of the whole text finds the position that the table of this text finds. -/
theorem position_append (terminator : Terminator) (a b : Text) {offset : Nat}
    (h : offset < a.length) :
    ∃ position, (ofText a terminator).position offset = .ok position ∧
      (ofText (a ++ b) terminator).position offset = .ok position := by
  obtain ⟨position, hposition, hnames⟩ := position_ofText_names terminator h
  exact ⟨position, hposition, position_eq_ok_iff.mpr (hnames.append b)⟩

/-- A terminator that is cut in two. -/
theorem position_append_half_terminator :
    2 < "ab\r".toList.length ∧
      (ofText "ab\r".toList .crlf).position 2 = .ok ⟨1, 3⟩ ∧
        (ofText ("ab\r".toList ++ "\nc".toList) .crlf).position 2 = .ok ⟨1, 3⟩ := by
  have hlt : 2 < "ab\r".toList.length := by decide
  have hfound : (ofText "ab\r".toList .crlf).position 2 = .ok ⟨1, 3⟩ := by cbv
  obtain ⟨position, hposition, hlonger⟩ := position_append .crlf "ab\r".toList "\nc".toList hlt
  rw [hfound, Except.ok.injEq] at hposition
  subst hposition
  exact ⟨hlt, hfound, hlonger⟩

end LineTable

end SpanReport
