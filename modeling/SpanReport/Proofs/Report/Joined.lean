import SpanReport.Proofs.Report.LineEnding

/-! # Reports of joined texts

A terminator between two texts separates the lines of the first from those of the second, even if
it stands next to a half of another terminator. So the stretches that are found in the whole are
those of the two parts, the later ones further down (`Stretch.ofLines_append`), and the report of
the capitals of the whole is made of the two reports (`reportCapitals_append`). -/

namespace SpanReport

variable {μ : Type}

/-- The editor record, so many lines further down. -/
def EditorRecord.lower (count : Nat) (record : EditorRecord μ) : EditorRecord μ :=
  { record with line := record.line + count }

/-! ## Entries further down -/

section Entries

variable (width : Nat) {earlier : List Text} (later : List Text) (message : μ)

/-- Lines that follow do not change the entry of a stretch. -/
theorem Stretch.entry_append_left {stretch : Stretch} (h : stretch.Within earlier) :
    stretch.entry width (earlier ++ later) message = stretch.entry width earlier message := by
  obtain ⟨-, line, hline, -⟩ := h
  have hindex : stretch.index ≤ earlier.length :=
    Nat.le_of_lt (List.getElem?_eq_some_iff.mp hline).1
  rw [entry, entry, offset, offset, lineStart_append_of_le width later hindex]

/-- The editor record of a lowered stretch is lower by the lines before it. -/
theorem Stretch.editor_entry_lower (stretch : Stretch) :
    ((stretch.lower earlier.length).entry width (earlier ++ later) message).editor =
      (stretch.entry width later message).editor.lower earlier.length := by
  have hline : earlier.length + stretch.index + 1 = stretch.index + 1 + earlier.length := by omega
  simp only [Entry.editor, EditorRecord.lower, entry, position, lower, hline]

/-- The flat record of a lowered stretch is later by what the lines before it take. -/
theorem Stretch.flat_entry_lower (stretch : Stretch) :
    ((stretch.lower earlier.length).entry width (earlier ++ later) message).flat =
      (stretch.entry width later message).flat.later
        (lineStart width earlier earlier.length) := by
  have hoffset : (stretch.lower earlier.length).offset width (earlier ++ later) =
      stretch.offset width later + lineStart width earlier earlier.length := by
    rw [offset, offset, lower]
    simp only [lineStart_append_add]
    omega
  have hcolumns : (stretch.lower earlier.length).columns = stretch.columns := rfl
  simp only [Entry.flat, FlatRecord.later, entry, hoffset, hcolumns]
  congr 1
  omega

end Entries

/-! ## Texts with a terminator between them -/

/-- The stretches that are found in lines and in lines after them have the records of both, the
later editor records lower by the number of the earlier lines, and the later flat records later by
what these lines take. -/
theorem Report.records_ofLines_append {spans : Text → List Span} {earlier : List Text}
    (hspans : ∀ stretch ∈ Stretch.ofLines spans earlier, stretch.Within earlier) (width : Nat)
    (later : List Text) (message : μ) {above below whole : Report μ}
    (habove : above = ⟨(Stretch.ofLines spans earlier).map (Stretch.entry width earlier message)⟩)
    (hbelow : below = ⟨(Stretch.ofLines spans later).map (Stretch.entry width later message)⟩)
    (hwhole : whole = ⟨(Stretch.ofLines spans (earlier ++ later)).map
      (Stretch.entry width (earlier ++ later) message)⟩) :
    whole.editor = above.editor ++ below.editor.map (EditorRecord.lower earlier.length) ∧
      whole.flat = above.flat ++
        below.flat.map (·.later (lineStart width earlier earlier.length)) := by
  have hleft : (Stretch.ofLines spans earlier).map
        (Stretch.entry width (earlier ++ later) message) =
      (Stretch.ofLines spans earlier).map (Stretch.entry width earlier message) :=
    List.map_congr_left fun stretch hmem =>
      Stretch.entry_append_left width later message (hspans stretch hmem)
  rw [Stretch.ofLines_append, List.map_append, hleft] at hwhole
  rw [habove, hbelow, hwhole]
  constructor
  · simp only [Report.editor, List.map_append, List.map_map]
    congr 1
    refine List.map_congr_left fun stretch _ => ?_
    exact Stretch.editor_entry_lower width later message stretch
  · simp only [Report.flat, List.map_append, List.map_map]
    congr 1
    refine List.map_congr_left fun stretch _ => ?_
    exact Stretch.flat_entry_lower width later message stretch

example : (reportCapitals .crlf ("a B\r".toList ++ Terminator.crlf.chars ++ "\nC".toList)).map
    Report.flat = .ok [⟨2, 4, "errorror"⟩, ⟨7, 8, "errorror"⟩] := by cbv

end SpanReport
