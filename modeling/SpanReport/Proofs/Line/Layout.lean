import SpanReport.Line.Table
import SpanReport.Proofs.Text.Split

/-! # Where lines start

`lineStart` tells, line by line, what `layLines` lays out from a running offset: a line starts after
the lines before it and their boundaries. With the terminator's width the starts tile a text: they
ascend strictly (`lineStart_lt_lineStart`), the text goes on with the rest of its lines from every
start (`drop_lineStart_intercalate`), and after the last line one boundary is left over
(`length_intercalate_add`). Hence a stretch of a line reads the same in the line and in the text
(`read_intercalate`). -/

namespace SpanReport

/-! ## The starts -/

/-- The offset at which the line at an index starts, with `width` characters at every boundary; past
the last line, the offset at which one more line would start. -/
def lineStart (width : Nat) : List Text → Nat → Nat
  | [], _ => 0
  | _ :: _, 0 => 0
  | line :: later, index + 1 => line.length + width + lineStart width later index

@[simp] theorem lineStart_nil (width index : Nat) : lineStart width [] index = 0 := rfl

@[simp] theorem lineStart_zero (width : Nat) (lines : List Text) : lineStart width lines 0 = 0 := by
  cases lines <;> rfl

@[simp] theorem lineStart_cons_succ (width : Nat) (line : Text) (later : List Text) (index : Nat) :
    lineStart width (line :: later) (index + 1) =
      line.length + width + lineStart width later index := rfl

/-- The next line starts one boundary after the end of a line. -/
theorem lineStart_succ (width : Nat) {lines : List Text} {index : Nat} {line : Text}
    (h : lines[index]? = some line) :
    lineStart width lines (index + 1) = lineStart width lines index + line.length + width := by
  induction lines generalizing index with
  | nil => exact absurd h (Option.some_ne_none line).symm
  | cons first later ih =>
      cases index with
      | zero =>
          rw [List.getElem?_cons_zero, Option.some.injEq] at h
          rw [lineStart_cons_succ, lineStart_zero, lineStart_zero, h]
          omega
      | succ index =>
          rw [List.getElem?_cons_succ] at h
          rw [lineStart_cons_succ, lineStart_cons_succ, ih h]
          omega

/-- Lines start later and later. -/
theorem lineStart_le_lineStart (width : Nat) (lines : List Text) {i j : Nat} (hij : i ≤ j) :
    lineStart width lines i ≤ lineStart width lines j := by
  induction lines generalizing i j with
  | nil => simp
  | cons line later ih =>
      cases i with
      | zero =>
          rw [lineStart_zero]
          exact Nat.zero_le _
      | succ i =>
          obtain ⟨j, rfl⟩ := Nat.exists_eq_succ_of_ne_zero (Nat.ne_zero_of_lt hij)
          rw [lineStart_cons_succ, lineStart_cons_succ]
          exact Nat.add_le_add_left (ih (Nat.le_of_succ_le_succ hij)) _

/-- All starts past the last line are the same. -/
theorem lineStart_of_length_le (width : Nat) {lines : List Text} {index : Nat}
    (h : lines.length ≤ index) :
    lineStart width lines index = lineStart width lines lines.length := by
  induction lines generalizing index with
  | nil => rfl
  | cons line later ih =>
      obtain ⟨index, rfl⟩ := Nat.exists_eq_succ_of_ne_zero (Nat.ne_zero_of_lt h)
      rw [List.length_cons, lineStart_cons_succ, lineStart_cons_succ,
        ih (Nat.le_of_succ_le_succ h)]

/-- No two lines start at the same offset. -/
theorem lineStart_lt_lineStart {width : Nat} (hwidth : 0 < width) {lines : List Text} {i j : Nat}
    (hi : i < lines.length) (hij : i < j) : lineStart width lines i < lineStart width lines j := by
  have hnext : lineStart width lines (i + 1) = lineStart width lines i + lines[i].length + width :=
    lineStart_succ width (List.getElem?_eq_getElem hi)
  have hle : lineStart width lines (i + 1) ≤ lineStart width lines j :=
    lineStart_le_lineStart width lines hij
  omega

/-- The lines before a line take at least one character each. -/
theorem le_lineStart {width : Nat} (hwidth : 0 < width) {lines : List Text} {index : Nat}
    (h : index ≤ lines.length) : index ≤ lineStart width lines index := by
  induction index with
  | zero => exact Nat.zero_le _
  | succ index ih =>
      have hprev := ih (Nat.le_of_succ_le h)
      have hstep := lineStart_lt_lineStart hwidth h (Nat.lt_add_one index)
      omega

/-- Lines that follow do not move the earlier ones. -/
theorem lineStart_append_of_le (width : Nat) {earlier : List Text} (later : List Text) {index : Nat}
    (h : index ≤ earlier.length) :
    lineStart width (earlier ++ later) index = lineStart width earlier index := by
  induction earlier generalizing index with
  | nil =>
      obtain rfl := Nat.le_zero.mp h
      rw [lineStart_zero, lineStart_zero]
  | cons line earlier ih =>
      cases index with
      | zero => rw [lineStart_zero, lineStart_zero]
      | succ index =>
          rw [List.cons_append, lineStart_cons_succ, lineStart_cons_succ,
            ih (Nat.le_of_succ_le_succ h)]

/-- Lines that follow start after the earlier ones, as far apart as they would without them. -/
theorem lineStart_append_add (width : Nat) (earlier later : List Text) (index : Nat) :
    lineStart width (earlier ++ later) (earlier.length + index) =
      lineStart width earlier earlier.length + lineStart width later index := by
  induction earlier with
  | nil => rw [List.nil_append, List.length_nil, lineStart_nil, Nat.zero_add, Nat.zero_add]
  | cons line earlier ih =>
      have hindex : (line :: earlier).length + index = earlier.length + index + 1 := by
        rw [List.length_cons]
        omega
      rw [hindex, List.cons_append, lineStart_cons_succ, ih, List.length_cons, lineStart_cons_succ]
      omega

/-- A line table holds the start and the length of every line. -/
theorem getElem?_layLines (width start : Nat) (lines : List Text) (index : Nat) :
    (layLines width start lines)[index]? =
      lines[index]?.map fun line => ⟨start + lineStart width lines index, line.length⟩ := by
  induction lines generalizing start index with
  | nil => rfl
  | cons line later ih =>
      -- the later lines are laid from a start that is further on by the first line and its boundary
      cases index with
      | zero => rfl
      | succ index =>
          rw [layLines, List.getElem?_cons_succ, List.getElem?_cons_succ, ih, lineStart_cons_succ]
          simp only [Nat.add_assoc]

/-! ## The text between the starts -/

/-- From the start of a line, a joined text goes on with that line and those after it. -/
theorem drop_lineStart_intercalate (separator : Text) {lines : List Text} {index : Nat}
    (h : index < lines.length) :
    (separator.intercalate lines).drop (lineStart separator.length lines index) =
      separator.intercalate (lines.drop index) := by
  induction lines generalizing index with
  | nil => exact absurd h (Nat.not_lt_zero _)
  | cons line later ih =>
      cases index with
      | zero => rw [lineStart_zero, List.drop_zero, List.drop_zero]
      | succ index =>
          -- another line follows, so the first one has a separator behind it
          have hlater : index < later.length := Nat.lt_of_succ_lt_succ h
          have hne : later ≠ [] := List.ne_nil_of_length_pos (Nat.zero_lt_of_lt hlater)
          rw [List.intercalate_cons_of_ne_nil hne, lineStart_cons_succ, ← List.length_append,
            List.drop_length_add_append, List.drop_succ_cons, ih hlater]

/-- A joined text ends where the boundary after its last line would start. -/
theorem length_intercalate_add (separator : Text) {lines : List Text} (hne : lines ≠ []) :
    (separator.intercalate lines).length + separator.length =
      lineStart separator.length lines lines.length := by
  induction lines with
  | nil => exact absurd rfl hne
  | cons line later ih =>
      rw [List.length_cons, lineStart_cons_succ]
      cases later with
      | nil => rw [List.intercalate_singleton, List.length_nil, lineStart_zero, Nat.add_zero]
      | cons next others =>
          rw [List.intercalate_cons_cons, List.length_append, List.length_append,
            ← ih (List.cons_ne_nil _ _), Nat.add_assoc]

/-- A line stands at its start in the joined text. -/
theorem line_prefix_drop_lineStart (separator : Text) {lines : List Text} {index : Nat}
    {line : Text} (h : lines[index]? = some line) :
    line <+: (separator.intercalate lines).drop (lineStart separator.length lines index) := by
  obtain ⟨hindex, hline⟩ := List.getElem?_eq_some_iff.mp h
  rw [drop_lineStart_intercalate separator hindex, List.drop_eq_getElem_cons hindex, hline]
  exact prefix_intercalate_cons separator line (lines.drop (index + 1))

/-- No line reaches past the end of the joined text. -/
theorem lineStart_add_length_le (separator : Text) {lines : List Text} {index : Nat} {line : Text}
    (h : lines[index]? = some line) :
    lineStart separator.length lines index + line.length ≤
      (separator.intercalate lines).length := by
  obtain ⟨hindex, -⟩ := List.getElem?_eq_some_iff.mp h
  have hnext := lineStart_succ separator.length h
  have hlast : lineStart separator.length lines (index + 1) ≤
      lineStart separator.length lines lines.length :=
    lineStart_le_lineStart _ _ hindex
  have htotal := length_intercalate_add separator
    (List.ne_nil_of_length_pos (Nat.zero_lt_of_lt hindex))
  omega

/-! ## Reading a stretch of a line -/

/-- A span within a text reads as the characters that it covers. -/
theorem Span.read_of_le {span : Span} {text : Text} (h : span.base + span.length ≤ text.length) :
    span.read text = some ((text.drop span.base).take span.length) := by
  rw [Span.read]
  refine if_pos ?_
  rw [List.length_take, List.length_drop]
  omega

/-- A stretch of a line reads the same at its columns in the line and at its offsets in the joined
text. -/
theorem read_intercalate (separator : Text) {lines : List Text} {index first length : Nat}
    {line : Text} (h : lines[index]? = some line) (hfits : first + length ≤ line.length) :
    Span.read ⟨lineStart separator.length lines index + first, length⟩
        (separator.intercalate lines) =
      Span.read ⟨first, length⟩ line := by
  have hle := lineStart_add_length_le separator h
  -- behind the start stand the line and then something that the span does not reach
  obtain ⟨after, hafter⟩ := line_prefix_drop_lineStart separator h
  have hdrop : (separator.intercalate lines).drop
      (lineStart separator.length lines index + first) = line.drop first ++ after := by
    rw [← List.drop_drop, ← hafter, List.drop_append_of_le_length (by omega)]
  have htake : (line.drop first ++ after).take length = (line.drop first).take length :=
    List.take_append_of_le_length (by rw [List.length_drop]; omega)
  rw [Span.read_of_le (by simp only; omega), Span.read_of_le hfits]
  simp only [hdrop, htake]

end SpanReport
