import SpanReport.Detect.Segments
import SpanReport.Proofs.Report.Capitals

/-! # Flagged parts and segments

The single pass over a line finds what splitting the line at its spaces finds: one flagged part in
every segment that holds a capital, from the first capital to the end of the segment
(`capitalColumns_eq_segmentsColumns`). So the marks of a text are those of its segments
(`detectCapitals_eq_detectSegments`). -/

namespace SpanReport

/-- The columns of the flagged parts of segments that are laid from `column` on. -/
def segmentsColumns (column : Nat) (segments : List Text) : List (Nat × Nat) :=
  (laySegments column segments).filterMap fun laid => segmentColumns? laid.1 laid.2

/-- Segments lie where lines would, with a single character at every boundary. -/
theorem laySegments_eq_map (column : Nat) (segments : List Text) :
    laySegments column segments =
      segments.zipIdx.map fun laid => (column + lineStart 1 segments laid.2, laid.1) := by
  induction segments generalizing column with
  | nil => rfl
  | cons segment later ih =>
      have hlater (index : Nat) : column + segment.length + 1 + lineStart 1 later index =
          column + lineStart 1 (segment :: later) (index + 1) := by
        rw [lineStart_cons_succ]
        omega
      rw [laySegments, ih, List.zipIdx_cons, List.zipIdx_succ, List.map_cons, List.map_map,
        lineStart_zero]
      simp only [hlater]
      rfl

/-- A segment stands in its line at the column at which it is laid. -/
theorem read_of_mem_laySegments {line : Text} :
    ∀ laid ∈ laySegments 1 (split [' '] line),
      Span.read ⟨laid.1 - 1, laid.2.length⟩ line = some laid.2 := by
  intro laid hlaid
  rw [laySegments_eq_map] at hlaid
  obtain ⟨⟨segment, index⟩, hmem, rfl⟩ := List.mem_map.mp hlaid
  have hsegment : (split [' '] line)[index]? = some segment :=
    List.mem_zipIdx_iff_getElem?.mp hmem
  have hwhole : 0 + segment.length ≤ segment.length := Nat.le_of_eq (Nat.zero_add _)
  have hself : Span.read ⟨0, segment.length⟩ segment = some segment := by
    rw [Span.read_of_le hwhole]
    simp only [List.drop_zero, List.take_length]
  have hread := read_intercalate [' '] hsegment hwhole
  rw [intercalate_split (List.cons_ne_nil ' ' []), hself] at hread
  simp only [Nat.add_sub_cancel_left]
  exact hread

/-! ## One more character -/

/-- A segment that begins with a capital is flagged as a whole. -/
theorem segmentColumns?_cons_of_isCapital {c : Char} (h : isCapital c = true) (column : Nat)
    (segment : Text) :
    segmentColumns? column (c :: segment) = some (column, column + (segment.length + 1)) := by
  simp [segmentColumns?, List.findIdx?_cons, h]

/-- A character that is no capital moves the flagged part of its segment by one column. -/
theorem segmentColumns?_cons_of_not_isCapital {c : Char} (h : isCapital c = false) (column : Nat)
    (segment : Text) :
    segmentColumns? column (c :: segment) = segmentColumns? (column + 1) segment := by
  have hmoved : ((fun index => (column + index, column + (c :: segment).length)) ∘ (· + 1)) =
      fun index => (column + 1 + index, column + 1 + segment.length) := by
    funext index
    simp only [Function.comp_apply, List.length_cons, Prod.mk.injEq]
    omega
  rw [segmentColumns?, segmentColumns?, List.findIdx?_cons, h]
  simp only [Bool.false_eq_true, if_false, Option.map_map, hmoved]

/-- The columns of segments are those of the first one and then those of the later ones. -/
theorem segmentsColumns_cons (column : Nat) (segment : Text) (later : List Text) :
    segmentsColumns column (segment :: later) =
      (segmentColumns? column segment).toList ++
        segmentsColumns (column + segment.length + 1) later := by
  rw [segmentsColumns, laySegments, List.filterMap_cons]
  cases segmentColumns? column segment with
  | none => simp only [Option.toList_none, List.nil_append, segmentsColumns]
  | some columns => simp only [Option.toList_some, List.singleton_append, segmentsColumns]

/-- An empty segment in front takes one column, that of the space behind it. -/
theorem segmentsColumns_nil_cons (column : Nat) (later : List Text) :
    segmentsColumns column ([] :: later) = segmentsColumns (column + 1) later := by
  rw [segmentsColumns_cons]
  rfl

/-! ## The whole line -/

/-- The scan of a line, before a part is entered and within one that was entered: a part that was
entered ends with the first segment. -/
theorem capitalColumns_eq (column : Nat) {line segment : Text} {later : List Text}
    (hsplit : split [' '] line = segment :: later) :
    capitalColumns column none line = segmentsColumns column (segment :: later) ∧
      ∀ start, capitalColumns column (some start) line =
        (start, column + segment.length) ::
          segmentsColumns (column + segment.length + 1) later := by
  -- by induction on the line, with both states of the scan in one statement: each goes over into
  -- the other, a capital entering a part and a space closing it
  induction line generalizing column segment later with
  | nil =>
      rw [split_nil] at hsplit
      obtain ⟨rfl, rfl⟩ := List.cons.inj hsplit
      exact ⟨rfl, fun start => rfl⟩
  | cons c rest ih =>
      obtain ⟨first, others, hrest⟩ := List.exists_cons_of_ne_nil (split_ne_nil [' '] rest)
      have hlater := ih (column + 1) hrest
      by_cases hc : c = ' '
      · -- the space closes the part that was entered, and an empty first segment
        rw [hc, split_singleton_self, hrest] at hsplit
        obtain ⟨rfl, rfl⟩ := List.cons.inj hsplit
        have hspace : isCapital c = false := by rw [hc]; decide
        constructor
        · simp [capitalColumns, hspace, hlater.1, segmentsColumns_nil_cons]
        · intro start
          simp [capitalColumns, hc, hlater.1]
      · rw [split_singleton_of_ne hc, hrest, List.modifyHead_cons] at hsplit
        obtain ⟨rfl, rfl⟩ := List.cons.inj hsplit
        have hstop : column + 1 + first.length = column + (first.length + 1) := by omega
        constructor
        · cases hcapital : isCapital c with
          | true =>
              -- a part is entered here, and it ends with the first segment
              rw [segmentsColumns_cons, segmentColumns?_cons_of_isCapital hcapital]
              simp [capitalColumns, hcapital, hlater.2, hstop]
          | false =>
              rw [segmentsColumns_cons, segmentColumns?_cons_of_not_isCapital hcapital]
              simp [capitalColumns, hcapital, hlater.1, segmentsColumns_cons, hstop]
        · intro start
          simp [capitalColumns, hc, hlater.2, hstop]

/-- **The single pass finds the flagged segments**: what a line is scanned for are the columns of
its segments between spaces. -/
theorem capitalColumns_eq_segmentsColumns (column : Nat) (line : Text) :
    capitalColumns column none line = segmentsColumns column (split [' '] line) := by
  obtain ⟨segment, later, hsplit⟩ := List.exists_cons_of_ne_nil (split_ne_nil [' '] line)
  rw [hsplit]
  exact (capitalColumns_eq column hsplit).1

/-! ## The whole text -/

/-- The marks of a line are those of its segments. -/
theorem capitalMarks_eq_segmentMarks (message : String) (number : Nat) (line : Text) :
    capitalMarks message number line = segmentMarks message number line := by
  rw [capitalMarks, scanColumns_eq, capitalColumns_eq_segmentsColumns, segmentsColumns,
    List.map_filterMap]
  rfl

example : detectSegments .crlf "1Ab  c\tD \r\nx É".toList =
    [⟨"errorror", 2, 4, some 1⟩, ⟨"errorror", 8, 9, some 1⟩, ⟨"errorror", 3, 4, some 2⟩] := by cbv

end SpanReport
