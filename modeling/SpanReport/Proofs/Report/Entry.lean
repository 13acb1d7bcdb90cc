import Mathlib.Algebra.Group.Nat.Defs
import SpanReport.Proofs.Except
import SpanReport.Report.Basic

/-! # Entries of marks

When a mark has an entry, and which (`Entry.ofMark_eq_ok_iff`). A report is made of marks exactly if
all of them have an entry, and it consists of these entries (`Report.ofMarks_eq_ok_iff`). -/

namespace SpanReport

/-! ## Related lists -/

/-- What stands on the right of related lists is related to something on the left. -/
theorem exists_of_mem_forall₂ {α β : Type} {R : α → β → Prop} {xs : List α} {ys : List β}
    (h : List.Forall₂ R xs ys) {y : β} (hy : y ∈ ys) : ∃ x ∈ xs, R x y := by
  induction h with
  | nil => exact absurd hy List.not_mem_nil
  | @cons x _ _ _ hxy _ ih =>
      obtain rfl | hmem := List.mem_cons.mp hy
      · exact ⟨x, List.mem_cons_self, hxy⟩
      · obtain ⟨x', hx', hR⟩ := ih hmem
        exact ⟨x', List.mem_cons_of_mem x hx', hR⟩

/-! ## Sums of offsets -/

/-- Two offsets have a sum exactly if it is below the limit. -/
theorem offsetSum_eq_ok_iff {a b sum : Nat} :
    offsetSum a b = .ok sum ↔ a + b < offsetLimit ∧ a + b = sum := by
  by_cases h : a + b < offsetLimit
  · rw [offsetSum_of_lt h, Except.ok.injEq]
    exact (and_iff_right h).symm
  · rw [offsetSum_of_le (Nat.le_of_not_lt h)]
    exact ⟨nofun, fun hsum => absurd hsum.1 h⟩

/-- Two offsets have no sum exactly if it reaches the limit. -/
theorem offsetSum_eq_error_iff {a b : Nat} {error : RangeError} :
    offsetSum a b = .error error ↔ offsetLimit ≤ a + b ∧ .overflow = error := by
  by_cases h : a + b < offsetLimit
  · rw [offsetSum_of_lt h]
    exact ⟨nofun, fun hsum => absurd h (Nat.not_lt.mpr hsum.1)⟩
  · rw [offsetSum_of_le (Nat.le_of_not_lt h), Except.error.injEq]
    exact (and_iff_right (Nat.le_of_not_lt h)).symm

/-- Below half the limit there is room for twice as many characters, and for one more. -/
theorem add_one_lt_offsetLimit {size length : Nat} (hsize : size < 2 ^ 63)
    (hlength : length ≤ 2 * size) : length + 1 < offsetLimit := by
  have hlimit : offsetLimit = 2 ^ 64 := rfl
  omega

/-! ## The entry of a mark -/

variable {μ : Type}

/-- **A mark has an entry** exactly if its bounds are in order, its start is found in the text, and
both ends are below the limit; the entry then tells that start, the distance of the bounds and the
message of the mark. -/
theorem Entry.ofMark_eq_ok_iff {table : LineTable} {mark : Mark μ} {entry : Entry μ} :
    Entry.ofMark table mark = .ok entry ↔
      mark.start ≤ mark.stop ∧ mark.locate table = .ok (entry.position, entry.offset) ∧
        entry.length = mark.stop - mark.start ∧ entry.message = mark.message ∧
          entry.position.column + entry.length < offsetLimit ∧
            entry.offset + entry.length < offsetLimit := by
  rw [Entry.ofMark]
  by_cases hinverted : mark.stop < mark.start
  · rw [if_pos hinverted]
    exact ⟨nofun, fun h => absurd hinverted (Nat.not_lt.2 h.1)⟩
  · -- the remaining steps are a chain of lookups and checked sums, opened one by one
    rw [if_neg hinverted]
    simp only [bind_eq_ok_iff, mapError_eq_ok_iff, offsetSum_eq_ok_iff]
    constructor
    · rintro ⟨⟨position, offset⟩, hlocate, _, ⟨hcolumn, _⟩, _, ⟨hoffset, _⟩, hentry⟩
      cases hentry
      exact ⟨Nat.le_of_not_lt hinverted, hlocate, rfl, rfl, hcolumn, hoffset⟩
    · rintro ⟨_, hlocate, hlength, hmessage, hcolumn, hoffset⟩
      rw [hlength] at hcolumn hoffset
      refine ⟨(entry.position, entry.offset), hlocate, _, ⟨hcolumn, rfl⟩, _, ⟨hoffset, rfl⟩, ?_⟩
      rw [← hlength, ← hmessage]
      rfl

/-- **A report is made of marks** exactly if every mark has an entry, and it consists of these
entries in turn. -/
theorem Report.ofMarks_eq_ok_iff {table : LineTable} {marks : List (Mark μ)} {report : Report μ} :
    Report.ofMarks table marks = .ok report ↔
      List.Forall₂ (fun mark entry => Entry.ofMark table mark = .ok entry) marks
        report.entries := by
  rw [Report.ofMarks, map_eq_ok_iff]
  simp only [mapM_eq_ok_iff]
  constructor
  · rintro ⟨entries, h, rfl⟩
    exact h
  · intro h
    exact ⟨report.entries, h, rfl⟩

/-- Every message of a report is that of a mark. -/
theorem Report.exists_message_eq {table : LineTable} {marks : List (Mark μ)} {report : Report μ}
    (h : ofMarks table marks = .ok report) {entry : Entry μ} (hentry : entry ∈ report.entries) :
    ∃ mark ∈ marks, entry.message = mark.message := by
  obtain ⟨mark, hmark, hof⟩ := exists_of_mem_forall₂ (ofMarks_eq_ok_iff.mp h) hentry
  obtain ⟨-, -, -, hmessage, -⟩ := Entry.ofMark_eq_ok_iff.mp hof
  exact ⟨mark, hmark, hmessage⟩

/-- Marks that all have an entry can be reported. -/
theorem Report.exists_ofMarks {table : LineTable} {marks : List (Mark μ)}
    (h : ∀ mark ∈ marks, ∃ entry, Entry.ofMark table mark = .ok entry) :
    ∃ report, Report.ofMarks table marks = .ok report := by
  obtain ⟨entries, hentries⟩ := exists_mapM_eq_ok h
  exact ⟨⟨entries⟩, by rw [Report.ofMarks, hentries]; rfl⟩

/-- The report of marks that all have an entry consists of these entries. -/
theorem Report.ofMarks_map {α : Type} {table : LineTable} {mark : α → Mark μ}
    {entry : α → Entry μ} {items : List α}
    (h : ∀ item ∈ items, Entry.ofMark table (mark item) = .ok (entry item)) :
    Report.ofMarks table (items.map mark) = .ok ⟨items.map entry⟩ := by
  rw [ofMarks_eq_ok_iff, List.forall₂_map_left_iff, List.forall₂_map_right_iff, List.forall₂_same]
  exact h

end SpanReport
