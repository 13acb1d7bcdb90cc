import SpanReport.Detect.Capitals
import SpanReport.Proofs.Report.Stretch
import SpanReport.Proofs.Text.Token

/-! # Where capitals are flagged

The scan of a line closes a part at a space, at the last character of the line, or behind it
(`ScanState.step`, `ScanState.finish`). `capitalColumns` says the same without the two cases at the
end of the line: a part that is not closed by a space ends where the line does (`scanColumns_eq`).
The columns lie in their line, end after they start, and follow one another with a space in between.
So the marks of a text are those of stretches of its lines, in the order of the text
(`detectCapitals_eq_map`). There are none exactly if the text has no capital
(`detectCapitals_eq_nil_iff`). -/

namespace SpanReport

/-! ## The columns of a line -/

/-- The columns of the flagged parts of a line, from `column` on. A part that was entered before
starts at the column `entered`. -/
def capitalColumns (column : Nat) (entered : Option Nat) : Text → List (Nat × Nat)
  | [] =>
    match entered with
    | none => []
    | some start => [(start, column)]
  | c :: rest =>
    match entered with
    | none => capitalColumns (column + 1) (if isCapital c then some column else none) rest
    | some start =>
      if c = ' ' then (start, column) :: capitalColumns (column + 1) none rest
      else capitalColumns (column + 1) (some start) rest

/-- The column at which the part begins that the scan is in. -/
def ScanState.entered : ScanState → Option Nat
  | idle => none
  | flagging start => some start

/-- Whether a part is closed at the last character of the line or behind it, it ends there. -/
theorem ScanState.run_eq {length index : Nat} {line : Text} (state : ScanState)
    (h : index + line.length = length) :
    state.run length index line = capitalColumns (index + 1) state.entered line := by
  induction line generalizing state index with
  | nil =>
      obtain rfl : index = length := h
      cases state <;> rfl
  | cons c rest ih =>
      rw [List.length_cons] at h
      have hlater : ∀ next : ScanState, next.run length (index + 1) rest =
          capitalColumns (index + 1 + 1) next.entered rest := fun next => ih next (by omega)
      cases state with
      | idle =>
          cases hcapital : isCapital c <;>
            simp [run, step, entered, capitalColumns, hcapital, hlater]
      | flagging start =>
          by_cases hspace : c = ' '
          · simp [run, step, entered, capitalColumns, hspace, hlater]
          · by_cases hlast : index + 1 = length
            · -- nothing is left of the line, and the part is closed with its last character
              obtain rfl : rest = [] := List.eq_nil_of_length_eq_zero (by omega)
              simp [run, step, finish, entered, capitalColumns, hspace, hlast]
            · simp [run, step, entered, capitalColumns, hspace, hlast, hlater]

/-- **The scan closes the flagged parts of the line.** -/
theorem scanColumns_eq (line : Text) : scanColumns line = capitalColumns 1 none line :=
  ScanState.idle.run_eq (Nat.zero_add _)

/-- Flagged columns start where a part was entered or later, and end later than that, but no later
than the line. -/
theorem mem_capitalColumns {column : Nat} {entered : Option Nat} {line : Text} {start stop : Nat}
    (hentered : ∀ first ∈ entered, first < column)
    (h : (start, stop) ∈ capitalColumns column entered line) :
    entered.getD column ≤ start ∧ start < stop ∧ stop ≤ column + line.length := by
  induction line generalizing column entered with
  | nil =>
      cases entered with
      | none => exact absurd h List.not_mem_nil
      | some first =>
          obtain ⟨rfl, rfl⟩ := Prod.mk.inj (List.mem_singleton.mp h)
          exact ⟨Nat.le_refl _, hentered start rfl, Nat.le_refl _⟩
  | cons c rest ih =>
      rw [List.length_cons]
      cases entered with
      | none =>
          -- whether or not a part is entered here, nothing flagged starts before this column
          rw [capitalColumns] at h
          simp only [Option.getD_none]
          split at h
          · have hmem := ih (by simp) h
            simp only [Option.getD_some] at hmem
            omega
          · have hmem := ih (by simp) h
            simp only [Option.getD_none] at hmem
            omega
      | some first =>
          have hfirst := hentered first rfl
          rw [capitalColumns] at h
          simp only [Option.getD_some]
          split at h
          · -- the space closes the part that was entered
            obtain heq | hmem := List.mem_cons.mp h
            · obtain ⟨rfl, rfl⟩ := Prod.mk.inj heq
              omega
            · have hlater := ih (by simp) hmem
              simp only [Option.getD_none] at hlater
              omega
          · have hmem := ih (by simp; omega) h
            simp only [Option.getD_some] at hmem
            omega

/-- Flagged columns follow one another with at least one column in between. -/
theorem pairwise_capitalColumns {column : Nat} {entered : Option Nat} {line : Text}
    (hentered : ∀ first ∈ entered, first < column) :
    (capitalColumns column entered line).Pairwise fun earlier later => earlier.2 < later.1 := by
  induction line generalizing column entered with
  | nil => cases entered <;> simp [capitalColumns]
  | cons c rest ih =>
      cases entered with
      | none =>
          rw [capitalColumns]
          split <;> exact ih (by simp)
      | some first =>
          have hfirst := hentered first rfl
          rw [capitalColumns]
          split
          · -- the column of the closing space lies between the part and the later ones
            refine List.pairwise_cons.mpr ⟨fun later hlater => ?_, ih (by simp)⟩
            exact (mem_capitalColumns (by simp) hlater).1
          · exact ih (by simp; omega)

/-! ## The stretches of a text -/

/-- The spans of a line that hold its flagged parts, with columns counted from zero. -/
def capitalSpans (line : Text) : List Span :=
  (capitalColumns 1 none line).map fun (start, stop) => ⟨start - 1, stop - start⟩

/-- A flagged part is a stretch of its line. -/
theorem mem_capitalSpans {line : Text} {span : Span} (h : span ∈ capitalSpans line) :
    0 < span.length ∧ span.base + span.length ≤ line.length := by
  obtain ⟨⟨start, stop⟩, hmem, rfl⟩ := List.mem_map.mp h
  have hbounds := mem_capitalColumns (by simp) hmem
  simp only [Option.getD_none] at hbounds ⊢
  omega

/-- The flagged stretches of lines lie within them. -/
theorem within_of_mem_capitals {lines : List Text} :
    ∀ stretch ∈ Stretch.ofLines capitalSpans lines, stretch.Within lines :=
  fun _ hmem => Stretch.within_of_mem_ofLines (fun _ _ => mem_capitalSpans) hmem

/-- The flagged parts of a line follow one another with at least one character in between. -/
theorem pairwise_capitalSpans (line : Text) :
    (capitalSpans line).Pairwise fun earlier later =>
      earlier.base + earlier.length < later.base := by
  rw [capitalSpans, List.pairwise_map]
  refine (pairwise_capitalColumns (by simp)).imp_of_mem ?_
  rintro ⟨start, stop⟩ ⟨start', stop'⟩ hearlier hlater hlt
  have hbounds := mem_capitalColumns (by simp) hearlier
  simp only [Option.getD_none] at hbounds hlt ⊢
  omega

/-- The marks of a line are the columns of its flagged parts. -/
theorem capitalMarks_eq_map (message : String) (index : Nat) (line : Text) :
    capitalMarks message (index + 1) line =
      ((capitalSpans line).map (Stretch.mk index)).map (Stretch.columnMark message) := by
  rw [capitalMarks, scanColumns_eq, capitalSpans, List.map_map, List.map_map]
  refine List.map_congr_left ?_
  rintro ⟨start, stop⟩ hmem
  have hbounds := mem_capitalColumns (by simp) hmem
  simp only [Option.getD_none] at hbounds
  have hstart : start - 1 + 1 = start := by omega
  have hstop : start + (stop - start) = stop := by omega
  simp only [Function.comp_apply, Stretch.columnMark, hstart, hstop]

/-- **The marks of a text are those of the flagged stretches of its lines.** -/
theorem detectCapitals_eq_map (config : Config) (text : Text) :
    detectCapitals config text =
      (Stretch.ofLines capitalSpans (config.terminator.lines text)).map
        (Stretch.columnMark config.capitalMessage) := by
  rw [detectCapitals, Stretch.ofLines, List.zipIdx_succ, List.flatMap_map, List.map_flatMap]
  simp only [capitalMarks_eq_map]

/-! ## Texts without capitals -/

/-- A part that was entered is flagged. -/
theorem capitalColumns_some_ne_nil (column start : Nat) (line : Text) :
    capitalColumns column (some start) line ≠ [] := by
  induction line generalizing column with
  | nil => exact List.cons_ne_nil _ _
  | cons c rest ih =>
      rw [capitalColumns]
      split
      · exact List.cons_ne_nil _ _
      · exact ih (column + 1)

/-- Nothing of a line is flagged exactly if it has no capital. -/
theorem capitalColumns_none_eq_nil_iff {column : Nat} {line : Text} :
    capitalColumns column none line = [] ↔ ∀ c ∈ line, isCapital c = false := by
  induction line generalizing column with
  | nil => exact ⟨fun _ => nofun, fun _ => rfl⟩
  | cons c rest ih =>
      rw [capitalColumns, List.forall_mem_cons]
      cases hcapital : isCapital c with
      | true =>
          have hne := capitalColumns_some_ne_nil (column + 1) column rest
          simpa using hne
      | false => simpa using ih

/-- **The detector is silent about a text exactly if the text has no capital.** -/
theorem detectCapitals_eq_nil_iff (config : Config) (text : Text) :
    detectCapitals config text = [] ↔ ∀ c ∈ text, isCapital c = false := by
  have hline (message : String) (number : Nat) (line : Text) :
      capitalMarks message number line = [] ↔ ∀ c ∈ line, isCapital c = false := by
    rw [capitalMarks, List.map_eq_nil_iff, scanColumns_eq, capitalColumns_none_eq_nil_iff]
  have hmarks : detectCapitals config text = [] ↔
      ∀ line ∈ config.terminator.lines text, ∀ c ∈ line, isCapital c = false := by
    rw [← List.zipIdx_map_fst 1 (config.terminator.lines text), List.forall_mem_map]
    simp only [detectCapitals, List.flatMap_eq_nil_iff, hline]
  have hjoined := config.terminator.intercalate_lines text
  rw [hmarks]
  constructor
  · intro h c hc
    rw [← hjoined] at hc
    rcases mem_intercalate hc with hterminator | ⟨line, hline, hmem⟩
    · exact isCapital_of_isBlank (Terminator.isBlank_of_mem_chars hterminator)
    · exact h line hline c hmem
  · intro h line hline c hc
    refine h c ?_
    rw [← hjoined]
    exact mem_intercalate_of_mem _ hline hc

/-- An ASCII text is passed over exactly if it has small letters, digits and blanks only: even a
punctuation mark counts as a capital. -/
theorem detectCapitals_eq_nil_iff_of_lt (config : Config) {text : Text}
    (h : ∀ c ∈ text, c.toNat < 0x80) :
    detectCapitals config text = [] ↔
      ∀ c ∈ text, c.isDigit = true ∨ isBlank c = true ∨ c.isLower = true := by
  rw [detectCapitals_eq_nil_iff]
  refine forall₂_congr fun c hc => ?_
  rw [isCapital, isOwnUpperCase_of_lt (h c hc)]
  cases c.isDigit <;> cases isBlank c <;> simp

end SpanReport
