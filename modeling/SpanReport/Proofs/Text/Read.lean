import Mathlib.Algebra.Group.Nat.Defs
import SpanReport.Proofs.Text.Runs

/-! # What a span reads

A span covers characters of a text if the text has one at each of its offsets (`Span.Covers`).
Reading a span gives the characters that it covers, and nothing if there are none
(`Span.read_eq_some_iff`, `Span.read_eq_none_iff`). The bounds are never compared with the text: the
characters are counted while they are collected. The count stays within the length of the span, so
reading does not fail even where the end of the span is not an offset any more
(`Span.readCounting_eq_ok`). An empty span covers no characters and is read wherever it stands; it
is the only one that can be read past the end of a text (`Span.read_tells_bounds`). -/

namespace SpanReport

/-! ## Counting characters -/

/-- The number of characters of a text, counted on from `count` by a checked sum for each. -/
def countFrom (count : Nat) : Text → Except RangeError Nat
  | [] => .ok count
  | _ :: rest => (offsetSum count 1).bind fun next => countFrom next rest

/-- **Checked steps come down to one checked sum**: the count fails exactly if the total reaches the
limit of offsets. -/
theorem countFrom_eq_offsetSum {count : Nat} (hcount : count < offsetLimit) (text : Text) :
    countFrom count text = offsetSum count text.length := by
  induction text generalizing count with
  | nil => exact (offsetSum_of_lt (show count + 0 < offsetLimit from hcount)).symm
  | cons c rest ih =>
      rw [countFrom, List.length_cons]
      by_cases hnext : count + 1 < offsetLimit
      · rw [offsetSum_of_lt hnext]
        show countFrom (count + 1) rest = _
        rw [ih hnext, offsetSum, offsetSum, Nat.add_assoc, Nat.add_comm 1]
      · have htotal : offsetLimit ≤ count + (rest.length + 1) := by omega
        rw [offsetSum_of_le (Nat.le_of_not_lt hnext), offsetSum_of_le htotal]
        rfl

namespace Span

variable {span : Span} {text characters : Text}

/-- Reading step by step: the characters from the start of a span on are collected, up to as many as
the span is long, and counted meanwhile. They are given out if the count is the length. -/
def readCounting (span : Span) (text : Text) : Except RangeError (Option Text) :=
  let collected := (text.drop span.base).take span.length
  (countFrom 0 collected).map fun count =>
    if count = span.length then some collected else none

/-- **Counting never fails**, wherever the span starts: no more characters are collected than the
span is long. -/
theorem readCounting_eq_ok (text : Text) (hlength : span.length < offsetLimit) :
    span.readCounting text = .ok (span.read text) := by
  have hle : ((text.drop span.base).take span.length).length ≤ span.length :=
    List.length_take_le _ _
  have hsum : 0 + ((text.drop span.base).take span.length).length < offsetLimit := by omega
  have hpos : 0 < offsetLimit := Nat.zero_lt_of_lt hlength
  rw [readCounting, countFrom_eq_offsetSum hpos, offsetSum_of_lt hsum, Nat.zero_add]
  rfl

/-! ## Covered characters -/

/-- A span covers characters of a text: they are as many as the span is long, and each stands in the
text at its offset. -/
structure Covers (span : Span) (text characters : Text) : Prop where
  /-- There is a character for every offset of the span. -/
  length_eq : characters.length = span.length
  /-- Each character is that of the text, counted from the start of the span. -/
  getElem?_eq : ∀ index < span.length, text[span.base + index]? = characters[index]?

/-- **A span reads the characters that it covers**, and no others. -/
theorem read_eq_some_iff : span.read text = some characters ↔ span.Covers text characters := by
  constructor
  · intro h
    exact ⟨length_of_read h, fun index hindex => getElem?_of_read h hindex⟩
  · intro hcovers
    have hcollected : (text.drop span.base).take span.length = characters := by
      refine List.ext_getElem? fun index => ?_
      rcases Nat.lt_or_ge index span.length with hlt | hge
      · rw [List.getElem?_take_of_lt hlt, List.getElem?_drop, hcovers.getElem?_eq index hlt]
      · rw [List.getElem?_take_eq_none hge,
          List.getElem?_eq_none (Nat.le_trans (Nat.le_of_eq hcovers.length_eq) hge)]
    rw [read, hcollected]
    exact if_pos hcovers.length_eq

/-- **A span reads nothing** exactly if it covers at least one offset and ends past the text. -/
theorem read_eq_none_iff :
    span.read text = none ↔ 0 < span.length ∧ text.length < span.base + span.length := by
  rw [read]
  simp only [List.length_take, List.length_drop]
  split
  next hfull => exact iff_of_false (Option.some_ne_none _) (by omega)
  next hshort => exact iff_of_true rfl (by omega)

/-- **What a span reads, and when it reads nothing.** For any bounds below the limit of offsets,
their sum included or not, reading does not fail. It gives the characters of the text at the offsets
of the span, or nothing if the span is not empty and ends past the text. So it tells whether a span
is out of bounds, unless the span is empty and starts past the end of the text. -/
theorem read_tells_bounds (text : Text) {span : Span} (hlength : span.length < offsetLimit) :
    span.readCounting text = .ok (span.read text) ∧
      (∀ characters, span.read text = some characters ↔ span.Covers text characters) ∧
      (span.read text = none ↔
        span.isEmpty = false ∧ text.length < span.base + span.length) ∧
      ((span.read text = none ↔ text.length < span.base + span.length) ↔
        (span.isEmpty = true → span.base ≤ text.length)) := by
  have hempty : span.isEmpty = true ↔ span.length = 0 := beq_iff_eq
  have hnonempty : span.isEmpty = false ↔ 0 < span.length := by
    rw [← Bool.not_eq_true, hempty, Nat.pos_iff_ne_zero]
  refine ⟨readCounting_eq_ok text hlength, fun characters => read_eq_some_iff, ?_, ?_⟩
  · rw [read_eq_none_iff, hnonempty]
  · rw [read_eq_none_iff, hempty]
    omega

/-- A span whose end is not an offset any more, one at the end of a text of two-byte characters, and
an empty one behind it. -/
theorem read_tells_bounds_past_limit :
    let late : Span := ⟨2 ^ 64 - 1, 2 ^ 64 - 1⟩
    (late.length < offsetLimit ∧ late.stop = .error .overflow ∧
      late.readCounting "äö Def".toList = .ok none) ∧
    ((⟨3, 3⟩ : Span).length < offsetLimit ∧
      (⟨3, 3⟩ : Span).readCounting "äö Def".toList = .ok (some "Def".toList)) ∧
    ((⟨7, 0⟩ : Span).length < offsetLimit ∧
      (⟨7, 0⟩ : Span).readCounting "äö Def".toList = .ok (some [])) := by
  intro late
  obtain ⟨hlate, -, hnone, -⟩ := @read_tells_bounds "äö Def".toList late (by decide)
  obtain ⟨hword, -⟩ := @read_tells_bounds "äö Def".toList ⟨3, 3⟩ (by decide)
  obtain ⟨hempty, -⟩ := @read_tells_bounds "äö Def".toList ⟨7, 0⟩ (by decide)
  refine ⟨⟨by decide, offsetSum_of_le (by decide), ?_⟩, ⟨by decide, ?_⟩, by decide, ?_⟩
  · rw [hlate, hnone.mpr ⟨rfl, by decide⟩]
  · rw [hword]
    rfl
  · rw [hempty]
    rfl

/-- An empty span past the end of a text is out of bounds, but it is read. -/
theorem not_read_eq_none_iff_empty_past_end :
    ¬ ((⟨4, 0⟩ : Span).read "abc".toList = none ↔ "abc".toList.length < 4 + 0) := by
  decide

end Span

end SpanReport
