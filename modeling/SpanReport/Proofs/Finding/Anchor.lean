import Mathlib.Data.List.TakeWhile
import SpanReport.Proofs.Finding.Log

/-! # Findings under anchors

An anchor is refused if its columns are reversed. The place of a finding is that of the last anchor
before any is refused (`Finding.anchored_eq`), and that anchor alone tells the mark of the finding
(`Finding.rawMark?_ofAnchors`) and whether it ends too late (`Finding.overflows_ofAnchors_iff`). -/

namespace SpanReport

/-! ## Single anchors -/

namespace Anchor

/-- An anchor is refused if its columns end before they start. -/
def isRefused : Anchor → Bool
  | .flat _ => false
  | .columns _ start stop => stop < start

/-- The place that an anchor points at, if it is not refused. -/
def target : Anchor → Place
  | .flat span => .flat span
  | .columns line start stop => .columns line ⟨start, stop - start⟩

/-- The mark of a finding that points at an anchor. -/
def mark (message : String) : Anchor → Mark String
  | .flat span => ⟨message, span.base, span.base + span.length, none⟩
  | .columns line start stop => ⟨message, start, stop, some line⟩

/-- The bounds of an anchor by columns are below the limit of offsets. Nothing is asked of a flat
one, whose end need not be an offset. -/
def InRange : Anchor → Prop
  | .flat _ => True
  | .columns _ _ stop => stop < offsetLimit

/-- A flat anchor ends at the limit of offsets or later. -/
def Overflows : Anchor → Prop
  | .flat span => offsetLimit ≤ span.base + span.length
  | .columns _ _ _ => False

/-- An anchor that is not refused has its place. -/
theorem place_of_not_isRefused {anchor : Anchor} (h : anchor.isRefused = false) :
    anchor.place = .ok anchor.target := by
  cases anchor with
  | flat span => rfl
  | columns line start stop =>
      rw [place, Span.ofBounds_of_le (Nat.le_of_not_lt (of_decide_eq_false h))]
      rfl

/-- A refused anchor has none. -/
theorem place_of_isRefused {anchor : Anchor} (h : anchor.isRefused = true) :
    anchor.place = .error .reversed := by
  cases anchor with
  | flat span => exact absurd h Bool.false_ne_true
  | columns line start stop =>
      rw [place, Span.ofBounds_of_lt (of_decide_eq_true h)]
      rfl

/-- The place of an anchor ends where its mark does. -/
theorem span_target (message : String) {anchor : Anchor} (h : anchor.isRefused = false) :
    anchor.target.span.base = (anchor.mark message).start ∧
      anchor.target.span.base + anchor.target.span.length = (anchor.mark message).stop := by
  cases anchor with
  | flat span => exact ⟨rfl, rfl⟩
  | columns line start stop =>
      have hle : start ≤ stop := Nat.le_of_not_lt (of_decide_eq_false h)
      exact ⟨rfl, Nat.add_sub_cancel' hle⟩

/-- In range, only flat anchors can end too late. -/
theorem overflows_iff (message : String) {anchor : Anchor} (h : anchor.InRange) :
    anchor.Overflows ↔ offsetLimit ≤ (anchor.mark message).stop := by
  cases anchor with
  | flat span => exact Iff.rfl
  | columns line start stop => exact ⟨nofun, fun hle => absurd h (Nat.not_lt.mpr hle)⟩

end Anchor

/-! ## Anchors in turn -/

/-- The anchor that counts: the last one before any is refused. -/
def finalAnchor (anchors : List Anchor) : Option Anchor :=
  (anchors.takeWhile fun anchor => !anchor.isRefused).getLast?

/-- A refused anchor ends the process. -/
theorem finalAnchor_cons_of_isRefused {anchor : Anchor} (h : anchor.isRefused = true)
    (later : List Anchor) : finalAnchor (anchor :: later) = none := by
  rw [finalAnchor, List.takeWhile_cons_of_neg (by simp [h])]
  rfl

/-- An anchor that is not refused counts unless a later one does. -/
theorem finalAnchor_cons_of_not_isRefused {anchor : Anchor} (h : anchor.isRefused = false)
    (later : List Anchor) :
    finalAnchor (anchor :: later) = some ((finalAnchor later).getD anchor) := by
  rw [finalAnchor, List.takeWhile_cons_of_pos (by simp [h]), List.getLast?_cons]
  rfl

/-- The anchor that counts is not refused, and it is one of the anchors. -/
theorem mem_of_finalAnchor_eq_some {anchors : List Anchor} {anchor : Anchor}
    (h : finalAnchor anchors = some anchor) : anchor ∈ anchors ∧ anchor.isRefused = false := by
  have hmem := List.mem_of_getLast? h
  refine ⟨List.takeWhile_subset _ hmem, ?_⟩
  simpa using List.mem_takeWhile_imp hmem

namespace Finding

/-- **A finding points at the last anchor before any is refused**, and stays where it is without
one. -/
theorem anchored_eq (finding : Finding) (anchors : List Anchor) :
    finding.anchored anchors =
      ({ finding with place := ((finalAnchor anchors).map Anchor.target).or finding.place },
        if anchors.any Anchor.isRefused then .error .reversed else .ok ()) := by
  induction anchors generalizing finding with
  | nil => rfl
  | cons anchor later ih =>
      cases hrefused : anchor.isRefused with
      | true =>
          rw [anchored, Anchor.place_of_isRefused hrefused,
            finalAnchor_cons_of_isRefused hrefused, List.any_cons, hrefused]
          rfl
      | false =>
          rw [anchored, Anchor.place_of_not_isRefused hrefused,
            finalAnchor_cons_of_not_isRefused hrefused, List.any_cons, hrefused]
          simp only [ih, Bool.false_or, Option.map_some, Option.some_or]
          cases finalAnchor later with
          | none => rfl
          | some final => rfl

/-- The finding that a message and anchors make. -/
def ofAnchors (message : String) (anchors : List Anchor) : Finding :=
  ⟨message, (finalAnchor anchors).map Anchor.target⟩

/-- The mark of a finding is told by the anchor that counts. -/
theorem rawMark?_ofAnchors (message : String) (anchors : List Anchor) :
    (ofAnchors message anchors).rawMark? = (finalAnchor anchors).map (Anchor.mark message) := by
  rw [rawMark?, ofAnchors]
  cases hfinal : finalAnchor anchors with
  | none => rfl
  | some anchor =>
      have hrefused := (mem_of_finalAnchor_eq_some hfinal).2
      obtain ⟨hbase, hstop⟩ := Anchor.span_target message hrefused
      simp only [Option.map_some, hstop]
      rw [hbase]
      cases anchor with
      | flat span => rfl
      | columns line start stop => rfl

/-- A finding overflows exactly if the anchor that counts does. -/
theorem overflows_ofAnchors_iff {message : String} {anchors : List Anchor}
    (h : ∀ anchor ∈ anchors, anchor.InRange) :
    (ofAnchors message anchors).Overflows ↔
      ∃ anchor, finalAnchor anchors = some anchor ∧ anchor.Overflows := by
  rw [Overflows, ofAnchors]
  cases hfinal : finalAnchor anchors with
  | none => simp
  | some anchor =>
      obtain ⟨hmem, hrefused⟩ := mem_of_finalAnchor_eq_some hfinal
      obtain ⟨-, hstop⟩ := Anchor.span_target message hrefused
      simp only [Option.map_some, Option.some.injEq, exists_eq_left', hstop]
      exact (Anchor.overflows_iff message (h anchor hmem)).symm

end Finding

end SpanReport
