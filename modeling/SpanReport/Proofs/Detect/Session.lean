import SpanReport.Detect.Session
import SpanReport.Proofs.Draw.Script
import SpanReport.Proofs.Finding.Anchor
import SpanReport.Proofs.Report.Capitals
import SpanReport.Proofs.Report.Sample

/-! # What the steps of a session emit

Every step of a session adds its findings to the log and takes its draws, whatever was found before
(`Session.perform_eq`). So the log of a run holds the findings of its steps in turn
(`Session.performAll_eq`), and the marks that are taken out are those of the single steps, one after
another (`Session.holds_performAll`). -/

namespace SpanReport

namespace Session

variable {σ : Type} [DrawSource σ]

/-! ## A single step -/

/-- The draws that a step takes: one for each token of a sampled text. -/
def Step.drawCount : Step → Nat
  | .report _ _ => 0
  | .capitals _ => 0
  | .sample text => (tokens text).length

/-- A step is refused if one of its anchors is. -/
def Step.isRefused : Step → Bool
  | .report _ anchors => anchors.any Anchor.isRefused
  | .capitals _ => false
  | .sample _ => false

/-- The findings that a step adds to the log, with the draws of `source`. -/
def Step.findings (config : Config) (source : σ) : Step → List Finding
  | .report message anchors => [.ofAnchors message anchors]
  | .capitals text => (detectCapitals config text).map .ofMark
  | .sample text => (detectSample config text source).1.map .ofMark

/-- What a step emits, with the draws of `source`: for each of its findings the mark, or nothing if
the finding has no place. A finding made by hand has the mark of its last anchor before any is
refused, and a detector emits its marks. -/
def Step.emits (config : Config) (source : σ) : Step → List (Option (Mark String))
  | .report message anchors => [(finalAnchor anchors).map (Anchor.mark message)]
  | .capitals text => (detectCapitals config text).map some
  | .sample text => (detectSample config text source).1.map some

/-- The anchor that counts in a step is flat and ends at the limit of offsets or later. -/
def Step.Overflows : Step → Prop
  | .report _ anchors => ∃ anchor, finalAnchor anchors = some anchor ∧ anchor.Overflows
  | .capitals _ => False
  | .sample _ => False

/-- Anchors by columns have their bounds below the limit of offsets, and so have texts. -/
def Step.InRange : Step → Prop
  | .report _ anchors => ∀ anchor ∈ anchors, anchor.InRange
  | .capitals text => text.length + 1 < offsetLimit
  | .sample text => text.length + 1 < offsetLimit

/-- **A step adds its findings and takes its draws**, and does nothing else. -/
theorem perform_eq (config : Config) (session : Session σ) (step : Step) :
    session.perform config step =
      (if step.isRefused then .error .reversed else .ok (),
        ⟨⟨session.log.findings ++ step.findings config session.source⟩,
          (draws step.drawCount session.source).2⟩) := by
  cases step with
  | report message anchors =>
      rw [perform, Log.report, Finding.anchored_eq, Option.or_none]
      rfl
  | capitals text => rfl
  | sample text =>
      rw [perform, Step.findings, detectSample_eq_map]
      rfl

/-- What a step emits are the marks of its findings. -/
theorem Step.map_rawMark?_findings (config : Config) (source : σ) {step : Step}
    (h : step.InRange) :
    (step.findings config source).map Finding.rawMark? = step.emits config source := by
  cases step with
  | report message anchors =>
      rw [findings, List.map_singleton, Finding.rawMark?_ofAnchors]
      rfl
  | capitals text =>
      exact Finding.map_rawMark?_ofMark fun mark hmem =>
        (bounds_of_mem_detectCapitals config h mark hmem).1
  | sample text =>
      exact Finding.map_rawMark?_ofMark fun mark hmem =>
        (bounds_of_mem_detectSample config h source mark hmem).1

/-- A finding of a step ends too late exactly if the step overflows, which detectors never do. -/
theorem Step.exists_overflows_iff (config : Config) (source : σ) {step : Step}
    (h : step.InRange) :
    (∃ finding ∈ step.findings config source, finding.Overflows) ↔ step.Overflows := by
  cases step with
  | report message anchors =>
      simp only [findings, List.mem_singleton, exists_eq_left]
      exact Finding.overflows_ofAnchors_iff h
  | capitals text =>
      -- a detector's marks end in the text, which is in range
      refine ⟨?_, nofun⟩
      rintro ⟨finding, hmem, hoverflows⟩
      exact Finding.not_overflows_of_mem_map_ofMark (bounds_of_mem_detectCapitals config h) hmem
        hoverflows
  | sample text =>
      refine ⟨?_, nofun⟩
      rintro ⟨finding, hmem, hoverflows⟩
      exact Finding.not_overflows_of_mem_map_ofMark (bounds_of_mem_detectSample config h source)
        hmem hoverflows

/-! ## Steps in turn -/

/-- What steps emit in turn, each of them with the draws that those before it leave. -/
def emitted (config : Config) (source : σ) (steps : List Step) :
    List (List (Option (Mark String))) :=
  inTurn Step.drawCount (Step.emits config) source steps

/-- **The log of a run holds the findings of its steps in turn.** -/
theorem performAll_eq (config : Config) (session : Session σ) (steps : List Step) :
    session.performAll config steps =
      ⟨⟨session.log.findings ++
          (inTurn Step.drawCount (Step.findings config) session.source steps).flatten⟩,
        (draws (drawTotal Step.drawCount steps) session.source).2⟩ := by
  induction steps generalizing session with
  | nil =>
      rw [inTurn, List.flatten_nil, List.append_nil]
      rfl
  | cons step later ih =>
      -- the later steps go on with the log and the draws that the first one leaves
      have hcons : session.performAll config (step :: later) =
        (session.perform config step).2.performAll config later := rfl
      rw [hcons, perform_eq, ih, inTurn, List.flatten_cons, drawTotal, draws_add,
        List.append_assoc]

section Start

variable (config : Config) (source : σ) {steps : List Step}

/-- The findings of a session that started with an empty log are those of its steps. -/
theorem findings_performAll_start (steps : List Step) :
    ((Session.start source).performAll config steps).log.findings =
      (inTurn Step.drawCount (Step.findings config) source steps).flatten := by
  rw [performAll_eq]
  exact List.nil_append _

/-- The marks of these findings are what the steps emit in turn. -/
theorem map_rawMark?_performAll_start (hsteps : ∀ step ∈ steps, step.InRange) :
    ((Session.start source).performAll config steps).log.findings.map Finding.rawMark? =
      (emitted config source steps).flatten := by
  rw [findings_performAll_start, List.map_flatten, emitted,
    map_inTurn fun step hmem source => Step.map_rawMark?_findings config source (hsteps step hmem)]

/-- One of these findings ends too late exactly if a step overflows. -/
theorem exists_overflows_performAll_start_iff (hsteps : ∀ step ∈ steps, step.InRange) :
    (∃ finding ∈ ((Session.start source).performAll config steps).log.findings,
      finding.Overflows) ↔ ∃ step ∈ steps, step.Overflows := by
  have hmade : (∃ made ∈ inTurn Step.drawCount (Step.findings config) source steps,
      ∃ finding ∈ made, finding.Overflows) ↔ ∃ step ∈ steps, step.Overflows := by
    refine exists_mem_inTurn_iff (fun step hmem source => ?_) source
    exact Step.exists_overflows_iff config source (hsteps step hmem)
  rw [findings_performAll_start, ← hmade]
  constructor
  · rintro ⟨finding, hmem, hoverflows⟩
    obtain ⟨made, hmade, hmem⟩ := List.mem_flatten.mp hmem
    exact ⟨made, hmade, finding, hmem, hoverflows⟩
  · rintro ⟨made, hmade, finding, hmem, hoverflows⟩
    exact ⟨finding, List.mem_flatten.mpr ⟨made, hmade, hmem⟩, hoverflows⟩

end Start

/-- What can be told of a session that started with the draws of `source` and has done `steps`. -/
structure Holds (config : Config) (source : σ) (steps : List Step) (session : Session σ) :
    Prop where
  /-- The size of the log is the number of findings that were made, with or without a place. -/
  size_eq : session.log.size = (emitted config source steps).flatten.length
  /-- The draws that are left are those that the sampled texts did not take. -/
  source_eq : session.source = (draws (drawTotal Step.drawCount steps) source).2
  /-- The next step is refused only for an anchor of its own. -/
  outcome_eq : ∀ step : Step, (session.perform config step).1 =
    if step.isRefused then .error .reversed else .ok ()
  /-- The marks that are taken out are those that each step emits, one step after another. -/
  marks_eq : (∀ step ∈ steps, ¬ step.Overflows) →
    session.takeMarks.1 = .ok ((emitted config source steps).flatMap List.reduceOption)
  /-- Marks cannot be taken out exactly if the final anchor of a finding ends too late. -/
  marks_eq_error_iff : session.takeMarks.1 = .error .overflow ↔ ∃ step ∈ steps, step.Overflows

example : ((Session.start (Script.ofList [9, 1, 7])).performAll {}
    [.report "a" [.flat ⟨1, 2⟩, .columns 3 2 5, .columns 1 4 2], .sample ['x', ' ', 'y'],
      .report "b" [], .capitals ['a', ' ', 'B'], .sample ['z']]).takeMarks.1 =
    .ok [⟨"a", 2, 5, some 3⟩, ⟨"errorroror", 0, 1, none⟩, ⟨"errorror", 3, 4, some 1⟩,
      ⟨"errorroror", 0, 1, none⟩] := by
  cbv

end Session

end SpanReport
