import SpanReport.Finding.Mark

/-! # Findings

A `Finding` is a message that may point at a place of the text. Anchors give it its place, and the
last of them counts (`Finding.anchored`). A finding with a place has a mark (`Finding.mark`), and a
mark is the finding that points at its range (`Finding.ofMark`). -/

namespace SpanReport

/-- Where a finding points. -/
inductive Place
  /-- At offsets of the whole text. -/
  | flat (span : Span)
  /-- At columns of a line, both counted from one. -/
  | columns (line : Nat) (span : Span)
  deriving DecidableEq, Repr

namespace Place

/-- The range of a place, in its own units. -/
def span : Place → Span
  | flat span => span
  | columns _ span => span

/-- The line of a place that is given by columns. -/
def line : Place → Option Nat
  | flat _ => none
  | columns line _ => some line

end Place

/-- A request to point a finding at a place. -/
inductive Anchor
  /-- At offsets of the whole text. -/
  | flat (span : Span)
  /-- At the columns of a line from `start` up to, but not including, `stop`. -/
  | columns (line start stop : Nat)
  deriving DecidableEq, Repr

/-- The place that an anchor asks for; columns are refused if their end precedes their start. -/
def Anchor.place : Anchor → Except RangeError Place
  | .flat span => .ok (.flat span)
  | .columns line start stop => (Span.ofBounds start stop).map (.columns line)

/-- A message that may point at a place of the text. -/
structure Finding where
  /-- What was found. -/
  message : String
  /-- Where it was found, if anywhere. -/
  place : Option Place
  deriving DecidableEq, Repr

namespace Finding

/-- Point a finding at the places of the anchors in turn. The first anchor that is refused ends the
process, and the finding keeps the place it has by then. -/
def anchored (finding : Finding) : List Anchor → Finding × Except RangeError Unit
  | [] => (finding, .ok ())
  | anchor :: later =>
    match anchor.place with
    | .ok place => { finding with place := some place }.anchored later
    | .error error => (finding, .error error)

/-- The mark of a finding; one without a place has none. -/
def mark (finding : Finding) : Except RangeError (Option (Mark String)) :=
  match finding.place with
  | none => .ok none
  | some place =>
    place.span.stop.map fun stop => some ⟨finding.message, place.span.base, stop, place.line⟩

/-- The finding that points at the range of a mark. -/
def ofMark (mark : Mark String) : Finding where
  message := mark.message
  place :=
    let span := ⟨mark.start, mark.stop - mark.start⟩
    some (match mark.line with
      | none => .flat span
      | some line => .columns line span)

/-- A span as `describe` writes it. -/
def describeSpan (span : Span) : String :=
  s!"Span \x7b base: {span.base}, len: {span.length} \x7d"

/-- The line of `describe` that tells the place. -/
def describePlace : Option Place → String
  | none => ""
  | some (.flat span) => s!"        at raw position: {describeSpan span}\n"
  | some (.columns line span) => s!"        at line {line}, columns {describeSpan span}\n"

/-- A finding as text for a developer: its message as it is, then its place, between braces. -/
def describe (finding : Finding) : String :=
  s!"Error \x7b\n    {finding.message}\n{describePlace finding.place}\x7d"

end Finding

end SpanReport
