/-! # Editor positions

A `Position` is a line and a column, both counted from one. Positions are ordered by line and then
by column. -/

namespace SpanReport

/-- A place in a text as an editor shows it: a line and a column, both counted from one. -/
structure Position where
  /-- The line, counted from one. -/
  line : Nat
  /-- The column, counted from one. -/
  column : Nat
  deriving DecidableEq, Repr

namespace Position

/-- Positions compare by line and then by column. -/
instance : LT Position :=
  ⟨fun p q => p.line < q.line ∨ (p.line = q.line ∧ p.column < q.column)⟩

/-- A position precedes another or equals it. -/
instance : LE Position :=
  ⟨fun p q => p.line < q.line ∨ (p.line = q.line ∧ p.column ≤ q.column)⟩

theorem lt_def {p q : Position} :
    p < q ↔ p.line < q.line ∨ (p.line = q.line ∧ p.column < q.column) := Iff.rfl

theorem le_def {p q : Position} :
    p ≤ q ↔ p.line < q.line ∨ (p.line = q.line ∧ p.column ≤ q.column) := Iff.rfl

/-- The order of positions is decidable. -/
instance (p q : Position) : Decidable (p < q) :=
  decidable_of_iff _ lt_def.symm

/-- The weak order of positions is decidable. -/
instance (p q : Position) : Decidable (p ≤ q) :=
  decidable_of_iff _ le_def.symm

/-- A position is written as its line and its column with a colon between them. -/
instance : ToString Position :=
  ⟨fun p => toString p.line ++ ":" ++ toString p.column⟩

/-- The positions of a list in ascending order. -/
def sorted (positions : List Position) : List Position :=
  positions.mergeSort (fun p q => decide (p ≤ q))

end Position

end SpanReport
