/-! # Sources of draws

A `DrawSource` yields numbers one at a time. `draws n` takes the next `n` of them and leaves the
source that remains. A `Script` is the source that goes round a fixed list of numbers. -/

namespace SpanReport

/-- A state from which numbers can be drawn. -/
class DrawSource (σ : Type) where
  /-- The next number, and the state that remains. -/
  draw : σ → Nat × σ

/-- The next draws, as many as told, and the state that remains. -/
def draws {σ : Type} [DrawSource σ] : Nat → σ → List Nat × σ
  | 0, source => ([], source)
  | count + 1, source =>
    let (value, source) := DrawSource.draw source
    let (values, source) := draws count source
    (value :: values, source)

/-- The least number that is drawn. -/
def leastDraw : Nat := 1

/-- The greatest number that is drawn. -/
def greatestDraw : Nat := 10

/-- The draws of a script: its values in turn, over and over. -/
structure Script where
  /-- The values to go round. -/
  values : Array Nat
  /-- The number of draws taken so far. -/
  taken : Nat

namespace Script

/-- The script of the given values, from its beginning. -/
def ofList (values : List Nat) : Script := ⟨values.toArray, 0⟩

/-- The draw with the given index, counted from zero; an empty script always draws the least
number. -/
def value (script : Script) (index : Nat) : Nat :=
  script.values[index % script.values.size]?.getD leastDraw

/-- A draw is the value whose turn it is. -/
instance : DrawSource Script where
  draw script := (script.value script.taken, { script with taken := script.taken + 1 })

/-- Draws that are above every threshold below ten. -/
def always : Script := ofList [greatestDraw]

/-- Draws that are above no threshold but zero. -/
def never : Script := ofList [leastDraw]

end Script

end SpanReport
