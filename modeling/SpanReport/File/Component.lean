import SpanReport.File.Path

/-! # The components of a path

A path may start at the root, or say that it starts at the working directory; then it goes step by
step to an entry of a directory or to the directory above. `Path.components` lists this start and
these steps. A piece that is empty, or `.` behind the start, makes no step. -/

namespace SpanReport

namespace Path

/-- The start of a path, or one of its steps. -/
inductive Component
  /-- The start at the root. -/
  | root
  /-- The start at the working directory, where it is written down. -/
  | current
  /-- The step to the directory above. -/
  | parent
  /-- The step to an entry of a directory. -/
  | normal (name : String)
  deriving DecidableEq, Repr

/-- The step that a piece of a path makes, if it makes one. -/
def step? (piece : String) : Option Component :=
  if piece = "" ∨ piece = "." then none
  else if piece = ".." then some .parent
  else some (.normal piece)

/-- What a path says of its start: nothing, if it starts with a name. -/
def start (path : Path) : List Component :=
  if path.isAbsolute then [.root]
  else if path.pieces.head? = some "." then [.current]
  else []

/-- The components of a path, from its start to its end. -/
def components (path : Path) : List Component :=
  path.start ++ path.pieces.filterMap step?

@[simp] theorem step?_empty : step? "" = none := rfl

/-- A piece that is neither empty nor a reference to a directory is the name of an entry. -/
theorem step?_of_ne {piece : String} (hempty : piece ≠ "") (hcurrent : piece ≠ ".")
    (hparent : piece ≠ "..") : step? piece = some (.normal piece) := by
  rw [step?, if_neg (not_or.mpr ⟨hempty, hcurrent⟩), if_neg hparent]

end Path

end SpanReport
