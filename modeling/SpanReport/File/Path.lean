import SpanReport.Text.Split

/-! # Paths

A `Path` is what stands between the slashes of its text, so that the text can be had back as it was.
The names among these pieces are followed in the file tree (`Path.names`); the names `.` and `..`
keep their meaning until then. `Path.lineage` lists a path and those of the directories that it
leads through. -/

namespace SpanReport

/-- The text of a path, cut at its slashes. -/
structure Path where
  /-- The pieces between the slashes; repeated slashes have empty pieces between them. -/
  pieces : List String
  deriving DecidableEq, Repr

namespace Path

/-- The path with the given text. -/
def ofString (text : String) : Path :=
  ⟨(split ['/'] text.toList).map String.ofList⟩

/-- The text of a path. -/
def toString (path : Path) : String :=
  "/".intercalate path.pieces

/-- Whether the names are followed from the root rather than from the working directory. -/
def isAbsolute (path : Path) : Bool :=
  match path.pieces with
  | "" :: _ :: _ => true
  | _ => false

/-- The names of a path, the outermost first. A slash at the end asks for a directory, as a last
name `.` does. -/
def names (path : Path) : List String :=
  let names := path.pieces.filter (· ≠ "")
  if names ≠ [] ∧ path.pieces.getLast? = some "" then names ++ ["."] else names

/-- The paths that end at a piece with a name of its own, among pieces that are given from the last
to the first; the longest path comes first. -/
def lineageOf : List String → List Path
  | [] => []
  | piece :: above =>
    if piece = "" ∨ piece = "." then lineageOf above
    else ⟨(piece :: above).reverse⟩ :: lineageOf above

/-- A path, without anything that adds no name at its end, and the paths of the directories that it
leads through, from the innermost to the outermost. -/
def lineage (path : Path) : List Path :=
  lineageOf path.pieces.reverse

/-- The text of a path that leads on from `base` by a name. A slash stands between them, unless the
base is empty or ends with one. -/
def joinText (base name : String) : String :=
  match base.toList.getLast? with
  | none | some '/' => base ++ name
  | some _ => base ++ "/" ++ name

end Path

end SpanReport
