import SpanReport.Text.Position
import SpanReport.Text.Terminator

/-! # Line tables

A `LineTable` holds the start and the length of every line of a text. It turns flat offsets into
editor positions (`LineTable.position`) by a binary search over the line starts, and positions back
into offsets (`LineTable.offset?`) by a look-up of the line. A terminator belongs to the line that
it ends, as columns past that line's content. -/

namespace SpanReport

/-- Why a place cannot be found in a text. -/
inductive LocateError
  /-- The offset is not below the number of characters, `size`. -/
  | outOfBounds (offset size : Nat)
  /-- The position names no character. -/
  | noSuchPosition (position : Position)
  deriving DecidableEq, Repr

/-- The wording of a locate error. -/
def LocateError.message : LocateError → String
  | .outOfBounds offset size =>
    s!"offset {offset} is outside of a source of {size} characters"
  | .noSuchPosition position =>
    s!"position {position} does not name a character of the source"

/-- Where a line lies in its text. -/
structure Line where
  /-- The offset of the first character. -/
  start : Nat
  /-- The number of characters before the terminator. -/
  length : Nat
  deriving DecidableEq, Repr

/-- Lay lines one after another from `start`, with `width` characters at every boundary. -/
def layLines (width : Nat) : Nat → List Text → List Line
  | _, [] => []
  | start, line :: later =>
    ⟨start, line.length⟩ :: layLines width (start + line.length + width) later

@[simp] theorem length_layLines (width start : Nat) (lines : List Text) :
    (layLines width start lines).length = lines.length := by
  induction lines generalizing start with
  | nil => rfl
  | cons line later ih => simp [layLines, ih]

/-- The lines of a text, ready for look-ups in both directions. -/
structure LineTable where
  /-- The terminator that separates the lines. -/
  terminator : Terminator
  /-- The lines, from first to last. -/
  lines : Array Line
  /-- The number of characters of the text. -/
  size : Nat
  /-- A text has at least one line. -/
  lines_pos : 0 < lines.size

namespace LineTable

/-- The line table of a text. -/
def ofText (text : Text) (terminator : Terminator) : LineTable where
  terminator := terminator
  lines := (layLines terminator.width 0 (terminator.lines text)).toArray
  size := text.length
  lines_pos := by
    simpa using List.length_pos_iff.2 (Terminator.lines_ne_nil terminator text)

@[simp] theorem size_ofText (text : Text) (terminator : Terminator) :
    (ofText text terminator).size = text.length := rfl

@[simp] theorem terminator_ofText (text : Text) (terminator : Terminator) :
    (ofText text terminator).terminator = terminator := rfl

/-- Whether the text has no characters. -/
def isEmpty (table : LineTable) : Bool :=
  table.size == 0

/-- The number of lines. -/
def lineCount (table : LineTable) : Nat :=
  table.lines.size

@[simp] theorem lineCount_ofText (text : Text) (terminator : Terminator) :
    (ofText text terminator).lineCount = (terminator.lines text).length := by
  simp [lineCount, ofText]

/-- The length of a line, counted from one, without its terminator. -/
def lineLength? (table : LineTable) : Nat → Option Nat
  | 0 => none
  | index + 1 => table.lines[index]?.map Line.length

/-- The last of the lines from `low` up to, but not including, `high` that starts at or before
`offset`; the first of them if there is none. -/
def lastStarting (lines : Array Line) (offset low high : Nat) (hlow : low < high)
    (hhigh : high ≤ lines.size) : Fin lines.size :=
  if h : low + 1 < high then
    let middle := low + (high - low) / 2
    if (lines[middle]).start ≤ offset then
      lastStarting lines offset middle high (by omega) hhigh
    else
      lastStarting lines offset low middle (by omega) (by omega)
  else ⟨low, by omega⟩
termination_by high - low
decreasing_by all_goals omega

/-- The index of the line that holds the character at `offset`. -/
def lineAt (table : LineTable) (offset : Nat) : Fin table.lines.size :=
  lastStarting table.lines offset 0 table.lines.size table.lines_pos (Nat.le_refl _)

/-- The position of the character at `offset`. -/
def position (table : LineTable) (offset : Nat) : Except LocateError Position :=
  if offset < table.size then
    let index := table.lineAt offset
    .ok ⟨index + 1, offset - table.lines[index].start + 1⟩
  else
    .error (.outOfBounds offset table.size)

/-- The number of columns that the line at `index` offers: its content, and its terminator unless
it is the last line. -/
def reach (table : LineTable) (index : Nat) (line : Line) : Nat :=
  if index + 1 = table.lines.size then line.length else line.length + table.terminator.width

/-- The offset of the character at a position, if the position names one. -/
def offset? (table : LineTable) : Position → Option Nat
  | ⟨index + 1, column + 1⟩ =>
    match table.lines[index]? with
    | some line => if column < table.reach index line then some (line.start + column) else none
    | none => none
  | _ => none

/-- The offset of the character at a position, or the error that there is none. -/
def offset (table : LineTable) (position : Position) : Except LocateError Nat :=
  match table.offset? position with
  | some offset => .ok offset
  | none => .error (.noSuchPosition position)

end LineTable

end SpanReport
