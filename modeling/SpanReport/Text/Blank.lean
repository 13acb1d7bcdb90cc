import SpanReport.Text.CodeRange

/-! # Blank characters

The characters with the property `White_Space` of the Unicode character database. Line feeds and
carriage returns are among them, so that a run of other characters never reaches across a line
boundary. -/

namespace SpanReport

/-- The code points of the blank characters, in ascending order. -/
def blankRanges : List CodeRange :=
  [⟨0x0009, 0x000D, 1⟩, .single 0x0020, .single 0x0085, .single 0x00A0, .single 0x1680,
   ⟨0x2000, 0x200A, 1⟩, ⟨0x2028, 0x2029, 1⟩, .single 0x202F, .single 0x205F, .single 0x3000]

/-- Whether a character is blank. -/
def isBlank (c : Char) : Bool :=
  blankRanges.any (·.contains c.toNat)

@[simp] theorem isBlank_space : isBlank ' ' = true := by decide

@[simp] theorem isBlank_lineFeed : isBlank '\n' = true := by decide

@[simp] theorem isBlank_carriageReturn : isBlank '\r' = true := by decide

end SpanReport
