import SpanReport.Offset

/-! # Texts and spans

A `Text` is the sequence of its characters, so that an offset is an index into a list. A `Span` is
a contiguous range of it, given by its first offset and its length; `Span.read` cuts the covered
characters out of a text. -/

namespace SpanReport

/-- A text as the sequence of its characters. -/
abbrev Text := List Char

/-- A contiguous range of characters: flat offsets of a text, or columns of one line. -/
structure Span where
  /-- The first covered offset. -/
  base : Nat
  /-- The number of covered characters. -/
  length : Nat
  deriving DecidableEq, Repr

namespace Span

/-- The span that covers the offsets from `start` up to, but not including, `stop`. -/
def ofBounds (start stop : Nat) : Except RangeError Span :=
  if start ≤ stop then .ok ⟨start, stop - start⟩ else .error .reversed

/-- One past the last covered offset. -/
def stop (span : Span) : Except RangeError Nat :=
  offsetSum span.base span.length

/-- Whether the span covers nothing. -/
def isEmpty (span : Span) : Bool :=
  span.length == 0

/-- The covered characters of `text`, if the text has a character at every covered offset. -/
def read (span : Span) (text : Text) : Option Text :=
  let covered := (text.drop span.base).take span.length
  if covered.length = span.length then some covered else none

theorem ofBounds_of_le {start stop : Nat} (h : start ≤ stop) :
    ofBounds start stop = .ok ⟨start, stop - start⟩ :=
  if_pos h

theorem ofBounds_of_lt {start stop : Nat} (h : stop < start) :
    ofBounds start stop = .error .reversed :=
  if_neg (Nat.not_le.2 h)

end Span

end SpanReport
