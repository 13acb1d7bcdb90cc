import SpanReport.Text.Blank
import SpanReport.Text.Span

/-! # Scanning a text for tokens

A `Scanner` goes over a text once and counts what it has passed, in characters and in bytes of the
encoded text. Each call of `Scanner.next` passes the blanks ahead and then the characters up to the
next blank; it cuts the latter out of the text by the bytes at their ends, and forms their span of
the numbers of characters that it has counted. -/

namespace SpanReport

/-- The bytes of a text in the encoding UTF-8. -/
def encode (text : Text) : ByteArray :=
  (String.ofList text).toUTF8

/-- Why no token can be made of what a scanner has passed. -/
inductive ScanError
  /-- The bytes are not the ends of a part of the text. -/
  | boundary (startByte stopByte : Nat)
  /-- The numbers of characters are not the bounds of a span. -/
  | range (error : RangeError)
  deriving DecidableEq, Repr

/-- The part of a text between two bytes, at each of which a character begins or the text ends. -/
def slice (source : Text) (startByte stopByte : Nat) : Except ScanError Text :=
  if h : startByte ≤ stopByte ∧ String.Pos.Raw.IsValid (String.ofList source) ⟨startByte⟩ ∧
      String.Pos.Raw.IsValid (String.ofList source) ⟨stopByte⟩ then
    .ok (String.extract (String.pos _ _ h.2.1) (String.pos _ _ h.2.2)).toList
  else .error (.boundary startByte stopByte)

/-- What a scanner yields. -/
structure Scanned where
  /-- The characters that were cut out. -/
  text : Text
  /-- The offsets that were counted. -/
  span : Span
  deriving DecidableEq, Repr

/-- The token between two bytes, which are also counted in characters. -/
def Scanned.ofBounds (source : Text) (startByte stopByte start stop : Nat) :
    Except ScanError Scanned := do
  let text ← slice source startByte stopByte
  let span ← (Span.ofBounds start stop).mapError .range
  pure ⟨text, span⟩

/-- A scanner on its way through a text. -/
structure Scanner where
  /-- The characters ahead. -/
  ahead : Text
  /-- The byte at which they begin. -/
  byte : Nat
  /-- The number of characters passed. -/
  position : Nat
  deriving DecidableEq, Repr

namespace Scanner

/-- A scanner that has passed nothing of a text. -/
def start (text : Text) : Scanner :=
  ⟨text, 0, 0⟩

/-- Pass the blanks ahead and the character behind them, and tell the byte and the offset at which
this character begins, if there is one. -/
def findStart : Text → Nat → Nat → Option (Nat × Nat) × Scanner
  | [], byte, position => (none, ⟨[], byte, position⟩)
  | c :: ahead, byte, position =>
    if isBlank c then findStart ahead (byte + c.utf8Size) (position + 1)
    else (some (byte, position), ⟨ahead, byte + c.utf8Size, position + 1⟩)

/-- Pass the characters up to the next blank, and tell the byte at which this blank begins; without
a blank ahead, it is the size of the text. -/
def findStop (size : Nat) : Text → Nat → Nat → Nat × Scanner
  | [], byte, position => (size, ⟨[], byte, position⟩)
  | c :: ahead, byte, position =>
    if isBlank c then (byte, ⟨c :: ahead, byte, position⟩)
    else findStop size ahead (byte + c.utf8Size) (position + 1)

/-- The next token, unless only blanks are ahead, and the scanner behind what was passed. -/
def next (source : Text) (scanner : Scanner) : Except ScanError (Option Scanned × Scanner) :=
  match findStart scanner.ahead scanner.byte scanner.position with
  | (none, behind) => .ok (none, behind)
  | (some (startByte, start), inside) =>
    match findStop (encode source).size inside.ahead inside.byte inside.position with
    | (stopByte, behind) =>
      (Scanned.ofBounds source startByte stopByte start behind.position).map fun found =>
        (some found, behind)

/-- What a number of calls yield, one after the other. -/
def yields (source : Text) : Nat → Scanner → Except ScanError (List (Option Scanned))
  | 0, _ => .ok []
  | count + 1, scanner => do
    let (found, behind) ← next source scanner
    let later ← yields source count behind
    pure (found :: later)

end Scanner

end SpanReport
