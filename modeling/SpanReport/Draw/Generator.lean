import SpanReport.Draw.ChaCha
import SpanReport.Draw.Source

/-! # Generated draws

A `Generator` draws from 1 to 10, each number equally often. It takes words from the ChaCha blocks
of its key, and scales a word to a draw; words beyond the last full multiple of ten are passed over,
for they would favour some draws. A seed is stretched to a key by a congruential generator. -/

namespace SpanReport

open ChaCha (Key)

/-- A position in the word stream of a key. -/
structure Generator where
  /-- The key whose blocks are read. -/
  key : Key
  /-- The counter of the next block. -/
  counter : UInt64
  /-- The words of the current block that are still to be read. -/
  pending : List UInt32

namespace Generator

/-- The beginning of the word stream of a key. -/
def ofKey (key : Key) : Generator := ⟨key, 0, []⟩

/-- One step of the generator that stretches a seed. -/
def stretchStep (state : UInt64) : UInt64 :=
  state * 6364136223846793005 + 11634580027462260723

/-- The word that a state of the stretching generator yields: its folded high bits, rotated to the
right by as much as its five highest bits tell. -/
def stretchWord (state : UInt64) : UInt32 :=
  let folded := (((state >>> 18) ^^^ state) >>> 27).toUInt32
  let amount := (state >>> 59).toUInt32
  (folded >>> amount) ||| (folded <<< ((32 - amount) % 32))

/-- The key that a seed stands for. -/
def keyOfSeed (seed : UInt64) : Key :=
  Vector.ofFn fun index => stretchWord ((index.val + 1).repeat stretchStep seed)

/-- The generator that a seed stands for: equal seeds give equal draws. -/
def seeded (seed : UInt64) : Generator :=
  ofKey (keyOfSeed seed)

/-- The next word of the stream. -/
def nextWord (generator : Generator) : UInt32 × Generator :=
  match generator.pending with
  | word :: pending => (word, { generator with pending := pending })
  | [] =>
    let block := ChaCha.block generator.key generator.counter
    (block[0], ⟨generator.key, generator.counter + 1, block.toList.tail⟩)

/-- The products of a word by ten whose low half is at most this are fair. -/
def fairBound : Nat := 4294967289

/-- The draw that a word stands for, unless the word is passed over. -/
def drawOfWord? (word : UInt32) : Option Nat :=
  let product := word.toNat * greatestDraw
  if product % UInt32.size ≤ fairBound then some (leastDraw + product / UInt32.size) else none

/-- The draw of the first fair word, among as many as told. -/
def drawWithin : Nat → Generator → Nat × Generator
  | 0, generator => (leastDraw, generator)
  | words + 1, generator =>
    let (word, generator) := generator.nextWord
    match drawOfWord? word with
    | some value => (value, generator)
    | none => drawWithin words generator

/-- The number of words after which the stream of a key repeats itself, sixteen for each value of
the counter, so that a longer search for a fair word is pointless. -/
def period : Nat := 16 * UInt64.size

/-- A draw is that of the next fair word. -/
instance : DrawSource Generator where
  draw := drawWithin period

end Generator

end SpanReport
