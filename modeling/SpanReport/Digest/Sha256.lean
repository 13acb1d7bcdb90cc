import SpanReport.Text.Hex
import SpanReport.Text.Span

/-! # SHA-256

The SHA-256 digest of a byte string, and its text in base sixteen. The message is padded to a whole
number of blocks of sixteen words; every block is spread over 64 words and folded into the state of
eight words. -/

namespace SpanReport

namespace Sha256

/-- The state: eight words. -/
structure State where
  (a b c d e f g h : UInt32)
  deriving DecidableEq, Repr

/-- The state before the first block. -/
def initialState : State where
  a := 0x6a09e667
  b := 0xbb67ae85
  c := 0x3c6ef372
  d := 0xa54ff53a
  e := 0x510e527f
  f := 0x9b05688c
  g := 0x1f83d9ab
  h := 0x5be0cd19

/-- Add two states word by word. -/
def State.add (s t : State) : State :=
  ⟨s.a + t.a, s.b + t.b, s.c + t.c, s.d + t.d, s.e + t.e, s.f + t.f, s.g + t.g, s.h + t.h⟩

/-- The words of a state, from first to last. -/
def State.toList (s : State) : List UInt32 :=
  [s.a, s.b, s.c, s.d, s.e, s.f, s.g, s.h]

/-- The constants of the 64 rounds. -/
def roundConstants : List UInt32 :=
  [0x428a2f98, 0x71374491, 0xb5c0fbcf, 0xe9b5dba5, 0x3956c25b, 0x59f111f1, 0x923f82a4, 0xab1c5ed5,
   0xd807aa98, 0x12835b01, 0x243185be, 0x550c7dc3, 0x72be5d74, 0x80deb1fe, 0x9bdc06a7, 0xc19bf174,
   0xe49b69c1, 0xefbe4786, 0x0fc19dc6, 0x240ca1cc, 0x2de92c6f, 0x4a7484aa, 0x5cb0a9dc, 0x76f988da,
   0x983e5152, 0xa831c66d, 0xb00327c8, 0xbf597fc7, 0xc6e00bf3, 0xd5a79147, 0x06ca6351, 0x14292967,
   0x27b70a85, 0x2e1b2138, 0x4d2c6dfc, 0x53380d13, 0x650a7354, 0x766a0abb, 0x81c2c92e, 0x92722c85,
   0xa2bfe8a1, 0xa81a664b, 0xc24b8b70, 0xc76c51a3, 0xd192e819, 0xd6990624, 0xf40e3585, 0x106aa070,
   0x19a4c116, 0x1e376c08, 0x2748774c, 0x34b0bcb5, 0x391c0cb3, 0x4ed8aa4a, 0x5b9cca4f, 0x682e6ff3,
   0x748f82ee, 0x78a5636f, 0x84c87814, 0x8cc70208, 0x90befffa, 0xa4506ceb, 0xbef9a3f7, 0xc67178f2]

/-- Rotate a word to the right by more than 0 and less than 32 bits. -/
def rotateRight (word amount : UInt32) : UInt32 :=
  (word >>> amount) ||| (word <<< (32 - amount))

/-- The bytes of a number, the highest first. -/
def bigEndian : Nat → Nat → List UInt8
  | 0, _ => []
  | count + 1, value => UInt8.ofNat (value >>> (8 * count)) :: bigEndian count value

/-- A message with a one bit after it, zeros up to the last eight bytes of a block, and there the
number of its bits. -/
def pad (message : List UInt8) : List UInt8 :=
  let zeros := (119 - message.length % 64) % 64
  message ++ 0x80 :: List.replicate zeros 0 ++ bigEndian 8 (8 * message.length)

/-- The words of a byte string, four bytes each, the highest first; a shorter end is left out. -/
def words : List UInt8 → List UInt32
  | a :: b :: c :: d :: rest =>
    (a.toUInt32 <<< 24 ||| b.toUInt32 <<< 16 ||| c.toUInt32 <<< 8 ||| d.toUInt32) :: words rest
  | _ => []

/-- The next word of a schedule, from the sixteen before it, the last one first. -/
def nextWord (recent : List UInt32) : UInt32 :=
  let near := recent.getD 1 0
  let far := recent.getD 14 0
  let small := rotateRight far 7 ^^^ rotateRight far 18 ^^^ (far >>> 3)
  let large := rotateRight near 17 ^^^ rotateRight near 19 ^^^ (near >>> 10)
  recent.getD 15 0 + small + recent.getD 6 0 + large

/-- The 64 words that a block of sixteen is spread over. -/
def schedule (block : List UInt32) : List UInt32 :=
  (Nat.repeat (fun recent => nextWord recent :: recent) 48 block.reverse).reverse

/-- One round, with its constant and its word of the schedule. -/
def round (s : State) : UInt32 × UInt32 → State
  | (constant, word) =>
    let large := rotateRight s.e 6 ^^^ rotateRight s.e 11 ^^^ rotateRight s.e 25
    let choice := (s.e &&& s.f) ^^^ (~~~s.e &&& s.g)
    let first := s.h + large + choice + constant + word
    let small := rotateRight s.a 2 ^^^ rotateRight s.a 13 ^^^ rotateRight s.a 22
    let majority := (s.a &&& s.b) ^^^ (s.a &&& s.c) ^^^ (s.b &&& s.c)
    ⟨first + small + majority, s.a, s.b, s.c, s.d + first, s.e, s.f, s.g⟩

/-- Fold a block into the state. -/
def compress (s : State) (block : List UInt32) : State :=
  ((roundConstants.zip (schedule block)).foldl round s).add s

/-- The blocks of sixteen words each. -/
def blocks : List UInt32 → List (List UInt32)
  | [] => []
  | word :: later => (word :: later.take 15) :: blocks (later.drop 15)
termination_by words => words.length
decreasing_by simp only [List.length_drop, List.length_cons]; omega

/-- The digest of a message. -/
def digest (message : List UInt8) : State :=
  (blocks (words (pad message))).foldl compress initialState

end Sha256

/-- The SHA-256 digest of the UTF-8 bytes of a text, in base sixteen with small letters. -/
def contentHash (text : Text) : String :=
  let state := Sha256.digest (String.ofList text).toUTF8.toList
  String.ofList (state.toList.flatMap fun word => hexDigits 8 word.toNat)

end SpanReport
