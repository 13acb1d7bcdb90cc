/-! # ChaCha blocks

The ChaCha block function with twelve rounds: sixteen 32-bit words from a key of eight words and a
64-bit block counter. -/

namespace SpanReport.ChaCha

/-- The key: eight words. -/
abbrev Key := Vector UInt32 8

/-- The working state: sixteen words, read as four rows of four. -/
abbrev State := Vector UInt32 16

/-- Rotate a word to the left by less than 32 bits. -/
def rotateLeft (word amount : UInt32) : UInt32 :=
  (word <<< amount) ||| (word >>> (32 - amount))

/-- Mix four words of the state: each step adds, combines and rotates. -/
def quarterRound (a b c d : Fin 16) (state : State) : State :=
  let state := state.set a (state[a] + state[b])
  let state := state.set d (rotateLeft (state[d] ^^^ state[a]) 16)
  let state := state.set c (state[c] + state[d])
  let state := state.set b (rotateLeft (state[b] ^^^ state[c]) 12)
  let state := state.set a (state[a] + state[b])
  let state := state.set d (rotateLeft (state[d] ^^^ state[a]) 8)
  let state := state.set c (state[c] + state[d])
  state.set b (rotateLeft (state[b] ^^^ state[c]) 7)

/-- Mix the four columns. -/
def columnRound (state : State) : State :=
  quarterRound 3 7 11 15 (quarterRound 2 6 10 14 (quarterRound 1 5 9 13
    (quarterRound 0 4 8 12 state)))

/-- Mix the four diagonals. -/
def diagonalRound (state : State) : State :=
  quarterRound 3 4 9 14 (quarterRound 2 7 8 13 (quarterRound 1 6 11 12
    (quarterRound 0 5 10 15 state)))

/-- The number of double rounds, each a column round and a diagonal round. -/
def doubleRounds : Nat := 6

/-- The four words that open every state. -/
def constants : Vector UInt32 4 := #v[0x61707865, 0x3320646e, 0x79622d32, 0x6b206574]

/-- The state before the first round: the constants, the key, the counter with its low word first,
and two words of zero. -/
def initialState (key : Key) (counter : UInt64) : State :=
  constants ++ key ++ #v[counter.toUInt32, (counter >>> 32).toUInt32, 0, 0]

/-- The words of a block: the state after the last round, plus the state before the first. -/
def block (key : Key) (counter : UInt64) : State :=
  let start := initialState key counter
  (doubleRounds.repeat (fun state => diagonalRound (columnRound state)) start).zipWith (· + ·) start

end SpanReport.ChaCha
