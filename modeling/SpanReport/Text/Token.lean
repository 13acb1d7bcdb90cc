import SpanReport.Text.Blank
import SpanReport.Text.Span

/-! # Tokens

A `Token` is a maximal run of characters that are not blank, together with the offset at which it
starts. `tokens` lists those of a text from left to right: a character that is not blank extends
the token that starts right after it, and starts a token of its own if there is none. -/

namespace SpanReport

/-- A maximal run of characters that are not blank. -/
structure Token where
  /-- The offset of the first character. -/
  start : Nat
  /-- The characters of the run. -/
  text : Text
  deriving DecidableEq, Repr

/-- The offsets that a token covers. -/
def Token.span (token : Token) : Span :=
  ⟨token.start, token.text.length⟩

/-- Put the character at `offset` in front of the tokens that follow it. -/
def extendToken (offset : Nat) (c : Char) : List Token → List Token
  | [] => [⟨offset, [c]⟩]
  | token :: later =>
    if token.start = offset + 1 then ⟨offset, c :: token.text⟩ :: later
    else ⟨offset, [c]⟩ :: token :: later

/-- The tokens of a text whose first character stands at `offset`. -/
def tokensFrom (offset : Nat) : Text → List Token
  | [] => []
  | c :: rest =>
    if isBlank c then tokensFrom (offset + 1) rest
    else extendToken offset c (tokensFrom (offset + 1) rest)

/-- The tokens of a text, from left to right. -/
def tokens (text : Text) : List Token :=
  tokensFrom 0 text

@[simp] theorem tokensFrom_nil (offset : Nat) : tokensFrom offset [] = [] := rfl

theorem tokensFrom_of_isBlank {c : Char} (h : isBlank c = true) (offset : Nat) (rest : Text) :
    tokensFrom offset (c :: rest) = tokensFrom (offset + 1) rest :=
  if_pos h

theorem tokensFrom_of_not_isBlank {c : Char} (h : isBlank c = false) (offset : Nat) (rest : Text) :
    tokensFrom offset (c :: rest) = extendToken offset c (tokensFrom (offset + 1) rest) := by
  simp [tokensFrom, h]

end SpanReport
