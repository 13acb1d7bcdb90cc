import SpanReport.Config
import SpanReport.Draw.Source
import SpanReport.Finding.Mark
import SpanReport.Text.Token

/-! # Sampling tokens

Flags tokens at random: every token takes one draw, and those whose draw is above the threshold are
marked. The marks are flat, and their offsets count either the characters of the text or only those
of its tokens. -/

namespace SpanReport

/-- The span at which a token is reported, in the given coordinates; the tokens before it have
`concatenated` characters. -/
def Token.reportedSpan (mode : OffsetMode) (concatenated : Nat) (token : Token) : Span :=
  match mode with
  | .concatenated => ⟨concatenated, token.text.length⟩
  | .textAware => token.span

/-- The flat mark of a span. -/
def markSpan (message : String) (span : Span) : Mark String :=
  ⟨message, span.base, span.base + span.length, none⟩

/-- The marks of the sampled ones among tokens, behind tokens with `concatenated` characters, and
the draws that remain. -/
def sampleTokens {σ : Type} [DrawSource σ] (config : Config) (concatenated : Nat) :
    List Token → σ → List (Mark String) × σ
  | [], source => ([], source)
  | token :: later, source =>
    let (value, source) := DrawSource.draw source
    let marked :=
      if config.threshold < value then
        [markSpan config.sampleMessage (token.reportedSpan config.offsets concatenated)]
      else []
    let (marks, source) := sampleTokens config (concatenated + token.text.length) later source
    (marked ++ marks, source)

/-- The marks of the sampled tokens of a text, and the draws that remain. -/
def detectSample {σ : Type} [DrawSource σ] (config : Config) (text : Text) (source : σ) :
    List (Mark String) × σ :=
  sampleTokens config 0 (tokens text) source

end SpanReport
