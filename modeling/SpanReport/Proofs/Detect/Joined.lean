import SpanReport.Proofs.Draw.Script
import SpanReport.Proofs.Report.Sample

/-! # Sampling a text part by part

A text may be sampled in two parts if it is cut next to a blank (`MeetAtBlank`). Its tokens are then
those of the parts (`tokens_append`), so that the later part takes the draws that the first one
leaves (`detectSample_append`). The later marks are further on by what the offsets count of the
first part (`OffsetMode.extent`): all its characters, or only those of its tokens. -/

namespace SpanReport

/-! ## Where a text is cut -/

/-- Two texts meet at a blank: the first one ends in a blank, the second one begins with a blank, or
one of them is empty. -/
def MeetAtBlank (a b : Text) : Prop :=
  a = [] ∨ b = [] ∨ (∃ c ∈ a.getLast?, isBlank c = true) ∨ ∃ d ∈ b.head?, isBlank d = true

variable {a b : Text}

/-- Where texts meet at a blank, no token goes on from one to the other. -/
theorem MeetAtBlank.not_joined (h : MeetAtBlank a b) :
    ∀ c ∈ a.getLast?, ∀ d ∈ b.head?, isBlank c = true ∨ isBlank d = true := by
  intro c hc d hd
  rcases h with rfl | rfl | ⟨e, he, hblank⟩ | ⟨e, he, hblank⟩
  · exact absurd hc (by simp)
  · exact absurd hd (by simp)
  · obtain rfl := Option.mem_unique he hc
    exact .inl hblank
  · obtain rfl := Option.mem_unique he hd
    exact .inr hblank

/-- **The tokens of texts that meet at a blank** are those of the first text and, behind its
characters, those of the second one. -/
theorem tokens_append (h : MeetAtBlank a b) :
    tokens (a ++ b) = tokens a ++ (tokens b).map (Token.shift a.length) := by
  have hlater : tokensFrom (a.length + 0) b = (tokens b).map (Token.shift a.length) :=
    tokensFrom_add a.length 0 b
  rw [tokens, tokensFrom_append 0 a b h.not_joined, Nat.zero_add, ← hlater]
  rfl

/-! ## Spans further on -/

/-- The span, further on by `amount`. -/
def Span.later (amount : Nat) (span : Span) : Span :=
  { span with base := span.base + amount }

/-- What offsets count of a text: the characters of its tokens, or all its characters. -/
def OffsetMode.extent : OffsetMode → Text → Nat
  | .concatenated, text => (solid text).length
  | .textAware, text => text.length

/-- The span of a token moves with the token. -/
theorem Token.span_shift (amount : Nat) (token : Token) :
    (token.shift amount).span = token.span.later amount :=
  congrArg (Span.mk · token.text.length) (Nat.add_comm amount token.start)

/-- Text behind a token does not move the token among the joined tokens. -/
theorem Token.joinedSpan_append {token : Token} (h : token ∈ tokens a) (b : Text) :
    token.joinedSpan (a ++ b) = token.joinedSpan a := by
  have hstop := stop_le_of_mem_tokens h
  rw [Token.joinedSpan, Token.joinedSpan, List.take_append_of_le_length (by omega)]

/-- Text in front of a token moves the token by the characters of its own tokens. -/
theorem Token.joinedSpan_shift (a b : Text) (token : Token) :
    (token.shift a.length).joinedSpan (a ++ b) =
      (token.joinedSpan b).later (solid a).length := by
  rw [Token.joinedSpan, Token.joinedSpan, Token.shift, Span.later]
  simp only [List.take_length_add_append, solid_append, List.length_append]
  congr 1
  exact Nat.add_comm _ _

/-- **The spans of the tokens of texts that meet at a blank**, in either coordinates: those of the
first text and, behind what is counted of this text, those of the second one. -/
theorem tokenSpans_append (mode : OffsetMode) (h : MeetAtBlank a b) :
    tokenSpans mode (tokens (a ++ b)) =
      tokenSpans mode (tokens a) ++
        (tokenSpans mode (tokens b)).map (Span.later (mode.extent a)) := by
  cases mode with
  | concatenated =>
      simp only [tokenSpans, joinTokens_tokens]
      rw [tokens_append h, List.map_append, List.map_map, List.map_map]
      congr 1
      · exact List.map_congr_left fun token hmem => Token.joinedSpan_append hmem b
      · exact List.map_congr_left fun token _ => Token.joinedSpan_shift a b token
  | textAware =>
      simp only [tokenSpans]
      rw [tokens_append h, List.map_append, List.map_map, List.map_map]
      congr 1
      exact List.map_congr_left fun token _ => Token.span_shift a.length token

/-! ## Marks further on -/

/-- The mark, with both bounds further on by `amount`. -/
def Mark.later {μ : Type} (amount : Nat) (mark : Mark μ) : Mark μ :=
  { mark with start := mark.start + amount, stop := mark.stop + amount }

/-- The mark of a span moves with the span. -/
theorem markSpan_later (message : String) (amount : Nat) (span : Span) :
    markSpan message (span.later amount) = (markSpan message span).later amount := by
  rw [markSpan, markSpan, Mark.later, Span.later]
  simp only [Nat.add_right_comm]

section Detector

variable {σ : Type} [DrawSource σ]

/-- The spans that are flagged in texts that meet at a blank are those of the first text and then
those of the second one, which takes the draws that the first one leaves. -/
theorem flaggedSpans_append (config : Config) (h : MeetAtBlank a b) (source : σ) :
    flaggedSpans config (a ++ b) source =
      flaggedSpans config a source ++
        (flaggedSpans config b (draws (tokens a).length source).2).map
          (Span.later (config.offsets.extent a)) := by
  have hcount : (tokens (a ++ b)).length = (tokens a).length + (tokens b).length := by
    rw [tokens_append h, List.length_append, List.length_map]
  have hlength : (tokenSpans config.offsets (tokens a)).length =
      (draws (tokens a).length source).1.length := by
    rw [length_tokenSpans, length_draws]
  rw [flaggedSpans, tokenSpans_append _ h, hcount, values_draws_add, flagged_append hlength,
    flagged_map]
  rfl

end Detector

example : (detectSample .concatenated "é x y\u3000zz w".toList (Script.ofList [1, 9])).1 =
    [⟨"errorroror", 1, 2, none⟩, ⟨"errorroror", 3, 5, none⟩] := by cbv

end SpanReport
