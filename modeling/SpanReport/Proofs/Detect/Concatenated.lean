import SpanReport.Proofs.Report.Sample

/-! # Offsets into concatenated tokens

With the same draws, the sampling detector flags the same tokens whether it counts the characters of
the text or only those of its tokens (`flaggedSpans_concatenated`, `flaggedSpans_textAware`). The
two marks of a token differ by the blanks before it, and each reads as the token: one in the text,
the other in the text without its blanks (`detectSample_concatenated`). -/

namespace SpanReport

/-! ## A token in either coordinates -/

/-- A span without blanks reads the same in the text without its blanks. -/
theorem Span.read_solid {span : Span} {text characters : Text}
    (h : span.read text = some characters) (hsolid : ∀ c ∈ characters, isBlank c = false) :
    Span.read ⟨(solid (text.take span.base)).length, span.length⟩ (solid text) =
      some characters := by
  have hparts := congrArg solid (Span.append_of_read h)
  rw [solid_append, solid_append, solid_of_forall_not_isBlank hsolid] at hparts
  rw [← hparts, ← Span.length_of_read h]
  exact Span.read_append _ _ _

/-- A token starts as much earlier among the joined tokens as there are blanks before it. -/
theorem Token.base_joinedSpan_add {token : Token} {text : Text} (h : token ∈ tokens text) :
    (token.joinedSpan text).base + (text.take token.start).countP isBlank = token.start := by
  have hstop := stop_le_of_mem_tokens h
  have hsplit := length_solid_add_countP (text.take token.start)
  rw [List.length_take_of_le (by omega)] at hsplit
  exact hsplit

/-- A token reads as itself among the joined tokens. -/
theorem Token.read_joinedSpan {token : Token} {text : Text} (h : token ∈ tokens text) :
    (token.joinedSpan text).read (solid text) = some token.text :=
  Span.read_solid (read_span_of_mem_tokens h) (mem_tokens_iff.mp h).not_isBlank

section Detector

variable {σ : Type} [DrawSource σ]

/-- The flagged spans are those of the flagged tokens, with offsets into the text. -/
theorem flaggedSpans_textAware (config : Config) (text : Text) (source : σ) :
    flaggedSpans { config with offsets := .textAware } text source =
      (flaggedTokens config text source).map Token.span := by
  rw [flaggedSpans, flaggedTokens, ← flagged_map]
  rfl

/-- The same tokens are flagged with offsets into the concatenated tokens. -/
theorem flaggedSpans_concatenated (config : Config) (text : Text) (source : σ) :
    flaggedSpans { config with offsets := .concatenated } text source =
      (flaggedTokens config text source).map (Token.joinedSpan text) := by
  rw [flaggedSpans, flaggedTokens, ← flagged_map, ← joinTokens_tokens]
  rfl

end Detector

/-! ## Marks in either coordinates -/

variable {μ : Type}

/-- The characters that a flat mark covers in a text; none unless its bounds are in order and the
text has a character at all its offsets. -/
def Mark.read (mark : Mark μ) (text : Text) : Option Text :=
  mark.span.toOption.bind fun span => span.read text

/-- The mark of a span reads as the span does. -/
theorem Mark.read_markSpan (message : String) (span : Span) (text : Text) :
    (markSpan message span).read text = span.read text := by
  rw [Mark.read, Mark.span, markSpan, Span.ofBounds_of_le (Nat.le_add_right _ _)]
  simp only [Nat.add_sub_cancel_left]
  rfl

/-- Two flat marks point at the same token of a text: the first one counts the characters of its
tokens, the second one all its characters. -/
structure Mark.SameToken (text : Text) (joined aware : Mark μ) : Prop where
  /-- Both marks are flat. -/
  line_eq : joined.line = none ∧ aware.line = none
  /-- Both marks say the same. -/
  message_eq : joined.message = aware.message
  /-- Both marks are of the same length. -/
  length_eq : joined.stop - joined.start = aware.stop - aware.start
  /-- The marks start as far apart as there are blanks before the second one. -/
  start_add : joined.start + (text.take aware.start).countP isBlank = aware.start
  /-- The second mark is that of a token, and both read as this token, the first one in the text
  without its blanks. -/
  read_eq : ∃ token ∈ tokens text, aware.span = .ok token.span ∧
    joined.read (solid text) = some token.text ∧ aware.read text = some token.text
  /-- The first mark ends within the text without its blanks. -/
  stop_le : joined.stop ≤ (solid text).length

/-- The marks of a token in either coordinates point at the same token. -/
theorem Mark.sameToken_markSpan (message : String) {token : Token} {text : Text}
    (h : token ∈ tokens text) :
    Mark.SameToken text (markSpan message (token.joinedSpan text))
      (markSpan message token.span) where
  line_eq := ⟨rfl, rfl⟩
  message_eq := rfl
  length_eq := by
    rw [markSpan, markSpan, Nat.add_sub_cancel_left, Nat.add_sub_cancel_left]
    rfl
  start_add := Token.base_joinedSpan_add h
  read_eq := by
    refine ⟨token, h, ?_, ?_, ?_⟩
    · rw [Mark.span, markSpan, Span.ofBounds_of_le (Nat.le_add_right _ _),
        Nat.add_sub_cancel_left]
    · rw [Mark.read_markSpan]
      exact Token.read_joinedSpan h
    · rw [Mark.read_markSpan]
      exact read_span_of_mem_tokens h
  stop_le := Span.le_of_read (length_pos_of_mem_tokens h) (Token.read_joinedSpan h)

example : (detectSample .concatenated "  é\t\u3000b".toList (Script.ofList [1, 7])).1 =
      [⟨"errorroror", 1, 2, none⟩] ∧
    (detectSample {} "  é\t\u3000b".toList (Script.ofList [1, 7])).1 =
      [⟨"errorroror", 5, 6, none⟩] := by cbv

end SpanReport
