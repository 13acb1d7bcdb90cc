import SpanReport.Detect.Sample
import SpanReport.Proofs.Report.Stretch
import SpanReport.Proofs.Text.Token

/-! # Where tokens are sampled

`flagged` keeps the items whose draw is above a threshold. The detector draws and marks token by
token, but what it marks are the flagged ones among all spans, given all draws
(`sampleTokens_eq_map`, `detectSample_eq_map`). In either coordinates these spans lie in the text
(`mem_tokenSpans`). With offsets into the text, the spans of the tokens of a text are those of
stretches of its lines, whichever terminator separates the lines (`map_span_tokens`). -/

namespace SpanReport

/-! ## Flagged items -/

section Flagged

variable {α β : Type}

/-- The items whose value is above the threshold; every item takes the value at its place. -/
def flagged (threshold : Nat) (items : List α) (values : List Nat) : List α :=
  ((items.zip values).filter fun (_, value) => threshold < value).map Prod.fst

/-- An item is flagged by the first value, and the later items by the others. -/
theorem flagged_cons (threshold : Nat) (item : α) (items : List α) (value : Nat)
    (values : List Nat) :
    flagged threshold (item :: items) (value :: values) =
      (if threshold < value then [item] else []) ++ flagged threshold items values := by
  by_cases h : threshold < value <;> simp [flagged, h]

/-- Only given items are flagged. -/
theorem mem_of_mem_flagged {threshold : Nat} {items : List α} {values : List Nat} {item : α}
    (h : item ∈ flagged threshold items values) : item ∈ items := by
  obtain ⟨⟨found, value⟩, hmem, rfl⟩ := List.mem_map.mp h
  exact (List.of_mem_zip (List.mem_filter.mp hmem).1).1

/-- Which items are flagged depends on their places only. -/
theorem flagged_map (threshold : Nat) (f : α → β) (items : List α) (values : List Nat) :
    flagged threshold (items.map f) values = (flagged threshold items values).map f := by
  rw [flagged, flagged, List.zip_map_left, List.filter_map, List.map_map, List.map_map]
  rfl

/-- Items that follow are flagged by the values that follow. -/
theorem flagged_append {threshold : Nat} {items : List α} {values : List Nat}
    (h : items.length = values.length) (others : List α) (more : List Nat) :
    flagged threshold (items ++ others) (values ++ more) =
      flagged threshold items values ++ flagged threshold others more := by
  rw [flagged, List.zip_append h, List.filter_append, List.map_append]
  rfl

end Flagged

/-- The tokens of a text whose draw is above the threshold. -/
def flaggedTokens {σ : Type} [DrawSource σ] (config : Config) (text : Text) (source : σ) :
    List Token :=
  flagged config.threshold (tokens text) (draws (tokens text).length source).1

/-! ## Spans in either coordinates -/

/-- Lay tokens one after another from `start`, with nothing between them. -/
def joinTokens : Nat → List Token → List Span
  | _, [] => []
  | start, token :: later =>
    ⟨start, token.text.length⟩ :: joinTokens (start + token.text.length) later

/-- The spans of the tokens of a text, in the given coordinates. -/
def tokenSpans (mode : OffsetMode) (tokens : List Token) : List Span :=
  match mode with
  | .concatenated => joinTokens 0 tokens
  | .textAware => tokens.map Token.span

/-- The characters of a text that are not blank, written one after another. -/
def solid (text : Text) : Text :=
  text.filter fun c => !isBlank c

/-- The characters of joined texts are those of the parts. -/
theorem solid_append (a b : Text) : solid (a ++ b) = solid a ++ solid b :=
  List.filter_append a b

/-- Nothing is left of blanks. -/
theorem solid_of_forall_isBlank {text : Text} (h : ∀ c ∈ text, isBlank c = true) :
    solid text = [] := by
  rw [solid, List.filter_eq_nil_iff]
  intro c hc
  rw [h c hc]
  exact Bool.false_ne_true

/-- A text without blanks stays as it is. -/
theorem solid_of_forall_not_isBlank {text : Text} (h : ∀ c ∈ text, isBlank c = false) :
    solid text = text := by
  rw [solid, List.filter_eq_self]
  intro c hc
  rw [h c hc]
  rfl

/-- Every character is blank or not. -/
theorem length_solid_add_countP (text : Text) :
    (solid text).length + text.countP isBlank = text.length := by
  have hsplit := List.length_eq_countP_add_countP isBlank (l := text)
  have hsolid : text.countP (fun c => !isBlank c) = (solid text).length :=
    List.countP_eq_length_filter
  simp only [Bool.not_eq_true, Bool.decide_eq_false] at hsplit
  omega

/-- The offsets that a token covers in the tokens written one after another. -/
def Token.joinedSpan (text : Text) (token : Token) : Span :=
  ⟨(solid (text.take token.start)).length, token.text.length⟩

/-- Joined tokens, whether flagged or not, take the place of the characters before them that are not
blank. -/
theorem Runs.joinTokens_eq_map {offset : Nat} {text : Text} {found : List Token}
    (h : Runs offset text found) (start : Nat) :
    joinTokens start found = found.map fun token =>
      ⟨start + (solid (text.take (token.start - offset))).length, token.text.length⟩ := by
  induction h generalizing start with
  | blanks => rfl
  | @word offset blanks word rest found hblanks _ hword _ hfound ih =>
      have hfirst : (blanks ++ (word ++ rest)).take (offset + blanks.length - offset) = blanks := by
        rw [Nat.add_sub_cancel_left, List.take_left]
      rw [joinTokens, ih, List.map_cons, hfirst, solid_of_forall_isBlank hblanks]
      congr 1
      refine List.map_congr_left fun token hmem => ?_
      -- a later token has the blanks and the word before it, and then what the rest has before it
      have hle := hfound.le_start token hmem
      have hstart : token.start - offset = blanks.length +
          (word.length + (token.start - (offset + blanks.length + word.length))) := by
        omega
      rw [hstart, List.take_length_add_append, List.take_length_add_append, solid_append,
        solid_append, solid_of_forall_isBlank hblanks, solid_of_forall_not_isBlank hword,
        List.nil_append, List.length_append, Nat.add_assoc]

/-- **The spans of the tokens of a text, written one after another.** -/
theorem joinTokens_tokens (text : Text) :
    joinTokens 0 (tokens text) = (tokens text).map (Token.joinedSpan text) := by
  rw [(runs_tokens text).joinTokens_eq_map]
  simp only [Nat.zero_add, Nat.sub_zero]
  rfl

/-- No token is further on among the joined tokens than in its text. -/
theorem Token.base_joinedSpan_le (text : Text) (token : Token) :
    (token.joinedSpan text).base ≤ token.start := by
  have hfilter : (solid (text.take token.start)).length ≤ (text.take token.start).length :=
    List.length_filter_le _ _
  have htake := List.length_take_le token.start text
  exact Nat.le_trans hfilter htake

/-- **In either coordinates, the span of a token lies in the text** and is not empty. -/
theorem mem_tokenSpans {mode : OffsetMode} {text : Text} {span : Span}
    (h : span ∈ tokenSpans mode (tokens text)) :
    0 < span.length ∧ span.base + span.length ≤ text.length := by
  cases mode with
  | concatenated =>
      rw [tokenSpans, joinTokens_tokens] at h
      obtain ⟨token, htoken, rfl⟩ := List.mem_map.mp h
      have hbase := token.base_joinedSpan_le text
      have hstop := stop_le_of_mem_tokens htoken
      exact ⟨length_pos_of_mem_tokens htoken,
        Nat.le_trans (Nat.add_le_add_right hbase token.text.length) hstop⟩
  | textAware =>
      obtain ⟨token, htoken, rfl⟩ := List.mem_map.mp h
      exact ⟨length_pos_of_mem_tokens htoken, stop_le_of_mem_tokens htoken⟩

section Detector

variable {σ : Type} [DrawSource σ]

/-- The spans that the detector flags in a text. -/
def flaggedSpans (config : Config) (text : Text) (source : σ) : List Span :=
  flagged config.threshold (tokenSpans config.offsets (tokens text))
    (draws (tokens text).length source).1

/-- A flagged span is one of a token, so it lies in the text. -/
theorem mem_flaggedSpans {config : Config} {text : Text} {source : σ} {span : Span}
    (h : span ∈ flaggedSpans config text source) :
    0 < span.length ∧ span.base + span.length ≤ text.length :=
  mem_tokenSpans (mem_of_mem_flagged h)

/-- The spans of tokens in the given coordinates, behind tokens with `concatenated` characters. -/
def spansBehind (mode : OffsetMode) (concatenated : Nat) (found : List Token) : List Span :=
  match mode with
  | .concatenated => joinTokens concatenated found
  | .textAware => found.map Token.span

/-- The first token is reported where the accumulated characters put it, and the later tokens behind
it. -/
theorem spansBehind_cons (mode : OffsetMode) (concatenated : Nat) (token : Token)
    (later : List Token) :
    spansBehind mode concatenated (token :: later) =
      token.reportedSpan mode concatenated ::
        spansBehind mode (concatenated + token.text.length) later := by
  cases mode <;> rfl

/-- **Drawing and marking token by token** marks the flagged spans, and takes one draw for each
token. -/
theorem sampleTokens_eq_map (config : Config) (concatenated : Nat) (found : List Token)
    (source : σ) :
    sampleTokens config concatenated found source =
      ((flagged config.threshold (spansBehind config.offsets concatenated found)
          (draws found.length source).1).map (markSpan config.sampleMessage),
        (draws found.length source).2) := by
  induction found generalizing concatenated source with
  | nil => cases hoffsets : config.offsets <;> rfl
  | cons token later ih =>
      rw [spansBehind_cons, List.length_cons, draws, flagged_cons, List.map_append, sampleTokens]
      simp only [ih]
      split <;> rfl

/-- **The detector marks the flagged spans**, and it takes one draw for each token. -/
theorem detectSample_eq_map (config : Config) (text : Text) (source : σ) :
    detectSample config text source =
      ((flaggedSpans config text source).map (markSpan config.sampleMessage),
        (draws (tokens text).length source).2) := by
  have hspans : spansBehind config.offsets 0 (tokens text) =
      tokenSpans config.offsets (tokens text) := by
    cases config.offsets <;> rfl
  rw [detectSample, sampleTokens_eq_map, hspans, flaggedSpans]

end Detector

/-! ## Tokens as stretches -/

/-- The spans of the tokens of a line. -/
def lineTokenSpans (line : Text) : List Span :=
  (tokens line).map Token.span

/-- A token is a stretch of its line. -/
theorem mem_lineTokenSpans {line : Text} {span : Span} (h : span ∈ lineTokenSpans line) :
    0 < span.length ∧ span.base + span.length ≤ line.length :=
  @mem_tokenSpans .textAware line span h

/-- The stretches that are flagged among the tokens of lines lie within the lines. -/
theorem within_of_mem_sampled {lines : List Text} {threshold : Nat} {values : List Nat} :
    ∀ stretch ∈ flagged threshold (Stretch.ofLines lineTokenSpans lines) values,
      stretch.Within lines := fun _ hmem =>
  Stretch.within_of_mem_ofLines (fun _ _ => mem_lineTokenSpans) (mem_of_mem_flagged hmem)

/-- **The tokens of a text cover what stretches of its lines cover.** -/
theorem map_span_tokens (terminator : Terminator) (text : Text) :
    (tokens text).map Token.span =
      (Stretch.ofLines lineTokenSpans (terminator.lines text)).map fun stretch =>
        ⟨stretch.offset terminator.width (terminator.lines text), stretch.columns.length⟩ := by
  rw [tokens_eq_flatMap_lines terminator, Stretch.ofLines, List.map_flatMap, List.map_flatMap]
  simp only [lineTokenSpans, List.map_map]
  rfl

/-- A text has as many tokens as there are stretches that hold one. -/
theorem length_ofLines_lineTokenSpans (terminator : Terminator) (text : Text) :
    (Stretch.ofLines lineTokenSpans (terminator.lines text)).length = (tokens text).length := by
  have h := congrArg List.length (map_span_tokens terminator text)
  rw [List.length_map, List.length_map] at h
  exact h.symm

/-- With offsets into the text, the marks of the sampled tokens are those of the flagged stretches
of its lines, and one draw is taken for each token. -/
theorem detectSample_textAware {σ : Type} [DrawSource σ] {config : Config}
    (hoffsets : config.offsets = .textAware) (terminator : Terminator) (text : Text) (source : σ) :
    detectSample config text source =
      ((flagged config.threshold (Stretch.ofLines lineTokenSpans (terminator.lines text))
          (draws (tokens text).length source).1).map
        (Stretch.flatMark terminator.width (terminator.lines text) config.sampleMessage),
      (draws (tokens text).length source).2) := by
  rw [detectSample_eq_map, flaggedSpans, hoffsets, tokenSpans]
  simp only [map_span_tokens terminator, flagged_map, List.map_map]
  rfl

end SpanReport
