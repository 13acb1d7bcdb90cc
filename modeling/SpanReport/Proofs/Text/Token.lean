import SpanReport.Proofs.Text.Runs

/-! # Tokens of joined texts

Tokens stand in their text where they say (`read_span_of_mem_tokens`), and a text may be cut next to
any blank without cutting a token (`tokensFrom_append`). As the characters of a terminator
are blank, the tokens of a text are those of its lines, each moved to the start of its line
(`tokens_eq_flatMap_lines`), whichever terminator the text is split at. -/

namespace SpanReport

/-! ## Where tokens stand -/

/-- No token starts before its text. -/
theorem le_start_of_mem_tokensFrom {token : Token} {offset : Nat} {text : Text}
    (h : token ∈ tokensFrom offset text) : offset ≤ token.start :=
  (runs_tokensFrom offset text).le_start token h

/-- A token holds characters. -/
theorem length_pos_of_mem_tokens {token : Token} {text : Text} (h : token ∈ tokens text) :
    0 < token.text.length :=
  List.length_pos_iff.mpr (mem_tokens_iff.mp h).text_ne_nil

/-- **The span of a token reads as the token.** -/
theorem read_span_of_mem_tokens {token : Token} {text : Text} (h : token ∈ tokens text) :
    token.span.read text = some token.text :=
  (mem_tokens_iff.mp h).read_span

/-- A token ends no later than its text. -/
theorem stop_le_of_mem_tokens {token : Token} {text : Text} (h : token ∈ tokens text) :
    token.start + token.text.length ≤ text.length :=
  Span.le_of_read (length_pos_of_mem_tokens h) (read_span_of_mem_tokens h)

/-! ## Cutting a text next to a blank -/

/-- Tokens that follow at a distance do not change how a character extends the first ones. -/
theorem extendToken_append {offset : Nat} {c : Char} {found later : List Token}
    (h : found = [] → ∀ token ∈ later.head?, token.start ≠ offset + 1) :
    extendToken offset c (found ++ later) = extendToken offset c found ++ later := by
  cases found with
  | nil =>
      cases later with
      | nil => rfl
      | cons next others =>
          have hstart : next.start ≠ offset + 1 := h rfl next rfl
          exact if_neg hstart
  | cons first found =>
      rw [List.cons_append, extendToken, extendToken]
      split <;> rfl

/-- **A text may be cut next to a blank**: its tokens are those of the parts, if a blank stands on
either side of the cut or one of the parts is empty. -/
theorem tokensFrom_append (offset : Nat) (a b : Text)
    (hcut : ∀ c ∈ a.getLast?, ∀ d ∈ b.head?, isBlank c = true ∨ isBlank d = true) :
    tokensFrom offset (a ++ b) = tokensFrom offset a ++ tokensFrom (offset + a.length) b := by
  induction a generalizing offset with
  | nil => rfl
  | cons c rest ih =>
      have hrest : ∀ d ∈ rest.getLast?, ∀ e ∈ b.head?, isBlank d = true ∨ isBlank e = true := by
        intro d hd
        cases rest with
        | nil => exact absurd hd (by simp)
        | cons r others => exact hcut d (by rwa [List.getLast?_cons_cons])
      have hstep : offset + 1 + rest.length = offset + (c :: rest).length := by
        rw [List.length_cons]
        omega
      cases hblank : isBlank c with
      | true =>
          rw [List.cons_append, tokensFrom_of_isBlank hblank, tokensFrom_of_isBlank hblank,
            ih _ hrest, hstep]
      | false =>
          rw [List.cons_append, tokensFrom_of_not_isBlank hblank,
            tokensFrom_of_not_isBlank hblank, ih _ hrest, hstep]
          refine extendToken_append fun _ token htoken => ?_
          -- the first token behind the cut starts too late to be extended
          have hmem : token ∈ tokensFrom (offset + (c :: rest).length) b :=
            List.mem_of_mem_head? htoken
          rw [List.length_cons] at hmem
          cases rest with
          | cons r others =>
              have hle := le_start_of_mem_tokensFrom hmem
              rw [List.length_cons] at hle
              omega
          | nil =>
              cases b with
              | nil => exact absurd hmem List.not_mem_nil
              | cons d b =>
                  have hd : isBlank d = true := by
                    have hcd := hcut c rfl d rfl
                    rw [hblank] at hcd
                    simpa using hcd
                  rw [tokensFrom_of_isBlank hd] at hmem
                  have hle := le_start_of_mem_tokensFrom hmem
                  rw [List.length_nil] at hle
                  omega

/-- Blanks in front of a text hold no token. -/
theorem tokensFrom_blank_append (offset : Nat) {blanks : Text}
    (hblanks : ∀ c ∈ blanks, isBlank c = true) (text : Text) :
    tokensFrom offset (blanks ++ text) = tokensFrom (offset + blanks.length) text := by
  induction blanks generalizing offset with
  | nil => rfl
  | cons c blanks ih =>
      rw [List.cons_append, tokensFrom_of_isBlank (hblanks c List.mem_cons_self),
        ih _ fun d hd => hblanks d (List.mem_cons_of_mem c hd), List.length_cons]
      congr 1
      omega

/-- A text without blanks is a token of its own, unless it is empty. -/
theorem tokensFrom_of_forall_not_isBlank (offset : Nat) {text : Text} (hne : text ≠ [])
    (h : ∀ c ∈ text, isBlank c = false) : tokensFrom offset text = [⟨offset, text⟩] := by
  induction text generalizing offset with
  | nil => exact absurd rfl hne
  | cons c rest ih =>
      obtain ⟨hc, hrest⟩ := List.forall_mem_cons.mp h
      rw [tokensFrom_of_not_isBlank hc]
      by_cases hlast : rest = []
      · rw [hlast]
        rfl
      · rw [ih (offset + 1) hlast hrest, extendToken]
        exact if_pos rfl

/-! ## Moving tokens -/

/-- The token, further on by `amount` characters. -/
def Token.shift (amount : Nat) (token : Token) : Token :=
  { token with start := amount + token.start }

/-- Extending tokens and moving them commute. -/
theorem extendToken_shift (amount offset : Nat) (c : Char) (found : List Token) :
    extendToken (amount + offset) c (found.map (Token.shift amount)) =
      (extendToken offset c found).map (Token.shift amount) := by
  cases found with
  | nil => rfl
  | cons first found =>
      rw [List.map_cons, extendToken, extendToken, Token.shift]
      simp only [Nat.add_assoc, Nat.add_left_cancel_iff]
      split <;> rfl

/-- The tokens of a text that starts later are its tokens, moved. -/
theorem tokensFrom_add (amount offset : Nat) (text : Text) :
    tokensFrom (amount + offset) text = (tokensFrom offset text).map (Token.shift amount) := by
  induction text generalizing offset with
  | nil => rfl
  | cons c rest ih =>
      rw [tokensFrom, tokensFrom, Nat.add_assoc, ih]
      split
      · rfl
      · exact extendToken_shift amount offset c _

/-! ## Line by line -/

/-- The tokens of joined lines are those of the lines, each from the start of its line on. -/
theorem tokensFrom_intercalate (offset : Nat) {separator : Text} (hne : separator ≠ [])
    (hblank : ∀ c ∈ separator, isBlank c = true) (lines : List Text) :
    tokensFrom offset (separator.intercalate lines) =
      lines.zipIdx.flatMap fun (line, index) =>
        tokensFrom (offset + lineStart separator.length lines index) line := by
  induction lines generalizing offset with
  | nil => rfl
  | cons line later ih =>
      have hlater : (later.zipIdx 1).flatMap (fun (other, index) => tokensFrom
            (offset + lineStart separator.length (line :: later) index) other) =
          later.zipIdx.flatMap fun (other, index) => tokensFrom
            (offset + line.length + separator.length + lineStart separator.length later index)
            other := by
        rw [List.zipIdx_succ, List.flatMap_map]
        simp only [lineStart_cons_succ, Nat.add_assoc]
      rw [List.zipIdx_cons, List.flatMap_cons, hlater, ← ih]
      simp only [lineStart_zero, Nat.add_zero]
      cases later with
      | nil => simp
      | cons next others =>
          have hcut (rest : Text) : ∀ c ∈ line.getLast?, ∀ d ∈ (separator ++ rest).head?,
              isBlank c = true ∨ isBlank d = true := by
            intro c _ d hd
            obtain ⟨s, separator, rfl⟩ := List.exists_cons_of_ne_nil hne
            obtain rfl : s = d := by simpa using hd
            exact .inr (hblank s List.mem_cons_self)
          rw [List.intercalate_cons_cons, List.append_assoc, tokensFrom_append _ _ _ (hcut _),
            tokensFrom_blank_append _ hblank]

/-- The characters of a terminator are blank. -/
theorem Terminator.isBlank_of_mem_chars {terminator : Terminator} {c : Char}
    (h : c ∈ terminator.chars) : isBlank c = true := by
  cases terminator with
  | lf =>
      obtain rfl := List.mem_singleton.mp h
      exact isBlank_lineFeed
  | crlf =>
      obtain rfl | hmem := List.mem_cons.mp h
      · exact isBlank_carriageReturn
      · obtain rfl := List.mem_singleton.mp hmem
        exact isBlank_lineFeed

/-- **No token crosses a line boundary**: the tokens of a text are those of its lines, each moved to
the start of its line. -/
theorem tokens_eq_flatMap_lines (terminator : Terminator) (text : Text) :
    tokens text = (terminator.lines text).zipIdx.flatMap fun (line, index) =>
      (tokens line).map (Token.shift
        (lineStart terminator.width (terminator.lines text) index)) := by
  have h := tokensFrom_intercalate 0 terminator.chars_ne_nil
    (fun c hc => Terminator.isBlank_of_mem_chars hc) (terminator.lines text)
  rw [terminator.intercalate_lines, terminator.length_chars] at h
  rw [tokens, h]
  simp only [tokens, ← tokensFrom_add, Nat.zero_add, Nat.add_zero]

end SpanReport
