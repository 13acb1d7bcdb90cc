import SpanReport.Proofs.Line.Layout

/-! # Converting line endings

`toCrlf` puts a carriage return in front of every line feed. In a text whose line feeds have none
before them, this changes the terminator that is detected, but not the lines that it separates
(`lines_detect_toCrlf`); every line starts later by one character for each line before it
(`lineStart_toCrlf`). -/

namespace SpanReport

/-- The text with a carriage return in front of every line feed. -/
def toCrlf (text : Text) : Text :=
  text.flatMap fun c => if c = '\n' then ['\r', '\n'] else [c]

@[simp] theorem toCrlf_nil : toCrlf [] = [] := rfl

@[simp] theorem toCrlf_lineFeed (rest : Text) :
    toCrlf ('\n' :: rest) = '\r' :: '\n' :: toCrlf rest := rfl

theorem toCrlf_cons_of_ne {c : Char} (h : c ≠ '\n') (rest : Text) :
    toCrlf (c :: rest) = c :: toCrlf rest := by
  rw [toCrlf, List.flatMap_cons, if_neg h]
  rfl

/-- No converted text begins with a line feed. -/
theorem toCrlf_ne_lineFeed_cons (text after : Text) : toCrlf text ≠ '\n' :: after := by
  cases text with
  | nil => exact (List.cons_ne_nil '\n' after).symm
  | cons c rest =>
      by_cases hc : c = '\n'
      · rw [hc, toCrlf_lineFeed]
        intro h
        exact absurd (List.cons.inj h).1 (by decide)
      · rw [toCrlf_cons_of_ne hc]
        intro h
        exact hc (List.cons.inj h).1

/-- A text without line feeds is converted to itself. -/
theorem toCrlf_of_not_mem {text : Text} (h : '\n' ∉ text) : toCrlf text = text := by
  induction text with
  | nil => rfl
  | cons c rest ih =>
      obtain ⟨hc, hrest⟩ := not_or.mp (mt List.mem_cons.mpr h)
      rw [toCrlf_cons_of_ne (Ne.symm hc), ih hrest]

/-- Conversion makes a text at most twice as long. -/
theorem length_toCrlf_le (text : Text) : (toCrlf text).length ≤ 2 * text.length := by
  induction text with
  | nil => exact Nat.zero_le _
  | cons c rest ih =>
      by_cases hc : c = '\n'
      · rw [hc, toCrlf_lineFeed]
        simp only [List.length_cons]
        omega
      · rw [toCrlf_cons_of_ne hc]
        simp only [List.length_cons]
        omega

/-! ## Detection -/

/-- A text in which no line feed follows a carriage return uses line feeds. -/
theorem Terminator.detect_of_not_infix {text : Text} (h : ¬ ['\r', '\n'] <:+: text) :
    detect text = .lf := by
  fun_induction detect text with
  | case1 => rfl
  | case2 rest => exact absurd ⟨[], rest, rfl⟩ h
  | case3 c rest _ _ ih =>
      -- neither character decides, and the rest has no such pair either
      refine ih fun hinfix => h ?_
      exact hinfix.trans (List.suffix_cons c rest).isInfix
  | case4 => rfl

/-- A converted text with a line feed uses both characters. -/
theorem Terminator.detect_toCrlf {text : Text} (h : '\n' ∈ text) :
    detect (toCrlf text) = .crlf := by
  induction text with
  | nil => exact absurd h List.not_mem_nil
  | cons c rest ih =>
      by_cases hc : c = '\n'
      · rw [hc, toCrlf_lineFeed, detect]
      · have hrest : '\n' ∈ rest := by
          obtain heq | hmem := List.mem_cons.mp h
          · exact absurd heq.symm hc
          · exact hmem
        -- the character does not decide, for no line feed follows it
        rw [toCrlf_cons_of_ne hc, detect, ih hrest]
        · exact fun heq => hc heq
        · exact fun after _ heq => toCrlf_ne_lineFeed_cons rest after heq

/-! ## Lines -/

/-- Both endings separate the same lines. -/
theorem Terminator.lines_crlf_toCrlf (text : Text) :
    crlf.lines (toCrlf text) = lf.lines text := by
  induction text with
  | nil => rw [toCrlf_nil, lines, lines, split_nil, split_nil]
  | cons c rest ih =>
      by_cases hc : c = '\n'
      · subst hc
        have hlf : lf.lines ('\n' :: rest) = [] :: lf.lines rest := lines_chars_append lf rest
        rw [toCrlf_lineFeed, hlf, ← ih]
        exact lines_chars_append crlf (toCrlf rest)
      · -- the character stays in its line, even a carriage return: what follows it is no line feed
        have hlf : ¬ lf.chars <+: c :: rest := by
          rintro ⟨after, hafter⟩
          exact hc (List.cons.inj hafter).1.symm
        have hcrlf : ¬ crlf.chars <+: c :: toCrlf rest := by
          rintro ⟨after, hafter⟩
          exact toCrlf_ne_lineFeed_cons rest after (List.cons.inj hafter).2.symm
        rw [toCrlf_cons_of_ne hc, lines_cons hcrlf, lines_cons hlf, ih]

/-- A text without line feeds is a single line. -/
theorem Terminator.lines_lf_of_not_mem {text : Text} (h : '\n' ∉ text) :
    lf.lines text = [text] := by
  have hsplit := split_singleton_eq_splitOn '\n' text
  rw [List.splitOn_eq_singleton h] at hsplit
  exact hsplit

/-- **Conversion keeps the lines of a text**, each text split at the terminator that it uses. -/
theorem lines_detect_toCrlf {text : Text} (h : ¬ ['\r', '\n'] <:+: text) :
    (Terminator.detect (toCrlf text)).lines (toCrlf text) =
      (Terminator.detect text).lines text := by
  by_cases hbreak : '\n' ∈ text
  · rw [Terminator.detect_toCrlf hbreak, Terminator.detect_of_not_infix h,
      Terminator.lines_crlf_toCrlf]
  · rw [toCrlf_of_not_mem hbreak]

/-- One more character at every boundary moves a line by the number of lines before it. -/
theorem lineStart_succ_width (width : Nat) {lines : List Text} {index : Nat}
    (h : index ≤ lines.length) :
    lineStart (width + 1) lines index = lineStart width lines index + index := by
  induction index with
  | zero => rw [lineStart_zero, lineStart_zero]
  | succ index ih =>
      have hline := List.getElem?_eq_getElem h
      rw [lineStart_succ _ hline, lineStart_succ _ hline, ih (Nat.le_of_succ_le h)]
      omega

/-- **Conversion moves every line by the number of lines before it.** -/
theorem lineStart_toCrlf {text : Text} (h : ¬ ['\r', '\n'] <:+: text) {index : Nat}
    (hindex : index < ((Terminator.detect text).lines text).length) :
    lineStart (Terminator.detect (toCrlf text)).width ((Terminator.detect text).lines text) index =
      lineStart (Terminator.detect text).width ((Terminator.detect text).lines text) index +
        index := by
  by_cases hbreak : '\n' ∈ text
  · rw [Terminator.detect_toCrlf hbreak, Terminator.detect_of_not_infix h] at *
    exact lineStart_succ_width 1 (Nat.le_of_lt hindex)
  · -- without a line feed there is only the first line, and it does not move
    rw [Terminator.detect_of_not_infix h, Terminator.lines_lf_of_not_mem hbreak] at hindex
    obtain rfl : index = 0 := Nat.lt_one_iff.mp hindex
    rw [lineStart_zero, lineStart_zero]

end SpanReport
