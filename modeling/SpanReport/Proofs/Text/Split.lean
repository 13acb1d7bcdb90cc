import SpanReport.Text.Terminator

/-! # Joining the pieces of a split

`split` loses nothing: its pieces with the separator between neighbours are the text again
(`intercalate_split`), and so are the lines of a text with their terminator (`intercalate_lines`).
It leaves nothing to split: no piece holds the separator (`not_infix_of_mem_split`), and a text
without it stays as it is (`split_of_not_infix`). Two texts with a terminator between them have the
lines of both (`lines_append_chars_append`); without one, the last line of the first text goes on
with the second (`lines_append`). -/

namespace SpanReport

/-! ## Pieces -/

/-- A character in front of the first piece stands in front of the joined pieces. -/
theorem intercalate_modifyHead_cons (separator : Text) (c : Char) {pieces : List Text}
    (h : pieces ≠ []) :
    separator.intercalate (pieces.modifyHead (c :: ·)) = c :: separator.intercalate pieces := by
  cases pieces with
  | nil => exact absurd rfl h
  | cons piece later => rw [List.modifyHead_cons, List.intercalate_cons_cons_left]

/-- The first piece stands at the front of the joined pieces. -/
theorem prefix_intercalate_cons (separator first : Text) (later : List Text) :
    first <+: separator.intercalate (first :: later) := by
  cases later with
  | nil => exact ⟨[], by rw [List.intercalate_singleton, List.append_nil]⟩
  | cons next others =>
      rw [List.intercalate_cons_cons, List.append_assoc]
      exact List.prefix_append _ _

/-- What follows a separator at the front of a text is what `split` goes on with. -/
theorem append_drop_of_isPrefixOf {separator : Text} {c : Char} {rest : Text}
    (hne : separator ≠ []) (h : separator.isPrefixOf (c :: rest) = true) :
    separator ++ rest.drop (separator.length - 1) = c :: rest := by
  obtain ⟨after, hafter⟩ := List.isPrefixOf_iff_prefix.mp h
  cases separator with
  | nil => exact absurd rfl hne
  | cons s others =>
      rw [List.cons_append] at hafter
      obtain ⟨rfl, rfl⟩ := List.cons.inj hafter
      rw [List.length_cons, Nat.add_sub_cancel, List.drop_left, List.cons_append]

/-- **Splitting loses nothing**: the pieces joined by the separator are the text. -/
theorem intercalate_split {separator : Text} (hne : separator ≠ []) (text : Text) :
    separator.intercalate (split separator text) = text := by
  -- one case for each branch of `split`: the end, a separator at the front, any other character
  fun_induction split separator text with
  | case1 => rw [List.intercalate_singleton]
  | case2 c rest hprefix ih =>
      rw [List.intercalate_cons_of_ne_nil (split_ne_nil _ _), ih, List.nil_append]
      exact append_drop_of_isPrefixOf hne hprefix
  | case3 c rest _ ih =>
      rw [intercalate_modifyHead_cons separator c (split_ne_nil _ _), ih]

/-- **No piece holds the separator.** -/
theorem not_infix_of_mem_split {separator : Text} (hne : separator ≠ []) {piece text : Text}
    (hpiece : piece ∈ split separator text) : ¬ separator <:+: piece := by
  -- one case for each branch of `split`: the end, a separator at the front, any other character
  fun_induction split separator text generalizing piece with
  | case1 =>
      rw [List.mem_singleton.mp hpiece, List.infix_nil]
      exact hne
  | case2 c rest _ ih =>
      obtain rfl | hlater := List.mem_cons.mp hpiece
      · rw [List.infix_nil]
        exact hne
      · exact ih hlater
  | case3 c rest hprefix ih =>
      have hjoined := intercalate_split hne rest
      obtain ⟨first, later, hsplit⟩ := List.exists_cons_of_ne_nil (split_ne_nil separator rest)
      rw [hsplit] at hpiece hjoined ih
      rw [List.modifyHead_cons] at hpiece
      obtain rfl | hlater := List.mem_cons.mp hpiece
      · rw [List.infix_cons_iff, not_or]
        refine ⟨fun hfront => hprefix ?_, ih List.mem_cons_self⟩
        -- a separator at the front of the piece would stand at the front of the text
        have hrest : first <+: rest := hjoined ▸ prefix_intercalate_cons separator first later
        have htext := hfront.trans (List.cons_prefix_cons.mpr ⟨rfl, hrest⟩)
        exact List.isPrefixOf_iff_prefix.mpr htext
      · exact ih (List.mem_cons_of_mem first hlater)

/-- A text without the separator is a single piece. -/
theorem split_of_not_infix {separator text : Text} (h : ¬ separator <:+: text) :
    split separator text = [text] := by
  induction text with
  | nil => exact split_nil separator
  | cons c rest ih =>
      rw [List.infix_cons_iff, not_or] at h
      have hfront : separator.isPrefixOf (c :: rest) = false :=
        Bool.eq_false_iff.mpr fun hpre => h.1 (List.isPrefixOf_iff_prefix.mp hpre)
      rw [split_of_not_isPrefixOf hfront, ih h.2, List.modifyHead_cons]

/-- A character of joined pieces belongs to the separator or to a piece. -/
theorem mem_intercalate {separator : Text} {pieces : List Text} {c : Char}
    (h : c ∈ separator.intercalate pieces) : c ∈ separator ∨ ∃ piece ∈ pieces, c ∈ piece := by
  induction pieces with
  | nil => exact absurd h List.not_mem_nil
  | cons piece later ih =>
      by_cases hlater : later = []
      · rw [hlater, List.intercalate_singleton] at h
        exact .inr ⟨piece, List.mem_cons_self, h⟩
      · rw [List.intercalate_cons_of_ne_nil hlater, List.append_assoc] at h
        rcases List.mem_append.mp h with hpiece | hrest
        · exact .inr ⟨piece, List.mem_cons_self, hpiece⟩
        rcases List.mem_append.mp hrest with hseparator | hrest
        · exact .inl hseparator
        rcases ih hrest with hseparator | ⟨other, hother, hc⟩
        · exact .inl hseparator
        · exact .inr ⟨other, List.mem_cons_of_mem piece hother, hc⟩

/-- The characters of a piece are among those of the joined pieces. -/
theorem mem_intercalate_of_mem (separator : Text) {pieces : List Text} {piece : Text}
    (hpiece : piece ∈ pieces) {c : Char} (hc : c ∈ piece) :
    c ∈ separator.intercalate pieces := by
  induction pieces with
  | nil => exact absurd hpiece List.not_mem_nil
  | cons first later ih =>
      by_cases hlater : later = []
      · rw [hlater] at hpiece ⊢
        obtain rfl := List.mem_singleton.mp hpiece
        rwa [List.intercalate_singleton]
      · rw [List.intercalate_cons_of_ne_nil hlater, List.append_assoc]
        obtain rfl | hmem := List.mem_cons.mp hpiece
        · exact List.mem_append_left _ hc
        · exact List.mem_append_right _ (List.mem_append_right _ (ih hmem))

/-! ## A single character as separator -/

section Singleton

variable {s : Char}

/-- The separator at the front closes an empty piece. -/
theorem split_singleton_self (s : Char) (rest : Text) :
    split [s] (s :: rest) = [] :: split [s] rest :=
  split_of_isPrefixOf (by simp)

/-- Any other character belongs to the first piece. -/
theorem split_singleton_of_ne {c : Char} (h : c ≠ s) (rest : Text) :
    split [s] (c :: rest) = (split [s] rest).modifyHead (c :: ·) :=
  split_of_not_isPrefixOf (by simp [List.isPrefixOf_cons_cons, h.symm])

/-- Splitting at a single character is the splitting of lists. -/
theorem split_singleton_eq_splitOn (s : Char) (text : Text) :
    split [s] text = text.splitOn s := by
  induction text with
  | nil => rw [split_nil, List.splitOn_nil]
  | cons c rest ih =>
      rw [List.splitOn_cons_eq_if_modifyHead, ← ih]
      by_cases hc : c = s
      · rw [hc, split_singleton_self, if_pos BEq.rfl]
      · rw [split_singleton_of_ne hc, if_neg (by simpa using hc)]

/-- No piece holds the separator, and all its characters are those of the text. -/
theorem mem_of_mem_split_singleton {piece text : Text} (hpiece : piece ∈ split [s] text) {c : Char}
    (hc : c ∈ piece) : c ∈ text ∧ c ≠ s := by
  induction text generalizing piece with
  | nil =>
      rw [split_nil, List.mem_singleton] at hpiece
      exact absurd (hpiece ▸ hc) List.not_mem_nil
  | cons d rest ih =>
      by_cases hd : d = s
      · rw [hd, split_singleton_self] at hpiece
        obtain rfl | hlater := List.mem_cons.mp hpiece
        · exact absurd hc List.not_mem_nil
        · obtain ⟨hmem, hne⟩ := ih hlater hc
          exact ⟨List.mem_cons_of_mem d hmem, hne⟩
      · obtain ⟨first, later, hsplit⟩ := List.exists_cons_of_ne_nil (split_ne_nil [s] rest)
        rw [split_singleton_of_ne hd, hsplit, List.modifyHead_cons] at hpiece
        rw [hsplit] at ih
        obtain rfl | hlater := List.mem_cons.mp hpiece
        · -- the first piece is that of the rest with one more character in front
          obtain rfl | hfirst := List.mem_cons.mp hc
          · exact ⟨List.mem_cons_self, hd⟩
          · obtain ⟨hmem, hne⟩ := ih List.mem_cons_self hfirst
            exact ⟨List.mem_cons_of_mem d hmem, hne⟩
        · obtain ⟨hmem, hne⟩ := ih (List.mem_cons_of_mem first hlater) hc
          exact ⟨List.mem_cons_of_mem d hmem, hne⟩

end Singleton

/-! ## Lines -/

namespace Terminator

theorem chars_ne_nil (terminator : Terminator) : terminator.chars ≠ [] := by
  cases terminator <;> simp [chars]

/-- The lines of a text, joined by the terminator, are the text. -/
theorem intercalate_lines (terminator : Terminator) (text : Text) :
    terminator.chars.intercalate (terminator.lines text) = text :=
  intercalate_split terminator.chars_ne_nil text

/-- A terminator at the front of a text ends an empty line. -/
theorem lines_chars_append (terminator : Terminator) (rest : Text) :
    terminator.lines (terminator.chars ++ rest) = [] :: terminator.lines rest := by
  cases terminator with
  | lf => exact split_of_isPrefixOf rfl
  | crlf => exact split_of_isPrefixOf rfl

/-- Any other character belongs to the first line. -/
theorem lines_cons {terminator : Terminator} {c : Char} {rest : Text}
    (h : ¬ terminator.chars <+: c :: rest) :
    terminator.lines (c :: rest) = (terminator.lines rest).modifyHead (c :: ·) := by
  refine split_of_not_isPrefixOf (Bool.eq_false_iff.mpr fun hprefix => h ?_)
  exact List.isPrefixOf_iff_prefix.mp hprefix

/-- A text that goes on with a terminator begins with one only if the terminator stands in its
first part: none reaches across the seam. -/
theorem chars_prefix_of_chars_prefix_append {terminator : Terminator} {c : Char} {rest after : Text}
    (h : terminator.chars <+: c :: (rest ++ (terminator.chars ++ after))) :
    terminator.chars <+: c :: rest := by
  obtain ⟨behind, hbehind⟩ := h
  cases terminator with
  | lf =>
      obtain ⟨hc, -⟩ := List.cons.inj hbehind
      exact ⟨rest, by rw [← hc]; rfl⟩
  | crlf =>
      obtain ⟨hc, hnext⟩ := List.cons.inj hbehind
      cases rest with
      | nil =>
          -- the line feed would have to be the carriage return that follows
          exact absurd (List.cons.inj hnext).1 (by decide)
      | cons d rest =>
          obtain ⟨hd, -⟩ := List.cons.inj hnext
          exact ⟨rest, by rw [← hc, ← hd]; rfl⟩

/-- **A text that is cut at a terminator has the lines of its parts**, whatever stands on either
side of the cut. -/
theorem lines_append_chars_append (terminator : Terminator) (a b : Text) :
    terminator.lines (a ++ (terminator.chars ++ b)) = terminator.lines a ++ terminator.lines b := by
  rw [lines.eq_1 terminator a]
  -- one case for each branch of `split` on the first part
  fun_induction split terminator.chars a with
  | case1 => rw [List.nil_append, lines_chars_append, List.singleton_append]
  | case2 c rest hprefix ih =>
      have hfront := append_drop_of_isPrefixOf terminator.chars_ne_nil hprefix
      rw [← hfront, List.append_assoc, lines_chars_append, ih, List.cons_append]
  | case3 c rest hprefix ih =>
      have hnot : ¬ terminator.chars <+: c :: (rest ++ (terminator.chars ++ b)) := by
        intro hacross
        have hwithin := chars_prefix_of_chars_prefix_append hacross
        exact hprefix (List.isPrefixOf_iff_prefix.mpr hwithin)
      obtain ⟨line, later, hlines⟩ :=
        List.exists_cons_of_ne_nil (split_ne_nil terminator.chars rest)
      rw [List.cons_append, lines_cons hnot, ih, hlines]
      rfl

/-- A terminator at the front of a longer text stands at the front of the text itself, if that text
has another line. -/
theorem chars_prefix_of_lines_cons_cons {terminator : Terminator} {c : Char} {rest : Text}
    {first next : Text} {later : List Text}
    (hlines : terminator.lines rest = first :: next :: later) {b : Text}
    (h : terminator.chars <+: c :: (rest ++ b)) : terminator.chars <+: c :: rest := by
  have hjoined := terminator.intercalate_lines rest
  rw [hlines, List.intercalate_cons_cons] at hjoined
  have hfits : terminator.chars.length ≤ (c :: rest).length := by
    rw [← hjoined]
    simp only [List.length_cons, List.length_append]
    omega
  exact List.prefix_of_prefix_length_le h (List.prefix_append (c :: rest) b) hfits

/-- **Text behind a text changes its last line only**: all other lines stay, and the last one goes
on with what is put behind it. -/
theorem lines_append (terminator : Terminator) (a : Text) :
    ∃ earlier last, terminator.lines a = earlier ++ [last] ∧
      ∀ b, terminator.lines (a ++ b) = earlier ++ terminator.lines (last ++ b) := by
  rw [lines.eq_1 terminator a]
  -- one case for each branch of `split` on the text in front
  fun_induction split terminator.chars a with
  | case1 => exact ⟨[], [], rfl, fun b => rfl⟩
  | case2 c rest hprefix ih =>
      obtain ⟨earlier, last, hlines, happend⟩ := ih
      have hfront := append_drop_of_isPrefixOf terminator.chars_ne_nil hprefix
      refine ⟨[] :: earlier, last, by rw [hlines, List.cons_append], fun b => ?_⟩
      rw [← hfront, List.append_assoc, lines_chars_append, happend, List.cons_append]
  | case3 c rest hprefix ih =>
      obtain ⟨earlier, last, hlines, happend⟩ := ih
      cases earlier with
      | nil =>
          -- the text is one line, which goes on as a whole
          have hlast : last = rest := by
            have hjoined := terminator.intercalate_lines rest
            rwa [lines, hlines, List.nil_append, List.intercalate_singleton] at hjoined
          exact ⟨[], c :: last, by rw [hlines]; rfl, fun b => by rw [hlast]; rfl⟩
      | cons first others =>
          refine ⟨(c :: first) :: others, last, by rw [hlines]; rfl, fun b => ?_⟩
          have hnot : ¬ terminator.chars <+: c :: (rest ++ b) := by
            intro hlonger
            obtain ⟨next, later, hothers⟩ :=
              List.exists_cons_of_ne_nil (List.concat_ne_nil last others)
            rw [List.cons_append, hothers] at hlines
            have hshorter := chars_prefix_of_lines_cons_cons hlines hlonger
            exact hprefix (List.isPrefixOf_iff_prefix.mpr hshorter)
          rw [List.cons_append, lines_cons hnot, happend]
          rfl

/-- A line keeps all its characters if text is put behind it, apart from those that become part of a
terminator. -/
theorem length_lt_of_lines_append {terminator : Terminator} {line b first : Text}
    {later : List Text} (hline : terminator.lines line = [line])
    (happend : terminator.lines (line ++ b) = first :: later) :
    line.length < first.length + terminator.width := by
  have hjoined := terminator.intercalate_lines (line ++ b)
  have hpos := terminator.width_pos
  rw [happend] at hjoined
  cases later with
  | nil =>
      rw [List.intercalate_singleton] at hjoined
      rw [hjoined, List.length_append]
      omega
  | cons next others =>
      refine Nat.lt_of_not_le fun hle => ?_
      rw [← terminator.length_chars, ← List.length_append] at hle
      rw [List.intercalate_cons_cons] at hjoined
      -- a terminator that ended within the line would split it
      have hfront : first ++ terminator.chars <+: line ++ b := ⟨_, hjoined⟩
      obtain ⟨behind, hbehind⟩ :=
        List.prefix_of_prefix_length_le hfront (List.prefix_append line b) hle
      have hsplit := terminator.lines_append_chars_append first behind
      rw [← List.append_assoc, hbehind, hline] at hsplit
      have hcount := congrArg List.length hsplit
      have hfirst := List.length_pos_iff.mpr (terminator.lines_ne_nil first)
      have hsecond := List.length_pos_iff.mpr (terminator.lines_ne_nil behind)
      rw [List.length_append, List.length_singleton] at hcount
      omega

end Terminator

end SpanReport
