import SpanReport.Text.Span

/-! # Splitting a text at a separator

`split separator text` is the list of pieces between the leftmost, non-overlapping occurrences of
the separator. It always has at least one piece; a separator at either end of the text yields an
empty piece there. -/

namespace SpanReport

/-- The pieces of a text between the occurrences of `separator`, from left to right. -/
def split (separator : Text) : Text → List Text
  | [] => [[]]
  | c :: rest =>
    if separator.isPrefixOf (c :: rest) then
      [] :: split separator (rest.drop (separator.length - 1))
    else
      (split separator rest).modifyHead (c :: ·)
termination_by text => text.length
decreasing_by all_goals simp only [List.length_drop, List.length_cons]; omega

@[simp] theorem split_nil (separator : Text) : split separator [] = [[]] := by
  rw [split]

/-- A separator at the front closes an empty piece. -/
theorem split_of_isPrefixOf {separator : Text} {c : Char} {rest : Text}
    (h : separator.isPrefixOf (c :: rest) = true) :
    split separator (c :: rest) = [] :: split separator (rest.drop (separator.length - 1)) := by
  rw [split, if_pos h]

/-- Any other character belongs to the first piece. -/
theorem split_of_not_isPrefixOf {separator : Text} {c : Char} {rest : Text}
    (h : separator.isPrefixOf (c :: rest) = false) :
    split separator (c :: rest) = (split separator rest).modifyHead (c :: ·) := by
  rw [split, if_neg (by simp [h])]

/-- Every text has a piece. -/
theorem split_ne_nil (separator text : Text) : split separator text ≠ [] := by
  fun_induction split separator text with
  | case1 => simp
  | case2 => simp
  | case3 c rest _ ih => simpa using ih

end SpanReport
