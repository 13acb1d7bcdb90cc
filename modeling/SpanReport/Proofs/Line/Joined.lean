import Mathlib.Algebra.GroupWithZero.Nat
import SpanReport.Line.Table
import SpanReport.Proofs.Text.Split

/-! # Lines and the text that they make up

The lines of a text are the only ones that hold no terminator and make up the text with a terminator
between neighbours (`Terminator.lines_eq_iff`). Laid one after another, they tile it: each starts
one boundary behind the end of the line before it, and the last one ends where the text does
(`tiles_lines_ofText`). A text that is made up of lines without line feeds tells the terminator that
was put between them, if no carriage return stands before it by chance
(`Terminator.detect_append`). So lines and text can be turned into each other
(`Terminator.lines_cut_and_join`). -/

namespace SpanReport

/-! ## Joining lines -/

namespace Terminator

variable {terminator : Terminator} {text : Text} {lines : List Text}

/-- Lines that hold no terminator are those of the text that they make up. -/
theorem lines_intercalate (hne : lines ≠ [])
    (hfree : ∀ content ∈ lines, ¬ terminator.chars <:+: content) :
    terminator.lines (terminator.chars.intercalate lines) = lines := by
  induction lines with
  | nil => exact absurd rfl hne
  | cons content later ih =>
      have hcontent : terminator.lines content = [content] :=
        split_of_not_infix (hfree content List.mem_cons_self)
      by_cases hlater : later = []
      · rw [hlater, List.intercalate_singleton, hcontent]
      · -- the terminator behind the first line cuts the text
        rw [List.intercalate_cons_of_ne_nil hlater, List.append_assoc, lines_append_chars_append,
          hcontent, ih hlater fun other hother => hfree other (List.mem_cons_of_mem content hother),
          List.singleton_append]

/-- **The lines of a text are told by two properties**: they make up the text, and none of them
holds the terminator. -/
theorem lines_eq_iff :
    terminator.lines text = lines ↔ lines ≠ [] ∧ terminator.chars.intercalate lines = text ∧
      ∀ content ∈ lines, ¬ terminator.chars <:+: content := by
  constructor
  · rintro rfl
    exact ⟨terminator.lines_ne_nil text, terminator.intercalate_lines text,
      fun content hcontent => not_infix_of_mem_split terminator.chars_ne_nil hcontent⟩
  · rintro ⟨hne, rfl, hfree⟩
    exact lines_intercalate hne hfree

/-- Both terminators end in a line feed. -/
theorem lineFeed_mem_chars (terminator : Terminator) : '\n' ∈ terminator.chars := by
  cases terminator <;> decide

/-- A line without line feeds holds no terminator. -/
theorem not_infix_of_not_mem {content : Text} (h : '\n' ∉ content) :
    ¬ terminator.chars <:+: content :=
  fun hwithin => h (hwithin.subset terminator.lineFeed_mem_chars)

/-! ## Telling the terminator -/

/-- **The first terminator of a text is the one that is detected**, if the line in front of it holds
no line feed and does not end in a carriage return. -/
theorem detect_append (terminator : Terminator) {content : Text} (hfeed : '\n' ∉ content)
    (hreturn : content.getLast? ≠ some '\r') (after : Text) :
    detect (content ++ (terminator.chars ++ after)) = terminator := by
  induction content with
  | nil => cases terminator <;> rfl
  | cons c rest ih =>
      obtain ⟨hc, hrest⟩ := not_or.mp (mt List.mem_cons.mpr hfeed)
      cases rest with
      | nil =>
          -- the last character before the terminator
          rw [List.getLast?_singleton, ne_eq, Option.some.injEq] at hreturn
          rw [List.singleton_append, detect]
          · exact ih hrest (Option.some_ne_none _).symm
          · exact fun heq => hc heq.symm
          · exact fun _ heq _ => hreturn heq
      | cons d others =>
          obtain ⟨hd, -⟩ := not_or.mp (mt List.mem_cons.mpr hrest)
          rw [List.getLast?_cons_cons] at hreturn
          rw [List.cons_append, detect]
          · exact ih hrest hreturn
          · exact fun heq => hc heq.symm
          · exact fun _ _ heq => hd (List.cons.inj heq).1.symm

end Terminator

/-! ## Tiling -/

/-- Lines tile the offsets from a start up to an end, with `width` characters at every boundary:
the first line begins at the start, and no character is left out between two lines. -/
inductive Tiles (width : Nat) : Nat → List Line → Nat → Prop
  /-- The last line goes up to the end. -/
  | last (start length : Nat) : Tiles width start [⟨start, length⟩] (start + length)
  /-- Behind any other line stands a boundary, and then the next line. -/
  | cons (start length : Nat) {later : List Line} {stop : Nat}
    (h : Tiles width (start + length + width) later stop) :
    Tiles width start (⟨start, length⟩ :: later) stop

/-- Lines that are laid one after another tile the text that they make up. -/
theorem tiles_layLines (separator : Text) (start : Nat) {lines : List Text} (hne : lines ≠ []) :
    Tiles separator.length start (layLines separator.length start lines)
      (start + (separator.intercalate lines).length) := by
  induction lines generalizing start with
  | nil => exact absurd rfl hne
  | cons content later ih =>
      rw [layLines]
      by_cases hlater : later = []
      · rw [hlater, List.intercalate_singleton, layLines]
        exact .last start content.length
      · have hstop : start + content.length + separator.length +
            (separator.intercalate later).length =
              start + (separator.intercalate (content :: later)).length := by
          rw [List.intercalate_cons_of_ne_nil hlater, List.length_append, List.length_append]
          omega
        have htiles := ih (start + content.length + separator.length) hlater
        rw [hstop] at htiles
        exact .cons start content.length htiles

/-- The lines of a table tile the text. -/
theorem tiles_lines_ofText (text : Text) (terminator : Terminator) :
    Tiles terminator.width 0 (LineTable.ofText text terminator).lines.toList text.length := by
  have htiles := tiles_layLines terminator.chars 0 (terminator.lines_ne_nil text)
  rwa [terminator.intercalate_lines, terminator.length_chars, Nat.zero_add] at htiles

/-- The lengths of lines that are laid are those of the lines. -/
theorem map_length_layLines (width start : Nat) (lines : List Text) :
    (layLines width start lines).map Line.length = lines.map List.length := by
  induction lines generalizing start with
  | nil => rfl
  | cons content later ih => rw [layLines, List.map_cons, List.map_cons, ih]

/-- Lines that tile a stretch of offsets have all of its characters but those of the boundaries. -/
theorem Tiles.sum_length_add {width start stop : Nat} {lines : List Line}
    (h : Tiles width start lines stop) :
    start + (lines.map Line.length).sum + (lines.length - 1) * width = stop := by
  induction h with
  | last start length => simp
  | @cons start length later stop h ih =>
      -- a line with others behind it is followed by one boundary more than they are
      have hpos : 0 < later.length := by cases h <;> exact Nat.succ_pos _
      obtain ⟨count, hcount⟩ := Nat.exists_eq_add_one.mpr hpos
      rw [hcount, Nat.add_sub_cancel] at ih
      rw [List.map_cons, List.sum_cons, List.length_cons, Nat.add_sub_cancel, hcount, Nat.succ_mul]
      show start + (length + _) + _ = stop
      omega

/-! ## Cutting and joining -/

/-- A text is cut into lines: nothing of it is lost, nothing is left to cut, and the lines tile the
text. -/
structure Terminator.CutInto (terminator : Terminator) (text : Text) (lines : List Text) :
    Prop where
  /-- The lines, with the terminator between neighbours, make up the text. -/
  intercalate_eq : terminator.chars.intercalate lines = text
  /-- No line holds the terminator. -/
  not_infix : ∀ content ∈ lines, ¬ terminator.chars <:+: content
  /-- The characters of the lines and of one boundary between neighbours are those of the text. -/
  sum_length_add :
    (lines.map List.length).sum + (lines.length - 1) * terminator.width = text.length
  /-- The line table has a line of the same length for each of them. -/
  length_lines_ofText :
    (LineTable.ofText text terminator).lines.toList.map Line.length = lines.map List.length
  /-- The lines of the table tile the text. -/
  tiles : Tiles terminator.width 0 (LineTable.ofText text terminator).lines.toList text.length

/-- The lines of a text are what it is cut into. -/
theorem Terminator.cutInto_lines (terminator : Terminator) (text : Text) :
    terminator.CutInto text (terminator.lines text) := by
  obtain ⟨-, hjoined, hfree⟩ := lines_eq_iff.mp (Eq.refl (terminator.lines text))
  have hlengths : (LineTable.ofText text terminator).lines.toList.map Line.length =
      (terminator.lines text).map List.length :=
    map_length_layLines terminator.width 0 (terminator.lines text)
  have htiles := tiles_lines_ofText text terminator
  have hsum := htiles.sum_length_add
  have hcount := congrArg List.length hlengths
  rw [List.length_map, List.length_map] at hcount
  rw [hlengths, hcount, Nat.zero_add] at hsum
  exact ⟨hjoined, hfree, hsum, hlengths, htiles⟩

/-- **Texts and lines can be turned into each other.** Every text is cut into its lines, from which
it can be made up again. The other way round, a text that is made up of at least two lines, which
hold no line feed and do not end in a carriage return, tells the terminator between them, and it is
cut there into the same lines. -/
theorem Terminator.lines_cut_and_join (terminator : Terminator) :
    (∀ text, terminator.CutInto text (terminator.lines text)) ∧
      ∀ lines : List Text, 2 ≤ lines.length →
        (∀ content ∈ lines, '\n' ∉ content ∧ content.getLast? ≠ some '\r') →
        detect (terminator.chars.intercalate lines) = terminator ∧
          terminator.lines (terminator.chars.intercalate lines) = lines := by
  refine ⟨terminator.cutInto_lines, fun lines hlength hlines => ?_⟩
  match lines, hlength with
  | first :: next :: later, _ =>
      obtain ⟨hfeed, hreturn⟩ := hlines first List.mem_cons_self
      refine ⟨?_, lines_intercalate (List.cons_ne_nil _ _) fun content hcontent =>
        not_infix_of_not_mem (hlines content hcontent).1⟩
      -- the first terminator stands behind the first line
      rw [List.intercalate_cons_cons, List.append_assoc]
      exact detect_append terminator hfeed hreturn _

/-- Lines with carriage returns of their own, one of them before another line begins. -/
theorem Terminator.lines_cut_and_join_carriage_returns :
    let lines := ["\ra\rb".toList, [], "\r\rc".toList]
    (2 ≤ lines.length ∧ ∀ content ∈ lines, '\n' ∉ content ∧ content.getLast? ≠ some '\r') ∧
      crlf.chars.intercalate lines = "\ra\rb\r\n\r\n\r\rc".toList ∧
      detect "\ra\rb\r\n\r\n\r\rc".toList = crlf ∧
      crlf.lines "\ra\rb\r\n\r\n\r\rc".toList = lines ∧
      crlf.CutInto "\ra\rb\r\n\r\n\r\rc".toList lines := by
  intro lines
  have hlength : 2 ≤ lines.length := by decide
  have hlines : ∀ content ∈ lines, '\n' ∉ content ∧ content.getLast? ≠ some '\r' := by decide
  have hjoined : crlf.chars.intercalate lines = "\ra\rb\r\n\r\n\r\rc".toList := by decide
  obtain ⟨hcut, hjoin⟩ := lines_cut_and_join crlf
  obtain ⟨hdetect, hsame⟩ := hjoin lines hlength hlines
  have htext := hcut "\ra\rb\r\n\r\n\r\rc".toList
  rw [hjoined] at hdetect hsame
  rw [hsame] at htext
  exact ⟨⟨hlength, hlines⟩, hjoined, hdetect, hsame, htext⟩

end SpanReport
