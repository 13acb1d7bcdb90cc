import Mathlib.Data.Nat.Find
import SpanReport.Draw.Generator
import SpanReport.Proofs.Draw.Script

/-! # Which draws are generated

The words that stand for a draw are as many for each draw (`drawOfWord?_eq_some_iff`), so that no
draw is favoured. All draws of a generator lie between the least and the greatest one
(`mem_draws_bounds`), whatever its key is and however many words are passed over. So a threshold
below the least draw flags every token, and one from the greatest draw on flags none.

A generator reads the stream of words of its key, one block after another (`ReadsAt.nextWord`). Its
next draw is that of the first word ahead that stands for a draw: the search for it is bounded, but
the stream repeats itself before the bound is reached (`ReadsAt.draw`). -/

namespace SpanReport

open ChaCha (Key)

namespace Generator

/-- The first of the words that stand for a draw. -/
def firstWord (value : Nat) : Nat :=
  ((value - leastDraw) * UInt32.size + greatestDraw - 1) / greatestDraw

/-- The number of words that stand for a draw, the same for each draw. -/
def wordsPerDraw : Nat := UInt32.size / greatestDraw

/-- **Every draw is that of equally many words**, which follow one another; no word stands for any
other number. -/
theorem drawOfWord?_eq_some_iff (word : UInt32) (value : Nat) :
    drawOfWord? word = some value ↔
      (leastDraw ≤ value ∧ value ≤ greatestDraw) ∧
        firstWord value ≤ word.toNat ∧ word.toNat < firstWord value + wordsPerDraw := by
  have hword : word.toNat < UInt32.size := word.toNat_lt_size
  rw [drawOfWord?]
  -- fair or not, the statement is one of linear arithmetic in the word and the value
  by_cases hfair : word.toNat * greatestDraw % UInt32.size ≤ fairBound
  · rw [if_pos hfair, Option.some.injEq]
    simp only [firstWord, wordsPerDraw, fairBound, leastDraw, greatestDraw, UInt32.size]
      at hword hfair ⊢
    omega
  · rw [if_neg hfair, iff_false_intro (Option.some_ne_none value).symm, false_iff]
    rintro ⟨hvalue, hfirst, hlast⟩
    simp only [firstWord, wordsPerDraw, fairBound, leastDraw, greatestDraw, UInt32.size]
      at hvalue hfirst hlast hfair
    have hquotient : word.toNat * 10 / 4294967296 = value - 1 := by omega
    omega

/-- The word of a draw stands for a number between the least and the greatest draw. -/
theorem drawOfWord?_bounds {word : UInt32} {value : Nat} (h : drawOfWord? word = some value) :
    leastDraw ≤ value ∧ value ≤ greatestDraw :=
  ((drawOfWord?_eq_some_iff word value).mp h).1

/-- However many words are passed over, a draw lies between the least and the greatest one. -/
theorem drawWithin_bounds (words : Nat) (generator : Generator) :
    leastDraw ≤ (drawWithin words generator).1 ∧
      (drawWithin words generator).1 ≤ greatestDraw := by
  induction words generalizing generator with
  | zero => exact ⟨Nat.le_refl leastDraw, (by decide : leastDraw ≤ greatestDraw)⟩
  | succ words ih =>
      cases hdraw : drawOfWord? generator.nextWord.1 with
      | some value =>
          simp only [drawWithin, hdraw]
          exact drawOfWord?_bounds hdraw
      | none =>
          simp only [drawWithin, hdraw]
          exact ih generator.nextWord.2

/-- **All draws of a generator lie between the least and the greatest one.** -/
theorem mem_draws_bounds {generator : Generator} {count value : Nat}
    (h : value ∈ (draws count generator).1) : leastDraw ≤ value ∧ value ≤ greatestDraw := by
  induction count generalizing generator with
  | zero => exact absurd h List.not_mem_nil
  | succ count ih =>
      rw [draws] at h
      obtain rfl | hlater := List.mem_cons.mp h
      · exact drawWithin_bounds period generator
      · exact ih hlater

/-! ## The stream of a key -/

/-- The word at a place of the stream of a key, sixteen to a block. -/
def streamWord (key : Key) (place : Nat) : UInt32 :=
  (ChaCha.block key (UInt64.ofNat (place / 16)))[place % 16]

/-- A generator that reads on at a place of the stream of a key: where a block starts, or within
one. -/
inductive ReadsAt (key : Key) : Nat → Generator → Prop
  /-- The next block is still to be made. -/
  | start (number : Nat) : ReadsAt key (16 * number) ⟨key, UInt64.ofNat number, []⟩
  /-- Some words of a block are read. -/
  | within (number : Nat) {index : Nat} (hindex : index < 16) :
      ReadsAt key (16 * number + index)
        ⟨key, UInt64.ofNat number + 1,
          (ChaCha.block key (UInt64.ofNat number)).toList.drop index⟩

/-- The words of a block follow one another in the stream. -/
theorem streamWord_add (key : Key) (number : Nat) {index : Nat} (h : index < 16) :
    streamWord key (16 * number + index) = (ChaCha.block key (UInt64.ofNat number))[index] := by
  have hblock : (16 * number + index) / 16 = number := by omega
  have hindex : (16 * number + index) % 16 = index := by omega
  simp only [streamWord, hblock, hindex]

/-- **A generator reads the word at its place**, and reads on at the next one. -/
theorem ReadsAt.nextWord {key : Key} {place : Nat} {generator : Generator}
    (h : ReadsAt key place generator) :
    generator.nextWord.1 = streamWord key place ∧
      ReadsAt key (place + 1) generator.nextWord.2 := by
  cases h with
  | start number =>
      refine ⟨(streamWord_add key number (Nat.succ_pos 15)).symm, ?_⟩
      have hnext := @ReadsAt.within key number 1 (by decide)
      rw [List.drop_one] at hnext
      exact hnext
  | @within number index hindex =>
      have hword := List.drop_eq_getElem_cons
        (l := (ChaCha.block key (UInt64.ofNat number)).toList) (i := index) (by simpa using hindex)
      rw [hword, streamWord_add key number hindex]
      refine ⟨by simp [Generator.nextWord], ?_⟩
      simp only [Generator.nextWord]
      by_cases hlast : index + 1 < 16
      · exact .within number hlast
      · -- nothing is left of the block, so that the next one is made
        have hplace : 16 * number + index + 1 = 16 * (number + 1) := by omega
        have hend : (ChaCha.block key (UInt64.ofNat number)).toList.drop (index + 1) = [] :=
          List.drop_eq_nil_of_le (by simpa using hlast)
        have hcounter : UInt64.ofNat number + 1 = UInt64.ofNat (number + 1) :=
          (UInt64.ofNat_add number 1).symm
        rw [hplace, hend, hcounter]
        exact .start (number + 1)

/-- The first word of the key of zeros. -/
example : (ofKey (.replicate 8 0)).nextWord.1 = 0x6a9af49b := by decide +kernel

/-- **The stream of a key repeats itself**, for its block counter does. -/
theorem streamWord_add_period (key : Key) (place : Nat) :
    streamWord key (place + period) = streamWord key place := by
  have hblock : (place + period) / 16 = place / 16 + UInt64.size := by
    simp only [period, UInt64.size]
    omega
  have hindex : (place + period) % 16 = place % 16 := by
    simp only [period, UInt64.size]
    omega
  have hcounter : UInt64.ofNat (place / 16 + UInt64.size) = UInt64.ofNat (place / 16) := by
    rw [UInt64.ofNat_add, UInt64.ofNat_size, UInt64.add_zero]
  simp only [streamWord, hblock, hindex, hcounter]

/-- The generator of a key reads its stream from the beginning. -/
theorem readsAt_ofKey (key : Key) : ReadsAt key 0 (ofKey key) :=
  .start 0

/-- A draw leaves a generator at some place of the same stream. -/
theorem ReadsAt.exists_readsAt_drawWithin {key : Key} {place : Nat} {generator : Generator}
    (h : ReadsAt key place generator) (words : Nat) :
    ∃ next, ReadsAt key next (Generator.drawWithin words generator).2 := by
  induction words generalizing place generator with
  | zero => exact ⟨place, h⟩
  | succ words ih =>
      obtain ⟨-, hnext⟩ := h.nextWord
      cases hdraw : drawOfWord? generator.nextWord.1 with
      | some value =>
          simp only [Generator.drawWithin, hdraw]
          exact ⟨place + 1, hnext⟩
      | none =>
          simp only [Generator.drawWithin, hdraw]
          exact ih hnext

/-- **However many draws are taken, a generator reads on in the stream of its key.** -/
theorem ReadsAt.exists_readsAt_draws {key : Key} {place : Nat} {generator : Generator}
    (h : ReadsAt key place generator) (count : Nat) :
    ∃ next, ReadsAt key next (draws count generator).2 := by
  induction count generalizing place generator with
  | zero => exact ⟨place, h⟩
  | succ count ih =>
      have hdraw : DrawSource.draw generator = Generator.drawWithin period generator := rfl
      obtain ⟨next, hnext⟩ := h.exists_readsAt_drawWithin period
      rw [draws, hdraw]
      exact ih hnext

/-- **A draw is that of the first word that stands for one**, if the search gets that far. -/
theorem ReadsAt.drawWithin {key : Key} {place words skipped value : Nat} {generator : Generator}
    (h : ReadsAt key place generator) (hskipped : skipped < words)
    (hnone : ∀ earlier < skipped, drawOfWord? (streamWord key (place + earlier)) = none)
    (hvalue : drawOfWord? (streamWord key (place + skipped)) = some value) :
    (Generator.drawWithin words generator).1 = value ∧
      ReadsAt key (place + skipped + 1) (Generator.drawWithin words generator).2 := by
  induction skipped generalizing words place generator with
  | zero =>
      obtain ⟨words, rfl⟩ := Nat.exists_eq_add_one.mpr hskipped
      obtain ⟨hword, hnext⟩ := h.nextWord
      rw [Nat.add_zero, ← hword] at hvalue
      simp only [Generator.drawWithin, hvalue, true_and]
      exact hnext
  | succ skipped ih =>
      obtain ⟨words, rfl⟩ := Nat.exists_eq_add_one.mpr (Nat.zero_lt_of_lt hskipped)
      obtain ⟨hword, hnext⟩ := h.nextWord
      have hfirst := hnone 0 (Nat.succ_pos skipped)
      rw [Nat.add_zero, ← hword] at hfirst
      have hplace (count : Nat) : place + 1 + count = place + (count + 1) := by omega
      simp only [Generator.drawWithin, hfirst]
      rw [← hplace] at hvalue ⊢
      refine ih hnext (Nat.lt_of_succ_lt_succ hskipped) (fun earlier hearlier => ?_) hvalue
      rw [hplace]
      exact hnone (earlier + 1) (Nat.succ_lt_succ hearlier)

/-- **The search for a draw does not give up too early**: if any word of the stream from the place
of a generator on stands for a draw, the next draw is that of the first such word. -/
theorem ReadsAt.draw {key : Key} {place : Nat} {generator : Generator}
    (h : ReadsAt key place generator)
    (hfair : ∃ skipped, (drawOfWord? (streamWord key (place + skipped))).isSome) :
    ∃ skipped value,
      (∀ earlier < skipped, drawOfWord? (streamWord key (place + earlier)) = none) ∧
        drawOfWord? (streamWord key (place + skipped)) = some value ∧
        (DrawSource.draw generator).1 = value ∧
        ReadsAt key (place + skipped + 1) (DrawSource.draw generator).2 := by
  obtain ⟨value, hvalue⟩ := Option.isSome_iff_exists.mp (Nat.find_spec hfair)
  have hnone : ∀ earlier < Nat.find hfair,
      drawOfWord? (streamWord key (place + earlier)) = none := by
    intro earlier hearlier
    exact Option.not_isSome_iff_eq_none.mp (Nat.find_min hfair hearlier)
  -- the first such word comes within a period, since the stream repeats itself
  have hbound : Nat.find hfair < period := by
    by_contra hlate
    obtain ⟨earlier, hperiod⟩ := Nat.exists_eq_add_of_le' (Nat.le_of_not_lt hlate)
    have hpos : 0 < period := by decide
    have hearlier := hnone earlier (by omega)
    rw [← streamWord_add_period, Nat.add_assoc, ← hperiod, hvalue] at hearlier
    exact absurd hearlier nofun
  obtain ⟨hdraw, hnext⟩ := h.drawWithin hbound hnone hvalue
  exact ⟨Nat.find hfair, value, hnone, hvalue, hdraw, hnext⟩

end Generator

/-! ## Thresholds -/

/-- Values above the threshold flag all items. -/
theorem flagged_eq_self {α : Type} {threshold : Nat} {items : List α} {values : List Nat}
    (hlength : items.length = values.length) (h : ∀ value ∈ values, threshold < value) :
    flagged threshold items values = items := by
  have hall : ∀ pair ∈ items.zip values, decide (threshold < pair.2) = true := by
    rintro ⟨item, value⟩ hpair
    exact decide_eq_true (h value (List.of_mem_zip hpair).2)
  rw [flagged, List.filter_eq_self.mpr hall, List.map_fst_zip (Nat.le_of_eq hlength)]

/-- Values that are not above the threshold flag no item. -/
theorem flagged_eq_nil {α : Type} {threshold : Nat} {items : List α} {values : List Nat}
    (h : ∀ value ∈ values, value ≤ threshold) : flagged threshold items values = [] := by
  rw [flagged, List.map_eq_nil_iff, List.filter_eq_nil_iff]
  rintro ⟨item, value⟩ hpair
  simpa using h value (List.of_mem_zip hpair).2

/-- **A threshold below the least draw flags every token, and one from the greatest draw on flags
none**, whichever draws a generator yields. -/
theorem flaggedSpans_generator (config : Config) (text : Text) (generator : Generator) :
    (config.threshold < leastDraw →
      flaggedSpans config text generator = tokenSpans config.offsets (tokens text)) ∧
      (greatestDraw ≤ config.threshold → flaggedSpans config text generator = []) := by
  constructor
  · intro hthreshold
    apply flagged_eq_self
    · rw [length_tokenSpans, length_draws]
    · intro value hvalue
      exact Nat.lt_of_lt_of_le hthreshold (Generator.mem_draws_bounds hvalue).1
  · intro hthreshold
    apply flagged_eq_nil
    intro value hvalue
    exact Nat.le_trans (Generator.mem_draws_bounds hvalue).2 hthreshold

end SpanReport
