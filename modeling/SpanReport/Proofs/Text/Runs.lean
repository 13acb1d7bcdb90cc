import Mathlib.Logic.ExistsUnique
import Mathlib.Tactic.ByContra
import SpanReport.Proofs.Line.Layout
import SpanReport.Text.Scanner
import SpanReport.Text.Token

/-! # Tokens as runs

`Token.IsRun` says, by the characters of the text alone, that a token is a maximal run of characters
that are not blank. Read from left to right, a text is blanks, then a word up to the next blank, and
so on (`Runs`). This is what `tokensFrom` finds (`runs_tokensFrom`), and every law below follows by
induction on it. So the tokens of a text are its maximal runs, all of them, in the order of the text
(`areRuns_tokens`). -/

namespace SpanReport

/-! ## Characters and bytes of a span -/

namespace Span

variable {span : Span} {text characters : Text}

/-- A span reads as many characters as it is long. -/
theorem length_of_read (h : span.read text = some characters) :
    characters.length = span.length := by
  obtain ⟨hlength, hcovered⟩ := Option.ite_none_right_eq_some.mp h
  rw [← Option.some.inj hcovered]
  exact hlength

/-- A span that reads something ends within the text. -/
theorem le_of_read (hpos : 0 < span.length) (h : span.read text = some characters) :
    span.base + span.length ≤ text.length := by
  obtain ⟨hlength, -⟩ := Option.ite_none_right_eq_some.mp h
  rw [List.length_take, List.length_drop] at hlength
  omega

/-- What a span reads is what stands at its offsets. -/
theorem getElem?_of_read (h : span.read text = some characters) {index : Nat}
    (hindex : index < span.length) : text[span.base + index]? = characters[index]? := by
  obtain ⟨-, hcovered⟩ := Option.ite_none_right_eq_some.mp h
  rw [← Option.some.inj hcovered, List.getElem?_take_of_lt hindex, List.getElem?_drop]

/-- Before the end of a span stands what stands before its start, and then what it reads. -/
theorem take_stop_of_read (h : span.read text = some characters) :
    text.take (span.base + span.length) = text.take span.base ++ characters := by
  obtain ⟨-, hcovered⟩ := Option.ite_none_right_eq_some.mp h
  rw [List.take_add, Option.some.inj hcovered]

/-- What a span reads stands in the text between the characters before its start and those behind
its end. -/
theorem append_of_read (h : span.read text = some characters) :
    text.take span.base ++ (characters ++ text.drop (span.base + span.length)) = text := by
  rw [← List.append_assoc, ← take_stop_of_read h, List.take_append_drop]

/-- Behind other characters, a span reads the characters that stand there. -/
theorem read_append (before characters after : Text) :
    Span.read ⟨before.length, characters.length⟩ (before ++ (characters ++ after)) =
      some characters := by
  have hle : before.length + characters.length ≤ (before ++ (characters ++ after)).length := by
    rw [List.length_append, List.length_append]
    omega
  rw [Span.read_of_le hle]
  simp only [List.drop_left, List.take_left]

end Span

/-- Joined texts are encoded one after the other. -/
theorem encode_append (a b : Text) : encode (a ++ b) = encode a ++ encode b := by
  rw [encode, encode, encode, String.ofList_append]
  exact String.toByteArray_append

/-- The bytes of a part of a text begin where those before it end. -/
theorem extract_encode_append (before characters after : Text) :
    (encode (before ++ (characters ++ after))).extract (encode before).size
      (encode (before ++ characters)).size = encode characters := by
  have hslice := @ByteArray.extract_append_size_add (encode before)
    (encode characters ++ encode after) 0 (encode characters).size
  rw [Nat.add_zero] at hslice
  rw [encode_append, encode_append, encode_append, ByteArray.size_append, hslice]
  exact ByteArray.extract_append_eq_left rfl

/-- The bytes of the encoded text between the ends of a span, each end being the byte at which its
character begins. -/
def Span.bytes (span : Span) (text : Text) : ByteArray :=
  (encode text).extract (encode (text.take span.base)).size
    (encode (text.take (span.base + span.length))).size

/-- **Bytes and characters of a span agree**: its bytes are the encoding of what it reads, however
many bytes a character takes. -/
theorem Span.bytes_of_read {span : Span} {text characters : Text}
    (h : span.read text = some characters) : span.bytes text = encode characters := by
  have hbytes := extract_encode_append (text.take span.base) characters
    (text.drop (span.base + span.length))
  rwa [Span.append_of_read h, ← Span.take_stop_of_read h] at hbytes

/-! ## Maximal runs -/

namespace Token

/-- The token covers the character at an offset. -/
def Covers (token : Token) (offset : Nat) : Prop :=
  token.start ≤ offset ∧ offset < token.start + token.text.length

/-- A token is a maximal run of a text: its characters, at least one, stand in the text at its
offsets, none of them is blank, and a character right before or behind them is blank. -/
structure IsRun (token : Token) (text : Text) : Prop where
  /-- The run is not empty. -/
  text_ne_nil : token.text ≠ []
  /-- The run stands where the token says. -/
  read_span : token.span.read text = some token.text
  /-- The run holds no blank. -/
  not_isBlank : ∀ c ∈ token.text, isBlank c = false
  /-- The run cannot be extended to the left. -/
  isBlank_before : ∀ index, index + 1 = token.start → ∀ c ∈ text[index]?, isBlank c = true
  /-- The run cannot be extended to the right. -/
  isBlank_behind : ∀ c ∈ text[token.start + token.text.length]?, isBlank c = true

variable {s t : Token} {text : Text} {offset : Nat}

/-- A run covers no blank. -/
theorem IsRun.not_isBlank_of_covers (hrun : t.IsRun text) (hcovers : t.Covers offset) :
    ∀ c ∈ text[offset]?, isBlank c = false := by
  intro c hc
  obtain ⟨hstart, hstop⟩ := hcovers
  have hindex : offset - t.start < t.span.length := by
    show offset - t.start < t.text.length
    omega
  have hget := Span.getElem?_of_read hrun.read_span hindex
  have hoffset : t.span.base + (offset - t.start) = offset := Nat.add_sub_cancel' hstart
  rw [hoffset, hc] at hget
  exact hrun.not_isBlank c (List.mem_of_getElem? hget.symm)

/-- A run has a character of the text at every offset that it covers. -/
theorem IsRun.lt_length_of_covers (hrun : t.IsRun text) (hcovers : t.Covers offset) :
    offset < text.length := by
  have hpos : 0 < t.span.length := List.length_pos_iff.mpr hrun.text_ne_nil
  have hle := Span.le_of_read hpos hrun.read_span
  exact Nat.lt_of_lt_of_le hcovers.2 hle

/-- Of two runs with a character in common, neither starts later. -/
theorem IsRun.start_le (hs : s.IsRun text) (ht : t.IsRun text) (hsc : s.Covers offset)
    (htc : t.Covers offset) : s.start ≤ t.start := by
  by_contra hlt
  -- the character before the later start belongs to the other run, so it is not blank
  have hcovers : t.Covers (s.start - 1) := by
    rw [Covers] at hsc htc ⊢
    omega
  have hlength := ht.lt_length_of_covers hcovers
  have hget := List.getElem?_eq_getElem hlength
  have hblank := hs.isBlank_before (s.start - 1) (by omega) _ hget
  rw [ht.not_isBlank_of_covers hcovers _ hget] at hblank
  exact Bool.false_ne_true hblank

/-- Of two runs with a character in common, neither ends later. -/
theorem IsRun.stop_le (hs : s.IsRun text) (ht : t.IsRun text) (hsc : s.Covers offset)
    (htc : t.Covers offset) : s.start + s.text.length ≤ t.start + t.text.length := by
  by_contra hlt
  have hcovers : s.Covers (t.start + t.text.length) := by
    rw [Covers] at hsc htc ⊢
    omega
  have hlength := hs.lt_length_of_covers hcovers
  have hget := List.getElem?_eq_getElem hlength
  have hblank := ht.isBlank_behind _ hget
  rw [hs.not_isBlank_of_covers hcovers _ hget] at hblank
  exact Bool.false_ne_true hblank

/-- **Different runs have no character in common.** -/
theorem IsRun.eq_of_covers (hs : s.IsRun text) (ht : t.IsRun text) (hsc : s.Covers offset)
    (htc : t.Covers offset) : s = t := by
  have hstart : s.start = t.start :=
    Nat.le_antisymm (hs.start_le ht hsc htc) (ht.start_le hs htc hsc)
  have hstop : s.start + s.text.length = t.start + t.text.length :=
    Nat.le_antisymm (hs.stop_le ht hsc htc) (ht.stop_le hs htc hsc)
  have hspan : s.span = t.span := by
    rw [span, span, hstart, Span.mk.injEq]
    omega
  -- the same span reads the same
  have hread := hs.read_span
  rw [hspan, ht.read_span, Option.some.injEq] at hread
  obtain ⟨sstart, stext⟩ := s
  obtain ⟨tstart, ttext⟩ := t
  simp only at hstart hread
  rw [hstart, hread]

/-- A word between blanks is a run. -/
theorem isRun_append {before word after : Text} (hne : word ≠ [])
    (hword : ∀ c ∈ word, isBlank c = false) (hbefore : ∀ c ∈ before.getLast?, isBlank c = true)
    (hafter : ∀ c ∈ after.head?, isBlank c = true) :
    IsRun ⟨before.length, word⟩ (before ++ (word ++ after)) where
  text_ne_nil := hne
  read_span := Span.read_append before word after
  not_isBlank := hword
  isBlank_before := by
    intro index hindex c hc
    apply hbefore
    simp only at hindex
    have hlast : before.length - 1 = index := by omega
    rw [List.getElem?_append_left (by omega)] at hc
    rwa [List.getLast?_eq_getElem?, hlast]
  isBlank_behind := by
    intro c hc
    apply hafter
    rw [← List.append_assoc, ← List.length_append, List.getElem?_append_right (Nat.le_refl _),
      Nat.sub_self] at hc
    rwa [List.head?_eq_getElem?]

end Token

/-! ## From left to right -/

/-- What is found in a text whose first character stands at an offset, run by run. -/
inductive Runs : Nat → Text → List Token → Prop
  /-- There is nothing to find among blanks. -/
  | blanks {offset : Nat} {text : Text} (hblanks : ∀ c ∈ text, isBlank c = true) :
      Runs offset text []
  /-- Behind blanks, if any, stands a word that ends at the next blank. -/
  | word {offset : Nat} {blanks word rest : Text} {found : List Token}
      (hblanks : ∀ c ∈ blanks, isBlank c = true) (hne : word ≠ [])
      (hword : ∀ c ∈ word, isBlank c = false) (hrest : ∀ c ∈ rest.head?, isBlank c = true)
      (hfound : Runs (offset + blanks.length + word.length) rest found) :
      Runs offset (blanks ++ (word ++ rest)) (⟨offset + blanks.length, word⟩ :: found)

namespace Runs

variable {offset : Nat} {c : Char} {text rest : Text} {found : List Token}

/-- One more blank in front changes nothing of what is found. -/
theorem blank_cons (hc : isBlank c = true) (h : Runs (offset + 1) rest found) :
    Runs offset (c :: rest) found := by
  cases h with
  | blanks hblanks => exact .blanks (List.forall_mem_cons.mpr ⟨hc, hblanks⟩)
  | @word _ blanks word rest found hblanks hne hword hrest hfound =>
      have hstart : offset + 1 + blanks.length = offset + (c :: blanks).length := by
        rw [List.length_cons]
        omega
      rw [hstart] at hfound ⊢
      exact .word (List.forall_mem_cons.mpr ⟨hc, hblanks⟩) hne hword hrest hfound

/-- Any other character in front extends the first word, or is a word of its own if a blank or
nothing follows it. -/
theorem extend_cons (hc : isBlank c = false) (h : Runs (offset + 1) rest found) :
    Runs offset (c :: rest) (extendToken offset c found) := by
  have hnone : ∀ b ∈ ([] : Text), isBlank b = true := nofun
  have hsingle : ∀ d ∈ [c], isBlank d = false := List.forall_mem_singleton.mpr hc
  cases h with
  | blanks hblanks =>
      have hhead : ∀ d ∈ rest.head?, isBlank d = true := fun d hd =>
        hblanks d (List.mem_of_mem_head? hd)
      exact .word hnone (List.cons_ne_nil c []) hsingle hhead (.blanks hblanks)
  | @word _ blanks word rest found hblanks hne hword hrest hfound =>
      cases blanks with
      | nil =>
          -- the word stands right behind the character
          have hstop : offset + 1 + word.length = offset + (c :: word).length := by
            rw [List.length_cons]
            omega
          have hnear : offset + 1 + ([] : Text).length = offset + 1 := rfl
          rw [extendToken, if_pos hnear]
          rw [List.length_nil, Nat.add_zero, hstop] at hfound
          exact .word hnone (List.cons_ne_nil c word)
            (List.forall_mem_cons.mpr ⟨hc, hword⟩) hrest hfound
      | cons b blanks =>
          have hfar : ¬ offset + 1 + (b :: blanks).length = offset + 1 := by
            rw [List.length_cons]
            omega
          have hhead : ∀ d ∈ (b :: blanks ++ (word ++ rest)).head?, isBlank d = true := by
            rintro d ⟨⟩
            exact hblanks b List.mem_cons_self
          rw [extendToken, if_neg hfar]
          exact .word hnone (List.cons_ne_nil c []) hsingle hhead
            (.word hblanks hne hword hrest hfound)

end Runs

/-- **The tokens of a text are found run by run.** -/
theorem runs_tokensFrom (offset : Nat) (text : Text) :
    Runs offset text (tokensFrom offset text) := by
  induction text generalizing offset with
  | nil => exact .blanks nofun
  | cons c rest ih =>
      cases hblank : isBlank c with
      | true =>
          rw [tokensFrom_of_isBlank hblank]
          exact (ih (offset + 1)).blank_cons hblank
      | false =>
          rw [tokensFrom_of_not_isBlank hblank]
          exact (ih (offset + 1)).extend_cons hblank

namespace Runs

variable {offset : Nat} {text : Text} {found : List Token}

/-- A word begins with a character that is not blank. -/
theorem exists_mem_head?_word {word : Text} (hne : word ≠ [])
    (hword : ∀ c ∈ word, isBlank c = false) (rest : Text) :
    ∃ c ∈ (word ++ rest).head?, isBlank c = false := by
  obtain ⟨c, word, rfl⟩ := List.exists_cons_of_ne_nil hne
  exact ⟨c, rfl, hword c List.mem_cons_self⟩

/-- Nothing is found before the text. -/
theorem le_start (h : Runs offset text found) : ∀ token ∈ found, offset ≤ token.start := by
  induction h with
  | blanks => nofun
  | word _ _ _ _ _ ih =>
      intro token hmem
      rcases List.mem_cons.mp hmem with rfl | hlater
      · exact Nat.le_add_right _ _
      · have hle := ih token hlater
        omega

/-- Nothing is found at the first character if that one is blank. -/
theorem lt_start (h : Runs offset text found) (hhead : ∀ c ∈ text.head?, isBlank c = true) :
    ∀ token ∈ found, offset < token.start := by
  cases h with
  | blanks => nofun
  | @word _ blanks word rest _ _ hne hword _ hfound =>
      have hpos : 0 < blanks.length := by
        by_contra hzero
        obtain rfl := List.length_eq_zero_iff.mp (Nat.eq_zero_of_not_pos hzero)
        obtain ⟨c, hc, hsolid⟩ := exists_mem_head?_word hne hword rest
        rw [hhead c hc] at hsolid
        exact Bool.false_ne_true hsolid.symm
      intro token hmem
      rcases List.mem_cons.mp hmem with rfl | hlater
      · exact Nat.lt_add_of_pos_right hpos
      · have hle := hfound.le_start token hlater
        omega

/-- What is found is found in order, with a gap between neighbours. -/
theorem pairwise (h : Runs offset text found) :
    found.Pairwise fun earlier later => earlier.start + earlier.text.length < later.start := by
  induction h with
  | blanks => exact .nil
  | word _ _ _ hrest hfound ih => exact List.pairwise_cons.mpr ⟨hfound.lt_start hrest, ih⟩

/-- Everything that is found is a maximal run of the text, also with other characters before the
text, unless the first word goes on from these. -/
theorem isRun (h : Runs offset text found) {before : Text} (hbefore : before.length = offset)
    (hcut : ∀ c ∈ before.getLast?, ∀ d ∈ text.head?, isBlank c = true ∨ isBlank d = true) :
    ∀ token ∈ found, token.IsRun (before ++ text) := by
  -- the text in front grows by the blanks and the word that are passed
  induction h generalizing before with
  | blanks => nofun
  | @word offset blanks word rest _ hblanks hne hword hrest _ ih =>
      subst hbefore
      intro token hmem
      rcases List.mem_cons.mp hmem with rfl | hlater
      · have hlast : ∀ c ∈ (before ++ blanks).getLast?, isBlank c = true := by
          intro c hc
          by_cases hnone : blanks = []
          · -- the word follows the text in front, so this one has to end in a blank
            obtain ⟨d, hd, hsolid⟩ := exists_mem_head?_word hne hword rest
            rw [hnone, List.append_nil] at hc
            rw [hnone, List.nil_append] at hcut
            rcases hcut c hc d hd with hblank | hblank
            · exact hblank
            · rw [hblank] at hsolid
              exact absurd hsolid.symm Bool.false_ne_true
          · rw [List.getLast?_append, List.getLast?_eq_some_getLast hnone, Option.some_or] at hc
            cases hc
            exact hblanks _ (List.getLast_mem hnone)
        have hrun := Token.isRun_append hne hword hlast hrest
        rwa [List.length_append, List.append_assoc] at hrun
      · have hlength : (before ++ (blanks ++ word)).length =
            before.length + blanks.length + word.length := by
          rw [List.length_append, List.length_append, Nat.add_assoc]
        have hrun := ih hlength (fun c _ d hd => .inr (hrest d hd)) token hlater
        rwa [List.append_assoc, List.append_assoc] at hrun

/-- Only blanks are passed over: any other character is covered by something that is found. -/
theorem exists_covers (h : Runs offset text found) {index : Nat} {c : Char}
    (hc : text[index]? = some c) (hsolid : isBlank c = false) :
    ∃ token ∈ found, token.Covers (offset + index) := by
  induction h generalizing index with
  | blanks hblanks =>
      rw [hblanks c (List.mem_of_getElem? hc)] at hsolid
      exact absurd hsolid.symm Bool.false_ne_true
  | @word offset blanks word rest found hblanks _ _ _ _ ih =>
      -- the character stands among the blanks, in the word, or in the rest
      by_cases hfirst : index < blanks.length
      · rw [List.getElem?_append_left hfirst] at hc
        rw [hblanks c (List.mem_of_getElem? hc)] at hsolid
        exact absurd hsolid.symm Bool.false_ne_true
      · by_cases hsecond : index < blanks.length + word.length
        · refine ⟨_, List.mem_cons_self, ?_⟩
          rw [Token.Covers]
          simp only
          omega
        · rw [List.getElem?_append_right (by omega), List.getElem?_append_right (by omega)] at hc
          obtain ⟨token, hmem, hcovers⟩ := ih hc
          refine ⟨token, List.mem_cons_of_mem _ hmem, ?_⟩
          have hindex : offset + blanks.length + word.length +
              (index - blanks.length - word.length) = offset + index := by
            omega
          rwa [hindex] at hcovers

end Runs

/-! ## The tokens of a text -/

/-- Tokens are the runs of a text: all maximal runs and nothing else, from left to right with a gap
between neighbours, each with the characters and the bytes of its span; a character that is not
blank belongs to a single one of them, a blank to none. -/
structure AreRuns (found : List Token) (text : Text) : Prop where
  /-- The tokens are the maximal runs of the text. -/
  mem_iff : ∀ token, token ∈ found ↔ token.IsRun text
  /-- Every token ends before the later ones start. -/
  pairwise : found.Pairwise fun earlier later =>
    earlier.span.base + earlier.span.length < later.span.base
  /-- Every token holds characters, none of them blank. -/
  not_isBlank : ∀ token ∈ found, token.text ≠ [] ∧ ∀ c ∈ token.text, isBlank c = false
  /-- The span of a token reads as the token, by characters and by bytes. -/
  read_span : ∀ token ∈ found,
    token.span.read text = some token.text ∧ token.span.bytes text = encode token.text
  /-- A character that is not blank lies in exactly one token. -/
  existsUnique_covers : ∀ offset, ∀ c ∈ text[offset]?, isBlank c = false →
    ∃! token, token ∈ found ∧ token.Covers offset
  /-- A character outside of all tokens is blank. -/
  isBlank_of_not_covers : ∀ offset, ∀ c ∈ text[offset]?,
    (∀ token ∈ found, ¬ token.Covers offset) → isBlank c = true

/-- The runs of a whole text. -/
theorem runs_tokens (text : Text) : Runs 0 text (tokens text) :=
  runs_tokensFrom 0 text

/-- A token is found in a text exactly if it is a maximal run of it. -/
theorem mem_tokens_iff {token : Token} {text : Text} : token ∈ tokens text ↔ token.IsRun text := by
  have hruns := runs_tokens text
  have hfound : ∀ token ∈ tokens text, token.IsRun text :=
    hruns.isRun List.length_nil nofun
  constructor
  · exact hfound token
  · intro hrun
    -- the first character of the run is covered by a token, which is a run as well
    have hcovers : token.Covers token.start :=
      ⟨Nat.le_refl _, Nat.lt_add_of_pos_right (List.length_pos_iff.mpr hrun.text_ne_nil)⟩
    have hget := List.getElem?_eq_getElem (hrun.lt_length_of_covers hcovers)
    obtain ⟨other, hmem, hother⟩ :=
      hruns.exists_covers hget (hrun.not_isBlank_of_covers hcovers _ hget)
    rw [Nat.zero_add] at hother
    rwa [hrun.eq_of_covers (hfound other hmem) hcovers hother]

/-- **The tokens of a text are its maximal runs** of characters that are not blank, from left to
right and nothing else; together they hold every such character once. -/
theorem areRuns_tokens (text : Text) : AreRuns (tokens text) text where
  mem_iff _ := mem_tokens_iff
  pairwise := (runs_tokens text).pairwise
  not_isBlank token hmem := by
    have hrun := mem_tokens_iff.mp hmem
    exact ⟨hrun.text_ne_nil, hrun.not_isBlank⟩
  read_span token hmem := by
    have hread := (mem_tokens_iff.mp hmem).read_span
    exact ⟨hread, Span.bytes_of_read hread⟩
  existsUnique_covers offset c hc hsolid := by
    obtain ⟨token, hmem, hcovers⟩ := (runs_tokens text).exists_covers hc hsolid
    rw [Nat.zero_add] at hcovers
    refine ⟨token, ⟨hmem, hcovers⟩, ?_⟩
    rintro other ⟨hother, hothers⟩
    exact (mem_tokens_iff.mp hother).eq_of_covers (mem_tokens_iff.mp hmem) hothers hcovers
  isBlank_of_not_covers offset c hc houtside := by
    by_contra hsolid
    obtain ⟨token, hmem, hcovers⟩ :=
      (runs_tokens text).exists_covers hc (Bool.eq_false_iff.mpr hsolid)
    rw [Nat.zero_add] at hcovers
    exact houtside token hmem hcovers

end SpanReport
