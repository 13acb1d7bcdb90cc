import SpanReport.Proofs.Text.Token

/-! # What a scanner yields

A scanner that has passed some characters of a text counts exactly these, and its bytes are those of
their encoding (`Scanner.between`). So whatever it cuts out by bytes is what it has counted, and one
call yields the first of the runs that are ahead (`Scanner.next_between`). Call by call it yields
the tokens of the text, and then nothing any more (`Scanner.yields_areRuns`). -/

namespace SpanReport

/-! ## Cutting by bytes -/

/-- One more character takes as many bytes as its encoding has. -/
theorem size_encode_concat (text : Text) (c : Char) :
    (encode (text ++ [c])).size = (encode text).size + c.utf8Size := by
  rw [encode_append, ByteArray.size_append]
  congr 1
  exact String.utf8ByteSize_singleton

/-- A character begins, or the text ends, where the encoding of a front part of a text ends. -/
theorem isValid_size_encode (before after : Text) :
    String.Pos.Raw.IsValid (String.ofList (before ++ after)) ⟨(encode before).size⟩ := by
  rw [String.Pos.Raw.isValid_iff_exists_append]
  exact ⟨String.ofList before, String.ofList after, String.ofList_append, rfl⟩

/-- **The bytes of a part of a text cut out its characters.** -/
theorem slice_append (before characters after : Text) :
    slice (before ++ (characters ++ after)) (encode before).size
      (encode (before ++ characters)).size = .ok characters := by
  have hle : (encode before).size ≤ (encode (before ++ characters)).size := by
    rw [encode_append, ByteArray.size_append]
    exact Nat.le_add_right _ _
  have hstart := isValid_size_encode before (characters ++ after)
  have hstop := isValid_size_encode (before ++ characters) after
  rw [List.append_assoc] at hstop
  have hcut : String.extract (String.pos _ _ hstart) (String.pos _ _ hstop) =
      String.ofList characters := by
    rw [← String.toByteArray_inj, String.toByteArray_extract]
    exact extract_encode_append before characters after
  rw [slice, dif_pos ⟨hle, hstart, hstop⟩, hcut, String.toList_ofList]

/-- The token as a scanner yields it. -/
def Token.scanned (token : Token) : Scanned :=
  ⟨token.text, token.span⟩

/-- A part of a text that is counted in bytes and in characters is a token. -/
theorem Scanned.ofBounds_append (before word after : Text) :
    Scanned.ofBounds (before ++ (word ++ after)) (encode before).size
      (encode (before ++ word)).size before.length (before ++ word).length =
        .ok (Token.scanned ⟨before.length, word⟩) := by
  rw [Scanned.ofBounds, slice_append, List.length_append,
    Span.ofBounds_of_le (Nat.le_add_right _ _), Nat.add_sub_cancel_left]
  rfl

namespace Scanner

/-! ## One call -/

/-- The scanner that has passed the first of two parts of a text. -/
def between (before ahead : Text) : Scanner :=
  ⟨ahead, (encode before).size, before.length⟩

/-- Only blanks are passed without finding anything. -/
theorem findStart_of_forall_isBlank (before : Text) {blanks : Text}
    (hblanks : ∀ c ∈ blanks, isBlank c = true) :
    findStart blanks (encode before).size before.length =
      (none, between (before ++ blanks) []) := by
  induction blanks generalizing before with
  | nil =>
      rw [List.append_nil]
      rfl
  | cons b blanks ih =>
      obtain ⟨hb, hlater⟩ := List.forall_mem_cons.mp hblanks
      have hstep := ih (before ++ [b]) hlater
      rw [size_encode_concat, List.length_append] at hstep
      rw [findStart, if_pos hb, List.append_cons]
      exact hstep

/-- A token starts behind the blanks ahead. -/
theorem findStart_append (before : Text) {blanks rest : Text} {c : Char}
    (hblanks : ∀ b ∈ blanks, isBlank b = true) (hc : isBlank c = false) :
    findStart (blanks ++ c :: rest) (encode before).size before.length =
      (some ((encode (before ++ blanks)).size, (before ++ blanks).length),
        between (before ++ blanks ++ [c]) rest) := by
  induction blanks generalizing before with
  | nil =>
      have hsolid : ¬ isBlank c = true := Bool.eq_false_iff.mp hc
      rw [List.nil_append, List.append_nil, findStart, if_neg hsolid, between, size_encode_concat,
        List.length_append]
      rfl
  | cons b blanks ih =>
      obtain ⟨hb, hlater⟩ := List.forall_mem_cons.mp hblanks
      have hstep := ih (before ++ [b]) hlater
      rw [size_encode_concat, List.length_append] at hstep
      rw [List.cons_append, findStart, if_pos hb, List.append_cons before]
      exact hstep

/-- A token stops before the next blank, or at the end of the text. -/
theorem findStop_append (before : Text) {word rest : Text}
    (hword : ∀ c ∈ word, isBlank c = false) (hrest : ∀ c ∈ rest.head?, isBlank c = true) :
    findStop (encode (before ++ (word ++ rest))).size (word ++ rest) (encode before).size
      before.length = ((encode (before ++ word)).size, between (before ++ word) rest) := by
  induction word generalizing before with
  | nil =>
      rw [List.append_nil, List.nil_append]
      cases rest with
      | nil =>
          rw [List.append_nil]
          rfl
      | cons c rest =>
          rw [findStop, if_pos (hrest c rfl)]
          rfl
  | cons c word ih =>
      obtain ⟨hc, hlater⟩ := List.forall_mem_cons.mp hword
      have hsolid : ¬ isBlank c = true := Bool.eq_false_iff.mp hc
      have hstep := ih (before ++ [c]) hlater
      rw [size_encode_concat, List.length_append, ← List.append_cons before,
        ← List.append_cons before] at hstep
      rw [List.cons_append, findStop, if_neg hsolid]
      exact hstep

/-- A call that finds a start yields the token from there to the stop that it finds next. -/
theorem next_of_findStart {source : Text} {scanner inside behind : Scanner}
    {startByte start stopByte : Nat}
    (hstart : findStart scanner.ahead scanner.byte scanner.position =
      (some (startByte, start), inside))
    (hstop : findStop (encode source).size inside.ahead inside.byte inside.position =
      (stopByte, behind)) :
    next source scanner =
      (Scanned.ofBounds source startByte stopByte start behind.position).map fun found =>
        (some found, behind) := by
  rw [next, hstart]
  simp only [hstop]

/-- **One call yields the first run ahead** and passes it, or passes all blanks if there is none. -/
theorem next_between {before ahead : Text} {found : List Token}
    (h : Runs before.length ahead found) :
    ∃ passed rest, passed ++ rest = before ++ ahead ∧ Runs passed.length rest found.tail ∧
      next (before ++ ahead) (between before ahead) =
        .ok (found.head?.map Token.scanned, between passed rest) := by
  cases h with
  | blanks hblanks =>
      refine ⟨before ++ ahead, [], List.append_nil _, .blanks nofun, ?_⟩
      rw [next, between, findStart_of_forall_isBlank before hblanks]
      rfl
  | @word _ blanks word rest found hblanks hne hword hrest hfound =>
      obtain ⟨c, word, rfl⟩ := List.exists_cons_of_ne_nil hne
      obtain ⟨hc, hlater⟩ := List.forall_mem_cons.mp hword
      refine ⟨before ++ blanks ++ (c :: word), rest, ?_, ?_, ?_⟩
      · simp only [List.append_assoc]
      · rw [List.length_append, List.length_append]
        exact hfound
      · -- the first character of the word is passed by the first loop, the others by the second
        have hstart : findStart (blanks ++ (c :: word ++ rest)) (encode before).size before.length =
            (_, between (before ++ blanks ++ [c]) (word ++ rest)) :=
          findStart_append before hblanks hc
        have hstop := findStop_append (before ++ blanks ++ [c]) hlater hrest
        have hbounds := Scanned.ofBounds_append (before ++ blanks) (c :: word) rest
        rw [← List.append_cons, ← List.append_cons] at hstop
        rw [← List.append_assoc before, next_of_findStart hstart hstop]
        show (Scanned.ofBounds _ _ _ _ (before ++ blanks ++ c :: word).length).map _ = _
        rw [hbounds, List.length_append]
        rfl

/-! ## All calls -/

/-- The first call comes before the others. -/
theorem yields_succ {source : Text} {scanner behind : Scanner} {count : Nat}
    {first : Option Scanned} {later : List (Option Scanned)}
    (hnext : next source scanner = .ok (first, behind))
    (hlater : yields source count behind = .ok later) :
    yields source (count + 1) scanner = .ok (first :: later) := by
  rw [yields, hnext]
  show (yields source count behind >>= fun later => pure (first :: later)) = _
  rw [hlater]
  rfl

/-- **Calls yield the runs ahead in turn**, and nothing once these are passed. -/
theorem yields_between {before ahead : Text} {found : List Token}
    (h : Runs before.length ahead found) (count : Nat) :
    yields (before ++ ahead) count (between before ahead) =
      .ok ((List.range count).map fun index => found[index]?.map Token.scanned) := by
  induction count generalizing before ahead found with
  | zero => rfl
  | succ count ih =>
      obtain ⟨passed, rest, htext, hruns, hnext⟩ := next_between h
      have hlater := ih hruns
      rw [htext] at hlater
      rw [yields_succ hnext hlater, List.range_succ_eq_map, List.map_cons, List.map_map,
        List.head?_eq_getElem?]
      congr 2
      refine List.map_congr_left fun index _ => ?_
      rw [List.getElem?_tail]
      rfl

/-- **A scanner yields the maximal runs of its text.** The tokens of a text are its maximal runs,
and the calls of a scanner yield them from left to right, each with its characters cut out by bytes
and its span counted in characters; from then on, every call yields nothing. No call fails. -/
theorem yields_areRuns (text : Text) :
    AreRuns (tokens text) text ∧ ∀ count, yields text count (start text) =
      .ok ((List.range count).map fun index => (tokens text)[index]?.map Token.scanned) := by
  constructor
  · exact areRuns_tokens text
  · intro count
    have hruns : Runs ([] : Text).length text (tokens text) := runs_tokens text
    exact yields_between hruns count

example : yields " é\u3000ab".toList 3 (start " é\u3000ab".toList) =
    .ok [some ⟨['é'], ⟨1, 1⟩⟩, some ⟨['a', 'b'], ⟨3, 2⟩⟩, none] := by cbv

end Scanner

end SpanReport
