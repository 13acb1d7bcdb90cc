import SpanReport.Json.Value
import SpanReport.Proofs.Text.Hex

/-! # Tokens of JSON texts

A JSON text is read character by character (`LexMode.step`): white space between two tokens is
passed over, a string ends at the quotation mark that is not escaped, and a number where its digits
end. The text of a value has the tokens of the value, whatever its layout is (`LexMode.run_render`):
layouts differ in white space alone. -/

namespace SpanReport

/-- A token of a JSON text. -/
inductive JsonToken
  /-- A string, without its quotation marks and escapes. -/
  | text (value : String)
  /-- A number. -/
  | number (value : Nat)
  /-- The bracket that opens an array. -/
  | openArray
  /-- The bracket that closes an array. -/
  | closeArray
  /-- The brace that opens an object. -/
  | openObject
  /-- The brace that closes an object. -/
  | closeObject
  /-- The comma between items and members. -/
  | comma
  /-- The colon between key and value. -/
  | colon
  deriving DecidableEq, Repr

/-- The token of a punctuation character. -/
def JsonToken.ofChar? : Char → Option JsonToken
  | '[' => some openArray
  | ']' => some closeArray
  | '\x7b' => some openObject
  | '\x7d' => some closeObject
  | ',' => some comma
  | ':' => some colon
  | _ => none

/-- White space between tokens. -/
def isJsonBlank (c : Char) : Bool :=
  c = ' ' || c = '\n' || c = '\r' || c = '\t'

/-- The character that an escape of two characters stands for. -/
def unescape? : Char → Option Char
  | '"' => some '"'
  | '\\' => some '\\'
  | '/' => some '/'
  | 'b' => some '\x08'
  | 'f' => some '\x0c'
  | 'n' => some '\n'
  | 'r' => some '\r'
  | 't' => some '\t'
  | _ => none

/-- What the reading of a text is in the middle of. -/
inductive LexMode
  /-- Between two tokens. -/
  | between
  /-- In a number, with the digits so far. -/
  | number (digits : List Char)
  /-- In a string, with the characters so far. -/
  | text (before : List Char)
  /-- Behind a backslash in a string. -/
  | escape (before : List Char)
  /-- In an escape by code, with the digits so far. -/
  | code (before digits : List Char)
  deriving DecidableEq, Repr

namespace LexMode

/-- Read a character between two tokens: the tokens that it completes, and the mode behind it. -/
def start (c : Char) : Option (List JsonToken × LexMode) :=
  if isJsonBlank c then some ([], between)
  else if c = '"' then some ([], text [])
  else if c.isDigit then some ([], number [c])
  else (JsonToken.ofChar? c).map fun token => ([token], between)

/-- Read a character: the tokens that it completes, and the mode behind it. -/
def step (mode : LexMode) (c : Char) : Option (List JsonToken × LexMode) :=
  match mode with
  | between => start c
  | number digits =>
    if c.isDigit then some ([], number (digits ++ [c]))
    else (start c).map fun (tokens, next) =>
      (.number (Nat.ofDigitChars 10 digits 0) :: tokens, next)
  | text before =>
    if c = '"' then some ([.text (String.ofList before)], between)
    else if c = '\\' then some ([], escape before)
    else if c.toNat < 0x20 then none
    else some ([], text (before ++ [c]))
  | escape before =>
    if c = 'u' then some ([], code before [])
    else (unescape? c).map fun decoded => ([], text (before ++ [decoded]))
  | code before digits =>
    if c ∈ hexAlphabet then
      if digits.length = 3 then some ([], text (before ++ [Char.ofNat (hexValue (digits ++ [c]))]))
      else some ([], code before (digits ++ [c]))
    else none

/-- The tokens that the end of a text completes; it stands in no string. -/
def finish : LexMode → Option (List JsonToken)
  | between => some []
  | number digits => some [.number (Nat.ofDigitChars 10 digits 0)]
  | _ => none

/-- The tokens of a text that is read in the given mode. -/
def run (mode : LexMode) : List Char → Option (List JsonToken)
  | [] => mode.finish
  | c :: rest =>
    match mode.step c with
    | none => none
    | some (tokens, next) => (run next rest).map (tokens ++ ·)

/-! ## Single steps -/

/-- What a step completes stands in front of what the rest of the text holds. -/
theorem run_cons {mode next : LexMode} {c : Char} {tokens : List JsonToken}
    (h : mode.step c = some (tokens, next)) (rest : List Char) :
    mode.run (c :: rest) = (next.run rest).map (tokens ++ ·) := by
  simp only [run, h]

/-- A step that completes nothing changes the mode alone. -/
theorem run_cons_nil {mode : LexMode} (next : LexMode) {c : Char}
    (h : mode.step c = some ([], next)) (rest : List Char) :
    mode.run (c :: rest) = next.run rest := by
  rw [run_cons h]
  simp

/-! ## White space -/

/-- White space between two tokens is passed over. -/
theorem run_blanks {blanks : List Char} (h : ∀ c ∈ blanks, isJsonBlank c = true)
    (rest : List Char) : between.run (blanks ++ rest) = between.run rest := by
  induction blanks with
  | nil => rfl
  | cons c later ih =>
      obtain ⟨hc, hlater⟩ := List.forall_mem_cons.mp h
      rw [List.cons_append, run_cons_nil between (by simp [step, start, hc]), ih hlater]

/-- No layout puts anything but white space where it breaks lines. -/
theorem run_lineBreak (layout : JsonLayout) (depth : Nat) (rest : List Char) :
    between.run ((layout.lineBreak depth).toList ++ rest) = between.run rest := by
  apply run_blanks
  intro c hc
  cases layout with
  | compact => exact absurd hc (by simp [JsonLayout.lineBreak])
  | pretty =>
      simp only [JsonLayout.lineBreak, String.toList_append, String.toList_ofList,
        List.mem_append, List.mem_replicate] at hc
      rcases hc with hc | ⟨-, rfl⟩
      · obtain rfl : c = '\n' := by simpa using hc
        rfl
      · rfl

/-! ## Strings -/

/-- The four digits of a code stand for its character. -/
theorem run_code (before : List Char) {value : Nat} (h : value < 16 ^ 4) (rest : List Char) :
    (code before []).run (hexDigits 4 value ++ rest) =
      (text (before ++ [Char.ofNat value])).run rest := by
  have hvalue := hexValue_hexDigits 4 value
  rw [Nat.mod_eq_of_lt h] at hvalue
  have hmem : ∀ c ∈ hexDigits 4 value, c ∈ hexAlphabet :=
    fun c => mem_hexAlphabet_of_mem_hexDigits
  obtain ⟨a, b, c, d, hdigits⟩ : ∃ a b c d, hexDigits 4 value = [a, b, c, d] := ⟨_, _, _, _, rfl⟩
  rw [hdigits] at hvalue hmem ⊢
  rw [← hvalue, List.cons_append, List.cons_append, List.cons_append, List.cons_append,
    List.nil_append,
    run_cons_nil (code before [a]) (by simp [step, hmem]),
    run_cons_nil (code before [a, b]) (by simp [step, hmem]),
    run_cons_nil (code before [a, b, c]) (by simp [step, hmem]),
    run_cons_nil (text (before ++ [Char.ofNat (hexValue [a, b, c, d])])) (by simp [step, hmem])]

/-- An escape of two characters stands for one. -/
theorem run_unescape (before : List Char) {c decoded : Char} (hcode : c ≠ 'u')
    (h : unescape? c = some decoded) (rest : List Char) :
    (text before).run ('\\' :: c :: rest) = (text (before ++ [decoded])).run rest := by
  rw [run_cons_nil (escape before) rfl]
  exact run_cons_nil _ (by rw [step, if_neg hcode, h]; rfl) rest

/-- **An escaped character is read as the character.** -/
theorem run_escape (before : List Char) (c : Char) (rest : List Char) :
    (text before).run (JsonValue.escape c ++ rest) = (text (before ++ [c])).run rest := by
  unfold JsonValue.escape
  split
  case h_8 hquote hbackslash _ _ _ _ _ =>
    split
    · next hcontrol =>
        have hcode : c.toNat < 16 ^ 4 := Nat.lt_trans hcontrol (by decide)
        rw [List.append_assoc, List.cons_append, List.cons_append, List.nil_append,
          run_cons_nil (escape before) rfl, run_cons_nil (code before []) rfl,
          run_code before hcode, Char.ofNat_toNat]
    · next hcontrol =>
        have hstep : (text before).step c = some ([], text (before ++ [c])) := by
          rw [step, if_neg hquote, if_neg hbackslash, if_neg hcontrol]
        exact run_cons_nil _ hstep rest
  all_goals exact run_unescape before (by decide) rfl rest

/-- The characters of a string are read one after the other, up to the quotation mark. -/
theorem run_text (before value rest : List Char) :
    (text before).run (value.flatMap JsonValue.escape ++ '"' :: rest) =
      (between.run rest).map (JsonToken.text (String.ofList (before ++ value)) :: ·) := by
  induction value generalizing before with
  | nil =>
      rw [List.flatMap_nil, List.nil_append, List.append_nil]
      have hstep : (text before).step '"' = some ([.text (String.ofList before)], between) := rfl
      exact run_cons hstep rest
  | cons c later ih =>
      rw [List.flatMap_cons, List.append_assoc, run_escape, ih, List.append_assoc,
        List.singleton_append]

/-- **A string between quotation marks is one token.** -/
theorem run_quote (value : String) (rest : List Char) :
    between.run ((JsonValue.quote value).toList ++ rest) =
      (between.run rest).map (JsonToken.text value :: ·) := by
  rw [JsonValue.quote, String.toList_ofList, List.cons_append, List.cons_append,
    run_cons_nil (text []) (by simp [step, start, isJsonBlank]), List.append_assoc,
    List.singleton_append, run_text, List.nil_append, String.ofList_toList]

/-! ## Numbers -/

/-- A text does not go on with a digit. -/
def NoDigit (rest : List Char) : Prop :=
  ∀ c ∈ rest.head?, c.isDigit = false

/-- A digit begins a number. -/
theorem step_of_isDigit {c : Char} (h : c.isDigit = true) :
    between.step c = some ([], number [c]) := by
  have hother : ∀ other ∈ [' ', '\n', '\r', '\t', '"'], c ≠ other := by
    rintro other hmem rfl
    have hnone : ∀ other ∈ [' ', '\n', '\r', '\t', '"'], other.isDigit = false := by simp
    exact absurd h (by rw [hnone c hmem]; decide)
  simp only [List.forall_mem_cons] at hother
  simp [step, start, isJsonBlank, hother, h]

/-- A number ends where its digits end. -/
theorem run_number (digits : List Char) {rest : List Char} (h : NoDigit rest) :
    (number digits).run rest =
      (between.run rest).map (JsonToken.number (Nat.ofDigitChars 10 digits 0) :: ·) := by
  cases rest with
  | nil => rfl
  | cons c later =>
      have hc : c.isDigit = false := h c rfl
      simp only [run, step, hc]
      cases start c with
      | none => rfl
      | some found => simp [Function.comp_def]

/-- Digits are read one after the other. -/
theorem run_number_append (digits : List Char) {more : List Char}
    (h : ∀ c ∈ more, c.isDigit = true) (rest : List Char) :
    (number digits).run (more ++ rest) = (number (digits ++ more)).run rest := by
  induction more generalizing digits with
  | nil => rw [List.nil_append, List.append_nil]
  | cons c later ih =>
      obtain ⟨hc, hlater⟩ := List.forall_mem_cons.mp h
      rw [List.cons_append, run_cons_nil (number (digits ++ [c])) (by simp [step, hc]),
        ih _ hlater, List.append_assoc, List.singleton_append]

/-- **The digits of a number are one token.** -/
theorem run_toString (value : Nat) {rest : List Char} (h : NoDigit rest) :
    between.run ((toString value).toList ++ rest) =
      (between.run rest).map (JsonToken.number value :: ·) := by
  rw [Nat.toString_eq_repr, Nat.toList_repr]
  have hdigits : ∀ c ∈ Nat.toDigits 10 value, c.isDigit = true :=
    fun c => Nat.isDigit_of_mem_toDigits (by decide) (by decide)
  have hvalue : Nat.ofDigitChars 10 (Nat.toDigits 10 value) 0 = value :=
    Nat.ofDigitChars_ten_toDigits
  obtain ⟨c, later, hcons⟩ :=
    List.exists_cons_of_ne_nil (Nat.toDigits_ne_nil (n := value) (b := 10))
  rw [hcons] at hdigits hvalue ⊢
  obtain ⟨hc, hlater⟩ := List.forall_mem_cons.mp hdigits
  rw [List.cons_append, run_cons_nil _ (step_of_isDigit hc),
    run_number_append _ hlater, List.singleton_append, run_number _ h, hvalue]

/-! ## Punctuation -/

/-- A punctuation character is one token. -/
theorem run_mark {c : Char} {token : JsonToken} (h : start c = some ([token], between))
    (rest : List Char) : between.run (c :: rest) = (between.run rest).map (token :: ·) := by
  have hstep : between.step c = some ([token], between) := h
  exact run_cons hstep rest

/-- What begins with another character does not go on with a digit. -/
theorem NoDigit.cons {c : Char} (h : c.isDigit = false) (rest : List Char) :
    NoDigit (c :: rest) := by
  rintro other ⟨⟩
  exact h

/-- No layout breaks a line with a digit. -/
theorem NoDigit.lineBreak {rest : List Char} (h : NoDigit rest) (layout : JsonLayout)
    (depth : Nat) : NoDigit ((layout.lineBreak depth).toList ++ rest) := by
  cases layout with
  | compact => simpa [JsonLayout.lineBreak] using h
  | pretty =>
      intro c hc
      obtain rfl : '\n' = c := by simpa [JsonLayout.lineBreak] using hc
      rfl

/-- The parts of an array or an object behind its first one, each with a comma in front. -/
def laterParts (layout : JsonLayout) (depth : Nat) (parts : List String) : List Char :=
  parts.flatMap fun part => ("," ++ layout.lineBreak depth).toList ++ part.toList

/-- The next part does not go on with a digit. -/
theorem NoDigit.laterParts {rest : List Char} (h : NoDigit rest) (layout : JsonLayout)
    (depth : Nat) (parts : List String) : NoDigit (laterParts layout depth parts ++ rest) := by
  cases parts with
  | nil => exact h
  | cons part later =>
      intro c hc
      obtain rfl : ',' = c := by simpa [LexMode.laterParts] using hc
      rfl

/-- Pieces of text that have tokens, whatever follows them except for a digit. -/
def HasTokens (piece : List Char) (tokens : List JsonToken) : Prop :=
  ∀ rest, NoDigit rest → between.run (piece ++ rest) = (between.run rest).map (tokens ++ ·)

/-- What a layout puts between an opening and a closing character. -/
theorem toList_enclose (layout : JsonLayout) (depth : Nat) {opening closing : String}
    {left right : Char} (hleft : opening.toList = [left]) (hright : closing.toList = [right])
    (first : String) (later : List String) :
    (layout.enclose depth opening closing (first :: later)).toList =
      left :: ((layout.lineBreak (depth + 1)).toList ++ (first.toList ++
        (laterParts layout (depth + 1) later ++
          ((layout.lineBreak depth).toList ++ [right])))) := by
  have hparts : ∀ first, (("," ++ layout.lineBreak (depth + 1)).intercalate
      (first :: later)).toList = first.toList ++ laterParts layout (depth + 1) later := by
    induction later with
    | nil => simp [laterParts]
    | cons second later ih =>
        intro first
        rw [String.intercalate_cons_cons, String.toList_append, ih]
        simp [laterParts]
  simp only [JsonLayout.enclose, String.toList_append, hparts, hleft, hright, List.append_assoc,
    List.cons_append, List.nil_append]

/-- **An array or an object has the tokens of its parts**, between those of its brackets. -/
theorem HasTokens.enclose {layout : JsonLayout} {depth : Nat} {opening closing first : String}
    {later : List String} {left right : Char} {leftToken rightToken : JsonToken}
    {firstTokens laterTokens : List JsonToken}
    (hleft : opening.toList = [left]) (hleftToken : start left = some ([leftToken], between))
    (hright : closing.toList = [right]) (hrightToken : start right = some ([rightToken], between))
    (hdigit : right.isDigit = false) (hfirst : HasTokens first.toList firstTokens)
    (hlater : HasTokens (laterParts layout (depth + 1) later) laterTokens) :
    HasTokens (layout.enclose depth opening closing (first :: later)).toList
      (leftToken :: (firstTokens ++ (laterTokens ++ [rightToken]))) := by
  intro rest _
  have hclose := (NoDigit.cons hdigit rest).lineBreak layout depth
  rw [toList_enclose layout depth hleft hright]
  simp only [List.cons_append, List.append_assoc, List.nil_append]
  rw [run_mark hleftToken, run_lineBreak, hfirst _ (hclose.laterParts layout (depth + 1) later),
    hlater _ hclose, run_lineBreak, run_mark hrightToken]
  simp [Function.comp_def]

/-- A part behind the first one has a comma in front of its tokens. -/
theorem HasTokens.laterParts_cons {layout : JsonLayout} {depth : Nat} {part : String}
    {later : List String} {partTokens laterTokens : List JsonToken}
    (hpart : HasTokens part.toList partTokens)
    (hlater : HasTokens (LexMode.laterParts layout depth later) laterTokens) :
    HasTokens (LexMode.laterParts layout depth (part :: later))
      (.comma :: (partTokens ++ laterTokens)) := by
  intro rest h
  have hsplit : LexMode.laterParts layout depth (part :: later) ++ rest =
      ',' :: ((layout.lineBreak depth).toList ++
        (part.toList ++ (LexMode.laterParts layout depth later ++ rest))) := by
    simp [LexMode.laterParts]
  rw [hsplit, run_mark rfl, run_lineBreak, hpart _ (h.laterParts layout depth later),
    hlater _ h]
  simp [Function.comp_def]

/-- A member has the tokens of its key and its value, with a colon between them. -/
theorem HasTokens.member {layout : JsonLayout} {key : String} {value : String}
    {tokens : List JsonToken} (hvalue : HasTokens value.toList tokens) :
    HasTokens (JsonValue.quote key ++ layout.colon ++ value).toList
      (.text key :: .colon :: tokens) := by
  intro rest h
  have hcolon : between.run (layout.colon.toList ++ (value.toList ++ rest)) =
      (between.run (value.toList ++ rest)).map (JsonToken.colon :: ·) := by
    cases layout with
    | compact => exact run_mark rfl _
    | pretty =>
        have hspace : ∀ c ∈ [' '], isJsonBlank c = true := by simp [isJsonBlank]
        rw [← run_blanks hspace (value.toList ++ rest)]
        exact run_mark rfl _
  rw [String.toList_append, String.toList_append, List.append_assoc, List.append_assoc,
    run_quote, hcolon, hvalue rest h]
  simp [Function.comp_def]

end LexMode

/-! ## Values -/

mutual

/-- The tokens of a value. -/
def JsonValue.tokens : JsonValue → List JsonToken
  | .text value => [.text value]
  | .number value => [.number value]
  | .array [] => [.openArray, .closeArray]
  | .array (item :: later) =>
    .openArray :: (item.tokens ++ (laterItemTokens later ++ [.closeArray]))
  | .object [] => [.openObject, .closeObject]
  | .object ((key, value) :: later) =>
    .openObject :: .text key :: .colon ::
      (value.tokens ++ (laterMemberTokens later ++ [.closeObject]))

/-- The tokens of the items of an array behind the first one. -/
def laterItemTokens : List JsonValue → List JsonToken
  | [] => []
  | item :: later => .comma :: (item.tokens ++ laterItemTokens later)

/-- The tokens of the members of an object behind the first one. -/
def laterMemberTokens : List (String × JsonValue) → List JsonToken
  | [] => []
  | (key, value) :: later =>
    .comma :: .text key :: .colon :: (value.tokens ++ laterMemberTokens later)

end

namespace LexMode

mutual

/-- **The text of a value has the tokens of the value**, at any depth and in either layout. -/
theorem hasTokens_renderAt (layout : JsonLayout) : ∀ (depth : Nat) (value : JsonValue),
    HasTokens (value.renderAt layout depth).toList value.tokens
  | _, .text value => fun rest _ => run_quote value rest
  | _, .number value => fun _ => run_toString value
  | depth, .array [] => fun rest _ => by
      have htext : ((JsonValue.array []).renderAt layout depth).toList = ['[', ']'] := by
        simp [JsonValue.renderAt, JsonValue.renderItems, JsonLayout.enclose]
      rw [htext, List.cons_append, List.cons_append, List.nil_append, run_mark rfl, run_mark rfl,
        Option.map_map]
      rfl
  | depth, .array (item :: later) =>
      .enclose rfl rfl rfl rfl rfl (hasTokens_renderAt layout (depth + 1) item)
        (hasTokens_renderItems layout (depth + 1) later)
  | depth, .object [] => fun rest _ => by
      have htext : ((JsonValue.object []).renderAt layout depth).toList = ['\x7b', '\x7d'] := by
        simp [JsonValue.renderAt, JsonValue.renderMembers, JsonLayout.enclose]
      rw [htext, List.cons_append, List.cons_append, List.nil_append, run_mark rfl, run_mark rfl,
        Option.map_map]
      rfl
  | depth, .object ((_, value) :: later) =>
      .enclose rfl rfl rfl rfl rfl (.member (hasTokens_renderAt layout (depth + 1) value))
        (hasTokens_renderMembers layout (depth + 1) later)

/-- So do the items of an array behind the first one. -/
theorem hasTokens_renderItems (layout : JsonLayout) : ∀ (depth : Nat) (items : List JsonValue),
    HasTokens (laterParts layout depth (JsonValue.renderItems layout depth items))
      (laterItemTokens items)
  | _, [] => fun rest _ => by
      rw [JsonValue.renderItems, laterParts, List.flatMap_nil, List.nil_append, laterItemTokens]
      simp
  | depth, item :: later =>
      .laterParts_cons (hasTokens_renderAt layout depth item)
        (hasTokens_renderItems layout depth later)

/-- So do the members of an object behind the first one. -/
theorem hasTokens_renderMembers (layout : JsonLayout) : ∀ (depth : Nat)
    (members : List (String × JsonValue)),
    HasTokens (laterParts layout depth (JsonValue.renderMembers layout depth members))
      (laterMemberTokens members)
  | _, [] => fun rest _ => by
      rw [JsonValue.renderMembers, laterParts, List.flatMap_nil, List.nil_append, laterMemberTokens]
      simp
  | depth, (_, value) :: later =>
      .laterParts_cons (.member (hasTokens_renderAt layout depth value))
        (hasTokens_renderMembers layout depth later)

end

/-- White space does not go on with a digit. -/
theorem NoDigit.of_blanks {blanks : List Char} (h : ∀ c ∈ blanks, isJsonBlank c = true) :
    NoDigit blanks := by
  intro c hc
  have hblank := h c (List.mem_of_mem_head? hc)
  simp only [isJsonBlank, Bool.or_eq_true, decide_eq_true_eq] at hblank
  rcases hblank with ((rfl | rfl) | rfl) | rfl <;> rfl

/-- **Layouts do not change the tokens of a value**, and white space behind it adds none. -/
theorem run_render (layout : JsonLayout) (value : JsonValue) {blanks : List Char}
    (h : ∀ c ∈ blanks, isJsonBlank c = true) :
    between.run ((value.render layout).toList ++ blanks) = some value.tokens := by
  have hend := run_blanks h []
  rw [List.append_nil] at hend
  rw [JsonValue.render, hasTokens_renderAt layout 0 value blanks (.of_blanks h), hend]
  simp [run, finish]

end LexMode

end SpanReport
