import SpanReport.Proofs.Json.Token

/-! # Reading JSON

The tokens of a JSON text are read with a stack of the arrays and objects that are open
(`JsonValue.parse`, `JsonValue.resume`). What is written for a value reads back as the value, in
either layout and with white space behind it (`JsonValue.read?_render_append`), so that different
values are written differently (`JsonValue.render_inj`). -/

namespace SpanReport

/-- An array or an object that is open, with what it holds so far. -/
inductive JsonFrame
  /-- An array, with the items before the one that is read. -/
  | array (before : List JsonValue)
  /-- An object, with the members before the one that is read, and its key. -/
  | object (before : List (String × JsonValue)) (key : String)

namespace JsonValue

mutual

/-- Read a value and what is behind it. -/
def parse (stack : List JsonFrame) : List JsonToken → Option JsonValue
  | .text value :: rest => resume (.text value) stack rest
  | .number value :: rest => resume (.number value) stack rest
  | .openArray :: .closeArray :: rest => resume (.array []) stack rest
  | .openArray :: rest => parse (.array [] :: stack) rest
  | .openObject :: .closeObject :: rest => resume (.object []) stack rest
  | .openObject :: .text key :: .colon :: rest => parse (.object [] key :: stack) rest
  | _ => none

/-- Go on behind a value. -/
def resume (value : JsonValue) : List JsonFrame → List JsonToken → Option JsonValue
  | [], [] => some value
  | .array before :: stack, .comma :: rest => parse (.array (before ++ [value]) :: stack) rest
  | .array before :: stack, .closeArray :: rest => resume (.array (before ++ [value])) stack rest
  | .object before key :: stack, .comma :: .text next :: .colon :: rest =>
    parse (.object (before ++ [(key, value)]) next :: stack) rest
  | .object before key :: stack, .closeObject :: rest =>
    resume (.object (before ++ [(key, value)])) stack rest
  | _, _ => none

end

/-- Read the text of a value, with nothing but white space before and behind it. -/
def read? (text : String) : Option JsonValue :=
  (LexMode.between.run text.toList).bind (parse [])

/-! ## Reading what is written -/

/-- The tokens of a value do not begin with a closing bracket. -/
theorem tokens_ne_closeArray (value : JsonValue) (others rest : List JsonToken) :
    value.tokens ++ others ≠ .closeArray :: rest := by
  match value with
  | .text _ | .number _ | .array [] | .array (_ :: _) | .object [] | .object ((_, _) :: _) =>
      simp [tokens]

mutual

/-- **The tokens of a value read back as the value**, whatever is open around it. -/
theorem parse_tokens : ∀ (value : JsonValue) (stack : List JsonFrame) (rest : List JsonToken),
    parse stack (value.tokens ++ rest) = resume value stack rest
  | .text _, _, _ => by rw [tokens, List.singleton_append, parse]
  | .number _, _, _ => by rw [tokens, List.singleton_append, parse]
  | .array [], _, _ => by rw [tokens, List.cons_append, List.cons_append, List.nil_append, parse]
  | .array (item :: later), stack, rest => by
      rw [tokens, List.cons_append, List.append_assoc, parse, parse_tokens item, List.append_assoc,
        resume_laterItemTokens later]
      · rfl
      · exact tokens_ne_closeArray item _
  | .object [], _, _ => by rw [tokens, List.cons_append, List.cons_append, List.nil_append, parse]
  | .object ((key, value) :: later), stack, rest => by
      rw [tokens, List.cons_append, List.cons_append, List.cons_append, List.append_assoc, parse,
        parse_tokens value, List.append_assoc, resume_laterMemberTokens later]
      rfl

/-- The later items of an array are put behind the one that is read. -/
theorem resume_laterItemTokens : ∀ (later : List JsonValue) {item : JsonValue}
    {before : List JsonValue} {stack : List JsonFrame} (rest : List JsonToken),
    resume item (.array before :: stack) (laterItemTokens later ++ ([.closeArray] ++ rest)) =
      resume (.array (before ++ item :: later)) stack rest
  | [], item, before, stack, rest => by
      rw [laterItemTokens, List.nil_append, List.singleton_append, resume]
  | next :: later, item, before, stack, rest => by
      rw [laterItemTokens, List.cons_append, List.append_assoc, resume, parse_tokens next,
        resume_laterItemTokens later, List.append_assoc, List.singleton_append]

/-- The later members of an object are put behind the one that is read. -/
theorem resume_laterMemberTokens : ∀ (later : List (String × JsonValue)) {value : JsonValue}
    {before : List (String × JsonValue)} {key : String} {stack : List JsonFrame}
    (rest : List JsonToken),
    resume value (.object before key :: stack)
        (laterMemberTokens later ++ ([.closeObject] ++ rest)) =
      resume (.object (before ++ (key, value) :: later)) stack rest
  | [], value, before, key, stack, rest => by
      rw [laterMemberTokens, List.nil_append, List.singleton_append, resume]
  | (nextKey, next) :: later, value, before, key, stack, rest => by
      rw [laterMemberTokens, List.cons_append, List.cons_append, List.cons_append,
        List.append_assoc, resume, parse_tokens next, resume_laterMemberTokens later,
        List.append_assoc, List.singleton_append]

end

/-- **What is written for a value reads back as the value**, in either layout, with white space
behind it. -/
theorem read?_render_append (layout : JsonLayout) (value : JsonValue) {blanks : String}
    (hblanks : ∀ c ∈ blanks.toList, isJsonBlank c = true) :
    read? (value.render layout ++ blanks) = some value := by
  have h := parse_tokens value [] []
  rw [List.append_nil] at h
  rw [read?, String.toList_append, LexMode.run_render layout value hblanks, Option.bind_some, h,
    resume]

/-- What is written for a value reads back as the value. -/
theorem read?_render (layout : JsonLayout) (value : JsonValue) :
    read? (value.render layout) = some value := by
  rw [← String.append_empty (s := value.render layout)]
  exact read?_render_append layout value nofun

/-- **Different values are written differently.** -/
theorem render_inj {layout : JsonLayout} {value other : JsonValue} :
    value.render layout = other.render layout ↔ value = other := by
  constructor
  · intro h
    have hread := read?_render layout value
    rw [h, read?_render] at hread
    exact (Option.some.inj hread).symm
  · rintro rfl
    rfl

example : read? "[ 17,\n \"a\\u0009\\\"\" ]" = some (.array [.number 17, .text "a\t\""]) := by
  rfl

end JsonValue

end SpanReport
