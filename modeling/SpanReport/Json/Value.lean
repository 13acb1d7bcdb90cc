import SpanReport.Text.Hex

/-! # JSON values

The values that reports are written as, and their text. A `JsonLayout` tells how much white space
the text has: none at all, or one line for every item and member, indented by two spaces a level. -/

namespace SpanReport

/-- A JSON value without booleans, fractions and null, which no report holds. -/
inductive JsonValue
  /-- A string. -/
  | text (value : String)
  /-- A number. -/
  | number (value : Nat)
  /-- An array. -/
  | array (items : List JsonValue)
  /-- An object, whose members keep their order. -/
  | object (members : List (String × JsonValue))

/-- How the text of a value is laid out. -/
inductive JsonLayout
  /-- Without any white space. -/
  | compact
  /-- With one line for every item and member. -/
  | pretty
  deriving DecidableEq, Repr

namespace JsonLayout

/-- The line break before an item at the given depth. -/
def lineBreak : JsonLayout → Nat → String
  | compact, _ => ""
  | pretty, depth => "\n" ++ String.ofList (List.replicate (2 * depth) ' ')

/-- What stands between the key and the value of a member. -/
def colon : JsonLayout → String
  | compact => ":"
  | pretty => ": "

/-- The parts of an array or an object at the given depth, between its brackets. -/
def enclose (layout : JsonLayout) (depth : Nat) (opening closing : String) :
    List String → String
  | [] => opening ++ closing
  | parts@(_ :: _) =>
    let lineBreak := layout.lineBreak (depth + 1)
    opening ++ lineBreak ++ ("," ++ lineBreak).intercalate parts ++ layout.lineBreak depth ++
      closing

end JsonLayout

namespace JsonValue

/-- A character as it stands inside a string: the quotation mark, the backslash and the control
characters below the space are escaped, all others stand as they are. -/
def escape : Char → List Char
  | '"' => ['\\', '"']
  | '\\' => ['\\', '\\']
  | '\x08' => ['\\', 'b']
  | '\x0c' => ['\\', 'f']
  | '\n' => ['\\', 'n']
  | '\r' => ['\\', 'r']
  | '\t' => ['\\', 't']
  | c =>
    if c.toNat < 0x20 then
      ['\\', 'u'] ++ hexDigits 4 c.toNat
    else [c]

/-- A string between quotation marks. -/
def quote (value : String) : String :=
  String.ofList ('"' :: value.toList.flatMap escape ++ ['"'])

mutual

/-- The text of a value that stands at the given depth. -/
def renderAt (layout : JsonLayout) (depth : Nat) : JsonValue → String
  | text value => quote value
  | number value => toString value
  | array items => layout.enclose depth "[" "]" (renderItems layout (depth + 1) items)
  | object members =>
    layout.enclose depth "\x7b" "\x7d" (renderMembers layout (depth + 1) members)

/-- The texts of the items of an array. -/
def renderItems (layout : JsonLayout) (depth : Nat) : List JsonValue → List String
  | [] => []
  | item :: later => renderAt layout depth item :: renderItems layout depth later

/-- The texts of the members of an object. -/
def renderMembers (layout : JsonLayout) (depth : Nat) : List (String × JsonValue) → List String
  | [] => []
  | (key, value) :: later =>
    (quote key ++ layout.colon ++ renderAt layout depth value) :: renderMembers layout depth later

end

/-- The text of a value. -/
def render (layout : JsonLayout) (value : JsonValue) : String :=
  renderAt layout 0 value

end JsonValue

end SpanReport
