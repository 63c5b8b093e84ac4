import DocTokens.Text.Quoted

/-! # JSON text

Values written as JSON, on one line or indented. Characters that could end a script or a line when
the text is placed in a web page are written as escapes.
-/

namespace DocTokens

inductive JsonValue where
  | integer (n : Int)
  | string (s : Bytes)
  | array (items : List JsonValue)
  | object (fields : List (String × JsonValue))
  deriving Repr

namespace JsonValue

def ofText (s : String) : JsonValue := .string (utf8 s)

def shortEscape? (c : Char) : Option String :=
  match c.toNat with
  | 34 => some "\\\""
  | 92 => some "\\\\"
  | 8 => some "\\b"
  | 12 => some "\\f"
  | 10 => some "\\n"
  | 13 => some "\\r"
  | 9 => some "\\t"
  | _ => none

def escapeChar (c : Char) : String :=
  match shortEscape? c with
  | some s => s
  | none =>
    let n := c.toNat
    if n < 0x20 ∨ c = '<' ∨ c = '>' ∨ c = '&' ∨ n = 0x2028 ∨ n = 0x2029 then "\\u" ++ Quoted.hex 4 n
    else c.toString

/-- A byte that belongs to no character is written as the replacement character. -/
def escapeRune : Rune → String
  | .char c => escapeChar c
  | .invalid _ => "\\ufffd"

def writeString (s : Bytes) : String :=
  "\"" ++ String.join ((Utf8.runes s).map escapeRune) ++ "\""

mutual

/-- The value on one line without blanks. -/
def compact : JsonValue → String
  | integer n => toString n
  | string s => writeString s
  | array items => "[" ++ ",".intercalate (compactItems items) ++ "]"
  | object fields => "\x7b" ++ ",".intercalate (compactFields fields) ++ "\x7d"

def compactItems : List JsonValue → List String
  | [] => []
  | value :: rest => compact value :: compactItems rest

def compactFields : List (String × JsonValue) → List String
  | [] => []
  | (name, value) :: rest =>
    (writeString (utf8 name) ++ ":" ++ compact value) :: compactFields rest

end

/-- Items between brackets, each on a line of its own after `margin` and two blanks. -/
def block (opening closing margin : String) (items : List String) : String :=
  if items.isEmpty then opening ++ closing
  else opening ++ "\n" ++ ",\n".intercalate (items.map (margin ++ "  " ++ ·)) ++ "\n" ++ margin
    ++ closing

mutual

/-- The value over several lines, of which all but the first start with `margin`. -/
def indented (margin : String) : JsonValue → String
  | integer n => toString n
  | string s => writeString s
  | array items => block "[" "]" margin (indentedItems (margin ++ "  ") items)
  | object fields => block "\x7b" "\x7d" margin (indentedFields (margin ++ "  ") fields)

def indentedItems (margin : String) : List JsonValue → List String
  | [] => []
  | value :: rest => indented margin value :: indentedItems margin rest

def indentedFields (margin : String) : List (String × JsonValue) → List String
  | [] => []
  | (name, value) :: rest =>
    (writeString (utf8 name) ++ ": " ++ indented margin value) :: indentedFields margin rest

end

end JsonValue

end DocTokens
