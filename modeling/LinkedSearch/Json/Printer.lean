import LinkedSearch.Json.Basic
import LinkedSearch.Number.Shortest

/-!
# JSON text

Two spellings of a value. The compact one has no blanks and is also the text under which a value
that is not a string is compared and indexed; the indented one is for reading.

* `escape`: a quotation mark, a backslash and the control characters are escaped, all other
  characters stand for themselves.
* `Json.compact`, `Json.indented`: the two spellings.
* `Json.scalarText`: the text of a value, strings without quotation marks.
-/

namespace LinkedSearch.Json

/-- A control character by its two-digit code. -/
def escapeCode (c : Char) : List Char :=
  ['\\', 'u', '0', '0', Nat.digitChar (c.toNat / 16), Nat.digitChar (c.toNat % 16)]

/-- The spelling of one character inside a string. -/
def escapeChar (c : Char) : List Char :=
  if c = '"' then ['\\', '"']
  else if c = '\\' then ['\\', '\\']
  else if c = '\n' then ['\\', 'n']
  else if c = '\r' then ['\\', 'r']
  else if c = '\t' then ['\\', 't']
  else if c.toNat = 8 then ['\\', 'b']
  else if c.toNat = 12 then ['\\', 'f']
  else if c.toNat < 32 then escapeCode c
  else [c]

/-- A string between quotation marks. -/
def quote (text : String) : String :=
  String.ofList ('"' :: text.toList.flatMap escapeChar ++ ['"'])

/-- The text of a value without parts. -/
def atomText : Json → String
  | .null => "null"
  | .bool value => if value then "true" else "false"
  | .int value => toString value
  | .float value => value.jsonText
  | .str text => quote text
  | .arr _ => "[]"
  | .obj _ => "\x7b\x7d"

mutual

/-- **Compact text**: no blanks, members in the order of the value. -/
def compact : Json → String
  | .arr items => "[" ++ compactItems items ++ "]"
  | .obj members => "\x7b" ++ compactMembers members ++ "\x7d"
  | value => value.atomText

/-- Items separated by commas. -/
def compactItems : List Json → String
  | [] => ""
  | [item] => item.compact
  | item :: rest => item.compact ++ "," ++ compactItems rest

/-- Members separated by commas. -/
def compactMembers : List (String × Json) → String
  | [] => ""
  | [(key, value)] => quote key ++ ":" ++ value.compact
  | (key, value) :: rest => quote key ++ ":" ++ value.compact ++ "," ++ compactMembers rest

end

/-- A line break and two blanks for every level. -/
def newline (level : Nat) : String := String.ofList ('\n' :: List.replicate (2 * level) ' ')

mutual

/-- **Indented text**: every item and member on a line of its own, two blanks deeper. -/
def indentedAt (level : Nat) : Json → String
  | .arr [] => "[]"
  | .arr (item :: rest) =>
    "[" ++ newline (level + 1) ++ indentedItems (level + 1) (item :: rest) ++ newline level ++ "]"
  | .obj [] => "\x7b\x7d"
  | .obj (member :: rest) =>
    "\x7b" ++ newline (level + 1) ++ indentedMembers (level + 1) (member :: rest)
      ++ newline level ++ "\x7d"
  | value => value.atomText

/-- Items of one level. -/
def indentedItems (level : Nat) : List Json → String
  | [] => ""
  | [item] => item.indentedAt level
  | item :: rest => item.indentedAt level ++ "," ++ newline level ++ indentedItems level rest

/-- Members of one level. -/
def indentedMembers (level : Nat) : List (String × Json) → String
  | [] => ""
  | [(key, value)] => quote key ++ ": " ++ value.indentedAt level
  | (key, value) :: rest =>
    quote key ++ ": " ++ value.indentedAt level ++ "," ++ newline level
      ++ indentedMembers level rest

end

/-- The indented text of a whole value. -/
def indented (value : Json) : String := value.indentedAt 0

/-- **Text of a value** as it is indexed and compared: a string is its own text, any other value
its compact text. -/
def scalarText : Json → String
  | .str text => text
  | value => value.compact

@[simp] theorem scalarText_str (text : String) : (str text).scalarText = text := rfl

end LinkedSearch.Json
