import LinkedSearch.Json.Basic
import LinkedSearch.Number.Literal

/-!
# Reading JSON text

Reading has two steps: a text is cut into tokens, and the tokens are folded into one value by a
machine that keeps the containers still open in a list of frames. Both steps are recursions on their
input. Members stay in written order, repeated keys included.

* `Token.scan?`: the tokens of a text.
* `Json.ofTokens?`: the value the tokens spell, if no container is nested as deep as the limit.
* `Json.parse?`: both steps.
-/

namespace LinkedSearch.Json

open Number (Literal Binary Format takeDigits takeExponent? ofDigits)

/-- A token: punctuation, a string, or another value without parts. -/
inductive Token where
  | openArray
  | closeArray
  | openObject
  | closeObject
  | colon
  | comma
  | text (value : String)
  | atom (value : Json)

namespace Token

/-- Blanks between tokens. -/
def isBlank (c : Char) : Bool := c = ' ' || c = '\n' || c = '\t' || c = '\r'

/-- The value of a hexadecimal digit. -/
def hexDigit? (c : Char) : Option Nat :=
  if c.isDigit then some (c.toNat - '0'.toNat)
  else if 'a' ≤ c ∧ c ≤ 'f' then some (c.toNat - 'a'.toNat + 10)
  else if 'A' ≤ c ∧ c ≤ 'F' then some (c.toNat - 'A'.toNat + 10)
  else none

/-- The code unit that four hexadecimal digits spell. -/
def codeUnit? (a b c d : Char) : Option Nat := do
  some (((← hexDigit? a) * 16 + (← hexDigit? b)) * 256 + (← hexDigit? c) * 16 + (← hexDigit? d))

/-- The character of a short escape. -/
def shortEscape? (c : Char) : Option Char :=
  if c = '"' ∨ c = '\\' ∨ c = '/' then some c
  else if c = 'b' then some '\x08'
  else if c = 'f' then some '\x0c'
  else if c = 'n' then some '\n'
  else if c = 'r' then some '\r'
  else if c = 't' then some '\t'
  else none

/-- The rest of a string after its opening quotation mark, and the text behind it. A code unit of
the surrogate range must be the first half of a pair. -/
def takeText? : List Char → Option (List Char × List Char)
  | [] => none
  | '"' :: rest => some ([], rest)
  | '\\' :: 'u' :: a :: b :: c :: d :: rest => do
    let unit ← codeUnit? a b c d
    if 0xD800 ≤ unit ∧ unit < 0xDC00 then
      match rest with
      | '\\' :: 'u' :: e :: f :: g :: h :: rest =>
        let low ← codeUnit? e f g h
        if 0xDC00 ≤ low ∧ low < 0xE000 then
          let (chars, rest) ← takeText? rest
          some (Char.ofNat (0x10000 + (unit - 0xD800) * 1024 + (low - 0xDC00)) :: chars, rest)
        else none
      | _ => none
    else if 0xDC00 ≤ unit ∧ unit < 0xE000 then none
    else
      let (chars, rest) ← takeText? rest
      some (Char.ofNat unit :: chars, rest)
  | '\\' :: c :: rest => do
    let escaped ← shortEscape? c
    let (chars, rest) ← takeText? rest
    some (escaped :: chars, rest)
  | c :: rest =>
    if c.toNat < 32 ∨ c = '\\' then none
    else do
      let (chars, rest) ← takeText? rest
      some (c :: chars, rest)

/-- The value of a literal: an integer if it has neither fraction nor exponent and fits into
64 bits, signed or not, and else a float; a literal too large for a float has none. Negative zero
is a float. -/
def numberValue? (literal : Literal) (plain : Bool) : Option Json :=
  let magnitude : Int := ofDigits literal.digits
  let value := if literal.negative then -magnitude else magnitude
  if plain ∧ -9223372036854775808 ≤ value ∧ value < 18446744073709551616 ∧ ¬(literal.negative ∧ magnitude = 0) then
    some (.int value)
  else
    match literal.toBinary .double with
    | .finite x => some (.float x)
    | _ => none

/-- A number: no needless leading zero, digits on both sides of a point, digits in an exponent. -/
def takeNumber? (chars : List Char) : Option (Json × List Char) := do
  let (negative, unsigned) := match chars with
    | '-' :: rest => (true, rest)
    | rest => (false, rest)
  let (whole, rest) := takeDigits unsigned
  if whole.isEmpty then failure
  if whole.head? = some '0' ∧ whole.length ≠ 1 then failure
  let (fraction, afterFraction) ← match rest with
    | '.' :: rest =>
      let (fraction, rest) := takeDigits rest
      if fraction.isEmpty then none else some (fraction, rest)
    | rest => some ([], rest)
  let (exponent, afterExponent) ← takeExponent? afterFraction
  -- nothing was taken for an exponent either
  let plain := fraction.isEmpty && afterExponent.length == rest.length
  let value ← numberValue? ⟨negative, whole ++ fraction, fraction.length, exponent⟩ plain
  some (value, afterExponent)

/-- The value of a reserved word. -/
def word? (letters : List Char) : Option Json :=
  if letters = ['n', 'u', 'l', 'l'] then some .null
  else if letters = ['t', 'r', 'u', 'e'] then some (.bool true)
  else if letters = ['f', 'a', 'l', 's', 'e'] then some (.bool false)
  else none

/-- The token that starts with the given character, and the text behind it. -/
def take? (c : Char) (rest : List Char) : Option (Token × List Char) :=
  match c with
  | '[' => some (.openArray, rest)
  | ']' => some (.closeArray, rest)
  | '\x7b' => some (.openObject, rest)
  | '\x7d' => some (.closeObject, rest)
  | ':' => some (.colon, rest)
  | ',' => some (.comma, rest)
  | '"' => (takeText? rest).map fun (chars, rest) => (.text (String.ofList chars), rest)
  | c =>
    if c.isAlpha then
      let (letters, rest) := rest.span Char.isAlpha
      (word? (c :: letters)).map fun value => (.atom value, rest)
    else (takeNumber? (c :: rest)).map fun (value, rest) => (.atom value, rest)

/-- The tokens of a text, for at most as many steps as there are characters. -/
def scanWithin : Nat → List Char → Option (List Token)
  | _, [] => some []
  | 0, _ :: _ => none
  | fuel + 1, c :: rest =>
    if isBlank c then scanWithin fuel rest
    else do
      let (token, rest) ← take? c rest
      let tokens ← scanWithin fuel rest
      some (token :: tokens)

/-- **Tokens** of a text; `none` if some part of it is no token. Every token takes at least one
character, so the length of the text bounds the number of steps. -/
def scan? (text : String) : Option (List Token) := scanWithin text.length text.toList

end Token

/-- A container whose end has not been read: what it holds so far, in reverse, and for an object
the key whose value comes next. -/
inductive Frame where
  | array (items : List Json)
  | object (members : List (String × Json)) (key : String)

/-- What may come next. -/
inductive Expected where
  /-- A value. -/
  | value
  /-- A value, or the end of the array just opened. -/
  | firstItem
  /-- A key of the innermost object, whose members so far are given in reverse. -/
  | key (members : List (String × Json))
  /-- A key, or the end of the object just opened. -/
  | firstKey
  /-- The colon after a key. -/
  | colon (members : List (String × Json)) (key : String)
  /-- The end of the document, or what follows a value inside a container. -/
  | done (value : Json)

/-- **Value of a token list**: one step per token. A container may be opened while fewer than
`limit` containers, itself included, are open. -/
def ofTokensFrom (limit : Nat) : Expected → List Frame → List Token → Option Json
  | .done value, [], [] => some value
  | .done value, .array items :: frames, token :: rest =>
    match token with
    | .comma => ofTokensFrom limit .value (.array (value :: items) :: frames) rest
    | .closeArray => ofTokensFrom limit (.done (.arr (value :: items).reverse)) frames rest
    | _ => none
  | .done value, .object members key :: frames, token :: rest =>
    match token with
    | .comma => ofTokensFrom limit (.key ((key, value) :: members)) frames rest
    | .closeObject =>
      ofTokensFrom limit (.done (.obj ((key, value) :: members).reverse)) frames rest
    | _ => none
  | .firstItem, frames, .closeArray :: rest =>
    ofTokensFrom limit (.done (.arr [])) frames.tail rest
  | .firstKey, frames, .closeObject :: rest => ofTokensFrom limit (.done (.obj [])) frames rest
  | .firstKey, frames, .text key :: rest => ofTokensFrom limit (.colon [] key) frames rest
  | .key members, frames, .text key :: rest => ofTokensFrom limit (.colon members key) frames rest
  | .colon members key, frames, .colon :: rest =>
    ofTokensFrom limit .value (.object members key :: frames) rest
  | .value, frames, token :: rest | .firstItem, frames, token :: rest =>
    match token with
    | .atom value => ofTokensFrom limit (.done value) frames rest
    | .text value => ofTokensFrom limit (.done (.str value)) frames rest
    | .openArray =>
      if frames.length + 1 < limit then
        ofTokensFrom limit .firstItem (.array [] :: frames) rest
      else none
    | .openObject =>
      if frames.length + 1 < limit then ofTokensFrom limit .firstKey frames rest else none
    | _ => none
  | _, _, _ => none

/-- The value that a token list spells. -/
def ofTokens? (limit : Nat) (tokens : List Token) : Option Json :=
  ofTokensFrom limit .value [] tokens

/-- Containers in a document are nested less deep than this. -/
def nestingLimit : Nat := 128

/-- **Reading**: the value a text spells, members as written. -/
def parse? (text : String) (limit : Nat) : Option Json := do
  ofTokens? limit (← Token.scan? text)

end LinkedSearch.Json
