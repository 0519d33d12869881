import LinkedSearch.Query.Label
import LinkedSearch.Text.Escape

/-!
# Tokens of phrases

A phrase may contain wildcards and escapes. Analysis would drop them as punctuation, so each special
character is replaced by a *marker*, a word that survives analysis, and put back into the tokens
that come out.

A token then stands for a word, for the words that start with a text, for the words that match a
wildcard pattern, or for the words close to a text (`text~` and `text~2`).

* `mark`, `unmark`: special characters as markers, and back.
* `wildcardCount`, `fuzzySuffix?`: the special characters of a token that are not escaped.
* `tokenKind`: what a token stands for.
* `isMultiTerm`: whether a token stands for several words.
-/

namespace LinkedSearch.Query.Phrase

/-! ## Markers -/

/-- The special characters with their markers. -/
def markers : List (Char × List Char) :=
  [('\\', "ZDB_ESCAPE_ZDB".toList), ('*', "ZDB_STAR_ZDB".toList),
    ('?', "ZDB_QUESTION_ZDB".toList), ('~', "ZDB_TILDE_ZDB".toList)]

/-- A character, or the marker in its place. -/
def markChar (c : Char) : List Char := (markers.lookup c).getD [c]

/-- **Marking**: special characters replaced by markers. -/
def mark (text : List Char) : List Char := text.flatMap markChar

/-- Whether a text starts with a marker, in any case of its letters. -/
def startsWithMarker (marker text : List Char) : Bool :=
  -- an analyzer may have put the marker in lower case
  (text.take marker.length).map Char.toLower == marker.map Char.toLower

/-- The marker at the start of a text: the character it stands for, and its length. -/
def markerAt? (text : List Char) : Option (Char × Nat) :=
  (markers.find? fun (_, marker) => startsWithMarker marker text).map fun (c, marker) =>
    (c, marker.length)

/-- The text after `skip` characters, with its markers replaced. -/
def unmarkAfter : Nat → List Char → List Char
  | _, [] => []
  | skip + 1, _ :: rest => unmarkAfter skip rest
  | 0, c :: rest =>
    match markerAt? (c :: rest) with
    | some (special, length) => special :: unmarkAfter (length - 1) rest
    | none => c :: unmarkAfter 0 rest

/-- **Unmarking**: markers replaced by the characters they stand for. -/
def unmark (text : List Char) : List Char := unmarkAfter 0 text

/-! ## Special characters -/

/-- The number of wildcards that are not escaped. -/
def wildcardCount : List Char → Nat
  | '\\' :: _ :: rest => wildcardCount rest
  | c :: rest => (if c = '*' ∨ c = '?' then 1 else 0) + wildcardCount rest
  | [] => 0

theorem wildcardCount_cons {c : Char} (h : c ≠ '\\') (rest : List Char) :
    wildcardCount (c :: rest) = (if c = '*' ∨ c = '?' then 1 else 0) + wildcardCount rest := by
  rw [wildcardCount]
  intro _ _ heq
  exact absurd heq h

/-- A text cut at its last tilde that is not escaped. -/
def splitLastTilde? : List Char → Option (List Char × List Char)
  | [] => none
  | ['\\'] => none
  | '\\' :: c :: rest => (splitLastTilde? rest).map fun (stem, after) => ('\\' :: c :: stem, after)
  | c :: rest =>
    match splitLastTilde? rest with
    | some (stem, after) => some (c :: stem, after)
    -- no tilde comes after this character
    | none => if c = '~' then some ([], rest) else none

theorem splitLastTilde?_cons {c : Char} {rest : List Char} (h : c ≠ '\\') (hrest : splitLastTilde? rest = none) :
    splitLastTilde? (c :: rest) = if c = '~' then some ([], rest) else none := by
  rw [splitLastTilde?, hrest]
  · exact fun heq => absurd heq h
  · exact fun _ _ heq => absurd heq h

/-- The number that digits spell, if it has at most 32 bits; no digits spell zero. -/
def fuzziness? (digits : List Char) : Option Nat :=
  if digits.all Char.isDigit then
    let value := digits.foldl (fun value c => 10 * value + (c.toNat - '0'.toNat)) 0
    if value < 4294967296 then some value else none
  else none

/-- A token that ends in a tilde and digits, as the text before and the number after it. -/
def fuzzySuffix? (token : List Char) : Option (List Char × Nat) := do
  let (stem, digits) ← splitLastTilde? token
  let fuzziness ← fuzziness? digits
  some (stem, fuzziness)

/-- Whether a token stands for several words. -/
def isMultiTerm (token : List Char) : Bool :=
  0 < wildcardCount token || (fuzzySuffix? token).isSome

/-- Whether a token ends in a star that is not escaped by the character before it. -/
def endsInStar (token : List Char) : Bool :=
  match token.reverse with
  -- the backslash may itself be escaped, which is not looked at
  | '*' :: '\\' :: _ => false
  | '*' :: _ => true
  | _ => false

/-- The kind of a token without fuzziness. -/
def plainKind (token : List Char) : Kind :=
  match wildcardCount token with
  | 0 => .word (.str (String.ofList (Text.unescape token)))
  | 1 =>
    if endsInStar token then .leading (String.ofList (Text.unescape token.dropLast))
    else .wildcard (String.ofList token)
  | _ => .wildcard (String.ofList token)

/-- **Kind** of a token: fuzzy when it has a fuzzy suffix after a text without wildcards, or else
by its wildcards. -/
def tokenKind (token : List Char) : Kind :=
  match fuzzySuffix? token with
  | some (stem, fuzziness) =>
    -- otherwise the tilde and the digits stay in the word or the pattern
    if !stem.isEmpty && wildcardCount stem == 0 then
      .fuzzy (String.ofList (Text.unescape stem)) fuzziness
    else plainKind token
  | none => plainKind token

/-- The node for one token of a phrase. -/
def tokenLabel (phrase : Label) (token : List Char) : Label :=
  { kind := tokenKind token, field := phrase.field, operator := phrase.operator,
    nestedPath := phrase.nestedPath }

end LinkedSearch.Query.Phrase
