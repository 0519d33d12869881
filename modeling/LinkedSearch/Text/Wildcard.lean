import LinkedSearch.Text.Pattern.Basic

/-!
# Wildcards

In a wildcard pattern `*` stands for any characters of one line and `?` for one of them; a backslash
makes the next character literal, and a backslash at the end stands for nothing. A text matches as a
whole, and case is ignored.
-/

namespace LinkedSearch.Text

/-- An element of a wildcard pattern. -/
inductive WildcardPart where
  | literal (c : Char)
  | one
  | many
  deriving DecidableEq, Repr

namespace WildcardPart

/-- The elements that a text spells. -/
def ofChars : List Char → List WildcardPart
  | '\\' :: c :: rest => literal c :: ofChars rest
  | ['\\'] => []
  | '*' :: rest => many :: ofChars rest
  | '?' :: rest => one :: ofChars rest
  | c :: rest => literal c :: ofChars rest
  | [] => []

/-- The pattern of an element. -/
def pattern : WildcardPart → Pattern
  | literal c => .literal c true
  | one => .dot
  | many => .repeated .dot 0 none

end WildcardPart

/-- **Pattern** of a wildcard text. -/
def wildcard (text : String) : Pattern :=
  .seq (.assertion .textStart)
    (.seq (.sequence ((WildcardPart.ofChars text.toList).map WildcardPart.pattern))
      (.assertion .textEnd))

end LinkedSearch.Text
