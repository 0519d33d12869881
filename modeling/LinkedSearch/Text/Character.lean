import LinkedSearch.Text.Table.Letter
import LinkedSearch.Text.Table.Mark
import LinkedSearch.Text.Table.Number
import LinkedSearch.Text.Table.Punctuation
import LinkedSearch.Text.Table.Symbol

/-!
# Classes of characters

The classes that words, patterns and analysis are defined by, as unions of general categories.

* `isAlphabetic`, `isNumeric`, `isAlphanumeric`: what makes a word.
* `isWordCharacter`: what a word character of a pattern is; connectors belong to it too.
* `trim`: a text without the white space at its ends.
-/

namespace LinkedSearch.Text

/-- Letters and what behaves like them. -/
def isAlphabetic (c : Char) : Bool :=
  CharSet.anyContains [Table.uppercaseLetter, Table.lowercaseLetter, Table.titlecaseLetter,
    Table.modifierLetter, Table.otherLetter, Table.letterNumber, Table.otherAlphabetic] c

/-- Digits and other numbers. -/
def isNumeric (c : Char) : Bool :=
  CharSet.anyContains [Table.decimalNumber, Table.letterNumber, Table.otherNumber] c

/-- Letters and numbers. -/
def isAlphanumeric (c : Char) : Bool := isAlphabetic c || isNumeric c

/-- Marks of any kind. -/
def isMark (c : Char) : Bool :=
  CharSet.anyContains [Table.nonspacingMark, Table.spacingMark, Table.enclosingMark] c

/-- Decimal digits of any script. -/
def isDigit (c : Char) : Bool := Table.decimalNumber.contains c

/-- White space. -/
def isSpace (c : Char) : Bool := Table.whiteSpace.contains c

/-- Word characters of a pattern: letters, marks, digits, connectors, and the two characters that
control joining. -/
def isWordCharacter (c : Char) : Bool :=
  isAlphabetic c || isMark c || isDigit c || Table.connectorPunctuation.contains c
    || c = '\u200C' || c = '\u200D'

/-- A text without white space at its ends. -/
def trim (text : String) : String :=
  String.ofList (((text.toList.dropWhile isSpace).reverse.dropWhile isSpace).reverse)

end LinkedSearch.Text
