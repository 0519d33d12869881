/-!
# Blocks of values

A block of values is a text of values between delimiters: blanks, line breaks, commas, quotation
marks and square brackets. A backslash makes the next character part of a value. There are no empty
values.

* `ArrayData.values`: the values of a block.
-/

namespace LinkedSearch.Query.ArrayData

/-- The characters between values. -/
def delimiters : List Char := [',', ' ', '\r', '\n', '\t', '\x0c', '"', '\x27', '[', ']']

/-- A value that is complete, unless it is empty. -/
def finished (current : List Char) : List (List Char) :=
  if current.isEmpty then [] else [current.reverse]

/-- The values of a text, when the characters of the current one are given in reverse. -/
def valuesAfter (current : List Char) : List Char → List (List Char)
  | [] => finished current
  | ['\\'] => finished current
  | '\\' :: c :: rest => valuesAfter (c :: current) rest
  | c :: rest =>
    if delimiters.contains c then finished current ++ valuesAfter [] rest
    else valuesAfter (c :: current) rest

/-- **Values** of a block. -/
def values (block : String) : List String := (valuesAfter [] block.toList).map String.ofList

end LinkedSearch.Query.ArrayData
