/-!
# Backslash escapes

In a query text a backslash makes the next character literal. Removing the escapes keeps that
character and drops the backslash; a backslash at the end stands for nothing.
-/

namespace LinkedSearch.Text

/-- A text without its backslash escapes. -/
def unescape : List Char → List Char
  | '\\' :: c :: rest => c :: unescape rest
  | ['\\'] => []
  | c :: rest => c :: unescape rest
  | [] => []

@[simp] theorem unescape_nil : unescape [] = [] := rfl

@[simp] theorem unescape_backslash (c : Char) (rest : List Char) :
    unescape ('\\' :: c :: rest) = c :: unescape rest := by simp [unescape]

/-- A character other than a backslash stands for itself. -/
theorem unescape_cons {c : Char} (plain : c ≠ '\\') (rest : List Char) :
    unescape (c :: rest) = c :: unescape rest := by
  rw [unescape.eq_3] <;> simp_all

/-- A string without its backslash escapes. -/
def unescapeText (text : String) : String := String.ofList (unescape text.toList)

end LinkedSearch.Text
