import LinkedSearch.Text.Character
import LinkedSearch.Text.Table.Case
import LinkedSearch.Text.Table.WordParts

/-!
# Case

Lower-casing maps every character by itself, with two exceptions: a capital I with a dot becomes an
i followed by a combining dot, and a capital sigma at the end of a word becomes a final sigma.
Folding maps each character to the one that stands for all characters differing from it in case
only; it is what patterns that ignore case compare.

* `lower`, `lowerText`: a text in lower case.
* `fold`: the representative of a character up to case; `alike` lists the characters it stands for.
-/

namespace LinkedSearch.Text

/-- The distance by which the first run containing a code point moves it. -/
def caseDistance? (runs : Array Table.CaseRun) (code : Nat) : Option Int :=
  (runs.toList.find? fun run =>
    run.first ≤ code && code ≤ run.last && (code - run.first) % run.stride == 0).map (·.distance)

/-- A character moved by a distance. -/
def shift (c : Char) (distance : Int) : Char := Char.ofNat ((c.toNat : Int) + distance).toNat

/-- The lowercase form of a character that is a single character. -/
def lowerChar (c : Char) : Char :=
  if c.toNat < 128 then c.toLower
  else match caseDistance? Table.lowercase c.toNat with
    | some distance => shift c distance
    | none => c

/-- Characters that case looks through: marks, modifiers and marks inside words. -/
def isCaseIgnorable (c : Char) : Bool :=
  CharSet.anyContains [Table.nonspacingMark, Table.enclosingMark, Table.format,
    Table.modifierLetter, Table.modifierSymbol, Table.midLetter, Table.midNumberLetter] c
    || c = '\x27'

/-- Whether the first character that case does not look through has case. -/
def startsCased (text : List Char) : Bool :=
  match text.dropWhile isCaseIgnorable with
  | c :: _ => Table.cased.contains c
  | [] => false

/-- Lower case of the rest of a text, whose beginning is given in reverse. -/
def lowerAfter (before : List Char) : List Char → List Char
  | [] => []
  | c :: rest =>
    let lowered :=
      -- final only behind a letter and before none
      if c = 'Σ' then [if startsCased before && !startsCased rest then 'ς' else 'σ']
      else if c = 'İ' then ['i', '\u0307']
      else [lowerChar c]
    lowered ++ lowerAfter (c :: before) rest

/-- **Lower case** of a text. -/
def lower (text : List Char) : List Char := lowerAfter [] text

/-- Lower case of a string. -/
def lowerText (text : String) : String := String.ofList (lower text.toList)

@[simp] theorem lower_nil : lower [] = [] := rfl

/-- **Folding**: the representative of the characters that differ in case only. -/
def fold (c : Char) : Char :=
  if c.toNat < 128 then c.toLower
  else match caseDistance? Table.foldedDifferently c.toNat with
    | some distance => shift c distance
    | none => lowerChar c

/-- The characters that a run maps to a code point. -/
def preimage (code : Nat) (run : Table.CaseRun) : List Char :=
  let origin := ((code : Int) - run.distance).toNat
  if run.first ≤ origin && origin ≤ run.last && (origin - run.first) % run.stride == 0 then
    [Char.ofNat origin]
  else []

/-- The characters that differ from the given one in case only, itself included. -/
def alike (c : Char) : List Char :=
  let representative := fold c
  let candidates :=
    (Table.lowercase.toList ++ Table.foldedDifferently.toList).flatMap
      (preimage representative.toNat)
  c :: (representative :: candidates).filter fun other => fold other = representative

/-- ASCII letters in lower case, all other characters as they are. -/
def lowerAscii (text : List Char) : List Char := text.map Char.toLower

end LinkedSearch.Text
