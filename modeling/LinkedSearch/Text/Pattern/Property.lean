import LinkedSearch.Text.Pattern.Basic
import LinkedSearch.Text.Table.Script

/-!
# Named classes of characters

The classes a pattern may name: general categories by their short and long names, groups of
categories, scripts, a few properties, and the ASCII classes of bracket expressions. Names are
compared without regard to case, blanks, hyphens and low lines.
-/

namespace LinkedSearch.Text.Property

/-- A name as it is compared. -/
def normalizeName (name : List Char) : String :=
  String.ofList ((name.filter fun c => c ≠ ' ' && c ≠ '-' && c ≠ '_').map Char.toLower)

/-- The general categories by short name and long names. -/
def categories : List (List String × CharSet) :=
  [(["lu", "uppercaseletter"], Table.uppercaseLetter),
    (["ll", "lowercaseletter"], Table.lowercaseLetter),
    (["lt", "titlecaseletter"], Table.titlecaseLetter),
    (["lm", "modifierletter"], Table.modifierLetter),
    (["lo", "otherletter"], Table.otherLetter),
    (["mn", "nonspacingmark"], Table.nonspacingMark),
    (["mc", "spacingmark"], Table.spacingMark),
    (["me", "enclosingmark"], Table.enclosingMark),
    (["nd", "decimalnumber", "digit"], Table.decimalNumber),
    (["nl", "letternumber"], Table.letterNumber),
    (["no", "othernumber"], Table.otherNumber),
    (["pc", "connectorpunctuation"], Table.connectorPunctuation),
    (["pd", "dashpunctuation"], Table.dashPunctuation),
    (["ps", "openpunctuation"], Table.openPunctuation),
    (["pe", "closepunctuation"], Table.closePunctuation),
    (["pi", "initialpunctuation"], Table.initialPunctuation),
    (["pf", "finalpunctuation"], Table.finalPunctuation),
    (["po", "otherpunctuation"], Table.otherPunctuation),
    (["sm", "mathsymbol"], Table.mathSymbol),
    (["sc", "currencysymbol"], Table.currencySymbol),
    (["sk", "modifiersymbol"], Table.modifierSymbol),
    (["so", "othersymbol"], Table.otherSymbol),
    (["zs", "spaceseparator"], Table.spaceSeparator),
    (["zl", "lineseparator"], Table.lineSeparator),
    (["zp", "paragraphseparator"], Table.paragraphSeparator),
    (["cc", "control", "cntrl"], Table.control),
    (["cf", "format"], Table.format),
    (["co", "privateuse"], Table.privateUse)]

/-- The categories with one of the given short names. -/
def categorySets (shortNames : List String) : List CharSet :=
  (categories.filter fun (names, _) => names.head?.any shortNames.contains).map (·.2)

/-- Groups of categories by name. -/
def groups : List (List String × List String) :=
  [(["l", "letter"], ["lu", "ll", "lt", "lm", "lo"]),
    (["lc", "casedletter"], ["lu", "ll", "lt"]),
    (["m", "mark", "combiningmark"], ["mn", "mc", "me"]),
    (["n", "number"], ["nd", "nl", "no"]),
    (["p", "punctuation", "punct"], ["pc", "pd", "ps", "pe", "pi", "pf", "po"]),
    (["s", "symbol"], ["sm", "sc", "sk", "so"]),
    (["z", "separator"], ["zs", "zl", "zp"])]

/-- The scripts by name. -/
def scripts : List (List String × CharSet) :=
  [(["latin", "latn"], Table.latin), (["greek", "grek"], Table.greek),
    (["cyrillic", "cyrl"], Table.cyrillic), (["armenian", "armn"], Table.armenian),
    (["hebrew", "hebr"], Table.hebrew), (["arabic", "arab"], Table.arabic),
    (["devanagari", "deva"], Table.devanagari), (["thai"], Table.thai),
    (["hangul", "hang"], Table.hangul), (["hiragana", "hira"], Table.hiragana),
    (["katakana", "kana"], Table.katakanaScript), (["han", "hani"], Table.han),
    (["common", "zyyy"], Table.common)]

/-- Uppercase signs that are no letters: numerals and circled letters. -/
def uppercaseSign : CharSet where
  bounds := #[0x2160, 0x2170, 0x24B6, 0x24D0, 0x1F130, 0x1F14A, 0x1F150, 0x1F16A, 0x1F170, 0x1F18A]

/-- The characters of the assigned categories. -/
def assignedSets : List CharSet := categories.map (·.2)

/-- A group or a category by name. -/
def category? (name : String) (folded : Bool) : Option CharClass :=
  match groups.find? fun (names, _) => names.contains name with
  | some (_, members) => some (.sets (categorySets members) folded)
  | none =>
    match categories.find? fun (names, _) => names.contains name with
    | some (_, set) => some (.sets [set] folded)
    | none =>
      if name = "cn" || name = "unassigned" then some (.complement (.sets assignedSets folded))
      else if name = "c" || name = "other" then
        some (.union (.sets (categorySets ["cc", "cf", "co"]) folded)
          (.complement (.sets assignedSets folded)))
      else if name = "any" then some .any
      else if name = "assigned" then some (.sets assignedSets folded)
      else if name = "ascii" then some (.range 0 0x7F folded)
      else none

/-- A script by name. -/
def script? (name : String) (folded : Bool) : Option CharClass :=
  (scripts.find? fun (names, _) => names.contains name).map fun (_, set) => .sets [set] folded

/-- A property that is neither a category nor a script. -/
def binary? (name : String) (folded : Bool) : Option CharClass :=
  if name = "alphabetic" || name = "alpha" then
    some (.sets (Table.otherAlphabetic :: categorySets ["lu", "ll", "lt", "lm", "lo", "nl"]) folded)
  else if name = "whitespace" || name = "wspace" || name = "space" then
    some (.sets [Table.whiteSpace] folded)
  else if name = "uppercase" || name = "upper" then
    some (.sets [Table.uppercaseLetter, uppercaseSign] folded)
  else if name = "lowercase" || name = "lower" then
    if folded then some (.sets [Table.cased] true)
    else
      some (.difference (.sets [Table.cased] false)
        (.sets [Table.uppercaseLetter, Table.titlecaseLetter, uppercaseSign] false))
  else if name = "cased" then some (.sets [Table.cased] folded)
  else none

/-- **Named class**: a category, a property or a script, alone or after the name of what it is. -/
def named? (name : List Char) (folded : Bool) : Option CharClass :=
  let parts (separator : Char) : Option (String × String) :=
    match name.span (· ≠ separator) with
    | (key, _ :: value) => some (normalizeName key, normalizeName value)
    | _ => none
  match (parts ':').or (parts '=') with
  | some (key, value) =>
    if key = "gc" || key = "generalcategory" then category? value folded
    else if key = "sc" || key = "script" || key = "scx" || key = "scriptextensions" then
      script? value folded
    else none
  | none =>
    let name := normalizeName name
    (category? name folded).or ((binary? name folded).or (script? name folded))

/-- The ASCII classes of bracket expressions, as ranges of code points. -/
def asciiClasses : List (String × List (Nat × Nat)) :=
  [("alnum", [(0x30, 0x39), (0x41, 0x5A), (0x61, 0x7A)]), ("alpha", [(0x41, 0x5A), (0x61, 0x7A)]),
    ("ascii", [(0x00, 0x7F)]), ("blank", [(0x09, 0x09), (0x20, 0x20)]),
    ("cntrl", [(0x00, 0x1F), (0x7F, 0x7F)]), ("digit", [(0x30, 0x39)]), ("graph", [(0x21, 0x7E)]),
    ("lower", [(0x61, 0x7A)]), ("print", [(0x20, 0x7E)]),
    ("punct", [(0x21, 0x2F), (0x3A, 0x40), (0x5B, 0x60), (0x7B, 0x7E)]),
    ("space", [(0x09, 0x0D), (0x20, 0x20)]), ("upper", [(0x41, 0x5A)]),
    ("word", [(0x30, 0x39), (0x41, 0x5A), (0x5F, 0x5F), (0x61, 0x7A)]),
    ("xdigit", [(0x30, 0x39), (0x41, 0x46), (0x61, 0x66)])]

/-- The union of some ranges. -/
def ofRanges (ranges : List (Nat × Nat)) (folded : Bool) : CharClass :=
  ranges.foldr (fun (low, high) rest => .union (.range low high folded) rest) .none

/-- An ASCII class by name. -/
def ascii? (name : String) (folded : Bool) : Option CharClass :=
  (asciiClasses.find? fun entry => entry.1 = name).map fun (_, ranges) => ofRanges ranges folded

end LinkedSearch.Text.Property
