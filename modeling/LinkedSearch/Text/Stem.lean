/-!
# English stems

The stem of an English word is what remains when inflectional and derivational endings are taken
off in a fixed series of steps. A step looks at the longest ending it knows and changes the word if
the ending lies far enough to the right: in the *first region*, which begins after the first
non-vowel that follows a vowel, or in the *second region*, which is the first region of the first.
A `y` that is no vowel is written `Y` while the steps run.

* `stem`: the stem of a word.
* `regions`: where the two regions of a word begin.
-/

namespace LinkedSearch.Text.Stem

/-- Vowels; a `y` that begins a word or follows a vowel is none, and is written `Y`. -/
def isVowel (c : Char) : Bool :=
  c = 'a' || c = 'e' || c = 'i' || c = 'o' || c = 'u' || c = 'y'

/-- The number of characters up to the first vowel, inclusively, and the non-vowel after it,
inclusively; the whole length where there is none. -/
def regionLength (word : List Char) : Nat :=
  let fromVowel := word.dropWhile fun c => !isVowel c
  match fromVowel.dropWhile isVowel with
  | [] => word.length
  | _ :: rest => word.length - rest.length

/-- Words with these beginnings have their first region right after them. -/
def regionExceptions : List (List Char) := ["gener", "commun", "arsen"].map String.toList

/-- **Regions**: the positions at which the first and the second region of a word begin. -/
def regions (word : List Char) : Nat × Nat :=
  let first := match regionExceptions.find? fun beginning => beginning.isPrefixOf word with
    | some beginning => beginning.length
    | none => regionLength word
  (first, first + regionLength (word.drop first))

/-- Whether a word ends in a short syllable. -/
def endsShort (word : List Char) : Bool :=
  match word.reverse with
  | [c, v] => !isVowel c && isVowel v
  | c :: v :: d :: _ =>
    !(isVowel c || c = 'w' || c = 'x' || c = 'Y') && isVowel v && !isVowel d
  | _ => false

/-- The word before an ending. -/
def before? (ending : String) (word : List Char) : Option (List Char) :=
  let ending := ending.toList
  if ending.isSuffixOf word then some (word.take (word.length - ending.length)) else none

/-- The first ending of a list that a word has, with the word before it. -/
def match? {α : Type} (endings : List (String × α)) (word : List Char) :
    Option (List Char × α) :=
  endings.findSome? fun (ending, value) => (before? ending word).map (·, value)

/-- Whether a word has a vowel. -/
def hasVowel (word : List Char) : Bool := word.any isVowel

/-- The letters that may stand before a removed `li`. -/
def isValidBeforeLi (c : Char) : Bool := "cdeghkmnrt".toList.contains c

/-- The last character of a word. -/
def endsWith (word : List Char) (condition : Char → Bool) : Bool := word.getLast?.any condition

/-! ## Steps -/

/-- Take off a possessive. -/
def dropPossessive (word : List Char) : List Char :=
  match match? [("\x27s\x27", ()), ("\x27s", ()), ("\x27", ())] word with
  | some (front, ()) => front
  | none => word

/-- Plurals. -/
def plural (word : List Char) : List Char :=
  match match? [("sses", 0), ("ied", 1), ("ies", 1), ("us", 2), ("ss", 2), ("s", 3)] word with
  | some (front, 0) => front ++ ['s', 's']
  | some (front, 1) => if 2 ≤ front.length then front ++ ['i'] else front ++ ['i', 'e']
  | some (front, 3) => if hasVowel front.dropLast then front else word
  | _ => word

/-- Words that are finished once plurals are gone. -/
def finishedAfterPlural : List (List Char) :=
  ["inning", "outing", "canning", "herring", "earring", "proceed", "exceed", "succeed"].map
    String.toList

/-- What an `ed` or `ing` leaves behind is made a word again. -/
def repair (first : Nat) (word : List Char) : List Char :=
  let isDouble (c : Char) : Bool := "bdfgmnprt".toList.contains c
  match word.reverse with
  | 't' :: 'a' :: _ | 'l' :: 'b' :: _ | 'z' :: 'i' :: _ => word ++ ['e']
  | c :: d :: _ =>
    if c = d && isDouble c then word.dropLast
    else if word.length = first && endsShort word then word ++ ['e'] else word
  | _ => word

/-- Past tenses and participles. -/
def pastTense (first : Nat) (word : List Char) : List Char :=
  match match? [("eedly", true), ("ingly", false), ("edly", false), ("eed", true), ("ing", false),
      ("ed", false)] word with
  | some (front, true) => if first ≤ front.length then front ++ ['e', 'e'] else word
  | some (front, false) => if hasVowel front then repair first front else word
  | none => word

/-- A final `y` after a non-vowel that does not begin the word. -/
def finalY (word : List Char) : List Char :=
  match word.reverse with
  | y :: c :: _ :: _ =>
    if (y = 'y' || y = 'Y') && !isVowel c then word.dropLast ++ ['i'] else word
  | _ => word

/-- Endings that are shortened in the first region. -/
def longSuffixes : List (String × String) :=
  [("ational", "ate"), ("ization", "ize"), ("fulness", "ful"), ("ousness", "ous"),
    ("iveness", "ive"), ("tional", "tion"), ("biliti", "ble"), ("lessli", "less"),
    ("entli", "ent"), ("ation", "ate"), ("alism", "al"), ("aliti", "al"), ("ousli", "ous"),
    ("iviti", "ive"), ("fulli", "ful"), ("enci", "ence"), ("anci", "ance"), ("abli", "able"),
    ("izer", "ize"), ("ator", "ate"), ("alli", "al"), ("bli", "ble"), ("ogi", "og"), ("li", "")]

/-- Shorten a derived word. -/
def derivation (first : Nat) (word : List Char) : List Char :=
  match match? (longSuffixes.map fun (ending, new) => (ending, (ending, new))) word with
  | some (front, ending, new) =>
    if front.length < first then word
    else if ending = "ogi" then
      if endsWith front (· = 'l') then front ++ new.toList else word
    else if ending = "li" then
      if endsWith front isValidBeforeLi then front else word
    else front ++ new.toList
  | none => word

/-- Endings that are shortened or removed next. -/
def mediumSuffixes : List (String × String) :=
  [("ational", "ate"), ("tional", "tion"), ("alize", "al"), ("icate", "ic"), ("iciti", "ic"),
    ("ative", ""), ("ical", "ic"), ("ness", ""), ("ful", "")]

/-- Shorten what is left of a derivation. -/
def secondDerivation (first second : Nat) (word : List Char) : List Char :=
  match match? (mediumSuffixes.map fun (ending, new) => (ending, (ending, new))) word with
  | some (front, ending, new) =>
    if front.length < first then word
    else if ending = "ative" && front.length < second then word
    else front ++ new.toList
  | none => word

/-- Endings that are removed in the second region. -/
def shortSuffixes : List String :=
  ["ement", "ance", "ence", "able", "ible", "ment", "ant", "ent", "ism", "ate", "iti", "ous",
    "ive", "ize", "ion", "al", "er", "ic"]

/-- Remove a derivational ending. -/
def removal (second : Nat) (word : List Char) : List Char :=
  match match? (shortSuffixes.map fun ending => (ending, ending)) word with
  | some (front, ending) =>
    if front.length < second then word
    else if ending = "ion" && !endsWith front (fun c => c = 's' || c = 't') then word
    else front
  | none => word

/-- A final `e` or double `l`. -/
def finalE (first second : Nat) (word : List Char) : List Char :=
  match match? [("e", true), ("l", false)] word with
  | some (front, true) =>
    if second ≤ front.length || (first ≤ front.length && !endsShort front) then front else word
  | some (front, false) =>
    if second ≤ front.length && endsWith front (· = 'l') then front else word
  | none => word

/-- Words whose stem follows no rule. -/
def irregular : List (String × String) :=
  [("skis", "ski"), ("skies", "sky"), ("dying", "die"), ("lying", "lie"), ("tying", "tie"),
    ("idly", "idl"), ("gently", "gentl"), ("ugly", "ugli"), ("early", "earli"), ("only", "onli"),
    ("singly", "singl"), ("sky", "sky"), ("news", "news"), ("howe", "howe"), ("atlas", "atlas"),
    ("cosmos", "cosmos"), ("bias", "bias"), ("andes", "andes")]

/-- Mark every `y` that is no vowel; `previous` is the character before, as marked. -/
def markConsonants (previous : Option Char) : List Char → List Char
  | [] => []
  | c :: rest =>
    let marked := if c = 'y' && previous.all isVowel then 'Y' else c
    marked :: markConsonants (some marked) rest

/-- The steps after the regions of a word are known. -/
def steps (word : List Char) : List Char :=
  let (first, second) := regions word
  let word := plural (dropPossessive word)
  if finishedAfterPlural.contains word then word
  else
    finalE first second (removal second (secondDerivation first second
      (derivation first (finalY (pastTense first word)))))

/-- **Stem** of a word. Words of one or two characters are their own stem. -/
def stem (word : List Char) : List Char :=
  match irregular.find? fun entry => entry.1.toList = word with
  | some (_, result) => result.toList
  | none =>
    if word.length < 3 then word
    else
      let word := match word with
        | '\x27' :: rest => rest
        | word => word
      let marked := markConsonants none word
      let stemmed := steps marked
      -- a `Y` is a mark only where one was put
      if marked = word then stemmed
      else stemmed.map fun c => if c = 'Y' then 'y' else c

end LinkedSearch.Text.Stem
