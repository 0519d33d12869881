import LinkedSearch.Text.Casing

/-!
# Words

Two ways to cut a text into words. *Runs* are the longest runs of letters and numbers. *Segments*
follow the default rules for word boundaries: letters and digits stay together, also across an
apostrophe or a full stop between letters and a comma between digits; marks and format characters
belong to the character before them; scripts written without spaces and pictures break at every
character. The words of a text are its segments that contain a letter or a number.

* `runs`: the runs of letters and numbers.
* `segments`: the segments, which concatenate to the text.
* `words`: the segments with a letter or a number.
-/

namespace LinkedSearch.Text

/-! ## Runs -/

/-- The runs of a text, when the letters and numbers read last are given in reverse. -/
def runsAfter (current : List Char) : List Char → List (List Char)
  | [] => if current.isEmpty then [] else [current.reverse]
  | c :: rest =>
    if isAlphanumeric c then runsAfter (c :: current) rest
    else if current.isEmpty then runsAfter [] rest
    else current.reverse :: runsAfter [] rest

/-- **Runs** of letters and numbers. -/
def runs (text : List Char) : List (List Char) := runsAfter [] text

@[simp] theorem runs_nil : runs [] = [] := rfl

/-! ## Segments -/

/-- The class of a character for word boundaries. -/
inductive WordClass where
  | carriageReturn
  | lineFeed
  | newline
  | extend
  | joiner
  | format
  | katakana
  | hebrewLetter
  | letter
  | singleQuote
  | doubleQuote
  | midNumberLetter
  | midLetter
  | midNumber
  | numeric
  | extender
  | regionalIndicator
  | space
  | other
  deriving DecidableEq, Repr

/-- Signs that extend the character before them, beside the marks. -/
def isExtendingSign (c : Char) : Bool :=
  c = '\u200C' || c = '\uFF9E' || c = '\uFF9F' || (0x1F3FB ≤ c.toNat && c.toNat ≤ 0x1F3FF)
    || (0xE0020 ≤ c.toNat && c.toNat ≤ 0xE007F)

/-- The class of a character. -/
def wordClass (c : Char) : WordClass :=
  if c = '\r' then .carriageReturn
  else if c = '\n' then .lineFeed
  else if c = '\x0b' || c = '\x0c' || c = '\u0085' || c = '\u2028' || c = '\u2029' then .newline
  else if c = '\x27' then .singleQuote
  else if c = '"' then .doubleQuote
  else if c = '\u200D' then .joiner
  else if isMark c || isExtendingSign c then .extend
  else if c ≠ '\u200B' && Table.format.contains c then .format
  else if 0x1F1E6 ≤ c.toNat && c.toNat ≤ 0x1F1FF then .regionalIndicator
  else if Table.katakana.contains c then .katakana
  else if Table.hebrewLetter.contains c then .hebrewLetter
  else if Table.midNumberLetter.contains c then .midNumberLetter
  else if Table.midLetter.contains c then .midLetter
  else if Table.midNumber.contains c then .midNumber
  else if isDigit c || c = '\u066B' then .numeric
  else if Table.numberLetterExtender.contains c then .extender
  else if Table.segmentSpace.contains c then .space
  else if Table.letterLikeSign.contains c then .letter
  else if isAlphabetic c && !Table.unspacedLetter.contains c then .letter
  else .other

namespace WordClass

/-- Letters, of any script with words. -/
def isLetter : WordClass → Bool
  | letter | hebrewLetter => true
  | _ => false

/-- Line breaks. -/
def isNewline : WordClass → Bool
  | carriageReturn | lineFeed | newline => true
  | _ => false

/-- Characters that belong to the one before them. -/
def isAttached : WordClass → Bool
  | extend | format | joiner => true
  | _ => false

/-- Marks between letters. -/
def joinsLetters : WordClass → Bool
  | midLetter | midNumberLetter | singleQuote => true
  | _ => false

/-- Marks between digits. -/
def joinsDigits : WordClass → Bool
  | midNumber | midNumberLetter | singleQuote => true
  | _ => false

/-- Classes that a connector extends. -/
def isExtendable (kind : WordClass) : Bool :=
  kind.isLetter || kind = numeric || kind = katakana

end WordClass

/-- What has been read before a possible boundary. The classes `previous` and `earlier` are those of
the last two characters that are not attached to another one. -/
structure Boundary where
  last : WordClass
  previous : WordClass
  earlier : WordClass := .other
  /-- Whether an odd number of regional indicators stands directly before. -/
  oddIndicators : Bool

namespace Boundary

/-- The state after the first character of a text. -/
def start (kind : WordClass) : Boundary :=
  { last := kind, previous := kind, oddIndicators := kind = .regionalIndicator }

/-- Whether two neighbouring characters stay together, given the class of the second and the class
of the first character behind it that is not attached. -/
def joins (before : Boundary) (next : WordClass) (isPictograph : Bool) (following : WordClass) :
    Bool :=
  if before.last = .carriageReturn && next = .lineFeed then true
  else if before.last.isNewline || next.isNewline then false
  -- two pictures are joined to one
  else if before.last = .joiner && isPictograph then true
  else if before.last = .space && next = .space then true
  else if next.isAttached then true
  else
    let previous := before.previous
    let earlier := before.earlier
    (previous.isLetter && next.isLetter)
    || (previous.isLetter && next.joinsLetters && following.isLetter)
    || (earlier.isLetter && previous.joinsLetters && next.isLetter)
    || (previous = .hebrewLetter && next = .singleQuote)
    || (previous = .hebrewLetter && next = .doubleQuote && following = .hebrewLetter)
    || (earlier = .hebrewLetter && previous = .doubleQuote && next = .hebrewLetter)
    || (previous = .numeric && next = .numeric)
    || (previous.isLetter && next = .numeric)
    || (previous = .numeric && next.isLetter)
    || (earlier = .numeric && previous.joinsDigits && next = .numeric)
    || (previous = .numeric && next.joinsDigits && following = .numeric)
    || (previous = .katakana && next = .katakana)
    || ((previous.isExtendable || previous = .extender) && next = .extender)
    || (previous = .extender && next.isExtendable)
    || (previous = .regionalIndicator && next = .regionalIndicator && before.oddIndicators)

/-- The state after one more character. An attached character leaves the classes before it as they
are, unless it stands at the beginning of a line. -/
def advance (before : Boundary) (next : WordClass) : Boundary :=
  if next.isAttached && !before.last.isNewline then { before with last := next }
  else
    { last := next
      previous := next
      earlier := before.previous
      oddIndicators := next = .regionalIndicator
        && !(before.previous = .regionalIndicator && before.oddIndicators) }

end Boundary

/-- The class of the first character that is not attached to another one. -/
def followingClass : List Char → WordClass
  | [] => .other
  | c :: rest => if (wordClass c).isAttached then followingClass rest else wordClass c

/-- The segments of a text, when the segment read last is given in reverse. -/
def segmentsAfter (before : Boundary) (current : List Char) : List Char → List (List Char)
  | [] => [current.reverse]
  | c :: rest =>
    let kind := wordClass c
    if before.joins kind (Table.pictograph.contains c) (followingClass rest) then
      segmentsAfter (before.advance kind) (c :: current) rest
    else current.reverse :: segmentsAfter (before.advance kind) [c] rest

/-- **Segments** of a text. -/
def segments : List Char → List (List Char)
  | [] => []
  | c :: rest => segmentsAfter (.start (wordClass c)) [c] rest

/-- No character is lost or added between the boundaries. -/
theorem flatten_segmentsAfter (before : Boundary) (current rest : List Char) :
    (segmentsAfter before current rest).flatten = current.reverse ++ rest := by
  induction rest generalizing before current with
  | nil => simp [segmentsAfter]
  | cons c rest ih =>
    simp only [segmentsAfter]
    split <;> simp [ih]

/-- The segments of a text concatenate to it. -/
theorem flatten_segments (text : List Char) : (segments text).flatten = text := by
  cases text with
  | nil => rfl
  | cons c rest => simp [segments, flatten_segmentsAfter]

/-- **Words** of a text: the segments with a letter or a number. -/
def words (text : List Char) : List (List Char) :=
  (segments text).filter fun segment => segment.any isAlphanumeric

end LinkedSearch.Text
