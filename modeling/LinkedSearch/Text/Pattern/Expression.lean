import LinkedSearch.Text.Pattern.Property

/-!
# Regular expressions

The notation of patterns: literals, `.`, classes in brackets with ranges, nesting and set operations,
escapes, groups, choice, greedy and lazy repetition, anchors, and flags that hold to the end of the
group they stand in. Whether a match exists does not depend on greed, and groups are not reported,
so both are read and dropped. A text that is no expression has no pattern.

* `Expression.parse?`: the pattern of an expression.
* `Expression.whole?`: the pattern of an expression between anchors; the anchors are put around its
  text, so a choice that is closed early can escape them.
-/

namespace LinkedSearch.Text.Expression

/-- The flags in force. -/
structure Flags where
  ignoreCase : Bool := false
  multiLine : Bool := false
  dotAll : Bool := false
  unicode : Bool := true
  /-- Blanks and comments are skipped. -/
  verbose : Bool := false
  /-- A carriage return breaks lines too. -/
  carriage : Bool := false
  deriving DecidableEq, Repr

/-- Skip blanks and comments where the flags say so. -/
def skipBlanks (flags : Flags) (text : List Char) : List Char :=
  if flags.verbose then go text else text
where
  /-- Skip blanks and comments. -/
  go : List Char → List Char
    | [] => []
    | '#' :: rest => comment rest
    | c :: rest => if isSpace c then go rest else c :: rest
  /-- Skip a comment up to the end of its line. -/
  comment : List Char → List Char
    | [] => []
    | '\n' :: rest => go rest
    | _ :: rest => comment rest

/-- Characters with a meaning of their own, which an escape makes literal. -/
def isMeta (c : Char) : Bool := "\\.+*?()|[]\x7b\x7d^$#&-~".toList.contains c

/-- Characters that may be escaped without need. -/
def isEscapable (c : Char) : Bool :=
  isMeta c || (c.toNat < 128 && !c.isAlphanum && c ≠ '<' && c ≠ '>')

/-- The value of a hexadecimal digit. -/
def hexValue? (c : Char) : Option Nat :=
  if c.isDigit then some (c.toNat - '0'.toNat)
  else if 'a' ≤ c.toLower ∧ c.toLower ≤ 'f' then some (c.toLower.toNat - 'a'.toNat + 10)
  else none

/-- The character with the code point that some hexadecimal digits spell. -/
def hexChar? (digits : List Char) : Option Char := do
  if digits.isEmpty then failure
  let values ← digits.mapM hexValue?
  let code := values.foldl (fun n d => 16 * n + d) 0
  if code < 0xD800 ∨ (0xDFFF < code ∧ code < 0x110000) then some (Char.ofNat code) else none

/-- A code point after `x`, `u` or `U`: in braces, or with a fixed number of digits. -/
def takeHex? (width : Nat) : List Char → Option (Char × List Char)
  | '\x7b' :: rest =>
    match rest.span (· ≠ '\x7d') with
    | (digits, _ :: rest) => (hexChar? digits).map (·, rest)
    | _ => none
  | text =>
    if width ≤ text.length then (hexChar? (text.take width)).map (·, text.drop width) else none

/-- What an escape stands for. -/
inductive Escape where
  | literal (c : Char)
  | characters (characters : CharClass)
  | assertion (condition : Assertion)

/-- A decimal digit, a blank or a word character, as the flags understand them. A complement of an
ASCII class would reach into the bytes of other characters and is refused. -/
def shorthand? (flags : Flags) (name : Char) : Option CharClass :=
  let negated := name.isUpper
  if flags.unicode then
    match name.toLower with
    | 'd' => some (.negateIf negated (.sets [Table.decimalNumber] false))
    | 's' => some (.negateIf negated (.sets [Table.whiteSpace] false))
    | 'w' => some (.negateIf negated .word)
    | _ => none
  else if negated then none
  else
    match name with
    | 'd' => Property.ascii? "digit" false
    | 's' => Property.ascii? "space" false
    | 'w' => Property.ascii? "word" false
    | _ => none

/-- A named class after `p` or `P`: one letter, or a name in braces. -/
def takeNamed? (flags : Flags) (negated : Bool) : List Char → Option (CharClass × List Char)
  | '\x7b' :: rest =>
    match rest.span (· ≠ '\x7d') with
    | (name, _ :: rest) => do
      if !flags.unicode then failure
      let characters ← Property.named? name flags.ignoreCase
      some (.negateIf negated characters, rest)
    | _ => none
  | c :: rest => do
    if !flags.unicode then failure
    let characters ← Property.named? [c] flags.ignoreCase
    some (.negateIf negated characters, rest)
  | [] => none

/-- The kinds of word boundaries that have names. -/
def namedBoundary? (name : String) (ascii : Bool) : Option Assertion :=
  if name = "start" then some (.wordStart ascii)
  else if name = "end" then some (.wordEnd ascii)
  else if name = "start-half" then some (.wordStartHalf ascii)
  else if name = "end-half" then some (.wordEndHalf ascii)
  else none

/-- A word boundary, of a named kind where a name in braces follows. Braces that do not begin with
a letter or a hyphen belong to a repetition. -/
def takeBoundary? (ascii : Bool) (text : List Char) : Option (Assertion × List Char) :=
  match text with
  | '\x7b' :: c :: rest =>
    if c.isAlpha || c = '-' then
      match (c :: rest).span (fun c => c.isAlpha || c = '-') with
      | (name, '\x7d' :: rest) => (namedBoundary? (String.ofList name) ascii).map (·, rest)
      | _ => none
    else some (.wordBoundary ascii, text)
  | _ => some (.wordBoundary ascii, text)

/-- The escape after a backslash. -/
def takeEscape? (flags : Flags) : List Char → Option (Escape × List Char)
  | [] => none
  | c :: rest =>
    let ascii := !flags.unicode
    match c with
    | 'd' | 'D' | 's' | 'S' | 'w' | 'W' =>
      (shorthand? flags c).map fun characters => (.characters characters, rest)
    | 'p' | 'P' =>
      (takeNamed? flags (c = 'P') rest).map fun (characters, rest) => (.characters characters, rest)
    | 'x' => (takeHex? 2 rest).map fun (c, rest) => (.literal c, rest)
    | 'u' => (takeHex? 4 rest).map fun (c, rest) => (.literal c, rest)
    | 'U' => (takeHex? 8 rest).map fun (c, rest) => (.literal c, rest)
    | 'a' => some (.literal '\x07', rest)
    | 'f' => some (.literal '\x0c', rest)
    | 't' => some (.literal '\t', rest)
    | 'n' => some (.literal '\n', rest)
    | 'r' => some (.literal '\r', rest)
    | 'v' => some (.literal '\x0b', rest)
    | 'A' => some (.assertion .textStart, rest)
    | 'z' => some (.assertion .textEnd, rest)
    | 'b' =>
      (takeBoundary? ascii rest).map fun (condition, rest) => (.assertion condition, rest)
    | 'B' => some (.assertion (.noWordBoundary ascii), rest)
    | '<' => some (.assertion (.wordStart ascii), rest)
    | '>' => some (.assertion (.wordEnd ascii), rest)
    | c => if isEscapable c then some (.literal c, rest) else none

/-! ## Bracket expressions -/

/-- An element of a bracket expression: a character, which may begin a range, or a class. -/
def takeClassItem? (flags : Flags) : List Char → Option (Escape × List Char)
  | '\\' :: rest => do
    match ← takeEscape? flags rest with
    | (.assertion _, _) => none
    | item => some item
  | c :: rest => some (.literal c, rest)
  | [] => none

/-- An element or a range of a bracket expression. A hyphen makes a range unless a closing bracket
or another hyphen follows it. -/
def takeClassRange? (flags : Flags) (text : List Char) : Option (CharClass × List Char) := do
  let (first, rest) ← takeClassItem? flags text
  let rest := skipBlanks flags rest
  let alone : Option (CharClass × List Char) :=
    match first with
    | .literal c => some (.single c flags.ignoreCase, rest)
    | .characters characters => some (characters, rest)
    | .assertion _ => none
  match rest with
  | '-' :: afterHyphen =>
    let afterHyphen := skipBlanks flags afterHyphen
    match afterHyphen with
    | [] => none
    | ']' :: _ | '-' :: _ => alone
    | _ =>
      match first, ← takeClassItem? flags afterHyphen with
      | .literal low, (.literal high, rest) =>
        if low ≤ high then some (.range low.toNat high.toNat flags.ignoreCase, rest) else none
      | _, _ => none
  | _ => alone

/-- A named ASCII class, after its opening bracket and colon. -/
def takeAsciiClass? (flags : Flags) (text : List Char) : Option (CharClass × List Char) :=
  let (negated, text) := match text with
    | '^' :: rest => (true, rest)
    | text => (false, text)
  match text.span (· ≠ ':') with
  | (name, ':' :: ']' :: rest) =>
    (Property.ascii? (String.ofList name) flags.ignoreCase).map fun characters =>
      (.negateIf negated characters, rest)
  | _ => none

/-- An operation on the classes before and behind it. -/
inductive ClassOperation where
  | intersection
  | difference
  | symmetricDifference
  deriving DecidableEq, Repr

/-- The class of the operation whose right side has been read. -/
def ClassOperation.apply : Option (CharClass × ClassOperation) → CharClass → CharClass
  | none, right => right
  | some (left, .intersection), right => .intersection left right
  | some (left, .difference), right => .difference left right
  | some (left, .symmetricDifference), right => .symmetricDifference left right

/-- The beginning of a bracket expression: whether it is negated, and the hyphens or the closing
bracket that are literal there. -/
def takeClassOpening (flags : Flags) (text : List Char) : Bool × CharClass × List Char :=
  let text := skipBlanks flags text
  let (negated, text) := match text with
    | '^' :: rest => (true, skipBlanks flags rest)
    | text => (false, text)
  let rec hyphens : List Char → Option (List Char)
    | '-' :: rest => some ((hyphens rest).getD rest)
    | _ => none
  match hyphens text with
  | some rest => (negated, .single '-' flags.ignoreCase, skipBlanks flags rest)
  | none =>
    match text with
    | ']' :: rest => (negated, .single ']' flags.ignoreCase, skipBlanks flags rest)
    | text => (negated, .none, text)

/-- The body of a bracket expression up to its closing bracket. `members` is the union read since
the last operation, `pending` that operation with what stands before it. -/
def takeClassBody? (flags : Flags) : Nat → Bool → Option (CharClass × ClassOperation) →
    CharClass → List Char → Option (CharClass × List Char)
  | 0, _, _, _, _ => none
  | fuel + 1, negated, pending, members, text =>
    let operate (operation : ClassOperation) (rest : List Char) :=
      takeClassBody? flags fuel negated (some (ClassOperation.apply pending members, operation))
        .none rest
    match skipBlanks flags text with
    | [] => none
    | ']' :: rest => some (.negateIf negated (ClassOperation.apply pending members), rest)
    | '&' :: '&' :: rest => operate .intersection rest
    | '-' :: '-' :: rest => operate .difference rest
    | '~' :: '~' :: rest => operate .symmetricDifference rest
    | '[' :: rest =>
      let named := match rest with
        | ':' :: rest => takeAsciiClass? flags rest
        | _ => none
      match named with
      | some (characters, rest) =>
        takeClassBody? flags fuel negated pending (.union members characters) rest
      | none =>
        let (innerNegated, innerMembers, rest) := takeClassOpening flags rest
        match takeClassBody? flags fuel innerNegated none innerMembers rest with
        | some (inner, rest) =>
          takeClassBody? flags fuel negated pending (.union members inner) rest
        | none => none
    | text =>
      match takeClassRange? flags text with
      | some (characters, rest) =>
        takeClassBody? flags fuel negated pending (.union members characters) rest
      | none => none

/-- A bracket expression after its opening bracket. -/
def takeClass? (flags : Flags) (text : List Char) : Option (CharClass × List Char) :=
  let (negated, members, rest) := takeClassOpening flags text
  takeClassBody? flags (text.length + 1) negated none members rest

/-! ## Repetition, flags and groups -/

/-- A decimal number with blanks around it. -/
def takeCount? (text : List Char) : Option (Nat × List Char) :=
  let (digits, rest) := (text.dropWhile isSpace).span Char.isDigit
  let count := digits.foldl (fun n c => 10 * n + (c.toNat - '0'.toNat)) 0
  if digits.isEmpty || 4294967296 ≤ count then none else some (count, rest.dropWhile isSpace)

/-- The bounds of a counted repetition after its opening brace. -/
def takeBounds? (flags : Flags) (text : List Char) : Option (Nat × Option Nat × List Char) := do
  let (least, rest) ← takeCount? (skipBlanks flags text)
  match rest with
  | '\x7d' :: rest => some (least, some least, rest)
  | ',' :: rest =>
    match skipBlanks flags rest with
    | '\x7d' :: rest => some (least, none, rest)
    | rest =>
      let (most, rest) ← takeCount? rest
      match rest with
      | '\x7d' :: rest => if least ≤ most then some (least, some most, rest) else none
      | _ => none
  | _ => none

/-- The rest behind the mark that makes a repetition lazy. -/
def dropLazy (flags : Flags) (text : List Char) : List Char :=
  match skipBlanks flags text with
  | '?' :: rest => rest
  | rest => rest

/-- One flag switched on or off. -/
def setFlag? (flags : Flags) (value : Bool) (name : Char) : Option Flags :=
  match name with
  | 'i' => some { flags with ignoreCase := value }
  | 'm' => some { flags with multiLine := value }
  | 's' => some { flags with dotAll := value }
  | 'U' => some flags
  | 'u' => some { flags with unicode := value }
  | 'R' => some { flags with carriage := value }
  | 'x' => some { flags with verbose := value }
  | _ => none

/-- Flags up to the character that ends them; a flag may be given once, and a minus sign, also
given once, must be followed by a flag. -/
def takeFlags? (flags : Flags) (seen : List Char) (value : Bool) :
    List Char → Option (Flags × Char × List Char)
  | [] => none
  | c :: rest =>
    if c = ')' ∨ c = ':' then
      if seen.head? = some '-' ∨ (c = ')' ∧ seen.isEmpty) then none else some (flags, c, rest)
    else if seen.contains c then none
    else if c = '-' then takeFlags? flags (c :: seen) false rest
    else do takeFlags? (← setFlag? flags value c) (c :: seen) value rest

/-- A group name up to its closing bracket: a letter or low line, then also digits, dots and
brackets. -/
def takeGroupName? (text : List Char) : Option (String × List Char) :=
  match text.span (· ≠ '>') with
  | (c :: name, _ :: rest) =>
    if (c = '_' || isAlphabetic c)
        && name.all fun c => c = '_' || c = '.' || c = '[' || c = ']' || isAlphanumeric c then
      some (String.ofList (c :: name), rest)
    else none
  | _ => none

/-- What an opening parenthesis begins. -/
inductive Opening where
  | group (flags : Flags) (name : Option String)
  | directive (flags : Flags)

/-- The beginning of a group after its opening parenthesis. Assertions about the text before or
behind are not part of the notation. -/
def takeOpening? (flags : Flags) (text : List Char) : Option (Opening × List Char) :=
  match skipBlanks flags text with
  | '?' :: 'P' :: '<' :: rest =>
    (takeGroupName? rest).map fun (name, rest) => (.group flags (some name), rest)
  | '?' :: '=' :: _ | '?' :: '!' :: _ | '?' :: '<' :: '=' :: _ | '?' :: '<' :: '!' :: _ => none
  | '?' :: '<' :: rest =>
    (takeGroupName? rest).map fun (name, rest) => (.group flags (some name), rest)
  | '?' :: rest => do
    let (flags, stop, rest) ← takeFlags? flags [] true rest
    some (if stop = ')' then .directive flags else .group flags none, rest)
  | text => some (.group flags none, text)

/-- The pattern of an anchor or a dot. A dot without Unicode would match single bytes and is
refused. -/
def simple? (flags : Flags) (c : Char) : Option Pattern :=
  match c with
  | '^' => some (.assertion (if flags.multiLine then .lineStart flags.carriage else .textStart))
  | '$' => some (.assertion (if flags.multiLine then .lineEnd flags.carriage else .textEnd))
  | '.' =>
    if !flags.unicode then none
    else if flags.dotAll then some (.char .any)
    else if flags.carriage then
      some (.char (.complement (.union (.single '\n' false) (.single '\r' false))))
    else some .dot
  | c => some (.literal c flags.ignoreCase)

/-- What a level of an expression has read: the finished branches, and the parts of the branch in
progress, both in reverse. A part is absent where a directive stood. -/
structure Level where
  branches : List Pattern := []
  parts : List (Option Pattern) := []

namespace Level

/-- The branch in progress. -/
def branch (level : Level) : Pattern := .sequence (level.parts.reverse.filterMap id)

/-- The pattern of the level. -/
def pattern (level : Level) : Pattern := level.branches.foldl (fun rest b => .alt b rest) level.branch

/-- The level with one more part. -/
def push (level : Level) (part : Option Pattern) : Level :=
  { level with parts := part :: level.parts }

/-- The level with its last part repeated; a directive cannot be repeated. -/
def repeat? (level : Level) (least : Nat) (most : Option Nat) : Option Level :=
  match level.parts with
  | some last :: parts => some { level with parts := some (.repeated last least most) :: parts }
  | _ => none

end Level

/-- One level of an expression, up to its closing parenthesis or the end; also the names of the
groups read so far. Every round takes at least one character, so the length of the text bounds
their number. -/
def takeLevel? : Nat → Flags → List String → Level → List Char →
    Option (Pattern × List String × List Char)
  | 0, _, _, _, _ => none
  | fuel + 1, flags, names, level, text =>
    let repeated (least : Nat) (most : Option Nat) (rest : List Char) := do
      takeLevel? fuel flags names (← level.repeat? least most) (dropLazy flags rest)
    match skipBlanks flags text with
    | [] => some (level.pattern, names, [])
    | ')' :: rest => some (level.pattern, names, ')' :: rest)
    | '|' :: rest =>
      takeLevel? fuel flags names { branches := level.branch :: level.branches } rest
    | '*' :: rest => repeated 0 none rest
    | '+' :: rest => repeated 1 none rest
    | '?' :: rest => repeated 0 (some 1) rest
    | '\x7b' :: rest => do
      let (least, most, rest) ← takeBounds? flags rest
      repeated least most rest
    | '[' :: rest => do
      let (characters, rest) ← takeClass? flags rest
      takeLevel? fuel flags names (level.push (some (.char characters))) rest
    | '\\' :: rest => do
      let (escape, rest) ← takeEscape? flags rest
      let part : Pattern := match escape with
        | .literal c => .literal c flags.ignoreCase
        | .characters characters => .char characters
        | .assertion condition => .assertion condition
      takeLevel? fuel flags names (level.push (some part)) rest
    | '(' :: rest => do
      match ← takeOpening? flags rest with
      | (.directive newFlags, rest) => takeLevel? fuel newFlags names (level.push none) rest
      | (.group innerFlags name, rest) =>
        let names ← match name with
          | some name => if names.contains name then none else some (name :: names)
          | none => some names
        let (inner, names, rest) ← takeLevel? fuel innerFlags names {} rest
        match rest with
        | ')' :: rest => takeLevel? fuel flags names (level.push (some inner)) rest
        | _ => none
    | c :: rest => do
      takeLevel? fuel flags names (level.push (some (← simple? flags c))) rest

/-- **Pattern** of an expression. -/
def parse? (text : List Char) : Option Pattern := do
  match ← takeLevel? (text.length + 1) {} [] {} text with
  | (pattern, _, []) => some pattern
  | _ => none

/-- The pattern of an expression put between anchors. -/
def whole? (text : String) : Option Pattern :=
  parse? ("^(?:".toList ++ text.toList ++ ")$".toList)

end LinkedSearch.Text.Expression
