import LinkedSearch.Text.Casing

/-!
# Patterns

A pattern describes a set of texts by literals, character classes, sequence, choice, repetition and
assertions about a position. Matching follows the positions of a text that can be reached: a pattern
maps the set of positions where a match may begin to the set where it may end. A text matches when
some position is reached from some position.

* `CharClass.contains`: the characters of a class.
* `Assertion.holds`: what an assertion says about a position.
* `Pattern.reach`: the positions reached through a pattern.
* `Pattern.isMatch`: whether a text contains a match.
-/

namespace LinkedSearch.Text

/-- A class of characters. A `folded` part ignores case: it holds of a character when it holds of
one that differs from it in case only. -/
inductive CharClass where
  | range (low high : Nat) (folded : Bool)
  | sets (members : List CharSet) (folded : Bool)
  /-- Word characters. -/
  | word
  | any
  | none
  | complement (inner : CharClass)
  | union (left right : CharClass)
  | intersection (left right : CharClass)

namespace CharClass

/-- A condition on a character, or on one that differs from it in case only. -/
def holdsUpToCase (folded : Bool) (condition : Char → Bool) (c : Char) : Bool :=
  if folded then (alike c).any condition else condition c

/-- **Membership** of a character in a class. -/
def contains : CharClass → Char → Bool
  | range low high folded, c =>
    holdsUpToCase folded (fun c => low ≤ c.toNat && c.toNat ≤ high) c
  | sets members folded, c => holdsUpToCase folded (CharSet.anyContains members) c
  | word, c => isWordCharacter c
  | any, _ => true
  | none, _ => false
  | complement inner, c => !inner.contains c
  | union left right, c => left.contains c || right.contains c
  | intersection left right, c => left.contains c && right.contains c

/-- The class of a single character. -/
def single (c : Char) (folded : Bool) : CharClass := range c.toNat c.toNat folded

/-- What is in the first class and not in the second. -/
def difference (left right : CharClass) : CharClass := intersection left (complement right)

/-- What is in exactly one of two classes. -/
def symmetricDifference (left right : CharClass) : CharClass :=
  union (difference left right) (difference right left)

/-- The class complemented, or not. -/
def negateIf (negated : Bool) (inner : CharClass) : CharClass :=
  if negated then complement inner else inner

/-- A case-sensitive single character contains itself only. -/
@[simp] theorem contains_single (c d : Char) :
    (single c false).contains d = (c.toNat ≤ d.toNat && d.toNat ≤ c.toNat) := by
  simp [single, contains, holdsUpToCase]

end CharClass

/-- A condition on a position of a text. -/
inductive Assertion where
  | textStart
  | textEnd
  /-- After a line break; with `carriage` a carriage return breaks lines too. -/
  | lineStart (carriage : Bool)
  | lineEnd (carriage : Bool)
  /-- Between a word character and another character; `ascii` words have ASCII characters only. -/
  | wordBoundary (ascii : Bool)
  | noWordBoundary (ascii : Bool)
  | wordStart (ascii : Bool)
  | wordEnd (ascii : Bool)
  /-- No word character before. -/
  | wordStartHalf (ascii : Bool)
  /-- No word character behind. -/
  | wordEndHalf (ascii : Bool)
  deriving DecidableEq, Repr

/-- ASCII letters, digits and the low line. -/
def isAsciiWord (c : Char) : Bool := c.isAlphanum || c = '_'

/-- Whether a neighbour of a position is a word character. -/
def isWordAt (ascii : Bool) (neighbour : Option Char) : Bool :=
  neighbour.any fun c => if ascii then isAsciiWord c else isWordCharacter c

namespace Assertion

/-- Whether an assertion holds between two neighbouring characters. -/
def holds (before after : Option Char) : Assertion → Bool
  | textStart => before.isNone
  | textEnd => after.isNone
  | lineStart carriage =>
    match before with
    | .none => true
    | some '\n' => true
    | some '\r' => carriage && after ≠ some '\n'
    | some _ => false
  | lineEnd carriage =>
    match after with
    | .none => true
    | some '\r' => carriage
    | some '\n' => !(carriage && before = some '\r')
    | some _ => false
  | wordBoundary ascii => isWordAt ascii before != isWordAt ascii after
  | noWordBoundary ascii => isWordAt ascii before == isWordAt ascii after
  | wordStart ascii => !isWordAt ascii before && isWordAt ascii after
  | wordEnd ascii => isWordAt ascii before && !isWordAt ascii after
  | wordStartHalf ascii => !isWordAt ascii before
  | wordEndHalf ascii => !isWordAt ascii after

end Assertion

/-- A pattern. -/
inductive Pattern where
  | empty
  | char (characters : CharClass)
  | assertion (condition : Assertion)
  | seq (first second : Pattern)
  | alt (left right : Pattern)
  /-- At least `least` times, and at most `most` times where that is given. -/
  | repeated (inner : Pattern) (least : Nat) (most : Option Nat)

/-- Positions of a text, ascending and without repetition. -/
abbrev Positions := List Nat

namespace Positions

/-- A position added in its place. -/
def add (position : Nat) : Positions → Positions
  | [] => [position]
  | p :: rest =>
    if position < p then position :: p :: rest
    else if position = p then p :: rest
    else p :: add position rest

/-- The positions of two sets. -/
def union (left right : Positions) : Positions := left.foldr add right

/-- Apply a step a number of times, or until it changes nothing any more. -/
def iterate (step : Positions → Positions) : Nat → Positions → Positions
  | 0, positions => positions
  | n + 1, positions =>
    let next := step positions
    -- further steps would not change anything
    if next = positions then positions else iterate step n next

/-- What is reached by at most `n` steps: `reached` so far, the last of it through `frontier`. -/
def closure (step : Positions → Positions) : Nat → Positions → Positions → Positions
  | 0, reached, _ => reached
  | n + 1, reached, frontier =>
    let fresh := (step frontier).filter fun position => !reached.contains position
    if fresh.isEmpty then reached else closure step n (union fresh reached) fresh

end Positions

namespace Pattern

/-- The characters before and after a position. -/
def neighbours (text : Array Char) (position : Nat) : Option Char × Option Char :=
  (if position = 0 then none else text[position - 1]?, text[position]?)

/-- **Reach**: the positions at which a match may end when it begins at one of the given ones. A
repetition without an upper bound reaches nothing new after as many rounds as there are positions
in the text. -/
def reach (text : Array Char) : Pattern → Positions → Positions
  | empty, positions => positions
  | char characters, positions =>
    (positions.filter fun position => text[position]?.any characters.contains).map (· + 1)
  | assertion condition, positions =>
    positions.filter fun position =>
      let (before, after) := neighbours text position
      condition.holds before after
  | seq first second, positions => reach text second (reach text first positions)
  | alt left right, positions =>
    Positions.union (reach text left positions) (reach text right positions)
  | repeated inner least most, positions =>
    let start := Positions.iterate (reach text inner) least positions
    let rounds := match most with
      | some most => most - least
      | none => text.size + 1
    Positions.closure (reach text inner) rounds start start

@[simp] theorem reach_empty (text : Array Char) (positions : Positions) :
    reach text empty positions = positions := rfl

@[simp] theorem reach_seq (text : Array Char) (first second : Pattern) (positions : Positions) :
    reach text (seq first second) positions =
      reach text second (reach text first positions) := rfl

/-- **Matching**: some part of the text matches the pattern. -/
def isMatch (pattern : Pattern) (text : List Char) : Bool :=
  !(reach text.toArray pattern (List.range (text.length + 1))).isEmpty

/-- Patterns one after the other. -/
def sequence (parts : List Pattern) : Pattern := parts.foldr seq empty

/-- A single character. -/
def literal (c : Char) (folded : Bool) : Pattern := char (.single c folded)

/-- Any character but a line feed. -/
def dot : Pattern := char (.complement (.single '\n' false))

end Pattern

end LinkedSearch.Text
