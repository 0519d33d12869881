/-!
# Sets of characters

A set of characters is given by its bounds: the first character in it, the first one after that
which is not, the next one which is again, and so on. A character belongs to the set exactly when an
odd number of bounds lie at or below it.

* `CharSet.contains`: membership, by bisection.
-/

namespace LinkedSearch.Text

/-- A set of characters by its bounds, in ascending order. -/
structure CharSet where
  bounds : Array Nat

namespace CharSet

/-- The number of bounds at or below a code point, when it is known to lie between two numbers; the
distance is halved at every step. -/
def countWithin (bounds : Array Nat) (code : Nat) : Nat → Nat → Nat → Nat
  | 0, low, _ => low
  | fuel + 1, low, high =>
    if low < high then
      let middle := (low + high) / 2
      if bounds.getD middle 0 ≤ code then countWithin bounds code fuel (middle + 1) high
      else countWithin bounds code fuel low middle
    else low

/-- The number of bounds at or below a code point. -/
def count (set : CharSet) (code : Nat) : Nat :=
  countWithin set.bounds code (set.bounds.size.log2 + 1) 0 set.bounds.size

/-- **Membership**. -/
def contains (set : CharSet) (c : Char) : Bool := set.count c.toNat % 2 == 1

/-- Whether a character belongs to one of several sets. -/
def anyContains (sets : List CharSet) (c : Char) : Bool := sets.any fun set => set.contains c

end CharSet

end LinkedSearch.Text
