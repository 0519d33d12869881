import LinkedSearch.Number.Binary

/-!
# Shortest decimals

A binary number is written with the fewest decimal digits that read back to it, and of these
candidates with the one nearest to it. The reals that round to a value of a format form an interval
around it, which contains its end points exactly when the significand is even. For each length the
candidates are the two neighbours of the value on the decimal grid of that length: if the grid has
a point in the interval at all, one of these two is in it.

* `shortestDecimal`: coefficient and exponent of that decimal.
* `Finite.jsonText`: positional notation from `0.00001` up to below `10 ^ 16`, exponent notation
  elsewhere, always with a point or an exponent.
* `Binary.plainText`: positional notation only, without a fraction where there is none.
-/

namespace LinkedSearch.Number

/-- A positive decimal `coefficient * 10 ^ exponent`. -/
structure Decimal where
  coefficient : Nat
  exponent : Int
  deriving DecidableEq, Repr

/-- The number of decimal digits of a positive number. -/
def digitCount (n : Nat) : Nat := (Nat.toDigits 10 n).length

/-- A coefficient without trailing zeros, for at most `fuel` steps; the value stays the same. -/
def Decimal.trim : Nat → Decimal → Decimal
  | 0, d => d
  | fuel + 1, d =>
    if d.coefficient ≠ 0 ∧ d.coefficient % 10 = 0 then
      trim fuel ⟨d.coefficient / 10, d.exponent + 1⟩
    else d

/-- The exponent of the leading decimal digit of the positive quotient `num / den`. -/
def floorLog10 (num den : Nat) : Int :=
  let guess : Int := (digitCount num : Int) - digitCount den
  if den * Nat.pow 10 guess.toNat ≤ num * Nat.pow 10 (-guess).toNat then guess else guess - 1

/-- The interval of the reals that round to a value, as three numerators over one denominator:
the lower end, the value, the upper end; `closed` says whether the ends belong to it. -/
structure RoundingInterval where
  low : Nat
  mid : Nat
  high : Nat
  den : Nat
  closed : Bool
  deriving DecidableEq, Repr

/-- The interval around the positive value `num / den` of a format. Below a power of two the
values lie twice as close, so the lower half-gap is half as wide there. -/
def Format.roundingInterval (format : Format) (num den : Nat) : RoundingInterval :=
  let unit := format.unitExponent num den
  let significand := (num <<< (-unit).toNat) / (den <<< unit.toNat)
  let scale := 1 <<< (unit - 2).toNat
  let lowGap :=
    if significand = 1 <<< (format.precision - 1) ∧ format.leastExponent < unit then 1 else 2
  { low := (4 * significand - lowGap) * scale
    mid := 4 * significand * scale
    high := (4 * significand + 2) * scale
    den := 1 <<< (2 - unit).toNat
    closed := significand % 2 == 0 }

/-- Whether `coefficient * 10 ^ exponent` lies in the interval. -/
def RoundingInterval.contains (interval : RoundingInterval) (d : Decimal) : Bool :=
  let point := d.coefficient * Nat.pow 10 d.exponent.toNat * interval.den
  let low := interval.low * Nat.pow 10 (-d.exponent).toNat
  let high := interval.high * Nat.pow 10 (-d.exponent).toNat
  if interval.closed then low ≤ point && point ≤ high else low < point && point < high

/-- The decimal of the grid `10 ^ exponent` that is nearest to the value, if the interval
contains one of the value's two neighbours on that grid; of two at equal distance the even one. -/
def RoundingInterval.nearestOnGrid? (interval : RoundingInterval) (exponent : Int) :
    Option Decimal :=
  let num := interval.mid * Nat.pow 10 (-exponent).toNat
  let den := interval.den * Nat.pow 10 exponent.toNat
  let below : Decimal := ⟨num / den, exponent⟩
  let above : Decimal := ⟨num / den + 1, exponent⟩
  -- zero is no candidate: it would be another number
  match below.coefficient ≠ 0 && interval.contains below, interval.contains above with
  | true, true => some ⟨roundQuotient num den, exponent⟩
  | true, false => some below
  | false, true => some above
  | false, false => none

/-- The first grid, from `exponent` downward, that has a hit. -/
def RoundingInterval.firstHit (interval : RoundingInterval) : Nat → Int → Decimal
  | 0, exponent => ⟨roundQuotient (interval.mid * Nat.pow 10 (-exponent).toNat)
      (interval.den * Nat.pow 10 exponent.toNat), exponent⟩
  | fuel + 1, exponent =>
    match interval.nearestOnGrid? exponent with
    | some d => d
    | none => interval.firstHit fuel (exponent - 1)

/-- **Shortest decimal** of the positive value `num / den` of a format. Seventeen digits always
suffice for the formats here, so the search tries one digit up to that many. -/
def shortestDecimal (format : Format) (num den : Nat) : Decimal :=
  let hit := (format.roundingInterval num den).firstHit 17 (floorLog10 num den)
  hit.trim (digitCount hit.coefficient)

namespace Decimal

/-- The digits of the coefficient. -/
def digits (d : Decimal) : List Char := Nat.toDigits 10 d.coefficient

/-- The exponent of the leading digit. -/
def leading (d : Decimal) : Int := d.exponent + d.digits.length - 1

/-- The digits before and after the point in positional notation. -/
def positional (d : Decimal) : List Char × List Char :=
  let digits := d.digits
  if 0 ≤ d.exponent then (digits ++ List.replicate d.exponent.toNat '0', [])
  else
    let places := (-d.exponent).toNat
    if digits.length ≤ places then
      (['0'], List.replicate (places - digits.length) '0' ++ digits)
    else digits.splitAt (digits.length - places)

/-- Positional notation with at least one digit after the point. -/
def pointText (d : Decimal) : String :=
  let (whole, fraction) := d.positional
  String.ofList (whole ++ '.' :: if fraction.isEmpty then ['0'] else fraction)

/-- Positional notation, with a point only in front of a fraction. -/
def plainText (d : Decimal) : String :=
  let (whole, fraction) := d.positional
  String.ofList (if fraction.isEmpty then whole else whole ++ '.' :: fraction)

/-- Exponent notation: one digit before the point, and the exponent with its sign. -/
def exponentText (d : Decimal) : String :=
  let mantissa := match d.digits with
    | first :: second :: rest => first :: '.' :: second :: rest
    | digits => digits
  let sign := if d.leading < 0 then "e-" else "e+"
  String.ofList mantissa ++ sign ++ toString d.leading.natAbs

/-- **Notation of numbers in documents**: positional where the leading digit is at most five places
behind the point and at most sixteen digits stand before it, exponent notation elsewhere. -/
def jsonText (d : Decimal) : String :=
  if -5 ≤ d.leading ∧ d.leading ≤ 15 then d.pointText else d.exponentText

end Decimal

/-- The text of a sign. -/
def signText (negative : Bool) : String := if negative then "-" else ""

/-- The text of a finite double in a document. -/
def Finite.jsonText (x : Finite) : String :=
  let (num, den) := absQuotient x.value
  signText x.isNegative ++
    if num = 0 then "0.0" else (shortestDecimal .double num den).jsonText

/-- The text of a value of a format in a description: plain digits, `inf`, or `NaN`. -/
def Binary.plainText (format : Format) : Binary → String
  | .nan => "NaN"
  | .infinite negative => signText negative ++ "inf"
  | .finite x =>
    let (num, den) := absQuotient x.value
    signText x.isNegative ++
      if num = 0 then "0" else (shortestDecimal format num den).plainText

end LinkedSearch.Number
