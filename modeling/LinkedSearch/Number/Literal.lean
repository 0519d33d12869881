import LinkedSearch.Number.Shortest

/-!
# Reading decimal literals

A literal is a sign, a run of digits with an optional point, and an optional exponent. Its value is
exact, and rounding to a format happens once, at the end.

* `numeral?`: the literal a text spells, with the form of each part kept.
* `Literal.toBinary`: the value of a format nearest to the literal.
* `Binary.parse?`: the values written as plain numerals, where `inf`, `infinity` and `nan` may be
  spelled in any case, a leading plus sign is allowed and digits may be missing on one side of the
  point.
-/

namespace LinkedSearch.Number

/-- A decimal literal: its digits without the point, how many of them stand after the point, and
the written exponent. -/
structure Literal where
  negative : Bool
  digits : List Char
  places : Nat
  exponent : Int
  deriving DecidableEq, Repr

/-- The number a run of decimal digits spells. -/
def ofDigits (digits : List Char) : Nat :=
  digits.foldl (fun n c => 10 * n + (c.toNat - '0'.toNat)) 0

@[simp] theorem ofDigits_nil : ofDigits [] = 0 := rfl

namespace Literal

/-- **Rounding of a literal**. Beyond four hundred decimal places no format here has a value other
than zero or infinity, so such literals are decided without computing the power of ten. -/
def toBinary (format : Format) (literal : Literal) : Binary :=
  let coefficient := ofDigits literal.digits
  let exponent := literal.exponent - literal.places
  if coefficient = 0 then .finite (.zero literal.negative)
  else
    let magnitude := exponent + digitCount coefficient
    if 400 < magnitude then .infinite literal.negative
    else if magnitude < -400 then .finite (.zero literal.negative)
    else
      format.round literal.negative (coefficient * Nat.pow 10 exponent.toNat)
        (Nat.pow 10 (-exponent).toNat)

end Literal

/-- A run of digits at the front of a text, and the rest. -/
def takeDigits (text : List Char) : List Char × List Char := text.span Char.isDigit

/-- The exponent part `e`, optional sign, digits; `none` when an `e` is not followed by digits. -/
def takeExponent? : List Char → Option (Int × List Char)
  | c :: rest =>
    if c = 'e' ∨ c = 'E' then
      let (negative, rest) := match rest with
        | '-' :: rest => (true, rest)
        | '+' :: rest => (false, rest)
        | rest => (false, rest)
      let (digits, rest) := takeDigits rest
      if digits.isEmpty then none
      else
        let magnitude : Int := ofDigits digits
        some (if negative then -magnitude else magnitude, rest)
    else some (0, c :: rest)
  | [] => some (0, [])

/-- An unsigned numeral that fills the text: digits on at least one side of the point. -/
def numeral? (negative : Bool) (text : List Char) : Option Literal := do
  let (whole, rest) := takeDigits text
  let (fraction, rest) := match rest with
    | '.' :: rest => takeDigits rest
    | rest => ([], rest)
  if whole.isEmpty && fraction.isEmpty then failure
  let (exponent, rest) ← takeExponent? rest
  if rest.isEmpty then
    some ⟨negative, whole ++ fraction, fraction.length, exponent⟩
  else none

/-- **Plain numerals**: an optional sign before a numeral or one of the three names of a value
that is not finite. -/
def Binary.parse? (format : Format) (text : String) : Option Binary :=
  let (negative, body) := match text.toList with
    | '-' :: rest => (true, rest)
    | '+' :: rest => (false, rest)
    | rest => (false, rest)
  match (String.ofList (body.map Char.toLower)) with
  | "inf" | "infinity" => some (.infinite negative)
  | "nan" => some .nan
  | _ => (numeral? negative body).map (Literal.toBinary format)

end LinkedSearch.Number
