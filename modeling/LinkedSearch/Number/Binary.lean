/-!
# Binary floating-point values

A binary number is a dyadic rational, a negative zero, an infinity or a not-a-number. It does not
remember the format it was computed in: the dyadic in it is in lowest terms, so a value of a narrow
format *is* the same value of a wider one, and widening changes nothing. A `Format` only says how
the exact result of an operation is rounded; every operation rounds once, to the nearest value,
ties going to the even significand.

* `Format.round`: the value of a format nearest to an exact quotient.
* `Binary.mul`, `Binary.convert`: exact result, then one rounding.
* `Binary.compare?`: the order of the values; negative zero equals zero, not-a-number is unordered.
-/

namespace LinkedSearch.Number

/-- A binary interchange format: significands have at most `precision` bits, and the unit in the
last place lies between `2 ^ leastExponent` and `2 ^ greatestExponent`. -/
structure Format where
  precision : Nat
  leastExponent : Int
  greatestExponent : Int
  deriving DecidableEq, Repr

/-- The 64-bit interchange format. -/
def Format.double : Format := ⟨53, -1074, 971⟩

/-- The 32-bit interchange format. -/
def Format.single : Format := ⟨24, -149, 104⟩

/-- A finite binary number; zero has two signs. -/
inductive Finite where
  | negZero
  | dyadic (value : Dyadic)
  deriving DecidableEq

namespace Finite

/-- The rational value; both zeros have value zero. -/
def value : Finite → Dyadic
  | negZero => 0
  | dyadic d => d

/-- The sign bit, set for the negative zero too. -/
def isNegative : Finite → Bool
  | negZero => true
  | dyadic d => d.blt 0

@[simp] theorem value_negZero : negZero.value = 0 := rfl
@[simp] theorem value_dyadic (d : Dyadic) : (dyadic d).value = d := rfl
@[simp] theorem isNegative_negZero : negZero.isNegative = true := rfl

/-- Zero with the given sign. -/
def zero (negative : Bool) : Finite := if negative then negZero else dyadic 0

@[simp] theorem value_zero (negative : Bool) : (zero negative).value = 0 := by
  cases negative <;> rfl

/-- The order of two finite numbers is the order of their values. -/
def compare (x y : Finite) : Ordering :=
  if x.value.blt y.value then .lt else if y.value.blt x.value then .gt else .eq

/-- Equal values are equal numbers, whatever the sign of a zero. -/
def same (x y : Finite) : Bool := x.value == y.value

@[simp] theorem same_self (x : Finite) : x.same x = true := by simp [same]

end Finite

/-- A binary number, finite or not. -/
inductive Binary where
  | nan
  | infinite (negative : Bool)
  | finite (number : Finite)
  deriving DecidableEq

/-- The integer nearest to `num / den`, an exact half going to the even neighbour. -/
def roundQuotient (num den : Nat) : Nat :=
  let quotient := num / den
  let remainder := num % den
  if 2 * remainder < den then quotient
  else if den < 2 * remainder then quotient + 1
  else if quotient % 2 = 0 then quotient else quotient + 1

/-- An exact quotient is not rounded. -/
theorem roundQuotient_of_dvd {num den : Nat} (positive : 0 < den) (divides : den ∣ num) :
    roundQuotient num den = num / den := by
  simp [roundQuotient, Nat.mod_eq_zero_of_dvd divides, positive]

/-- The exponent of the highest bit of the positive quotient `num / den`. -/
def floorLog2 (num den : Nat) : Int :=
  -- from the leading bits alone, which may be one too much
  let guess : Int := (num.log2 : Int) - den.log2
  if den <<< guess.toNat ≤ num <<< (-guess).toNat then guess else guess - 1

namespace Format

/-- The exponent of the unit in the last place at the positive quotient `num / den`. -/
def unitExponent (format : Format) (num den : Nat) : Int :=
  max format.leastExponent (floorLog2 num den + 1 - format.precision)

/-- **Rounding**: the value of the format nearest to `num / den` with the given sign. A quotient
that rounds past the largest value is infinite, one that rounds to nothing is a signed zero. -/
def round (format : Format) (negative : Bool) (num den : Nat) : Binary :=
  if num = 0 then .finite (.zero negative)
  else
    -- the unit in the last place is that of the exact quotient, also where rounding carries
    let unit := format.unitExponent num den
    let significand := roundQuotient (num <<< (-unit).toNat) (den <<< unit.toNat)
    if significand = 0 then .finite (.zero negative)
    else if format.greatestExponent < unit
        ∨ unit = format.greatestExponent ∧ 1 <<< format.precision ≤ significand then
      .infinite negative
    else
      let signed : Int := if negative then -significand else significand
      .finite (.dyadic (.ofIntWithPrec signed (-unit)))

@[simp] theorem round_zero (format : Format) (negative : Bool) (den : Nat) :
    format.round negative 0 den = .finite (.zero negative) := by
  simp [round]

end Format

/-- The numerator and the denominator of the absolute value of a dyadic rational. -/
def absQuotient : Dyadic → Nat × Nat
  | .zero => (0, 1)
  | .ofOdd n k _ => (n.natAbs <<< (-k).toNat, 1 <<< k.toNat)

namespace Binary

/-- The value of the format nearest to an integer. -/
def ofInt (format : Format) (n : Int) : Binary :=
  format.round (decide (n < 0)) n.natAbs 1

/-- The value of the format nearest to a finite number. -/
def ofFinite (format : Format) (x : Finite) : Binary :=
  let (num, den) := absQuotient x.value
  format.round x.isNegative num den

/-- **Conversion** to a format: infinities and not-a-number stay what they are. -/
def convert (format : Format) : Binary → Binary
  | nan => nan
  | infinite negative => infinite negative
  | finite x => ofFinite format x

/-- The finite number one. -/
def one : Binary := .finite (.dyadic 1)

/-- Whether the value is zero, of either sign. -/
def isZero : Binary → Bool
  | finite x => x.value == 0
  | _ => false

/-- The sign bit. -/
def isNegative : Binary → Bool
  | nan => false
  | infinite negative => negative
  | finite x => x.isNegative

/-- **Product**: the exact product rounded once; zero times an infinity is not a number. -/
def mul (format : Format) (x y : Binary) : Binary :=
  match x, y with
  | nan, _ | _, nan => nan
  | finite a, finite b =>
    let (num, den) := absQuotient (a.value * b.value)
    format.round (a.isNegative != b.isNegative) num den
  | x, y => if x.isZero || y.isZero then nan else infinite (x.isNegative != y.isNegative)

/-- **Order** of two values; there is none when one of them is not a number. -/
def compare? (x y : Binary) : Option Ordering :=
  match x, y with
  | nan, _ | _, nan => none
  | finite a, finite b => some (a.compare b)
  | infinite a, infinite b =>
    some (if a = b then .eq else if a then .lt else .gt)
  | infinite a, finite _ => some (if a then .lt else .gt)
  | finite _, infinite b => some (if b then .gt else .lt)

@[simp] theorem compare?_nan_left (y : Binary) : compare? nan y = none := by cases y <;> rfl
@[simp] theorem compare?_nan_right (x : Binary) : compare? x nan = none := by cases x <;> rfl
@[simp] theorem compare?_finite (a b : Finite) :
    compare? (finite a) (finite b) = some (a.compare b) := rfl

end Binary

end LinkedSearch.Number
