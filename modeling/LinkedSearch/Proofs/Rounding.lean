import LinkedSearch.Number.Binary
import Mathlib.Algebra.Order.Field.Basic
import Mathlib.Algebra.Order.Field.Power
import Mathlib.Data.Rat.Cast.Order
import Mathlib.Tactic.Linarith
import Mathlib.Tactic.Ring

/-!
# Rounding is idempotent

A format represents the numbers with a significand below two to its precision and a unit between its
bounds. Rounding gives only represented numbers, and gives a represented number back; so a value
that has been rounded is not changed when it is rounded to the same format again.

* `Format.Represents`: the finite values of a format.
* `Format.represents_of_round`: what rounding gives is represented.
* `Format.round_of_represents`: a represented number is rounded to itself.
* `Binary.convert_convert`: conversion is idempotent.
-/

namespace LinkedSearch.Number

/-! ## Shifted quotients -/

/-- Shifting the numerator or the denominator scales a quotient by a power of two. -/
theorem shifted_quotient (num den : Nat) (unit : Int) :
    ((num <<< (-unit).toNat : Nat) : ℚ) / ((den <<< unit.toNat : Nat) : ℚ) =
      num / den * 2 ^ (-unit) := by
  have scale : (2 : ℚ) ^ (-unit).toNat / 2 ^ unit.toNat = 2 ^ (-unit) := by
    rw [← zpow_natCast, ← zpow_natCast, ← zpow_sub₀ two_ne_zero]
    congr 1
    omega
  rw [Nat.shiftLeft_eq, Nat.shiftLeft_eq, Nat.cast_mul, Nat.cast_mul, mul_div_mul_comm,
    Nat.cast_pow, Nat.cast_pow, Nat.cast_ofNat, scale]

theorem shiftLeft_pos {n : Nat} (h : 0 < n) (shift : Nat) : 0 < n <<< shift := by
  rw [Nat.shiftLeft_eq]
  exact Nat.mul_pos h (Nat.two_pow_pos shift)

/-- An exact quotient is rounded to itself. -/
theorem roundQuotient_of_eq {num den value : Nat} (positive : 0 < den)
    (h : (num : ℚ) / den = value) : roundQuotient num den = value := by
  have nonzero : (den : ℚ) ≠ 0 := Nat.cast_ne_zero.mpr positive.ne'
  have exact_num : num = den * value := by
    rw [div_eq_iff nonzero, mul_comm] at h
    exact_mod_cast h
  rw [roundQuotient_of_dvd positive ⟨value, exact_num⟩, exact_num, Nat.mul_div_cancel_left _ positive]

/-- A quotient below a natural number is not rounded past it. -/
theorem roundQuotient_le {num den bound : Nat} (positive : 0 < den)
    (h : (num : ℚ) / den < bound) : roundQuotient num den ≤ bound := by
  have quotient_lt : num / den < bound := by
    rw [div_lt_iff₀ (Nat.cast_pos.mpr positive)] at h
    exact (Nat.div_lt_iff_lt_mul positive).mpr (by exact_mod_cast h)
  unfold roundQuotient
  dsimp only
  split
  · exact quotient_lt.le
  · split
    · exact quotient_lt
    · split
      · exact quotient_lt.le
      · exact quotient_lt

/-! ## The highest bit of a quotient -/

section

variable {num den : Nat}

theorem two_zpow_log2_le (h : 0 < num) : (2 : ℚ) ^ (num.log2 : Int) ≤ num := by
  rw [zpow_natCast]
  exact_mod_cast Nat.log2_self_le h.ne'

theorem lt_two_zpow_log2 (num : Nat) : (num : ℚ) < 2 ^ (num.log2 + 1 : Int) := by
  have below := Nat.lt_log2_self (n := num)
  rw [← Nat.cast_succ, zpow_natCast]
  exact_mod_cast below

/-- The test of the guess: whether the quotient reaches the power of two. -/
theorem shiftLeft_le_iff (positive : 0 < den) (guess : Int) :
    den <<< guess.toNat ≤ num <<< (-guess).toNat ↔ (2 : ℚ) ^ guess ≤ num / den := by
  have shifted : (0 : ℚ) < (den <<< guess.toNat : Nat) :=
    Nat.cast_pos.mpr (shiftLeft_pos positive _)
  rw [← Nat.cast_le (α := ℚ), ← one_le_div shifted, shifted_quotient, zpow_neg,
    ← div_eq_mul_inv, one_le_div (zpow_pos two_pos _)]

/-- **The highest bit**: a positive quotient lies between two powers of two. -/
theorem floorLog2_spec (num_pos : 0 < num) (den_pos : 0 < den) :
    (2 : ℚ) ^ floorLog2 num den ≤ num / den ∧ (num : ℚ) / den < 2 ^ (floorLog2 num den + 1) := by
  have den_cast : (0 : ℚ) < den := Nat.cast_pos.mpr den_pos
  have lower : (2 : ℚ) ^ ((num.log2 : Int) - den.log2 - 1) ≤ num / den := by
    rw [le_div_iff₀ den_cast]
    calc (2 : ℚ) ^ ((num.log2 : Int) - den.log2 - 1) * den
        ≤ 2 ^ ((num.log2 : Int) - den.log2 - 1) * 2 ^ (den.log2 + 1 : Int) :=
          mul_le_mul_of_nonneg_left (lt_two_zpow_log2 den).le (zpow_nonneg zero_le_two _)
      _ = 2 ^ (num.log2 : Int) := by rw [← zpow_add₀ two_ne_zero]; congr 1; omega
      _ ≤ num := two_zpow_log2_le num_pos
  have upper : (num : ℚ) / den < 2 ^ ((num.log2 : Int) - den.log2 + 1) := by
    rw [div_lt_iff₀ den_cast]
    calc (num : ℚ) < 2 ^ (num.log2 + 1 : Int) := lt_two_zpow_log2 num
      _ = 2 ^ ((num.log2 : Int) - den.log2 + 1) * 2 ^ (den.log2 : Int) := by
          rw [← zpow_add₀ two_ne_zero]; congr 1; omega
      _ ≤ 2 ^ ((num.log2 : Int) - den.log2 + 1) * den :=
          mul_le_mul_of_nonneg_left (two_zpow_log2_le den_pos) (zpow_nonneg zero_le_two _)
  unfold floorLog2
  dsimp only
  split
  · next reached => exact ⟨(shiftLeft_le_iff den_pos _).mp reached, upper⟩
  · next missed =>
    rw [shiftLeft_le_iff den_pos, not_le] at missed
    exact ⟨lower, by rwa [sub_add_cancel]⟩

end

namespace Format

variable {format : Format}

/-- **The finite values of a format**: a significand within the precision, times a power of two
between the bounds of the unit. -/
def Represents (format : Format) (x : Dyadic) : Prop :=
  ∃ (significand : Nat) (unit : Int), |x.toRat| = significand * 2 ^ unit ∧
    significand < 2 ^ format.precision ∧
    format.leastExponent ≤ unit ∧ unit ≤ format.greatestExponent

/-- The unit of the rounding is at most the one a number is represented with, so nothing is cut off. -/
theorem unitExponent_le {num den significand : Nat} {unit : Int} (num_pos : 0 < num)
    (den_pos : 0 < den) (value : (num : ℚ) / den = significand * 2 ^ unit)
    (small : significand < 2 ^ format.precision) (least : format.leastExponent ≤ unit) :
    format.unitExponent num den ≤ unit := by
  have highest : (2 : ℚ) ^ floorLog2 num den < 2 ^ (format.precision + unit : Int) := by
    have unit_pos : (0 : ℚ) < 2 ^ unit := zpow_pos two_pos _
    calc (2 : ℚ) ^ floorLog2 num den ≤ num / den := (floorLog2_spec num_pos den_pos).1
      _ = significand * 2 ^ unit := value
      _ < 2 ^ format.precision * 2 ^ unit := by gcongr; exact_mod_cast small
      _ = 2 ^ (format.precision + unit : Int) := by rw [zpow_add₀ two_ne_zero, zpow_natCast]
  have exponents := (zpow_lt_zpow_iff_right₀ one_lt_two).mp highest
  rw [unitExponent]
  omega

/-- **A represented number is rounded to itself**, with the sign that is asked for. -/
theorem round_of_represents {num den significand : Nat} {unit : Int} (negative : Bool)
    (num_pos : 0 < num) (den_pos : 0 < den) (value : (num : ℚ) / den = significand * 2 ^ unit)
    (small : significand < 2 ^ format.precision) (least : format.leastExponent ≤ unit)
    (greatest : unit ≤ format.greatestExponent) :
    ∃ d, format.round negative num den = .finite (.dyadic d) ∧
      d.toRat = if negative then -((num : ℚ) / den) else num / den := by
  have unit'_le := unitExponent_le num_pos den_pos value small least
  obtain ⟨unit', unit'_eq⟩ : ∃ unit', format.unitExponent num den = unit' := ⟨_, rfl⟩
  rw [unit'_eq] at unit'_le
  obtain ⟨excess, rfl⟩ := Int.le.dest unit'_le
  have exact_quotient : ((num <<< (-unit').toNat : Nat) : ℚ) / ((den <<< unit'.toNat : Nat) : ℚ) =
      (significand * 2 ^ excess : Nat) := by
    rw [shifted_quotient, value, mul_assoc, ← zpow_add₀ two_ne_zero, Nat.cast_mul, Nat.cast_pow,
      Nat.cast_ofNat, ← zpow_natCast]
    congr 2
    omega
  have rounded := roundQuotient_of_eq (shiftLeft_pos den_pos _) exact_quotient
  have significand_ne : significand * 2 ^ excess ≠ 0 := by
    have quotient_pos : (0 : ℚ) < num / den :=
      div_pos (Nat.cast_pos.mpr num_pos) (Nat.cast_pos.mpr den_pos)
    intro zero
    have none_left : significand = 0 := by simpa using zero
    rw [value, none_left] at quotient_pos
    simp at quotient_pos
  -- With the greatest unit there is no excess, and the significand is the given one.
  have finite : ¬(format.greatestExponent < unit' ∨
      unit' = format.greatestExponent ∧ 1 <<< format.precision ≤ significand * 2 ^ excess) := by
    rintro (beyond | ⟨same, beyond⟩)
    · omega
    · obtain rfl : excess = 0 := by omega
      rw [Nat.one_shiftLeft, pow_zero, mul_one] at beyond
      exact absurd small (not_lt.mpr beyond)
  rw [round, if_neg num_pos.ne']
  dsimp only
  rw [unit'_eq, rounded, if_neg significand_ne, if_neg finite]
  refine ⟨_, rfl, ?_⟩
  rw [Dyadic.toRat_ofIntWithPrec_eq_mul_two_pow, neg_neg, value]
  cases negative <;> simp [zpow_add₀] <;> ring

/-- A rounded significand is within the precision, or carries into the bit above. -/
theorem roundQuotient_le_precision (format : Format) {num den : Nat} {unit : Int} (num_pos : 0 < num)
    (den_pos : 0 < den) (high : floorLog2 num den + 1 - format.precision ≤ unit) :
    roundQuotient (num <<< (-unit).toNat) (den <<< unit.toNat) ≤ 2 ^ format.precision := by
  refine roundQuotient_le (shiftLeft_pos den_pos _) ?_
  rw [shifted_quotient, Nat.cast_pow, Nat.cast_ofNat]
  calc (num : ℚ) / den * 2 ^ (-unit)
      < 2 ^ (floorLog2 num den + 1) * 2 ^ (-unit) := by
        gcongr
        exact (floorLog2_spec num_pos den_pos).2
    _ = 2 ^ (floorLog2 num den + 1 - unit) := by rw [← zpow_add₀ two_ne_zero]; rfl
    _ ≤ 2 ^ (format.precision : Int) := zpow_le_zpow_right₀ one_le_two (by omega)
    _ = 2 ^ format.precision := zpow_natCast ..

/-- **What rounding gives is represented**, in a format with at least one bit and one unit. -/
theorem represents_of_round {num den : Nat} {negative : Bool} {x : Finite}
    (precise : 0 < format.precision) (proper : format.leastExponent ≤ format.greatestExponent)
    (den_pos : 0 < den) (h : format.round negative num den = .finite x) :
    format.Represents x.value := by
  have zero : format.Represents (Finite.zero negative).value :=
    ⟨0, format.leastExponent, by simp, Nat.two_pow_pos _, le_refl _, proper⟩
  rw [round] at h
  split at h
  · cases h; exact zero
  next num_ne =>
  dsimp only at h
  split at h
  · cases h; exact zero
  split at h
  · cases h
  next significand_ne finite =>
  cases h
  have unit_low : format.leastExponent ≤ format.unitExponent num den := le_max_left ..
  have bounded := roundQuotient_le_precision format (Nat.pos_of_ne_zero num_ne) den_pos
    (le_max_right format.leastExponent _)
  rw [← unitExponent] at bounded
  generalize format.unitExponent num den = unit at *
  generalize roundQuotient (num <<< (-unit).toNat) (den <<< unit.toNat) = significand at *
  have magnitude (n : Int) (h : n.natAbs = significand) :
      |(Dyadic.ofIntWithPrec n (-unit)).toRat| = significand * 2 ^ unit := by
    have unit_pos : (0 : ℚ) < 2 ^ unit := zpow_pos two_pos _
    rw [Dyadic.toRat_ofIntWithPrec_eq_mul_two_pow, neg_neg, abs_mul, abs_of_pos unit_pos, ← h,
      Nat.cast_natAbs, Int.cast_abs]
  have value := magnitude (if negative then -significand else significand)
    (by cases negative <;> simp)
  rcases bounded.lt_or_eq with small | carry
  · exact ⟨significand, unit, value, small, unit_low, by omega⟩
  · -- A carry out of the significand leaves a power of two, which the next unit represents.
    have below : unit < format.greatestExponent := by
      rw [Nat.one_shiftLeft] at finite
      omega
    refine ⟨2 ^ (format.precision - 1), unit + 1, ?_, ?_, by omega, by omega⟩
    · obtain ⟨n, n_eq⟩ := Nat.exists_eq_add_of_lt precise
      rw [Finite.value_dyadic, value, carry, zpow_add₀ two_ne_zero, n_eq]
      simp [pow_succ]
      ring
    · exact Nat.pow_lt_pow_right one_lt_two (by omega)

end Format

/-- The quotient of a dyadic rational is its absolute value. -/
theorem absQuotient_spec (d : Dyadic) :
    0 < (absQuotient d).2 ∧ ((absQuotient d).1 : ℚ) / (absQuotient d).2 = |d.toRat| := by
  cases d with
  | zero => exact ⟨one_pos, by simp [absQuotient]⟩
  | ofOdd n k odd =>
    refine ⟨shiftLeft_pos one_pos _, ?_⟩
    have shifted := shifted_quotient n.natAbs 1 k
    have unit_pos : (0 : ℚ) < 2 ^ (-k) := zpow_pos two_pos _
    rw [Nat.cast_one, div_one] at shifted
    rw [absQuotient, shifted, Dyadic.toRat_ofOdd_eq_mul_two_pow, abs_mul, abs_of_pos unit_pos,
      Nat.cast_natAbs, Int.cast_abs]

namespace Binary

variable {format : Format}

/-- A represented number is its own nearest value. -/
theorem ofFinite_of_represents {x : Finite} (h : format.Represents x.value) :
    ofFinite format x = .finite x := by
  cases x with
  | negZero => exact Format.round_zero format true 1
  | dyadic d =>
    obtain ⟨den_pos, quotient⟩ := absQuotient_spec d
    obtain ⟨significand, unit, value, small, least, greatest⟩ := h
    rcases Nat.eq_zero_or_pos (absQuotient d).1 with num_zero | num_pos
    · rw [num_zero, Nat.cast_zero, zero_div, eq_comm, abs_eq_zero,
        Dyadic.toRat_eq_zero_iff] at quotient
      subst quotient
      exact Format.round_zero format false 1
    · rw [Finite.value_dyadic, ← quotient] at value
      obtain ⟨d', rounded, d'_eq⟩ := Format.round_of_represents (Finite.isNegative (.dyadic d))
        num_pos den_pos value small least greatest
      have same : d' = d := by
        rw [← Dyadic.toRat_inj, d'_eq, quotient]
        by_cases negative : d.toRat < 0
        · rw [Finite.isNegative, if_pos (Dyadic.blt_iff_toRat.mpr negative), abs_of_neg negative,
            neg_neg]
        · rw [Finite.isNegative, if_neg (mt Dyadic.blt_iff_toRat.mp negative),
            abs_of_nonneg (not_lt.mp negative)]
      exact same ▸ rounded

section

variable (precise : 0 < format.precision)
  (proper : format.leastExponent ≤ format.greatestExponent)
include precise proper

theorem convert_ofFinite (x : Finite) :
    (ofFinite format x).convert format = ofFinite format x := by
  cases h : ofFinite format x with
  | nan | infinite => rfl
  | finite y =>
    exact ofFinite_of_represents
      (Format.represents_of_round precise proper (absQuotient_spec x.value).1 h)

theorem convert_ofInt (n : Int) : (ofInt format n).convert format = ofInt format n := by
  cases h : ofInt format n with
  | nan | infinite => rfl
  | finite y => exact ofFinite_of_represents (Format.represents_of_round precise proper one_pos h)

/-- **Conversion is idempotent.** -/
theorem convert_convert (b : Binary) : (b.convert format).convert format = b.convert format := by
  cases b with
  | nan | infinite => rfl
  | finite x => exact convert_ofFinite precise proper x

end

end Binary

end LinkedSearch.Number
