import LinkedSearch.Proofs.Rounding
import LinkedSearch.Proofs.SortKeys

/-! # Integers in comparisons

Two numbers are compared as 64-bit binary numbers, integers too. An integer of more than 53 bits is rounded for that,
so integers that are rounded to the same number are equal to each other in a comparison, while the keys of a scan keep
them apart. The order of two integers is never reversed, and it is exact if one of them has at most 53 bits.

* `Format.nearest`: the integer that a format represents in place of another one.
* `Binary.ofInt_eq_nearest`: it is what an integer is rounded to.
* `Json.compare?_int`: the comparison of two integers.
* `ToldApart`: the integers of which comparisons are exact.
* `IntegerCondition.holds_fragment_iff`: what terms and ranges ask of a field with integers.
* `integer_comparison`: when comparisons of integers are exact. -/

namespace LinkedSearch

open Number (Binary Finite Format roundQuotient)

/-! ## Rounding of integers -/

namespace Number

variable {num num' den : Nat}

theorem div_le_roundQuotient (num den : Nat) : num / den ≤ roundQuotient num den := by
  unfold roundQuotient
  dsimp only
  split_ifs <;> omega

theorem roundQuotient_le_succ (num den : Nat) : roundQuotient num den ≤ num / den + 1 := by
  unfold roundQuotient
  dsimp only
  split_ifs <;> omega

/-- Greater quotients are not rounded to less. -/
theorem roundQuotient_mono (h : num ≤ num') (den : Nat) : roundQuotient num den ≤ roundQuotient num' den := by
  have hquotient : num / den ≤ num' / den := Nat.div_le_div_right h
  rcases hquotient.lt_or_eq with hlt | heq
  · have hup := roundQuotient_le_succ num den
    have hdown := div_le_roundQuotient num' den
    omega
  · -- with the same whole part, the greater remainder is rounded up as soon as the lesser one is
    have hremainder : num % den ≤ num' % den := by
      have hnum := Nat.div_add_mod num den
      have hnum' := Nat.div_add_mod num' den
      rw [← heq] at hnum'
      omega
    unfold roundQuotient
    dsimp only
    rw [← heq]
    split_ifs <;> omega

namespace Format

variable (format : Format)

/-- The number of bits of a natural number for which a format has no place. -/
def excess (n : Nat) : Nat := n.log2 + 1 - format.precision

/-- The natural number that a format represents in place of another one: the bits in excess are rounded off, an exact
half to the even neighbour. -/
def nearestNat (n : Nat) : Nat := roundQuotient n (2 ^ format.excess n) * 2 ^ format.excess n

/-- **The nearest integer** that a format represents, which has the same sign. -/
def nearest (n : Int) : Int := n.sign * format.nearestNat n.natAbs

variable {format}

/-- Nothing is rounded off a number that is a multiple of the unit of its last place. -/
theorem nearestNat_of_dvd {n : Nat} (h : 2 ^ format.excess n ∣ n) : format.nearestNat n = n := by
  rw [nearestNat, roundQuotient_of_dvd (Nat.two_pow_pos _) h, Nat.div_mul_cancel h]

@[simp] theorem nearestNat_zero : format.nearestNat 0 = 0 := nearestNat_of_dvd (dvd_zero _)

/-- Numbers within the precision are represented. -/
theorem nearestNat_of_lt {n : Nat} (h : n < 2 ^ format.precision) : format.nearestNat n = n := by
  by_cases hn : n = 0
  · rw [hn, nearestNat_zero]
  · have hexcess : format.excess n = 0 := by
      have hlog := (Nat.log2_lt hn).mpr h
      unfold excess
      omega
    apply nearestNat_of_dvd
    rw [hexcess]
    exact one_dvd n

section

variable (hprecise : 0 < format.precision)
include hprecise

/-- Rounding does not lose the highest bit, which is not in excess. -/
theorem two_pow_log2_le_nearestNat {n : Nat} (hn : n ≠ 0) : 2 ^ n.log2 ≤ format.nearestNat n := by
  have hexcess : format.excess n ≤ n.log2 := by
    unfold excess
    omega
  have hquotient : 2 ^ (n.log2 - format.excess n) ≤ n / 2 ^ format.excess n := by
    rw [Nat.le_div_iff_mul_le (Nat.two_pow_pos _), ← pow_add, Nat.sub_add_cancel hexcess]
    exact Nat.log2_self_le hn
  calc 2 ^ n.log2 = 2 ^ (n.log2 - format.excess n) * 2 ^ format.excess n := by
        rw [← pow_add, Nat.sub_add_cancel hexcess]
    _ ≤ format.nearestNat n :=
        Nat.mul_le_mul_right _ (hquotient.trans (div_le_roundQuotient n _))

omit hprecise in
/-- A carry at most reaches the next power of two. -/
theorem nearestNat_le_two_pow (n : Nat) : format.nearestNat n ≤ 2 ^ (n.log2 + 1) := by
  have hexcess : format.excess n ≤ n.log2 + 1 := Nat.sub_le _ _
  have hquotient : n / 2 ^ format.excess n < 2 ^ (n.log2 + 1 - format.excess n) := by
    rw [Nat.div_lt_iff_lt_mul (Nat.two_pow_pos _), ← pow_add, Nat.sub_add_cancel hexcess]
    exact Nat.lt_log2_self
  calc format.nearestNat n ≤ 2 ^ (n.log2 + 1 - format.excess n) * 2 ^ format.excess n :=
        Nat.mul_le_mul_right _ ((roundQuotient_le_succ n _).trans hquotient)
    _ = 2 ^ (n.log2 + 1) := by rw [← pow_add, Nat.sub_add_cancel hexcess]

/-- Greater numbers are not rounded to less. -/
theorem nearestNat_mono {n m : Nat} (h : n ≤ m) : format.nearestNat n ≤ format.nearestNat m := by
  by_cases hn : n = 0
  · rw [hn, nearestNat_zero]
    exact Nat.zero_le _
  have hm : m ≠ 0 := by omega
  have hlog : n.log2 ≤ m.log2 := (Nat.le_log2 hm).mpr ((Nat.log2_self_le hn).trans h)
  rcases hlog.lt_or_eq with hlt | heq
  · -- a power of two lies between the two, and between what they are rounded to
    calc format.nearestNat n ≤ 2 ^ (n.log2 + 1) := nearestNat_le_two_pow n
      _ ≤ 2 ^ m.log2 := Nat.pow_le_pow_right two_pos hlt
      _ ≤ format.nearestNat m := two_pow_log2_le_nearestNat hprecise hm
  · have hsame : format.excess n = format.excess m := by rw [excess, excess, heq]
    rw [nearestNat, nearestNat, hsame]
    exact Nat.mul_le_mul_right _ (roundQuotient_mono h _)

end

/-! ## Rounding of integers -/

theorem nearest_natCast (n : Nat) : format.nearest n = format.nearestNat n := by
  rcases Nat.eq_zero_or_pos n with rfl | hpos
  · simp [nearest]
  · have hsign : (n : Int).sign = 1 := Int.sign_eq_one_of_pos (by omega)
    rw [nearest, hsign, one_mul, Int.natAbs_natCast]

/-- Rounding is the same on both sides of zero. -/
theorem nearest_neg (n : Int) : format.nearest (-n) = -format.nearest n := by
  rw [nearest, nearest, Int.sign_neg, Int.natAbs_neg, neg_mul]

theorem nearest_of_natAbs_lt {n : Int} (h : n.natAbs < 2 ^ format.precision) : format.nearest n = n := by
  rw [nearest, nearestNat_of_lt h]
  exact Int.sign_mul_natAbs n

theorem natAbs_nearest (n : Int) : (format.nearest n).natAbs = format.nearestNat n.natAbs := by
  rcases Int.natAbs_eq n with h | h
  · rw [h, nearest_natCast, Int.natAbs_natCast, Int.natAbs_natCast]
  · rw [h, nearest_neg, nearest_natCast, Int.natAbs_neg, Int.natAbs_neg, Int.natAbs_natCast, Int.natAbs_natCast]

/-- **Rounding keeps the order** of integers, though not that they differ. -/
theorem nearest_mono (hprecise : 0 < format.precision) {n m : Int} (h : n ≤ m) :
    format.nearest n ≤ format.nearest m := by
  rcases Int.eq_nat_or_neg n with ⟨k, rfl | rfl⟩ <;> rcases Int.eq_nat_or_neg m with ⟨l, rfl | rfl⟩
  · have hmono := nearestNat_mono hprecise (by omega : k ≤ l)
    rw [nearest_natCast, nearest_natCast]
    omega
  · -- only zero is both
    obtain ⟨rfl, rfl⟩ : k = 0 ∧ l = 0 := by omega
    rfl
  · rw [nearest_neg, nearest_natCast, nearest_natCast]
    omega
  · have hmono := nearestNat_mono hprecise (by omega : l ≤ k)
    rw [nearest_neg, nearest_neg, nearest_natCast, nearest_natCast]
    omega

/-- A number within the precision is told apart from all others. -/
theorem nearest_ne_of_lt (hprecise : 0 < format.precision) {n m : Int} (hne : n ≠ m)
    (h : n.natAbs < 2 ^ format.precision) : format.nearest n ≠ format.nearest m := by
  intro heq
  by_cases hm : m.natAbs < 2 ^ format.precision
  · rw [nearest_of_natAbs_lt h, nearest_of_natAbs_lt hm] at heq
    exact hne heq
  · -- the other number is beyond the precision, and so is what it is rounded to
    have hm0 : m.natAbs ≠ 0 := by
      have hpos := Nat.two_pow_pos format.precision
      omega
    have hlog : format.precision ≤ m.natAbs.log2 := (Nat.le_log2 hm0).mpr (by omega)
    have hlarge : 2 ^ format.precision ≤ n.natAbs :=
      calc 2 ^ format.precision ≤ 2 ^ m.natAbs.log2 := Nat.pow_le_pow_right two_pos hlog
        _ ≤ format.nearestNat m.natAbs := two_pow_log2_le_nearestNat hprecise hm0
        _ = n.natAbs := by rw [← natAbs_nearest, ← heq, nearest_of_natAbs_lt h]
    omega

end Format

/-! ## The comparison of numbers -/

theorem floorLog2_one {n : Nat} (h : n ≠ 0) : floorLog2 n 1 = n.log2 := by
  have hguess : (n.log2 : Int) - Nat.log2 1 = n.log2 := by
    have hone : Nat.log2 1 = 0 := rfl
    omega
  unfold floorLog2
  dsimp only
  rw [hguess, Int.toNat_natCast, Int.toNat_eq_zero.mpr (by omega), Nat.shiftLeft_zero, Nat.one_shiftLeft,
    if_pos (Nat.log2_self_le h)]

/-- **An integer is rounded to the nearest one**: its bits in excess are no more than the greatest exponent. -/
theorem Binary.ofInt_eq_nearest {format : Format} (hprecise : 0 < format.precision)
    (hleast : format.leastExponent ≤ 0) {n : Int}
    (hgreatest : (format.excess n.natAbs : Int) < format.greatestExponent) :
    ∃ x, ofInt format n = .finite x ∧ x.value.toRat = (format.nearest n : ℚ) := by
  by_cases hn : n = 0
  · subst hn
    exact ⟨.zero false, Format.round_zero format false 1, by simp [Format.nearest]⟩
  have habs : n.natAbs ≠ 0 := Int.natAbs_ne_zero.mpr hn
  have hsigned : ((if n < 0 then -(n.natAbs : Int) else n.natAbs) : Int) = n := by
    split <;> omega
  -- an integer that fits the precision is represented; any other one is rounded once
  by_cases hexcess : format.excess n.natAbs = 0
  · have hsmall : n.natAbs < 2 ^ format.precision := by
      apply (Nat.log2_lt habs).mp
      unfold Format.excess at hexcess
      omega
    obtain ⟨d, hround, hvalue⟩ := Format.round_of_represents (decide (n < 0)) (Nat.pos_of_ne_zero habs) one_pos
      (by simp : ((n.natAbs : ℚ) / (1 : Nat)) = n.natAbs * 2 ^ (0 : Int)) hsmall hleast (by omega)
    refine ⟨.dyadic d, hround, ?_⟩
    rw [Finite.value_dyadic, hvalue, Format.nearest_of_natAbs_lt hsmall]
    conv_rhs => rw [← hsigned]
    by_cases hneg : n < 0 <;> simp [hneg]
  · -- the unit of the last place is the least that is not in excess
    have hunit : format.unitExponent n.natAbs 1 = (format.excess n.natAbs : Int) := by
      rw [Format.unitExponent, floorLog2_one habs]
      unfold Format.excess at hexcess ⊢
      omega
    have hsignificand : roundQuotient n.natAbs (2 ^ format.excess n.natAbs) ≠ 0 := by
      intro hzero
      have hpow := Format.two_pow_log2_le_nearestNat hprecise habs
      rw [Format.nearestNat, hzero, zero_mul] at hpow
      exact absurd hpow (not_le.mpr (Nat.two_pow_pos _))
    have hround : ofInt format n = .finite (.dyadic (.ofIntWithPrec
        (if decide (n < 0) then -(roundQuotient n.natAbs (2 ^ format.excess n.natAbs) : Int)
          else roundQuotient n.natAbs (2 ^ format.excess n.natAbs)) (-(format.excess n.natAbs : Int)))) := by
      rw [ofInt, Format.round, if_neg habs]
      dsimp only
      rw [hunit, Int.toNat_natCast, Int.toNat_eq_zero.mpr (by omega), Nat.shiftLeft_zero, Nat.one_shiftLeft,
        if_neg hsignificand, if_neg (by omega)]
    refine ⟨_, hround, ?_⟩
    rw [Finite.value_dyadic, Dyadic.toRat_ofIntWithPrec_eq_mul_two_pow, neg_neg, zpow_natCast, Format.nearest,
      Format.nearestNat]
    rcases lt_or_gt_of_ne hn with hneg | hpos
    · simp [hneg, Int.sign_eq_neg_one_of_neg hneg]
    · simp [hpos.le, Int.sign_eq_one_of_pos hpos]

/-- Numbers whose values are integers are ordered like these. -/
theorem Finite.compare_of_toRat {x y : Finite} {n m : Int} (hx : x.value.toRat = n) (hy : y.value.toRat = m) :
    x.compare y = Ord.compare n m := by
  have hlt : x.value.blt y.value = decide (n < m) := by
    rw [Bool.eq_iff_iff, Dyadic.blt_iff_toRat, hx, hy, decide_eq_true_iff, Int.cast_lt]
  have hgt : y.value.blt x.value = decide (m < n) := by
    rw [Bool.eq_iff_iff, Dyadic.blt_iff_toRat, hx, hy, decide_eq_true_iff, Int.cast_lt]
  rw [compare, hlt, hgt]
  rcases lt_trichotomy n m with h | rfl | h
  · simp [h, compare_lt_iff_lt.mpr h]
  · simp
  · simp [h, h.le, compare_gt_iff_gt.mpr h]

end Number

/-! ## Integers of documents -/

/-- What an integer is compared as. -/
abbrev rounded (n : Int) : Int := Format.double.nearest n

/-- **Two integers that are told apart** by comparisons if they differ. -/
def ToldApart (n m : Int) : Prop := n = m ∨ rounded n ≠ rounded m

/-- The integers that a document can have: those of 64 bits, with or without a sign. -/
def Fits64 (n : Int) : Prop := -2 ^ 63 ≤ n ∧ n < 2 ^ 64

instance (n : Int) : Decidable (Fits64 n) := inferInstanceAs (Decidable (_ ∧ _))

/-- If one of two integers has at most 53 bits, they are told apart. -/
theorem ToldApart.of_lt {n m : Int} (h : n.natAbs < 2 ^ 53 ∨ m.natAbs < 2 ^ 53) : ToldApart n m := by
  by_cases heq : n = m
  · exact .inl heq
  · rcases h with h | h
    · exact .inr (Format.nearest_ne_of_lt (by decide) heq h)
    · exact .inr (Format.nearest_ne_of_lt (by decide) (Ne.symm heq) h).symm

/-- Rounding never reverses the order of two integers: at worst it makes them equal. -/
theorem ToldApart.compare_rounded {n m : Int} (h : ToldApart n m) :
    compare (rounded n) (rounded m) = compare n m := by
  rcases h with rfl | h
  · simp
  have hmono {k l : Int} (hle : k ≤ l) : rounded k ≤ rounded l := Format.nearest_mono (by decide) hle
  rcases lt_trichotomy n m with hlt | rfl | hgt
  · rw [compare_lt_iff_lt.mpr hlt, compare_lt_iff_lt]
    exact lt_of_le_of_ne (hmono hlt.le) h
  · exact absurd rfl h
  · rw [compare_gt_iff_gt.mpr hgt, compare_gt_iff_gt]
    exact lt_of_le_of_ne (hmono hgt.le) h.symm

/-- **Exact comparisons** are those of integers that are told apart. -/
theorem toldApart_iff {n m : Int} : ToldApart n m ↔ compare (rounded n) (rounded m) = compare n m := by
  constructor
  · exact ToldApart.compare_rounded
  · intro h
    by_cases heq : rounded n = rounded m
    · rw [heq, compare_eq_iff_eq.mpr rfl] at h
      exact .inl (compare_eq_iff_eq.mp h.symm)
    · exact .inr heq

/-- The format has a place for every integer of 64 bits, once it is rounded. -/
theorem Fits64.ofInt {n : Int} (h : Fits64 n) :
    ∃ x, Binary.ofInt .double n = .finite x ∧ x.value.toRat = rounded n := by
  have hexcess : (Format.double.excess n.natAbs : Int) < Format.double.greatestExponent := by
    obtain ⟨hlower, hupper⟩ := h
    have habs : n.natAbs < 2 ^ 64 := by omega
    by_cases hn : n.natAbs = 0
    · rw [hn]
      decide
    · have hlog := (Nat.log2_lt hn).mpr habs
      simp only [Format.excess, Format.double]
      omega
  exact Binary.ofInt_eq_nearest (by decide) (by decide) hexcess

namespace Json

/-- **Two integers** are compared as what they are rounded to. -/
theorem compare?_int {n m : Int} (hn : Fits64 n) (hm : Fits64 m) :
    (int n).compare? (int m) = some (compare (rounded n) (rounded m)) := by
  obtain ⟨x, hx, hxvalue⟩ := hn.ofInt
  obtain ⟨y, hy, hyvalue⟩ := hm.ofInt
  have hnumbers : numbers? (int n) (int m) = some (Binary.finite x, Binary.finite y) := by
    simp [numbers?, isNumber, number?, readNumber?, hx, hy]
  rw [compare?, if_neg (by simp), hnumbers]
  exact congrArg some (Finite.compare_of_toRat hxvalue hyvalue)

end Json

/-! ## Conditions on integers -/

/-- A condition on a field with integers. -/
inductive IntegerCondition where
  | term (m : Int)
  | terms (ms : List Int) (least : Option Nat)
  | range (above atLeast below atMost : Option Int)

namespace IntegerCondition

/-- The integers of a condition. -/
def integers : IntegerCondition → List Int
  | term m => [m]
  | terms ms _ => ms
  | range above atLeast below atMost =>
    above.toList ++ atLeast.toList ++ below.toList ++ atMost.toList

/-- The fragment that stands for a condition. -/
def fragment (field : String) (boost : Boost) : IntegerCondition → Fragment
  | term m => .term field (.int m) boost
  | terms ms least => .terms field (ms.map .int) least boost
  | range above atLeast below atMost =>
    .range field ⟨above.map .int, atLeast.map .int, below.map .int, atMost.map .int⟩ boost

/-- **What a condition asks** of the integers in a field, each of them seen as another one. -/
def Holds (view : Int → Int) (found : List Int) : IntegerCondition → Prop
  | term m => ∃ n ∈ found, view n = view m
  | terms ms least =>
    let count := ms.countP fun m => decide (∃ n ∈ found, view n = view m)
    0 < count ∧ least.getD 1 ≤ count
  | range above atLeast below atMost => ∃ n ∈ found,
    (∀ m ∈ above, view m < view n) ∧ (∀ m ∈ atLeast, view m ≤ view n) ∧
      (∀ m ∈ below, view n < view m) ∧ ∀ m ∈ atMost, view n ≤ view m

variable {document : Json} {field : String} {found : List Int}

theorem hasTerm_int {n m : Int} (hn : Fits64 n) (hm : Fits64 m) :
    (Json.int n).hasTerm (.int m) = decide (rounded n = rounded m) := by
  rw [Bool.eq_iff_iff]
  simp [Json.hasTerm, Json.compare?_int hn hm]

/-- A bound of a range, if there is one. -/
theorem accepts_int {n : Int} (hn : Fits64 n) {bound : Option Int} (hbound : ∀ m ∈ bound, Fits64 m)
    (accept : Ordering → Bool) : Bounds.accepts (.int n) (bound.map .int) accept = true ↔
      ∀ m ∈ bound, accept (compare (rounded n) (rounded m)) = true := by
  cases bound with
  | none => simp [Bounds.accepts]
  | some m => simp [Bounds.accepts, Json.compare?_int hn (hbound m rfl)]

section

variable (hfound : ∀ n ∈ found, Fits64 n) (hvalues : Document.values document field = found.map .int)
include hfound hvalues

theorem any_hasTerm_int {m : Int} (hm : Fits64 m) :
    (Document.values document field).any (·.hasTerm (.int m)) =
      decide (∃ n ∈ found, rounded n = rounded m) := by
  rw [hvalues, Bool.eq_iff_iff, List.any_map, List.any_eq_true, decide_eq_true_iff]
  constructor
  · rintro ⟨n, hn, h⟩
    rw [Function.comp_apply, hasTerm_int (hfound n hn) hm, decide_eq_true_iff] at h
    exact ⟨n, hn, h⟩
  · rintro ⟨n, hn, h⟩
    refine ⟨n, hn, ?_⟩
    rw [Function.comp_apply, hasTerm_int (hfound n hn) hm, decide_eq_true_iff]
    exact h

/-- **Conditions** ask of the integers in a field what they ask of the rounded ones. -/
theorem holds_fragment_iff {condition : IntegerCondition} (boost : Boost)
    (hintegers : ∀ m ∈ condition.integers, Fits64 m) :
    (condition.fragment field boost).holds document = true ↔ condition.Holds rounded found := by
  cases condition with
  | term m =>
    rw [fragment, Fragment.holds, any_hasTerm_int hfound hvalues (hintegers m List.mem_cons_self)]
    exact decide_eq_true_iff
  | terms ms least =>
    have hcount : (ms.map Json.int).countP (fun term => (Document.values document field).any (·.hasTerm term)) =
        ms.countP fun m => decide (∃ n ∈ found, rounded n = rounded m) := by
      rw [List.countP_map]
      apply List.countP_congr
      intro m hm
      rw [Function.comp_apply, any_hasTerm_int hfound hvalues (hintegers m hm)]
    rw [fragment, Fragment.holds, hcount]
    simp only [Holds, Bool.and_eq_true, decide_eq_true_iff]
  | range above atLeast below atMost =>
    have habove : ∀ m ∈ above, Fits64 m := fun m hm => hintegers m (by simp [integers, Option.mem_def.mp hm])
    have hatLeast : ∀ m ∈ atLeast, Fits64 m := fun m hm => hintegers m (by simp [integers, Option.mem_def.mp hm])
    have hbelow : ∀ m ∈ below, Fits64 m := fun m hm => hintegers m (by simp [integers, Option.mem_def.mp hm])
    have hatMost : ∀ m ∈ atMost, Fits64 m := fun m hm => hintegers m (by simp [integers, Option.mem_def.mp hm])
    rw [fragment, Fragment.holds, hvalues, List.any_map, List.any_eq_true, Holds]
    refine exists_congr fun n => and_congr_right fun hn => ?_
    have hfits := hfound n hn
    rw [Function.comp_apply, Bounds.contains, Bool.and_eq_true, Bool.and_eq_true, Bool.and_eq_true,
      accepts_int hfits habove, accepts_int hfits hatLeast, accepts_int hfits hbelow, accepts_int hfits hatMost,
      and_assoc, and_assoc]
    simp only [Ordering.isGT_iff_eq_gt, Ordering.isLT_iff_eq_lt, compare_gt_iff_gt, compare_lt_iff_lt,
      Std.isGE_compare, Std.isLE_compare]

end

/-- A condition depends on the order of the integers in the field and those of its own only. -/
theorem holds_congr {view view' : Int → Int} {condition : IntegerCondition}
    (h : ∀ n ∈ found, ∀ m ∈ condition.integers, compare (view n) (view m) = compare (view' n) (view' m)) :
    condition.Holds view found ↔ condition.Holds view' found := by
  -- equality and order are both read off from comparisons
  have heq : ∀ n ∈ found, ∀ m ∈ condition.integers, view n = view m ↔ view' n = view' m := by
    intro n hn m hm
    rw [← compare_eq_iff_eq, h n hn m hm, compare_eq_iff_eq]
  cases condition with
  | term m =>
    exact exists_congr fun n => and_congr_right fun hn => heq n hn m List.mem_cons_self
  | terms ms least =>
    have hcount : ms.countP (fun m => decide (∃ n ∈ found, view n = view m)) =
        ms.countP fun m => decide (∃ n ∈ found, view' n = view' m) := by
      apply List.countP_congr
      intro m hm
      rw [decide_eq_true_iff, decide_eq_true_iff]
      exact exists_congr fun n => and_congr_right fun hn => heq n hn m hm
    simp only [Holds, hcount]
  | range above atLeast below atMost =>
    have hlt : ∀ n ∈ found, ∀ m ∈ below, view n < view m ↔ view' n < view' m := by
      intro n hn m hm
      rw [← compare_lt_iff_lt, h n hn m (by simp [integers, Option.mem_def.mp hm]), compare_lt_iff_lt]
    have hgt : ∀ n ∈ found, ∀ m ∈ above, view m < view n ↔ view' m < view' n := by
      intro n hn m hm
      rw [← compare_gt_iff_gt, h n hn m (by simp [integers, Option.mem_def.mp hm]), compare_gt_iff_gt]
    have hle : ∀ n ∈ found, ∀ m ∈ atMost, view n ≤ view m ↔ view' n ≤ view' m := by
      intro n hn m hm
      rw [← Std.isLE_compare, h n hn m (by simp [integers, Option.mem_def.mp hm]), Std.isLE_compare]
    have hge : ∀ n ∈ found, ∀ m ∈ atLeast, view m ≤ view n ↔ view' m ≤ view' n := by
      intro n hn m hm
      rw [← Std.isGE_compare, h n hn m (by simp [integers, Option.mem_def.mp hm]), Std.isGE_compare]
    refine exists_congr fun n => and_congr_right fun hn => ?_
    refine and_congr ?_ (and_congr ?_ (and_congr ?_ ?_))
    · exact forall₂_congr (hgt n hn)
    · exact forall₂_congr (hge n hn)
    · exact forall₂_congr (hlt n hn)
    · exact forall₂_congr (hle n hn)

end IntegerCondition

/-! ## When comparisons are exact -/

/-- **Integers in comparisons.** Two integers of 64 bits are compared as the two that they are rounded to. This is
their order, and the order of their keys in a scan, if and only if they are told apart, as they are if one of them has
at most 53 bits. A condition on a field with integers holds if it holds of the rounded ones, and says what it seems to
if the integers of the field and those of the condition are told apart. -/
theorem integer_comparison {n m : Int} (hn : Fits64 n) (hm : Fits64 m) :
    (Json.int n).compare? (.int m) = some (compare (rounded n) (rounded m)) ∧
    ((Json.int n).compare? (.int m) = some (compare n m) ↔ ToldApart n m) ∧
    ((Json.int n).compare? (.int m) = some ((SortKey.int n).compare (.int m)) ↔ ToldApart n m) ∧
    (n.natAbs < 2 ^ 53 ∨ m.natAbs < 2 ^ 53 → ToldApart n m) ∧
    ∀ (condition : IntegerCondition) (document : Json) (field : String) (found : List Int) (boost : Boost),
      (∀ m ∈ condition.integers, Fits64 m) → (∀ n ∈ found, Fits64 n) →
      Document.values document field = found.map .int →
      ((condition.fragment field boost).holds document = true ↔ condition.Holds rounded found) ∧
      ((∀ n ∈ found, ∀ m ∈ condition.integers, ToldApart n m) →
        ((condition.fragment field boost).holds document = true ↔ condition.Holds id found)) := by
  have hcompare := Json.compare?_int hn hm
  have hexact : (Json.int n).compare? (.int m) = some (compare n m) ↔ ToldApart n m := by
    rw [hcompare, Option.some_inj, toldApart_iff]
  refine ⟨hcompare, hexact, hexact, ToldApart.of_lt, ?_⟩
  intro condition document field found boost hintegers hfound hvalues
  have hrounded := IntegerCondition.holds_fragment_iff hfound hvalues boost hintegers
  refine ⟨hrounded, fun hapart => ?_⟩
  rw [hrounded]
  apply IntegerCondition.holds_congr
  intro n hn m hm
  exact (hapart n hn m hm).compare_rounded

/-- Identifiers below and beyond 53 bits, in a range. -/
theorem integer_comparison_identifiers :
    let document := Json.obj [("id", .arr [.int 7, .int (2 ^ 53 + 2)])]
    let condition := IntegerCondition.range none (some (2 ^ 53)) none none
    Fits64 (2 ^ 53) ∧ Fits64 (2 ^ 53 + 2) ∧ (Json.int (2 ^ 53)).compare? (.int (2 ^ 53 + 2)) = some .lt ∧
      ((condition.fragment "id" none).holds document = true ↔ condition.Holds id [7, 2 ^ 53 + 2]) := by
  intro document condition
  have hn : Fits64 (2 ^ 53) := by decide
  have hm : Fits64 (2 ^ 53 + 2) := by decide
  obtain ⟨-, hexact, -, -, hfragments⟩ := integer_comparison hn hm
  refine ⟨hn, hm, ?_, ?_⟩
  · apply hexact.mpr
    right
    decide +kernel
  · apply (hfragments condition document "id" [7, 2 ^ 53 + 2] none (by decide +kernel) (by decide +kernel) rfl).2
    intro n hn m hm
    simp only [List.mem_cons, List.not_mem_nil, or_false] at hn
    rcases hn with rfl | rfl
    · exact .of_lt (.inl (by decide))
    · obtain rfl : m = 2 ^ 53 := List.mem_singleton.mp hm
      right
      decide +kernel

/-- **The first integers that are not told apart**: the greater one is rounded to the other, so that a term for it
matches the other, of which a scan keeps a key of its own. -/
theorem not_integer_comparison_identifiers :
    let document := Json.obj [("id", .int (2 ^ 53))]
    (Json.int (2 ^ 53)).compare? (.int (2 ^ 53 + 1)) = some .eq ∧
      (SortKey.int (2 ^ 53)).compare (.int (2 ^ 53 + 1)) = .lt ∧
      (Fragment.term "id" (.int (2 ^ 53 + 1)) none).holds document = true := by
  have hcompare : (Json.int (2 ^ 53)).compare? (.int (2 ^ 53 + 1)) = some .eq := by
    rw [Json.compare?_int (by decide) (by decide)]
    decide +kernel
  have hvalues : Document.values (.obj [("id", .int (2 ^ 53))]) "id" = [2 ^ 53].map Json.int := rfl
  have hholds : ((IntegerCondition.term (2 ^ 53 + 1)).fragment "id" none).holds _ = true ↔
      (IntegerCondition.term (2 ^ 53 + 1)).Holds rounded [2 ^ 53] :=
    IntegerCondition.holds_fragment_iff (by decide) hvalues none (by decide)
  refine ⟨hcompare, by decide, hholds.mpr ⟨2 ^ 53, List.mem_singleton_self _, ?_⟩⟩
  decide +kernel

end LinkedSearch
