import Mongo.BSONTypes
import Mongo.LexOrder

/-! The numeric comparisons of `base/compare_numbers.h`. Each returns `-1`, `0` or `1`; the
lemmas show that, for ints, longs and doubles, the result is the order of the exact values
in `ExtNum` (NaN below every number), across the conversions the mixed comparisons make. -/

namespace Mongo

/-- The functions of the Intel BID library that the `NumberDecimal` comparisons call:
`isNaN`, `isLess`, `isGreater`, the constructors from `int` and `int64_t`, and
`toDouble(&flags, kRoundTowardNegative)` with its `kInexact` flag. -/
structure Decimal128Lib where
  isNaN : Decimal128 → Bool
  isLess : Decimal128 → Decimal128 → Bool
  isGreater : Decimal128 → Decimal128 → Bool
  ofInt : Int32 → Decimal128
  ofLong : Int64 → Decimal128
  toDoubleRoundTowardNegative : Decimal128 → Binary64 × Bool

/-- An `Ordering` as the `-1`, `0`, `1` that the comparison functions return. -/
def ordToInt : Ordering → Int
  | .lt => -1
  | .eq => 0
  | .gt => 1

/-- The sign of a comparison result, as an `Ordering`. -/
def ordOfInt (x : Int) : Ordering := compare x 0

def compareInts (lhs rhs : Int32) : Int := if lhs = rhs then 0 else if lhs < rhs then -1 else 1

def compareLongs (lhs rhs : Int64) : Int := if lhs = rhs then 0 else if lhs < rhs then -1 else 1

def compareDoubles (lhs rhs : Binary64) : Int :=
  if lhs.eq rhs then 0
  else if lhs.lt rhs then -1
  else if rhs.lt lhs then 1
  -- one side is NaN
  else if lhs.isNaN then (if rhs.isNaN then 0 else -1)
  else 1

/-- `kEndOfPreciseDoubles`: longs of at most this magnitude are exact as doubles. -/
def kEndOfPreciseDoubles : Int64 := (1 : Int64) <<< 53

/-- `kBoundOfLongRange = -static_cast<double>(LLONG_MIN)`, that is `2 ^ 63`. -/
def kBoundOfLongRange : Binary64 := (Binary64.ofInt64 Int64.minValue).neg

def compareLongToDouble (lhs : Int64) (rhs : Binary64) : Int :=
  if rhs.isNaN then 1
  else if lhs ≤ kEndOfPreciseDoubles ∧ -kEndOfPreciseDoubles ≤ lhs then
    compareDoubles (Binary64.ofInt64 lhs) rhs
  else if rhs.ge kBoundOfLongRange then -1
  else if rhs.lt kBoundOfLongRange.neg then 1
  else compareLongs lhs (Int64.ofInt rhs.truncToInt)

def compareDoubleToLong (lhs : Binary64) (rhs : Int64) : Int := -compareLongToDouble rhs lhs

section Decimal

variable (lib : Decimal128Lib)

def compareDecimals (lhs rhs : Decimal128) : Int :=
  if lib.isGreater lhs rhs then 1
  else if lib.isLess lhs rhs then -1
  else if lib.isNaN lhs then (if lib.isNaN rhs then 0 else -1)
  else if lib.isNaN rhs then 1
  else 0

def compareDecimalToInt (lhs : Decimal128) (rhs : Int32) : Int :=
  compareDecimals lib lhs (lib.ofInt rhs)

def compareIntToDecimal (lhs : Int32) (rhs : Decimal128) : Int := -compareDecimalToInt lib rhs lhs

def compareDecimalToLong (lhs : Decimal128) (rhs : Int64) : Int :=
  compareDecimals lib lhs (lib.ofLong rhs)

def compareLongToDecimal (lhs : Int64) (rhs : Decimal128) : Int :=
  -compareDecimalToLong lib rhs lhs

/-- The trailing `invariant(std::isnan(rhs))` holds when the library is correct; the model
returns what follows it. -/
def compareDecimalToDouble (lhs : Decimal128) (rhs : Binary64) : Int :=
  let (decToDouble, inexact) := lib.toDoubleRoundTowardNegative lhs
  if decToDouble.eq rhs then (if inexact then 1 else 0)
  else if decToDouble.lt rhs then -1
  else if rhs.lt decToDouble then 1
  else if lib.isNaN lhs then (if rhs.isNaN then 0 else -1)
  else 1

def compareDoubleToDecimal (lhs : Binary64) (rhs : Decimal128) : Int :=
  -compareDecimalToDouble lib rhs lhs

end Decimal

/-! ## Exactness -/

@[simp] theorem ordOfInt_neg (x : Int) : ordOfInt (-x) = (ordOfInt x).swap := by
  unfold ordOfInt
  rcases lt_trichotomy x 0 with h | h | h
  · rw [compare_gt_iff_gt.mpr (by omega), compare_lt_iff_lt.mpr h]; rfl
  · subst h; rfl
  · rw [compare_lt_iff_lt.mpr (by omega), compare_gt_iff_gt.mpr h]; rfl

@[simp] theorem ordOfInt_zero : ordOfInt 0 = .eq := rfl

@[simp] theorem ordOfInt_one : ordOfInt 1 = .gt := rfl

@[simp] theorem ordOfInt_neg_one : ordOfInt (-1) = .lt := rfl

/-- A result returned when nonzero, with a second comparison as the fallback. -/
theorem ordOfInt_ite_ne_zero (x y : Int) :
    ordOfInt (if x ≠ 0 then x else y) = (ordOfInt x).then (ordOfInt y) := by
  by_cases hx : x = 0
  · subst hx
    rfl
  · have hne : ordOfInt x ≠ .eq := fun h => hx (compare_eq_iff_eq.mp h)
    rw [if_pos hx, LexOrder.then_of_ne_eq hne]

theorem ordOfInt_sub (x y : Int) : ordOfInt (x - y) = compare x y := by
  unfold ordOfInt
  rcases lt_trichotomy x y with h | rfl | h
  · rw [compare_lt_iff_lt.mpr (by omega), compare_lt_iff_lt.mpr h]
  · rw [sub_self, compare_eq_iff_eq.mpr rfl, compare_eq_iff_eq.mpr rfl]
  · rw [compare_gt_iff_gt.mpr (by omega), compare_gt_iff_gt.mpr h]

section Ite

variable {β : Type*} [LinearOrder β] (x y : β)

/-- The `if a == b ... else if a < b ...` pattern of the integer comparisons. -/
theorem ordOfInt_ite_eq_lt :
    ordOfInt (if x = y then 0 else if x < y then -1 else 1) = compare x y := by
  rcases lt_trichotomy x y with h | rfl | h
  · rw [if_neg h.ne, if_pos h, compare_lt_iff_lt.mpr h]
    rfl
  · simp
  · rw [if_neg h.ne', if_neg (not_lt.mpr h.le), compare_gt_iff_gt.mpr h]
    rfl

/-- The `if a < b ... else if a == b ...` pattern of dates and timestamps. -/
theorem ordOfInt_ite_lt_eq :
    ordOfInt (if x < y then -1 else if x = y then 0 else 1) = compare x y := by
  rcases lt_trichotomy x y with h | rfl | h
  · rw [if_pos h, compare_lt_iff_lt.mpr h]
    rfl
  · simp
  · rw [if_neg (not_lt.mpr h.le), if_neg h.ne', compare_gt_iff_gt.mpr h]
    rfl

end Ite

theorem compare_finite_intCast (x y : Int) :
    compare (ExtNum.finite x) (ExtNum.finite y) = compare x y := by
  rw [ExtNum.compare_finite, LexOrder.compare_strictMono Int.cast_strictMono]

theorem ordOfInt_compareInts (a b : Int32) :
    ordOfInt (compareInts a b) = compare (ExtNum.finite a.toInt) (ExtNum.finite b.toInt) := by
  simp only [compareInts, ← Int32.toInt_inj, Int32.lt_iff_toInt_lt]
  rw [ordOfInt_ite_eq_lt, compare_finite_intCast]

theorem ordOfInt_compareLongs (a b : Int64) :
    ordOfInt (compareLongs a b) = compare (ExtNum.finite a.toInt) (ExtNum.finite b.toInt) := by
  simp only [compareLongs, ← Int64.toInt_inj, Int64.lt_iff_toInt_lt]
  rw [ordOfInt_ite_eq_lt, compare_finite_intCast]

theorem ordOfInt_compareDoubles (a b : Binary64) :
    ordOfInt (compareDoubles a b) = compare a.toExt b.toExt := by
  have hna : a.isNaN = true ↔ a.toExt = .nan := Binary64.isNaN_iff_toExt
  have hnb : b.isNaN = true ↔ b.toExt = .nan := Binary64.isNaN_iff_toExt
  unfold compareDoubles Binary64.eq Binary64.lt
  by_cases ha : a.toExt = .nan <;> by_cases hb : b.toExt = .nan
  · have h1 : a.isNaN = true := hna.mpr ha
    have h2 : b.isNaN = true := hnb.mpr hb
    simp [h1, h2, ha, hb]
  · have h1 : a.isNaN = true := hna.mpr ha
    have h2 : b.isNaN = false := Binary64.isNaN_eq_false_iff.mpr hb
    have : ExtNum.nan < b.toExt := ExtNum.nan_lt_iff.mpr hb
    simp [h1, h2, ha, compare_lt_iff_lt.mpr this]
  · have h1 : a.isNaN = false := Binary64.isNaN_eq_false_iff.mpr ha
    have h2 : b.isNaN = true := hnb.mpr hb
    have : ExtNum.nan < a.toExt := ExtNum.nan_lt_iff.mpr ha
    simp [h1, h2, hb, compare_gt_iff_gt.mpr this]
  · -- neither side is NaN: the three exact comparisons decide
    have h1 : a.isNaN = false := Binary64.isNaN_eq_false_iff.mpr ha
    have h2 : b.isNaN = false := Binary64.isNaN_eq_false_iff.mpr hb
    rcases lt_trichotomy a.toExt b.toExt with h | h | h
    · simp [h1, h2, h, h.ne, compare_lt_iff_lt.mpr h]
    · simp [h1, h2, h]
    · simp [h1, h2, h, h.ne', not_lt_of_gt h, compare_gt_iff_gt.mpr h]

theorem ordOfInt_isLE_iff (c : Int) : (ordOfInt c).isLE ↔ c ≤ 0 := by
  unfold ordOfInt
  rcases lt_trichotomy c 0 with h | rfl | h
  · simp [compare_lt_iff_lt.mpr h, h.le]
  · simp
  · simp [compare_gt_iff_gt.mpr h, not_le.mpr h]

theorem ordOfInt_eq_lt_iff (c : Int) : ordOfInt c = .lt ↔ c < 0 := compare_lt_iff_lt

theorem sign_eq_ordToInt (c : Int) : c.sign = ordToInt (ordOfInt c) := by
  unfold ordOfInt
  rcases lt_trichotomy c 0 with h | rfl | h
  · rw [Int.sign_eq_neg_one_of_neg h, compare_lt_iff_lt.mpr h]
    rfl
  · rfl
  · rw [Int.sign_eq_one_of_pos h, compare_gt_iff_gt.mpr h]
    rfl

/-! ## Results are `-1`, `0` or `1` -/

theorem ordToInt_swap (o : Ordering) : ordToInt o.swap = -ordToInt o := by
  cases o <;> rfl

theorem ordToInt_ordOfInt_neg {x : Int} (h : ordToInt (ordOfInt x) = x) :
    ordToInt (ordOfInt (-x)) = -x := by
  rw [ordOfInt_neg, ordToInt_swap, h]

theorem ordToInt_ordOfInt_compareInts (a b : Int32) :
    ordToInt (ordOfInt (compareInts a b)) = compareInts a b := by
  unfold compareInts
  split_ifs <;> rfl

theorem ordToInt_ordOfInt_compareLongs (a b : Int64) :
    ordToInt (ordOfInt (compareLongs a b)) = compareLongs a b := by
  unfold compareLongs
  split_ifs <;> rfl

theorem ordToInt_ordOfInt_compareDoubles (a b : Binary64) :
    ordToInt (ordOfInt (compareDoubles a b)) = compareDoubles a b := by
  unfold compareDoubles
  split_ifs <;> rfl

theorem ordToInt_ordOfInt_compareLongToDouble (l : Int64) (d : Binary64) :
    ordToInt (ordOfInt (compareLongToDouble l d)) = compareLongToDouble l d := by
  unfold compareLongToDouble
  split_ifs
  · rfl
  · exact ordToInt_ordOfInt_compareDoubles _ _
  · rfl
  · rfl
  · exact ordToInt_ordOfInt_compareLongs _ _

theorem ordToInt_ordOfInt_compareDoubleToLong (d : Binary64) (l : Int64) :
    ordToInt (ordOfInt (compareDoubleToLong d l)) = compareDoubleToLong d l :=
  ordToInt_ordOfInt_neg (ordToInt_ordOfInt_compareLongToDouble l d)

/-! ## Longs against doubles -/

section LongDouble

open Binary64

theorem kEndOfPreciseDoubles_toInt : kEndOfPreciseDoubles.toInt = 2 ^ 53 := by decide

theorem neg_kEndOfPreciseDoubles_toInt : (-kEndOfPreciseDoubles).toInt = -2 ^ 53 := by decide

theorem toExt_kBoundOfLongRange : kBoundOfLongRange.toExt = .finite (2 ^ 63) := by
  have hmin : Int64.minValue.toInt.natAbs = 2 ^ 63 := by decide
  have hneg : decide (Int64.minValue.toInt < 0) = true := by decide
  rw [kBoundOfLongRange, toExt_neg, ofInt64, hmin, hneg, toExt_roundNat_two_pow_63]
  simp

theorem toExt_neg_kBoundOfLongRange : kBoundOfLongRange.neg.toExt = .finite (-2 ^ 63) := by
  rw [toExt_neg, toExt_kBoundOfLongRange]
  simp

theorem kBoundOfLongRange_isNaN : kBoundOfLongRange.isNaN = false :=
  isNaN_eq_false_iff.mpr (by rw [toExt_kBoundOfLongRange]; exact ExtNum.noConfusion)

theorem kBoundOfLongRange_neg_isNaN : kBoundOfLongRange.neg.isNaN = false :=
  isNaN_eq_false_iff.mpr (by rw [toExt_neg_kBoundOfLongRange]; exact ExtNum.noConfusion)

/-- The last branch of `compareLongToDouble`: a long beyond `2 ^ 53` against a finite double
in the range of longs compares as against the double's truncation. -/
theorem ordOfInt_compareLongs_truncToInt (l : Int64) (d : Binary64)
    (hl : (2 : ℚ) ^ 53 < |(l.toInt : ℚ)|) (hv1 : d.value < 2 ^ 63) (hv2 : -2 ^ 63 ≤ d.value) :
    ordOfInt (compareLongs l (Int64.ofInt d.truncToInt)) =
      compare (ExtNum.finite l.toInt) (ExtNum.finite d.value) := by
  -- the truncation stays in the range of a long
  have ht1 : (d.truncToInt : ℚ) < 2 ^ 63 :=
    lt_of_le_of_lt d.truncToInt_le_max (max_lt (by norm_num) hv1)
  have ht2 : (-2 ^ 63 : ℚ) ≤ d.truncToInt :=
    le_trans (le_min (by norm_num) hv2) d.min_le_truncToInt
  have hofInt : (Int64.ofInt d.truncToInt).toInt = d.truncToInt :=
    Int64.toInt_ofInt_of_le (by exact_mod_cast ht2) (by exact_mod_cast ht1)
  rw [ordOfInt_compareLongs, hofInt, ExtNum.compare_finite, ExtNum.compare_finite]
  by_cases hbig : 2 ^ 52 ≤ |d.value|
  · rw [← value_eq_truncToInt d hbig]
  · -- a non-integral `d` is below `2 ^ 52` in magnitude, far from `l`, and so is its truncation
    have h1 : |(d.truncToInt : ℚ)| < |(l.toInt : ℚ)| := by linarith [d.abs_truncToInt_le]
    have h2 : |d.value| < |(l.toInt : ℚ)| := by linarith
    rw [compare_of_abs_lt h1, compare_of_abs_lt h2]

theorem ordOfInt_compareLongToDouble (l : Int64) (d : Binary64) :
    ordOfInt (compareLongToDouble l d) = compare (ExtNum.finite l.toInt) d.toExt := by
  have hlo := Int64.le_toInt l
  have hhi := Int64.toInt_lt l
  unfold compareLongToDouble
  split_ifs with hnan hprec hge hlt
  · -- NaN sorts below every number
    have : d.toExt = .nan := isNaN_iff_toExt.mp hnan
    rw [this, compare_gt_iff_gt.mpr (ExtNum.nan_lt_iff.mpr ExtNum.noConfusion)]
    rfl
  · -- `|l| ≤ 2 ^ 53` converts exactly
    have h1 := Int64.le_iff_toInt_le.mp hprec.1
    have h2 := Int64.le_iff_toInt_le.mp hprec.2
    rw [kEndOfPreciseDoubles_toInt] at h1
    rw [neg_kEndOfPreciseDoubles_toInt] at h2
    rw [ordOfInt_compareDoubles, toExt_ofInt64 l (by omega)]
  all_goals have hdn : d.isNaN = false := by simpa using hnan
  · -- `d ≥ 2 ^ 63` is above every long
    have hd := (ge_iff_toExt hdn kBoundOfLongRange_isNaN).mp hge
    rw [toExt_kBoundOfLongRange] at hd
    have : ExtNum.finite l.toInt < d.toExt :=
      lt_of_lt_of_le (ExtNum.finite_lt_finite.mpr (by exact_mod_cast hhi)) hd
    rw [compare_lt_iff_lt.mpr this]
    rfl
  · -- `d < -2 ^ 63` is below every long
    have hd := (lt_iff_toExt hdn kBoundOfLongRange_neg_isNaN).mp hlt
    rw [toExt_neg_kBoundOfLongRange] at hd
    have : d.toExt < ExtNum.finite l.toInt :=
      lt_of_lt_of_le hd (ExtNum.finite_le_finite.mpr (by exact_mod_cast hlo))
    rw [compare_gt_iff_gt.mpr this]
    rfl
  · -- otherwise `d` is finite in `[-2 ^ 63, 2 ^ 63)` and `|l| > 2 ^ 53`
    have hd1 := not_le.mp (mt (ge_iff_toExt hdn kBoundOfLongRange_isNaN).mpr hge)
    have hd2 := not_lt.mp (mt (lt_iff_toExt hdn kBoundOfLongRange_neg_isNaN).mpr hlt)
    rw [toExt_kBoundOfLongRange] at hd1
    rw [toExt_neg_kBoundOfLongRange] at hd2
    have hfin := toExt_eq_finite_value hd2 hd1.le
    rw [hfin] at hd1 hd2
    have hl : (2 : ℚ) ^ 53 < |(l.toInt : ℚ)| := by
      rw [Int64.le_iff_toInt_le, Int64.le_iff_toInt_le, kEndOfPreciseDoubles_toInt,
        neg_kEndOfPreciseDoubles_toInt] at hprec
      have : (2 : ℤ) ^ 53 < |l.toInt| := by rw [lt_abs]; omega
      exact_mod_cast this
    rw [hfin, ordOfInt_compareLongs_truncToInt l d hl (ExtNum.finite_lt_finite.mp hd1)
      (ExtNum.finite_le_finite.mp hd2)]

theorem ordOfInt_compareDoubleToLong (d : Binary64) (l : Int64) :
    ordOfInt (compareDoubleToLong d l) = compare d.toExt (ExtNum.finite l.toInt) := by
  rw [compareDoubleToLong, ordOfInt_neg, ordOfInt_compareLongToDouble, Std.OrientedOrd.eq_swap,
    Ordering.swap_swap]

end LongDouble

end Mongo
