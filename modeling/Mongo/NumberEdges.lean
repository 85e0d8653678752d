import Mongo.BSONCompare

/-! The comparison of numbers where NaN or an infinity takes part, over every pair of numeric
types. A comparison that involves a `NumberDecimal` calls the Intel BID library, a parameter of
the model. `Decimal128Ops.Sound ops val` is what the lemmas here need of it: its predicates
agree with a valuation `val` of the decimals in `ExtNum`, `toDoubleRoundTowardNegative` rounds
down and reports when it was inexact, and the decimals of integers are numbers. The library
meets it with `val` the value of each decimal. -/

namespace Binary64

/-- `std::numeric_limits<double>::infinity()`. -/
def infinity : Binary64 := ⟨0x7FF0000000000000⟩

/-- `-std::numeric_limits<double>::infinity()`. -/
def negInfinity : Binary64 := ⟨0xFFF0000000000000⟩

/-- `std::numeric_limits<double>::quiet_NaN()`. -/
def quietNaN : Binary64 := ⟨0x7FF8000000000000⟩

theorem toExt_infinity : infinity.toExt = .posInf := by
  simp [toExt, infinity, field, fraction, signBit]

theorem toExt_negInfinity : negInfinity.toExt = .negInf := by
  simp [toExt, negInfinity, field, fraction, signBit]

theorem toExt_quietNaN : quietNaN.toExt = .nan := by
  simp [toExt, quietNaN, field, fraction]

/-- A conversion of an integer below `2 ^ 64` is never NaN: its biased exponent is at most
`64 + 1023`. -/
theorem roundNat_isNaN (s : Bool) (m : Nat) (hm : m < 2 ^ 64) : (roundNat s m).isNaN = false := by
  have hpack : ∀ e f, e < 2047 → f < 2 ^ 52 → (pack s e f).isNaN = false := by
    intro e f he hf
    simp [isNaN, field_pack (show e < 2 ^ 11 by omega) hf]
    omega
  by_cases h0 : m = 0
  · subst h0
    simp [roundNat, isNaN, field_pack, fraction_pack]
  obtain ⟨h1, hlo, hhi⟩ := bitLength_spec 64 m (by omega) hm
  set L := bitLength 64 m with hL
  have hL64 : L ≤ 64 := by
    by_contra hgt
    have : 2 ^ 64 ≤ 2 ^ (L - 1) := Nat.pow_le_pow_right (by norm_num) (by omega)
    omega
  rw [roundNat, if_neg h0]
  dsimp only
  rw [← hL]
  by_cases hle : L ≤ 53
  · -- the significand is `m` shifted left to 53 bits, below `2 ^ 53`
    rw [if_pos hle]
    have htop : 2 ^ L * 2 ^ (53 - L) = 2 ^ 53 := by
      rw [← pow_add]; congr 1; omega
    have hhi' : m * 2 ^ (53 - L) < 2 ^ 53 := by
      rw [← htop]; exact Nat.mul_lt_mul_of_pos_right hhi (by positivity)
    exact hpack _ _ (by omega) (by omega)
  · -- the rounded quotient has 53 bits, or is `2 ^ 53` and moves to the next exponent
    rw [if_neg hle]
    have hq : m / 2 ^ (L - 53) < 2 ^ 53 := by
      rw [Nat.div_lt_iff_lt_mul (by positivity), ← pow_add]
      rwa [show 53 + (L - 53) = L by omega]
    split_ifs <;> exact hpack _ _ (by omega) (by omega)

theorem ofInt64_isNaN (l : Int64) : (ofInt64 l).isNaN = false := by
  have h1 := Int64.le_toInt l
  have h2 := Int64.toInt_lt l
  exact roundNat_isNaN _ _ (by omega)

end Binary64

namespace Mongo

/-- The Intel BID primitives that the query code calls on top of those of the comparisons:
`Decimal128::toDouble`, which rounds to nearest. -/
structure Decimal128Ops extends Decimal128Lib where
  toDouble : Decimal128 → Binary64

/-- What the comparisons of numbers need of the library, for a valuation `val` of the
decimals. -/
structure Decimal128Ops.Sound (ops : Decimal128Ops) (val : Decimal128 → ExtNum) : Prop where
  isNaN_iff : ∀ d, ops.isNaN d = true ↔ val d = .nan
  isLess_iff : ∀ a b, ops.isLess a b = true ↔ val a ≠ .nan ∧ val a < val b
  isGreater_iff : ∀ a b, ops.isGreater a b = true ↔ val b ≠ .nan ∧ val b < val a
  ofInt_ne_nan : ∀ i, val (ops.ofInt i) ≠ .nan
  ofLong_ne_nan : ∀ l, val (ops.ofLong l) ≠ .nan
  roundDown_isNaN : ∀ d, (ops.toDoubleRoundTowardNegative d).1.toExt = .nan ↔ val d = .nan
  roundDown_le : ∀ d, (ops.toDoubleRoundTowardNegative d).1.toExt ≤ val d
  roundDown_inexact : ∀ d, val d ≠ .nan →
    ((ops.toDoubleRoundTowardNegative d).2 = true ↔
      (ops.toDoubleRoundTowardNegative d).1.toExt ≠ val d)
  toDouble_isNaN : ∀ d, (ops.toDouble d).isNaN = true ↔ val d = .nan

namespace BSONValue

/-- `BSONElement::isNumber`. -/
@[simp] def isNumber : BSONValue → Bool
  | numberInt _ | numberLong _ | double _ | numberDecimal _ => true
  | _ => false

/-- `BSONElement::numberDouble`: the value of a number as a double, `0` for the other types. -/
def numberDouble (ops : Decimal128Ops) : BSONValue → Binary64
  | double d => d
  | numberInt i => Binary64.ofInt32 i
  | numberLong l => Binary64.ofInt64 l
  | numberDecimal d => ops.toDouble d
  | _ => ⟨0⟩

/-- The value of a number in `ExtNum`, a decimal's through `val`. -/
@[simp] def numVal (val : Decimal128 → ExtNum) : BSONValue → ExtNum
  | numberInt i => .finite i.toInt
  | numberLong l => .finite l.toInt
  | double d => d.toExt
  | numberDecimal d => val d
  | _ => .nan

theorem isNumber_iff_canonicalType {v : BSONValue} : v.isNumber = true ↔ v.canonicalType = 10 := by
  cases v <;> simp

end BSONValue

open BSONValue

/-- A comparison whose sign is that of `compare p q` is nonnegative when `q ≤ p`. -/
theorem nonneg_of_ordOfInt_eq {β : Type*} [LinearOrder β] {c : Int} {p q : β}
    (h : ordOfInt c = compare p q) (hle : q ≤ p) : 0 ≤ c := by
  by_contra hc
  have hlt : compare p q = .lt := h ▸ (ordOfInt_eq_lt_iff c).mpr (by omega)
  exact absurd (compare_lt_iff_lt.mp hlt) (not_lt.mpr hle)

/-- A comparison whose sign is that of `compare p q` is nonpositive when `p ≤ q`. -/
theorem nonpos_of_ordOfInt_eq {β : Type*} [LinearOrder β] {c : Int} {p q : β}
    (h : ordOfInt c = compare p q) (hle : p ≤ q) : c ≤ 0 := by
  rw [← ordOfInt_isLE_iff, h]
  exact Ordering.isLE_iff_ne_gt.mpr (fun hgt => absurd (compare_gt_iff_gt.mp hgt) (not_lt.mpr hle))

theorem ExtNum.swap_compare (x y : ExtNum) : (compare x y).swap = compare y x :=
  Std.OrientedOrd.eq_swap.symm

section Sound

variable {ops : Decimal128Ops} {val : Decimal128 → ExtNum} (h : ops.Sound val)
include h

theorem Decimal128Ops.Sound.ordOfInt_compareDecimals (a b : Decimal128) :
    ordOfInt (compareDecimals ops.toDecimal128Lib a b) = compare (val a) (val b) := by
  unfold compareDecimals
  by_cases hg : ops.isGreater a b = true
  · rw [if_pos hg, ordOfInt_one, eq_comm, compare_gt_iff_gt]
    exact ((h.isGreater_iff a b).mp hg).2
  rw [if_neg hg]
  by_cases hl : ops.isLess a b = true
  · rw [if_pos hl, ordOfInt_neg_one, eq_comm, compare_lt_iff_lt]
    exact ((h.isLess_iff a b).mp hl).2
  rw [if_neg hl]
  -- neither is below the other: both are NaN, one is, or they are equal
  have hg' : ¬(val b ≠ .nan ∧ val b < val a) := fun h' => hg ((h.isGreater_iff a b).mpr h')
  have hl' : ¬(val a ≠ .nan ∧ val a < val b) := fun h' => hl ((h.isLess_iff a b).mpr h')
  by_cases ha : ops.isNaN a = true
  · rw [if_pos ha, (h.isNaN_iff a).mp ha]
    by_cases hb : ops.isNaN b = true
    · rw [if_pos hb, (h.isNaN_iff b).mp hb]
      rfl
    · rw [if_neg hb, ordOfInt_neg_one, eq_comm, compare_lt_iff_lt, ExtNum.nan_lt_iff]
      exact fun hb' => hb ((h.isNaN_iff b).mpr hb')
  · have ha' : val a ≠ .nan := fun ha' => ha ((h.isNaN_iff a).mpr ha')
    rw [if_neg ha]
    by_cases hb : ops.isNaN b = true
    · rw [if_pos hb, (h.isNaN_iff b).mp hb, ordOfInt_one, eq_comm, compare_gt_iff_gt,
        ExtNum.nan_lt_iff]
      exact ha'
    · have hb' : val b ≠ .nan := fun hb' => hb ((h.isNaN_iff b).mpr hb')
      rw [if_neg hb, ordOfInt_zero, eq_comm, compare_eq_iff_eq]
      exact le_antisymm (not_lt.mp fun h => hg' ⟨hb', h⟩) (not_lt.mp fun h => hl' ⟨ha', h⟩)

theorem Decimal128Ops.Sound.ordOfInt_compareDecimalToInt (a : Decimal128) (i : Int32) :
    ordOfInt (compareDecimalToInt ops.toDecimal128Lib a i) = compare (val a) (val (ops.ofInt i)) :=
  h.ordOfInt_compareDecimals a _

theorem Decimal128Ops.Sound.ordOfInt_compareDecimalToLong (a : Decimal128) (l : Int64) :
    ordOfInt (compareDecimalToLong ops.toDecimal128Lib a l) =
      compare (val a) (val (ops.ofLong l)) :=
  h.ordOfInt_compareDecimals a _

/-- `compareDecimalToDouble` of a NaN decimal: below every double but NaN. -/
theorem Decimal128Ops.Sound.ordOfInt_compareDecimalToDouble_of_nan {a : Decimal128}
    (ha : val a = .nan) (d : Binary64) :
    ordOfInt (compareDecimalToDouble ops.toDecimal128Lib a d) = compare ExtNum.nan d.toExt := by
  have hr := (h.roundDown_isNaN a).mpr ha
  unfold compareDecimalToDouble
  rcases hp : ops.toDoubleRoundTowardNegative a with ⟨r, ix⟩
  rw [hp] at hr
  have hrn : r.isNaN = true := Binary64.isNaN_iff_toExt.mpr hr
  simp only [Binary64.eq, Binary64.lt, hrn, (h.isNaN_iff a).mpr ha]
  by_cases hd : d.isNaN = true
  · simp [hd, Binary64.isNaN_iff_toExt.mp hd]
  · have hd' : d.toExt ≠ .nan := fun h' => hd (Binary64.isNaN_iff_toExt.mpr h')
    simp only [hd, Bool.not_false, Bool.not_true, Bool.false_and, Bool.and_false,
      Bool.false_eq_true, if_false, if_true]
    rw [ordOfInt_neg_one, eq_comm, compare_lt_iff_lt, ExtNum.nan_lt_iff]
    exact hd'

/-- `compareDecimalToDouble` of a number against a NaN double. -/
theorem Decimal128Ops.Sound.compareDecimalToDouble_of_isNaN {a : Decimal128} {d : Binary64}
    (ha : val a ≠ .nan) (hd : d.toExt = .nan) :
    compareDecimalToDouble ops.toDecimal128Lib a d = 1 := by
  have hdn : d.isNaN = true := Binary64.isNaN_iff_toExt.mpr hd
  have han : ops.isNaN a = false := by
    cases hx : ops.isNaN a
    · rfl
    · exact absurd ((h.isNaN_iff a).mp hx) ha
  unfold compareDecimalToDouble
  rcases ops.toDoubleRoundTowardNegative a with ⟨r, ix⟩
  simp [Binary64.eq, Binary64.lt, hdn, han]

/-- `compareDecimalToDouble` is exact against a double at or below the rounded-down decimal. -/
theorem Decimal128Ops.Sound.ordOfInt_compareDecimalToDouble_of_le {a : Decimal128} {d : Binary64}
    (ha : val a ≠ .nan) (hd : d.toExt ≠ .nan)
    (hle : d.toExt ≤ (ops.toDoubleRoundTowardNegative a).1.toExt) :
    ordOfInt (compareDecimalToDouble ops.toDecimal128Lib a d) = compare (val a) d.toExt := by
  have hrle := h.roundDown_le a
  have hix := h.roundDown_inexact a ha
  have hrn : (ops.toDoubleRoundTowardNegative a).1.toExt ≠ .nan := fun h' =>
    ha ((h.roundDown_isNaN a).mp h')
  unfold compareDecimalToDouble
  rcases hp : ops.toDoubleRoundTowardNegative a with ⟨r, ix⟩
  rw [hp] at hrle hix hrn hle
  have hr' : r.isNaN = false := Binary64.isNaN_eq_false_iff.mpr hrn
  have hd' : d.isNaN = false := Binary64.isNaN_eq_false_iff.mpr hd
  dsimp only at hrle hix hrn hle ⊢
  simp only [Binary64.eq, Binary64.lt, hr', hd', Bool.not_false, Bool.true_and, decide_eq_true_eq]
  rcases hle.lt_or_eq with hlt | heq
  · -- `d` is strictly below the rounded value, so below the decimal
    rw [if_neg (ne_of_gt hlt), if_neg (not_lt.mpr hlt.le), if_pos hlt, ordOfInt_one, eq_comm,
      compare_gt_iff_gt]
    exact lt_of_lt_of_le hlt hrle
  · -- `d` is the rounded value: the decimal equals it exactly when the rounding was exact
    rw [if_pos heq.symm]
    cases hx : ix
    · have : r.toExt = val a := by
        by_contra hne
        exact absurd (hix.mpr hne) (by simp [hx])
      rw [if_neg Bool.false_ne_true, ordOfInt_zero, eq_comm, compare_eq_iff_eq, heq]
      exact this.symm
    · have hne : r.toExt ≠ val a := hix.mp hx
      rw [if_pos rfl, ordOfInt_one, eq_comm, compare_gt_iff_gt, heq]
      exact lt_of_le_of_ne hrle hne

/-- `compareDecimalToDouble` against a double above the rounded-down decimal returns `-1`. -/
theorem Decimal128Ops.Sound.compareDecimalToDouble_of_lt {a : Decimal128} {d : Binary64}
    (ha : val a ≠ .nan) (hlt : (ops.toDoubleRoundTowardNegative a).1.toExt < d.toExt) :
    compareDecimalToDouble ops.toDecimal128Lib a d = -1 := by
  have hrn : (ops.toDoubleRoundTowardNegative a).1.toExt ≠ .nan := fun h' =>
    ha ((h.roundDown_isNaN a).mp h')
  unfold compareDecimalToDouble
  rcases hp : ops.toDoubleRoundTowardNegative a with ⟨r, ix⟩
  rw [hp] at hrn hlt
  have hr' : r.isNaN = false := Binary64.isNaN_eq_false_iff.mpr hrn
  have hd' : d.isNaN = false := Binary64.isNaN_eq_false_iff.mpr (ne_of_gt (lt_of_le_of_lt
    (ExtNum.nan_le _) hlt))
  dsimp only at hrn hlt ⊢
  simp only [Binary64.eq, Binary64.lt, hr', hd', Bool.not_false, Bool.true_and, decide_eq_true_eq]
  rw [if_neg (ne_of_lt hlt), if_pos hlt]


/-- A decimal against a double when either is NaN. -/
theorem Decimal128Ops.Sound.ordOfInt_compareDecimalToDouble_of_nan_or {a : Decimal128}
    {d : Binary64} (hnan : val a = .nan ∨ d.toExt = .nan) :
    ordOfInt (compareDecimalToDouble ops.toDecimal128Lib a d) = compare (val a) d.toExt := by
  by_cases ha : val a = .nan
  · rw [h.ordOfInt_compareDecimalToDouble_of_nan ha, ha]
  · have hd := hnan.resolve_left ha
    rw [h.compareDecimalToDouble_of_isNaN ha hd, hd, ordOfInt_one, eq_comm, compare_gt_iff_gt]
    exact ExtNum.nan_lt_iff.mpr ha

theorem isNaN_numberDouble_iff {v : BSONValue} (hv : v.isNumber = true) :
    (v.numberDouble ops).isNaN = true ↔ v.numVal val = .nan := by
  cases v <;> simp only [isNumber, Bool.false_eq_true] at hv
  case double d => exact Binary64.isNaN_iff_toExt
  case numberDecimal d => exact h.toDouble_isNaN d
  case numberInt i =>
    rw [numberDouble, Binary64.isNaN_iff_toExt, Binary64.toExt_ofInt32]
    simp
  case numberLong l =>
    rw [numberDouble, Binary64.ofInt64_isNaN]
    simp

/-- With NaN on either side, numbers compare as their values: NaN is below every number. -/
theorem ordOfInt_compareElements_of_nan {v w : BSONValue} (hv : v.isNumber = true)
    (hw : w.isNumber = true) (hnan : v.numVal val = .nan ∨ w.numVal val = .nan) :
    ordOfInt (compareElements ops.toDecimal128Lib v w) = compare (v.numVal val) (w.numVal val) := by
  -- against an integer's decimal, which is a number, NaN compares as against the integer
  have hnanl : ∀ {x y : ExtNum}, x ≠ .nan → y ≠ .nan → compare ExtNum.nan x = compare .nan y :=
    fun hx hy => by
      rw [compare_lt_iff_lt.mpr (ExtNum.nan_lt_iff.mpr hx),
        compare_lt_iff_lt.mpr (ExtNum.nan_lt_iff.mpr hy)]
  cases v <;> simp only [isNumber, Bool.false_eq_true] at hv <;>
    cases w <;> simp only [isNumber, Bool.false_eq_true] at hw <;>
    simp only [numVal, reduceCtorEq, false_or, or_false] at hnan ⊢
  case numberDecimal.numberDecimal a b => exact h.ordOfInt_compareDecimals a b
  case numberDecimal.double a d => exact h.ordOfInt_compareDecimalToDouble_of_nan_or hnan
  case double.numberDecimal d b =>
    rw [show compareElements ops.toDecimal128Lib (.double d) (.numberDecimal b) =
      -compareDecimalToDouble ops.toDecimal128Lib b d from rfl, ordOfInt_neg,
      h.ordOfInt_compareDecimalToDouble_of_nan_or hnan.symm, ExtNum.swap_compare]
  case numberDecimal.numberInt a i =>
    rw [show compareElements ops.toDecimal128Lib (.numberDecimal a) (.numberInt i) =
      compareDecimalToInt ops.toDecimal128Lib a i from rfl, h.ordOfInt_compareDecimalToInt, hnan]
    exact hnanl (h.ofInt_ne_nan i) (by simp)
  case numberInt.numberDecimal i b =>
    rw [show compareElements ops.toDecimal128Lib (.numberInt i) (.numberDecimal b) =
      -compareDecimalToInt ops.toDecimal128Lib b i from rfl, ordOfInt_neg,
      h.ordOfInt_compareDecimalToInt, hnan,
      hnanl (h.ofInt_ne_nan i) (show ExtNum.finite i.toInt ≠ .nan by simp),
      ExtNum.swap_compare]
  case numberDecimal.numberLong a l =>
    rw [show compareElements ops.toDecimal128Lib (.numberDecimal a) (.numberLong l) =
      compareDecimalToLong ops.toDecimal128Lib a l from rfl, h.ordOfInt_compareDecimalToLong, hnan]
    exact hnanl (h.ofLong_ne_nan l) (by simp)
  case numberLong.numberDecimal l b =>
    rw [show compareElements ops.toDecimal128Lib (.numberLong l) (.numberDecimal b) =
      -compareDecimalToLong ops.toDecimal128Lib b l from rfl, ordOfInt_neg,
      h.ordOfInt_compareDecimalToLong, hnan,
      hnanl (h.ofLong_ne_nan l) (show ExtNum.finite l.toInt ≠ .nan by simp),
      ExtNum.swap_compare]
  -- the pairs without a decimal compare exactly
  all_goals exact ordOfInt_compareElements_of_numberValue _ rfl rfl


/-- A decimal against `-∞` compares exactly: `-∞` is at or below the rounded-down decimal. -/
theorem Decimal128Ops.Sound.ordOfInt_compareDecimalToDouble_negInf (a : Decimal128) {x : Binary64}
    (hx : x.toExt = .negInf) :
    ordOfInt (compareDecimalToDouble ops.toDecimal128Lib a x) = compare (val a) x.toExt := by
  by_cases ha : val a = .nan
  · exact h.ordOfInt_compareDecimalToDouble_of_nan_or (.inl ha)
  · have hr : (ops.toDoubleRoundTowardNegative a).1.toExt ≠ .nan := fun h' =>
      ha ((h.roundDown_isNaN a).mp h')
    refine h.ordOfInt_compareDecimalToDouble_of_le ha (by rw [hx]; exact ExtNum.noConfusion) ?_
    rw [hx]
    exact ExtNum.negInf_le_iff.mpr hr

/-- A decimal that is a number is at most `+∞`. -/
theorem Decimal128Ops.Sound.compareDecimalToDouble_posInf_nonpos {a : Decimal128} {x : Binary64}
    (ha : val a ≠ .nan) (hx : x.toExt = .posInf) :
    compareDecimalToDouble ops.toDecimal128Lib a x ≤ 0 := by
  by_cases hlt : (ops.toDoubleRoundTowardNegative a).1.toExt < x.toExt
  · rw [h.compareDecimalToDouble_of_lt ha hlt]
    omega
  · have hle := h.ordOfInt_compareDecimalToDouble_of_le ha (by rw [hx]; exact ExtNum.noConfusion)
      (le_of_not_gt hlt)
    exact nonpos_of_ordOfInt_eq hle (by rw [hx]; exact ExtNum.le_posInf _)

/-- Numbers against `-∞` on the right compare as their values. -/
theorem ordOfInt_compareElements_negInf_right {v : BSONValue} (hv : v.isNumber = true)
    {x : Binary64} (hx : x.toExt = .negInf) :
    ordOfInt (compareElements ops.toDecimal128Lib v (.double x)) = compare (v.numVal val) x.toExt := by
  cases v <;> simp only [isNumber, Bool.false_eq_true] at hv
  case numberDecimal a => exact h.ordOfInt_compareDecimalToDouble_negInf a hx
  all_goals exact ordOfInt_compareElements_of_numberValue _ rfl rfl

/-- `-∞` on the left against numbers compares as their values. -/
theorem ordOfInt_compareElements_negInf_left {w : BSONValue} (hw : w.isNumber = true)
    {x : Binary64} (hx : x.toExt = .negInf) :
    ordOfInt (compareElements ops.toDecimal128Lib (.double x) w) = compare x.toExt (w.numVal val) := by
  cases w <;> simp only [isNumber, Bool.false_eq_true] at hw
  case numberDecimal b =>
    rw [show compareElements ops.toDecimal128Lib (.double x) (.numberDecimal b) =
      -compareDecimalToDouble ops.toDecimal128Lib b x from rfl, ordOfInt_neg,
      h.ordOfInt_compareDecimalToDouble_negInf b hx, ExtNum.swap_compare]
    rfl
  all_goals exact ordOfInt_compareElements_of_numberValue _ rfl rfl

/-- Every number but NaN is at most `+∞`. -/
theorem compareElements_posInf_right_nonpos {v : BSONValue} (hv : v.isNumber = true)
    (hvn : v.numVal val ≠ .nan) {x : Binary64} (hx : x.toExt = .posInf) :
    compareElements ops.toDecimal128Lib v (.double x) ≤ 0 := by
  cases v <;> simp only [isNumber, Bool.false_eq_true] at hv
  case numberDecimal a => exact h.compareDecimalToDouble_posInf_nonpos hvn hx
  all_goals
    refine nonpos_of_ordOfInt_eq (ordOfInt_compareElements_of_numberValue _ rfl rfl) ?_
    rw [hx]
    exact ExtNum.le_posInf _


/-- A number equal to `-∞` is at or below every number but NaN. -/
theorem compareElements_nonneg_of_negInf_eq {c : BSONValue} (hc : c.isNumber = true)
    {x : Binary64} (hx : x.toExt = .negInf)
    (heq : compareElements ops.toDecimal128Lib (.double x) c = 0) {v : BSONValue}
    (hv : v.isNumber = true) (hvn : v.numVal val ≠ .nan) :
    0 ≤ compareElements ops.toDecimal128Lib v c := by
  -- first `c`'s value is `-∞`
  have hcv : c.numVal val = .negInf := by
    have := ordOfInt_compareElements_negInf_left h hc hx
    rw [heq, ordOfInt_zero, eq_comm, compare_eq_iff_eq, hx] at this
    exact this.symm
  have hge : ExtNum.negInf ≤ v.numVal val := ExtNum.negInf_le_iff.mpr hvn
  cases c <;> simp only [isNumber, Bool.false_eq_true] at hc <;>
    simp only [numVal, reduceCtorEq] at hcv
  case double d =>
    refine nonneg_of_ordOfInt_eq (ordOfInt_compareElements_negInf_right h hv hcv) ?_
    rw [hcv]
    exact hge
  case numberDecimal b =>
    have hbn : val b ≠ .nan := by rw [hcv]; exact ExtNum.noConfusion
    cases v <;> simp only [isNumber, Bool.false_eq_true] at hv <;>
      simp only [numVal] at hvn hge
    case numberDecimal a =>
      refine nonneg_of_ordOfInt_eq (h.ordOfInt_compareDecimals a b) ?_
      rw [hcv]
      exact hge
    case numberInt i =>
      refine nonneg_of_ordOfInt_eq (p := val (ops.ofInt i)) (q := val b) ?_ ?_
      · rw [show compareElements ops.toDecimal128Lib (.numberInt i) (.numberDecimal b) =
          -compareDecimalToInt ops.toDecimal128Lib b i from rfl, ordOfInt_neg,
          h.ordOfInt_compareDecimalToInt, ExtNum.swap_compare]
      · rw [hcv]
        exact ExtNum.negInf_le_iff.mpr (h.ofInt_ne_nan i)
    case numberLong l =>
      refine nonneg_of_ordOfInt_eq (p := val (ops.ofLong l)) (q := val b) ?_ ?_
      · rw [show compareElements ops.toDecimal128Lib (.numberLong l) (.numberDecimal b) =
          -compareDecimalToLong ops.toDecimal128Lib b l from rfl, ordOfInt_neg,
          h.ordOfInt_compareDecimalToLong, ExtNum.swap_compare]
      · rw [hcv]
        exact ExtNum.negInf_le_iff.mpr (h.ofLong_ne_nan l)
    case double d =>
      -- `b` rounds down to `-∞` exactly, at or below `d`
      have hr : (ops.toDoubleRoundTowardNegative b).1.toExt = .negInf := by
        have hle := h.roundDown_le b
        have hrn : (ops.toDoubleRoundTowardNegative b).1.toExt ≠ .nan := fun h' =>
          hbn ((h.roundDown_isNaN b).mp h')
        rw [hcv] at hle
        exact le_antisymm hle (ExtNum.negInf_le_iff.mpr hrn)
      rw [show compareElements ops.toDecimal128Lib (.double d) (.numberDecimal b) =
        -compareDecimalToDouble ops.toDecimal128Lib b d from rfl]
      rcases hge.lt_or_eq with hlt | hd
      · rw [h.compareDecimalToDouble_of_lt hbn (by rw [hr]; exact hlt)]
        omega
      · have := h.ordOfInt_compareDecimalToDouble_of_le hbn hvn (by rw [hr, ← hd])
        rw [hcv, ← hd, compare_eq_iff_eq.mpr rfl, ← ordOfInt_zero] at this
        have hz := compare_eq_iff_eq.mp this
        omega

/-- A number equal to `+∞` is at or above every number but NaN. -/
theorem compareElements_nonpos_of_posInf_eq {c : BSONValue} (hc : c.isNumber = true)
    {x : Binary64} (hx : x.toExt = .posInf)
    (heq : compareElements ops.toDecimal128Lib c (.double x) = 0) {v : BSONValue}
    (hv : v.isNumber = true) (hvn : v.numVal val ≠ .nan) :
    compareElements ops.toDecimal128Lib v c ≤ 0 := by
  have hle : v.numVal val ≤ ExtNum.posInf := ExtNum.le_posInf _
  cases c <;> simp only [isNumber, Bool.false_eq_true] at hc
  case numberDecimal b =>
    -- `b` is `+∞` and rounds down to `+∞` exactly: any other outcome compares nonzero
    have hbn : val b ≠ .nan := fun hb => by
      have := h.ordOfInt_compareDecimalToDouble_of_nan_or (d := x) (.inl hb)
      rw [show compareDecimalToDouble ops.toDecimal128Lib b x =
        compareElements ops.toDecimal128Lib (.numberDecimal b) (.double x) from rfl, heq, hb, hx,
        ordOfInt_zero] at this
      exact absurd this.symm (by decide)
    have hr : x.toExt ≤ (ops.toDoubleRoundTowardNegative b).1.toExt := by
      by_contra hlt
      have := h.compareDecimalToDouble_of_lt hbn (lt_of_not_ge hlt)
      rw [show compareDecimalToDouble ops.toDecimal128Lib b x =
        compareElements ops.toDecimal128Lib (.numberDecimal b) (.double x) from rfl, heq] at this
      omega
    have hbv : val b = .posInf := by
      have := h.ordOfInt_compareDecimalToDouble_of_le hbn (by rw [hx]; exact ExtNum.noConfusion) hr
      rw [show compareDecimalToDouble ops.toDecimal128Lib b x =
        compareElements ops.toDecimal128Lib (.numberDecimal b) (.double x) from rfl, heq, hx,
        ordOfInt_zero, eq_comm, compare_eq_iff_eq] at this
      exact this
    cases v <;> simp only [isNumber, Bool.false_eq_true] at hv <;> simp only [numVal] at hvn hle
    case numberDecimal a =>
      refine nonpos_of_ordOfInt_eq (h.ordOfInt_compareDecimals a b) ?_
      rw [hbv]
      exact hle
    case numberInt i =>
      refine nonpos_of_ordOfInt_eq (p := val (ops.ofInt i)) (q := val b) ?_ ?_
      · rw [show compareElements ops.toDecimal128Lib (.numberInt i) (.numberDecimal b) =
          -compareDecimalToInt ops.toDecimal128Lib b i from rfl, ordOfInt_neg,
          h.ordOfInt_compareDecimalToInt, ExtNum.swap_compare]
      · rw [hbv]
        exact ExtNum.le_posInf _
    case numberLong l =>
      refine nonpos_of_ordOfInt_eq (p := val (ops.ofLong l)) (q := val b) ?_ ?_
      · rw [show compareElements ops.toDecimal128Lib (.numberLong l) (.numberDecimal b) =
          -compareDecimalToLong ops.toDecimal128Lib b l from rfl, ordOfInt_neg,
          h.ordOfInt_compareDecimalToLong, ExtNum.swap_compare]
      · rw [hbv]
        exact ExtNum.le_posInf _
    case double d =>
      have hdr : d.toExt ≤ (ops.toDoubleRoundTowardNegative b).1.toExt := by
        rw [hx] at hr
        exact le_trans (ExtNum.le_posInf _) hr
      refine nonpos_of_ordOfInt_eq (p := d.toExt) (q := val b) ?_ ?_
      · rw [show compareElements ops.toDecimal128Lib (.double d) (.numberDecimal b) =
          -compareDecimalToDouble ops.toDecimal128Lib b d from rfl, ordOfInt_neg,
          h.ordOfInt_compareDecimalToDouble_of_le hbn hvn hdr, ExtNum.swap_compare]
      · rw [hbv]
        exact ExtNum.le_posInf _
  -- a number that is not a decimal is `+∞` only as a double
  case double d =>
    have hd := ordOfInt_compareElements_of_numberValue ops.toDecimal128Lib
      (v := .double d) (w := .double x) rfl rfl
    rw [heq, ordOfInt_zero, eq_comm, compare_eq_iff_eq, hx] at hd
    exact compareElements_posInf_right_nonpos h hv hvn hd
  case numberInt i =>
    have hi := ordOfInt_compareElements_of_numberValue ops.toDecimal128Lib
      (v := .numberInt i) (w := .double x) rfl rfl
    rw [heq, ordOfInt_zero, hx, compare_lt_iff_lt.mpr (ExtNum.finite_lt_posInf _)] at hi
    exact absurd hi (by decide)
  case numberLong l =>
    have hl := ordOfInt_compareElements_of_numberValue ops.toDecimal128Lib
      (v := .numberLong l) (w := .double x) rfl rfl
    rw [heq, ordOfInt_zero, hx, compare_lt_iff_lt.mpr (ExtNum.finite_lt_posInf _)] at hl
    exact absurd hl (by decide)

end Sound

end Mongo
