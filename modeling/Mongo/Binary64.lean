import Mathlib.Order.WithBot
import Mathlib.Data.Rat.Floor
import Mathlib.Algebra.Order.Field.Power
import Mathlib.Tactic.Linarith
import Mathlib.Tactic.NormNum
import Mathlib.Tactic.Positivity

/-! IEEE 754 binary64 numbers as 64-bit words: the bit fields, the exact value of a word,
the comparison operators (exact, with NaN unordered), the conversion of a 64-bit integer
(round to nearest, ties to even), negation and truncation toward zero. Values are taken
in `ExtNum`, the rationals with both infinities and a least element for NaN. -/

/-- Rationals extended with `-∞`, `+∞` and a NaN placed below everything. -/
inductive ExtNum
  | nan
  | negInf
  | finite (q : ℚ)
  | posInf
  deriving DecidableEq

namespace ExtNum

/-- The order embedding behind `ExtNum`'s order: NaN, then `-∞`, the rationals, `+∞`. -/
def embed : ExtNum → WithBot (WithBot (WithTop ℚ))
  | nan => ⊥
  | negInf => ((⊥ : WithBot (WithTop ℚ)) : WithBot (WithBot (WithTop ℚ)))
  | finite q => (((q : WithTop ℚ) : WithBot (WithTop ℚ)) : WithBot (WithBot (WithTop ℚ)))
  | posInf => (((⊤ : WithTop ℚ) : WithBot (WithTop ℚ)) : WithBot (WithBot (WithTop ℚ)))

theorem embed_injective : Function.Injective embed := by
  intro a b h
  cases a <;> cases b <;> simp_all [embed]

instance : LinearOrder ExtNum := LinearOrder.lift' embed embed_injective

theorem le_iff_embed {a b : ExtNum} : a ≤ b ↔ embed a ≤ embed b := Iff.rfl

theorem lt_iff_embed {a b : ExtNum} : a < b ↔ embed a < embed b := Iff.rfl

@[simp] theorem finite_le_finite {p q : ℚ} : finite p ≤ finite q ↔ p ≤ q := by
  simp [le_iff_embed, embed]

@[simp] theorem finite_lt_finite {p q : ℚ} : finite p < finite q ↔ p < q := by
  simp [lt_iff_embed, embed]

@[simp] theorem nan_le (a : ExtNum) : nan ≤ a := by
  simp [le_iff_embed, embed]

@[simp] theorem nan_lt_iff {a : ExtNum} : nan < a ↔ a ≠ nan := by
  cases a <;> simp [lt_iff_embed, embed]

@[simp] theorem negInf_lt_finite (q : ℚ) : negInf < finite q := by
  simp [lt_iff_embed, embed]

@[simp] theorem finite_lt_posInf (q : ℚ) : finite q < posInf :=
  WithBot.coe_lt_coe.mpr (WithBot.coe_lt_coe.mpr (WithTop.coe_lt_top q))

@[simp] theorem negInf_lt_posInf : negInf < posInf :=
  WithBot.coe_lt_coe.mpr (WithBot.bot_lt_coe _)

@[simp] theorem le_posInf (a : ExtNum) : a ≤ posInf := by
  cases a <;> simp [le_iff_embed, embed]

@[simp] theorem negInf_le_iff {a : ExtNum} : negInf ≤ a ↔ a ≠ nan := by
  cases a <;> simp [le_iff_embed, embed]

/-- Negation: the infinities trade places and NaN stays NaN. -/
instance : Neg ExtNum where
  neg
    | nan => nan
    | negInf => posInf
    | finite q => finite (-q)
    | posInf => negInf

@[simp] theorem neg_finite (q : ℚ) : -(finite q) = finite (-q) := rfl

@[simp] theorem neg_nan : -nan = nan := rfl

@[simp] theorem neg_negInf : -negInf = posInf := rfl

@[simp] theorem neg_posInf : -posInf = negInf := rfl

@[simp] theorem compare_finite (p q : ℚ) : compare (finite p) (finite q) = compare p q := by
  rcases lt_trichotomy p q with h | rfl | h
  · rw [compare_lt_iff_lt.mpr h, compare_lt_iff_lt.mpr (finite_lt_finite.mpr h)]
  · rw [compare_eq_iff_eq.mpr rfl, compare_eq_iff_eq.mpr rfl]
  · rw [compare_gt_iff_gt.mpr h, compare_gt_iff_gt.mpr (finite_lt_finite.mpr h)]

end ExtNum

/-- Against a number of smaller magnitude, `x` compares as against `0`. -/
theorem compare_of_abs_lt {x y : ℚ} (h : |y| < |x|) : compare x y = compare x 0 := by
  rcases lt_trichotomy x 0 with hx | rfl | hx
  · have : x < y := by
      rw [abs_of_neg hx] at h
      linarith [neg_abs_le y]
    rw [compare_lt_iff_lt.mpr this, compare_lt_iff_lt.mpr hx]
  · simp at h
    linarith [abs_nonneg y]
  · have : y < x := by
      rw [abs_of_pos hx] at h
      linarith [le_abs_self y]
    rw [compare_gt_iff_gt.mpr this, compare_gt_iff_gt.mpr hx]

/-- A binary64 datum, as the 64 bits that `memcpy` of a `double` gives. -/
structure Binary64 where
  bits : UInt64
  deriving DecidableEq

namespace Binary64

/-- The sign bit, bit 63. -/
def signBit (d : Binary64) : Bool := d.bits.toNat / 2 ^ 63 = 1

/-- The biased exponent, bits 52 to 62. -/
def field (d : Binary64) : Nat := d.bits.toNat / 2 ^ 52 % 2 ^ 11

/-- The trailing significand, bits 0 to 51. -/
def fraction (d : Binary64) : Nat := d.bits.toNat % 2 ^ 52

/-- `std::isnan`. -/
def isNaN (d : Binary64) : Bool := d.field = 2047 && d.fraction != 0

/-- The magnitude of a word whose exponent is not 2047: subnormal for exponent 0. -/
def magnitude (d : Binary64) : ℚ :=
  if d.field = 0 then (d.fraction : ℚ) * 2 ^ (-1074 : ℤ)
  else ((2 ^ 52 + d.fraction : ℕ) : ℚ) * 2 ^ ((d.field : ℤ) - 1075)

/-- The signed value of a finite word; both zeros are `0`. -/
def value (d : Binary64) : ℚ := if d.signBit then -d.magnitude else d.magnitude

/-- What a word denotes in the order of `ExtNum`. -/
def toExt (d : Binary64) : ExtNum :=
  if d.field = 2047 then
    (if d.fraction = 0 then (if d.signBit then .negInf else .posInf) else .nan)
  else .finite d.value

/-- The word with the given sign, biased exponent and trailing significand. -/
def pack (s : Bool) (e f : Nat) : Binary64 :=
  ⟨UInt64.ofNat ((if s then 2 ^ 63 else 0) + e * 2 ^ 52 + f)⟩

/-- `-d`: the sign bit flipped. -/
def neg (d : Binary64) : Binary64 := pack (!d.signBit) d.field d.fraction

/-- `a == b` on doubles: exact, false when either side is NaN, and `-0.0 == 0.0`. -/
def eq (a b : Binary64) : Bool := !a.isNaN && !b.isNaN && decide (a.toExt = b.toExt)

/-- `a < b` on doubles: exact, false when either side is NaN. -/
def lt (a b : Binary64) : Bool := !a.isNaN && !b.isNaN && decide (a.toExt < b.toExt)

/-- `a >= b` on doubles: exact, false when either side is NaN. -/
def ge (a b : Binary64) : Bool := !a.isNaN && !b.isNaN && decide (b.toExt ≤ a.toExt)

/-- Number of binary digits of `m < 2 ^ 64`, by recursion on the 64 possible bits. -/
def bitLength : Nat → Nat → Nat
  | 0, _ => 0
  | k + 1, m => if m = 0 then 0 else bitLength k (m / 2) + 1

/-- `(double)` of `±m` for `m < 2 ^ 64`: round to nearest, ties to even. -/
def roundNat (s : Bool) (m : Nat) : Binary64 :=
  if m = 0 then pack false 0 0 else
  let L := bitLength 64 m
  if L ≤ 53 then pack s (L - 1 + 1023) (m * 2 ^ (53 - L) - 2 ^ 52) else
  let q := m / 2 ^ (L - 53)
  let r := m % 2 ^ (L - 53)
  let half := 2 ^ (L - 54)
  let q' := if half < r ∨ (r = half ∧ q % 2 = 1) then q + 1 else q
  if q' = 2 ^ 53 then pack s (L + 1023) 0 else pack s (L - 1 + 1023) (q' - 2 ^ 52)

/-- `static_cast<double>(n)` of a `long long`. -/
def ofInt64 (n : Int64) : Binary64 := roundNat (decide (n.toInt < 0)) n.toInt.natAbs

/-- `static_cast<double>(n)` of an `int`, which widens to `long long` exactly. -/
def ofInt32 (n : Int32) : Binary64 := ofInt64 n.toInt64

/-- `static_cast<long long>(d)`: truncation toward zero, meaningful for finite `d` with
`-2^63 ≤ d < 2^63`. -/
def truncToInt (d : Binary64) : Int := if 0 ≤ d.value then ⌊d.value⌋ else ⌈d.value⌉

/-! ## Fields of a packed word -/

section Pack

variable {s : Bool} {e f : Nat}

theorem pack_toNat (he : e < 2 ^ 11) (hf : f < 2 ^ 52) :
    (pack s e f).bits.toNat = (if s then 2 ^ 63 else 0) + e * 2 ^ 52 + f := by
  have hlt : (if s then 2 ^ 63 else 0) + e * 2 ^ 52 + f < 2 ^ 64 := by
    cases s <;> simp <;> omega
  rw [pack, UInt64.toNat_ofNat']
  exact Nat.mod_eq_of_lt hlt

@[simp] theorem field_pack (he : e < 2 ^ 11) (hf : f < 2 ^ 52) : (pack s e f).field = e := by
  rw [field, pack_toNat he hf]
  cases s <;> simp <;> omega

@[simp] theorem fraction_pack (he : e < 2 ^ 11) (hf : f < 2 ^ 52) :
    (pack s e f).fraction = f := by
  rw [fraction, pack_toNat he hf]
  cases s <;> simp <;> omega

@[simp] theorem signBit_pack (he : e < 2 ^ 11) (hf : f < 2 ^ 52) : (pack s e f).signBit = s := by
  rw [signBit, pack_toNat he hf]
  cases s <;> simp <;> omega

end Pack

theorem field_lt (d : Binary64) : d.field < 2 ^ 11 := Nat.mod_lt _ (by norm_num)

theorem fraction_lt (d : Binary64) : d.fraction < 2 ^ 52 := Nat.mod_lt _ (by norm_num)

/-! ## Values -/

theorem isNaN_iff_toExt {d : Binary64} : d.isNaN = true ↔ d.toExt = .nan := by
  unfold isNaN toExt
  split_ifs <;> simp_all

theorem isNaN_eq_false_iff {d : Binary64} : d.isNaN = false ↔ d.toExt ≠ .nan := by
  rw [← Bool.not_eq_true, isNaN_iff_toExt]

theorem lt_iff_toExt {a b : Binary64} (ha : a.isNaN = false) (hb : b.isNaN = false) :
    a.lt b = true ↔ a.toExt < b.toExt := by
  simp [lt, ha, hb]

theorem ge_iff_toExt {a b : Binary64} (ha : a.isNaN = false) (hb : b.isNaN = false) :
    a.ge b = true ↔ b.toExt ≤ a.toExt := by
  simp [ge, ha, hb]

/-- A word that lies between two finite values is finite. -/
theorem toExt_eq_finite_value {d : Binary64} {p q : ℚ} (hlo : ExtNum.finite p ≤ d.toExt)
    (hhi : d.toExt ≤ ExtNum.finite q) : d.toExt = .finite d.value := by
  unfold toExt at *
  split_ifs at * with hf hfr hs
  · exact absurd hlo (not_le.mpr (ExtNum.negInf_lt_finite p))
  · exact absurd hhi (not_le.mpr (ExtNum.finite_lt_posInf q))
  · exact absurd (le_antisymm hlo (ExtNum.nan_le _)) ExtNum.noConfusion
  · rfl

theorem magnitude_nonneg (d : Binary64) : 0 ≤ d.magnitude := by
  unfold magnitude
  split_ifs <;> positivity

/-- A normal word's magnitude is below `2 ^ 53` units of its exponent. -/
theorem magnitude_lt_of_field (d : Binary64) (h : d.field ≠ 0) :
    d.magnitude < 2 ^ 53 * 2 ^ ((d.field : ℤ) - 1075) := by
  have hf := d.fraction_lt
  have hlt : ((2 ^ 52 + d.fraction : ℕ) : ℚ) < 2 ^ 53 := by
    have : 2 ^ 52 + d.fraction < 2 ^ 53 := by omega
    exact_mod_cast this
  rw [magnitude, if_neg h]
  exact mul_lt_mul_of_pos_right hlt (by positivity)

/-- Truncation moves toward zero: it lies between `0` and the value. -/
theorem truncToInt_le_max (d : Binary64) : (d.truncToInt : ℚ) ≤ max 0 d.value := by
  unfold truncToInt
  split_ifs with h
  · exact le_max_of_le_right (Int.floor_le _)
  · have : ⌈d.value⌉ ≤ 0 := Int.ceil_le.mpr (by push_cast; linarith)
    exact le_max_of_le_left (by exact_mod_cast this)

theorem min_le_truncToInt (d : Binary64) : min 0 d.value ≤ (d.truncToInt : ℚ) := by
  unfold truncToInt
  split_ifs with h
  · have : 0 ≤ ⌊d.value⌋ := Int.floor_nonneg.mpr h
    exact min_le_of_left_le (by exact_mod_cast this)
  · exact min_le_of_right_le (Int.le_ceil _)

theorem abs_truncToInt_le (d : Binary64) : |(d.truncToInt : ℚ)| ≤ |d.value| := by
  rw [abs_le]
  constructor
  · exact le_trans (le_min (neg_nonpos.mpr (abs_nonneg _)) (neg_abs_le _)) d.min_le_truncToInt
  · exact le_trans d.truncToInt_le_max (max_le (abs_nonneg _) (le_abs_self _))

/-- A word of magnitude at least `2 ^ 52` has an integer value. -/
theorem value_eq_truncToInt (d : Binary64)
    (hbig : 2 ^ 52 ≤ |d.value|) : d.value = d.truncToInt := by
  have habs : |d.value| = d.magnitude := by
    unfold value
    split_ifs <;> simp [abs_of_nonneg d.magnitude_nonneg]
  rw [habs] at hbig
  -- the exponent is at least 1075, so the magnitude is a natural number
  have hfield : 1075 ≤ d.field := by
    by_contra hlt
    by_cases h0 : d.field = 0
    · have hm : d.magnitude < 2 ^ 52 := by
        have hf : (d.fraction : ℚ) < 2 ^ 52 := by exact_mod_cast d.fraction_lt
        rw [magnitude, if_pos h0]
        have hp : (2 : ℚ) ^ (-1074 : ℤ) ≤ 1 := zpow_le_one_of_nonpos₀ (by norm_num) (by norm_num)
        nlinarith [show (0 : ℚ) ≤ d.fraction by positivity]
      linarith
    · have hm := d.magnitude_lt_of_field h0
      have hp : (2 : ℚ) ^ ((d.field : ℤ) - 1075) ≤ 2 ^ (-1 : ℤ) :=
        zpow_le_zpow_right₀ (by norm_num) (by omega)
      have : (2 : ℚ) ^ 53 * 2 ^ ((d.field : ℤ) - 1075) ≤ 2 ^ 52 := by
        calc (2 : ℚ) ^ 53 * 2 ^ ((d.field : ℤ) - 1075) ≤ 2 ^ 53 * 2 ^ (-1 : ℤ) := by gcongr
          _ = 2 ^ 52 := by norm_num
      linarith
  have hint : d.magnitude = ((((2 ^ 52 + d.fraction) * 2 ^ (d.field - 1075) : ℕ) : ℤ) : ℚ) := by
    rw [magnitude, if_neg (by omega)]
    have hz : ((d.field : ℤ) - 1075) = ((d.field - 1075 : ℕ) : ℤ) := by omega
    rw [hz, zpow_natCast]
    push_cast
    ring
  unfold truncToInt value at *
  split_ifs <;> simp only [hint, ← Int.cast_neg, Int.floor_intCast, Int.ceil_intCast]


/-- `bitLength k m` is the number of binary digits of `0 < m < 2 ^ k`. -/
theorem bitLength_spec : ∀ (k m : Nat), 0 < m → m < 2 ^ k →
    1 ≤ bitLength k m ∧ 2 ^ (bitLength k m - 1) ≤ m ∧ m < 2 ^ bitLength k m
  | 0, m, h0, hk => by simp at hk; omega
  | k + 1, m, h0, hk => by
    rw [bitLength, if_neg (by omega)]
    by_cases h1 : m = 1
    · subst h1
      have : bitLength k 0 = 0 := by cases k <;> simp [bitLength]
      simp [this]
    · have hpos : 0 < m / 2 := by omega
      have hlt : m / 2 < 2 ^ k := by rw [pow_succ] at hk; omega
      obtain ⟨h1', hlo, hhi⟩ := bitLength_spec k (m / 2) hpos hlt
      refine ⟨by omega, ?_, ?_⟩
      · have : 2 ^ (bitLength k (m / 2) + 1 - 1) = 2 * 2 ^ (bitLength k (m / 2) - 1) := by
          rw [show bitLength k (m / 2) + 1 - 1 = (bitLength k (m / 2) - 1) + 1 by omega, pow_succ]
          ring
        rw [this]; omega
      · rw [pow_succ]; omega

/-- The value of a normal word built by `pack`. -/
theorem toExt_pack (s : Bool) (e f : Nat) (he0 : 0 < e) (he : e < 2047) (hf : f < 2 ^ 52) :
    (pack s e f).toExt =
      .finite (if s then -(((2 ^ 52 + f : ℕ) : ℚ) * 2 ^ ((e : ℤ) - 1075))
        else ((2 ^ 52 + f : ℕ) : ℚ) * 2 ^ ((e : ℤ) - 1075)) := by
  have he' : e < 2 ^ 11 := by omega
  simp only [toExt, field_pack he' hf, fraction_pack he' hf, value, magnitude,
    signBit_pack he' hf, if_neg (show e ≠ 2047 by omega), if_neg (show e ≠ 0 by omega)]

theorem toExt_pack_zero : (pack false 0 0).toExt = .finite 0 := by
  simp [toExt, value, magnitude, field_pack, fraction_pack, signBit_pack]

/-- Integers of magnitude at most `2 ^ 53` convert to doubles exactly. -/
theorem toExt_roundNat (s : Bool) (m : Nat) (hm : m ≤ 2 ^ 53) :
    (roundNat s m).toExt = .finite (if s then -(m : ℚ) else m) := by
  by_cases h0 : m = 0
  · subst h0
    simp [roundNat, toExt_pack_zero]
  obtain ⟨h1, hlo, hhi⟩ := bitLength_spec 64 m (by omega) (by omega)
  have hL54 : bitLength 64 m ≤ 54 := by
    by_contra hgt
    have : 2 ^ 54 ≤ 2 ^ (bitLength 64 m - 1) := Nat.pow_le_pow_right (by norm_num) (by omega)
    omega
  rw [roundNat, if_neg h0]
  dsimp only
  by_cases hle : bitLength 64 m ≤ 53
  · -- exact case: the significand is `m` shifted left to 53 bits
    rw [if_pos hle]
    set L := bitLength 64 m
    have hsplit : 2 ^ (L - 1) * 2 ^ (53 - L) = 2 ^ 52 := by
      rw [← pow_add]; congr 1; omega
    have htop : 2 ^ L * 2 ^ (53 - L) = 2 ^ 53 := by
      rw [← pow_add]; congr 1; omega
    have hlo' : 2 ^ 52 ≤ m * 2 ^ (53 - L) := by
      rw [← hsplit]; exact Nat.mul_le_mul_right _ hlo
    have hhi' : m * 2 ^ (53 - L) < 2 ^ 53 := by
      rw [← htop]; exact Nat.mul_lt_mul_of_pos_right hhi (by positivity)
    have hval : (((2 ^ 52 + (m * 2 ^ (53 - L) - 2 ^ 52) : ℕ) : ℚ) *
        2 ^ (((L - 1 + 1023 : ℕ) : ℤ) - 1075)) = m := by
      rw [show 2 ^ 52 + (m * 2 ^ (53 - L) - 2 ^ 52) = m * 2 ^ (53 - L) by omega]
      have hz : (((L - 1 + 1023 : ℕ) : ℤ) - 1075) = -((53 - L : ℕ) : ℤ) := by omega
      rw [hz, zpow_neg, zpow_natCast]
      push_cast
      field_simp
    rw [toExt_pack s _ _ (by omega) (by omega) (by omega), hval]
  · -- the one integer of 54 bits in range is `2 ^ 53`, which is exact after the shift
    have hL : bitLength 64 m = 54 := by omega
    have hm53 : m = 2 ^ 53 := by
      have : 2 ^ 53 ≤ m := by simpa [hL] using hlo
      omega
    subst hm53
    rw [if_neg hle, hL]
    norm_num
    rw [toExt_pack s _ _ (by norm_num) (by norm_num) (by norm_num)]
    norm_num

/-- Longs of magnitude at most `2 ^ 53` convert exactly. -/
theorem toExt_ofInt64 (l : Int64) (h : l.toInt.natAbs ≤ 2 ^ 53) :
    (ofInt64 l).toExt = .finite l.toInt := by
  rw [ofInt64, toExt_roundNat _ _ h]
  have habs : ((l.toInt.natAbs : ℕ) : ℚ) = |(l.toInt : ℚ)| := by
    rw [Nat.cast_natAbs, Int.cast_abs]
  congr 1
  by_cases hl : l.toInt < 0
  · have hq : (l.toInt : ℚ) < 0 := by exact_mod_cast hl
    simp [hl, habs, abs_of_neg hq]
  · have hq : 0 ≤ (l.toInt : ℚ) := by exact_mod_cast not_lt.mp hl
    simp [hl, habs, abs_of_nonneg hq]

theorem toExt_ofInt32 (n : Int32) : (ofInt32 n).toExt = .finite n.toInt := by
  have h1 := n.le_toInt
  have h2 := n.toInt_lt
  rw [ofInt32, toExt_ofInt64 _ (by rw [Int32.toInt_toInt64]; omega), Int32.toInt_toInt64]

theorem bitLength_two_pow_63 : bitLength 64 (2 ^ 63) = 64 := by decide

/-- `2 ^ 63` is a double: the conversion of `LLONG_MIN` is exact. -/
theorem toExt_roundNat_two_pow_63 (s : Bool) :
    (roundNat s (2 ^ 63)).toExt = .finite (if s then -(2 ^ 63 : ℚ) else 2 ^ 63) := by
  rw [roundNat, if_neg (by norm_num)]
  dsimp only
  rw [bitLength_two_pow_63]
  norm_num
  rw [toExt_pack s _ _ (by norm_num) (by norm_num) (by norm_num)]
  norm_num

theorem toExt_neg (d : Binary64) : d.neg.toExt = -d.toExt := by
  have he := d.field_lt
  have hf := d.fraction_lt
  unfold neg toExt value magnitude
  rw [field_pack he hf, fraction_pack he hf, signBit_pack he hf]
  cases hs : d.signBit <;> split_ifs <;> simp_all

end Binary64
