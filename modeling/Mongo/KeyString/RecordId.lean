import Mathlib.Data.Nat.Size
import Mathlib.Data.Nat.Bitwise
import Mongo.BSONCompare

/-! The `RecordId` suffix of a KeyString (`db/storage/key_string.cpp`): `appendRecordId`,
`decodeRecordId`, `decodeRecordIdAtEnd`, `sizeWithoutRecordIdAtEnd`, and `KeyString::compare`
of two buffers. A non-negative id is written in `N + 2` bytes, where `N < 8` sits in the high
three bits of the first byte and in the low three bits of the last one. The id's bits fill the
rest in big-endian order, so the suffix can be read from either end. -/

namespace Mongo.KeyString

open CBytes LexOrder

/-- A `RecordId`, by its `repr()`: a signed 64-bit integer. -/
structure RecordId where
  repr : Int
  min_le_repr : -2 ^ 63 ≤ repr
  repr_lt : repr < 2 ^ 63
  deriving DecidableEq

/-- `RecordId::min()`. -/
def RecordId.min : RecordId := ⟨-2 ^ 63, le_refl _, by norm_num⟩

/-- `RecordId(int64_t(x))` for a `uint64_t` `x`: the bits are read in two's complement. -/
def RecordId.ofUInt64 (x : Nat) : RecordId :=
  ⟨((x : Int) + 2 ^ 63) % 2 ^ 64 - 2 ^ 63, by omega, by omega⟩

/-- `countLeadingZeros64(x)` for `0 ≤ x < 2^64`. -/
def countLeadingZeros64 (x : Nat) : Nat := 64 - x.size

/-- `extraBytesNeeded` of `appendRecordId`: `ceil((bitsNeeded - 10) / 8)`, or `0` for ids of at
most ten bits. -/
def extraBytesNeeded (bitsNeeded : Nat) : Nat :=
  if bitsNeeded ≤ 10 then 0 else ((bitsNeeded - 10) + 7) / 8

/-- The low `n` bytes of `x`, most significant first: the last `n` bytes of
`endian::nativeToBig(x)`, which `appendRecordId` copies. -/
def bigEndianBytes (x : Nat) : Nat → List UInt8
  | 0 => []
  | n + 1 => UInt8.ofNat (x / 256 ^ n) :: bigEndianBytes x n

/-- The bytes `appendRecordId` writes for `value = uint64_t(raw)`. -/
def recordIdBytes (value : Nat) : List UInt8 :=
  let bitsNeeded := 64 - countLeadingZeros64 value
  let extraBytesNeeded := extraBytesNeeded bitsNeeded
  -- the highest 5 bits of the value, with `extraBytesNeeded` above them
  let firstByte := UInt8.ofNat ((extraBytesNeeded <<< 5) ||| (value >>> (5 + extraBytesNeeded * 8)))
  -- the lowest 5 bits of the value, with `extraBytesNeeded` below them
  let lastByte := UInt8.ofNat ((value <<< 3) ||| extraBytesNeeded)
  firstByte :: bigEndianBytes (value >>> 5) extraBytesNeeded ++ [lastByte]

/-- `BuilderBase::appendRecordId(loc)`: the bytes it appends, or `none` where its `invariant`
fails, on a negative id other than `RecordId::min()`. -/
def appendRecordId (loc : RecordId) : Option (List UInt8) :=
  if loc.repr < 0 then
    -- `RecordId::min()` is encoded as `RecordId(0)`
    if loc.repr = RecordId.min.repr then some (recordIdBytes 0) else none
  else some (recordIdBytes loc.repr.toNat)

/-- `readType<uint8_t>(reader, false)`: the next byte and the rest of the reader, or `none` when
the reader is exhausted (`BufReader` throws). -/
def readByte : List UInt8 → Option (UInt8 × List UInt8)
  | [] => none
  | b :: rest => some (b, rest)

/-- The loop of `decodeRecordId` over the extra bytes: `repr = (repr << 8) | byte` in
`uint64_t`. -/
def readExtraBytes : Nat → Nat → List UInt8 → Option (Nat × List UInt8)
  | 0, repr, reader => some (repr, reader)
  | n + 1, repr, reader => do
    let (b, reader) ← readByte reader
    readExtraBytes n (((repr <<< 8) ||| b.toNat) % 2 ^ 64) reader

/-- `decodeRecordId(reader)`: the id and the bytes left to read, or `none` where the reader runs
out or the `invariant` on the last byte fails. -/
def decodeRecordId (reader : List UInt8) : Option (RecordId × List UInt8) := do
  let (firstByte, reader) ← readByte reader
  let numExtraBytes := firstByte >>> 5
  let repr := (firstByte &&& 0x1f).toNat
  let (repr, reader) ← readExtraBytes numExtraBytes.toNat repr reader
  let (lastByte, reader) ← readByte reader
  if lastByte &&& 0x7 = numExtraBytes then
    -- fold in the high 5 bits of the last byte
    some (RecordId.ofUInt64 (((repr <<< 5) ||| (lastByte >>> 3).toNat) % 2 ^ 64), reader)
  else none

/-- `ridSize` of `decodeRecordIdAtEnd` and `sizeWithoutRecordIdAtEnd`: `2 + (lastByte & 0x7)`. -/
def ridSize (buffer : List UInt8) : Nat := 2 + (buffer.getLastD 0 &&& 0x7).toNat

/-- `sizeWithoutRecordIdAtEnd(buffer, bufSize)`, or `none` where an `invariant` fails. -/
def sizeWithoutRecordIdAtEnd (buffer : List UInt8) : Option Nat :=
  if 2 ≤ buffer.length ∧ ridSize buffer ≤ buffer.length then
    some (buffer.length - ridSize buffer)
  else none

/-- `decodeRecordIdAtEnd(buffer, bufSize)`: `decodeRecordId` on a `BufReader` over the last
`ridSize` bytes. -/
def decodeRecordIdAtEnd (buffer : List UInt8) : Option RecordId :=
  if 2 ≤ buffer.length ∧ ridSize buffer ≤ buffer.length then
    (decodeRecordId (buffer.drop (buffer.length - ridSize buffer))).map Prod.fst
  else none

/-- `KeyString::compare(leftBuf, rightBuf, leftSize, rightSize)`. -/
def compare (left right : List UInt8) : Int :=
  -- `memcmp` is not called on an empty buffer
  if left.length = 0 then (if right.length = 0 then 0 else -1)
  else if right.length = 0 then 1
  else
    let cmp := memcmp left right (min left.length right.length)
    if cmp ≠ 0 then (if cmp < 0 then -1 else 1)
    else if left.length = right.length then 0
    else if left.length < right.length then -1 else 1

/-- `compareWithoutRecordId`: `KeyString::compare` of the two buffers without their `RecordId`
suffixes (an empty buffer stays empty). -/
def compareWithoutRecordId (left right : List UInt8) : Option Int := do
  let leftSize ← if left.isEmpty then pure 0 else sizeWithoutRecordIdAtEnd left
  let rightSize ← if right.isEmpty then pure 0 else sizeWithoutRecordIdAtEnd right
  pure (compare (left.take leftSize) (right.take rightSize))

/-! ## `KeyString::compare` is the lexicographic order of the buffers -/

theorem compare_eq_StringData_compare {a b : List UInt8} (ha : a ≠ []) (hb : b ≠ []) :
    compare a b = StringData.compare a b := by
  have ha' : a.length ≠ 0 := fun h => ha (List.eq_nil_of_length_eq_zero h)
  have hb' : b.length ≠ 0 := fun h => hb (List.eq_nil_of_length_eq_zero h)
  unfold compare StringData.compare
  simp only [if_neg ha', if_neg hb']
  -- the two spell the sign of a nonzero `memcmp` and the length order in mirror image
  split_ifs <;> omega

theorem ordOfInt_compare (a b : List UInt8) : ordOfInt (compare a b) = Ord.compare a b := by
  cases a with
  | nil => cases b <;> rfl
  | cons x a =>
    cases b with
    | nil => rfl
    | cons y b =>
      rw [compare_eq_StringData_compare (List.cons_ne_nil x a) (List.cons_ne_nil y b)]
      exact ordOfInt_StringData_compare _ _

/-- A suffix decides only between buffers of which neither is a proper prefix of the other. -/
theorem compare_append_append {k₁ k₂ : List UInt8} (e₁ e₂ : List UInt8)
    (hk : k₁ <+: k₂ ∨ k₂ <+: k₁ → k₁ = k₂) :
    Ord.compare (k₁ ++ e₁) (k₂ ++ e₂) = (Ord.compare k₁ k₂).then (Ord.compare e₁ e₂) := by
  induction k₁ generalizing k₂ with
  | nil =>
    obtain rfl : [] = k₂ := hk (.inl (List.nil_prefix))
    rfl
  | cons x k₁ ih =>
    cases k₂ with
    | nil => exact absurd (hk (.inr List.nil_prefix)) (List.cons_ne_nil x k₁)
    | cons y k₂ =>
      rw [List.cons_append, List.cons_append, List.compare_cons_cons, List.compare_cons_cons]
      by_cases hxy : x = y
      · subst hxy
        -- the heads agree, so the tails are again not proper prefixes of each other
        have hk' : k₁ <+: k₂ ∨ k₂ <+: k₁ → k₁ = k₂ := by
          intro h
          have := hk (by simpa only [List.cons_prefix_cons, true_and] using h)
          exact List.cons_injective this
        have hxx : Ord.compare x x = .eq := Std.ReflCmp.compare_self
        rw [hxx, Ordering.eq_then, Ordering.eq_then, ih hk']
      · simp only [then_of_ne_eq (compare_eq_of_ne hxy)]

/-! ## Arithmetic of the encoding -/

section Encoding

variable {value : Nat}

theorem sub_countLeadingZeros64 (h : value < 2 ^ 64) : 64 - countLeadingZeros64 value = value.size := by
  have : value.size ≤ 64 := Nat.size_le.mpr h
  unfold countLeadingZeros64
  omega

/-- The number of extra bytes of `value`, the `N` of the encoding. -/
def numExtra (value : Nat) : Nat := extraBytesNeeded value.size

theorem extraBytesNeeded_size (value : Nat) : extraBytesNeeded value.size = numExtra value := rfl

theorem numExtra_le_seven (h : value < 2 ^ 63) : numExtra value ≤ 7 := by
  have : value.size ≤ 63 := Nat.size_le.mpr h
  unfold numExtra extraBytesNeeded
  split_ifs <;> omega

theorem lt_two_pow_numExtra (value : Nat) : value < 2 ^ (10 + 8 * numExtra value) := by
  have hsize : value.size ≤ 10 + 8 * numExtra value := by
    unfold numExtra extraBytesNeeded
    split_ifs <;> omega
  exact Nat.size_le.mp hsize

theorem numExtra_mono {w : Nat} (h : value ≤ w) : numExtra value ≤ numExtra w := by
  have := Nat.size_le_size h
  unfold numExtra extraBytesNeeded
  split_ifs <;> omega

/-- A value with extra bytes has more than `2 + 8 N` bits. -/
theorem two_pow_numExtra_le (h : 0 < numExtra value) : 2 ^ (2 + 8 * numExtra value) ≤ value := by
  apply Nat.lt_size.mp
  unfold numExtra extraBytesNeeded at *
  split_ifs at * <;> omega

/-- The bits above the extra bytes and the last byte are at most five. -/
theorem div_two_pow_numExtra_lt (value : Nat) : value / 2 ^ (5 + 8 * numExtra value) < 32 := by
  have hpow : 32 * 2 ^ (5 + 8 * numExtra value) = 2 ^ (10 + 8 * numExtra value) := by
    rw [show 10 + 8 * numExtra value = 5 + (5 + 8 * numExtra value) by omega,
      pow_add 2 5 (5 + 8 * numExtra value)]
    rfl
  rw [Nat.div_lt_iff_lt_mul (by positivity), hpow]
  exact lt_two_pow_numExtra value

theorem toNat_ofNat_of_lt {n : Nat} (h : n < 256) : (UInt8.ofNat n).toNat = n := by
  rw [UInt8.toNat_ofNat']
  exact Nat.mod_eq_of_lt h

/-- The first byte as a number: `N` in the high three bits, the top five bits of the value
below. -/
theorem firstByte_toNat :
    ((numExtra value <<< 5) ||| (value >>> (5 + numExtra value * 8))) =
      numExtra value * 32 + value / 2 ^ (5 + 8 * numExtra value) := by
  have htop : value / 2 ^ (5 + numExtra value * 8) < 2 ^ 5 := by
    rw [Nat.mul_comm]
    exact div_two_pow_numExtra_lt value
  rw [Nat.shiftRight_eq_div_pow, ← Nat.shiftLeft_add_eq_or_of_lt htop,
    Nat.shiftLeft_eq, Nat.mul_comm (numExtra value) 8]

theorem lastByte_toNat (h : value < 2 ^ 63) :
    (UInt8.ofNat ((value <<< 3) ||| numExtra value)).toNat = value % 32 * 8 + numExtra value := by
  have hN := numExtra_le_seven h
  rw [← Nat.shiftLeft_add_eq_or_of_lt (by norm_num; omega), Nat.shiftLeft_eq, UInt8.toNat_ofNat']
  omega

/-- The encoding with its bytes as numbers. -/
theorem recordIdBytes_eq (h : value < 2 ^ 63) :
    recordIdBytes value =
      UInt8.ofNat (numExtra value * 32 + value / 2 ^ (5 + 8 * numExtra value)) ::
        bigEndianBytes (value / 32) (numExtra value) ++
          [UInt8.ofNat (value % 32 * 8 + numExtra value)] := by
  have h64 : value < 2 ^ 64 := h.trans (by norm_num)
  have hlast : UInt8.ofNat ((value <<< 3) ||| numExtra value) =
      UInt8.ofNat (value % 32 * 8 + numExtra value) := by
    apply UInt8.toNat_inj.mp
    rw [lastByte_toNat h, toNat_ofNat_of_lt (by have := numExtra_le_seven h; omega)]
  unfold recordIdBytes
  dsimp only
  rw [sub_countLeadingZeros64 h64, extraBytesNeeded_size, firstByte_toNat, hlast,
    Nat.shiftRight_eq_div_pow]

theorem length_bigEndianBytes (x n : Nat) : (bigEndianBytes x n).length = n := by
  induction n with
  | zero => rfl
  | succ n ih => simp [bigEndianBytes, ih]

theorem length_recordIdBytes (h : value < 2 ^ 63) :
    (recordIdBytes value).length = numExtra value + 2 := by
  simp [recordIdBytes_eq h, length_bigEndianBytes]

/-! ## Reading the suffix back -/

/-- Reading `n` big-endian bytes shifts them into `repr`; the `uint64_t` wrap at each step is
one wrap at the end. -/
theorem readExtraBytes_bigEndianBytes (x : Nat) (rest : List UInt8) :
    ∀ (n repr : Nat), repr < 2 ^ 64 →
      readExtraBytes n repr (bigEndianBytes x n ++ rest) =
        some ((repr * 256 ^ n + x % 256 ^ n) % 2 ^ 64, rest)
  | 0, repr, h => by
    simp [readExtraBytes, bigEndianBytes]
    omega
  | n + 1, repr, _ => by
    have hb : (UInt8.ofNat (x / 256 ^ n)).toNat = x / 256 ^ n % 256 := UInt8.toNat_ofNat'
    have hstep : (repr <<< 8) ||| (UInt8.ofNat (x / 256 ^ n)).toNat =
        repr * 256 + x / 256 ^ n % 256 := by
      rw [← Nat.shiftLeft_add_eq_or_of_lt (by rw [hb]; omega), Nat.shiftLeft_eq, hb]
    rw [bigEndianBytes, List.cons_append, readExtraBytes]
    simp only [readByte, Option.bind_eq_bind, Option.bind_some]
    rw [readExtraBytes_bigEndianBytes x rest n _ (Nat.mod_lt _ (by norm_num)), hstep]
    -- the wrap of the step is absorbed by the wrap of the rest of the loop
    have hwrap : ((repr * 256 + x / 256 ^ n % 256) % 2 ^ 64 * 256 ^ n + x % 256 ^ n) % 2 ^ 64 =
        ((repr * 256 + x / 256 ^ n % 256) * 256 ^ n + x % 256 ^ n) % 2 ^ 64 := by
      rw [Nat.add_mod, Nat.mul_mod, Nat.mod_mod, ← Nat.mul_mod, ← Nat.add_mod]
    rw [hwrap, Nat.mod_pow_succ (x := x) (b := 256) (k := n)]
    generalize x / 256 ^ n % 256 = d
    generalize x % 256 ^ n = e
    rw [show (repr * 256 + d) * 256 ^ n + e = repr * 256 ^ (n + 1) + (e + 256 ^ n * d) by ring]

theorem ofUInt64_repr {value : Nat} (h : value < 2 ^ 63) : (RecordId.ofUInt64 value).repr = value := by
  show ((value : Int) + 2 ^ 63) % 2 ^ 64 - 2 ^ 63 = value
  omega

/-- `decodeRecordId` reads back exactly the bytes `appendRecordId` wrote, and the id. -/
theorem decodeRecordId_recordIdBytes (h : value < 2 ^ 63) (rest : List UInt8) :
    decodeRecordId (recordIdBytes value ++ rest) = some (RecordId.ofUInt64 value, rest) := by
  have hN := numExtra_le_seven h
  have htop := div_two_pow_numExtra_lt value
  have hmid : value / 2 ^ (5 + 8 * numExtra value) * 256 ^ numExtra value +
      value / 32 % 256 ^ numExtra value = value / 32 := by
    rw [pow_add, pow_mul, ← Nat.div_div_eq_div_mul]
    exact Nat.div_add_mod' _ _
  rw [recordIdBytes_eq h, List.append_assoc, List.cons_append, List.singleton_append]
  -- `N`, the top five bits, and the value's bits below them
  generalize numExtra value = N at *
  generalize value / 2 ^ (5 + 8 * N) = top at *
  have hf : (UInt8.ofNat (N * 32 + top)).toNat = N * 32 + top := toNat_ofNat_of_lt (by omega)
  have hl : (UInt8.ofNat (value % 32 * 8 + N)).toNat = value % 32 * 8 + N :=
    toNat_ofNat_of_lt (by omega)
  have hnum : (UInt8.ofNat (N * 32 + top) >>> 5).toNat = N := by
    rw [UInt8.toNat_shiftRight, hf, Nat.shiftRight_eq_div_pow]
    simp only [UInt8.reduceToNat, Nat.reduceMod]
    omega
  have hlow : (UInt8.ofNat (N * 32 + top) &&& 0x1f).toNat = top := by
    rw [UInt8.toNat_and, hf, show (0x1f : UInt8).toNat = 2 ^ 5 - 1 from rfl,
      Nat.and_two_pow_sub_one_eq_mod]
    omega
  have hcheck : UInt8.ofNat (value % 32 * 8 + N) &&& (0x7 : UInt8) =
      UInt8.ofNat (N * 32 + top) >>> 5 := by
    apply UInt8.toNat_inj.mp
    rw [hnum, UInt8.toNat_and, hl, show (0x7 : UInt8).toNat = 2 ^ 3 - 1 from rfl,
      Nat.and_two_pow_sub_one_eq_mod]
    omega
  have hlast : ((value / 32) <<< 5 ||| (UInt8.ofNat (value % 32 * 8 + N) >>> 3).toNat) % 2 ^ 64 =
      value := by
    rw [UInt8.toNat_shiftRight, hl, ← Nat.shiftLeft_add_eq_or_of_lt]
    · simp only [UInt8.reduceToNat, Nat.reduceMod, Nat.shiftLeft_eq, Nat.shiftRight_eq_div_pow]
      omega
    · simp only [UInt8.reduceToNat, Nat.reduceMod, Nat.shiftRight_eq_div_pow]
      omega
  simp only [decodeRecordId, readByte, Option.bind_eq_bind, Option.bind_some]
  rw [hnum, hlow, readExtraBytes_bigEndianBytes _ _ _ _ (by omega), hmid,
    Nat.mod_eq_of_lt (by omega : value / 32 < 2 ^ 64)]
  simp only [Option.bind_some, if_pos hcheck, hlast]

/-- The last byte of the suffix gives its length. -/
theorem ridSize_append_recordIdBytes (h : value < 2 ^ 63) (p : List UInt8) :
    ridSize (p ++ recordIdBytes value) = (recordIdBytes value).length := by
  have hN := numExtra_le_seven h
  have hl : (UInt8.ofNat (value % 32 * 8 + numExtra value) &&& 0x7).toNat = numExtra value := by
    rw [UInt8.toNat_and, toNat_ofNat_of_lt (by omega),
      show (0x7 : UInt8).toNat = 2 ^ 3 - 1 from rfl, Nat.and_two_pow_sub_one_eq_mod]
    omega
  rw [length_recordIdBytes h, ridSize, recordIdBytes_eq h, ← List.append_assoc,
    List.getLastD_concat, hl]
  omega

theorem sizeWithoutRecordIdAtEnd_append (h : value < 2 ^ 63) (p : List UInt8) :
    sizeWithoutRecordIdAtEnd (p ++ recordIdBytes value) = some p.length := by
  have hlen := length_recordIdBytes h
  rw [sizeWithoutRecordIdAtEnd, ridSize_append_recordIdBytes h, List.length_append,
    if_pos (by omega)]
  simp

theorem decodeRecordIdAtEnd_append (h : value < 2 ^ 63) (p : List UInt8) :
    decodeRecordIdAtEnd (p ++ recordIdBytes value) = some (RecordId.ofUInt64 value) := by
  have hlen := length_recordIdBytes h
  have hdrop : (p ++ recordIdBytes value).drop
      ((p ++ recordIdBytes value).length - (recordIdBytes value).length) = recordIdBytes value := by
    apply List.drop_left'
    simp
  rw [decodeRecordIdAtEnd, ridSize_append_recordIdBytes h, if_pos (by simp; omega), hdrop,
    ← List.append_nil (recordIdBytes value), decodeRecordId_recordIdBytes h]
  rfl

/-! ## The suffixes are ordered as the ids -/

theorem UInt8.compare_eq_compare_toNat (x y : UInt8) :
    Ord.compare x y = Ord.compare x.toNat y.toNat := by
  rw [← compare_sub_toNat, ← compare_natCast]
  exact ordOfInt_sub _ _

/-- Comparing numbers in mixed radix: the high digit first, then the low one. -/
theorem compare_mul_add {M a b c d : Nat} (hb : b < M) (hd : d < M) :
    Ord.compare (M * a + b) (M * c + d) = (Ord.compare a c).then (Ord.compare b d) := by
  rcases lt_trichotomy a c with hac | rfl | hac
  · have : M * a + b < M * c + d := by
      have := Nat.mul_le_mul_left M (Nat.succ_le_of_lt hac)
      rw [Nat.mul_succ] at this
      omega
    rw [compare_lt_iff_lt.mpr this, compare_lt_iff_lt.mpr hac]
    rfl
  · rw [compare_eq_iff_eq.mpr rfl, Ordering.eq_then]
    rcases lt_trichotomy b d with hbd | rfl | hbd
    · rw [compare_lt_iff_lt.mpr hbd, compare_lt_iff_lt.mpr (by omega)]
    · rw [compare_eq_iff_eq.mpr rfl, compare_eq_iff_eq.mpr rfl]
    · rw [compare_gt_iff_gt.mpr hbd, compare_gt_iff_gt.mpr (by omega)]
  · have : M * c + d < M * a + b := by
      have := Nat.mul_le_mul_left M (Nat.succ_le_of_lt hac)
      rw [Nat.mul_succ] at this
      omega
    rw [compare_gt_iff_gt.mpr this, compare_gt_iff_gt.mpr hac]
    rfl

theorem compare_div_mod {M : Nat} (hM : 0 < M) (x y : Nat) :
    Ord.compare x y = (Ord.compare (x / M) (y / M)).then (Ord.compare (x % M) (y % M)) := by
  conv_lhs => rw [← Nat.div_add_mod x M, ← Nat.div_add_mod y M]
  exact compare_mul_add (Nat.mod_lt _ hM) (Nat.mod_lt _ hM)

/-- Big-endian bytes of one width are ordered as the numbers they hold. -/
theorem compare_bigEndianBytes (x y : Nat) :
    ∀ n, Ord.compare (bigEndianBytes x n) (bigEndianBytes y n) =
      Ord.compare (x % 256 ^ n) (y % 256 ^ n)
  | 0 => by simp [bigEndianBytes, Nat.mod_one]
  | n + 1 => by
    rw [bigEndianBytes, bigEndianBytes, List.compare_cons_cons, compare_bigEndianBytes x y n,
      UInt8.compare_eq_compare_toNat, UInt8.toNat_ofNat', UInt8.toNat_ofNat',
      compare_div_mod (show 0 < 256 ^ n by positivity) (x % 256 ^ (n + 1))]
    -- the high digit of `x % 256^(n+1)` is byte `n`, the rest is `x % 256^n`
    have hdiv (z : Nat) : z % 256 ^ (n + 1) / 256 ^ n = z / 256 ^ n % 256 := by
      rw [Nat.mod_pow_succ, Nat.add_mul_div_left _ _ (by positivity),
        Nat.div_eq_of_lt (Nat.mod_lt _ (by positivity))]
      simp
    have hmod (z : Nat) : z % 256 ^ (n + 1) % 256 ^ n = z % 256 ^ n :=
      Nat.mod_mod_of_dvd _ (pow_dvd_pow _ (Nat.le_succ n))
    rw [hdiv, hdiv, hmod, hmod]

/-- The encodings are ordered as the values: an encoding with fewer extra bytes starts with a
smaller byte, and encodings of one length are the value's bits in big-endian order. -/
theorem compare_recordIdBytes {v w : Nat} (hv : v < 2 ^ 63) (hw : w < 2 ^ 63) :
    Ord.compare (recordIdBytes v) (recordIdBytes w) = Ord.compare v w := by
  have hNv := numExtra_le_seven hv
  have hNw := numExtra_le_seven hw
  have htop := div_two_pow_numExtra_lt
  have hfirst (u : Nat) (hu : numExtra u ≤ 7) :
      (UInt8.ofNat (numExtra u * 32 + u / 2 ^ (5 + 8 * numExtra u))).toNat =
        numExtra u * 32 + u / 2 ^ (5 + 8 * numExtra u) :=
    toNat_ofNat_of_lt (by have := htop u; omega)
  rw [recordIdBytes_eq hv, recordIdBytes_eq hw, List.cons_append, List.cons_append,
    List.compare_cons_cons,
    UInt8.compare_eq_compare_toNat, hfirst v hNv, hfirst w hNw]
  rcases lt_trichotomy (numExtra v) (numExtra w) with hlt | heq | hlt
  · -- fewer extra bytes: a smaller first byte and a smaller value
    have hvw : v < w := by
      by_contra hle
      exact absurd (numExtra_mono (not_lt.mp hle)) (by omega)
    have := htop v
    generalize v / 2 ^ (5 + 8 * numExtra v) = tv at *
    generalize w / 2 ^ (5 + 8 * numExtra w) = tw at *
    rw [compare_lt_iff_lt.mpr (by omega), compare_lt_iff_lt.mpr hvw]
    rfl
  · -- one length: the first byte, the middle bytes and the last byte are the value's digits
    rw [← heq]
    generalize hN : numExtra v = N at *
    have hpow : 2 ^ (5 + 8 * N) = 32 * 256 ^ N := by rw [pow_add, pow_mul]; rfl
    have hlen : (bigEndianBytes (v / 32) N).length = (bigEndianBytes (w / 32) N).length := by
      rw [length_bigEndianBytes, length_bigEndianBytes]
    have hlast (u : Nat) : (UInt8.ofNat (u % 32 * 8 + N)).toNat = u % 32 * 8 + N :=
      toNat_ofNat_of_lt (by omega)
    rw [compare_append_append _ _ (fun h => h.elim (·.eq_of_length hlen)
        (fun h' => (h'.eq_of_length hlen.symm).symm)),
      compare_bigEndianBytes, List.compare_cons_cons, List.compare_nil_nil,
      UInt8.compare_eq_compare_toNat, hlast v, hlast w]
    have hlow : Ord.compare (v % 32 * 8 + N) (w % 32 * 8 + N) = Ord.compare (v % 32) (w % 32) :=
      compare_strictMono (f := fun a => a * 8 + N) (fun a b hab => by dsimp only; omega) _ _
    have hfirst' : Ord.compare (N * 32 + v / 2 ^ (5 + 8 * N)) (N * 32 + w / 2 ^ (5 + 8 * N)) =
        Ord.compare (v / 2 ^ (5 + 8 * N)) (w / 2 ^ (5 + 8 * N)) :=
      compare_strictMono (f := fun a => N * 32 + a) (fun a b hab => by dsimp only; omega) _ _
    rw [hlow, hfirst', compare_div_mod (show 0 < 32 by norm_num) v w,
      compare_div_mod (show 0 < 256 ^ N by positivity) (v / 32) (w / 32),
      Nat.div_div_eq_div_mul, Nat.div_div_eq_div_mul, ← hpow, Ordering.then_assoc, Ordering.then_eq]
  · have hvw : w < v := by
      by_contra hle
      exact absurd (numExtra_mono (not_lt.mp hle)) (by omega)
    have := htop w
    generalize v / 2 ^ (5 + 8 * numExtra v) = tv at *
    generalize w / 2 ^ (5 + 8 * numExtra w) = tw at *
    rw [compare_gt_iff_gt.mpr (by omega), compare_gt_iff_gt.mpr hvw]
    rfl

end Encoding

/-- A non-negative id is written as the bytes of its value. -/
theorem appendRecordId_of_nonneg {r : RecordId} (h : 0 ≤ r.repr) :
    appendRecordId r = some (recordIdBytes r.repr.toNat) := by
  simp [appendRecordId, Int.not_lt.mpr h]

/-- The value of a non-negative id is below `2^63`. -/
theorem toNat_repr_lt {r : RecordId} (h : 0 ≤ r.repr) : r.repr.toNat < 2 ^ 63 := by
  have := r.repr_lt
  omega


/-- An id is its value. -/
theorem RecordId.ext_repr {a b : RecordId} (h : a.repr = b.repr) : a = b := by
  cases a
  cases b
  simp_all

/-- `RecordId(int64_t(x))` gives back a non-negative id from its value. -/
theorem ofUInt64_toNat_repr {r : RecordId} (h : 0 ≤ r.repr) : RecordId.ofUInt64 r.repr.toNat = r :=
  RecordId.ext_repr (by rw [ofUInt64_repr (toNat_repr_lt h)]; omega)

/-- The `RecordId` suffix of a key, for every id that `appendRecordId` writes as its value: it
takes 2 to 9 bytes; `decodeRecordId` reads it back from its start, before any rest; and
`decodeRecordIdAtEnd` and `sizeWithoutRecordIdAtEnd` read it back from the end of any key. Two
keys of which neither is a proper prefix of the other compare as the keys, then as the ids. -/
theorem appendRecordId_roundTrip_and_order {r : RecordId} (hr : 0 ≤ r.repr) :
    ∃ e, appendRecordId r = some e ∧ 2 ≤ e.length ∧ e.length ≤ 9 ∧
      (∀ rest, decodeRecordId (e ++ rest) = some (r, rest)) ∧
      (∀ p, decodeRecordIdAtEnd (p ++ e) = some r ∧
        sizeWithoutRecordIdAtEnd (p ++ e) = some p.length) ∧
      ∀ (r' : RecordId) (e' k k' : List UInt8), 0 ≤ r'.repr → appendRecordId r' = some e' →
        (k <+: k' ∨ k' <+: k → k = k') →
        ordOfInt (compare (k ++ e) (k' ++ e')) =
          (Ord.compare k k').then (Ord.compare r.repr r'.repr) := by
  have hv := toNat_repr_lt hr
  have hN := numExtra_le_seven hv
  refine ⟨recordIdBytes r.repr.toNat, appendRecordId_of_nonneg hr, ?_, ?_, fun rest => ?_,
    fun p => ?_, fun r' e' k k' hr' he' hk => ?_⟩
  · rw [length_recordIdBytes hv]
    omega
  · rw [length_recordIdBytes hv]
    omega
  · rw [decodeRecordId_recordIdBytes hv, ofUInt64_toNat_repr hr]
  · rw [decodeRecordIdAtEnd_append hv, ofUInt64_toNat_repr hr, sizeWithoutRecordIdAtEnd_append hv]
    exact ⟨rfl, rfl⟩
  · rw [appendRecordId_of_nonneg hr', Option.some.injEq] at he'
    subst he'
    -- the suffixes compare as the values, which are the ids
    rw [ordOfInt_compare, compare_append_append _ _ hk,
      compare_recordIdBytes hv (toNat_repr_lt hr'), ← compare_natCast,
      Int.toNat_of_nonneg hr, Int.toNat_of_nonneg hr']

/-- The id `5`. -/
def recordIdFive : RecordId := ⟨5, by norm_num, by norm_num⟩

theorem appendRecordId_roundTrip_and_order_five :
    ∃ e, appendRecordId recordIdFive = some e ∧ decodeRecordIdAtEnd ([4] ++ e) = some recordIdFive := by
  obtain ⟨e, happ, -, -, -, hend, -⟩ := appendRecordId_roundTrip_and_order (r := recordIdFive) (by decide)
  exact ⟨e, happ, (hend [4]).1⟩

end Mongo.KeyString
