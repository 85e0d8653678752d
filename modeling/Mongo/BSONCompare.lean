import Mongo.CompareNumbers
import Mongo.CBytes

/-! The comparison of BSON values: `BSONElement::compareElements` and `BSONElement::woCompare`
of `bson/bsonelement.cpp`, the object comparison `compareObjects` of `bson/bsonobj.cpp` (with the
empty index key that its callers here pass), and `BSONObj::woCompare` under an index
`Ordering`. String comparisons are the binary ones: the collation comparator is absent. -/

namespace Mongo

open CBytes LexOrder

/-- `StringData::compare`. -/
def StringData.compare (a b : List UInt8) : Int :=
  let res := memcmp a b (min a.length b.length)
  if res ≠ 0 then (if res > 0 then 1 else -1)
  else if a.length = b.length then 0
  else if a.length > b.length then 1 else -1

/-- `compareElementStringValues`: `memcmp` over the stored strings, each followed by its NUL,
up to the shorter `valuestrsize`; then the longer string is the greater. -/
def compareElementStringValues (l r : List UInt8) : Int :=
  let lsz : Int := l.length + 1
  let rsz : Int := r.length + 1
  let res := memcmp (l ++ [0]) (r ++ [0]) (min (l.length + 1) (r.length + 1))
  if res ≠ 0 then res else lsz - rsz

/-- A little-endian `int32`. -/
def le32 (n : Nat) : List UInt8 := [n, n / 2 ^ 8, n / 2 ^ 16, n / 2 ^ 24].map UInt8.ofNat

/-- The value bytes of a `DBRef`: the `int32` size of the namespace with its NUL, the namespace,
the NUL, and the `OID`. -/
def dbRefValue (ns : List UInt8) (o : OID) : List UInt8 :=
  le32 (ns.length + 1) ++ ns ++ [0] ++ o.bytes.toList

/-- `BSONElement::valuesize` of a `DBRef`. -/
def dbRefValueSize (ns : List UInt8) : Int := 4 + (ns.length + 1) + kOIDSize

/-- `Timestamp::operator<`: the pair `(secs, i)` in lexicographic order. -/
def Timestamp.lt (a b : Timestamp) : Bool := a.secs < b.secs || (a.secs == b.secs && a.inc < b.inc)

/-- `Timestamp::asULL`: `secs` in the high 32 bits and `i` in the low ones. -/
def Timestamp.asULL (t : Timestamp) : Nat := t.secs.toNat * 2 ^ 32 + t.inc.toNat

/-- The first case of `compareElements`, for the types that sort by canonical type only. -/
def compareCanonicalTypes (lt rt : Int) : Int :=
  let f := lt - rt
  if f < 0 then -1 else if f = 0 then 0 else 1

variable (lib : Decimal128Lib)

mutual

/-- `BSONElement::compareElements(l, r, rules, nullptr)`. `woCompare` calls it only for
elements of equal canonical types; for other pairs the source is `MONGO_UNREACHABLE` or reads
the right element as the left one's type, and the model returns `0`. -/
def compareElements : BSONValue → BSONValue → Int
  | .undefined, r => compareCanonicalTypes (BSONValue.undefined.canonicalType) r.canonicalType
  | .null, r => compareCanonicalTypes (BSONValue.null.canonicalType) r.canonicalType
  | .maxKey, r => compareCanonicalTypes (BSONValue.maxKey.canonicalType) r.canonicalType
  | .minKey, r => compareCanonicalTypes (BSONValue.minKey.canonicalType) r.canonicalType
  | .bool a, .bool b => (a.toNat : Int) - b.toNat
  | .timestamp a, .timestamp b => if a.lt b then -1 else if a = b then 0 else 1
  -- signed comparison for dates
  | .date a, .date b => if a < b then -1 else if a = b then 0 else 1
  | .numberInt a, .numberInt b => compareInts a b
  | .numberInt a, .numberLong b => compareLongs a.toInt64 b
  | .numberInt a, .double b => compareDoubles (Binary64.ofInt32 a) b
  | .numberInt a, .numberDecimal b => compareIntToDecimal lib a b
  | .numberLong a, .numberLong b => compareLongs a b
  | .numberLong a, .numberInt b => compareLongs a b.toInt64
  | .numberLong a, .double b => compareLongToDouble a b
  | .numberLong a, .numberDecimal b => compareLongToDecimal lib a b
  | .double a, .double b => compareDoubles a b
  | .double a, .numberInt b => compareDoubles a (Binary64.ofInt32 b)
  | .double a, .numberLong b => compareDoubleToLong a b
  | .double a, .numberDecimal b => compareDoubleToDecimal lib a b
  | .numberDecimal a, .numberDecimal b => compareDecimals lib a b
  | .numberDecimal a, .numberInt b => compareDecimalToInt lib a b
  | .numberDecimal a, .numberLong b => compareDecimalToLong lib a b
  | .numberDecimal a, .double b => compareDecimalToDouble lib a b
  | .oid a, .oid b => memcmp a.bytes.toList b.bytes.toList kOIDSize
  | .code a, .code b => compareElementStringValues a b
  | .symbol a, .symbol b | .symbol a, .string b | .string a, .symbol b | .string a, .string b =>
    compareElementStringValues a b
  | .object fs, .object gs | .array fs, .array gs => compareObjects true fs gs
  | .dbRef ns o, .dbRef ns' o' =>
    let lsz := dbRefValueSize ns
    let rsz := dbRefValueSize ns'
    if lsz - rsz ≠ 0 then lsz - rsz
    else memcmp (dbRefValue ns o) (dbRefValue ns' o') lsz.toNat
  | .binData st d, .binData st' d' =>
    -- `objsize` is the length of the data; the subtype byte is compared with the data
    let lsz : Int := d.length
    let rsz : Int := d'.length
    if lsz - rsz ≠ 0 then lsz - rsz
    else memcmp (st :: d) (st' :: d') (lsz.toNat + 1)
  | .regEx p f, .regEx p' f' =>
    let c := strcmp p p'
    if c ≠ 0 then c else strcmp f f'
  | .codeWScope c s, .codeWScope c' s' =>
    let cmp := StringData.compare c c'
    -- the scope is compared with field names and without the string comparator
    if cmp ≠ 0 then cmp else compareObjects true s s'
  | _, _ => 0
termination_by structural l => l

/-- `BSONElement::woCompare(elem, rules, nullptr)`, with `rules` given by whether it holds
`kConsiderFieldName`. -/
def BSONElement.woCompare (considerFieldName : Bool) : BSONElement → BSONElement → Int
  | (n, v), (m, w) =>
    let diff := v.canonicalType - w.canonicalType
    if v.type ≠ w.type ∧ diff ≠ 0 then diff
    else
      let diff := if considerFieldName then StringData.compare n m else 0
      if diff ≠ 0 then diff else compareElements v w
termination_by structural e => e

/-- `compareObjects<BSONObjIterator>(l, r, BSONObj(), rules, nullptr)`: elements in order, the
first difference decides, and a proper prefix is the smaller object. -/
def compareObjects (considerFieldName : Bool) : BSONObj → BSONObj → Int
  | [], [] => 0
  | [], _ :: _ => -1
  | _ :: _, [] => 1
  | l :: ls, r :: rs =>
    let x := BSONElement.woCompare considerFieldName l r
    if x ≠ 0 then x else compareObjects considerFieldName ls rs
termination_by structural ls => ls

end

/-- `Ordering` of `bson/ordering.h`: bit `i` is set when field `i` of the key pattern is
descending. -/
structure KeyOrdering where
  bits : UInt32
  deriving DecidableEq

/-- `Ordering::descending(mask)`. -/
def KeyOrdering.descending (o : KeyOrdering) (mask : UInt32) : UInt32 := o.bits &&& mask

/-- The loop of `BSONObj::woCompare(r, o, rules, nullptr)`: `mask` is the bit of the current
field, shifted left after each field. The two empty-object tests before the loop agree with
its first iteration. -/
def BSONObj.woCompareLoop (o : KeyOrdering) (considerFieldName : Bool) :
    UInt32 → BSONObj → BSONObj → Int
  | _, [], [] => 0
  | _, [], _ :: _ => -1
  | _, _ :: _, [] => 1
  | mask, l :: ls, r :: rs =>
    let x := BSONElement.woCompare lib considerFieldName l r
    let x := if o.descending mask ≠ 0 then -x else x
    if x ≠ 0 then x else BSONObj.woCompareLoop o considerFieldName (mask <<< 1) ls rs

/-- `BSONObj::woCompare(r, o, rules, nullptr)`. -/
def BSONObj.woCompare (o : KeyOrdering) (considerFieldName : Bool) (l r : BSONObj) : Int :=
  BSONObj.woCompareLoop lib o considerFieldName 1 l r

/-! ## Equations

One step of each comparison, true by `rfl`; the proofs below rewrite with these. -/

theorem woCompare_pair (considerFieldName : Bool) (n m : List UInt8) (v w : BSONValue) :
    BSONElement.woCompare lib considerFieldName (n, v) (m, w) =
      let diff := v.canonicalType - w.canonicalType
      if v.type ≠ w.type ∧ diff ≠ 0 then diff
      else
        let diff := if considerFieldName then StringData.compare n m else 0
        if diff ≠ 0 then diff else compareElements lib v w := rfl

theorem compareObjects_cons_cons (considerFieldName : Bool) (l r : BSONElement) (ls rs : BSONObj) :
    compareObjects lib considerFieldName (l :: ls) (r :: rs) =
      let x := BSONElement.woCompare lib considerFieldName l r
      if x ≠ 0 then x else compareObjects lib considerFieldName ls rs := rfl

theorem woCompareLoop_cons_cons (o : KeyOrdering) (considerFieldName : Bool) (mask : UInt32)
    (l r : BSONElement) (ls rs : BSONObj) :
    BSONObj.woCompareLoop lib o considerFieldName mask (l :: ls) (r :: rs) =
      let x := BSONElement.woCompare lib considerFieldName l r
      let x := if o.descending mask ≠ 0 then -x else x
      if x ≠ 0 then x else BSONObj.woCompareLoop lib o considerFieldName (mask <<< 1) ls rs := rfl

theorem compareElements_typeOnly {v : BSONValue}
    (hv : v = .undefined ∨ v = .null ∨ v = .maxKey ∨ v = .minKey) (w : BSONValue) :
    compareElements lib v w = compareCanonicalTypes v.canonicalType w.canonicalType := by
  rcases hv with rfl | rfl | rfl | rfl <;> cases w <;> rfl

theorem compareElements_bool (a b : Bool) :
    compareElements lib (.bool a) (.bool b) = (a.toNat : Int) - b.toNat := rfl

theorem compareElements_timestamp (a b : Timestamp) :
    compareElements lib (.timestamp a) (.timestamp b) =
      if a.lt b then -1 else if a = b then 0 else 1 := rfl

theorem compareElements_date (a b : Int64) :
    compareElements lib (.date a) (.date b) = if a < b then -1 else if a = b then 0 else 1 := rfl

theorem compareElements_oid (a b : OID) :
    compareElements lib (.oid a) (.oid b) = memcmp a.bytes.toList b.bytes.toList kOIDSize := rfl

theorem compareElements_code (a b : List UInt8) :
    compareElements lib (.code a) (.code b) = compareElementStringValues a b := rfl

theorem compareElements_string {v w : BSONValue} {a b : List UInt8}
    (hv : v = .string a ∨ v = .symbol a) (hw : w = .string b ∨ w = .symbol b) :
    compareElements lib v w = compareElementStringValues a b := by
  rcases hv with rfl | rfl <;> rcases hw with rfl | rfl <;> rfl

theorem compareElements_object (fs gs : BSONObj) :
    compareElements lib (.object fs) (.object gs) = compareObjects lib true fs gs := rfl

theorem compareElements_array (fs gs : BSONObj) :
    compareElements lib (.array fs) (.array gs) = compareObjects lib true fs gs := rfl

theorem compareElements_dbRef (ns ns' : List UInt8) (o o' : OID) :
    compareElements lib (.dbRef ns o) (.dbRef ns' o') =
      let lsz := dbRefValueSize ns
      let rsz := dbRefValueSize ns'
      if lsz - rsz ≠ 0 then lsz - rsz
      else memcmp (dbRefValue ns o) (dbRefValue ns' o') lsz.toNat := rfl

theorem compareElements_binData (st st' : UInt8) (d d' : List UInt8) :
    compareElements lib (.binData st d) (.binData st' d') =
      let lsz : Int := d.length
      let rsz : Int := d'.length
      if lsz - rsz ≠ 0 then lsz - rsz
      else memcmp (st :: d) (st' :: d') (lsz.toNat + 1) := rfl

theorem compareElements_regEx (p f p' f' : List UInt8) :
    compareElements lib (.regEx p f) (.regEx p' f') =
      let c := strcmp p p'
      if c ≠ 0 then c else strcmp f f' := rfl

theorem compareElements_codeWScope (c c' : List UInt8) (s s' : BSONObj) :
    compareElements lib (.codeWScope c s) (.codeWScope c' s') =
      let cmp := StringData.compare c c'
      if cmp ≠ 0 then cmp else compareObjects lib true s s' := rfl

/-! ## The comparisons in terms of `compare` -/

theorem compare_natCast (x y : Nat) : compare (x : Int) (y : Int) = compare x y :=
  compare_strictMono Nat.strictMono_cast x y

theorem ordOfInt_StringData_compare (a b : List UInt8) :
    ordOfInt (StringData.compare a b) = compare a b := by
  rw [← compare_memcmp_then_length]
  unfold StringData.compare
  dsimp only
  by_cases hres : memcmp a b (min a.length b.length) = 0
  · rw [if_neg (not_not.mpr hres), hres]
    show _ = Ordering.eq.then _
    rw [Ordering.eq_then]
    rcases lt_trichotomy a.length b.length with h | h | h
    · rw [if_neg h.ne, if_neg (not_lt.mpr h.le), Nat.compare_eq_lt.mpr h]
      rfl
    · rw [if_pos h, h]
      exact (Nat.compare_eq_eq.mpr rfl).symm
    · rw [if_neg h.ne', if_pos h, Nat.compare_eq_gt.mpr h]
      rfl
  · have hne : compare (memcmp a b (min a.length b.length)) 0 ≠ .eq :=
      fun h => hres (compare_eq_iff_eq.mp h)
    rw [if_pos hres, then_of_ne_eq hne]
    unfold ordOfInt
    split_ifs with hpos
    · rw [compare_gt_iff_gt.mpr hpos]
      rfl
    · have hneg : memcmp a b (min a.length b.length) < 0 := by omega
      rw [compare_lt_iff_lt.mpr hneg]
      rfl

theorem ordOfInt_compareElementStringValues (a b : List UInt8) :
    ordOfInt (compareElementStringValues a b) = compare a b := by
  unfold compareElementStringValues
  dsimp only
  rw [ordOfInt_ite_ne_zero, ordOfInt_sub, Nat.add_min_add_right, ← compare_memcmp_nul_then_length]
  congr 1
  rw [← Nat.cast_add_one, ← Nat.cast_add_one, compare_natCast, compare_succ_succ]

theorem ordOfInt_woCompare (considerFieldName : Bool) (n m : List UInt8) (v w : BSONValue) :
    ordOfInt (BSONElement.woCompare lib considerFieldName (n, v) (m, w)) =
      (compare v.canonicalType w.canonicalType).then
        ((if considerFieldName then compare n m else .eq).then
          (ordOfInt (compareElements lib v w))) := by
  rw [woCompare_pair]
  dsimp only
  by_cases hc : v.canonicalType = w.canonicalType
  · -- equal canonical types: the field names, then the values
    have hdiff : ¬(v.type ≠ w.type ∧ v.canonicalType - w.canonicalType ≠ 0) :=
      fun h => h.2 (by omega)
    have hname : ordOfInt (if considerFieldName then StringData.compare n m else 0) =
        if considerFieldName then compare n m else .eq := by
      cases considerFieldName
      · rfl
      · exact ordOfInt_StringData_compare n m
    rw [if_neg hdiff, ordOfInt_ite_ne_zero, hname, hc, compare_eq_iff_eq.mpr rfl, Ordering.eq_then]
  · have hd : v.canonicalType - w.canonicalType ≠ 0 := by omega
    have ht : v.type ≠ w.type := fun h => hc (by rw [BSONValue.canonicalType, h]; rfl)
    have hne : compare v.canonicalType w.canonicalType ≠ .eq := fun h => hc (compare_eq_iff_eq.mp h)
    rw [if_pos ⟨ht, hd⟩, ordOfInt_sub, then_of_ne_eq hne]

theorem ordOfInt_compareObjects (considerFieldName : Bool) : ∀ (i : Nat) (ls rs : BSONObj),
    ordOfInt (compareObjects lib considerFieldName ls rs) =
      compareLexFrom (fun _ e f => ordOfInt (BSONElement.woCompare lib considerFieldName e f)) i ls rs
  | _, [], [] => rfl
  | _, [], _ :: _ => rfl
  | _, _ :: _, [] => rfl
  | i, l :: ls, r :: rs => by
    rw [compareObjects_cons_cons, ordOfInt_ite_ne_zero, ordOfInt_compareObjects considerFieldName (i + 1) ls rs,
      compareLexFrom_cons_cons]

/-- Within numbers the comparison is the order of the exact values. -/
theorem ordOfInt_compareElements_of_numberValue {v w : BSONValue} {x y : ExtNum}
    (hv : v.numberValue? = some x) (hw : w.numberValue? = some y) :
    ordOfInt (compareElements lib v w) = compare x y := by
  cases v <;> simp only [BSONValue.numberValue?, reduceCtorEq, Option.some.injEq] at hv <;>
    cases w <;> simp only [BSONValue.numberValue?, reduceCtorEq, Option.some.injEq] at hw <;>
    subst hv hw
  -- the nine pairs of `NumberDouble`, `NumberInt` and `NumberLong`, each the branch's function
  · exact ordOfInt_compareDoubles _ _
  · rw [← Binary64.toExt_ofInt32]
    exact ordOfInt_compareDoubles _ _
  · exact ordOfInt_compareDoubleToLong _ _
  · rw [← Binary64.toExt_ofInt32]
    exact ordOfInt_compareDoubles _ _
  · exact ordOfInt_compareInts _ _
  · rw [← Int32.toInt_toInt64]
    exact ordOfInt_compareLongs _ _
  · exact ordOfInt_compareLongToDouble _ _
  · rw [← Int32.toInt_toInt64]
    exact ordOfInt_compareLongs _ _
  · exact ordOfInt_compareLongs _ _

theorem ordOfInt_compareCanonicalTypes (a b : Int) :
    ordOfInt (compareCanonicalTypes a b) = compare a b := by
  unfold compareCanonicalTypes
  dsimp only
  rcases lt_trichotomy a b with h | rfl | h
  · rw [if_pos (by omega), compare_lt_iff_lt.mpr h]
    rfl
  · simp
  · rw [if_neg (by omega), if_neg (by omega), compare_gt_iff_gt.mpr h]
    rfl

/-- `Undefined`, `Null`, `MaxKey` and `MinKey` compare by canonical type only. -/
theorem ordOfInt_compareElements_of_typeOnly {v : BSONValue}
    (hv : v = .undefined ∨ v = .null ∨ v = .maxKey ∨ v = .minKey) (w : BSONValue) :
    ordOfInt (compareElements lib v w) = compare v.canonicalType w.canonicalType := by
  rw [compareElements_typeOnly lib hv, ordOfInt_compareCanonicalTypes]

theorem ordOfInt_compareElements_bool (a b : Bool) :
    ordOfInt (compareElements lib (.bool a) (.bool b)) = compare a.toNat b.toNat := by
  rw [compareElements_bool, ordOfInt_sub, compare_natCast]

theorem Timestamp.lt_iff_asULL (a b : Timestamp) : a.lt b = true ↔ a.asULL < b.asULL := by
  have ha := a.inc.toNat_lt
  have hb := b.inc.toNat_lt
  simp only [Timestamp.lt, Timestamp.asULL, Bool.or_eq_true, Bool.and_eq_true, decide_eq_true_eq,
    beq_iff_eq, UInt32.lt_iff_toNat_lt, ← UInt32.toNat_inj]
  omega

theorem Timestamp.eq_iff_asULL (a b : Timestamp) : a = b ↔ a.asULL = b.asULL := by
  have ha := a.inc.toNat_lt
  have hb := b.inc.toNat_lt
  obtain ⟨s, i⟩ := a
  obtain ⟨s', i'⟩ := b
  simp only [Timestamp.mk.injEq, Timestamp.asULL, ← UInt32.toNat_inj] at *
  omega

theorem ordOfInt_compareElements_timestamp (a b : Timestamp) :
    ordOfInt (compareElements lib (.timestamp a) (.timestamp b)) = compare a.asULL b.asULL := by
  rw [compareElements_timestamp]
  simp only [Timestamp.lt_iff_asULL, Timestamp.eq_iff_asULL]
  exact ordOfInt_ite_lt_eq _ _

theorem ordOfInt_compareElements_date (a b : Int64) :
    ordOfInt (compareElements lib (.date a) (.date b)) = compare a.toInt b.toInt := by
  rw [compareElements_date]
  simp only [Int64.lt_iff_toInt_lt, ← Int64.toInt_inj]
  exact ordOfInt_ite_lt_eq _ _

theorem OID.bytes_length (o : OID) : o.bytes.toList.length = kOIDSize := Vector.length_toList

theorem ordOfInt_compareElements_oid (a b : OID) :
    ordOfInt (compareElements lib (.oid a) (.oid b)) = compare a.bytes.toList b.bytes.toList := by
  have h := compare_memcmp_of_length_eq ((OID.bytes_length a).trans (OID.bytes_length b).symm)
  rw [OID.bytes_length] at h
  rw [compareElements_oid, ordOfInt, h]

theorem ordOfInt_compareElements_code (a b : List UInt8) :
    ordOfInt (compareElements lib (.code a) (.code b)) = compare a b := by
  rw [compareElements_code, ordOfInt_compareElementStringValues]

/-- `String` and `Symbol` values compare as their bytes, across the two types. -/
theorem ordOfInt_compareElements_string {v w : BSONValue} {a b : List UInt8}
    (hv : v = .string a ∨ v = .symbol a) (hw : w = .string b ∨ w = .symbol b) :
    ordOfInt (compareElements lib v w) = compare a b := by
  rw [compareElements_string lib hv hw, ordOfInt_compareElementStringValues]

theorem le32_length (n : Nat) : (le32 n).length = 4 := rfl

theorem ordOfInt_compareElements_dbRef (ns ns' : List UInt8) (o o' : OID) :
    ordOfInt (compareElements lib (.dbRef ns o) (.dbRef ns' o')) =
      (compare ns.length ns'.length).then ((compare ns ns').then (compare o.bytes.toList o'.bytes.toList)) := by
  rw [compareElements_dbRef]
  have hsize : compare (dbRefValueSize ns) (dbRefValueSize ns') = compare ns.length ns'.length := by
    rw [← ordOfInt_sub, show dbRefValueSize ns - dbRefValueSize ns' = (ns.length : Int) - ns'.length by
      unfold dbRefValueSize; ring, ordOfInt_sub, compare_natCast]
  rw [ordOfInt_ite_ne_zero, ordOfInt_sub, hsize]
  apply then_congr
  intro heq
  -- equal sizes: `memcmp` runs over the whole value, whose length prefixes agree
  have hl : ns.length = ns'.length := Nat.compare_eq_eq.mp heq
  have hv : (dbRefValueSize ns).toNat = (dbRefValue ns o).length := by
    have : dbRefValueSize ns = ((ns.length + 17 : Nat) : Int) := by
      unfold dbRefValueSize kOIDSize
      push_cast
      ring
    rw [this, Int.toNat_natCast]
    simp only [dbRefValue, List.length_append, le32_length, OID.bytes_length, List.length_singleton]
    unfold kOIDSize
    omega
  have hv' : (dbRefValue ns o).length = (dbRefValue ns' o').length := by
    simp [dbRefValue, le32_length, hl]
  rw [ordOfInt, hv, compare_memcmp_of_length_eq hv', dbRefValue, dbRefValue,
    compare_append_of_length_eq _ _ (by simp [le32_length, hl]),
    compare_append_of_length_eq _ _ (by simp [le32_length, hl]),
    compare_append_of_length_eq _ _ (by simp [le32_length]), hl]
  simp

theorem ordOfInt_compareElements_binData (st st' : UInt8) (d d' : List UInt8) :
    ordOfInt (compareElements lib (.binData st d) (.binData st' d')) =
      (compare d.length d'.length).then (compare (st :: d) (st' :: d')) := by
  rw [compareElements_binData]
  rw [ordOfInt_ite_ne_zero, ordOfInt_sub, compare_natCast]
  apply then_congr
  intro heq
  -- equal lengths: the subtype byte and the data are compared as one string
  have hl : (st :: d).length = (st' :: d').length := by simp [Nat.compare_eq_eq.mp heq]
  rw [Int.toNat_natCast, ordOfInt, ← List.length_cons, compare_memcmp_of_length_eq hl]

theorem ordOfInt_compareElements_regEx (p f p' f' : List UInt8) :
    ordOfInt (compareElements lib (.regEx p f) (.regEx p' f')) =
      (compare (cstr p) (cstr p')).then (compare (cstr f) (cstr f')) := by
  rw [compareElements_regEx]
  rw [ordOfInt_ite_ne_zero, ordOfInt, ordOfInt, compare_strcmp, compare_strcmp]

theorem ordOfInt_compareElements_codeWScope (c c' : List UInt8) (s s' : BSONObj) :
    ordOfInt (compareElements lib (.codeWScope c s) (.codeWScope c' s')) =
      (compare c c').then (ordOfInt (compareObjects lib true s s')) := by
  rw [compareElements_codeWScope]
  rw [ordOfInt_ite_ne_zero, ordOfInt_StringData_compare]


/-- The mask of field `i` selects bit `i` of the ordering; past the 32nd field the mask has
been shifted out and no field is descending. -/
theorem KeyOrdering.descending_ne_zero_iff (o : KeyOrdering) (i : Nat) :
    o.descending (UInt32.ofNat (2 ^ i)) ≠ 0 ↔ o.bits.toNat.testBit i = true := by
  have hbits : (o.descending (UInt32.ofNat (2 ^ i))).toNat = o.bits.toNat &&& (2 ^ i % 2 ^ 32) := by
    simp [KeyOrdering.descending]
  have hlt := o.bits.toNat_lt
  rw [ne_eq, ← UInt32.toNat_inj, hbits, UInt32.toNat_zero]
  constructor
  · intro hne
    obtain ⟨j, hj⟩ := Nat.exists_testBit_of_ne_zero hne
    simp only [Nat.testBit_and, Nat.testBit_mod_two_pow, Nat.testBit_two_pow, Bool.and_eq_true,
      decide_eq_true_eq] at hj
    obtain ⟨hb, -, rfl⟩ := hj
    exact hb
  · intro hb h0
    have hi : i < 32 := by
      by_contra hge
      rw [Nat.testBit_lt_two_pow (lt_of_lt_of_le hlt (Nat.pow_le_pow_right (by norm_num) (by omega)))] at hb
      exact Bool.false_ne_true hb
    have h := congrArg (Nat.testBit · i) h0
    simp only [Nat.testBit_and, Nat.testBit_mod_two_pow, Nat.testBit_two_pow, hb, Nat.zero_testBit] at h
    simp [hi] at h

theorem ofNat_two_pow_shiftLeft_one (i : Nat) :
    UInt32.ofNat (2 ^ i) <<< 1 = UInt32.ofNat (2 ^ (i + 1)) := by
  have h := UInt32.ofNat_shiftLeft (2 ^ i) 1 (by norm_num)
  rw [Nat.shiftLeft_eq, pow_one, ← pow_succ] at h
  exact h.symm

/-- `BSONObj::woCompare` under an ordering is the lexicographic comparison of the elements,
each field compared in reverse exactly when its bit of the ordering is set. -/
theorem ordOfInt_woCompareLoop (o : KeyOrdering) (considerFieldName : Bool) :
    ∀ (i : Nat) (ls rs : BSONObj),
      ordOfInt (BSONObj.woCompareLoop lib o considerFieldName (UInt32.ofNat (2 ^ i)) ls rs) =
        compareLexFrom (fun j e f =>
          if o.bits.toNat.testBit j then (ordOfInt (BSONElement.woCompare lib considerFieldName e f)).swap
          else ordOfInt (BSONElement.woCompare lib considerFieldName e f)) i ls rs
  | _, [], [] => rfl
  | _, [], _ :: _ => rfl
  | _, _ :: _, [] => rfl
  | i, l :: ls, r :: rs => by
    rw [woCompareLoop_cons_cons, ordOfInt_ite_ne_zero, ofNat_two_pow_shiftLeft_one,
      ordOfInt_woCompareLoop o considerFieldName (i + 1) ls rs, compareLexFrom_cons_cons]
    congr 1
    by_cases hd : o.bits.toNat.testBit i = true
    · rw [if_pos ((o.descending_ne_zero_iff i).mpr hd), if_pos hd, ordOfInt_neg]
    · rw [if_neg (mt (o.descending_ne_zero_iff i).mp hd), if_neg hd]

theorem ordOfInt_BSONObj_woCompare (o : KeyOrdering) (considerFieldName : Bool) (ls rs : BSONObj) :
    ordOfInt (BSONObj.woCompare lib o considerFieldName ls rs) =
      compareLexFrom (fun j e f =>
        if o.bits.toNat.testBit j then (ordOfInt (BSONElement.woCompare lib considerFieldName e f)).swap
        else ordOfInt (BSONElement.woCompare lib considerFieldName e f)) 0 ls rs :=
  ordOfInt_woCompareLoop lib o considerFieldName 0 ls rs

theorem woCompare_of_canonicalType_eq (n m : List UInt8) {v w : BSONValue}
    (h : v.canonicalType = w.canonicalType) :
    BSONElement.woCompare lib false (n, v) (m, w) = compareElements lib v w := by
  have hdiff : ¬(v.type ≠ w.type ∧ v.canonicalType - w.canonicalType ≠ 0) := fun h' => h'.2 (by omega)
  rw [woCompare_pair]
  dsimp only
  rw [if_neg hdiff]
  rfl

theorem canonicalType_of_numberValue? {v : BSONValue} {x : ExtNum} (h : v.numberValue? = some x) :
    v.canonicalType = 10 := by
  cases v <;> simp at h ⊢

/-- A comparison of numbers returns exactly `-1`, `0` or `1`. -/
theorem ordToInt_ordOfInt_compareElements_of_numberValue {v w : BSONValue} {x y : ExtNum}
    (hv : v.numberValue? = some x) (hw : w.numberValue? = some y) :
    ordToInt (ordOfInt (compareElements lib v w)) = compareElements lib v w := by
  cases v <;> simp only [BSONValue.numberValue?, reduceCtorEq] at hv <;>
    cases w <;> simp only [BSONValue.numberValue?, reduceCtorEq] at hw
  · exact ordToInt_ordOfInt_compareDoubles _ _
  · exact ordToInt_ordOfInt_compareDoubles _ _
  · exact ordToInt_ordOfInt_compareDoubleToLong _ _
  · exact ordToInt_ordOfInt_compareDoubles _ _
  · exact ordToInt_ordOfInt_compareInts _ _
  · exact ordToInt_ordOfInt_compareLongs _ _
  · exact ordToInt_ordOfInt_compareLongToDouble _ _
  · exact ordToInt_ordOfInt_compareLongs _ _
  · exact ordToInt_ordOfInt_compareLongs _ _

end Mongo
