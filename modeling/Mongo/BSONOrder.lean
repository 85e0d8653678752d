import Mongo.BSONCompare

namespace Mongo

open LexOrder CBytes

/-- The values of nesting depth below `n` without `NumberDecimal`: the ones whose comparison
is a total preorder once the elements below `n - 1` are known to be. -/
def BSONValue.Below (n : Nat) (v : BSONValue) : Prop := v.depth < n ∧ v.NoDecimal

variable (lib : Decimal128Lib) (n : Nat)

theorem below_fields {fs : BSONObj} (hd : BSONValue.depthList fs + 1 < n + 1)
    (hnd : BSONValue.NoDecimalList fs) : AllIn (fun e => (e.2 : BSONValue).Below n) fs := by
  intro e he
  exact ⟨lt_of_le_of_lt (BSONValue.depth_le_depthList he) (by omega),
    BSONValue.noDecimalList_iff.mp hnd e he⟩

section Scalars

/-- `Undefined`, `Null`, `MaxKey` and `MinKey` are each alone in their canonical type. -/
theorem totalPreorderOn_class_typeOnly (k : Int) (hk : k = -1 ∨ k = 127 ∨ k = 0 ∨ k = 5) :
    TotalPreorderOn (fun v w => ordOfInt (compareElements lib v w)) (fun v => v.canonicalType = k) := by
  refine (totalPreorderOn_compare.of_key BSONValue.canonicalType).of_eq ?_
  intro v w hv _
  have hv' : v = .undefined ∨ v = .null ∨ v = .maxKey ∨ v = .minKey := by
    rcases hk with rfl | rfl | rfl | rfl <;> cases v <;>
      simp at hv ⊢
  exact ordOfInt_compareElements_of_typeOnly lib hv' w

theorem numberValue?_eq_some {v : BSONValue} (hv : v.NoDecimal ∧ v.canonicalType = 10) :
    v.numberValue? = some (v.numberValue?.getD .nan) := by
  obtain ⟨hnd, hk⟩ := hv
  cases v <;> simp [BSONValue.NoDecimal] at hk hnd ⊢

/-- Numbers other than decimals sort by their exact values. -/
theorem totalPreorderOn_class_number :
    TotalPreorderOn (fun v w => ordOfInt (compareElements lib v w))
      (fun v => v.NoDecimal ∧ v.canonicalType = 10) :=
  (totalPreorderOn_compare.of_key (fun v => v.numberValue?.getD .nan)).of_eq
    (fun _ _ hv hw => ordOfInt_compareElements_of_numberValue lib (numberValue?_eq_some hv)
      (numberValue?_eq_some hw))

theorem totalPreorderOn_class_string :
    TotalPreorderOn (fun v w => ordOfInt (compareElements lib v w)) (fun v => v.canonicalType = 15) := by
  refine TotalPreorderOn.of_surj (T := fun _ => True)
    (totalPreorderOn_compare_bytes.of_key (Prod.snd : Bool × List UInt8 → List UInt8))
    (fun p => if p.1 then .symbol p.2 else .string p.2) ?_ ?_
  · intro v hk
    cases v <;> simp at hk
    case string s => exact ⟨(false, s), trivial, rfl⟩
    case symbol s => exact ⟨(true, s), trivial, rfl⟩
  · rintro ⟨b, s⟩ ⟨b', s'⟩ - -
    apply ordOfInt_compareElements_string lib <;> dsimp only <;> split <;> simp

theorem totalPreorderOn_class_code :
    TotalPreorderOn (fun v w => ordOfInt (compareElements lib v w)) (fun v => v.canonicalType = 60) := by
  refine TotalPreorderOn.of_surj (T := fun _ => True) totalPreorderOn_compare_bytes BSONValue.code ?_
    (fun a b _ _ => ordOfInt_compareElements_code lib a b)
  intro v hk
  cases v <;> simp at hk
  case code s => exact ⟨s, trivial, rfl⟩

theorem totalPreorderOn_class_oid :
    TotalPreorderOn (fun v w => ordOfInt (compareElements lib v w)) (fun v => v.canonicalType = 35) := by
  refine TotalPreorderOn.of_surj (T := fun _ => True)
    (totalPreorderOn_compare_bytes.of_key (fun o : OID => o.bytes.toList)) BSONValue.oid ?_
    (fun a b _ _ => ordOfInt_compareElements_oid lib a b)
  intro v hk
  cases v <;> simp at hk
  case oid o => exact ⟨o, trivial, rfl⟩

theorem totalPreorderOn_class_bool :
    TotalPreorderOn (fun v w => ordOfInt (compareElements lib v w)) (fun v => v.canonicalType = 40) := by
  refine TotalPreorderOn.of_surj (T := fun _ => True) (totalPreorderOn_compare.of_key Bool.toNat)
    BSONValue.bool ?_ (fun a b _ _ => ordOfInt_compareElements_bool lib a b)
  intro v hk
  cases v <;> simp at hk
  case bool b => exact ⟨b, trivial, rfl⟩

theorem totalPreorderOn_class_date :
    TotalPreorderOn (fun v w => ordOfInt (compareElements lib v w)) (fun v => v.canonicalType = 45) := by
  refine TotalPreorderOn.of_surj (T := fun _ => True) (totalPreorderOn_compare.of_key Int64.toInt)
    BSONValue.date ?_ (fun a b _ _ => ordOfInt_compareElements_date lib a b)
  intro v hk
  cases v <;> simp at hk
  case date t => exact ⟨t, trivial, rfl⟩

theorem totalPreorderOn_class_timestamp :
    TotalPreorderOn (fun v w => ordOfInt (compareElements lib v w)) (fun v => v.canonicalType = 47) := by
  refine TotalPreorderOn.of_surj (T := fun _ => True) (totalPreorderOn_compare.of_key Timestamp.asULL)
    BSONValue.timestamp ?_ (fun a b _ _ => ordOfInt_compareElements_timestamp lib a b)
  intro v hk
  cases v <;> simp at hk
  case timestamp t => exact ⟨t, trivial, rfl⟩

/-- Regular expressions sort by pattern, then by flags, each as a C string. -/
theorem totalPreorderOn_class_regEx :
    TotalPreorderOn (fun v w => ordOfInt (compareElements lib v w)) (fun v => v.canonicalType = 50) := by
  refine TotalPreorderOn.of_surj (T := fun _ => True)
    ((totalPreorderOn_compare_bytes.of_key (fun p : List UInt8 × List UInt8 => cstr p.1)).andThen
      (totalPreorderOn_compare_bytes.of_key (fun p : List UInt8 × List UInt8 => cstr p.2)))
    (fun p => BSONValue.regEx p.1 p.2) ?_
    (fun p q _ _ => ordOfInt_compareElements_regEx lib p.1 p.2 q.1 q.2)
  intro v hk
  cases v <;> simp at hk
  case regEx p f => exact ⟨(p, f), trivial, rfl⟩

/-- `DBRef`s sort by the length of the namespace, then the namespace, then the `OID`. -/
theorem totalPreorderOn_class_dbRef :
    TotalPreorderOn (fun v w => ordOfInt (compareElements lib v w)) (fun v => v.canonicalType = 55) := by
  refine TotalPreorderOn.of_surj (T := fun _ => True)
    ((totalPreorderOn_compare.of_key (fun p : List UInt8 × OID => p.1.length)).andThen
      ((totalPreorderOn_compare_bytes.of_key (fun p : List UInt8 × OID => p.1)).andThen
        (totalPreorderOn_compare_bytes.of_key (fun p : List UInt8 × OID => p.2.bytes.toList))))
    (fun p => BSONValue.dbRef p.1 p.2) ?_
    (fun p q _ _ => ordOfInt_compareElements_dbRef lib p.1 q.1 p.2 q.2)
  intro v hk
  cases v <;> simp at hk
  case dbRef ns o => exact ⟨(ns, o), trivial, rfl⟩

/-- Binary data sorts by length, then by subtype and bytes. -/
theorem totalPreorderOn_class_binData :
    TotalPreorderOn (fun v w => ordOfInt (compareElements lib v w)) (fun v => v.canonicalType = 30) := by
  refine TotalPreorderOn.of_surj (T := fun _ => True)
    ((totalPreorderOn_compare.of_key (fun p : UInt8 × List UInt8 => p.2.length)).andThen
      (totalPreorderOn_compare_bytes.of_key (fun p : UInt8 × List UInt8 => p.1 :: p.2)))
    (fun p => BSONValue.binData p.1 p.2) ?_
    (fun p q _ _ => ordOfInt_compareElements_binData lib p.1 q.1 p.2 q.2)
  intro v hk
  cases v <;> simp at hk
  case binData st d => exact ⟨(st, d), trivial, rfl⟩

end Scalars

section Classes

variable (ih : TotalPreorderOn (fun e f => ordOfInt (BSONElement.woCompare lib true e f))
    (fun e => (e.2 : BSONValue).Below n))
include ih

theorem totalPreorderOn_compareObjects :
    TotalPreorderOn (fun fs gs => ordOfInt (compareObjects lib true fs gs))
      (AllIn (fun e => (e.2 : BSONValue).Below n)) :=
  (totalPreorderOn_compareLexFrom (fun _ => ih) 0).of_eq
    (fun fs gs _ _ => ordOfInt_compareObjects lib true 0 fs gs)

theorem totalPreorderOn_class_object :
    TotalPreorderOn (fun v w => ordOfInt (compareElements lib v w))
      (fun v => v.Below (n + 1) ∧ v.canonicalType = 20) := by
  refine (totalPreorderOn_compareObjects lib n ih).of_surj BSONValue.object ?_
    (fun fs gs _ _ => by rw [compareElements_object])
  rintro v ⟨⟨hd, hnd⟩, hk⟩
  cases v <;> simp at hk
  case object fs =>
    exact ⟨fs, below_fields n hd hnd, rfl⟩

theorem totalPreorderOn_class_array :
    TotalPreorderOn (fun v w => ordOfInt (compareElements lib v w))
      (fun v => v.Below (n + 1) ∧ v.canonicalType = 25) := by
  refine (totalPreorderOn_compareObjects lib n ih).of_surj BSONValue.array ?_
    (fun fs gs _ _ => by rw [compareElements_array])
  rintro v ⟨⟨hd, hnd⟩, hk⟩
  cases v <;> simp at hk
  case array fs =>
    exact ⟨fs, below_fields n hd hnd, rfl⟩

/-- Code with scope sorts by its code, then by its scope object. -/
theorem totalPreorderOn_class_codeWScope :
    TotalPreorderOn (fun v w => ordOfInt (compareElements lib v w))
      (fun v => v.Below (n + 1) ∧ v.canonicalType = 65) := by
  refine TotalPreorderOn.of_surj
    ((totalPreorderOn_compare_bytes.of_key (fun p : List UInt8 × BSONObj => p.1)).andThen
      ((totalPreorderOn_compareObjects lib n ih).comap Prod.snd (fun _ h => h)))
    (fun p => BSONValue.codeWScope p.1 p.2) ?_
    (fun p q _ _ => ordOfInt_compareElements_codeWScope lib p.1 q.1 p.2 q.2)
  rintro v ⟨⟨hd, hnd⟩, hk⟩
  cases v <;> simp at hk
  case codeWScope c sc =>
    exact ⟨(c, sc), below_fields n hd hnd, rfl⟩

/-- Within one canonical type the values compare by a total preorder; the proof picks the
preorder of the type of a representative `a`. -/
theorem totalPreorderOn_compareElements_class (a : BSONValue) :
    TotalPreorderOn (fun v w => ordOfInt (compareElements lib v w))
      (fun v => v.Below (n + 1) ∧ v.canonicalType = a.canonicalType) := by
  cases a
  case minKey => exact (totalPreorderOn_class_typeOnly lib _ (by decide)).mono (fun _ h => h.2)
  case maxKey => exact (totalPreorderOn_class_typeOnly lib _ (by decide)).mono (fun _ h => h.2)
  case undefined => exact (totalPreorderOn_class_typeOnly lib _ (by decide)).mono (fun _ h => h.2)
  case null => exact (totalPreorderOn_class_typeOnly lib _ (by decide)).mono (fun _ h => h.2)
  case double | numberInt | numberLong | numberDecimal =>
    exact (totalPreorderOn_class_number lib).mono (fun _ h => ⟨h.1.2, h.2⟩)
  case string | symbol => exact (totalPreorderOn_class_string lib).mono (fun _ h => h.2)
  case object => exact (totalPreorderOn_class_object lib n ih)
  case array => exact (totalPreorderOn_class_array lib n ih)
  case binData => exact (totalPreorderOn_class_binData lib).mono (fun _ h => h.2)
  case oid => exact (totalPreorderOn_class_oid lib).mono (fun _ h => h.2)
  case bool => exact (totalPreorderOn_class_bool lib).mono (fun _ h => h.2)
  case date => exact (totalPreorderOn_class_date lib).mono (fun _ h => h.2)
  case regEx => exact (totalPreorderOn_class_regEx lib).mono (fun _ h => h.2)
  case dbRef => exact (totalPreorderOn_class_dbRef lib).mono (fun _ h => h.2)
  case code => exact (totalPreorderOn_class_code lib).mono (fun _ h => h.2)
  case codeWScope => exact (totalPreorderOn_class_codeWScope lib n ih)
  case timestamp => exact (totalPreorderOn_class_timestamp lib).mono (fun _ h => h.2)

end Classes

theorem totalPreorderOn_compareElements_fiber
    (ih : TotalPreorderOn (fun e f => ordOfInt (BSONElement.woCompare lib true e f))
      (fun e => (e.2 : BSONValue).Below n)) (k : Int) :
    TotalPreorderOn (fun v w => ordOfInt (compareElements lib v w))
      (fun v => v.Below (n + 1) ∧ v.canonicalType = k) := by
  by_cases hk : ∃ a : BSONValue, a.canonicalType = k
  · obtain ⟨a, rfl⟩ := hk
    exact totalPreorderOn_compareElements_class lib n ih a
  · -- no value has this canonical type
    exact ⟨fun a _ ha _ => absurd ⟨a, ha.2⟩ hk, fun a _ _ ha _ _ => absurd ⟨a, ha.2⟩ hk⟩

theorem totalPreorderOn_fieldName (considerFieldName : Bool) {S : BSONElement → Prop} :
    TotalPreorderOn (fun e f : BSONElement => if considerFieldName then compare e.1 f.1 else .eq) S := by
  cases considerFieldName
  · exact ⟨fun _ _ _ _ => rfl, fun _ _ _ _ _ _ _ _ => rfl⟩
  · exact totalPreorderOn_compare_bytes.of_key Prod.fst

/-- The step of the induction on depth: if elements below `n` compare by a total preorder,
so do elements below `n + 1`, sorted by canonical type, field name and value. -/
theorem totalPreorderOn_woCompare_succ
    (ih : TotalPreorderOn (fun e f => ordOfInt (BSONElement.woCompare lib true e f))
      (fun e => (e.2 : BSONValue).Below n)) (considerFieldName : Bool) :
    TotalPreorderOn (fun e f => ordOfInt (BSONElement.woCompare lib considerFieldName e f))
      (fun e => (e.2 : BSONValue).Below (n + 1)) := by
  refine (TotalPreorderOn.then_of_fibers (fun e : BSONElement => e.2.canonicalType)
    (fun k => (totalPreorderOn_fieldName considerFieldName).andThen
      ((totalPreorderOn_compareElements_fiber lib n ih k).comap Prod.snd (fun _ h => h)))).of_eq ?_
  rintro ⟨a, v⟩ ⟨b, w⟩ - -
  exact ordOfInt_woCompare lib considerFieldName a b v w

/-- Elements of any depth below `n` and without decimals compare by a total preorder. -/
theorem totalPreorderOn_woCompare (considerFieldName : Bool) :
    ∀ n, TotalPreorderOn (fun e f => ordOfInt (BSONElement.woCompare lib considerFieldName e f))
      (fun e => (e.2 : BSONValue).Below n)
  | 0 => ⟨fun _ _ ha _ => absurd ha.1 (Nat.not_lt_zero _),
      fun _ _ _ ha _ _ _ _ => absurd ha.1 (Nat.not_lt_zero _)⟩
  | n + 1 => totalPreorderOn_woCompare_succ lib n (totalPreorderOn_woCompare true n) considerFieldName

/-! ## Elements and objects of any depth -/


theorem BSONValue.below_depth_succ {v : BSONValue} (h : v.NoDecimal) : v.Below (v.depth + 1) :=
  ⟨Nat.lt_succ_self _, h⟩

theorem BSONValue.Below.mono {v : BSONValue} {n m : Nat} (h : v.Below n) (hnm : n ≤ m) :
    v.Below m :=
  ⟨lt_of_lt_of_le h.1 hnm, h.2⟩

theorem allIn_below {fs : BSONObj} (h : BSONValue.NoDecimalList fs) :
    AllIn (fun e => (e.2 : BSONValue).Below (BSONValue.depthList fs + 1)) fs :=
  fun e he => ⟨Nat.lt_succ_of_le (BSONValue.depth_le_depthList he),
    BSONValue.noDecimalList_iff.mp h e he⟩

theorem allIn_below_mono {fs : BSONObj} {n m : Nat}
    (h : AllIn (fun e => (e.2 : BSONValue).Below n) fs) (hnm : n ≤ m) :
    AllIn (fun e => (e.2 : BSONValue).Below m) fs :=
  fun e he => (h e he).mono hnm

theorem sign_swap_of_ordOfInt {a b : Int} (h : ordOfInt b = (ordOfInt a).swap) :
    b.sign = -a.sign := by
  rw [sign_eq_ordToInt, sign_eq_ordToInt, h, ordToInt_swap]

theorem le_trans_of_ordOfInt {a b c : Int}
    (h : (ordOfInt a).isLE → (ordOfInt b).isLE → (ordOfInt c).isLE) : a ≤ 0 → b ≤ 0 → c ≤ 0 := by
  simpa only [ordOfInt_isLE_iff] using h

theorem woCompare_sign_swap (x y : BSONElement) (hx : x.2.NoDecimal) (hy : y.2.NoDecimal) :
    (BSONElement.woCompare lib false y x).sign = -(BSONElement.woCompare lib false x y).sign := by
  apply sign_swap_of_ordOfInt
  let n := max x.2.depth y.2.depth + 1
  exact (totalPreorderOn_woCompare lib false n).swap x y
    ((BSONValue.below_depth_succ hx).mono (by omega)) ((BSONValue.below_depth_succ hy).mono (by omega))

theorem woCompare_le_trans (x y z : BSONElement) (hx : x.2.NoDecimal) (hy : y.2.NoDecimal)
    (hz : z.2.NoDecimal) :
    BSONElement.woCompare lib false x y ≤ 0 → BSONElement.woCompare lib false y z ≤ 0 →
      BSONElement.woCompare lib false x z ≤ 0 := by
  apply le_trans_of_ordOfInt
  let n := max (max x.2.depth y.2.depth) z.2.depth + 1
  exact (totalPreorderOn_woCompare lib false n).le_trans x y z
    ((BSONValue.below_depth_succ hx).mono (by omega)) ((BSONValue.below_depth_succ hy).mono (by omega))
    ((BSONValue.below_depth_succ hz).mono (by omega))

theorem woCompare_neg_of_canonicalType_lt (x y : BSONElement)
    (h : x.2.canonicalType < y.2.canonicalType) : BSONElement.woCompare lib false x y < 0 := by
  obtain ⟨a, v⟩ := x
  obtain ⟨b, w⟩ := y
  rw [← ordOfInt_eq_lt_iff, ordOfInt_woCompare, compare_lt_iff_lt.mpr h]
  rfl

theorem woCompare_eq_of_numberValue (x y : BSONElement) (p q : ExtNum)
    (hx : x.2.numberValue? = some p) (hy : y.2.numberValue? = some q) :
    BSONElement.woCompare lib false x y = ordToInt (compare p q) := by
  obtain ⟨a, v⟩ := x
  obtain ⟨b, w⟩ := y
  have hc : v.canonicalType = w.canonicalType :=
    (canonicalType_of_numberValue? hx).trans (canonicalType_of_numberValue? hy).symm
  rw [woCompare_of_canonicalType_eq lib a b hc, ← ordOfInt_compareElements_of_numberValue lib hx hy,
    ordToInt_ordOfInt_compareElements_of_numberValue lib hx hy]

theorem totalPreorderOn_BSONObj_woCompare (o : KeyOrdering) (considerFieldName : Bool) (n : Nat) :
    TotalPreorderOn (fun l r => ordOfInt (BSONObj.woCompare lib o considerFieldName l r))
      (AllIn (fun e => (e.2 : BSONValue).Below n)) :=
  (totalPreorderOn_compareLexFrom
    (fun j => (totalPreorderOn_woCompare lib considerFieldName n).swapIf (o.bits.toNat.testBit j))
    0).of_eq (fun l r _ _ => ordOfInt_BSONObj_woCompare lib o considerFieldName l r)

theorem BSONObj.woCompare_sign_swap (o : KeyOrdering) (considerFieldName : Bool) (l r : BSONObj)
    (hl : BSONValue.NoDecimalList l) (hr : BSONValue.NoDecimalList r) :
    (BSONObj.woCompare lib o considerFieldName r l).sign =
      -(BSONObj.woCompare lib o considerFieldName l r).sign := by
  apply sign_swap_of_ordOfInt
  let n := max (BSONValue.depthList l) (BSONValue.depthList r) + 1
  exact (totalPreorderOn_BSONObj_woCompare lib o considerFieldName n).swap l r
    (allIn_below_mono (allIn_below hl) (by omega)) (allIn_below_mono (allIn_below hr) (by omega))

theorem BSONObj.woCompare_le_trans (o : KeyOrdering) (considerFieldName : Bool) (l r s : BSONObj)
    (hl : BSONValue.NoDecimalList l) (hr : BSONValue.NoDecimalList r)
    (hs : BSONValue.NoDecimalList s) :
    BSONObj.woCompare lib o considerFieldName l r ≤ 0 →
      BSONObj.woCompare lib o considerFieldName r s ≤ 0 →
        BSONObj.woCompare lib o considerFieldName l s ≤ 0 := by
  apply le_trans_of_ordOfInt
  let n := max (max (BSONValue.depthList l) (BSONValue.depthList r)) (BSONValue.depthList s) + 1
  exact (totalPreorderOn_BSONObj_woCompare lib o considerFieldName n).le_trans l r s
    (allIn_below_mono (allIn_below hl) (by omega)) (allIn_below_mono (allIn_below hr) (by omega))
    (allIn_below_mono (allIn_below hs) (by omega))

/-- Everything the comparison promises at once: `BSONElement::woCompare` without field names is
antisymmetric in sign and transitive on values without `NumberDecimal`, canonical types decide
first, numbers compare by their exact values (NaN lowest), and `BSONObj::woCompare` is the
lexicographic order of its elements with the fields the `Ordering` marks reversed. -/
theorem woCompare_total_preorder_exact :
    (∀ x y : BSONElement, x.2.NoDecimal → y.2.NoDecimal →
      (BSONElement.woCompare lib false y x).sign = -(BSONElement.woCompare lib false x y).sign) ∧
    (∀ x y z : BSONElement, x.2.NoDecimal → y.2.NoDecimal → z.2.NoDecimal →
      BSONElement.woCompare lib false x y ≤ 0 → BSONElement.woCompare lib false y z ≤ 0 →
        BSONElement.woCompare lib false x z ≤ 0) ∧
    (∀ x y : BSONElement, x.2.canonicalType < y.2.canonicalType →
      BSONElement.woCompare lib false x y < 0) ∧
    (∀ (x y : BSONElement) (p q : ExtNum), x.2.numberValue? = some p →
      y.2.numberValue? = some q → BSONElement.woCompare lib false x y = ordToInt (compare p q)) ∧
    (∀ (o : KeyOrdering) (considerFieldName : Bool) (l r : BSONObj),
      BSONValue.NoDecimalList l → BSONValue.NoDecimalList r →
        (BSONObj.woCompare lib o considerFieldName r l).sign =
          -(BSONObj.woCompare lib o considerFieldName l r).sign) ∧
    (∀ (o : KeyOrdering) (considerFieldName : Bool) (l r s : BSONObj),
      BSONValue.NoDecimalList l → BSONValue.NoDecimalList r → BSONValue.NoDecimalList s →
        BSONObj.woCompare lib o considerFieldName l r ≤ 0 →
          BSONObj.woCompare lib o considerFieldName r s ≤ 0 →
            BSONObj.woCompare lib o considerFieldName l s ≤ 0) ∧
    (∀ (o : KeyOrdering) (considerFieldName : Bool) (l r : BSONObj),
      ordOfInt (BSONObj.woCompare lib o considerFieldName l r) =
        compareLexFrom (fun i e f =>
          if o.bits.toNat.testBit i then
            (ordOfInt (BSONElement.woCompare lib considerFieldName e f)).swap
          else ordOfInt (BSONElement.woCompare lib considerFieldName e f)) 0 l r) :=
  ⟨woCompare_sign_swap lib, woCompare_le_trans lib, woCompare_neg_of_canonicalType_lt lib,
    woCompare_eq_of_numberValue lib, BSONObj.woCompare_sign_swap lib,
    BSONObj.woCompare_le_trans lib, ordOfInt_BSONObj_woCompare lib⟩

-- The long 2^53 + 1, which no double holds, sorts above the double 2^53 it would round to.
theorem woCompare_long_above_nearby_double :
    BSONValue.NoDecimal (.numberLong 9007199254740993) ∧
      BSONElement.woCompare
        ⟨fun _ => false, fun _ _ => false, fun _ _ => false, fun _ => ⟨0, 0⟩, fun _ => ⟨0, 0⟩,
          fun _ => (⟨0⟩, false)⟩ false
        ([], .numberLong 9007199254740993) ([], .double ⟨0x4340000000000000⟩) = 1 := by
  have hd : (⟨0x4340000000000000⟩ : Binary64).toExt = .finite (2 ^ 53) := by
    simp [Binary64.toExt, Binary64.field, Binary64.fraction, Binary64.value, Binary64.magnitude,
      Binary64.signBit]
    norm_num
  refine ⟨trivial, ?_⟩
  rw [(woCompare_total_preorder_exact _).2.2.2.1 _ _ (.finite 9007199254740993) (.finite (2 ^ 53))
    rfl (by simp [hd])]
  rw [ExtNum.compare_finite, compare_gt_iff_gt.mpr (by norm_num)]
  rfl

end Mongo
