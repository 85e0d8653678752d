import Mathlib.Data.List.Chain
import Mathlib.Data.List.Permutation
import Mongo.BSONOrder
import Mongo.Query.Interval

/-! The ordered interval lists of the query planner: `OrderedIntervalList::isValidFor` and
`complement` (`db/query/index_bounds.cpp`), and `IndexBoundsBuilder::unionize` and
`intersectize` (`db/query/index_bounds_builder.cpp`). A list means the values in some of its
intervals (`OrderedIntervalList.Denotes`).

`complement` walks the list with the boundary the next gap starts from. It meets its
specification for every list `isValidFor(1)` accepts (`complement_exact`), given what the code
assumes of the comparison (`IntervalOrder`), which the BSON order meets
(`woCompare_intervalOrder`). `unionize` sorts by start and then merges neighbours, with a
`verify` that no interval succeeds the next; an empty interval at an included start defeats it
(`unionize_fails_on_empty_interval_at_start`). -/

namespace Mongo.Query

open Mongo.Sorting (TotalPreorder)
open Mongo.Query.Interval

variable {β : Type}

/-- An `OrderedIntervalList`: the intervals of one field, in index order, and the field. -/
structure OrderedIntervalList (β : Type) where
  intervals : List (Interval β)
  name : String
  deriving DecidableEq, Repr

/-- What the interval-list code assumes of the comparison of endpoints: `cmp` (`woCompare`
without field names) is a total preorder, `cmpNamed` (with field names) agrees with it since
the endpoints' names are empty, `MinKey` is least, `MaxKey` greatest, and no value lies strictly
between an `undefined` and a `null`. -/
structure IntervalOrder (cmp cmpNamed : β → β → Int) (type : β → BSONType) (minKey maxKey : β) :
    Prop where
  total : TotalPreorder cmp
  named : ∀ a b, cmpNamed a b = cmp a b
  minKey_le : ∀ x, cmp minKey x ≤ 0
  le_maxKey : ∀ x, cmp x maxKey ≤ 0
  undefined_null : ∀ u n x, type u = .undefined → type n = .jstNULL → cmp u x < 0 → cmp x n < 0 →
    False

/-! ## Endpoints that are BSON values -/

/-- An endpoint as the index bounds hold it: a BSON value under an empty field name. Values with
a `NumberDecimal` are left out: the model leaves their comparisons to the decimal library. -/
structure IndexKey where
  value : BSONValue
  noDecimal : value.NoDecimal

namespace IndexKey

variable (lib : Decimal128Lib)

/-- `woCompare(other, false)` on the elements `{"": value}`. -/
def cmp (a b : IndexKey) : Int := BSONElement.woCompare lib false ([], a.value) ([], b.value)

/-- `woCompare(other)`, which compares the field names too. -/
def cmpNamed (a b : IndexKey) : Int := BSONElement.woCompare lib true ([], a.value) ([], b.value)

def type (a : IndexKey) : BSONType := a.value.type

def minKey : IndexKey := ⟨.minKey, trivial⟩

def maxKey : IndexKey := ⟨.maxKey, trivial⟩

theorem eq_minKey_or_lt (v : BSONValue) : v = .minKey ∨ -1 < v.canonicalType := by
  cases v <;> simp

theorem eq_maxKey_or_lt (v : BSONValue) : v = .maxKey ∨ v.canonicalType < 127 := by
  cases v <;> simp

/-- No canonical type lies strictly between that of `undefined` and that of `null`. -/
theorem canonicalType_le_zero_or_five_le (v : BSONValue) :
    v.canonicalType < 0 ∨ v = .undefined ∨ v = .null ∨ 5 < v.canonicalType := by
  cases v <;> simp

theorem cmp_total : TotalPreorder (cmp lib) where
  neg_iff a b := by
    -- the sign of the comparison flips with its arguments
    have hswap := woCompare_sign_swap lib ([], a.value) ([], b.value) a.noDecimal b.noDecimal
    simp only [cmp]
    rcases lt_trichotomy (BSONElement.woCompare lib false ([], a.value) ([], b.value)) 0
      with h | h | h
    · rw [Int.sign_eq_neg_one_of_neg h] at hswap
      exact ⟨fun _ => Int.sign_eq_one_iff_pos.mp hswap, fun _ => h⟩
    · rw [h, Int.sign_zero, neg_zero, Int.sign_eq_zero_iff_zero] at hswap
      simp [h, hswap]
    · rw [Int.sign_eq_one_of_pos h, Int.sign_eq_neg_one_iff_neg] at hswap
      exact ⟨fun h' => absurd h' (not_lt.mpr h.le), fun h' => absurd h' (not_lt.mpr hswap.le)⟩
  le_trans a b c :=
    woCompare_le_trans lib ([], a.value) ([], b.value) ([], c.value) a.noDecimal b.noDecimal
      c.noDecimal

/-- The BSON order meets what the interval-list code assumes: without `NumberDecimal`,
`woCompare` is a total preorder, it agrees with field names when they are empty, `MinKey` and
`MaxKey` bound it, and nothing lies strictly between `undefined` and `null`. -/
theorem woCompare_intervalOrder :
    IntervalOrder (cmp lib) (cmpNamed lib) type minKey maxKey where
  total := cmp_total lib
  named a b := by
    simp [cmpNamed, cmp, BSONElement.woCompare, StringData.compare]
  minKey_le x := by
    rcases eq_minKey_or_lt x.value with hx | hx
    · -- `x` is `MinKey` itself
      have : x = minKey := by cases x; simp_all [minKey]
      rw [this, (cmp_total lib).refl]
    · exact Int.le_of_lt (woCompare_neg_of_canonicalType_lt lib ([], BSONValue.minKey)
        ([], x.value) (by simpa using hx))
  le_maxKey x := by
    rcases eq_maxKey_or_lt x.value with hx | hx
    · have : x = maxKey := by cases x; simp_all [maxKey]
      rw [this, (cmp_total lib).refl]
    · exact Int.le_of_lt (woCompare_neg_of_canonicalType_lt lib ([], x.value)
        ([], BSONValue.maxKey) (by simpa using hx))
  undefined_null u n x hu hn hux hxn := by
    have hu' : u.value = .undefined := by
      cases hv : u.value <;> simp_all [type]
    have hn' : n.value = .null := by
      cases hv : n.value <;> simp_all [type]
    rcases canonicalType_le_zero_or_five_le x.value with hlt | hx | hx | hlt
    · -- below `undefined`
      have := woCompare_neg_of_canonicalType_lt lib ([], x.value) ([], u.value) (by simp_all)
      have := ((cmp_total lib).neg_iff x u).mp this
      simp only [cmp] at hux this
      omega
    · -- `x` is `undefined`, which compares equal to `u`
      have : cmp lib u x = cmp lib u u := by simp [cmp, hx, hu']
      rw [this, (cmp_total lib).refl] at hux
      omega
    · have : cmp lib x n = cmp lib n n := by simp [cmp, hx, hn']
      rw [this, (cmp_total lib).refl] at hxn
      omega
    · -- above `null`
      have := woCompare_neg_of_canonicalType_lt lib ([], n.value) ([], x.value) (by simp_all)
      have := ((cmp_total lib).neg_iff n x).mp this
      simp only [cmp] at hxn this
      omega


/-- No canonical type lies strictly between that of the booleans and its neighbours. -/
theorem canonicalType_lt_or_bool_or_lt (v : BSONValue) :
    v.canonicalType < 40 ∨ (∃ b, v = .bool b) ∨ 40 < v.canonicalType := by
  cases v <;> simp

/-- `false` and `true` are neighbours in the BSON order: no value lies strictly between them. -/
theorem not_between_false_true (x : IndexKey) (hlo : cmp lib ⟨.bool false, trivial⟩ x < 0)
    (hhi : cmp lib x ⟨.bool true, trivial⟩ < 0) : False := by
  rcases canonicalType_lt_or_bool_or_lt x.value with hlt | ⟨b, hb⟩ | hlt
  · -- below the booleans
    have := woCompare_neg_of_canonicalType_lt lib ([], x.value) ([], .bool false) (by simpa using hlt)
    have := ((cmp_total lib).neg_iff x ⟨.bool false, trivial⟩).mp this
    simp only [cmp] at hlo this
    omega
  · -- a boolean compares equal to `false` or to `true`
    obtain ⟨v, hv⟩ := x
    subst hb
    cases b
    · rw [(cmp_total lib).refl] at hlo
      omega
    · rw [(cmp_total lib).refl] at hhi
      omega
  · -- above the booleans
    have := woCompare_neg_of_canonicalType_lt lib ([], .bool true) ([], x.value) (by simpa using hlt)
    have := ((cmp_total lib).neg_iff ⟨.bool true, trivial⟩ x).mp this
    simp only [cmp] at hhi this
    omega

end IndexKey

namespace OrderedIntervalList

variable (cmp : β → β → Int)

/-- The values in some interval of the list. -/
def Denotes (oil : OrderedIntervalList β) (x : β) : Prop := ∃ i ∈ oil.intervals, i.Contains cmp x

/-- The second loop of `isValidFor`: each interval starts at or past the end of the one before,
in the direction `expectedOrientation`. -/
def validNeighbours (expectedOrientation : Int) : List (Interval β) → Bool
  | a :: b :: l =>
    (let c := (cmp b.start a.end_).sign
     c == 0 || c == expectedOrientation) && validNeighbours expectedOrientation (b :: l)
  | _ => true

/-- `OrderedIntervalList::isValidFor(expectedOrientation)`: every interval runs in the direction
`expectedOrientation` or is a point, and so does each step from one interval to the next. -/
def isValidFor (oil : OrderedIntervalList β) (expectedOrientation : Int) : Bool :=
  oil.intervals.all (fun i =>
    let c := (cmp i.end_ i.start).sign
    (c == 0 && i.startInclusive && i.endInclusive) || c == expectedOrientation) &&
  validNeighbours cmp expectedOrientation oil.intervals

section Complement

variable (cmpNamed : β → β → Int) (type : β → BSONType) (minKey maxKey : β)

/-- The interval `complement` adds before `curInt`: from `curBoundary` to the start of `curInt`,
unless the two meet, or the range is the provably empty one between an `undefined` and a `null`
that an equality to `null` leaves. -/
def complementGap (curBoundary : β) (curInclusive : Bool) (curInt : Interval β) :
    List (Interval β) :=
  let isProvablyEmptyRange := type curBoundary == .undefined && curInclusive &&
    type curInt.start == .jstNULL && curInt.startInclusive
  if (decide (cmpNamed curInt.start curBoundary ≠ 0) || (!curInclusive && !curInt.startInclusive)) &&
      !isProvablyEmptyRange then
    [⟨curBoundary, !curInclusive, curInt.start, !curInt.startInclusive⟩]
  else []

/-- The final interval of `complement`, from the last boundary up to `MaxKey`. -/
def complementTail (curBoundary : β) (curInclusive : Bool) : List (Interval β) :=
  if decide (cmpNamed maxKey curBoundary ≠ 0) || !curInclusive then
    [⟨curBoundary, !curInclusive, maxKey, true⟩]
  else []

/-- The loop of `complement`, with `curBoundary` and `curInclusive`: the end of the last interval
and whether it holds that end. -/
def complementLoop : β → Bool → List (Interval β) → List (Interval β)
  | curBoundary, curInclusive, [] => complementTail cmpNamed maxKey curBoundary curInclusive
  | curBoundary, curInclusive, curInt :: rest =>
    complementGap cmpNamed type curBoundary curInclusive curInt ++
      complementLoop curInt.end_ curInt.endInclusive rest

/-- `OrderedIntervalList::complement()`: the scan starts from `MinKey`, excluded. -/
def complement (oil : OrderedIntervalList β) : OrderedIntervalList β :=
  { oil with intervals := complementLoop cmpNamed type maxKey minKey false oil.intervals }

end Complement

end OrderedIntervalList

namespace IndexBoundsBuilder

variable (cmp : β → β → Int)

/-- The comparator `IntervalComparison` that `unionize` sorts with: by start, and at an equal
start the interval that holds it first. -/
def intervalComparison (lhs rhs : Interval β) : Bool :=
  let wo := cmp lhs.start rhs.start
  if wo ≠ 0 then decide (wo < 0)
  else if lhs.startInclusive = rhs.startInclusive then false
  else lhs.startInclusive

/-- `std::sort(iv.begin(), iv.end(), IntervalComparison)`. The standard leaves the order of
equivalent intervals open; the model takes the merge sort, and what is proved of `unionize`
holds for every order. -/
def sortIntervals (iv : List (Interval β)) : List (Interval β) :=
  iv.mergeSort (fun a b => !intervalComparison cmp b a)

/-- The merge loop of `unionize` at `i`: the intervals before `i` (last first), `iv[i]`, and the
intervals after it. -/
def unionizeLoop : List (Interval β) → Interval β → List (Interval β) →
    Except IntervalError (List (Interval β))
  | done, cur, [] => .ok (done.reverse ++ [cur])
  | done, cur, next :: rest =>
    match Interval.compare cmp cur next with
    -- "This means our sort didn't work."
    | .succeeds => .error .verifyFailed
    | .precedes => unionizeLoop (cur :: done) next rest
    | .equals | .within => unionizeLoop done next rest
    | .contains => unionizeLoop done cur rest
    | .overlapsBefore | .precedesCouldUnion =>
      unionizeLoop done ⟨cur.start, cur.startInclusive, next.end_, next.endInclusive⟩ rest
    -- no branch of the loop matches, and `i` stays where it is
    | .overlapsAfter | .unknown => .error .noProgress

/-- `IndexBoundsBuilder::unionize(oilOut)`. -/
def unionize (oil : OrderedIntervalList β) : Except IntervalError (OrderedIntervalList β) :=
  match sortIntervals cmp oil.intervals with
  | [] => .ok oil
  | first :: rest => do
    let intervals ← unionizeLoop cmp [] first rest
    return { oil with intervals }

section EmptyAtStart

variable {cmp} {x : β} (hx : cmp x x = 0)
include hx

/-- `[x, y]` against the empty `[x, x)`: it starts past the end of `[x, x)`, which leaves `x` out,
and it does not start first, since both hold `x`. -/
theorem compare_eq_succeeds_of_empty_after (y : β) :
    Interval.compare cmp ⟨x, true, y, true⟩ ⟨x, true, x, false⟩ = .succeeds := by
  have hint : Interval.intersects cmp ⟨x, true, y, true⟩ ⟨x, true, x, false⟩ = false := by
    simp [Interval.intersects, hx]
  have hpre : Interval.precedes cmp ⟨x, true, y, true⟩ ⟨x, true, x, false⟩ = false := by
    simp [Interval.precedes, hx]
  simp [Interval.compare, hint, hpre]

/-- The empty `[x, x)` against `[x, y]`: whatever `y` is, `[x, y]` starts past the end of
`[x, x)`, and `[x, x)` does not start first. -/
theorem compare_eq_succeeds_of_empty_before (y : β) :
    Interval.compare cmp ⟨x, true, x, false⟩ ⟨x, true, y, true⟩ = .succeeds := by
  have hint : Interval.intersects cmp ⟨x, true, x, false⟩ ⟨x, true, y, true⟩ = false := by
    simp only [Interval.intersects]
    split_ifs <;> simp_all
  have hpre : Interval.precedes cmp ⟨x, true, x, false⟩ ⟨x, true, y, true⟩ = false := by
    simp [Interval.precedes, hx]
  simp [Interval.compare, hint, hpre]

/-- `unionize` of `[x, y]` and the empty `[x, x)`, in any order: both start at the included `x`,
so the sort may leave them either way, and in either order the first succeeds the second and
`verify(INTERVAL_SUCCEEDS != cmp)` fails. -/
theorem unionize_fails_on_empty_interval_at_start (y : β) (oil : OrderedIntervalList β)
    (hperm : oil.intervals.Perm [⟨x, true, y, true⟩, ⟨x, true, x, false⟩]) :
    unionize cmp oil = .error .verifyFailed := by
  have hsorted : (sortIntervals cmp oil.intervals).Perm
      [⟨x, true, y, true⟩, ⟨x, true, x, false⟩] :=
    (List.mergeSort_perm _ _).trans hperm
  rcases List.perm_pair.mp hsorted with hs | hs
  · simp [unionize, hs, unionizeLoop, compare_eq_succeeds_of_empty_after hx]
  · simp [unionize, hs, unionizeLoop, compare_eq_succeeds_of_empty_before hx]

end EmptyAtStart

/-- The loop of `intersectize` over the two lists from `oilAIdx` and `oilBIdx`: the intersections
it pushes onto `result`. -/
def intersectizeLoop : List (Interval β) → List (Interval β) →
    Except IntervalError (List (Interval β))
  | a :: as, b :: bs =>
    let c := Interval.compare cmp a b
    if c = .unknown then .error .verifyFailed
    else if c = .precedes ∨ c = .precedesCouldUnion then intersectizeLoop as (b :: bs)
    else if c = .succeeds then intersectizeLoop (a :: as) bs
    else do
      let newInt ← a.intersect cmp b c
      let rest ← match c with
        | .equals => intersectizeLoop as bs
        | .within => intersectizeLoop as (b :: bs)
        | .contains => intersectizeLoop (a :: as) bs
        | .overlapsBefore => intersectizeLoop as (b :: bs)
        | .overlapsAfter => intersectizeLoop (a :: as) bs
        | _ => .error .unreachable
      return newInt.toList ++ rest
  | _, _ => .ok []
termination_by as bs => as.length + bs.length

/-- `IndexBoundsBuilder::intersectize(oilA, oilB)`: `oilB` with the intersections. -/
def intersectize (oilA oilB : OrderedIntervalList β) :
    Except IntervalError (OrderedIntervalList β) :=
  if oilA.name ≠ oilB.name then .error .invariantFailure
  else do
    let result ← intersectizeLoop cmp oilA.intervals oilB.intervals
    return { oilB with intervals := result }

end IndexBoundsBuilder

/-! ## `isValidFor(1)` -/

namespace OrderedIntervalList

variable (cmp : β → β → Int)

/-- What `isValidFor(1)` checks, as a property of the intervals: each ascending or a point, and
each starting at or past the end of the one before. -/
def Ascending (l : List (Interval β)) : Prop :=
  (∀ i ∈ l, AscendingOrPoint cmp i) ∧ l.IsChain (fun a b => cmp a.end_ b.start ≤ 0)

variable {cmp} (hcmp : TotalPreorder cmp)
include hcmp

theorem validFor_one_iff (i : Interval β) :
    (((cmp i.end_ i.start).sign == 0 && i.startInclusive && i.endInclusive) ||
      (cmp i.end_ i.start).sign == 1) = true ↔ AscendingOrPoint cmp i := by
  -- the sign of `end` against `start` read as `start` against `end`
  have h₁ : (cmp i.end_ i.start).sign = 1 ↔ cmp i.start i.end_ < 0 :=
    Int.sign_eq_one_iff_pos.trans (hcmp.neg_iff i.start i.end_).symm
  have h₀ : (cmp i.end_ i.start).sign = 0 ↔ cmp i.start i.end_ = 0 :=
    Int.sign_eq_zero_iff_zero.trans (hcmp.zero_iff i.end_ i.start)
  simp only [Bool.or_eq_true, Bool.and_eq_true, beq_iff_eq, h₀, h₁, AscendingOrPoint]
  tauto

theorem validNeighbours_one_iff :
    ∀ l : List (Interval β),
      validNeighbours cmp 1 l = true ↔ l.IsChain (fun a b => cmp a.end_ b.start ≤ 0)
  | [] => by simp [validNeighbours]
  | [_] => by simp [validNeighbours]
  | a :: b :: l => by
    have hstep : ((cmp b.start a.end_).sign == 0 || (cmp b.start a.end_).sign == 1) = true ↔
        cmp a.end_ b.start ≤ 0 := by
      rw [← hcmp.not_lt]
      rcases lt_trichotomy (cmp b.start a.end_) 0 with h | h | h
      · simp [Int.sign_eq_neg_one_of_neg h, h]
      · simp [h]
      · simp [Int.sign_eq_one_of_pos h, not_lt.mpr h.le]
    rw [validNeighbours, Bool.and_eq_true, hstep, validNeighbours_one_iff (b :: l),
      List.isChain_cons_cons]

/-- `isValidFor(1)` accepts exactly the ascending lists. -/
theorem isValidFor_one_iff (oil : OrderedIntervalList β) :
    oil.isValidFor cmp 1 = true ↔ Ascending cmp oil.intervals := by
  rw [isValidFor, Bool.and_eq_true, List.all_eq_true, validNeighbours_one_iff hcmp]
  simp only [validFor_one_iff hcmp]
  rfl

/-- In an ascending list every interval starts at or past a bound the first one starts past. -/
theorem Ascending.le_start {l : List (Interval β)} (hl : Ascending cmp l) {b : β}
    (hb : ∀ J ∈ l.head?, cmp b J.start ≤ 0) : ∀ J ∈ l, cmp b J.start ≤ 0 := by
  induction l generalizing b with
  | nil => simp
  | cons I rest ih =>
    intro J hJ
    rcases List.mem_cons.mp hJ with rfl | hJ
    · exact hb J rfl
    · -- the intervals after `I` start past its end, which is past its start
      have hI : cmp b I.end_ ≤ 0 := by
        rcases hl.1 I List.mem_cons_self with hlt | ⟨heq, -⟩
        · exact hcmp.le_trans _ _ _ (hb I rfl) (Int.le_of_lt hlt)
        · exact hcmp.le_trans _ _ _ (hb I rfl) (Int.le_of_eq heq)
      have hrest : Ascending cmp rest :=
        ⟨fun i hi => hl.1 i (List.mem_cons_of_mem I hi), hl.2.tail⟩
      refine ih hrest (fun K hK => hcmp.le_trans _ _ _ hI ?_) J hJ
      exact hl.2.rel_head? hK

/-- A value at or below the lower bound of an ascending interval or point is below its end. -/
theorem lt_end_of_atOrBelow_start {I : Interval β} (hI : AscendingOrPoint cmp I) {x : β}
    (hx : AtOrBelow cmp I.start (!I.startInclusive) x) : cmp x I.end_ < 0 := by
  rcases hI with hlt | ⟨heq, hsi, -⟩
  · exact hcmp.lt_of_le_of_lt (AtOrBelow.le hx) hlt
  · rw [hsi] at hx
    exact hcmp.lt_of_lt_of_le hx (Int.le_of_eq heq)

/-- Past the end of an ascending interval or point is past a boundary at or below its start. -/
theorem atOrAbove_of_end {I : Interval β} (hI : AscendingOrPoint cmp I) {b : β} {bi : Bool}
    (hb : cmp b I.start ≤ 0) {x : β} (hx : AtOrAbove cmp I.end_ (!I.endInclusive) x) :
    AtOrAbove cmp b (!bi) x := by
  have hse : cmp I.start I.end_ ≤ 0 := by
    rcases hI with hlt | ⟨heq, -⟩
    · exact Int.le_of_lt hlt
    · exact Int.le_of_eq heq
  refine AtOrAbove.of_le hcmp hx (hcmp.le_trans _ _ _ hb hse) fun _ hei => ?_
  -- an end left out is not a point's, so the interval is ascending
  rcases hI with hlt | ⟨-, -, hei'⟩
  · exact hcmp.lt_of_le_of_lt hb hlt
  · simp [hei'] at hei

end OrderedIntervalList

/-! ## `complement` -/

namespace OrderedIntervalList

variable {cmp cmpNamed : β → β → Int} {type : β → BSONType} {minKey maxKey : β}
  (h : IntervalOrder cmp cmpNamed type minKey maxKey)
include h

/-- The gap before `curInt` holds the values past the boundary and below the start of `curInt`:
when the gap is not added, there are none. -/
theorem mem_complementGap (b : β) (bi : Bool) (I : Interval β) (x : β) :
    (∃ i ∈ complementGap cmpNamed type b bi I, i.Contains cmp x) ↔
      AtOrAbove cmp b (!bi) x ∧ AtOrBelow cmp I.start (!I.startInclusive) x := by
  simp only [complementGap]
  split
  · simp [Contains]
  · next hskip =>
    simp only [List.not_mem_nil, false_and, exists_false, false_iff, not_and]
    intro hx hxs
    by_cases hpe : (type b == .undefined && bi && type I.start == .jstNULL && I.startInclusive) = true
    · -- the range between an `undefined` and a `null`
      simp only [Bool.and_eq_true, beq_iff_eq] at hpe
      obtain ⟨⟨⟨hu, rfl⟩, hn⟩, hsi⟩ := hpe
      rw [hsi] at hxs
      exact h.undefined_null b I.start x hu hn hx hxs
    · -- the boundary is the start of `curInt`, and one of the two holds it
      rw [Bool.not_eq_true] at hpe
      simp only [hpe, h.named, Bool.not_false, Bool.and_true, Bool.or_eq_true, decide_eq_true_eq,
        Bool.and_eq_true, Bool.not_eq_true', not_or, not_and, not_not] at hskip
      have hsb : cmp b I.start = 0 := (h.total.zero_iff _ _).mp hskip.1
      cases bi
      · -- `curInt` holds its start, so nothing is below it and at or past the boundary
        have hsi : I.startInclusive = true := by simpa using hskip.2 rfl
        rw [hsi] at hxs
        have := h.total.lt_of_le_of_lt (AtOrAbove.le hx) hxs
        omega
      · -- the boundary is held before, so nothing is past it and at or below the start
        have := h.total.lt_of_lt_of_le hx (AtOrBelow.le hxs)
        omega

/-- The last interval holds every value past the boundary: when it is not added, the boundary is
an included `MaxKey`, and nothing is past it. -/
theorem mem_complementTail (b : β) (bi : Bool) (x : β) :
    (∃ i ∈ complementTail cmpNamed maxKey b bi, i.Contains cmp x) ↔ AtOrAbove cmp b (!bi) x := by
  unfold complementTail
  split
  · simp [Contains, AtOrBelow, h.le_maxKey x]
  · next hskip =>
    simp only [h.named, Bool.or_eq_true, decide_eq_true_eq, Bool.not_eq_true', not_or,
      not_not, Bool.not_eq_false] at hskip
    obtain ⟨hmax, rfl⟩ := hskip
    simp only [List.not_mem_nil, false_and, exists_false, false_iff]
    intro hx
    have hbm : cmp b maxKey = 0 := (h.total.zero_iff _ _).mp hmax
    have := h.total.lt_of_lt_of_le hx (h.le_maxKey x)
    omega

/-- The loop of `complement` from a boundary at or below the first start holds exactly the
values past the boundary that no interval holds. -/
theorem mem_complementLoop :
    ∀ (l : List (Interval β)) (b : β) (bi : Bool), Ascending cmp l →
      (∀ J ∈ l.head?, cmp b J.start ≤ 0) → ∀ x,
        (∃ i ∈ complementLoop cmpNamed type maxKey b bi l, i.Contains cmp x) ↔
          AtOrAbove cmp b (!bi) x ∧ ∀ J ∈ l, ¬ J.Contains cmp x
  | [], b, bi, _, _, x => by
    simp [complementLoop, mem_complementTail h]
  | I :: rest, b, bi, hl, hb, x => by
    have hI : AscendingOrPoint cmp I := hl.1 I List.mem_cons_self
    have hrest : Ascending cmp rest :=
      ⟨fun i hi => hl.1 i (List.mem_cons_of_mem I hi), hl.2.tail⟩
    have hnext : ∀ J ∈ rest.head?, cmp I.end_ J.start ≤ 0 := fun J hJ => hl.2.rel_head? hJ
    -- the intervals after `I` start past its end
    have hafter : ∀ J ∈ rest, cmp I.end_ J.start ≤ 0 := hrest.le_start h.total hnext
    have hbI : cmp b I.start ≤ 0 := hb I rfl
    simp only [complementLoop, List.mem_append, or_and_right, exists_or, List.forall_mem_cons]
    rw [mem_complementGap h, mem_complementLoop rest I.end_ I.endInclusive hrest hnext x,
      not_contains h.total]
    constructor
    · rintro (⟨hx, hxs⟩ | ⟨hxe, hxrest⟩)
      · -- in the gap: below `I`, so below everything after it
        have hlt := lt_end_of_atOrBelow_start h.total hI hxs
        refine ⟨hx, .inl hxs, fun J hJ hJx => ?_⟩
        have := h.total.le_trans _ _ _ (hafter J hJ) (AtOrAbove.le hJx.1)
        exact (h.total.not_le _ _).mpr hlt this
      · exact ⟨atOrAbove_of_end h.total hI hbI hxe, .inr hxe, hxrest⟩
    · rintro ⟨hx, hxs | hxe, hxrest⟩
      · exact .inl ⟨hx, hxs⟩
      · exact .inr ⟨hxe, hxrest⟩

/-- The gap `complement` adds, if any, is ascending or a point. -/
theorem complementGap_eq (bi : Bool) {b : β} {I : Interval β} (hb : cmp b I.start ≤ 0) :
    complementGap cmpNamed type b bi I = [] ∨
      (complementGap cmpNamed type b bi I = [⟨b, !bi, I.start, !I.startInclusive⟩] ∧
        AscendingOrPoint cmp ⟨b, !bi, I.start, !I.startInclusive⟩) := by
  simp only [complementGap]
  split
  · next hadd =>
    refine .inr ⟨rfl, ?_⟩
    simp only [h.named, Bool.and_eq_true, Bool.or_eq_true, decide_eq_true_eq,
      Bool.not_eq_true'] at hadd
    rcases hadd.1 with hne | ⟨hbi, hsi⟩
    · -- the boundary is below the start
      have : cmp b I.start ≠ 0 := fun h0 => hne ((h.total.zero_iff _ _).mp h0)
      exact .inl (show cmp b I.start < 0 by omega)
    · -- both ends left out: at worst the point of the boundary
      rcases lt_or_eq_of_le hb with hlt | heq
      · exact .inl hlt
      · exact .inr ⟨heq, by simp [hbi], by simp [hsi]⟩
  · exact .inl rfl

/-- The last interval `complement` adds, if any, is ascending or a point. -/
theorem complementTail_eq (b : β) (bi : Bool) :
    complementTail cmpNamed maxKey b bi = [] ∨
      (complementTail cmpNamed maxKey b bi = [⟨b, !bi, maxKey, true⟩] ∧
        AscendingOrPoint cmp ⟨b, !bi, maxKey, true⟩) := by
  unfold complementTail
  split
  · next hadd =>
    refine .inr ⟨rfl, ?_⟩
    simp only [h.named, Bool.or_eq_true, decide_eq_true_eq, Bool.not_eq_true'] at hadd
    rcases lt_or_eq_of_le (h.le_maxKey b) with hlt | heq
    · exact .inl hlt
    · -- the boundary is `MaxKey`, so it was left out and the interval is its point
      have hbi : bi = false := hadd.resolve_left fun hne => hne ((h.total.zero_iff _ _).mp heq)
      exact .inr ⟨heq, by simp [hbi], rfl⟩
  · exact .inl rfl

/-- The loop of `complement` from a boundary at or below the first start gives an ascending
list, starting at or past the boundary. -/
theorem complementLoop_ascending :
    ∀ (l : List (Interval β)) (b : β) (bi : Bool), Ascending cmp l →
      (∀ J ∈ l.head?, cmp b J.start ≤ 0) →
        Ascending cmp (complementLoop cmpNamed type maxKey b bi l) ∧
          ∀ K ∈ (complementLoop cmpNamed type maxKey b bi l).head?, cmp b K.start ≤ 0
  | [], b, bi, _, _ => by
    rw [complementLoop]
    rcases complementTail_eq h b bi with htail | ⟨htail, hK⟩
    · simp [htail, Ascending]
    · rw [htail]
      refine ⟨⟨by simpa using hK, .singleton _⟩, ?_⟩
      simpa using Int.le_of_eq (h.total.refl b)
  | I :: rest, b, bi, hl, hb => by
    have hI : AscendingOrPoint cmp I := hl.1 I List.mem_cons_self
    have hrest : Ascending cmp rest :=
      ⟨fun i hi => hl.1 i (List.mem_cons_of_mem I hi), hl.2.tail⟩
    have hbI : cmp b I.start ≤ 0 := hb I rfl
    have hse : cmp I.start I.end_ ≤ 0 := by
      rcases hI with hlt | ⟨heq, -⟩
      · exact Int.le_of_lt hlt
      · exact Int.le_of_eq heq
    obtain ⟨hR, hRhead⟩ := complementLoop_ascending rest I.end_ I.endInclusive hrest
      (fun J hJ => hl.2.rel_head? hJ)
    rw [complementLoop]
    rcases complementGap_eq h bi hbI with hgap | ⟨hgap, hg⟩
    · -- no gap: the list is the rest, which starts past the end of `I`
      rw [hgap, List.nil_append]
      exact ⟨hR, fun K hK =>
        h.total.le_trans _ _ _ (h.total.le_trans _ _ _ hbI hse) (hRhead K hK)⟩
    · -- the gap ends at the start of `I`, at or below where the rest starts
      rw [hgap, List.singleton_append]
      refine ⟨⟨?_, List.isChain_cons.mpr ⟨fun K hK => ?_, hR.2⟩⟩, ?_⟩
      · rintro K (_ | ⟨_, hK⟩)
        · exact hg
        · exact hR.1 K hK
      · exact h.total.le_trans _ _ _ hse (hRhead K hK)
      · simpa using Int.le_of_eq (h.total.refl b)

/-- `complement` holds exactly the values no interval of the list holds. -/
theorem complement_denotes {oil : OrderedIntervalList β} (hvalid : oil.isValidFor cmp 1 = true)
    (x : β) :
    (oil.complement cmpNamed type minKey maxKey).Denotes cmp x ↔ ¬ oil.Denotes cmp x := by
  have hasc := (isValidFor_one_iff h.total oil).mp hvalid
  have hloop := mem_complementLoop h oil.intervals minKey false hasc
    (fun J _ => h.minKey_le J.start) x
  -- the scan starts from `MinKey`, which every value is at or past
  simp only [Bool.not_false, AtOrAbove, if_true, h.minKey_le x, true_and] at hloop
  simpa only [Denotes, complement, not_exists, not_and] using hloop

/-- `complement` keeps a list that `isValidFor(1)` accepts accepted. -/
theorem complement_isValidFor {oil : OrderedIntervalList β}
    (hvalid : oil.isValidFor cmp 1 = true) :
    (oil.complement cmpNamed type minKey maxKey).isValidFor cmp 1 = true := by
  have hasc := (isValidFor_one_iff h.total oil).mp hvalid
  rw [isValidFor_one_iff h.total]
  exact (complementLoop_ascending h oil.intervals minKey false hasc
    (fun J _ => h.minKey_le J.start)).1

/-- `OrderedIntervalList::complement` on a list `isValidFor(1)` accepts: the result holds exactly
the values of `[MinKey, MaxKey]` that the list does not, each of its intervals is ascending or a
point, `isValidFor(1)` accepts it, and its complement holds what the list holds. -/
theorem complement_exact (oil : OrderedIntervalList β) (hvalid : oil.isValidFor cmp 1 = true) :
    (∀ x, (oil.complement cmpNamed type minKey maxKey).Denotes cmp x ↔
      cmp minKey x ≤ 0 ∧ cmp x maxKey ≤ 0 ∧ ¬ oil.Denotes cmp x) ∧
    (∀ i ∈ (oil.complement cmpNamed type minKey maxKey).intervals, AscendingOrPoint cmp i) ∧
    (oil.complement cmpNamed type minKey maxKey).isValidFor cmp 1 = true ∧
    ∀ x, ((oil.complement cmpNamed type minKey maxKey).complement cmpNamed type minKey
      maxKey).Denotes cmp x ↔ oil.Denotes cmp x := by
  have hvalid' := complement_isValidFor h hvalid
  refine ⟨fun x => ?_, ((isValidFor_one_iff h.total _).mp hvalid').1, hvalid', fun x => ?_⟩
  · rw [complement_denotes h hvalid]
    exact ⟨fun hx => ⟨h.minKey_le x, h.le_maxKey x, hx⟩, fun hx => hx.2.2⟩
  · rw [complement_denotes h hvalid', complement_denotes h hvalid, not_not]

end OrderedIntervalList

/-- A decimal library that keys without `NumberDecimal` never consult. -/
def noDecimalLib : Decimal128Lib :=
  ⟨fun _ => false, fun _ _ => false, fun _ _ => false, fun _ => ⟨0, 0⟩, fun _ => ⟨0, 0⟩,
    fun _ => (⟨0⟩, false)⟩

/-- The list `[1, 5)` of `NumberInt`s. -/
def oneToFive : OrderedIntervalList IndexKey :=
  ⟨[⟨⟨.numberInt 1, trivial⟩, true, ⟨.numberInt 5, trivial⟩, false⟩], "a"⟩

theorem complement_exact_oneToFive :
    oneToFive.isValidFor (IndexKey.cmp noDecimalLib) 1 = true ∧
      ∀ x, (oneToFive.complement (IndexKey.cmpNamed noDecimalLib) IndexKey.type IndexKey.minKey
          IndexKey.maxKey).Denotes (IndexKey.cmp noDecimalLib) x ↔
        IndexKey.cmp noDecimalLib IndexKey.minKey x ≤ 0 ∧
          IndexKey.cmp noDecimalLib x IndexKey.maxKey ≤ 0 ∧
          ¬ oneToFive.Denotes (IndexKey.cmp noDecimalLib) x := by
  have hvalid : oneToFive.isValidFor (IndexKey.cmp noDecimalLib) 1 = true := by decide
  exact ⟨hvalid, (OrderedIntervalList.complement_exact
    (IndexKey.woCompare_intervalOrder noDecimalLib) oneToFive hvalid).1⟩


/-- `[MinKey, false]` and `[true, MaxKey]`: every value but those between the two booleans. -/
def allButBetweenBooleans : OrderedIntervalList IndexKey :=
  ⟨[⟨IndexKey.minKey, true, ⟨.bool false, trivial⟩, true⟩,
    ⟨⟨.bool true, trivial⟩, true, IndexKey.maxKey, true⟩], "a"⟩

theorem complement_emits_empty_interval :
    allButBetweenBooleans.isValidFor (IndexKey.cmp noDecimalLib) 1 = true ∧
      (allButBetweenBooleans.complement (IndexKey.cmpNamed noDecimalLib) IndexKey.type
          IndexKey.minKey IndexKey.maxKey).intervals =
        [⟨⟨.bool false, trivial⟩, false, ⟨.bool true, trivial⟩, false⟩] ∧
      ∀ x, ¬ Interval.Contains (IndexKey.cmp noDecimalLib)
        ⟨⟨.bool false, trivial⟩, false, ⟨.bool true, trivial⟩, false⟩ x := by
  refine ⟨by decide, rfl, ?_⟩
  rintro x ⟨hlo, hhi⟩
  exact IndexKey.not_between_false_true noDecimalLib x hlo hhi

end Mongo.Query
