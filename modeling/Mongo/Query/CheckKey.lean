import Mongo.Query.ScanDirection
import Mongo.SkipScan

/-! What `IndexBoundsChecker::checkKey` answers, field by field.

The checker keeps, for each field, the interval it expects the field in. On bounds whose lists
ascend in the direction of their fields (`isValidFor`) and never run empty, every current
interval is one of its field's list (`Fits`), and `checkKey` keeps it so. Its answers mean:

* `VALID`: every field of the key is in its current interval, so the key is in the bounds;
* `MUST_ADVANCE`: at some field `p`, the key falls short of the start of the current interval,
  and so does every key up to the seek point, which is the key up to `p` followed by the starts
  of the current intervals (`MustAdvance`); or the key's field `p` is past every interval, and so
  is every key that agrees with it before `p`, and the seek is to the first key that does not;
* `DONE`: the fields before some `p` are at the included end of their last intervals and field
  `p` is past every interval, so no key from here on is in the bounds (`Done`).

Each loop of the checker gets one lemma, by induction on the fields it has left; `checkKey_spec`
puts them together. -/

namespace Mongo.Query

namespace IndexBoundsChecker

open Mongo.Sorting (TotalPreorder)
open Mongo.Query.Interval OrderedIntervalList

variable {β : Type} {cmp : β → β → Int}

/-! ## The monad -/

theorem elemAt_eq_ok {α : Type} {v : List α} {i : Nat} {a : α} :
    elemAt v i = .ok a ↔ v[i]? = some a := by
  unfold elemAt
  split <;> simp_all

theorem elemAt_of_getElem? {α : Type} {v : List α} {i : Nat} {a : α} (h : v[i]? = some a) :
    elemAt v i = .ok a :=
  elemAt_eq_ok.mpr h

@[simp] theorem pure_eq_ok {α : Type} (a : α) : (pure a : Except CheckerError α) = .ok a := rfl

@[simp] theorem ok_bind {α γ : Type} (a : α) (f : α → Except CheckerError γ) :
    (Except.ok a >>= f) = f a := rfl

theorem bind_eq_ok {α γ : Type} {x : Except CheckerError α} {f : α → Except CheckerError γ}
    {r : γ} : (x >>= f) = .ok r ↔ ∃ a, x = .ok a ∧ f a = .ok r := by
  cases x with
  | error e => simp [bind, Except.bind]
  | ok a => simp [bind, Except.bind]

/-! ## The checker's invariant -/

variable (cmp) in
/-- The checker over bounds it can walk: a direction and a current interval for every field,
each field's list ascending in its direction, never empty, and shorter than a `size_t` counts. -/
structure Fits (c : IndexBoundsChecker β) : Prop where
  length_curInterval : c.curInterval.length = c.fields.length
  length_expectedDirection : c.expectedDirection.length = c.fields.length
  direction : ∀ (j : Nat) e, c.expectedDirection[j]? = some e → e = 1 ∨ e = -1
  ascending : ∀ (j : Nat) oil e, c.fields[j]? = some oil → c.expectedDirection[j]? = some e →
    Ascending (dirCmp cmp e) oil.intervals
  nonempty : ∀ oil ∈ c.fields, oil.intervals ≠ []
  size : ∀ oil ∈ c.fields, oil.intervals.length < 2 ^ 64
  curInterval_lt : ∀ (j : Nat) oil cur, c.fields[j]? = some oil → c.curInterval[j]? = some cur →
    cur < oil.intervals.length

namespace Fits

variable {c : IndexBoundsChecker β} (hc : Fits cmp c)
include hc

/-- Each field below the length has its list, its current interval and its direction. -/
theorem exists_field {j : Nat} (hj : j < c.fields.length) :
    ∃ oil cur e I, c.fields[j]? = some oil ∧ c.curInterval[j]? = some cur ∧
      c.expectedDirection[j]? = some e ∧ oil.intervals[cur]? = some I := by
  have hj₁ : j < c.curInterval.length := by rw [hc.length_curInterval]; exact hj
  have hj₂ : j < c.expectedDirection.length := by rw [hc.length_expectedDirection]; exact hj
  have hoil : c.fields[j]? = some c.fields[j] := List.getElem?_eq_getElem hj
  have hcur : c.curInterval[j]? = some c.curInterval[j] := List.getElem?_eq_getElem hj₁
  have hI := hc.curInterval_lt j _ _ hoil hcur
  exact ⟨_, _, _, _, hoil, hcur, List.getElem?_eq_getElem hj₂, List.getElem?_eq_getElem hI⟩

/-- Another `_curInterval` of the same length, each entry an interval of its field, keeps the
invariant. -/
theorem withCurInterval {cur' : List Nat} (hlen : cur'.length = c.fields.length)
    (hlt : ∀ (j : Nat) (oil : OrderedIntervalList β) (k : Nat), c.fields[j]? = some oil →
      cur'[j]? = some k → k < oil.intervals.length) :
    Fits cmp { c with curInterval := cur' } :=
  ⟨hlen, hc.length_expectedDirection, hc.direction, hc.ascending, hc.nonempty, hc.size, hlt⟩

/-- Starting the fields from `first` on over at their first interval keeps the invariant. -/
theorem resetIntervalsFrom (first : Nat) :
    Fits cmp { c with curInterval := resetIntervalsFrom c.curInterval first } := by
  refine hc.withCurInterval (by simp [IndexBoundsChecker.resetIntervalsFrom, hc.length_curInterval])
    fun j oil k hoil hk => ?_
  simp only [IndexBoundsChecker.resetIntervalsFrom, List.getElem?_mapIdx, Option.map_eq_some_iff]
    at hk
  obtain ⟨cur, hcur, rfl⟩ := hk
  split
  · exact List.length_pos_iff.mpr (hc.nonempty oil (List.mem_of_getElem? hoil))
  · exact hc.curInterval_lt j oil cur hoil hcur

/-- Pointing field `j` at an interval of its list keeps the invariant. -/
theorem set {j k : Nat} (hk : ∀ oil, c.fields[j]? = some oil → k < oil.intervals.length) :
    Fits cmp { c with curInterval := c.curInterval.set j k } := by
  refine hc.withCurInterval (by simp [hc.length_curInterval]) fun i oil k' hoil hk' => ?_
  rw [List.getElem?_set] at hk'
  split at hk'
  · next hij =>
    subst hij
    split at hk' <;> simp_all
  · exact hc.curInterval_lt i oil k' hoil hk'

end Fits

/-! ## Where each field is -/

variable (cmp) in
/-- Where field `j` of `key` is against the interval the checker expects it in, when the
checker and the key have that field. -/
def locationAt (c : IndexBoundsChecker β) (key : List β) (j : Nat) : Option Location := do
  let field ← c.fields[j]?
  let cur ← c.curInterval[j]?
  let interval ← field.intervals[cur]?
  let x ← key[j]?
  let e ← c.expectedDirection[j]?
  pure (intervalCmp cmp interval x e)

theorem locationAt_eq_some {c : IndexBoundsChecker β} {key : List β} {j : Nat} {l : Location} :
    locationAt cmp c key j = some l ↔
      ∃ oil cur I x e, c.fields[j]? = some oil ∧ c.curInterval[j]? = some cur ∧
        oil.intervals[cur]? = some I ∧ key[j]? = some x ∧ c.expectedDirection[j]? = some e ∧
        intervalCmp cmp I x e = l := by
  simp [locationAt, Option.bind_eq_some_iff]

/-- Under the invariant every field of a key of the right length has a location. -/
theorem Fits.exists_locationAt {c : IndexBoundsChecker β} (hc : Fits cmp c) {key : List β}
    (hkey : key.length = c.fields.length) {j : Nat} (hj : j < c.fields.length) :
    ∃ l, locationAt cmp c key j = some l := by
  obtain ⟨oil, cur, e, I, hoil, hcur, he, hI⟩ := hc.exists_field hj
  have hx : key[j]? = some key[j] := List.getElem?_eq_getElem (by rw [hkey]; exact hj)
  exact ⟨_, locationAt_eq_some.mpr ⟨oil, cur, I, _, e, hoil, hcur, hI, hx, he, rfl⟩⟩

/-- The location of a field does not depend on the current intervals of the others. -/
theorem locationAt_congr {c c' : IndexBoundsChecker β} {key : List β} {j : Nat}
    (hfields : c'.fields = c.fields) (hdir : c'.expectedDirection = c.expectedDirection)
    (hcur : c'.curInterval[j]? = c.curInterval[j]?) :
    locationAt cmp c' key j = locationAt cmp c key j := by
  simp only [locationAt, hfields, hdir, hcur]

/-! ## `findLeftmostProblem` -/

/-- `findLeftmostProblem` from field `i`: either every field up to `i + k` is in its current
interval, or it names the first that is not, and where it is. -/
theorem findLeftmostProblemFrom_spec (c : IndexBoundsChecker β) (key : List β) :
    ∀ k i, (∀ j, i ≤ j → j < i + k → ∃ l, locationAt cmp c key j = some l) →
      (findLeftmostProblemFrom cmp c key i k = .ok none ∧
          ∀ j, i ≤ j → j < i + k → locationAt cmp c key j = some .WITHIN) ∨
        ∃ p l, findLeftmostProblemFrom cmp c key i k = .ok (some (p, l)) ∧ i ≤ p ∧ p < i + k ∧
          l ≠ .WITHIN ∧ locationAt cmp c key p = some l ∧
          ∀ j, i ≤ j → j < p → locationAt cmp c key j = some .WITHIN
  | 0, i, _ => .inl ⟨rfl, fun j hij hj => absurd hj (by omega)⟩
  | k + 1, i, hdef => by
    obtain ⟨l, hl⟩ := hdef i le_rfl (by omega)
    obtain ⟨oil, cur, I, x, e, hoil, hcur, hI, hx, he, rfl⟩ := locationAt_eq_some.mp hl
    have hstep : findLeftmostProblemFrom cmp c key i (k + 1) =
        if intervalCmp cmp I x e ≠ .WITHIN then pure (some (i, intervalCmp cmp I x e))
        else findLeftmostProblemFrom cmp c key (i + 1) k := by
      simp only [findLeftmostProblemFrom, elemAt_of_getElem? hoil, ok_bind, elemAt_of_getElem? hcur,
        elemAt_of_getElem? hI, elemAt_of_getElem? hx, elemAt_of_getElem? he]
    by_cases hw : intervalCmp cmp I x e = .WITHIN
    · -- field `i` is in its interval: the answer is that of the fields after it
      rw [if_neg (not_not.mpr hw)] at hstep
      rw [hstep]
      have hrest := findLeftmostProblemFrom_spec c key k (i + 1)
        fun j hij hj => hdef j (by omega) (by omega)
      rcases hrest with ⟨hnone, hall⟩ | ⟨p, l, hp, hip, hpk, hl', hlp, hbefore⟩
      · refine .inl ⟨hnone, fun j hij hj => ?_⟩
        rcases Nat.eq_or_lt_of_le hij with rfl | hij
        · rw [hl, hw]
        · exact hall j hij (by omega)
      · refine .inr ⟨p, l, hp, by omega, by omega, hl', hlp, fun j hij hjp => ?_⟩
        rcases Nat.eq_or_lt_of_le hij with rfl | hij
        · rw [hl, hw]
        · exact hbefore j hij hjp
    · rw [if_pos hw] at hstep
      exact .inr ⟨i, _, hstep, le_rfl, by omega, hw, hl, fun j hij hji => absurd hji (by omega)⟩

/-! ## What the answers say -/

/-- `P` holds of field `j`: of its list of intervals, its direction, and `key`'s value there. -/
def AtField (c : IndexBoundsChecker β) (key : List β) (j : Nat)
    (P : OrderedIntervalList β → Int → β → Prop) : Prop :=
  ∀ oil e x, c.fields[j]? = some oil → c.expectedDirection[j]? = some e → key[j]? = some x →
    P oil e x

variable (cmp) in
/-- The keys a scan over the bounds returns: each field in some interval of its list, in the
field's direction. -/
def InBounds (c : IndexBoundsChecker β) (key : List β) : Prop :=
  key.length = c.fields.length ∧
    ∀ j, AtField c key j fun oil e x => oil.Denotes (dirCmp cmp e) x

variable (cmp) in
/-- Field `p` of `key` is past every interval of its list, and so is every value from it on. -/
def PastAll (c : IndexBoundsChecker β) (key : List β) (p : Nat) : Prop :=
  AtField c key p fun oil e x => ∀ y, dirCmp cmp e x y ≤ 0 → ¬ oil.Denotes (dirCmp cmp e) y

variable (cmp) in
/-- `DONE`: the fields of `key` before some `p` cannot go further in their lists, and field `p`
is past all of its intervals. -/
def Done (c : IndexBoundsChecker β) (key : List β) : Prop :=
  ∃ p < c.fields.length,
    (∀ j < p, AtField c key j fun oil e x => ∀ y, dirCmp cmp e x y < 0 → ¬ oil.Denotes (dirCmp cmp e) y) ∧
    PastAll cmp c key p

/-- The fields of the seek point from `p` on are the starts of the checker's current
intervals. -/
def SuffixAtStarts (c : IndexBoundsChecker β) (out : IndexSeekPoint β) (p : Nat) : Prop :=
  out.keySuffix.length = c.fields.length ∧ out.suffixInclusive.length = c.fields.length ∧
    ∀ j oil cur I, p ≤ j → c.fields[j]? = some oil → c.curInterval[j]? = some cur →
      oil.intervals[cur]? = some I →
      out.keySuffix[j]? = some (some I.start) ∧ out.suffixInclusive[j]? = some I.startInclusive

variable (cmp) in
/-- Field `p` of `key` is below the start of its current interval, and every value from it up to
that start is in no interval; from `p + 1` on, every value below the start of the current
interval is in no interval. -/
def BehindFrom (c : IndexBoundsChecker β) (key : List β) (p : Nat) : Prop :=
  ∀ j oil cur e I, p ≤ j → c.fields[j]? = some oil → c.curInterval[j]? = some cur →
    c.expectedDirection[j]? = some e → oil.intervals[cur]? = some I →
    (∀ x, j = p → key[p]? = some x →
      ¬ AtOrAbove (dirCmp cmp e) I.start I.startInclusive x ∧
      ∀ y, dirCmp cmp e x y ≤ 0 → ¬ AtOrAbove (dirCmp cmp e) I.start I.startInclusive y →
        ¬ oil.Denotes (dirCmp cmp e) y) ∧
    (p < j → ∀ y, ¬ AtOrAbove (dirCmp cmp e) I.start I.startInclusive y →
      ¬ oil.Denotes (dirCmp cmp e) y)

variable (cmp) in
/-- `MUST_ADVANCE`: the seek point is `key` up to `prefixLen`, followed either by the starts of
the current intervals, which field `prefixLen` of `key` is behind, or by nothing, exclusive, with
field `prefixLen` past every interval. -/
structure MustAdvance (c : IndexBoundsChecker β) (key : List β) (out : IndexSeekPoint β) :
    Prop where
  keyPrefix : out.keyPrefix = key
  prefixLen_lt : out.prefixLen < c.fields.length
  seek : (out.prefixExclusive = false ∧ SuffixAtStarts c out out.prefixLen ∧
      BehindFrom cmp c key out.prefixLen) ∨
    (out.prefixExclusive = true ∧ 0 < out.prefixLen ∧ PastAll cmp c key out.prefixLen)

variable (cmp) in
/-- What each answer of `checkKey` says of `key`, with the checker and seek point it leaves. -/
def Answer (c : IndexBoundsChecker β) (key : List β) (out : IndexSeekPoint β) : KeyState → Prop
  | .VALID => ∀ j < c.fields.length, locationAt cmp c key j = some .WITHIN
  | .MUST_ADVANCE => MustAdvance cmp c key out
  | .DONE => Done cmp c key

/-! ## `spaceLeftToAdvance` -/

variable (cmp) in
/-- Field `j` is at its last interval, which holds its end, and `key` is not before that end. -/
def AtLastEnd (c : IndexBoundsChecker β) (key : List β) (j : Nat) : Prop :=
  ∀ oil cur e I x, c.fields[j]? = some oil → c.curInterval[j]? = some cur →
    c.expectedDirection[j]? = some e → oil.intervals[cur]? = some I → key[j]? = some x →
    cur + 1 = oil.intervals.length ∧ I.endInclusive = true ∧ ¬ dirCmp cmp e x I.end_ < 0

/-- `spaceLeftToAdvance` from field `i`: when it finds no space, every field up to `i + k` is at
the end of its last interval. -/
theorem spaceLeftToAdvanceFrom_spec {c : IndexBoundsChecker β} (hc : Fits cmp c) {key : List β}
    (hkey : key.length = c.fields.length) :
    ∀ k i, i + k ≤ c.fields.length → ∃ b, spaceLeftToAdvanceFrom cmp c key i k = .ok b ∧
      (b = false → ∀ j, i ≤ j → j < i + k → AtLastEnd cmp c key j)
  | 0, i, _ => ⟨false, rfl, fun _ j hij hj => absurd hj (by omega)⟩
  | k + 1, i, hk => by
    obtain ⟨oil, cur, e, I, hoil, hcur, he, hI⟩ := hc.exists_field (j := i) (by omega)
    have hx : key[i]? = some key[i] := List.getElem?_eq_getElem (by omega)
    have hmem := List.mem_of_getElem? hoil
    -- `intervals.size() - 1` does not wrap: the list is not empty and fits a `size_t`
    have hlast : (oil.intervals.length + (2 ^ 64 - 1)) % 2 ^ 64 = oil.intervals.length - 1 := by
      have h₁ := List.length_pos_iff.mpr (hc.nonempty oil hmem)
      have h₂ := hc.size oil hmem
      omega
    obtain ⟨b, hb, hrest⟩ := spaceLeftToAdvanceFrom_spec hc hkey k (i + 1) (by omega)
    simp only [spaceLeftToAdvanceFrom, elemAt_of_getElem? hoil, ok_bind, elemAt_of_getElem? hcur,
      hlast]
    by_cases hcl : cur = oil.intervals.length - 1
    · subst hcl
      simp only [ne_eq, not_true_eq_false, if_false, elemAt_of_getElem? hI, ok_bind]
      by_cases hend : I.endInclusive = true
      · simp only [hend, Bool.not_true, Bool.false_eq_true, if_false, elemAt_of_getElem? hx,
          ok_bind, elemAt_of_getElem? he]
        by_cases hdir : -e = (cmp key[i] I.end_).sign
        · exact ⟨true, by simp [hdir], fun h => nomatch h⟩
        · refine ⟨b, by simp [hdir, hb], fun hb' j hij hj => ?_⟩
          rcases Nat.eq_or_lt_of_le hij with rfl | hij
          · intro oil' cur' e' I' x' hoil' hcur' he' hI' hx'
            simp only [hoil, hcur, he, hx, Option.some.injEq] at hoil' hcur' he' hx'
            subst hoil' hcur' he' hx'
            rw [hI, Option.some.injEq] at hI'
            subst hI'
            refine ⟨by have := List.length_pos_iff.mpr (hc.nonempty oil hmem); omega, hend, ?_⟩
            rw [← sign_eq_neg_dir_iff (hc.direction i e he)]
            exact fun h => hdir h.symm
          · exact hrest hb' j hij (by omega)
      · exact ⟨true, by simp [hend], fun h => nomatch h⟩
    · exact ⟨true, by simp [hcl], fun h => nomatch h⟩

/-- A field in its current interval and at the end of its last one cannot go further: every
value past it is in no interval of its list. -/
theorem Fits.atField_of_atLastEnd {c : IndexBoundsChecker β} (hc : Fits cmp c) (hcmp : TotalPreorder cmp)
    {key : List β} {j : Nat} (hend : AtLastEnd cmp c key j)
    (hwithin : locationAt cmp c key j = some .WITHIN) :
    AtField c key j fun oil e x => ∀ y, dirCmp cmp e x y < 0 → ¬ oil.Denotes (dirCmp cmp e) y := by
  intro oil e x hoil he hx y hxy
  obtain ⟨oil', cur, I, x', e', hoil', hcur, hI, hx', he', hloc⟩ := locationAt_eq_some.mp hwithin
  simp only [hoil, he, hx, Option.some.injEq] at hoil' he' hx'
  subst hoil' he' hx'
  have hdir := hc.direction j e he
  have hc' := hcmp.dirCmp hdir
  obtain ⟨hlast, hincl, hnotlt⟩ := hend oil cur e I x hoil hcur he hI hx
  -- `x` is at the end of the last interval
  have hxe : dirCmp cmp e x I.end_ = 0 := by
    have := AtOrBelow.le ((intervalCmp_eq_within_iff hcmp hdir I x).mp hloc).2
    omega
  have hgetLast : oil.intervals.getLast? = some I := by
    rw [List.getLast?_eq_getElem?, ← hlast, Nat.add_sub_cancel]
    exact hI
  have hasc := hc.ascending j oil e hoil he
  rintro ⟨K, hK, hKy⟩
  -- `y` is past the end of the last interval, which is at or past the end of `K`
  have hEy : dirCmp cmp e I.end_ y < 0 :=
    hc'.lt_of_le_of_lt (le_of_eq ((hc'.zero_iff _ _).mp hxe)) hxy
  have hKy' : dirCmp cmp e K.end_ y < 0 := hc'.lt_of_le_of_lt (hasc.end_le_getLast hc' hgetLast K hK) hEy
  have := (hc'.neg_iff _ _).mp hKy'
  have := AtOrBelow.le hKy.2
  omega

/-! ## Moving the current intervals -/

theorem getElem?_resetIntervalsFrom (cur : List Nat) (first j : Nat) :
    (resetIntervalsFrom cur first)[j]? = cur[j]?.map fun k => if first ≤ j then 0 else k := by
  simp [resetIntervalsFrom, List.getElem?_mapIdx]

theorem locationAt_set_of_ne {c : IndexBoundsChecker β} {key : List β} {f j k : Nat} (hj : j ≠ f) :
    locationAt cmp { c with curInterval := c.curInterval.set f k } key j = locationAt cmp c key j :=
  locationAt_congr rfl rfl (List.getElem?_set_ne (Ne.symm hj))

theorem locationAt_resetIntervalsFrom_of_lt {c : IndexBoundsChecker β} {key : List β}
    {first j : Nat} (hj : j < first) :
    locationAt cmp { c with curInterval := resetIntervalsFrom c.curInterval first } key j =
      locationAt cmp c key j := by
  refine locationAt_congr rfl rfl ?_
  rw [getElem?_resetIntervalsFrom]
  cases c.curInterval[j]? <;> simp [Nat.not_le.mpr hj]

theorem curInterval_resetIntervalsFrom {cur : List Nat} {first j k : Nat} (hj : first ≤ j)
    (hk : (resetIntervalsFrom cur first)[j]? = some k) : k = 0 := by
  rw [getElem?_resetIntervalsFrom, Option.map_eq_some_iff] at hk
  obtain ⟨_, -, hk⟩ := hk
  simpa [hj] using hk.symm

/-- What makes the key behind the current intervals from `p` on: field `p` of `key` behind its
interval, with nothing in the list from it up to the interval's start, and every field after `p`
at its first interval. -/
theorem Fits.behindFrom {c : IndexBoundsChecker β} (hc : Fits cmp c) (hcmp : TotalPreorder cmp)
    {key : List β} {p : Nat}
    (hat : ∀ oil cur e I x, c.fields[p]? = some oil → c.curInterval[p]? = some cur →
      c.expectedDirection[p]? = some e → oil.intervals[cur]? = some I → key[p]? = some x →
      ¬ AtOrAbove (dirCmp cmp e) I.start I.startInclusive x ∧
      ∀ y, dirCmp cmp e x y ≤ 0 → ¬ AtOrAbove (dirCmp cmp e) I.start I.startInclusive y →
        ¬ oil.Denotes (dirCmp cmp e) y)
    (hzero : ∀ j cur, p < j → c.curInterval[j]? = some cur → cur = 0) :
    BehindFrom cmp c key p := by
  intro j oil cur e I hpj hoil hcur he hI
  refine ⟨fun x hjp hx => ?_, fun hpj' y hy => ?_⟩
  · subst hjp
    exact hat oil cur e I x hoil hcur he hI hx
  · rw [hzero j cur hpj' hcur] at hI
    rintro ⟨K, hK, hKy⟩
    exact (hc.ascending j oil e hoil he).not_contains_of_below_first
      (hcmp.dirCmp (hc.direction j e he)) hI hy K hK hKy

/-- A field behind its first interval is in no interval, nor is any value below that start. -/
theorem Fits.behind_first {c : IndexBoundsChecker β} (hc : Fits cmp c) (hcmp : TotalPreorder cmp)
    {key : List β} {p : Nat} (hloc : locationAt cmp c key p = some .BEHIND)
    (hcur : c.curInterval[p]? = some 0) :
    ∀ oil cur e I x, c.fields[p]? = some oil → c.curInterval[p]? = some cur →
      c.expectedDirection[p]? = some e → oil.intervals[cur]? = some I → key[p]? = some x →
      ¬ AtOrAbove (dirCmp cmp e) I.start I.startInclusive x ∧
      ∀ y, dirCmp cmp e x y ≤ 0 → ¬ AtOrAbove (dirCmp cmp e) I.start I.startInclusive y →
        ¬ oil.Denotes (dirCmp cmp e) y := by
  intro oil cur e I x hoil hcur' he hI hx
  obtain ⟨oil', cur'', I', x', e', hoil', hcur'', hI', hx', he', hloc'⟩ := locationAt_eq_some.mp hloc
  simp only [hoil, hcur, he, hx, Option.some.injEq] at hoil' hcur' hcur'' he' hx'
  subst hoil' hcur' hcur'' he' hx'
  rw [hI, Option.some.injEq] at hI'
  subst hI'
  have hdir := hc.direction p e he
  refine ⟨(intervalCmp_eq_behind_iff hcmp hdir I x).mp hloc', fun y _ hy => ?_⟩
  rintro ⟨K, hK, hKy⟩
  exact (hc.ascending p oil e hoil he).not_contains_of_below_first (hcmp.dirCmp hdir) hI hy K hK hKy

/-! ## The seek point -/

/-- `setIntervalStartsFrom` from field `j`: the fields of the suffix from `j` up to `j + k` are
the starts of the current intervals, those before `j` are as they were, and nothing else of the
seek point changes. -/
theorem setIntervalStartsFrom_spec {c : IndexBoundsChecker β} (hc : Fits cmp c) :
    ∀ k j (out : IndexSeekPoint β), j + k ≤ c.fields.length →
      out.keySuffix.length = c.fields.length → out.suffixInclusive.length = c.fields.length →
      ∃ ks si, setIntervalStartsFrom c j k out =
          .ok { out with keySuffix := ks, suffixInclusive := si } ∧
        ks.length = c.fields.length ∧ si.length = c.fields.length ∧
        (∀ i < j, ks[i]? = out.keySuffix[i]? ∧ si[i]? = out.suffixInclusive[i]?) ∧
        ∀ i oil cur I, j ≤ i → i < j + k → c.fields[i]? = some oil → c.curInterval[i]? = some cur →
          oil.intervals[cur]? = some I → ks[i]? = some (some I.start) ∧ si[i]? = some I.startInclusive
  | 0, j, out, _, hks, hsi =>
    ⟨out.keySuffix, out.suffixInclusive, rfl, hks, hsi, fun _ _ => ⟨rfl, rfl⟩,
      fun _ _ _ _ hji hi => absurd hi (by omega)⟩
  | k + 1, j, out, hjk, hks, hsi => by
    obtain ⟨oil, cur, e, I, hoil, hcur, -, hI⟩ := hc.exists_field (j := j) (by omega)
    obtain ⟨ks, si, hset, hks', hsi', hbefore, hfrom⟩ := setIntervalStartsFrom_spec hc k (j + 1)
      { out with keySuffix := out.keySuffix.set j (some I.start),
                 suffixInclusive := out.suffixInclusive.set j I.startInclusive }
      (by omega) (by simp [hks]) (by simp [hsi])
    refine ⟨ks, si, ?_, hks', hsi', fun i hi => ?_, fun i oil' cur' I' hji hi hoil' hcur' hI' => ?_⟩
    · simp only [setIntervalStartsFrom, elemAt_of_getElem? hoil, ok_bind, elemAt_of_getElem? hcur,
        elemAt_of_getElem? hI]
      exact hset
    · obtain ⟨h₁, h₂⟩ := hbefore i (by omega)
      simp only [List.getElem?_set_ne (Nat.ne_of_lt hi).symm] at h₁ h₂
      exact ⟨h₁, h₂⟩
    · rcases Nat.eq_or_lt_of_le hji with rfl | hji
      · -- field `j` was set here, and the later loop leaves it
        simp only [hoil, hcur, Option.some.injEq] at hoil' hcur'
        subst hoil' hcur'
        rw [hI, Option.some.injEq] at hI'
        subst hI'
        obtain ⟨h₁, h₂⟩ := hbefore _ (Nat.lt_succ_self _)
        rw [h₁, h₂, List.getElem?_set_self (by omega), List.getElem?_set_self (by omega)]
        exact ⟨rfl, rfl⟩
      · exact hfrom i oil' cur' I' hji (by omega) hoil' hcur' hI'

/-- The seek point of the answers that send the scan to the starts of the current intervals. -/
theorem advanceToIntervalStarts_spec {c : IndexBoundsChecker β} (hc : Fits cmp c) (key : List β)
    {p : Nat} (hp : p ≤ c.fields.length) {out : IndexSeekPoint β}
    (hks : out.keySuffix.length = c.fields.length) (hsi : out.suffixInclusive.length = c.fields.length) :
    ∃ out', advanceToIntervalStarts c key p out = .ok out' ∧ out'.keyPrefix = key ∧
      out'.prefixLen = p ∧ out'.prefixExclusive = false ∧ SuffixAtStarts c out' p := by
  obtain ⟨ks, si, hset, hks', hsi', -, hfrom⟩ := setIntervalStartsFrom_spec hc
    (c.curInterval.length - p) p { out with keyPrefix := key, prefixLen := p, prefixExclusive := false }
    (by rw [hc.length_curInterval]; omega) hks hsi
  refine ⟨_, hset, rfl, rfl, rfl, hks', hsi', fun j oil cur I hpj hoil hcur hI => ?_⟩
  have hj : j < c.fields.length := (List.getElem?_eq_some_iff.mp hoil).1
  exact hfrom j oil cur I hpj (by rw [hc.length_curInterval]; omega) hoil hcur hI

/-! ## The `while` loop of `checkKey` -/

/-- `checkKey`'s `while` loop from field `f`, with the fields before it in their current
intervals: it looks up an interval for each next field and answers as `Answer` says, keeping
the invariant. -/
theorem checkAheadFrom_spec (hcmp : TotalPreorder cmp) (key : List β) :
    ∀ k (c : IndexBoundsChecker β) (out : IndexSeekPoint β) f, Fits cmp c →
      key.length = c.fields.length → f + k = c.fields.length →
      out.keySuffix.length = c.fields.length → out.suffixInclusive.length = c.fields.length →
      (∀ j < f, locationAt cmp c key j = some .WITHIN) →
      ∃ state c' out', checkAheadFrom cmp key key c out f k = .ok (state, c', out') ∧
        Fits cmp c' ∧ c'.fields = c.fields ∧ c'.expectedDirection = c.expectedDirection ∧
        Answer cmp c' key out' state
  | 0, c, out, f, hc, _, hf, _, _, hwithin => by
    have hlen : (f == c.curInterval.length) = true := by
      rw [hc.length_curInterval, beq_iff_eq]
      omega
    refine ⟨.VALID, c, out, ?_, hc, rfl, rfl, fun j hj => hwithin j (by omega)⟩
    simp [checkAheadFrom, verify, hlen]
  | k + 1, c, out, f, hc, hkey, hf, hks, hsi, hwithin => by
    obtain ⟨oil, cur, e, I, hoil, hcur, he, hI⟩ := hc.exists_field (j := f) (by omega)
    have hx : key[f]? = some key[f] := List.getElem?_eq_getElem (by omega)
    have hdir := hc.direction f e he
    obtain ⟨loc, idx, hfound⟩ := findIntervalForField_ok cmp e key[f] oil
    simp only [checkAheadFrom, elemAt_of_getElem? hx, ok_bind, elemAt_of_getElem? hoil,
      elemAt_of_getElem? he, hfound]
    have hflt : f < c.curInterval.length := by rw [hc.length_curInterval]; omega
    cases loc with
    | WITHIN =>
      -- field `f` is in the interval found, which becomes its current one
      obtain ⟨J, hJ, hxJ⟩ := findIntervalForField_within hcmp hdir hfound rfl
      have hc₁ : Fits cmp { c with curInterval := c.curInterval.set f idx } :=
        hc.set fun oil' hoil' => by
          rw [hoil, Option.some.injEq] at hoil'
          subst hoil'
          exact (List.getElem?_eq_some_iff.mp hJ).1
      have hwithin₁ : ∀ j < f + 1,
          locationAt cmp { c with curInterval := c.curInterval.set f idx } key j = some .WITHIN := by
        intro j hj
        by_cases hjf : j = f
        · rw [hjf]
          exact locationAt_eq_some.mpr ⟨oil, idx, J, _, e, hoil, List.getElem?_set_self hflt, hJ,
            hx, he, (intervalCmp_eq_within_iff hcmp hdir J _).mpr hxJ⟩
        · rw [locationAt_set_of_ne hjf]
          exact hwithin j (by omega)
      exact checkAheadFrom_spec hcmp key k _ out (f + 1) hc₁ hkey (by dsimp only; omega) hks hsi
        hwithin₁
    | BEHIND =>
      -- field `f` is behind the interval found: seek to its start, the fields after it at their
      -- first intervals
      obtain ⟨J, hJ, hxJ, hskip⟩ :=
        findIntervalForField_behind hcmp hdir hfound (hc.ascending f oil e hoil he) rfl
      have hc₂ : Fits cmp
          { c with curInterval := resetIntervalsFrom (c.curInterval.set f idx) (f + 1) } :=
        (hc.set (j := f) (k := idx) fun oil' hoil' => by
          rw [hoil, Option.some.injEq] at hoil'
          subst hoil'
          exact (List.getElem?_eq_some_iff.mp hJ).1).resetIntervalsFrom (f + 1)
      obtain ⟨out', hadv, hpre, hlen, hexcl, hsuffix⟩ :=
        advanceToIntervalStarts_spec hc₂ key (p := f) (by dsimp only; omega) hks hsi
      refine ⟨.MUST_ADVANCE, _, out', by rw [hadv]; rfl, hc₂, rfl, rfl, hpre,
        by rw [hlen]; dsimp only; omega,
        .inl ⟨hexcl, by rw [hlen]; exact hsuffix, ?_⟩⟩
      rw [hlen]
      refine hc₂.behindFrom hcmp (fun oil' cur' e' I' x' hoil' hcur' he' hI' hx' => ?_)
        fun j cur' hj hcur' => curInterval_resetIntervalsFrom (by omega) hcur'
      simp only [hoil, he, hx, Option.some.injEq] at hoil' he' hx'
      subst hoil' he' hx'
      have hcur₁ : cur' = idx := by
        rw [getElem?_resetIntervalsFrom, List.getElem?_set_self hflt] at hcur'
        simpa using hcur'.symm
      subst hcur₁
      rw [hJ, Option.some.injEq] at hI'
      subst hI'
      exact ⟨hxJ, hskip⟩
    | AHEAD =>
      -- field `f` is past every interval: done, unless a field before it can still move on
      have hpast := findIntervalForField_ahead hcmp hdir hfound rfl
      -- `PastAll` reads the bounds only, so it holds whatever the current intervals become
      have hpastAll : PastAll cmp c key f := by
        intro oil' e' x' hoil' he' hx'
        simp only [hoil, he, hx, Option.some.injEq] at hoil' he' hx'
        subst hoil' he' hx'
        exact hpast
      obtain ⟨b, hb, hend⟩ := spaceLeftToAdvanceFrom_spec hc hkey f 0 (by omega)
      simp only [spaceLeftToAdvance, hb, ok_bind]
      cases b with
      | false =>
        refine ⟨.DONE, c, out, rfl, hc, rfl, rfl, f, by omega, fun j hj => ?_, hpastAll⟩
        exact hc.atField_of_atLastEnd hcmp (hend rfl j (Nat.zero_le j) (by omega)) (hwithin j hj)
      | true =>
        -- a field before `f` has space left, so there is one
        have hf0 : 0 < f := by
          rcases Nat.eq_zero_or_pos f with rfl | hf0
          · simp [spaceLeftToAdvanceFrom] at hb
          · exact hf0
        exact ⟨.MUST_ADVANCE, _, _, rfl, hc.resetIntervalsFrom f, rfl, rfl, rfl, by simp; omega,
          .inr ⟨rfl, hf0, hpastAll⟩⟩

/-! ## `checkKey` -/

theorem length_resize {α : Type} (v : List α) (n : Nat) (fill : α) :
    (resize v n fill).length = n := by
  simp only [resize, List.length_append, List.length_take, List.length_replicate]
  omega

/-- `checkKey` from its first field not in its current interval: a field behind its first
interval sends the scan to the starts of the current intervals, and one ahead of its interval is
looked up in the `while` loop. -/
theorem checkAfterProblem_spec (hcmp : TotalPreorder cmp) {c : IndexBoundsChecker β}
    (hc : Fits cmp c) {key : List β} (hkey : key.length = c.fields.length) {out : IndexSeekPoint β}
    (hks : out.keySuffix.length = c.fields.length) (hsi : out.suffixInclusive.length = c.fields.length)
    {p : Nat} (hp : p < c.fields.length) {o : Location}
    (hwithin : ∀ j < p, locationAt cmp c key j = some .WITHIN) (ho : o ≠ .WITHIN)
    (hbehind : o = .BEHIND → locationAt cmp c key p = some .BEHIND ∧
      ∀ j cur, p ≤ j → c.curInterval[j]? = some cur → cur = 0) :
    ∃ state c' out', checkAfterProblem cmp c key out p o = .ok (state, c', out') ∧
      Fits cmp c' ∧ c'.fields = c.fields ∧ c'.expectedDirection = c.expectedDirection ∧
      Answer cmp c' key out' state := by
  unfold checkAfterProblem
  by_cases hob : o = .BEHIND
  · rw [if_pos hob]
    obtain ⟨hloc, hzero⟩ := hbehind hob
    obtain ⟨oil, cur, e, I, hoil, hcur, he, hI⟩ := hc.exists_field hp
    have hcur0 : c.curInterval[p]? = some 0 := by rw [hcur, hzero p cur le_rfl hcur]
    obtain ⟨out', hadv, hpre, hlen, hexcl, hsuffix⟩ := advanceToIntervalStarts_spec hc key hp.le hks hsi
    refine ⟨.MUST_ADVANCE, c, out', by rw [hadv]; rfl, hc, rfl, rfl, hpre, by rw [hlen]; exact hp,
      .inl ⟨hexcl, by rw [hlen]; exact hsuffix, ?_⟩⟩
    rw [hlen]
    exact hc.behindFrom hcmp (hc.behind_first hcmp hloc hcur0)
      fun j cur' hj hcur' => hzero j cur' hj.le hcur'
  · -- neither in nor behind: the field is ahead of its interval
    have hahead : (o == .AHEAD) = true := by cases o <;> simp_all
    rw [if_neg hob]
    simp only [verify, hahead, if_true, ok_bind]
    rw [hc.length_curInterval]
    exact checkAheadFrom_spec hcmp key _ c out p hc hkey (by omega) hks hsi hwithin

/-- `checkKey` on a key with a value for every field: it never fails, keeps the invariant and the
bounds, and answers as `Answer` says. -/
theorem checkKey_spec (hcmp : TotalPreorder cmp) {c : IndexBoundsChecker β} (hc : Fits cmp c)
    (hn : 0 < c.fields.length) {key : List β} (hkey : key.length = c.fields.length)
    (out : IndexSeekPoint β) :
    ∃ state c' out', checkKey cmp c key out = .ok (state, c', out') ∧
      Fits cmp c' ∧ c'.fields = c.fields ∧ c'.expectedDirection = c.expectedDirection ∧
      Answer cmp c' key out' state := by
  have hverify₁ : verify (decide (0 < c.curInterval.length)) = .ok () := by
    simp [verify, hc.length_curInterval, hn]
  have hverify₂ : verify (key.length == c.curInterval.length) = .ok () := by
    simp [verify, hc.length_curInterval, hkey]
  have hks : (resize out.keySuffix c.curInterval.length none).length = c.fields.length := by
    rw [length_resize, hc.length_curInterval]
  have hsi : (resize out.suffixInclusive c.curInterval.length false).length = c.fields.length := by
    rw [length_resize, hc.length_curInterval]
  -- every field has a location, before and after the intervals are started over
  have hdef : ∀ c' : IndexBoundsChecker β, Fits cmp c' → c'.fields = c.fields →
      ∀ j, 0 ≤ j → j < 0 + c'.curInterval.length → ∃ l, locationAt cmp c' key j = some l := by
    intro c' hc' hfields j _ hj
    rw [hc'.length_curInterval] at hj
    exact hc'.exists_locationAt (by rw [hfields]; exact hkey) (by omega)
  simp only [checkKey, hverify₁, ok_bind, hverify₂, findLeftmostProblem]
  rcases findLeftmostProblemFrom_spec c key _ 0 (hdef c hc rfl) with
    ⟨hnone, hall⟩ | ⟨p, l, hfound, -, hpn, hl, hlp, hbefore⟩
  · rw [hnone, ok_bind]
    refine ⟨.VALID, c, _, rfl, hc, rfl, rfl, fun j hj => hall j (Nat.zero_le j) ?_⟩
    rw [hc.length_curInterval]
    omega
  · rw [hfound, ok_bind]
    rw [hc.length_curInterval, Nat.zero_add] at hpn
    have hwithin : ∀ j < p, locationAt cmp c key j = some .WITHIN :=
      fun j hj => hbefore j (Nat.zero_le j) hj
    by_cases hlb : l = .BEHIND
    · -- start the fields from `p` on over and look again
      simp only [hlb, if_true]
      have hc₁ := hc.resetIntervalsFrom p
      rcases findLeftmostProblemFrom_spec _ key _ 0 (hdef _ hc₁ rfl) with
        ⟨hnone', hall'⟩ | ⟨p', l', hfound', -, hpn', hl', hlp', hbefore'⟩
      · rw [hnone', ok_bind]
        refine ⟨.VALID, _, _, rfl, hc₁, rfl, rfl, fun j hj => hall' j (Nat.zero_le j) ?_⟩
        rw [hc₁.length_curInterval, Nat.zero_add]
        exact hj
      · rw [hfound', ok_bind]
        rw [hc₁.length_curInterval, Nat.zero_add] at hpn'
        -- the fields before `p` are where they were, so the new problem is not before `p`
        have hpp' : p ≤ p' := by
          by_contra hlt
          rw [locationAt_resetIntervalsFrom_of_lt (by omega), hwithin p' (by omega),
            Option.some.injEq] at hlp'
          exact hl' hlp'.symm
        exact checkAfterProblem_spec hcmp hc₁ hkey hks hsi hpn'
          (fun j hj => hbefore' j (Nat.zero_le j) hj) hl'
          fun hb => ⟨hb ▸ hlp', fun j cur hj hcur => curInterval_resetIntervalsFrom (by omega) hcur⟩
    · simp only [hlb, if_false]
      exact checkAfterProblem_spec hcmp hc hkey hks hsi hpn hwithin hl fun hb => absurd hb hlb

/-! ## The checker of valid bounds -/

/-- What `IndexBounds::isValidFor` accepts: one list for each field of the key pattern, each
valid in the direction of its field in the scan. -/
theorem isValidFor_getElem? {direction : Int} :
    ∀ {fields : List (OrderedIntervalList β)} {keyPattern : List (String × Int)},
      IndexBounds.isValidFor cmp fields keyPattern direction = true →
      keyPattern.length = fields.length ∧
        ∀ (j : Nat) oil elt, fields[j]? = some oil → keyPattern[j]? = some elt →
          oil.isValidFor cmp (direction * (if 0 ≤ elt.2 then 1 else -1)) = true
  | [], keyPattern, h => by
    have hnil : keyPattern = [] := List.isEmpty_iff.mp h
    subst hnil
    exact ⟨rfl, fun j oil elt hoil => by simp at hoil⟩
  | _ :: _, [], h => nomatch h
  | field :: fields, elt :: keyPattern, h => by
    simp only [IndexBounds.isValidFor, Bool.and_eq_true] at h
    obtain ⟨⟨-, hfield⟩, hrest⟩ := h
    obtain ⟨hlen, hvalid⟩ := isValidFor_getElem? hrest
    refine ⟨by simp [hlen], fun j oil elt' hoil helt => ?_⟩
    cases j with
    | zero =>
      simp only [List.getElem?_cons_zero, Option.some.injEq] at hoil helt
      subst hoil helt
      exact hfield
    | succ j => exact hvalid j oil elt' hoil helt

/-- The checker that `IndexScan` builds, over bounds `isValidFor` accepts in a direction of the
scan, whose lists are not empty and can be counted in a `size_t`, keeps the invariant. -/
theorem Fits.make (hcmp : TotalPreorder cmp) {fields : List (OrderedIntervalList β)}
    {keyPattern : List (String × Int)} {direction : Int}
    (hvalid : IndexBounds.isValidFor cmp fields keyPattern direction = true)
    (hdirection : direction = 1 ∨ direction = -1)
    (hnonempty : ∀ oil ∈ fields, oil.intervals ≠ [])
    (hsize : ∀ oil ∈ fields, oil.intervals.length < 2 ^ 64) :
    Fits cmp (make fields keyPattern direction) := by
  obtain ⟨hlen, hfields⟩ := isValidFor_getElem? hvalid
  -- each direction is the key pattern's sign times the scan's
  have hdir : ∀ (j : Nat) e,
      (IndexBoundsChecker.make fields keyPattern direction).expectedDirection[j]? = some e →
      ∃ elt, keyPattern[j]? = some elt ∧ e = (if 0 ≤ elt.2 then 1 else -1) * direction := by
    intro j e he
    simp only [IndexBoundsChecker.make, List.getElem?_map, Option.map_eq_some_iff] at he
    obtain ⟨elt, helt, rfl⟩ := he
    exact ⟨elt, helt, rfl⟩
  refine ⟨by simp [IndexBoundsChecker.make], by simp [IndexBoundsChecker.make, hlen],
    fun j e he => ?_, fun j oil e hoil he => ?_, hnonempty, hsize, fun j oil cur hoil hcur => ?_⟩
  · obtain ⟨elt, -, rfl⟩ := hdir j e he
    rcases hdirection with rfl | rfl <;> split <;> simp
  · obtain ⟨elt, helt, rfl⟩ := hdir j e he
    have hv := hfields j oil elt hoil helt
    have he' : (if 0 ≤ elt.2 then 1 else -1) * direction = 1 ∨
        (if 0 ≤ elt.2 then 1 else -1) * direction = -1 := by
      rcases hdirection with rfl | rfl <;> split <;> simp
    rw [Int.mul_comm] at hv
    exact (isValidFor_iff_ascending hcmp he' oil).mp hv
  · -- every field starts at its first interval
    simp only [IndexBoundsChecker.make, List.getElem?_replicate] at hcur
    split at hcur
    · cases hcur
      exact List.length_pos_iff.mpr (hnonempty oil (List.mem_of_getElem? hoil))
    · cases hcur

/-! ## `isValidKey`, and `checkKey` against it -/

/-- `isValidKey` from field `i`: it never fails on fields the bounds have, and accepts exactly
when every value is in some interval of its field. -/
theorem isValidKeyFrom_spec (hcmp : TotalPreorder cmp) {c : IndexBoundsChecker β}
    (hc : Fits cmp c) :
    ∀ (key : List β) i, i + key.length ≤ c.fields.length →
      ∃ b, isValidKeyFrom cmp c i key = .ok b ∧
        (b = true ↔ ∀ j oil e x, c.fields[i + j]? = some oil → c.expectedDirection[i + j]? = some e →
          key[j]? = some x → oil.Denotes (dirCmp cmp e) x)
  | [], _, _ => ⟨true, rfl, by simp⟩
  | x :: rest, i, hi => by
    obtain ⟨oil, cur, e, I, hoil, -, he, -⟩ := hc.exists_field (j := i) (by simp at hi; omega)
    have hdir := hc.direction i e he
    obtain ⟨loc, idx, hfound⟩ := findIntervalForField_ok cmp e x oil
    have hiff := findIntervalForField_within_iff hcmp hdir hfound (hc.ascending i oil e hoil he)
    simp only [isValidKeyFrom, elemAt_of_getElem? hoil, ok_bind, elemAt_of_getElem? he, hfound]
    by_cases hw : loc = .WITHIN
    · obtain ⟨b, hb, hbiff⟩ := isValidKeyFrom_spec hcmp hc rest (i + 1) (by simp at hi; omega)
      refine ⟨b, by simp [hw, hb], hbiff.trans ⟨fun h j oil' e' x' hoil' he' hx' => ?_,
        fun h j oil' e' x' hoil' he' hx' => ?_⟩⟩
      · cases j with
        | zero =>
          simp only [Nat.add_zero, hoil, he, Option.some.injEq, List.getElem?_cons_zero] at hoil' he' hx'
          subst hoil' he' hx'
          exact hiff.mp hw
        | succ j =>
          rw [← Nat.add_assoc, Nat.add_right_comm] at hoil' he'
          exact h j oil' e' x' hoil' he' hx'
      · rw [Nat.add_right_comm] at hoil' he'
        exact h (j + 1) oil' e' x' (by rwa [← Nat.add_assoc]) (by rwa [← Nat.add_assoc]) hx'
    · -- field `i` is in no interval
      refine ⟨false, by simp [hw], Iff.intro (fun h => absurd h Bool.false_ne_true) fun h => ?_⟩
      exact absurd (hiff.mpr (h 0 oil e x hoil he rfl)) hw

/-- On a key with a value for every field, `isValidKey` accepts exactly the keys in the
bounds. -/
theorem isValidKey_eq_ok_iff (hcmp : TotalPreorder cmp) {c : IndexBoundsChecker β}
    (hc : Fits cmp c) {key : List β} (hkey : key.length = c.fields.length) :
    isValidKey cmp c key = .ok true ↔ InBounds cmp c key := by
  obtain ⟨b, hb, hbiff⟩ := isValidKeyFrom_spec hcmp hc key 0 (by omega)
  simp only [Nat.zero_add] at hbiff
  rw [isValidKey, hb, Except.ok.injEq, hbiff]
  exact ⟨fun h => ⟨hkey, fun j oil e x hoil he hx => h j oil e x hoil he hx⟩, fun h => h.2⟩

/-- A key each of whose fields is in its current interval is in the bounds. -/
theorem inBounds_of_within (hcmp : TotalPreorder cmp) {c : IndexBoundsChecker β}
    (hc : Fits cmp c) {key : List β} (hkey : key.length = c.fields.length)
    (hwithin : ∀ j < c.fields.length, locationAt cmp c key j = some .WITHIN) :
    InBounds cmp c key := by
  refine ⟨hkey, fun j oil e x hoil he hx => ?_⟩
  have hj : j < c.fields.length := (List.getElem?_eq_some_iff.mp hoil).1
  obtain ⟨oil', cur, I, x', e', hoil', -, hI, hx', he', hloc⟩ :=
    locationAt_eq_some.mp (hwithin j hj)
  simp only [hoil, he, hx, Option.some.injEq] at hoil' he' hx'
  subst hoil' he' hx'
  exact ⟨I, List.mem_of_getElem? hI,
    (intervalCmp_eq_within_iff hcmp (hc.direction j e he) I x).mp hloc⟩

/-- Every answer of `checkKey` but `VALID` says that the key is out of the bounds. -/
theorem not_inBounds_of_answer {c : IndexBoundsChecker β} (hc : Fits cmp c) (hcmp : TotalPreorder cmp)
    {key : List β} {out : IndexSeekPoint β} {state : KeyState} (hstate : state ≠ .VALID)
    (hans : Answer cmp c key out state) : ¬ InBounds cmp c key := by
  rintro ⟨hkey, hin⟩
  -- the field the answer names is out of its intervals, even at the key's own value
  have hpast : ∀ p, p < c.fields.length → PastAll cmp c key p → False := by
    intro p hp hpast
    obtain ⟨oil, cur, e, I, hoil, -, he, -⟩ := hc.exists_field hp
    have hx : key[p]? = some key[p] := List.getElem?_eq_getElem (by omega)
    have hrefl := (hcmp.dirCmp (hc.direction p e he)).refl key[p]
    exact hpast oil e _ hoil he hx _ (le_of_eq hrefl) (hin p oil e _ hoil he hx)
  cases state with
  | VALID => exact hstate rfl
  | DONE =>
    obtain ⟨p, hp, -, hpastp⟩ := hans
    exact hpast p hp hpastp
  | MUST_ADVANCE =>
    obtain ⟨-, hp, hseek⟩ := hans
    rcases hseek with ⟨-, -, hbehind⟩ | ⟨-, -, hpastp⟩
    · obtain ⟨oil, cur, e, I, hoil, hcur, he, hI⟩ := hc.exists_field hp
      have hx : key[out.prefixLen]? = some key[out.prefixLen] := List.getElem?_eq_getElem (by omega)
      obtain ⟨hxI, hskip⟩ := (hbehind _ oil cur e I le_rfl hoil hcur he hI).1 _ rfl hx
      have hrefl := (hcmp.dirCmp (hc.direction _ e he)).refl key[out.prefixLen]
      exact hskip _ (le_of_eq hrefl) hxI (hin _ oil e _ hoil he hx)
    · exact hpast _ hp hpastp

/-- Whether a key is in the bounds depends only on the checker's fields and directions. -/
theorem inBounds_congr {c c' : IndexBoundsChecker β} (hfields : c'.fields = c.fields)
    (hdirs : c'.expectedDirection = c.expectedDirection) {key : List β} :
    InBounds cmp c' key ↔ InBounds cmp c key := by
  simp only [InBounds, AtField, hfields, hdirs]

/-- From every state of the checker that keeps its invariant, `checkKey` on a key with a value
for each field never fails, keeps the invariant, and answers `VALID` exactly for the keys that
`isValidKey` accepts: the checker, which looks only at the intervals it expects each field in
and starts them over or searches further as it must, agrees with the plain search of every
field's intervals. -/
theorem checkKey_valid_iff_isValidKey (hcmp : TotalPreorder cmp) {c : IndexBoundsChecker β}
    (hc : Fits cmp c) (hn : 0 < c.fields.length) {key : List β}
    (hkey : key.length = c.fields.length) (out : IndexSeekPoint β) :
    ∃ state c' out', checkKey cmp c key out = .ok (state, c', out') ∧ Fits cmp c' ∧
      (state = .VALID ↔ isValidKey cmp c key = .ok true) := by
  obtain ⟨state, c', out', hcheck, hc', hfields, hdirs, hans⟩ := checkKey_spec hcmp hc hn hkey out
  refine ⟨state, c', out', hcheck, hc', ?_⟩
  have hkey' : key.length = c'.fields.length := by rw [hfields]; exact hkey
  -- the answer is about `c'`, which has the bounds of `c`
  rw [isValidKey_eq_ok_iff hcmp hc hkey, ← inBounds_congr hfields hdirs]
  constructor
  · intro hvalid
    subst hvalid
    exact inBounds_of_within hcmp hc' hkey' hans
  · intro hin
    by_contra hstate
    exact not_inBounds_of_answer hc' hcmp hstate hans hin

/-- The index key `NumberInt n`. -/
def intKey (n : Int32) : IndexKey := ⟨.numberInt n, trivial⟩

/-- Bounds on an index `{a: 1, b: -1}` of `NumberInt` keys: `a` in `[1, 3]` or `(5, 7]`, `b`
from `4` down to `2`. -/
def twoFieldBounds : List (OrderedIntervalList IndexKey) :=
  [⟨[⟨intKey 1, true, intKey 3, true⟩, ⟨intKey 5, false, intKey 7, true⟩], "a"⟩,
    ⟨[⟨intKey 4, true, intKey 2, true⟩], "b"⟩]

theorem checkKey_valid_iff_isValidKey_twoFields :
    Fits (IndexKey.cmp noDecimalLib) (make twoFieldBounds [("a", 1), ("b", -1)] 1) ∧
      ∃ state c' out', checkKey (IndexKey.cmp noDecimalLib)
          (make twoFieldBounds [("a", 1), ("b", -1)] 1) [intKey 6, intKey 3]
          ⟨[], 0, false, [], []⟩ = .ok (state, c', out') ∧ Fits (IndexKey.cmp noDecimalLib) c' ∧
        (state = .VALID ↔ isValidKey (IndexKey.cmp noDecimalLib)
          (make twoFieldBounds [("a", 1), ("b", -1)] 1) [intKey 6, intKey 3] = .ok true) :=
  have hc := Fits.make (IndexKey.cmp_total noDecimalLib) (by decide) (.inl rfl) (by decide)
    (by decide)
  ⟨hc, checkKey_valid_iff_isValidKey (IndexKey.cmp_total noDecimalLib) hc (by decide) (by decide) _⟩

/-! ## `DONE` and the order of the scan -/

variable (cmp) in
/-- The order the scan walks one field in: `woCompare` in the field's direction. -/
def scanCmp (e : Int) (x y : β) : Ordering := ordOfInt (dirCmp cmp e x y)

theorem scanCmp_eq_lt_iff {e : Int} {x y : β} : scanCmp cmp e x y = .lt ↔ dirCmp cmp e x y < 0 := by
  simp [scanCmp, ordOfInt, compare_lt_iff_lt]

theorem scanCmp_ne_gt_iff {e : Int} {x y : β} : scanCmp cmp e x y ≠ .gt ↔ dirCmp cmp e x y ≤ 0 := by
  simp [scanCmp, ordOfInt, compare_gt_iff_gt]

theorem scanCmp_eq_gt_iff {e : Int} {x y : β} : scanCmp cmp e x y = .gt ↔ 0 < dirCmp cmp e x y := by
  simp [scanCmp, ordOfInt, compare_gt_iff_gt]

theorem scanCmp_ne_lt_iff {e : Int} {x y : β} : scanCmp cmp e x y ≠ .lt ↔ 0 ≤ dirCmp cmp e x y := by
  simp [scanCmp, ordOfInt, compare_lt_iff_lt]

/-- Past a `DONE`, by induction on the fields from `j` to `p`: a key at or after `key` from field
`j` on, in the order of the scan, is out of the bounds at some field from `j` to `p`. -/
theorem not_inBounds_of_done_from {c : IndexBoundsChecker β} {key : List β} {p : Nat}
    (hend : ∀ j < p, AtField c key j fun oil e x => ∀ y, dirCmp cmp e x y < 0 →
      ¬ oil.Denotes (dirCmp cmp e) y)
    (hpast : PastAll cmp c key p) (key' : List β) (hlen' : p < key'.length) (hlen : p < key.length)
    (hdirs : p < c.expectedDirection.length) (hfields : p < c.fields.length) :
    ∀ m j, j + m = p →
      SkipScan.LexLe (scanCmp cmp) (c.expectedDirection.drop j) (key.drop j) (key'.drop j) →
      ∃ i oil e y, j ≤ i ∧ c.fields[i]? = some oil ∧ c.expectedDirection[i]? = some e ∧
        key'[i]? = some y ∧ ¬ oil.Denotes (dirCmp cmp e) y
  | m, j, hjm, hle => by
    have hoil : c.fields[j]? = some c.fields[j] := List.getElem?_eq_getElem (by omega)
    have he : c.expectedDirection[j]? = some c.expectedDirection[j] := List.getElem?_eq_getElem (by omega)
    have hx : key[j]? = some key[j] := List.getElem?_eq_getElem (by omega)
    have hy : key'[j]? = some key'[j] := List.getElem?_eq_getElem (by omega)
    rw [List.drop_eq_getElem_cons (l := c.expectedDirection) (by omega),
      List.drop_eq_getElem_cons (l := key) (by omega),
      List.drop_eq_getElem_cons (l := key') (by omega)] at hle
    rcases Nat.lt_or_ge j p with hjp | hjp
    · rcases hle with hlt | ⟨-, hrest⟩
      · -- the first field where the keys differ: `key'` is past `key` there
        exact ⟨j, _, _, _, le_rfl, hoil, he, hy, hend j hjp _ _ _ hoil he hx _
          (scanCmp_eq_lt_iff.mp hlt)⟩
      · obtain ⟨i, oil, e, y, hji, h⟩ :=
          not_inBounds_of_done_from hend hpast key' hlen' hlen hdirs hfields (m - 1) (j + 1)
            (by omega) hrest
        exact ⟨i, oil, e, y, by omega, h⟩
    · -- at field `p`, past every interval, `key'` is not behind `key`
      obtain rfl : j = p := by omega
      have hge : scanCmp cmp c.expectedDirection[j] key[j] key'[j] ≠ .gt := by
        rcases hle with h | ⟨h, -⟩ <;> simp [h]
      exact ⟨j, _, _, _, le_rfl, hoil, he, hy, hpast _ _ _ hoil he hx _ (scanCmp_ne_gt_iff.mp hge)⟩
termination_by m => m

/-- A `DONE` answer for `key` leaves no key at or after it, in the order of the scan, in the
bounds. -/
theorem not_inBounds_of_done {c : IndexBoundsChecker β} (hc : Fits cmp c) {key : List β}
    (hkey : key.length = c.fields.length) (hdone : Done cmp c key) (key' : List β)
    (hle : SkipScan.LexLe (scanCmp cmp) c.expectedDirection key key') :
    ¬ InBounds cmp c key' := by
  obtain ⟨p, hp, hend, hpast⟩ := hdone
  rintro ⟨hlen', hin⟩
  obtain ⟨i, oil, e, y, -, hoil, he, hy, hout⟩ :=
    not_inBounds_of_done_from hend hpast key' (by omega) (by omega)
      (by rw [hc.length_expectedDirection]; omega) hp p 0 (by omega) (by simpa using hle)
  exact hout (hin i oil e y hoil he hy)

variable (cmp) in
/-- After `DONE`, no key at or after `key` in the order the scan walks the index is in the
bounds: the scan may stop. -/
theorem checkKey_done_no_later_key (hcmp : TotalPreorder cmp) {c : IndexBoundsChecker β}
    (hc : Fits cmp c) (hn : 0 < c.fields.length) (key : List β)
    (hkey : key.length = c.fields.length) (out : IndexSeekPoint β) {c' : IndexBoundsChecker β}
    {out' : IndexSeekPoint β} (hdone : checkKey cmp c key out = .ok (.DONE, c', out'))
    (key' : List β) (hle : SkipScan.LexLe (scanCmp cmp) c.expectedDirection key key') :
    ¬ InBounds cmp c key' := by
  obtain ⟨state, c'', out'', hcheck, hc', hfields, hdirs, hans⟩ := checkKey_spec hcmp hc hn hkey out
  rw [hdone] at hcheck
  obtain ⟨rfl, rfl, rfl⟩ : KeyState.DONE = state ∧ c' = c'' ∧ out' = out'' := by
    simpa using hcheck
  -- the checker `DONE` leaves has the same fields and directions as `c`
  rw [← inBounds_congr hfields hdirs]
  exact not_inBounds_of_done hc' (by rw [hfields]; exact hkey) hans key' (by rw [hdirs]; exact hle)

theorem checkKey_done_no_later_key_eight :
    Fits (IndexKey.cmp noDecimalLib) (make twoFieldBounds [("a", 1), ("b", -1)] 1) ∧
      ¬ InBounds (IndexKey.cmp noDecimalLib) (make twoFieldBounds [("a", 1), ("b", -1)] 1)
        [intKey 9, intKey 3] :=
  have hc := Fits.make (IndexKey.cmp_total noDecimalLib) (by decide) (.inl rfl) (by decide)
    (by decide)
  ⟨hc, checkKey_done_no_later_key (IndexKey.cmp noDecimalLib) (IndexKey.cmp_total noDecimalLib) hc
    (by decide) [intKey 8, intKey 3] (by decide) ⟨[], 0, false, [], []⟩ rfl [intKey 9, intKey 3]
    (by decide)⟩

end IndexBoundsChecker

end Mongo.Query
