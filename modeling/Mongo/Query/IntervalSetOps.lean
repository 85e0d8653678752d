import Mongo.Query.IntervalList

/-! `IndexBoundsBuilder::unionize` and `intersectize` as operations on the sets of values the
intervals denote.

The interval code compares endpoints and then their flags. Both are read here as cuts of the
values (`cutCmp`): the start of an interval is the cut just below it when it is included and
just above it when it is not, the end the other way round, and a value is the cut through it. An
interval holds a value when its start cut is at or below the value's cut and its end cut at or
above; it is ascending or a point when its start cut is below its end cut. Each test of
`Interval::compare` is a comparison of cuts (`intersects_iff_cut`, `within_iff_cut`,
`precedes_iff_cut`), and so is the sort order of `unionize`.

On intervals that are not empty in form, `unionize` never fails: the empty interval `[5, 5)`
that makes it fail (`unionize_fails_on_empty_interval_at_five`) is not among them. Its result
denotes the union and each of its intervals precedes the next without touching it. On lists
that `isValidFor(1)` accepts, `intersectize` denotes the intersection and its result is
accepted again. -/

namespace Mongo.Sorting.TotalPreorder

variable {Data : Type} {comp : Data → Data → Int} (hcomp : TotalPreorder comp)
include hcomp

theorem eq_zero_of_le_of_le {a b : Data} (hab : comp a b ≤ 0) (hba : comp b a ≤ 0) :
    comp a b = 0 := by
  have := hcomp.neg_iff a b
  omega

end Mongo.Sorting.TotalPreorder

namespace Mongo.Query

open Mongo.Sorting (TotalPreorder)

namespace Interval

variable {β : Type}

/-! ## Bounds as cuts -/

variable (cmp : β → β → Int) in
/-- The comparison of cuts: `(v, k)` is the cut at the value `v`, below the values equal to `v`
for `k = 0`, through them for `k = 1`, above them for `k = 2`. -/
def cutCmp (a b : β × Int) : Int := if cmp a.1 b.1 = 0 then a.2 - b.2 else cmp a.1 b.1

/-- The cut of an interval's start: below the start when it is included, above it when not. -/
def lowerCut (I : Interval β) : β × Int := (I.start, if I.startInclusive then 0 else 2)

/-- The cut of an interval's end: above the end when it is included, below it when not. -/
def upperCut (I : Interval β) : β × Int := (I.end_, if I.endInclusive then 2 else 0)

/-- The cut through a value. -/
def pointCut (x : β) : β × Int := (x, 1)

variable {cmp : β → β → Int}

/-- Cuts are ordered by their values, and at one value by their position. -/
theorem cutCmp_total (hcmp : TotalPreorder cmp) : TotalPreorder (cutCmp cmp) where
  neg_iff a b := by
    have hz := hcmp.zero_iff a.1 b.1
    have hn := hcmp.neg_iff a.1 b.1
    unfold Interval.cutCmp
    split_ifs <;> omega
  le_trans a b c hab hbc := by
    -- the values are ordered as the cuts are
    have hle : ∀ {x y : β × Int}, Interval.cutCmp cmp x y ≤ 0 → cmp x.1 y.1 ≤ 0 := by
      intro x y h
      unfold Interval.cutCmp at h
      split_ifs at h with hxy <;> omega
    have hac := hcmp.le_trans _ _ _ (hle hab) (hle hbc)
    unfold Interval.cutCmp at hab hbc ⊢
    by_cases h : cmp a.1 c.1 = 0
    · -- one value throughout: the positions decide
      have hca : cmp c.1 a.1 ≤ 0 := Int.le_of_eq ((hcmp.zero_iff _ _).mp h)
      have hab0 : cmp a.1 b.1 = 0 :=
        hcmp.eq_zero_of_le_of_le (hle hab) (hcmp.le_trans _ _ _ (hle hbc) hca)
      have hbc0 : cmp b.1 c.1 = 0 :=
        hcmp.eq_zero_of_le_of_le (hle hbc) (hcmp.le_trans _ _ _ hca (hle hab))
      rw [if_pos hab0] at hab
      rw [if_pos hbc0] at hbc
      rw [if_pos h]
      omega
    · rw [if_neg h]
      exact hac

/-- Cuts in order have their values in order. -/
theorem le_of_cutCmp_le {a b : β × Int} (h : cutCmp cmp a b ≤ 0) : cmp a.1 b.1 ≤ 0 := by
  unfold cutCmp at h
  split_ifs at h <;> omega

/-- Equal cuts are at equal values. -/
theorem eq_of_cutCmp_eq {a b : β × Int} (h : cutCmp cmp a b = 0) : cmp a.1 b.1 = 0 := by
  unfold cutCmp at h
  split_ifs at h with hab
  · exact hab
  · exact absurd h hab

/-- The cut through a value is never one of an interval's bounds, whose positions are `0` and
`2`. -/
theorem cutCmp_pointCut_ne {x : β} {b : β × Int} (hb : b.2 = 0 ∨ b.2 = 2) :
    cutCmp cmp (pointCut x) b ≠ 0 := by
  unfold cutCmp pointCut
  split_ifs with h
  · omega
  · exact h

theorem lowerCut_pos (I : Interval β) : (lowerCut I).2 = 0 ∨ (lowerCut I).2 = 2 := by
  unfold lowerCut
  split_ifs <;> simp

theorem upperCut_pos (I : Interval β) : (upperCut I).2 = 0 ∨ (upperCut I).2 = 2 := by
  unfold upperCut
  split_ifs <;> simp

/-! ## The tests of `Interval` as comparisons of cuts

Each comparison of two bounds' cuts is the test the source makes on the two endpoints and
their flags. -/

theorem atOrAbove_iff_cut (I : Interval β) (x : β) :
    AtOrAbove cmp I.start I.startInclusive x ↔ cutCmp cmp (lowerCut I) (pointCut x) ≤ 0 := by
  unfold AtOrAbove lowerCut pointCut cutCmp
  cases I.startInclusive <;> split_ifs <;> simp_all
  omega

theorem atOrBelow_iff_cut (I : Interval β) (x : β) :
    AtOrBelow cmp I.end_ I.endInclusive x ↔ cutCmp cmp (pointCut x) (upperCut I) ≤ 0 := by
  unfold AtOrBelow upperCut pointCut cutCmp
  cases I.endInclusive <;> split_ifs <;> simp_all
  omega

/-- A start below an end, as `intersects` and `AscendingOrPoint` test it. -/
theorem lowerCut_lt_upperCut_iff (a b : Interval β) :
    cutCmp cmp (lowerCut a) (upperCut b) < 0 ↔
      ¬ 0 < cmp a.start b.end_ ∧
        ¬ (cmp a.start b.end_ = 0 ∧ (!a.startInclusive || !b.endInclusive) = true) := by
  unfold lowerCut upperCut cutCmp
  cases a.startInclusive <;> cases b.endInclusive <;> split_ifs <;> simp_all <;> omega

/-- One start at or past another, as `within` tests it. -/
theorem lowerCut_le_lowerCut_iff (hcmp : TotalPreorder cmp) (a b : Interval β) :
    cutCmp cmp (lowerCut b) (lowerCut a) ≤ 0 ↔
      ¬ cmp a.start b.start < 0 ∧
        ¬ (cmp a.start b.start = 0 ∧ (a.startInclusive && !b.startInclusive) = true) := by
  have hz := hcmp.zero_iff a.start b.start
  have hn := hcmp.neg_iff b.start a.start
  unfold lowerCut cutCmp
  cases a.startInclusive <;> cases b.startInclusive <;> split_ifs <;> simp_all <;> omega

/-- One end at or before another, as `within` tests it. -/
theorem upperCut_le_upperCut_iff (a b : Interval β) :
    cutCmp cmp (upperCut a) (upperCut b) ≤ 0 ↔
      ¬ 0 < cmp a.end_ b.end_ ∧
        ¬ (cmp a.end_ b.end_ = 0 ∧ (a.endInclusive && !b.endInclusive) = true) := by
  unfold upperCut cutCmp
  cases a.endInclusive <;> cases b.endInclusive <;> split_ifs <;> simp_all

/-- An interval holds the values whose cut lies between its start's and its end's. -/
theorem contains_iff_cut (I : Interval β) (x : β) :
    Contains cmp I x ↔
      cutCmp cmp (lowerCut I) (pointCut x) ≤ 0 ∧ cutCmp cmp (pointCut x) (upperCut I) ≤ 0 := by
  rw [Contains, atOrAbove_iff_cut, atOrBelow_iff_cut]

/-- An interval is ascending or a point when its start's cut is below its end's. -/
theorem ascendingOrPoint_iff_cut (I : Interval β) :
    AscendingOrPoint cmp I ↔ cutCmp cmp (lowerCut I) (upperCut I) < 0 := by
  rw [lowerCut_lt_upperCut_iff, AscendingOrPoint]
  cases I.startInclusive <;> cases I.endInclusive <;> simp <;> omega

theorem intersects_iff_cut (a b : Interval β) :
    intersects cmp a b = true ↔
      cutCmp cmp (lowerCut a) (upperCut b) < 0 ∧ cutCmp cmp (lowerCut b) (upperCut a) < 0 := by
  rw [lowerCut_lt_upperCut_iff, lowerCut_lt_upperCut_iff]
  unfold intersects
  dsimp only
  split_ifs <;> simp_all

theorem within_iff_cut (hcmp : TotalPreorder cmp) (a b : Interval β) :
    within cmp a b = true ↔
      cutCmp cmp (lowerCut b) (lowerCut a) ≤ 0 ∧ cutCmp cmp (upperCut a) (upperCut b) ≤ 0 := by
  rw [lowerCut_le_lowerCut_iff hcmp, upperCut_le_upperCut_iff]
  unfold within
  dsimp only
  split_ifs <;> simp_all

theorem precedes_iff_cut (a b : Interval β) :
    precedes cmp a b = true ↔ cutCmp cmp (lowerCut a) (lowerCut b) < 0 := by
  unfold precedes lowerCut cutCmp
  cases a.startInclusive <;> cases b.startInclusive <;> split_ifs <;> simp_all

theorem equals_iff_cut (a b : Interval β) :
    equals cmp a b = true ↔
      cutCmp cmp (lowerCut a) (lowerCut b) = 0 ∧ cutCmp cmp (upperCut a) (upperCut b) = 0 := by
  unfold equals lowerCut upperCut cutCmp
  cases a.startInclusive <;> cases a.endInclusive <;> cases b.startInclusive <;>
    cases b.endInclusive <;> split_ifs <;> simp_all

variable (cmp) in
/-- What each answer of `compare` says of the tests it is made of. -/
theorem compare_spec (a b : Interval β) :
    match compare cmp a b with
    | .equals => intersects cmp a b = true ∧ equals cmp a b = true
    | .within => intersects cmp a b = true ∧ within cmp a b = true
    | .contains => intersects cmp a b = true ∧ within cmp b a = true
    | .overlapsBefore => intersects cmp a b = true ∧ within cmp b a = false ∧
        precedes cmp a b = true
    | .overlapsAfter => intersects cmp a b = true ∧ within cmp a b = false ∧
        within cmp b a = false ∧ precedes cmp a b = false
    | .precedesCouldUnion => intersects cmp a b = false ∧ precedes cmp a b = true ∧
        (a.endInclusive || b.startInclusive) = true ∧ cmp a.end_ b.start = 0
    | .precedes => intersects cmp a b = false ∧ precedes cmp a b = true ∧
        ¬ ((a.endInclusive || b.startInclusive) = true ∧ cmp a.end_ b.start = 0)
    | .succeeds => intersects cmp a b = false ∧ precedes cmp a b = false
    | .unknown => False := by
  unfold compare
  split_ifs <;> simp_all

variable (cmp) in
/-- `a` ends below the start of `b` and does not touch it. -/
def Separated (a b : Interval β) : Prop := cutCmp cmp (upperCut a) (lowerCut b) < 0

variable (cmp) in
/-- The values some interval of a list holds. -/
def Covers (l : List (Interval β)) (x : β) : Prop := ∃ I ∈ l, Contains cmp I x

variable (cmp) in
theorem covers_nil (x : β) : ¬ Covers cmp [] x := by
  simp [Covers]

theorem covers_cons (a : Interval β) (l : List (Interval β)) (x : β) :
    Covers cmp (a :: l) x ↔ Contains cmp a x ∨ Covers cmp l x := by
  simp [Covers]

theorem covers_append (l₁ l₂ : List (Interval β)) (x : β) :
    Covers cmp (l₁ ++ l₂) x ↔ Covers cmp l₁ x ∨ Covers cmp l₂ x := by
  simp only [Covers, List.mem_append, or_and_right, exists_or]

theorem covers_reverse (l : List (Interval β)) (x : β) :
    Covers cmp l.reverse x ↔ Covers cmp l x := by
  simp [Covers]

theorem covers_of_perm {l l' : List (Interval β)} (h : l.Perm l') (x : β) :
    Covers cmp l x ↔ Covers cmp l' x := by
  simp only [Covers, h.mem_iff]

/-! ## Intervals that are not empty in form -/

section NonEmpty

variable (hcmp : TotalPreorder cmp)
include hcmp

/-- The test of `INTERVAL_PRECEDES_COULD_UNION`: the first ends where the second starts, and one
of them holds that value. -/
theorem couldUnion_iff_cut (a b : Interval β) :
    ((a.endInclusive || b.startInclusive) = true ∧ cmp a.end_ b.start = 0) ↔
      cmp a.end_ b.start = 0 ∧ cutCmp cmp (lowerCut b) (upperCut a) ≤ 0 := by
  have hz := hcmp.zero_iff a.end_ b.start
  unfold lowerCut upperCut cutCmp
  cases a.endInclusive <;> cases b.startInclusive <;> split_ifs <;> simp_all

/-- Two intervals that do not meet, the first starting at or before the second: the first ends
at or below the start of the second. -/
theorem upperCut_le_lowerCut {a b : Interval β} (hb : AscendingOrPoint cmp b)
    (hint : intersects cmp a b = false) (hlo : cutCmp cmp (lowerCut a) (lowerCut b) ≤ 0) :
    cutCmp cmp (upperCut a) (lowerCut b) ≤ 0 := by
  have hC := cutCmp_total hcmp
  -- `a` starts below the end of `b`, so they are apart at the end of `a`
  have hab : cutCmp cmp (lowerCut a) (upperCut b) < 0 :=
    hC.lt_of_le_of_lt hlo ((ascendingOrPoint_iff_cut b).mp hb)
  rw [← hC.not_lt]
  intro hlt
  simp [(intersects_iff_cut a b).mpr ⟨hab, hlt⟩] at hint

/-- Of two intervals that are not empty in form, `compare` answers `INTERVAL_PRECEDES` exactly
when the first ends below the start of the second without touching it. -/
theorem compare_eq_precedes_iff {a b : Interval β} (ha : AscendingOrPoint cmp a)
    (hb : AscendingOrPoint cmp b) : compare cmp a b = .precedes ↔ Separated cmp a b := by
  have hC := cutCmp_total hcmp
  have ha' := (ascendingOrPoint_iff_cut a).mp ha
  have hb' := (ascendingOrPoint_iff_cut b).mp hb
  constructor
  · intro hc
    have h := compare_spec cmp a b
    rw [hc] at h
    obtain ⟨hint, hpre, hcu⟩ := h
    -- `a` starts below `b` and does not meet it, so it ends at or below the start of `b`
    have hle : cutCmp cmp (upperCut a) (lowerCut b) ≤ 0 :=
      upperCut_le_lowerCut hcmp hb hint (Int.le_of_lt ((precedes_iff_cut a b).mp hpre))
    rcases Int.lt_or_eq_of_le hle with hlt | heq
    · exact hlt
    · -- cuts that meet are what `compare` unions
      refine absurd ((couldUnion_iff_cut hcmp a b).mpr ⟨eq_of_cutCmp_eq heq, ?_⟩) hcu
      exact Int.le_of_eq ((hC.zero_iff _ _).mp heq)
  · intro hsep
    have hint : intersects cmp a b = false := by
      rw [← Bool.not_eq_true, intersects_iff_cut]
      exact fun h => absurd hsep ((hC.not_lt _ _).mpr (Int.le_of_lt h.2))
    have hpre : precedes cmp a b = true :=
      (precedes_iff_cut a b).mpr (hC.lt_of_lt_of_le ha' (Int.le_of_lt hsep))
    have hcu : ¬ ((a.endInclusive || b.startInclusive) = true ∧ cmp a.end_ b.start = 0) := by
      rw [couldUnion_iff_cut hcmp]
      exact fun h => absurd hsep ((hC.not_lt _ _).mpr h.2)
    rw [compare, if_neg (by simp [hint]), if_pos hpre, if_neg hcu]

/-- An interval within another holds no value the other does not. -/
theorem contains_of_within {a b : Interval β} (h : within cmp a b = true) {x : β}
    (hx : Contains cmp a x) : Contains cmp b x := by
  have hC := cutCmp_total hcmp
  obtain ⟨hlo, hhi⟩ := (within_iff_cut hcmp a b).mp h
  obtain ⟨hxlo, hxhi⟩ := (contains_iff_cut a x).mp hx
  exact (contains_iff_cut b x).mpr
    ⟨hC.le_trans _ _ _ hlo hxlo, hC.le_trans _ _ _ hxhi hhi⟩

/-- The interval from the start of `cur` to the end of `next`, where `next` starts at or past
`cur`, at or before its end, and ends at or past its end: the values of either. -/
theorem contains_merge {cur next : Interval β}
    (hstart : cutCmp cmp (lowerCut cur) (lowerCut next) ≤ 0)
    (hmeet : cutCmp cmp (lowerCut next) (upperCut cur) ≤ 0)
    (hend : cutCmp cmp (upperCut cur) (upperCut next) ≤ 0) (x : β) :
    Contains cmp ⟨cur.start, cur.startInclusive, next.end_, next.endInclusive⟩ x ↔
      Contains cmp cur x ∨ Contains cmp next x := by
  have hC := cutCmp_total hcmp
  rw [contains_iff_cut, contains_iff_cut, contains_iff_cut]
  -- the merge has the start cut of `cur` and the end cut of `next`
  change cutCmp cmp (lowerCut cur) (pointCut x) ≤ 0 ∧ cutCmp cmp (pointCut x) (upperCut next) ≤ 0 ↔ _
  constructor
  · rintro ⟨hlo, hhi⟩
    by_cases hx : cutCmp cmp (pointCut x) (upperCut cur) ≤ 0
    · exact .inl ⟨hlo, hx⟩
    · -- past the end of `cur`, so past the start of `next`
      have hx' := (hC.not_le _ _).mp hx
      exact .inr ⟨hC.le_trans _ _ _ hmeet (Int.le_of_lt hx'), hhi⟩
  · rintro (⟨hlo, hhi⟩ | ⟨hlo, hhi⟩)
    · exact ⟨hlo, hC.le_trans _ _ _ hhi hend⟩
    · exact ⟨hC.le_trans _ _ _ hstart hlo, hhi⟩

/-- An interval `INTERVAL_EQUALS` or `INTERVAL_WITHIN` another is within it. -/
theorem within_of_compare {a b : Interval β}
    (hc : compare cmp a b = .equals ∨ compare cmp a b = .within) : within cmp a b = true := by
  have h := compare_spec cmp a b
  rcases hc with hc | hc <;> rw [hc] at h
  · obtain ⟨hlo, hhi⟩ := (equals_iff_cut a b).mp h.2
    exact (within_iff_cut hcmp a b).mpr
      ⟨Int.le_of_eq (((cutCmp_total hcmp).zero_iff _ _).mp hlo), Int.le_of_eq hhi⟩
  · exact h.2

/-- What `unionize` merges: `next`, which starts at or past `cur`, starts at or before its end
and ends at or past it, when `compare` answers `INTERVAL_OVERLAPS_BEFORE` or
`INTERVAL_PRECEDES_COULD_UNION`. -/
theorem mergeable_of_compare {cur next : Interval β} (hb : AscendingOrPoint cmp next)
    (hstart : cutCmp cmp (lowerCut cur) (lowerCut next) ≤ 0)
    (hc : compare cmp cur next = .overlapsBefore ∨ compare cmp cur next = .precedesCouldUnion) :
    cutCmp cmp (lowerCut next) (upperCut cur) ≤ 0 ∧
      cutCmp cmp (upperCut cur) (upperCut next) ≤ 0 := by
  have hC := cutCmp_total hcmp
  have hb' := (ascendingOrPoint_iff_cut next).mp hb
  have h := compare_spec cmp cur next
  rcases hc with hc | hc <;> rw [hc] at h
  · -- they meet, and `next` is not within `cur`, so it ends past it
    obtain ⟨hint, hwba, -⟩ := h
    refine ⟨Int.le_of_lt ((intersects_iff_cut cur next).mp hint).2, ?_⟩
    rw [← hC.not_lt]
    intro hlt
    simp [(within_iff_cut hcmp next cur).mpr ⟨hstart, Int.le_of_lt hlt⟩] at hwba
  · -- `cur` ends where `next` starts, below the end of `next`
    obtain ⟨hint, -, hcu⟩ := h
    have hup : cutCmp cmp (upperCut cur) (lowerCut next) ≤ 0 :=
      upperCut_le_lowerCut hcmp hb hint hstart
    exact ⟨((couldUnion_iff_cut hcmp cur next).mp hcu).2, hC.le_trans _ _ _ hup (Int.le_of_lt hb')⟩

/-- Where `a` starts at or past `b` and `b` ends at or before `a`, the interval from the start of
`a` to the end of `b` holds the values of both. -/
theorem contains_meet {a b : Interval β} (hlo : cutCmp cmp (lowerCut b) (lowerCut a) ≤ 0)
    (hhi : cutCmp cmp (upperCut b) (upperCut a) ≤ 0) (x : β) :
    Contains cmp ⟨a.start, a.startInclusive, b.end_, b.endInclusive⟩ x ↔
      Contains cmp a x ∧ Contains cmp b x := by
  have hC := cutCmp_total hcmp
  rw [contains_iff_cut, contains_iff_cut, contains_iff_cut]
  change cutCmp cmp (lowerCut a) (pointCut x) ≤ 0 ∧ cutCmp cmp (pointCut x) (upperCut b) ≤ 0 ↔ _
  constructor
  · rintro ⟨hxlo, hxhi⟩
    exact ⟨⟨hxlo, hC.le_trans _ _ _ hxhi hhi⟩, ⟨hC.le_trans _ _ _ hlo hxlo, hxhi⟩⟩
  · rintro ⟨⟨hxlo, -⟩, ⟨-, hxhi⟩⟩
    exact ⟨hxlo, hxhi⟩

/-- No value lies at or below a cut and at or above one that is not below it. -/
theorem not_between_cuts {x : β} {c d : β × Int} (hd : d.2 = 0 ∨ d.2 = 2)
    (hcd : cutCmp cmp c d ≤ 0) (hxc : cutCmp cmp (pointCut x) c ≤ 0)
    (hdx : cutCmp cmp d (pointCut x) ≤ 0) : False := by
  have hC := cutCmp_total hcmp
  -- the value's cut would equal `d`, whose position is not the value's
  have hxd := hC.le_trans _ _ _ hxc hcd
  exact cutCmp_pointCut_ne hd (hC.eq_zero_of_le_of_le hxd hdx)

omit hcmp in
theorem intersects_comm (a b : Interval β) : intersects cmp a b = intersects cmp b a := by
  rw [Bool.eq_iff_iff, intersects_iff_cut, intersects_iff_cut, and_comm]

omit hcmp in
/-- The start of an interval that is not empty in form is at or below the cut just below its
end. -/
theorem lowerCut_le_endCut {a : Interval β} (ha : AscendingOrPoint cmp a) :
    cutCmp cmp (lowerCut a) (a.end_, 0) ≤ 0 := by
  unfold lowerCut cutCmp
  rcases ha with hlt | ⟨heq, hsi, -⟩
  · rw [if_neg (Int.ne_of_lt hlt)]
    exact Int.le_of_lt hlt
  · rw [if_pos heq, hsi]
    simp

omit hcmp in
theorem endCut_le_pointCut {v x : β} (h : cmp v x ≤ 0) : cutCmp cmp (v, 0) (pointCut x) ≤ 0 := by
  unfold cutCmp pointCut
  split_ifs <;> simp_all

end NonEmpty

end Interval

namespace OrderedIntervalList

open Mongo.Query.Interval

variable {β : Type} {cmp : β → β → Int}

theorem ascending_cons {r : Interval β} {l : List (Interval β)} :
    Ascending cmp (r :: l) ↔
      AscendingOrPoint cmp r ∧ (∀ r' ∈ l.head?, cmp r.end_ r'.start ≤ 0) ∧ Ascending cmp l := by
  unfold Ascending
  rw [List.forall_mem_cons, List.isChain_cons]
  tauto

variable (hcmp : TotalPreorder cmp)
include hcmp

/-- In an ascending list, the intervals after the first start at or past its end. -/
theorem Ascending.end_le_start {a : Interval β} {l : List (Interval β)}
    (h : Ascending cmp (a :: l)) : ∀ J ∈ l, cmp a.end_ J.start ≤ 0 :=
  Ascending.le_start hcmp (ascending_cons.mp h).2.2 (ascending_cons.mp h).2.1

/-- The values an ascending list holds are at or past the start of its first interval. -/
theorem Ascending.lowerCut_le {a : Interval β} {l : List (Interval β)}
    (h : Ascending cmp (a :: l)) {x : β} (hx : Covers cmp (a :: l) x) :
    cutCmp cmp (lowerCut a) (pointCut x) ≤ 0 := by
  have hC := cutCmp_total hcmp
  rcases (covers_cons a l x).mp hx with hxa | ⟨J, hJ, hxJ⟩
  · exact ((contains_iff_cut a x).mp hxa).1
  · -- `x` is in a later interval, which starts at or past the end of `a`
    have hend : cmp a.end_ x ≤ 0 :=
      hcmp.le_trans _ _ _ (Ascending.end_le_start hcmp h J hJ) (AtOrAbove.le hxJ.1)
    exact hC.le_trans _ _ _ (lowerCut_le_endCut (ascending_cons.mp h).1)
      (endCut_le_pointCut hend)

/-- A value of `a` in an interval after `b`, where `a` ends at or below the end of `b`: it is a
value of `b`. -/
theorem Ascending.contains_of_covers_tail {a b : Interval β} {bs : List (Interval β)}
    (hB : Ascending cmp (b :: bs)) (hend : cutCmp cmp (upperCut a) (upperCut b) ≤ 0) {x : β}
    (hxa : Contains cmp a x) (hx : Covers cmp bs x) : Contains cmp b x :=
  (contains_iff_cut b x).mpr ⟨Ascending.lowerCut_le hcmp hB ((covers_cons b bs x).mpr (.inr hx)),
    (cutCmp_total hcmp).le_trans _ _ _ ((contains_iff_cut a x).mp hxa).2 hend⟩

end OrderedIntervalList

namespace IndexBoundsBuilder

open Mongo.Query.Interval

variable {β : Type} {cmp : β → β → Int}

/-- The sort order of `unionize` is the order of the start cuts. -/
theorem intervalComparison_iff_cut (a b : Interval β) :
    intervalComparison cmp a b = true ↔ cutCmp cmp (lowerCut a) (lowerCut b) < 0 := by
  unfold intervalComparison lowerCut cutCmp
  cases a.startInclusive <;> cases b.startInclusive <;> split_ifs <;> simp_all

section Unionize

variable (hcmp : TotalPreorder cmp)
include hcmp

/-- `sortIntervals` leaves the intervals in the order of their start cuts. -/
theorem sortIntervals_sorted (iv : List (Interval β)) :
    (sortIntervals cmp iv).Pairwise fun a b => cutCmp cmp (lowerCut a) (lowerCut b) ≤ 0 := by
  have hC := cutCmp_total hcmp
  -- `!intervalComparison(b, a)` is the order of the start cuts
  have hle : ∀ a b : Interval β, (!intervalComparison cmp b a) = true ↔
      cutCmp cmp (lowerCut a) (lowerCut b) ≤ 0 := by
    intro a b
    rw [Bool.not_eq_true', ← Bool.not_eq_true, intervalComparison_iff_cut, hC.not_lt]
  have hsorted := @List.pairwise_mergeSort _ (fun a b => !intervalComparison cmp b a)
    (fun a b c hab hbc =>
      (hle a c).mpr (hC.le_trans _ _ _ ((hle a b).mp hab) ((hle b c).mp hbc)))
    (fun a b => by
      rw [Bool.or_eq_true, hle, hle]
      by_cases h : cutCmp cmp (lowerCut a) (lowerCut b) ≤ 0
      · exact .inl h
      · exact .inr (Int.le_of_lt ((hC.not_le _ _).mp h)))
    iv
  exact hsorted.imp fun h => (hle _ _).mp h

/-- What the merge loop of `unionize` keeps. From intervals pushed so far (`done`, last first),
`cur` and the rest, sorted by start cut and none of them empty in form, with each pushed interval
separated from the next and from `cur`: the loop does not fail, its intervals are not empty in
form and each is separated from the next, and they hold the values of `done`, `cur` and the
rest. -/
theorem unionizeLoop_spec : ∀ (rest done : List (Interval β)) (cur : Interval β),
    (∀ I ∈ cur :: rest, AscendingOrPoint cmp I) →
    (cur :: rest).Pairwise (fun a b => cutCmp cmp (lowerCut a) (lowerCut b) ≤ 0) →
    (∀ I ∈ done, AscendingOrPoint cmp I) → done.reverse.IsChain (Separated cmp) →
    (∀ d ∈ done.head?, Separated cmp d cur) →
    ∃ out, unionizeLoop cmp done cur rest = .ok out ∧ (∀ I ∈ out, AscendingOrPoint cmp I) ∧
      out.IsChain (Separated cmp) ∧
      ∀ x, Covers cmp out x ↔ Covers cmp done x ∨ Contains cmp cur x ∨ Covers cmp rest x
  | [], done, cur, hne, _, hdone, hchain, hlast => by
    refine ⟨done.reverse ++ [cur], rfl, ?_, ?_, ?_⟩
    · intro I hI
      rcases List.mem_append.mp hI with hI | hI
      · exact hdone I (List.mem_reverse.mp hI)
      · rw [List.mem_singleton.mp hI]
        exact hne cur List.mem_cons_self
    · rw [List.isChain_append, List.getLast?_reverse]
      exact ⟨hchain, List.isChain_singleton cur, fun d hd y hy => by
        rw [List.head?_cons, Option.mem_some_iff] at hy
        exact hy ▸ hlast d hd⟩
    · intro x
      rw [covers_append, covers_reverse, covers_cons]
  | next :: rest, done, cur, hne, hsorted, hdone, hchain, hlast => by
    have hC := cutCmp_total hcmp
    have ha := hne cur List.mem_cons_self
    have hb := hne next (List.mem_cons_of_mem cur List.mem_cons_self)
    have ha' := (ascendingOrPoint_iff_cut cur).mp ha
    have hb' := (ascendingOrPoint_iff_cut next).mp hb
    have hstart : cutCmp cmp (lowerCut cur) (lowerCut next) ≤ 0 :=
      List.rel_of_pairwise_cons hsorted List.mem_cons_self
    have hne' : ∀ I ∈ next :: rest, AscendingOrPoint cmp I :=
      fun I hI => hne I (List.mem_cons_of_mem cur hI)
    -- `cur` before the intervals after `next`, for the cases that keep `cur`'s start
    have hsortedCur : (cur :: rest).Pairwise fun a b => cutCmp cmp (lowerCut a) (lowerCut b) ≤ 0 :=
      List.pairwise_cons.mpr ⟨fun J hJ => List.rel_of_pairwise_cons hsorted
        (List.mem_cons_of_mem next hJ), hsorted.of_cons.of_cons⟩
    have hneCur : ∀ I ∈ cur :: rest, AscendingOrPoint cmp I := by
      intro I hI
      rcases List.mem_cons.mp hI with rfl | hI
      · exact ha
      · exact hne I (List.mem_cons_of_mem cur (List.mem_cons_of_mem next hI))
    have h := compare_spec cmp cur next
    rw [unionizeLoop]
    cases hc : Interval.compare cmp cur next with
    | succeeds =>
      -- sorted, and not first: `next` starts where `cur` does, and the two meet there
      rw [hc] at h
      obtain ⟨hint, hpre⟩ := h
      have hback : cutCmp cmp (lowerCut next) (lowerCut cur) ≤ 0 := by
        rw [← hC.not_lt, ← precedes_iff_cut, hpre]
        simp
      have hmeet := (intersects_iff_cut cur next).mpr
        ⟨hC.lt_of_le_of_lt hstart hb', hC.lt_of_le_of_lt hback ha'⟩
      simp [hmeet] at hint
    | overlapsAfter =>
      -- the same start, so one of the two is within the other
      rw [hc] at h
      obtain ⟨-, hwab, hwba, hpre⟩ := h
      have hback : cutCmp cmp (lowerCut next) (lowerCut cur) ≤ 0 := by
        rw [← hC.not_lt, ← precedes_iff_cut, hpre]
        simp
      by_cases hend : cutCmp cmp (upperCut cur) (upperCut next) ≤ 0
      · simp [(within_iff_cut hcmp cur next).mpr ⟨hback, hend⟩] at hwab
      · simp [(within_iff_cut hcmp next cur).mpr
          ⟨hstart, Int.le_of_lt ((hC.not_le _ _).mp hend)⟩] at hwba
    | unknown =>
      rw [hc] at h
      exact h.elim
    | precedes =>
      have hsep := (compare_eq_precedes_iff hcmp ha hb).mp hc
      obtain ⟨out, hrun, hout, hchain', hden⟩ := unionizeLoop_spec rest (cur :: done) next hne'
        hsorted.of_cons
        (fun I hI => (List.mem_cons.mp hI).elim (fun h => h ▸ ha) (hdone I))
        (by
          rw [List.reverse_cons, List.isChain_append, List.getLast?_reverse]
          exact ⟨hchain, List.isChain_singleton cur, fun d hd y hy => by
            rw [List.head?_cons, Option.mem_some_iff] at hy
            exact hy ▸ hlast d hd⟩)
        (fun d hd => by
          rw [List.head?_cons, Option.mem_some_iff] at hd
          exact hd ▸ hsep)
      refine ⟨out, hrun, hout, hchain', fun x => ?_⟩
      rw [hden x, covers_cons, covers_cons]
      tauto
    | equals | within =>
      -- `cur` is within `next`, which takes its place
      have hwithin := within_of_compare hcmp (a := cur) (b := next) (by rw [hc]; simp)
      obtain ⟨out, hrun, hout, hchain', hden⟩ := unionizeLoop_spec rest done next hne'
        hsorted.of_cons hdone hchain
        (fun d hd => hC.lt_of_lt_of_le (hlast d hd) hstart)
      refine ⟨out, hrun, hout, hchain', fun x => ?_⟩
      have hsub := contains_of_within hcmp hwithin (x := x)
      rw [hden x, covers_cons]
      tauto
    | contains =>
      -- `next` is within `cur`, which stays
      rw [hc] at h
      obtain ⟨out, hrun, hout, hchain', hden⟩ := unionizeLoop_spec rest done cur hneCur
        hsortedCur hdone hchain hlast
      refine ⟨out, hrun, hout, hchain', fun x => ?_⟩
      have hsub := contains_of_within hcmp h.2 (x := x)
      rw [hden x, covers_cons]
      tauto
    | overlapsBefore | precedesCouldUnion =>
      -- `next` starts at or before the end of `cur` and ends past it: the two merge
      obtain ⟨hmeet, hend⟩ := mergeable_of_compare hcmp hb hstart (by rw [hc]; simp)
      have hm : AscendingOrPoint cmp ⟨cur.start, cur.startInclusive, next.end_, next.endInclusive⟩ :=
        (ascendingOrPoint_iff_cut _).mpr (hC.lt_of_le_of_lt hstart hb')
      -- the merge starts where `cur` does
      have hsortedMerge : (⟨cur.start, cur.startInclusive, next.end_, next.endInclusive⟩ :: rest).Pairwise
          fun a b => cutCmp cmp (lowerCut a) (lowerCut b) ≤ 0 :=
        List.pairwise_cons.mpr ⟨(List.pairwise_cons.mp hsortedCur).1, hsortedCur.of_cons⟩
      obtain ⟨out, hrun, hout, hchain', hden⟩ := unionizeLoop_spec rest done
        ⟨cur.start, cur.startInclusive, next.end_, next.endInclusive⟩
        (fun I hI => (List.mem_cons.mp hI).elim (fun h => h ▸ hm)
          fun hI => hneCur I (List.mem_cons_of_mem cur hI))
        hsortedMerge hdone hchain hlast
      refine ⟨out, hrun, hout, hchain', fun x => ?_⟩
      have hmerge := contains_merge hcmp hstart hmeet hend x
      rw [hden x, covers_cons]
      tauto

/-- `unionize` of intervals none of which is empty in form: it does not fail, and its intervals
are not empty in form, each separated from the next, and hold the values of the list. -/
theorem unionize_spec (oil : OrderedIntervalList β)
    (hne : ∀ I ∈ oil.intervals, AscendingOrPoint cmp I) :
    ∃ out, unionize cmp oil = .ok out ∧ out.name = oil.name ∧
      (∀ I ∈ out.intervals, AscendingOrPoint cmp I) ∧ out.intervals.IsChain (Separated cmp) ∧
      ∀ x, Covers cmp out.intervals x ↔ Covers cmp oil.intervals x := by
  have hperm : (sortIntervals cmp oil.intervals).Perm oil.intervals := List.mergeSort_perm _ _
  have hsorted := sortIntervals_sorted hcmp oil.intervals
  unfold unionize
  cases hs : sortIntervals cmp oil.intervals with
  | nil =>
    -- nothing to sort: the list was empty
    have hnil : oil.intervals = [] := (List.Perm.nil_eq (hs ▸ hperm)).symm
    exact ⟨oil, rfl, rfl, hne, by rw [hnil]; exact List.isChain_nil, fun x => Iff.rfl⟩
  | cons first rest =>
    rw [hs] at hperm hsorted
    obtain ⟨out, hrun, hout, hchain, hden⟩ := unionizeLoop_spec hcmp rest [] first
      (fun I hI => hne I (hperm.subset hI)) hsorted (by simp) List.isChain_nil (by simp)
    refine ⟨{ oil with intervals := out }, by dsimp only; rw [hrun]; rfl, rfl, hout, hchain,
      fun x => ?_⟩
    rw [hden x, ← covers_of_perm hperm, covers_cons]
    have := covers_nil cmp x
    tauto

end Unionize

section Intersectize

variable (hcmp : TotalPreorder cmp)
include hcmp

/-- An end at or below every start of a list is at or below the start of every interval that
starts at or past one of them. -/
theorem end_le_of_starts {e : β} {l out : List (Interval β)} (he : ∀ J ∈ l, cmp e J.start ≤ 0)
    (hstarts : ∀ r ∈ out, ∃ J ∈ l, cmp J.start r.start ≤ 0) :
    ∀ r ∈ out.head?, cmp e r.start ≤ 0 := by
  intro r hr
  obtain ⟨J, hJ, hJr⟩ := hstarts r (List.mem_of_mem_head? hr)
  exact hcmp.le_trans _ _ _ (he J hJ) hJr

open OrderedIntervalList in
/-- What the loop of `intersectize` does on two lists that `isValidFor(1)` accepts: it does not
fail, its intervals are accepted again and hold the values the two lists share, and each of them
starts at or past a start of either list. -/
theorem intersectizeLoop_spec (as bs : List (Interval β)) (hA : Ascending cmp as)
    (hB : Ascending cmp bs) :
    ∃ out, intersectizeLoop cmp as bs = .ok out ∧ Ascending cmp out ∧
      (∀ x, Covers cmp out x ↔ Covers cmp as x ∧ Covers cmp bs x) ∧
      ∀ r ∈ out, (∃ a ∈ as, cmp a.start r.start ≤ 0) ∧ ∃ b ∈ bs, cmp b.start r.start ≤ 0 := by
  -- induction on a bound of the intervals the two lists have left: each round drops one or two
  obtain ⟨n, hn⟩ : ∃ n, as.length + bs.length < n := ⟨_, Nat.lt_succ_self _⟩
  induction n generalizing as bs with
  | zero => exact absurd hn (Nat.not_lt_zero _)
  | succ n ih =>
  cases as with
  | nil =>
    exact ⟨[], intersectizeLoop.eq_2 cmp [] bs (by simp), ⟨by simp, List.isChain_nil⟩,
      fun x => by have := covers_nil cmp x; tauto, by simp⟩
  | cons a as =>
  cases bs with
  | nil =>
    exact ⟨[], intersectizeLoop.eq_2 cmp (a :: as) [] (by simp), ⟨by simp, List.isChain_nil⟩,
      fun x => by have := covers_nil cmp x; tauto, by simp⟩
  | cons b bs =>
    have hC := cutCmp_total hcmp
    obtain ⟨ha, -, hA'⟩ := ascending_cons.mp hA
    obtain ⟨hb, -, hB'⟩ := ascending_cons.mp hB
    have ha' := (ascendingOrPoint_iff_cut a).mp ha
    have hb' := (ascendingOrPoint_iff_cut b).mp hb
    have h := compare_spec cmp a b
    rw [intersectizeLoop.eq_1]
    cases hc : Interval.compare cmp a b with
    | unknown =>
      rw [hc] at h
      exact h.elim
    | precedes | precedesCouldUnion =>
      -- `a` ends at or below the start of `b`: it shares no value with `b` or what follows
      have hsep : cutCmp cmp (upperCut a) (lowerCut b) ≤ 0 := by
        rw [hc] at h
        exact upperCut_le_lowerCut hcmp hb h.1 (Int.le_of_lt ((precedes_iff_cut a b).mp h.2.1))
      obtain ⟨out, hrun, hasc, hden, hstarts⟩ := ih as (b :: bs) hA' hB
        (by simp only [List.length_cons] at hn ⊢; omega)
      refine ⟨out, by simpa using hrun, hasc, fun x => ?_, fun r hr => ?_⟩
      · have hnone : Contains cmp a x → ¬ Covers cmp (b :: bs) x := fun hxa hxb =>
          not_between_cuts hcmp (lowerCut_pos b) hsep ((contains_iff_cut a x).mp hxa).2
            (Ascending.lowerCut_le hcmp hB hxb)
        rw [hden x, covers_cons a]
        tauto
      · obtain ⟨⟨a', ha', har⟩, hbr⟩ := hstarts r hr
        exact ⟨⟨a', List.mem_cons_of_mem a ha', har⟩, hbr⟩
    | succeeds =>
      -- `b` ends at or below the start of `a`
      rw [hc] at h
      have hsep : cutCmp cmp (upperCut b) (lowerCut a) ≤ 0 := by
        refine upperCut_le_lowerCut hcmp ha (by rw [intersects_comm]; exact h.1) ?_
        rw [← hC.not_lt, ← precedes_iff_cut, h.2]
        simp
      obtain ⟨out, hrun, hasc, hden, hstarts⟩ := ih (a :: as) bs hA hB'
        (by simp only [List.length_cons] at hn ⊢; omega)
      refine ⟨out, by simpa using hrun, hasc, fun x => ?_, fun r hr => ?_⟩
      · have hnone : Contains cmp b x → ¬ Covers cmp (a :: as) x := fun hxb hxa =>
          not_between_cuts hcmp (lowerCut_pos a) hsep ((contains_iff_cut b x).mp hxb).2
            (Ascending.lowerCut_le hcmp hA hxa)
        rw [hden x, covers_cons b]
        tauto
      · obtain ⟨har, ⟨b', hb', hbr⟩⟩ := hstarts r hr
        exact ⟨har, ⟨b', List.mem_cons_of_mem b hb', hbr⟩⟩
    | equals =>
      rw [hc] at h
      -- the same interval in both lists: it is the intersection, and both move on
      obtain ⟨hlo, hhi⟩ := (equals_iff_cut a b).mp h.2
      have hlo' : cutCmp cmp (lowerCut b) (lowerCut a) ≤ 0 := Int.le_of_eq ((hC.zero_iff _ _).mp hlo)
      have hab : ∀ x, Contains cmp a x → Contains cmp b x := fun x =>
        contains_of_within hcmp ((within_iff_cut hcmp a b).mpr ⟨hlo', Int.le_of_eq hhi⟩)
      have hba : ∀ x, Contains cmp b x → Contains cmp a x := fun x =>
        contains_of_within hcmp ((within_iff_cut hcmp b a).mpr
          ⟨Int.le_of_eq hlo, Int.le_of_eq ((hC.zero_iff _ _).mp hhi)⟩)
      obtain ⟨out, hrun, hasc, hden, hstarts⟩ := ih as bs hA' hB'
        (by simp only [List.length_cons] at hn ⊢; omega)
      refine ⟨a :: out, by simp [Interval.intersect, hrun]; rfl, ascending_cons.mpr ⟨ha,
        end_le_of_starts hcmp (Ascending.end_le_start hcmp hA) (fun r hr => (hstarts r hr).1),
        hasc⟩, fun x => ?_, fun r hr => ?_⟩
      · have := hab x
        have := hba x
        rw [covers_cons a out, hden x, covers_cons a as, covers_cons b bs]
        tauto
      · rcases List.mem_cons.mp hr with rfl | hr
        · exact ⟨⟨r, List.mem_cons_self, Int.le_of_eq (hcmp.refl _)⟩,
            ⟨b, List.mem_cons_self, le_of_cutCmp_le hlo'⟩⟩
        · obtain ⟨⟨a', ha'', har⟩, ⟨b', hb'', hbr⟩⟩ := hstarts r hr
          exact ⟨⟨a', List.mem_cons_of_mem a ha'', har⟩, ⟨b', List.mem_cons_of_mem b hb'', hbr⟩⟩
    | within =>
      rw [hc] at h
      -- `a` lies within `b`: it is the intersection, and `a` is done with
      have hab : ∀ x, Contains cmp a x → Contains cmp b x := fun x => contains_of_within hcmp h.2
      have hlo := ((within_iff_cut hcmp a b).mp h.2).1
      obtain ⟨out, hrun, hasc, hden, hstarts⟩ := ih as (b :: bs) hA' hB
        (by simp only [List.length_cons] at hn ⊢; omega)
      refine ⟨a :: out, by simp [Interval.intersect, hrun]; rfl, ascending_cons.mpr ⟨ha,
        end_le_of_starts hcmp (Ascending.end_le_start hcmp hA) (fun r hr => (hstarts r hr).1),
        hasc⟩, fun x => ?_, fun r hr => ?_⟩
      · have hab' : Contains cmp a x → Covers cmp (b :: bs) x :=
          fun hx => (covers_cons b bs x).mpr (.inl (hab x hx))
        rw [covers_cons a out, hden x, covers_cons a as]
        tauto
      · rcases List.mem_cons.mp hr with rfl | hr
        · exact ⟨⟨r, List.mem_cons_self, Int.le_of_eq (hcmp.refl _)⟩,
            ⟨b, List.mem_cons_self, le_of_cutCmp_le hlo⟩⟩
        · obtain ⟨⟨a', ha'', har⟩, hbr⟩ := hstarts r hr
          exact ⟨⟨a', List.mem_cons_of_mem a ha'', har⟩, hbr⟩
    | contains =>
      rw [hc] at h
      -- `b` lies within `a`: it is the intersection, and `b` is done with
      have hba : ∀ x, Contains cmp b x → Contains cmp a x := fun x => contains_of_within hcmp h.2
      have hlo := ((within_iff_cut hcmp b a).mp h.2).1
      obtain ⟨out, hrun, hasc, hden, hstarts⟩ := ih (a :: as) bs hA hB'
        (by simp only [List.length_cons] at hn ⊢; omega)
      refine ⟨⟨b.start, b.startInclusive, b.end_, b.endInclusive⟩ :: out,
        by simp [Interval.intersect, hrun]; rfl, ascending_cons.mpr ⟨hb,
        end_le_of_starts hcmp (e := b.end_) (Ascending.end_le_start hcmp hB) (fun r hr => (hstarts r hr).2),
        hasc⟩, fun x => ?_, fun r hr => ?_⟩
      · have hba' : Contains cmp b x → Covers cmp (a :: as) x :=
          fun hx => (covers_cons a as x).mpr (.inl (hba x hx))
        rw [covers_cons _ out, hden x, covers_cons b bs]
        tauto
      · rcases List.mem_cons.mp hr with rfl | hr
        · exact ⟨⟨a, List.mem_cons_self, le_of_cutCmp_le hlo⟩,
            ⟨b, List.mem_cons_self, Int.le_of_eq (hcmp.refl _)⟩⟩
        · obtain ⟨har, ⟨b', hb'', hbr⟩⟩ := hstarts r hr
          exact ⟨har, ⟨b', List.mem_cons_of_mem b hb'', hbr⟩⟩
    | overlapsBefore =>
      rw [hc] at h
      obtain ⟨hint, hwba, hpre⟩ := h
      -- `a` starts first and ends first: the intersection runs from the start of `b` to the end
      -- of `a`, and `a` is done with
      have hlo := Int.le_of_lt ((precedes_iff_cut a b).mp hpre)
      have hend : cutCmp cmp (upperCut a) (upperCut b) ≤ 0 := by
        rw [← hC.not_lt]
        intro hlt
        simp [(within_iff_cut hcmp b a).mpr ⟨hlo, Int.le_of_lt hlt⟩] at hwba
      have hr : AscendingOrPoint cmp ⟨b.start, b.startInclusive, a.end_, a.endInclusive⟩ :=
        (ascendingOrPoint_iff_cut _).mpr ((intersects_iff_cut a b).mp hint).2
      obtain ⟨out, hrun, hasc, hden, hstarts⟩ := ih as (b :: bs) hA' hB
        (by simp only [List.length_cons] at hn ⊢; omega)
      refine ⟨⟨b.start, b.startInclusive, a.end_, a.endInclusive⟩ :: out,
        by simp [Interval.intersect, hrun]; rfl, ascending_cons.mpr ⟨hr,
        end_le_of_starts hcmp (e := a.end_) (Ascending.end_le_start hcmp hA) (fun r hr => (hstarts r hr).1),
        hasc⟩, fun x => ?_, fun r hr => ?_⟩
      · have hmeet := contains_meet hcmp hlo hend x
        have hlost := Ascending.contains_of_covers_tail hcmp hB hend (x := x)
        rw [covers_cons _ out, hden x, covers_cons a as, covers_cons b bs]
        tauto
      · rcases List.mem_cons.mp hr with rfl | hr
        · exact ⟨⟨a, List.mem_cons_self, le_of_cutCmp_le hlo⟩,
            ⟨b, List.mem_cons_self, Int.le_of_eq (hcmp.refl _)⟩⟩
        · obtain ⟨⟨a', ha'', har⟩, hbr⟩ := hstarts r hr
          exact ⟨⟨a', List.mem_cons_of_mem a ha'', har⟩, hbr⟩
    | overlapsAfter =>
      rw [hc] at h
      obtain ⟨hint, hwab, -, hpre⟩ := h
      -- `b` starts first and ends first: the intersection runs from the start of `a` to the end
      -- of `b`, and `b` is done with
      have hlo : cutCmp cmp (lowerCut b) (lowerCut a) ≤ 0 := by
        rw [← hC.not_lt, ← precedes_iff_cut, hpre]
        simp
      have hend : cutCmp cmp (upperCut b) (upperCut a) ≤ 0 := by
        rw [← hC.not_lt]
        intro hlt
        simp [(within_iff_cut hcmp a b).mpr ⟨hlo, Int.le_of_lt hlt⟩] at hwab
      have hr : AscendingOrPoint cmp ⟨a.start, a.startInclusive, b.end_, b.endInclusive⟩ :=
        (ascendingOrPoint_iff_cut _).mpr ((intersects_iff_cut a b).mp hint).1
      obtain ⟨out, hrun, hasc, hden, hstarts⟩ := ih (a :: as) bs hA hB'
        (by simp only [List.length_cons] at hn ⊢; omega)
      refine ⟨⟨a.start, a.startInclusive, b.end_, b.endInclusive⟩ :: out,
        by simp [Interval.intersect, hrun]; rfl, ascending_cons.mpr ⟨hr,
        end_le_of_starts hcmp (e := b.end_) (Ascending.end_le_start hcmp hB) (fun r hr => (hstarts r hr).2),
        hasc⟩, fun x => ?_, fun r hr => ?_⟩
      · have hmeet := contains_meet hcmp hlo hend x
        have hlost := Ascending.contains_of_covers_tail hcmp hA hend (x := x)
        rw [covers_cons _ out, hden x, covers_cons a as, covers_cons b bs]
        tauto
      · rcases List.mem_cons.mp hr with rfl | hr
        · exact ⟨⟨a, List.mem_cons_self, Int.le_of_eq (hcmp.refl _)⟩,
            ⟨b, List.mem_cons_self, le_of_cutCmp_le hlo⟩⟩
        · obtain ⟨har, ⟨b', hb'', hbr⟩⟩ := hstarts r hr
          exact ⟨har, ⟨b', List.mem_cons_of_mem b hb'', hbr⟩⟩

open OrderedIntervalList in
/-- `intersectize` of two lists with one name that `isValidFor(1)` accepts: it does not fail, and
its result, under the name of `oilB`, is accepted again and holds the values the two share. -/
theorem intersectize_spec (oilA oilB : OrderedIntervalList β) (hname : oilA.name = oilB.name)
    (hA : Ascending cmp oilA.intervals) (hB : Ascending cmp oilB.intervals) :
    ∃ out, intersectize cmp oilA oilB = .ok out ∧ out.name = oilB.name ∧
      Ascending cmp out.intervals ∧
      ∀ x, Covers cmp out.intervals x ↔ Covers cmp oilA.intervals x ∧ Covers cmp oilB.intervals x := by
  obtain ⟨out, hrun, hasc, hden, -⟩ := intersectizeLoop_spec hcmp _ _ hA hB
  refine ⟨{ oilB with intervals := out }, ?_, rfl, hasc, hden⟩
  rw [intersectize, if_neg (not_not.mpr hname), hrun]
  rfl

end Intersectize

end IndexBoundsBuilder

end Mongo.Query
