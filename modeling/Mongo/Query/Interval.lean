import Mongo.BSONTypes
import Mongo.Sorter.Iterator

/-! `Interval` (`db/query/interval.cpp`): two endpoints, each in or out of the interval. The
source compares endpoints with `woCompare(other, false)`; the model takes that comparison as
`cmp`, so that it runs on any type of endpoints. `Interval.Contains` is what an interval means:
the values at or past its start and at or before its end, as its flags say. `compare` sorts a
pair of intervals into the cases of `IntervalComparison` from `intersects`, `within` and
`precedes`, and `intersect` rebuilds an interval from the endpoints of two that meet. -/

namespace Mongo.Sorting.TotalPreorder

variable {Data : Type} {comp : Data → Data → Int} (hcomp : TotalPreorder comp)
include hcomp

theorem not_le (a b : Data) : ¬ comp a b ≤ 0 ↔ comp b a < 0 := by
  have := hcomp.neg_iff b a
  omega

theorem not_lt (a b : Data) : ¬ comp a b < 0 ↔ comp b a ≤ 0 := by
  have := hcomp.neg_iff a b
  omega

theorem refl (a : Data) : comp a a = 0 := by
  have := hcomp.neg_iff a a
  omega

theorem lt_of_lt_of_le {a b c : Data} (hab : comp a b < 0) (hbc : comp b c ≤ 0) :
    comp a c < 0 := by
  by_contra hac
  -- `c` at or below `a` puts `b` at or below `a`
  have hca : comp c a ≤ 0 := (hcomp.not_lt a c).mp hac
  exact (hcomp.not_le b a).mpr hab (hcomp.le_trans b c a hbc hca)

theorem lt_of_le_of_lt {a b c : Data} (hab : comp a b ≤ 0) (hbc : comp b c < 0) :
    comp a c < 0 := by
  by_contra hac
  have hca : comp c a ≤ 0 := (hcomp.not_lt a c).mp hac
  exact (hcomp.not_le c b).mpr hbc (hcomp.le_trans c a b hca hab)

end Mongo.Sorting.TotalPreorder

namespace Mongo.Query

open Mongo.Sorting (TotalPreorder)

/-- An `Interval`: `start` and `end`, the two elements of `_intervalData`, with whether each is
in the interval. -/
structure Interval (β : Type) where
  start : β
  startInclusive : Bool
  end_ : β
  endInclusive : Bool
  deriving DecidableEq, Repr

/-- The assertions of the interval code: `verify`, `invariant` and `MONGO_UNREACHABLE` abort, and
`noProgress` is a loop that would go round forever without changing anything. -/
inductive IntervalError
  | verifyFailed
  | invariantFailure
  | unreachable
  | noProgress
  deriving DecidableEq, Repr

namespace Interval

/-- `Interval::IntervalComparison`. -/
inductive IntervalComparison
  | equals
  | contains
  | within
  | overlapsBefore
  | overlapsAfter
  | precedesCouldUnion
  | precedes
  | succeeds
  | unknown
  deriving DecidableEq, Repr

variable {β : Type} (cmp : β → β → Int)

/-- `Interval::equals`. -/
def equals (i other : Interval β) : Bool :=
  i.startInclusive == other.startInclusive && i.endInclusive == other.endInclusive &&
    cmp i.start other.start == 0 && cmp i.end_ other.end_ == 0

/-- `Interval::intersects`: each interval starts at or before the end of the other. -/
def intersects (i other : Interval β) : Bool :=
  let res := cmp i.start other.end_
  if 0 < res then false
  else if res = 0 ∧ (!i.startInclusive || !other.endInclusive) = true then false
  else
    let res := cmp other.start i.end_
    if 0 < res then false
    else if res = 0 ∧ (!other.startInclusive || !i.endInclusive) = true then false
    else true

/-- `Interval::within`: `i` starts at or after `other` and ends at or before it. -/
def within (i other : Interval β) : Bool :=
  let res := cmp i.start other.start
  if res < 0 then false
  else if res = 0 ∧ (i.startInclusive && !other.startInclusive) = true then false
  else
    let res := cmp i.end_ other.end_
    if 0 < res then false
    else if res = 0 ∧ (i.endInclusive && !other.endInclusive) = true then false
    else true

/-- `Interval::precedes`: `i` starts before `other`. -/
def precedes (i other : Interval β) : Bool :=
  let res := cmp i.start other.start
  if res < 0 then true
  else if res = 0 ∧ (i.startInclusive && !other.startInclusive) = true then true
  else false

/-- `Interval::compare`. -/
def compare (i other : Interval β) : IntervalComparison :=
  if intersects cmp i other then
    if equals cmp i other then .equals
    else if within cmp i other then .within
    else if within cmp other i then .contains
    else if precedes cmp i other then .overlapsBefore
    else .overlapsAfter
  else if precedes cmp i other then
    if (i.endInclusive || other.startInclusive) = true ∧ cmp i.end_ other.start = 0 then
      .precedesCouldUnion
    else .precedes
  else .succeeds

/-- `Interval::intersect(other, cmp)`: `none` is the empty `Interval()` the disjoint cases leave,
and a comparison the switch has no case for is `verify(false)`. -/
def intersect (i other : Interval β) (c : IntervalComparison) :
    Except IntervalError (Option (Interval β)) :=
  match (if c = .unknown then compare cmp i other else c) with
  | .equals | .within => .ok (some i)
  | .contains => .ok (some ⟨other.start, other.startInclusive, other.end_, other.endInclusive⟩)
  | .overlapsAfter => .ok (some ⟨i.start, i.startInclusive, other.end_, other.endInclusive⟩)
  | .overlapsBefore => .ok (some ⟨other.start, other.startInclusive, i.end_, i.endInclusive⟩)
  | .precedes | .succeeds => .ok none
  | .precedesCouldUnion | .unknown => .error .verifyFailed

/-! ## What an interval means -/

/-- `x` meets the lower bound `start` (itself included when `startInclusive`). -/
def AtOrAbove (start : β) (startInclusive : Bool) (x : β) : Prop :=
  if startInclusive then cmp start x ≤ 0 else cmp start x < 0

/-- `x` meets the upper bound `end` (itself included when `endInclusive`). -/
def AtOrBelow (end_ : β) (endInclusive : Bool) (x : β) : Prop :=
  if endInclusive then cmp x end_ ≤ 0 else cmp x end_ < 0

/-- The values in an interval. -/
def Contains (i : Interval β) (x : β) : Prop :=
  AtOrAbove cmp i.start i.startInclusive x ∧ AtOrBelow cmp i.end_ i.endInclusive x

instance (start : β) (startInclusive : Bool) (x : β) :
    Decidable (AtOrAbove cmp start startInclusive x) :=
  inferInstanceAs (Decidable (if startInclusive then _ else _))

instance (end_ : β) (endInclusive : Bool) (x : β) :
    Decidable (AtOrBelow cmp end_ endInclusive x) :=
  inferInstanceAs (Decidable (if endInclusive then _ else _))

instance (i : Interval β) (x : β) : Decidable (Contains cmp i x) :=
  inferInstanceAs (Decidable (_ ∧ _))

/-- An interval that is not empty in form: its start is below its end, or it is a point
`[x, x]`; `[x, x)`, `(x, x]` and `(x, x)` are empty. -/
def AscendingOrPoint (i : Interval β) : Prop :=
  cmp i.start i.end_ < 0 ∨ (cmp i.start i.end_ = 0 ∧ i.startInclusive = true ∧ i.endInclusive = true)

section Order

variable {cmp}

theorem AtOrAbove.le {start x : β} {startInclusive : Bool}
    (h : AtOrAbove cmp start startInclusive x) : cmp start x ≤ 0 := by
  cases startInclusive
  · exact Int.le_of_lt h
  · exact h

theorem AtOrBelow.le {end_ x : β} {endInclusive : Bool}
    (h : AtOrBelow cmp end_ endInclusive x) : cmp x end_ ≤ 0 := by
  cases endInclusive
  · exact Int.le_of_lt h
  · exact h

variable (hcmp : TotalPreorder cmp)
include hcmp

/-- Below a lower bound is at or below the same value with its inclusion flipped. -/
theorem not_atOrAbove {start x : β} {startInclusive : Bool} :
    ¬ AtOrAbove cmp start startInclusive x ↔ AtOrBelow cmp start (!startInclusive) x := by
  cases startInclusive
  · simpa [AtOrAbove, AtOrBelow] using hcmp.not_lt start x
  · simpa [AtOrAbove, AtOrBelow] using hcmp.not_le start x

theorem not_atOrBelow {end_ x : β} {endInclusive : Bool} :
    ¬ AtOrBelow cmp end_ endInclusive x ↔ AtOrAbove cmp end_ (!endInclusive) x := by
  cases endInclusive
  · simpa [AtOrAbove, AtOrBelow] using hcmp.not_lt x end_
  · simpa [AtOrAbove, AtOrBelow] using hcmp.not_le x end_

/-- A value outside an interval is below its start or above its end. -/
theorem not_contains {i : Interval β} {x : β} :
    ¬ Contains cmp i x ↔
      AtOrBelow cmp i.start (!i.startInclusive) x ∨ AtOrAbove cmp i.end_ (!i.endInclusive) x := by
  rw [Contains, not_and_or, not_atOrAbove hcmp, not_atOrBelow hcmp]

/-- A lower bound moved down keeps what meets it. -/
theorem AtOrAbove.of_le {b start x : β} {bInclusive startInclusive : Bool}
    (h : AtOrAbove cmp start startInclusive x) (hb : cmp b start ≤ 0)
    (hstrict : bInclusive = false → startInclusive = true → cmp b start < 0) :
    AtOrAbove cmp b bInclusive x := by
  cases bInclusive
  · cases startInclusive
    · exact hcmp.lt_of_le_of_lt hb h
    · exact hcmp.lt_of_lt_of_le (hstrict rfl rfl) h
  · exact hcmp.le_trans _ _ _ hb (AtOrAbove.le h)

end Order

end Interval

end Mongo.Query
