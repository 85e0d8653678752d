import Mongo.Query.IntervalList
import Mongo.KeyString.Skip

/-! `IndexBoundsChecker` (`db/query/index_bounds.cpp`), which drives an index scan over bounds
that are not a single range. Shown the key the scan is on, it answers that the key is in the
bounds (`VALID`), that the scan must jump ahead to a seek point (`MUST_ADVANCE`), or that no key
further on is in them (`DONE`). It keeps, for each field of the index, the interval it expects
the field to be in (`_curInterval`), and looks for another one only when the field is not
there.

A seek point is turned into the key the cursor seeks to by
`IndexEntryComparison::makeKeyStringFromSeekPointForSeek` (`db/storage/index_entry_comparison.cpp`):
the fields of the key, and a discriminator that puts it just before or just after every key that
starts with them.

Values are compared by `cmp`, the `woCompare(other, false)` of the elements; a key is the list of
its fields' values. A `vector` read past its end, which the C++ leaves undefined, is the error
`outOfRange`. -/

namespace Mongo.Query

open Mongo.KeyString (Discriminator)

variable {β : Type} (cmp : β → β → Int)

/-- `IndexBoundsChecker::Location`: where a value is against an interval, in the direction of
the scan. -/
inductive Location
  | BEHIND
  | WITHIN
  | AHEAD
  deriving DecidableEq, Repr

/-- `IndexBoundsChecker::KeyState`. -/
inductive KeyState
  | VALID
  | MUST_ADVANCE
  | DONE
  deriving DecidableEq, Repr

/-- What stops the checker: a failed `verify` or `invariant`, or the read of a `vector` element
past its end. -/
inductive CheckerError
  | verifyFailed
  | invariantFailure
  | outOfRange
  deriving DecidableEq, Repr

/-- `IndexSeekPoint` (`db/storage/index_entry_comparison.h`): the first `prefixLen` fields of
`keyPrefix`, then, unless `prefixExclusive`, the fields of `keySuffix` from `prefixLen` on, each
included as `suffixInclusive` says. `keySuffix` holds pointers, `none` for a null one. -/
structure IndexSeekPoint (β : Type) where
  keyPrefix : List β
  prefixLen : Nat
  prefixExclusive : Bool
  keySuffix : List (Option β)
  suffixInclusive : List Bool

namespace IndexBounds

/-- `IndexBounds::isValidFor(keyPattern, direction)` for bounds that are not a simple range: one
list of intervals for each field of the key pattern, in its order and under its name, each valid
in the direction the scan walks the field. A key pattern is the names of its fields and their
numbers (`elt.number()`, which is `0` for a field that is not a number). -/
def isValidFor : List (OrderedIntervalList β) → List (String × Int) → Int → Bool
  | [], keyPattern, _ => keyPattern.isEmpty
  | _ :: _, [], _ => false
  | field :: fields, elt :: keyPattern, direction =>
    field.name == elt.1 &&
      field.isValidFor cmp (direction * (if 0 ≤ elt.2 then 1 else -1)) &&
      isValidFor fields keyPattern direction

end IndexBounds

/-- `IndexBoundsChecker`: the fields of the bounds (`_bounds->fields`), the interval each field
is expected in (`_curInterval`), and the direction of each field in the scan
(`_expectedDirection`). -/
structure IndexBoundsChecker (β : Type) where
  fields : List (OrderedIntervalList β)
  curInterval : List Nat
  expectedDirection : List Int

namespace IndexBoundsChecker

/-- `v[i]`. -/
def elemAt {α : Type} (v : List α) (i : Nat) : Except CheckerError α :=
  match v[i]? with
  | some a => .ok a
  | none => .error .outOfRange

/-- `verify(ok)`. -/
def verify (ok : Bool) : Except CheckerError Unit := if ok then .ok () else .error .verifyFailed

/-- `invariant(ok)`. -/
def invariant (ok : Bool) : Except CheckerError Unit :=
  if ok then .ok () else .error .invariantFailure

/-- `std::vector::resize(n)`: cut to `n` elements, or filled up to `n` with `fill`. -/
def resize {α : Type} (v : List α) (n : Nat) (fill : α) : List α :=
  v.take n ++ List.replicate (n - v.length) fill

/-- `intervalCmp(interval, key, expectedDirection)`: `key` is behind the interval when it does
not meet its start in the direction `expectedDirection`, ahead when it does not meet its end. -/
def intervalCmp (interval : Interval β) (key : β) (expectedDirection : Int) : Location :=
  let c := (cmp key interval.start).sign
  let startOK := c == expectedDirection || (c == 0 && interval.startInclusive)
  if !startOK then .BEHIND
  else
    let c := (cmp key interval.end_).sign
    let endOK := c == -expectedDirection || (c == 0 && interval.endInclusive)
    if !endOK then .AHEAD else .WITHIN

/-- The constructor, from the key pattern and the direction of the scan: each field starts in its
first interval. -/
def make (fields : List (OrderedIntervalList β)) (keyPattern : List (String × Int))
    (scanDirection : Int) : IndexBoundsChecker β :=
  ⟨fields, List.replicate fields.length 0,
    keyPattern.map fun elt => (if 0 ≤ elt.2 then 1 else -1) * scanDirection⟩

/-- The loop of `getStartSeekPoint` from field `i`: the start of the first interval of each
field, or `false` at a field without intervals. -/
def getStartSeekPointFrom : Nat → List (OrderedIntervalList β) → IndexSeekPoint β →
    Bool × IndexSeekPoint β
  | _, [], out => (true, out)
  | i, oil :: rest, out =>
    match oil.intervals with
    | [] => (false, out)
    | first :: _ =>
      getStartSeekPointFrom (i + 1) rest
        { out with keySuffix := out.keySuffix.set i (some first.start),
                   suffixInclusive := out.suffixInclusive.set i first.startInclusive }

/-- `getStartSeekPoint(out)`: the starts of the first intervals, with no prefix. -/
def getStartSeekPoint (c : IndexBoundsChecker β) (out : IndexSeekPoint β) :
    Bool × IndexSeekPoint β :=
  getStartSeekPointFrom 0 c.fields
    { out with prefixLen := 0, prefixExclusive := false,
               keySuffix := resize out.keySuffix c.fields.length none,
               suffixInclusive := resize out.suffixInclusive c.fields.length false }

/-- The loop of `findLeftmostProblem` from field `i`, `k` fields before the end. -/
def findLeftmostProblemFrom (c : IndexBoundsChecker β) (keyValues : List β) :
    Nat → Nat → Except CheckerError (Option (Nat × Location))
  | _, 0 => pure none
  | i, k + 1 => do
    let field ← elemAt c.fields i
    let cur ← elemAt c.curInterval i
    let currentInterval ← elemAt field.intervals cur
    let key ← elemAt keyValues i
    let expectedDirection ← elemAt c.expectedDirection i
    let location := intervalCmp cmp currentInterval key expectedDirection
    if location ≠ .WITHIN then pure (some (i, location))
    else findLeftmostProblemFrom c keyValues (i + 1) k

/-- `findLeftmostProblem(keyValues, &where, &what)`: the first field that is not in its current
interval, and where it is against it. -/
def findLeftmostProblem (c : IndexBoundsChecker β) (keyValues : List β) :
    Except CheckerError (Option (Nat × Location)) :=
  findLeftmostProblemFrom cmp c keyValues 0 c.curInterval.length

/-- The loop of `spaceLeftToAdvance` from field `i`, `k` fields before `fieldsToCheck`. -/
def spaceLeftToAdvanceFrom (c : IndexBoundsChecker β) (keyValues : List β) :
    Nat → Nat → Except CheckerError Bool
  | _, 0 => pure false
  | i, k + 1 => do
    let field ← elemAt c.fields i
    let cur ← elemAt c.curInterval i
    -- `intervals.size() - 1` is a `size_t`
    if cur ≠ (field.intervals.length + (2 ^ 64 - 1)) % 2 ^ 64 then pure true
    else do
      let ival ← elemAt field.intervals cur
      if !ival.endInclusive then pure true
      else do
        let key ← elemAt keyValues i
        let expectedDirection ← elemAt c.expectedDirection i
        if -expectedDirection = (cmp key ival.end_).sign then pure true
        else spaceLeftToAdvanceFrom c keyValues (i + 1) k

/-- `spaceLeftToAdvance(fieldsToCheck, keyValues)`: some field before `fieldsToCheck` is not at
its last interval, or that interval is open at its end, or the field has not reached its end. -/
def spaceLeftToAdvance (c : IndexBoundsChecker β) (fieldsToCheck : Nat) (keyValues : List β) :
    Except CheckerError Bool :=
  spaceLeftToAdvanceFrom cmp c keyValues 0 fieldsToCheck

/-- `isKeyAheadOfInterval(interval, keyAndDirection)`. -/
def isKeyAheadOfInterval (interval : Interval β) (keyAndDirection : β × Int) : Bool :=
  intervalCmp cmp interval keyAndDirection.1 keyAndDirection.2 == .AHEAD

/-- `findIntervalForField(elt, oil, expectedDirection, &newIntervalIndex)`: the location, and the
position `std::lower_bound` stops at (`intervals.size()` when `elt` is ahead of every interval,
where the C++ leaves `newIntervalIndex` unset). The search is modelled by the first interval
`elt` is not ahead of, which is where `std::lower_bound` stops on intervals `elt` is ahead of a
prefix of. -/
def findIntervalForField (elt : β) (oil : OrderedIntervalList β) (expectedDirection : Int) :
    Except CheckerError (Location × Nat) :=
  let i := (oil.intervals.takeWhile fun interval =>
    isKeyAheadOfInterval cmp interval (elt, expectedDirection)).length
  match oil.intervals[i]? with
  | none => pure (.AHEAD, i)
  | some interval => do
    let location := intervalCmp cmp interval elt expectedDirection
    invariant (location == .BEHIND || location == .WITHIN)
    pure (location, i)

/-- The loop of `isValidKey` over the key's elements from field `curOil`. -/
def isValidKeyFrom (c : IndexBoundsChecker β) : Nat → List β → Except CheckerError Bool
  | _, [] => pure true
  | curOil, elt :: rest => do
    let oil ← elemAt c.fields curOil
    let expectedDirection ← elemAt c.expectedDirection curOil
    let (location, _) ← findIntervalForField cmp elt oil expectedDirection
    if location ≠ .WITHIN then pure false else isValidKeyFrom c (curOil + 1) rest

/-- `isValidKey(key)`: every field of the key is in some interval of its field. -/
def isValidKey (c : IndexBoundsChecker β) (key : List β) : Except CheckerError Bool :=
  isValidKeyFrom cmp c 0 key

/-- `_curInterval[i] = 0` for every field `i` from `first` on. -/
def resetIntervalsFrom (curInterval : List Nat) (first : Nat) : List Nat :=
  curInterval.mapIdx fun i cur => if first ≤ i then 0 else cur

/-- The loop that points the suffix of `out` at the start of each field's current interval, from
field `j`, `k` fields before the end. -/
def setIntervalStartsFrom (c : IndexBoundsChecker β) :
    Nat → Nat → IndexSeekPoint β → Except CheckerError (IndexSeekPoint β)
  | _, 0, out => pure out
  | j, k + 1, out => do
    let oil ← elemAt c.fields j
    let cur ← elemAt c.curInterval j
    let interval ← elemAt oil.intervals cur
    setIntervalStartsFrom c (j + 1) k
      { out with keySuffix := out.keySuffix.set j (some interval.start),
                 suffixInclusive := out.suffixInclusive.set j interval.startInclusive }

/-- The seek point of the two `MUST_ADVANCE` answers that move on to the start of the current
intervals: the key up to `firstNonContainedField`, then from it on the starts of the current
intervals. The C++ writes this block out twice. -/
def advanceToIntervalStarts (c : IndexBoundsChecker β) (key : List β)
    (firstNonContainedField : Nat) (out : IndexSeekPoint β) :
    Except CheckerError (IndexSeekPoint β) :=
  setIntervalStartsFrom c firstNonContainedField (c.curInterval.length - firstNonContainedField)
    { out with keyPrefix := key, prefixLen := firstNonContainedField, prefixExclusive := false }

/-- The `while` loop of `checkKey` from `firstNonContainedField`, `k` fields before the end: the
fields before it are in their current intervals, and it looks for an interval of each next
field. -/
def checkAheadFrom (key keyValues : List β) :
    IndexBoundsChecker β → IndexSeekPoint β → Nat → Nat →
      Except CheckerError (KeyState × IndexBoundsChecker β × IndexSeekPoint β)
  | c, out, firstNonContainedField, 0 => do
    verify (firstNonContainedField == c.curInterval.length)
    pure (.VALID, c, out)
  | c, out, firstNonContainedField, k + 1 => do
    let keyValue ← elemAt keyValues firstNonContainedField
    let oil ← elemAt c.fields firstNonContainedField
    let expectedDirection ← elemAt c.expectedDirection firstNonContainedField
    let (location, newIntervalForField) ← findIntervalForField cmp keyValue oil expectedDirection
    match location with
    | .WITHIN =>
      checkAheadFrom key keyValues
        { c with curInterval := c.curInterval.set firstNonContainedField newIntervalForField } out
        (firstNonContainedField + 1) k
    | .BEHIND =>
      -- the fields to the right start over at their first interval
      let curInterval := c.curInterval.set firstNonContainedField newIntervalForField
      let c := { c with curInterval := resetIntervalsFrom curInterval (firstNonContainedField + 1) }
      let out ← advanceToIntervalStarts c key firstNonContainedField out
      pure (.MUST_ADVANCE, c, out)
    | .AHEAD => do
      let space ← spaceLeftToAdvance cmp c firstNonContainedField keyValues
      if !space then pure (.DONE, c, out)
      else
        pure (.MUST_ADVANCE,
          { c with curInterval := resetIntervalsFrom c.curInterval firstNonContainedField },
          { out with keyPrefix := key, prefixLen := firstNonContainedField, prefixExclusive := true })

/-- `checkKey` from the first field not in its current interval, once the intervals behind it
have been started over: a field behind its interval sends the scan to the interval's start, and
one ahead of it is looked up in the `while` loop. -/
def checkAfterProblem (c : IndexBoundsChecker β) (key : List β) (out : IndexSeekPoint β)
    (firstNonContainedField : Nat) (orientation : Location) :
    Except CheckerError (KeyState × IndexBoundsChecker β × IndexSeekPoint β) :=
  if orientation = .BEHIND then do
    let out ← advanceToIntervalStarts c key firstNonContainedField out
    pure (.MUST_ADVANCE, c, out)
  else do
    verify (orientation == .AHEAD)
    checkAheadFrom cmp key key c out firstNonContainedField
      (c.curInterval.length - firstNonContainedField)

/-- `checkKey(key, out)`. A field behind its current interval may be in an earlier one, so the
intervals from it on start over before a second look. -/
def checkKey (c : IndexBoundsChecker β) (key : List β) (out : IndexSeekPoint β) :
    Except CheckerError (KeyState × IndexBoundsChecker β × IndexSeekPoint β) := do
  verify (decide (0 < c.curInterval.length))
  let out := { out with keySuffix := resize out.keySuffix c.curInterval.length none,
                        suffixInclusive := resize out.suffixInclusive c.curInterval.length false }
  let keyValues := key
  verify (keyValues.length == c.curInterval.length)
  match ← findLeftmostProblem cmp c keyValues with
  | none => pure (.VALID, c, out)
  | some (firstNonContainedField, orientation) =>
    if orientation = .BEHIND then do
      let c := { c with curInterval := resetIntervalsFrom c.curInterval firstNonContainedField }
      match ← findLeftmostProblem cmp c keyValues with
      | none => pure (.VALID, c, out)
      | some (firstNonContainedField, orientation) =>
        checkAfterProblem cmp c key out firstNonContainedField orientation
    else checkAfterProblem cmp c key out firstNonContainedField orientation

end IndexBoundsChecker

namespace IndexEntryComparison

open IndexBoundsChecker (elemAt invariant)

/-- The `suffixExclusive` lambda of `makeKeyStringFromSeekPointForSeek`, from field `i`, `k`
fields before the end of `keySuffix`. -/
def suffixExclusiveFrom (seekPoint : IndexSeekPoint β) : Nat → Nat → Except CheckerError Bool
  | _, 0 => pure false
  | i, k + 1 => do
    let inclusive ← elemAt seekPoint.suffixInclusive i
    if !inclusive then pure true else suffixExclusiveFrom seekPoint (i + 1) k

/-- The loop of `makeKeyStringFromSeekPointForSeek` over the suffix from field `i`: each field,
up to the first one that is not included. -/
def appendSuffixFrom (seekPoint : IndexSeekPoint β) : Nat → Nat → Except CheckerError (List β)
  | _, 0 => pure []
  | i, k + 1 => do
    let elt ← elemAt seekPoint.keySuffix i
    match elt with
    | none => .error .invariantFailure
    | some e => do
      let inclusive ← elemAt seekPoint.suffixInclusive i
      -- an exclusive field never compares equal, so the fields after it do not matter
      if !inclusive then pure [e]
      else do
        let rest ← appendSuffixFrom seekPoint (i + 1) k
        pure (e :: rest)

/-- `makeKeyStringFromSeekPointForSeek(seekPoint, version, ord, isForward)`, as the fields the key
is built from and its discriminator: before every key that starts with the fields when the seek
includes them in the direction of the scan, after them otherwise. The `KeyString` encoding of the
fields is left to the cursor. -/
def makeKeyStringFromSeekPointForSeek (seekPoint : IndexSeekPoint β) (isForward : Bool) :
    Except CheckerError (List β × Discriminator) := do
  let inclusive ← if seekPoint.prefixExclusive then pure false else do
    let suffixExclusive ← suffixExclusiveFrom seekPoint seekPoint.prefixLen
      (seekPoint.keySuffix.length - seekPoint.prefixLen)
    pure !suffixExclusive
  let discriminator : Discriminator :=
    if isForward == inclusive then .kExclusiveBefore else .kExclusiveAfter
  -- `invariant(it.more())` for each field of the prefix
  invariant (decide (seekPoint.prefixLen ≤ seekPoint.keyPrefix.length))
  let keyPrefix := seekPoint.keyPrefix.take seekPoint.prefixLen
  if seekPoint.prefixExclusive then do
    invariant (decide (0 < seekPoint.prefixLen))
    pure (keyPrefix, discriminator)
  else do
    invariant (seekPoint.keySuffix.length == seekPoint.suffixInclusive.length)
    let suffix ← appendSuffixFrom seekPoint seekPoint.prefixLen
      (seekPoint.keySuffix.length - seekPoint.prefixLen)
    pure (keyPrefix ++ suffix, discriminator)

end IndexEntryComparison

end Mongo.Query
