import Mongo.Query.IndexBoundsChecker

/-! `IndexScan::doWork` (`db/exec/index_scan.cpp`) over bounds that the `IndexBoundsChecker`
checks: each call reads a key (the first after a seek, or the next one), asks the checker about
it, and hands the key up, asks for a seek, or ends the scan.

The index's cursor (`SortedDataInterface::Cursor`) is modelled by the keys of the index in the
order it walks them. A seek puts it on the first key at or after the seek key in its direction,
as `sorted_data_interface.h` says; a key and a seek key are compared field by field under the
index's `Ordering` and then by the seek key's discriminator, which is the order of their
`KeyString`s when the encoding keeps `woCompare`'s order. Left out are the scans of a simple
range and of a single interval, which set an end position on the cursor instead of using the
checker, the filter and the deduplication of record ids that follow the checker, and the
statistics. -/

namespace Mongo.Query

open Mongo.KeyString (Discriminator)
open IndexBoundsChecker IndexEntryComparison

variable {β : Type} (cmp : β → β → Int)

/-- How a key of the index compares with a seek key: field by field under the index's `Ordering`
(`ordering`, `1` for an ascending field and `-1` for a descending one), the first field where
they differ deciding; where the key agrees with every field of the seek key, the discriminator
puts the seek key before or after it. -/
def compareWithSeekKey (discriminator : Discriminator) : List Int → List β → List β → Ordering
  | _, _, [] =>
    match discriminator with
    | .kExclusiveBefore => .gt
    | .kExclusiveAfter => .lt
    | .kInclusive => .eq
  | o :: os, k :: ks, f :: fs =>
    let c := o * cmp k f
    if c < 0 then .lt else if 0 < c then .gt else compareWithSeekKey discriminator os ks fs
  | _, _, _ :: _ => .lt

/-- The index as `IndexScan`'s cursor walks it: its keys in the cursor's order, the index's
`Ordering`, and the direction of the cursor. -/
structure IndexCursor (β : Type) where
  keys : List (List β)
  ordering : List Int
  forward : Bool

/-- `Ordering::make(keyPattern)`: a field is descending (`-1`) when its number is negative, and
ascending (`1`) otherwise. -/
def makeOrdering (keyPattern : List (String × Int)) : List Int :=
  keyPattern.map fun elt => if elt.2 < 0 then -1 else 1

namespace IndexCursor

/-- The cursor of a scan in `direction` (`_forward` is `direction == 1`) over an index with
`keyPattern` whose keys, in the index's order, are `index`: a backward cursor walks them from the
end. -/
def ofIndex (index : List (List β)) (keyPattern : List (String × Int)) (direction : Int) :
    IndexCursor β :=
  ⟨if direction == 1 then index else index.reverse, makeOrdering keyPattern, direction == 1⟩

variable (cursor : IndexCursor β)

/-- A key is at or after the seek key in the direction of the cursor. -/
def atOrAfter (seekKey : List β × Discriminator) (key : List β) : Bool :=
  let o := compareWithSeekKey cmp seekKey.2 cursor.ordering key seekKey.1
  if cursor.forward then o != .lt else o != .gt

/-- `seek(keyString)`: the first key at or after the seek key, and the keys after it. -/
def seek (seekKey : List β × Discriminator) : Option (List β) × List (List β) :=
  match cursor.keys.dropWhile fun key => !atOrAfter cmp cursor seekKey key with
  | [] => (none, [])
  | key :: rest => (some key, rest)

/-- `next()`: the key after the cursor's position, and the keys after that. -/
def next : List (List β) → Option (List β) × List (List β)
  | [] => (none, [])
  | key :: rest => (some key, rest)

end IndexCursor

/-- `IndexScan::_scanState`. -/
inductive ScanState
  | INITIALIZING
  | GETTING_NEXT
  | NEED_SEEK
  | HIT_END
  deriving DecidableEq, Repr

/-- `PlanStage::StageState` as `doWork` returns it over the checker; `ADVANCED` carries the key
of the member it fills. -/
inductive StageState (β : Type)
  | ADVANCED (key : List β)
  | NEED_TIME
  | IS_EOF

/-- What an `IndexScan` over checked bounds keeps between calls: the checker, `_seekPoint`,
`_scanState`, and the keys after the cursor's position. -/
structure IndexScan (β : Type) where
  checker : IndexBoundsChecker β
  seekPoint : IndexSeekPoint β
  scanState : ScanState
  rest : List (List β)

namespace IndexScan

variable (cursor : IndexCursor β)

/-- A scan that has not started: the checker built from the bounds, the key pattern and the
direction. -/
def init (fields : List (OrderedIntervalList β)) (keyPattern : List (String × Int)) (direction : Int) :
    IndexScan β :=
  ⟨IndexBoundsChecker.make fields keyPattern direction, ⟨[], 0, false, [], []⟩, .INITIALIZING, []⟩

/-- `initIndexScan()` over the checker: a seek to the start of the first intervals, or no key at
all when a field has no interval. -/
def initIndexScan (s : IndexScan β) : Except CheckerError (Option (List β) × IndexScan β) := do
  let (ok, seekPoint) := getStartSeekPoint s.checker s.seekPoint
  if !ok then pure (none, { s with seekPoint })
  else do
    let seekKey ← makeKeyStringFromSeekPointForSeek seekPoint cursor.forward
    let (kv, rest) := cursor.seek cmp seekKey
    pure (kv, { s with seekPoint, rest })

/-- The key the call of `doWork` reads, by `_scanState`. -/
def readKey (s : IndexScan β) : Except CheckerError (Option (List β) × IndexScan β) :=
  match s.scanState with
  | .INITIALIZING => initIndexScan cmp cursor s
  | .GETTING_NEXT =>
    let (kv, rest) := IndexCursor.next s.rest
    pure (kv, { s with rest })
  | .NEED_SEEK => do
    let seekKey ← makeKeyStringFromSeekPointForSeek s.seekPoint cursor.forward
    let (kv, rest) := cursor.seek cmp seekKey
    pure (kv, { s with rest })
  | .HIT_END => pure (none, s)

/-- What `doWork` does with the key it read: asks the checker, and hands the key up, asks for a
seek, or ends the scan. -/
def checkReadKey (kv : Option (List β)) (s : IndexScan β) :
    Except CheckerError (StageState β × IndexScan β) :=
  match kv with
  | none => pure (.IS_EOF, { s with scanState := .HIT_END })
  | some key => do
    let (state, checker, seekPoint) ← checkKey cmp s.checker key s.seekPoint
    match state with
    | .VALID => pure (.ADVANCED key, { s with checker, seekPoint, scanState := .GETTING_NEXT })
    | .DONE => pure (.IS_EOF, { s with checker, seekPoint, scanState := .HIT_END })
    | .MUST_ADVANCE => pure (.NEED_TIME, { s with checker, seekPoint, scanState := .NEED_SEEK })

/-- `doWork(out)`. -/
def doWork (s : IndexScan β) : Except CheckerError (StageState β × IndexScan β) :=
  match s.scanState with
  | .HIT_END => pure (.IS_EOF, s)
  | _ => do
    let (kv, s) ← readKey cmp cursor s
    checkReadKey cmp kv s

/-- What a caller gets from calls of `doWork` until it returns `IS_EOF`, as `PlanExecutor`'s
`getNext` makes them: the keys handed up, in order, or `none` when `fuel` calls are not enough. -/
def runToEOF : Nat → IndexScan β → Except CheckerError (Option (List (List β)))
  | 0, _ => .ok none
  | fuel + 1, s =>
    match doWork cmp cursor s with
    | .error e => .error e
    | .ok (.ADVANCED key, s) => (runToEOF fuel s).map (Option.map (key :: ·))
    | .ok (.NEED_TIME, s) => runToEOF fuel s
    | .ok (.IS_EOF, _) => .ok (some [])

end IndexScan

end Mongo.Query
