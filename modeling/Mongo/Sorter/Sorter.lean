import Mongo.Sorter.Iterator

/-! The sorters of `src/mongo/db/sorter/sorter.cpp` and the factory `Sorter::make`, which picks
one by the limit: `NoLimitSorter` keeps every pair and spills sorted runs to disk when its memory
use passes the bound; `LimitOneSorter` keeps the least pair seen; `TopKSorter` keeps at most
`limit` pairs in a max-heap, spills them as sorted runs, and drops pairs at or above a cutoff that
it proves has `limit` kept pairs below it. `done()` returns an `InMemIterator` when nothing was
spilled and a `MergeIterator` over the runs otherwise.

The model keeps what the algorithm reads: the comparator, the memory use of keys and values and
the options. The spill file is a list of runs (its serialization is taken to round-trip). The
heap algorithms of the standard library are modelled on lists by their contract: the front of a
heap is a greatest pair (`makeHeap_front`), `sort_heap` sorts it (`sortHeap`). Of several equal
greatest pairs the standard leaves open which is at the front; the model takes the first, and the
proofs use only the contract. -/

namespace Mongo.Sorting

open StableSort

variable {Key Value : Type}

/-- The errors the sorters raise. -/
inductive SorterError
  /-- `uasserted(ErrorCodes::QueryExceededMemoryLimitNoDiskUseAllowed, ...)` of a spill. -/
  | queryExceededMemoryLimitNoDiskUseAllowed (reason : String)
  /-- A `uassert` with its code. -/
  | uassert (code : Nat) (reason : String)
  /-- A failed `invariant` or `verify`. -/
  | invariantFailure
  deriving DecidableEq, Repr

/-! ## The heap algorithms -/

section Heap

variable {Data : Type}

/-- The first greatest element under `less` and the others in their order. -/
def extractMax (less : Data → Data → Bool) : List Data → Option (Data × List Data)
  | [] => none
  | x :: l =>
    match extractMax less l with
    | none => some (x, [])
    | some (m, rest) => if less x m then some (m, x :: rest) else some (x, l)

/-- `std::make_heap(begin, end, less)`: a greatest element goes to the front. -/
def makeHeap (less : Data → Data → Bool) (l : List Data) : List Data :=
  match extractMax less l with
  | none => []
  | some (m, rest) => m :: rest

/-- `std::pop_heap`, `back() = x` and `std::push_heap`: the front is replaced by `x` and a greatest
element goes to the front. -/
def replaceTop (less : Data → Data → Bool) (l : List Data) (x : Data) : List Data :=
  makeHeap less (x :: l.tail)

/-- `std::sort_heap(begin, end, less)`: the heap sorted into non-decreasing order. -/
def sortHeap (less : Data → Data → Bool) (l : List Data) : List Data :=
  l.mergeSort fun a b => !less b a

/-- `std::upper_bound(begin, end, value, less)` on a sorted range: the number of leading elements
that `value` is not less than. -/
def upperBound (less : Data → Data → Bool) (value : Data) (l : List Data) : Nat :=
  (l.takeWhile fun e => !less value e).length

end Heap

/-! ## `NoLimitSorter` -/

/-- The state of a `NoLimitSorter`. -/
structure NoLimitSorter (Key Value : Type) where
  opts : SortOptions
  /-- `_done` -/
  isDone : Bool
  memUsed : Nat
  /-- `_data`, the pairs in memory. -/
  data : List (Key × Value)
  /-- `_iters`, the runs spilled, each read back by a `FileIterator`. -/
  iters : List (List (Key × Value))

/-- The message of the `uasserted` of `NoLimitSorter::spill()`. -/
def NoLimitSorter.memoryLimitMessage (maxMemoryUsageBytes : Nat) : String :=
  "Sort exceeded memory limit of " ++ toString maxMemoryUsageBytes ++
    " bytes, but did not opt in to external sorting."

namespace NoLimitSorter

variable (comp : Key × Value → Key × Value → Int) (keyMemUsage : Key → Nat)
  (valueMemUsage : Value → Nat)

/-- The constructor. -/
def init (opts : SortOptions) : NoLimitSorter Key Value := ⟨opts, false, 0, [], []⟩

/-- `spill()`: sort the pairs in memory and write them as one run. -/
def spill (s : NoLimitSorter Key Value) : Except SorterError (NoLimitSorter Key Value) :=
  if s.isDone then .error .invariantFailure
  else if s.data.isEmpty then .ok s
  else if !s.opts.extSortAllowed then
    .error (.queryExceededMemoryLimitNoDiskUseAllowed
      (memoryLimitMessage s.opts.maxMemoryUsageBytes))
  else .ok { s with data := [], iters := s.iters ++ [stableSort comp s.data], memUsed := 0 }

/-- `add(key, val)`. -/
def add (s : NoLimitSorter Key Value) (key : Key) (val : Value) :
    Except SorterError (NoLimitSorter Key Value) :=
  if s.isDone then .error .invariantFailure
  else
    let s := { s with data := s.data ++ [(key, val)],
                      memUsed := s.memUsed + keyMemUsage key + valueMemUsage val }
    if s.opts.maxMemoryUsageBytes < s.memUsed then s.spill comp else .ok s

/-- `done()`. -/
def done (s : NoLimitSorter Key Value) : Except SorterError (SortIterator (Key × Value)) :=
  if s.isDone then .error .invariantFailure
  else if s.iters.isEmpty then .ok (.inMem (stableSort comp s.data))
  else do
    let s ← s.spill comp
    return .merge (MergeIterator.make comp s.opts s.iters)

end NoLimitSorter

/-! ## `LimitOneSorter` -/

/-- The state of a `LimitOneSorter`. -/
structure LimitOneSorter (Key Value : Type) where
  best : Key × Value
  haveData : Bool

namespace LimitOneSorter

variable [Inhabited Key] [Inhabited Value] (comp : Key × Value → Key × Value → Int)

/-- The constructor: `_best` default-constructed, no data. -/
def init : LimitOneSorter Key Value := ⟨default, false⟩

/-- `add(key, val)`: the contender replaces `_best` unless `_best` is not above it. -/
def add (s : LimitOneSorter Key Value) (key : Key) (val : Value) : LimitOneSorter Key Value :=
  let contender := (key, val)
  if s.haveData then
    if comp s.best contender ≤ 0 then s  -- not good enough
    else { s with best := contender }
  else { best := contender, haveData := true }

/-- `done()`. -/
def done (s : LimitOneSorter Key Value) : SortIterator (Key × Value) :=
  if s.haveData then .inMem [s.best] else .inMem []

end LimitOneSorter

/-! ## `TopKSorter` -/

/-- The state of a `TopKSorter`. -/
structure TopKSorter (Key Value : Type) where
  opts : SortOptions
  /-- `_done` -/
  isDone : Bool
  memUsed : Nat
  /-- `_data`, organized as a max-heap when it holds `limit` pairs. -/
  data : List (Key × Value)
  iters : List (List (Key × Value))
  haveCutoff : Bool
  /-- Pairs not below `_cutoff` can be ignored. -/
  cutoff : Key × Value
  /-- The worst pair seen since `_worstCount` was last reset. -/
  worstSeen : Key × Value
  worstCount : Nat
  /-- The median of a batch, until `_medianCount` is reset. -/
  lastMedian : Key × Value
  medianCount : Nat

/-- The message of the `uasserted` of `TopKSorter::spill()`. -/
def TopKSorter.memoryLimitMessage (maxMemoryUsageBytes : Nat) : String :=
  "Sort exceeded memory limit of " ++ toString maxMemoryUsageBytes ++
    " bytes, but did not opt in to external sorting. Aborting operation." ++
    " Pass allowDiskUse:true to opt in."

namespace TopKSorter

variable [Inhabited Key] [Inhabited Value] (comp : Key × Value → Key × Value → Int)
  (keyMemUsage : Key → Nat) (valueMemUsage : Value → Nat)

/-- The constructor: the `Data` members default-constructed, no cutoff and zero counts. -/
def init (opts : SortOptions) : TopKSorter Key Value :=
  ⟨opts, false, 0, [], [], false, default, default, 0, default, 0⟩

/-- `sort()`: `sort_heap` on a full heap, else `stable_sort`. -/
def sort (s : TopKSorter Key Value) : TopKSorter Key Value :=
  if s.data.length = s.opts.limit then { s with data := sortHeap (less comp) s.data }
  else { s with data := stableSort comp s.data }

/-- Make `candidate` the cutoff if there is none or it is better, as `updateCutoff()` does for
`_worstSeen` and for `_lastMedian`. -/
def promote (candidate : Key × Value) (s : TopKSorter Key Value) : TopKSorter Key Value :=
  if !s.haveCutoff || less comp candidate s.cutoff then
    { s with cutoff := candidate, haveCutoff := true }
  else s

/-- `updateCutoff()`, first part: pick a new `_worstSeen` if should. -/
def pickWorstSeen (s : TopKSorter Key Value) : TopKSorter Key Value :=
  if s.worstCount = 0 || less comp s.worstSeen (s.data.getLastD default) then
    { s with worstSeen := s.data.getLastD default }
  else s

/-- `updateCutoff()`: pick a new `_lastMedian` if should; `size() / 2` takes the higher of two
middle pairs. -/
def pickLastMedian (s : TopKSorter Key Value) : TopKSorter Key Value :=
  if s.medianCount = 0 then { s with lastMedian := s.data.getD (s.data.length / 2) default }
  else s

/-- `updateCutoff()`: add the counters of kept pairs better than or equal to `_worstSeen` and to
`_lastMedian`, the latter by `std::upper_bound`. -/
def addCounts (s : TopKSorter Key Value) : TopKSorter Key Value :=
  { s with worstCount := s.worstCount + s.data.length,
           medianCount := s.medianCount + upperBound (less comp) s.lastMedian s.data }

/-- `updateCutoff()`: promote `_worstSeen` to `_cutoff` and reset its counter if should. -/
def promoteWorstSeen (s : TopKSorter Key Value) : TopKSorter Key Value :=
  if s.opts.limit ≤ s.worstCount then { promote comp s.worstSeen s with worstCount := 0 } else s

/-- `updateCutoff()`: promote `_lastMedian` to `_cutoff` and reset its counter if should. -/
def promoteLastMedian (s : TopKSorter Key Value) : TopKSorter Key Value :=
  if s.opts.limit ≤ s.medianCount then { promote comp s.lastMedian s with medianCount := 0 }
  else s

/-- `updateCutoff()`, called on sorted `_data`: its four steps in order. -/
def updateCutoff (s : TopKSorter Key Value) : TopKSorter Key Value :=
  promoteLastMedian comp (promoteWorstSeen comp (addCounts comp (pickLastMedian (pickWorstSeen comp s))))

/-- `spill()`: sort the pairs in memory, update the cutoff and write them as one run. -/
def spill (s : TopKSorter Key Value) : Except SorterError (TopKSorter Key Value) :=
  if s.isDone then .error .invariantFailure
  else if s.data.isEmpty then .ok s
  else if !s.opts.extSortAllowed then
    .error (.queryExceededMemoryLimitNoDiskUseAllowed
      (memoryLimitMessage s.opts.maxMemoryUsageBytes))
  else
    let s := (s.sort comp).updateCutoff comp
    .ok { s with iters := s.iters ++ [s.data], data := [], memUsed := 0 }

/-- `add(key, val)`. -/
def add (s : TopKSorter Key Value) (key : Key) (val : Value) :
    Except SorterError (TopKSorter Key Value) :=
  if s.isDone then .error .invariantFailure
  else
    let contender := (key, val)
    if s.data.length < s.opts.limit then
      if s.haveCutoff && !less comp contender s.cutoff then .ok s
      else
        let s := { s with data := s.data ++ [contender],
                          memUsed := s.memUsed + keyMemUsage key + valueMemUsage val }
        let s := if s.data.length = s.opts.limit then
            { s with data := makeHeap (less comp) s.data } else s
        if s.opts.maxMemoryUsageBytes < s.memUsed then s.spill comp else .ok s
    else if s.data.length ≠ s.opts.limit then .error .invariantFailure
    else if !less comp contender (s.data.headD default) then .ok s  -- not good enough
    else
      -- remove the old worst pair and insert the contender, adjusting `_memUsed`
      let front := s.data.headD default
      let s := { s with
        memUsed := s.memUsed + keyMemUsage key + valueMemUsage val - keyMemUsage front.1 -
          valueMemUsage front.2,
        data := replaceTop (less comp) s.data contender }
      if s.opts.maxMemoryUsageBytes < s.memUsed then s.spill comp else .ok s

/-- `done()`. -/
def done (s : TopKSorter Key Value) : Except SorterError (SortIterator (Key × Value)) :=
  if s.iters.isEmpty then .ok (.inMem (s.sort comp).data)
  else do
    let s ← s.spill comp
    return .merge (MergeIterator.make comp s.opts s.iters)

end TopKSorter

/-! ## `Sorter::make` -/

/-- A sorter as `Sorter::make` returns it. -/
inductive Sorter (Key Value : Type)
  | noLimit (s : NoLimitSorter Key Value)
  | limitOne (s : LimitOneSorter Key Value)
  | topK (s : TopKSorter Key Value)

namespace Sorter

variable [Inhabited Key] [Inhabited Value] (comp : Key × Value → Key × Value → Int)
  (keyMemUsage : Key → Nat) (valueMemUsage : Value → Nat)

/-- `Sorter::make`: the `uassert` on the temporary directory, then the sorter for the limit. -/
def make (opts : SortOptions) : Except SorterError (Sorter Key Value) :=
  if opts.extSortAllowed && opts.tempDir.isEmpty then
    .error (.uassert 17149 "Attempting to use external sort without setting SortOptions::tempDir")
  else
    match opts.limit with
    | 0 => .ok (.noLimit (NoLimitSorter.init opts))
    | 1 => .ok (.limitOne LimitOneSorter.init)
    | _ => .ok (.topK (TopKSorter.init opts))

/-- `Sorter::add`. -/
def add : Sorter Key Value → Key → Value → Except SorterError (Sorter Key Value)
  | .noLimit s, key, val => .noLimit <$> s.add comp keyMemUsage valueMemUsage key val
  | .limitOne s, key, val => .ok (.limitOne (s.add comp key val))
  | .topK s, key, val => .topK <$> s.add comp keyMemUsage valueMemUsage key val

/-- `Sorter::done`. -/
def done : Sorter Key Value → Except SorterError (SortIterator (Key × Value))
  | .noLimit s => s.done comp
  | .limitOne s => .ok s.done
  | .topK s => s.done comp

/-- Every pair of `input` added in order. -/
def addAll (s : Sorter Key Value) (input : List (Key × Value)) :
    Except SorterError (Sorter Key Value) :=
  input.foldlM (fun s kv => s.add comp keyMemUsage valueMemUsage kv.1 kv.2) s

end Sorter

end Mongo.Sorting
