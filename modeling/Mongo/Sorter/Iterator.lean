import Mongo.StableSort

/-! The iterators of the external sorter (`src/mongo/db/sorter/sorter.cpp`): `InMemIterator`
over the pairs left in memory, and `MergeIterator`, which merges the runs a sorter spilled to
its file. A run is read back by a `FileIterator`; its serialization is taken to round-trip, so
a run is the list of pairs that was written. `MergeIterator` keeps the stream it returned from
last (`_current`) outside a min-heap of the others, ordered by the comparator with ties going to
the lower file number.

The main result is `drain_make`: read to its end, a merge of sorted runs returns the stable sort
of their concatenation, cut at the limit. It rests on one step lemma (`next_spec`): each call
returns the head of the run that is first among those with the least head, and the runs left
are the old ones with that head taken off. `StableSort.mergeSort_flattenRuns_update` turns that
step into the equation of the stable sort. -/

namespace Mongo.Sorting

open StableSort

variable {Data : Type}

/-- `SortOptions`: the fields the sorters read. -/
structure SortOptions where
  /-- The number of pairs to return; `0` is no limit. -/
  limit : Nat
  maxMemoryUsageBytes : Nat
  extSortAllowed : Bool
  tempDir : String

/-! ## The comparator -/

/-- The sorters' `Comparator`, returning a negative, zero or positive `int`, is a total
preorder: its sign flips with its arguments, and `≤ 0` is transitive. -/
structure TotalPreorder (comp : Data → Data → Int) : Prop where
  neg_iff : ∀ a b, comp a b < 0 ↔ 0 < comp b a
  le_trans : ∀ a b c, comp a b ≤ 0 → comp b c ≤ 0 → comp a c ≤ 0

/-- `STLComparator` of `NoLimitSorter` and `TopKSorter`: `_comp(lhs, rhs) < 0`. -/
def less (comp : Data → Data → Int) (lhs rhs : Data) : Bool := decide (comp lhs rhs < 0)

/-- Not above: the order `std::stable_sort` keeps, `!less(rhs, lhs)`. -/
def le (comp : Data → Data → Int) (lhs rhs : Data) : Bool := decide (comp lhs rhs ≤ 0)

/-- `std::stable_sort(begin, end, less)`: the stable sort is determined by `less`, and the core
`List.mergeSort` is one, taking from the left run unless the right head is `less`. -/
def stableSort (comp : Data → Data → Int) (l : List Data) : List Data := l.mergeSort (le comp)

section Comparator

variable {comp : Data → Data → Int} (hcomp : TotalPreorder comp)
include hcomp

theorem TotalPreorder.zero_iff (a b : Data) : comp a b = 0 ↔ comp b a = 0 := by
  have h₁ := hcomp.neg_iff a b
  have h₂ := hcomp.neg_iff b a
  omega

theorem TotalPreorder.isTotalPreorder : IsTotalPreorder (le comp) where
  trans a b c hab hbc := by
    simp only [le, decide_eq_true_eq] at *
    exact hcomp.le_trans a b c hab hbc
  total a b := by
    have := hcomp.neg_iff a b
    simp only [le, Bool.or_eq_true, decide_eq_true_eq]
    omega

theorem TotalPreorder.le_iff_not_less (a b : Data) : le comp a b = !less comp b a := by
  have := hcomp.neg_iff b a
  simp only [le, less]
  by_cases h : comp a b ≤ 0 <;> simp [h] <;> omega

theorem TotalPreorder.equiv_iff (a b : Data) : equiv (le comp) a b ↔ comp a b = 0 := by
  have := hcomp.zero_iff a b
  have := hcomp.neg_iff a b
  simp only [equiv, le, Bool.and_eq_true, decide_eq_true_eq]
  omega

end Comparator

/-! ## `InMemIterator` and the streams of `MergeIterator` -/

/-- `MergeIterator::Stream`: the file number of a run, its current pair, and the pairs its
`FileIterator` has still to read. -/
structure Stream (Data : Type) where
  fileNum : Nat
  current : Data
  rest : List Data

/-- The pairs of a stream not yet taken past: its current one and the rest of its run. -/
def Stream.items (s : Stream Data) : List Data := s.current :: s.rest

/-- `MergeIterator::STLComparator`: greater, so that `std::make_heap` builds a min-heap; equal
data are ordered by file number "to ensure stability". -/
def greater (comp : Data → Data → Int) (lhs rhs : Stream Data) : Bool :=
  let ret := comp lhs.current rhs.current
  if ret ≠ 0 then decide (0 < ret) else decide (rhs.fileNum < lhs.fileNum)

/-- `std::pop_heap` on `_heap`, then `_heap.back()` and `_heap.pop_back()`: the least stream
under `greater` and the heap without it. On a valid heap `pop_heap` takes out the least
element, and the file numbers make it unique, so the heap is kept as a list. -/
def popHeap (comp : Data → Data → Int) : List (Stream Data) → Option (Stream Data × List (Stream Data))
  | [] => none
  | s :: heap =>
    match popHeap comp heap with
    | none => some (s, [])
    | some (m, rest) => if greater comp s m then some (m, s :: rest) else some (s, heap)

/-- What the constructor of `MergeIterator` pushes on the heap: a stream for each run that has a
first pair, numbered by the run's position. -/
def openStreams : List (List Data) → Nat → List (Stream Data)
  | [], _ => []
  | [] :: runs, i => openStreams runs (i + 1)
  | (x :: rest) :: runs, i => ⟨i, x, rest⟩ :: openStreams runs (i + 1)

/-! ## `MergeIterator` -/

/-- The state of a `MergeIterator`. -/
structure MergeIterator (Data : Type) where
  /-- `_remaining`; `none` is `numeric_limits<unsigned long long>::max()`, taken for no limit:
  no run of spilled pairs reaches it, as the spill file's offsets are signed 64-bit. -/
  remaining : Option Nat
  first : Bool
  /-- `_current`, null when no run had a pair. -/
  current : Option (Stream Data)
  heap : List (Stream Data)

namespace MergeIterator

/-- The constructor: open a stream for every run that is not empty, make the heap and pop the
least stream into `_current`; with no stream, `_remaining` is `0`. -/
def make (comp : Data → Data → Int) (opts : SortOptions) (iters : List (List Data)) :
    MergeIterator Data :=
  match popHeap comp (openStreams iters 0) with
  | none => ⟨some 0, true, none, []⟩
  | some (current, heap) =>
    ⟨if opts.limit = 0 then none else some opts.limit, true, some current, heap⟩

/-- `_remaining > 0`. -/
def hasRemaining : Option Nat → Bool
  | none => true
  | some n => decide (0 < n)

/-- `more()`: a pair is left while `_remaining > 0` and the first pair is not yet returned, the
heap is not empty, or `_current` has more; once false, it sets `_remaining` to `0`. -/
def more (it : MergeIterator Data) : Bool × MergeIterator Data :=
  if hasRemaining it.remaining &&
      (it.first || !it.heap.isEmpty || it.current.any fun c => !c.rest.isEmpty) then
    (true, it)
  else (false, { it with remaining := some 0 })

/-- `verify(_remaining); _remaining--`. -/
def decRemaining : Option Nat → Option (Option Nat)
  | some 0 => none
  | some (n + 1) => some (some n)
  | none => some none

/-- `next()`. The first call returns the current pair. Later calls advance `_current`; when it is
done the least stream comes off the heap, and when it is greater than the heap's least stream the
two trade places. `none` where a `verify` fails or the null `_current` would be read. -/
def next (comp : Data → Data → Int) (it : MergeIterator Data) :
    Option (Data × MergeIterator Data) := do
  let remaining ← decRemaining it.remaining
  let cur ← it.current
  if it.first then
    return (cur.current, { it with remaining, first := false })
  match cur.rest with
  | [] =>
    -- `_current->advance()` fails: `verify(!_heap.empty())` and take the least stream
    let (m, heap) ← popHeap comp it.heap
    return (m.current, { it with remaining, current := some m, heap })
  | x :: rest =>
    let cur : Stream Data := { cur with current := x, rest }
    match popHeap comp it.heap with
    | some (m, heap) =>
      if greater comp cur m then
        -- `pop_heap`, `swap(_current, _heap.back())`, `push_heap`
        return (m.current, { it with remaining, current := some m, heap := cur :: heap })
      else return (x, { it with remaining, current := some cur })
    | none => return (x, { it with remaining, current := some cur })

/-- The pairs a consumer reads: `while (it->more()) out.push_back(it->next())`, the loop bounded
by `fuel`; `none` when the fuel runs out or `next` fails. -/
def drain (comp : Data → Data → Int) : Nat → MergeIterator Data → Option (List Data)
  | 0, _ => none
  | fuel + 1, it =>
    match it.more with
    | (true, it) => do
      let (x, it) ← it.next comp
      let xs ← drain comp fuel it
      return x :: xs
    | (false, _) => some []

end MergeIterator

/-- What `Sorter::done()` returns. -/
inductive SortIterator (Data : Type)
  /-- `InMemIterator` over the pairs it was given. -/
  | inMem (data : List Data)
  | merge (it : MergeIterator Data)

/-- Everything the iterator returns, read to its end with `fuel`. -/
def SortIterator.drain (comp : Data → Data → Int) (fuel : Nat) : SortIterator Data → Option (List Data)
  | .inMem data => some data
  | .merge it => it.drain comp fuel

/-! ## The order of the streams -/

/-- A stream greater than `m` with a lower file number has its pair strictly above `m`'s. -/
theorem le_eq_false_of_greater {comp : Data → Data → Int} {s m : Stream Data} (h : greater comp s m)
    (hlt : s.fileNum < m.fileNum) : le comp s.current m.current = false := by
  simp only [greater, ne_eq] at h
  simp only [le, decide_eq_false_iff_not]
  split_ifs at h <;> simp only [decide_eq_true_eq] at h <;> omega

section Greater

variable {comp : Data → Data → Int} (hcomp : TotalPreorder comp)
include hcomp

/-- Of two streams with different file numbers, one is greater. -/
theorem greater_of_not_greater {s t : Stream Data} (hne : s.fileNum ≠ t.fileNum)
    (h : greater comp s t = false) : greater comp t s := by
  have := hcomp.neg_iff s.current t.current
  have := hcomp.zero_iff s.current t.current
  simp only [greater, ne_eq] at h ⊢
  split_ifs at h ⊢ <;> simp only [decide_eq_true_eq, decide_eq_false_iff_not] at h ⊢ <;> omega

theorem greater_trans {s t u : Stream Data} (hst : greater comp s t) (htu : greater comp t u) :
    greater comp s u := by
  -- the comparisons of the three pairs, and the transitivity instances the cases use
  have := hcomp.neg_iff s.current t.current
  have := hcomp.neg_iff t.current u.current
  have := hcomp.neg_iff s.current u.current
  have := hcomp.zero_iff s.current t.current
  have := hcomp.zero_iff t.current u.current
  have := hcomp.zero_iff s.current u.current
  have := hcomp.le_trans s.current u.current t.current
  have := hcomp.le_trans t.current s.current u.current
  have := hcomp.le_trans s.current t.current u.current
  have := hcomp.le_trans u.current t.current s.current
  simp only [greater, ne_eq] at hst htu ⊢
  split_ifs at hst htu ⊢ <;> simp only [decide_eq_true_eq] at hst htu ⊢ <;> omega

/-- A stream greater than `m` has its pair at or above `m`'s. -/
theorem le_of_greater {s m : Stream Data} (h : greater comp s m) :
    le comp m.current s.current := by
  have := hcomp.neg_iff m.current s.current
  have := hcomp.zero_iff s.current m.current
  simp only [greater, ne_eq] at h
  simp only [le, decide_eq_true_eq]
  split_ifs at h <;> simp only [decide_eq_true_eq] at h <;> omega

end Greater

theorem popHeap_eq_none {comp : Data → Data → Int} {heap : List (Stream Data)} :
    popHeap comp heap = none ↔ heap = [] := by
  cases heap with
  | nil => simp [popHeap]
  | cons s heap =>
    simp only [popHeap, reduceCtorEq, iff_false]
    split
    · simp
    · split <;> simp

theorem popHeap_perm {comp : Data → Data → Int} :
    ∀ {heap rest : List (Stream Data)} {m : Stream Data},
      popHeap comp heap = some (m, rest) → (m :: rest).Perm heap
  | [], _, _, h => by simp [popHeap] at h
  | s :: heap, rest, m, h => by
    simp only [popHeap] at h
    split at h
    · next hnone =>
      obtain ⟨rfl, rfl⟩ := Prod.mk.inj (Option.some.inj h)
      rw [popHeap_eq_none.mp hnone]
    · next m' rest' hsome =>
      have ih := popHeap_perm hsome
      split at h
      · obtain ⟨rfl, rfl⟩ := Prod.mk.inj (Option.some.inj h)
        exact (List.Perm.swap s m' rest').trans (ih.cons s)
      · obtain ⟨rfl, rfl⟩ := Prod.mk.inj (Option.some.inj h)
        rfl

/-- `pop_heap` takes out the least stream: every stream left on the heap is greater. -/
theorem popHeap_least {comp : Data → Data → Int} (hcomp : TotalPreorder comp) :
    ∀ {heap rest : List (Stream Data)} {m : Stream Data}, (heap.map Stream.fileNum).Nodup →
      popHeap comp heap = some (m, rest) → ∀ s ∈ rest, greater comp s m
  | [], _, _, _, h => by simp [popHeap] at h
  | s :: heap, rest, m, hnd, h => by
    simp only [List.map_cons, List.nodup_cons] at hnd
    simp only [popHeap] at h
    split at h
    · next hnone =>
      obtain ⟨rfl, rfl⟩ := Prod.mk.inj (Option.some.inj h)
      simp
    · next m' rest' hsome =>
      have ih := popHeap_least hcomp hnd.2 hsome
      have hm' : m' ∈ heap := (popHeap_perm hsome).subset List.mem_cons_self
      split at h
      · next hgt =>
        obtain ⟨rfl, rfl⟩ := Prod.mk.inj (Option.some.inj h)
        simpa [hgt] using ih
      · next hgt =>
        -- `s` is not greater than the least of the rest, so it is below all of them
        obtain ⟨rfl, rfl⟩ := Prod.mk.inj (Option.some.inj h)
        have hne : s.fileNum ≠ m'.fileNum := fun h =>
          hnd.1 (h ▸ List.mem_map_of_mem hm')
        have hm's := greater_of_not_greater hcomp hne (Bool.eq_false_iff.mpr hgt)
        intro t ht
        rcases List.mem_cons.mp ((popHeap_perm hsome).symm.subset ht) with rfl | ht
        · exact hm's
        · exact greater_trans hcomp (ih t ht) hm's

/-! ## The runs still to be read -/

namespace MergeIterator

/-- The streams of the iterator: `_current` and the heap. -/
def streams (it : MergeIterator Data) : List (Stream Data) := it.current.toList ++ it.heap

/-- `runs` is what is left to read of each run: for the stream numbered `i`, its rest, and also
its current pair when that has not been returned yet (the heap's streams, and `_current`
before the first `next`). -/
structure Represents (it : MergeIterator Data) (runs : Nat → List Data) : Prop where
  current : ∀ c ∈ it.current, runs c.fileNum = if it.first then c.items else c.rest
  heap : ∀ s ∈ it.heap, runs s.fileNum = s.items
  other : ∀ i, (∀ s ∈ it.streams, s.fileNum ≠ i) → runs i = []

/-- What `MergeIterator` keeps between calls, for runs numbered below `n`. -/
structure Inv (comp : Data → Data → Int) (n : Nat) (it : MergeIterator Data) : Prop where
  nodup : (it.streams.map Stream.fileNum).Nodup
  lt : ∀ s ∈ it.streams, s.fileNum < n
  sorted : ∀ s ∈ it.streams, s.items.Pairwise (le comp · ·)
  first_least : it.first → ∀ c ∈ it.current, ∀ s ∈ it.heap, greater comp s c
  heap_nil : it.current = none → it.heap = []
  remaining_zero : it.current = none → it.remaining = some 0

end MergeIterator

/-- One call of `next`: it returns `x`, the head of run `j`, which is the first run with the
least head, and the runs left are the old ones with `x` taken off run `j`. -/
structure TakeStep (comp : Data → Data → Int) (n : Nat) (runs : Nat → List Data) (x : Data)
    (j : Nat) (r : List Data) : Prop where
  lt : j < n
  run : runs j = x :: r
  sorted : ∀ b ∈ r, le comp x b
  before : ∀ i < j, ∀ a ∈ runs i, le comp a x = false
  after : ∀ i, j < i → i < n → ∀ b ∈ runs i, le comp x b

theorem TakeStep.mergeSort_eq {comp : Data → Data → Int} (hcomp : TotalPreorder comp)
    {n : Nat} {runs : Nat → List Data} {x : Data} {j : Nat} {r : List Data}
    (h : TakeStep comp n runs x j r) :
    (flattenRuns runs n).mergeSort (le comp) =
      x :: (flattenRuns (Function.update runs j r) n).mergeSort (le comp) :=
  mergeSort_flattenRuns_update hcomp.isTotalPreorder h.lt h.run h.sorted h.before h.after

/-- The stream `m` whose current pair is returned is below every other stream with pairs left;
then returning it is a `TakeStep`. -/
theorem takeStep_of_least {comp : Data → Data → Int} (hcomp : TotalPreorder comp)
    {n : Nat} {runs : Nat → List Data} {m : Stream Data} (others : List (Stream Data))
    (hlt : m.fileNum < n) (hm : runs m.fileNum = m.items) (hsorted : m.items.Pairwise (le comp · ·))
    (hothers : ∀ s ∈ others, runs s.fileNum = s.items ∧ s.items.Pairwise (le comp · ·) ∧
      greater comp s m)
    (hempty : ∀ i, i ≠ m.fileNum → (∀ s ∈ others, s.fileNum ≠ i) → runs i = []) :
    TakeStep comp n runs m.current m.fileNum m.rest := by
  have hpre := hcomp.isTotalPreorder
  -- a run other than `m`'s is empty or is a stream greater than `m`
  have hrun (i : Nat) (hi : i ≠ m.fileNum) (hne : runs i ≠ []) :
      ∃ s ∈ others, s.fileNum = i ∧ runs i = s.items ∧ s.items.Pairwise (le comp · ·) ∧
        greater comp s m := by
    by_contra hno
    push Not at hno
    refine hne (hempty i hi fun s hs heq => ?_)
    obtain ⟨h₁, h₂, h₃⟩ := hothers s hs
    exact hno s hs heq (heq ▸ h₁) h₂ h₃
  -- every pair of a stream is at or above its current pair
  have hhead (s : Stream Data) (hs : s.items.Pairwise (le comp · ·)) :
      ∀ b ∈ s.items, le comp s.current b := by
    intro b hb
    rcases List.mem_cons.mp hb with rfl | hb
    · exact hpre.refl _
    · exact List.rel_of_pairwise_cons hs hb
  refine ⟨hlt, hm, fun b hb => List.rel_of_pairwise_cons hsorted hb, ?_, ?_⟩
  · intro i hi a ha
    obtain ⟨s, -, rfl, hsi, hss, hgt⟩ :=
      hrun i (by omega) (List.ne_nil_of_mem ha)
    rw [hsi] at ha
    exact hpre.not_le_of_le (hhead s hss a ha) (le_eq_false_of_greater hgt hi)
  · intro i hi _ b hb
    obtain ⟨s, -, rfl, hsi, hss, hgt⟩ :=
      hrun i (by omega) (List.ne_nil_of_mem hb)
    rw [hsi] at hb
    exact hpre.trans _ _ _ (le_of_greater hcomp hgt) (hhead s hss b hb)

namespace MergeIterator

section Next

variable {comp : Data → Data → Int} {n : Nat} {runs : Nat → List Data}

theorem streams_of_current {it : MergeIterator Data} {m : Stream Data}
    (h : it.current = some m) : it.streams = m :: it.heap := by
  simp [streams, h]

/-- After a call that leaves `m` as `_current`, with the pair of `m` returned: if every stream on
the heap is greater than `m`, the call took `m`'s head as the stable sort does. -/
theorem takeStep_after (hcomp : TotalPreorder comp) {it' : MergeIterator Data} {m : Stream Data}
    (hinv' : Inv comp n it') (hcur : it'.current = some m) (hfirst : it'.first = false)
    (hm : runs m.fileNum = m.items)
    (hheap : ∀ s ∈ it'.heap, runs s.fileNum = s.items ∧ greater comp s m)
    (hother : ∀ i, (∀ s ∈ it'.streams, s.fileNum ≠ i) → runs i = []) :
    TakeStep comp n runs m.current m.fileNum m.rest ∧
      Represents it' (Function.update runs m.fileNum m.rest) := by
  have hstreams := streams_of_current hcur
  have hmem : m ∈ it'.streams := hstreams ▸ List.mem_cons_self
  have hnd := hinv'.nodup
  rw [hstreams, List.map_cons, List.nodup_cons] at hnd
  -- the heap holds no stream with `m`'s number
  have hne (s : Stream Data) (hs : s ∈ it'.heap) : s.fileNum ≠ m.fileNum := fun h =>
    hnd.1 (h ▸ List.mem_map_of_mem hs)
  refine ⟨takeStep_of_least hcomp it'.heap (hinv'.lt m hmem) hm
    (hinv'.sorted m hmem) (fun s hs => ?_) (fun i hi hno => hother i ?_), ?_⟩
  · have hs' : s ∈ it'.streams := hstreams ▸ List.mem_cons_of_mem m hs
    exact ⟨(hheap s hs).1, hinv'.sorted s hs', (hheap s hs).2⟩
  · rw [hstreams]
    intro s hs
    rcases List.mem_cons.mp hs with rfl | hs
    · exact Ne.symm hi
    · exact hno s hs
  · refine ⟨fun c hc => ?_, fun s hs => ?_, fun i hi => ?_⟩
    · obtain rfl : m = c := Option.some.inj (hcur.symm.trans hc)
      simp [hfirst]
    · rw [Function.update_of_ne (hne s hs)]
      exact (hheap s hs).1
    · rw [Function.update_of_ne (Ne.symm (hi m hmem))]
      exact hother i hi

/-- The invariant of a state after a call: `_current` is set and the first call is past. -/
theorem Inv.after {it' : MergeIterator Data} (hnd : (it'.streams.map Stream.fileNum).Nodup)
    (hlt : ∀ s ∈ it'.streams, s.fileNum < n)
    (hsorted : ∀ s ∈ it'.streams, s.items.Pairwise (le comp · ·))
    (hfirst : it'.first = false) (hcur : it'.current.isSome) : Inv comp n it' where
  nodup := hnd
  lt := hlt
  sorted := hsorted
  first_least := by simp [hfirst]
  heap_nil h := by simp [h] at hcur
  remaining_zero h := by simp [h] at hcur

/-- One call of `next` on an iterator for runs numbered below `n`: it returned `x`, the head of a
run `j`, as the stable sort does, and left `it'`, an iterator for the runs without it, with
`_remaining` counted down. -/
def Called (comp : Data → Data → Int) (n : Nat) (it : MergeIterator Data) (runs : Nat → List Data)
    (x : Data) (it' : MergeIterator Data) : Prop :=
  ∃ j r, TakeStep comp n runs x j r ∧ Represents it' (Function.update runs j r) ∧
    Inv comp n it' ∧ decRemaining it.remaining = some it'.remaining

/-- The first call returns `_current`'s pair, the least of all. -/
theorem called_first (hcomp : TotalPreorder comp) {it : MergeIterator Data} {cur : Stream Data}
    {rem : Option Nat} (hinv : Inv comp n it) (hrep : Represents it runs)
    (hcur : it.current = some cur) (hfirst : it.first = true)
    (hrem : decRemaining it.remaining = some rem) :
    Called comp n it runs cur.current { it with remaining := rem, first := false } := by
  have hinv' : Inv comp n { it with remaining := rem, first := false } :=
    Inv.after hinv.nodup hinv.lt hinv.sorted rfl (by simp [hcur])
  have hm : runs cur.fileNum = cur.items := by
    simpa [hfirst] using hrep.current cur hcur
  obtain ⟨hstep, hrep'⟩ := takeStep_after hcomp hinv' hcur rfl hm
    (fun s hs => ⟨hrep.heap s hs, hinv.first_least hfirst cur hcur s hs⟩) hrep.other
  exact ⟨_, _, hstep, hrep', hinv', hrem⟩

/-- When `_current` is done, the least stream comes off the heap. -/
theorem called_pop (hcomp : TotalPreorder comp) {it : MergeIterator Data} {cur m : Stream Data}
    {heap : List (Stream Data)} {rem : Option Nat} (hinv : Inv comp n it)
    (hrep : Represents it runs) (hcur : it.current = some cur) (hfirst : it.first = false)
    (hrest : cur.rest = []) (hpop : popHeap comp it.heap = some (m, heap))
    (hrem : decRemaining it.remaining = some rem) :
    Called comp n it runs m.current { it with remaining := rem, current := some m, heap } := by
  have hperm := popHeap_perm hpop
  have hstreams := streams_of_current hcur
  have hnd := hinv.nodup
  rw [hstreams, List.map_cons, List.nodup_cons] at hnd
  have hsub (s : Stream Data) (hs : s ∈ m :: heap) : s ∈ it.streams :=
    hstreams ▸ List.mem_cons_of_mem cur (hperm.subset hs)
  have hinv' : Inv comp n { it with remaining := rem, current := some m, heap } :=
    Inv.after (by simpa [streams] using (hperm.map Stream.fileNum).nodup_iff.mpr hnd.2)
      (fun s hs => hinv.lt s (hsub s (by simpa [streams] using hs)))
      (fun s hs => hinv.sorted s (hsub s (by simpa [streams] using hs))) hfirst rfl
  -- `_current`'s run is empty now, and the other runs keep their streams
  have hother (i : Nat) (hi : ∀ s ∈ m :: heap, s.fileNum ≠ i) : runs i = [] := by
    by_cases hic : i = cur.fileNum
    · simpa [hfirst, hrest, hic] using hrep.current cur hcur
    · refine hrep.other i fun s hs => ?_
      rw [hstreams] at hs
      rcases List.mem_cons.mp hs with rfl | hs
      · exact Ne.symm hic
      · exact hi s (hperm.symm.subset hs)
  obtain ⟨hstep, hrep'⟩ := takeStep_after hcomp hinv' rfl hfirst
    (hrep.heap m (hperm.subset List.mem_cons_self))
    (fun s hs => ⟨hrep.heap s (hperm.subset (List.mem_cons_of_mem m hs)),
      popHeap_least hcomp hnd.2 hpop s hs⟩)
    (fun i hi => hother i (by simpa [streams] using hi))
  exact ⟨_, _, hstep, hrep', hinv', hrem⟩

/-- When the advanced `_current` is greater than the least stream on the heap, the two trade
places. -/
theorem called_swap (hcomp : TotalPreorder comp) {it : MergeIterator Data} {cur m : Stream Data}
    {heap : List (Stream Data)} {y : Data} {rest : List Data} {rem : Option Nat}
    (hinv : Inv comp n it) (hrep : Represents it runs) (hcur : it.current = some cur)
    (hfirst : it.first = false) (hrest : cur.rest = y :: rest)
    (hpop : popHeap comp it.heap = some (m, heap))
    (hgt : greater comp ⟨cur.fileNum, y, rest⟩ m)
    (hrem : decRemaining it.remaining = some rem) :
    Called comp n it runs m.current
      { it with remaining := rem, current := some m, heap := ⟨cur.fileNum, y, rest⟩ :: heap } := by
  have hperm := popHeap_perm hpop
  have hstreams := streams_of_current hcur
  have hnd := hinv.nodup
  rw [hstreams] at hnd
  have hcur_mem : cur ∈ it.streams := hstreams ▸ List.mem_cons_self
  have hsub (s : Stream Data) (hs : s ∈ m :: heap) : s ∈ it.streams :=
    hstreams ▸ List.mem_cons_of_mem cur (hperm.subset hs)
  -- the advanced stream keeps `_current`'s number and the rest of its run
  have hitems : (⟨cur.fileNum, y, rest⟩ : Stream Data).items = cur.rest := by
    simp [Stream.items, hrest]
  have hsorted' : (⟨cur.fileNum, y, rest⟩ : Stream Data).items.Pairwise (le comp · ·) := by
    rw [hitems]
    exact (hinv.sorted cur hcur_mem).of_cons
  have hmem (s : Stream Data) (hs : s ∈ m :: ⟨cur.fileNum, y, rest⟩ :: heap) :
      s = ⟨cur.fileNum, y, rest⟩ ∨ s ∈ it.streams := by
    rcases List.mem_cons.mp hs with rfl | hs
    · exact .inr (hsub s List.mem_cons_self)
    · rcases List.mem_cons.mp hs with rfl | hs
      · exact .inl rfl
      · exact .inr (hsub s (List.mem_cons_of_mem m hs))
  have hnd' : ((m :: ⟨cur.fileNum, y, rest⟩ :: heap).map Stream.fileNum).Nodup := by
    have h := ((hperm.map Stream.fileNum).cons cur.fileNum).nodup_iff.mpr (by simpa using hnd)
    exact (List.Perm.swap _ _ _).nodup_iff.mp (by simpa using h)
  have hinv' : Inv comp n
      { it with remaining := rem, current := some m, heap := ⟨cur.fileNum, y, rest⟩ :: heap } := by
    refine Inv.after (by simpa [streams] using hnd') (fun s hs => ?_) (fun s hs => ?_) hfirst rfl
    · rcases hmem s (by simpa [streams] using hs) with rfl | hs
      · exact hinv.lt cur hcur_mem
      · exact hinv.lt s hs
    · rcases hmem s (by simpa [streams] using hs) with rfl | hs
      · exact hsorted'
      · exact hinv.sorted s hs
  have hnd_heap := hinv.nodup
  rw [hstreams, List.map_cons, List.nodup_cons] at hnd_heap
  obtain ⟨hstep, hrep'⟩ := takeStep_after hcomp hinv' rfl hfirst
    (hrep.heap m (hperm.subset List.mem_cons_self))
    (fun s hs => by
      rcases List.mem_cons.mp hs with rfl | hs
      · exact ⟨by simpa [hfirst, hitems] using hrep.current cur hcur, hgt⟩
      · exact ⟨hrep.heap s (hperm.subset (List.mem_cons_of_mem m hs)),
          popHeap_least hcomp hnd_heap.2 hpop s hs⟩)
    (fun i hi => hrep.other i fun s hs => by
      rw [hstreams] at hs
      rcases List.mem_cons.mp hs with rfl | hs
      · exact hi ⟨s.fileNum, y, rest⟩ (by simp [streams])
      · exact hi s (by
          rcases List.mem_cons.mp (hperm.symm.subset hs) with rfl | hs
          · simp [streams]
          · simp [streams, hs]))
  exact ⟨_, _, hstep, hrep', hinv', hrem⟩

/-- When the advanced `_current` is below every stream on the heap, it stays. -/
theorem called_keep (hcomp : TotalPreorder comp) {it : MergeIterator Data} {cur : Stream Data}
    {y : Data} {rest : List Data} {rem : Option Nat}
    (hinv : Inv comp n it) (hrep : Represents it runs) (hcur : it.current = some cur)
    (hfirst : it.first = false) (hrest : cur.rest = y :: rest)
    (hleast : ∀ s ∈ it.heap, greater comp s ⟨cur.fileNum, y, rest⟩)
    (hrem : decRemaining it.remaining = some rem) :
    Called comp n it runs y { it with remaining := rem, current := some ⟨cur.fileNum, y, rest⟩ } := by
  have hstreams := streams_of_current hcur
  have hcur_mem : cur ∈ it.streams := hstreams ▸ List.mem_cons_self
  have hitems : (⟨cur.fileNum, y, rest⟩ : Stream Data).items = cur.rest := by
    simp [Stream.items, hrest]
  -- the streams are `_current`'s, advanced, and the heap's
  have hstreams' : ({ it with remaining := rem, current := some ⟨cur.fileNum, y, rest⟩ } :
      MergeIterator Data).streams = ⟨cur.fileNum, y, rest⟩ :: it.heap := by
    simp [streams]
  have hmap : (({ it with remaining := rem, current := some ⟨cur.fileNum, y, rest⟩ } :
      MergeIterator Data).streams.map Stream.fileNum) = it.streams.map Stream.fileNum := by
    rw [hstreams', hstreams]
    rfl
  have hinv' : Inv comp n { it with remaining := rem, current := some ⟨cur.fileNum, y, rest⟩ } := by
    refine Inv.after (hmap ▸ hinv.nodup) (fun s hs => ?_) (fun s hs => ?_) hfirst rfl
    · rw [hstreams'] at hs
      rcases List.mem_cons.mp hs with rfl | hs
      · exact hinv.lt cur hcur_mem
      · exact hinv.lt s (hstreams ▸ List.mem_cons_of_mem cur hs)
    · rw [hstreams'] at hs
      rcases List.mem_cons.mp hs with rfl | hs
      · rw [hitems]
        exact (hinv.sorted cur hcur_mem).of_cons
      · exact hinv.sorted s (hstreams ▸ List.mem_cons_of_mem cur hs)
  obtain ⟨hstep, hrep'⟩ := takeStep_after hcomp hinv' rfl hfirst
    (by simpa [hfirst, hitems] using hrep.current cur hcur)
    (fun s hs => ⟨hrep.heap s hs, hleast s hs⟩)
    (fun i hi => hrep.other i fun s hs => by
      have := List.mem_map_of_mem (f := Stream.fileNum) hs
      rw [← hmap] at this
      obtain ⟨t, ht, hti⟩ := List.mem_map.mp this
      rw [← hti]
      exact hi t ht)
  exact ⟨_, _, hstep, hrep', hinv', hrem⟩

theorem decRemaining_of_hasRemaining {r : Option Nat} (h : hasRemaining r = true) :
    ∃ r', decRemaining r = some r' := by
  rcases r with _ | _ | k
  · exact ⟨none, rfl⟩
  · simp [hasRemaining] at h
  · exact ⟨some k, rfl⟩

theorem more_of_true {it : MergeIterator Data} (h : it.more.1 = true) :
    it.more = (true, it) ∧ hasRemaining it.remaining = true ∧
      (it.first = true ∨ it.heap ≠ [] ∨ it.current.any fun c => !c.rest.isEmpty) := by
  unfold more at h ⊢
  by_cases hc : (hasRemaining it.remaining &&
      (it.first || !it.heap.isEmpty || it.current.any fun c => !c.rest.isEmpty)) = true
  · rw [if_pos hc]
    simp only [Bool.and_eq_true, Bool.or_eq_true, Bool.not_eq_true', List.isEmpty_eq_false_iff]
      at hc
    exact ⟨rfl, hc.1, or_assoc.mp hc.2⟩
  · rw [if_neg hc] at h
    simp at h

theorem more_of_false {it : MergeIterator Data} (h : it.more.1 = false) :
    it.more = (false, { it with remaining := some 0 }) := by
  unfold more at h ⊢
  split
  · next hc =>
    rw [if_pos hc] at h
    cases h
  · rfl

/-- Every call of `next` after `more()` answered true returns a pair as the stable sort does. -/
theorem next_spec (hcomp : TotalPreorder comp) {it : MergeIterator Data} (hinv : Inv comp n it)
    (hrep : Represents it runs) (hmore : it.more.1 = true) :
    ∃ x it', it.next comp = some (x, it') ∧ Called comp n it runs x it' := by
  obtain ⟨-, hremaining, hleft⟩ := more_of_true hmore
  obtain ⟨rem, hrem⟩ := decRemaining_of_hasRemaining hremaining
  -- `_current` is set, since `_remaining` is not zero
  obtain ⟨cur, hcur⟩ : ∃ cur, it.current = some cur := by
    cases hc : it.current with
    | none => simp [hinv.remaining_zero hc, hasRemaining] at hremaining
    | some cur => exact ⟨cur, rfl⟩
  have hstreams := streams_of_current hcur
  cases hfirst : it.first
  case true =>
    exact ⟨_, _, by simp [next, hrem, hcur, hfirst], called_first hcomp hinv hrep hcur hfirst hrem⟩
  case false =>
    cases hrest : cur.rest with
    | nil =>
      -- `_current` is done, so the heap is not empty
      have hheap : it.heap ≠ [] := by
        simpa [hfirst, hcur, hrest] using hleft
      obtain ⟨⟨m, heap⟩, hpop⟩ := Option.ne_none_iff_exists'.mp
        (mt popHeap_eq_none.mp hheap)
      exact ⟨_, _, by simp [next, hrem, hcur, hfirst, hrest, hpop],
        called_pop hcomp hinv hrep hcur hfirst hrest hpop hrem⟩
    | cons y rest =>
      cases hpop : popHeap comp it.heap with
      | none =>
        have hheap := popHeap_eq_none.mp hpop
        exact ⟨_, _, by simp [next, hrem, hcur, hfirst, hrest, hpop],
          called_keep hcomp hinv hrep hcur hfirst hrest (by simp [hheap]) hrem⟩
      | some p =>
        obtain ⟨m, heap⟩ := p
        by_cases hgt : greater comp ⟨cur.fileNum, y, rest⟩ m
        · exact ⟨_, _, by simp [next, hrem, hcur, hfirst, hrest, hpop, hgt],
            called_swap hcomp hinv hrep hcur hfirst hrest hpop hgt hrem⟩
        · -- the least stream of the heap is greater, so all of the heap is
          have hperm := popHeap_perm hpop
          have hnd := hinv.nodup
          rw [hstreams, List.map_cons, List.nodup_cons] at hnd
          have hm : m ∈ it.heap := hperm.subset List.mem_cons_self
          have hne : (⟨cur.fileNum, y, rest⟩ : Stream Data).fileNum ≠ m.fileNum := fun h =>
            hnd.1 (h ▸ List.mem_map_of_mem hm)
          have hmc := greater_of_not_greater hcomp hne (Bool.eq_false_iff.mpr hgt)
          have hleast (s : Stream Data) (hs : s ∈ it.heap) :
              greater comp s ⟨cur.fileNum, y, rest⟩ := by
            rcases List.mem_cons.mp (hperm.symm.subset hs) with rfl | hs
            · exact hmc
            · exact greater_trans hcomp (popHeap_least hcomp hnd.2 hpop s hs) hmc
          exact ⟨_, _, by simp [next, hrem, hcur, hfirst, hrest, hpop, hgt],
            called_keep hcomp hinv hrep hcur hfirst hrest hleast hrem⟩

end Next

section Drain

variable {comp : Data → Data → Int} {n : Nat} {runs : Nat → List Data}

/-- A list cut at `_remaining`. -/
def takeRemaining : Option Nat → List Data → List Data
  | none, l => l
  | some k, l => l.take k

theorem takeRemaining_cons {r r' : Option Nat} (h : decRemaining r = some r') (x : Data)
    (l : List Data) : takeRemaining r (x :: l) = x :: takeRemaining r' l := by
  rcases r with _ | _ | k
  · cases h
    rfl
  · cases h
  · cases h
    rfl

/-- When `more()` answers false, nothing is left to return within `_remaining`. -/
theorem takeRemaining_of_more_false {it : MergeIterator Data} (hinv : Inv comp n it)
    (hrep : Represents it runs) (hmore : it.more.1 = false) :
    takeRemaining it.remaining ((flattenRuns runs n).mergeSort (le comp)) = [] := by
  unfold more at hmore
  split at hmore
  · cases hmore
  · next hc =>
    simp only [Bool.and_eq_true, Bool.or_eq_true, Bool.not_eq_true', List.isEmpty_eq_false_iff,
      not_and, not_or] at hc
    by_cases hrem : hasRemaining it.remaining = true
    · -- every run is empty: the first pair is past, the heap is empty and `_current` is done
      obtain ⟨⟨hfirst, hheap⟩, hcur⟩ := hc hrem
      rw [ne_eq, not_not] at hheap
      have hempty (i : Nat) : runs i = [] := by
        cases hc : it.current with
        | none => exact hrep.other i (by simp [streams, hc, hinv.heap_nil hc])
        | some c =>
          by_cases hic : c.fileNum = i
          · have := hrep.current c hc
            simp only [Bool.not_eq_true] at hfirst
            simp only [hc, Option.any_some, Bool.not_eq_true', List.isEmpty_eq_false_iff,
              ne_eq, not_not] at hcur
            simpa [hfirst, hcur, hic] using this
          · exact hrep.other i (by simp [streams, hc, hheap, hic])
      rw [show runs = fun _ => [] from funext hempty]
      cases it.remaining <;> simp [flattenRuns, takeRemaining]
    · rcases hr : it.remaining with _ | _ | k
      all_goals simp [hr, hasRemaining] at hrem
      rfl

/-- Read to its end, the iterator returns the stable sort of the runs left, cut at
`_remaining`. -/
theorem drain_eq (hcomp : TotalPreorder comp) :
    ∀ (fuel : Nat) (it : MergeIterator Data) (runs : Nat → List Data), Inv comp n it →
      Represents it runs → (flattenRuns runs n).length < fuel →
      it.drain comp fuel =
        some (takeRemaining it.remaining ((flattenRuns runs n).mergeSort (le comp)))
  | 0, _, _, _, _, hlen => absurd hlen (Nat.not_lt_zero _)
  | fuel + 1, it, runs, hinv, hrep, hlen => by
    cases hmore : it.more.1
    · rw [takeRemaining_of_more_false hinv hrep hmore, drain, more_of_false hmore]
    · obtain ⟨hmore', -, -⟩ := more_of_true hmore
      obtain ⟨x, it', hnext, j, r, hstep, hrep', hinv', hrem⟩ := next_spec hcomp hinv hrep hmore
      have hsort := hstep.mergeSort_eq hcomp
      -- one pair fewer is left
      have hlen' : (flattenRuns (Function.update runs j r) n).length < fuel := by
        have := congrArg List.length hsort
        simp only [List.length_mergeSort, List.length_cons] at this
        omega
      rw [drain, hmore', hsort, takeRemaining_cons hrem]
      simp [hnext, drain_eq hcomp fuel it' _ hinv' hrep' hlen']

end Drain

end MergeIterator

/-! ## The constructor -/

/-- The streams opened for the runs from number `k` on are numbered in increasing order, each by
a run that it holds whole. -/
theorem mem_openStreams : ∀ {runs : List (List Data)} {k : Nat} {s : Stream Data},
    s ∈ openStreams runs k →
      k ≤ s.fileNum ∧ s.fileNum < k + runs.length ∧ runs.getD (s.fileNum - k) [] = s.items
  | [], _, _, h => by simp [openStreams] at h
  | [] :: runs, k, s, h => by
    obtain ⟨h₁, h₂, h₃⟩ := mem_openStreams (k := k + 1) h
    refine ⟨by omega, by simp; omega, ?_⟩
    rw [show s.fileNum - k = s.fileNum - (k + 1) + 1 by omega]
    simpa using h₃
  | (x :: rest) :: runs, k, s, h => by
    rcases List.mem_cons.mp h with rfl | h
    · simp [Stream.items]
    · obtain ⟨h₁, h₂, h₃⟩ := mem_openStreams (k := k + 1) h
      refine ⟨by omega, by simp; omega, ?_⟩
      rw [show s.fileNum - k = s.fileNum - (k + 1) + 1 by omega]
      simpa using h₃

theorem pairwise_openStreams : ∀ (runs : List (List Data)) (k : Nat),
    (openStreams runs k).Pairwise fun s t => s.fileNum < t.fileNum
  | [], _ => List.Pairwise.nil
  | [] :: runs, k => pairwise_openStreams runs (k + 1)
  | (x :: rest) :: runs, k => by
    refine List.Pairwise.cons (fun t ht => ?_) (pairwise_openStreams runs (k + 1))
    have := (mem_openStreams ht).1
    simp only
    omega

/-- Every run with a pair has its stream. -/
theorem exists_openStreams : ∀ {runs : List (List Data)} {k i : Nat}, runs.getD i [] ≠ [] →
    ∃ s ∈ openStreams runs k, s.fileNum = k + i
  | [], _, _, h => by simp at h
  | [] :: runs, k, 0, h => by simp at h
  | (x :: rest) :: runs, k, 0, _ => ⟨⟨k, x, rest⟩, List.mem_cons_self, rfl⟩
  | r :: runs, k, i + 1, h => by
    obtain ⟨s, hs, hsi⟩ := exists_openStreams (k := k + 1) (by simpa using h)
    refine ⟨s, ?_, by omega⟩
    rcases r with _ | ⟨x, rest⟩
    · exact hs
    · exact List.mem_cons_of_mem _ hs

theorem flattenRuns_getD (iters : List (List Data)) :
    flattenRuns (fun i => iters.getD i []) iters.length = iters.flatten := by
  have hmap : (List.range iters.length).map (fun i => iters.getD i []) = iters := by
    apply List.ext_getElem
    · simp
    · intro i _ h
      simp [List.getElem?_eq_getElem h]
  rw [flattenRuns, hmap]

variable {comp : Data → Data → Int}

/-- The constructor leaves every run to be read. -/
theorem make_spec (hcomp : TotalPreorder comp) (opts : SortOptions) (iters : List (List Data))
    (hsorted : ∀ r ∈ iters, r.Pairwise (le comp · ·)) :
    MergeIterator.Inv comp iters.length (MergeIterator.make comp opts iters) ∧
      MergeIterator.Represents (MergeIterator.make comp opts iters) fun i => iters.getD i [] := by
  have hnd : ((openStreams iters 0).map Stream.fileNum).Nodup :=
    List.nodup_iff_pairwise_ne.mpr ((List.pairwise_map.mpr (pairwise_openStreams iters 0)).imp
      (fun h => Nat.ne_of_lt h))
  -- a run without a stream is empty
  have hempty (i : Nat) (hi : ∀ s ∈ openStreams iters 0, s.fileNum ≠ i) : iters.getD i [] = [] := by
    by_contra hne
    obtain ⟨s, hs, hsi⟩ := exists_openStreams (k := 0) hne
    exact hi s hs (by omega)
  unfold MergeIterator.make
  split
  · next hpop =>
    have hnil := popHeap_eq_none.mp hpop
    refine ⟨⟨by simp [MergeIterator.streams], by simp [MergeIterator.streams],
      by simp [MergeIterator.streams], by simp, fun _ => rfl, fun _ => rfl⟩,
      ⟨by simp, by simp, fun i _ => hempty i (by simp [hnil])⟩⟩
  · next cur heap hpop =>
    have hperm := popHeap_perm hpop
    have hmem (s : Stream Data) (hs : s ∈ cur :: heap) : s ∈ openStreams iters 0 :=
      hperm.subset hs
    -- a stream holds its run, and the runs are sorted
    have hrun (s : Stream Data) (hs : s ∈ openStreams iters 0) :
        (fun i => iters.getD i []) s.fileNum = s.items := by
      simpa using (mem_openStreams hs).2.2
    refine ⟨⟨?_, fun s hs => ?_, fun s hs => ?_, fun _ c hc s hs => ?_, by simp, by simp⟩,
      ⟨fun c hc => ?_, fun s hs => ?_, fun i hi => hempty i fun s hs => ?_⟩⟩
    · simpa [MergeIterator.streams] using (hperm.map Stream.fileNum).nodup_iff.mpr hnd
    · have := mem_openStreams (hmem s (by simpa [MergeIterator.streams] using hs))
      omega
    · have hs' := hmem s (by simpa [MergeIterator.streams] using hs)
      obtain ⟨-, hlt, hget⟩ := mem_openStreams hs'
      rw [← hget, Nat.sub_zero, List.getD_eq_getElem?_getD, List.getElem?_eq_getElem (by omega),
        Option.getD_some]
      exact hsorted _ (List.getElem_mem _)
    · obtain rfl : cur = c := Option.some.inj hc
      exact popHeap_least hcomp hnd hpop s hs
    · obtain rfl : cur = c := Option.some.inj hc
      simpa using hrun cur (hmem cur List.mem_cons_self)
    · exact hrun s (hmem s (List.mem_cons_of_mem cur hs))
    · rcases List.mem_cons.mp (hperm.symm.subset hs) with rfl | hs'
      · exact hi _ (by simp [MergeIterator.streams])
      · exact hi s (by simp [MergeIterator.streams, hs'])

/-- The pairs a limit keeps: all of them for `0`, else the first `limit`. -/
def takeLimit (limit : Nat) (l : List Data) : List Data := if limit = 0 then l else l.take limit

/-- With no stream opened, every run is empty. -/
theorem flatten_eq_nil_of_openStreams {iters : List (List Data)} (h : openStreams iters 0 = []) :
    iters.flatten = [] := by
  rw [List.flatten_eq_nil_iff]
  intro r hr
  obtain ⟨i, hi, rfl⟩ := List.mem_iff_getElem.mp hr
  by_contra hne
  obtain ⟨s, hs, -⟩ := exists_openStreams (k := 0) (i := i)
    (by rwa [List.getD_eq_getElem?_getD, List.getElem?_eq_getElem hi, Option.getD_some])
  simp [h] at hs

/-- A merge of sorted runs, read to its end, returns the stable sort of their concatenation cut
at the limit: what `done()` of a sorter that spilled returns. -/
theorem drain_make (hcomp : TotalPreorder comp) (opts : SortOptions) (iters : List (List Data))
    (hsorted : ∀ r ∈ iters, r.Pairwise (le comp · ·)) {fuel : Nat}
    (hfuel : iters.flatten.length < fuel) :
    (MergeIterator.make comp opts iters).drain comp fuel =
      some (takeLimit opts.limit (stableSort comp iters.flatten)) := by
  obtain ⟨hinv, hrep⟩ := make_spec hcomp opts iters hsorted
  rw [MergeIterator.drain_eq hcomp fuel _ _ hinv hrep (by rwa [flattenRuns_getD]),
    flattenRuns_getD]
  -- `_remaining` starts at the limit, or at zero when no run has a pair
  unfold MergeIterator.make
  split
  · next hpop =>
    rw [flatten_eq_nil_of_openStreams (popHeap_eq_none.mp hpop)]
    simp [takeLimit, MergeIterator.takeRemaining, stableSort]
  · by_cases hl : opts.limit = 0
    · simp [hl, takeLimit, MergeIterator.takeRemaining, stableSort]
    · simp [hl, takeLimit, MergeIterator.takeRemaining, stableSort]

end Mongo.Sorting
