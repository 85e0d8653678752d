import Mongo.Sorter.Sorter

/-! What each sorter returns. `NoLimitSorter` returns the stable sort of its input whatever it
spilled: its runs are sorted blocks of the input, and the merge of sorted blocks is the stable
sort of their concatenation (`StableSort.mergeSort_flatten_map_mergeSort`). `LimitOneSorter`
returns the head of the stable sort, the first least pair. Each result is a run lemma over the
pairs added, from a step lemma for `add`. -/

namespace Mongo.Sorting

open StableSort

variable {Key Value : Type}

/-! ## The contract of the heap algorithms -/

section HeapContract

variable {Data : Type} {comp : Data → Data → Int}

theorem extractMax_eq_none {less : Data → Data → Bool} {l : List Data} :
    extractMax less l = none ↔ l = [] := by
  cases l with
  | nil => simp [extractMax]
  | cons x l =>
    simp only [extractMax, reduceCtorEq, iff_false]
    split
    · simp
    · split <;> simp

theorem extractMax_perm {less : Data → Data → Bool} :
    ∀ {l rest : List Data} {m : Data}, extractMax less l = some (m, rest) → (m :: rest).Perm l
  | [], _, _, h => by simp [extractMax] at h
  | x :: l, rest, m, h => by
    simp only [extractMax] at h
    split at h
    · next hnone =>
      obtain ⟨rfl, rfl⟩ := Prod.mk.inj (Option.some.inj h)
      rw [extractMax_eq_none.mp hnone]
    · next m' rest' hsome =>
      split at h
      · obtain ⟨rfl, rfl⟩ := Prod.mk.inj (Option.some.inj h)
        exact (List.Perm.swap x m' rest').trans ((extractMax_perm hsome).cons x)
      · obtain ⟨rfl, rfl⟩ := Prod.mk.inj (Option.some.inj h)
        rfl

/-- `extractMax` finds a greatest element. -/
theorem extractMax_greatest (hcomp : TotalPreorder comp) :
    ∀ {l rest : List Data} {m : Data}, extractMax (less comp) l = some (m, rest) →
      ∀ y ∈ l, le comp y m
  | [], _, _, h => by simp [extractMax] at h
  | x :: l, rest, m, h => by
    have hpre := hcomp.isTotalPreorder
    simp only [extractMax] at h
    split at h
    · next hnone =>
      obtain ⟨rfl, rfl⟩ := Prod.mk.inj (Option.some.inj h)
      rw [extractMax_eq_none.mp hnone]
      simpa using hpre.refl x
    · next m' rest' hsome =>
      have ih := extractMax_greatest hcomp hsome
      split at h
      · next hlt =>
        -- `x` is below the greatest of the rest, which stays the greatest
        obtain ⟨rfl, rfl⟩ := Prod.mk.inj (Option.some.inj h)
        intro y hy
        rcases List.mem_cons.mp hy with rfl | hy
        · simp only [le, less, decide_eq_true_eq] at hlt ⊢
          omega
        · exact ih y hy
      · next hlt =>
        -- the greatest of the rest is not above `x`, which is the greatest
        obtain ⟨rfl, rfl⟩ := Prod.mk.inj (Option.some.inj h)
        have hm'x : le comp m' x := by
          rw [hcomp.le_iff_not_less]
          simpa using hlt
        intro y hy
        rcases List.mem_cons.mp hy with rfl | hy
        · exact hpre.refl y
        · exact hpre.trans y m' x (ih y hy) hm'x

theorem makeHeap_perm (less : Data → Data → Bool) (l : List Data) : (makeHeap less l).Perm l := by
  unfold makeHeap
  split
  · next hnone => rw [extractMax_eq_none.mp hnone]
  · next m rest hsome => exact extractMax_perm hsome

/-- `std::make_heap` puts a greatest pair at the front. -/
theorem le_headD_makeHeap (hcomp : TotalPreorder comp) (l : List Data) (d : Data) :
    ∀ y ∈ makeHeap (less comp) l, le comp y ((makeHeap (less comp) l).headD d) := by
  unfold makeHeap
  split
  · simp
  · next m rest hsome =>
    intro y hy
    exact extractMax_greatest hcomp hsome y ((extractMax_perm hsome).subset hy)

theorem replaceTop_perm (less : Data → Data → Bool) (l : List Data) (x : Data) :
    (replaceTop less l x).Perm (x :: l.tail) :=
  makeHeap_perm less _

/-- `std::sort_heap` with `less` sorts as the stable sort does. -/
theorem sortHeap_eq (hcomp : TotalPreorder comp) (l : List Data) :
    sortHeap (less comp) l = stableSort comp l := by
  unfold sortHeap stableSort
  congr 1
  funext a b
  rw [hcomp.le_iff_not_less]

theorem length_takeWhile_le_countP (p : Data → Bool) :
    ∀ l : List Data, (l.takeWhile p).length ≤ l.countP p
  | [] => by simp
  | a :: l => by
    have ih := length_takeWhile_le_countP p l
    by_cases ha : p a <;> simp [ha, ih]

/-- `std::upper_bound` counts pairs at or below the value. -/
theorem upperBound_le_countLE (hcomp : TotalPreorder comp) (v : Data) (l : List Data) :
    upperBound (less comp) v l ≤ countLE (le comp) v l := by
  have hp : (fun e => le comp e v) = fun e => !less comp v e := by
    funext e
    rw [hcomp.le_iff_not_less]
  unfold upperBound countLE
  rw [hp]
  exact length_takeWhile_le_countP _ l

end HeapContract

theorem stableSort_pairwise {Data : Type} {comp : Data → Data → Int} (hcomp : TotalPreorder comp)
    (l : List Data) : (stableSort comp l).Pairwise (le comp · ·) :=
  List.pairwise_mergeSort hcomp.isTotalPreorder.trans hcomp.isTotalPreorder.total l

theorem stableSort_perm {Data : Type} (comp : Data → Data → Int) (l : List Data) :
    (stableSort comp l).Perm l :=
  List.mergeSort_perm l _

/-! ## `NoLimitSorter` -/

namespace NoLimitSorter

variable {comp : Key × Value → Key × Value → Int} {keyMemUsage : Key → Nat}
  {valueMemUsage : Value → Nat} {opts : SortOptions}

/-- What a `NoLimitSorter` holds after `input` was added: the runs spilled are the sorted blocks
of a prefix of `input`, and the pairs in memory are the rest. -/
structure Holds (comp : Key × Value → Key × Value → Int) (opts : SortOptions)
    (input : List (Key × Value)) (s : NoLimitSorter Key Value) : Prop where
  opts_eq : s.opts = opts
  not_done : s.isDone = false
  blocks : ∃ blocks : List (List (Key × Value)),
    s.iters = blocks.map (stableSort comp) ∧ blocks.flatten ++ s.data = input

theorem holds_init (opts : SortOptions) : Holds comp opts [] (init opts) :=
  ⟨rfl, rfl, [], rfl, rfl⟩

/-- A spill allowed to go to disk moves the pairs in memory into a sorted run. -/
theorem spill_holds (hext : opts.extSortAllowed = true) {input : List (Key × Value)}
    {s : NoLimitSorter Key Value} (h : Holds comp opts input s) :
    ∃ s', s.spill comp = .ok s' ∧ Holds comp opts input s' ∧ s'.data = [] := by
  obtain ⟨blocks, hiters, hinput⟩ := h.blocks
  unfold spill
  rw [if_neg (by simp [h.not_done])]
  by_cases hdata : s.data.isEmpty
  · exact ⟨s, by rw [if_pos hdata], h, List.isEmpty_iff.mp hdata⟩
  · rw [if_neg hdata, if_neg (by simp [h.opts_eq, hext])]
    refine ⟨_, rfl, ⟨h.opts_eq, h.not_done, blocks ++ [s.data], ?_, ?_⟩, rfl⟩
    · simp [hiters]
    · simpa using hinput

theorem add_holds (hext : opts.extSortAllowed = true) {input : List (Key × Value)}
    {s : NoLimitSorter Key Value} (h : Holds comp opts input s) (key : Key) (val : Value) :
    ∃ s', s.add comp keyMemUsage valueMemUsage key val = .ok s' ∧
      Holds comp opts (input ++ [(key, val)]) s' := by
  obtain ⟨blocks, hiters, hinput⟩ := h.blocks
  -- the pair joins the pairs in memory
  have h' : Holds comp opts (input ++ [(key, val)])
      { s with data := s.data ++ [(key, val)],
               memUsed := s.memUsed + keyMemUsage key + valueMemUsage val } :=
    ⟨h.opts_eq, h.not_done, blocks, hiters, by rw [← hinput, List.append_assoc]⟩
  unfold add
  rw [if_neg (by simp [h.not_done])]
  dsimp only
  split
  · obtain ⟨s', hs', h'', -⟩ := spill_holds hext h'
    exact ⟨s', hs', h''⟩
  · exact ⟨_, rfl, h'⟩

/-- `done()` returns the stable sort of the input: in memory when nothing was spilled, and by
merging the runs otherwise. -/
theorem done_holds (hcomp : TotalPreorder comp) (hext : opts.extSortAllowed = true)
    (hlimit : opts.limit = 0) {input : List (Key × Value)} {s : NoLimitSorter Key Value}
    (h : Holds comp opts input s) :
    ∃ it, s.done comp = .ok it ∧ it.drain comp (input.length + 1) = some (stableSort comp input) := by
  unfold done
  rw [if_neg (by simp [h.not_done])]
  by_cases hiters : s.iters.isEmpty
  · -- nothing was spilled: the pairs in memory are the whole input
    obtain ⟨blocks, hblocks, hinput⟩ := h.blocks
    have hnil : blocks = [] := by
      simpa [hblocks] using List.isEmpty_iff.mp hiters
    subst hnil
    refine ⟨_, by rw [if_pos hiters], ?_⟩
    rw [← hinput]
    simp [SortIterator.drain]
  · rw [if_neg hiters]
    obtain ⟨s', hs', h', hdata'⟩ := spill_holds hext h
    obtain ⟨blocks, hblocks, hinput⟩ := h'.blocks
    have hst : StableOf (le comp) (blocks.map (stableSort comp)).flatten blocks.flatten :=
      stableOf_flatten_map _ blocks fun l _ => stableOf_mergeSort hcomp.isTotalPreorder l
    have hlen : (s'.iters.flatten).length < input.length + 1 := by
      rw [hblocks, (hst.perm hcomp.isTotalPreorder).length_eq, ← hinput]
      simp only [List.length_append]
      omega
    refine ⟨.merge (MergeIterator.make comp s'.opts s'.iters), by rw [hs']; rfl, ?_⟩
    rw [SortIterator.drain, drain_make hcomp _ _ ?_ hlen, h'.opts_eq, hlimit, hblocks]
    · -- the runs are the sorted blocks of the input
      have hsort : stableSort comp (blocks.map (stableSort comp)).flatten = stableSort comp input := by
        rw [← hinput, hdata', List.append_nil]
        exact mergeSort_flatten_map_mergeSort hcomp.isTotalPreorder blocks
      rw [takeLimit, if_pos rfl, hsort]
    · rw [hblocks]
      intro r hr
      obtain ⟨b, -, rfl⟩ := List.mem_map.mp hr
      exact stableSort_pairwise hcomp b

end NoLimitSorter

/-! ## `LimitOneSorter` -/

namespace LimitOneSorter

variable [Inhabited Key] [Inhabited Value] {comp : Key × Value → Key × Value → Int}

/-- What a `LimitOneSorter` holds after `input` was added: data exactly when there was input, and
then the head of its stable sort. -/
structure Holds (comp : Key × Value → Key × Value → Int) (input : List (Key × Value))
    (s : LimitOneSorter Key Value) : Prop where
  haveData : s.haveData = !input.isEmpty
  best : s.haveData → (stableSort comp input).head? = some s.best

theorem holds_init : Holds comp [] (init : LimitOneSorter Key Value) :=
  ⟨rfl, by simp [init]⟩

omit [Inhabited Key] [Inhabited Value] in
theorem add_holds (hcomp : TotalPreorder comp) {input : List (Key × Value)}
    {s : LimitOneSorter Key Value} (h : Holds comp input s) (key : Key) (val : Value) :
    Holds comp (input ++ [(key, val)]) (s.add comp key val) := by
  have hpre := hcomp.isTotalPreorder
  unfold add
  dsimp only
  by_cases hdata : s.haveData = true
  · have hbest := h.best hdata
    rw [if_pos hdata]
    by_cases hle : comp s.best (key, val) ≤ 0
    · -- `_best` is not above the contender and stays the head
      rw [if_pos hle]
      exact ⟨by simp [hdata], fun _ =>
        head?_mergeSort_append_of_le hpre hbest (by simpa [le] using hle)⟩
    · rw [if_neg hle]
      exact ⟨by simp [hdata], fun _ =>
        head?_mergeSort_append_of_not_le hpre hbest (by simpa [le] using hle)⟩
  · -- the first pair
    rw [if_neg hdata]
    have hnil : input = [] := by
      simpa [hdata] using h.haveData
    subst hnil
    exact ⟨rfl, fun _ => by simp [stableSort]⟩

omit [Inhabited Key] [Inhabited Value] in
/-- `done()` returns the head of the stable sort of the input: its first least pair. -/
theorem done_holds {input : List (Key × Value)} {s : LimitOneSorter Key Value}
    (h : Holds comp input s) :
    s.done.drain comp (input.length + 1) = some ((stableSort comp input).take 1) := by
  unfold done
  split
  · next hdata =>
    have := h.best hdata
    rcases hs : stableSort comp input with _ | ⟨b, l⟩
    · simp [hs] at this
    · simp only [hs, List.head?_cons, Option.some.injEq] at this
      simp [SortIterator.drain, this]
  · next hdata =>
    have hnil : input = [] := by
      simpa [hdata] using h.haveData
    simp [SortIterator.drain, hnil, stableSort]

end LimitOneSorter

end Mongo.Sorting
