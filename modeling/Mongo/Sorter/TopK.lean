import Mongo.Sorter.Correct

/-! What `TopKSorter` returns. It drops a pair in three places: above the cutoff, at or above the
front of a full heap, and as the front evicted by a better pair. Each time, at least `limit` pairs
it keeps are at or below the dropped one (`Holds.dropped`). The cutoff is only ever set to a pair
with `limit` spilled pairs at or below it (`Counted`), which `updateCutoff` counts for
`_worstSeen` and `_lastMedian`. So the first `limit` pairs of the sort of what it keeps agree,
position by position up to equivalence, with the first `limit` pairs of the sort of the input
(`StableSort.forall₂_take_of_dropped`). -/

namespace Mongo.Sorting

open StableSort

variable {Key Value : Type}

namespace TopKSorter

variable {comp : Key × Value → Key × Value → Int} {keyMemUsage : Key → Nat}
  {valueMemUsage : Value → Nat} {opts : SortOptions}

/-- The pairs a `TopKSorter` keeps: in memory and spilled. -/
def kept (s : TopKSorter Key Value) : List (Key × Value) := s.data ++ s.iters.flatten

/-- The cutoff and the two candidates for it have at least as many spilled pairs `L` at or below
them as they claim: `limit` for the cutoff, and the counters for the candidates. -/
structure Counted (comp : Key × Value → Key × Value → Int) (L : List (Key × Value))
    (s : TopKSorter Key Value) : Prop where
  cutoff : s.haveCutoff → s.opts.limit ≤ countLE (le comp) s.cutoff L
  worst : s.worstCount ≤ countLE (le comp) s.worstSeen L
  median : s.medianCount ≤ countLE (le comp) s.lastMedian L

/-! ### `updateCutoff` -/

/-- The steps of `updateCutoff` change only the cutoff, the candidates and their counters. -/
def SameStore (s t : TopKSorter Key Value) : Prop :=
  t.opts = s.opts ∧ t.isDone = s.isDone ∧ t.memUsed = s.memUsed ∧ t.data = s.data ∧
    t.iters = s.iters

theorem SameStore.trans {s t u : TopKSorter Key Value} (h₁ : SameStore s t) (h₂ : SameStore t u) :
    SameStore s u := by
  obtain ⟨a₁, b₁, c₁, d₁, e₁⟩ := h₁
  obtain ⟨a₂, b₂, c₂, d₂, e₂⟩ := h₂
  exact ⟨a₂.trans a₁, b₂.trans b₁, c₂.trans c₁, d₂.trans d₁, e₂.trans e₁⟩

theorem promote_eq_or (comp : Key × Value → Key × Value → Int) (c : Key × Value)
    (s : TopKSorter Key Value) :
    promote comp c s = { s with cutoff := c, haveCutoff := true } ∨ promote comp c s = s := by
  unfold promote
  split
  · exact .inl rfl
  · exact .inr rfl

/-- A candidate with `limit` pairs at or below it keeps the cutoff counted when promoted. -/
theorem promote_cutoff {L : List (Key × Value)} {s : TopKSorter Key Value} {c : Key × Value}
    (hs : s.haveCutoff → s.opts.limit ≤ countLE (le comp) s.cutoff L)
    (hc : s.opts.limit ≤ countLE (le comp) c L) :
    (promote comp c s).haveCutoff → (promote comp c s).opts.limit ≤
      countLE (le comp) (promote comp c s).cutoff L := by
  rcases promote_eq_or comp c s with h | h <;> rw [h]
  · exact fun _ => hc
  · exact hs

theorem promoteWorstSeen_counted {L : List (Key × Value)} {s : TopKSorter Key Value}
    (hs : Counted comp L s) : Counted comp L (promoteWorstSeen comp s) := by
  unfold promoteWorstSeen
  split
  · next hK =>
    -- `limit` pairs are at or below `_worstSeen`
    have hc := promote_cutoff hs.cutoff (Nat.le_trans hK hs.worst)
    rcases promote_eq_or comp s.worstSeen s with h | h <;> rw [h] at hc ⊢
    · exact ⟨hc, by simp, hs.median⟩
    · exact ⟨hc, by simp, hs.median⟩
  · exact hs

theorem promoteLastMedian_counted {L : List (Key × Value)} {s : TopKSorter Key Value}
    (hs : Counted comp L s) : Counted comp L (promoteLastMedian comp s) := by
  unfold promoteLastMedian
  split
  · next hK =>
    -- `limit` pairs are at or below `_lastMedian`
    have hc := promote_cutoff hs.cutoff (Nat.le_trans hK hs.median)
    rcases promote_eq_or comp s.lastMedian s with h | h <;> rw [h] at hc ⊢
    · exact ⟨hc, hs.worst, by simp⟩
    · exact ⟨hc, hs.worst, by simp⟩
  · exact hs

theorem sort_eq (hcomp : TotalPreorder comp) (s : TopKSorter Key Value) :
    sort comp s = { s with data := stableSort comp s.data } := by
  unfold sort
  split
  · rw [sortHeap_eq hcomp]
  · rfl

variable [Inhabited Key] [Inhabited Value]

theorem sameStore_updateCutoff (comp : Key × Value → Key × Value → Int)
    (s : TopKSorter Key Value) : SameStore s (updateCutoff comp s) := by
  -- every step leaves the store alone
  have hpromote (c : Key × Value) (t : TopKSorter Key Value) : SameStore t (promote comp c t) := by
    rcases promote_eq_or comp c t with h | h <;> rw [h] <;> exact ⟨rfl, rfl, rfl, rfl, rfl⟩
  have hA : SameStore s (pickWorstSeen comp s) := by
    unfold pickWorstSeen; split <;> exact ⟨rfl, rfl, rfl, rfl, rfl⟩
  have hB (t : TopKSorter Key Value) : SameStore t (pickLastMedian t) := by
    unfold pickLastMedian; split <;> exact ⟨rfl, rfl, rfl, rfl, rfl⟩
  have hC (t : TopKSorter Key Value) : SameStore t (addCounts comp t) := ⟨rfl, rfl, rfl, rfl, rfl⟩
  have hD (t : TopKSorter Key Value) : SameStore t (promoteWorstSeen comp t) := by
    unfold promoteWorstSeen
    split
    · exact (hpromote _ t).trans ⟨rfl, rfl, rfl, rfl, rfl⟩
    · exact ⟨rfl, rfl, rfl, rfl, rfl⟩
  have hE (t : TopKSorter Key Value) : SameStore t (promoteLastMedian comp t) := by
    unfold promoteLastMedian
    split
    · exact (hpromote _ t).trans ⟨rfl, rfl, rfl, rfl, rfl⟩
    · exact ⟨rfl, rfl, rfl, rfl, rfl⟩
  exact (((hA.trans (hB _)).trans (hC _)).trans (hD _)).trans (hE _)

theorem pickLastMedian_spec (s : TopKSorter Key Value) :
    ∃ m, pickLastMedian s = { s with lastMedian := m } ∧ (s.medianCount = 0 ∨ m = s.lastMedian) := by
  unfold pickLastMedian
  split
  · next h => exact ⟨_, rfl, .inl h⟩
  · exact ⟨s.lastMedian, rfl, .inr rfl⟩

section Cutoff

variable (hcomp : TotalPreorder comp)
include hcomp

/-- The new `_worstSeen` is at or above the last pair, and at or above the old one unless the
count was reset. -/
theorem pickWorstSeen_spec (s : TopKSorter Key Value) :
    ∃ w, pickWorstSeen comp s = { s with worstSeen := w } ∧
      le comp (s.data.getLastD default) w ∧ (s.worstCount = 0 ∨ le comp s.worstSeen w) := by
  have hpre := hcomp.isTotalPreorder
  unfold pickWorstSeen
  split
  · next h =>
    refine ⟨_, rfl, hpre.refl _, ?_⟩
    simp only [Bool.or_eq_true, decide_eq_true_eq] at h
    rcases h with h | h
    · exact .inl h
    · exact .inr (by simp only [less, decide_eq_true_eq] at h; simp only [le, decide_eq_true_eq]; omega)
  · next h =>
    refine ⟨s.worstSeen, rfl, ?_, .inr (hpre.refl _)⟩
    simp only [Bool.or_eq_true, decide_eq_true_eq, not_or] at h
    rw [hcomp.le_iff_not_less]
    simpa using h.2

/-- `updateCutoff` on the sorted pairs about to be spilled: what it counts holds of the spilled
pairs with these added. -/
theorem updateCutoff_counted {L : List (Key × Value)} {s : TopKSorter Key Value}
    (hsorted : s.data.Pairwise (le comp · ·)) (hne : s.data ≠ []) (hs : Counted comp L s) :
    Counted comp (L ++ s.data) (updateCutoff comp s) := by
  have hpre := hcomp.isTotalPreorder
  obtain ⟨w, hA, hwlast, hwold⟩ := pickWorstSeen_spec hcomp s
  obtain ⟨m, hB, hmold⟩ := pickLastMedian_spec { s with worstSeen := w }
  dsimp only at hmold
  -- every pair about to be spilled is at or below the new `_worstSeen`
  have hall : ∀ y ∈ s.data, le comp y w := by
    intro y hy
    have hlast := le_getLast_of_pairwise hpre hsorted hne y hy
    rw [List.getLastD_eq_getLast?, List.getLast?_eq_some_getLast hne, Option.getD_some] at hwlast
    exact hpre.trans _ _ _ hlast hwlast
  have hworst : s.worstCount + s.data.length ≤ countLE (le comp) w (L ++ s.data) := by
    have hd : countLE (le comp) w s.data = s.data.length := List.countP_eq_length.mpr hall
    have hL : s.worstCount ≤ countLE (le comp) w L := by
      rcases hwold with h | h
      · omega
      · exact Nat.le_trans hs.worst (countLE_le_of_le hpre L h)
    rw [countLE_append]
    omega
  have hmedian : s.medianCount + upperBound (less comp) m s.data ≤
      countLE (le comp) m (L ++ s.data) := by
    have hd := upperBound_le_countLE hcomp m s.data
    have hL : s.medianCount ≤ countLE (le comp) m L := by
      rcases hmold with h | h
      · omega
      · exact h ▸ hs.median
    rw [countLE_append]
    omega
  have hC : Counted comp (L ++ s.data) (addCounts comp { s with worstSeen := w, lastMedian := m }) :=
    ⟨fun hc => Nat.le_trans (hs.cutoff hc) (by simp [addCounts]), hworst, hmedian⟩
  unfold updateCutoff
  rw [hA, hB]
  exact promoteLastMedian_counted (promoteWorstSeen_counted hC)

/-- What `spill()` does before it writes the run: `_data` sorted, and the cutoff updated with it
counted. -/
theorem sort_updateCutoff {s : TopKSorter Key Value} (hne : s.data ≠ [])
    (hc : Counted comp s.iters.flatten s) :
    (updateCutoff comp (sort comp s)).opts = s.opts ∧
      (updateCutoff comp (sort comp s)).isDone = s.isDone ∧
      (updateCutoff comp (sort comp s)).data = stableSort comp s.data ∧
      (updateCutoff comp (sort comp s)).iters = s.iters ∧
      Counted comp (s.iters.flatten ++ stableSort comp s.data) (updateCutoff comp (sort comp s)) := by
  obtain ⟨hopts, hdone, -, hdata, hiters⟩ := sameStore_updateCutoff comp (sort comp s)
  rw [sort_eq hcomp] at hopts hdone hdata hiters ⊢
  have hsne : stableSort comp s.data ≠ [] := by
    intro hnil
    have hp := stableSort_perm comp s.data
    rw [hnil] at hp
    exact hne hp.nil_eq.symm
  exact ⟨hopts, hdone, hdata, hiters, updateCutoff_counted hcomp
    (s := { s with data := stableSort comp s.data }) (stableSort_pairwise hcomp s.data) hsne
    ⟨hc.cutoff, hc.worst, hc.median⟩⟩

end Cutoff

/-! ### The invariant -/

/-- What a `TopKSorter` holds after `input` was added. -/
structure Holds (comp : Key × Value → Key × Value → Int) (opts : SortOptions)
    (input : List (Key × Value)) (s : TopKSorter Key Value) : Prop where
  opts_eq : s.opts = opts
  not_done : s.isDone = false
  length_le : s.data.length ≤ opts.limit
  /-- A full `_data` is a heap: its front is a greatest pair. -/
  front : s.data.length = opts.limit → ∀ y ∈ s.data, le comp y (s.data.headD default)
  sorted : ∀ r ∈ s.iters, r.Pairwise (le comp · ·)
  /-- Every pair dropped has `limit` kept pairs at or below it. -/
  dropped : Dropped (le comp) opts.limit input s.kept
  counted : Counted comp s.iters.flatten s

theorem holds_init (opts : SortOptions) :
    Holds comp opts [] (init opts : TopKSorter Key Value) where
  opts_eq := rfl
  not_done := rfl
  length_le := by simp [init]
  front := by simp [init]
  sorted := by simp [init]
  dropped := dropped_nil _
  counted := ⟨by simp [init], by simp [init], by simp [init]⟩

section Steps

variable (hcomp : TotalPreorder comp)
include hcomp

/-- A spill allowed to go to disk moves the pairs in memory into a sorted run. -/
theorem spill_holds (hext : opts.extSortAllowed = true) {input : List (Key × Value)}
    {s : TopKSorter Key Value} (h : Holds comp opts input s) :
    ∃ s', s.spill comp = .ok s' ∧ Holds comp opts input s' ∧ s'.data = [] := by
  unfold spill
  rw [if_neg (by simp [h.not_done])]
  by_cases hdata : s.data.isEmpty
  · exact ⟨s, by rw [if_pos hdata], h, List.isEmpty_iff.mp hdata⟩
  rw [if_neg hdata, if_neg (by simp [h.opts_eq, hext])]
  have hne : s.data ≠ [] := fun h' => hdata (List.isEmpty_iff.mpr h')
  obtain ⟨hopts, hdone, hudata, hiters, hcounted⟩ := sort_updateCutoff hcomp hne h.counted
  set u := updateCutoff comp (sort comp s)
  refine ⟨_, rfl, ?_, rfl⟩
  -- the run written is `_data` sorted
  have hkept : (kept { u with iters := u.iters ++ [u.data], data := [], memUsed := 0 }).Perm
      s.kept := by
    simp only [kept, hiters, hudata, List.nil_append, List.flatten_append, List.flatten_singleton]
    exact List.perm_append_comm.trans ((stableSort_perm comp s.data).append_right _)
  refine ⟨hopts.trans h.opts_eq, hdone.trans h.not_done, by simp, by simp, ?_, ?_, ?_⟩
  · intro r hr
    simp only [hiters, hudata, List.mem_append, List.mem_singleton] at hr
    rcases hr with hr | rfl
    · exact h.sorted r hr
    · exact stableSort_pairwise hcomp s.data
  · exact h.dropped.perm hkept.symm
  · have hflat : (u.iters ++ [u.data]).flatten = s.iters.flatten ++ stableSort comp s.data := by
      simp [hiters, hudata]
    exact ⟨fun hc => hflat ▸ hcounted.cutoff hc, hflat ▸ hcounted.worst, hflat ▸ hcounted.median⟩

/-- A spill when the memory use passes the bound, as `add()` ends. -/
theorem spillIfOver_holds (hext : opts.extSortAllowed = true) {input : List (Key × Value)}
    {t : TopKSorter Key Value} (h : Holds comp opts input t) :
    ∃ s', (if t.opts.maxMemoryUsageBytes < t.memUsed then t.spill comp else .ok t) = .ok s' ∧
      Holds comp opts input s' := by
  split
  · obtain ⟨s', hs', h', -⟩ := spill_holds hcomp hext h
    exact ⟨s', hs', h'⟩
  · exact ⟨t, rfl, h⟩

omit hcomp in
/-- A step of `add()` that changes only `_data` and `_memUsed` keeps the invariant when the new
`_data` fits, is a heap when full, and accounts with the runs for the input. -/
theorem withData_holds {input input' : List (Key × Value)} {s : TopKSorter Key Value}
    (h : Holds comp opts input s) (d : List (Key × Value)) (mem : Nat)
    (hlen : d.length ≤ opts.limit)
    (hfront : d.length = opts.limit → ∀ y ∈ d, le comp y (d.headD default))
    (hdrop : Dropped (le comp) opts.limit input' (d ++ s.iters.flatten)) :
    Holds comp opts input' { s with data := d, memUsed := mem } :=
  ⟨h.opts_eq, h.not_done, hlen, hfront, h.sorted, hdrop,
    ⟨h.counted.cutoff, h.counted.worst, h.counted.median⟩⟩

omit hcomp in
theorem Holds.drop {input : List (Key × Value)} {s : TopKSorter Key Value}
    (h : Holds comp opts input s) {c : Key × Value} (hc : opts.limit ≤ countLE (le comp) c s.kept) :
    Holds comp opts (input ++ [c]) s :=
  { h with dropped := h.dropped.drop hc }

/-- A contender not below the cutoff has `limit` spilled pairs at or below it. -/
theorem limit_le_countLE_of_cutoff {input : List (Key × Value)} {s : TopKSorter Key Value}
    (h : Holds comp opts input s) (hcut : s.haveCutoff = true) {c : Key × Value}
    (hc : less comp c s.cutoff = false) : opts.limit ≤ countLE (le comp) c s.kept := by
  have hpre := hcomp.isTotalPreorder
  have hle : le comp s.cutoff c := by rw [hcomp.le_iff_not_less, hc]; rfl
  calc opts.limit
    _ ≤ countLE (le comp) s.cutoff s.iters.flatten := h.opts_eq ▸ h.counted.cutoff hcut
    _ ≤ countLE (le comp) s.cutoff s.kept := by rw [kept, countLE_append]; omega
    _ ≤ countLE (le comp) c s.kept := countLE_le_of_le hpre _ hle

/-- A contender not below the front of a full heap has all of `_data` at or below it. -/
theorem limit_le_countLE_of_front {input : List (Key × Value)} {s : TopKSorter Key Value}
    (h : Holds comp opts input s) (hfull : s.data.length = opts.limit) {c : Key × Value}
    (hc : less comp c (s.data.headD default) = false) : opts.limit ≤ countLE (le comp) c s.kept := by
  have hpre := hcomp.isTotalPreorder
  have hfc : le comp (s.data.headD default) c := by rw [hcomp.le_iff_not_less, hc]; rfl
  have hall : ∀ y ∈ s.data, le comp y c := fun y hy => hpre.trans _ _ _ (h.front hfull y hy) hfc
  have hd : countLE (le comp) c s.data = s.data.length := List.countP_eq_length.mpr hall
  rw [kept, countLE_append]
  omega

/-- The contender pushed onto a `_data` that is not full, made a heap when that fills it. -/
theorem push_holds {input : List (Key × Value)} {s : TopKSorter Key Value}
    (h : Holds comp opts input s) (hlt : s.data.length < opts.limit) (c : Key × Value) (mem : Nat) :
    Holds comp opts (input ++ [c])
      (if (s.data ++ [c]).length = s.opts.limit then
        { s with data := makeHeap (less comp) (s.data ++ [c]), memUsed := mem }
      else { s with data := s.data ++ [c], memUsed := mem }) := by
  have hkeep : Dropped (le comp) opts.limit (input ++ [c]) (s.data ++ [c] ++ s.iters.flatten) := by
    refine (h.dropped.keep c).perm ?_
    simp only [kept, List.append_assoc]
    exact List.perm_append_comm.append_left s.data
  by_cases hfull : (s.data ++ [c]).length = s.opts.limit
  · rw [if_pos hfull]
    rw [h.opts_eq] at hfull
    have hperm := makeHeap_perm (less comp) (s.data ++ [c])
    exact withData_holds h _ mem (hperm.length_eq ▸ Nat.le_of_eq hfull)
      (fun _ => le_headD_makeHeap hcomp _ _) (hkeep.perm (hperm.symm.append_right _))
  · rw [if_neg hfull]
    rw [h.opts_eq] at hfull
    exact withData_holds h _ mem (by simp only [List.length_append, List.length_singleton]; omega)
      (fun h' => absurd h' hfull) hkeep

/-- The contender replaces the front of a full heap that is above it. -/
theorem replace_holds (hlimit : 0 < opts.limit) {input : List (Key × Value)}
    {s : TopKSorter Key Value} (h : Holds comp opts input s) (hfull : s.data.length = opts.limit)
    {c : Key × Value} (hless : less comp c (s.data.headD default) = true) (mem : Nat) :
    Holds comp opts (input ++ [c])
      { s with data := replaceTop (less comp) s.data c, memUsed := mem } := by
  have hpre := hcomp.isTotalPreorder
  obtain ⟨f, tail, hft⟩ : ∃ f tail, s.data = f :: tail :=
    List.exists_cons_of_ne_nil fun hnil => by rw [hnil] at hfull; simp at hfull; omega
  have hperm : (replaceTop (less comp) s.data c).Perm (c :: tail) :=
    (replaceTop_perm (less comp) s.data c).trans (by rw [hft]; exact .refl _)
  rw [hft] at hless hfull
  have hcf : le comp c f := by
    have hlt : comp c f < 0 := of_decide_eq_true hless
    simp only [le, decide_eq_true_eq]
    omega
  -- after the swap every pair of `_data` is at or below the evicted front
  have hall : ∀ y ∈ c :: tail, le comp y f := by
    intro y hy
    rcases List.mem_cons.mp hy with rfl | hy
    · exact hcf
    · have := h.front (hft ▸ hfull) y (hft ▸ List.mem_cons_of_mem f hy)
      rwa [hft] at this
  have hf : opts.limit ≤ countLE (le comp) f (c :: (tail ++ s.iters.flatten)) := by
    have hd : countLE (le comp) f (c :: tail) = (c :: tail).length := List.countP_eq_length.mpr hall
    rw [← List.cons_append, countLE_append, hd]
    simp only [List.length_cons] at hfull ⊢
    omega
  have hdrop : Dropped (le comp) opts.limit input (f :: (tail ++ s.iters.flatten)) := by
    have := h.dropped
    rwa [kept, hft] at this
  refine withData_holds h _ mem ?_ (fun _ => le_headD_makeHeap hcomp _ _)
    ((hdrop.replace hpre hcf hf).perm (hperm.symm.append_right _))
  rw [hperm.length_eq, ← hfull]
  simp

/-- `add()` keeps the invariant; it never fails while the invariant holds. -/
theorem add_holds (hext : opts.extSortAllowed = true) (hlimit : 0 < opts.limit)
    {input : List (Key × Value)} {s : TopKSorter Key Value} (h : Holds comp opts input s)
    (key : Key) (val : Value) :
    ∃ s', s.add comp keyMemUsage valueMemUsage key val = .ok s' ∧
      Holds comp opts (input ++ [(key, val)]) s' := by
  unfold add
  rw [if_neg (by simp [h.not_done])]
  dsimp only
  by_cases hlt : s.data.length < s.opts.limit
  · rw [if_pos hlt]
    by_cases hcut : (s.haveCutoff && !less comp (key, val) s.cutoff) = true
    · -- not below the cutoff: dropped
      rw [if_pos hcut]
      simp only [Bool.and_eq_true, Bool.not_eq_eq_eq_not, Bool.not_true] at hcut
      exact ⟨s, rfl, h.drop (limit_le_countLE_of_cutoff hcomp h hcut.1 hcut.2)⟩
    · rw [if_neg hcut]
      exact spillIfOver_holds hcomp hext (push_holds hcomp h (h.opts_eq ▸ hlt) (key, val) _)
  · -- `_data` is full: the `verify` holds
    have hfull : s.data.length = opts.limit := by
      have := h.length_le
      rw [h.opts_eq] at hlt
      omega
    rw [if_neg hlt, if_neg (by simp [h.opts_eq, hfull])]
    by_cases hfront : (!less comp (key, val) (s.data.headD default)) = true
    · -- not below the front: dropped
      rw [if_pos hfront]
      simp only [Bool.not_eq_eq_eq_not, Bool.not_true] at hfront
      exact ⟨s, rfl, h.drop (limit_le_countLE_of_front hcomp h hfull hfront)⟩
    · rw [if_neg hfront]
      simp only [Bool.not_eq_true', Bool.not_eq_false] at hfront
      exact spillIfOver_holds hcomp hext (replace_holds hcomp hlimit h hfull hfront _)

omit [Inhabited Key] [Inhabited Value] in
/-- The first `k` pairs of the sort of what is kept, when every pair dropped has `k` kept ones at
or below it: drawn from the input, sorted, and equivalent position by position to the first `k`
pairs of the sort of the input. -/
theorem take_stableSort_of_dropped {k : Nat} {input K : List (Key × Value)}
    (h : Dropped (le comp) k input K) :
    ((stableSort comp K).take k).Subperm input ∧
      ((stableSort comp K).take k).Pairwise (le comp · ·) ∧
      List.Forall₂ (fun a b => comp a b = 0) ((stableSort comp K).take k)
        ((stableSort comp input).take k) := by
  have hpre := hcomp.isTotalPreorder
  obtain ⟨D, hI, hD⟩ := h
  refine ⟨(List.take_sublist k _).subperm.trans
      ((stableSort_perm comp K).subperm.trans (Dropped.subperm ⟨D, hI, hD⟩)),
    (stableSort_pairwise hcomp K).sublist (List.take_sublist k _), ?_⟩
  -- equivalence under the preorder is a zero comparison
  exact (forall₂_take_of_dropped hpre k (stableSort_pairwise hcomp K) (stableSort_perm comp K)
    (stableSort_pairwise hcomp input) (stableSort_perm comp input) hI hD).imp
    fun a b hab => (hcomp.equiv_iff a b).mp hab

/-- `done()` returns pairs of the input, sorted, that agree position by position up to
equivalence with the first `limit` pairs of the stable sort of the input. -/
theorem done_holds (hext : opts.extSortAllowed = true) (hlimit : 0 < opts.limit)
    {input : List (Key × Value)} {s : TopKSorter Key Value} (h : Holds comp opts input s) :
    ∃ it, s.done comp = .ok it ∧ ∃ out, it.drain comp (input.length + 1) = some out ∧
      out.Subperm input ∧ out.Pairwise (le comp · ·) ∧
      List.Forall₂ (fun a b => comp a b = 0) out ((stableSort comp input).take opts.limit) := by
  unfold done
  by_cases hiters : s.iters.isEmpty
  · -- nothing was spilled: `_data` holds at most `limit` pairs and is sorted whole
    rw [if_pos hiters]
    have hkept : s.kept = s.data := by simp [kept, List.isEmpty_iff.mp hiters]
    have hlen : (stableSort comp s.data).length ≤ opts.limit := by
      rw [(stableSort_perm comp s.data).length_eq]
      exact h.length_le
    refine ⟨_, rfl, _, rfl, ?_⟩
    rw [sort_eq hcomp]
    have := take_stableSort_of_dropped hcomp (hkept ▸ h.dropped)
    rwa [List.take_of_length_le hlen] at this
  · -- the pairs in memory are spilled as a last run and the runs merged
    rw [if_neg hiters]
    obtain ⟨s', hs', h', hdata'⟩ := spill_holds hcomp hext h
    have hkept : s'.kept = s'.iters.flatten := by simp [kept, hdata']
    have hfuel : s'.iters.flatten.length < input.length + 1 :=
      Nat.lt_succ_of_le (hkept ▸ h'.dropped.subperm.length_le)
    refine ⟨.merge (MergeIterator.make comp s'.opts s'.iters), by rw [hs']; rfl, _,
      drain_make hcomp _ _ h'.sorted hfuel, ?_⟩
    rw [takeLimit, h'.opts_eq, if_neg (Nat.pos_iff_ne_zero.mp hlimit)]
    exact take_stableSort_of_dropped hcomp (hkept ▸ h'.dropped)

end Steps

end TopKSorter

end Mongo.Sorting
