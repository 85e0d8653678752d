import Mongo.Sorter.TopK

/-! The sorter `Sorter::make` picks for the options, carried over every `add()` of an input and
read back after `done()`. Each kind keeps its own invariant (`NoLimitSorter.Holds`,
`LimitOneSorter.Holds`, `TopKSorter.Holds`); `Sorter.Holds` dispatches on the kind, `add_holds`
is the step and `addAll_holds` the run. -/

namespace Mongo.Sorting

open StableSort

variable {Key Value : Type}
  {comp : Key × Value → Key × Value → Int} {keyMemUsage : Key → Nat} {valueMemUsage : Value → Nat}
  {opts : SortOptions}

/-- The head of the stable sort: nothing for no input, else the first minimal pair, strictly
below every pair before it and not above any after it. -/
theorem take_one_stableSort (hcomp : TotalPreorder comp) (input : List (Key × Value)) :
    (input = [] ∧ (stableSort comp input).take 1 = []) ∨
      ∃ A x B, input = A ++ x :: B ∧ (∀ a ∈ A, comp x a < 0) ∧ (∀ b ∈ B, comp x b ≤ 0) ∧
        (stableSort comp input).take 1 = [x] := by
  by_cases hne : input = []
  · subst hne
    exact .inl ⟨rfl, by simp [stableSort]⟩
  · obtain ⟨A, x, B, hin, hA, hB, hhead⟩ := head?_mergeSort hcomp.isTotalPreorder hne
    refine .inr ⟨A, x, B, hin, fun a ha => ?_, fun b hb => ?_, ?_⟩
    · -- `x` is not above `a` and `a` is not at or below `x`
      have hax : ¬ comp a x ≤ 0 := by simpa [le] using hA a ha
      exact (hcomp.neg_iff x a).mpr (by omega)
    · simpa [le] using hB b hb
    · rw [List.take_one, stableSort, hhead]
      rfl

/-- A sorted list in the sense of `le` is non-decreasing under the comparator. -/
theorem pairwise_comp_of_le {l : List (Key × Value)} (h : l.Pairwise (le comp · ·)) :
    l.Pairwise (fun a b => comp a b ≤ 0) :=
  h.imp fun hab => of_decide_eq_true hab

namespace Sorter

variable [Inhabited Key] [Inhabited Value]

/-- What the sorter for `opts` holds after `input` was added: the limit of its kind, and its
kind's invariant. -/
def Holds (comp : Key × Value → Key × Value → Int) (opts : SortOptions)
    (input : List (Key × Value)) : Sorter Key Value → Prop
  | .noLimit s => opts.limit = 0 ∧ NoLimitSorter.Holds comp opts input s
  | .limitOne s => opts.limit = 1 ∧ LimitOneSorter.Holds comp input s
  | .topK s => 1 < opts.limit ∧ TopKSorter.Holds comp opts input s

/-- The sorter `Sorter::make` returns holds nothing yet. -/
theorem make_holds {s : Sorter Key Value} (h : make opts = .ok s) : Holds comp opts [] s := by
  unfold make at h
  split at h
  · cases h
  · split at h
    · next hl =>
      cases h
      exact ⟨hl, NoLimitSorter.holds_init opts⟩
    · next hl =>
      cases h
      exact ⟨hl, LimitOneSorter.holds_init⟩
    · next hl₀ hl₁ =>
      cases h
      have h₀ : opts.limit ≠ 0 := hl₀
      have h₁ : opts.limit ≠ 1 := hl₁
      exact ⟨by omega, TopKSorter.holds_init opts⟩

section Run

variable (hcomp : TotalPreorder comp) (hext : opts.extSortAllowed = true)
include hcomp hext

/-- `Sorter::add` keeps the invariant and never fails while it holds. -/
theorem add_holds {input : List (Key × Value)} {s : Sorter Key Value} (h : Holds comp opts input s)
    (key : Key) (val : Value) :
    ∃ s', s.add comp keyMemUsage valueMemUsage key val = .ok s' ∧
      Holds comp opts (input ++ [(key, val)]) s' := by
  cases s with
  | noLimit s =>
    obtain ⟨hl, h⟩ := h
    obtain ⟨s', hs', h'⟩ : ∃ s', s.add comp keyMemUsage valueMemUsage key val = .ok s' ∧ _ :=
      NoLimitSorter.add_holds hext h key val
    exact ⟨.noLimit s', by simp [add, hs'], hl, h'⟩
  | limitOne s =>
    obtain ⟨hl, h⟩ := h
    exact ⟨.limitOne (s.add comp key val), rfl, hl, LimitOneSorter.add_holds hcomp h key val⟩
  | topK s =>
    obtain ⟨hl, h⟩ := h
    obtain ⟨s', hs', h'⟩ : ∃ s', s.add comp keyMemUsage valueMemUsage key val = .ok s' ∧ _ :=
      TopKSorter.add_holds hcomp hext (by omega) h key val
    exact ⟨.topK s', by simp [add, hs'], hl, h'⟩

/-- Every pair of an input added in order: the run never fails, and the invariant holds of all
that was added. -/
theorem addAll_holds (input : List (Key × Value)) :
    ∀ {pre : List (Key × Value)} {s : Sorter Key Value}, Holds comp opts pre s →
      ∃ s', s.addAll comp keyMemUsage valueMemUsage input = .ok s' ∧
        Holds comp opts (pre ++ input) s' := by
  induction input with
  | nil => exact fun h => ⟨_, rfl, by simpa using h⟩
  | cons kv input ih =>
    intro pre s h
    obtain ⟨t, ht, ht'⟩ := add_holds hcomp hext h kv.1 kv.2
    obtain ⟨s', hs', h'⟩ := ih ht'
    refine ⟨s', ?_, by simpa using h'⟩
    rw [addAll, List.foldlM_cons, ht]
    exact hs'

end Run

/-- The external sorter returns a sorted result however it spilled: after `add()` of every pair
of `input` and `done()`, the iterator, read to its end, returns the stable sort of `input` for
limit `0`; its first minimal pair, or nothing for no input, for limit `1`; and for a limit
above `1`, as many pairs as the limit allows, drawn from `input`, non-decreasing, and equivalent
position by position to the first pairs of the stable sort of `input`. -/
theorem done_addAll_sorted (hcomp : TotalPreorder comp) (hext : opts.extSortAllowed = true)
    {s : Sorter Key Value} (hmake : make opts = .ok s) (input : List (Key × Value)) :
    ∃ it, (s.addAll comp keyMemUsage valueMemUsage input >>= done comp) = .ok it ∧
      (opts.limit = 0 → it.drain comp (input.length + 1) = some (stableSort comp input)) ∧
      (opts.limit = 1 →
        (input = [] ∧ it.drain comp (input.length + 1) = some []) ∨
        ∃ A x B, input = A ++ x :: B ∧ (∀ a ∈ A, comp x a < 0) ∧ (∀ b ∈ B, comp x b ≤ 0) ∧
          it.drain comp (input.length + 1) = some [x]) ∧
      (1 < opts.limit → ∃ out, it.drain comp (input.length + 1) = some out ∧
        out.length = min opts.limit input.length ∧ out.Subperm input ∧
        out.Pairwise (fun a b => comp a b ≤ 0) ∧
        List.Forall₂ (fun a b => comp a b = 0) out ((stableSort comp input).take opts.limit)) := by
  obtain ⟨s', hs', h⟩ : ∃ s', s.addAll comp keyMemUsage valueMemUsage input = .ok s' ∧
      Holds comp opts ([] ++ input) s' :=
    addAll_holds hcomp hext input (make_holds hmake)
  rw [List.nil_append] at h
  rw [hs']
  cases s' with
  | noLimit s' =>
    obtain ⟨hl, h⟩ := h
    obtain ⟨it, hit, hdrain⟩ := NoLimitSorter.done_holds hcomp hext hl h
    exact ⟨it, hit, fun _ => hdrain, fun h1 => absurd (hl.symm.trans h1) (by decide),
      fun h1 => absurd h1 (by omega)⟩
  | limitOne s' =>
    obtain ⟨hl, h⟩ := h
    have hdrain := LimitOneSorter.done_holds h
    refine ⟨_, rfl, fun h0 => absurd (hl.symm.trans h0) (by decide), fun _ => ?_,
      fun h1 => absurd h1 (by omega)⟩
    rcases take_one_stableSort hcomp input with ⟨hnil, htake⟩ | ⟨A, x, B, hin, hA, hB, htake⟩
    · exact .inl ⟨hnil, htake ▸ hdrain⟩
    · exact .inr ⟨A, x, B, hin, hA, hB, htake ▸ hdrain⟩
  | topK s' =>
    obtain ⟨hl, h⟩ := h
    obtain ⟨it, hit, out, hdrain, hsub, hsorted, hequiv⟩ :=
      TopKSorter.done_holds hcomp hext (by omega) h
    refine ⟨it, hit, fun h0 => absurd h0 (by omega), fun h1 => absurd h1 (by omega),
      fun _ => ⟨out, hdrain, ?_, hsub, pairwise_comp_of_le hsorted, hequiv⟩⟩
    rw [hequiv.length_eq, List.length_take, (stableSort_perm comp input).length_eq]

/-- Pairs of numbers compared by their first component. -/
def byKey (p q : Nat × Nat) : Int := (p.1 : Int) - q.1

theorem byKey_totalPreorder : TotalPreorder byKey where
  neg_iff a b := by simp only [byKey]; omega
  le_trans a b c := by simp only [byKey]; omega

/-- The two least, spilling at every pair. -/
def topTwo : SortOptions := ⟨2, 0, true, "/tmp"⟩

theorem done_addAll_sorted_topTwo :
    ∃ it, ((Sorter.topK (TopKSorter.init topTwo)).addAll byKey (fun _ => 8) (fun _ => 8)
        [(3, 0), (1, 1), (2, 2)] >>= done byKey) = .ok it ∧
      ∃ out, it.drain byKey 4 = some out ∧ out.length = 2 ∧
        out.Subperm [(3, 0), (1, 1), (2, 2)] := by
  have h : ∃ it, ((Sorter.topK (TopKSorter.init topTwo)).addAll byKey (fun _ => 8) (fun _ => 8)
      [(3, 0), (1, 1), (2, 2)] >>= done byKey) = .ok it ∧ _ :=
    done_addAll_sorted byKey_totalPreorder (rfl : topTwo.extSortAllowed = true)
      (by rfl : make topTwo = .ok (.topK (TopKSorter.init topTwo))) [(3, 0), (1, 1), (2, 2)]
  obtain ⟨it, hit, -, -, htop⟩ := h
  obtain ⟨out, hdrain, hlen, hsub, -⟩ := htop (by decide)
  exact ⟨it, hit, out, hdrain, hlen, hsub⟩

end Sorter

end Mongo.Sorting
