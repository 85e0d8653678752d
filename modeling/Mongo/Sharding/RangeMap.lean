import Mathlib

/-! Ranges `[min, max)` of shard keys held in a `std::map` keyed by `min` (`RangeMap` of
`db/s/collection_metadata.h`), over any linear order of keys. The lookup that
`getNextOrphanRange` makes is `upper_bound(k)` and the range before it. On ranges that are
non-empty and pairwise disjoint, the range before `upper_bound(k)` is the only one that can
hold `k`. -/

namespace Mongo.Sharding

variable {α : Type*} [LinearOrder α]

/-- A `RangeMap`: ranges `[min, max)` keyed by `min`, in key order. -/
structure RangeMap (α : Type*) [LinearOrder α] where
  entries : List (α × α)
  sorted : entries.Pairwise (fun a b => a.1 < b.1)

namespace RangeMap

/-- `k` lies in one of the ranges. -/
def Covers (map : RangeMap α) (k : α) : Prop := ∃ r ∈ map.entries, r.1 ≤ k ∧ k < r.2

/-- The ranges are non-empty and no key lies in two of them. -/
structure Disjoint (map : RangeMap α) : Prop where
  nonempty : ∀ r ∈ map.entries, r.1 < r.2
  disjoint : ∀ a ∈ map.entries, ∀ b ∈ map.entries, a ≠ b →
    ∀ k, ¬ ((a.1 ≤ k ∧ k < a.2) ∧ (b.1 ≤ k ∧ k < b.2))

/-- In key order, disjoint ranges end before the next one starts. -/
theorem Disjoint.pairwise {map : RangeMap α} (h : map.Disjoint) :
    map.entries.Pairwise (fun a b => a.2 ≤ b.1) := by
  apply map.sorted.imp_of_mem
  intro a b ha hb hab
  by_contra hlt
  -- otherwise `b.1` lies in both ranges
  exact h.disjoint a ha b hb (fun he => (he ▸ hab).false) b.1
    ⟨⟨hab.le, lt_of_not_ge hlt⟩, le_rfl, h.nonempty b hb⟩

/-- Ranges that are non-empty and, in key order, end before the next starts are disjoint. -/
theorem Disjoint.of_pairwise {map : RangeMap α} (hne : ∀ r ∈ map.entries, r.1 < r.2)
    (hp : map.entries.Pairwise (fun a b => a.2 ≤ b.1)) : map.Disjoint := by
  refine ⟨hne, ?_⟩
  have key : ∀ {l : List (α × α)}, l.Pairwise (fun a b => a.2 ≤ b.1) →
      ∀ a ∈ l, ∀ b ∈ l, a ≠ b → a.2 ≤ b.1 ∨ b.2 ≤ a.1 := by
    intro l hl
    induction hl with
    | nil => simp
    | @cons r rs hr _ ih =>
      intro a ha b hb hab
      rcases List.mem_cons.mp ha with rfl | ha'
      · rcases List.mem_cons.mp hb with rfl | hb'
        · exact absurd rfl hab
        · exact .inl (hr b hb')
      · rcases List.mem_cons.mp hb with rfl | hb'
        · exact .inr (hr a ha')
        · exact ih a ha' b hb' hab
  rintro a ha b hb hab k ⟨⟨hak, hka⟩, hbk, hkb⟩
  rcases key hp a ha b hb hab with h | h
  · exact absurd (hka.trans_le h) (not_lt.mpr hbk)
  · exact absurd (hkb.trans_le h) (not_lt.mpr hak)

/-- `upper_bound(k)` and the range before it (`end` when `upper_bound(k)` is the first range),
from a scan of the ranges in key order; `prev` is the last range scanned. -/
def lowerUpper (k : α) : List (α × α) → Option (α × α) → Option (α × α) × Option (α × α)
  | [], prev => (prev, none)
  | r :: rs, prev => if k < r.1 then (prev, some r) else lowerUpper k rs (some r)

section LowerUpper

variable {k : α}

/-- `upper_bound(k)` is the first range that starts above `k`, or `end` when none does. -/
theorem lowerUpper_snd (prev : Option (α × α)) :
    ∀ {l : List (α × α)}, l.Pairwise (fun a b => a.1 < b.1) →
      ((lowerUpper k l prev).2 = none ∧ ∀ r ∈ l, r.1 ≤ k) ∨
        ∃ u ∈ l, (lowerUpper k l prev).2 = some u ∧ k < u.1 ∧ ∀ r ∈ l, k < r.1 → u.1 ≤ r.1
  | [], _ => .inl ⟨rfl, by simp⟩
  | r :: rs, hs => by
    obtain ⟨hr, hrs⟩ := List.pairwise_cons.mp hs
    unfold lowerUpper
    split_ifs with hk
    · -- `r` is the first range above `k`, and all later ones start above `r`
      refine .inr ⟨r, List.mem_cons_self, rfl, hk, ?_⟩
      intro r' hr' _
      rcases List.mem_cons.mp hr' with rfl | hr'
      · exact le_rfl
      · exact (hr r' hr').le
    · rcases lowerUpper_snd (some r) hrs with ⟨hnone, hall⟩ | ⟨u, hu, hsome, hku, hmin⟩
      · refine .inl ⟨hnone, ?_⟩
        intro r' hr'
        rcases List.mem_cons.mp hr' with rfl | hr'
        · exact le_of_not_gt hk
        · exact hall r' hr'
      · refine .inr ⟨u, List.mem_cons_of_mem r hu, hsome, hku, ?_⟩
        intro r' hr' hkr'
        rcases List.mem_cons.mp hr' with rfl | hr'
        · exact absurd hkr' hk
        · exact hmin r' hr' hkr'

/-- The range before `upper_bound(k)` is the last one starting at or below `k`; disjoint ranges
that start at or below `k` other than it end before it starts. -/
theorem lowerUpper_fst (prev : Option (α × α)) :
    ∀ {l : List (α × α)}, l.Pairwise (fun a b => a.1 < b.1) →
      l.Pairwise (fun a b => a.2 ≤ b.1) →
      ((lowerUpper k l prev).1 = prev ∧ ∀ r ∈ l, k < r.1) ∨
        ∃ lo ∈ l, (lowerUpper k l prev).1 = some lo ∧ lo.1 ≤ k ∧
          ∀ r ∈ l, r.1 ≤ k → r = lo ∨ r.2 ≤ lo.1
  | [], _, _ => .inl ⟨rfl, by simp⟩
  | r :: rs, hs, hd => by
    obtain ⟨hr, hrs⟩ := List.pairwise_cons.mp hs
    obtain ⟨hdr, hdrs⟩ := List.pairwise_cons.mp hd
    unfold lowerUpper
    split_ifs with hk
    · refine .inl ⟨rfl, ?_⟩
      intro r' hr'
      rcases List.mem_cons.mp hr' with rfl | hr'
      · exact hk
      · exact hk.trans (hr r' hr')
    · have hrk : r.1 ≤ k := le_of_not_gt hk
      rcases lowerUpper_fst (some r) hrs hdrs with ⟨hprev, hall⟩ | ⟨lo, hlo, hsome, hlok, hbefore⟩
      · -- no later range starts at or below `k`: the range before `upper_bound(k)` is `r`
        refine .inr ⟨r, List.mem_cons_self, hprev, hrk, ?_⟩
        intro r' hr' hr'k
        rcases List.mem_cons.mp hr' with rfl | hr'
        · exact .inl rfl
        · exact absurd (hall r' hr') (not_lt.mpr hr'k)
      · refine .inr ⟨lo, List.mem_cons_of_mem r hlo, hsome, hlok, ?_⟩
        intro r' hr' hr'k
        rcases List.mem_cons.mp hr' with rfl | hr'
        · exact .inr (hdr lo hlo)
        · exact hbefore r' hr' hr'k

end LowerUpper

/-- `patchLookupKey` of `getNextOrphanRange`: when the range before `upper_bound(lookupKey)`
holds `lookupKey`, the key to continue from, its end (`inl`); otherwise the two iterators
(`inr`, with `none` for `end`). -/
def patchLookupKey (map : RangeMap α) (lookupKey : α) :
    α ⊕ (Option (α × α) × Option (α × α)) :=
  let its := if map.entries.isEmpty then (none, none) else lowerUpper lookupKey map.entries none
  match its.1 with
  | some r => if lookupKey < r.2 then .inl r.2 else .inr its
  -- if we overlap, continue after the overlap
  | none => .inr its

/-- `patchArgRange` of `getNextOrphanRange`: the bounds of `[rangeMin, rangeMax)` moved in to the
end of the range before the lookup key and to the start of the range after it. -/
def patchArgRange (its : Option (α × α) × Option (α × α)) (range : α × α) : α × α :=
  let rangeMin := match its.1 with
    | some r => if range.1 < r.2 then r.2 else range.1
    | none => range.1
  let rangeMax := match its.2 with
    | some r => if r.1 < range.2 then r.1 else range.2
    | none => range.2
  (rangeMin, rangeMax)

/-- The range before `upper_bound(k)`, when there is one, starts at or below `k`. -/
theorem lowerUpper_fst_mem {k : α} {lo : α × α} :
    ∀ {l : List (α × α)} {prev : Option (α × α)}, (lowerUpper k l prev).1 = some lo →
      prev = some lo ∨ (lo ∈ l ∧ lo.1 ≤ k)
  | [], _, h => .inl h
  | r :: rs, prev, h => by
    unfold lowerUpper at h
    split_ifs at h with hk
    · exact .inl h
    · rcases lowerUpper_fst_mem h with hr | ⟨hlo, hlok⟩
      · cases hr
        exact .inr ⟨List.mem_cons_self, le_of_not_gt hk⟩
      · exact .inr ⟨List.mem_cons_of_mem r hlo, hlok⟩

section Patch

variable {map : RangeMap α} {k k' : α} {its : Option (α × α) × Option (α × α)}

/-- The `empty()` test only spares the scan: an empty map has no range on either side. -/
theorem lowerUpper_entries (k : α) (map : RangeMap α) :
    (if map.entries.isEmpty then ((none, none) : Option (α × α) × Option (α × α))
      else lowerUpper k map.entries none) = lowerUpper k map.entries none := by
  cases map.entries <;> rfl

/-- A jump moves the key forward, to the end of a range that holds the key. -/
theorem patchLookupKey_inl (h : map.patchLookupKey k = .inl k') :
    k < k' ∧ ∃ r ∈ map.entries, r.1 ≤ k ∧ r.2 = k' := by
  unfold patchLookupKey at h
  rw [lowerUpper_entries] at h
  dsimp only at h
  split at h
  · rename_i r hr
    split_ifs at h with hkr
    cases h
    obtain hnone | ⟨hmem, hrk⟩ := lowerUpper_fst_mem hr
    · cases hnone
    · exact ⟨hkr, r, hmem, hrk, rfl⟩
  · cases h

/-- Without a jump, the iterators are those of the scan, and no range holds the key. -/
theorem patchLookupKey_inr (hd : map.Disjoint) (h : map.patchLookupKey k = .inr its) :
    its = lowerUpper k map.entries none ∧ ¬ map.Covers k := by
  unfold patchLookupKey at h
  rw [lowerUpper_entries] at h
  dsimp only at h
  have hits : its = lowerUpper k map.entries none := by
    split at h
    · split_ifs at h
      exact (Sum.inr.inj h).symm
    · exact (Sum.inr.inj h).symm
  refine ⟨hits, ?_⟩
  rintro ⟨r, hr, hrk, hkr⟩
  rcases lowerUpper_fst (k := k) none map.sorted hd.pairwise with ⟨-, hall⟩ | ⟨lo, -, hsome, -, hbefore⟩
  · -- no range starts at or below `k`
    exact absurd (hall r hr) (not_lt.mpr hrk)
  · rw [hsome] at h
    dsimp only at h
    split_ifs at h with hklo
    rcases hbefore r hr hrk with rfl | hrlo
    · exact hklo hkr
    · -- `r` ends before the range before `upper_bound(k)` starts, which is at or below `k`
      obtain hnone | ⟨-, hlok⟩ := lowerUpper_fst_mem (l := map.entries) hsome
      · cases hnone
      · exact absurd (hkr.trans_le (hrlo.trans hlok)) (lt_irrefl k)

/-- The bounds `patchArgRange` leaves around a key that no range holds: they only move in, they
still enclose the key, no range meets them, and each is either where it started or an end of
a range. -/
theorem patchArgRange_spec (hd : map.Disjoint) (h : map.patchLookupKey k = .inr its)
    {lo₀ hi₀ : α} (hlo₀ : lo₀ ≤ k) (hhi₀ : k < hi₀) :
    let range := patchArgRange its (lo₀, hi₀)
    lo₀ ≤ range.1 ∧ range.1 ≤ k ∧ k < range.2 ∧ range.2 ≤ hi₀ ∧
      (∀ k', range.1 ≤ k' → k' < range.2 → ¬ map.Covers k') ∧
      (range.1 = lo₀ ∨ ∃ r ∈ map.entries, r.2 = range.1) ∧
      (range.2 = hi₀ ∨ ∃ r ∈ map.entries, r.1 = range.2) := by
  obtain ⟨rfl, hk⟩ := patchLookupKey_inr hd h
  intro range
  -- the range before `upper_bound(k)`, if any, ends at or below `k`
  have hlower : range.1 = lo₀ ∧ (∀ r ∈ map.entries, k < r.1) ∨
      ∃ lo ∈ map.entries, range.1 = max lo₀ lo.2 ∧ lo.2 ≤ k ∧
        ∀ r ∈ map.entries, r.1 ≤ k → r.2 ≤ lo.2 := by
    rcases lowerUpper_fst (k := k) none map.sorted hd.pairwise with
      ⟨hnone, hall⟩ | ⟨lo, hlo, hsome, hlok, hbefore⟩
    · refine .inl ⟨?_, hall⟩
      simp only [range, patchArgRange, hnone]
    · have hlok' : lo.2 ≤ k := le_of_not_gt fun hlt => hk ⟨lo, hlo, hlok, hlt⟩
      refine .inr ⟨lo, hlo, ?_, hlok', ?_⟩
      · simp only [range, patchArgRange, hsome]
        split_ifs with hlt
        · exact (max_eq_right hlt.le).symm
        · exact (max_eq_left (le_of_not_gt hlt)).symm
      · intro r hr hrk
        rcases hbefore r hr hrk with rfl | hrlo
        · exact le_rfl
        · exact hrlo.trans (hd.nonempty lo hlo).le
  -- `upper_bound(k)`, if any, starts above `k`, and first among the ranges that do
  have hupper : range.2 = hi₀ ∧ (∀ r ∈ map.entries, r.1 ≤ k) ∨
      ∃ up ∈ map.entries, range.2 = min hi₀ up.1 ∧ k < up.1 ∧
        ∀ r ∈ map.entries, k < r.1 → up.1 ≤ r.1 := by
    rcases lowerUpper_snd (k := k) none map.sorted with ⟨hnone, hall⟩ | ⟨up, hup, hsome, hkup, hmin⟩
    · refine .inl ⟨?_, hall⟩
      simp only [range, patchArgRange, hnone]
    · refine .inr ⟨up, hup, ?_, hkup, hmin⟩
      simp only [range, patchArgRange, hsome]
      split_ifs with hlt
      · exact (min_eq_right hlt.le).symm
      · exact (min_eq_left (le_of_not_gt hlt)).symm
  refine ⟨?_, ?_, ?_, ?_, ?_, ?_, ?_⟩
  · rcases hlower with ⟨he, -⟩ | ⟨lo, -, he, -, -⟩ <;> rw [he]
    exact le_max_left _ _
  · rcases hlower with ⟨he, -⟩ | ⟨lo, -, he, hlok, -⟩ <;> rw [he]
    · exact hlo₀
    · exact max_le hlo₀ hlok
  · rcases hupper with ⟨he, -⟩ | ⟨up, -, he, hkup, -⟩ <;> rw [he]
    · exact hhi₀
    · exact lt_min hhi₀ hkup
  · rcases hupper with ⟨he, -⟩ | ⟨up, -, he, -, -⟩ <;> rw [he]
    exact min_le_left _ _
  · rintro k' hk'lo hk'hi ⟨r, hr, hrk', hk'r⟩
    rcases le_or_gt r.1 k with hrk | hkr
    · -- a range starting at or below `k` ends at or below the lower bound
      rcases hlower with ⟨-, hall⟩ | ⟨lo, -, he, -, hbefore⟩
      · exact absurd (hall r hr) (not_lt.mpr hrk)
      · have : r.2 ≤ range.1 := (hbefore r hr hrk).trans (he ▸ le_max_right _ _)
        exact absurd (hk'r.trans_le this) (not_lt.mpr hk'lo)
    · -- a range starting above `k` starts at or above the upper bound
      rcases hupper with ⟨-, hall⟩ | ⟨up, -, he, -, hmin⟩
      · exact absurd (hall r hr) (not_le.mpr hkr)
      · have : range.2 ≤ r.1 := (he ▸ min_le_right _ _).trans (hmin r hr hkr)
        exact absurd (hk'hi.trans_le (this.trans hrk')) (lt_irrefl k')
  · rcases hlower with ⟨he, -⟩ | ⟨lo, hlo, he, -, -⟩
    · exact .inl he
    · rcases le_total lo₀ lo.2 with hle | hle
      · exact .inr ⟨lo, hlo, by rw [he, max_eq_right hle]⟩
      · exact .inl (by rw [he, max_eq_left hle])
  · rcases hupper with ⟨he, -⟩ | ⟨up, hup, he, -, -⟩
    · exact .inl he
    · rcases le_total hi₀ up.1 with hle | hle
      · exact .inl (by rw [he, min_eq_left hle])
      · exact .inr ⟨up, hup, by rw [he, min_eq_right hle]⟩

end Patch

end RangeMap

end Mongo.Sharding
