import Mongo.SortedSearch
import Mongo.Sharding.CollectionMetadata

/-! The zone ranges of `DistributionStatus` (`db/s/balancer/balancer_policy.cpp`): ranges
`[min, max)` of shard keys, each assigned to a zone, in a map keyed by `max`. `addRangeToZone`
decides from `upper_bound(min)` and `upper_bound(max)` whether a new range overlaps one already
there, and `getTagForChunk` finds the zone of a chunk from `upper_bound(min)` and
`lower_bound(max)`. On ranges that are non-empty and pairwise disjoint, only the range at
`upper_bound(min)` can meet the new range or hold the chunk, so the probes decide overlap and
containment exactly.

Keys are taken in any linear order, the order `SimpleBSONObjComparator` puts on shard keys, whose
`==` is then equality. A map iterator is a position in the list of ranges, `end()` its length. -/

namespace Mongo.Balancer

open SortedSearch Sharding

variable {α : Type} [LinearOrder α]

/-- `ZoneRange`: the range `[min, max)` and the zone it is assigned to. -/
@[ext]
structure ZoneRange (α : Type) where
  min : α
  max : α
  zone : String
  deriving DecidableEq, Repr

namespace ZoneRange

/-- `ZoneRange::toString`. -/
def toString [ToString α] (r : ZoneRange α) : String :=
  ToString.toString r.min ++ " -->> " ++ ToString.toString r.max ++ "  on  " ++ r.zone

/-- Two ranges share a key. -/
def Overlaps (a b : ZoneRange α) : Prop :=
  ∃ k, (a.min ≤ k ∧ k < a.max) ∧ (b.min ≤ k ∧ k < b.max)

/-- The range `[lo, hi)` lies inside `r`. -/
def Contains (r : ZoneRange α) (lo hi : α) : Prop := r.min ≤ lo ∧ hi ≤ r.max

theorem Overlaps.symm {a b : ZoneRange α} (h : a.Overlaps b) : b.Overlaps a := by
  obtain ⟨k, ha, hb⟩ := h
  exact ⟨k, hb, ha⟩

theorem not_overlaps_of_max_le {a b : ZoneRange α} (h : a.max ≤ b.min) : ¬ a.Overlaps b := by
  rintro ⟨k, ⟨-, hka⟩, hbk, -⟩
  exact absurd (lt_of_lt_of_le hka h) (not_lt.mpr hbk)

/-- Non-empty ranges overlap when each starts before the other ends: the later start is in both. -/
theorem overlaps_of_lt {a b : ZoneRange α} (ha : a.min < a.max) (hb : b.min < b.max)
    (hab : a.min < b.max) (hba : b.min < a.max) : a.Overlaps b :=
  ⟨Max.max a.min b.min, ⟨le_max_left _ _, max_lt ha hba⟩, le_max_right _ _, max_lt hab hb⟩

end ZoneRange

/-- The status `addRangeToZone` returns. -/
inductive Status
  | OK
  /-- `ErrorCodes::RangeOverlapConflict` and its reason. -/
  | RangeOverlapConflict (reason : String)
  deriving DecidableEq, Repr

/-- `BSONObjIndexedMap<ZoneRange>`: the ranges keyed by their max, in key order. -/
structure ZoneMap (α : Type) [LinearOrder α] where
  ranges : List (ZoneRange α)
  sorted : ranges.Pairwise (fun a b => a.max < b.max)

namespace ZoneMap

/-- The empty map. -/
def empty : ZoneMap α := ⟨[], .nil⟩

/-- `upper_bound(key)`: the position of the first range whose max is above `key`. -/
def upperBound (m : ZoneMap α) (key : α) : Nat :=
  (m.ranges.takeWhile (fun r => decide (r.max ≤ key))).length

/-- `lower_bound(key)`: the position of the first range whose max is not below `key`. -/
def lowerBound (m : ZoneMap α) (key : α) : Nat :=
  (m.ranges.takeWhile (fun r => decide (r.max < key))).length

/-- `emplace(range.max, range)`: nothing when a range with that max is there. -/
def emplace (m : ZoneMap α) (range : ZoneRange α) : ZoneMap α where
  ranges := emplaceBy ZoneRange.max range m.ranges
  sorted := pairwise_emplaceBy range m.sorted

end ZoneMap

/-- The fields of `DistributionStatus` that the zone functions read and write: `_zoneRanges`
and `_allTags`, the set of zone names. -/
structure DistributionStatus (α : Type) [LinearOrder α] where
  zoneRanges : ZoneMap α
  allTags : List String

namespace DistributionStatus

/-- The constructor: no zone ranges. -/
def new : DistributionStatus α := ⟨.empty, []⟩

/-- `getTagForChunk(chunk)`: the zone of the range at `upper_bound(chunk.min)` when it holds
the chunk, else `""`. -/
def getTagForChunk {σ : Type} (d : DistributionStatus α) (chunk : Chunk α σ) : String :=
  let minIntersect := d.zoneRanges.upperBound chunk.min
  let maxIntersect := d.zoneRanges.lowerBound chunk.max
  -- a partial overlap with a chunk range is treated as if the chunk belonged to no zone
  if minIntersect ≠ maxIntersect then ""
  else match d.zoneRanges.ranges[minIntersect]? with
    | none => ""
    | some intersectRange =>
      if intersectRange.min ≤ chunk.min ∧ chunk.max ≤ intersectRange.max then intersectRange.zone
      else ""

variable [ToString α]

/-- The status of an overlap of `range` with the range `existing` of the map. -/
def overlapConflict (range existing : ZoneRange α) : Status :=
  .RangeOverlapConflict ("Zone range: " ++ range.toString ++ " is overlapping with existing: " ++
    existing.toString)

/-- `addRangeToZone(range)`: the status and the distribution after the call; `none` is a failed
`invariant`. -/
def addRangeToZone (d : DistributionStatus α) (range : ZoneRange α) :
    Option (Status × DistributionStatus α) :=
  let ranges := d.zoneRanges.ranges
  let minIntersect := d.zoneRanges.upperBound range.min
  let maxIntersect := d.zoneRanges.upperBound range.max
  -- the new entry, and its zone among the tags
  let added : DistributionStatus α := ⟨d.zoneRanges.emplace range, d.allTags.insert range.zone⟩
  -- Check for partial overlap
  if minIntersect ≠ maxIntersect then do
    -- `invariant(minIntersect != end())`
    let minRange ← ranges[minIntersect]?
    -- the range at `maxIntersect` is read only past the first test, and `end()` has none
    let intersectingRange ←
      if minRange.min < range.max then some minRange else ranges[maxIntersect]?
    if intersectingRange.min = range.min ∧ intersectingRange.max = range.max ∧
        intersectingRange.zone = range.zone then some (.OK, d)
    else some (overlapConflict range intersectingRange, d)
  -- Check for containment
  else match ranges[minIntersect]? with
    | some nextRange =>
      if nextRange.min < range.max then
        -- `invariant(range.max < nextRange.max)`
        if range.max < nextRange.max then some (overlapConflict range nextRange, d) else none
      else some (.OK, added)
    | none => some (.OK, added)

/-- The calls `addRangeToZone(r)` for the ranges in order, each on the distribution the one
before left; `none` when one fails an `invariant`. -/
def addRanges (d : DistributionStatus α) : List (ZoneRange α) → Option (DistributionStatus α)
  | [] => some d
  | r :: rs => (d.addRangeToZone r).bind fun res => addRanges res.2 rs

end DistributionStatus

/-! ## The probes on a sorted map -/

/-- Two counts, the first of a stronger predicate, differ when an element has only the weaker
one. -/
theorem countP_ne_countP_iff {β : Type} {p q : β → Bool} {l : List β}
    (hpq : ∀ x ∈ l, p x → q x) : l.countP p ≠ l.countP q ↔ ∃ x ∈ l, q x ∧ ¬ p x := by
  constructor
  · intro hne
    by_contra hno
    push Not at hno
    exact hne (List.countP_congr fun x hx => ⟨hpq x hx, hno x hx⟩)
  · rintro ⟨x, hx, hq, hp⟩
    exact Nat.ne_of_lt (countP_lt_countP hpq ⟨x, hx, hq, hp⟩)

namespace ZoneMap

variable {m : ZoneMap α}

theorem upperBound_eq_countP (k : α) :
    m.upperBound k = m.ranges.countP (fun r => decide (r.max ≤ k)) :=
  length_takeWhile (prefixClosed_key_le m.sorted k)

theorem lowerBound_eq_countP (k : α) :
    m.lowerBound k = m.ranges.countP (fun r => decide (r.max < k)) :=
  length_takeWhile (prefixClosed_key_lt m.sorted k)

/-- The range at `upper_bound(k)` is the first one that ends above `k`. -/
theorem getElem?_upperBound (k : α) :
    m.ranges[m.upperBound k]? = (m.ranges.filter (fun r => decide (k < r.max))).head? :=
  getElem?_takeWhile_key_le m.sorted k

/-- `upper_bound` of two keys differ when a range ends between them. -/
theorem upperBound_ne_upperBound_iff {k k' : α} (hk : k ≤ k') :
    m.upperBound k ≠ m.upperBound k' ↔ ∃ r ∈ m.ranges, k < r.max ∧ r.max ≤ k' := by
  have hpq : ∀ r ∈ m.ranges, decide (r.max ≤ k) = true → decide (r.max ≤ k') = true := by
    intro r _ h
    simp only [decide_eq_true_eq] at h ⊢
    exact le_trans h hk
  rw [upperBound_eq_countP, upperBound_eq_countP, countP_ne_countP_iff hpq]
  simp only [decide_eq_true_eq, not_le]
  exact exists_congr fun r => and_congr_right fun _ => and_comm

/-- `upper_bound(k)` and `lower_bound(k')` differ when a range ends strictly between them. -/
theorem upperBound_ne_lowerBound_iff {k k' : α} (hk : k < k') :
    m.upperBound k ≠ m.lowerBound k' ↔ ∃ r ∈ m.ranges, k < r.max ∧ r.max < k' := by
  have hpq : ∀ r ∈ m.ranges, decide (r.max ≤ k) = true → decide (r.max < k') = true := by
    intro r _ h
    simp only [decide_eq_true_eq] at h ⊢
    exact lt_of_le_of_lt h hk
  rw [upperBound_eq_countP, lowerBound_eq_countP, countP_ne_countP_iff hpq]
  simp only [decide_eq_true_eq, not_le]
  exact exists_congr fun r => and_congr_right fun _ => and_comm

/-- Past the last range, every range ends at or below `k`. -/
theorem max_le_of_getElem?_upperBound {k : α} (h : m.ranges[m.upperBound k]? = none) :
    ∀ e ∈ m.ranges, e.max ≤ k := by
  rw [getElem?_upperBound, List.head?_eq_none_iff, List.filter_eq_nil_iff] at h
  intro e he
  simpa using h e he

/-! ## Disjoint ranges -/

/-- The ranges are non-empty and no key lies in two of them. -/
structure Valid (m : ZoneMap α) : Prop where
  nonempty : ∀ r ∈ m.ranges, r.min < r.max
  disjoint : ∀ a ∈ m.ranges, ∀ b ∈ m.ranges, a ≠ b → ¬ a.Overlaps b

theorem valid_empty : (empty : ZoneMap α).Valid :=
  ⟨by simp [empty], by simp [empty]⟩

/-- In key order, disjoint ranges end before the next one starts. -/
theorem Valid.pairwise (hv : m.Valid) : m.ranges.Pairwise (fun a b => a.max ≤ b.min) := by
  apply m.sorted.imp_of_mem
  intro a b ha hb hab
  by_contra hlt
  -- otherwise `b` starts before `a` ends, and the two overlap
  have hne : a ≠ b := by
    rintro rfl
    exact lt_irrefl _ hab
  exact hv.disjoint a ha b hb hne <| ZoneRange.overlaps_of_lt (hv.nonempty a ha) (hv.nonempty b hb)
    (lt_trans (hv.nonempty a ha) hab) (lt_of_not_ge hlt)

/-- The range at `upper_bound(k)` ends above `k`, and every other range that does starts at or
after its end. -/
theorem Valid.first_above (hv : m.Valid) {k : α} {n : ZoneRange α}
    (h : m.ranges[m.upperBound k]? = some n) :
    n ∈ m.ranges ∧ k < n.max ∧ ∀ e ∈ m.ranges, k < e.max → e = n ∨ n.max ≤ e.min := by
  rw [getElem?_upperBound] at h
  have hn := List.mem_filter.mp (List.mem_of_mem_head? h)
  refine ⟨hn.1, by simpa using hn.2, fun e he hke => ?_⟩
  exact head?_filter_pairwise hv.pairwise h e he (by simpa using hke)

end ZoneMap

/-! ## `addRangeToZone` -/

namespace DistributionStatus

variable {d : DistributionStatus α} {range : ZoneRange α}

/-- What a call `addRangeToZone(range)` from `d` is for: `OK` exactly when `range` is disjoint
from every range of `d` or is one of them, and the ranges are then those of `d` and `range`;
otherwise `RangeOverlapConflict`, with `d` left as it was. -/
structure AddRangeSpec (d : DistributionStatus α) (range : ZoneRange α) (st : Status)
    (d' : DistributionStatus α) : Prop where
  ok_iff : st = .OK ↔
    (∀ e ∈ d.zoneRanges.ranges, ¬ range.Overlaps e) ∨ range ∈ d.zoneRanges.ranges
  accepted : st = .OK → ∀ e, e ∈ d'.zoneRanges.ranges ↔ e = range ∨ e ∈ d.zoneRanges.ranges
  rejected : st ≠ .OK → (∃ reason, st = .RangeOverlapConflict reason) ∧ d' = d

namespace AddRangeSpec

/-- A range already there is accepted again and changes nothing. -/
theorem of_mem (h : range ∈ d.zoneRanges.ranges) : AddRangeSpec d range .OK d where
  ok_iff := iff_of_true rfl (.inr h)
  accepted _ e := by
    constructor
    · exact .inr
    · rintro (rfl | he)
      · exact h
      · exact he
  rejected h' := absurd rfl h'

/-- A range that overlaps one of `d` and is not one of them is rejected. -/
theorem conflict {e : ZoneRange α} (he : e ∈ d.zoneRanges.ranges) (hover : range.Overlaps e)
    (hnot : range ∉ d.zoneRanges.ranges) (reason : String) :
    AddRangeSpec d range (.RangeOverlapConflict reason) d where
  ok_iff := by
    refine iff_of_false (by simp) ?_
    rintro (hdisj | hin)
    · exact hdisj e he hover
    · exact hnot hin
  accepted h := absurd h (by simp)
  rejected _ := ⟨⟨reason, rfl⟩, rfl⟩

/-- A range disjoint from every range of `d`, with a max no range has, is added. -/
theorem added (hdisj : ∀ e ∈ d.zoneRanges.ranges, ¬ range.Overlaps e)
    (hkey : ∀ e ∈ d.zoneRanges.ranges, e.max ≠ range.max) (tags : List String) :
    AddRangeSpec d range .OK ⟨d.zoneRanges.emplace range, tags⟩ where
  ok_iff := iff_of_true rfl (.inl hdisj)
  accepted _ _ := mem_emplaceBy_iff hkey
  rejected h := absurd rfl h

/-- A call that meets its spec keeps the ranges non-empty and disjoint. -/
theorem valid {st : Status} {d' : DistributionStatus α} (hs : AddRangeSpec d range st d')
    (hv : d.zoneRanges.Valid) (hr : range.min < range.max) : d'.zoneRanges.Valid := by
  by_cases hok : st = .OK
  · have hmem := hs.accepted hok
    -- a range of `d'` is `range` or one of `d`, and `range` meets none of `d` it differs from
    have hdisj : ∀ e ∈ d.zoneRanges.ranges, e ≠ range → ¬ range.Overlaps e := by
      intro e he hne
      rcases hs.ok_iff.mp hok with hdisj | hin
      · exact hdisj e he
      · exact hv.disjoint range hin e he (Ne.symm hne)
    refine ⟨fun e he => ?_, fun a ha b hb hab => ?_⟩
    · rcases (hmem e).mp he with rfl | he
      · exact hr
      · exact hv.nonempty e he
    · rcases (hmem a).mp ha with rfl | ha <;> rcases (hmem b).mp hb with rfl | hb
      · exact absurd rfl hab
      · exact hdisj b hb (Ne.symm hab)
      · exact fun h => hdisj a ha hab h.symm
      · exact hv.disjoint a ha b hb hab
  · rw [(hs.rejected hok).2]
    exact hv

end AddRangeSpec

variable [ToString α]

/-- When a range ends inside `(range.min, range.max]`, the probes differ, and the range at the
first is the one compared with `range`. -/
theorem addRangeToZone_of_window (hv : d.zoneRanges.Valid) (hr : range.min < range.max)
    (hwin : ∃ e ∈ d.zoneRanges.ranges, range.min < e.max ∧ e.max ≤ range.max) :
    ∃ st d', d.addRangeToZone range = some (st, d') ∧ AddRangeSpec d range st d' := by
  have hne := (ZoneMap.upperBound_ne_upperBound_iff hr.le).mpr hwin
  obtain ⟨e, he, hlo, hhi⟩ := hwin
  obtain ⟨n, hn⟩ : ∃ n, d.zoneRanges.ranges[d.zoneRanges.upperBound range.min]? = some n := by
    cases h : d.zoneRanges.ranges[d.zoneRanges.upperBound range.min]? with
    | some n => exact ⟨n, rfl⟩
    | none => exact absurd hlo (not_lt.mpr (ZoneMap.max_le_of_getElem?_upperBound h e he))
  obtain ⟨hnmem, hnlo, hfirst⟩ := hv.first_above hn
  -- `n` ends no later than `e`, so it starts before `range` ends
  have hnhi : n.max ≤ range.max := by
    rcases hfirst e he hlo with rfl | hle
    · exact hhi
    · exact le_trans (le_of_lt (lt_of_le_of_lt hle (hv.nonempty e he))) hhi
  have hnmin : n.min < range.max := lt_of_lt_of_le (hv.nonempty n hnmem) hnhi
  have hover : range.Overlaps n := ZoneRange.overlaps_of_lt hr (hv.nonempty n hnmem) hnlo hnmin
  have hcall : d.addRangeToZone range =
      if n.min = range.min ∧ n.max = range.max ∧ n.zone = range.zone then some (.OK, d)
      else some (overlapConflict range n, d) := by
    simp only [addRangeToZone]
    rw [if_pos hne, hn]
    simp only [Option.bind_eq_bind, Option.bind_some, if_pos hnmin]
  by_cases heq : n = range
  · subst heq
    exact ⟨_, _, by rw [hcall, if_pos ⟨rfl, rfl, rfl⟩], AddRangeSpec.of_mem hnmem⟩
  · refine ⟨overlapConflict range n, d,
      by rw [hcall, if_neg fun h => heq (ZoneRange.ext h.1 h.2.1 h.2.2)],
      AddRangeSpec.conflict hnmem hover (fun hin => ?_) _⟩
    exact hv.disjoint range hin n hnmem (Ne.symm heq) hover

/-- When no range ends inside `(range.min, range.max]`, the probes agree, and `range` is added
unless the range after it starts before it ends. -/
theorem addRangeToZone_of_no_window (hv : d.zoneRanges.Valid) (hr : range.min < range.max)
    (hwin : ∀ e ∈ d.zoneRanges.ranges, range.min < e.max → range.max < e.max) :
    ∃ st d', d.addRangeToZone range = some (st, d') ∧ AddRangeSpec d range st d' := by
  have hsame : ¬ d.zoneRanges.upperBound range.min ≠ d.zoneRanges.upperBound range.max := by
    rw [ZoneMap.upperBound_ne_upperBound_iff hr.le]
    rintro ⟨e, he, hlo, hhi⟩
    exact absurd (hwin e he hlo) (not_lt.mpr hhi)
  have hkey : ∀ e ∈ d.zoneRanges.ranges, e.max ≠ range.max := by
    intro e he hmax
    have := hwin e he (hmax ▸ hr)
    rw [hmax] at this
    exact lt_irrefl _ this
  cases hn : d.zoneRanges.ranges[d.zoneRanges.upperBound range.min]? with
  | none =>
    -- every range ends at or below `range.min`
    have hbelow := ZoneMap.max_le_of_getElem?_upperBound hn
    refine ⟨_, _, ?_, AddRangeSpec.added (fun e he h => ?_) hkey (d.allTags.insert range.zone)⟩
    · simp only [addRangeToZone]
      rw [if_neg hsame, hn]
    · exact ZoneRange.not_overlaps_of_max_le (hbelow e he) h.symm
  | some n =>
    obtain ⟨hnmem, hnlo, hfirst⟩ := hv.first_above hn
    have hnhi : range.max < n.max := hwin n hnmem hnlo
    by_cases hnmin : n.min < range.max
    · -- `n` starts inside `range`
      refine ⟨overlapConflict range n, d, ?_, AddRangeSpec.conflict hnmem
        (ZoneRange.overlaps_of_lt hr (hv.nonempty n hnmem) hnlo hnmin)
        (fun hin => lt_irrefl _ (hwin range hin hr)) _⟩
      simp only [addRangeToZone]
      rw [if_neg hsame, hn]
      simp only [hnmin, hnhi, if_true]
    · -- `range` ends where or before `n` starts, and every later range starts after `n` ends
      refine ⟨_, _, ?_, AddRangeSpec.added (fun e he => ?_) hkey (d.allTags.insert range.zone)⟩
      · simp only [addRangeToZone]
        rw [if_neg hsame, hn]
        simp only [hnmin, if_false]
      by_cases hlo : range.min < e.max
      · rcases hfirst e he hlo with rfl | hle
        · exact ZoneRange.not_overlaps_of_max_le (not_lt.mp hnmin)
        · exact ZoneRange.not_overlaps_of_max_le (le_of_lt (lt_of_lt_of_le hnhi hle))
      · exact fun h => ZoneRange.not_overlaps_of_max_le (not_lt.mp hlo) h.symm

/-- On disjoint ranges, `addRangeToZone` meets its spec and fails no `invariant`. -/
theorem addRangeToZone_spec (hv : d.zoneRanges.Valid) (hr : range.min < range.max) :
    ∃ st d', d.addRangeToZone range = some (st, d') ∧ AddRangeSpec d range st d' := by
  by_cases hwin : ∃ e ∈ d.zoneRanges.ranges, range.min < e.max ∧ e.max ≤ range.max
  · exact addRangeToZone_of_window hv hr hwin
  · push Not at hwin
    exact addRangeToZone_of_no_window hv hr hwin

/-- A run of calls on non-empty ranges fails no `invariant` and keeps the ranges disjoint. -/
theorem addRanges_valid : ∀ {d : DistributionStatus α} {rs : List (ZoneRange α)},
    d.zoneRanges.Valid → (∀ r ∈ rs, r.min < r.max) →
      ∃ d', d.addRanges rs = some d' ∧ d'.zoneRanges.Valid
  | d, [], hv, _ => ⟨d, rfl, hv⟩
  | d, r :: rs, hv, hrs => by
    have hr := hrs r List.mem_cons_self
    obtain ⟨st, d', hcall, hspec⟩ := addRangeToZone_spec hv hr
    obtain ⟨d'', hrun, hv''⟩ :=
      addRanges_valid (hspec.valid hv hr) fun r' hr' => hrs r' (List.mem_cons_of_mem r hr')
    refine ⟨d'', ?_, hv''⟩
    rw [addRanges, hcall, Option.bind_some]
    exact hrun

/-! ## `getTagForChunk` -/

omit [ToString α] in
/-- A zone is returned only for a range of the map that holds the chunk. -/
theorem getTagForChunk_of_not_contains {σ : Type} {chunk : Chunk α σ}
    (hno : ∀ e ∈ d.zoneRanges.ranges, ¬ e.Contains chunk.min chunk.max) :
    d.getTagForChunk chunk = "" := by
  simp only [getTagForChunk]
  split
  · rfl
  · split
    · rfl
    · next n hn =>
      rw [if_neg]
      exact hno n (List.mem_of_getElem? hn)

omit [ToString α] in
/-- On disjoint ranges, the range that holds a chunk is the one at `upper_bound(chunk.min)`,
and no range ends strictly inside the chunk. -/
theorem getTagForChunk_of_contains {σ : Type} (hv : d.zoneRanges.Valid) {chunk : Chunk α σ}
    (hc : chunk.min < chunk.max) {e : ZoneRange α} (he : e ∈ d.zoneRanges.ranges)
    (hcont : e.Contains chunk.min chunk.max) : d.getTagForChunk chunk = e.zone := by
  have hsame : ¬ d.zoneRanges.upperBound chunk.min ≠ d.zoneRanges.lowerBound chunk.max := by
    rw [ZoneMap.upperBound_ne_lowerBound_iff hc]
    rintro ⟨w, hw, hlo, hhi⟩
    -- `w` would end inside the chunk, hence inside `e`, and meet it
    have hne : w ≠ e := by
      rintro rfl
      exact absurd hcont.2 (not_le.mpr hhi)
    exact hv.disjoint w hw e he hne <| ZoneRange.overlaps_of_lt (hv.nonempty w hw)
      (hv.nonempty e he) (lt_trans (hv.nonempty w hw) (lt_of_lt_of_le hhi hcont.2))
      (lt_of_le_of_lt hcont.1 hlo)
  have helo : chunk.min < e.max := lt_of_lt_of_le hc hcont.2
  cases hn : d.zoneRanges.ranges[d.zoneRanges.upperBound chunk.min]? with
  | none => exact absurd helo (not_lt.mpr (ZoneMap.max_le_of_getElem?_upperBound hn e he))
  | some n =>
    obtain ⟨-, hnlo, hfirst⟩ := hv.first_above hn
    -- `e` is `n`: a range past `n` starts at or after `n` ends, above the chunk's min
    have hen : e = n := by
      rcases hfirst e he helo with h | hle
      · exact h
      · exact absurd (lt_of_lt_of_le hnlo hle) (not_lt.mpr hcont.1)
    subst hen
    unfold getTagForChunk
    rw [if_neg hsame]
    simp only [hn]
    rw [if_pos (show e.min ≤ chunk.min ∧ chunk.max ≤ e.max from hcont)]

-- a chunk that ends where its zone ends is in the zone; one across two zones is in none
example : (new.addRanges [⟨0, 10, "A"⟩, ⟨10, 20, "B"⟩]).map
    (fun d => d.getTagForChunk (⟨5, 10, 0⟩ : Chunk Nat Nat)) = some "A" := by decide
example : (new.addRanges [⟨0, 10, "A"⟩, ⟨10, 20, "B"⟩]).map
    (fun d => d.getTagForChunk (⟨5, 15, 0⟩ : Chunk Nat Nat)) = some "" := by decide

/-! ## Runs from no zones -/

theorem zoneRanges_interval_map {σ : Type} (rs : List (ZoneRange α))
    (hrs : ∀ r ∈ rs, r.min < r.max) :
    ∃ d, new.addRanges rs = some d ∧ d.zoneRanges.Valid ∧
      (∀ range : ZoneRange α, range.min < range.max →
        ∃ st d', d.addRangeToZone range = some (st, d') ∧ AddRangeSpec d range st d') ∧
      ∀ chunk : Chunk α σ, chunk.min < chunk.max →
        (∀ e ∈ d.zoneRanges.ranges, e.Contains chunk.min chunk.max →
          d.getTagForChunk chunk = e.zone) ∧
        ((∀ e ∈ d.zoneRanges.ranges, ¬ e.Contains chunk.min chunk.max) →
          d.getTagForChunk chunk = "") := by
  obtain ⟨d, hrun, hv⟩ := addRanges_valid (d := new) ZoneMap.valid_empty hrs
  refine ⟨d, hrun, hv, fun range hr => addRangeToZone_spec hv hr, fun chunk hc => ?_⟩
  exact ⟨fun e he hcont => getTagForChunk_of_contains hv hc he hcont,
    getTagForChunk_of_not_contains⟩

theorem zoneRanges_interval_map_two_zones :
    (∀ r ∈ ([⟨0, 10, "A"⟩, ⟨10, 20, "B"⟩] : List (ZoneRange Nat)), r.min < r.max) ∧
    ∃ d, new.addRanges ([⟨0, 10, "A"⟩, ⟨10, 20, "B"⟩] : List (ZoneRange Nat)) = some d ∧
      d.zoneRanges.Valid ∧
      (∀ range : ZoneRange Nat, range.min < range.max →
        ∃ st d', d.addRangeToZone range = some (st, d') ∧ AddRangeSpec d range st d') ∧
      ∀ chunk : Chunk Nat Nat, chunk.min < chunk.max →
        (∀ e ∈ d.zoneRanges.ranges, e.Contains chunk.min chunk.max →
          d.getTagForChunk chunk = e.zone) ∧
        ((∀ e ∈ d.zoneRanges.ranges, ¬ e.Contains chunk.min chunk.max) →
          d.getTagForChunk chunk = "") :=
  ⟨by decide, zoneRanges_interval_map [⟨0, 10, "A"⟩, ⟨10, 20, "B"⟩] (by decide)⟩

end DistributionStatus

end Mongo.Balancer
