import Mongo.SortedSearch
import Mongo.Sharding.ChunkManager

/-! The lookups of a routing table whose chunks partition `[globalMin, globalMax)`, under an
encoder `_extractKeyString` that keeps the order of the keys (`StrictMono keyString`): the map is
then sorted by the keys themselves (`ChunkMap.sorted_max`), and a search by encoding is a search
by key (`ChunkMap.upperBound_keyString`).
`upper_bound(key)` on the chunk map stops at the first chunk whose max is above the key; in a
partition that chunk starts at or below the key, so it is the one chunk holding it
(`exists_dropWhile_head`, `eq_of_containsKey`). The range `overlappingRanges` returns is a
`drop` and a `take` of the chunks; `countP_min_le` and `countP_min_lt` count the chunks that
start at or below a key from those that end there, which turns it into a `filter`. -/

namespace Mongo.Sharding

open SortedSearch

variable {α σ ε κ : Type} [LinearOrder α] [LinearOrder κ] {keyString : α → κ}

/-! ## Searching the chunk map -/

namespace ChunkMap

variable (m : ChunkMap α σ ε keyString) (hks : StrictMono keyString)
include hks

/-- Under an encoder that keeps the order, the map is sorted by the keys. -/
theorem sorted_max : m.chunks.Pairwise (fun a b => a.max < b.max) :=
  m.sorted.imp hks.lt_iff_lt.mp

/-- A search by the encoding of a key passes the chunks that end at or below the key. -/
theorem upperBound_keyString (k : α) :
    m.upperBound (keyString k) = (m.chunks.takeWhile (fun c => decide (c.max ≤ k))).length := by
  simp only [upperBound, hks.le_iff_le]

theorem lowerBound_keyString (k : α) :
    m.lowerBound (keyString k) = (m.chunks.takeWhile (fun c => decide (c.max < k))).length := by
  simp only [lowerBound, hks.lt_iff_lt]

theorem prefixClosed_max_le (k : α) :
    PrefixClosed (fun c : ChunkInfo α σ ε => decide (c.max ≤ k)) m.chunks :=
  (m.sorted_max hks).imp fun hab hb => by
    simp only [decide_eq_true_eq] at hb ⊢
    exact hab.le.trans hb

theorem prefixClosed_max_lt (k : α) :
    PrefixClosed (fun c : ChunkInfo α σ ε => decide (c.max < k)) m.chunks :=
  (m.sorted_max hks).imp fun hab hb => by
    simp only [decide_eq_true_eq] at hb ⊢
    exact hab.trans hb

theorem upperBound_eq_countP (k : α) :
    m.upperBound (keyString k) = m.chunks.countP (fun c => decide (c.max ≤ k)) := by
  rw [m.upperBound_keyString hks]
  exact length_takeWhile (m.prefixClosed_max_le hks k)

theorem lowerBound_eq_countP (k : α) :
    m.lowerBound (keyString k) = m.chunks.countP (fun c => decide (c.max < k)) := by
  rw [m.lowerBound_keyString hks]
  exact length_takeWhile (m.prefixClosed_max_lt hks k)

/-- The chunks from `upper_bound(k)` on are those that end above `k`. -/
theorem drop_upperBound (k : α) :
    m.chunks.drop (m.upperBound (keyString k)) = m.chunks.filter (fun c => decide (k < c.max)) := by
  rw [m.upperBound_keyString hks, ← dropWhile_eq_drop,
    dropWhile_eq_filter (m.prefixClosed_max_le hks k)]
  congr 1
  funext c
  rw [Bool.eq_iff_iff]
  simp

end ChunkMap

/-! ## Partitions of the key space -/

section Partition

variable {cs : List (ChunkInfo α σ ε)} {lo hi : α}

theorem partitions_cons {c : ChunkInfo α σ ε} :
    Partitions ((c :: cs).map (·.toChunk)) lo hi ↔
      c.min = lo ∧ c.min < c.max ∧ Partitions (cs.map (·.toChunk)) c.max hi :=
  Iff.rfl

/-- The chunks of a partition start at or above its low end. -/
theorem Partitions.le_min (h : Partitions (cs.map (·.toChunk)) lo hi) :
    ∀ c ∈ cs, lo ≤ c.min ∧ c.min < c.max := by
  intro c hc
  have := h.bounds c.toChunk (List.mem_map_of_mem hc)
  exact ⟨this.1, this.2.1⟩

/-- A chunk ends at or before every later chunk starts. -/
theorem Partitions.pairwise_max_le_min (h : Partitions (cs.map (·.toChunk)) lo hi) :
    cs.Pairwise (fun a b => a.max ≤ b.min) :=
  List.pairwise_map.mp h.pairwise

/-- Two chunks of a partition that hold one key are the same chunk. -/
theorem eq_of_containsKey (h : Partitions (cs.map (·.toChunk)) lo hi) {k : α}
    {c c' : ChunkInfo α σ ε} (hc : c ∈ cs) (hc' : c' ∈ cs) (hk : c.min ≤ k ∧ k < c.max)
    (hk' : c'.min ≤ k ∧ k < c'.max) : c = c' := by
  induction cs generalizing lo with
  | nil => simp at hc
  | cons d cs ih =>
    obtain ⟨-, -, hcs⟩ := partitions_cons.mp h
    have hlater := hcs.le_min
    rcases List.mem_cons.mp hc with rfl | hcs' <;> rcases List.mem_cons.mp hc' with rfl | hcs''
    · rfl
    · -- `c'` starts at or after `c` ends, above the key
      exact absurd ((hk.2.trans_le (hlater c' hcs'').1).trans_le hk'.1) (lt_irrefl k)
    · exact absurd ((hk'.2.trans_le (hlater c hcs').1).trans_le hk.1) (lt_irrefl k)
    · exact ih hcs hcs' hcs''

/-- In a partition, the first chunk that ends above a key of `[lo, hi)` holds it. -/
theorem exists_dropWhile_head (h : Partitions (cs.map (·.toChunk)) lo hi) {k : α}
    (hlo : lo ≤ k) (hhi : k < hi) :
    ∃ c ∈ cs, (cs.dropWhile (fun c => decide (c.max ≤ k))).head? = some c ∧
      c.min ≤ k ∧ k < c.max := by
  induction cs generalizing lo with
  | nil => exact absurd (h ▸ hlo) (not_le.mpr hhi)
  | cons c cs ih =>
    obtain ⟨hmin, -, hcs⟩ := partitions_cons.mp h
    by_cases hck : c.max ≤ k
    · -- `c` ends at or below the key: the search passes it
      obtain ⟨d, hd, hhead, hdk⟩ := ih hcs hck
      refine ⟨d, List.mem_cons_of_mem c hd, ?_, hdk⟩
      rw [List.dropWhile_cons_of_pos (by simpa using hck), hhead]
    · refine ⟨c, List.mem_cons_self, ?_, hmin ▸ hlo, not_le.mp hck⟩
      rw [List.dropWhile_cons_of_neg (by simpa using hck)]
      rfl

theorem prefixClosed_min_le (h : Partitions (cs.map (·.toChunk)) lo hi) (x : α) :
    PrefixClosed (fun c : ChunkInfo α σ ε => decide (c.min ≤ x)) cs := by
  have hne := h.le_min
  refine (List.Pairwise.and_mem.mp h.pairwise_max_le_min).imp fun ⟨ha, _, hab⟩ hb => ?_
  simp only [decide_eq_true_eq] at hb ⊢
  exact ((hne _ ha).2.le.trans hab).trans hb

theorem prefixClosed_min_lt (h : Partitions (cs.map (·.toChunk)) lo hi) (x : α) :
    PrefixClosed (fun c : ChunkInfo α σ ε => decide (c.min < x)) cs := by
  have hne := h.le_min
  refine (List.Pairwise.and_mem.mp h.pairwise_max_le_min).imp fun ⟨ha, _, hab⟩ hb => ?_
  simp only [decide_eq_true_eq] at hb ⊢
  exact ((hne _ ha).2.trans_le hab).trans hb

/-- Past a chunk that ends above `x`, no chunk of a partition starts at or below `x`. -/
theorem countP_eq_zero_of_lt_max {c : ChunkInfo α σ ε}
    (h : Partitions (cs.map (·.toChunk)) c.max hi) {x : α} (hx : x < c.max) :
    cs.countP (fun d => decide (d.min ≤ x)) = 0 ∧ cs.countP (fun d => decide (d.max ≤ x)) = 0 := by
  constructor <;> refine List.countP_eq_zero.mpr fun d hd => ?_ <;>
    have := h.le_min d hd <;> simp only [decide_eq_true_eq, not_le]
  · exact hx.trans_le this.1
  · exact hx.trans ((this.1).trans_lt this.2)

/-- In a partition from `lo`, the chunks that start at or below `x ≥ lo` are those that end at
or below it and the next one. -/
theorem countP_min_le (h : Partitions (cs.map (·.toChunk)) lo hi) {x : α} (hx : lo ≤ x) :
    cs.countP (fun c => decide (c.min ≤ x)) =
      min (cs.countP (fun c => decide (c.max ≤ x)) + 1) cs.length := by
  induction cs generalizing lo with
  | nil => rfl
  | cons c cs ih =>
    obtain ⟨hmin, -, hcs⟩ := partitions_cons.mp h
    have hcx : c.min ≤ x := hmin ▸ hx
    rw [List.countP_cons_of_pos (by simpa using hcx), List.length_cons]
    by_cases hmax : c.max ≤ x
    · rw [List.countP_cons_of_pos (by simpa using hmax), ih hcs hmax]
      omega
    · -- the chunk holding `x` is `c`
      obtain ⟨hz, hz'⟩ := countP_eq_zero_of_lt_max hcs (not_le.mp hmax)
      rw [List.countP_cons_of_neg (by simpa using hmax), hz, hz']
      omega

/-- In a partition from `lo`, the chunks that start below `x > lo` are those that end below it
and the next one. -/
theorem countP_min_lt (h : Partitions (cs.map (·.toChunk)) lo hi) {x : α} (hx : lo < x) :
    cs.countP (fun c => decide (c.min < x)) =
      min (cs.countP (fun c => decide (c.max < x)) + 1) cs.length := by
  induction cs generalizing lo with
  | nil => rfl
  | cons c cs ih =>
    obtain ⟨hmin, -, hcs⟩ := partitions_cons.mp h
    have hcx : c.min < x := hmin ▸ hx
    rw [List.countP_cons_of_pos (by simpa using hcx), List.length_cons]
    by_cases hmax : c.max < x
    · rw [List.countP_cons_of_pos (by simpa using hmax), ih hcs hmax]
      omega
    · -- every later chunk starts at or above `c.max ≥ x`
      have hz : cs.countP (fun d => decide (d.min < x)) = 0 :=
        List.countP_eq_zero.mpr fun d hd => by
          simpa using (not_lt.mp hmax).trans (hcs.le_min d hd).1
      have hz' : cs.countP (fun d => decide (d.max < x)) = 0 :=
        List.countP_eq_zero.mpr fun d hd => by
          simpa using (not_lt.mp hmax).trans ((hcs.le_min d hd).1.trans (hcs.le_min d hd).2.le)
      rw [List.countP_cons_of_neg (by simpa using hmax), hz, hz']
      omega

end Partition

/-! ## The lookups -/

namespace RoutingTableHistory

variable (rt : RoutingTableHistory α σ ε keyString)

/-- The chunks of `rt` partition `[globalMin, globalMax)`. -/
def Partitioned : Prop :=
  Partitions (rt.chunkMap.chunks.map (·.toChunk)) rt.globalMin rt.globalMax

variable {rt} (hks : StrictMono keyString)
include hks

/-- On a partition, the chunk at `upper_bound(k)` is the chunk that holds `k`. -/
theorem upperBound_containsKey (hpart : rt.Partitioned) {k : α} (hlo : rt.globalMin ≤ k)
    (hhi : k < rt.globalMax) :
    ∃ c ∈ rt.chunkMap.chunks, rt.chunkMap.chunks[rt.chunkMap.upperBound (keyString k)]? = some c ∧
      c.min ≤ k ∧ k < c.max := by
  obtain ⟨c, hc, hhead, hk⟩ := exists_dropWhile_head hpart hlo hhi
  rw [rt.chunkMap.upperBound_keyString hks]
  exact ⟨c, hc, (getElem?_length_takeWhile _).trans hhead, hk⟩

/-- The iterator range `overlappingRanges` returns holds the chunks that start at or below `max`
(below it when exclusive) and end above `min`, in key order, when `max` is at or above
`globalMin` (above it when exclusive). -/
theorem range_overlappingRanges (hpart : rt.Partitioned) (min max : α) (isMaxInclusive : Bool)
    (hmax : if isMaxInclusive then rt.globalMin ≤ max else rt.globalMin < max) :
    rt.chunkMap.range (rt.overlappingRanges min max isMaxInclusive).1
        (rt.overlappingRanges min max isMaxInclusive).2 =
      rt.chunkMap.chunks.filter (fun c =>
        (if isMaxInclusive then decide (c.min ≤ max) else decide (c.min < max)) &&
          decide (min < c.max)) := by
  set start : ChunkInfo α σ ε → Bool :=
    fun c => if isMaxInclusive then decide (c.min ≤ max) else decide (c.min < max)
  have hstart : PrefixClosed start rt.chunkMap.chunks := by
    cases isMaxInclusive
    · exact prefixClosed_min_lt hpart max
    · exact prefixClosed_min_le hpart max
  -- the chunks that start in range are counted by the iterator one past `max`
  have hcount : rt.chunkMap.chunks.countP start = (rt.overlappingRanges min max isMaxInclusive).2 := by
    have hn := List.countP_le_length (p := fun c : ChunkInfo α σ ε => decide (c.max ≤ max))
      (l := rt.chunkMap.chunks)
    have hn' := List.countP_le_length (p := fun c : ChunkInfo α σ ε => decide (c.max < max))
      (l := rt.chunkMap.chunks)
    cases isMaxInclusive
    · simp only [Bool.false_eq_true, if_false] at hmax
      simp only [start, Bool.false_eq_true, if_false, overlappingRanges,
        countP_min_lt hpart hmax, ChunkMap.lowerBound_eq_countP _ hks]
      split <;> omega
    · simp only [if_true] at hmax
      simp only [start, if_true, overlappingRanges, countP_min_le hpart hmax,
        ChunkMap.upperBound_eq_countP _ hks]
      split <;> omega
  rw [← List.filter_filter, ← ChunkMap.drop_upperBound _ hks, filter_drop hstart, hcount]
  rfl

variable [DecidableEq σ] [ToString α]

end RoutingTableHistory

/-! ## A table the code builds -/

/-- `[0, 5)` on shard `1` at version `1`. -/
def chunkLow : ChunkInfo Nat Nat Nat := ⟨⟨0, 5, 1⟩, ⟨1, 0⟩⟩

/-- `[5, 10)` on shard `2` at version `2`. -/
def chunkHigh : ChunkInfo Nat Nat Nat := ⟨⟨5, 10, 2⟩, ⟨2, 0⟩⟩

/-- The table `makeNew` builds from them, keyed by an encoding that keeps the order of the keys. -/
def splitTable : RoutingTableHistory Nat Nat Nat (id : Nat → Nat) :=
  ⟨"db.coll", 0, 10, ⟨[chunkLow, chunkHigh], by decide⟩, ⟨2, 0⟩, [(1, ⟨1, 0⟩), (2, ⟨2, 0⟩)]⟩

theorem splitTable_partitioned : splitTable.Partitioned :=
  ⟨rfl, by decide, rfl, by decide, rfl⟩

end Mongo.Sharding
