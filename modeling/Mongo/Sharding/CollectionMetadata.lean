import Mathlib.Data.Nat.Basic
import Mongo.Sharding.RangeMap

/-! `CollectionMetadata` of `db/s/collection_metadata.cpp` for a sharded collection:
`getChunks`, the ranges of the chunks this shard owns, and `getNextOrphanRange`, the first
range from a lookup key on that neither an owned chunk nor a range being received holds. The
routing table is its list of chunks in key order, which partitions `[getMinKey(), getMaxKey())`.
Keys are taken in any linear order. -/

namespace Mongo.Sharding

variable {α σ : Type*} [LinearOrder α]

/-- A chunk of the routing table: its range `[min, max)` and the shard that owns it. -/
structure Chunk (α σ : Type*) where
  min : α
  max : α
  shardId : σ

/-- The chunks, in key order, partition `[lo, hi)`: each starts where the one before ends, and
none is empty. -/
def Partitions : List (Chunk α σ) → α → α → Prop
  | [], lo, hi => lo = hi
  | c :: cs, lo, hi => c.min = lo ∧ c.min < c.max ∧ Partitions cs c.max hi

namespace Partitions

theorem le : ∀ {cs : List (Chunk α σ)} {lo hi : α}, Partitions cs lo hi → lo ≤ hi
  | [], _, _, h => le_of_eq h
  | _ :: _, _, _, ⟨hmin, hlt, hcs⟩ => hmin ▸ hlt.le.trans (le hcs)

theorem bounds : ∀ {cs : List (Chunk α σ)} {lo hi : α}, Partitions cs lo hi →
    ∀ c ∈ cs, lo ≤ c.min ∧ c.min < c.max ∧ c.max ≤ hi
  | [], _, _, _ => by simp
  | c :: cs, _, _, ⟨hmin, hlt, hcs⟩ => by
    intro c' hc'
    rcases List.mem_cons.mp hc' with rfl | hc'
    · exact ⟨hmin.ge, hlt, hcs.le⟩
    · obtain ⟨hlo, hlt', hhi⟩ := bounds hcs c' hc'
      exact ⟨hmin ▸ hlt.le.trans hlo, hlt', hhi⟩

/-- A chunk ends at or before every later chunk starts. -/
theorem pairwise : ∀ {cs : List (Chunk α σ)} {lo hi : α}, Partitions cs lo hi →
    cs.Pairwise (fun a b => a.max ≤ b.min)
  | [], _, _, _ => List.Pairwise.nil
  | _ :: _, _, _, ⟨_, _, hcs⟩ =>
    List.Pairwise.cons (fun c' hc' => (bounds hcs c' hc').1) (pairwise hcs)

end Partitions

/-- The routing information of a sharded collection as this shard sees it. -/
structure CollectionMetadata (α σ : Type*) [LinearOrder α] where
  /-- `_cm->chunks()`, in key order -/
  chunks : List (Chunk α σ)
  thisShardId : σ
  /-- `getMinKey()` and `getMaxKey()` of the shard key pattern -/
  minKey : α
  maxKey : α
  partitions : Partitions chunks minKey maxKey

namespace CollectionMetadata

variable [DecidableEq σ] (m : CollectionMetadata α σ)

theorem ownedRanges_pairwise :
    ((m.chunks.filter (fun c => c.shardId = m.thisShardId)).map (fun c => (c.min, c.max))).Pairwise
      (fun a b => a.2 ≤ b.1) :=
  List.pairwise_map.mpr (m.partitions.pairwise.sublist List.filter_sublist)

/-- `getChunks()`: the ranges of the chunks this shard owns, keyed by their mins. -/
def getChunks : RangeMap α where
  entries := (m.chunks.filter (fun c => c.shardId = m.thisShardId)).map (fun c => (c.min, c.max))
  sorted := by
    refine (ownedRanges_pairwise m).imp_of_mem fun {a b} ha _ hab => lt_of_lt_of_le ?_ hab
    obtain ⟨c, hc, rfl⟩ := List.mem_map.mp ha
    exact (m.partitions.bounds c ((List.mem_filter.mp hc).1)).2.1

/-- The owned chunks lie in `[getMinKey(), getMaxKey())`, and none is empty. -/
theorem getChunks_bounds : ∀ r ∈ m.getChunks.entries, m.minKey ≤ r.1 ∧ r.1 < r.2 ∧ r.2 ≤ m.maxKey := by
  intro r hr
  obtain ⟨c, hc, rfl⟩ := List.mem_map.mp hr
  exact m.partitions.bounds c ((List.mem_filter.mp hc).1)

theorem getChunks_disjoint : m.getChunks.Disjoint :=
  RangeMap.Disjoint.of_pairwise (fun r hr => (m.getChunks_bounds r hr).2.1) (ownedRanges_pairwise m)

end CollectionMetadata

/-- Of two predicates, the stronger holds of fewer elements, strictly so when it fails where
the weaker holds. -/
theorem countP_lt_countP {β : Type*} {p q : β → Bool} :
    ∀ {l : List β}, (∀ x ∈ l, p x → q x) → (∃ x ∈ l, q x ∧ ¬ p x) → l.countP p < l.countP q
  | [], _, ⟨_, hx, _⟩ => absurd hx List.not_mem_nil
  | y :: l, hpq, ⟨x, hx, hqx, hpx⟩ => by
    have hmono : l.countP p ≤ l.countP q :=
      List.countP_mono_left fun z hz => hpq z (List.mem_cons_of_mem y hz)
    rw [List.countP_cons, List.countP_cons]
    rcases List.mem_cons.mp hx with rfl | hx
    · -- the head is where the weaker predicate holds and the stronger fails
      rw [if_neg hpx, if_pos hqx]
      omega
    · have hlt := countP_lt_countP (fun z hz => hpq z (List.mem_cons_of_mem y hz)) ⟨x, hx, hqx, hpx⟩
      have hy : (if p y then 1 else 0) ≤ (if q y then 1 else 0) := by
        by_cases hpy : p y
        · simp [hpy, hpq y List.mem_cons_self hpy]
        · simp [hpy]
      omega

section Orphan

variable (chunksMap receivingChunks : RangeMap α) (minKey maxKey : α)

/-- The loop of `getNextOrphanRange` from `lookupKey`: while the key is below `maxKey`, jump over
the owned chunk or received range that holds it; at a key that none holds, return the bounds
patched from both maps. -/
def getNextOrphanRangeFrom (lookupKey : α) : Option (α × α) :=
  if lookupKey < maxKey then
    match _hc : chunksMap.patchLookupKey lookupKey with
    | .inl next => getNextOrphanRangeFrom next
    | .inr chunksIts =>
      match _hp : receivingChunks.patchLookupKey lookupKey with
      | .inl next => getNextOrphanRangeFrom next
      | .inr pendingIts =>
        some (RangeMap.patchArgRange pendingIts (RangeMap.patchArgRange chunksIts (minKey, maxKey)))
  else none
termination_by (chunksMap.entries ++ receivingChunks.entries).countP (fun r => lookupKey < r.2)
decreasing_by
  -- a jump passes the end of the range it leaves, which no later key reaches
  all_goals
    obtain ⟨hlt, r, hr, -, rfl⟩ := RangeMap.patchLookupKey_inl ‹_›
    refine countP_lt_countP (fun x _ hx => ?_) ⟨r, by simp [hr], by simpa using hlt, by simp⟩
    simp only [decide_eq_true_eq] at hx ⊢
    exact hlt.trans hx

/-- The keys that an owned chunk or a received range holds. -/
def Covered (k : α) : Prop := chunksMap.Covers k ∨ receivingChunks.Covers k

variable {chunksMap receivingChunks minKey maxKey}

/-- A jump passes only keys that the range it leaves holds. -/
theorem covers_of_patchLookupKey_inl {map : RangeMap α} {k next : α}
    (h : map.patchLookupKey k = .inl next) : ∀ k', k ≤ k' → k' < next → map.Covers k' := by
  obtain ⟨-, r, hr, hrk, rfl⟩ := RangeMap.patchLookupKey_inl h
  exact fun k' hk hk' => ⟨r, hr, hrk.trans hk, hk'⟩

/-- When the loop reaches `maxKey`, every key it passed is held. -/
theorem getNextOrphanRangeFrom_eq_none {lookupKey : α}
    (h : getNextOrphanRangeFrom chunksMap receivingChunks minKey maxKey lookupKey = none) :
    ∀ k, lookupKey ≤ k → k < maxKey → Covered chunksMap receivingChunks k := by
  fun_induction getNextOrphanRangeFrom chunksMap receivingChunks minKey maxKey lookupKey with
  | case1 key _ next hc ih =>
    intro k hk hkmax
    rcases lt_or_ge k next with hlt | hge
    · exact .inl (covers_of_patchLookupKey_inl hc k hk hlt)
    · exact ih h k hge hkmax
  | case2 key _ _ _ next hp ih =>
    intro k hk hkmax
    rcases lt_or_ge k next with hlt | hge
    · exact .inr (covers_of_patchLookupKey_inl hp k hk hlt)
    · exact ih h k hge hkmax
  | case3 => cases h
  | case4 key hge =>
    intro k hk hkmax
    exact absurd (hk.trans_lt hkmax) hge

/-- When the loop returns, it stopped at a key below `maxKey` that neither map jumps from,
having passed only held keys, and returned the bounds patched there. -/
theorem getNextOrphanRangeFrom_eq_some {lookupKey : α} {range : α × α}
    (h : getNextOrphanRangeFrom chunksMap receivingChunks minKey maxKey lookupKey = some range) :
    ∃ p chunksIts pendingIts, lookupKey ≤ p ∧ p < maxKey ∧
      (∀ k, lookupKey ≤ k → k < p → Covered chunksMap receivingChunks k) ∧
      chunksMap.patchLookupKey p = .inr chunksIts ∧
      receivingChunks.patchLookupKey p = .inr pendingIts ∧
      range = RangeMap.patchArgRange pendingIts (RangeMap.patchArgRange chunksIts (minKey, maxKey)) := by
  fun_induction getNextOrphanRangeFrom chunksMap receivingChunks minKey maxKey lookupKey with
  | case1 key _ next hc ih =>
    obtain ⟨p, ci, pi, hnext, hp, hcov, hci, hpi, hr⟩ := ih h
    have hkey := (RangeMap.patchLookupKey_inl hc).1
    refine ⟨p, ci, pi, hkey.le.trans hnext, hp, fun k hk hkp => ?_, hci, hpi, hr⟩
    rcases lt_or_ge k next with hlt | hge
    · exact .inl (covers_of_patchLookupKey_inl hc k hk hlt)
    · exact hcov k hge hkp
  | case2 key _ _ _ next hp' ih =>
    obtain ⟨p, ci, pi, hnext, hp, hcov, hci, hpi, hr⟩ := ih h
    have hkey := (RangeMap.patchLookupKey_inl hp').1
    refine ⟨p, ci, pi, hkey.le.trans hnext, hp, fun k hk hkp => ?_, hci, hpi, hr⟩
    rcases lt_or_ge k next with hlt | hge
    · exact .inr (covers_of_patchLookupKey_inl hp' k hk hlt)
    · exact hcov k hge hkp
  | case3 key hlt ci hci pi hpi =>
    exact ⟨key, ci, pi, le_rfl, hlt, fun k hk hkp => absurd (hk.trans_lt hkp) (lt_irrefl key),
      hci, hpi, (Option.some.inj h).symm⟩
  | case4 => cases h

end Orphan


namespace CollectionMetadata

variable [DecidableEq σ]

/-- `getNextOrphanRange(receivingChunks, origLookupKey)`. -/
def getNextOrphanRange (m : CollectionMetadata α σ) (receivingChunks : RangeMap α)
    (origLookupKey : α) : Option (α × α) :=
  getNextOrphanRangeFrom m.getChunks receivingChunks m.minKey m.maxKey origLookupKey

/-- The range handed to the range deleter holds no owned or incoming key, encloses the first
key from the lookup key on that neither holds, and is bounded by `getMinKey()`, `getMaxKey()` or
ends of owned chunks and received ranges; `none` means every key from the lookup key to
`getMaxKey()` is held. -/
theorem getNextOrphanRange_maximal_gap (m : CollectionMetadata α σ) (receivingChunks : RangeMap α)
    (hrecv : receivingChunks.Disjoint) (lookupKey : α) (hkey : m.minKey ≤ lookupKey) :
    let covered := fun k => m.getChunks.Covers k ∨ receivingChunks.Covers k
    (m.getNextOrphanRange receivingChunks lookupKey = none ↔
      ∀ k, lookupKey ≤ k → k < m.maxKey → covered k) ∧
    ∀ lo hi, m.getNextOrphanRange receivingChunks lookupKey = some (lo, hi) →
      (∀ k, lo ≤ k → k < hi → ¬ covered k) ∧
      (∃ p, lookupKey ≤ p ∧ ¬ covered p ∧ (∀ k, lookupKey ≤ k → k < p → covered k) ∧
        lo ≤ p ∧ p < hi) ∧
      (lo = m.minKey ∨ ∃ r ∈ m.getChunks.entries ++ receivingChunks.entries, r.2 = lo) ∧
      (hi = m.maxKey ∨ ∃ r ∈ m.getChunks.entries ++ receivingChunks.entries, r.1 = hi) := by
  intro covered
  -- the stop of a returning run: the key, both patched bounds, and what each patch keeps
  have hstop : ∀ lo hi, m.getNextOrphanRange receivingChunks lookupKey = some (lo, hi) →
      ∃ p, lookupKey ≤ p ∧ ¬ covered p ∧ (∀ k, lookupKey ≤ k → k < p → covered k) ∧
        lo ≤ p ∧ p < hi ∧ (∀ k, lo ≤ k → k < hi → ¬ covered k) ∧
        (lo = m.minKey ∨ ∃ r ∈ m.getChunks.entries ++ receivingChunks.entries, r.2 = lo) ∧
        (hi = m.maxKey ∨ ∃ r ∈ m.getChunks.entries ++ receivingChunks.entries, r.1 = hi) ∧
        p < m.maxKey := by
    intro lo hi h
    obtain ⟨p, ci, pi, hp, hpmax, hcov, hci, hpi, hrange⟩ := getNextOrphanRangeFrom_eq_some h
    have hc := RangeMap.patchArgRange_spec m.getChunks_disjoint hci (hkey.trans hp) hpmax
    obtain ⟨-, hlo₁, hhi₁, -, hfree₁, hlo₁', hhi₁'⟩ := hc
    have hr := RangeMap.patchArgRange_spec hrecv hpi hlo₁ hhi₁
    obtain ⟨hlo₂, hlo₂p, hhi₂p, hhi₂, hfree₂, hlo₂', hhi₂'⟩ := hr
    rw [← hrange] at hlo₂ hlo₂p hhi₂p hhi₂ hfree₂ hlo₂' hhi₂'
    refine ⟨p, hp, ?_, hcov, hlo₂p, hhi₂p, ?_, ?_, ?_, hpmax⟩
    · rintro (hcp | hrp)
      · exact (RangeMap.patchLookupKey_inr m.getChunks_disjoint hci).2 hcp
      · exact (RangeMap.patchLookupKey_inr hrecv hpi).2 hrp
    · -- the received ranges miss the final bounds, the owned chunks miss the wider first ones
      rintro k hlo hhi (hck | hrk)
      · exact hfree₁ k (hlo₂.trans hlo) (hhi.trans_le hhi₂) hck
      · exact hfree₂ k hlo hhi hrk
    · rcases hlo₂' with he | ⟨r, hr, he⟩
      · rcases hlo₁' with he' | ⟨r, hr, he'⟩
        · exact .inl (he.trans he')
        · exact .inr ⟨r, List.mem_append_left _ hr, he'.trans he.symm⟩
      · exact .inr ⟨r, List.mem_append_right _ hr, he⟩
    · rcases hhi₂' with he | ⟨r, hr, he⟩
      · rcases hhi₁' with he' | ⟨r, hr, he'⟩
        · exact .inl (he.trans he')
        · exact .inr ⟨r, List.mem_append_left _ hr, he'.trans he.symm⟩
      · exact .inr ⟨r, List.mem_append_right _ hr, he⟩
  refine ⟨⟨getNextOrphanRangeFrom_eq_none, fun hall => ?_⟩, ?_⟩
  · -- a returning run stops at a key below `getMaxKey()` that nothing holds
    cases h : m.getNextOrphanRange receivingChunks lookupKey with
    | none => rfl
    | some range =>
      obtain ⟨p, hp, hfree, -, -, -, -, -, -, hpmax⟩ := hstop range.1 range.2 h
      exact absurd (hall p hp hpmax) hfree
  · intro lo hi h
    obtain ⟨p, hp, hfree, hcov, hlop, hphi, hgap, hlo, hhi, -⟩ := hstop lo hi h
    exact ⟨hgap, ⟨p, hp, hfree, hcov, hlop, hphi⟩, hlo, hhi⟩

/-- Shard `0` owns `[0, 10)` and `[20, 30)` of `[0, 30)`, and shard `1` owns `[10, 20)`. -/
def twoShardMetadata : CollectionMetadata Nat Nat where
  chunks := [⟨0, 10, 0⟩, ⟨10, 20, 1⟩, ⟨20, 30, 0⟩]
  thisShardId := 0
  minKey := 0
  maxKey := 30
  partitions := by simp [Partitions]

/-- Shard `0` is receiving `[10, 15)`. -/
def receivingLowHalf : RangeMap Nat := ⟨[(10, 15)], by simp⟩

/-- From key `0`, key `15` is held by neither map, so the loop returns a range. -/
theorem getNextOrphanRange_twoShard_ne_none :
    receivingLowHalf.Disjoint ∧ twoShardMetadata.minKey ≤ 0 ∧
      twoShardMetadata.getNextOrphanRange receivingLowHalf 0 ≠ none := by
  have hd : receivingLowHalf.Disjoint := RangeMap.Disjoint.of_pairwise (by simp [receivingLowHalf])
    (by simp [receivingLowHalf])
  refine ⟨hd, le_rfl, fun h => ?_⟩
  have hcov := (getNextOrphanRange_maximal_gap twoShardMetadata receivingLowHalf hd 0 le_rfl).1.mp h
    15 (Nat.zero_le 15) (by decide)
  simp [RangeMap.Covers, getChunks, twoShardMetadata, receivingLowHalf] at hcov

end CollectionMetadata

end Mongo.Sharding
