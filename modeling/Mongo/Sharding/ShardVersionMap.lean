import Mathlib.Data.List.Chain
import Mathlib.Data.List.TakeWhile
import Mongo.Sharding.Routing

/-! What `_constructShardVersionMap` checks of a chunk map. It walks the chunks in maximal runs
owned by one shard (`findRunEnd_eq`) and compares the max of each run's last chunk with the min
of the next run's first: so it checks that two consecutive chunks owned by different shards meet
(`constructShardVersionMap_ok`), and nothing of two consecutive chunks of one shard. A gap
between those is accepted, and `keyBelongsToShard` then fails its `invariant` on a key of the
gap (`makeNew_accepts_gap_within_shard`). -/

namespace Mongo.Sharding

variable {α σ ε κ : Type}

/-- Two consecutive chunks meet when they are owned by different shards. -/
def MeetAcrossShards (a b : ChunkInfo α σ ε) : Prop := a.shardId ≠ b.shardId → a.max = b.min

/-- What `_constructShardVersionMap` checks of the chunks, in map order: consecutive chunks of
different shards meet, the first starts at `globalMin` and the last ends at `globalMax`. -/
def RunsMeet (globalMin globalMax : α) (chunks : List (ChunkInfo α σ ε)) : Prop :=
  chunks.IsChain MeetAcrossShards ∧ (∀ c ∈ chunks.head?, c.min = globalMin) ∧
    ∀ c ∈ chunks.getLast?, c.max = globalMax

section

variable [DecidableEq σ]

/-- `findRunEnd` stops at the first chunk of another shard: it returns the last chunk of the run
and the chunks after it. -/
theorem findRunEnd_eq (shardId : σ) :
    ∀ (v : ChunkVersion ε) (last : ChunkInfo α σ ε) (l : List (ChunkInfo α σ ε)),
      ∃ v', findRunEnd shardId v last l =
        (v', (l.takeWhile (fun c => decide (c.shardId = shardId))).getLastD last,
          l.dropWhile (fun c => decide (c.shardId = shardId)))
  | v, last, [] => ⟨v, rfl⟩
  | v, last, c :: cs => by
    by_cases hc : c.shardId = shardId
    · -- the run goes on past `c`, which becomes the last chunk walked
      obtain ⟨v', h⟩ := findRunEnd_eq shardId
        (if v.combined < c.lastmod.combined then c.lastmod else v) c cs
      refine ⟨v', ?_⟩
      rw [findRunEnd, if_neg (not_not.mpr hc), h, List.takeWhile_cons_of_pos (by simpa using hc),
        List.dropWhile_cons_of_pos (by simpa using hc), List.getLastD_cons]
    · refine ⟨v, ?_⟩
      rw [findRunEnd, if_pos hc, List.takeWhile_cons_of_neg (by simpa using hc),
        List.dropWhile_cons_of_neg (by simpa using hc)]
      rfl

omit [DecidableEq σ] in
/-- The chunks of one shard meet every condition `MeetAcrossShards` sets between them. -/
theorem isChain_meetAcrossShards_of_shardId {shardId : σ} :
    ∀ {l : List (ChunkInfo α σ ε)}, (∀ c ∈ l, c.shardId = shardId) → l.IsChain MeetAcrossShards
  | [], _ => .nil
  | [_], _ => .singleton _
  | a :: b :: l, h => by
    refine .cons_cons ?_ (isChain_meetAcrossShards_of_shardId fun c hc => h c
      (List.mem_cons_of_mem a hc))
    intro hab
    exact absurd ((h a List.mem_cons_self).trans (h b (by simp)).symm) hab

variable [LinearOrder α] [ToString α] [LinearOrder κ] {keyString : α → κ}

omit [DecidableEq σ] in
/-- The continuity check passes only where the run before ends at the min of this one. -/
theorem checkContinuity_ok {p : ChunkInfo α σ ε} {rangeMin : α} {rangeLast : ChunkInfo α σ ε}
    (h : checkContinuity (some p) rangeMin rangeLast = .ok ()) : p.max = rangeMin := by
  rw [checkContinuity] at h
  by_contra hne
  rcases lt_or_gt_of_ne hne with hlt | hgt
  · -- a gap
    rw [if_neg hne, if_pos hlt] at h
    cases h
  · -- an overlap
    rw [if_neg hne, if_neg (not_lt.mpr hgt.le)] at h
    cases h

/-- What one run of the loop of `_constructShardVersionMap` leaves: the run before meets the
first chunk, consecutive chunks of different shards meet, and the last chunk and `firstMin`
are those of all the chunks walked. -/
theorem constructLoop_ok (epoch : ε) :
    ∀ (fuel : Nat) (l : List (ChunkInfo α σ ε)) (shardVersions : List (σ × ChunkVersion ε))
      (firstMin : Option α) (prev : Option (ChunkInfo α σ ε))
      {r : List (σ × ChunkVersion ε) × Option α × Option (ChunkInfo α σ ε)},
      constructLoop epoch fuel l shardVersions firstMin prev = .ok r →
        (∀ p ∈ prev, ∀ f ∈ l.head?, p.max = f.min) ∧ l.IsChain MeetAcrossShards ∧
          r.2.2 = (prev.toList ++ l).getLast? ∧ r.2.1 = (firstMin <|> l.head?.map (·.min))
  | _, [], _, firstMin, prev, r, h => by
    rw [constructLoop] at h
    cases h
    refine ⟨by simp, .nil, ?_, by cases firstMin <;> rfl⟩
    cases prev <;> rfl
  | 0, _ :: _, _, _, _, _, h => by cases h
  | fuel + 1, first :: rest, shardVersions, firstMin, prev, r, h => by
    obtain ⟨v, hrun⟩ := findRunEnd_eq first.shardId
      (lookupVersion shardVersions first.shardId epoch) first (first :: rest)
    rw [List.takeWhile_cons_of_pos (by simp), List.dropWhile_cons_of_pos (by simp),
      List.getLastD_cons] at hrun
    -- the run is `first` and the chunks of its shard after it
    have hsplit : first :: rest =
        (first :: rest.takeWhile (fun c => decide (c.shardId = first.shardId))) ++
          rest.dropWhile (fun c => decide (c.shardId = first.shardId)) := by
      rw [List.cons_append, List.takeWhile_append_dropWhile]
    have hrunShard : ∀ c ∈ first :: rest.takeWhile (fun c => decide (c.shardId = first.shardId)),
        c.shardId = first.shardId := by
      intro c hc
      rcases List.mem_cons.mp hc with rfl | hc
      · rfl
      · simpa using List.mem_takeWhile_imp hc
    rw [constructLoop, hrun] at h
    dsimp only at h
    cases hcc : checkContinuity prev first.min
        ((rest.takeWhile (fun c => decide (c.shardId = first.shardId))).getLastD first) with
    | error e =>
      rw [hcc] at h
      cases h
    | ok u =>
      rw [hcc] at h
      split at h
      · cases h
      · -- the loop goes on from the chunk after the run
        obtain ⟨hjoin, hchain, hr, hmin⟩ := constructLoop_ok epoch fuel _ _ _ _ h
        refine ⟨fun p hp f hf => ?_, ?_, ?_, ?_⟩
        · obtain rfl : f = first := by simpa using hf.symm
          obtain rfl : prev = some p := hp
          exact checkContinuity_ok hcc
        · rw [hsplit, List.isChain_append]
          refine ⟨isChain_meetAcrossShards_of_shardId hrunShard, hchain, fun x hx y hy _ => ?_⟩
          rw [List.getLast?_cons, ← List.getLastD_eq_getLast?] at hx
          exact hjoin x hx y hy
        · -- the last chunk walked is the last of the chunks after the run, or else of the run
          rw [hr, hsplit, List.getLast?_append, List.getLast?_append, List.getLast?_append,
            List.getLast?_cons, List.getLastD_eq_getLast?]
          simp
        · rw [hmin]
          cases firstMin <;> rfl

omit [DecidableEq σ] [LinearOrder α] in
theorem checkAllElementsAreOfType_ok {typeName : String} {ok : Bool} {o : α} {u : Unit}
    (h : checkAllElementsAreOfType typeName ok o = .ok u) : ok = true := by
  unfold checkAllElementsAreOfType at h
  split at h
  · assumption
  · cases h

/-- What `_constructShardVersionMap` accepts: consecutive chunks owned by different shards meet,
the first chunk starts at the all-`MinKey` key and the last ends at the all-`MaxKey` key. -/
theorem constructShardVersionMap_ok {epoch : ε} {globalMin globalMax : α}
    {chunks : List (ChunkInfo α σ ε)} {shardVersions : List (σ × ChunkVersion ε)}
    (h : constructShardVersionMap epoch globalMin globalMax chunks = .ok shardVersions) :
    RunsMeet globalMin globalMax chunks := by
  unfold constructShardVersionMap at h
  cases hloop : constructLoop epoch chunks.length chunks [] none none with
  | error e =>
    rw [hloop] at h
    cases h
  | ok r =>
    obtain ⟨svm, firstMin, last⟩ := r
    obtain ⟨-, hchain, hlast, hfirst⟩ := constructLoop_ok epoch _ chunks [] none none hloop
    refine ⟨hchain, ?_⟩
    cases chunks with
    | nil => simp
    | cons c cs =>
      -- the loop saw the min of the first chunk and ended on the last one
      obtain rfl : firstMin = some c.min := hfirst
      obtain rfl : last = some (cs.getLastD c) := hlast.trans (by
        rw [Option.toList_none, List.nil_append, List.getLast?_cons, List.getLastD_eq_getLast?])
      rw [hloop] at h
      simp only [bind, Except.bind, List.isEmpty_cons, Bool.not_false, if_true] at h
      -- the invariant that some shard has a version held, and then both type checks passed
      split at h
      · cases h
      · cases hmin : checkAllElementsAreOfType "minKey" (decide (c.min = globalMin)) c.min with
        | error e =>
          rw [hmin] at h
          cases h
        | ok u =>
          cases hmax : checkAllElementsAreOfType "maxKey" (decide ((cs.getLastD c).max = globalMax))
              (cs.getLastD c).max with
          | error e =>
            rw [hmin, hmax] at h
            cases h
          | ok u' =>
            refine ⟨fun x hx => ?_, fun x hx => ?_⟩
            · obtain rfl : c = x := Option.some.inj hx
              exact of_decide_eq_true (checkAllElementsAreOfType_ok hmin)
            · rw [List.getLast?_cons, ← List.getLastD_eq_getLast?] at hx
              obtain rfl : cs.getLastD c = x := Option.some.inj hx
              exact of_decide_eq_true (checkAllElementsAreOfType_ok hmax)
namespace RoutingTableHistory

/-- The constructor keeps the map and the bounds it is given, and its shard versions are those
`_constructShardVersionMap` returns. -/
theorem make_ok {ns : String} {globalMin globalMax : α} {chunkMap : ChunkMap α σ ε keyString}
    {collectionVersion : ChunkVersion ε} {rt : RoutingTableHistory α σ ε keyString}
    (h : make ns globalMin globalMax chunkMap collectionVersion = .ok rt) :
    rt.chunkMap = chunkMap ∧ rt.globalMin = globalMin ∧ rt.globalMax = globalMax ∧
      constructShardVersionMap collectionVersion.epoch globalMin globalMax chunkMap.chunks =
        .ok rt.shardVersions := by
  unfold make at h
  cases hc : constructShardVersionMap collectionVersion.epoch globalMin globalMax chunkMap.chunks with
  | error e =>
    rw [hc] at h
    cases h
  | ok shardVersions =>
    rw [hc] at h
    cases h
    exact ⟨rfl, rfl, rfl, rfl⟩

variable [DecidableEq ε] [ToString ε]

/-- `makeUpdated` returns the same table, or one over the same bounds whose chunks passed the
check of `_constructShardVersionMap`. -/
theorem makeUpdated_ok {rt rt' : RoutingTableHistory α σ ε keyString} {changedChunks : List (ChunkInfo α σ ε)}
    (h : rt.makeUpdated changedChunks = .ok rt') :
    rt' = rt ∨ (rt'.globalMin = rt.globalMin ∧ rt'.globalMax = rt.globalMax ∧
      RunsMeet rt.globalMin rt.globalMax rt'.chunkMap.chunks) := by
  unfold makeUpdated at h
  cases hl : makeUpdatedLoop rt.ns rt.chunkMap rt.collectionVersion changedChunks with
  | error e =>
    rw [hl] at h
    cases h
  | ok p =>
    rw [hl] at h
    simp only [bind, Except.bind] at h
    split at h
    · -- the collection version did not move
      cases h
      exact .inl rfl
    · obtain ⟨hmap, hmin, hmax, hc⟩ := make_ok h
      exact .inr ⟨hmin, hmax, hmap ▸ constructShardVersionMap_ok hc⟩

/-- What `makeNew` guarantees of the table it returns: its bounds are the ones given, and its
chunks, in map order, passed the check of `_constructShardVersionMap`. -/
theorem makeNew_ok {ns : String} {globalMin globalMax : α} {epoch : ε}
    {chunks : List (ChunkInfo α σ ε)} {rt : RoutingTableHistory α σ ε keyString}
    (h : makeNew keyString ns globalMin globalMax epoch chunks = .ok rt) :
    rt.globalMin = globalMin ∧ rt.globalMax = globalMax ∧
      RunsMeet globalMin globalMax rt.chunkMap.chunks := by
  unfold makeNew at h
  cases h0 : make ns globalMin globalMax (ChunkMap.empty keyString : ChunkMap α σ ε keyString)
      ⟨0, epoch⟩ with
  | error e =>
    rw [h0] at h
    cases h
  | ok rt₀ =>
    rw [h0] at h
    obtain ⟨hmap, hmin, hmax, -⟩ := make_ok h0
    rcases makeUpdated_ok h with rfl | ⟨hmin', hmax', hmeet⟩
    · -- the empty table: no chunk to check
      rw [hmap]
      exact ⟨hmin, hmax, .nil, by simp [ChunkMap.empty], by simp [ChunkMap.empty]⟩
    · rw [hmin] at hmin' hmeet
      rw [hmax] at hmax' hmeet
      exact ⟨hmin', hmax', hmeet⟩

end RoutingTableHistory

end

/-! ## A gap inside a run of one shard -/

/-- `[7, 10)` on shard `1` at version `2`: the keys `[5, 7)` between `chunkLow` and it are in
no chunk. -/
def chunkGap : ChunkInfo Nat Nat Nat := ⟨⟨7, 10, 1⟩, ⟨2, 0⟩⟩

/-- The table `makeNew` builds from `chunkLow` and `chunkGap`. -/
def gapTable : RoutingTableHistory Nat Nat Nat (id : Nat → Nat) :=
  ⟨"db.coll", 0, 10, ⟨[chunkLow, chunkGap], by decide⟩, ⟨2, 0⟩, [(1, ⟨2, 0⟩)]⟩

theorem makeNew_ok_gapTable :
    gapTable.globalMin = 0 ∧ gapTable.globalMax = 10 ∧ RunsMeet 0 10 gapTable.chunkMap.chunks :=
  RoutingTableHistory.makeNew_ok
    (rfl : RoutingTableHistory.makeNew id "db.coll" 0 10 0 [chunkLow, chunkGap] = .ok gapTable)

/-- `makeNew` accepts two chunks of one shard with a gap between them, since the continuity
check compares only the ends of runs of different shards; `keyBelongsToShard` then reaches its
`invariant(containsKey)` on a key of the gap. -/
theorem makeNew_accepts_gap_within_shard :
    RoutingTableHistory.makeNew id "db.coll" 0 10 0 [chunkLow, chunkGap] = .ok gapTable ∧
      chunkLow.shardId = chunkGap.shardId ∧ chunkLow.max < chunkGap.min ∧
      gapTable.keyBelongsToShard 6 1 = .error .invariantFailure :=
  ⟨rfl, rfl, by decide, rfl⟩

end Mongo.Sharding
