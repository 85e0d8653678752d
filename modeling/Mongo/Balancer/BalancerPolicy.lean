import Mongo.Balancer.DistributionStatus

/-! One balancing round, `BalancerPolicy::balance` (`db/s/balancer/balancer_policy.cpp`). It
proposes migrations in three phases: a chunk off each draining shard, a chunk off each shard that
holds one outside its zone, and then, zone by zone, chunks from the shard with the most chunks
of the zone to the one with the fewest chunks, while they are far enough apart. A shard takes
part in one migration at most: each phase skips the shards in `usedShards`, and adds the donor and
the recipient of each migration to it under an `invariant` that they were not there yet.

The round reads the distribution it was given and does not change it: every count is the one
before any migration. Shard ids are of any type whose default value is the invalid id, as the
default `ShardId` is the empty one. The `balancerShouldReturnRandomMigrations` fail point, which
returns one random migration for tests, is not modelled. -/

namespace Mongo.Balancer

open Sharding

variable {α σ : Type} [LinearOrder α] [DecidableEq σ] [Inhabited σ]

/-- `ShardId::isValid`: not the default, empty id. -/
def ShardId.isValid (shardId : σ) : Bool := shardId != default

/-- `ChunkType` as the balancer reads it: the range and the shard of a `Chunk`, and `jumbo`. -/
structure ChunkType (α σ : Type) extends Chunk α σ where
  jumbo : Bool

/-- `ChunkType::validate` on the fields kept: a valid shard, and `max` above `min`. -/
def ChunkType.validate (chunk : ChunkType α σ) : Bool :=
  ShardId.isValid chunk.shardId && decide (chunk.min < chunk.max)

/-- `ClusterStatistics::ShardStatistics`, without `mongoVersion`, which the balancer does not
read. A size of zero is no size. -/
structure ShardStatistics (σ : Type) where
  shardId : σ
  maxSizeMB : Nat
  currSizeMB : Nat
  isDraining : Bool
  shardTags : List String

/-- `ShardStatistics::isSizeMaxed`: a maximum is set, and the shard has reached it. -/
def ShardStatistics.isSizeMaxed (stat : ShardStatistics σ) : Bool :=
  if stat.maxSizeMB = 0 ∨ stat.currSizeMB = 0 then false else stat.maxSizeMB ≤ stat.currSizeMB

/-- `MigrateInfo::MigrationReason`. -/
inductive MigrationReason
  | drain
  | zoneViolation
  | chunksImbalance
  deriving DecidableEq, Repr

/-- `MoveChunkRequest::ForceJumbo`. -/
inductive ForceJumbo
  | kDoNotForce
  | kForceBalancer
  | kForceManual
  deriving DecidableEq, Repr

/-- `MigrateInfo`, without the namespace and the chunk version it copies. `toShard` and
`fromShard` are the source's `to` and `from`, which the chunk names. -/
structure MigrateInfo (α σ : Type) where
  toShard : σ
  fromShard : σ
  minKey : α
  maxKey : α
  forceJumbo : ForceJumbo
  reason : MigrationReason
  deriving DecidableEq, Repr

/-- The constructor `MigrateInfo(to, chunk, forceJumbo, reason)`, with its two `invariant`s. -/
def MigrateInfo.make (toShard : σ) (chunk : ChunkType α σ) (forceJumbo : ForceJumbo)
    (reason : MigrationReason) : Option (MigrateInfo α σ) :=
  if chunk.validate ∧ ShardId.isValid toShard then
    some ⟨toShard, chunk.shardId, chunk.min, chunk.max, forceJumbo, reason⟩
  else none

/-- The `DistributionStatus` a round reads: its zones, and `_shardChunks`, the chunks of each
shard, keyed by shard as in a `std::map`. -/
structure ChunkDistribution (α σ : Type) [LinearOrder α] extends DistributionStatus α where
  shardChunks : List (σ × List (ChunkType α σ))
  nodup : (shardChunks.map Prod.fst).Nodup

namespace ChunkDistribution

variable (d : ChunkDistribution α σ)

/-- `getChunks(shardId)`; `none` is the `invariant` that the shard is in the map. -/
def getChunks (shardId : σ) : Option (List (ChunkType α σ)) := d.shardChunks.lookup shardId

/-- `numberOfChunksInShard(shardId)`. -/
def numberOfChunksInShard (shardId : σ) : Option Nat := (d.getChunks shardId).map List.length

/-- The chunks of a list whose zone is `tag`. -/
def chunksWithTag (chunks : List (ChunkType α σ)) (tag : String) : Nat :=
  chunks.countP fun chunk => decide (tag = d.getTagForChunk chunk.toChunk)

/-- `numberOfChunksInShardWithTag(shardId, tag)`. -/
def numberOfChunksInShardWithTag (shardId : σ) (tag : String) : Option Nat :=
  (d.getChunks shardId).map fun chunks => d.chunksWithTag chunks tag

/-- `totalChunks()`. -/
def totalChunks : Nat := (d.shardChunks.map fun e => e.2.length).sum

/-- `totalChunksWithTag(tag)`: over the entries of the map, whose `getChunks` is the entry's
list. -/
def totalChunksWithTag (tag : String) : Nat :=
  (d.shardChunks.map fun e => d.chunksWithTag e.2 tag).sum

/-- `tags()`: `_allTags`, a `std::set`, in its order. -/
def tags : List String := d.allTags.insertionSort fun a b => a ≤ b

end ChunkDistribution

/-- `kDefaultImbalanceThreshold`. -/
def kDefaultImbalanceThreshold : Nat := 1

/-- `(size_t)std::roundf(total / (float)shards)`: `total / shards` rounded half up, which is
what the `float` computation gives while `total` and `shards` are below `2^23`. -/
def idealNumberOfChunksPerShard (total shards : Nat) : Nat := (2 * total + shards) / (2 * shards)

namespace BalancerPolicy

variable [ToString σ]

/-- `isShardSuitableReceiver(stat, chunkTag)`: `()`, or the reason of the `IllegalOperation`
status. -/
def isShardSuitableReceiver (stat : ShardStatistics σ) (chunkTag : String) : Except String Unit :=
  if stat.isSizeMaxed then .error (toString stat.shardId ++ " has reached its maximum storage size.")
  else if stat.isDraining then .error (toString stat.shardId ++ " is currently draining.")
  else if chunkTag ≠ "" ∧ chunkTag ∉ stat.shardTags then
    .error (toString stat.shardId ++ " is not in the correct zone " ++ chunkTag)
  else .ok ()

/-- The scan both choices of a shard make: over the statistics in order, a shard that `accept`s
and whose chunk count, as an `unsigned`, is `better` than the best one so far becomes the best. -/
def scanShards (accept : ShardStatistics σ → Bool) (count : σ → Option Nat)
    (better : Nat → Nat → Bool) : List (ShardStatistics σ) → σ → Nat → Option σ
  | [], best, _ => some best
  | stat :: rest, best, bestCount =>
    if accept stat then do
      let chunks ← count stat.shardId
      if better (chunks % 2 ^ 32) bestCount then
        scanShards accept count better rest stat.shardId (chunks % 2 ^ 32)
      else scanShards accept count better rest best bestCount
    else scanShards accept count better rest best bestCount

/-- `_getLeastLoadedReceiverShard(shardStats, distribution, tag, excludedShards)`: of the shards
not excluded and fit to receive a chunk of the zone, the first with the fewest chunks, or the
invalid id. -/
def getLeastLoadedReceiverShard (shardStats : List (ShardStatistics σ))
    (distribution : ChunkDistribution α σ) (tag : String) (excludedShards : List σ) : Option σ :=
  scanShards (fun stat => decide (stat.shardId ∉ excludedShards) &&
      (isShardSuitableReceiver stat tag).toBool)
    distribution.numberOfChunksInShard (fun myChunks minChunks => decide (myChunks < minChunks))
    shardStats default (2 ^ 32 - 1)

/-- `_getMostOverloadedShard(shardStats, distribution, chunkTag, excludedShards)`: of the shards
not excluded, the first with the most chunks of the zone, or the invalid id when none has one. -/
def getMostOverloadedShard (shardStats : List (ShardStatistics σ))
    (distribution : ChunkDistribution α σ) (chunkTag : String) (excludedShards : List σ) :
    Option σ :=
  scanShards (fun stat => decide (stat.shardId ∉ excludedShards))
    (fun shardId => distribution.numberOfChunksInShardWithTag shardId chunkTag)
    (fun shardChunkCount maxChunks => decide (maxChunks < shardChunkCount)) shardStats default 0

/-- What a round has planned so far: the migrations, and `usedShards`. -/
structure BalanceState (α σ : Type) where
  migrations : List (MigrateInfo α σ)
  usedShards : List σ

/-- `invariant(usedShards->insert(shardId).second)`: the shard was not used yet. -/
def insertUsed (usedShards : List σ) (shardId : σ) : Option (List σ) :=
  if shardId ∈ usedShards then none else some (shardId :: usedShards)

/-- `migrations->emplace_back(to, chunk, forceJumbo, reason)` and the two inserts into
`usedShards` that follow it, of the donor and of `to`. -/
def BalanceState.addMigration (st : BalanceState α σ) (donor toShard : σ) (chunk : ChunkType α σ)
    (forceJumbo : ForceJumbo) (reason : MigrationReason) : Option (BalanceState α σ) := do
  let migration ← MigrateInfo.make toShard chunk forceJumbo reason
  let usedShards ← insertUsed st.usedShards donor
  let usedShards ← insertUsed usedShards toShard
  pure ⟨st.migrations ++ [migration], usedShards⟩

variable (shardStats : List (ShardStatistics σ)) (distribution : ChunkDistribution α σ)

/-- The loop of the first two phases over the chunks of the shard of `stat`: a chunk that is not
skipped and has a recipient moves, and the loop stops there. The draining phase skips jumbo
chunks; the zone phase skips chunks in no zone or in one of the shard's, and jumbo chunks. -/
def moveOffShard (stat : ShardStatistics σ) (skip : ShardStatistics σ → ChunkType α σ → String → Bool)
    (forceJumbo : ForceJumbo) (reason : MigrationReason) :
    List (ChunkType α σ) → BalanceState α σ → Option (BalanceState α σ)
  | [], st => some st
  | chunk :: rest, st =>
    let tag := distribution.getTagForChunk chunk.toChunk
    if skip stat chunk tag then moveOffShard stat skip forceJumbo reason rest st
    else do
      let toShard ← getLeastLoadedReceiverShard shardStats distribution tag st.usedShards
      if !ShardId.isValid toShard then moveOffShard stat skip forceJumbo reason rest st
      else do
        guard (toShard ≠ stat.shardId)
        st.addMigration stat.shardId toShard chunk forceJumbo reason

/-- The loop of the first two phases over the shards selected and not used. The draining phase
also skips a shard without chunks, on which the inner loop does nothing. -/
def moveOffShards (select : ShardStatistics σ → Bool)
    (skip : ShardStatistics σ → ChunkType α σ → String → Bool)
    (forceJumbo : ForceJumbo) (reason : MigrationReason) :
    List (ShardStatistics σ) → BalanceState α σ → Option (BalanceState α σ)
  | [], st => some st
  | stat :: rest, st =>
    if !select stat then moveOffShards select skip forceJumbo reason rest st
    else if stat.shardId ∈ st.usedShards then moveOffShards select skip forceJumbo reason rest st
    else do
      let chunks ← distribution.getChunks stat.shardId
      let st ← moveOffShard shardStats distribution stat skip forceJumbo reason chunks st
      moveOffShards select skip forceJumbo reason rest st

/-- The loop of `_singleZoneBalance` over the donor's chunks: the first chunk of the zone that is
not jumbo moves to `to`, and the call returns `true`. -/
def moveChunkOfZone (toShard : σ) (tag : String) (forceJumbo : ForceJumbo) :
    List (ChunkType α σ) → BalanceState α σ → Option (Bool × BalanceState α σ)
  | [], st => some (false, st)
  | chunk :: rest, st =>
    if distribution.getTagForChunk chunk.toChunk ≠ tag then moveChunkOfZone toShard tag forceJumbo rest st
    else if chunk.jumbo then moveChunkOfZone toShard tag forceJumbo rest st
    else do
      let st ← st.addMigration chunk.shardId toShard chunk forceJumbo .chunksImbalance
      pure (true, st)

/-- `_singleZoneBalance`: one migration of a chunk of the zone from the most to the least loaded
shard not used, when the donor has more than the ideal number of the zone's chunks and the
recipient fewer. -/
def singleZoneBalance (tag : String) (idealNumberOfChunksPerShardForTag : Nat)
    (forceJumbo : ForceJumbo) (st : BalanceState α σ) : Option (Bool × BalanceState α σ) := do
  let fromShard ← getMostOverloadedShard shardStats distribution tag st.usedShards
  if !ShardId.isValid fromShard then pure (false, st)
  else do
    let max ← distribution.numberOfChunksInShardWithTag fromShard tag
    -- a donor with no more than the ideal count is not used
    if max ≤ idealNumberOfChunksPerShardForTag then pure (false, st)
    else do
      let toShard ← getLeastLoadedReceiverShard shardStats distribution tag st.usedShards
      if !ShardId.isValid toShard then pure (false, st)
      else do
        let min ← distribution.numberOfChunksInShardWithTag toShard tag
        -- nor a recipient with no fewer
        if idealNumberOfChunksPerShardForTag ≤ min then pure (false, st)
        else if max - idealNumberOfChunksPerShardForTag < kDefaultImbalanceThreshold then
          pure (false, st)
        else do
          let chunks ← distribution.getChunks fromShard
          moveChunkOfZone distribution toShard tag forceJumbo chunks st

/-- `while (_singleZoneBalance(...));`, cut off after `fuel` calls; `balance` gives it one more
call than there are shards, which the loop never reaches. -/
def balanceZone (tag : String) (idealNumberOfChunksPerShardForTag : Nat) (forceJumbo : ForceJumbo) :
    Nat → BalanceState α σ → Option (BalanceState α σ)
  | 0, _ => none
  | fuel + 1, st => do
    let (more, st) ← singleZoneBalance shardStats distribution tag
      idealNumberOfChunksPerShardForTag forceJumbo st
    if more then balanceZone tag idealNumberOfChunksPerShardForTag forceJumbo fuel st else pure st

/-- `totalNumberOfChunksWithTag` in `balance`: every chunk for the zone `""`. -/
def totalNumberOfChunksWithTag (tag : String) : Nat :=
  if tag = "" then distribution.totalChunks else distribution.totalChunksWithTag tag

/-- `totalNumberOfShardsWithTag` in `balance`: every shard for the zone `""`. -/
def totalNumberOfShardsWithTag (tag : String) : Nat :=
  shardStats.countP fun stat => decide (tag = "" ∨ tag ∈ stat.shardTags)

/-- `idealNumberOfChunksPerShardForTag` in `balance`, for the zone `tag`. -/
def idealForTag (tag : String) : Nat :=
  idealNumberOfChunksPerShard (totalNumberOfChunksWithTag distribution tag)
    (totalNumberOfShardsWithTag shardStats tag)

/-- The third phase, over the zones and then `""`, the chunks in no zone on every shard: a zone
with no shard is skipped, and the others are balanced towards the rounded mean. -/
def balanceZones (forceJumbo : ForceJumbo) :
    List String → BalanceState α σ → Option (BalanceState α σ)
  | [], st => some st
  | tag :: rest, st =>
    if totalNumberOfShardsWithTag shardStats tag = 0 then balanceZones forceJumbo rest st
    else do
      let st ← balanceZone shardStats distribution tag (idealForTag shardStats distribution tag)
        forceJumbo (shardStats.length + 1) st
      balanceZones forceJumbo rest st

/-- `balance(shardStats, distribution, usedShards, forceJumbo)`: the migrations, and the
`usedShards` it leaves; `none` is a failed `invariant`. -/
def balance (usedShards : List σ) (forceJumbo : Bool) :
    Option (List (MigrateInfo α σ) × List σ) := do
  let st : BalanceState α σ := ⟨[], usedShards⟩
  -- 1) chunks off the draining shards
  let st ← moveOffShards shardStats distribution (fun stat => stat.isDraining)
    (fun _ chunk _ => chunk.jumbo) .kForceBalancer .drain shardStats st
  -- 2) chunks off the shards outside their zone
  let st ← if distribution.tags.isEmpty then pure st else
    moveOffShards shardStats distribution (fun _ => true)
      (fun stat chunk tag => decide (tag = "" ∨ tag ∈ stat.shardTags) || chunk.jumbo)
      (if forceJumbo then .kForceBalancer else .kDoNotForce) .zoneViolation shardStats st
  -- 3) each zone, and the chunks in no zone
  let st ← balanceZones shardStats distribution
    (if forceJumbo then .kForceBalancer else .kDoNotForce) (distribution.tags ++ [""]) st
  pure (st.migrations, st.usedShards)

/-- `balanceSingleChunk(chunk, shardStats, distribution)`: a move of the chunk to the least
loaded shard fit for its zone, if that is another shard. -/
def balanceSingleChunk (chunk : ChunkType α σ) : Option (Option (MigrateInfo α σ)) := do
  let tag := distribution.getTagForChunk chunk.toChunk
  let newShardId ← getLeastLoadedReceiverShard shardStats distribution tag []
  if !ShardId.isValid newShardId || newShardId == chunk.shardId then pure none
  else (MigrateInfo.make newShardId chunk .kDoNotForce .chunksImbalance).map some

end BalancerPolicy

end Mongo.Balancer
