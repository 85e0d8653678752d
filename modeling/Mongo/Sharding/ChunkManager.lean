import Mongo.Sharding.CollectionMetadata

/-! The routing table a router keeps for a sharded collection (`s/chunk_manager.cpp`).
`ChunkInfoMap` holds the chunks keyed by the `KeyString` of their max in a `std::map`; the
lookups `findIntersectingChunk`, `keyBelongsToShard` and `overlappingRanges` are `upper_bound`
and `lower_bound` on it. `makeUpdated` applies a diff of chunks to the map, and the constructor
runs `_constructShardVersionMap`, which walks the chunks in runs owned by one shard and checks
that consecutive runs meet.

Keys are taken in any linear order, the order of `woCompare`. The map is keyed by
`_extractKeyString`, a function `keyString` into a second linear order, the byte order of
`KeyString`s: `upper_bound` and `lower_bound` compare encodings, where `containsKey` and the
continuity check compare keys. The encoder is a parameter; what the lookups return depends on it
keeping the order of the keys. The key with every field `MinKey` (resp. `MaxKey`) is the
pattern's `globalMin` (resp. `globalMax`). A `std::map` iterator is a position in the list of
chunks, `end()` its length. -/

namespace Mongo.Sharding

variable {α σ ε κ : Type} [LinearOrder α] [LinearOrder κ] {keyString : α → κ}

/-- `ChunkVersion`: `_combined`, the major version in the high 32 bits and the minor in the low
32, and the epoch. `>`, `>=` and `<` compare `_combined` only. -/
structure ChunkVersion (ε : Type) where
  combined : Nat
  epoch : ε
  deriving DecidableEq, Repr

/-- `ChunkVersion::isSet()`. -/
def ChunkVersion.isSet (v : ChunkVersion ε) : Bool := decide (0 < v.combined)

/-- `ChunkInfo`: the range and shard of a chunk, and `getLastmod()`. -/
structure ChunkInfo (α σ ε : Type) extends Chunk α σ where
  lastmod : ChunkVersion ε

/-- `ChunkInfo::containsKey`: `min <= shardKey < max` under `woCompare`. -/
def ChunkInfo.containsKey (c : ChunkInfo α σ ε) (shardKey : α) : Bool :=
  decide (c.min ≤ shardKey) && decide (shardKey < c.max)

/-- The errors of the routing table. -/
inductive RoutingError
  /-- `uasserted(ErrorCodes::ConflictingOperationInProgress, ...)` -/
  | conflictingOperationInProgress (reason : String)
  /-- `uasserted(ErrorCodes::ShardKeyNotFound, ...)` -/
  | shardKeyNotFound (reason : String)
  /-- A failed `invariant`. -/
  | invariantFailure
  deriving DecidableEq, Repr

/-! ## `ChunkInfoMap` -/

variable (keyString) in
/-- `std::map::insert` keyed by the `KeyString` of the max: nothing when a chunk whose max has
the same encoding is there. -/
def insertByMax (chunk : ChunkInfo α σ ε) : List (ChunkInfo α σ ε) → List (ChunkInfo α σ ε)
  | [] => [chunk]
  | c :: cs =>
    if keyString c.max < keyString chunk.max then c :: insertByMax chunk cs
    else if keyString c.max = keyString chunk.max then c :: cs
    else chunk :: c :: cs

omit [LinearOrder α] in
theorem mem_insertByMax {chunk d : ChunkInfo α σ ε} :
    ∀ {cs : List (ChunkInfo α σ ε)}, d ∈ insertByMax keyString chunk cs → d = chunk ∨ d ∈ cs
  | [], h => .inl (List.mem_singleton.mp h)
  | c :: cs, h => by
    unfold insertByMax at h
    split at h
    · rcases List.mem_cons.mp h with rfl | h
      · exact .inr List.mem_cons_self
      · rcases mem_insertByMax h with rfl | h
        · exact .inl rfl
        · exact .inr (List.mem_cons_of_mem c h)
    · split at h
      · exact .inr h
      · rcases List.mem_cons.mp h with rfl | h
        · exact .inl rfl
        · exact .inr h

omit [LinearOrder α] in
theorem pairwise_insertByMax (chunk : ChunkInfo α σ ε) :
    ∀ {cs : List (ChunkInfo α σ ε)}, cs.Pairwise (fun a b => keyString a.max < keyString b.max) →
      (insertByMax keyString chunk cs).Pairwise (fun a b => keyString a.max < keyString b.max)
  | [], _ => List.pairwise_singleton _ _
  | c :: cs, hs => by
    obtain ⟨hc, hcs⟩ := List.pairwise_cons.mp hs
    unfold insertByMax
    split
    · next hlt =>
      refine List.pairwise_cons.mpr ⟨fun d hd => ?_, pairwise_insertByMax chunk hcs⟩
      rcases mem_insertByMax hd with rfl | hd
      · exact hlt
      · exact hc d hd
    · split
      · exact hs
      · next hge hne =>
        -- `chunk` goes in front of `c`, whose max is above it
        have hlt : keyString chunk.max < keyString c.max := lt_of_le_of_ne (not_lt.mp hge) (Ne.symm hne)
        refine List.pairwise_cons.mpr ⟨fun d hd => ?_, hs⟩
        rcases List.mem_cons.mp hd with rfl | hd
        · exact hlt
        · exact hlt.trans (hc d hd)

/-- `ChunkInfoMap`: the chunks keyed by the `KeyString` of their max, in the order of the
encodings. -/
structure ChunkMap (α σ ε : Type) {κ : Type} [LinearOrder κ] (keyString : α → κ) where
  chunks : List (ChunkInfo α σ ε)
  sorted : chunks.Pairwise (fun a b => keyString a.max < keyString b.max)

namespace ChunkMap

variable (keyString) in
/-- The empty map. -/
def empty : ChunkMap α σ ε keyString := ⟨[], List.Pairwise.nil⟩

/-- `upper_bound(key)` for an encoded key: the position of the first chunk whose max encodes
above `key`. -/
def upperBound (m : ChunkMap α σ ε keyString) (key : κ) : Nat :=
  (m.chunks.takeWhile (fun c => decide (keyString c.max ≤ key))).length

/-- `lower_bound(key)`: the position of the first chunk whose max does not encode below
`key`. -/
def lowerBound (m : ChunkMap α σ ε keyString) (key : κ) : Nat :=
  (m.chunks.takeWhile (fun c => decide (keyString c.max < key))).length

/-- The chunks of the iterator range `[first, last)`. -/
def range (m : ChunkMap α σ ε keyString) (first last : Nat) : List (ChunkInfo α σ ε) :=
  (m.chunks.drop first).take (last - first)

/-- `erase(low, high)`; for `high` before `low`, which the callers do not pass, nothing. -/
def erase (m : ChunkMap α σ ε keyString) (low high : Nat) : ChunkMap α σ ε keyString where
  chunks := m.chunks.take low ++ m.chunks.drop (max low high)
  sorted := m.sorted.sublist <| by
    conv => rhs; rw [← List.take_append_drop low m.chunks]
    exact (List.Sublist.refl _).append (List.drop_sublist_drop_left _ (le_max_left _ _))

/-- `insert({KeyString(max), chunk})`. -/
def insert (m : ChunkMap α σ ε keyString) (chunk : ChunkInfo α σ ε) : ChunkMap α σ ε keyString where
  chunks := insertByMax keyString chunk m.chunks
  sorted := pairwise_insertByMax chunk m.sorted

end ChunkMap

/-! ## `RoutingTableHistory` -/

/-- A `RoutingTableHistory`: the namespace, the all-`MinKey` and all-`MaxKey` keys of the shard
key pattern, the chunk map keyed by `_extractKeyString` (`keyString`), the collection version
and `_shardVersions`, for each shard that owns chunks the highest version of its chunks. -/
structure RoutingTableHistory (α σ ε : Type) {κ : Type} [LinearOrder κ] (keyString : α → κ) where
  ns : String
  globalMin : α
  globalMax : α
  chunkMap : ChunkMap α σ ε keyString
  collectionVersion : ChunkVersion ε
  shardVersions : List (σ × ChunkVersion ε)

section ShardVersionMap

variable [DecidableEq σ]

/-- `shardVersions.find(shardId)`, or the entry `emplace(shardId, epoch)` makes: version `0|0`
of the epoch. -/
def lookupVersion (shardVersions : List (σ × ChunkVersion ε)) (shardId : σ) (epoch : ε) :
    ChunkVersion ε :=
  match shardVersions.find? (fun e => decide (e.1 = shardId)) with
  | some e => e.2
  | none => ⟨0, epoch⟩

/-- The entry of `shardId` set to `v`. -/
def setVersion (shardId : σ) (v : ChunkVersion ε) :
    List (σ × ChunkVersion ε) → List (σ × ChunkVersion ε)
  | [] => [(shardId, v)]
  | e :: es => if e.1 = shardId then (shardId, v) :: es else e :: setVersion shardId v es

/-- The `std::find_if` of `_constructShardVersionMap`, from the first chunk of a run: it walks
the chunks owned by `shardId`, raising `maxShardVersion` to each `lastmod` above it, and stops
at the first chunk of another shard. Returns the version, the last chunk walked
(`std::prev(current)`) and the chunks from where it stopped. -/
def findRunEnd (shardId : σ) :
    ChunkVersion ε → ChunkInfo α σ ε → List (ChunkInfo α σ ε) →
      ChunkVersion ε × ChunkInfo α σ ε × List (ChunkInfo α σ ε)
  | maxShardVersion, last, [] => (maxShardVersion, last, [])
  | maxShardVersion, last, c :: cs =>
    if c.shardId ≠ shardId then (maxShardVersion, last, c :: cs)
    else
      findRunEnd shardId
        (if maxShardVersion.combined < c.lastmod.combined then c.lastmod else maxShardVersion)
        c cs

variable [ToString α]

/-- `ChunkRange::toString()`. -/
def rangeString (c : ChunkInfo α σ ε) : String :=
  "[" ++ toString c.min ++ ", " ++ toString c.max ++ ")"

/-- The continuity check of `_constructShardVersionMap`: the run that starts at `rangeMin` and
ends with `rangeLast` must start where the run before ended, at the max of its last chunk
`prev`. -/
def checkContinuity (prev : Option (ChunkInfo α σ ε)) (rangeMin : α)
    (rangeLast : ChunkInfo α σ ε) : Except RoutingError Unit :=
  match prev with
  | none => .ok ()
  | some p =>
    if p.max = rangeMin then .ok ()
    else if p.max < rangeMin then
      .error (.conflictingOperationInProgress
        ("Gap exists in the routing table between chunks " ++ rangeString p ++ " and " ++
          rangeString rangeLast))
    else
      .error (.conflictingOperationInProgress
        ("Overlap exists in the routing table between chunks " ++ rangeString p ++ " and " ++
          rangeString rangeLast))

/-- The loop of `_constructShardVersionMap`, one run of chunks of one shard at a time, with
`firstMin` and the last chunk of the run before, whose max is `lastMax`. Each run takes at least
one chunk, so the number of chunks is enough `fuel`. -/
def constructLoop (epoch : ε) :
    Nat → List (ChunkInfo α σ ε) → List (σ × ChunkVersion ε) → Option α →
      Option (ChunkInfo α σ ε) →
      Except RoutingError (List (σ × ChunkVersion ε) × Option α × Option (ChunkInfo α σ ε))
  | _, [], shardVersions, firstMin, prev => .ok (shardVersions, firstMin, prev)
  | 0, _ :: _, _, _, _ => .error .invariantFailure
  | fuel + 1, first :: rest, shardVersions, firstMin, prev => do
    let shardId := first.shardId
    let (maxShardVersion, rangeLast, current) :=
      findRunEnd shardId (lookupVersion shardVersions shardId epoch) first (first :: rest)
    checkContinuity prev first.min rangeLast
    if !maxShardVersion.isSet then throw .invariantFailure
    constructLoop epoch fuel current (setVersion shardId maxShardVersion shardVersions)
      (some (firstMin.getD first.min)) (some rangeLast)

/-- `checkAllElementsAreOfType(type, o)`, with `allElementsAreOfType` given as `ok`. -/
def checkAllElementsAreOfType (typeName : String) (ok : Bool) (o : α) : Except RoutingError Unit :=
  if ok then .ok ()
  else .error (.conflictingOperationInProgress
    ("Not all elements of " ++ toString o ++ " are of type " ++ typeName))

/-- `_constructShardVersionMap()`: the runs checked to meet, the first min all `MinKey` and the
last max all `MaxKey`. -/
def constructShardVersionMap (epoch : ε) (globalMin globalMax : α)
    (chunks : List (ChunkInfo α σ ε)) : Except RoutingError (List (σ × ChunkVersion ε)) := do
  let (shardVersions, firstMin, last) ← constructLoop epoch chunks.length chunks [] none none
  if !chunks.isEmpty then
    match firstMin, last with
    | some firstMin, some last =>
      if shardVersions.isEmpty then throw .invariantFailure
      checkAllElementsAreOfType "minKey" (decide (firstMin = globalMin)) firstMin
      checkAllElementsAreOfType "maxKey" (decide (last.max = globalMax)) last.max
    | _, _ => throw .invariantFailure
  return shardVersions

namespace RoutingTableHistory

/-- The constructor: `_shardVersions` is `_constructShardVersionMap()`. -/
def make (ns : String) (globalMin globalMax : α) (chunkMap : ChunkMap α σ ε keyString)
    (collectionVersion : ChunkVersion ε) :
    Except RoutingError (RoutingTableHistory α σ ε keyString) := do
  let shardVersions ←
    constructShardVersionMap collectionVersion.epoch globalMin globalMax chunkMap.chunks
  return ⟨ns, globalMin, globalMax, chunkMap, collectionVersion, shardVersions⟩

/-- One chunk of a diff applied: the chunks whose max encodes in `(min, max]` erased, and the
chunk inserted. -/
def applyChunk (chunkMap : ChunkMap α σ ε keyString) (chunk : ChunkInfo α σ ε) :
    ChunkMap α σ ε keyString :=
  let low := chunkMap.upperBound (keyString chunk.min)
  let high := chunkMap.upperBound (keyString chunk.max)
  (chunkMap.erase low high).insert chunk

variable [DecidableEq ε] [ToString ε]

/-- The loop of `makeUpdated` over the diff, in order, with the collection version. -/
def makeUpdatedLoop (ns : String) :
    ChunkMap α σ ε keyString → ChunkVersion ε → List (ChunkInfo α σ ε) →
      Except RoutingError (ChunkMap α σ ε keyString × ChunkVersion ε)
  | chunkMap, collectionVersion, [] => .ok (chunkMap, collectionVersion)
  | chunkMap, collectionVersion, chunk :: chunks =>
    if collectionVersion.epoch ≠ chunk.lastmod.epoch then
      .error (.conflictingOperationInProgress
        ("Chunk with namespace " ++ ns ++ " and min key " ++ toString chunk.min ++
          " has epoch different from that of the collection " ++ toString chunk.lastmod.epoch))
    -- chunks must always come in incrementally sorted order
    else if chunk.lastmod.combined < collectionVersion.combined then .error .invariantFailure
    else makeUpdatedLoop ns (applyChunk chunkMap chunk) chunk.lastmod chunks

/-- `makeUpdated(changedChunks)`: the same table when the collection version did not move, else
a new one built on the updated map. -/
def makeUpdated (rt : RoutingTableHistory α σ ε keyString) (changedChunks : List (ChunkInfo α σ ε)) :
    Except RoutingError (RoutingTableHistory α σ ε keyString) := do
  let (chunkMap, collectionVersion) ←
    makeUpdatedLoop rt.ns rt.chunkMap rt.collectionVersion changedChunks
  if collectionVersion = rt.collectionVersion then return rt
  make rt.ns rt.globalMin rt.globalMax chunkMap collectionVersion

variable (keyString) in
/-- `makeNew(..., epoch, chunks)`: an empty table of version `0|0` updated with the chunks. -/
def makeNew (ns : String) (globalMin globalMax : α) (epoch : ε) (chunks : List (ChunkInfo α σ ε)) :
    Except RoutingError (RoutingTableHistory α σ ε keyString) := do
  let rt ← make ns globalMin globalMax (ChunkMap.empty keyString) ⟨0, epoch⟩
  rt.makeUpdated chunks

end RoutingTableHistory

end ShardVersionMap

/-! ## The lookups of `ChunkManager` (at the latest cluster time, under the simple collation) -/

namespace RoutingTableHistory

variable [DecidableEq σ] [ToString α]

/-- `findIntersectingChunk(shardKey, collation)`: the chunk at
`upper_bound(_extractKeyString(shardKey))`, which must contain the key. -/
def findIntersectingChunk (rt : RoutingTableHistory α σ ε keyString) (shardKey : α) :
    Except RoutingError (ChunkInfo α σ ε) :=
  match rt.chunkMap.chunks[rt.chunkMap.upperBound (keyString shardKey)]? with
  | some c =>
    if c.containsKey shardKey then .ok c
    else .error (.shardKeyNotFound ("Cannot target single shard using key " ++
      toString shardKey ++ " for namespace " ++ rt.ns))
  | none => .error (.shardKeyNotFound ("Cannot target single shard using key " ++
      toString shardKey ++ " for namespace " ++ rt.ns))

/-- `keyBelongsToShard(shardKey, shardId)`: `false` past the last chunk, else the shard of the
chunk at `upper_bound(_extractKeyString(shardKey))`, which must contain the key. -/
def keyBelongsToShard (rt : RoutingTableHistory α σ ε keyString) (shardKey : α) (shardId : σ) :
    Except RoutingError Bool :=
  match rt.chunkMap.chunks[rt.chunkMap.upperBound (keyString shardKey)]? with
  | none => .ok false
  | some c =>
    if c.containsKey shardKey then .ok (decide (c.shardId = shardId))
    else .error .invariantFailure

/-- `overlappingRanges(min, max, isMaxInclusive)`: the iterators `upper_bound(min)` and, one
past the chunk at `upper_bound(max)` (inclusive) or `lower_bound(max)` (exclusive), `end()`
staying `end()`. -/
def overlappingRanges (rt : RoutingTableHistory α σ ε keyString) (min max : α)
    (isMaxInclusive : Bool) : Nat × Nat :=
  let itMin := rt.chunkMap.upperBound (keyString min)
  let it := if isMaxInclusive then rt.chunkMap.upperBound (keyString max)
    else rt.chunkMap.lowerBound (keyString max)
  (itMin, if it = rt.chunkMap.chunks.length then it else it + 1)

end RoutingTableHistory

end Mongo.Sharding
