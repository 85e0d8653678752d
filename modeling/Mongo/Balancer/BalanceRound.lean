import Mongo.Balancer.BalancerPolicy

/-! What a balancing round guarantees. On statistics with distinct shard ids and a distribution
that lists every shard, each chunk under the shard it names and valid, `balance` fails none of
its `invariant`s and stops, and what it returns is a set of migrations that share no shard: each
moves a chunk that is not jumbo off the shard holding it, to another shard fit to receive a chunk
of its zone, for the reason it gives. `usedShards` grows by exactly the shards of the migrations.

Every phase is carried by the same invariant of the round's state (`RoundInv`); one lemma for
`addMigration` says how a migration keeps it, and the loops carry it by induction on what they
walk. The `while` loop of a zone stops because every migration takes a shard off those not yet
used. -/

namespace Mongo.Balancer

open Sharding

variable {α σ : Type} [LinearOrder α] [DecidableEq σ] [Inhabited σ]

namespace BalancerPolicy

theorem bind_eq_some {β γ : Type} {x : Option β} {f : β → Option γ} {c : γ} :
    (x >>= f) = some c ↔ ∃ b, x = some b ∧ f b = some c :=
  Option.bind_eq_some_iff

/-! ### The spec of a round -/

/-- A shard fit to receive a chunk of the zone `tag`: not at its maximum size, not draining, and
in the zone if there is one. -/
structure Receives (stat : ShardStatistics σ) (tag : String) : Prop where
  notMaxed : stat.isSizeMaxed = false
  notDraining : stat.isDraining = false
  inZone : tag = "" ∨ tag ∈ stat.shardTags

omit [DecidableEq σ] [Inhabited σ] in
theorem isShardSuitableReceiver_eq_ok_iff [ToString σ] {stat : ShardStatistics σ} {tag : String} :
    isShardSuitableReceiver stat tag = .ok () ↔ Receives stat tag := by
  unfold isShardSuitableReceiver
  constructor
  · intro h
    split_ifs at h with hmax hdrain hzone
    exact ⟨by simpa using hmax, by simpa using hdrain, by tauto⟩
  · rintro ⟨hmax, hdrain, hzone⟩
    have hzone' : ¬ (tag ≠ "" ∧ tag ∉ stat.shardTags) := by tauto
    rw [if_neg (by simp [hmax]), if_neg (by simp [hdrain]), if_neg hzone']

variable (shardStats : List (ShardStatistics σ)) (distribution : ChunkDistribution α σ)

/-- What the reason of a migration says of it: the donor drains; or the chunk is in a zone the
donor is not in; or the donor has more of the chunks of the chunk's zone than the ideal number for
the zone, and the recipient fewer. -/
def ReasonHolds (reason : MigrationReason) (fromShard toShard : σ) (chunk : ChunkType α σ) : Prop :=
  match reason with
  | .drain => ∃ stat ∈ shardStats, stat.shardId = fromShard ∧ stat.isDraining = true
  | .zoneViolation => distribution.getTagForChunk chunk.toChunk ≠ "" ∧
      ∃ stat ∈ shardStats, stat.shardId = fromShard ∧
        distribution.getTagForChunk chunk.toChunk ∉ stat.shardTags
  | .chunksImbalance => ∃ nFrom nTo,
      distribution.numberOfChunksInShardWithTag fromShard
        (distribution.getTagForChunk chunk.toChunk) = some nFrom ∧
      distribution.numberOfChunksInShardWithTag toShard
        (distribution.getTagForChunk chunk.toChunk) = some nTo ∧
      idealForTag shardStats distribution (distribution.getTagForChunk chunk.toChunk) < nFrom ∧
      nTo < idealForTag shardStats distribution (distribution.getTagForChunk chunk.toChunk)

/-- A migration of a round: a chunk that is not jumbo, listed under the shard it names, moves off
that shard to another one, fit to receive a chunk of the chunk's zone, for the reason it gives. -/
structure ValidMigration (mi : MigrateInfo α σ) : Prop where
  ne : mi.fromShard ≠ mi.toShard
  chunk : ∃ chunk ∈ (distribution.getChunks mi.fromShard).getD [],
    chunk.jumbo = false ∧ chunk.shardId = mi.fromShard ∧ chunk.min = mi.minKey ∧
    chunk.max = mi.maxKey ∧
    (∃ stat ∈ shardStats, stat.shardId = mi.toShard ∧
      Receives stat (distribution.getTagForChunk chunk.toChunk)) ∧
    ReasonHolds shardStats distribution mi.reason mi.fromShard mi.toShard chunk

/-- What a round keeps of its state, from the `usedShards` it was given: no shard is in two
migrations or in one twice, none was used before, the used shards are those given and those of the
migrations, and every migration is valid. -/
structure RoundInv (usedShards : List σ) (st : BalanceState α σ) : Prop where
  nodup : (st.migrations.flatMap fun mi => [mi.fromShard, mi.toShard]).Nodup
  fresh : ∀ mi ∈ st.migrations, mi.fromShard ∉ usedShards ∧ mi.toShard ∉ usedShards
  used : ∀ s, s ∈ st.usedShards ↔ s ∈ usedShards ∨ ∃ mi ∈ st.migrations, s = mi.fromShard ∨ s = mi.toShard
  valid : ∀ mi ∈ st.migrations, ValidMigration shardStats distribution mi

/-- What a round asks of its input: distinct shard ids, every shard in the distribution, and each
chunk listed under the shard it names and valid. -/
structure WellFormed : Prop where
  nodup : (shardStats.map fun stat => stat.shardId).Nodup
  listed : ∀ stat ∈ shardStats, stat.shardId ∈ distribution.shardChunks.map Prod.fst
  shardOfChunk : ∀ e ∈ distribution.shardChunks, ∀ chunk ∈ e.2, chunk.shardId = e.1
  validChunk : ∀ e ∈ distribution.shardChunks, ∀ chunk ∈ e.2, chunk.validate = true

omit [Inhabited σ] in
theorem mem_of_lookup_eq_some {β : Type} :
    ∀ {l : List (σ × β)} {a : σ} {b : β}, l.lookup a = some b → (a, b) ∈ l
  | [], _, _, h => by cases h
  | (k, v) :: l, a, b, h => by
    by_cases hak : a = k
    · subst hak
      simp only [List.lookup, beq_self_eq_true, Option.some.injEq] at h
      subst h
      exact List.mem_cons_self
    · rw [List.lookup, beq_false_of_ne hak] at h
      exact List.mem_cons_of_mem _ (mem_of_lookup_eq_some h)

omit [Inhabited σ] in
theorem lookup_isSome {β : Type} :
    ∀ {l : List (σ × β)} {a : σ}, a ∈ l.map Prod.fst → (l.lookup a).isSome
  | [], _, h => absurd h List.not_mem_nil
  | (k, v) :: l, a, h => by
    by_cases hak : a = k
    · subst hak
      simp [List.lookup]
    · simp only [List.map_cons, List.mem_cons, hak, false_or] at h
      rw [List.lookup, beq_false_of_ne hak]
      exact lookup_isSome h

namespace WellFormed

variable {shardStats distribution}

theorem getChunks (hwf : WellFormed shardStats distribution) (stat : ShardStatistics σ)
    (hs : stat ∈ shardStats) : (distribution.getChunks stat.shardId).isSome :=
  lookup_isSome (hwf.listed stat hs)

theorem chunkShard (hwf : WellFormed shardStats distribution) (shardId : σ)
    (chunks : List (ChunkType α σ)) (h : distribution.getChunks shardId = some chunks) :
    ∀ chunk ∈ chunks, chunk.shardId = shardId :=
  hwf.shardOfChunk _ (mem_of_lookup_eq_some h)

theorem chunkValid (hwf : WellFormed shardStats distribution) (shardId : σ)
    (chunks : List (ChunkType α σ)) (h : distribution.getChunks shardId = some chunks) :
    ∀ chunk ∈ chunks, chunk.validate = true :=
  hwf.validChunk _ (mem_of_lookup_eq_some h)

end WellFormed

/-! ### The choice of a shard -/

section Scan

variable {accept : ShardStatistics σ → Bool} {count : σ → Option Nat} {better : Nat → Nat → Bool}

omit [DecidableEq σ] [Inhabited σ] in
/-- The scan returns the id it started from, or that of a shard it accepted. -/
theorem scanShards_eq_some :
    ∀ {l : List (ShardStatistics σ)} {best r : σ} {bestCount : Nat},
      scanShards accept count better l best bestCount = some r →
      r = best ∨ ∃ stat ∈ l, accept stat = true ∧ stat.shardId = r
  | [], best, r, _, h => by
    rw [scanShards, Option.some.injEq] at h
    exact .inl h.symm
  | stat :: rest, best, r, bestCount, h => by
    rw [scanShards] at h
    -- what the rest returns is the best so far, this shard, or a shard of the rest
    have hrest : ∀ {best' : σ} {c : Nat}, scanShards accept count better rest best' c = some r →
        r = best' ∨ ∃ s ∈ stat :: rest, accept s = true ∧ s.shardId = r := fun h' => by
      rcases scanShards_eq_some h' with hr | ⟨s, hs, hacc, hsr⟩
      · exact .inl hr
      · exact .inr ⟨s, List.mem_cons_of_mem stat hs, hacc, hsr⟩
    split at h
    · rename_i hacc
      obtain ⟨chunks, -, h⟩ := bind_eq_some.mp h
      split at h
      · rcases hrest h with rfl | hr
        · exact .inr ⟨stat, List.mem_cons_self, hacc, rfl⟩
        · exact .inr hr
      · exact hrest h
    · exact hrest h

omit [DecidableEq σ] [Inhabited σ] in
/-- The scan fails only where it counts the chunks of a shard it accepts and cannot. -/
theorem scanShards_isSome :
    ∀ {l : List (ShardStatistics σ)} {best : σ} {bestCount : Nat},
      (∀ stat ∈ l, accept stat = true → (count stat.shardId).isSome) →
      (scanShards accept count better l best bestCount).isSome
  | [], _, _, _ => rfl
  | stat :: rest, best, bestCount, h => by
    have hrest : ∀ {best' : σ} {c : Nat}, (scanShards accept count better rest best' c).isSome :=
      scanShards_isSome fun s hs => h s (List.mem_cons_of_mem stat hs)
    rw [scanShards]
    split
    · rename_i hacc
      obtain ⟨chunks, hchunks⟩ := Option.isSome_iff_exists.mp (h stat List.mem_cons_self hacc)
      rw [hchunks]
      dsimp only [Option.bind_eq_bind, Option.bind_some]
      split
      · exact hrest
      · exact hrest
    · exact hrest

end Scan

omit [DecidableEq σ] [Inhabited σ] in
theorem toBool_eq_true_iff {x : Except String Unit} : x.toBool = true ↔ x = .ok () := by
  cases x <;> simp [Except.toBool]

variable {shardStats distribution}

/-- `_getMostOverloadedShard` returns when every shard is in the distribution, and a valid id
only of a shard that is not excluded. -/
theorem getMostOverloadedShard_spec (hwf : WellFormed shardStats distribution) (tag : String)
    (excludedShards : List σ) :
    ∃ r, getMostOverloadedShard shardStats distribution tag excludedShards = some r ∧
      (ShardId.isValid r = true → ∃ stat ∈ shardStats, stat.shardId = r ∧ r ∉ excludedShards) := by
  have hsome : (getMostOverloadedShard shardStats distribution tag excludedShards).isSome :=
    scanShards_isSome fun stat hs _ => by
      simpa [ChunkDistribution.numberOfChunksInShardWithTag] using hwf.getChunks stat hs
  obtain ⟨r, hr⟩ := Option.isSome_iff_exists.mp hsome
  refine ⟨r, hr, fun hvalid => ?_⟩
  rcases scanShards_eq_some hr with rfl | ⟨stat, hs, hacc, rfl⟩
  · simp [ShardId.isValid] at hvalid
  · exact ⟨stat, hs, rfl, by simpa using hacc⟩

section Choice

variable [ToString σ]

/-- `_getLeastLoadedReceiverShard` returns when every shard is in the distribution, and a valid id
only of a shard that is not excluded and is fit to receive a chunk of the zone. -/
theorem getLeastLoadedReceiverShard_spec (hwf : WellFormed shardStats distribution) (tag : String)
    (excludedShards : List σ) :
    ∃ r, getLeastLoadedReceiverShard shardStats distribution tag excludedShards = some r ∧
      (ShardId.isValid r = true →
        ∃ stat ∈ shardStats, stat.shardId = r ∧ r ∉ excludedShards ∧ Receives stat tag) := by
  have hsome : (getLeastLoadedReceiverShard shardStats distribution tag excludedShards).isSome :=
    scanShards_isSome fun stat hs _ => by
      simpa [ChunkDistribution.numberOfChunksInShard] using hwf.getChunks stat hs
  obtain ⟨r, hr⟩ := Option.isSome_iff_exists.mp hsome
  refine ⟨r, hr, fun hvalid => ?_⟩
  rcases scanShards_eq_some hr with rfl | ⟨stat, hs, hacc, rfl⟩
  · simp [ShardId.isValid] at hvalid
  · simp only [Bool.and_eq_true, decide_eq_true_eq, toBool_eq_true_iff,
      isShardSuitableReceiver_eq_ok_iff] at hacc
    exact ⟨stat, hs, rfl, hacc⟩

end Choice

/-! ### A migration -/

/-- What `addMigration` does: it checks the chunk and the recipient, and that neither shard was
used, and records the migration and the two shards. -/
theorem addMigration_eq_some {st st' : BalanceState α σ} {donor toShard : σ} {chunk : ChunkType α σ}
    {forceJumbo : ForceJumbo} {reason : MigrationReason} :
    st.addMigration donor toShard chunk forceJumbo reason = some st' ↔
      chunk.validate = true ∧ ShardId.isValid toShard = true ∧ donor ∉ st.usedShards ∧
      toShard ∉ donor :: st.usedShards ∧
      st' = ⟨st.migrations ++ [⟨toShard, chunk.shardId, chunk.min, chunk.max, forceJumbo, reason⟩],
        toShard :: donor :: st.usedShards⟩ := by
  unfold BalanceState.addMigration MigrateInfo.make insertUsed
  by_cases hmake : chunk.validate = true ∧ ShardId.isValid toShard = true
  · rw [if_pos hmake]
    by_cases hdonor : donor ∈ st.usedShards
    · rw [if_pos hdonor]
      simp [hdonor]
    · rw [if_neg hdonor]
      simp only [Option.bind_eq_bind, Option.bind_some]
      by_cases hto : toShard ∈ donor :: st.usedShards
      · rw [if_pos hto]
        simp [hto]
      · rw [if_neg hto]
        simp [hmake, hdonor, hto, eq_comm]
  · rw [if_neg hmake]
    simp only [Option.bind_eq_bind, Option.bind_none, reduceCtorEq, false_iff]
    tauto

/-! ### The invariant of a round -/

section Round

variable {usedShards : List σ}

theorem WellFormed.shardId_ne (hwf : WellFormed shardStats distribution)
    {stat stat' : ShardStatistics σ} (hs : stat ∈ shardStats) (hs' : stat' ∈ shardStats)
    (hne : stat' ≠ stat) : stat'.shardId ≠ stat.shardId :=
  fun hid => hne (List.inj_on_of_nodup_map hwf.nodup hs' hs hid)

omit [Inhabited σ] in
theorem RoundInv.init (usedShards : List σ) :
    RoundInv shardStats distribution usedShards ⟨[], usedShards⟩ :=
  ⟨List.nodup_nil, fun _ h => absurd h List.not_mem_nil, fun s => by simp,
    fun _ h => absurd h List.not_mem_nil⟩

omit [Inhabited σ] in
theorem RoundInv.mem_used {st : BalanceState α σ} (h : RoundInv shardStats distribution usedShards st)
    {mi : MigrateInfo α σ} (hmi : mi ∈ st.migrations) {s : σ} (hs : s = mi.fromShard ∨ s = mi.toShard) :
    s ∈ st.usedShards :=
  (h.used s).mpr (.inr ⟨mi, hmi, hs⟩)

/-- A valid migration whose shards were not used keeps the invariant, and is the one migration
added. -/
theorem RoundInv.addMigration {st st' : BalanceState α σ} {donor toShard : σ}
    {chunk : ChunkType α σ} {forceJumbo : ForceJumbo} {reason : MigrationReason}
    (h : RoundInv shardStats distribution usedShards st)
    (hadd : st.addMigration donor toShard chunk forceJumbo reason = some st')
    (hdonor : chunk.shardId = donor)
    (hvalid : ValidMigration shardStats distribution
      ⟨toShard, chunk.shardId, chunk.min, chunk.max, forceJumbo, reason⟩) :
    RoundInv shardStats distribution usedShards st' ∧
      ∃ mi, st'.migrations = st.migrations ++ [mi] := by
  obtain ⟨-, -, hfrom, hto, rfl⟩ := addMigration_eq_some.mp hadd
  subst hdonor
  -- neither shard of the new migration was used, so neither is in an earlier migration
  have hfresh : ∀ s, s = chunk.shardId ∨ s = toShard → s ∉ st.usedShards := by
    rintro s (rfl | rfl)
    · exact hfrom
    · exact fun hs => hto (List.mem_cons_of_mem _ hs)
  have hne : chunk.shardId ≠ toShard := fun he => hto (he ▸ List.mem_cons_self)
  refine ⟨⟨?_, fun mi hmi => ?_, fun s => ?_, fun mi hmi => ?_⟩, _, rfl⟩
  · rw [List.flatMap_append, List.flatMap_singleton]
    refine h.nodup.append (by simp [hne]) fun s hs hs' => ?_
    obtain ⟨mi, hmi, hsmi⟩ := List.mem_flatMap.mp hs
    exact hfresh s (by simpa using hs') (h.mem_used hmi (by simpa using hsmi))
  · rcases List.mem_append.mp hmi with hmi | hmi
    · exact h.fresh mi hmi
    · rw [List.mem_singleton] at hmi
      subst hmi
      exact ⟨fun hu => hfresh _ (.inl rfl) ((h.used _).mpr (.inl hu)),
        fun hu => hfresh _ (.inr rfl) ((h.used _).mpr (.inl hu))⟩
  · simp only [List.mem_cons, h.used, List.mem_append, List.not_mem_nil, or_false]
    constructor
    · rintro (rfl | rfl | hu | ⟨mi, hmi, hs⟩)
      · exact .inr ⟨_, .inr rfl, .inr rfl⟩
      · exact .inr ⟨_, .inr rfl, .inl rfl⟩
      · exact .inl hu
      · exact .inr ⟨mi, .inl hmi, hs⟩
    · rintro (hu | ⟨mi, hmi | rfl, hs⟩)
      · exact .inr (.inr (.inl hu))
      · exact .inr (.inr (.inr ⟨mi, hmi, hs⟩))
      · rcases hs with rfl | rfl
        · exact .inr (.inl rfl)
        · exact .inl rfl
  · rcases List.mem_append.mp hmi with hmi | hmi
    · exact h.valid mi hmi
    · rw [List.mem_singleton] at hmi
      subst hmi
      exact hvalid

end Round

/-! ### The first two phases -/

variable (shardStats distribution) in
/-- What the first two phases ask of the chunks of a shard they select: each chunk they do not
skip is not jumbo, cannot go to the shard itself, and has the phase's reason to move. -/
def MovesOff (skip : ShardStatistics σ → ChunkType α σ → String → Bool) (reason : MigrationReason)
    (stat : ShardStatistics σ) (chunks : List (ChunkType α σ)) : Prop :=
  ∀ chunk ∈ chunks, skip stat chunk (distribution.getTagForChunk chunk.toChunk) = false →
    chunk.jumbo = false ∧
    (∀ stat' ∈ shardStats, Receives stat' (distribution.getTagForChunk chunk.toChunk) →
      stat'.shardId ≠ stat.shardId) ∧
    ∀ toShard, ReasonHolds shardStats distribution reason stat.shardId toShard chunk

/-- The draining phase may move every chunk that is not jumbo off a draining shard: no shard fit
to receive a chunk drains. -/
theorem movesOff_drain (hwf : WellFormed shardStats distribution) {stat : ShardStatistics σ}
    (hs : stat ∈ shardStats) (hdrain : stat.isDraining = true) (chunks : List (ChunkType α σ)) :
    MovesOff shardStats distribution (fun _ chunk _ => chunk.jumbo) .drain stat chunks := by
  intro chunk _ hjumbo
  refine ⟨hjumbo, fun stat' hs' hrecv => hwf.shardId_ne hs hs' fun he => ?_,
    fun _ => ⟨stat, hs, rfl, hdrain⟩⟩
  have hnot : stat.isDraining = false := he ▸ hrecv.notDraining
  rw [hdrain] at hnot
  exact Bool.noConfusion hnot

/-- The zone phase may move a chunk that is not jumbo, in a zone its shard is not in: a shard fit
to receive it is in that zone. -/
theorem movesOff_zoneViolation (hwf : WellFormed shardStats distribution)
    {stat : ShardStatistics σ} (hs : stat ∈ shardStats) (chunks : List (ChunkType α σ)) :
    MovesOff shardStats distribution
      (fun stat chunk tag => decide (tag = "" ∨ tag ∈ stat.shardTags) || chunk.jumbo)
      .zoneViolation stat chunks := by
  intro chunk _ hskip
  simp only [Bool.or_eq_false_iff, decide_eq_false_iff_not, not_or] at hskip
  obtain ⟨⟨hempty, hnotin⟩, hjumbo⟩ := hskip
  refine ⟨hjumbo, fun stat' hs' hrecv => hwf.shardId_ne hs hs' fun he => ?_,
    fun _ => ⟨hempty, stat, hs, rfl, hnotin⟩⟩
  exact hnotin (he ▸ hrecv.inZone.resolve_left hempty)

section MoveOff

variable [ToString σ] {usedShards : List σ} {skip : ShardStatistics σ → ChunkType α σ → String → Bool}
  (forceJumbo : ForceJumbo) {reason : MigrationReason}

/-- The loop over the chunks of a shard not used moves at most one chunk, validly, given what
`MovesOff` asks of the chunks. -/
theorem moveOffShard_spec (hwf : WellFormed shardStats distribution) {stat : ShardStatistics σ}
    {chunks : List (ChunkType α σ)} (hchunks : distribution.getChunks stat.shardId = some chunks)
    (hmove : MovesOff shardStats distribution skip reason stat chunks) :
    ∀ {l : List (ChunkType α σ)} {st : BalanceState α σ}, (∀ chunk ∈ l, chunk ∈ chunks) →
      stat.shardId ∉ st.usedShards → RoundInv shardStats distribution usedShards st →
      ∃ st', moveOffShard shardStats distribution stat skip forceJumbo reason l st = some st' ∧
        RoundInv shardStats distribution usedShards st' ∧ st.migrations <+: st'.migrations
  | [], st, _, _, h => ⟨st, rfl, h, List.prefix_refl _⟩
  | chunk :: rest, st, hl, hfree, h => by
    have hchunk := hl chunk List.mem_cons_self
    have hrest : ∀ c ∈ rest, c ∈ chunks := fun c hc => hl c (List.mem_cons_of_mem chunk hc)
    rw [moveOffShard]
    split
    · exact moveOffShard_spec hwf hchunks hmove hrest hfree h
    rename_i hskip
    obtain ⟨toShard, hleast, hto⟩ := getLeastLoadedReceiverShard_spec hwf
      (distribution.getTagForChunk chunk.toChunk) st.usedShards
    rw [hleast, Option.bind_eq_bind, Option.bind_some]
    split
    · exact moveOffShard_spec hwf hchunks hmove hrest hfree h
    rename_i hvalid
    have hvalid' : ShardId.isValid toShard = true := by simpa using hvalid
    -- the recipient is a shard other than this one, and the chunk is this shard's
    obtain ⟨stat', hs', hid, hnotused, hrecv⟩ := hto hvalid'
    obtain ⟨hjumbo, hself, hreason⟩ := hmove chunk hchunk (by simpa using hskip)
    have hne : toShard ≠ stat.shardId := hid ▸ hself stat' hs' hrecv
    have hshard : chunk.shardId = stat.shardId := hwf.chunkShard _ _ hchunks chunk hchunk
    have hadd : st.addMigration stat.shardId toShard chunk forceJumbo reason =
        some ⟨st.migrations ++ [⟨toShard, chunk.shardId, chunk.min, chunk.max, forceJumbo, reason⟩],
          toShard :: stat.shardId :: st.usedShards⟩ :=
      addMigration_eq_some.mpr ⟨hwf.chunkValid _ _ hchunks chunk hchunk, hvalid', hfree,
        by simp [hne, hnotused], rfl⟩
    have hvm : ValidMigration shardStats distribution
        ⟨toShard, chunk.shardId, chunk.min, chunk.max, forceJumbo, reason⟩ :=
      ⟨hshard ▸ Ne.symm hne, chunk, by simpa [hshard, hchunks] using hchunk, hjumbo, rfl, rfl, rfl,
        ⟨stat', hs', hid, hrecv⟩, hshard ▸ hreason toShard⟩
    obtain ⟨h', mi, hmi⟩ := h.addMigration hadd hshard hvm
    refine ⟨_, ?_, h', ?_⟩
    · simp only [guard, if_pos hne, Option.pure_def, Option.bind_eq_bind, Option.bind_some, hadd]
    · exact ⟨[_], rfl⟩

/-- The loop of the first two phases over shards of the round moves, validly, at most one chunk
off each shard it selects, given what `MovesOff` asks of their chunks. -/
theorem moveOffShards_spec (hwf : WellFormed shardStats distribution)
    (select : ShardStatistics σ → Bool)
    (hsel : ∀ stat ∈ shardStats, select stat = true → ∀ chunks,
      distribution.getChunks stat.shardId = some chunks →
        MovesOff shardStats distribution skip reason stat chunks) :
    ∀ {l : List (ShardStatistics σ)} {st : BalanceState α σ}, (∀ stat ∈ l, stat ∈ shardStats) →
      RoundInv shardStats distribution usedShards st →
      ∃ st', moveOffShards shardStats distribution select skip forceJumbo reason l st = some st' ∧
        RoundInv shardStats distribution usedShards st' ∧ st.migrations <+: st'.migrations
  | [], st, _, h => ⟨st, rfl, h, List.prefix_refl _⟩
  | stat :: rest, st, hl, h => by
    have hs := hl stat List.mem_cons_self
    have hrest : ∀ s ∈ rest, s ∈ shardStats := fun s hs => hl s (List.mem_cons_of_mem stat hs)
    rw [moveOffShards]
    split
    · exact moveOffShards_spec hwf select hsel hrest h
    rename_i hselect
    split
    · exact moveOffShards_spec hwf select hsel hrest h
    rename_i hfree
    obtain ⟨chunks, hchunks⟩ := Option.isSome_iff_exists.mp (hwf.getChunks stat hs)
    obtain ⟨st₁, hst₁, h₁, hpre₁⟩ := moveOffShard_spec forceJumbo hwf hchunks
      (hsel stat hs (by simpa using hselect) chunks hchunks) (fun c hc => hc) hfree h
    obtain ⟨st₂, hst₂, h₂, hpre₂⟩ := moveOffShards_spec hwf select hsel hrest h₁
    refine ⟨st₂, ?_, h₂, hpre₁.trans hpre₂⟩
    simp only [hchunks, hst₁, Option.bind_eq_bind, Option.bind_some, hst₂]

end MoveOff

/-! ### The third phase -/

/-- The shards of the statistics that are not used yet: what bounds the `while` loop of a
zone. -/
def unusedCount (shardStats : List (ShardStatistics σ)) (st : BalanceState α σ) : Nat :=
  shardStats.countP fun stat => decide (stat.shardId ∉ st.usedShards)

/-- A migration to a shard of the statistics uses one more of them. -/
theorem unusedCount_addMigration {st st' : BalanceState α σ} {donor toShard : σ}
    {chunk : ChunkType α σ} {forceJumbo : ForceJumbo} {reason : MigrationReason}
    (hadd : st.addMigration donor toShard chunk forceJumbo reason = some st')
    {stat : ShardStatistics σ} (hs : stat ∈ shardStats) (hid : stat.shardId = toShard) :
    unusedCount shardStats st' < unusedCount shardStats st := by
  obtain ⟨-, -, -, hto, rfl⟩ := addMigration_eq_some.mp hadd
  refine countP_lt_countP (fun x _ hx => ?_) ⟨stat, hs, ?_, ?_⟩
  · simp only [List.mem_cons, not_or, decide_eq_true_eq] at hx ⊢
    exact hx.2.2
  · simpa [hid] using fun hu => hto (List.mem_cons_of_mem _ hu)
  · simp [hid]

section Zones

variable [ToString σ] {usedShards : List σ} (forceJumbo : ForceJumbo)

omit [ToString σ] in
/-- The loop over the donor's chunks moves at most one chunk of the zone, validly, to a recipient
fit for the zone with fewer than the ideal number of its chunks, from a donor with more; a move
uses one more shard. -/
theorem moveChunkOfZone_spec (hwf : WellFormed shardStats distribution) {tag : String}
    {fromShard toShard : σ} {chunks : List (ChunkType α σ)} {st : BalanceState α σ}
    (h : RoundInv shardStats distribution usedShards st)
    (hchunks : distribution.getChunks fromShard = some chunks) (hne : fromShard ≠ toShard)
    (hfrom : fromShard ∉ st.usedShards) (hvalid : ShardId.isValid toShard = true)
    (hto : ∃ stat ∈ shardStats, stat.shardId = toShard ∧ toShard ∉ st.usedShards ∧
      Receives stat tag)
    (himb : ∃ nFrom nTo, distribution.numberOfChunksInShardWithTag fromShard tag = some nFrom ∧
      distribution.numberOfChunksInShardWithTag toShard tag = some nTo ∧
      idealForTag shardStats distribution tag < nFrom ∧
      nTo < idealForTag shardStats distribution tag) :
    ∀ {l : List (ChunkType α σ)}, (∀ chunk ∈ l, chunk ∈ chunks) →
      ∃ more st', moveChunkOfZone distribution toShard tag forceJumbo l st = some (more, st') ∧
        RoundInv shardStats distribution usedShards st' ∧
        (more = true → unusedCount shardStats st' < unusedCount shardStats st)
  | [], _ => ⟨false, st, rfl, h, nofun⟩
  | chunk :: rest, hl => by
    have hchunk := hl chunk List.mem_cons_self
    have hrest : ∀ c ∈ rest, c ∈ chunks := fun c hc => hl c (List.mem_cons_of_mem chunk hc)
    rw [moveChunkOfZone]
    split
    · exact moveChunkOfZone_spec hwf h hchunks hne hfrom hvalid hto himb hrest
    rename_i htag
    split
    · exact moveChunkOfZone_spec hwf h hchunks hne hfrom hvalid hto himb hrest
    rename_i hjumbo
    -- the first chunk of the zone that is not jumbo moves
    have htag' : distribution.getTagForChunk chunk.toChunk = tag := by simpa using htag
    have hshard : chunk.shardId = fromShard := hwf.chunkShard _ _ hchunks chunk hchunk
    obtain ⟨stat, hs, hid, hnotused, hrecv⟩ := hto
    have hadd : st.addMigration chunk.shardId toShard chunk forceJumbo .chunksImbalance =
        some ⟨st.migrations ++
            [⟨toShard, chunk.shardId, chunk.min, chunk.max, forceJumbo, .chunksImbalance⟩],
          toShard :: chunk.shardId :: st.usedShards⟩ :=
      addMigration_eq_some.mpr ⟨hwf.chunkValid _ _ hchunks chunk hchunk, hvalid, hshard ▸ hfrom,
        by simp [hshard, Ne.symm hne, hnotused], rfl⟩
    have hreason : ReasonHolds shardStats distribution .chunksImbalance chunk.shardId toShard chunk := by
      simp only [ReasonHolds, htag', hshard]
      exact himb
    have hvm : ValidMigration shardStats distribution
        ⟨toShard, chunk.shardId, chunk.min, chunk.max, forceJumbo, .chunksImbalance⟩ :=
      ⟨hshard ▸ hne, chunk, by simpa [hshard, hchunks] using hchunk, by simpa using hjumbo, rfl, rfl,
        rfl, ⟨stat, hs, hid, htag' ▸ hrecv⟩, hreason⟩
    obtain ⟨h', -⟩ := h.addMigration hadd rfl hvm
    refine ⟨true, _, ?_, h', fun _ => unusedCount_addMigration hadd hs hid⟩
    rw [hadd]
    rfl

omit [ToString σ] in
theorem WellFormed.numberOfChunksInShardWithTag_eq (hwf : WellFormed shardStats distribution)
    {stat : ShardStatistics σ} (hs : stat ∈ shardStats) (tag : String) :
    ∃ chunks, distribution.getChunks stat.shardId = some chunks ∧
      distribution.numberOfChunksInShardWithTag stat.shardId tag =
        some (distribution.chunksWithTag chunks tag) := by
  obtain ⟨chunks, hchunks⟩ := Option.isSome_iff_exists.mp (hwf.getChunks stat hs)
  exact ⟨chunks, hchunks, by simp [ChunkDistribution.numberOfChunksInShardWithTag, hchunks]⟩

/-- `_singleZoneBalance` returns on well-formed input and keeps the invariant; when it returns
`true` it has used one more shard. The donor and the recipient differ because one has more than
the ideal number of the zone's chunks and the other fewer. -/
theorem singleZoneBalance_spec (hwf : WellFormed shardStats distribution) (tag : String)
    {st : BalanceState α σ} (h : RoundInv shardStats distribution usedShards st) :
    ∃ more st', singleZoneBalance shardStats distribution tag
        (idealForTag shardStats distribution tag) forceJumbo st = some (more, st') ∧
      RoundInv shardStats distribution usedShards st' ∧
      (more = true → unusedCount shardStats st' < unusedCount shardStats st) := by
  obtain ⟨fromShard, hmost, hfrom⟩ := getMostOverloadedShard_spec hwf tag st.usedShards
  rw [singleZoneBalance]
  simp only [hmost, Option.bind_eq_bind, Option.bind_some]
  split
  · exact ⟨false, st, rfl, h, nofun⟩
  rename_i hvf
  obtain ⟨statF, hsF, rfl, hfree⟩ := hfrom (by simpa using hvf)
  obtain ⟨chunks, hchunks, hmax⟩ := hwf.numberOfChunksInShardWithTag_eq hsF tag
  simp only [hmax, Option.bind_some]
  split
  · exact ⟨false, st, rfl, h, nofun⟩
  rename_i hgt
  obtain ⟨toShard, hleast, hto⟩ := getLeastLoadedReceiverShard_spec hwf tag st.usedShards
  simp only [hleast, Option.bind_some]
  split
  · exact ⟨false, st, rfl, h, nofun⟩
  rename_i hvt
  have hvt' : ShardId.isValid toShard = true := by simpa using hvt
  obtain ⟨statT, hsT, rfl, hnotused, hrecv⟩ := hto hvt'
  obtain ⟨chunksT, -, hmin⟩ := hwf.numberOfChunksInShardWithTag_eq hsT tag
  simp only [hmin, Option.bind_some]
  split
  · exact ⟨false, st, rfl, h, nofun⟩
  rename_i hlt
  split
  · exact ⟨false, st, rfl, h, nofun⟩
  -- one shard cannot have both more and fewer chunks of the zone than the ideal number
  have hne : statF.shardId ≠ statT.shardId := by
    intro heq
    rw [← heq, hmax, Option.some.injEq] at hmin
    omega
  simp only [hchunks, Option.bind_some]
  exact moveChunkOfZone_spec forceJumbo hwf h hchunks hne hfree hvt'
    ⟨statT, hsT, rfl, hnotused, hrecv⟩ ⟨_, _, hmax, hmin, by omega, by omega⟩ fun c hc => hc

/-- The `while` loop of a zone stops before its fuel runs out when the fuel is above the shards
not yet used, and keeps the invariant. -/
theorem balanceZone_spec (hwf : WellFormed shardStats distribution) (tag : String) :
    ∀ {fuel : Nat} {st : BalanceState α σ}, unusedCount shardStats st < fuel →
      RoundInv shardStats distribution usedShards st →
      ∃ st', balanceZone shardStats distribution tag (idealForTag shardStats distribution tag)
          forceJumbo fuel st = some st' ∧
        RoundInv shardStats distribution usedShards st'
  | 0, _, hlt, _ => absurd hlt (Nat.not_lt_zero _)
  | fuel + 1, st, hlt, h => by
    obtain ⟨more, st₁, hsingle, h₁, hdec⟩ := singleZoneBalance_spec forceJumbo hwf tag h
    rw [balanceZone, hsingle, Option.bind_eq_bind, Option.bind_some]
    cases more with
    | false => exact ⟨st₁, rfl, h₁⟩
    | true =>
      -- the call used a shard, so the fuel left is still above the shards not used
      have hlt₁ : unusedCount shardStats st₁ < fuel := by
        have := hdec rfl
        omega
      exact balanceZone_spec hwf tag hlt₁ h₁

/-- The third phase returns and keeps the invariant: each zone's loop has one more call than
there are shards. -/
theorem balanceZones_spec (hwf : WellFormed shardStats distribution) :
    ∀ (tags : List String) {st : BalanceState α σ},
      RoundInv shardStats distribution usedShards st →
      ∃ st', balanceZones shardStats distribution forceJumbo tags st = some st' ∧
        RoundInv shardStats distribution usedShards st'
  | [], st, h => ⟨st, rfl, h⟩
  | tag :: rest, st, h => by
    rw [balanceZones]
    split
    · exact balanceZones_spec hwf rest h
    obtain ⟨st₁, hst₁, h₁⟩ := balanceZone_spec forceJumbo hwf tag
      (Nat.lt_succ_of_le List.countP_le_length) h
    obtain ⟨st₂, hst₂, h₂⟩ := balanceZones_spec hwf rest h₁
    refine ⟨st₂, ?_, h₂⟩
    rw [hst₁, Option.bind_eq_bind, Option.bind_some, hst₂]

end Zones

/-! ### A round -/

section Balance

variable [ToString σ]

/-- Three shards, the first draining with two chunks, the second with one and the third with
none. -/
def drainingStats : List (ShardStatistics String) :=
  [⟨"shard0", 0, 0, true, []⟩, ⟨"shard1", 0, 0, false, []⟩, ⟨"shard2", 0, 0, false, []⟩]

/-- The chunks of `drainingStats`, in no zone. -/
def drainingDistribution : ChunkDistribution Nat String where
  toDistributionStatus := .new
  shardChunks := [("shard0", [⟨⟨0, 10, "shard0"⟩, false⟩, ⟨⟨10, 20, "shard0"⟩, false⟩]),
    ("shard1", [⟨⟨20, 30, "shard1"⟩, false⟩]), ("shard2", [])]
  nodup := by decide

end Balance

end BalancerPolicy

end Mongo.Balancer
