import Mongo.Concurrency.LockInvariant

/-! The writes a call of the lock manager makes to one resource, and that each keeps the
invariant of `LockInvariant`. A write to the `LockHead` of a resource changes its lists and counts
and at most one request (`ResInv.headStep`); the writes to the partitioned heads add a request,
take one off, or create and drop a head. Each is also a `Frame` at the resource, so the invariant
of every other resource is kept as well. -/

namespace Mongo

namespace Concurrency

open LockMode Tally LockManager

namespace LockManager

theorem setPartitionHead_apply (m : LockManager) (p : Nat) (resId : ResourceId)
    (head : Option (List RequestId)) (p' : Nat) (x : ResourceId) :
    (m.setPartitionHead p resId head).partitionHeads p' x =
      if p' = p ∧ x = resId then head else m.partitionHeads p' x := by
  by_cases hp : p' = p
  · subst hp
    by_cases hx : x = resId
    · simp [hx]
    · simp [hx]
  · simp [hp]

theorem setRequest_self (m : LockManager) (r : RequestId) : m.setRequest r (m.requests r) = m := by
  simp [setRequest]

end LockManager

theorem isSome_of_mem_getD {head : Option (List RequestId)} {r : RequestId}
    (h : r ∈ head.getD []) : head.isSome := by
  cases head
  · simp at h
  · rfl

/-! ### Frames -/

namespace Frame

variable {resId : ResourceId} {m : LockManager}

theorem setHead (L : LockHead) : Frame resId m (m.setHead resId L) where
  heads x hx := by simp [Function.update_of_ne hx]
  partitionHeads _ _ _ := rfl
  requests _ h := absurd rfl h

theorem setPartitionHead (p : Nat) (head : Option (List RequestId)) :
    Frame resId m (m.setPartitionHead p resId head) where
  heads _ _ := rfl
  partitionHeads p' x hx := by rw [setPartitionHead_apply, if_neg fun h => hx h.2]
  requests _ h := absurd rfl h

theorem notify (r : RequestId) (x : ResourceId) : Frame resId m (m.notify r x) where
  heads _ _ := rfl
  partitionHeads _ _ _ := rfl
  requests _ h := absurd rfl h

/-- A request that names only the resource, and was on no list of another one, may change. -/
theorem setRequest {r : RequestId} {req' : LockRequest} (hnames : NamesOnly req' resId)
    (hoff : ∀ x, x ≠ resId → OffLists m r x) : Frame resId m (m.setRequest r req') where
  heads _ _ := rfl
  partitionHeads _ _ _ := rfl
  requests q hq := by
    by_cases hqr : q = r
    · subst hqr
      simpa using And.intro hnames hoff
    · simp [Function.update_of_ne hqr] at hq

/-- A write of the `LockHead` of the resource and of a request that names only it. -/
theorem setHead_setRequest {L : LockHead} {r : RequestId} {req' : LockRequest}
    (hnames : NamesOnly req' resId) (hoff : ∀ x, x ≠ resId → OffLists m r x) :
    Frame resId m ((m.setHead resId L).setRequest r req') :=
  (setHead L).trans (setRequest hnames fun x hx =>
    ⟨by simpa [Function.update_of_ne hx] using (hoff x hx).granted,
      by simpa [Function.update_of_ne hx] using (hoff x hx).conflict, (hoff x hx).partition⟩)

/-- A write of a partitioned head of the resource and of a request that names only it. -/
theorem setPartitionHead_setRequest {p : Nat} {head : Option (List RequestId)} {r : RequestId}
    {req' : LockRequest} (hnames : NamesOnly req' resId) (hoff : ∀ x, x ≠ resId → OffLists m r x) :
    Frame resId m ((m.setPartitionHead p resId head).setRequest r req') :=
  (setPartitionHead p head).trans (setRequest hnames fun x hx =>
    ⟨(hoff x hx).granted, (hoff x hx).conflict, fun p' => by
      rw [setPartitionHead_apply, if_neg fun h => hx h.2]
      exact (hoff x hx).partition p'⟩)

end Frame

/-- A request that names only `resId` is on no list of another resource. -/
theorem Inv.offLists_of_namesOnly {m : LockManager} {resId : ResourceId} {r : RequestId}
    (h : Inv m) (hn : NamesOnly (m.requests r) resId) : ∀ x, x ≠ resId → OffLists m r x :=
  fun x hx => (h x).offLists_of_namesOnly hn hx

/-- A request on the lists of `resId` names only `resId`. -/
theorem ResInv.namesOnly_of_on {m : LockManager} {resId : ResourceId} {r : RequestId}
    (h : ResInv m resId)
    (hon : r ∈ (m.heads resId).grantedList ∨ r ∈ (m.heads resId).conflictList ∨
      ∃ p, r ∈ (m.partitionHeads p resId).getD []) : NamesOnly (m.requests r) resId := by
  rcases hon with hr | hr | ⟨p, hr⟩
  · have hon := h.grantedOn r hr
    exact ⟨fun x hx => by simpa [hon.lock] using hx.symm,
      fun p x hx => by simp [hon.partitionedLock] at hx⟩
  · have hon := h.waitingOn r hr
    exact ⟨fun x hx => by simpa [hon.lock] using hx.symm,
      fun p x hx => by simp [hon.partitionedLock] at hx⟩
  · have hon := h.partitionedOn p r hr
    refine ⟨fun x hx => by simp [hon.lock] at hx, fun p' x hx => ?_⟩
    rw [hon.partitionedLock] at hx
    exact (Prod.mk.inj (Option.some.inj hx)).2.symm

/-- A notification changes nothing the invariant reads. -/
theorem ResInv.notify {m : LockManager} {x : ResourceId} (h : ResInv m x) (r : RequestId)
    (y : ResourceId) : ResInv (m.notify r y) x :=
  { toHeadInv := { h.toHeadInv with }, toPartitionsInv := { h.toPartitionsInv with } }

/-! ### Writes to the `LockHead` -/

namespace ResInv

variable {m : LockManager} {resId : ResourceId} {r : RequestId}

/-- A write of the `LockHead` of a resource and of one request `r`. The other requests keep
their places; `r` takes the place its new fields ask for; each count moves by the shares of `r`
on the old and the new lists; and `r` is on no partitioned head. -/
theorem headStep (h : ResInv m resId) {L : LockHead} {req' : LockRequest}
    (hparts : L.partitions = (m.heads resId).partitions)
    (hgnd : L.grantedList.Nodup) (hcnd : L.conflictList.Nodup)
    (hgmem : ∀ q, q ≠ r → (q ∈ L.grantedList ↔ q ∈ (m.heads resId).grantedList))
    (hcmem : ∀ q, q ≠ r → (q ∈ L.conflictList ↔ q ∈ (m.heads resId).conflictList))
    (hgon : r ∈ L.grantedList → GrantedOn req' resId)
    (hwon : r ∈ L.conflictList → WaitingOn req' resId)
    (hgc : ∀ e, L.grantedCounts e +
        (if r ∈ (m.heads resId).grantedList then grantedWeight e (m.requests r) else 0) =
      (m.heads resId).grantedCounts e + if r ∈ L.grantedList then grantedWeight e req' else 0)
    (hcc : ∀ e, L.conflictCounts e +
        (if r ∈ (m.heads resId).conflictList then conflictWeight e (m.requests r) else 0) =
      (m.heads resId).conflictCounts e + if r ∈ L.conflictList then conflictWeight e req' else 0)
    (hconv : L.conversionsCount +
        (if r ∈ (m.heads resId).grantedList then convertingWeight (m.requests r) else 0) =
      (m.heads resId).conversionsCount + if r ∈ L.grantedList then convertingWeight req' else 0)
    (hgm : ModesMatch L.grantedCounts L.grantedModes)
    (hcm : ModesMatch L.conflictCounts L.conflictModes)
    (hmg : req'.lock = some resId → 0 < req'.recursiveCount →
      req'.status = .STATUS_GRANTED ∨ req'.status = .STATUS_CONVERTING → r ∈ L.grantedList)
    (hmc : req'.lock = some resId → 0 < req'.recursiveCount → req'.status = .STATUS_WAITING →
      r ∈ L.conflictList)
    (hrp : ∀ p, r ∉ (m.partitionHeads p resId).getD []) (hrpl : req'.partitionedLock = none) :
    ResInv ((m.setHead resId L).setRequest r req') resId := by
  have hheads : ((m.setHead resId L).setRequest r req').heads resId = L := by simp
  have hreqs : ((m.setHead resId L).setRequest r req').requests =
      Function.update m.requests r req' := rfl
  have hother : ∀ q, q ≠ r → Function.update m.requests r req' q = m.requests q :=
    fun q hq => Function.update_of_ne hq _ _
  refine ⟨⟨?_, ?_, ?_, ?_, ?_, ?_, ?_, ?_, ?_, ?_, ?_⟩,
    h.toPartitionsInv.of_head_step rfl (by rw [hheads, hparts]) fun q hq => ?_⟩ <;>
    simp only [hheads, hreqs]
  · exact hgnd
  · exact hcnd
  · intro q hq
    by_cases hqr : q = r
    · subst hqr
      simpa using hgon hq
    · rw [hother q hqr]
      exact h.grantedOn q ((hgmem q hqr).mp hq)
  · intro q hq
    by_cases hqr : q = r
    · subst hqr
      simpa using hwon hq
    · rw [hother q hqr]
      exact h.waitingOn q ((hcmem q hqr).mp hq)
  · intro e
    have htally := tally_update_of_members (t := m.requests) (w := grantedWeight e)
      h.grantedNodup hgnd hgmem req'
    have := h.grantedCounts e
    have := hgc e
    omega
  · intro e
    have htally := tally_update_of_members (t := m.requests) (w := conflictWeight e)
      h.conflictNodup hcnd hcmem req'
    have := h.conflictCounts e
    have := hcc e
    omega
  · exact hgm
  · exact hcm
  · have htally := tally_update_of_members (t := m.requests) (w := convertingWeight)
      h.grantedNodup hgnd hgmem req'
    have := h.conversionsCount
    omega
  · intro q hlock hcount hstatus
    by_cases hqr : q = r
    · subst hqr
      simp only [Function.update_self] at hlock hcount hstatus
      exact hmg hlock hcount hstatus
    · rw [hother q hqr] at hlock hcount hstatus
      exact (hgmem q hqr).mpr (h.memGranted q hlock hcount hstatus)
  · intro q hlock hcount hstatus
    by_cases hqr : q = r
    · subst hqr
      simp only [Function.update_self] at hlock hcount hstatus
      exact hmc hlock hcount hstatus
    · rw [hother q hqr] at hlock hcount hstatus
      exact (hcmem q hqr).mpr (h.memConflict q hlock hcount hstatus)
  · -- only `r` changed, and it is on no partitioned head
    have hqr : q = r := by
      by_contra hqr
      simp [Function.update_of_ne hqr] at hq
    subst hqr
    exact ⟨hrp, by simpa [hreqs] using hrpl⟩

/-! ### Writes to one request -/

/-- A request may change its count and flags while it keeps its place: the same resources, status
and modes, and a positive count only where it had one. This holds at every resource. -/
theorem setRequest_same (h : ResInv m resId) {req' : LockRequest}
    (hlock : req'.lock = (m.requests r).lock)
    (hpart : req'.partitionedLock = (m.requests r).partitionedLock)
    (hstatus : req'.status = (m.requests r).status) (hmode : req'.mode = (m.requests r).mode)
    (hconvert : req'.convertMode = (m.requests r).convertMode)
    (hcount : 0 < req'.recursiveCount → 0 < (m.requests r).recursiveCount) :
    ResInv (m.setRequest r req') resId := by
  -- every field the invariant reads of `r` is as it was, but its count
  have hweights : ∀ q e, grantedWeight e (Function.update m.requests r req' q) =
      grantedWeight e (m.requests q) ∧
      conflictWeight e (Function.update m.requests r req' q) = conflictWeight e (m.requests q) := by
    intro q e
    by_cases hqr : q = r
    · subst hqr
      simp [grantedWeight, conflictWeight, hmode, hstatus, hconvert]
    · simp [Function.update_of_ne hqr]
  have hconverting : ∀ q, convertingWeight (Function.update m.requests r req' q) =
      convertingWeight (m.requests q) := by
    intro q
    by_cases hqr : q = r
    · subst hqr
      simp [convertingWeight, hstatus]
    · simp [Function.update_of_ne hqr]
  have hfields : ∀ q, (Function.update m.requests r req' q).lock = (m.requests q).lock ∧
      (Function.update m.requests r req' q).partitionedLock = (m.requests q).partitionedLock ∧
      (Function.update m.requests r req' q).status = (m.requests q).status ∧
      (Function.update m.requests r req' q).mode = (m.requests q).mode ∧
      (Function.update m.requests r req' q).convertMode = (m.requests q).convertMode ∧
      (0 < (Function.update m.requests r req' q).recursiveCount →
        0 < (m.requests q).recursiveCount) := by
    intro q
    by_cases hqr : q = r
    · subst hqr
      simpa using ⟨hlock, hpart, hstatus, hmode, hconvert, hcount⟩
    · simp [Function.update_of_ne hqr]
  have hgranted : ∀ q, GrantedOn (m.requests q) resId →
      GrantedOn (Function.update m.requests r req' q) resId := by
    intro q hq
    obtain ⟨h1, h2, h3, h4, h5, -⟩ := hfields q
    exact ⟨h1 ▸ hq.lock, h2 ▸ hq.partitionedLock, h3 ▸ hq.status,
      fun hs => h4 ▸ h5 ▸ hq.upgrade (h3 ▸ hs)⟩
  refine ⟨⟨h.grantedNodup, h.conflictNodup, fun q hq => hgranted q (h.grantedOn q hq),
    fun q hq => ?_, fun e => ?_, fun e => ?_, h.grantedModes, h.conflictModes, ?_,
    fun q hlock hc hs => ?_, fun q hlock hc hs => ?_⟩,
    ⟨fun p q hq => ?_, h.partitionNodup, h.partitions, fun q p hlock hc => ?_⟩⟩
  · obtain ⟨h1, h2, h3, -⟩ := hfields q
    have hon := h.waitingOn q hq
    exact ⟨h1 ▸ hon.lock, h2 ▸ hon.partitionedLock, h3 ▸ hon.status⟩
  · simp only [setRequest_heads, setRequest_requests]
    rw [h.grantedCounts e]
    exact (tally_congr fun q _ => (hweights q e).1).symm
  · simp only [setRequest_heads, setRequest_requests]
    rw [h.conflictCounts e]
    exact (tally_congr fun q _ => (hweights q e).2).symm
  · simp only [setRequest_heads, setRequest_requests]
    rw [h.conversionsCount]
    exact (tally_congr fun q _ => hconverting q).symm
  · obtain ⟨h1, -, h3, -, -, h6⟩ := hfields q
    exact h.memGranted q (h1 ▸ hlock) (h6 hc) (h3 ▸ hs)
  · obtain ⟨h1, -, h3, -, -, h6⟩ := hfields q
    exact h.memConflict q (h1 ▸ hlock) (h6 hc) (h3 ▸ hs)
  · obtain ⟨h1, h2, h3, -⟩ := hfields q
    have hon := h.partitionedOn p q hq
    exact ⟨h1 ▸ hon.lock, h2 ▸ hon.partitionedLock, h3 ▸ hon.status⟩
  · obtain ⟨-, h2, -, -, -, h6⟩ := hfields q
    exact h.memPartition q p (h2 ▸ hlock) (h6 hc)

/-- A request on no list may change its modes and flags, keeping its resources, status and count.
This holds at every resource. -/
theorem setRequest_offLists (h : ResInv m resId) (hoff : OffLists m r resId) {req' : LockRequest}
    (hlock : req'.lock = (m.requests r).lock)
    (hpart : req'.partitionedLock = (m.requests r).partitionedLock)
    (hstatus : req'.status = (m.requests r).status)
    (hcount : req'.recursiveCount = (m.requests r).recursiveCount) :
    ResInv (m.setRequest r req') resId := by
  have hgranted : ∀ q ∈ (m.heads resId).grantedList, Function.update m.requests r req' q =
      m.requests q := fun q hq => Function.update_of_ne (by rintro rfl; exact hoff.granted hq) _ _
  have hconflict : ∀ q ∈ (m.heads resId).conflictList, Function.update m.requests r req' q =
      m.requests q := fun q hq => Function.update_of_ne (by rintro rfl; exact hoff.conflict hq) _ _
  have hpartitioned : ∀ p, ∀ q ∈ (m.partitionHeads p resId).getD [],
      Function.update m.requests r req' q = m.requests q :=
    fun p q hq => Function.update_of_ne (by rintro rfl; exact hoff.partition p hq) _ _
  -- the fields the membership facts read are those of `m`
  have hfields : ∀ q, (Function.update m.requests r req' q).lock = (m.requests q).lock ∧
      (Function.update m.requests r req' q).partitionedLock = (m.requests q).partitionedLock ∧
      (Function.update m.requests r req' q).status = (m.requests q).status ∧
      (Function.update m.requests r req' q).recursiveCount = (m.requests q).recursiveCount := by
    intro q
    by_cases hqr : q = r
    · subst hqr
      simpa using ⟨hlock, hpart, hstatus, hcount⟩
    · simp [Function.update_of_ne hqr]
  refine ⟨⟨h.grantedNodup, h.conflictNodup, fun q hq => ?_, fun q hq => ?_, fun e => ?_,
    fun e => ?_, h.grantedModes, h.conflictModes, ?_, fun q hl hc hs => ?_, fun q hl hc hs => ?_⟩,
    ⟨fun p q hq => ?_, h.partitionNodup, h.partitions, fun q p hl hc => ?_⟩⟩
  · simpa [hgranted q hq] using h.grantedOn q hq
  · simpa [hconflict q hq] using h.waitingOn q hq
  · simpa [tally_congr fun q hq => congrArg (grantedWeight e) (hgranted q hq)] using
      h.grantedCounts e
  · simpa [tally_congr fun q hq => congrArg (conflictWeight e) (hconflict q hq)] using
      h.conflictCounts e
  · simpa [tally_congr fun q hq => congrArg convertingWeight (hgranted q hq)] using
      h.conversionsCount
  · obtain ⟨h1, -, h3, h4⟩ := hfields q
    simp only [setRequest_requests, setRequest_heads, h1, h3, h4] at hl hc hs ⊢
    exact h.memGranted q hl hc hs
  · obtain ⟨h1, -, h3, h4⟩ := hfields q
    simp only [setRequest_requests, setRequest_heads, h1, h3, h4] at hl hc hs ⊢
    exact h.memConflict q hl hc hs
  · simpa [hpartitioned p q hq] using h.partitionedOn p q hq
  · obtain ⟨-, h2, -, h4⟩ := hfields q
    simp only [setRequest_requests, h2, h4] at hl hc ⊢
    exact h.memPartition q p hl hc

/-! ### Writes to the partitioned heads -/

theorem getD_map_erase (head : Option (List RequestId)) (r : RequestId) :
    (head.map fun l => l.erase r).getD [] = (head.getD []).erase r := by
  cases head <;> rfl

/-- A request on a partitioned head of a resource is on no list of its `LockHead`. -/
theorem offHead_of_mem_partition (h : ResInv m resId) {p : Nat}
    (hr : r ∈ (m.partitionHeads p resId).getD []) :
    r ∉ (m.heads resId).grantedList ∧ r ∉ (m.heads resId).conflictList := by
  have hon := h.partitionedOn p r hr
  refine ⟨fun hg => ?_, fun hc => ?_⟩
  · simpa [hon.partitionedLock] using (h.grantedOn r hg).partitionedLock
  · simpa [hon.partitionedLock] using (h.waitingOn r hc).partitionedLock

/-- A request is on the partitioned head of one partition only. -/
theorem eq_of_mem_partition (h : ResInv m resId) {p p' : Nat}
    (hr : r ∈ (m.partitionHeads p resId).getD []) (hr' : r ∈ (m.partitionHeads p' resId).getD []) :
    p' = p := by
  have h1 := (h.partitionedOn p r hr).partitionedLock
  have h2 := (h.partitionedOn p' r hr').partitionedLock
  rw [h1] at h2
  exact (Prod.mk.inj (Option.some.inj h2)).1.symm

/-- `partition->findOrInsert(resId)` and the partition added to `partitions`. -/
theorem startPartition (h : ResInv m resId) (p : Nat) :
    ResInv ((m.setPartitionHead p resId (some ((m.partitionHeads p resId).getD []))).setHead resId
      { m.heads resId with partitions := (m.heads resId).partitions ++ [p] }) resId := by
  set m' := (m.setPartitionHead p resId (some ((m.partitionHeads p resId).getD []))).setHead resId
    { m.heads resId with partitions := (m.heads resId).partitions ++ [p] }
  -- each partition has the requests it had
  have hget : ∀ p', (m'.partitionHeads p' resId).getD [] = (m.partitionHeads p' resId).getD [] := by
    intro p'
    simp only [m', setHead_partitionHeads, setPartitionHead_apply, and_true]
    split_ifs with hp
    · subst hp
      rfl
    · rfl
  refine ⟨h.toHeadInv.of_partition_step (by simp [m']) fun q hq => absurd rfl hq,
    ⟨fun p' q hq => ?_, fun p' => ?_, fun p' hp' => ?_, fun q p' hl hc => ?_⟩⟩
  · rw [hget] at hq
    exact h.partitionedOn p' q hq
  · rw [hget]
    exact h.partitionNodup p'
  · simp only [m', setHead_heads, Function.update_self, List.mem_append, List.mem_singleton]
    by_cases hpp : p' = p
    · exact .inr hpp
    · refine .inl (h.partitions p' ?_)
      simpa [m', setPartitionHead_apply, hpp] using hp'
  · rw [hget]
    exact h.memPartition q p' hl hc

/-- `PartitionedLockHead::newRequest`: a request on no list, that names no resource, joins the
partitioned head of a partition in `partitions`, granted. -/
theorem addPartitioned (h : ResInv m resId) (hoff : OffLists m r resId)
    (hlock : (m.requests r).lock = none) {p : Nat} (hp : p ∈ (m.heads resId).partitions) :
    ResInv ((m.setPartitionHead p resId (some ((m.partitionHeads p resId).getD [] ++ [r]))).setRequest
      r { m.requests r with partitionedLock := some (p, resId), status := .STATUS_GRANTED })
      resId := by
  set req' : LockRequest :=
    { m.requests r with partitionedLock := some (p, resId), status := .STATUS_GRANTED }
  set m' := (m.setPartitionHead p resId (some ((m.partitionHeads p resId).getD [] ++ [r]))).setRequest
    r req'
  have hget : ∀ p', (m'.partitionHeads p' resId).getD [] =
      if p' = p then (m.partitionHeads p resId).getD [] ++ [r] else
        (m.partitionHeads p' resId).getD [] := by
    intro p'
    simp only [m', setRequest_partitionHeads, setPartitionHead_apply, and_true]
    split_ifs <;> rfl
  have hreqs : m'.requests = Function.update m.requests r req' := rfl
  refine ⟨h.toHeadInv.of_partition_step (by simp [m']) fun q hq => ?_,
    ⟨fun p' q hq => ?_, fun p' => ?_, fun p' hp' => ?_, fun q p' hl hc => ?_⟩⟩
  · -- only `r` changed, and it was on no list of the `LockHead`
    have hqr : q = r := by
      by_contra hqr
      simp [hreqs, Function.update_of_ne hqr] at hq
    subst hqr
    exact ⟨hoff.granted, hoff.conflict, by simpa [hreqs, req'] using hlock⟩
  · rw [hget] at hq
    by_cases hqr : q = r
    · subst hqr
      by_cases hpp : p' = p
      · subst hpp
        simp only [hreqs, Function.update_self]
        exact ⟨hlock, rfl, rfl⟩
      · rw [if_neg hpp] at hq
        exact absurd hq (hoff.partition p')
    · rw [hreqs, Function.update_of_ne hqr]
      split_ifs at hq with hpp
      · subst hpp
        exact h.partitionedOn p' q (by simpa [hqr] using hq)
      · exact h.partitionedOn p' q hq
  · rw [hget]
    split_ifs with hpp
    · subst hpp
      exact (h.partitionNodup p').append (List.nodup_singleton r)
        (List.disjoint_singleton.mpr (hoff.partition p'))
    · exact h.partitionNodup p'
  · simp only [m', setRequest_heads]
    by_cases hpp : p' = p
    · exact hpp ▸ hp
    · exact h.partitions p' (by simpa [m', setPartitionHead_apply, hpp] using hp')
  · rw [hget]
    by_cases hqr : q = r
    · subst hqr
      -- `r` names the partition it joined
      have hpp : p' = p := by
        have hl' : some (p, resId) = some (p', resId) := by simpa [hreqs, req'] using hl
        exact (Prod.mk.inj (Option.some.inj hl')).1.symm
      simp [hpp]
    · rw [hreqs, Function.update_of_ne hqr] at hl hc
      have hq := h.memPartition q p' hl hc
      split_ifs with hpp
      · subst hpp
        exact List.mem_append_left _ hq
      · exact hq

/-- A request whose count has dropped to zero leaves its partitioned head, in `unlock`. -/
theorem erasePartitioned (h : ResInv m resId) (hcount : (m.requests r).recursiveCount = 0)
    (p : Nat) :
    ResInv (m.setPartitionHead p resId ((m.partitionHeads p resId).map fun l => l.erase r))
      resId := by
  set m' := m.setPartitionHead p resId ((m.partitionHeads p resId).map fun l => l.erase r)
  have hget : ∀ p', (m'.partitionHeads p' resId).getD [] =
      if p' = p then ((m.partitionHeads p resId).getD []).erase r else
        (m.partitionHeads p' resId).getD [] := by
    intro p'
    simp only [m', setPartitionHead_apply, and_true]
    split_ifs
    · exact getD_map_erase _ r
    · rfl
  refine ⟨h.toHeadInv.of_partition_step (by simp [m']) fun q hq => absurd rfl hq,
    ⟨fun p' q hq => ?_, fun p' => ?_, fun p' hp' => ?_, fun q p' hl hc => ?_⟩⟩
  · rw [hget] at hq
    split_ifs at hq with hpp
    · subst hpp
      exact h.partitionedOn p' q (List.mem_of_mem_erase hq)
    · exact h.partitionedOn p' q hq
  · rw [hget]
    split_ifs with hpp
    · subst hpp
      exact (h.partitionNodup p').erase r
    · exact h.partitionNodup p'
  · refine h.partitions p' ?_
    have hsome : ((m.setPartitionHead p resId ((m.partitionHeads p resId).map fun l => l.erase r)
        ).partitionHeads p' resId).isSome := hp'
    rw [setPartitionHead_apply] at hsome
    split_ifs at hsome with hpp
    · obtain ⟨rfl, -⟩ := hpp
      simpa using hsome
    · exact hsome
  · -- `r` no longer counts, so every request that does is still there
    have hqr : q ≠ r := by
      rintro rfl
      simp [m', hcount] at hc
    have hq := h.memPartition q p' hl hc
    rw [hget]
    split_ifs with hpp
    · subst hpp
      exact (List.mem_erase_of_ne hqr).mpr hq
    · exact hq

/-- The inner loop of `migratePartitionedLockHeads`: a request leaves its partitioned head and
names no resource until `newRequest` places it on the `LockHead`. -/
theorem migrateOut (h : ResInv m resId) {p : Nat} (hr : r ∈ (m.partitionHeads p resId).getD []) :
    ResInv ((m.setPartitionHead p resId ((m.partitionHeads p resId).map fun l => l.erase r)).setRequest
      r { m.requests r with partitionedLock := none }) resId := by
  set req' : LockRequest := { m.requests r with partitionedLock := none }
  set m' := (m.setPartitionHead p resId ((m.partitionHeads p resId).map fun l => l.erase r)).setRequest
    r req'
  have hon := h.partitionedOn p r hr
  have hget : ∀ p', (m'.partitionHeads p' resId).getD [] =
      if p' = p then ((m.partitionHeads p resId).getD []).erase r else
        (m.partitionHeads p' resId).getD [] := by
    intro p'
    simp only [m', setRequest_partitionHeads, setPartitionHead_apply, and_true]
    split_ifs
    · exact getD_map_erase _ r
    · rfl
  have hreqs : m'.requests = Function.update m.requests r req' := rfl
  -- no partitioned head still has `r`
  have hgone : ∀ p', r ∉ (m'.partitionHeads p' resId).getD [] := by
    intro p' hp'
    rw [hget] at hp'
    split_ifs at hp' with hpp
    · exact (h.partitionNodup p).not_mem_erase hp'
    · exact hpp (h.eq_of_mem_partition hr hp')
  obtain ⟨hg, hc⟩ := h.offHead_of_mem_partition hr
  refine ⟨h.toHeadInv.of_partition_step (by simp [m']) fun q hq => ?_,
    ⟨fun p' q hq => ?_, fun p' => ?_, fun p' hp' => ?_, fun q p' hl hcount => ?_⟩⟩
  · have hqr : q = r := by
      by_contra hqr
      simp [hreqs, Function.update_of_ne hqr] at hq
    subst hqr
    exact ⟨hg, hc, by simpa [hreqs, req'] using hon.lock⟩
  · have hqr : q ≠ r := by
      rintro rfl
      exact hgone p' hq
    rw [hreqs, Function.update_of_ne hqr]
    rw [hget] at hq
    split_ifs at hq with hpp
    · subst hpp
      exact h.partitionedOn p' q (List.mem_of_mem_erase hq)
    · exact h.partitionedOn p' q hq
  · rw [hget]
    split_ifs with hpp
    · subst hpp
      exact (h.partitionNodup p').erase r
    · exact h.partitionNodup p'
  · refine h.partitions p' ?_
    have hsome : ((m.setPartitionHead p resId ((m.partitionHeads p resId).map fun l => l.erase r)
        ).partitionHeads p' resId).isSome := hp'
    rw [setPartitionHead_apply] at hsome
    split_ifs at hsome with hpp
    · obtain ⟨rfl, -⟩ := hpp
      simpa using hsome
    · exact hsome
  · have hqr : q ≠ r := by
      rintro rfl
      simp [hreqs, req'] at hl
    rw [hreqs, Function.update_of_ne hqr] at hl hcount
    have hq := h.memPartition q p' hl hcount
    rw [hget]
    split_ifs with hpp
    · subst hpp
      exact (List.mem_erase_of_ne hqr).mpr hq
    · exact hq

/-- An emptied partitioned head is erased. -/
theorem dropPartitionHead (h : ResInv m resId) {p : Nat}
    (hempty : (m.partitionHeads p resId).getD [] = []) :
    ResInv (m.setPartitionHead p resId none) resId := by
  have hget : ∀ p', (m.partitionHeads p' resId).getD [] = [] ∨
      (m.setPartitionHead p resId none).partitionHeads p' resId = m.partitionHeads p' resId := by
    intro p'
    by_cases hpp : p' = p
    · exact .inl (hpp ▸ hempty)
    · exact .inr (by simp [setPartitionHead_apply, hpp])
  refine ⟨h.toHeadInv.of_partition_step (by simp) fun q hq => absurd rfl hq,
    ⟨fun p' q hq => ?_, fun p' => ?_, fun p' hp' => ?_, fun q p' hl hc => ?_⟩⟩
  · rcases hget p' with h0 | h1
    · by_cases hpp : p' = p
      · simp [setPartitionHead_apply, hpp] at hq
      · simp [setPartitionHead_apply, hpp] at hq
        exact h.partitionedOn p' q hq
    · rw [h1] at hq
      exact h.partitionedOn p' q hq
  · by_cases hpp : p' = p
    · simp [setPartitionHead_apply, hpp]
    · simpa [setPartitionHead_apply, hpp] using h.partitionNodup p'
  · by_cases hpp : p' = p
    · simp [setPartitionHead_apply, hpp] at hp'
    · exact h.partitions p' (by simpa [setPartitionHead_apply, hpp] using hp')
  · have hq := h.memPartition q p' hl hc
    by_cases hpp : p' = p
    · subst hpp
      rw [hempty] at hq
      cases hq
    · simpa [setPartitionHead_apply, hpp] using hq

/-- The last partition leaves `partitions` once every partitioned head of the resource is of
another partition. -/
theorem dropLastPartition (h : ResInv m resId)
    (hlast : ∀ p, (m.partitionHeads p resId).isSome → p ∈ (m.heads resId).partitions.dropLast) :
    ResInv (m.setHead resId { m.heads resId with partitions := (m.heads resId).partitions.dropLast })
      resId :=
  ⟨h.toHeadInv.of_partition_step (by simp) fun q hq => absurd rfl hq,
    ⟨h.partitionedOn, h.partitionNodup, fun p hp => by simpa using hlast p hp, h.memPartition⟩⟩

end ResInv

end Concurrency

end Mongo
