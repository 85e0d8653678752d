import Mongo.Tally
import Mongo.Concurrency.LockManager

/-! What the lock manager keeps true of each resource between calls: the lists of its `LockHead`
and of its `PartitionedLockHead`s hold the requests whose fields name the resource, once each; the
counts of the modes are the sums of what the requests on the lists hold and wait for, and the
masks have the bits of the modes with a positive count. The invariant is stated per resource, and
a call on one resource leaves the others' as they were (`Frame`). -/

namespace Mongo

namespace Concurrency

open LockMode Tally LockManager

/-- The masks kept beside counts: a mode's bit is set exactly when its count is positive. -/
def ModesMatch (counts : LockMode → Nat) (modes : UInt32) : Prop :=
  ∀ e, hasMode modes e = decide (0 < counts e)

theorem incModeCount_eq_ok {counts counts' : LockMode → Nat} {modes modes' : UInt32} {mode : LockMode}
    (h : incModeCount counts modes mode = .ok (counts', modes')) (hm : ModesMatch counts modes) :
    counts' = Function.update counts mode (counts mode + 1) ∧ ModesMatch counts' modes' := by
  unfold incModeCount at h
  dsimp only at h
  have hcounts : counts' = Function.update counts mode (counts mode + 1) := by
    split_ifs at h
    · obtain ⟨-, -, h⟩ := bind_eq_ok.mp h
      exact (congrArg Prod.fst (pure_eq_ok.mp h)).symm
    · exact (congrArg Prod.fst (pure_eq_ok.mp h)).symm
  refine ⟨hcounts, fun e => ?_⟩
  subst hcounts
  by_cases he : e = mode
  · -- the mode's own bit: set when its count becomes one, and already set otherwise
    subst he
    split_ifs at h with h1
    · obtain ⟨-, -, h⟩ := bind_eq_ok.mp h
      cases pure_eq_ok.mp h
      simp
    · cases pure_eq_ok.mp h
      have hpos : 0 < counts e := by omega
      simp [hm e, hpos]
  · split_ifs at h
    · obtain ⟨-, -, h⟩ := bind_eq_ok.mp h
      cases pure_eq_ok.mp h
      simp [Function.update_of_ne he, hm e, Ne.symm he]
    · cases pure_eq_ok.mp h
      simp [Function.update_of_ne he, hm e]

theorem decModeCount_eq_ok {counts counts' : LockMode → Nat} {modes modes' : UInt32} {mode : LockMode}
    (h : decModeCount counts modes mode = .ok (counts', modes')) (hm : ModesMatch counts modes) :
    1 ≤ counts mode ∧ counts' = Function.update counts mode (counts mode - 1) ∧
      ModesMatch counts' modes' := by
  unfold decModeCount at h
  obtain ⟨_, hpos, h⟩ := bind_eq_ok.mp h
  rw [invariant_eq_ok] at hpos
  dsimp only at h
  have hcounts : counts' = Function.update counts mode (counts mode - 1) := by
    split_ifs at h
    · obtain ⟨-, -, h⟩ := bind_eq_ok.mp h
      exact (congrArg Prod.fst (pure_eq_ok.mp h)).symm
    · exact (congrArg Prod.fst (pure_eq_ok.mp h)).symm
  refine ⟨hpos, hcounts, fun e => ?_⟩
  subst hcounts
  by_cases he : e = mode
  · -- the mode's own bit: cleared when its count becomes zero, and kept otherwise
    subst he
    split_ifs at h with h0
    · obtain ⟨-, -, h⟩ := bind_eq_ok.mp h
      cases pure_eq_ok.mp h
      simp [h0]
    · cases pure_eq_ok.mp h
      have hpos' : 0 < counts e - 1 := by omega
      simp only [Function.update_self, hpos', decide_true, hm e]
      simp only [decide_eq_true_eq]
      omega
  · split_ifs at h
    · obtain ⟨-, -, h⟩ := bind_eq_ok.mp h
      cases pure_eq_ok.mp h
      simp [Function.update_of_ne he, hm e, Ne.symm he]
    · cases pure_eq_ok.mp h
      simp [Function.update_of_ne he, hm e]

namespace LockHead

variable {lock lock' : LockHead} {mode : LockMode}

theorem incGrantedModeCount_eq_ok (h : lock.incGrantedModeCount mode = .ok lock')
    (hm : ModesMatch lock.grantedCounts lock.grantedModes) :
    ∃ modes, lock' = { lock with
        grantedCounts := Function.update lock.grantedCounts mode (lock.grantedCounts mode + 1),
        grantedModes := modes } ∧
      ModesMatch (Function.update lock.grantedCounts mode (lock.grantedCounts mode + 1)) modes := by
  obtain ⟨⟨counts, modes⟩, hinc, h⟩ := bind_eq_ok.mp h
  obtain ⟨rfl, hm'⟩ := incModeCount_eq_ok hinc hm
  exact ⟨modes, (pure_eq_ok.mp h).symm, hm'⟩

theorem decGrantedModeCount_eq_ok (h : lock.decGrantedModeCount mode = .ok lock')
    (hm : ModesMatch lock.grantedCounts lock.grantedModes) :
    1 ≤ lock.grantedCounts mode ∧ ∃ modes, lock' = { lock with
        grantedCounts := Function.update lock.grantedCounts mode (lock.grantedCounts mode - 1),
        grantedModes := modes } ∧
      ModesMatch (Function.update lock.grantedCounts mode (lock.grantedCounts mode - 1)) modes := by
  obtain ⟨⟨counts, modes⟩, hdec, h⟩ := bind_eq_ok.mp h
  obtain ⟨hpos, rfl, hm'⟩ := decModeCount_eq_ok hdec hm
  exact ⟨hpos, modes, (pure_eq_ok.mp h).symm, hm'⟩

theorem incConflictModeCount_eq_ok (h : lock.incConflictModeCount mode = .ok lock')
    (hm : ModesMatch lock.conflictCounts lock.conflictModes) :
    ∃ modes, lock' = { lock with
        conflictCounts := Function.update lock.conflictCounts mode (lock.conflictCounts mode + 1),
        conflictModes := modes } ∧
      ModesMatch (Function.update lock.conflictCounts mode (lock.conflictCounts mode + 1)) modes := by
  obtain ⟨⟨counts, modes⟩, hinc, h⟩ := bind_eq_ok.mp h
  obtain ⟨rfl, hm'⟩ := incModeCount_eq_ok hinc hm
  exact ⟨modes, (pure_eq_ok.mp h).symm, hm'⟩

theorem decConflictModeCount_eq_ok (h : lock.decConflictModeCount mode = .ok lock')
    (hm : ModesMatch lock.conflictCounts lock.conflictModes) :
    1 ≤ lock.conflictCounts mode ∧ ∃ modes, lock' = { lock with
        conflictCounts := Function.update lock.conflictCounts mode (lock.conflictCounts mode - 1),
        conflictModes := modes } ∧
      ModesMatch (Function.update lock.conflictCounts mode (lock.conflictCounts mode - 1)) modes := by
  obtain ⟨⟨counts, modes⟩, hdec, h⟩ := bind_eq_ok.mp h
  obtain ⟨hpos, rfl, hm'⟩ := decModeCount_eq_ok hdec hm
  exact ⟨hpos, modes, (pure_eq_ok.mp h).symm, hm'⟩

end LockHead

/-! ### The invariant of a resource -/

/-- A request's share of the granted count of mode `e`: the mode it holds, and the mode it
converts to. -/
def grantedWeight (e : LockMode) (request : LockRequest) : Nat :=
  (if request.mode = e then 1 else 0) +
    (if request.status = .STATUS_CONVERTING ∧ request.convertMode = e then 1 else 0)

/-- A waiting request's share of the conflict count of mode `e`. -/
def conflictWeight (e : LockMode) (request : LockRequest) : Nat := if request.mode = e then 1 else 0

/-- A request's share of `conversionsCount`. -/
def convertingWeight (request : LockRequest) : Nat :=
  if request.status = .STATUS_CONVERTING then 1 else 0

/-- A request on the granted list of a resource: granted or converting, and converting only to a
mode with more conflicts. -/
structure GrantedOn (request : LockRequest) (resId : ResourceId) : Prop where
  lock : request.lock = some resId
  partitionedLock : request.partitionedLock = none
  status : request.status = .STATUS_GRANTED ∨ request.status = .STATUS_CONVERTING
  upgrade : request.status = .STATUS_CONVERTING →
    (LockConflictsTable request.mode ||| LockConflictsTable request.convertMode) =
      LockConflictsTable request.convertMode

/-- A request on the conflict list of a resource. -/
structure WaitingOn (request : LockRequest) (resId : ResourceId) : Prop where
  lock : request.lock = some resId
  partitionedLock : request.partitionedLock = none
  status : request.status = .STATUS_WAITING

/-- A request on the granted list of the head of a resource in partition `p`. -/
structure PartitionedOn (request : LockRequest) (p : Nat) (resId : ResourceId) : Prop where
  lock : request.lock = none
  partitionedLock : request.partitionedLock = some (p, resId)
  status : request.status = .STATUS_GRANTED

/-- The invariant of the `LockHead` of a resource. Its lists hold, once each, the requests whose
fields name it and that are not released; its counts are the sums of the requests' shares, and
its masks have the bits of the positive counts. -/
structure HeadInv (m : LockManager) (resId : ResourceId) : Prop where
  grantedNodup : (m.heads resId).grantedList.Nodup
  conflictNodup : (m.heads resId).conflictList.Nodup
  grantedOn : ∀ r ∈ (m.heads resId).grantedList, GrantedOn (m.requests r) resId
  waitingOn : ∀ r ∈ (m.heads resId).conflictList, WaitingOn (m.requests r) resId
  grantedCounts : ∀ e, (m.heads resId).grantedCounts e =
    tally m.requests (grantedWeight e) (m.heads resId).grantedList
  conflictCounts : ∀ e, (m.heads resId).conflictCounts e =
    tally m.requests (conflictWeight e) (m.heads resId).conflictList
  grantedModes : ModesMatch (m.heads resId).grantedCounts (m.heads resId).grantedModes
  conflictModes : ModesMatch (m.heads resId).conflictCounts (m.heads resId).conflictModes
  conversionsCount : (m.heads resId).conversionsCount =
    tally m.requests convertingWeight (m.heads resId).grantedList
  memGranted : ∀ r, (m.requests r).lock = some resId → 0 < (m.requests r).recursiveCount →
    (m.requests r).status = .STATUS_GRANTED ∨ (m.requests r).status = .STATUS_CONVERTING →
    r ∈ (m.heads resId).grantedList
  memConflict : ∀ r, (m.requests r).lock = some resId → 0 < (m.requests r).recursiveCount →
    (m.requests r).status = .STATUS_WAITING → r ∈ (m.heads resId).conflictList

/-- The invariant of the `PartitionedLockHead`s of a resource: their lists hold, once each, the
requests granted on them and not released, and a partition with a head for the resource is among
the `partitions` of its `LockHead`. -/
structure PartitionsInv (m : LockManager) (resId : ResourceId) : Prop where
  partitionedOn : ∀ p, ∀ r ∈ (m.partitionHeads p resId).getD [],
    PartitionedOn (m.requests r) p resId
  partitionNodup : ∀ p, ((m.partitionHeads p resId).getD []).Nodup
  partitions : ∀ p, (m.partitionHeads p resId).isSome → p ∈ (m.heads resId).partitions
  memPartition : ∀ r p, (m.requests r).partitionedLock = some (p, resId) →
    0 < (m.requests r).recursiveCount → r ∈ (m.partitionHeads p resId).getD []

/-- The invariant of one resource. -/
structure ResInv (m : LockManager) (resId : ResourceId) : Prop
    extends HeadInv m resId, PartitionsInv m resId

/-- The invariant of the lock manager: that of every resource. -/
def Inv (m : LockManager) : Prop := ∀ resId, ResInv m resId

/-- A request names no resource but `resId`. -/
structure NamesOnly (request : LockRequest) (resId : ResourceId) : Prop where
  lock : ∀ x, request.lock = some x → x = resId
  partitionedLock : ∀ p x, request.partitionedLock = some (p, x) → x = resId

/-- A request is on no list of a resource. -/
structure OffLists (m : LockManager) (r : RequestId) (x : ResourceId) : Prop where
  granted : r ∉ (m.heads x).grantedList
  conflict : r ∉ (m.heads x).conflictList
  partition : ∀ p, r ∉ (m.partitionHeads p x).getD []

/-- `m'` differs from `m` only at resource `resId`: the lists of the other resources are those of
`m`, and a request that changed was on none of them and names only `resId`. -/
structure Frame (resId : ResourceId) (m m' : LockManager) : Prop where
  heads : ∀ x, x ≠ resId → m'.heads x = m.heads x
  partitionHeads : ∀ p x, x ≠ resId → m'.partitionHeads p x = m.partitionHeads p x
  requests : ∀ r, m'.requests r ≠ m.requests r →
    NamesOnly (m'.requests r) resId ∧ ∀ x, x ≠ resId → OffLists m r x

namespace Frame

variable {resId : ResourceId} {m m' m'' : LockManager}

theorem refl (resId : ResourceId) (m : LockManager) : Frame resId m m :=
  ⟨fun _ _ => rfl, fun _ _ _ => rfl, fun _ h => absurd rfl h⟩

theorem trans (h₁ : Frame resId m m') (h₂ : Frame resId m' m'') : Frame resId m m'' where
  heads x hx := (h₂.heads x hx).trans (h₁.heads x hx)
  partitionHeads p x hx := (h₂.partitionHeads p x hx).trans (h₁.partitionHeads p x hx)
  requests r hr := by
    by_cases h1 : m'.requests r = m.requests r
    · -- changed in the second step only: the lists of the other resources are those of `m`
      have h2 : m''.requests r ≠ m'.requests r := by rwa [h1]
      obtain ⟨hnames, hoff⟩ := h₂.requests r h2
      refine ⟨hnames, fun x hx => ?_⟩
      obtain ⟨hg, hc, hp⟩ := hoff x hx
      refine ⟨?_, ?_, fun p => ?_⟩
      · rwa [← h₁.heads x hx]
      · rwa [← h₁.heads x hx]
      · rw [← h₁.partitionHeads p x hx]
        exact hp p
    · obtain ⟨hnames, hoff⟩ := h₁.requests r h1
      refine ⟨?_, hoff⟩
      by_cases h2 : m''.requests r = m'.requests r
      · rwa [h2]
      · exact (h₂.requests r h2).1

/-- The request of an identity on a list of another resource is unchanged. -/
theorem request_eq (h : Frame resId m m') {x : ResourceId} (hx : x ≠ resId) {r : RequestId}
    (hon : r ∈ (m.heads x).grantedList ∨ r ∈ (m.heads x).conflictList ∨
      ∃ p, r ∈ (m.partitionHeads p x).getD []) : m'.requests r = m.requests r := by
  by_contra hne
  obtain ⟨hg, hc, hp⟩ := (h.requests r hne).2 x hx
  rcases hon with hon | hon | ⟨p, hon⟩
  · exact hg hon
  · exact hc hon
  · exact hp p hon

end Frame

/-- A step at one resource keeps the invariant of every other. -/
theorem ResInv.of_frame {resId x : ResourceId} {m m' : LockManager} (h : ResInv m x)
    (hf : Frame resId m m') (hx : x ≠ resId) : ResInv m' x := by
  have hhead := hf.heads x hx
  have hpart : ∀ p, m'.partitionHeads p x = m.partitionHeads p x := fun p => hf.partitionHeads p x hx
  have hgranted : ∀ r ∈ (m.heads x).grantedList, m'.requests r = m.requests r :=
    fun r hr => hf.request_eq hx (.inl hr)
  have hconflict : ∀ r ∈ (m.heads x).conflictList, m'.requests r = m.requests r :=
    fun r hr => hf.request_eq hx (.inr (.inl hr))
  have hpartitioned : ∀ p, ∀ r ∈ (m.partitionHeads p x).getD [], m'.requests r = m.requests r :=
    fun p r hr => hf.request_eq hx (.inr (.inr ⟨p, hr⟩))
  -- a request that changed names only `resId`, so the membership facts of `x` are about the others
  have hsame : ∀ r, (m'.requests r).lock = some x ∨ (∃ p, (m'.requests r).partitionedLock = some (p, x)) →
      m'.requests r = m.requests r := by
    intro r hr
    by_contra hne
    have hnames := (hf.requests r hne).1
    rcases hr with hr | ⟨p, hr⟩
    · exact hx (hnames.lock x hr)
    · exact hx (hnames.partitionedLock p x hr)
  rw [← hhead] at hgranted hconflict
  simp only [← hpart] at hpartitioned
  refine ⟨⟨?_, ?_, ?_, ?_, ?_, ?_, ?_, ?_, ?_, ?_, ?_⟩, ⟨?_, ?_, ?_, ?_⟩⟩
  · rw [hhead]; exact h.grantedNodup
  · rw [hhead]; exact h.conflictNodup
  · intro r hr
    rw [hgranted r hr]
    rw [hhead] at hr
    exact h.grantedOn r hr
  · intro r hr
    rw [hconflict r hr]
    rw [hhead] at hr
    exact h.waitingOn r hr
  · intro e
    rw [tally_congr fun r hr => by rw [hgranted r hr], hhead]
    exact h.grantedCounts e
  · intro e
    rw [tally_congr fun r hr => by rw [hconflict r hr], hhead]
    exact h.conflictCounts e
  · rw [hhead]; exact h.grantedModes
  · rw [hhead]; exact h.conflictModes
  · rw [tally_congr fun r hr => by rw [hgranted r hr], hhead]
    exact h.conversionsCount
  · intro r hlock hcount hstatus
    have hr := hsame r (.inl hlock)
    rw [hr] at hlock hcount hstatus
    rw [hhead]
    exact h.memGranted r hlock hcount hstatus
  · intro r hlock hcount hstatus
    have hr := hsame r (.inl hlock)
    rw [hr] at hlock hcount hstatus
    rw [hhead]
    exact h.memConflict r hlock hcount hstatus
  · intro p r hr
    rw [hpartitioned p r hr]
    rw [hpart] at hr
    exact h.partitionedOn p r hr
  · intro p
    rw [hpart]
    exact h.partitionNodup p
  · intro p hp
    rw [hpart] at hp
    rw [hhead]
    exact h.partitions p hp
  · intro r p hlock hcount
    have hr := hsame r (.inr ⟨p, hlock⟩)
    rw [hr] at hlock hcount
    rw [hpart]
    exact h.memPartition r p hlock hcount

/-! ### Which requests are on the lists -/

namespace ResInv

variable {m : LockManager} {resId x : ResourceId} {r : RequestId}

/-- A request on no list of a resource is one whose fields name it not at all. -/
theorem offLists_of_namesOnly (h : ResInv m x) (hn : NamesOnly (m.requests r) resId) (hx : x ≠ resId) :
    OffLists m r x where
  granted hr := hx (hn.lock x (h.grantedOn r hr).lock)
  conflict hr := hx (hn.lock x (h.waitingOn r hr).lock)
  partition p hr := hx (hn.partitionedLock p x (h.partitionedOn p r hr).partitionedLock)

/-- A new request is on no list. -/
theorem offLists_of_new (h : ResInv m x) (hnew : (m.requests r).status = .STATUS_NEW) :
    OffLists m r x where
  granted hr := by rcases (h.grantedOn r hr).status with hs | hs <;> simp [hs] at hnew
  conflict hr := by simp [(h.waitingOn r hr).status] at hnew
  partition p hr := by simp [(h.partitionedOn p r hr).status] at hnew

theorem not_mem_conflict_of_mem_granted (h : ResInv m resId) (hr : r ∈ (m.heads resId).grantedList) :
    r ∉ (m.heads resId).conflictList := fun hc => by
  rcases (h.grantedOn r hr).status with hs | hs <;> simp [(h.waitingOn r hc).status] at hs

theorem not_mem_partition_of_mem_granted (h : ResInv m resId) (hr : r ∈ (m.heads resId).grantedList)
    (p : Nat) : r ∉ (m.partitionHeads p resId).getD [] := fun hp => by
  simpa [(h.grantedOn r hr).partitionedLock] using (h.partitionedOn p r hp).partitionedLock

theorem not_mem_partition_of_mem_conflict (h : ResInv m resId) (hr : r ∈ (m.heads resId).conflictList)
    (p : Nat) : r ∉ (m.partitionHeads p resId).getD [] := fun hp => by
  simpa [(h.waitingOn r hr).partitionedLock] using (h.partitionedOn p r hp).partitionedLock

end ResInv

/-- The invariant of every resource holds after a step at `resId` that keeps the invariant there. -/
theorem Inv.of_frame {m m' : LockManager} {resId : ResourceId} (h : Inv m) (hres : ResInv m' resId)
    (hf : Frame resId m m') : Inv m' := fun x => by
  by_cases hx : x = resId
  · subst hx
    exact hres
  · exact (h x).of_frame hf hx

/-- A step that changes the `LockHead` of a resource, and requests on none of its partitioned
heads that it leaves unpartitioned, keeps the invariant of the partitioned heads. -/
theorem PartitionsInv.of_head_step {m m' : LockManager} {resId : ResourceId}
    (h : PartitionsInv m resId) (hparts : m'.partitionHeads = m.partitionHeads)
    (hpartitions : (m'.heads resId).partitions = (m.heads resId).partitions)
    (hreq : ∀ q, m'.requests q ≠ m.requests q →
      (∀ p, q ∉ (m.partitionHeads p resId).getD []) ∧ (m'.requests q).partitionedLock = none) :
    PartitionsInv m' resId := by
  have hsame : ∀ p, ∀ q ∈ (m.partitionHeads p resId).getD [], m'.requests q = m.requests q :=
    fun p q hq => by
      by_contra hne
      exact (hreq q hne).1 p hq
  refine ⟨fun p q hq => ?_, fun p => ?_, fun p hp => ?_, fun q p hlock hcount => ?_⟩
  · rw [hparts] at hq
    rw [hsame p q hq]
    exact h.partitionedOn p q hq
  · rw [hparts]
    exact h.partitionNodup p
  · rw [hparts] at hp
    rw [hpartitions]
    exact h.partitions p hp
  · rw [hparts]
    by_cases hq : m'.requests q = m.requests q
    · rw [hq] at hlock hcount
      exact h.memPartition q p hlock hcount
    · rw [(hreq q hq).2] at hlock
      cases hlock

/-- A step that changes only the partitioned heads of a resource and the `partitions` of its
`LockHead`, and requests on none of the lists of the `LockHead` that it leaves off them, keeps
the invariant of the `LockHead`. -/
theorem HeadInv.of_partition_step {m m' : LockManager} {resId : ResourceId} (h : HeadInv m resId)
    (hhead : m'.heads resId = { m.heads resId with partitions := (m'.heads resId).partitions })
    (hreq : ∀ q, m'.requests q ≠ m.requests q → q ∉ (m.heads resId).grantedList ∧
      q ∉ (m.heads resId).conflictList ∧ (m'.requests q).lock = none) :
    HeadInv m' resId := by
  have hgranted : ∀ q ∈ (m.heads resId).grantedList, m'.requests q = m.requests q := fun q hq => by
    by_contra hne
    exact (hreq q hne).1 hq
  have hconflict : ∀ q ∈ (m.heads resId).conflictList, m'.requests q = m.requests q := fun q hq => by
    by_contra hne
    exact (hreq q hne).2.1 hq
  have hunchanged : ∀ q, (m'.requests q).lock = some resId → m'.requests q = m.requests q := by
    intro q hlock
    by_contra hne
    rw [(hreq q hne).2.2] at hlock
    cases hlock
  have hfields : (m'.heads resId).grantedList = (m.heads resId).grantedList ∧
      (m'.heads resId).conflictList = (m.heads resId).conflictList ∧
      (m'.heads resId).grantedCounts = (m.heads resId).grantedCounts ∧
      (m'.heads resId).conflictCounts = (m.heads resId).conflictCounts ∧
      (m'.heads resId).grantedModes = (m.heads resId).grantedModes ∧
      (m'.heads resId).conflictModes = (m.heads resId).conflictModes ∧
      (m'.heads resId).conversionsCount = (m.heads resId).conversionsCount := by
    rw [hhead]
    exact ⟨rfl, rfl, rfl, rfl, rfl, rfl, rfl⟩
  obtain ⟨hg, hc, hgc, hcc, hgm, hcm, hconv⟩ := hfields
  refine ⟨?_, ?_, fun q hq => ?_, fun q hq => ?_, fun e => ?_, fun e => ?_, ?_, ?_, ?_,
    fun q hlock hcount hstatus => ?_, fun q hlock hcount hstatus => ?_⟩ <;>
    simp only [hg, hc, hgc, hcc, hgm, hcm, hconv] at *
  · exact h.grantedNodup
  · exact h.conflictNodup
  · rw [hgranted q hq]
    exact h.grantedOn q hq
  · rw [hconflict q hq]
    exact h.waitingOn q hq
  · rw [tally_congr fun q hq => by rw [hgranted q hq]]
    exact h.grantedCounts e
  · rw [tally_congr fun q hq => by rw [hconflict q hq]]
    exact h.conflictCounts e
  · exact h.grantedModes
  · exact h.conflictModes
  · rw [tally_congr fun q hq => by rw [hgranted q hq]]
    exact h.conversionsCount
  · have hq := hunchanged q hlock
    rw [hq] at hlock hcount hstatus
    exact h.memGranted q hlock hcount hstatus
  · have hq := hunchanged q hlock
    rw [hq] at hlock hcount hstatus
    exact h.memConflict q hlock hcount hstatus

/-! ### Steps at one resource that keep its invariant

Each lemma is one way the lock manager changes the lists of a resource and the requests on them,
with the counts and masks it writes; the calls are sequences of these. -/

namespace ResInv

variable {m : LockManager} {resId : ResourceId} {r : RequestId}

theorem update_ne_of_mem_conflict (h : ResInv m resId) (hr : r ∈ (m.heads resId).grantedList)
    {q : RequestId} (hq : q ∈ (m.heads resId).conflictList) (x : LockRequest) :
    Function.update m.requests r x q = m.requests q :=
  Function.update_of_ne (by rintro rfl; exact h.not_mem_conflict_of_mem_granted hr hq) _ _

/-- A request on the granted list changes what it holds or waits for, and the counts change by
its shares. -/
theorem change_granted (h : ResInv m resId) (hr : r ∈ (m.heads resId).grantedList)
    {req' : LockRequest} (hon : GrantedOn req' resId) {counts : LockMode → Nat} {modes : UInt32}
    {k : Nat}
    (hcounts : ∀ e, counts e + grantedWeight e (m.requests r) =
      (m.heads resId).grantedCounts e + grantedWeight e req')
    (hmodes : ModesMatch counts modes)
    (hconv : k + convertingWeight (m.requests r) =
      (m.heads resId).conversionsCount + convertingWeight req') :
    ResInv ((m.setHead resId { m.heads resId with
      grantedCounts := counts, grantedModes := modes, conversionsCount := k }).setRequest r req')
      resId := by
  have hnd := h.grantedNodup
  set lock' : LockHead := { m.heads resId with
    grantedCounts := counts, grantedModes := modes, conversionsCount := k }
  have hheads : ((m.setHead resId lock').setRequest r req').heads resId = lock' := by simp
  have hreqs : ((m.setHead resId lock').setRequest r req').requests =
      Function.update m.requests r req' := rfl
  have hconflict : ∀ q ∈ (m.heads resId).conflictList, Function.update m.requests r req' q =
      m.requests q := fun q hq => h.update_ne_of_mem_conflict hr hq req'
  refine ⟨?_, h.toPartitionsInv.of_head_step rfl (by rw [hheads]) fun q hq => ?_⟩
  · refine ⟨?_, ?_, ?_, ?_, ?_, ?_, ?_, ?_, ?_, ?_, ?_⟩ <;> simp only [hheads, hreqs]
    · exact h.grantedNodup
    · exact h.conflictNodup
    · intro q hq
      by_cases hqr : q = r
      · subst hqr
        simpa using hon
      · rw [Function.update_of_ne hqr]
        exact h.grantedOn q hq
    · intro q hq
      rw [hconflict q hq]
      exact h.waitingOn q hq
    · intro e
      have htally := tally_update_of_mem (t := m.requests) (w := grantedWeight e) hnd hr req'
      have := hcounts e
      have := h.grantedCounts e
      simp only [lock']
      omega
    · intro e
      rw [tally_congr (t := m.requests) fun q hq => by rw [hconflict q hq]]
      exact h.conflictCounts e
    · exact hmodes
    · exact h.conflictModes
    · have htally := tally_update_of_mem (t := m.requests) (w := convertingWeight) hnd hr req'
      have := h.conversionsCount
      simp only [lock']
      omega
    · intro q hlock hcount hstatus
      by_cases hqr : q = r
      · exact hqr ▸ hr
      · rw [Function.update_of_ne hqr] at hlock hcount hstatus
        exact h.memGranted q hlock hcount hstatus
    · intro q hlock hcount hstatus
      by_cases hqr : q = r
      · subst hqr
        rw [Function.update_self] at hstatus
        rcases hon.status with hs | hs <;> simp [hs] at hstatus
      · rw [Function.update_of_ne hqr] at hlock hcount hstatus
        exact h.memConflict q hlock hcount hstatus
  · -- only `r` changed, and it is on the granted list, so on no partitioned head
    have hqr : q = r := by
      by_contra hqr
      simp [Function.update_of_ne hqr] at hq
    subst hqr
    exact ⟨h.not_mem_partition_of_mem_granted hr, by simpa [hreqs] using hon.partitionedLock⟩

end ResInv

end Concurrency

end Mongo
