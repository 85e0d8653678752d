import Mongo.Concurrency.LockModes

/-! The lock manager of `db/concurrency/lock_manager.cpp`. Each resource has a `LockHead` with a
granted list and a conflict list of requests, the counts of the modes on each and the masks of
the modes with a positive count. A request in an intent mode may instead be granted on a
`PartitionedLockHead` of its locker's partition, as long as every request on the resource is in
an intent mode; a request in another mode, or a conversion, first migrates them all to the
`LockHead`. `unlock` and `downgrade` re-scan the lists in `_onLockModeChanged`: the granted list
for conversions that can now be granted and, when asked to, the conflict list from the front for
waiting requests. The lists hold requests by identity, as the intrusive lists of the source hold
pointers to them, and the requests are records the calls update. -/

namespace Mongo

namespace Concurrency

open LockMode

abbrev ResourceId := Nat
abbrev RequestId := Nat
abbrev LockerId := Nat

/-- How the lock manager stops other than by returning: an `invariant` or `MONGO_UNREACHABLE`. -/
inductive LockError
  | invariantFailure
  | unreachable
  deriving DecidableEq, Repr

/-- `invariant(cond)`. -/
def invariant (cond : Prop) [Decidable cond] : Except LockError Unit :=
  if cond then pure () else throw .invariantFailure

/-- A computation followed by another returns exactly when the first returns and the second
returns on its result. -/
theorem bind_eq_ok {α β : Type} {x : Except LockError α} {f : α → Except LockError β} {b : β} :
    (x >>= f) = .ok b ↔ ∃ a, x = .ok a ∧ f a = .ok b := by
  cases x <;> simp [bind, Except.bind]

@[simp] theorem pure_eq_ok {α : Type} {a b : α} : (pure a : Except LockError α) = .ok b ↔ a = b := by
  simp [pure, Except.pure]

@[simp] theorem throw_ne_ok {α : Type} {e : LockError} {b : α} : (throw e : Except LockError α) ≠ .ok b := by
  simp [throw, throwThe, MonadExceptOf.throw]

@[simp] theorem invariant_eq_ok {cond : Prop} [Decidable cond] {u : Unit} :
    invariant cond = .ok u ↔ cond := by
  unfold invariant
  split_ifs with h <;> simp [h]

/-- `LockResult`, the two values the lock manager returns. -/
inductive LockResult
  | LOCK_OK
  | LOCK_WAITING
  deriving DecidableEq, Repr

/-- `LockRequest::Status`. -/
inductive LockRequest.Status
  | STATUS_NEW
  | STATUS_GRANTED
  | STATUS_WAITING
  | STATUS_CONVERTING
  deriving DecidableEq, Repr

/-- `LockRequest`. `lock` stands for the pointer to the `LockHead` of a resource, and
`partitionedLock` for the pointer to the `PartitionedLockHead` of a resource in a partition. -/
structure LockRequest where
  locker : LockerId
  enqueueAtFront : Bool
  compatibleFirst : Bool
  partitioned : Bool
  recursiveCount : Nat
  lock : Option ResourceId
  partitionedLock : Option (Nat × ResourceId)
  status : LockRequest.Status
  mode : LockMode
  convertMode : LockMode
  deriving DecidableEq, Repr

/-- `LockRequest::initNew(locker, notify)`. -/
def LockRequest.initNew (locker : LockerId) : LockRequest where
  locker := locker
  enqueueAtFront := false
  compatibleFirst := false
  recursiveCount := 1
  lock := none
  partitionedLock := none
  status := .STATUS_NEW
  partitioned := false
  mode := .MODE_NONE
  convertMode := .MODE_NONE

/-- The count of a mode goes up by one, and a count that becomes one sets the mode's bit, which
must have been clear: `incGrantedModeCount` and `incConflictModeCount`. The source's
`invariant(counts[mode] >= 0)` holds of any count. -/
def incModeCount (counts : LockMode → Nat) (modes : UInt32) (mode : LockMode) :
    Except LockError ((LockMode → Nat) × UInt32) := do
  let count := counts mode + 1
  let counts := Function.update counts mode count
  if count = 1 then
    invariant (modes &&& modeMask mode = 0)
    pure (counts, modes ||| modeMask mode)
  else pure (counts, modes)

/-- The count of a mode, at least one, goes down by one, and a count that becomes zero clears the
mode's bit, which must have been set: `decGrantedModeCount` and `decConflictModeCount`. -/
def decModeCount (counts : LockMode → Nat) (modes : UInt32) (mode : LockMode) :
    Except LockError ((LockMode → Nat) × UInt32) := do
  invariant (1 ≤ counts mode)
  let count := counts mode - 1
  let counts := Function.update counts mode count
  if count = 0 then
    invariant (modes &&& modeMask mode = modeMask mode)
    pure (counts, modes &&& ~~~modeMask mode)
  else pure (counts, modes)

/-- `LockHead`, without the `resourceId` it is kept under. -/
structure LockHead where
  grantedList : List RequestId
  grantedCounts : LockMode → Nat
  grantedModes : UInt32
  conflictList : List RequestId
  conflictCounts : LockMode → Nat
  conflictModes : UInt32
  partitions : List Nat
  conversionsCount : Nat
  compatibleFirstCount : Nat

namespace LockHead

/-- `LockHead::initNew(resId)`, as `findOrInsert` creates it. -/
def initNew : LockHead :=
  ⟨[], fun _ => 0, 0, [], fun _ => 0, 0, [], 0, 0⟩

/-- `partitioned()`. -/
def partitioned (lock : LockHead) : Bool := !lock.partitions.isEmpty

/-- `incGrantedModeCount(mode)`. -/
def incGrantedModeCount (lock : LockHead) (mode : LockMode) : Except LockError LockHead := do
  let (grantedCounts, grantedModes) ← incModeCount lock.grantedCounts lock.grantedModes mode
  pure { lock with grantedCounts, grantedModes }

/-- `decGrantedModeCount(mode)`. -/
def decGrantedModeCount (lock : LockHead) (mode : LockMode) : Except LockError LockHead := do
  let (grantedCounts, grantedModes) ← decModeCount lock.grantedCounts lock.grantedModes mode
  pure { lock with grantedCounts, grantedModes }

/-- `incConflictModeCount(mode)`. -/
def incConflictModeCount (lock : LockHead) (mode : LockMode) : Except LockError LockHead := do
  let (conflictCounts, conflictModes) ← incModeCount lock.conflictCounts lock.conflictModes mode
  pure { lock with conflictCounts, conflictModes }

/-- `decConflictModeCount(mode)`. -/
def decConflictModeCount (lock : LockHead) (mode : LockMode) : Except LockError LockHead := do
  let (conflictCounts, conflictModes) ← decModeCount lock.conflictCounts lock.conflictModes mode
  pure { lock with conflictCounts, conflictModes }

end LockHead

/-- `_numPartitions`. -/
def numPartitions : Nat := 32

/-- `_getPartition(request)`: the partition of the request's locker. -/
def getPartition (request : LockRequest) : Nat := request.locker % numPartitions

/-- The lock manager: the `LockHead` of each resource (a resource without one has an empty one,
as `findOrInsert` creates it), the `PartitionedLockHead`s of each partition with their granted
lists, the requests, and the `LOCK_OK` notifications sent so far. -/
structure LockManager where
  heads : ResourceId → LockHead
  partitionHeads : Nat → ResourceId → Option (List RequestId)
  requests : RequestId → LockRequest
  notifications : List (RequestId × ResourceId)

namespace LockManager

def setHead (m : LockManager) (resId : ResourceId) (lock : LockHead) : LockManager :=
  { m with heads := Function.update m.heads resId lock }

def setRequest (m : LockManager) (r : RequestId) (request : LockRequest) : LockManager :=
  { m with requests := Function.update m.requests r request }

def setPartitionHead (m : LockManager) (p : Nat) (resId : ResourceId)
    (head : Option (List RequestId)) : LockManager :=
  let heads := Function.update (m.partitionHeads p) resId head
  { m with partitionHeads := Function.update m.partitionHeads p heads }

/-- `request->notify->notify(resId, LOCK_OK)`. -/
def notify (m : LockManager) (r : RequestId) (resId : ResourceId) : LockManager :=
  { m with notifications := m.notifications ++ [(r, resId)] }

section Setters

variable (m : LockManager)

@[simp] theorem setHead_heads (resId : ResourceId) (lock : LockHead) :
    (m.setHead resId lock).heads = Function.update m.heads resId lock := rfl
@[simp] theorem setHead_requests (resId : ResourceId) (lock : LockHead) :
    (m.setHead resId lock).requests = m.requests := rfl
@[simp] theorem setHead_partitionHeads (resId : ResourceId) (lock : LockHead) :
    (m.setHead resId lock).partitionHeads = m.partitionHeads := rfl
@[simp] theorem setRequest_heads (r : RequestId) (request : LockRequest) :
    (m.setRequest r request).heads = m.heads := rfl
@[simp] theorem setRequest_requests (r : RequestId) (request : LockRequest) :
    (m.setRequest r request).requests = Function.update m.requests r request := rfl
@[simp] theorem setRequest_partitionHeads (r : RequestId) (request : LockRequest) :
    (m.setRequest r request).partitionHeads = m.partitionHeads := rfl
@[simp] theorem setPartitionHead_heads (p : Nat) (resId : ResourceId) (head : Option (List RequestId)) :
    (m.setPartitionHead p resId head).heads = m.heads := rfl
@[simp] theorem setPartitionHead_requests (p : Nat) (resId : ResourceId)
    (head : Option (List RequestId)) : (m.setPartitionHead p resId head).requests = m.requests := rfl
@[simp] theorem setPartitionHead_partitionHeads (p : Nat) (resId : ResourceId)
    (head : Option (List RequestId)) :
    (m.setPartitionHead p resId head).partitionHeads =
      Function.update m.partitionHeads p (Function.update (m.partitionHeads p) resId head) := rfl
@[simp] theorem notify_heads (r : RequestId) (resId : ResourceId) : (m.notify r resId).heads = m.heads := rfl
@[simp] theorem notify_requests (r : RequestId) (resId : ResourceId) :
    (m.notify r resId).requests = m.requests := rfl
@[simp] theorem notify_partitionHeads (r : RequestId) (resId : ResourceId) :
    (m.notify r resId).partitionHeads = m.partitionHeads := rfl

end Setters

/-- `LockHead::newRequest(request)`: the request waits if it conflicts with the granted modes,
or with the waiting ones unless the resource is in compatible-first mode; it is granted
otherwise. -/
def newRequest (m : LockManager) (resId : ResourceId) (r : RequestId) :
    Except LockError (LockManager × LockResult) := do
  invariant ((m.requests r).partitionedLock = none)
  let request := { m.requests r with lock := some resId }
  let lock := m.heads resId
  if conflicts request.mode lock.grantedModes ||
      (lock.compatibleFirstCount == 0 && conflicts request.mode lock.conflictModes) then
    let conflictList :=
      if request.enqueueAtFront then r :: lock.conflictList else lock.conflictList ++ [r]
    let lock ← { lock with conflictList }.incConflictModeCount request.mode
    pure ((m.setHead resId lock).setRequest r { request with status := .STATUS_WAITING },
      .LOCK_WAITING)
  else
    let lock ← { lock with grantedList := lock.grantedList ++ [r] }.incGrantedModeCount request.mode
    let lock := if request.compatibleFirst then
      { lock with compatibleFirstCount := lock.compatibleFirstCount + 1 } else lock
    pure ((m.setHead resId lock).setRequest r { request with status := .STATUS_GRANTED }, .LOCK_OK)

/-- `PartitionedLockHead::newRequest(request)` on the head of `resId` in partition `p`. -/
def partitionedNewRequest (m : LockManager) (p : Nat) (resId : ResourceId) (r : RequestId) :
    Except LockError LockManager := do
  let request := m.requests r
  invariant (request.partitioned = true)
  invariant (request.lock = none)
  let m := m.setPartitionHead p resId (some ((m.partitionHeads p resId).getD [] ++ [r]))
  pure (m.setRequest r { request with partitionedLock := some (p, resId), status := .STATUS_GRANTED })

/-- The inner loop of `migratePartitionedLockHeads`: the requests of the head of `resId` in
partition `p`, from the front, each leave it and go to the `LockHead` through `newRequest`, which
must grant it. -/
def migrateRequests (p : Nat) (resId : ResourceId) :
    List RequestId → LockManager → Except LockError LockManager
  | [], m => pure m
  | r :: rest, m => do
    let m := m.setPartitionHead p resId ((m.partitionHeads p resId).map fun l => l.erase r)
    let m := m.setRequest r { m.requests r with partitionedLock := none }
    let (m, res) ← m.newRequest resId r
    invariant (res = .LOCK_OK)
    migrateRequests p resId rest m

/-- The outer loop of `migratePartitionedLockHeads` over `partitions`, from the back: the head of
the resource in each partition, if there is one, is emptied and erased, and the partition popped. -/
def migratePartitions (resId : ResourceId) : List Nat → LockManager → Except LockError LockManager
  | [], m => pure m
  | p :: rest, m => do
    let m ← match m.partitionHeads p resId with
      | some requests => do
        let m ← migrateRequests p resId requests m
        pure (m.setPartitionHead p resId none)
      | none => pure m
    let lock := m.heads resId
    migratePartitions resId rest (m.setHead resId { lock with partitions := lock.partitions.dropLast })

/-- `LockHead::migratePartitionedLockHeads()`. -/
def migratePartitionedLockHeads (m : LockManager) (resId : ResourceId) :
    Except LockError LockManager := do
  let lock := m.heads resId
  invariant (lock.partitioned = true)
  invariant (lock.grantedModes &&& ~~~intentModes = 0 ∧ lock.conflictModes = 0)
  migratePartitions resId lock.partitions.reverse m

/-- `LockManager::lock(resId, request, mode)`. -/
def lock (m : LockManager) (resId : ResourceId) (r : RequestId) (mode : LockMode) :
    Except LockError (LockManager × LockResult) := do
  invariant ((m.requests r).status = .STATUS_NEW)
  invariant ((m.requests r).recursiveCount = 1)
  let request := { m.requests r with partitioned := mode == .MODE_IX || mode == .MODE_IS, mode }
  let m := m.setRequest r request
  let partition := getPartition request
  if request.partitioned && (m.partitionHeads partition resId).isSome then
    -- the fast path for intent locks
    let m ← m.partitionedNewRequest partition resId r
    pure (m, .LOCK_OK)
  else
    let lock := m.heads resId
    if request.partitioned && lock.grantedModes &&& ~~~intentModes == 0 && lock.conflictModes == 0 then
      -- start a partitioned lock, through `partition->findOrInsert(resId)`
      let m := m.setPartitionHead partition resId (some ((m.partitionHeads partition resId).getD []))
      let m := m.setHead resId { lock with partitions := lock.partitions ++ [partition] }
      let m ← m.partitionedNewRequest partition resId r
      pure (m, .LOCK_OK)
    else
      let m ← if lock.partitioned then m.migratePartitionedLockHeads resId else pure m
      let m := m.setRequest r { m.requests r with partitioned := false }
      m.newRequest resId r

/-- `LockManager::convert(resId, request, newMode)`. A conversion that adds no conflicts is
granted at once; any other must only add conflicts, and is granted if it conflicts with no mode
held by another request, and waits on the granted list otherwise. -/
def convert (m : LockManager) (resId : ResourceId) (r : RequestId) (newMode : LockMode) :
    Except LockError (LockManager × LockResult) := do
  invariant ((m.requests r).status = .STATUS_GRANTED)
  invariant (0 < (m.requests r).recursiveCount)
  let m := m.setRequest r { m.requests r with recursiveCount := (m.requests r).recursiveCount + 1 }
  let mode := (m.requests r).mode
  if (LockConflictsTable mode ||| LockConflictsTable newMode) = LockConflictsTable mode then
    pure (m, .LOCK_OK)
  else
    invariant ((LockConflictsTable mode ||| LockConflictsTable newMode) = LockConflictsTable newMode)
    let m ← if (m.heads resId).partitioned then m.migratePartitionedLockHeads resId else pure m
    let lock := m.heads resId
    let request := m.requests r
    let grantedModesWithoutCurrentRequest :=
      grantedModesWithout lock.grantedCounts fun i => if request.mode = i then 1 else 0
    if conflicts newMode grantedModesWithoutCurrentRequest then
      let lock ← { lock with conversionsCount := lock.conversionsCount + 1 }.incGrantedModeCount newMode
      pure ((m.setHead resId lock).setRequest r
        { request with status := .STATUS_CONVERTING, convertMode := newMode }, .LOCK_WAITING)
    else
      let lock ← lock.incGrantedModeCount newMode
      let lock ← lock.decGrantedModeCount request.mode
      pure ((m.setHead resId lock).setRequest r { request with mode := newMode }, .LOCK_OK)

/-- The mask `_onLockModeChanged` builds for a converting request, with its check, at each
mode, that the request does not both hold and wait for it. -/
def conversionMask (grantedCounts : LockMode → Nat) (request : LockRequest) :
    Except LockError UInt32 := do
  let own := fun i => (if request.mode = i then 1 else 0) + (if request.convertMode = i then 1 else 0)
  acquirableModes.forM fun i => invariant (own i ≤ 1)
  pure (grantedModesWithout grantedCounts own)

/-- The first loop of `_onLockModeChanged`, over the granted list while some request converts: a
converting request whose new mode conflicts with no mode held by another request is granted it. -/
def grantConversions (resId : ResourceId) : List RequestId → LockManager → Except LockError LockManager
  | [], m => pure m
  | r :: rest, m =>
    if (m.heads resId).conversionsCount = 0 then pure m
    else if (m.requests r).status = .STATUS_CONVERTING then do
      let request := m.requests r
      invariant (request.convertMode ≠ .MODE_NONE)
      let grantedModesWithoutCurrentRequest ← conversionMask (m.heads resId).grantedCounts request
      if conflicts request.convertMode grantedModesWithoutCurrentRequest then
        grantConversions resId rest m
      else
        let lock := m.heads resId
        let lock ← { lock with conversionsCount := lock.conversionsCount - 1 }.decGrantedModeCount
          request.mode
        let granted := { request with status := .STATUS_GRANTED, mode := request.convertMode }
        let m := (m.setHead resId lock).setRequest r { granted with convertMode := .MODE_NONE }
        grantConversions resId rest (m.notify r resId)
    else grantConversions resId rest m

/-- The second loop of `_onLockModeChanged`, over the conflict list from the front. `hasPrev`:
a request skipped earlier is still in front of this one; `newlyCompatibleFirst`: a request
granted in this scan switched the resource to compatible-first. A request that conflicts with the
granted modes stops the scan at the front, unless compatible-first was just switched on, and is
skipped elsewhere; any other is granted, and a granted `MODE_X` stops the scan. -/
def grantWaiting (resId : ResourceId) :
    List RequestId → Bool → Bool → LockManager → Except LockError LockManager
  | [], _, _, m => pure m
  | r :: rest, hasPrev, newlyCompatibleFirst, m => do
    let request := m.requests r
    invariant (request.status = .STATUS_WAITING)
    let lock := m.heads resId
    if conflicts request.mode lock.grantedModes then
      if !hasPrev && !newlyCompatibleFirst then pure m
      else grantWaiting resId rest true newlyCompatibleFirst m
    else
      let lock ← { lock with conflictList := lock.conflictList.erase r }.decConflictModeCount request.mode
      let lock ← { lock with grantedList := lock.grantedList ++ [r] }.incGrantedModeCount request.mode
      let newlyCompatibleFirst :=
        newlyCompatibleFirst || (request.compatibleFirst && lock.compatibleFirstCount == 0)
      let lock := if request.compatibleFirst then
        { lock with compatibleFirstCount := lock.compatibleFirstCount + 1 } else lock
      let m := ((m.setHead resId lock).setRequest r { request with status := .STATUS_GRANTED }).notify
        r resId
      if request.mode = .MODE_X then pure m
      else grantWaiting resId rest hasPrev newlyCompatibleFirst m

/-- `_onLockModeChanged(lock, checkConflictQueue)`, with its closing check that each list is
empty exactly when its mask is. -/
def onLockModeChanged (m : LockManager) (resId : ResourceId) (checkConflictQueue : Bool) :
    Except LockError LockManager := do
  let m ← grantConversions resId (m.heads resId).grantedList m
  let m ← if checkConflictQueue then grantWaiting resId (m.heads resId).conflictList false false m
    else pure m
  let lock := m.heads resId
  invariant (xor (lock.grantedModes == 0) !lock.grantedList.isEmpty = true)
  invariant (xor (lock.conflictModes == 0) !lock.conflictList.isEmpty = true)
  pure m

/-- The part of `unlock` past the fast paths, on the `LockHead` of the request's resource: a
granted request leaves the granted list, a waiting one the conflict list, and a converting one
goes back to its granted mode. -/
def unlockOnHead (m : LockManager) (resId : ResourceId) (r : RequestId) :
    Except LockError LockManager := do
  let request := m.requests r
  let lock := m.heads resId
  match request.status with
  | .STATUS_GRANTED =>
    let lock ← { lock with grantedList := lock.grantedList.erase r }.decGrantedModeCount request.mode
    let lock ← if request.compatibleFirst then do
        invariant (0 < lock.compatibleFirstCount)
        let lock := { lock with compatibleFirstCount := lock.compatibleFirstCount - 1 }
        invariant (lock.compatibleFirstCount = 0 ∨ lock.grantedList ≠ [])
        pure lock
      else pure lock
    (m.setHead resId lock).onLockModeChanged resId (lock.grantedCounts request.mode == 0)
  | .STATUS_WAITING => do
    invariant (request.recursiveCount = 0)
    let lock ← { lock with conflictList := lock.conflictList.erase r }.decConflictModeCount request.mode
    (m.setHead resId lock).onLockModeChanged resId true
  | .STATUS_CONVERTING => do
    invariant (0 < request.recursiveCount)
    invariant (0 < lock.conversionsCount)
    let lock ← { lock with conversionsCount := lock.conversionsCount - 1 }.decGrantedModeCount
      request.convertMode
    -- the request is back in its granted mode, and the count read is that of `MODE_NONE`
    let request := { request with status := .STATUS_GRANTED, convertMode := .MODE_NONE }
    ((m.setHead resId lock).setRequest r request).onLockModeChanged resId
      (lock.grantedCounts request.convertMode == 0)
  | .STATUS_NEW => throw .unreachable

/-- `LockManager::unlock(request)`: whether the request is released. -/
def unlock (m : LockManager) (r : RequestId) : Except LockError (LockManager × Bool) := do
  invariant (0 < (m.requests r).recursiveCount)
  let request := { m.requests r with recursiveCount := (m.requests r).recursiveCount - 1 }
  let m := m.setRequest r request
  if request.status = .STATUS_GRANTED ∧ 0 < request.recursiveCount then pure (m, false)
  else
    if request.partitioned then
      invariant (request.status = .STATUS_GRANTED ∨ request.status = .STATUS_CONVERTING)
    match request.partitioned, request.partitionedLock with
    | true, some (p, resId) =>
      -- still partitioned: off the partitioned head
      pure (m.setPartitionHead p resId ((m.partitionHeads p resId).map fun l => l.erase r), true)
    | _, _ =>
      match request.lock with
      | none => throw .invariantFailure
      | some resId => do
        let m ← m.unlockOnHead resId r
        pure (m, request.recursiveCount == 0)

/-- `LockManager::downgrade(request, newMode)`: only to a mode whose conflicts are among those of
the current one. -/
def downgrade (m : LockManager) (r : RequestId) (newMode : LockMode) :
    Except LockError LockManager := do
  let request := m.requests r
  match request.lock with
  | none => throw .invariantFailure
  | some resId => do
    invariant (request.status = .STATUS_GRANTED)
    invariant (0 < request.recursiveCount)
    invariant ((LockConflictsTable request.mode ||| LockConflictsTable newMode) =
      LockConflictsTable request.mode)
    let lock ← (m.heads resId).incGrantedModeCount newMode
    let lock ← lock.decGrantedModeCount request.mode
    ((m.setHead resId lock).setRequest r { request with mode := newMode }).onLockModeChanged resId true

end LockManager

/-- The calls a `Locker` makes on the lock manager. -/
inductive Call
  | lock (resId : ResourceId) (r : RequestId) (mode : LockMode)
  | convert (resId : ResourceId) (r : RequestId) (newMode : LockMode)
  | unlock (r : RequestId)
  | downgrade (r : RequestId) (newMode : LockMode)
  deriving DecidableEq, Repr

namespace LockManager

/-- The state after a call that returns. -/
def call (m : LockManager) : Call → Except LockError LockManager
  | .lock resId r mode => Prod.fst <$> m.lock resId r mode
  | .convert resId r newMode => Prod.fst <$> m.convert resId r newMode
  | .unlock r => Prod.fst <$> m.unlock r
  | .downgrade r newMode => m.downgrade r newMode

/-- What the lock manager asks of a caller and does not check itself: a conversion names the
resource the request is on. -/
def Respects (m : LockManager) : Call → Prop
  | .convert resId r _ =>
    (m.requests r).lock = some resId ∨ ((m.requests r).partitionedLock.map Prod.snd) = some resId
  | _ => True

instance (m : LockManager) : (c : Call) → Decidable (m.Respects c)
  | .lock .. => inferInstanceAs (Decidable True)
  | .convert .. => inferInstanceAs (Decidable (_ ∨ _))
  | .unlock .. => inferInstanceAs (Decidable True)
  | .downgrade .. => inferInstanceAs (Decidable True)

/-- No lock held: every request new, with the locker and the flags its `Locker` gave it. -/
def init (requests : RequestId → LockerId × Bool × Bool) : LockManager where
  heads := fun _ => LockHead.initNew
  partitionHeads := fun _ _ => none
  requests := fun r =>
    { LockRequest.initNew (requests r).1 with
      enqueueAtFront := (requests r).2.1, compatibleFirst := (requests r).2.2 }
  notifications := []

/-- Calls one after another, each respecting what it asks of the caller. -/
def run : LockManager → List Call → Except LockError LockManager
  | m, [] => pure m
  | m, c :: calls => if m.Respects c then do run (← m.call c) calls else throw .invariantFailure

end LockManager

/-- The states the lock manager reaches from one where no lock is held. -/
inductive Reachable : LockManager → Prop
  | init (requests : RequestId → LockerId × Bool × Bool) : Reachable (LockManager.init requests)
  | call {m m' : LockManager} (c : Call) : Reachable m → m.Respects c → m.call c = .ok m' →
      Reachable m'

namespace LockManager

/-- Calls that return carry a reachable state to a reachable state. -/
theorem reachable_of_run {m' : LockManager} :
    ∀ {calls : List Call} {m : LockManager}, Reachable m → m.run calls = .ok m' → Reachable m'
  | [], m, hm, h => by
    rw [run, pure_eq_ok] at h
    exact h ▸ hm
  | c :: calls, m, hm, h => by
    rw [run] at h
    -- a call that breaks what it asks of the caller does not return
    split_ifs at h with hc
    obtain ⟨m₁, h₁, h₂⟩ := bind_eq_ok.mp h
    exact reachable_of_run (Reachable.call c hm hc h₁) h₂

/-- A property that the state some calls reach from no lock held is checked to have holds of a
reachable state. -/
theorem exists_reachable_of_run {requests : RequestId → LockerId × Bool × Bool}
    {calls : List Call} {p : LockManager → Prop} [DecidablePred p]
    (h : ((init requests).run calls).map (fun m => decide (p m)) = .ok true) :
    ∃ m, Reachable m ∧ p m := by
  cases hrun : (init requests).run calls with
  | error e =>
    rw [hrun] at h
    cases h
  | ok m =>
    have hp : decide (p m) = true := by simpa [hrun, Except.map] using h
    exact ⟨m, reachable_of_run (.init requests) hrun, of_decide_eq_true hp⟩

end LockManager

end Concurrency

end Mongo
