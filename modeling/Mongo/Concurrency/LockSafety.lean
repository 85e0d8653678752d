import Mongo.Concurrency.LockCalls

/-! The lock manager over whole runs. From a state where no lock is held, every call that returns
keeps the invariant of `LockInvariant` and mutual exclusion, so both hold in every reachable
state: two requests that hold a resource, on its `LockHead` or on its partitioned heads, hold
compatible modes. -/

namespace Mongo

namespace Concurrency

open LockMode LockManager

variable {m m' : LockManager}

/-- The state of a call that returns a state and a result. -/
theorem ok_of_map_fst {α : Type} {x : Except LockError (LockManager × α)}
    (h : Prod.fst <$> x = .ok m') : ∃ a, x = .ok (m', a) := by
  cases x with
  | error e => cases h
  | ok v =>
    obtain ⟨m₁, a⟩ := v
    cases h
    exact ⟨a, rfl⟩

/-- Each call that returns keeps the invariant and mutual exclusion. -/
theorem call_safe {c : Call} (h : Inv m) (he : Excl m) (hresp : m.Respects c)
    (hcall : m.call c = .ok m') : Inv m' ∧ Excl m' := by
  cases c with
  | lock resId r mode =>
    obtain ⟨_, hcall⟩ := ok_of_map_fst hcall
    exact lock_safe h he hcall
  | convert resId r newMode =>
    obtain ⟨_, hcall⟩ := ok_of_map_fst hcall
    exact convert_safe h he hresp hcall
  | unlock r =>
    obtain ⟨_, hcall⟩ := ok_of_map_fst hcall
    exact unlock_safe h he hcall
  | downgrade r newMode => exact downgrade_safe h he hcall

/-- No lock held: every list is empty, every count zero, and no request names a resource. -/
theorem init_safe (requests : RequestId → LockerId × Bool × Bool) :
    Inv (init requests) ∧ Excl (init requests) := by
  refine ⟨fun resId => ⟨⟨?_, ?_, ?_, ?_, ?_, ?_, ?_, ?_, ?_, ?_, ?_⟩, ⟨?_, ?_, ?_, ?_⟩⟩,
    fun resId => ⟨?_, ?_, ?_⟩⟩ <;>
    simp [init, LockHead.initNew, LockRequest.initNew, ModesMatch, Holds]

/-- Both invariants hold in every reachable state, by induction on the calls that reach it. -/
theorem safe_of_reachable (hm : Reachable m) : Inv m ∧ Excl m := by
  induction hm with
  | init requests => exact init_safe requests
  | call c _ hresp hcall ih => exact call_safe ih.1 ih.2 hresp hcall

/-- In every reachable state the bookkeeping of each resource is exact: its lists hold, once
each, the requests that name it and are not released, each on the list its status names; the
count of each mode is the number of requests on the lists that hold, convert to or wait for it;
the masks have the bits of the positive counts; and the partitioned heads hold granted requests
of partitions the `LockHead` lists. -/
theorem inv_of_reachable (hm : Reachable m) : Inv m := (safe_of_reachable hm).1

theorem inv_of_reachable_shared_then_exclusive : ∃ m, Reachable m ∧
    (m.heads 0).grantedList = [1] ∧ (m.heads 0).conflictList = [2] ∧ Inv m := by
  obtain ⟨m, hm, hg, hc⟩ := @exists_reachable_of_run (fun r => (r, false, false))
    [.lock 0 1 .MODE_S, .lock 0 2 .MODE_X]
    (fun m => (m.heads 0).grantedList = [1] ∧ (m.heads 0).conflictList = [2]) _ (by decide)
  exact ⟨m, hm, hg, hc, inv_of_reachable hm⟩

/-- Mutual exclusion: in every reachable state, two requests that hold one resource, on its
`LockHead` (granted, or converting while they keep the mode they hold) or on one of its
partitioned heads, hold compatible modes. -/
theorem lockManager_mutual_exclusion (hm : Reachable m) {resId : ResourceId} {q₁ q₂ : RequestId}
    (hne : q₁ ≠ q₂) (h₁ : Holds m resId q₁) (h₂ : Holds m resId q₂) :
    conflictsWith (m.requests q₁).mode (m.requests q₂).mode = false :=
  ((safe_of_reachable hm).2 resId).compatible q₁ q₂ hne h₁ h₂

theorem lockManager_mutual_exclusion_partitioned : ∃ m, Reachable m ∧
    1 ∈ (m.partitionHeads (getPartition (m.requests 1)) 0).getD [] ∧
    2 ∈ (m.partitionHeads (getPartition (m.requests 2)) 0).getD [] ∧
    conflictsWith (m.requests 1).mode (m.requests 2).mode = false := by
  obtain ⟨m, hm, h₁, h₂⟩ := @exists_reachable_of_run (fun r => (r, false, false))
    [.lock 0 1 .MODE_IS, .lock 0 2 .MODE_IX]
    (fun m => 1 ∈ (m.partitionHeads (getPartition (m.requests 1)) 0).getD [] ∧
      2 ∈ (m.partitionHeads (getPartition (m.requests 2)) 0).getD []) _ (by decide)
  exact ⟨m, hm, h₁, h₂,
    lockManager_mutual_exclusion hm (by decide) (.inr ⟨_, h₁⟩) (.inr ⟨_, h₂⟩)⟩

/-- What the fast path of `lock` relies on, in every reachable state: the partitioned heads hold
intent modes only, and while a resource has partitions nobody waits on its `LockHead` and every
mode held or converted to there is compatible with both intent modes. -/
theorem lockManager_partitioned_intent (hm : Reachable m) (resId : ResourceId) :
    (∀ p, ∀ q ∈ (m.partitionHeads p resId).getD [], IsIntent (m.requests q).mode) ∧
    ((m.heads resId).partitions ≠ [] → (m.heads resId).conflictList = [] ∧
      ∀ q ∈ (m.heads resId).grantedList, intentCompatible (m.requests q).mode = true ∧
        ((m.requests q).status = .STATUS_CONVERTING →
          intentCompatible (m.requests q).convertMode = true)) :=
  ⟨((safe_of_reachable hm).2 resId).partitionedIntent, ((safe_of_reachable hm).2 resId).partitioned⟩

theorem lockManager_partitioned_intent_after_is : ∃ m, Reachable m ∧
    (m.heads 0).partitions ≠ [] ∧ (m.heads 0).conflictList = [] := by
  obtain ⟨m, hm, hp⟩ := @exists_reachable_of_run (fun r => (r, false, false))
    [.lock 0 1 .MODE_IS] (fun m => (m.heads 0).partitions ≠ []) _ (by decide)
  exact ⟨m, hm, hp, ((lockManager_partitioned_intent hm 0).2 hp).1⟩

end Concurrency

end Mongo
