import Mongo.Concurrency.LockExclusion

/-! Each function of `lock_manager.cpp` keeps the invariant of `LockInvariant` and mutual
exclusion (`LockExclusion`). For each function an inversion lemma says what the state it returns
is, in the writes of `LockSteps`; the two invariants then follow from the lemmas about those
writes, with the checks the function made before each write. The loops are carried by induction
on the list they walk, with what the walk has not yet reached as part of the loop's invariant. -/

namespace Mongo

namespace Concurrency

open LockMode Tally LockManager

variable {m m' : LockManager} {resId : ResourceId} {r : RequestId}

/-- A count that goes up by one at a mode. -/
theorem update_succ_apply (c : LockMode → Nat) (a e : LockMode) :
    Function.update c a (c a + 1) e = c e + if a = e then 1 else 0 := by
  by_cases h : e = a
  · subst h
    simp
  · simp [Function.update_of_ne h, Ne.symm h]

/-- A positive count that goes down by one at a mode. -/
theorem update_pred_apply (c : LockMode → Nat) {a : LockMode} (ha : 1 ≤ c a) (e : LockMode) :
    Function.update c a (c a - 1) e + (if a = e then 1 else 0) = c e := by
  by_cases h : e = a
  · subst h
    simp only [Function.update_self, if_true]
    omega
  · simp [Function.update_of_ne h, Ne.symm h]

/-- A call that ends in `if c then pure a else k` returns `a` or what `k` returns. -/
theorem ite_pure_eq_ok {α : Type} {c : Prop} [Decidable c] {a b : α} {k : Except LockError α}
    (h : (if c then pure a else k) = .ok b) : c ∧ b = a ∨ ¬c ∧ k = .ok b := by
  split at h
  · exact .inl ⟨‹_›, (pure_eq_ok.mp h).symm⟩
  · exact .inr ⟨‹_›, h⟩

/-! ### `newRequest` -/

/-- What `newRequest` does: the request waits at either end of the conflict list, or is granted
at the end of the granted list when it does not conflict with the granted modes. -/
theorem newRequest_eq_ok {res : LockResult} (hm : ResInv m resId)
    (h : m.newRequest resId r = .ok (m', res)) :
    (m.requests r).partitionedLock = none ∧
    ((res = .LOCK_WAITING ∧ (conflicts (m.requests r).mode (m.heads resId).grantedModes = true ∨
        ((m.heads resId).compatibleFirstCount = 0 ∧
          conflicts (m.requests r).mode (m.heads resId).conflictModes = true)) ∧
      ∃ modes, ModesMatch (Function.update (m.heads resId).conflictCounts
        (m.requests r).mode ((m.heads resId).conflictCounts (m.requests r).mode + 1)) modes ∧
      m' = (m.setHead resId { m.heads resId with
        conflictList := if (m.requests r).enqueueAtFront then r :: (m.heads resId).conflictList
          else (m.heads resId).conflictList ++ [r],
        conflictCounts := Function.update (m.heads resId).conflictCounts (m.requests r).mode
          ((m.heads resId).conflictCounts (m.requests r).mode + 1),
        conflictModes := modes }).setRequest r
        { m.requests r with lock := some resId, status := .STATUS_WAITING }) ∨
     (res = .LOCK_OK ∧ conflicts (m.requests r).mode (m.heads resId).grantedModes = false ∧
      ∃ modes c, ModesMatch (Function.update (m.heads resId).grantedCounts
        (m.requests r).mode ((m.heads resId).grantedCounts (m.requests r).mode + 1)) modes ∧
      m' = (m.setHead resId { m.heads resId with
        grantedList := (m.heads resId).grantedList ++ [r],
        grantedCounts := Function.update (m.heads resId).grantedCounts (m.requests r).mode
          ((m.heads resId).grantedCounts (m.requests r).mode + 1),
        grantedModes := modes, compatibleFirstCount := c }).setRequest r
        { m.requests r with lock := some resId, status := .STATUS_GRANTED })) := by
  unfold newRequest at h
  obtain ⟨_, hinv, h⟩ := bind_eq_ok.mp h
  rw [invariant_eq_ok] at hinv
  refine ⟨hinv, ?_⟩
  dsimp only at h
  split at h
  · -- it conflicts: it waits
    rename_i hc
    obtain ⟨L, hL, h⟩ := bind_eq_ok.mp h
    obtain ⟨modes, rfl, hmodes⟩ := LockHead.incConflictModeCount_eq_ok hL hm.conflictModes
    rw [pure_eq_ok, Prod.mk.injEq] at h
    exact .inl ⟨h.2.symm, by simpa using hc, modes, hmodes, h.1.symm⟩
  · rename_i hc
    have hg : conflicts (m.requests r).mode (m.heads resId).grantedModes = false := by
      simpa using (Bool.or_eq_false_iff.mp (Bool.not_eq_true _ ▸ hc)).1
    obtain ⟨L, hL, h⟩ := bind_eq_ok.mp h
    obtain ⟨modes, rfl, hmodes⟩ := LockHead.incGrantedModeCount_eq_ok hL hm.grantedModes
    rw [pure_eq_ok, Prod.mk.injEq] at h
    -- the compatible-first count only matters to later scans
    by_cases hcf : (m.requests r).compatibleFirst = true
    · rw [if_pos hcf] at h
      exact .inr ⟨h.2.symm, hg, modes, _, hmodes, h.1.symm⟩
    · rw [if_neg hcf] at h
      exact .inr ⟨h.2.symm, hg, modes, _, hmodes, h.1.symm⟩

/-- A request on no list, placed by `newRequest`, names only the resource. -/
theorem namesOnly_placed {status : LockRequest.Status}
    (hpl : (m.requests r).partitionedLock = none) :
    NamesOnly { m.requests r with lock := some resId, status := status } resId :=
  ⟨fun _ hx => (Option.some.inj hx).symm, fun p x hx => by simp [hpl] at hx⟩

/-- `newRequest` writes the `LockHead` of the resource and a request that was on no list. -/
theorem Frame.newRequest {res : LockResult} (h : Inv m) (hoff : ∀ x, OffLists m r x)
    (hcall : m.newRequest resId r = .ok (m', res)) : Frame resId m m' := by
  obtain ⟨hpl, ⟨-, -, modes, -, rfl⟩ | ⟨-, -, modes, c, -, rfl⟩⟩ := newRequest_eq_ok (h resId) hcall
  · exact Frame.setHead_setRequest (namesOnly_placed hpl) fun x _ => hoff x
  · exact Frame.setHead_setRequest (namesOnly_placed hpl) fun x _ => hoff x

theorem Inv.newRequest {res : LockResult} (h : Inv m) (hoff : ∀ x, OffLists m r x)
    (hcall : m.newRequest resId r = .ok (m', res)) : Inv m' := by
  have hr := hoff resId
  obtain ⟨hpl, ⟨-, -, modes, hmodes, rfl⟩ | ⟨-, -, modes, c, hmodes, rfl⟩⟩ :=
    newRequest_eq_ok (h resId) hcall
  · -- waiting: `r` joins the conflict list, at the front or at the back
    have hmem : r ∈ (if (m.requests r).enqueueAtFront then r :: (m.heads resId).conflictList
        else (m.heads resId).conflictList ++ [r]) := by split <;> simp
    refine Inv.of_frame h ((h resId).headStep rfl (h resId).grantedNodup ?_
      (fun q _ => Iff.rfl) (fun q hq => ?_) (fun hg => absurd hg hr.granted) (fun _ => ⟨rfl, hpl, rfl⟩)
      (fun e => by simp [hr.granted]) (fun e => ?_) (by simp [hr.granted]) (h resId).grantedModes
      hmodes (fun _ _ hs => by simp at hs) (fun _ _ _ => hmem) hr.partition (by simpa using hpl))
      (Frame.newRequest h hoff hcall)
    · dsimp only
      split
      · exact List.nodup_cons.mpr ⟨hr.conflict, (h resId).conflictNodup⟩
      · exact (h resId).conflictNodup.append (List.nodup_singleton r)
          (List.disjoint_singleton.mpr hr.conflict)
    · dsimp only
      split <;> simp [hq]
    · simp only [hr.conflict, if_false, Nat.add_zero, hmem, if_true, conflictWeight,
        update_succ_apply]
  · -- granted: `r` joins the granted list at its end
    have hmem : r ∈ (m.heads resId).grantedList ++ [r] := by simp
    refine Inv.of_frame h ((h resId).headStep rfl ?_ (h resId).conflictNodup (fun q hq => ?_)
      (fun q _ => Iff.rfl) (fun _ => ⟨rfl, hpl, .inl rfl, fun hs => by simp at hs⟩)
      (fun hc => absurd hc hr.conflict) (fun e => ?_) (fun e => by simp [hr.conflict])
      (by simp [hr.granted, convertingWeight]) hmodes (h resId).conflictModes
      (fun _ _ _ => hmem) (fun _ _ hs => by simp at hs) hr.partition (by simpa using hpl))
      (Frame.newRequest h hoff hcall)
    · exact (h resId).grantedNodup.append (List.nodup_singleton r)
        (List.disjoint_singleton.mpr hr.granted)
    · simp [hq]
    · simp only [hr.granted, if_false, Nat.add_zero, hmem, if_true, grantedWeight,
        update_succ_apply]
      simp

/-- `newRequest` keeps mutual exclusion where the resource is not partitioned, or where it grants
a request in an intent mode, as in `migratePartitionedLockHeads`. -/
theorem Excl.newRequest {res : LockResult} (h : Excl m) (hinv : Inv m) (hoff : ∀ x, OffLists m r x)
    (hpart : (m.heads resId).partitions = [] ∨ (IsIntent (m.requests r).mode ∧ res = .LOCK_OK))
    (hcall : m.newRequest resId r = .ok (m', res)) : Excl m' := by
  have hr := hoff resId
  obtain ⟨-, ⟨hres, -, modes, hmodes, rfl⟩ | ⟨hres, hg, modes, c, hmodes, rfl⟩⟩ :=
    newRequest_eq_ok (hinv resId) hcall
  · -- waiting: nothing is granted, and the resource is not partitioned
    refine Excl.of_frame h ((h resId).headStep rfl (fun q _ => Iff.rfl) hr.partition
      (fun hg => absurd hg hr.granted) fun hp => ?_) (Frame.newRequest hinv hoff hcall)
    rcases hpart with hp' | ⟨-, hok⟩
    · exact absurd hp' hp
    · rw [hres] at hok
      cases hok
  · refine Excl.of_frame h ((h resId).headStep rfl (fun q hq => by simp [hq]) hr.partition
      ?_ fun hp => ?_) (Frame.newRequest hinv hoff hcall)
    · -- granted: compatible with the granted mask, and with the partitioned heads if any
      rintro - q - (hq | ⟨p, hq⟩)
      · exact (hinv resId).compatible_of_not_conflicts hq hg
      · have hparts : (m.heads resId).partitions ≠ [] :=
          List.ne_nil_of_mem ((hinv resId).partitions p (isSome_of_mem_getD hq))
        exact conflictsWith_of_isIntent (hpart.resolve_left hparts).1
          ((h resId).partitionedIntent p q hq)
    · have hint := (hpart.resolve_left hp).1
      exact ⟨((h resId).partitioned hp).1,
        fun _ => ⟨intentCompatible_of_isIntent hint, fun hs => by simp at hs⟩⟩

/-! ### `PartitionedLockHead::newRequest` -/

theorem partitionedNewRequest_eq_ok {p : Nat} (h : m.partitionedNewRequest p resId r = .ok m') :
    (m.requests r).partitioned = true ∧ (m.requests r).lock = none ∧
      m' = (m.setPartitionHead p resId (some ((m.partitionHeads p resId).getD [] ++ [r]))).setRequest
        r { m.requests r with partitionedLock := some (p, resId), status := .STATUS_GRANTED } := by
  unfold partitionedNewRequest at h
  obtain ⟨_, hpart, h⟩ := bind_eq_ok.mp h
  obtain ⟨_, hlock, h⟩ := bind_eq_ok.mp h
  rw [invariant_eq_ok] at hpart hlock
  exact ⟨hpart, hlock, (pure_eq_ok.mp h).symm⟩

theorem Inv.partitionedNewRequest {p : Nat} (h : Inv m) (hoff : ∀ x, OffLists m r x)
    (hp : p ∈ (m.heads resId).partitions) (hcall : m.partitionedNewRequest p resId r = .ok m') :
    Inv m' := by
  obtain ⟨-, hlock, rfl⟩ := partitionedNewRequest_eq_ok hcall
  have hnames : NamesOnly
      { m.requests r with partitionedLock := some (p, resId), status := .STATUS_GRANTED } resId :=
    ⟨fun x hx => by simp [hlock] at hx,
      fun p' x hx => (Prod.mk.inj (Option.some.inj hx)).2.symm⟩
  exact Inv.of_frame h ((h resId).addPartitioned (hoff resId) hlock hp)
    (Frame.setPartitionHead_setRequest hnames fun x _ => hoff x)

theorem Excl.partitionedNewRequest {p : Nat} (h : Excl m) (hoff : ∀ x, OffLists m r x)
    (hp : p ∈ (m.heads resId).partitions)
    (hintent : (m.requests r).partitioned = true → IsIntent (m.requests r).mode)
    (hcall : m.partitionedNewRequest p resId r = .ok m') : Excl m' := by
  obtain ⟨hpart, hlock, rfl⟩ := partitionedNewRequest_eq_ok hcall
  have hnames : NamesOnly
      { m.requests r with partitionedLock := some (p, resId), status := .STATUS_GRANTED } resId :=
    ⟨fun x hx => by simp [hlock] at hx,
      fun p' x hx => (Prod.mk.inj (Option.some.inj hx)).2.symm⟩
  exact Excl.of_frame h ((h resId).addPartitioned (hoff resId) hp (hintent hpart))
    (Frame.setPartitionHead_setRequest hnames fun x _ => hoff x)

/-! ### `migratePartitionedLockHeads` -/

/-- What migrating the partitioned heads keeps: the requests holding the resource are those that
held it, every request keeps its status, modes and count, and nobody joins the conflict list. -/
structure Migrated (resId : ResourceId) (m m' : LockManager) : Prop where
  holds : ∀ q, Holds m resId q → Holds m' resId q
  held : ∀ q, Holds m' resId q → Holds m resId q
  status : ∀ q, (m'.requests q).status = (m.requests q).status
  mode : ∀ q, (m'.requests q).mode = (m.requests q).mode
  recursiveCount : ∀ q, (m'.requests q).recursiveCount = (m.requests q).recursiveCount
  convertMode : ∀ q, (m'.requests q).convertMode = (m.requests q).convertMode
  enqueueAtFront : ∀ q, (m'.requests q).enqueueAtFront = (m.requests q).enqueueAtFront
  conflictList : (m'.heads resId).conflictList = (m.heads resId).conflictList
  frame : Frame resId m m'

namespace Migrated

theorem refl (resId : ResourceId) (m : LockManager) : Migrated resId m m :=
  ⟨fun _ h => h, fun _ h => h, fun _ => rfl, fun _ => rfl, fun _ => rfl, fun _ => rfl, fun _ => rfl,
    rfl, Frame.refl resId m⟩

theorem trans {m'' : LockManager} (h₁ : Migrated resId m m') (h₂ : Migrated resId m' m'') :
    Migrated resId m m'' :=
  ⟨fun q h => h₂.holds q (h₁.holds q h), fun q h => h₁.held q (h₂.held q h),
    fun q => (h₂.status q).trans (h₁.status q),
    fun q => (h₂.mode q).trans (h₁.mode q),
    fun q => (h₂.recursiveCount q).trans (h₁.recursiveCount q),
    fun q => (h₂.convertMode q).trans (h₁.convertMode q),
    fun q => (h₂.enqueueAtFront q).trans (h₁.enqueueAtFront q), h₂.conflictList.trans h₁.conflictList,
    h₁.frame.trans h₂.frame⟩

/-- A write at the resource that changes no request and no conflict list, and keeps the
holders. -/
theorem of_requests (hreq : m'.requests = m.requests)
    (hconflict : (m'.heads resId).conflictList = (m.heads resId).conflictList)
    (hholds : ∀ q, Holds m resId q → Holds m' resId q) (hheld : ∀ q, Holds m' resId q → Holds m resId q)
    (hf : Frame resId m m') : Migrated resId m m' :=
  ⟨hholds, hheld, fun q => by rw [hreq], fun q => by rw [hreq], fun q => by rw [hreq], fun q => by rw [hreq],
    fun q => by rw [hreq], hconflict, hf⟩

end Migrated

/-- A resource without partitions has no partitioned head. -/
theorem ResInv.partitionHeads_eq_none (h : ResInv m resId) (hp : (m.heads resId).partitions = [])
    (p : Nat) : m.partitionHeads p resId = none := by
  cases hhead : m.partitionHeads p resId with
  | none => rfl
  | some l =>
    have := h.partitions p (by simp [hhead])
    simp [hp] at this

/-- One turn of the inner loop: the request at the front of a partitioned head moves to the
granted list of the `LockHead`. -/
theorem migrateRequests_spec {p : Nat} :
    ∀ {l : List RequestId} {m m' : LockManager}, Inv m → Excl m →
      m.partitionHeads p resId = some l → migrateRequests p resId l m = .ok m' →
      Inv m' ∧ Excl m' ∧ m'.partitionHeads p resId = some [] ∧ Migrated resId m m' ∧
        (m'.heads resId).partitions = (m.heads resId).partitions
  | [], m, m', h, he, hl, hcall => by
    rw [migrateRequests, pure_eq_ok] at hcall
    subst hcall
    exact ⟨h, he, hl, Migrated.refl resId m, rfl⟩
  | r :: rest, m, m', h, he, hl, hcall => by
    rw [migrateRequests] at hcall
    obtain ⟨⟨m₂, res⟩, hnew, hcall⟩ := bind_eq_ok.mp hcall
    obtain ⟨_, hok, hcall⟩ := bind_eq_ok.mp hcall
    rw [invariant_eq_ok] at hok
    have hr : r ∈ (m.partitionHeads p resId).getD [] := by simp [hl]
    have hon := (h resId).partitionedOn p r hr
    have hnd : (r :: rest).Nodup := by simpa [hl] using (h resId).partitionNodup p
    set m₁ := (m.setPartitionHead p resId ((m.partitionHeads p resId).map fun l => l.erase r)).setRequest
      r { m.requests r with partitionedLock := none }
    -- `r` off its partitioned head, on no list and naming no resource
    have hget₁ : ∀ p', (m₁.partitionHeads p' resId).getD [] =
        if p' = p then rest else (m.partitionHeads p' resId).getD [] := by
      intro p'
      simp only [m₁, setRequest_partitionHeads, setPartitionHead_apply, and_true]
      split_ifs with hpp
      · simp [hl]
      · rfl
    have hothers : ∀ x, x ≠ resId → OffLists m r x :=
      h.offLists_of_namesOnly ((h resId).namesOnly_of_on (.inr (.inr ⟨p, hr⟩)))
    have hf₁ : Frame resId m m₁ :=
      Frame.setPartitionHead_setRequest ⟨fun x hx => by simp [hon.lock] at hx,
        fun p' x hx => by simp at hx⟩ hothers
    have hoff₁ : ∀ x, OffLists m₁ r x := by
      intro x
      by_cases hx : x = resId
      · subst hx
        obtain ⟨hg, hc⟩ := (h x).offHead_of_mem_partition hr
        refine ⟨hg, hc, fun p' hp' => ?_⟩
        rw [hget₁] at hp'
        split_ifs at hp' with hpp
        · exact (List.nodup_cons.mp hnd).1 hp'
        · exact hpp ((h x).eq_of_mem_partition hr hp')
      · obtain ⟨hg, hc, hp⟩ := hothers x hx
        refine ⟨by simpa [m₁] using hg, by simpa [m₁] using hc, fun p' => ?_⟩
        simpa [m₁, setPartitionHead_apply, hx] using hp p'
    have h₁ : Inv m₁ := Inv.of_frame h ((h resId).migrateOut hr) hf₁
    have he₁ : Excl m₁ := by
      refine Excl.of_frame he ((he resId).of_sub (fun q hq => hq) (fun q hq => hq)
        (fun p' q hq => ?_) id fun q hq => ?_) hf₁
      · rw [hget₁] at hq
        split_ifs at hq with hpp
        · subst hpp
          simp [hl, hq]
        · exact hq
      · -- the holders of `m₁` are not `r`, and keep their requests
        have hqr : q ≠ r := by
          rintro rfl
          rcases hq with hq | ⟨p', hq⟩
          · exact (hoff₁ resId).granted hq
          · exact (hoff₁ resId).partition p' hq
        simp [m₁, Function.update_of_ne hqr]
    -- `newRequest` grants `r`, in the intent mode it held
    have hintent : IsIntent (m₁.requests r).mode := by
      simpa [m₁] using (he resId).partitionedIntent p r hr
    have h₂ := h₁.newRequest hoff₁ hnew
    have he₂ := he₁.newRequest h₁ hoff₁ (.inr ⟨hintent, hok⟩) hnew
    obtain ⟨-, ⟨hres, -⟩ | ⟨-, -, modes, c, -, hm₂⟩⟩ := newRequest_eq_ok (h₁ resId) hnew
    · rw [hres] at hok
      cases hok
    have hl₂ : m₂.partitionHeads p resId = some rest := by
      simp [hm₂, m₁, setPartitionHead_apply, hl]
    obtain ⟨h', he', hl', hm', hp'⟩ := migrateRequests_spec h₂ he₂ hl₂ hcall
    refine ⟨h', he', hl', Migrated.trans ⟨fun q hq => ?_, fun q hq => ?_, fun q => ?_, fun q => ?_,
      fun q => ?_, fun q => ?_, fun q => ?_, by simp [hm₂, m₁],
      hf₁.trans (Frame.newRequest h₁ hoff₁ hnew)⟩ hm',
      by rw [hp', hm₂]; simp [m₁]⟩
    · -- a holder stays one: `r` on the granted list, any other where it was
      by_cases hqr : q = r
      · subst hqr
        exact .inl (by simp [hm₂])
      · rcases hq with hq | ⟨p', hq⟩
        · exact .inl (by simp [hm₂, m₁, hq])
        · refine .inr ⟨p', ?_⟩
          have hq' : q ∈ (m₁.partitionHeads p' resId).getD [] := by
            rw [hget₁]
            split_ifs with hpp
            · subst hpp
              simpa [hl, hqr] using hq
            · exact hq
          simpa [hm₂] using hq'
    · -- and nobody else comes to hold it: `r` held it on its partitioned head
      rcases hq with hq | ⟨p', hq⟩
      · have hq' : q ∈ (m.heads resId).grantedList ∨ q = r := by simpa [hm₂, m₁] using hq
        rcases hq' with hq' | rfl
        · exact .inl hq'
        · exact .inr ⟨p, hr⟩
      · have hq' : q ∈ (m₁.partitionHeads p' resId).getD [] := by simpa [hm₂] using hq
        rw [hget₁] at hq'
        split_ifs at hq' with hpp
        · subst hpp
          exact .inr ⟨p', by simp [hl, hq']⟩
        · exact .inr ⟨p', hq'⟩
    · by_cases hqr : q = r
      · subst hqr
        simp [hm₂, hon.status]
      · simp [hm₂, m₁, Function.update_of_ne hqr]
    · by_cases hqr : q = r
      · subst hqr
        simp [hm₂, m₁]
      · simp [hm₂, m₁, Function.update_of_ne hqr]
    · by_cases hqr : q = r
      · subst hqr
        simp [hm₂, m₁]
      · simp [hm₂, m₁, Function.update_of_ne hqr]
    · by_cases hqr : q = r
      · subst hqr
        simp [hm₂, m₁]
      · simp [hm₂, m₁, Function.update_of_ne hqr]
    · by_cases hqr : q = r
      · subst hqr
        simp [hm₂, m₁]
      · simp [hm₂, m₁, Function.update_of_ne hqr]

/-- The outer loop, over `partitions` from the back: each partitioned head is emptied and erased,
and its partition leaves `partitions`. -/
theorem migratePartitions_spec :
    ∀ {l : List Nat} {m m' : LockManager}, Inv m → Excl m →
      (m.heads resId).partitions = l.reverse → migratePartitions resId l m = .ok m' →
      Inv m' ∧ Excl m' ∧ (m'.heads resId).partitions = [] ∧ Migrated resId m m'
  | [], m, m', h, he, hparts, hcall => by
    rw [migratePartitions, pure_eq_ok] at hcall
    subst hcall
    exact ⟨h, he, hparts, Migrated.refl resId m⟩
  | p :: rest, m, m', h, he, hparts, hcall => by
    rw [migratePartitions] at hcall
    -- the head of `p`, if there is one, emptied and erased; the loop goes on from there
    obtain ⟨m₁, hstep, hcall⟩ : ∃ m₁, (Inv m₁ ∧ Excl m₁ ∧ m₁.partitionHeads p resId = none ∧
        Migrated resId m m₁ ∧ (m₁.heads resId).partitions = (m.heads resId).partitions) ∧
        migratePartitions resId rest (m₁.setHead resId
          { m₁.heads resId with partitions := (m₁.heads resId).partitions.dropLast }) = .ok m' := by
      split at hcall
      · rename_i requests hreq
        obtain ⟨m₀, hmig, hcall⟩ := bind_eq_ok.mp hcall
        obtain ⟨h₀, he₀, hl₀, hm₀, hp₀⟩ := migrateRequests_spec h he hreq hmig
        have hempty : (m₀.partitionHeads p resId).getD [] = [] := by simp [hl₀]
        -- the erased head had no request left
        have hsub : ∀ p', ∀ q ∈ ((m₀.setPartitionHead p resId none).partitionHeads p' resId).getD [],
            q ∈ (m₀.partitionHeads p' resId).getD [] := by
          intro p' q hq
          rw [setPartitionHead_apply] at hq
          split_ifs at hq
          · simp at hq
          · exact hq
        refine ⟨m₀.setPartitionHead p resId none, ⟨Inv.of_frame h₀
          ((h₀ resId).dropPartitionHead hempty) (Frame.setPartitionHead p none),
          Excl.of_frame he₀ ((he₀ resId).of_sub (fun q hq => hq) (fun q hq => hq) hsub id
            fun q _ => ⟨rfl, rfl, rfl⟩) (Frame.setPartitionHead p none),
          by simp [setPartitionHead_apply],
          hm₀.trans (Migrated.of_requests rfl rfl (fun q hq => ?_) (fun q hq => ?_)
            (Frame.setPartitionHead p none)), hp₀⟩, by simpa using hcall⟩
        rcases hq with hq | ⟨p', hq⟩
        · exact .inl hq
        · refine .inr ⟨p', ?_⟩
          rw [setPartitionHead_apply]
          split_ifs with hpp
          · obtain ⟨rfl, -⟩ := hpp
            simp [hempty] at hq
          · exact hq
        · rcases hq with hq | ⟨p', hq⟩
          · exact .inl hq
          · exact .inr ⟨p', hsub p' q hq⟩
      · rename_i hnone
        exact ⟨m, ⟨h, he, hnone, Migrated.refl resId m, rfl⟩, by simpa using hcall⟩
    obtain ⟨h₁, he₁, hnone, hm₁, hp₁⟩ := hstep
    set m₂ := m₁.setHead resId
      { m₁.heads resId with partitions := (m₁.heads resId).partitions.dropLast }
    have hdrop : (m₁.heads resId).partitions.dropLast = rest.reverse := by
      rw [hp₁, hparts, List.reverse_cons, List.dropLast_concat]
    -- every partition with a head is in front of `p`
    have hlast : ∀ p', (m₁.partitionHeads p' resId).isSome →
        p' ∈ (m₁.heads resId).partitions.dropLast := by
      intro p' hp'
      have hmem := (h₁ resId).partitions p' hp'
      rw [hp₁, hparts, List.reverse_cons, List.mem_append, List.mem_singleton] at hmem
      rw [hdrop]
      rcases hmem with hmem | rfl
      · exact hmem
      · simp [hnone] at hp'
    have h₂ : Inv m₂ := Inv.of_frame h₁ ((h₁ resId).dropLastPartition hlast) (Frame.setHead _)
    have he₂ : Excl m₂ := Excl.of_frame he₁ ((he₁ resId).of_sub (fun q hq => by simpa [m₂] using hq)
      (fun q hq => by simpa [m₂] using hq) (fun _ _ hq => hq)
      (fun hp h0 => hp (by simp [m₂, h0])) fun q _ => ⟨rfl, rfl, rfl⟩) (Frame.setHead _)
    obtain ⟨h', he', hp', hm'⟩ := migratePartitions_spec h₂ he₂ (by simp [m₂, hdrop]) hcall
    have hm₂ : Migrated resId m₁ m₂ := Migrated.of_requests rfl (by simp [m₂])
      (fun q hq => by simpa [m₂, Holds] using hq) (fun q hq => by simpa [m₂, Holds] using hq)
      (Frame.setHead _)
    exact ⟨h', he', hp', hm₁.trans (hm₂.trans hm')⟩

/-- `migratePartitionedLockHeads`: every request of a partitioned head is granted on the
`LockHead`, and the resource has no partitions left. -/
theorem migratePartitionedLockHeads_spec (h : Inv m) (he : Excl m)
    (hcall : m.migratePartitionedLockHeads resId = .ok m') :
    Inv m' ∧ Excl m' ∧ (m'.heads resId).partitions = [] ∧ Migrated resId m m' := by
  unfold migratePartitionedLockHeads at hcall
  obtain ⟨_, -, hcall⟩ := bind_eq_ok.mp hcall
  obtain ⟨_, -, hcall⟩ := bind_eq_ok.mp hcall
  exact migratePartitions_spec h he (List.reverse_reverse _).symm hcall

/-- `if (lock->partitioned()) lock->migratePartitionedLockHeads();` followed by the rest of a call:
the rest runs on a state without partitions. -/
theorem migrateIf_eq_ok {α : Type} {k : LockManager → Except LockError α} {c : Prop} [Decidable c]
    {v : α} (h : Inv m) (he : Excl m) (hc : ¬c → (m.heads resId).partitions = [])
    (hcall : (if c then m.migratePartitionedLockHeads resId >>= k else pure m >>= k) = .ok v) :
    ∃ m₂, Inv m₂ ∧ Excl m₂ ∧ (m₂.heads resId).partitions = [] ∧ Migrated resId m m₂ ∧
      k m₂ = .ok v := by
  split at hcall
  · obtain ⟨m₂, hmig, hcall⟩ := bind_eq_ok.mp hcall
    obtain ⟨h₂, he₂, hparts, hm⟩ := migratePartitionedLockHeads_spec h he hmig
    exact ⟨m₂, h₂, he₂, hparts, hm, hcall⟩
  · rename_i hnc
    exact ⟨m, h, he, hc hnc, Migrated.refl resId m, by simpa only [pure_bind] using hcall⟩

/-- After the migration, a request that held the resource is on its granted list. -/
theorem Migrated.mem_granted {m₂ : LockManager} (hm : Migrated resId m m₂) (h₂ : Inv m₂)
    (hparts : (m₂.heads resId).partitions = []) (hr : Holds m resId r) :
    r ∈ (m₂.heads resId).grantedList := by
  rcases hm.holds r hr with hr | ⟨p, hr⟩
  · exact hr
  · simp [(h₂ resId).partitionHeads_eq_none hparts p] at hr

/-! ### `lock` -/

/-- The partitioned flag `lock` sets is that of an intent mode. -/
theorem isIntent_of_partitioned {mode : LockMode}
    (h : (mode == .MODE_IX || mode == .MODE_IS) = true) : IsIntent mode := by
  cases mode <;> first | exact .inl rfl | exact .inr rfl | simp at h

/-- What `lock` does, read off its code: the request is new, and takes its mode and partitioned
flag; it then goes on the partitioned head of its partition if there is one; or on a partitioned
head it starts, when every granted mode is an intent mode and nobody waits; or, after the
migration of the partitioned heads, through `newRequest` on the `LockHead`. -/
theorem lock_eq_ok {mode : LockMode} {res : LockResult} (h : Inv m) (he : Excl m)
    (hcall : m.lock resId r mode = .ok (m', res)) :
    (m.requests r).status = .STATUS_NEW ∧ ∃ m₁, m₁ = m.setRequest r
        { m.requests r with partitioned := mode == .MODE_IX || mode == .MODE_IS, mode := mode } ∧
      ((∃ p ∈ (m₁.heads resId).partitions, m₁.partitionedNewRequest p resId r = .ok m') ∨
        (∃ p, ((m₁.heads resId).grantedModes &&& ~~~intentModes) = 0 ∧
          (m₁.heads resId).conflictModes = 0 ∧
          ((m₁.setPartitionHead p resId (some ((m₁.partitionHeads p resId).getD []))).setHead resId
            { m₁.heads resId with partitions := (m₁.heads resId).partitions ++ [p] }).partitionedNewRequest
              p resId r = .ok m') ∨
        ∃ m₂, Inv m₂ ∧ Excl m₂ ∧ (m₂.heads resId).partitions = [] ∧ Migrated resId m₁ m₂ ∧
          (m₂.setRequest r { m₂.requests r with partitioned := false }).newRequest resId r =
            .ok (m', res)) := by
  unfold LockManager.lock at hcall
  obtain ⟨_, hnew, hcall⟩ := bind_eq_ok.mp hcall
  obtain ⟨_, -, hcall⟩ := bind_eq_ok.mp hcall
  rw [invariant_eq_ok] at hnew
  refine ⟨hnew, _, rfl, ?_⟩
  -- a new request is on no list; it takes its mode and partitioned flag
  have hoff : ∀ x, OffLists m r x := fun x => (h x).offLists_of_new hnew
  set m₁ := m.setRequest r
    { m.requests r with partitioned := mode == .MODE_IX || mode == .MODE_IS, mode := mode }
  have h₁ : Inv m₁ := fun x => (h x).setRequest_offLists (hoff x) rfl rfl rfl rfl
  have he₁ : Excl m₁ := fun x => (he x).setRequest_offLists (hoff x) _
  dsimp only at hcall
  split at hcall
  · -- the fast path: a partitioned head of the locker's partition exists
    rename_i hfast
    obtain ⟨m₂, hpart, hcall⟩ := bind_eq_ok.mp hcall
    rw [pure_eq_ok, Prod.mk.injEq] at hcall
    exact .inl ⟨_, (h₁ resId).partitions _ (Bool.and_eq_true _ _ ▸ hfast).2, hcall.1 ▸ hpart⟩
  split at hcall
  · -- the resource becomes partitioned
    rename_i hstart
    simp only [Bool.and_eq_true, beq_iff_eq] at hstart
    obtain ⟨⟨-, hgranted⟩, hwaiting⟩ := hstart
    obtain ⟨m₃, hpart, hcall⟩ := bind_eq_ok.mp hcall
    rw [pure_eq_ok, Prod.mk.injEq] at hcall
    exact .inr (.inl ⟨_, hgranted, hwaiting, hcall.1 ▸ hpart⟩)
  · -- the slow path: migrate the partitioned heads if any, then the `LockHead`
    obtain ⟨m₂, h₂, he₂, hparts, hm, hcall⟩ :=
      migrateIf_eq_ok h₁ he₁ (fun hnp => by simpa [m₁, LockHead.partitioned] using hnp) hcall
    exact .inr (.inr ⟨m₂, h₂, he₂, hparts, hm, hcall⟩)

/-- `lock` keeps the invariant and mutual exclusion, on each of its three paths. -/
theorem lock_safe {mode : LockMode} {res : LockResult} (h : Inv m) (he : Excl m)
    (hcall : m.lock resId r mode = .ok (m', res)) : Inv m' ∧ Excl m' := by
  obtain ⟨hnew, _, rfl, hpath⟩ := lock_eq_ok h he hcall
  have hoff : ∀ x, OffLists m r x := fun x => (h x).offLists_of_new hnew
  set m₁ := m.setRequest r
    { m.requests r with partitioned := mode == .MODE_IX || mode == .MODE_IS, mode := mode }
  have h₁ : Inv m₁ := fun x => (h x).setRequest_offLists (hoff x) rfl rfl rfl rfl
  have he₁ : Excl m₁ := fun x => (he x).setRequest_offLists (hoff x) _
  have hoff₁ : ∀ x, OffLists m₁ r x :=
    fun x => ⟨(hoff x).granted, (hoff x).conflict, (hoff x).partition⟩
  have hintent : (m₁.requests r).partitioned = true → IsIntent (m₁.requests r).mode := by
    intro hp
    simp only [m₁, setRequest_requests, Function.update_self] at hp ⊢
    exact isIntent_of_partitioned hp
  rcases hpath with ⟨p, hp, hpart⟩ | ⟨p, hgranted, hwaiting, hpart⟩ |
      ⟨m₂, h₂, he₂, hparts, hm, hcall⟩
  · -- the fast path: a partitioned head of the locker's partition exists
    exact ⟨h₁.partitionedNewRequest hoff₁ hp hpart, he₁.partitionedNewRequest hoff₁ hp hintent hpart⟩
  · -- the resource becomes partitioned: every granted mode is an intent mode, nobody waits
    set m₂ := (m₁.setPartitionHead p resId (some ((m₁.partitionHeads p resId).getD []))).setHead
      resId { m₁.heads resId with partitions := (m₁.heads resId).partitions ++ [p] }
    have hf₂ : Frame resId m₁ m₂ := (Frame.setPartitionHead p _).trans (Frame.setHead _)
    have h₂ : Inv m₂ := Inv.of_frame h₁ ((h₁ resId).startPartition p) hf₂
    have he₂ : Excl m₂ :=
      Excl.of_frame he₁ ((he₁ resId).startPartition (h₁ resId) p hgranted hwaiting) hf₂
    have hoff₂ : ∀ x, OffLists m₂ r x := by
      intro x
      obtain ⟨hg, hc, hpx⟩ := hoff₁ x
      refine ⟨?_, ?_, fun p' hp' => ?_⟩
      · by_cases hx : x = resId
        · subst hx
          simpa [m₂] using hg
        · simpa [m₂, Function.update_of_ne hx] using hg
      · by_cases hx : x = resId
        · subst hx
          simpa [m₂] using hc
        · simpa [m₂, Function.update_of_ne hx] using hc
      · simp only [m₂, setHead_partitionHeads, setPartitionHead_apply] at hp'
        split_ifs at hp' with hpp
        · obtain ⟨rfl, rfl⟩ := hpp
          exact hpx _ hp'
        · exact hpx p' hp'
    have hp : p ∈ (m₂.heads resId).partitions := by simp [m₂]
    exact ⟨h₂.partitionedNewRequest hoff₂ hp hpart,
      he₂.partitionedNewRequest hoff₂ hp hintent hpart⟩
  · -- the slow path: the request is still new after the migration, and goes to `newRequest`
    have hnew₂ : (m₂.requests r).status = .STATUS_NEW := by
      rw [hm.status]
      simpa [m₁] using hnew
    set m₃ := m₂.setRequest r { m₂.requests r with partitioned := false }
    have h₃ : Inv m₃ := fun x => (h₂ x).setRequest_same rfl rfl rfl rfl rfl id
    have he₃ : Excl m₃ := fun x => (he₂ x).setRequest_same rfl rfl rfl
    have hoff₃ : ∀ x, OffLists m₃ r x := fun x => (h₃ x).offLists_of_new (by simpa [m₃] using hnew₂)
    exact ⟨h₃.newRequest hoff₃ hcall, he₃.newRequest h₃ hoff₃ (.inl (by simpa [m₃] using hparts)) hcall⟩

/-! ### `convert` -/

/-- A request that names only `resId`, on the granted list, with its new fields. -/
theorem namesOnly_of_grantedOn {req : LockRequest} (hon : GrantedOn req resId) : NamesOnly req resId :=
  ⟨fun x hx => by simpa [hon.lock] using hx.symm, fun p x hx => by simp [hon.partitionedLock] at hx⟩

/-- A request on the granted list that is granted after a write naming the same resources. -/
theorem GrantedOn.granted {req req' : LockRequest} (hon : GrantedOn req resId)
    (hlock : req'.lock = req.lock) (hpl : req'.partitionedLock = req.partitionedLock)
    (hs : req'.status = .STATUS_GRANTED) : GrantedOn req' resId :=
  ⟨hlock.trans hon.lock, hpl.trans hon.partitionedLock, .inl hs, fun hc => by simp [hs] at hc⟩

/-- A write of the `LockHead` of the resource and of a request it keeps on its granted list. -/
theorem Frame.setHead_setGranted {L : LockHead} {req' : LockRequest} (h : Inv m)
    (hr : r ∈ (m.heads resId).grantedList) (hon : GrantedOn req' resId) :
    Frame resId m ((m.setHead resId L).setRequest r req') :=
  Frame.setHead_setRequest (namesOnly_of_grantedOn hon)
    (h.offLists_of_namesOnly ((h resId).namesOnly_of_on (.inl hr)))

/-- A granted request takes another mode: the count of the new mode goes up by one and that of
the old one down by one. `convert` does this when the new mode is free, and `downgrade` always.
The new mode is compatible with every other holder, and with the intent modes while the resource
is partitioned. -/
theorem changeMode_safe {newMode : LockMode} {modes : UInt32} (h : Inv m) (he : Excl m)
    (hr : r ∈ (m.heads resId).grantedList) (hstatus : (m.requests r).status = .STATUS_GRANTED)
    (hpos : 1 ≤ Function.update (m.heads resId).grantedCounts newMode
      ((m.heads resId).grantedCounts newMode + 1) (m.requests r).mode)
    (hmodes : ModesMatch (Function.update (Function.update (m.heads resId).grantedCounts newMode
        ((m.heads resId).grantedCounts newMode + 1)) (m.requests r).mode
        (Function.update (m.heads resId).grantedCounts newMode
          ((m.heads resId).grantedCounts newMode + 1) (m.requests r).mode - 1)) modes)
    (hcompat : ∀ q, q ≠ r → Holds m resId q → conflictsWith newMode (m.requests q).mode = false)
    (hintent : (m.heads resId).partitions ≠ [] → intentCompatible newMode = true) :
    Inv ((m.setHead resId { m.heads resId with
      grantedCounts := Function.update (Function.update (m.heads resId).grantedCounts newMode
        ((m.heads resId).grantedCounts newMode + 1)) (m.requests r).mode
        (Function.update (m.heads resId).grantedCounts newMode
          ((m.heads resId).grantedCounts newMode + 1) (m.requests r).mode - 1),
      grantedModes := modes }).setRequest r { m.requests r with mode := newMode }) ∧
    Excl ((m.setHead resId { m.heads resId with
      grantedCounts := Function.update (Function.update (m.heads resId).grantedCounts newMode
        ((m.heads resId).grantedCounts newMode + 1)) (m.requests r).mode
        (Function.update (m.heads resId).grantedCounts newMode
          ((m.heads resId).grantedCounts newMode + 1) (m.requests r).mode - 1),
      grantedModes := modes }).setRequest r { m.requests r with mode := newMode }) := by
  set req' : LockRequest := { m.requests r with mode := newMode }
  have hon' : GrantedOn req' resId := ((h resId).grantedOn r hr).granted rfl rfl hstatus
  have hf := Frame.setHead_setGranted (L := { m.heads resId with
    grantedCounts := Function.update (Function.update (m.heads resId).grantedCounts newMode
      ((m.heads resId).grantedCounts newMode + 1)) (m.requests r).mode
      (Function.update (m.heads resId).grantedCounts newMode
        ((m.heads resId).grantedCounts newMode + 1) (m.requests r).mode - 1),
    grantedModes := modes }) h hr hon'
  refine ⟨Inv.of_frame h ((h resId).change_granted hr hon' (fun e => ?_) hmodes ?_) hf,
    Excl.of_frame he ((he resId).headStep rfl (fun q _ => Iff.rfl)
      (fun p hp => (h resId).not_mem_partition_of_mem_granted hr p hp)
      (fun _ q hq hq' => hcompat q hq hq') fun hp => ?_) hf⟩
  · -- the count of the new mode goes up by one, that of the old one down by one
    have hdec := update_pred_apply _ hpos e
    have hinc := update_succ_apply (m.heads resId).grantedCounts newMode e
    simp only [grantedWeight, req', hstatus, reduceCtorEq, false_and, if_false, Nat.add_zero]
    omega
  · simp [convertingWeight, hstatus, req']
  · exact ⟨((he resId).partitioned hp).1, fun _ => ⟨hintent hp, fun hs => by simp [req', hstatus] at hs⟩⟩

/-- What `convert` does, read off its code: the request is granted and held, and is counted again;
a conversion that adds no conflict returns there; any other, to a mode with every conflict of the
old one, migrates the partitioned heads, and then marks the request converting if the new mode
conflicts with a mode held by another request, and gives it the new mode otherwise. -/
theorem convert_eq_ok {newMode : LockMode} {res : LockResult} (h : Inv m) (he : Excl m)
    (hresp : m.Respects (.convert resId r newMode))
    (hcall : m.convert resId r newMode = .ok (m', res)) :
    (m.requests r).status = .STATUS_GRANTED ∧ 0 < (m.requests r).recursiveCount ∧
    ∃ m₁, m₁ = m.setRequest r
        { m.requests r with recursiveCount := (m.requests r).recursiveCount + 1 } ∧
      ((LockConflictsTable (m₁.requests r).mode ||| LockConflictsTable newMode) =
          LockConflictsTable (m₁.requests r).mode ∧ m' = m₁ ∨
        (LockConflictsTable (m₁.requests r).mode ||| LockConflictsTable newMode) ≠
          LockConflictsTable (m₁.requests r).mode ∧
        (LockConflictsTable (m₁.requests r).mode ||| LockConflictsTable newMode) =
          LockConflictsTable newMode ∧
        ∃ m₂, Inv m₂ ∧ Excl m₂ ∧ (m₂.heads resId).partitions = [] ∧ Migrated resId m₁ m₂ ∧
          r ∈ (m₂.heads resId).grantedList ∧
          ((conflicts newMode (grantedModesWithout (m₂.heads resId).grantedCounts
              fun i => if (m₂.requests r).mode = i then 1 else 0) = true ∧
            ∃ modes, ModesMatch (Function.update (m₂.heads resId).grantedCounts newMode
                ((m₂.heads resId).grantedCounts newMode + 1)) modes ∧
              m' = (m₂.setHead resId { m₂.heads resId with
                conversionsCount := (m₂.heads resId).conversionsCount + 1,
                grantedCounts := Function.update (m₂.heads resId).grantedCounts newMode
                  ((m₂.heads resId).grantedCounts newMode + 1), grantedModes := modes }).setRequest r
                { m₂.requests r with status := .STATUS_CONVERTING, convertMode := newMode }) ∨
          conflicts newMode (grantedModesWithout (m₂.heads resId).grantedCounts
              fun i => if (m₂.requests r).mode = i then 1 else 0) = false ∧
            1 ≤ Function.update (m₂.heads resId).grantedCounts newMode
              ((m₂.heads resId).grantedCounts newMode + 1) (m₂.requests r).mode ∧
            ∃ modes, ModesMatch (Function.update (Function.update (m₂.heads resId).grantedCounts
                newMode ((m₂.heads resId).grantedCounts newMode + 1)) (m₂.requests r).mode
                (Function.update (m₂.heads resId).grantedCounts newMode
                  ((m₂.heads resId).grantedCounts newMode + 1) (m₂.requests r).mode - 1)) modes ∧
              m' = (m₂.setHead resId { m₂.heads resId with
                grantedCounts := Function.update (Function.update (m₂.heads resId).grantedCounts
                  newMode ((m₂.heads resId).grantedCounts newMode + 1)) (m₂.requests r).mode
                  (Function.update (m₂.heads resId).grantedCounts newMode
                    ((m₂.heads resId).grantedCounts newMode + 1) (m₂.requests r).mode - 1),
                grantedModes := modes }).setRequest r { m₂.requests r with mode := newMode })) := by
  unfold convert at hcall
  obtain ⟨_, hgranted, hcall⟩ := bind_eq_ok.mp hcall
  obtain ⟨_, hcount, hcall⟩ := bind_eq_ok.mp hcall
  rw [invariant_eq_ok] at hgranted hcount
  refine ⟨hgranted, hcount, _, rfl, ?_⟩
  -- the request holds the resource it names, on the `LockHead` or on a partitioned head
  have hholds : Holds m resId r := by
    rcases hresp with hlock | hpl
    · exact .inl ((h resId).memGranted r hlock hcount (.inl hgranted))
    · obtain ⟨⟨p, x⟩, hpl', hx⟩ := Option.map_eq_some_iff.mp hpl
      simp only at hx
      subst hx
      exact .inr ⟨p, (h x).memPartition r p hpl' hcount⟩
  set m₁ := m.setRequest r
    { m.requests r with recursiveCount := (m.requests r).recursiveCount + 1 }
  have h₁ : Inv m₁ := fun x => (h x).setRequest_same rfl rfl rfl rfl rfl fun _ => hcount
  have he₁ : Excl m₁ := fun x => (he x).setRequest_same rfl rfl rfl
  have hholds₁ : Holds m₁ resId r := hholds
  dsimp only at hcall
  split at hcall
  · rename_i hsame
    rw [pure_eq_ok, Prod.mk.injEq] at hcall
    exact .inl ⟨hsame, hcall.1.symm⟩
  rename_i hadds
  obtain ⟨_, hup, hcall⟩ := bind_eq_ok.mp hcall
  rw [invariant_eq_ok] at hup
  obtain ⟨m₂, h₂, he₂, hparts, hm, hcall⟩ :=
    migrateIf_eq_ok h₁ he₁ (fun hnp => by simpa [LockHead.partitioned] using hnp) hcall
  refine .inr ⟨hadds, hup, m₂, h₂, he₂, hparts, hm, hm.mem_granted h₂ hparts hholds₁, ?_⟩
  split at hcall
  · rename_i hconflict
    obtain ⟨L, hL, hcall⟩ := bind_eq_ok.mp hcall
    obtain ⟨modes, rfl, hmodes⟩ := LockHead.incGrantedModeCount_eq_ok hL (h₂ resId).grantedModes
    rw [pure_eq_ok, Prod.mk.injEq] at hcall
    exact .inl ⟨hconflict, modes, hmodes, hcall.1.symm⟩
  · rename_i hfree
    obtain ⟨L₁, hL₁, hcall⟩ := bind_eq_ok.mp hcall
    obtain ⟨modes₁, rfl, hmodes₁⟩ := LockHead.incGrantedModeCount_eq_ok hL₁ (h₂ resId).grantedModes
    obtain ⟨L₂, hL₂, hcall⟩ := bind_eq_ok.mp hcall
    obtain ⟨hpos, modes₂, rfl, hmodes₂⟩ := LockHead.decGrantedModeCount_eq_ok hL₂ hmodes₁
    rw [pure_eq_ok, Prod.mk.injEq] at hcall
    exact .inr ⟨Bool.not_eq_true _ ▸ hfree, hpos, modes₂, hmodes₂, hcall.1.symm⟩

/-- `convert` keeps the invariant and mutual exclusion: a conversion that adds no conflict only
counts the request again; any other runs on the `LockHead`, and is granted only if it conflicts
with no mode held by another request. -/
theorem convert_safe {newMode : LockMode} {res : LockResult} (h : Inv m) (he : Excl m)
    (hresp : m.Respects (.convert resId r newMode))
    (hcall : m.convert resId r newMode = .ok (m', res)) : Inv m' ∧ Excl m' := by
  obtain ⟨hgranted, hcount, _, rfl, hpath⟩ := convert_eq_ok h he hresp hcall
  set m₁ := m.setRequest r
    { m.requests r with recursiveCount := (m.requests r).recursiveCount + 1 }
  rcases hpath with ⟨-, rfl⟩ | ⟨-, hup, m₂, h₂, he₂, hparts, hm, hr, hpath⟩
  · -- no conflict added: the request is counted again and keeps its mode
    exact ⟨fun x => (h x).setRequest_same rfl rfl rfl rfl rfl fun _ => hcount,
      fun x => (he x).setRequest_same rfl rfl rfl⟩
  have hon := (h₂ resId).grantedOn r hr
  have hstatus : (m₂.requests r).status = .STATUS_GRANTED := by
    rw [hm.status]
    simpa [m₁] using hgranted
  have hmode : (m₂.requests r).mode = (m₁.requests r).mode := hm.mode r
  have hnone : ∀ p q, q ∉ (m₂.partitionHeads p resId).getD [] := by
    simp [(h₂ resId).partitionHeads_eq_none hparts]
  rcases hpath with ⟨-, modes, hmodes, rfl⟩ | ⟨hfree, hpos, modes, hmodes, rfl⟩
  · -- it conflicts with a mode held by another request: it converts on the granted list
    set req' : LockRequest :=
      { m₂.requests r with status := .STATUS_CONVERTING, convertMode := newMode }
    have hon' : GrantedOn req' resId :=
      ⟨hon.lock, hon.partitionedLock, .inr rfl, fun _ => by simpa [req', hmode] using hup⟩
    have hf := Frame.setHead_setGranted (L := { m₂.heads resId with
      conversionsCount := (m₂.heads resId).conversionsCount + 1,
      grantedCounts := Function.update (m₂.heads resId).grantedCounts newMode
        ((m₂.heads resId).grantedCounts newMode + 1), grantedModes := modes }) h₂ hr hon'
    refine ⟨Inv.of_frame h₂ ((h₂ resId).change_granted hr hon' (fun e => ?_) hmodes ?_) hf,
      Excl.of_frame he₂ ((he₂ resId).headStep rfl (fun q _ => Iff.rfl) (fun p => hnone p r)
        (fun _ q hq hq' => ?_) fun hp => absurd hparts hp) hf⟩
    · simp only [grantedWeight, req', hstatus, update_succ_apply]
      simp
      omega
    · simp [convertingWeight, hstatus, req']
    · -- it keeps the mode it holds
      exact (he₂ resId).compatible r q (Ne.symm hq) (.inl hr) hq'
  · -- granted at once: the new mode conflicts with no mode held by another request
    refine changeMode_safe h₂ he₂ hr hstatus hpos hmodes (fun q hq hq' => ?_)
      fun hp => absurd hparts hp
    -- another holder is on the granted list, and counts apart from the request's own mode
    rcases hq' with hq' | ⟨p, hq'⟩
    · refine (h₂ resId).compatible_of_not_conflicts_without hq' hr hq (fun i => ?_) hfree
      simp [grantedWeight]
    · exact absurd hq' (hnone p q)

/-! ### `_onLockModeChanged` -/

theorem conversionMask_eq_ok {counts : LockMode → Nat} {request : LockRequest} {mask : UInt32}
    (h : conversionMask counts request = .ok mask) :
    mask = grantedModesWithout counts fun i =>
      (if request.mode = i then 1 else 0) + (if request.convertMode = i then 1 else 0) := by
  unfold conversionMask at h
  obtain ⟨_, -, h⟩ := bind_eq_ok.mp h
  exact (pure_eq_ok.mp h).symm

/-- The first scan grants a converting request its new mode when that conflicts with no mode
held by another request. -/
theorem grantConversion_safe {modes : UInt32} (h : Inv m) (he : Excl m)
    (hr : r ∈ (m.heads resId).grantedList) (hconv : (m.requests r).status = .STATUS_CONVERTING)
    (hcount : (m.heads resId).conversionsCount ≠ 0)
    (hfree : conflicts (m.requests r).convertMode (grantedModesWithout (m.heads resId).grantedCounts
      fun i => (if (m.requests r).mode = i then 1 else 0) +
        (if (m.requests r).convertMode = i then 1 else 0)) = false)
    (hpos : 1 ≤ (m.heads resId).grantedCounts (m.requests r).mode)
    (hmodes : ModesMatch (Function.update (m.heads resId).grantedCounts (m.requests r).mode
      ((m.heads resId).grantedCounts (m.requests r).mode - 1)) modes) :
    Inv ((m.setHead resId { m.heads resId with
      conversionsCount := (m.heads resId).conversionsCount - 1,
      grantedCounts := Function.update (m.heads resId).grantedCounts (m.requests r).mode
        ((m.heads resId).grantedCounts (m.requests r).mode - 1),
      grantedModes := modes }).setRequest r
      { m.requests r with
        status := .STATUS_GRANTED, mode := (m.requests r).convertMode, convertMode := .MODE_NONE }) ∧
    Excl ((m.setHead resId { m.heads resId with
      conversionsCount := (m.heads resId).conversionsCount - 1,
      grantedCounts := Function.update (m.heads resId).grantedCounts (m.requests r).mode
        ((m.heads resId).grantedCounts (m.requests r).mode - 1),
      grantedModes := modes }).setRequest r
      { m.requests r with
        status := .STATUS_GRANTED, mode := (m.requests r).convertMode, convertMode := .MODE_NONE }) := by
  set req' : LockRequest := { m.requests r with
    status := .STATUS_GRANTED, mode := (m.requests r).convertMode, convertMode := .MODE_NONE }
  have hon' : GrantedOn req' resId := ((h resId).grantedOn r hr).granted rfl rfl rfl
  have hf := Frame.setHead_setGranted (L := { m.heads resId with
      conversionsCount := (m.heads resId).conversionsCount - 1,
      grantedCounts := Function.update (m.heads resId).grantedCounts (m.requests r).mode
        ((m.heads resId).grantedCounts (m.requests r).mode - 1),
      grantedModes := modes }) h hr hon'
  -- what a converting request counts for, and what it may hold while the resource is partitioned
  have hown : ∀ i, (if (m.requests r).mode = i then 1 else 0) +
      (if (m.requests r).convertMode = i then 1 else 0) = grantedWeight i (m.requests r) := by
    intro i
    simp [grantedWeight, hconv]
  have hpartitioned : (m.heads resId).partitions ≠ [] →
      intentCompatible (m.requests r).convertMode = true :=
    fun hp => (((he resId).partitioned hp).2 r hr).2 hconv
  refine ⟨Inv.of_frame h ((h resId).change_granted hr hon' (fun e => ?_) hmodes ?_) hf,
    Excl.of_frame he ((he resId).headStep rfl (fun q _ => Iff.rfl)
      (fun p hp => (h resId).not_mem_partition_of_mem_granted hr p hp)
      (fun _ q hq hq' => ?_) fun hp => ?_) hf⟩
  · -- the old mode leaves the count, and the new one was already in it
    have hdec := update_pred_apply _ hpos e
    simp only [grantedWeight, req', hconv, true_and, reduceCtorEq, false_and, if_false,
      Nat.add_zero]
    omega
  · simp [convertingWeight, hconv, req']
    omega
  · rcases hq' with hq' | ⟨p, hq'⟩
    · exact (h resId).compatible_of_not_conflicts_without hq' hr hq (fun i => (hown i).le) hfree
    · have hp := List.ne_nil_of_mem ((h resId).partitions p (isSome_of_mem_getD hq'))
      exact conflictsWith_of_intentCompatible (hpartitioned hp)
        ((he resId).partitionedIntent p q hq')
  · exact ⟨((he resId).partitioned hp).1,
      fun _ => ⟨hpartitioned hp, fun hs => by simp [req'] at hs⟩⟩

theorem Inv.notify (h : Inv m) (r : RequestId) (x : ResourceId) : Inv (m.notify r x) :=
  fun y => (h y).notify r x

theorem Excl.notify (h : Excl m) (r : RequestId) (x : ResourceId) : Excl (m.notify r x) :=
  fun y => (h y).notify r x

/-- One step of the first loop of `_onLockModeChanged`, read off its code: with no conversion
left it stops; a request that does not convert, or whose new mode conflicts with a mode held by
another request, is passed; any other is granted the mode it converts to, and the count of the
mode it held goes one down. -/
theorem grantConversions_cons_eq_ok {rest : List RequestId} (h : ResInv m resId)
    (hcall : grantConversions resId (r :: rest) m = .ok m') :
    ((m.heads resId).conversionsCount = 0 ∧ m' = m) ∨
    ((m.heads resId).conversionsCount ≠ 0 ∧
      ((m.requests r).status ≠ .STATUS_CONVERTING ∨ (m.requests r).status = .STATUS_CONVERTING ∧
        conflicts (m.requests r).convertMode (grantedModesWithout (m.heads resId).grantedCounts
          fun i => (if (m.requests r).mode = i then 1 else 0) +
            (if (m.requests r).convertMode = i then 1 else 0)) = true) ∧
      grantConversions resId rest m = .ok m') ∨
    ((m.heads resId).conversionsCount ≠ 0 ∧ (m.requests r).status = .STATUS_CONVERTING ∧
      (m.requests r).convertMode ≠ .MODE_NONE ∧
      conflicts (m.requests r).convertMode (grantedModesWithout (m.heads resId).grantedCounts
        fun i => (if (m.requests r).mode = i then 1 else 0) +
          (if (m.requests r).convertMode = i then 1 else 0)) = false ∧
      1 ≤ (m.heads resId).grantedCounts (m.requests r).mode ∧
      ∃ modes, ModesMatch (Function.update (m.heads resId).grantedCounts (m.requests r).mode
          ((m.heads resId).grantedCounts (m.requests r).mode - 1)) modes ∧
        grantConversions resId rest (((m.setHead resId { m.heads resId with
          conversionsCount := (m.heads resId).conversionsCount - 1,
          grantedCounts := Function.update (m.heads resId).grantedCounts (m.requests r).mode
            ((m.heads resId).grantedCounts (m.requests r).mode - 1),
          grantedModes := modes }).setRequest r
          { m.requests r with
            status := .STATUS_GRANTED, mode := (m.requests r).convertMode,
            convertMode := .MODE_NONE }).notify r resId) = .ok m') := by
  rw [grantConversions] at hcall
  split_ifs at hcall with hzero hconv
  · exact .inl ⟨hzero, (pure_eq_ok.mp hcall).symm⟩
  · obtain ⟨_, hnone, hcall⟩ := bind_eq_ok.mp hcall
    rw [invariant_eq_ok] at hnone
    obtain ⟨mask, hmask, hcall⟩ := bind_eq_ok.mp hcall
    rw [conversionMask_eq_ok hmask] at hcall
    dsimp only at hcall
    split at hcall
    · exact .inr (.inl ⟨hzero, .inr ⟨hconv, by assumption⟩, hcall⟩)
    · rename_i hfree
      obtain ⟨L, hL, hcall⟩ := bind_eq_ok.mp hcall
      obtain ⟨hpos, modes, rfl, hmodes⟩ := LockHead.decGrantedModeCount_eq_ok hL h.grantedModes
      exact .inr (.inr ⟨hzero, hconv, hnone, Bool.not_eq_true _ ▸ hfree, hpos, modes, hmodes, hcall⟩)
  · exact .inr (.inl ⟨hzero, .inl hconv, hcall⟩)

/-- The first loop of `_onLockModeChanged`, over a part of the granted list, which it leaves as
it is. -/
theorem grantConversions_safe :
    ∀ {l : List RequestId} {m m' : LockManager}, Inv m → Excl m →
      (∀ q ∈ l, q ∈ (m.heads resId).grantedList) → grantConversions resId l m = .ok m' →
      Inv m' ∧ Excl m'
  | [], m, m', h, he, _, hcall => by
    rw [grantConversions, pure_eq_ok] at hcall
    exact hcall ▸ ⟨h, he⟩
  | r :: rest, m, m', h, he, hl, hcall => by
    have hrest : ∀ q ∈ rest, q ∈ (m.heads resId).grantedList :=
      fun q hq => hl q (List.mem_cons_of_mem r hq)
    rcases grantConversions_cons_eq_ok (h resId) hcall with ⟨-, rfl⟩ | ⟨-, -, hcall⟩ |
        ⟨hzero, hconv, -, hfree, hpos, modes, hmodes, hcall⟩
    · exact ⟨h, he⟩
    · exact grantConversions_safe h he hrest hcall
    · obtain ⟨h₁, he₁⟩ := grantConversion_safe h he (hl r List.mem_cons_self) hconv hzero hfree
        hpos hmodes
      exact grantConversions_safe (h₁.notify r resId) (he₁.notify r resId)
        (fun q hq => by simpa using hrest q hq) hcall

/-- The second scan grants a waiting request that conflicts with no granted mode: it moves from
the conflict list to the end of the granted list. -/
theorem moveToGranted_safe {modes₁ modes₂ : UInt32} (h : Inv m) (he : Excl m)
    (hr : r ∈ (m.heads resId).conflictList)
    (hfree : conflicts (m.requests r).mode (m.heads resId).grantedModes = false)
    (hpos : 1 ≤ (m.heads resId).conflictCounts (m.requests r).mode)
    (hmodes₁ : ModesMatch (Function.update (m.heads resId).conflictCounts (m.requests r).mode
      ((m.heads resId).conflictCounts (m.requests r).mode - 1)) modes₁)
    (hmodes₂ : ModesMatch (Function.update (m.heads resId).grantedCounts (m.requests r).mode
      ((m.heads resId).grantedCounts (m.requests r).mode + 1)) modes₂) (c : Nat) :
    Inv ((m.setHead resId { m.heads resId with
      conflictList := (m.heads resId).conflictList.erase r,
      conflictCounts := Function.update (m.heads resId).conflictCounts (m.requests r).mode
        ((m.heads resId).conflictCounts (m.requests r).mode - 1),
      conflictModes := modes₁, grantedList := (m.heads resId).grantedList ++ [r],
      grantedCounts := Function.update (m.heads resId).grantedCounts (m.requests r).mode
        ((m.heads resId).grantedCounts (m.requests r).mode + 1),
      grantedModes := modes₂, compatibleFirstCount := c }).setRequest r
      { m.requests r with status := .STATUS_GRANTED }) ∧
    Excl ((m.setHead resId { m.heads resId with
      conflictList := (m.heads resId).conflictList.erase r,
      conflictCounts := Function.update (m.heads resId).conflictCounts (m.requests r).mode
        ((m.heads resId).conflictCounts (m.requests r).mode - 1),
      conflictModes := modes₁, grantedList := (m.heads resId).grantedList ++ [r],
      grantedCounts := Function.update (m.heads resId).grantedCounts (m.requests r).mode
        ((m.heads resId).grantedCounts (m.requests r).mode + 1),
      grantedModes := modes₂, compatibleFirstCount := c }).setRequest r
      { m.requests r with status := .STATUS_GRANTED }) := by
  have hon := (h resId).waitingOn r hr
  have hng : r ∉ (m.heads resId).grantedList := fun hg =>
    (h resId).not_mem_conflict_of_mem_granted hg hr
  have hrp : ∀ p, r ∉ (m.partitionHeads p resId).getD [] :=
    (h resId).not_mem_partition_of_mem_conflict hr
  have hcnd := (h resId).conflictNodup
  have hgmem : r ∈ (m.heads resId).grantedList ++ [r] := by simp
  -- a resource with somebody waiting is not partitioned
  have hparts : (m.heads resId).partitions = [] := by
    by_contra hp
    rw [((he resId).partitioned hp).1] at hr
    cases hr
  have hnames := (h resId).namesOnly_of_on (.inr (.inl hr))
  have hf := Frame.setHead_setRequest (L := { m.heads resId with
      conflictList := (m.heads resId).conflictList.erase r,
      conflictCounts := Function.update (m.heads resId).conflictCounts (m.requests r).mode
        ((m.heads resId).conflictCounts (m.requests r).mode - 1),
      conflictModes := modes₁, grantedList := (m.heads resId).grantedList ++ [r],
      grantedCounts := Function.update (m.heads resId).grantedCounts (m.requests r).mode
        ((m.heads resId).grantedCounts (m.requests r).mode + 1),
      grantedModes := modes₂, compatibleFirstCount := c })
    (show NamesOnly { m.requests r with status := .STATUS_GRANTED } resId from
      ⟨hnames.lock, hnames.partitionedLock⟩)
    (h.offLists_of_namesOnly hnames)
  refine ⟨Inv.of_frame h ?_ hf, Excl.of_frame he ((he resId).headStep rfl
    (fun q hq => by simp [hq]) hrp (fun _ q _ hq' => ?_)
    fun hp => absurd hparts hp) hf⟩
  · have hwait := hon.lock
    refine (h resId).headStep rfl ((h resId).grantedNodup.append (List.nodup_singleton r)
      (List.disjoint_singleton.mpr hng)) (hcnd.erase r) (fun q hq => by simp [hq])
      (fun q hq => (List.mem_erase_of_ne hq).trans Iff.rfl)
      (fun _ => ⟨by simpa using hwait, by simpa using hon.partitionedLock, .inl rfl,
        fun hs => by simp at hs⟩) (fun hc => absurd hc (hcnd.not_mem_erase)) (fun e => ?_)
      (fun e => ?_) (by simp [hng, convertingWeight]) hmodes₂ hmodes₁ (fun _ _ _ => hgmem)
      (fun _ _ hs => by simp at hs) hrp (by simpa using hon.partitionedLock)
    · simp only [hng, if_false, Nat.add_zero, hgmem, if_true, grantedWeight, update_succ_apply]
      simp
    · have hdec := update_pred_apply _ hpos e
      simp only [hr, if_true, hcnd.not_mem_erase, if_false, Nat.add_zero, conflictWeight]
      exact hdec
  · -- granted: compatible with the granted mask, and there is no partitioned head
    rcases hq' with hq' | ⟨p, hq'⟩
    · exact (h resId).compatible_of_not_conflicts hq' hfree
    · simp [(h resId).partitionHeads_eq_none hparts p] at hq'

/-- One step of the second loop of `_onLockModeChanged`, read off its code: the request waits; one
that conflicts with the granted modes stops the scan if nothing was skipped and compatible-first
was not just switched on, and is skipped otherwise; any other moves to the end of the granted
list, and a granted `MODE_X` stops the scan. -/
theorem grantWaiting_cons_eq_ok {rest : List RequestId} {hasPrev newlyCompatibleFirst : Bool}
    (h : ResInv m resId)
    (hcall : grantWaiting resId (r :: rest) hasPrev newlyCompatibleFirst m = .ok m') :
    (m.requests r).status = .STATUS_WAITING ∧
    ((conflicts (m.requests r).mode (m.heads resId).grantedModes = true ∧
      ((!hasPrev && !newlyCompatibleFirst) = true ∧ m' = m ∨
        (!hasPrev && !newlyCompatibleFirst) = false ∧
          grantWaiting resId rest true newlyCompatibleFirst m = .ok m')) ∨
    (conflicts (m.requests r).mode (m.heads resId).grantedModes = false ∧
      1 ≤ (m.heads resId).conflictCounts (m.requests r).mode ∧
      ∃ modes₁ modes₂ c m₁,
        ModesMatch (Function.update (m.heads resId).conflictCounts (m.requests r).mode
          ((m.heads resId).conflictCounts (m.requests r).mode - 1)) modes₁ ∧
        ModesMatch (Function.update (m.heads resId).grantedCounts (m.requests r).mode
          ((m.heads resId).grantedCounts (m.requests r).mode + 1)) modes₂ ∧
        m₁ = (m.setHead resId { m.heads resId with
          conflictList := (m.heads resId).conflictList.erase r,
          conflictCounts := Function.update (m.heads resId).conflictCounts (m.requests r).mode
            ((m.heads resId).conflictCounts (m.requests r).mode - 1),
          conflictModes := modes₁, grantedList := (m.heads resId).grantedList ++ [r],
          grantedCounts := Function.update (m.heads resId).grantedCounts (m.requests r).mode
            ((m.heads resId).grantedCounts (m.requests r).mode + 1),
          grantedModes := modes₂, compatibleFirstCount := c }).setRequest r
          { m.requests r with status := .STATUS_GRANTED } ∧
        ((m.requests r).mode = .MODE_X ∧ m' = m₁.notify r resId ∨
          (m.requests r).mode ≠ .MODE_X ∧ grantWaiting resId rest hasPrev
            (newlyCompatibleFirst || ((m.requests r).compatibleFirst &&
              (m.heads resId).compatibleFirstCount == 0)) (m₁.notify r resId) = .ok m'))) := by
  rw [grantWaiting] at hcall
  obtain ⟨_, hwaiting, hcall⟩ := bind_eq_ok.mp hcall
  rw [invariant_eq_ok] at hwaiting
  refine ⟨hwaiting, ?_⟩
  dsimp only at hcall
  split at hcall
  · rename_i hconf
    rcases ite_pure_eq_ok hcall with ⟨hstop, rfl⟩ | ⟨hskip, hcall⟩
    · exact .inl ⟨hconf, .inl ⟨hstop, rfl⟩⟩
    · exact .inl ⟨hconf, .inr ⟨Bool.not_eq_true _ ▸ hskip, hcall⟩⟩
  · rename_i hfree
    obtain ⟨L₁, hL₁, hcall⟩ := bind_eq_ok.mp hcall
    obtain ⟨hpos, modes₁, rfl, hmodes₁⟩ := LockHead.decConflictModeCount_eq_ok hL₁ h.conflictModes
    obtain ⟨L₂, hL₂, hcall⟩ := bind_eq_ok.mp hcall
    obtain ⟨modes₂, rfl, hmodes₂⟩ := LockHead.incGrantedModeCount_eq_ok hL₂ h.grantedModes
    have hfree' := Bool.not_eq_true _ ▸ hfree
    -- the compatible-first count, one up or as it was, only matters to later scans
    by_cases hcf : (m.requests r).compatibleFirst = true
    · rw [if_pos hcf] at hcall
      exact .inr ⟨hfree', hpos, modes₁, modes₂, _, _, hmodes₁, hmodes₂, rfl, ite_pure_eq_ok hcall⟩
    · rw [if_neg hcf] at hcall
      exact .inr ⟨hfree', hpos, modes₁, modes₂, _, _, hmodes₁, hmodes₂, rfl, ite_pure_eq_ok hcall⟩

/-- The second loop of `_onLockModeChanged`, over the waiting requests it has not yet looked at,
each still waiting. -/
theorem grantWaiting_safe :
    ∀ {l : List RequestId} {hasPrev newlyCompatibleFirst : Bool} {m m' : LockManager},
      Inv m → Excl m → l.Nodup → (∀ q ∈ l, q ∈ (m.heads resId).conflictList) →
      grantWaiting resId l hasPrev newlyCompatibleFirst m = .ok m' → Inv m' ∧ Excl m'
  | [], _, _, m, m', h, he, _, _, hcall => by
    rw [grantWaiting, pure_eq_ok] at hcall
    exact hcall ▸ ⟨h, he⟩
  | r :: rest, hasPrev, ncf, m, m', h, he, hnd, hl, hcall => by
    obtain ⟨hnr, hnd'⟩ := List.nodup_cons.mp hnd
    have hrest : ∀ q ∈ rest, q ∈ (m.heads resId).conflictList :=
      fun q hq => hl q (List.mem_cons_of_mem r hq)
    obtain ⟨-, ⟨-, ⟨-, rfl⟩ | ⟨-, hcall⟩⟩ |
        ⟨hfree, hpos, modes₁, modes₂, c, m₁, hmodes₁, hmodes₂, rfl, hnext⟩⟩ :=
      grantWaiting_cons_eq_ok (h resId) hcall
    · exact ⟨h, he⟩
    · exact grantWaiting_safe h he hnd' hrest hcall
    · obtain ⟨h₁, he₁⟩ := moveToGranted_safe h he (hl r List.mem_cons_self) hfree hpos hmodes₁
        hmodes₂ c
      rcases hnext with ⟨-, rfl⟩ | ⟨-, hcall⟩
      · exact ⟨h₁.notify r resId, he₁.notify r resId⟩
      · refine grantWaiting_safe (h₁.notify r resId) (he₁.notify r resId) hnd' (fun q hq => ?_) hcall
        have hqr : q ≠ r := fun hqr => hnr (hqr ▸ hq)
        simpa using (List.mem_erase_of_ne hqr).mpr (hrest q hq)

/-- What `_onLockModeChanged` does, read off its code: its first loop runs over the granted list,
and its second, when asked for, over the conflict list of the state the first leaves; the closing
checks of the masks change nothing. -/
theorem onLockModeChanged_eq_ok {checkConflictQueue : Bool}
    (hcall : m.onLockModeChanged resId checkConflictQueue = .ok m') :
    ∃ m₁, grantConversions resId (m.heads resId).grantedList m = .ok m₁ ∧
      (checkConflictQueue = true ∧
          grantWaiting resId (m₁.heads resId).conflictList false false m₁ = .ok m' ∨
        checkConflictQueue = false ∧ m' = m₁) := by
  unfold onLockModeChanged at hcall
  obtain ⟨m₁, hconv, hcall⟩ := bind_eq_ok.mp hcall
  refine ⟨m₁, hconv, ?_⟩
  split at hcall
  · rename_i hcheck
    obtain ⟨m₂, hwait, hcall⟩ := bind_eq_ok.mp hcall
    obtain ⟨_, -, hcall⟩ := bind_eq_ok.mp hcall
    obtain ⟨_, -, hcall⟩ := bind_eq_ok.mp hcall
    rw [pure_eq_ok] at hcall
    exact .inl ⟨hcheck, hcall ▸ hwait⟩
  · rename_i hcheck
    rw [pure_bind] at hcall
    obtain ⟨_, -, hcall⟩ := bind_eq_ok.mp hcall
    obtain ⟨_, -, hcall⟩ := bind_eq_ok.mp hcall
    rw [pure_eq_ok] at hcall
    exact .inr ⟨by simpa using hcheck, hcall.symm⟩

/-- `_onLockModeChanged` keeps the invariant and mutual exclusion. -/
theorem onLockModeChanged_safe {checkConflictQueue : Bool} (h : Inv m) (he : Excl m)
    (hcall : m.onLockModeChanged resId checkConflictQueue = .ok m') : Inv m' ∧ Excl m' := by
  obtain ⟨m₁, hconv, ⟨-, hwait⟩ | ⟨-, rfl⟩⟩ := onLockModeChanged_eq_ok hcall
  · obtain ⟨h₁, he₁⟩ := grantConversions_safe h he (fun q hq => hq) hconv
    exact grantWaiting_safe h₁ he₁ (h₁ resId).conflictNodup (fun q hq => hq) hwait
  · exact grantConversions_safe h he (fun q hq => hq) hconv

/-! ### `unlock` -/

/-- A head write that changes no request keeps the invariant of the resource when it passes the
conditions of `ResInv.headStep` for the request `r` as it is. -/
theorem ResInv.setHead_of_step {L : LockHead} (hres : ResInv ((m.setHead resId L).setRequest r
    (m.requests r)) resId) : ResInv (m.setHead resId L) resId := by
  have hself : (m.setHead resId L).setRequest r (m.requests r) = m.setHead resId L :=
    setRequest_self _ r
  rwa [hself] at hres

/-- A granted request released for the last time leaves the granted list. -/
theorem eraseGranted_safe {modes : UInt32} (h : Inv m) (he : Excl m)
    (hr : r ∈ (m.heads resId).grantedList) (hstatus : (m.requests r).status = .STATUS_GRANTED)
    (hcount : (m.requests r).recursiveCount = 0)
    (hpos : 1 ≤ (m.heads resId).grantedCounts (m.requests r).mode)
    (hmodes : ModesMatch (Function.update (m.heads resId).grantedCounts (m.requests r).mode
      ((m.heads resId).grantedCounts (m.requests r).mode - 1)) modes) (c : Nat) :
    Inv (m.setHead resId { m.heads resId with
      grantedList := (m.heads resId).grantedList.erase r,
      grantedCounts := Function.update (m.heads resId).grantedCounts (m.requests r).mode
        ((m.heads resId).grantedCounts (m.requests r).mode - 1),
      grantedModes := modes, compatibleFirstCount := c }) ∧
    Excl (m.setHead resId { m.heads resId with
      grantedList := (m.heads resId).grantedList.erase r,
      grantedCounts := Function.update (m.heads resId).grantedCounts (m.requests r).mode
        ((m.heads resId).grantedCounts (m.requests r).mode - 1),
      grantedModes := modes, compatibleFirstCount := c }) := by
  have hgnd := (h resId).grantedNodup
  have hnc : r ∉ (m.heads resId).conflictList := (h resId).not_mem_conflict_of_mem_granted hr
  refine ⟨Inv.of_frame h (ResInv.setHead_of_step (r := r) ?_) (Frame.setHead _),
    Excl.of_frame he ?_ (Frame.setHead _)⟩
  · refine (h resId).headStep rfl (hgnd.erase r) (h resId).conflictNodup
      (fun q hq => List.mem_erase_of_ne hq) (fun q _ => Iff.rfl)
      (fun hr' => absurd hr' hgnd.not_mem_erase) (fun hc => absurd hc hnc) (fun e => ?_)
      (fun e => rfl) ?_ hmodes (h resId).conflictModes (fun _ hc => by omega) (fun _ hc => by omega)
      ((h resId).not_mem_partition_of_mem_granted hr) ((h resId).grantedOn r hr).partitionedLock
    · -- the released request held its mode once, and converted to nothing
      have hdec := update_pred_apply _ hpos e
      simp only [hr, if_true, hgnd.not_mem_erase, if_false, Nat.add_zero, grantedWeight, hstatus,
        reduceCtorEq, false_and]
      exact hdec
    · simp [hr, hgnd.not_mem_erase, convertingWeight, hstatus]
  · -- the holders left are holders of `m`, with the same requests
    refine (he resId).of_sub (fun q hq => List.mem_of_mem_erase (by simpa using hq))
      (fun q hq => by simpa using hq) (fun p q hq => hq) (fun hp => by simpa using hp)
      fun q _ => ⟨rfl, rfl, rfl⟩

/-- A waiting request released leaves the conflict list. -/
theorem eraseWaiting_safe {modes : UInt32} (h : Inv m) (he : Excl m)
    (hr : r ∈ (m.heads resId).conflictList) (hcount : (m.requests r).recursiveCount = 0)
    (hpos : 1 ≤ (m.heads resId).conflictCounts (m.requests r).mode)
    (hmodes : ModesMatch (Function.update (m.heads resId).conflictCounts (m.requests r).mode
      ((m.heads resId).conflictCounts (m.requests r).mode - 1)) modes) :
    Inv (m.setHead resId { m.heads resId with
      conflictList := (m.heads resId).conflictList.erase r,
      conflictCounts := Function.update (m.heads resId).conflictCounts (m.requests r).mode
        ((m.heads resId).conflictCounts (m.requests r).mode - 1),
      conflictModes := modes }) ∧
    Excl (m.setHead resId { m.heads resId with
      conflictList := (m.heads resId).conflictList.erase r,
      conflictCounts := Function.update (m.heads resId).conflictCounts (m.requests r).mode
        ((m.heads resId).conflictCounts (m.requests r).mode - 1),
      conflictModes := modes }) := by
  have hcnd := (h resId).conflictNodup
  have hng : r ∉ (m.heads resId).grantedList := fun hg =>
    (h resId).not_mem_conflict_of_mem_granted hg hr
  refine ⟨Inv.of_frame h (ResInv.setHead_of_step (r := r) ?_) (Frame.setHead _),
    Excl.of_frame he ?_ (Frame.setHead _)⟩
  · refine (h resId).headStep rfl (h resId).grantedNodup (hcnd.erase r) (fun q _ => Iff.rfl)
      (fun q hq => List.mem_erase_of_ne hq) (fun hg => absurd hg hng)
      (fun hr' => absurd hr' hcnd.not_mem_erase) (fun e => rfl) (fun e => ?_) rfl
      (h resId).grantedModes hmodes (fun _ hc => by omega) (fun _ hc => by omega)
      ((h resId).not_mem_partition_of_mem_conflict hr) ((h resId).waitingOn r hr).partitionedLock
    have hdec := update_pred_apply _ hpos e
    simp only [hr, if_true, hcnd.not_mem_erase, if_false, Nat.add_zero, conflictWeight]
    exact hdec
  · refine (he resId).of_sub (fun q hq => by simpa using hq)
      (fun q hq => List.mem_of_mem_erase (by simpa using hq)) (fun p q hq => hq)
      (fun hp => by simpa using hp) fun q _ => ⟨rfl, rfl, rfl⟩

/-- A converting request released while it still holds the resource goes back to its granted
mode: the mode it converted to leaves the count. -/
theorem cancelConversion_safe {modes : UInt32} (h : Inv m) (he : Excl m)
    (hr : r ∈ (m.heads resId).grantedList) (hconv : (m.requests r).status = .STATUS_CONVERTING)
    (hk : 0 < (m.heads resId).conversionsCount)
    (hpos : 1 ≤ (m.heads resId).grantedCounts (m.requests r).convertMode)
    (hmodes : ModesMatch (Function.update (m.heads resId).grantedCounts (m.requests r).convertMode
      ((m.heads resId).grantedCounts (m.requests r).convertMode - 1)) modes) :
    Inv ((m.setHead resId { m.heads resId with
      conversionsCount := (m.heads resId).conversionsCount - 1,
      grantedCounts := Function.update (m.heads resId).grantedCounts (m.requests r).convertMode
        ((m.heads resId).grantedCounts (m.requests r).convertMode - 1),
      grantedModes := modes }).setRequest r
      { m.requests r with status := .STATUS_GRANTED, convertMode := .MODE_NONE }) ∧
    Excl ((m.setHead resId { m.heads resId with
      conversionsCount := (m.heads resId).conversionsCount - 1,
      grantedCounts := Function.update (m.heads resId).grantedCounts (m.requests r).convertMode
        ((m.heads resId).grantedCounts (m.requests r).convertMode - 1),
      grantedModes := modes }).setRequest r
      { m.requests r with status := .STATUS_GRANTED, convertMode := .MODE_NONE }) := by
  set req' : LockRequest :=
    { m.requests r with status := .STATUS_GRANTED, convertMode := .MODE_NONE }
  have hon' : GrantedOn req' resId := ((h resId).grantedOn r hr).granted rfl rfl rfl
  have hf := Frame.setHead_setGranted (L := { m.heads resId with
      conversionsCount := (m.heads resId).conversionsCount - 1,
      grantedCounts := Function.update (m.heads resId).grantedCounts (m.requests r).convertMode
        ((m.heads resId).grantedCounts (m.requests r).convertMode - 1),
      grantedModes := modes }) h hr hon'
  refine ⟨Inv.of_frame h ((h resId).change_granted hr hon' (fun e => ?_) hmodes ?_) hf,
    Excl.of_frame he ((he resId).headStep rfl (fun q _ => Iff.rfl)
      (fun p hp => (h resId).not_mem_partition_of_mem_granted hr p hp)
      (fun _ q hq hq' => (he resId).compatible r q (Ne.symm hq) (.inl hr) hq') fun hp => ?_) hf⟩
  · -- the request keeps the share of the mode it holds and drops that of the conversion
    have hdec := update_pred_apply _ hpos e
    simp only [grantedWeight, req', hconv, true_and, reduceCtorEq, false_and, if_false,
      Nat.add_zero]
    omega
  · simp [convertingWeight, hconv, req']
    omega
  · obtain ⟨hcl, hgl⟩ := (he resId).partitioned hp
    exact ⟨hcl, fun _ => ⟨(hgl r hr).1, fun hs => by simp [req'] at hs⟩⟩

/-- A request that `unlock` hands to the `LockHead` of `resId`: it is on the list its status names
and, if granted, released for the last time. -/
structure Releasing (m : LockManager) (resId : ResourceId) (r : RequestId) : Prop where
  granted : (m.requests r).status = .STATUS_GRANTED ∨ (m.requests r).status = .STATUS_CONVERTING →
    r ∈ (m.heads resId).grantedList
  waiting : (m.requests r).status = .STATUS_WAITING → r ∈ (m.heads resId).conflictList
  last : (m.requests r).status = .STATUS_GRANTED → (m.requests r).recursiveCount = 0

/-- What the part of `unlock` past its fast paths does, read off its code, by the status of the
request: a granted one leaves the granted list, and the conflict list is re-scanned if nobody
else holds its mode; a waiting one, released for the last time, leaves the conflict list, which
is re-scanned; a converting one goes back to the mode it holds, and the conflict list is
re-scanned if nobody holds `MODE_NONE`, the count the code reads. -/
theorem unlockOnHead_eq_ok (h : ResInv m resId) (hcall : m.unlockOnHead resId r = .ok m') :
    ((m.requests r).status = .STATUS_GRANTED ∧ 1 ≤ (m.heads resId).grantedCounts (m.requests r).mode ∧
      ∃ modes c, ModesMatch (Function.update (m.heads resId).grantedCounts (m.requests r).mode
          ((m.heads resId).grantedCounts (m.requests r).mode - 1)) modes ∧
        (m.setHead resId { m.heads resId with
          grantedList := (m.heads resId).grantedList.erase r,
          grantedCounts := Function.update (m.heads resId).grantedCounts (m.requests r).mode
            ((m.heads resId).grantedCounts (m.requests r).mode - 1),
          grantedModes := modes, compatibleFirstCount := c }).onLockModeChanged resId
            ((m.heads resId).grantedCounts (m.requests r).mode - 1 == 0) = .ok m') ∨
    ((m.requests r).status = .STATUS_WAITING ∧ (m.requests r).recursiveCount = 0 ∧
      1 ≤ (m.heads resId).conflictCounts (m.requests r).mode ∧
      ∃ modes, ModesMatch (Function.update (m.heads resId).conflictCounts (m.requests r).mode
          ((m.heads resId).conflictCounts (m.requests r).mode - 1)) modes ∧
        (m.setHead resId { m.heads resId with
          conflictList := (m.heads resId).conflictList.erase r,
          conflictCounts := Function.update (m.heads resId).conflictCounts (m.requests r).mode
            ((m.heads resId).conflictCounts (m.requests r).mode - 1),
          conflictModes := modes }).onLockModeChanged resId true = .ok m') ∨
    ((m.requests r).status = .STATUS_CONVERTING ∧ 0 < (m.requests r).recursiveCount ∧
      0 < (m.heads resId).conversionsCount ∧
      1 ≤ (m.heads resId).grantedCounts (m.requests r).convertMode ∧
      ∃ modes, ModesMatch (Function.update (m.heads resId).grantedCounts (m.requests r).convertMode
          ((m.heads resId).grantedCounts (m.requests r).convertMode - 1)) modes ∧
        ((m.setHead resId { m.heads resId with
          conversionsCount := (m.heads resId).conversionsCount - 1,
          grantedCounts := Function.update (m.heads resId).grantedCounts (m.requests r).convertMode
            ((m.heads resId).grantedCounts (m.requests r).convertMode - 1),
          grantedModes := modes }).setRequest r
          { m.requests r with status := .STATUS_GRANTED, convertMode := .MODE_NONE }).onLockModeChanged
            resId (Function.update (m.heads resId).grantedCounts (m.requests r).convertMode
              ((m.heads resId).grantedCounts (m.requests r).convertMode - 1) .MODE_NONE == 0) =
            .ok m') := by
  unfold unlockOnHead at hcall
  dsimp only at hcall
  split at hcall
  · rename_i hstatus
    obtain ⟨L, hL, hcall⟩ := bind_eq_ok.mp hcall
    obtain ⟨hpos, modes, rfl, hmodes⟩ := LockHead.decGrantedModeCount_eq_ok hL h.grantedModes
    refine .inl ⟨hstatus, hpos, modes, ?_⟩
    -- the compatible-first count, one down or as it was, only matters to later scans
    split at hcall
    · obtain ⟨_, -, hcall⟩ := bind_eq_ok.mp hcall
      obtain ⟨_, -, hcall⟩ := bind_eq_ok.mp hcall
      rw [pure_bind] at hcall
      exact ⟨(m.heads resId).compatibleFirstCount - 1, hmodes,
        by simpa only [Function.update_self] using hcall⟩
    · rw [pure_bind] at hcall
      exact ⟨(m.heads resId).compatibleFirstCount, hmodes,
        by simpa only [Function.update_self] using hcall⟩
  · rename_i hstatus
    obtain ⟨_, hzero, hcall⟩ := bind_eq_ok.mp hcall
    rw [invariant_eq_ok] at hzero
    obtain ⟨L, hL, hcall⟩ := bind_eq_ok.mp hcall
    obtain ⟨hpos, modes, rfl, hmodes⟩ := LockHead.decConflictModeCount_eq_ok hL h.conflictModes
    exact .inr (.inl ⟨hstatus, hzero, hpos, modes, hmodes, hcall⟩)
  · rename_i hstatus
    obtain ⟨_, hcount, hcall⟩ := bind_eq_ok.mp hcall
    obtain ⟨_, hk, hcall⟩ := bind_eq_ok.mp hcall
    rw [invariant_eq_ok] at hcount hk
    obtain ⟨L, hL, hcall⟩ := bind_eq_ok.mp hcall
    obtain ⟨hpos, modes, rfl, hmodes⟩ := LockHead.decGrantedModeCount_eq_ok hL h.grantedModes
    exact .inr (.inr ⟨hstatus, hcount, hk, hpos, modes, hmodes, hcall⟩)
  · cases hcall

/-- The part of `unlock` past its fast paths keeps the invariant and mutual exclusion. -/
theorem unlockOnHead_safe (h : Inv m) (he : Excl m) (hrel : Releasing m resId r)
    (hcall : m.unlockOnHead resId r = .ok m') : Inv m' ∧ Excl m' := by
  rcases unlockOnHead_eq_ok (h resId) hcall with ⟨hstatus, hpos, modes, c, hmodes, hcall⟩ |
      ⟨hstatus, hzero, hpos, modes, hmodes, hcall⟩ | ⟨hstatus, -, hk, hpos, modes, hmodes, hcall⟩
  · obtain ⟨h₁, he₁⟩ := eraseGranted_safe h he (hrel.granted (.inl hstatus)) hstatus
      (hrel.last hstatus) hpos hmodes c
    exact onLockModeChanged_safe h₁ he₁ hcall
  · obtain ⟨h₁, he₁⟩ := eraseWaiting_safe h he (hrel.waiting hstatus) hzero hpos hmodes
    exact onLockModeChanged_safe h₁ he₁ hcall
  · obtain ⟨h₁, he₁⟩ := cancelConversion_safe h he (hrel.granted (.inr hstatus)) hstatus hk hpos
      hmodes
    exact onLockModeChanged_safe h₁ he₁ hcall

/-- A check made only on one branch passes through to what follows it. -/
theorem ok_of_ite_invariant {c P : Prop} [Decidable c] [Decidable P] {α : Type}
    {k : Except LockError α} {v : α} (h : (if c then invariant P >>= fun _ => k else k) = .ok v) :
    k = .ok v := by
  split at h
  · obtain ⟨_, -, h⟩ := bind_eq_ok.mp h
    exact h
  · exact h

/-- What `unlock` does, read off its code: it counts the request down; a request still granted and
held returns there; one still partitioned leaves its partitioned head; any other goes to the
`LockHead` of the resource it names. -/
theorem unlock_eq_ok {released : Bool} (hcall : m.unlock r = .ok (m', released)) :
    0 < (m.requests r).recursiveCount ∧ ∃ m₁, m₁ = m.setRequest r
        { m.requests r with recursiveCount := (m.requests r).recursiveCount - 1 } ∧
      ((m.requests r).status = .STATUS_GRANTED ∧ 0 < (m.requests r).recursiveCount - 1 ∧ m' = m₁ ∨
        ¬((m.requests r).status = .STATUS_GRANTED ∧ 0 < (m.requests r).recursiveCount - 1) ∧
          ((∃ p x, (m.requests r).partitioned = true ∧ (m.requests r).partitionedLock = some (p, x) ∧
              m' = m₁.setPartitionHead p x ((m₁.partitionHeads p x).map fun l => l.erase r)) ∨
            ∃ x, (m.requests r).lock = some x ∧ m₁.unlockOnHead x r = .ok m')) := by
  unfold LockManager.unlock at hcall
  obtain ⟨_, hpos, hcall⟩ := bind_eq_ok.mp hcall
  rw [invariant_eq_ok] at hpos
  refine ⟨hpos, _, rfl, ?_⟩
  dsimp only at hcall
  rcases ite_pure_eq_ok hcall with ⟨hheld, hm⟩ | ⟨hlast, hcall⟩
  · exact .inl ⟨hheld.1, hheld.2, (Prod.mk.inj hm).1⟩
  refine .inr ⟨hlast, ?_⟩
  have hcall := ok_of_ite_invariant hcall
  split at hcall
  · rename_i p x hpart hpl
    rw [pure_eq_ok, Prod.mk.injEq] at hcall
    exact .inl ⟨p, x, hpart, hpl, hcall.1.symm⟩
  · split at hcall
    · cases hcall
    · rename_i x hlock
      obtain ⟨m₂, hhead, hcall⟩ := bind_eq_ok.mp hcall
      rw [pure_eq_ok, Prod.mk.injEq] at hcall
      exact .inr ⟨x, hlock, hcall.1 ▸ hhead⟩

/-- A request that `unlock` hands to the `LockHead` is on the list its status names, as it holds
the resource, and a granted one is released for the last time, as it did not return before. -/
theorem Releasing.of_unlock (h : Inv m) (hpos : 0 < (m.requests r).recursiveCount)
    {x : ResourceId} (hlock : (m.requests r).lock = some x)
    (hlast : ¬((m.requests r).status = .STATUS_GRANTED ∧ 0 < (m.requests r).recursiveCount - 1)) :
    Releasing (m.setRequest r
      { m.requests r with recursiveCount := (m.requests r).recursiveCount - 1 }) x r := by
  refine ⟨fun hs => ?_, fun hs => ?_, fun hs => ?_⟩
  · simp only [setRequest_requests, setRequest_heads, Function.update_self] at hs ⊢
    exact (h x).memGranted r hlock hpos hs
  · simp only [setRequest_requests, setRequest_heads, Function.update_self] at hs ⊢
    exact (h x).memConflict r hlock hpos hs
  · simp only [setRequest_requests, Function.update_self] at hs ⊢
    simp only [hs, true_and, not_lt, Nat.le_zero] at hlast
    exact hlast

/-- `unlock` keeps the invariant and mutual exclusion. -/
theorem unlock_safe {released : Bool} (h : Inv m) (he : Excl m)
    (hcall : m.unlock r = .ok (m', released)) : Inv m' ∧ Excl m' := by
  obtain ⟨hpos, _, rfl, hpath⟩ := unlock_eq_ok hcall
  set m₁ := m.setRequest r
    { m.requests r with recursiveCount := (m.requests r).recursiveCount - 1 }
  have h₁ : Inv m₁ := fun x => (h x).setRequest_same rfl rfl rfl rfl rfl fun _ => hpos
  have he₁ : Excl m₁ := fun x => (he x).setRequest_same rfl rfl rfl
  rcases hpath with ⟨-, -, rfl⟩ | ⟨hlast, ⟨p, x, -, hpl, rfl⟩ | ⟨x, hlock, hhead⟩⟩
  · -- released but still held: only the count went down
    exact ⟨h₁, he₁⟩
  · -- still partitioned: off the partitioned head, for the last time
    have hr := (h x).memPartition r p hpl hpos
    have hstatus := ((h x).partitionedOn p r hr).status
    have hzero : (m₁.requests r).recursiveCount = 0 := by
      simp only [hstatus, true_and, not_lt, Nat.le_zero] at hlast
      simpa [m₁] using hlast
    have hf : Frame x m₁ (m₁.setPartitionHead p x ((m₁.partitionHeads p x).map fun l => l.erase r)) :=
      Frame.setPartitionHead _ _
    refine ⟨Inv.of_frame h₁ ((h₁ x).erasePartitioned hzero p) hf,
      Excl.of_frame he₁ ((he₁ x).of_sub (fun q hq => hq) (fun q hq => hq) (fun p' q hq => ?_)
        id fun q _ => ⟨rfl, rfl, rfl⟩) hf⟩
    simp only [setPartitionHead_apply] at hq
    split_ifs at hq with hpp
    · obtain ⟨rfl, -⟩ := hpp
      rw [ResInv.getD_map_erase] at hq
      exact List.mem_of_mem_erase hq
    · exact hq
  · -- on the `LockHead` of the resource it names
    exact unlockOnHead_safe h₁ he₁ (Releasing.of_unlock h hpos hlock hlast) hhead

/-! ### `downgrade` -/

/-- What `downgrade` does, read off its code: the request is granted on the `LockHead` of the
resource it names, and the new mode has no conflict the old one lacks; the count moves from the
old mode to the new one, and the conflict list is re-scanned. -/
theorem downgrade_eq_ok {newMode : LockMode} (h : Inv m) (hcall : m.downgrade r newMode = .ok m') :
    ∃ resId modes, r ∈ (m.heads resId).grantedList ∧ (m.requests r).status = .STATUS_GRANTED ∧
      (LockConflictsTable (m.requests r).mode ||| LockConflictsTable newMode) =
        LockConflictsTable (m.requests r).mode ∧
      1 ≤ Function.update (m.heads resId).grantedCounts newMode
        ((m.heads resId).grantedCounts newMode + 1) (m.requests r).mode ∧
      ModesMatch (Function.update (Function.update (m.heads resId).grantedCounts newMode
        ((m.heads resId).grantedCounts newMode + 1)) (m.requests r).mode
        (Function.update (m.heads resId).grantedCounts newMode
          ((m.heads resId).grantedCounts newMode + 1) (m.requests r).mode - 1)) modes ∧
      ((m.setHead resId { m.heads resId with
        grantedCounts := Function.update (Function.update (m.heads resId).grantedCounts newMode
          ((m.heads resId).grantedCounts newMode + 1)) (m.requests r).mode
          (Function.update (m.heads resId).grantedCounts newMode
            ((m.heads resId).grantedCounts newMode + 1) (m.requests r).mode - 1),
        grantedModes := modes }).setRequest r { m.requests r with mode := newMode }).onLockModeChanged
          resId true = .ok m' := by
  unfold downgrade at hcall
  dsimp only at hcall
  split at hcall
  · cases hcall
  rename_i resId hlock
  obtain ⟨_, hstatus, hcall⟩ := bind_eq_ok.mp hcall
  obtain ⟨_, hcount, hcall⟩ := bind_eq_ok.mp hcall
  obtain ⟨_, hdown, hcall⟩ := bind_eq_ok.mp hcall
  rw [invariant_eq_ok] at hstatus hcount hdown
  obtain ⟨L₁, hL₁, hcall⟩ := bind_eq_ok.mp hcall
  obtain ⟨modes₁, rfl, hmodes₁⟩ := LockHead.incGrantedModeCount_eq_ok hL₁ (h resId).grantedModes
  obtain ⟨L₂, hL₂, hcall⟩ := bind_eq_ok.mp hcall
  obtain ⟨hpos, modes₂, rfl, hmodes₂⟩ := LockHead.decGrantedModeCount_eq_ok hL₂ hmodes₁
  -- a granted request that holds the resource is on its granted list
  exact ⟨resId, modes₂, (h resId).memGranted r hlock hcount (.inl hstatus), hstatus, hdown, hpos,
    hmodes₂, hcall⟩

/-- `downgrade` keeps the invariant and mutual exclusion: the new mode has no conflict the old one
lacks, so it is compatible with whatever the old one was. -/
theorem downgrade_safe {newMode : LockMode} (h : Inv m) (he : Excl m)
    (hcall : m.downgrade r newMode = .ok m') : Inv m' ∧ Excl m' := by
  obtain ⟨resId, modes, hr, hstatus, hdown, hpos, hmodes, hcall⟩ := downgrade_eq_ok h hcall
  obtain ⟨h₁, he₁⟩ := changeMode_safe h he hr hstatus hpos hmodes
    (fun q hq hq' => conflictsWith_of_downgrade hdown ((he resId).compatible r q (Ne.symm hq) (.inl hr) hq'))
    fun hp => intentCompatible_of_downgrade hdown (((he resId).partitioned hp).2 r hr).1
  exact onLockModeChanged_safe h₁ he₁ hcall

end Concurrency

end Mongo
