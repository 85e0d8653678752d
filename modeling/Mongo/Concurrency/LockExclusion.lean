import Mongo.Concurrency.LockSteps

/-! Mutual exclusion: two requests that hold a resource hold compatible modes. A request holds a
resource while it is on the granted list of its `LockHead`, granted or converting (in its old
mode), or on one of its partitioned heads. The partitioned heads hold intent modes only, and
while a resource has partitions its `LockHead` holds and converts to modes compatible with both
intent modes and has nobody waiting: `ExclAt` carries these two facts beside the exclusion, as
the fast path of `lock` grants on a partitioned head without looking at the `LockHead`.

Each write of `LockSteps` keeps `ExclAt` given what the call checked before it: the lemmas here
take that check as a hypothesis. -/

namespace Mongo

namespace Concurrency

open LockMode Tally LockManager

/-- A request holds a resource. -/
def Holds (m : LockManager) (resId : ResourceId) (r : RequestId) : Prop :=
  r ∈ (m.heads resId).grantedList ∨ ∃ p, r ∈ (m.partitionHeads p resId).getD []

/-- A mode that conflicts with neither intent mode. -/
def intentCompatible (mode : LockMode) : Bool :=
  !conflictsWith mode .MODE_IS && !conflictsWith mode .MODE_IX

/-- The modes of requests on a partitioned head. -/
def IsIntent (mode : LockMode) : Prop := mode = .MODE_IS ∨ mode = .MODE_IX

/-- Mutual exclusion at a resource, with what the fast path of `lock` relies on. -/
structure ExclAt (m : LockManager) (resId : ResourceId) : Prop where
  compatible : ∀ q₁ q₂, q₁ ≠ q₂ → Holds m resId q₁ → Holds m resId q₂ →
    conflictsWith (m.requests q₁).mode (m.requests q₂).mode = false
  partitionedIntent : ∀ p, ∀ q ∈ (m.partitionHeads p resId).getD [], IsIntent (m.requests q).mode
  partitioned : (m.heads resId).partitions ≠ [] → (m.heads resId).conflictList = [] ∧
    ∀ q ∈ (m.heads resId).grantedList, intentCompatible (m.requests q).mode = true ∧
      ((m.requests q).status = .STATUS_CONVERTING →
        intentCompatible (m.requests q).convertMode = true)

/-- Mutual exclusion at every resource. -/
def Excl (m : LockManager) : Prop := ∀ resId, ExclAt m resId

/-! ### Modes -/

theorem conflictsWith_of_isIntent {a b : LockMode} (ha : IsIntent a) (hb : IsIntent b) :
    conflictsWith a b = false := by
  rcases ha with rfl | rfl <;> rcases hb with rfl | rfl <;> decide

theorem intentCompatible_of_isIntent {a : LockMode} (ha : IsIntent a) : intentCompatible a = true := by
  rcases ha with rfl | rfl <;> decide

/-- A mode compatible with both intent modes is compatible with any mode of a partitioned head. -/
theorem conflictsWith_of_intentCompatible {a b : LockMode} (ha : intentCompatible a = true)
    (hb : IsIntent b) : conflictsWith a b = false := by
  simp only [intentCompatible, Bool.and_eq_true, Bool.not_eq_eq_eq_not, Bool.not_true] at ha
  rcases hb with rfl | rfl
  · exact ha.1
  · exact ha.2

/-- A downgrade only drops conflicts: a mode compatible with the old one is compatible with the
new one. -/
theorem conflictsWith_of_downgrade {a b : LockMode}
    (hdown : (LockConflictsTable a ||| LockConflictsTable b) = LockConflictsTable a) {e : LockMode}
    (he : conflictsWith a e = false) : conflictsWith b e = false := by
  have hdown' : (LockConflictsTable b ||| LockConflictsTable a) = LockConflictsTable a := by
    rw [UInt32.or_comm]
    exact hdown
  cases hb : conflictsWith b e
  · rfl
  · -- whatever conflicts with the new mode conflicts with the old one
    have hold := conflictsWith_of_upgrade hdown' (by rwa [conflictsWith_comm] at hb)
    rw [conflictsWith_comm, he] at hold
    cases hold

/-- A downgrade keeps a mode compatible with the intent modes. -/
theorem intentCompatible_of_downgrade {a b : LockMode}
    (hdown : (LockConflictsTable a ||| LockConflictsTable b) = LockConflictsTable a)
    (ha : intentCompatible a = true) : intentCompatible b = true := by
  simp only [intentCompatible, Bool.and_eq_true, Bool.not_eq_eq_eq_not, Bool.not_true] at ha ⊢
  exact ⟨conflictsWith_of_downgrade hdown ha.1, conflictsWith_of_downgrade hdown ha.2⟩

/-- The modes held by a mask with no bit outside the intent modes. -/
theorem isIntent_of_hasMode {x : UInt32} (hx : (x &&& ~~~intentModes) = 0) {e : LockMode}
    (he : hasMode x e = true) : IsIntent e := by
  have hbit := congrArg (fun y => hasMode y e) hx
  simp only [hasMode_and, hasMode_not, he, Bool.true_and, hasMode_zero] at hbit
  cases e
  · simp [intentModes] at hbit
  · exact .inl rfl
  · exact .inr rfl
  · simp [intentModes] at hbit
  · simp [intentModes] at hbit

/-! ### What the counts say of the modes held -/

namespace ResInv

variable {m : LockManager} {resId : ResourceId}

/-- The mode of a request on the granted list has its bit set in the granted mask. -/
theorem hasMode_granted (h : ResInv m resId) {q : RequestId}
    (hq : q ∈ (m.heads resId).grantedList) :
    hasMode (m.heads resId).grantedModes (m.requests q).mode = true := by
  rw [h.grantedModes, decide_eq_true_eq, h.grantedCounts]
  refine lt_of_lt_of_le ?_ (le_tally hq)
  simp [grantedWeight]

/-- The modes converted to on the granted list have their bits set in the granted mask too. -/
theorem hasMode_converting (h : ResInv m resId) {q : RequestId}
    (hq : q ∈ (m.heads resId).grantedList) (hs : (m.requests q).status = .STATUS_CONVERTING) :
    hasMode (m.heads resId).grantedModes (m.requests q).convertMode = true := by
  rw [h.grantedModes, decide_eq_true_eq, h.grantedCounts]
  refine lt_of_lt_of_le ?_ (le_tally hq)
  simp [grantedWeight, hs]

/-- A mode that does not conflict with the granted mask is compatible with every mode held on
the granted list. -/
theorem compatible_of_not_conflicts (h : ResInv m resId) {q : RequestId}
    (hq : q ∈ (m.heads resId).grantedList) {a : LockMode}
    (ha : conflicts a (m.heads resId).grantedModes = false) :
    conflictsWith a (m.requests q).mode = false := by
  by_contra hc
  rw [Bool.not_eq_false] at hc
  have hconf := (conflicts_iff a _).mpr ⟨_, hc, h.hasMode_granted hq⟩
  rw [ha] at hconf
  cases hconf

/-- A mode that does not conflict with the modes held apart from request `r`'s own share is
compatible with the mode held by any other request on the granted list. -/
theorem compatible_of_not_conflicts_without (h : ResInv m resId) {q r : RequestId}
    (hq : q ∈ (m.heads resId).grantedList) (hr : r ∈ (m.heads resId).grantedList) (hne : q ≠ r)
    {own : LockMode → Nat} (hown : ∀ i, own i ≤ grantedWeight i (m.requests r)) {a : LockMode}
    (ha : conflicts a (grantedModesWithout (m.heads resId).grantedCounts own) = false) :
    conflictsWith a (m.requests q).mode = false := by
  by_contra hc
  rw [Bool.not_eq_false] at hc
  -- `q` and `r` both count towards the mode `q` holds
  have hsum := add_le_tally (t := m.requests) (w := grantedWeight (m.requests q).mode) hr hq
    (Ne.symm hne)
  have hq1 : 1 ≤ grantedWeight (m.requests q).mode (m.requests q) := by simp [grantedWeight]
  have hlt : own (m.requests q).mode < (m.heads resId).grantedCounts (m.requests q).mode := by
    rw [h.grantedCounts]
    have := hown (m.requests q).mode
    omega
  have hconf := (conflicts_grantedModesWithout_iff a _ own).mpr ⟨_, hc, hlt⟩
  rw [ha] at hconf
  cases hconf

/-- A resource whose conflict mask is empty has nobody waiting. -/
theorem conflictList_eq_nil (h : ResInv m resId) (hc : (m.heads resId).conflictModes = 0) :
    (m.heads resId).conflictList = [] := by
  rw [List.eq_nil_iff_forall_not_mem]
  intro q hq
  have hbit := h.conflictModes (m.requests q).mode
  rw [hc, hasMode_zero, h.conflictCounts] at hbit
  have hpos : 0 < tally m.requests (conflictWeight (m.requests q).mode)
      (m.heads resId).conflictList :=
    lt_of_lt_of_le (by simp [conflictWeight]) (le_tally hq)
  simp [hpos] at hbit

end ResInv

/-! ### Writes that keep mutual exclusion -/

namespace ExclAt

variable {m m' : LockManager} {resId : ResourceId} {r : RequestId}

/-- A step at another resource leaves this one's holders and their requests as they were. -/
theorem of_frame {x : ResourceId} (h : ExclAt m x) (hf : Frame resId m m') (hx : x ≠ resId) :
    ExclAt m' x := by
  have hhead := hf.heads x hx
  have hpart : ∀ p, m'.partitionHeads p x = m.partitionHeads p x :=
    fun p => hf.partitionHeads p x hx
  have hholds : ∀ q, Holds m' x q ↔ Holds m x q := fun q => by simp only [Holds, hhead, hpart]
  have hsame : ∀ q, Holds m x q → m'.requests q = m.requests q := by
    rintro q (hq | ⟨p, hq⟩)
    · exact hf.request_eq hx (.inl hq)
    · exact hf.request_eq hx (.inr (.inr ⟨p, hq⟩))
  refine ⟨fun q₁ q₂ hne h₁ h₂ => ?_, fun p q hq => ?_, fun hp => ?_⟩
  · rw [hholds] at h₁ h₂
    rw [hsame q₁ h₁, hsame q₂ h₂]
    exact h.compatible q₁ q₂ hne h₁ h₂
  · rw [hpart] at hq
    rw [hsame q (.inr ⟨p, hq⟩)]
    exact h.partitionedIntent p q hq
  · rw [hhead] at hp ⊢
    obtain ⟨hcl, hgl⟩ := h.partitioned hp
    refine ⟨hcl, fun q hq => ?_⟩
    rw [hsame q (.inl hq)]
    exact hgl q hq

theorem notify (h : ExclAt m resId) (r : RequestId) (y : ResourceId) : ExclAt (m.notify r y) resId :=
  { h with }

/-- A write that takes holders and waiting requests off the lists, and partitions off the
`LockHead`, and keeps the modes of the requests left. -/
theorem of_sub (h : ExclAt m resId)
    (hgl : ∀ q ∈ (m'.heads resId).grantedList, q ∈ (m.heads resId).grantedList)
    (hcl : ∀ q ∈ (m'.heads resId).conflictList, q ∈ (m.heads resId).conflictList)
    (hpart : ∀ p, ∀ q ∈ (m'.partitionHeads p resId).getD [], q ∈ (m.partitionHeads p resId).getD [])
    (hparts : (m'.heads resId).partitions ≠ [] → (m.heads resId).partitions ≠ [])
    (hreq : ∀ q, Holds m' resId q → (m'.requests q).mode = (m.requests q).mode ∧
      (m'.requests q).status = (m.requests q).status ∧
      (m'.requests q).convertMode = (m.requests q).convertMode) :
    ExclAt m' resId := by
  have hholds : ∀ q, Holds m' resId q → Holds m resId q := by
    rintro q (hq | ⟨p, hq⟩)
    · exact .inl (hgl q hq)
    · exact .inr ⟨p, hpart p q hq⟩
  refine ⟨fun q₁ q₂ hne h₁ h₂ => ?_, fun p q hq => ?_, fun hp => ?_⟩
  · rw [(hreq q₁ h₁).1, (hreq q₂ h₂).1]
    exact h.compatible q₁ q₂ hne (hholds q₁ h₁) (hholds q₂ h₂)
  · rw [(hreq q (.inr ⟨p, hq⟩)).1]
    exact h.partitionedIntent p q (hpart p q hq)
  · obtain ⟨hcl0, hgl0⟩ := h.partitioned (hparts hp)
    refine ⟨List.eq_nil_iff_forall_not_mem.mpr fun q hq => by simpa [hcl0] using hcl q hq,
      fun q hq => ?_⟩
    obtain ⟨hmode, hstatus, hconvert⟩ := hreq q (.inl hq)
    rw [hmode, hstatus, hconvert]
    exact hgl0 q (hgl q hq)

/-- A write of the `LockHead` and of one request `r`, on no partitioned head, that holds the
resource afterwards only in a mode compatible with every other holder. -/
theorem headStep (h : ExclAt m resId) {L : LockHead} {req' : LockRequest}
    (hparts : L.partitions = (m.heads resId).partitions)
    (hgmem : ∀ q, q ≠ r → (q ∈ L.grantedList ↔ q ∈ (m.heads resId).grantedList))
    (hrp : ∀ p, r ∉ (m.partitionHeads p resId).getD [])
    (hcompat : r ∈ L.grantedList → ∀ q, q ≠ r → Holds m resId q →
      conflictsWith req'.mode (m.requests q).mode = false)
    (hpartitioned : L.partitions ≠ [] → L.conflictList = [] ∧
      (r ∈ L.grantedList → intentCompatible req'.mode = true ∧
        (req'.status = .STATUS_CONVERTING → intentCompatible req'.convertMode = true))) :
    ExclAt ((m.setHead resId L).setRequest r req') resId := by
  set m' := (m.setHead resId L).setRequest r req'
  have hreqs : m'.requests = Function.update m.requests r req' := rfl
  have hheads : m'.heads resId = L := by simp [m']
  have hpart : ∀ p, m'.partitionHeads p resId = m.partitionHeads p resId := fun p => rfl
  -- the holders other than `r` are those of `m`, with their requests
  have hholds : ∀ q, q ≠ r → (Holds m' resId q ↔ Holds m resId q) := fun q hq => by
    simp only [Holds, hheads, hpart, hgmem q hq]
  have hother : ∀ q, q ≠ r → m'.requests q = m.requests q :=
    fun q hq => by rw [hreqs, Function.update_of_ne hq]
  have hr : Holds m' resId r → r ∈ L.grantedList := by
    rintro (hr | ⟨p, hr⟩)
    · rwa [hheads] at hr
    · exact absurd hr (hrp p)
  refine ⟨fun q₁ q₂ hne h₁ h₂ => ?_, fun p q hq => ?_, fun hp => ?_⟩
  · by_cases h1 : q₁ = r
    · subst h1
      have h2 := Ne.symm hne
      rw [hother q₂ h2, hreqs, Function.update_self]
      exact hcompat (hr h₁) q₂ h2 ((hholds q₂ h2).mp h₂)
    · by_cases h2 : q₂ = r
      · subst h2
        rw [hother q₁ h1, hreqs, Function.update_self, conflictsWith_comm]
        exact hcompat (hr h₂) q₁ h1 ((hholds q₁ h1).mp h₁)
      · rw [hother q₁ h1, hother q₂ h2]
        exact h.compatible q₁ q₂ hne ((hholds q₁ h1).mp h₁) ((hholds q₂ h2).mp h₂)
  · rw [hpart] at hq
    have hqr : q ≠ r := by
      rintro rfl
      exact hrp p hq
    rw [hother q hqr]
    exact h.partitionedIntent p q hq
  · rw [hheads] at hp ⊢
    obtain ⟨hcl, hrmodes⟩ := hpartitioned hp
    refine ⟨hcl, fun q hq => ?_⟩
    by_cases hqr : q = r
    · subst hqr
      rw [hreqs, Function.update_self]
      exact hrmodes hq
    · rw [hother q hqr]
      exact (h.partitioned (hparts ▸ hp)).2 q ((hgmem q hqr).mp hq)

/-- A request may change its count and flags, keeping its modes and status. This holds at every
resource. -/
theorem setRequest_same (h : ExclAt m resId) {req' : LockRequest}
    (hstatus : req'.status = (m.requests r).status) (hmode : req'.mode = (m.requests r).mode)
    (hconvert : req'.convertMode = (m.requests r).convertMode) :
    ExclAt (m.setRequest r req') resId :=
  h.of_sub (fun _ hq => hq) (fun _ hq => hq) (fun _ _ hq => hq) id fun q _ => by
    by_cases hqr : q = r
    · subst hqr
      simpa using ⟨hmode, hstatus, hconvert⟩
    · simp [Function.update_of_ne hqr]

/-- A request that holds nothing may change in any way. This holds at every resource. -/
theorem setRequest_offLists (h : ExclAt m resId) (hoff : OffLists m r resId) (req' : LockRequest) :
    ExclAt (m.setRequest r req') resId :=
  h.of_sub (fun _ hq => hq) (fun _ hq => hq) (fun _ _ hq => hq) id fun q hq => by
    have hqr : q ≠ r := by
      rintro rfl
      rcases hq with hq | ⟨p, hq⟩
      · exact hoff.granted hq
      · exact hoff.partition p hq
    simp [Function.update_of_ne hqr]

/-- Partitioning a resource whose `LockHead` holds intent modes only and has nobody waiting. -/
theorem startPartition (h : ExclAt m resId) (hres : ResInv m resId) (p : Nat)
    (hintent : ((m.heads resId).grantedModes &&& ~~~intentModes) = 0)
    (hnowait : (m.heads resId).conflictModes = 0) :
    ExclAt ((m.setPartitionHead p resId (some ((m.partitionHeads p resId).getD []))).setHead resId
      { m.heads resId with partitions := (m.heads resId).partitions ++ [p] }) resId := by
  set m' := (m.setPartitionHead p resId (some ((m.partitionHeads p resId).getD []))).setHead resId
    { m.heads resId with partitions := (m.heads resId).partitions ++ [p] }
  have hget : ∀ p', (m'.partitionHeads p' resId).getD [] = (m.partitionHeads p' resId).getD [] := by
    intro p'
    simp only [m', setHead_partitionHeads, setPartitionHead_apply, and_true]
    split_ifs with hp
    · subst hp
      rfl
    · rfl
  have hheads : m'.heads resId = { m.heads resId with
      partitions := (m.heads resId).partitions ++ [p] } := by simp [m']
  have hholds : ∀ q, Holds m' resId q ↔ Holds m resId q := fun q => by
    simp only [Holds, hheads, hget]
  refine ⟨fun q₁ q₂ hne h₁ h₂ => ?_, fun p' q hq => ?_, fun _ => ?_⟩
  · rw [hholds] at h₁ h₂
    exact h.compatible q₁ q₂ hne h₁ h₂
  · rw [hget] at hq
    exact h.partitionedIntent p' q hq
  · -- the check of `lock`: the granted modes are intent modes, and nobody waits
    rw [hheads]
    refine ⟨hres.conflictList_eq_nil hnowait, fun q hq => ⟨?_, fun hs => ?_⟩⟩
    · exact intentCompatible_of_isIntent (isIntent_of_hasMode hintent (hres.hasMode_granted hq))
    · exact intentCompatible_of_isIntent
        (isIntent_of_hasMode hintent (hres.hasMode_converting hq hs))

/-- A request in an intent mode joins a partitioned head of a partitioned resource. -/
theorem addPartitioned (h : ExclAt m resId) (hoff : OffLists m r resId) {p : Nat}
    (hp : p ∈ (m.heads resId).partitions) (hintent : IsIntent (m.requests r).mode) :
    ExclAt ((m.setPartitionHead p resId (some ((m.partitionHeads p resId).getD [] ++ [r]))).setRequest
      r { m.requests r with partitionedLock := some (p, resId), status := .STATUS_GRANTED })
      resId := by
  set req' : LockRequest :=
    { m.requests r with partitionedLock := some (p, resId), status := .STATUS_GRANTED }
  set m' := (m.setPartitionHead p resId (some ((m.partitionHeads p resId).getD [] ++ [r]))).setRequest
    r req'
  have hreqs : m'.requests = Function.update m.requests r req' := rfl
  have hget : ∀ p', (m'.partitionHeads p' resId).getD [] =
      if p' = p then (m.partitionHeads p resId).getD [] ++ [r] else
        (m.partitionHeads p' resId).getD [] := by
    intro p'
    simp only [m', setRequest_partitionHeads, setPartitionHead_apply, and_true]
    split_ifs <;> rfl
  have hheads : m'.heads resId = m.heads resId := rfl
  have hother : ∀ q, q ≠ r → m'.requests q = m.requests q :=
    fun q hq => by rw [hreqs, Function.update_of_ne hq]
  have hrmode : (m'.requests r).mode = (m.requests r).mode := by simp [hreqs, req']
  have hholds : ∀ q, q ≠ r → (Holds m' resId q ↔ Holds m resId q) := by
    intro q hq
    simp only [Holds, hheads, hget]
    constructor
    · rintro (hq' | ⟨p', hq'⟩)
      · exact .inl hq'
      · refine .inr ⟨p', ?_⟩
        split_ifs at hq' with hpp
        · subst hpp
          simpa [hq] using hq'
        · exact hq'
    · rintro (hq' | ⟨p', hq'⟩)
      · exact .inl hq'
      · refine .inr ⟨p', ?_⟩
        split_ifs with hpp
        · subst hpp
          exact List.mem_append_left _ hq'
        · exact hq'
  -- the resource is partitioned, so every holder is compatible with an intent mode
  have hcompat : ∀ q, q ≠ r → Holds m resId q →
      conflictsWith (m.requests q).mode (m.requests r).mode = false := by
    rintro q - (hq | ⟨p', hq⟩)
    · have hparts : (m.heads resId).partitions ≠ [] := List.ne_nil_of_mem hp
      exact conflictsWith_of_intentCompatible ((h.partitioned hparts).2 q hq).1 hintent
    · exact conflictsWith_of_isIntent (h.partitionedIntent p' q hq) hintent
  refine ⟨fun q₁ q₂ hne h₁ h₂ => ?_, fun p' q hq => ?_, fun hp' => ?_⟩
  · by_cases h1 : q₁ = r
    · subst h1
      have h2 := Ne.symm hne
      rw [hrmode, hother q₂ h2, conflictsWith_comm]
      exact hcompat q₂ h2 ((hholds q₂ h2).mp h₂)
    · by_cases h2 : q₂ = r
      · subst h2
        rw [hrmode, hother q₁ h1]
        exact hcompat q₁ h1 ((hholds q₁ h1).mp h₁)
      · rw [hother q₁ h1, hother q₂ h2]
        exact h.compatible q₁ q₂ hne ((hholds q₁ h1).mp h₁) ((hholds q₂ h2).mp h₂)
  · by_cases hqr : q = r
    · subst hqr
      rw [hrmode]
      exact hintent
    · rw [hother q hqr]
      rw [hget] at hq
      split_ifs at hq with hpp
      · subst hpp
        exact h.partitionedIntent p' q (by simpa [hqr] using hq)
      · exact h.partitionedIntent p' q hq
  · rw [hheads] at hp' ⊢
    obtain ⟨hcl, hgl⟩ := h.partitioned hp'
    refine ⟨hcl, fun q hq => ?_⟩
    have hqr : q ≠ r := by
      rintro rfl
      exact hoff.granted hq
    rw [hother q hqr]
    exact hgl q hq

end ExclAt

/-- Mutual exclusion at every resource holds after a step at `resId` that keeps it there. -/
theorem Excl.of_frame {m m' : LockManager} {resId : ResourceId} (h : Excl m) (hres : ExclAt m' resId)
    (hf : Frame resId m m') : Excl m' := fun x => by
  by_cases hx : x = resId
  · subst hx
    exact hres
  · exact (h x).of_frame hf hx

end Concurrency

end Mongo
