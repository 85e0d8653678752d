import Mongo.Concurrency.LockSafety

/-! Nobody waits on a resource for nothing. Between calls, the request at the front of the
conflict list conflicts with a mode held or converted to on the granted list, and the mode each
converting request converts to conflicts with a mode another request holds or converts to
(`QueueInv`). `_onLockModeChanged` puts both back: its first loop grants each conversion that
nothing holds back, and its second, when it runs, grants from the front of the conflict list until
a request is held back. The calls that skip the second loop keep the front held back: a request
queued behind others, a conversion, and a release of a mode another request still holds.

Two things break it. `enqueueAtFront` queues a request at the front whatever it conflicts with,
so the front is held back unless it was queued there. And the release of a converting request
re-scans the conflict list only if no request holds `MODE_NONE`, as the count it reads is that of
`MODE_NONE`; so the invariant is proved for the calls that never ask for `MODE_NONE`.

Each call is taken apart by its inversion lemma of `LockCalls`, as for mutual exclusion; the
writes it makes are then read as writes that only add to what is held (`Grows`, `Keeps`). -/

namespace Mongo

namespace Concurrency

open LockMode Tally LockManager

/-- A request in mode `a` is held back on `resId` by a request other than `r` on the granted
list, which holds or converts to a mode conflicting with `a`. -/
def Blocked (m : LockManager) (resId : ResourceId) (r : RequestId) (a : LockMode) : Prop :=
  ∃ q e, q ≠ r ∧ q ∈ (m.heads resId).grantedList ∧ 0 < grantedWeight e (m.requests q) ∧
    conflictsWith a e = true

/-- Nothing holds back a request in `MODE_NONE`. -/
theorem Blocked.ne_none {m : LockManager} {resId : ResourceId} {r : RequestId} {a : LockMode}
    (h : Blocked m resId r a) : a ≠ .MODE_NONE := by
  rintro rfl
  obtain ⟨q, e, -, -, -, hconf⟩ := h
  simp at hconf

/-- The share of a request reads its mode, its status and the mode it converts to. -/
theorem grantedWeight_congr {req req' : LockRequest} (hmode : req'.mode = req.mode)
    (hstatus : req'.status = req.status) (hconv : req'.convertMode = req.convertMode)
    (e : LockMode) : grantedWeight e req' = grantedWeight e req := by
  simp [grantedWeight, hmode, hstatus, hconv]

/-! ### The masks, read as requests that hold back -/

namespace ResInv

variable {m : LockManager} {resId : ResourceId} {r : RequestId}

/-- The granted count of a mode is more than the share of `r` exactly when another request on the
granted list holds or converts to the mode. -/
theorem share_lt_grantedCounts_iff (h : ResInv m resId) (e : LockMode) :
    (if r ∈ (m.heads resId).grantedList then grantedWeight e (m.requests r) else 0) <
        (m.heads resId).grantedCounts e ↔
      ∃ q, q ≠ r ∧ q ∈ (m.heads resId).grantedList ∧ 0 < grantedWeight e (m.requests q) := by
  have hsplit := tally_eq_erase_add (t := m.requests) (w := grantedWeight e)
    (l := (m.heads resId).grantedList) r
  rw [h.grantedCounts]
  constructor
  · intro hlt
    obtain ⟨q, hq, hw⟩ := tally_pos_iff.mp (show 0 < tally m.requests (grantedWeight e)
      ((m.heads resId).grantedList.erase r) by omega)
    obtain ⟨hqr, hq⟩ := h.grantedNodup.mem_erase_iff.mp hq
    exact ⟨q, hqr, hq, hw⟩
  · rintro ⟨q, hqr, hq, hw⟩
    have := tally_pos_iff.mpr ⟨q, h.grantedNodup.mem_erase_iff.mpr ⟨hqr, hq⟩, hw⟩
    omega

/-- A mode conflicts with the granted mask exactly when a request on the granted list holds it
back; a request off the list is not among those. -/
theorem conflicts_iff_blocked (h : ResInv m resId) (hr : r ∉ (m.heads resId).grantedList)
    (a : LockMode) : conflicts a (m.heads resId).grantedModes = true ↔ Blocked m resId r a := by
  have hcount : ∀ e, 0 < (m.heads resId).grantedCounts e ↔
      ∃ q, q ≠ r ∧ q ∈ (m.heads resId).grantedList ∧ 0 < grantedWeight e (m.requests q) :=
    fun e => by simpa [hr] using h.share_lt_grantedCounts_iff (r := r) e
  rw [conflicts_iff]
  constructor
  · rintro ⟨e, hconf, he⟩
    rw [h.grantedModes, decide_eq_true_eq, hcount] at he
    obtain ⟨q, hqr, hq, hw⟩ := he
    exact ⟨q, e, hqr, hq, hw, hconf⟩
  · rintro ⟨q, e, hqr, hq, hw, hconf⟩
    refine ⟨e, hconf, ?_⟩
    rw [h.grantedModes, decide_eq_true_eq, hcount]
    exact ⟨q, hqr, hq, hw⟩

/-- The mask `convert` and `_onLockModeChanged` build for a request on the granted list, without
its own shares, conflicts with a mode exactly when another request holds it back. -/
theorem conflicts_without_iff_blocked (h : ResInv m resId) (hr : r ∈ (m.heads resId).grantedList)
    {own : LockMode → Nat} (hown : ∀ e, own e = grantedWeight e (m.requests r)) (a : LockMode) :
    conflicts a (grantedModesWithout (m.heads resId).grantedCounts own) = true ↔
      Blocked m resId r a := by
  have hcount : ∀ e, own e < (m.heads resId).grantedCounts e ↔
      ∃ q, q ≠ r ∧ q ∈ (m.heads resId).grantedList ∧ 0 < grantedWeight e (m.requests q) :=
    fun e => by simpa [hr, hown] using h.share_lt_grantedCounts_iff (r := r) e
  rw [conflicts_grantedModesWithout_iff]
  constructor
  · rintro ⟨e, hconf, hlt⟩
    obtain ⟨q, hqr, hq, hw⟩ := (hcount e).mp hlt
    exact ⟨q, e, hqr, hq, hw, hconf⟩
  · rintro ⟨q, e, hqr, hq, hw, hconf⟩
    exact ⟨e, hconf, (hcount e).mpr ⟨q, hqr, hq, hw⟩⟩

end ResInv

/-! ### Writes that only add to what is held -/

/-- For each mode `req` holds or converts to, `req'` holds or converts to a mode with every
conflict of it. -/
def Stronger (req req' : LockRequest) : Prop :=
  ∀ e, 0 < grantedWeight e req → ∃ e', 0 < grantedWeight e' req' ∧
    ∀ a, conflictsWith a e = true → conflictsWith a e' = true

namespace Stronger

theorem refl (req : LockRequest) : Stronger req req := fun e he => ⟨e, he, fun _ h => h⟩

theorem trans {req req' req'' : LockRequest} (h₁ : Stronger req req') (h₂ : Stronger req' req'') :
    Stronger req req'' := fun e he => by
  obtain ⟨e', he', hc'⟩ := h₁ e he
  obtain ⟨e'', he'', hc''⟩ := h₂ e' he'
  exact ⟨e'', he'', fun a ha => hc'' a (hc' a ha)⟩

/-- A request that holds or converts to at least the modes it did: one that starts converting. -/
theorem of_le {req req' : LockRequest} (h : ∀ e, grantedWeight e req ≤ grantedWeight e req') :
    Stronger req req' := fun e he => ⟨e, lt_of_lt_of_le he (h e), fun _ h => h⟩

/-- A request that now holds a mode with every conflict of the one it held, and that is the mode
it converted to if it converted: a conversion granted, at once or by `_onLockModeChanged`. -/
theorem of_upgrade {req req' : LockRequest}
    (hup : ∀ a, conflictsWith a req.mode = true → conflictsWith a req'.mode = true)
    (hconv : req.status = .STATUS_CONVERTING → req.convertMode = req'.mode) : Stronger req req' := by
  intro e he
  refine ⟨req'.mode, by simp [grantedWeight], ?_⟩
  -- the share is that of the mode held, or of the mode converted to
  by_cases hmode : req.mode = e
  · exact hmode ▸ hup
  · have hc : req.status = .STATUS_CONVERTING ∧ req.convertMode = e := by
      by_contra hc
      rw [grantedWeight, if_neg hmode, if_neg hc] at he
      exact absurd he (Nat.lt_irrefl 0)
    obtain ⟨hs, rfl⟩ := hc
    rw [hconv hs]
    exact fun _ h => h

end Stronger

/-- Each request on the granted list of `resId` is still on it, and stronger. -/
def Covers (resId : ResourceId) (m m' : LockManager) : Prop :=
  ∀ q ∈ (m.heads resId).grantedList,
    q ∈ (m'.heads resId).grantedList ∧ Stronger (m.requests q) (m'.requests q)

/-- A write at `resId` that only adds to what its granted list holds: the other resources are
as they were, the granted list covers what it did, and a request converts only if it converted,
to the same mode. -/
structure Grows (resId : ResourceId) (m m' : LockManager) : Prop where
  frame : Frame resId m m'
  covers : Covers resId m m'
  converting : ∀ r ∈ (m'.heads resId).grantedList, (m'.requests r).status = .STATUS_CONVERTING →
    r ∈ (m.heads resId).grantedList ∧ (m.requests r).status = .STATUS_CONVERTING ∧
      (m'.requests r).convertMode = (m.requests r).convertMode

/-- A write that only adds to what the granted list holds, and keeps the conflict list and the
modes its requests wait for. -/
structure Keeps (resId : ResourceId) (m m' : LockManager) : Prop extends Grows resId m m' where
  conflictList : (m'.heads resId).conflictList = (m.heads resId).conflictList
  waiting : ∀ q ∈ (m.heads resId).conflictList, (m'.requests q).mode = (m.requests q).mode ∧
    (m'.requests q).enqueueAtFront = (m.requests q).enqueueAtFront

variable {m m' m'' : LockManager} {resId : ResourceId} {r : RequestId} {a : LockMode}

namespace Grows

theorem refl (resId : ResourceId) (m : LockManager) : Grows resId m m :=
  ⟨Frame.refl resId m, fun _ hq => ⟨hq, Stronger.refl _⟩, fun _ hr hs => ⟨hr, hs, rfl⟩⟩

theorem trans (h₁ : Grows resId m m') (h₂ : Grows resId m' m'') : Grows resId m m'' where
  frame := h₁.frame.trans h₂.frame
  covers q hq := by
    obtain ⟨hq', hs'⟩ := h₁.covers q hq
    obtain ⟨hq'', hs''⟩ := h₂.covers q hq'
    exact ⟨hq'', hs'.trans hs''⟩
  converting r hr hs := by
    obtain ⟨hr', hs', hc'⟩ := h₂.converting r hr hs
    obtain ⟨hr'', hs'', hc''⟩ := h₁.converting r hr' hs'
    exact ⟨hr'', hs'', hc'.trans hc''⟩

end Grows

namespace Keeps

theorem refl (resId : ResourceId) (m : LockManager) : Keeps resId m m :=
  ⟨Grows.refl resId m, rfl, fun _ _ => ⟨rfl, rfl⟩⟩

theorem trans (h₁ : Keeps resId m m') (h₂ : Keeps resId m' m'') : Keeps resId m m'' where
  toGrows := h₁.toGrows.trans h₂.toGrows
  conflictList := h₂.conflictList.trans h₁.conflictList
  waiting q hq := by
    obtain ⟨hmode₁, hfront₁⟩ := h₁.waiting q hq
    obtain ⟨hmode₂, hfront₂⟩ := h₂.waiting q (by rwa [h₁.conflictList])
    exact ⟨hmode₂.trans hmode₁, hfront₂.trans hfront₁⟩

end Keeps

theorem Blocked.covers (h : Blocked m resId r a) (hc : Covers resId m m') : Blocked m' resId r a := by
  obtain ⟨q, e, hqr, hq, hw, hconf⟩ := h
  obtain ⟨hq', hstronger⟩ := hc q hq
  obtain ⟨e', hw', hconf'⟩ := hstronger e hw
  exact ⟨q, e', hqr, hq', hw', hconf' a hconf⟩

/-- A write at another resource holds nobody back that was not held back. -/
theorem Blocked.of_frame {x : ResourceId} (h : Blocked m x r a) (hf : Frame resId m m')
    (hx : x ≠ resId) : Blocked m' x r a := by
  obtain ⟨q, e, hqr, hq, hw, hconf⟩ := h
  refine ⟨q, e, hqr, by rwa [hf.heads x hx], ?_, hconf⟩
  rwa [hf.request_eq hx (.inl hq)]

/-! ### The invariant -/

/-- The front of the conflict list of `resId` is held back, unless it was queued at the front. -/
def FrontBlocked (m : LockManager) (resId : ResourceId) : Prop :=
  ∀ f rest, (m.heads resId).conflictList = f :: rest → (m.requests f).enqueueAtFront = false →
    Blocked m resId f (m.requests f).mode

/-- Every converting request on the granted list of `resId` is held back by another. -/
def ConversionsBlocked (m : LockManager) (resId : ResourceId) : Prop :=
  ∀ r ∈ (m.heads resId).grantedList, (m.requests r).status = .STATUS_CONVERTING →
    Blocked m resId r (m.requests r).convertMode

/-- The queues of a resource between calls. -/
structure QueueInv (m : LockManager) (resId : ResourceId) : Prop where
  front : FrontBlocked m resId
  converting : ConversionsBlocked m resId

/-- Every request placed by a call holds, waits for or held a mode other than `MODE_NONE`. -/
def Acquired (m : LockManager) : Prop :=
  ∀ q, (m.requests q).status ≠ .STATUS_NEW → (m.requests q).mode ≠ .MODE_NONE

/-- The queues of every resource, and the modes of the requests. -/
structure Queues (m : LockManager) : Prop where
  queue : ∀ resId, QueueInv m resId
  acquired : Acquired m

theorem ConversionsBlocked.grows (h : ConversionsBlocked m resId) (hg : Grows resId m m') :
    ConversionsBlocked m' resId := by
  intro r hr hs
  obtain ⟨hr₀, hs₀, hconv⟩ := hg.converting r hr hs
  rw [hconv]
  exact (h r hr₀ hs₀).covers hg.covers

/-- A write that covers the granted list and keeps the conflict list and the modes its requests
wait for keeps the front held back. -/
theorem FrontBlocked.covers (h : FrontBlocked m resId) (hc : Covers resId m m')
    (hconflict : (m'.heads resId).conflictList = (m.heads resId).conflictList)
    (hwaiting : ∀ q ∈ (m.heads resId).conflictList, (m'.requests q).mode = (m.requests q).mode ∧
      (m'.requests q).enqueueAtFront = (m.requests q).enqueueAtFront) :
    FrontBlocked m' resId := by
  intro f rest hl hfront
  rw [hconflict] at hl
  obtain ⟨hmode, hfront'⟩ := hwaiting f (by simp [hl])
  rw [hfront'] at hfront
  rw [hmode]
  exact (h f rest hl hfront).covers hc

theorem FrontBlocked.keeps (h : FrontBlocked m resId) (hk : Keeps resId m m') :
    FrontBlocked m' resId :=
  h.covers hk.covers hk.conflictList hk.waiting

theorem QueueInv.keeps (h : QueueInv m resId) (hk : Keeps resId m m') : QueueInv m' resId :=
  ⟨h.front.keeps hk, h.converting.grows hk.toGrows⟩

/-- A write at another resource keeps the queues of `x`. -/
theorem QueueInv.of_frame {x : ResourceId} (h : QueueInv m x) (hf : Frame resId m m')
    (hx : x ≠ resId) : QueueInv m' x := by
  have hhead := hf.heads x hx
  refine ⟨fun f rest hl hfront => ?_, fun r hr hs => ?_⟩
  · rw [hhead] at hl
    have hreq := hf.request_eq (r := f) hx (.inr (.inl (by simp [hl])))
    rw [hreq] at hfront ⊢
    exact (h.front f rest hl hfront).of_frame hf hx
  · rw [hhead] at hr
    rw [hf.request_eq hx (.inl hr)] at hs ⊢
    exact (h.converting r hr hs).of_frame hf hx

/-- A call at `resId` that keeps the queues there and the modes of the requests keeps the queues
of every resource. -/
theorem Queues.of_step (h : Queues m) (hf : Frame resId m m') (hq : QueueInv m' resId)
    (ha : Acquired m') : Queues m' := by
  refine ⟨fun x => ?_, ha⟩
  by_cases hx : x = resId
  · exact hx ▸ hq
  · exact (h.queue x).of_frame hf hx

/-- A write that keeps the lists of every `LockHead`, and the fields the queues read of the
requests on them. -/
theorem Queues.of_lists (h : Queues m)
    (hheads : ∀ x, (m'.heads x).grantedList = (m.heads x).grantedList ∧
      (m'.heads x).conflictList = (m.heads x).conflictList)
    (hreq : ∀ x q, q ∈ (m.heads x).grantedList ∨ q ∈ (m.heads x).conflictList →
      (m'.requests q).mode = (m.requests q).mode ∧ (m'.requests q).status = (m.requests q).status ∧
        (m'.requests q).convertMode = (m.requests q).convertMode ∧
        (m'.requests q).enqueueAtFront = (m.requests q).enqueueAtFront)
    (ha : Acquired m') : Queues m' := by
  -- the shares of the requests on a granted list are as they were
  have hblocked : ∀ x r a, Blocked m x r a → Blocked m' x r a := by
    rintro x r a ⟨q, e, hqr, hq, hw, hconf⟩
    obtain ⟨hmode, hstatus, hconv, -⟩ := hreq x q (.inl hq)
    refine ⟨q, e, hqr, by rw [(hheads x).1]; exact hq, ?_, hconf⟩
    rwa [grantedWeight_congr hmode hstatus hconv]
  refine ⟨fun x => ⟨fun f rest hl hfront => ?_, fun r hr hs => ?_⟩, ha⟩
  · rw [(hheads x).2] at hl
    obtain ⟨hmode, -, -, hfront'⟩ := hreq x f (.inr (by simp [hl]))
    rw [hfront'] at hfront
    rw [hmode]
    exact hblocked x f _ ((h.queue x).front f rest hl hfront)
  · rw [(hheads x).1] at hr
    obtain ⟨-, hstatus, hconv, -⟩ := hreq x r (.inl hr)
    rw [hstatus] at hs
    rw [hconv]
    exact hblocked x r _ ((h.queue x).converting r hr hs)

/-- A write that keeps the queues and the modes of the requests. -/
theorem Queues.keeps (h : Queues m) (hk : Keeps resId m m') (ha : Acquired m') : Queues m' :=
  h.of_step hk.frame ((h.queue resId).keeps hk) ha

/-- A write of one request, in a mode other than `MODE_NONE` once it is placed. -/
theorem Acquired.of_update (h : Acquired m) {req' : LockRequest}
    (hreq : m'.requests = Function.update m.requests r req')
    (hr : req'.status ≠ .STATUS_NEW → req'.mode ≠ .MODE_NONE) : Acquired m' := by
  intro q hq
  rw [hreq] at hq ⊢
  by_cases hqr : q = r
  · subst hqr
    rw [Function.update_self] at hq ⊢
    exact hr hq
  · rw [Function.update_of_ne hqr] at hq ⊢
    exact h q hq

/-- A write of one request on no list of a `LockHead`, and of partitioned heads. -/
theorem Queues.setRequest_off (h : Queues m) (m₁ : LockManager) (hheads : m₁.heads = m.heads)
    (hreqs : m₁.requests = m.requests) (hoff : ∀ x, r ∉ (m.heads x).grantedList ∧ r ∉ (m.heads x).conflictList)
    {req' : LockRequest} (hr : req'.status ≠ .STATUS_NEW → req'.mode ≠ .MODE_NONE) :
    Queues (m₁.setRequest r req') := by
  have hne : ∀ x q, q ∈ (m.heads x).grantedList ∨ q ∈ (m.heads x).conflictList → q ≠ r := by
    rintro x q (hq | hq) rfl
    · exact (hoff x).1 hq
    · exact (hoff x).2 hq
  refine h.of_lists (fun x => by simp [hheads]) (fun x q hq => ?_)
    (h.acquired.of_update (r := r) (by simp [hreqs]) hr)
  simp [Function.update_of_ne (hne x q hq), hreqs]

/-- A write of one request that keeps what the queues read of it. -/
theorem Queues.setRequest_same (h : Queues m) {req' : LockRequest}
    (hmode : req'.mode = (m.requests r).mode) (hstatus : req'.status = (m.requests r).status)
    (hconv : req'.convertMode = (m.requests r).convertMode)
    (hfront : req'.enqueueAtFront = (m.requests r).enqueueAtFront) : Queues (m.setRequest r req') := by
  have hsame : ∀ q, ((m.setRequest r req').requests q).mode = (m.requests q).mode ∧
      ((m.setRequest r req').requests q).status = (m.requests q).status ∧
      ((m.setRequest r req').requests q).convertMode = (m.requests q).convertMode ∧
      ((m.setRequest r req').requests q).enqueueAtFront = (m.requests q).enqueueAtFront := by
    intro q
    by_cases hqr : q = r
    · subst hqr
      simp [hmode, hstatus, hconv, hfront]
    · simp [Function.update_of_ne hqr]
  refine h.of_lists (fun x => ⟨rfl, rfl⟩) (fun x q _ => hsame q) fun q hq => ?_
  rw [(hsame q).1]
  rw [(hsame q).2.1] at hq
  exact h.acquired q hq

/-- A write of the partitioned heads and of the `partitions` of a `LockHead`. -/
theorem Queues.of_partitions (h : Queues m)
    (hheads : ∀ x, (m'.heads x).grantedList = (m.heads x).grantedList ∧
      (m'.heads x).conflictList = (m.heads x).conflictList) (hreqs : m'.requests = m.requests) :
    Queues m' :=
  h.of_lists hheads (fun _ q _ => by simp [hreqs]) fun q hq => by
    rw [hreqs] at hq ⊢
    exact h.acquired q hq

/-! ### `newRequest`, `PartitionedLockHead::newRequest` and the migration -/

/-- A write of the `LockHead` of `resId` and of one request `r`, where the granted list keeps its
requests and gains at most `r`, and `r` becomes stronger if it was on it. -/
theorem Covers.setHead_setRequest {L : LockHead} {req' : LockRequest}
    (hsub : ∀ q ∈ (m.heads resId).grantedList, q ∈ L.grantedList)
    (hr : r ∈ (m.heads resId).grantedList → Stronger (m.requests r) req') :
    Covers resId m ((m.setHead resId L).setRequest r req') := by
  intro q hq
  refine ⟨by simpa using hsub q hq, ?_⟩
  by_cases hqr : q = r
  · subst hqr
    simpa using hr hq
  · simpa [Function.update_of_ne hqr] using Stronger.refl (m.requests q)

/-- Such a write in which `r` is on the granted list only if it was, and converts only if it
converted, to the same mode. -/
theorem Grows.setHead_setRequest {L : LockHead} {req' : LockRequest}
    (hf : Frame resId m ((m.setHead resId L).setRequest r req'))
    (hsub : ∀ q ∈ (m.heads resId).grantedList, q ∈ L.grantedList)
    (hmem : ∀ q ∈ L.grantedList, q ≠ r → q ∈ (m.heads resId).grantedList)
    (hr : r ∈ (m.heads resId).grantedList → Stronger (m.requests r) req')
    (hconv : r ∈ L.grantedList → req'.status = .STATUS_CONVERTING →
      r ∈ (m.heads resId).grantedList ∧ (m.requests r).status = .STATUS_CONVERTING ∧
        req'.convertMode = (m.requests r).convertMode) :
    Grows resId m ((m.setHead resId L).setRequest r req') where
  frame := hf
  covers := Covers.setHead_setRequest hsub hr
  converting q hq hs := by
    simp only [setRequest_heads, setHead_heads, Function.update_self] at hq
    by_cases hqr : q = r
    · subst hqr
      simp only [setRequest_requests, Function.update_self] at hs ⊢
      exact hconv hq hs
    · simp only [setRequest_requests, Function.update_of_ne hqr] at hs ⊢
      exact ⟨hmem q hq hqr, hs, rfl⟩

/-- An empty conflict list has an empty mask, which conflicts with nothing. -/
theorem ResInv.conflicts_conflictModes_of_nil (h : ResInv m resId)
    (hnil : (m.heads resId).conflictList = []) (a : LockMode) :
    conflicts a (m.heads resId).conflictModes = false := by
  cases hc : conflicts a (m.heads resId).conflictModes
  · rfl
  · obtain ⟨e, -, he⟩ := (conflicts_iff a _).mp hc
    rw [h.conflictModes, h.conflictCounts, hnil] at he
    simp at he

/-- `newRequest` keeps the queues. A request it grants only adds to what is held; one it queues
behind others leaves the front as it was; and one it queues on an empty list conflicts with a
granted mode, since the mask of the waiting modes is then empty. -/
theorem newRequest_queues {res : LockResult} (h : Inv m) (hq : Queues m)
    (hoff : ∀ x, OffLists m r x) (hmode : (m.requests r).mode ≠ .MODE_NONE)
    (hcall : m.newRequest resId r = .ok (m', res)) : Queues m' := by
  have hr := hoff resId
  have hf := Frame.newRequest h hoff hcall
  have hacq : ∀ {status : LockRequest.Status},
      Acquired (m.setRequest r { m.requests r with lock := some resId, status := status }) :=
    hq.acquired.of_update rfl fun _ => hmode
  obtain ⟨-, ⟨-, hwait, modes, -, rfl⟩ | ⟨-, -, modes, c, -, rfl⟩⟩ := newRequest_eq_ok (h resId) hcall
  · -- waiting: the granted list is as it was
    have hg := Grows.setHead_setRequest hf (fun q hq => hq) (fun q hq _ => hq)
      (fun hg => absurd hg hr.granted) (fun hg => absurd hg hr.granted)
    refine hq.of_step hf ⟨fun f rest hl hfront => ?_, (hq.queue resId).converting.grows hg⟩ hacq
    simp only [setRequest_heads, setHead_heads, Function.update_self] at hl
    by_cases hfront₀ : (m.requests r).enqueueAtFront = true
    · -- at the front: excused by its flag
      rw [if_pos hfront₀, List.cons.injEq] at hl
      obtain ⟨rfl, -⟩ := hl
      simp [hfront₀] at hfront
    · rw [if_neg hfront₀] at hl
      by_cases hcl : (m.heads resId).conflictList = []
      · -- alone on the list: it conflicts with a granted mode
        rw [hcl, List.nil_append, List.cons.injEq] at hl
        obtain ⟨rfl, -⟩ := hl
        have hgranted : conflicts (m.requests r).mode (m.heads resId).grantedModes = true := by
          rcases hwait with hwait | ⟨-, hwait⟩
          · exact hwait
          · rw [(h resId).conflicts_conflictModes_of_nil hcl] at hwait
            cases hwait
        simpa using (((h resId).conflicts_iff_blocked hr.granted _).mp hgranted).covers hg.covers
      · -- behind others: the front is as it was
        obtain ⟨g, gs, hcl⟩ := List.exists_cons_of_ne_nil hcl
        rw [hcl, List.cons_append, List.cons.injEq] at hl
        obtain ⟨rfl, -⟩ := hl
        have hgr : g ≠ r := fun hgr => hr.conflict (hgr ▸ by simp [hcl])
        simp only [setRequest_requests, Function.update_of_ne hgr] at hfront ⊢
        exact ((hq.queue resId).front g gs hcl hfront).covers hg.covers
  · -- granted: it joins the granted list, and the conflict list is as it was
    have hk : Keeps resId m _ :=
      ⟨Grows.setHead_setRequest hf (fun q hq => by simp [hq]) (fun q hq hqr => by simpa [hqr] using hq)
        (fun hg => absurd hg hr.granted) (fun _ hs => by simp at hs), by simp,
        fun q hq => by
          have hqr : q ≠ r := fun hqr => hr.conflict (hqr ▸ hq)
          simp [Function.update_of_ne hqr]⟩
    exact hq.keeps hk hacq

/-- `PartitionedLockHead::newRequest` leaves the lists of the `LockHead`s as they were. -/
theorem partitionedNewRequest_queues {p : Nat} (hq : Queues m)
    (hoff : ∀ x, r ∉ (m.heads x).grantedList ∧ r ∉ (m.heads x).conflictList)
    (hmode : (m.requests r).mode ≠ .MODE_NONE) (hcall : m.partitionedNewRequest p resId r = .ok m') :
    Queues m' := by
  obtain ⟨-, -, rfl⟩ := partitionedNewRequest_eq_ok hcall
  exact hq.setRequest_off (m.setPartitionHead p resId _) rfl rfl hoff fun _ => hmode

/-- The migration of the partitioned heads only adds to what the granted list holds: the
requests it grants held the resource on their partitioned heads, granted. -/
theorem Migrated.keeps (hm : Migrated resId m m') (h : Inv m) (h' : Inv m')
    (hparts : (m'.heads resId).partitions = []) : Keeps resId m m' where
  frame := hm.frame
  covers q hq := ⟨hm.mem_granted h' hparts (.inl hq),
    Stronger.of_le fun e => (grantedWeight_congr (hm.mode q) (hm.status q) (hm.convertMode q) e).ge⟩
  converting q hq hs := by
    rw [hm.status] at hs
    refine ⟨?_, hs, hm.convertMode q⟩
    rcases hm.held q (.inl hq) with hq | ⟨p, hp⟩
    · exact hq
    · simp [((h resId).partitionedOn p q hp).status] at hs
  conflictList := hm.conflictList
  waiting q _ := ⟨hm.mode q, hm.enqueueAtFront q⟩

theorem Acquired.of_migrated (h : Acquired m) (hm : Migrated resId m m') : Acquired m' :=
  fun q hq => by
    rw [hm.mode]
    rw [hm.status] at hq
    exact h q hq

/-! ### `lock` and `convert` -/

/-- `lock` keeps the queues, for a mode other than `MODE_NONE`. The fast path and a new
partitioned head leave the lists of the `LockHead`s as they were; the slow path migrates the
partitioned heads, which only adds to what is held, and places the request with `newRequest`. -/
theorem lock_queues {mode : LockMode} {res : LockResult} (h : Inv m) (he : Excl m) (hq : Queues m)
    (hmode : mode ≠ .MODE_NONE) (hcall : m.lock resId r mode = .ok (m', res)) : Queues m' := by
  obtain ⟨hnew, _, rfl, hpath⟩ := lock_eq_ok h he hcall
  -- a new request is on no list; it takes its mode and partitioned flag
  have hoff : ∀ x, OffLists m r x := fun x => (h x).offLists_of_new hnew
  set m₁ := m.setRequest r
    { m.requests r with partitioned := mode == .MODE_IX || mode == .MODE_IS, mode := mode }
  have h₁ : Inv m₁ := fun x => (h x).setRequest_offLists (hoff x) rfl rfl rfl rfl
  have hoff₁ : ∀ x, r ∉ (m₁.heads x).grantedList ∧ r ∉ (m₁.heads x).conflictList :=
    fun x => ⟨(hoff x).granted, (hoff x).conflict⟩
  have hq₁ : Queues m₁ := hq.setRequest_off m rfl rfl hoff₁ fun _ => hmode
  have hmode₁ : (m₁.requests r).mode = mode := by simp [m₁]
  rcases hpath with ⟨p, -, hpart⟩ | ⟨p, -, -, hpart⟩ | ⟨m₂, h₂, -, hparts, hm, hcall⟩
  · -- the fast path: a partitioned head of the locker's partition exists
    exact partitionedNewRequest_queues hq₁ hoff₁ (hmode₁ ▸ hmode) hpart
  · -- the resource becomes partitioned: only `partitions` changes on the `LockHead`
    set m₂ := (m₁.setPartitionHead p resId (some ((m₁.partitionHeads p resId).getD []))).setHead
      resId { m₁.heads resId with partitions := (m₁.heads resId).partitions ++ [p] }
    have hlists : ∀ x, (m₂.heads x).grantedList = (m₁.heads x).grantedList ∧
        (m₂.heads x).conflictList = (m₁.heads x).conflictList := by
      intro x
      by_cases hx : x = resId
      · subst hx
        simp [m₂]
      · simp [m₂, Function.update_of_ne hx]
    exact partitionedNewRequest_queues (hq₁.of_partitions hlists rfl)
      (fun x => by rw [(hlists x).1, (hlists x).2]; exact hoff₁ x) (hmode₁ ▸ hmode) hpart
  · -- the slow path: the migration only adds to what is held, then `newRequest`
    have hq₂ : Queues m₂ := hq₁.keeps (hm.keeps h₁ h₂ hparts) (hq₁.acquired.of_migrated hm)
    have hnew₂ : (m₂.requests r).status = .STATUS_NEW := by
      rw [hm.status]
      simpa [m₁] using hnew
    set m₃ := m₂.setRequest r { m₂.requests r with partitioned := false }
    have h₃ : Inv m₃ := fun x => (h₂ x).setRequest_same rfl rfl rfl rfl rfl id
    have hoff₃ : ∀ x, OffLists m₃ r x := fun x => (h₃ x).offLists_of_new (by simpa [m₃] using hnew₂)
    have hmode₃ : (m₃.requests r).mode = mode := by simp [m₃, hm.mode, hmode₁]
    have hq₃ : Queues m₃ := hq₂.setRequest_off m₂ rfl rfl
      (fun x => ⟨(hoff₃ x).granted, (hoff₃ x).conflict⟩) fun _ => by simpa [hm.mode, hmode₁] using hmode
    exact newRequest_queues h₃ hq₃ hoff₃ (hmode₃ ▸ hmode) hcall

/-- `convert` keeps the queues. A conversion that adds no conflict only counts the request again.
Any other runs on the `LockHead`, after the migration of the partitioned heads: granted at once,
the request takes a mode with every conflict of the old one; waiting, it is held back by another
request, which is what `convert` checked. -/
theorem convert_queues {newMode : LockMode} {res : LockResult} (h : Inv m) (he : Excl m)
    (hq : Queues m) (hresp : m.Respects (.convert resId r newMode))
    (hcall : m.convert resId r newMode = .ok (m', res)) : Queues m' := by
  obtain ⟨hgranted, hcount, _, rfl, hpath⟩ := convert_eq_ok h he hresp hcall
  set m₁ := m.setRequest r
    { m.requests r with recursiveCount := (m.requests r).recursiveCount + 1 }
  have h₁ : Inv m₁ := fun x => (h x).setRequest_same rfl rfl rfl rfl rfl fun _ => hcount
  have hq₁ : Queues m₁ := hq.setRequest_same rfl rfl rfl rfl
  rcases hpath with ⟨-, rfl⟩ | ⟨hadds, hup, m₂, h₂, -, hparts, hm, hr, hpath⟩
  · -- no conflict added: the request is counted again and keeps its mode
    exact hq₁
  have hq₂ : Queues m₂ := hq₁.keeps (hm.keeps h₁ h₂ hparts) (hq₁.acquired.of_migrated hm)
  have hon := (h₂ resId).grantedOn r hr
  have hstatus : (m₂.requests r).status = .STATUS_GRANTED := by
    rw [hm.status]
    simpa [m₁] using hgranted
  have hmode : (m₂.requests r).mode = (m₁.requests r).mode := hm.mode r
  have hnc : r ∉ (m₂.heads resId).conflictList := (h₂ resId).not_mem_conflict_of_mem_granted hr
  have hwaiting : ∀ {req' : LockRequest}, ∀ q ∈ (m₂.heads resId).conflictList,
      (Function.update m₂.requests r req' q).mode = (m₂.requests q).mode ∧
        (Function.update m₂.requests r req' q).enqueueAtFront = (m₂.requests q).enqueueAtFront :=
    fun q hq => by simp [Function.update_of_ne (fun hqr : q = r => hnc (hqr ▸ hq))]
  rcases hpath with ⟨hconflict, modes, hmodes, rfl⟩ | ⟨-, hpos, modes, hmodes, rfl⟩
  · -- it conflicts with a mode another request holds: it converts on the granted list
    set req' : LockRequest :=
      { m₂.requests r with status := .STATUS_CONVERTING, convertMode := newMode }
    have hon' : GrantedOn req' resId :=
      ⟨hon.lock, hon.partitionedLock, .inr rfl, fun _ => by simpa [req', hmode] using hup⟩
    have hf := Frame.setHead_setGranted (L := { m₂.heads resId with
      conversionsCount := (m₂.heads resId).conversionsCount + 1,
      grantedCounts := Function.update (m₂.heads resId).grantedCounts newMode
        ((m₂.heads resId).grantedCounts newMode + 1), grantedModes := modes }) h₂ hr hon'
    -- the granted list is as it was, and the request holds what it held and converts
    have hstronger : Stronger (m₂.requests r) req' :=
      Stronger.of_le fun e => by simp [grantedWeight, req', hstatus]
    have hc : Covers resId m₂ _ := Covers.setHead_setRequest (L := { m₂.heads resId with
      conversionsCount := (m₂.heads resId).conversionsCount + 1,
      grantedCounts := Function.update (m₂.heads resId).grantedCounts newMode
        ((m₂.heads resId).grantedCounts newMode + 1), grantedModes := modes })
      (fun q hq => hq) fun _ => hstronger
    have hblocked : Blocked m₂ resId r newMode :=
      ((h₂ resId).conflicts_without_iff_blocked hr (fun e => by simp [grantedWeight, hstatus])
        newMode).mp hconflict
    refine hq₂.of_step hf ⟨(hq₂.queue resId).front.covers hc (by simp) hwaiting, ?_⟩
      (hq₂.acquired.of_update rfl fun _ => hq₂.acquired r (by simp [hstatus]))
    intro q hq hs
    simp only [setRequest_heads, setHead_heads, Function.update_self] at hq
    by_cases hqr : q = r
    · subst hqr
      simpa [req'] using hblocked.covers hc
    · simp only [setRequest_requests, Function.update_of_ne hqr] at hs ⊢
      exact ((hq₂.queue resId).converting q hq hs).covers hc
  · -- granted at once: the new mode has every conflict of the old one
    have hnone : newMode ≠ .MODE_NONE := by
      rintro rfl
      exact hadds (by simp [LockConflictsTable])
    set req' : LockRequest := { m₂.requests r with mode := newMode }
    have hf := Frame.setHead_setGranted (L := { m₂.heads resId with
      grantedCounts := Function.update (Function.update (m₂.heads resId).grantedCounts newMode
        ((m₂.heads resId).grantedCounts newMode + 1)) (m₂.requests r).mode
        (Function.update (m₂.heads resId).grantedCounts newMode
          ((m₂.heads resId).grantedCounts newMode + 1) (m₂.requests r).mode - 1),
      grantedModes := modes }) h₂ hr (show GrantedOn req' resId from hon.granted rfl rfl hstatus)
    have hk : Keeps resId m₂ _ :=
      ⟨Grows.setHead_setRequest hf (fun q hq => hq) (fun q hq _ => hq)
        (fun _ => Stronger.of_upgrade (fun a ha => conflictsWith_of_upgrade (by simpa [hmode] using hup) ha)
          fun hs => by simp [hstatus] at hs)
        (fun _ hs => by simp [req', hstatus] at hs), by simp, hwaiting⟩
    exact hq₂.keeps hk (hq₂.acquired.of_update rfl fun _ => hnone)

/-! ### `_onLockModeChanged` -/

/-- The front of the conflict list of `resId` is held back, whatever it was queued with: what the
second loop of `_onLockModeChanged` leaves. -/
def FrontHeld (m : LockManager) (resId : ResourceId) : Prop :=
  ∀ f rest, (m.heads resId).conflictList = f :: rest → Blocked m resId f (m.requests f).mode

theorem FrontHeld.frontBlocked (h : FrontHeld m resId) : FrontBlocked m resId :=
  fun f rest hl _ => h f rest hl

theorem Keeps.notify (x : ResourceId) : Keeps resId m (m.notify r x) :=
  ⟨⟨Frame.notify r x, fun _ hq => ⟨hq, Stronger.refl _⟩, fun _ hq hs => ⟨hq, hs, rfl⟩⟩, rfl,
    fun _ _ => ⟨rfl, rfl⟩⟩

/-- The first loop grants a converting request the mode it converts to: what it held and the
mode it converted to become that mode, which has every conflict of both. -/
theorem grantConversion_keeps {k : Nat} {counts : LockMode → Nat} {modes : UInt32} (h : Inv m)
    (hr : r ∈ (m.heads resId).grantedList) (hconv : (m.requests r).status = .STATUS_CONVERTING) :
    Keeps resId m ((m.setHead resId { m.heads resId with
      conversionsCount := k, grantedCounts := counts, grantedModes := modes }).setRequest r
      { m.requests r with
        status := .STATUS_GRANTED, mode := (m.requests r).convertMode, convertMode := .MODE_NONE }) := by
  have hon := (h resId).grantedOn r hr
  have hnc : r ∉ (m.heads resId).conflictList := (h resId).not_mem_conflict_of_mem_granted hr
  set req' : LockRequest := { m.requests r with
    status := .STATUS_GRANTED, mode := (m.requests r).convertMode, convertMode := .MODE_NONE }
  have hf := Frame.setHead_setGranted (L := { m.heads resId with
    conversionsCount := k, grantedCounts := counts, grantedModes := modes }) h hr
    (show GrantedOn req' resId from hon.granted rfl rfl rfl)
  refine ⟨Grows.setHead_setRequest hf (fun q hq => hq) (fun q hq _ => hq)
    (fun _ => Stronger.of_upgrade (fun a ha => conflictsWith_of_upgrade (hon.upgrade hconv) ha)
      fun _ => rfl) (fun _ hs => by simp [req'] at hs), by simp, fun q hq => ?_⟩
  have hqr : q ≠ r := fun hqr => hnc (hqr ▸ hq)
  simp [Function.update_of_ne hqr]

/-- With no conversion counted, no request on the granted list converts. -/
theorem ResInv.not_converting_of_conversionsCount (h : ResInv m resId)
    (hzero : (m.heads resId).conversionsCount = 0) {q : RequestId}
    (hq : q ∈ (m.heads resId).grantedList) : (m.requests q).status ≠ .STATUS_CONVERTING := by
  intro hs
  have hw := tally_eq_zero_iff.mp (h.conversionsCount ▸ hzero) q hq
  simp [convertingWeight, hs] at hw

/-- The first loop of `_onLockModeChanged`, over a part of the granted list, only adds to what is
held, and leaves held back each converting request it has passed. A request it grants takes the
mode it converted to, with every conflict of what it held, so a request it left converting,
held back by that one, is still held back. -/
theorem grantConversions_queues :
    ∀ {l : List RequestId} {m m' : LockManager}, Inv m → Excl m → Acquired m → l.Nodup →
      (∀ q ∈ l, q ∈ (m.heads resId).grantedList) →
      (∀ q ∈ (m.heads resId).grantedList, q ∉ l → (m.requests q).status = .STATUS_CONVERTING →
        Blocked m resId q (m.requests q).convertMode) →
      grantConversions resId l m = .ok m' →
      Keeps resId m m' ∧ ConversionsBlocked m' resId ∧ Acquired m'
  | [], m, m', _, _, ha, _, _, hpassed, hcall => by
    rw [grantConversions, pure_eq_ok] at hcall
    subst hcall
    exact ⟨Keeps.refl resId m, fun q hq hs => hpassed q hq (List.not_mem_nil) hs, ha⟩
  | r :: rest, m, m', h, he, ha, hnd, hl, hpassed, hcall => by
    obtain ⟨hnr, hnd'⟩ := List.nodup_cons.mp hnd
    have hr := hl r List.mem_cons_self
    have hrest : ∀ q ∈ rest, q ∈ (m.heads resId).grantedList :=
      fun q hq => hl q (List.mem_cons_of_mem r hq)
    -- the requests passed, and `r` if it converts and stays converting
    have hpassed' : (Blocked m resId r (m.requests r).convertMode ∨
        (m.requests r).status ≠ .STATUS_CONVERTING) →
        ∀ q ∈ (m.heads resId).grantedList, q ∉ rest → (m.requests q).status = .STATUS_CONVERTING →
          Blocked m resId q (m.requests q).convertMode := by
      intro hblocked q hq hnq hs
      by_cases hqr : q = r
      · subst hqr
        exact hblocked.resolve_right (not_not.mpr hs)
      · exact hpassed q hq (by simp [hqr, hnq]) hs
    rcases grantConversions_cons_eq_ok (h resId) hcall with ⟨hzero, rfl⟩ | ⟨-, hpass, hcall⟩ |
        ⟨hzero, hconv, hnone, hfree, hpos, modes, hmodes, hcall⟩
    · -- no conversion left: nobody converts
      exact ⟨Keeps.refl resId _,
        fun q hq hs => absurd hs ((h resId).not_converting_of_conversionsCount hzero hq), ha⟩
    · -- passed: it does not convert, or it stays converting, held back by another request
      refine grantConversions_queues h he ha hnd' hrest (hpassed' ?_) hcall
      rcases hpass with hconv | ⟨hconv, hheld⟩
      · exact .inr hconv
      · refine .inl (((h resId).conflicts_without_iff_blocked hr (fun i => ?_) _).mp hheld)
        simp [grantedWeight, hconv]
    · obtain ⟨h₁, he₁⟩ := grantConversion_safe h he hr hconv hzero hfree hpos hmodes
      -- the requests passed are held back in the state the grant leaves
      refine (fun hrec => ⟨((grantConversion_keeps h hr hconv).trans (Keeps.notify resId)).trans
        hrec.1, hrec.2⟩) (grantConversions_queues (h₁.notify r resId) (he₁.notify r resId) ?_ hnd'
          (fun q hq => by simpa using hrest q hq) (fun q hq hnq hs => ?_) hcall)
      · exact ha.of_update rfl fun _ => hnone
      have hqr : q ≠ r := by
        rintro rfl
        simp at hs
      simp only [notify_heads, setRequest_heads, setHead_heads, Function.update_self,
        notify_requests, setRequest_requests, Function.update_of_ne hqr] at hq hs ⊢
      exact (hpassed q hq (by simp [hqr, hnq]) hs).covers
        ((grantConversion_keeps h hr hconv).trans (Keeps.notify resId)).covers

/-- The second loop grants a waiting request: it leaves the conflict list for the end of the
granted list, and the requests that were granted keep what they hold. -/
theorem moveToGranted_grows {k₁ k₂ : LockMode → Nat} {modes₁ modes₂ : UInt32} {c : Nat}
    (h : Inv m) (hr : r ∈ (m.heads resId).conflictList) :
    Grows resId m ((m.setHead resId { m.heads resId with
      conflictList := (m.heads resId).conflictList.erase r, conflictCounts := k₁,
      conflictModes := modes₁, grantedList := (m.heads resId).grantedList ++ [r],
      grantedCounts := k₂, grantedModes := modes₂, compatibleFirstCount := c }).setRequest r
      { m.requests r with status := .STATUS_GRANTED }) := by
  have hng : r ∉ (m.heads resId).grantedList := fun hg =>
    (h resId).not_mem_conflict_of_mem_granted hg hr
  have hnames := (h resId).namesOnly_of_on (.inr (.inl hr))
  have hf := Frame.setHead_setRequest (L := { m.heads resId with
      conflictList := (m.heads resId).conflictList.erase r, conflictCounts := k₁,
      conflictModes := modes₁, grantedList := (m.heads resId).grantedList ++ [r],
      grantedCounts := k₂, grantedModes := modes₂, compatibleFirstCount := c })
    (show NamesOnly { m.requests r with status := .STATUS_GRANTED } resId from
      ⟨hnames.lock, hnames.partitionedLock⟩) (h.offLists_of_namesOnly hnames)
  exact Grows.setHead_setRequest hf (fun q hq => by simp [hq])
    (fun q hq hqr => by simpa [hqr] using hq) (fun hg => absurd hg hng) fun _ hs => by simp at hs

/-- The second loop of `_onLockModeChanged`, over the waiting requests it has not yet looked at,
leaves the front of the conflict list held back. Until it skips a request, the conflict list is
what it has left to look at, as it granted all it passed; once it has skipped one, that one is at
the front, held back, and what the loop grants after it only adds to what holds it back. A
granted `MODE_X` stops the loop, and holds back any request behind it. -/
theorem grantWaiting_queues :
    ∀ {l : List RequestId} {hasPrev newlyCompatibleFirst : Bool} {m m' : LockManager}, Inv m →
      Excl m → Acquired m → l.Nodup → (∀ q ∈ l, q ∈ (m.heads resId).conflictList) →
      (hasPrev = false → (m.heads resId).conflictList = l) →
      (hasPrev = true → ∃ f rest, (m.heads resId).conflictList = f :: rest ∧ f ∉ l ∧
        Blocked m resId f (m.requests f).mode) →
      grantWaiting resId l hasPrev newlyCompatibleFirst m = .ok m' →
      Grows resId m m' ∧ FrontHeld m' resId ∧ Acquired m'
  | [], hasPrev, _, m, m', _, _, ha, _, _, hfresh, hskipped, hcall => by
    rw [grantWaiting, pure_eq_ok] at hcall
    subst hcall
    refine ⟨Grows.refl resId m, fun f rest hl => ?_, ha⟩
    cases hasPrev
    · rw [hfresh rfl] at hl
      cases hl
    · obtain ⟨f', rest', hl', -, hblocked⟩ := hskipped rfl
      rw [hl', List.cons.injEq] at hl
      obtain ⟨rfl, -⟩ := hl
      exact hblocked
  | r :: rest, hasPrev, ncf, m, m', h, he, ha, hnd, hl, hfresh, hskipped, hcall => by
    obtain ⟨hnr, hnd'⟩ := List.nodup_cons.mp hnd
    have hr := hl r List.mem_cons_self
    have hrest : ∀ q ∈ rest, q ∈ (m.heads resId).conflictList :=
      fun q hq => hl q (List.mem_cons_of_mem r hq)
    have hng : r ∉ (m.heads resId).grantedList := fun hg =>
      (h resId).not_mem_conflict_of_mem_granted hg hr
    -- what the loop has skipped, if anything, is at the front and not `r`
    have hskipped' : hasPrev = true → ∃ f rest', (m.heads resId).conflictList = f :: rest' ∧
        f ∉ rest ∧ f ≠ r ∧ Blocked m resId f (m.requests f).mode := by
      intro hp
      obtain ⟨f, rest', hl', hf, hb⟩ := hskipped hp
      exact ⟨f, rest', hl', fun hf' => hf (List.mem_cons_of_mem r hf'),
        fun hfr => hf (hfr ▸ List.mem_cons_self), hb⟩
    obtain ⟨-, ⟨hconf, hstop⟩ |
        ⟨hfree, hpos, modes₁, modes₂, c, m₁, hmodes₁, hmodes₂, hm₁, hnext⟩⟩ :=
      grantWaiting_cons_eq_ok (h resId) hcall
    · -- it conflicts: held back, at the front if the loop skipped nothing
      have hfront : ∃ f rest', (m.heads resId).conflictList = f :: rest' ∧ f ∉ rest ∧
          Blocked m resId f (m.requests f).mode := by
        cases hasPrev
        · exact ⟨r, rest, hfresh rfl, hnr, ((h resId).conflicts_iff_blocked hng _).mp hconf⟩
        · obtain ⟨f, rest', hl', hf, -, hb⟩ := hskipped' rfl
          exact ⟨f, rest', hl', hf, hb⟩
      rcases hstop with ⟨-, rfl⟩ | ⟨-, hcall⟩
      · -- the scan stops
        obtain ⟨f, rest', hl', -, hb⟩ := hfront
        refine ⟨Grows.refl resId _, fun f' rest'' hl'' => ?_, ha⟩
        rw [hl', List.cons.injEq] at hl''
        obtain ⟨rfl, -⟩ := hl''
        exact hb
      · exact grantWaiting_queues h he ha hnd' hrest (fun hp => by cases hp) (fun _ => hfront) hcall
    · -- granted: it moves to the end of the granted list
      obtain ⟨h₁, he₁⟩ : Inv m₁ ∧ Excl m₁ :=
        hm₁ ▸ moveToGranted_safe h he hr hfree hpos hmodes₁ hmodes₂ c
      have hg₁ : Grows resId m m₁ := hm₁ ▸ moveToGranted_grows h hr
      have hreqs : m₁.requests =
          Function.update m.requests r { m.requests r with status := .STATUS_GRANTED } := by
        rw [hm₁]
        rfl
      have hgl : (m₁.heads resId).grantedList = (m.heads resId).grantedList ++ [r] := by simp [hm₁]
      have hcl : (m₁.heads resId).conflictList = (m.heads resId).conflictList.erase r := by
        simp [hm₁]
      have hg₂ : Grows resId m (m₁.notify r resId) := hg₁.trans (Keeps.notify resId).toGrows
      have ha₂ : Acquired (m₁.notify r resId) :=
        ha.of_update hreqs fun _ => ha r (by simp [((h resId).waitingOn r hr).status])
      have hother : ∀ q, q ≠ r → ((m₁.notify r resId).requests q) = m.requests q :=
        fun q hqr => by simp [hreqs, Function.update_of_ne hqr]
      -- the loop's account of the conflict list, for what it has left
      have hfresh₂ : hasPrev = false → ((m₁.notify r resId).heads resId).conflictList = rest := by
        intro hp
        simp [hcl, hfresh hp]
      have hskipped₂ : hasPrev = true → ∃ f rest', ((m₁.notify r resId).heads resId).conflictList =
          f :: rest' ∧ f ∉ rest ∧ Blocked (m₁.notify r resId) resId f
            ((m₁.notify r resId).requests f).mode := by
        intro hp
        obtain ⟨f, rest', hl', hf, hfr, hb⟩ := hskipped' hp
        refine ⟨f, rest'.erase r, by simp [hcl, hl', hfr], hf, ?_⟩
        rw [hother f hfr]
        exact hb.covers hg₂.covers
      rcases hnext with ⟨hx, rfl⟩ | ⟨-, hcall⟩
      · -- a granted `MODE_X` stops the scan, and holds back whatever is behind it
        refine ⟨hg₂, fun f rest' hl' => ?_, ha₂⟩
        cases hasPrev
        · have hf : f ∈ rest := by
            rw [← hfresh₂ rfl, hl']
            exact List.mem_cons_self
          have hfr : f ≠ r := fun hfr => hnr (hfr ▸ hf)
          have hmode : (m.requests f).mode ≠ .MODE_NONE :=
            ha f (by simp [((h resId).waitingOn f (hrest f hf)).status])
          refine ⟨r, .MODE_X, Ne.symm hfr, by simp [hgl], by simp [hreqs, grantedWeight, hx], ?_⟩
          rw [hother f hfr]
          exact conflictsWith_MODE_X hmode
        · obtain ⟨f', rest'', hl'', -, hb⟩ := hskipped₂ rfl
          rw [hl'', List.cons.injEq] at hl'
          obtain ⟨rfl, -⟩ := hl'
          exact hb
      · refine (fun hrec => ⟨hg₂.trans hrec.1, hrec.2⟩) (grantWaiting_queues (h₁.notify r resId)
          (he₁.notify r resId) ha₂ hnd' (fun q hq => ?_) hfresh₂ hskipped₂ hcall)
        have hqr : q ≠ r := fun hqr => hnr (hqr ▸ hq)
        simpa [hcl] using (List.mem_erase_of_ne hqr).mpr (hrest q hq)

/-- `_onLockModeChanged` puts the queues back: its first loop leaves every conversion held back,
and its second, when it runs, the front of the conflict list. When the second does not run, the
front was held back before, and the first loop only adds to what holds it back. -/
theorem onLockModeChanged_queues {checkConflictQueue : Bool} (h : Inv m) (he : Excl m)
    (ha : Acquired m) (hfront : checkConflictQueue = false → FrontBlocked m resId)
    (hcall : m.onLockModeChanged resId checkConflictQueue = .ok m') :
    Frame resId m m' ∧ QueueInv m' resId ∧ Acquired m' := by
  obtain ⟨m₁, hconv, hwait⟩ := onLockModeChanged_eq_ok hcall
  obtain ⟨h₁, he₁⟩ := grantConversions_safe h he (fun q hq => hq) hconv
  obtain ⟨hk₁, hcb₁, ha₁⟩ := grantConversions_queues h he ha (h resId).grantedNodup
    (fun q hq => hq) (fun q hq hnq => absurd hq hnq) hconv
  rcases hwait with ⟨-, hwait⟩ | ⟨hcheck, rfl⟩
  · obtain ⟨hg₂, hfront₂, ha₂⟩ := grantWaiting_queues h₁ he₁ ha₁ (h₁ resId).conflictNodup
      (fun q hq => hq) (fun _ => rfl) (fun hp => by cases hp) hwait
    exact ⟨hk₁.frame.trans hg₂.frame, ⟨hfront₂.frontBlocked, hcb₁.grows hg₂⟩, ha₂⟩
  · exact ⟨hk₁.frame, ⟨(hfront hcheck).keeps hk₁, hcb₁⟩, ha₁⟩

/-! ### `unlock` and `downgrade` -/

/-- Two masks that match counts positive at the same modes conflict with the same modes. -/
theorem ModesMatch.conflicts_eq {c c' : LockMode → Nat} {x x' : UInt32} (hx : ModesMatch c x)
    (hx' : ModesMatch c' x') (hpos : ∀ e, 0 < c' e ↔ 0 < c e) (a : LockMode) :
    conflicts a x' = conflicts a x := by
  have hbits : ∀ e, hasMode x' e = hasMode x e := fun e => by
    rw [hx e, hx' e, decide_eq_decide]
    exact hpos e
  rw [Bool.eq_iff_iff, conflicts_iff, conflicts_iff]
  simp only [hbits]

/-- With every request placed in a mode other than `MODE_NONE` and every conversion held back,
nobody holds or converts to `MODE_NONE`. -/
theorem ResInv.grantedCounts_none (h : ResInv m resId) (hconv : ConversionsBlocked m resId)
    (ha : Acquired m) : (m.heads resId).grantedCounts .MODE_NONE = 0 := by
  rw [h.grantedCounts, tally_eq_zero_iff]
  intro q hq
  have hmode : (m.requests q).mode ≠ .MODE_NONE :=
    ha q (by rcases (h.grantedOn q hq).status with hs | hs <;> simp [hs])
  by_cases hs : (m.requests q).status = .STATUS_CONVERTING
  · have hnone := (hconv q hq hs).ne_none
    simp [grantedWeight, hmode, hnone]
  · simp [grantedWeight, hmode, hs]

/-- The part of `unlock` past its fast paths keeps the queues. A granted request released
re-scans the conflict list unless another request still holds its mode, and the masks are then
as they were. A waiting one re-scans. A converting one re-scans if nobody holds `MODE_NONE`, the
count it reads, and nobody does. -/
theorem unlockOnHead_queues (h : Inv m) (he : Excl m) (hq : Queues m) (hrel : Releasing m resId r)
    (hcall : m.unlockOnHead resId r = .ok m') : Queues m' := by
  rcases unlockOnHead_eq_ok (h resId) hcall with ⟨hstatus, hpos, modes, c, hmodes, hcall⟩ |
      ⟨hstatus, hzero, hpos, modes, hmodes, hcall⟩ | ⟨hstatus, -, hk, hpos, modes, hmodes, hcall⟩
  · obtain ⟨h₁, he₁⟩ := eraseGranted_safe h he (hrel.granted (.inl hstatus)) hstatus
      (hrel.last hstatus) hpos hmodes c
    -- with no re-scan another request holds the mode: the granted mask is as it was
    have hfront : ((m.heads resId).grantedCounts (m.requests r).mode - 1 == 0) = false →
        FrontBlocked (m.setHead resId { m.heads resId with
          grantedList := (m.heads resId).grantedList.erase r,
          grantedCounts := Function.update (m.heads resId).grantedCounts (m.requests r).mode
            ((m.heads resId).grantedCounts (m.requests r).mode - 1),
          grantedModes := modes, compatibleFirstCount := c }) resId := by
      intro hb f rest hl hfront
      have hmore : 1 < (m.heads resId).grantedCounts (m.requests r).mode := by
        simp only [beq_eq_false_iff_ne, ne_eq] at hb
        omega
      have hl₀ : (m.heads resId).conflictList = f :: rest := by simpa using hl
      have hf : f ∉ (m.heads resId).grantedList := fun hf =>
        (h resId).not_mem_conflict_of_mem_granted hf (by simp [hl₀])
      have hf₁ : f ∉ ((m.setHead resId { m.heads resId with
          grantedList := (m.heads resId).grantedList.erase r,
          grantedCounts := Function.update (m.heads resId).grantedCounts (m.requests r).mode
            ((m.heads resId).grantedCounts (m.requests r).mode - 1),
          grantedModes := modes, compatibleFirstCount := c }).heads resId).grantedList :=
        fun hf' => hf (List.mem_of_mem_erase (by simpa using hf'))
      have hblocked := (hq.queue resId).front f rest hl₀ hfront
      rw [← (h resId).conflicts_iff_blocked hf] at hblocked
      rw [← (h₁ resId).conflicts_iff_blocked hf₁]
      simp only [setHead_requests, setHead_heads, Function.update_self]
      refine (ModesMatch.conflicts_eq (h resId).grantedModes hmodes (fun e => ?_) _).trans hblocked
      by_cases he' : e = (m.requests r).mode
      · subst he'
        simp only [Function.update_self]
        omega
      · simp [Function.update_of_ne he']
    obtain ⟨hf', hq', ha'⟩ := onLockModeChanged_queues h₁ he₁ hq.acquired hfront hcall
    exact hq.of_step ((Frame.setHead _).trans hf') hq' ha'
  · -- a waiting request leaves: the conflict list is re-scanned
    obtain ⟨h₁, he₁⟩ := eraseWaiting_safe h he (hrel.waiting hstatus) hzero hpos hmodes
    obtain ⟨hf', hq', ha'⟩ := onLockModeChanged_queues h₁ he₁ hq.acquired (fun hb => by cases hb)
      hcall
    exact hq.of_step ((Frame.setHead _).trans hf') hq' ha'
  · have hr := hrel.granted (.inr hstatus)
    obtain ⟨h₁, he₁⟩ := cancelConversion_safe h he hr hstatus hk hpos hmodes
    -- nobody holds `MODE_NONE`, so the count read is zero and the conflict list is re-scanned
    have hnone := (h resId).grantedCounts_none (hq.queue resId).converting hq.acquired
    have hconvNone := ((hq.queue resId).converting r hr hstatus).ne_none
    have hf := Frame.setHead_setGranted (L := { m.heads resId with
        conversionsCount := (m.heads resId).conversionsCount - 1,
        grantedCounts := Function.update (m.heads resId).grantedCounts (m.requests r).convertMode
          ((m.heads resId).grantedCounts (m.requests r).convertMode - 1),
        grantedModes := modes }) h hr
      (show GrantedOn { m.requests r with status := .STATUS_GRANTED, convertMode := .MODE_NONE }
        resId from ((h resId).grantedOn r hr).granted rfl rfl rfl)
    obtain ⟨hf', hq', ha'⟩ := onLockModeChanged_queues h₁ he₁
      (hq.acquired.of_update rfl fun _ => hq.acquired r (by simp [hstatus]))
      (fun hb => by simp [hnone, Function.update_of_ne (Ne.symm hconvNone)] at hb) hcall
    exact hq.of_step (hf.trans hf') hq' ha'

/-- `unlock` keeps the queues: a release that leaves the request held only counts it down, a
release from a partitioned head leaves the `LockHead`s as they were, and any other runs on the
`LockHead`. -/
theorem unlock_queues {released : Bool} (h : Inv m) (he : Excl m) (hq : Queues m)
    (hcall : m.unlock r = .ok (m', released)) : Queues m' := by
  obtain ⟨hpos, _, rfl, hpath⟩ := unlock_eq_ok hcall
  set m₁ := m.setRequest r
    { m.requests r with recursiveCount := (m.requests r).recursiveCount - 1 }
  have h₁ : Inv m₁ := fun x => (h x).setRequest_same rfl rfl rfl rfl rfl fun _ => hpos
  have he₁ : Excl m₁ := fun x => (he x).setRequest_same rfl rfl rfl
  have hq₁ : Queues m₁ := hq.setRequest_same rfl rfl rfl rfl
  rcases hpath with ⟨-, -, rfl⟩ | ⟨hlast, ⟨p, x, -, -, rfl⟩ | ⟨x, hlock, hhead⟩⟩
  · -- released but still held: only the count went down
    exact hq₁
  · -- still partitioned: off the partitioned head
    exact hq₁.of_partitions (fun x => ⟨rfl, rfl⟩) rfl
  · -- on the `LockHead` of the resource it names
    exact unlockOnHead_queues h₁ he₁ hq₁ (Releasing.of_unlock h hpos hlock hlast) hhead

/-- `downgrade` to a mode other than `MODE_NONE` keeps the queues: it re-scans the conflict
list. -/
theorem downgrade_queues {newMode : LockMode} (h : Inv m) (he : Excl m) (hq : Queues m)
    (hnone : newMode ≠ .MODE_NONE) (hcall : m.downgrade r newMode = .ok m') : Queues m' := by
  obtain ⟨resId, modes, hr, hstatus, hdown, hpos, hmodes, hcall⟩ := downgrade_eq_ok h hcall
  obtain ⟨h₁, he₁⟩ := changeMode_safe h he hr hstatus hpos hmodes
    (fun q hq hq' => conflictsWith_of_downgrade hdown ((he resId).compatible r q (Ne.symm hq) (.inl hr) hq'))
    fun hp => intentCompatible_of_downgrade hdown (((he resId).partitioned hp).2 r hr).1
  have hf := Frame.setHead_setGranted (L := { m.heads resId with
      grantedCounts := Function.update (Function.update (m.heads resId).grantedCounts newMode
        ((m.heads resId).grantedCounts newMode + 1)) (m.requests r).mode
        (Function.update (m.heads resId).grantedCounts newMode
          ((m.heads resId).grantedCounts newMode + 1) (m.requests r).mode - 1),
      grantedModes := modes }) h hr
    (show GrantedOn { m.requests r with mode := newMode } resId from
      ((h resId).grantedOn r hr).granted rfl rfl hstatus)
  obtain ⟨hf', hq', ha'⟩ := onLockModeChanged_queues h₁ he₁
    (hq.acquired.of_update rfl fun _ => hnone) (fun hb => by cases hb) hcall
  exact hq.of_step (hf.trans hf') hq' ha'

/-! ### Runs -/

/-- The calls that ask only for modes that can be acquired: `lock` and `downgrade` name a mode
other than `MODE_NONE`, which `acquirableModes` leaves out. A conversion to `MODE_NONE` adds no
conflict, so `convert` then only counts the request again. -/
def Call.Acquirable : Call → Prop
  | .lock _ _ mode => mode ≠ .MODE_NONE
  | .convert .. => True
  | .unlock _ => True
  | .downgrade _ newMode => newMode ≠ .MODE_NONE

instance : (c : Call) → Decidable c.Acquirable
  | .lock _ _ mode => inferInstanceAs (Decidable (mode ≠ .MODE_NONE))
  | .convert .. => inferInstanceAs (Decidable True)
  | .unlock _ => inferInstanceAs (Decidable True)
  | .downgrade _ newMode => inferInstanceAs (Decidable (newMode ≠ .MODE_NONE))

/-- Each call that returns and asks for modes that can be acquired keeps the queues. -/
theorem call_queues {c : Call} (h : Inv m) (he : Excl m) (hq : Queues m) (hacq : c.Acquirable)
    (hresp : m.Respects c) (hcall : m.call c = .ok m') : Queues m' := by
  cases c with
  | lock resId r mode =>
    obtain ⟨_, hcall⟩ := ok_of_map_fst hcall
    exact lock_queues h he hq hacq hcall
  | convert resId r newMode =>
    obtain ⟨_, hcall⟩ := ok_of_map_fst hcall
    exact convert_queues h he hq hresp hcall
  | unlock r =>
    obtain ⟨_, hcall⟩ := ok_of_map_fst hcall
    exact unlock_queues h he hq hcall
  | downgrade r newMode => exact downgrade_queues h he hq hacq hcall

/-- No lock held: every list is empty, and every request new. -/
theorem init_queues (requests : RequestId → LockerId × Bool × Bool) : Queues (init requests) :=
  ⟨fun resId => ⟨fun f rest hl => by simp [init, LockHead.initNew] at hl,
    fun q hq => by simp [init, LockHead.initNew] at hq⟩,
    fun q hq => by simp [init, LockRequest.initNew] at hq⟩

/-- The states the lock manager reaches from one where no lock is held by calls that ask only for
modes that can be acquired. -/
inductive AcquirableReachable : LockManager → Prop
  | init (requests : RequestId → LockerId × Bool × Bool) :
      AcquirableReachable (LockManager.init requests)
  | call {m m' : LockManager} (c : Call) : AcquirableReachable m → c.Acquirable → m.Respects c →
      m.call c = .ok m' → AcquirableReachable m'

theorem AcquirableReachable.reachable (hm : AcquirableReachable m) : Reachable m := by
  induction hm with
  | init requests => exact .init requests
  | call c _ _ hresp hcall ih => exact .call c ih hresp hcall

/-- Calls that return and ask for modes that can be acquired carry such a state to such a state. -/
theorem AcquirableReachable.of_run :
    ∀ {calls : List Call} {m : LockManager}, AcquirableReachable m → (∀ c ∈ calls, c.Acquirable) →
      m.run calls = .ok m' → AcquirableReachable m'
  | [], m, hm, _, h => by
    rw [run, pure_eq_ok] at h
    exact h ▸ hm
  | c :: calls, m, hm, hacq, h => by
    rw [run] at h
    split_ifs at h with hc
    obtain ⟨m₁, h₁, h₂⟩ := bind_eq_ok.mp h
    exact AcquirableReachable.of_run (.call c hm (hacq c List.mem_cons_self) hc h₁)
      (fun c' hc' => hacq c' (List.mem_cons_of_mem c hc')) h₂

/-- A property that the state some calls reach from no lock held is checked to have holds of a
state reached by calls that ask for modes that can be acquired, when each of them does. -/
theorem exists_acquirableReachable_of_run {requests : RequestId → LockerId × Bool × Bool}
    {calls : List Call} {p : LockManager → Prop} [DecidablePred p] (hacq : ∀ c ∈ calls, c.Acquirable)
    (h : ((init requests).run calls).map (fun m => decide (p m)) = .ok true) :
    ∃ m, AcquirableReachable m ∧ p m := by
  cases hrun : (init requests).run calls with
  | error e =>
    rw [hrun] at h
    cases h
  | ok m =>
    have hp : decide (p m) = true := by simpa [hrun, Except.map] using h
    exact ⟨m, AcquirableReachable.of_run (.init requests) hacq hrun, of_decide_eq_true hp⟩

/-- The queues hold in every state reached by calls that ask for modes that can be acquired, by
induction on the calls. -/
theorem queues_of_acquirableReachable (hm : AcquirableReachable m) : Queues m := by
  induction hm with
  | init requests => exact init_queues requests
  | call c hm' hacq hresp hcall ih =>
    obtain ⟨h, he⟩ := safe_of_reachable hm'.reachable
    exact call_queues h he ih hacq hresp hcall

end Concurrency

end Mongo
