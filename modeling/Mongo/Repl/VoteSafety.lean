import Mathlib.Data.List.Basic
import Mongo.Repl.ReplicationCoordinator

/-! One real-election vote per term. The argument of the source is that a member grants such
a vote only in its current term and records it as `_lastVote`, so that a second request of the
term is refused, and that it votes for itself only in a new term. That needs the term update a
request makes to take effect before its vote. It does, but on a primary that is already
stepping down: there `updateTerm` keeps the old term and the request does not wait, so the
vote goes to a term the member has not reached, and a vote of another term then overwrites
`_lastVote`.

`VoteInv` is the invariant of the argument. Every operation keeps it except a vote request
during a stepdown and a reload of the last vote once the member has voted; the last section
is a run of the member that grants two votes in one term. -/

namespace Mongo.Repl

namespace Member

/-- At most one candidate gets a real-election vote in a term, and none does in a term in
which the member voted for itself. -/
structure OneVotePerTerm (m : Member) : Prop where
  unique : ∀ v ∈ m.votesGranted, ∀ w ∈ m.votesGranted, v.term = w.term → v = w
  notSelf : ∀ v ∈ m.votesGranted, v.term ∉ m.selfVotes

/-- What a request waiting for a stepdown relies on: the stepdown is under way, and its pending
term update reaches the request's term. -/
def Waits (rc : ReplicationCoordinator) (args : ReplSetRequestVotesArgs) : Prop :=
  rc.topCoord.leaderMode = .kSteppingDown ∧
    ∃ p, rc.pendingTermUpdateDuringStepDown = some p ∧ args.term ≤ p

/-- The invariant behind one vote per term: every vote is in a term the member has reached, a
vote in the current term is the last vote, and a request that goes on after a stepdown has a
term the member has reached by then. -/
structure VoteInv (m : Member) : Prop where
  votes_le : ∀ v ∈ m.votesGranted, v.term ≤ m.coord.topCoord.term
  selfVotes_le : ∀ t ∈ m.selfVotes, t ≤ m.coord.topCoord.term
  lastVote_of_vote : ∀ v ∈ m.votesGranted, v.term = m.coord.topCoord.term →
    m.coord.topCoord.lastVote = v
  lastVote_of_selfVote : ∀ t ∈ m.selfVotes, t = m.coord.topCoord.term →
    m.coord.topCoord.lastVote = ⟨t, m.coord.topCoord.selfIndex⟩
  waiting : ∀ a ∈ m.coord.waitingForStepDown, Waits m.coord a
  finished : ∀ a ∈ m.coord.stepDownFinished, a.term ≤ m.coord.topCoord.term
  oneVote : m.OneVotePerTerm

/-- The operations the argument of the source assumes away: a vote request that arrives while
a stepdown is under way, and a reload of the last-vote document after the first vote. -/
def Guarded (m : Member) : Op → Prop
  | .requestVotes _ => m.coord.topCoord.leaderMode ≠ .kSteppingDown
  | .loadLastVote => m.votesGranted = [] ∧ m.selfVotes = []
  | _ => True

variable {m m' : Member}

/-! ### Operations that keep the history -/

/-- The invariant survives a change that keeps the history, the last vote and the member's
index and does not lower the term, as long as the requests still queued are as the invariant
says. -/
theorem VoteInv.of_frame (h : VoteInv m)
    (hvotes : m'.votesGranted = m.votesGranted) (hself : m'.selfVotes = m.selfVotes)
    (hterm : m.coord.topCoord.term ≤ m'.coord.topCoord.term)
    (hlast : m'.coord.topCoord.lastVote = m.coord.topCoord.lastVote)
    (hindex : m'.coord.topCoord.selfIndex = m.coord.topCoord.selfIndex)
    (hwaiting : ∀ a ∈ m'.coord.waitingForStepDown, Waits m'.coord a)
    (hfinished : ∀ a ∈ m'.coord.stepDownFinished, a.term ≤ m'.coord.topCoord.term) :
    VoteInv m' where
  votes_le v hv := Int.le_trans (h.votes_le v (hvotes ▸ hv)) hterm
  selfVotes_le t ht := Int.le_trans (h.selfVotes_le t (hself ▸ ht)) hterm
  lastVote_of_vote v hv he := by
    rw [hvotes] at hv
    -- the vote is in a term no later than the old one, so the term has not moved
    have hle := h.votes_le v hv
    rw [hlast]
    exact h.lastVote_of_vote v hv (by omega)
  lastVote_of_selfVote t ht he := by
    rw [hself] at ht
    have hle := h.selfVotes_le t ht
    rw [hlast, hindex]
    exact h.lastVote_of_selfVote t ht (by omega)
  waiting := hwaiting
  finished := hfinished
  oneVote := by
    constructor
    · rw [hvotes]
      exact h.oneVote.unique
    · rw [hvotes, hself]
      exact h.oneVote.notSelf

/-- The queues, the pending term and the leader mode unchanged, the waiting requests are as
before. -/
theorem VoteInv.waiting_of_eq (h : VoteInv m)
    (hw : m'.coord.waitingForStepDown = m.coord.waitingForStepDown)
    (hmode : m'.coord.topCoord.leaderMode = m.coord.topCoord.leaderMode)
    (hpend : m'.coord.pendingTermUpdateDuringStepDown = m.coord.pendingTermUpdateDuringStepDown) :
    ∀ a ∈ m'.coord.waitingForStepDown, Waits m'.coord a := by
  intro a ha
  rw [hw] at ha
  obtain ⟨hm, p, hp, hle⟩ := h.waiting a ha
  exact ⟨hmode ▸ hm, p, hpend ▸ hp, hle⟩

/-- Requests that went on before are still behind the term, which does not go down. -/
theorem VoteInv.finished_of_subset (h : VoteInv m)
    (hf : ∀ a ∈ m'.coord.stepDownFinished, a ∈ m.coord.stepDownFinished)
    (hterm : m.coord.topCoord.term ≤ m'.coord.topCoord.term) :
    ∀ a ∈ m'.coord.stepDownFinished, a.term ≤ m'.coord.topCoord.term :=
  fun a ha => Int.le_trans (h.finished a (hf a ha)) hterm

/-- A new topology coordinator with the same term, last vote, index and leader mode. -/
theorem VoteInv.withTopCoord (h : VoteInv m) {tc : TopologyCoordinator}
    (hterm : tc.term = m.coord.topCoord.term) (hlast : tc.lastVote = m.coord.topCoord.lastVote)
    (hindex : tc.selfIndex = m.coord.topCoord.selfIndex)
    (hmode : tc.leaderMode = m.coord.topCoord.leaderMode ∨ m.coord.waitingForStepDown = []) :
    VoteInv (m.withTopCoord tc) := by
  have hwaiting : ∀ a ∈ (m.withTopCoord tc).coord.waitingForStepDown,
      Waits (m.withTopCoord tc).coord a := by
    rcases hmode with hmode | hnil
    · exact h.waiting_of_eq rfl hmode rfl
    · simp [Member.withTopCoord, hnil]
  exact h.of_frame rfl rfl (Int.le_of_eq hterm.symm) hlast hindex hwaiting
    (h.finished_of_subset (fun _ ha => ha) (Int.le_of_eq hterm.symm))

/-! ### Term updates and stepdowns -/

/-- `_updateTerm_inlock` keeps the invariant: a higher term leaves no vote in the new term, and
a stepdown only raises the pending term. -/
theorem VoteInv.updateTermInlock (h : VoteInv m) (term : Int) :
    VoteInv { m with coord := (m.coord.updateTermInlock term).1 } := by
  rcases m.coord.updateTermInlock_cases term with ⟨-, he⟩ | ⟨-, -, he⟩ | ⟨hlt, -, he⟩
  · rw [he]
    exact h
  · -- the stepdown: the leader mode is stepping down, and the pending term only goes up
    rw [he]
    obtain ⟨p', hp', -, hq⟩ := ReplicationCoordinator.raisePending_spec
      m.coord.pendingTermUpdateDuringStepDown term
    refine h.of_frame rfl rfl (Int.le_refl _) rfl rfl ?_ (h.finished_of_subset (fun _ ha => ha)
      (Int.le_refl _))
    intro a ha
    obtain ⟨-, p, hp, hle⟩ := h.waiting a ha
    exact ⟨rfl, p', hp', Int.le_trans hle (hq p hp)⟩
  · -- the new term
    rw [he]
    exact h.of_frame rfl rfl (Int.le_of_lt hlt) rfl rfl (h.waiting_of_eq rfl rfl rfl)
      (h.finished_of_subset (fun _ ha => ha) (Int.le_of_lt hlt))

/-- `_stepDownFinish` keeps the invariant: the waiting requests go on in a term that has
reached theirs. -/
theorem VoteInv.stepDownFinish (h : VoteInv m) {rc : ReplicationCoordinator}
    (hs : m.coord.stepDownFinish = some rc) : VoteInv { m with coord := rc } := by
  rcases m.coord.stepDownFinish_eq_some hs with ⟨-, rfl⟩ | ⟨hm, rfl⟩
  · have hterm := Int.le_max_left m.coord.topCoord.term
      (m.coord.pendingTermUpdateDuringStepDown.getD m.coord.topCoord.term)
    refine h.of_frame rfl rfl hterm rfl rfl (by simp [ReplicationCoordinator.signalStepDownFinished])
      ?_
    simp only [ReplicationCoordinator.signalStepDownFinished, List.mem_append]
    rintro a (ha | ha)
    · exact Int.le_trans (h.finished a ha) hterm
    · -- a waiting request: the pending term update has reached its term
      obtain ⟨-, p, hp, hle⟩ := h.waiting a ha
      rw [hp, Option.getD_some] at *
      exact Int.le_trans hle (Int.le_max_right _ _)
  · -- no stepdown under way: no request waits
    have hnil : m.coord.waitingForStepDown = [] :=
      List.eq_nil_iff_forall_not_mem.mpr fun a ha => hm (h.waiting a ha).1
    refine h.of_frame rfl rfl (Int.le_refl _) rfl rfl
      (by simp [ReplicationCoordinator.signalStepDownFinished]) ?_
    simpa [ReplicationCoordinator.signalStepDownFinished, hnil] using h.finished

/-! ### Votes -/

/-- The vote of a request whose term the member has reached keeps the invariant: a grant is in
the current term, where the last vote shows no earlier vote, and becomes the last vote. -/
theorem VoteInv.processReplSetRequestVotesInlock (h : VoteInv m) (args : ReplSetRequestVotesArgs)
    (hterm : args.term ≤ m.coord.topCoord.term) :
    VoteInv { m with
      coord := (m.coord.processReplSetRequestVotesInlock args).1
      votesGranted := m.votesGranted ++ ReplicationCoordinator.grantedVotes args
        (m.coord.processReplSetRequestVotesInlock args).2 } := by
  obtain ⟨hpend, hwait, hfin, ⟨hg, htc⟩ | ⟨hg, hle, hne, htc⟩⟩ :=
    m.coord.processReplSetRequestVotesInlock_cases args
  · -- no vote granted
    rw [hg, List.append_nil]
    have hterm' := Int.le_of_eq (congrArg TopologyCoordinator.term htc).symm
    refine h.of_frame rfl rfl hterm' (congrArg TopologyCoordinator.lastVote htc)
      (congrArg TopologyCoordinator.selfIndex htc) ?_ ?_
    · have hmode : (m.coord.processReplSetRequestVotesInlock args).1.topCoord.leaderMode =
          m.coord.topCoord.leaderMode := by rw [htc]
      exact h.waiting_of_eq hwait hmode hpend
    · exact h.finished_of_subset (fun a ha => hfin ▸ ha) hterm'
  · have heq : args.term = m.coord.topCoord.term := Int.le_antisymm hterm hle
    -- an earlier vote or self vote in this term would be the last vote
    have hnone : ∀ v ∈ m.votesGranted, v.term ≠ args.term := fun v hv hv' =>
      hne (by rw [h.lastVote_of_vote v hv (hv'.trans heq)]; exact hv')
    have hnoself : args.term ∉ m.selfVotes := fun ht =>
      hne (by rw [h.lastVote_of_selfVote _ ht heq])
    rw [hg]
    constructor
    · simp only [List.mem_append, List.mem_singleton, htc]
      rintro v (hv | rfl)
      · exact h.votes_le v hv
      · exact hterm
    · simpa only [htc] using h.selfVotes_le
    · simp only [List.mem_append, List.mem_singleton, htc]
      rintro v (hv | rfl) hv'
      · exact absurd (hv'.trans heq.symm) (hnone v hv)
      · rfl
    · simp only [htc]
      intro t ht ht'
      exact absurd (ht'.trans heq.symm ▸ ht) hnoself
    · have hmode : (m.coord.processReplSetRequestVotesInlock args).1.topCoord.leaderMode =
          m.coord.topCoord.leaderMode := by rw [htc]
      exact h.waiting_of_eq hwait hmode hpend
    · simpa only [hfin, htc] using h.finished
    · constructor
      · simp only [List.mem_append, List.mem_singleton]
        rintro v (hv | rfl) w (hw | rfl) hvw
        · exact h.oneVote.unique v hv w hw hvw
        · exact absurd hvw (hnone v hv)
        · exact absurd hvw.symm (hnone w hw)
        · rfl
      · simp only [List.mem_append, List.mem_singleton]
        rintro v (hv | rfl)
        · exact h.oneVote.notSelf v hv
        · exact hnoself

/-- A vote request that the guard lets in keeps the invariant: its term update takes effect
before its vote, or it waits for the stepdown it started. -/
theorem VoteInv.requestVotes (h : VoteInv m) (args : ReplSetRequestVotesArgs)
    (hg : m.coord.topCoord.leaderMode ≠ .kSteppingDown) :
    VoteInv { m with
      coord := (m.coord.processReplSetRequestVotes args).1
      votesGranted := m.votesGranted ++
        ((m.coord.processReplSetRequestVotes args).2.map
          (ReplicationCoordinator.grantedVotes args)).getD [] } := by
  have h₁ := h.updateTermInlock args.term
  -- the request goes on under `_mutex` in the term the update leaves
  have hinlock (hle : args.term ≤ (m.coord.updateTermInlock args.term).1.topCoord.term)
      (hst : (m.coord.updateTermInlock args.term).2.2 = false) :
      VoteInv { m with
        coord := (m.coord.processReplSetRequestVotes args).1
        votesGranted := m.votesGranted ++
          ((m.coord.processReplSetRequestVotes args).2.map
            (ReplicationCoordinator.grantedVotes args)).getD [] } := by
    simpa [ReplicationCoordinator.processReplSetRequestVotes, hst] using
      h₁.processReplSetRequestVotesInlock args hle
  rcases m.coord.updateTermInlock_cases args.term with ⟨hle, he⟩ | ⟨-, -, he⟩ | ⟨-, -, he⟩
  · exact hinlock (Int.le_trans hle (Int.le_of_eq (by rw [he]))) (by rw [he])
  · -- the request starts the stepdown and waits for it
    obtain ⟨p', hp', hle', hq⟩ := ReplicationCoordinator.raisePending_spec
      m.coord.pendingTermUpdateDuringStepDown args.term
    simp only [ReplicationCoordinator.processReplSetRequestVotes, he, hg, ne_eq,
      decide_not, decide_false, Bool.not_false, if_true, Option.map_none, Option.getD_none,
      List.append_nil]
    refine h.of_frame rfl rfl (Int.le_refl _) rfl rfl ?_ (h.finished_of_subset
      (fun _ ha => ha) (Int.le_refl _))
    simp only [List.mem_append, List.mem_singleton]
    rintro a (ha | rfl)
    · obtain ⟨-, p, hp, hle⟩ := h.waiting a ha
      exact ⟨rfl, p', hp', Int.le_trans hle (hq p hp)⟩
    · exact ⟨rfl, p', hp', hle'⟩
  · exact hinlock (Int.le_of_eq (by rw [he])) (by rw [he])

/-- `_startRealElection_inlock` keeps the invariant: the self vote is in a term above every
vote. -/
theorem VoteInv.startRealElection (h : VoteInv m) {rc : ReplicationCoordinator}
    (hr : m.coord.topCoord.role = .kCandidate)
    (hs : m.coord.startRealElection (m.coord.topCoord.term + 1) = some rc) :
    VoteInv { m with coord := rc, selfVotes := m.selfVotes ++ [m.coord.topCoord.term + 1] } := by
  obtain ⟨-, stored, rfl⟩ :=
    m.coord.startRealElection_eq_some _ (by rw [hr]; exact nofun) hs
  -- every earlier vote is at most the old term, below the new one
  have hlow : ∀ v ∈ m.votesGranted, v.term ≠ m.coord.topCoord.term + 1 := fun v hv => by
    have := h.votes_le v hv
    omega
  constructor
  · intro v hv
    exact Int.le_trans (h.votes_le v hv) (Int.le_of_lt (Int.lt_succ _))
  · simp only [List.mem_append, List.mem_singleton]
    rintro t (ht | rfl)
    · exact Int.le_trans (h.selfVotes_le t ht) (Int.le_of_lt (Int.lt_succ _))
    · exact Int.le_refl _
  · intro v hv hv'
    exact absurd hv' (hlow v hv)
  · simp only [List.mem_append, List.mem_singleton]
    rintro t (ht | rfl) ht'
    · have := h.selfVotes_le t ht
      omega
    · rfl
  · exact h.waiting_of_eq rfl rfl rfl
  · exact h.finished_of_subset (fun _ ha => ha) (Int.le_of_lt (Int.lt_succ _))
  · constructor
    · exact h.oneVote.unique
    · simp only [List.mem_append, List.mem_singleton, not_or]
      intro v hv
      exact ⟨h.oneVote.notSelf v hv, hlow v hv⟩

/-! ### Runs -/

/-- One step that the guard lets in keeps the invariant. -/
theorem VoteInv.step (h : VoteInv m) {op : Op} (hg : Guarded m op) (hs : m.step op = some m') :
    VoteInv m' := by
  cases op with
  | updateTerm term =>
    cases hs
    exact h.updateTermInlock term
  | requestVotes args =>
    cases hs
    exact h.requestVotes args hg
  | resumeRequestVotes i =>
    simp only [Member.step] at hs
    cases hi : m.coord.stepDownFinished[i]? with
    | none => simp [hi] at hs
    | some args =>
      simp only [hi, Option.some.injEq] at hs
      subst hs
      -- the request leaves the queue, then votes in a term that has reached its own
      let m₁ : Member :=
        { m with coord := { m.coord with stepDownFinished := m.coord.stepDownFinished.eraseIdx i } }
      have h₁ : VoteInv m₁ := h.of_frame rfl rfl (Int.le_refl _) rfl rfl
        (h.waiting_of_eq rfl rfl rfl)
        (h.finished_of_subset (fun _ ha => List.mem_of_mem_eraseIdx ha) (Int.le_refl _))
      exact h₁.processReplSetRequestVotesInlock args
        (h.finished args (List.mem_of_getElem? hi))
  | stepDownFinish =>
    simp only [Member.step, Option.map_eq_some_iff] at hs
    obtain ⟨rc, hrc, rfl⟩ := hs
    exact h.stepDownFinish hrc
  | becomeCandidate =>
    simp only [Member.step, Option.map_eq_some_iff] at hs
    obtain ⟨tc, htc, rfl⟩ := hs
    rw [TopologyCoordinator.becomeCandidateIfElectable_eq_some htc]
    exact h.withTopCoord rfl rfl rfl (.inl rfl)
  | startRealElection =>
    simp only [Member.step] at hs
    split_ifs at hs with hr
    simp only [Option.map_eq_some_iff] at hs
    obtain ⟨rc, hrc, rfl⟩ := hs
    exact h.startRealElection hr hrc
  | winElection =>
    simp only [Member.step, Option.map_eq_some_iff] at hs
    obtain ⟨tc, htc, rfl⟩ := hs
    obtain ⟨hm, rfl⟩ := TopologyCoordinator.processWinElection_eq_some htc
    -- a member with no leader mode has no request waiting for a stepdown
    refine h.withTopCoord rfl rfl rfl (.inr ?_)
    exact List.eq_nil_iff_forall_not_mem.mpr fun a ha => by
      have := (h.waiting a ha).1
      rw [hm] at this
      cases this
  | loseElection =>
    simp only [Member.step, Option.map_eq_some_iff] at hs
    obtain ⟨tc, htc, rfl⟩ := hs
    rw [TopologyCoordinator.processLoseElection_eq_some htc]
    exact h.withTopCoord rfl rfl rfl (.inl rfl)
  | loadLastVote =>
    cases hs
    obtain ⟨hv, hself⟩ := hg
    -- before any vote, only the queues constrain the last vote
    exact ⟨by simp [Member.withTopCoord, hv], by simp [Member.withTopCoord, hself],
      by simp [Member.withTopCoord, hv], by simp [Member.withTopCoord, hself],
      h.waiting_of_eq rfl rfl rfl, h.finished_of_subset (fun _ ha => ha) (Int.le_refl _),
      ⟨by simp [Member.withTopCoord, hv], by simp [Member.withTopCoord, hv]⟩⟩
  | setMyLastAppliedOpTime opTime =>
    cases hs
    exact h.withTopCoord rfl rfl rfl (.inl rfl)
  | enterTerminalShutdown =>
    cases hs
    exact h.of_frame rfl rfl (Int.le_refl _) rfl rfl (h.waiting_of_eq rfl rfl rfl)
      (h.finished_of_subset (fun _ ha => ha) (Int.le_refl _))

/-- The invariant holds along every run that the guard lets in. -/
theorem VoteInv.reachable {m₀ : Member} (h₀ : VoteInv m₀) (h : Reachable Guarded m₀ m) :
    VoteInv m := by
  induction h with
  | init => exact h₀
  | step _ hg hs ih => exact ih.step hg hs

/-- A member starts with no vote and no request. -/
theorem voteInv_initial (rsConfig : ReplSetConfig) (selfIndex : Int) (isArbiter : Bool)
    (findHealthyPrimary : Int → Int) :
    VoteInv (initial rsConfig selfIndex isArbiter findHealthyPrimary) := by
  refine ⟨?_, ?_, ?_, ?_, ?_, ?_, ⟨?_, ?_⟩⟩ <;> simp [initial]

/-- On every run in which no vote request arrives during a stepdown and the last vote is
read back only before the first vote, a member grants at most one vote per term and none in
a term it stood in. -/
theorem oneVotePerTerm_of_guarded {rsConfig : ReplSetConfig} {selfIndex : Int} {isArbiter : Bool}
    {findHealthyPrimary : Int → Int}
    (h : Reachable Guarded (initial rsConfig selfIndex isArbiter findHealthyPrimary) m) :
    m.OneVotePerTerm :=
  ((voteInv_initial rsConfig selfIndex isArbiter findHealthyPrimary).reachable h).oneVote

/-! ### Two votes in one term -/

/-- A config `rs0` of four members, of which the member is the first. -/
def fourMemberConfig : ReplSetConfig := ⟨"rs0", ⟨1, 1⟩, 4⟩

/-- A real-election request of `rs0` in `term` from member `candidateIndex`, as up to date as
the member. -/
def realElectionRequest (term candidateIndex : Int) : ReplSetRequestVotesArgs :=
  ⟨"rs0", term, candidateIndex, ⟨1, 1⟩, ⟨100, 4⟩, false⟩

/-- The member wins term 5, and a heartbeat of term 6 starts its stepdown. Before the stepdown
ends, requests of terms 7, 5 and 7 arrive from members 1, 2 and 3; the primary is still in
term 5, and each request finds a last vote of another term. -/
def stepDownRace : List Op :=
  [.loadLastVote, .updateTerm 4, .setMyLastAppliedOpTime ⟨100, 4⟩, .becomeCandidate,
   .startRealElection, .winElection, .updateTerm 6,
   .requestVotes (realElectionRequest 7 1), .requestVotes (realElectionRequest 5 2),
   .requestVotes (realElectionRequest 7 3), .stepDownFinish]

theorem requestVotes_during_stepDown_votes_twice_in_term :
    ∃ m, Reachable (fun _ _ => True) (initial fourMemberConfig 0 false fun _ => -1) m ∧
      ⟨7, 1⟩ ∈ m.votesGranted ∧ ⟨7, 3⟩ ∈ m.votesGranted ∧
      ⟨5, 2⟩ ∈ m.votesGranted ∧ 5 ∈ m.selfVotes ∧ ¬ m.OneVotePerTerm := by
  have hrun : ((initial fourMemberConfig 0 false fun _ => -1).run stepDownRace).map
      (fun m => (m.votesGranted, m.selfVotes)) = some ([⟨7, 1⟩, ⟨5, 2⟩, ⟨7, 3⟩], [5]) := by
    decide
  cases hr : (initial fourMemberConfig 0 false fun _ => -1).run stepDownRace with
  | none => simp [hr] at hrun
  | some m =>
    simp only [hr, Option.map_some, Option.some.injEq, Prod.mk.injEq] at hrun
    obtain ⟨hv, hs⟩ := hrun
    refine ⟨m, reachable_of_run .init (fun _ _ _ => trivial) hr, by simp [hv], by simp [hv],
      by simp [hv], by simp [hs], ?_⟩
    -- members 1 and 3 both have the vote of term 7
    intro hone
    have h13 := hone.unique ⟨7, 1⟩ (by simp [hv]) ⟨7, 3⟩ (by simp [hv]) rfl
    simp at h13

end Member

end Mongo.Repl
