import Mongo.Repl.TopologyCoordinator

/-! The `ReplicationCoordinatorImpl` around the vote path (`db/repl/replication_coordinator_impl.cpp`
and its heartbeat and election files): `_updateTerm_inlock`, which holds back the term of a
primary in `_pendingTermUpdateDuringStepDown` until `_stepDownFinish`; the two phases of
`processReplSetRequestVotes` on either side of the wait for that stepdown; the self vote of
`_startRealElection_inlock`; and the last-vote document of the external state. A member is
the coordinator with the history of its votes, and it moves by the operations its threads
can run, each one a critical section under `_mutex`. -/

namespace Mongo.Repl

/-- The statuses other than OK that `processReplSetRequestVotes` returns after its term update. -/
inductive ReplError
  | shutdownInProgress
  | badValue
  | invalidReplicaSetConfig
  deriving DecidableEq, Repr

/-- The state of `ReplicationCoordinatorImpl` that the vote path reads and writes. -/
structure ReplicationCoordinator where
  topCoord : TopologyCoordinator
  pendingTermUpdateDuringStepDown : Option Int
  inTerminalShutdown : Bool
  -- the last-vote document of `storeLocalLastVoteDocument`
  storedLastVote : LastVote
  -- vote requests blocked in `updateTerm` on the stepdown their term started
  waitingForStepDown : List ReplSetRequestVotesArgs
  -- vote requests whose stepdown has signalled its end, not yet back under `_mutex`
  stepDownFinished : List ReplSetRequestVotesArgs

namespace ReplicationCoordinator

variable (rc : ReplicationCoordinator)

/-- The new `_pendingTermUpdateDuringStepDown` of `_updateTerm_inlock`: the highest term. -/
def raisePending (pending : Option Int) (term : Int) : Option Int :=
  match pending with
  | some p => if p < term then some term else some p
  | none => some term

/-- `_updateTerm_inlock`, with the result and whether it started a stepdown (a valid event
to wait for). -/
def updateTermInlock (term : Int) : ReplicationCoordinator × UpdateTermResult × Bool :=
  let result := rc.topCoord.updateTerm term
  if result.2 = .kTriggerStepDown then
    let prepared := result.1.prepareForUnconditionalStepDown
    ({ rc with
        topCoord := prepared.1
        pendingTermUpdateDuringStepDown := raisePending rc.pendingTermUpdateDuringStepDown term },
      result.2, prepared.2)
  else ({ rc with topCoord := result.1 }, result.2, false)

/-- `storeLocalLastVoteDocument`: the document is replaced only by a vote of a higher term. -/
def storeLocalLastVoteDocument (lastVote : LastVote) : ReplicationCoordinator :=
  if rc.storedLastVote.term < lastVote.term then { rc with storedLastVote := lastVote } else rc

/-- The checks `processReplSetRequestVotes` makes under `_mutex` before it asks the topology
coordinator. -/
def requestVotesError (args : ReplSetRequestVotesArgs) : Option ReplError :=
  if rc.inTerminalShutdown then some .shutdownInProgress
  else if args.candidateIndex < 0 ∨ rc.topCoord.rsConfig.numMembers ≤ args.candidateIndex then
    some .badValue
  else if rc.topCoord.selfIndex = -1 then some .invalidReplicaSetConfig
  else none

/-- The vote of the topology coordinator, and the store of a granted real-election vote. -/
def voteAndStore (args : ReplSetRequestVotesArgs) :
    ReplicationCoordinator × ReplSetRequestVotesResponse :=
  let result := rc.topCoord.processReplSetRequestVotes args
  let rc' := { rc with topCoord := result.1 }
  if args.dryRun = false ∧ result.2.voteGranted = true then
    (rc'.storeLocalLastVoteDocument ⟨args.term, args.candidateIndex⟩, result.2)
  else (rc', result.2)

/-- The part of `processReplSetRequestVotes` after its term update, under `_mutex` but for the
store of the vote. -/
def processReplSetRequestVotesInlock (args : ReplSetRequestVotesArgs) :
    ReplicationCoordinator × Except ReplError ReplSetRequestVotesResponse :=
  match rc.requestVotesError args with
  | some e => (rc, .error e)
  | none => ((rc.voteAndStore args).1, .ok (rc.voteAndStore args).2)

/-- `processReplSetRequestVotes`: the term update, then the rest, unless the update started a
stepdown; the request then waits for it, and has no response yet. -/
def processReplSetRequestVotes (args : ReplSetRequestVotesArgs) :
    ReplicationCoordinator × Option (Except ReplError ReplSetRequestVotesResponse) :=
  let updated := rc.updateTermInlock args.term
  let rc' := updated.1
  if updated.2.2 then ({ rc' with waitingForStepDown := rc'.waitingForStepDown ++ [args] }, none)
  else
    let result := rc'.processReplSetRequestVotesInlock args
    (result.1, some result.2)

/-- The end of `_stepDownFinish`: the requests that waited for it go on. -/
def signalStepDownFinished : ReplicationCoordinator :=
  { rc with
    waitingForStepDown := []
    stepDownFinished := rc.stepDownFinished ++ rc.waitingForStepDown }

/-- The term update `_stepDownFinish` makes once the node is no longer primary. -/
def applyPendingTermUpdate : Option ReplicationCoordinator :=
  match rc.pendingTermUpdateDuringStepDown with
  | none => some rc
  | some term =>
    let updated := rc.updateTermInlock term
    -- the source's invariant: no second stepdown for the same term
    if updated.2.1 = .kTriggerStepDown then none
    else some { updated.1 with pendingTermUpdateDuringStepDown := none }

/-- `_stepDownFinish`. -/
def stepDownFinish : Option ReplicationCoordinator :=
  if rc.topCoord.leaderMode = .kSteppingDown then do
    let tc ← rc.topCoord.finishUnconditionalStepDown
    let rc' ← applyPendingTermUpdate { rc with topCoord := tc }
    pure rc'.signalStepDownFinished
  -- the node stepped down by other means: only signal
  else some rc.signalStepDownFinished

/-- `_startRealElection_inlock`: the term update must be `kUpdatedTerm`, and the node then
votes for itself and stores that vote. -/
def startRealElection (newTerm : Int) : Option ReplicationCoordinator :=
  let updated := rc.updateTermInlock newTerm
  if updated.2.1 = .kUpdatedTerm then
    let tc := updated.1.topCoord.voteForMyselfV1
    some ({ updated.1 with topCoord := tc }.storeLocalLastVoteDocument tc.lastVote)
  else none

/-- The real-election vote a response of `processReplSetRequestVotes` grants, as a list. -/
def grantedVotes (args : ReplSetRequestVotesArgs) :
    Except ReplError ReplSetRequestVotesResponse → List LastVote
  | .ok response =>
    if args.dryRun = false ∧ response.voteGranted = true then [⟨args.term, args.candidateIndex⟩]
    else []
  | .error _ => []

/-! ### What each function does -/

/-- Storing a last vote changes the document only. -/
theorem storeLocalLastVoteDocument_eq (lastVote : LastVote) :
    rc.storeLocalLastVoteDocument lastVote =
      { rc with storedLastVote :=
          if rc.storedLastVote.term < lastVote.term then lastVote else rc.storedLastVote } := by
  unfold storeLocalLastVoteDocument
  split_ifs <;> rfl

/-- The vote and its store change the topology coordinator as its vote does, and the
document; nothing else. -/
theorem voteAndStore_eq (args : ReplSetRequestVotesArgs) :
    ∃ stored, rc.voteAndStore args =
      ({ rc with topCoord := (rc.topCoord.processReplSetRequestVotes args).1,
                 storedLastVote := stored },
        (rc.topCoord.processReplSetRequestVotes args).2) := by
  unfold voteAndStore
  dsimp only
  split_ifs
  · exact ⟨_, by rw [storeLocalLastVoteDocument_eq]⟩
  · exact ⟨rc.storedLastVote, rfl⟩

/-- The part of a vote request under `_mutex` either grants nothing and leaves the topology
coordinator as it was, or grants a real-election vote that the topology coordinator's checks
allowed and records it as the last vote. The queues and the pending term are untouched. -/
theorem processReplSetRequestVotesInlock_cases (args : ReplSetRequestVotesArgs) :
    let p := rc.processReplSetRequestVotesInlock args
    p.1.pendingTermUpdateDuringStepDown = rc.pendingTermUpdateDuringStepDown ∧
    p.1.waitingForStepDown = rc.waitingForStepDown ∧
    p.1.stepDownFinished = rc.stepDownFinished ∧
    ((grantedVotes args p.2 = [] ∧ p.1.topCoord = rc.topCoord) ∨
     (grantedVotes args p.2 = [⟨args.term, args.candidateIndex⟩] ∧
      rc.topCoord.term ≤ args.term ∧ rc.topCoord.lastVote.term ≠ args.term ∧
      p.1.topCoord = { rc.topCoord with lastVote := ⟨args.term, args.candidateIndex⟩ })) := by
  intro p
  cases he : rc.requestVotesError args with
  | some e =>
    -- an error status, before the topology coordinator is asked
    simp [p, processReplSetRequestVotesInlock, he, grantedVotes]
  | none =>
    obtain ⟨stored, hvs⟩ := rc.voteAndStore_eq args
    have hp : p = ({ rc with topCoord := (rc.topCoord.processReplSetRequestVotes args).1,
                             storedLastVote := stored },
        .ok (rc.topCoord.processReplSetRequestVotes args).2) := by
      simp [p, processReplSetRequestVotesInlock, he, hvs]
    rw [hp]
    -- the grant is decided by the checks of the topology coordinator
    rw [TopologyCoordinator.processReplSetRequestVotes_fst,
      TopologyCoordinator.processReplSetRequestVotes_snd]
    cases hv : rc.topCoord.voteRefusal args with
    | some r => simp [grantedVotes]
    | none =>
      have hok := TopologyCoordinator.voteRefusal_eq_none hv
      cases hd : args.dryRun
      · simp [grantedVotes, hd, hok.1, hok.2 hd]
      · simp [grantedVotes, hd]

/-- The three outcomes of `_updateTerm_inlock`, from those of `updateTerm`. -/
theorem updateTermInlock_cases (term : Int) :
    (term ≤ rc.topCoord.term ∧ rc.updateTermInlock term = (rc, .kAlreadyUpToDate, false)) ∨
    (rc.topCoord.term < term ∧ rc.topCoord.role = .kLeader ∧
      rc.updateTermInlock term =
        ({ rc with
            topCoord := { rc.topCoord with leaderMode := .kSteppingDown }
            pendingTermUpdateDuringStepDown := raisePending rc.pendingTermUpdateDuringStepDown term },
          .kTriggerStepDown, decide (rc.topCoord.leaderMode ≠ .kSteppingDown))) ∨
    (rc.topCoord.term < term ∧ rc.topCoord.role ≠ .kLeader ∧
      rc.updateTermInlock term =
        ({ rc with topCoord := { rc.topCoord with term := term } }, .kUpdatedTerm, false)) := by
  rcases rc.topCoord.updateTerm_cases term with ⟨hle, he⟩ | ⟨hlt, hl, he⟩ | ⟨hlt, hl, he⟩
  · exact .inl ⟨hle, by simp [updateTermInlock, he]⟩
  · exact .inr (.inl ⟨hlt, hl, by
      simp [updateTermInlock, he, TopologyCoordinator.prepareForUnconditionalStepDown_fst,
        TopologyCoordinator.prepareForUnconditionalStepDown_snd]⟩)
  · exact .inr (.inr ⟨hlt, hl, by simp [updateTermInlock, he]⟩)

/-- The pending term after a term update that tells a primary to step down: at least the new
term, and at least the one pending before. -/
theorem raisePending_spec (pending : Option Int) (term : Int) :
    ∃ p, raisePending pending term = some p ∧ term ≤ p ∧ ∀ q, pending = some q → q ≤ p := by
  cases pending with
  | none => exact ⟨term, rfl, Int.le_refl _, by simp⟩
  | some q =>
    by_cases h : q < term
    · exact ⟨term, by simp [raisePending, h], Int.le_refl _, by simp; omega⟩
    · exact ⟨q, by simp [raisePending, h], by omega, by simp⟩

/-- On a node that is not primary, a term update only raises the term, to `term` if that is
higher. -/
theorem updateTermInlock_of_ne_leader (term : Int) (hr : rc.topCoord.role ≠ .kLeader) :
    (rc.updateTermInlock term).1 =
      { rc with topCoord := { rc.topCoord with term := max rc.topCoord.term term } } ∧
    (rc.updateTermInlock term).2.1 = if term ≤ rc.topCoord.term then .kAlreadyUpToDate
      else .kUpdatedTerm := by
  rcases rc.updateTermInlock_cases term with ⟨hle, he⟩ | ⟨-, hl, -⟩ | ⟨hlt, -, he⟩
  · rw [he, Int.max_eq_left hle]
    exact ⟨rfl, by simp [hle]⟩
  · exact absurd hl hr
  · rw [he, Int.max_eq_right (Int.le_of_lt hlt)]
    exact ⟨rfl, by simp [Int.not_le.mpr hlt]⟩

/-- The pending term update of a stepdown that has made the node a follower: the term is
raised to the pending one, and nothing is pending any more. -/
theorem applyPendingTermUpdate_eq_some {rc' : ReplicationCoordinator}
    (hr : rc.topCoord.role ≠ .kLeader) (h : rc.applyPendingTermUpdate = some rc') :
    rc' = { rc with
      topCoord := { rc.topCoord with
        term := max rc.topCoord.term (rc.pendingTermUpdateDuringStepDown.getD rc.topCoord.term) }
      pendingTermUpdateDuringStepDown := none } := by
  unfold applyPendingTermUpdate at h
  cases hp : rc.pendingTermUpdateDuringStepDown with
  | none =>
    simp only [hp, Option.some.injEq] at h
    subst h
    rw [Option.getD_none, Int.max_self, ← hp]
  | some p =>
    obtain ⟨h₁, -⟩ := rc.updateTermInlock_of_ne_leader p hr
    simp only [hp] at h
    split_ifs at h
    rw [← Option.some.inj h, h₁]
    rfl

/-- `_stepDownFinish` either ends the stepdown under way, as a follower in the term pending,
or only lets the waiting requests go on. -/
theorem stepDownFinish_eq_some {rc' : ReplicationCoordinator} (h : rc.stepDownFinish = some rc') :
    (rc.topCoord.leaderMode = .kSteppingDown ∧
      rc' = { rc with
        topCoord := { rc.topCoord with
          role := .kFollower
          leaderMode := .kNotLeader
          term := max rc.topCoord.term (rc.pendingTermUpdateDuringStepDown.getD rc.topCoord.term) }
        pendingTermUpdateDuringStepDown := none }.signalStepDownFinished) ∨
    (rc.topCoord.leaderMode ≠ .kSteppingDown ∧ rc' = rc.signalStepDownFinished) := by
  unfold stepDownFinish at h
  split_ifs at h with hm
  · left
    refine ⟨hm, ?_⟩
    -- the two steps of the `do` block: the stepdown, then the pending term update
    cases hf : rc.topCoord.finishUnconditionalStepDown with
    | none => simp [hf] at h
    | some tc =>
      obtain ⟨-, rfl⟩ := TopologyCoordinator.finishUnconditionalStepDown_eq_some hf
      cases ha : applyPendingTermUpdate { rc with topCoord :=
          { rc.topCoord with role := .kFollower, leaderMode := .kNotLeader } } with
      | none => simp [hf, ha] at h
      | some rc₁ =>
        simp only [hf, ha, Option.bind_eq_bind, Option.bind_some, Option.pure_def,
          Option.some.injEq] at h
        rw [← h, applyPendingTermUpdate_eq_some _ (by simp) ha]
  · exact .inr ⟨hm, (Option.some.inj h).symm⟩

/-- `_startRealElection_inlock` on a node that is not primary: the node takes the new term, if
it is higher, and votes for itself in it. -/
theorem startRealElection_eq_some {rc' : ReplicationCoordinator} (newTerm : Int)
    (hr : rc.topCoord.role ≠ .kLeader) (h : rc.startRealElection newTerm = some rc') :
    rc.topCoord.term < newTerm ∧
    ∃ stored, rc' = { rc with
      topCoord := { rc.topCoord with term := newTerm, lastVote := ⟨newTerm, rc.topCoord.selfIndex⟩ }
      storedLastVote := stored } := by
  obtain ⟨h₁, h₂⟩ := rc.updateTermInlock_of_ne_leader newTerm hr
  unfold startRealElection at h
  dsimp only at h
  split_ifs at h with hu
  rw [h₂] at hu
  have hlt : rc.topCoord.term < newTerm := by
    by_contra hle
    simp [Int.not_lt.mp hle] at hu
  rw [← Option.some.inj h, storeLocalLastVoteDocument_eq, h₁, Int.max_eq_right (Int.le_of_lt hlt)]
  exact ⟨hlt, _, rfl⟩

end ReplicationCoordinator

/-! ### A member and its runs -/

/-- A replica-set member: its coordinator, with the history of its votes. The history is not
state of the source; it records what the vote responses and the elections of the member
said. -/
structure Member where
  coord : ReplicationCoordinator
  -- every real-election vote granted, as (term, candidate), in order
  votesGranted : List LastVote
  -- every term in which the member voted for itself
  selfVotes : List Int

/-- The operations the threads of a member run under `_mutex`. -/
inductive Op
  -- a heartbeat, a command or a metadata response carries a term
  | updateTerm (term : Int)
  | requestVotes (args : ReplSetRequestVotesArgs)
  -- the `i`-th request woken by the end of its stepdown goes on
  | resumeRequestVotes (i : Nat)
  | stepDownFinish
  | becomeCandidate
  -- a dry run in the current term has won
  | startRealElection
  | winElection
  | loseElection
  -- the last-vote document is read back, as at startup
  | loadLastVote
  | setMyLastAppliedOpTime (opTime : OpTime)
  | enterTerminalShutdown
  deriving DecidableEq, Repr

namespace Member

/-- The member with another topology coordinator. -/
def withTopCoord (m : Member) (tc : TopologyCoordinator) : Member :=
  { m with coord := { m.coord with topCoord := tc } }

/-- One operation; `none` when it cannot run in this state, or when it breaks an invariant of
the source. -/
def step (m : Member) : Op → Option Member
  | .updateTerm term => some { m with coord := (m.coord.updateTermInlock term).1 }
  | .requestVotes args =>
    let result := m.coord.processReplSetRequestVotes args
    some { m with
      coord := result.1
      votesGranted :=
        m.votesGranted ++ (result.2.map (ReplicationCoordinator.grantedVotes args)).getD [] }
  | .resumeRequestVotes i =>
    match m.coord.stepDownFinished[i]? with
    | none => none
    | some args =>
      let result := { m.coord with stepDownFinished := m.coord.stepDownFinished.eraseIdx i }
        |>.processReplSetRequestVotesInlock args
      some { m with
        coord := result.1
        votesGranted := m.votesGranted ++ ReplicationCoordinator.grantedVotes args result.2 }
  | .stepDownFinish => m.coord.stepDownFinish.map fun rc => { m with coord := rc }
  | .becomeCandidate => m.coord.topCoord.becomeCandidateIfElectable.map m.withTopCoord
  | .startRealElection =>
    -- `_processDryRunResult` asks for the term after the one of its dry run
    if m.coord.topCoord.role = .kCandidate then
      (m.coord.startRealElection (m.coord.topCoord.term + 1)).map fun rc =>
        { m with coord := rc, selfVotes := m.selfVotes ++ [m.coord.topCoord.term + 1] }
    else none
  | .winElection => m.coord.topCoord.processWinElection.map m.withTopCoord
  | .loseElection => m.coord.topCoord.processLoseElection.map m.withTopCoord
  | .loadLastVote => some (m.withTopCoord (m.coord.topCoord.loadLastVote m.coord.storedLastVote))
  | .setMyLastAppliedOpTime opTime =>
    some (m.withTopCoord { m.coord.topCoord with myLastAppliedOpTime := opTime })
  | .enterTerminalShutdown => some { m with coord := { m.coord with inTerminalShutdown := true } }

/-- The operations of a list, one after another. -/
def run (m : Member) : List Op → Option Member
  | [] => some m
  | op :: ops => (m.step op).bind (run · ops)

/-- The members reachable from `m₀` by operations that `ok` allows. -/
inductive Reachable (ok : Member → Op → Prop) (m₀ : Member) : Member → Prop
  | init : Reachable ok m₀ m₀
  | step {m m' : Member} {op : Op} :
      Reachable ok m₀ m → ok m op → m.step op = some m' → Reachable ok m₀ m'

/-- A member as the constructor of `TopologyCoordinator` and the first last-vote document leave
it, in a config of which it is member `selfIndex`. -/
def initial (rsConfig : ReplSetConfig) (selfIndex : Int) (isArbiter : Bool)
    (findHealthyPrimary : Int → Int) : Member where
  coord :=
    { topCoord :=
        { role := .kFollower
          leaderMode := .kNotLeader
          term := OpTime.kUninitializedTerm
          lastVote := ⟨0, -1⟩
          selfIndex := selfIndex
          rsConfig := rsConfig
          myLastAppliedOpTime := ⟨0, OpTime.kUninitializedTerm⟩
          isArbiter := isArbiter
          findHealthyPrimaryOfEqualOrGreaterPriority := findHealthyPrimary }
      pendingTermUpdateDuringStepDown := none
      inTerminalShutdown := false
      storedLastVote := ⟨0, -1⟩
      waitingForStepDown := []
      stepDownFinished := [] }
  votesGranted := []
  selfVotes := []

/-- A run that every step of which `ok` allows ends in a reachable member. -/
theorem reachable_of_run {ok : Member → Op → Prop} {m₀ : Member} :
    ∀ {m m' : Member} {ops : List Op}, Reachable ok m₀ m →
      (∀ op ∈ ops, ∀ s, ok s op) → m.run ops = some m' → Reachable ok m₀ m'
  | m, m', [], hm, _, h => by
    simp only [run, Option.some.injEq] at h
    exact h ▸ hm
  | m, m', op :: ops, hm, hok, h => by
    simp only [run] at h
    cases hs : m.step op with
    | none => simp [hs] at h
    | some m₁ =>
      simp only [hs, Option.bind_some] at h
      exact reachable_of_run (Reachable.step hm (hok op (by simp) m) hs)
        (fun op' hop' => hok op' (by simp [hop'])) h

end Member

end Mongo.Repl
