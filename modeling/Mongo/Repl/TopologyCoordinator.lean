import Mathlib.Order.Basic

/-! The vote path of the replica-set `TopologyCoordinator` (`db/repl/topology_coordinator.cpp`):
term updates, vote requests, the node's vote for itself and the unconditional stepdown that a
higher term starts on a primary. The coordinator keeps only the fields these functions read
and write; a member's heartbeat data enters through the one function of it that the vote
path calls. A violated `invariant` of the source ends the process, and is `none` here. -/

namespace Mongo.Repl

/-- `OpTime`: a timestamp, as its unsigned 64-bit value, and a term. -/
structure OpTime where
  timestamp : Nat
  term : Int
  deriving DecidableEq, Repr

namespace OpTime

/-- `OpTime::kUninitializedTerm`, the term of optimes of the old protocol. -/
def kUninitializedTerm : Int := -1

/-- `OpTime::operator<`: timestamps only when either term is uninitialized, otherwise terms
and then timestamps. -/
def lt (a b : OpTime) : Bool :=
  if a.term = kUninitializedTerm ∨ b.term = kUninitializedTerm then
    decide (a.timestamp < b.timestamp)
  else
    decide (a.term < b.term ∨ (a.term = b.term ∧ a.timestamp < b.timestamp))

end OpTime

/-- `ConfigVersionAndTerm` of a replica-set config. -/
structure ConfigVersionAndTerm where
  version : Int
  term : Int
  deriving DecidableEq, Repr

/-- `ConfigVersionAndTerm::operator==`: versions only when either term is uninitialized (a
force reconfig), otherwise terms and versions. -/
def ConfigVersionAndTerm.beq (a b : ConfigVersionAndTerm) : Bool :=
  if a.term = OpTime.kUninitializedTerm ∨ b.term = OpTime.kUninitializedTerm then
    decide (a.version = b.version)
  else
    decide (a.term = b.term ∧ a.version = b.version)

/-- `LastVote`: the term and candidate of the last real-election vote. -/
structure LastVote where
  term : Int
  candidateIndex : Int
  deriving DecidableEq, Repr

/-- `TopologyCoordinator::Role`. -/
inductive Role
  | kLeader
  | kFollower
  | kCandidate
  deriving DecidableEq, Repr

/-- `TopologyCoordinator::LeaderMode`. -/
inductive LeaderMode
  | kNotLeader
  | kLeaderElect
  | kMaster
  | kSteppingDown
  | kAttemptingStepDown
  deriving DecidableEq, Repr

/-- `TopologyCoordinator::UpdateTermResult`. -/
inductive UpdateTermResult
  | kAlreadyUpToDate
  | kTriggerStepDown
  | kUpdatedTerm
  deriving DecidableEq, Repr

/-- `ReplSetRequestVotesArgs`. -/
structure ReplSetRequestVotesArgs where
  setName : String
  term : Int
  candidateIndex : Int
  configVersionAndTerm : ConfigVersionAndTerm
  lastAppliedOpTime : OpTime
  dryRun : Bool
  deriving DecidableEq, Repr

/-- The refusals of `processReplSetRequestVotes`, in the order it checks them; the source
formats each into the response's reason string. -/
inductive VoteRefusal
  | configDiffers
  | termLower
  | setNameDiffers
  | dataStaler
  | alreadyVoted
  | healthyPrimary
  deriving DecidableEq, Repr

/-- `ReplSetRequestVotesResponse`: the voter's term, the vote and why it was refused. -/
structure ReplSetRequestVotesResponse where
  term : Int
  voteGranted : Bool
  reason : Option VoteRefusal
  deriving DecidableEq, Repr

/-- The fields of `ReplSetConfig` that the vote path reads. -/
structure ReplSetConfig where
  replSetName : String
  configVersionAndTerm : ConfigVersionAndTerm
  numMembers : Int
  deriving DecidableEq, Repr

/-- The state of `TopologyCoordinator` that the vote path reads and writes. -/
structure TopologyCoordinator where
  role : Role
  leaderMode : LeaderMode
  term : Int
  lastVote : LastVote
  selfIndex : Int
  rsConfig : ReplSetConfig
  myLastAppliedOpTime : OpTime
  -- `_selfConfig().isArbiter()`
  isArbiter : Bool
  -- `_findHealthyPrimaryOfEqualOrGreaterPriority`, a function of the heartbeat data
  findHealthyPrimaryOfEqualOrGreaterPriority : Int → Int

namespace TopologyCoordinator

variable (tc : TopologyCoordinator)

/-- `_iAmPrimary`. -/
def iAmPrimary : Bool := decide (tc.role = .kLeader)

/-- `updateTerm`: a primary keeps its term and is told to step down first. -/
def updateTerm (term : Int) : TopologyCoordinator × UpdateTermResult :=
  if term ≤ tc.term then (tc, .kAlreadyUpToDate)
  else if tc.iAmPrimary then (tc, .kTriggerStepDown)
  else ({ tc with term := term }, .kUpdatedTerm)

/-- `prepareForUnconditionalStepDown`: only one unconditional stepdown at a time. -/
def prepareForUnconditionalStepDown : TopologyCoordinator × Bool :=
  if tc.leaderMode = .kSteppingDown then (tc, false)
  else ({ tc with leaderMode := .kSteppingDown }, true)

/-- `finishUnconditionalStepDown`, through `_stepDownSelfAndReplaceWith`. -/
def finishUnconditionalStepDown : Option TopologyCoordinator :=
  if tc.leaderMode = .kSteppingDown ∧ tc.role = .kLeader then
    some { tc with role := .kFollower, leaderMode := .kNotLeader }
  else none

/-- The checks of `processReplSetRequestVotes`, in its order, as the refusal they give. -/
def voteRefusal (args : ReplSetRequestVotesArgs) : Option VoteRefusal :=
  if !args.configVersionAndTerm.beq tc.rsConfig.configVersionAndTerm then some .configDiffers
  else if args.term < tc.term then some .termLower
  else if args.setName ≠ tc.rsConfig.replSetName then some .setNameDiffers
  else if args.lastAppliedOpTime.lt tc.myLastAppliedOpTime then some .dataStaler
  else if !args.dryRun ∧ tc.lastVote.term = args.term then some .alreadyVoted
  else if tc.isArbiter ∧ 0 ≤ tc.findHealthyPrimaryOfEqualOrGreaterPriority args.candidateIndex
    then some .healthyPrimary
  else none

/-- `processReplSetRequestVotes`: a real-election vote is recorded as the last vote. -/
def processReplSetRequestVotes (args : ReplSetRequestVotesArgs) :
    TopologyCoordinator × ReplSetRequestVotesResponse :=
  match tc.voteRefusal args with
  | some r => (tc, ⟨tc.term, false, some r⟩)
  | none =>
    let tc' := if args.dryRun then tc
      else { tc with lastVote := ⟨args.term, args.candidateIndex⟩ }
    (tc', ⟨tc.term, true, none⟩)

/-- `loadLastVote`. -/
def loadLastVote (lastVote : LastVote) : TopologyCoordinator := { tc with lastVote := lastVote }

/-- `voteForMyselfV1`. -/
def voteForMyselfV1 : TopologyCoordinator := { tc with lastVote := ⟨tc.term, tc.selfIndex⟩ }

/-- `becomeCandidateIfElectable`, given that `_getMyUnelectableReason` finds no reason. -/
def becomeCandidateIfElectable : Option TopologyCoordinator :=
  if tc.role = .kFollower then some { tc with role := .kCandidate } else none

/-- `processWinElection`. -/
def processWinElection : Option TopologyCoordinator :=
  if tc.role = .kCandidate ∧ tc.leaderMode = .kNotLeader then
    some { tc with role := .kLeader, leaderMode := .kLeaderElect }
  else none

/-- `processLoseElection`. -/
def processLoseElection : Option TopologyCoordinator :=
  if tc.role = .kCandidate ∧ tc.leaderMode = .kNotLeader then
    some { tc with role := .kFollower }
  else none

/-! ### What each function does -/

variable {tc}

/-- The three outcomes of `updateTerm`: only a node that is not primary takes a higher term. -/
theorem updateTerm_cases (term : Int) :
    (term ≤ tc.term ∧ tc.updateTerm term = (tc, .kAlreadyUpToDate)) ∨
    (tc.term < term ∧ tc.role = .kLeader ∧ tc.updateTerm term = (tc, .kTriggerStepDown)) ∨
    (tc.term < term ∧ tc.role ≠ .kLeader ∧
      tc.updateTerm term = ({ tc with term := term }, .kUpdatedTerm)) := by
  unfold updateTerm iAmPrimary
  by_cases hle : term ≤ tc.term
  · simp [hle]
  · have hlt : tc.term < term := by omega
    by_cases hl : tc.role = .kLeader <;> simp [hle, hl, hlt]

/-- A term update never lowers the term and changes nothing else. -/
theorem updateTerm_fst (term : Int) :
    ∃ t, tc.term ≤ t ∧ (tc.updateTerm term).1 = { tc with term := t } := by
  rcases tc.updateTerm_cases term with ⟨-, h⟩ | ⟨-, -, h⟩ | ⟨hlt, -, h⟩
  all_goals rw [h]
  · exact ⟨tc.term, Int.le_refl _, rfl⟩
  · exact ⟨tc.term, Int.le_refl _, rfl⟩
  · exact ⟨term, Int.le_of_lt hlt, rfl⟩

/-- After a term update the term has reached `term`, unless the node is told to step down. -/
theorem le_updateTerm_term (term : Int) (h : (tc.updateTerm term).2 ≠ .kTriggerStepDown) :
    term ≤ (tc.updateTerm term).1.term := by
  rcases tc.updateTerm_cases term with ⟨hle, he⟩ | ⟨-, -, he⟩ | ⟨-, -, he⟩
  · exact Int.le_trans hle (Int.le_of_eq (by rw [he]))
  · rw [he] at h; exact absurd rfl h
  · exact Int.le_of_eq (by rw [he])

/-- A follower is never told to step down. -/
theorem updateTerm_snd_ne_trigger (term : Int) (h : tc.role ≠ .kLeader) :
    (tc.updateTerm term).2 ≠ .kTriggerStepDown := by
  rcases tc.updateTerm_cases term with ⟨-, he⟩ | ⟨-, hl, -⟩ | ⟨-, -, he⟩
  · simp [he]
  · exact absurd hl h
  · simp [he]

/-- A stepdown leaves the node stepping down, whether it started it or one was under way. -/
theorem prepareForUnconditionalStepDown_fst :
    tc.prepareForUnconditionalStepDown.1 = { tc with leaderMode := .kSteppingDown } := by
  unfold prepareForUnconditionalStepDown
  split_ifs with h
  · cases tc
    simp_all
  · rfl

/-- A stepdown is started only when none is under way. -/
theorem prepareForUnconditionalStepDown_snd :
    tc.prepareForUnconditionalStepDown.2 = decide (tc.leaderMode ≠ .kSteppingDown) := by
  unfold prepareForUnconditionalStepDown
  split_ifs with h <;> simp [h]

/-- A stepdown finishes only on a primary, and leaves it a follower. -/
theorem finishUnconditionalStepDown_eq_some {tc' : TopologyCoordinator}
    (h : tc.finishUnconditionalStepDown = some tc') :
    tc.role = .kLeader ∧ tc' = { tc with role := .kFollower, leaderMode := .kNotLeader } := by
  unfold finishUnconditionalStepDown at h
  split_ifs at h with hm
  exact ⟨hm.2, (Option.some.inj h).symm⟩

/-- A follower becomes a candidate, and nothing else changes. -/
theorem becomeCandidateIfElectable_eq_some {tc' : TopologyCoordinator}
    (h : tc.becomeCandidateIfElectable = some tc') : tc' = { tc with role := .kCandidate } := by
  unfold becomeCandidateIfElectable at h
  split_ifs at h
  exact (Option.some.inj h).symm

/-- A candidate that wins becomes a leader-elect; it was not in any leader mode before. -/
theorem processWinElection_eq_some {tc' : TopologyCoordinator}
    (h : tc.processWinElection = some tc') :
    tc.leaderMode = .kNotLeader ∧ tc' = { tc with role := .kLeader, leaderMode := .kLeaderElect } := by
  unfold processWinElection at h
  split_ifs at h with hc
  exact ⟨hc.2, (Option.some.inj h).symm⟩

/-- A candidate that loses becomes a follower, and nothing else changes. -/
theorem processLoseElection_eq_some {tc' : TopologyCoordinator}
    (h : tc.processLoseElection = some tc') : tc' = { tc with role := .kFollower } := by
  unfold processLoseElection at h
  split_ifs at h
  exact (Option.some.inj h).symm

/-- A vote is refused exactly when one of the checks of the source fails. -/
theorem processReplSetRequestVotes_eq (args : ReplSetRequestVotesArgs) :
    tc.processReplSetRequestVotes args =
      match tc.voteRefusal args with
      | some r => (tc, ⟨tc.term, false, some r⟩)
      | none => (if args.dryRun then tc
          else { tc with lastVote := ⟨args.term, args.candidateIndex⟩ }, ⟨tc.term, true, none⟩) :=
  rfl

/-- What a granted real-election vote needs: a term no lower than the voter's, and a last
vote in another term. This is all the source checks about earlier votes. -/
theorem voteRefusal_eq_none {args : ReplSetRequestVotesArgs} (h : tc.voteRefusal args = none) :
    tc.term ≤ args.term ∧ (args.dryRun = false → tc.lastVote.term ≠ args.term) := by
  unfold voteRefusal at h
  split_ifs at h with h₁ h₂ h₃ h₄ h₅
  refine ⟨by omega, fun hd he => h₅ ?_⟩
  simp [hd, he]

/-- The response of a vote request: the voter's term, and a grant when no check failed. -/
theorem processReplSetRequestVotes_snd (args : ReplSetRequestVotesArgs) :
    (tc.processReplSetRequestVotes args).2 =
      ⟨tc.term, (tc.voteRefusal args).isNone, tc.voteRefusal args⟩ := by
  rw [processReplSetRequestVotes_eq]
  cases tc.voteRefusal args <;> rfl

/-- A vote request changes the last vote only, and only by a granted real-election vote. -/
theorem processReplSetRequestVotes_fst (args : ReplSetRequestVotesArgs) :
    (tc.processReplSetRequestVotes args).1 =
      if (tc.processReplSetRequestVotes args).2.voteGranted = true ∧ args.dryRun = false then
        { tc with lastVote := ⟨args.term, args.candidateIndex⟩ }
      else tc := by
  rw [processReplSetRequestVotes_eq]
  cases tc.voteRefusal args <;> cases args.dryRun <;> rfl

end TopologyCoordinator

end Mongo.Repl
