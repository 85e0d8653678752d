import Mathlib.Logic.Relation
import Mongo.OrderStatistic
import Mongo.Repl.TopologyCoordinator

/-! The majority commit point of the replica-set `TopologyCoordinator`
(`db/repl/topology_coordinator.cpp`). `updateLastCommittedOpTimeAndWallTime` sorts the optimes
that the voting members report, arbiters included, and takes the one `getWriteMajority()` places
from the top; `advanceLastCommittedOpTimeAndWallTime` drops a commit point from before the
primary's term or from another oplog branch, and keeps it only when it is newer. The coordinator
keeps the fields these functions read; the wall times, which no comparison reads, are left out. A
violated `invariant` is `none`. -/

namespace Mongo.Repl

namespace OpTime

/-- `OpTime::operator==`: timestamps only when either term is uninitialized. -/
def eq (a b : OpTime) : Bool :=
  if a.term = kUninitializedTerm ∨ b.term = kUninitializedTerm then
    decide (a.timestamp = b.timestamp)
  else
    decide (a.term = b.term ∧ a.timestamp = b.timestamp)

/-- `OpTime::operator>=`: not below. -/
def ge (a b : OpTime) : Bool := !a.lt b

/-- `std::min` over `OpTimeAndWallTime::operator<`: the first unless the second is below it. -/
def min (a b : OpTime) : OpTime := if b.lt a then b else a

/-- An optime of protocol version 1, whose term is initialized. Between such optimes `operator<`
is the order of terms and then timestamps. -/
def Initialized (o : OpTime) : Prop := o.term ≠ kUninitializedTerm

instance (o : OpTime) : Decidable o.Initialized := inferInstanceAs (Decidable (_ ≠ _))

theorem lt_of_initialized {a b : OpTime} (ha : a.Initialized) (hb : b.Initialized) :
    a.lt b = decide (a.term < b.term ∨ (a.term = b.term ∧ a.timestamp < b.timestamp)) := by
  unfold lt
  rw [if_neg (not_or.mpr ⟨ha, hb⟩)]

theorem ge_self (a : OpTime) : a.ge a = true := by
  unfold ge lt
  split_ifs <;> simp

/-- Of two optimes one is not below the other, whatever their terms. -/
theorem ge_total (a b : OpTime) : (a.ge b || b.ge a) = true := by
  unfold ge lt
  split_ifs <;> simp only [Bool.or_eq_true, Bool.not_eq_true', decide_eq_false_iff_not] <;> omega

theorem ge_trans {a b c : OpTime} (ha : a.Initialized) (hb : b.Initialized) (hc : c.Initialized)
    (hab : a.ge b = true) (hbc : b.ge c = true) : a.ge c = true := by
  simp only [ge, lt_of_initialized ha hb, lt_of_initialized hb hc, lt_of_initialized ha hc,
    Bool.not_eq_true', decide_eq_false_iff_not] at hab hbc ⊢
  omega

theorem ge_of_lt_eq_false {a b : OpTime} (h : a.lt b = false) : a.ge b = true := by
  simp [ge, h]

end OpTime

namespace Commit

/-- The fields of `MemberConfig` that the commit point reads. -/
structure MemberConfig where
  votes : Int
  newlyAdded : Bool
  arbiterOnly : Bool
  deriving DecidableEq, Repr

/-- `MemberConfig::isVoter`: a member with votes that is not newly added. -/
def MemberConfig.isVoter (m : MemberConfig) : Bool := m.votes != 0 && !m.newlyAdded

/-- `MemberConfig::isArbiter`. -/
def MemberConfig.isArbiter (m : MemberConfig) : Bool := m.arbiterOnly

/-- The fields of `ReplSetConfig` that the commit point reads. -/
structure ReplSetConfig where
  members : List MemberConfig
  writeConcernMajorityJournalDefault : Bool
  deriving DecidableEq, Repr

namespace ReplSetConfig

variable (config : ReplSetConfig)

/-- `getMemberAt`: an index past the last member is a violated `invariant`. -/
def getMemberAt (i : Nat) : Option MemberConfig := config.members[i]?

/-- `getWriteConcernMajorityShouldJournal`. -/
def getWriteConcernMajorityShouldJournal : Bool := config.writeConcernMajorityJournalDefault

/-- `getWriteMajority`, as `_calculateMajorities` sets it: a majority of the voters, or all the
voters that are not arbiters when they are fewer. -/
def getWriteMajority : Int :=
  let voters : Int := config.members.countP MemberConfig.isVoter
  let arbiters : Int := config.members.countP MemberConfig.isArbiter
  Min.min (voters / 2 + 1) (voters - arbiters)

end ReplSetConfig

/-- The fields of `MemberData` that the commit point reads: the member's index in the config
and the optimes its heartbeats report. -/
structure MemberData where
  configIndex : Int
  lastAppliedOpTime : OpTime
  lastDurableOpTime : OpTime
  deriving DecidableEq, Repr

/-- The optime of a member that the commit point counts: durable or applied. -/
def MemberData.reportedOpTime (useDurableOpTime : Bool) (md : MemberData) : OpTime :=
  if useDurableOpTime then md.lastDurableOpTime else md.lastAppliedOpTime

/-- The loop of `updateLastCommittedOpTimeAndWallTime` over `_memberData`: the reported optimes
of the voting members in order, arbiters included. -/
def votingNodesOpTimes (config : ReplSetConfig) (useDurableOpTime : Bool) :
    List MemberData → Option (List OpTime)
  | [] => some []
  | md :: rest =>
    if md.configIndex < 0 then none
    else
      match config.getMemberAt md.configIndex.toNat, votingNodesOpTimes config useDurableOpTime rest
      with
      | some mc, some opTimes =>
        some (if mc.isVoter then md.reportedOpTime useDurableOpTime :: opTimes else opTimes)
      | _, _ => none

/-- A member whose config `p` holds of and whose reported optime is not below `c`. -/
def reportsNotBelow (config : ReplSetConfig) (useDurableOpTime : Bool) (p : MemberConfig → Bool)
    (c : OpTime) (md : MemberData) : Bool :=
  match config.getMemberAt md.configIndex.toNat with
  | some mc => p mc && (md.reportedOpTime useDurableOpTime).ge c
  | none => false

/-- `std::sort` over `OpTimeAndWallTime::operator<`: no optime comes after one below it. -/
def sortOpTimes (opTimes : List OpTime) : List OpTime := opTimes.mergeSort fun a b => b.ge a

theorem sortOpTimes_eq_self {opTimes : List OpTime}
    (h : opTimes.Pairwise fun a b => b.ge a = true) : sortOpTimes opTimes = opTimes :=
  List.mergeSort_of_pairwise h

section VotingNodes

variable {config : ReplSetConfig} {useDurableOpTime : Bool}

theorem votingNodesOpTimes_cons_eq_some {md : MemberData} {rest : List MemberData}
    {opTimes : List OpTime} (h : votingNodesOpTimes config useDurableOpTime (md :: rest) = some opTimes) :
    ∃ mc rest', config.getMemberAt md.configIndex.toNat = some mc ∧
      votingNodesOpTimes config useDurableOpTime rest = some rest' ∧
      opTimes = if mc.isVoter then md.reportedOpTime useDurableOpTime :: rest' else rest' := by
  simp only [votingNodesOpTimes] at h
  split_ifs at h
  split at h
  · exact ⟨_, _, ‹_›, ‹_›, (Option.some.inj h).symm⟩
  · cases h

/-- Each optime the loop collects is the one a member reports. -/
theorem mem_votingNodesOpTimes {o : OpTime} :
    ∀ {mds : List MemberData} {opTimes : List OpTime},
      votingNodesOpTimes config useDurableOpTime mds = some opTimes → o ∈ opTimes →
      ∃ md ∈ mds, o = md.reportedOpTime useDurableOpTime
  | [], _, h, ho => by
    cases h
    simp at ho
  | md :: rest, opTimes, h, ho => by
    obtain ⟨mc, rest', -, hrest, rfl⟩ := votingNodesOpTimes_cons_eq_some h
    have tail : o ∈ rest' → ∃ md' ∈ md :: rest, o = md'.reportedOpTime useDurableOpTime :=
      fun ho' => (mem_votingNodesOpTimes hrest ho').imp fun _ ⟨hm, he⟩ =>
        ⟨List.mem_cons_of_mem md hm, he⟩
    split_ifs at ho
    · rcases List.mem_cons.mp ho with rfl | ho'
      · exact ⟨md, List.mem_cons_self, rfl⟩
      · exact tail ho'
    · exact tail ho

/-- The collected optimes not below `c` are those of the voters that report one. -/
theorem countP_votingNodesOpTimes (c : OpTime) :
    ∀ {mds : List MemberData} {opTimes : List OpTime},
      votingNodesOpTimes config useDurableOpTime mds = some opTimes →
      opTimes.countP (fun o => o.ge c) =
        mds.countP (reportsNotBelow config useDurableOpTime MemberConfig.isVoter c)
  | [], _, h => by
    cases h
    rfl
  | md :: rest, opTimes, h => by
    obtain ⟨mc, rest', hmc, hrest, rfl⟩ := votingNodesOpTimes_cons_eq_some h
    have ih := countP_votingNodesOpTimes c hrest
    have hmd : reportsNotBelow config useDurableOpTime MemberConfig.isVoter c md =
        (mc.isVoter && (md.reportedOpTime useDurableOpTime).ge c) := by
      simp [reportsNotBelow, hmc]
    cases hv : mc.isVoter <;> simp [List.countP_cons, ih, hmd, hv]

end VotingNodes

/-- The state of `TopologyCoordinator` that the commit point reads and writes. -/
structure TopologyCoordinator where
  role : Role
  leaderMode : LeaderMode
  term : Int
  selfIndex : Int
  rsConfig : ReplSetConfig
  memberData : List MemberData
  firstOpTimeOfMyTerm : OpTime
  -- the optime of `_lastCommittedOpTimeAndWallTime`, which `getLastCommittedOpTime` returns
  lastCommittedOpTime : OpTime
  deriving DecidableEq, Repr

namespace TopologyCoordinator

variable (tc : TopologyCoordinator)

/-- `_iAmPrimary`. -/
def iAmPrimary : Bool := decide (tc.role = .kLeader)

/-- `_selfConfig`: the config of the member at `_selfIndex`. -/
def selfConfig : Option MemberConfig :=
  if tc.selfIndex < 0 then none else tc.rsConfig.getMemberAt tc.selfIndex.toNat

/-- `getMyLastAppliedOpTime`, through `_selfMemberDataIndex`: the member data at `_selfIndex`,
or the only entry when the node is not in the config. -/
def getMyLastAppliedOpTime : Option OpTime :=
  if tc.memberData.isEmpty then none
  else (tc.memberData[if 0 ≤ tc.selfIndex then tc.selfIndex.toNat else 0]?).map
    MemberData.lastAppliedOpTime

/-- The lastApplied-term rule of `advanceLastCommittedOpTimeAndWallTime`: a node with data takes
a commit point of another term than its lastApplied only from its sync source, and then no
further than its lastApplied, since it may be on another oplog branch; `some none` is a commit
point it ignores. -/
def sameBranchCommittedOpTime (committedOpTime : OpTime) (fromSyncSource : Bool) :
    Option (Option OpTime) :=
  match tc.selfConfig with
  | none => none
  | some self =>
    if self.isArbiter then some (some committedOpTime)
    else
      match tc.getMyLastAppliedOpTime with
      | none => none
      | some myLastApplied =>
        if myLastApplied.term ≠ committedOpTime.term then
          if fromSyncSource then some (some (committedOpTime.min myLastApplied)) else some none
        else some (some committedOpTime)

/-- The last checks of `advanceLastCommittedOpTimeAndWallTime`: a commit point equal to the
current one or older is ignored. -/
def advanceIfNewer (committedOpTime : OpTime) : TopologyCoordinator × Bool :=
  if committedOpTime.eq tc.lastCommittedOpTime || committedOpTime.lt tc.lastCommittedOpTime then
    (tc, false)
  else ({ tc with lastCommittedOpTime := committedOpTime }, true)

/-- `advanceLastCommittedOpTimeAndWallTime`. -/
def advanceLastCommittedOpTimeAndWallTime (committedOpTime : OpTime) (fromSyncSource : Bool) :
    Option (TopologyCoordinator × Bool) :=
  if tc.selfIndex = -1 then some (tc, false)
  -- a primary does not commit an optime from a previous term
  else if tc.iAmPrimary && committedOpTime.lt tc.firstOpTimeOfMyTerm then some (tc, false)
  else
    (tc.sameBranchCommittedOpTime committedOpTime fromSyncSource).map fun
      | none => (tc, false)
      | some c => tc.advanceIfNewer c

/-- `updateLastCommittedOpTimeAndWallTime`. -/
def updateLastCommittedOpTimeAndWallTime : Option (TopologyCoordinator × Bool) :=
  if !tc.iAmPrimary || tc.leaderMode == .kSteppingDown then some (tc, false)
  else
    match votingNodesOpTimes tc.rsConfig tc.rsConfig.getWriteConcernMajorityShouldJournal
      tc.memberData with
    | none => none
    | some opTimes =>
      let writeMajority := tc.rsConfig.getWriteMajority
      if opTimes.length = 0 then none
      -- the size is compared with the write majority as an unsigned long
      else if writeMajority < 0 ∨ opTimes.length < writeMajority.toNat then some (tc, false)
      else
        match (sortOpTimes opTimes)[opTimes.length - writeMajority.toNat]? with
        | none => none
        | some committedOpTime => tc.advanceLastCommittedOpTimeAndWallTime committedOpTime false

/-- How many members whose config `p` holds of report an optime not below `c`: the quorum a
commit point stands on. -/
def countReportedNotBelow (p : MemberConfig → Bool) (c : OpTime) : Nat :=
  tc.memberData.countP (reportsNotBelow tc.rsConfig tc.rsConfig.getWriteConcernMajorityShouldJournal p c)

/-- `canCompleteTransitionToPrimary`. -/
def canCompleteTransitionToPrimary (termWhenDrainCompleted : Int) : Bool :=
  termWhenDrainCompleted == tc.term &&
    (tc.leaderMode == .kLeaderElect || tc.leaderMode == .kAttemptingStepDown)

/-- The reason of the `PrimarySteppedDown` status of `completeTransitionToPrimary`. -/
def primarySteppedDownReason : String :=
  "By the time this node was ready to complete its transition to PRIMARY it was no longer " ++
    "eligible to do so"

/-- `completeTransitionToPrimary`: the first optime of the term is recorded even in the middle
of a stepdown attempt. -/
def completeTransitionToPrimary (firstOpTimeOfTerm : OpTime) : Except String TopologyCoordinator :=
  if !tc.canCompleteTransitionToPrimary firstOpTimeOfTerm.term then .error primarySteppedDownReason
  else
    .ok { tc with
      leaderMode := if tc.leaderMode = .kLeaderElect then .kMaster else tc.leaderMode
      firstOpTimeOfMyTerm := firstOpTimeOfTerm }

/-! ### What each function does -/

variable {tc}

theorem advanceIfNewer_cases (c : OpTime) :
    tc.advanceIfNewer c = (tc, false) ∨
    (c.eq tc.lastCommittedOpTime = false ∧ c.lt tc.lastCommittedOpTime = false ∧
      tc.advanceIfNewer c = ({ tc with lastCommittedOpTime := c }, true)) := by
  unfold advanceIfNewer
  split_ifs with h
  · exact .inl rfl
  · simp only [Bool.or_eq_true, not_or, Bool.not_eq_true] at h
    exact .inr ⟨h.1, h.2, rfl⟩

/-- Without the sync source the lastApplied-term rule keeps the commit point or drops it. -/
theorem sameBranchCommittedOpTime_eq_some_some {c c' : OpTime}
    (h : tc.sameBranchCommittedOpTime c false = some (some c')) : c' = c := by
  unfold sameBranchCommittedOpTime at h
  rcases hs : tc.selfConfig with _ | self
  · simp [hs] at h
  · by_cases ha : self.isArbiter = true
    · simpa [hs, ha, eq_comm] using h
    · rcases hm : tc.getMyLastAppliedOpTime with _ | my
      · simp [hs, ha, hm] at h
      · by_cases ht : my.term = c.term
        · simpa [hs, ha, hm, ht, eq_comm] using h
        · simp [hs, ha, hm, ht] at h

/-- An advance either changes nothing or moves the commit point to a newer one that passed the
first-optime-of-term rule and the lastApplied-term rule. -/
theorem advanceLastCommittedOpTimeAndWallTime_eq_some {c : OpTime} {fromSyncSource b : Bool}
    {tc' : TopologyCoordinator}
    (h : tc.advanceLastCommittedOpTimeAndWallTime c fromSyncSource = some (tc', b)) :
    (tc' = tc ∧ b = false) ∨
    (b = true ∧ ∃ c', tc.sameBranchCommittedOpTime c fromSyncSource = some (some c') ∧
      (tc.iAmPrimary = true → c.lt tc.firstOpTimeOfMyTerm = false) ∧
      c'.eq tc.lastCommittedOpTime = false ∧ c'.lt tc.lastCommittedOpTime = false ∧
      tc' = { tc with lastCommittedOpTime := c' }) := by
  unfold advanceLastCommittedOpTimeAndWallTime at h
  split_ifs at h with hself hfirst
  · exact .inl ⟨(Prod.mk.inj (Option.some.inj h)).1.symm, (Prod.mk.inj (Option.some.inj h)).2.symm⟩
  · exact .inl ⟨(Prod.mk.inj (Option.some.inj h)).1.symm, (Prod.mk.inj (Option.some.inj h)).2.symm⟩
  · have hprimary : tc.iAmPrimary = true → c.lt tc.firstOpTimeOfMyTerm = false := by
      simpa using hfirst
    cases hs : tc.sameBranchCommittedOpTime c fromSyncSource with
    | none => rw [hs] at h; cases h
    | some r =>
      rw [hs] at h
      cases r with
      | none =>
        obtain ⟨rfl, rfl⟩ := Prod.mk.inj (Option.some.inj h)
        exact .inl ⟨rfl, rfl⟩
      | some c' =>
        have h' : tc.advanceIfNewer c' = (tc', b) := Option.some.inj h
        rcases @advanceIfNewer_cases tc c' with he | ⟨heq, hlt, he⟩
        · rw [he] at h'
          obtain ⟨rfl, rfl⟩ := Prod.mk.inj h'
          exact .inl ⟨rfl, rfl⟩
        · rw [he] at h'
          obtain ⟨rfl, rfl⟩ := Prod.mk.inj h'
          exact .inr ⟨rfl, c', rfl, hprimary, heq, hlt, rfl⟩

/-- An update either changes nothing or is an advance, without the sync source, to the optime
`getWriteMajority()` places from the top of the sorted voter optimes, on a primary that is not
stepping down. -/
theorem updateLastCommittedOpTimeAndWallTime_eq_some {b : Bool} {tc' : TopologyCoordinator}
    (h : tc.updateLastCommittedOpTimeAndWallTime = some (tc', b)) :
    (tc' = tc ∧ b = false) ∨
    (tc.role = .kLeader ∧ tc.leaderMode ≠ .kSteppingDown ∧ ∃ opTimes c,
      votingNodesOpTimes tc.rsConfig tc.rsConfig.getWriteConcernMajorityShouldJournal
        tc.memberData = some opTimes ∧
      tc.rsConfig.getWriteMajority.toNat ≤ opTimes.length ∧
      (sortOpTimes opTimes)[opTimes.length - tc.rsConfig.getWriteMajority.toNat]? = some c ∧
      tc.advanceLastCommittedOpTimeAndWallTime c false = some (tc', b)) := by
  unfold updateLastCommittedOpTimeAndWallTime at h
  split_ifs at h with hp
  · obtain ⟨rfl, rfl⟩ := Prod.mk.inj (Option.some.inj h)
    exact .inl ⟨rfl, rfl⟩
  · have hrole : tc.role = .kLeader ∧ tc.leaderMode ≠ .kSteppingDown := by
      simpa [iAmPrimary] using hp
    split at h
    · cases h
    · rename_i opTimes hots
      dsimp only at h
      split_ifs at h with hzero hsmall
      · obtain ⟨rfl, rfl⟩ := Prod.mk.inj (Option.some.inj h)
        exact .inl ⟨rfl, rfl⟩
      · split at h
        · cases h
        · rename_i c hc
          exact .inr ⟨hrole.1, hrole.2, opTimes, c, hots, by omega, hc, h⟩

/-- An update that moves the commit point is made by a primary that is not stepping down, and
sets a commit point not below the first optime of the primary's term. -/
theorem updateLastCommittedOpTime_primary {tc' : TopologyCoordinator}
    (h : tc.updateLastCommittedOpTimeAndWallTime = some (tc', true)) :
    tc.role = .kLeader ∧ tc.leaderMode ≠ .kSteppingDown ∧
    tc'.lastCommittedOpTime.ge tc'.firstOpTimeOfMyTerm = true := by
  rcases updateLastCommittedOpTimeAndWallTime_eq_some h with ⟨-, hb⟩ | ⟨hrole, hmode, _, _, -, -,
    -, hadv⟩
  · cases hb
  rcases advanceLastCommittedOpTimeAndWallTime_eq_some hadv with ⟨-, hb⟩ | ⟨-, _, hs, hfirst,
    -, -, rfl⟩
  · cases hb
  obtain rfl := sameBranchCommittedOpTime_eq_some_some hs
  exact ⟨hrole, hmode, OpTime.ge_of_lt_eq_false (hfirst (by simp [iAmPrimary, hrole]))⟩

/-- The commit point an update sets stands on `getWriteMajority()` voters, arbiters counted,
that report an optime not below it. `std::sort` needs `operator<` to be an order, so the
reported optimes have initialized terms. -/
theorem updateLastCommittedOpTime_majority {tc' : TopologyCoordinator}
    (hinit : ∀ md ∈ tc.memberData,
      (md.reportedOpTime tc.rsConfig.getWriteConcernMajorityShouldJournal).Initialized)
    (h : tc.updateLastCommittedOpTimeAndWallTime = some (tc', true)) :
    tc'.rsConfig.getWriteMajority ≤
      tc'.countReportedNotBelow MemberConfig.isVoter tc'.lastCommittedOpTime := by
  rcases updateLastCommittedOpTimeAndWallTime_eq_some h with ⟨-, hb⟩ | ⟨-, -, opTimes, c,
    hots, hlen, hc, hadv⟩
  · cases hb
  rcases advanceLastCommittedOpTimeAndWallTime_eq_some hadv with ⟨-, hb⟩ | ⟨-, c', hs, -,
    -, -, rfl⟩
  · cases hb
  -- without the sync source the advance keeps the sorted voters' optime
  obtain rfl := sameBranchCommittedOpTime_eq_some_some hs
  have hopInit : ∀ o ∈ opTimes, o.Initialized := fun o ho => by
    obtain ⟨md, hmd, rfl⟩ := mem_votingNodesOpTimes hots ho
    exact hinit md hmd
  have hquorum := OrderStatistic.le_countP_mergeSort_getElem
    (fun a ha b hb c hc hab hbc => OpTime.ge_trans (hopInit c hc) (hopInit b hb) (hopInit a ha) hbc hab)
    (fun a _ b _ => OpTime.ge_total b a) hc hlen
  have hcount := countP_votingNodesOpTimes c' hots
  simp only [countReportedNotBelow]
  rw [← hcount]
  omega

/-- A voter is a data-bearing one or an arbiter, not both. -/
theorem reportsNotBelow_voter (config : ReplSetConfig) (useDurableOpTime : Bool) (c : OpTime)
    (md : MemberData) :
    reportsNotBelow config useDurableOpTime MemberConfig.isVoter c md =
      (reportsNotBelow config useDurableOpTime (fun m => m.isVoter && !m.isArbiter) c md ||
        reportsNotBelow config useDurableOpTime (fun m => m.isVoter && m.isArbiter) c md) ∧
    (reportsNotBelow config useDurableOpTime (fun m => m.isVoter && !m.isArbiter) c md &&
        reportsNotBelow config useDurableOpTime (fun m => m.isVoter && m.isArbiter) c md) =
      false := by
  rcases h : config.getMemberAt md.configIndex.toNat with _ | mc
  · simp [reportsNotBelow, h]
  · simp only [reportsNotBelow, h]
    cases mc.isVoter <;> cases mc.isArbiter <;> cases (md.reportedOpTime useDurableOpTime).ge c <;>
      decide

/-- The voters that report an optime not below `c` are the data-bearing ones and the arbiters. -/
theorem countReportedNotBelow_voters (c : OpTime) :
    tc.countReportedNotBelow MemberConfig.isVoter c =
      tc.countReportedNotBelow (fun m => m.isVoter && !m.isArbiter) c +
        tc.countReportedNotBelow (fun m => m.isVoter && m.isArbiter) c := by
  unfold countReportedNotBelow
  generalize tc.memberData = mds
  induction mds with
  | nil => rfl
  | cons md rest ih =>
    obtain ⟨hor, hand⟩ := reportsNotBelow_voter tc.rsConfig
      tc.rsConfig.getWriteConcernMajorityShouldJournal c md
    simp only [List.countP_cons, ih, hor]
    revert hand
    cases reportsNotBelow tc.rsConfig tc.rsConfig.getWriteConcernMajorityShouldJournal
      (fun m => m.isVoter && !m.isArbiter) c md <;>
    cases reportsNotBelow tc.rsConfig tc.rsConfig.getWriteConcernMajorityShouldJournal
      (fun m => m.isVoter && m.isArbiter) c md <;> simp <;> omega

/-! ### Runs -/

/-- One call that can move the commit point, an update or an advance with any optime from a
heartbeat or the sync source, or anything else the coordinator does, which leaves
`_lastCommittedOpTimeAndWallTime` as it is: only `advanceLastCommittedOpTimeAndWallTime`
writes it. -/
inductive CommitStep : TopologyCoordinator → TopologyCoordinator → Prop
  | update {tc tc' : TopologyCoordinator} {b : Bool} :
    tc.updateLastCommittedOpTimeAndWallTime = some (tc', b) → CommitStep tc tc'
  | advance {tc tc' : TopologyCoordinator} {b : Bool} (committedOpTime : OpTime)
      (fromSyncSource : Bool) :
    tc.advanceLastCommittedOpTimeAndWallTime committedOpTime fromSyncSource = some (tc', b) →
      CommitStep tc tc'
  | other {tc tc' : TopologyCoordinator} :
    tc'.lastCommittedOpTime = tc.lastCommittedOpTime → CommitStep tc tc'

/-- A step of a run whose commit points all have initialized terms. -/
def InitializedStep (tc tc' : TopologyCoordinator) : Prop :=
  CommitStep tc tc' ∧ tc'.lastCommittedOpTime.Initialized

theorem lastCommittedOpTime_advance_ge {c : OpTime} {fromSyncSource b : Bool}
    {tc' : TopologyCoordinator}
    (h : tc.advanceLastCommittedOpTimeAndWallTime c fromSyncSource = some (tc', b)) :
    tc'.lastCommittedOpTime.ge tc.lastCommittedOpTime = true := by
  rcases advanceLastCommittedOpTimeAndWallTime_eq_some h with ⟨rfl, -⟩ | ⟨-, c', -, -, -, hlt, rfl⟩
  · exact OpTime.ge_self _
  · exact OpTime.ge_of_lt_eq_false hlt

/-- No step lowers the commit point. -/
theorem CommitStep.lastCommittedOpTime_ge {tc' : TopologyCoordinator} (h : CommitStep tc tc') :
    tc'.lastCommittedOpTime.ge tc.lastCommittedOpTime = true := by
  cases h with
  | update h =>
    rcases updateLastCommittedOpTimeAndWallTime_eq_some h with ⟨rfl, -⟩ | ⟨-, -, _, _, -, -, -, hadv⟩
    · exact OpTime.ge_self _
    · exact lastCommittedOpTime_advance_ge hadv
  | advance c fromSyncSource h => exact lastCommittedOpTime_advance_ge h
  | other h =>
    rw [h]
    exact OpTime.ge_self _

/-- Over a run whose commit points have initialized terms, the commit point never goes below
where it started; `operator<` is an order on such optimes, so the steps chain. -/
theorem lastCommittedOpTime_ge_of_run {tc' : TopologyCoordinator}
    (h0 : tc.lastCommittedOpTime.Initialized) (h : Relation.ReflTransGen InitializedStep tc tc') :
    tc'.lastCommittedOpTime.Initialized ∧
      tc'.lastCommittedOpTime.ge tc.lastCommittedOpTime = true := by
  induction h with
  | refl => exact ⟨h0, OpTime.ge_self _⟩
  | tail _ hstep ih =>
    exact ⟨hstep.2, OpTime.ge_trans hstep.2 ih.1 h0 hstep.1.lastCommittedOpTime_ge ih.2⟩

theorem commitPoint_majority_and_monotone :
    (∀ {tc tc' : TopologyCoordinator},
      tc.updateLastCommittedOpTimeAndWallTime = some (tc', true) →
      tc.role = .kLeader ∧ tc.leaderMode ≠ .kSteppingDown ∧
      tc'.lastCommittedOpTime.ge tc'.firstOpTimeOfMyTerm = true ∧
      ((∀ md ∈ tc.memberData,
        (md.reportedOpTime tc.rsConfig.getWriteConcernMajorityShouldJournal).Initialized) →
        tc'.rsConfig.getWriteMajority ≤
          tc'.countReportedNotBelow (fun m => m.isVoter && !m.isArbiter) tc'.lastCommittedOpTime +
            tc'.countReportedNotBelow (fun m => m.isVoter && m.isArbiter) tc'.lastCommittedOpTime)) ∧
    (∀ {tc tc' : TopologyCoordinator}, CommitStep tc tc' →
      tc'.lastCommittedOpTime.ge tc.lastCommittedOpTime = true) ∧
    (∀ {tc tc' : TopologyCoordinator}, tc.lastCommittedOpTime.Initialized →
      Relation.ReflTransGen InitializedStep tc tc' →
      tc'.lastCommittedOpTime.ge tc.lastCommittedOpTime = true) := by
  refine ⟨fun h => ?_, CommitStep.lastCommittedOpTime_ge,
    fun h0 h => (lastCommittedOpTime_ge_of_run h0 h).2⟩
  obtain ⟨hrole, hmode, hfirst⟩ := updateLastCommittedOpTime_primary h
  refine ⟨hrole, hmode, hfirst, fun hinit => ?_⟩
  have hmajority := updateLastCommittedOpTime_majority hinit h
  -- the voters split into the data-bearing ones and the arbiters
  rw [countReportedNotBelow_voters] at hmajority
  exact hmajority

end TopologyCoordinator

/-- A primary whose data-bearing secondary is behind it, and an arbiter whose heartbeats report
the primary's optime. -/
def arbiterMajority : TopologyCoordinator where
  role := .kLeader
  leaderMode := .kMaster
  term := 1
  selfIndex := 1
  rsConfig := ⟨[⟨1, false, false⟩, ⟨1, false, false⟩, ⟨1, false, true⟩], true⟩
  memberData := [⟨0, ⟨5, 1⟩, ⟨5, 1⟩⟩, ⟨1, ⟨10, 1⟩, ⟨10, 1⟩⟩, ⟨2, ⟨10, 1⟩, ⟨10, 1⟩⟩]
  firstOpTimeOfMyTerm := ⟨1, 1⟩
  lastCommittedOpTime := ⟨5, 1⟩

/-- The primary commits its own optime on the arbiter's report. -/
theorem updateLastCommittedOpTime_arbiterMajority :
    arbiterMajority.updateLastCommittedOpTimeAndWallTime =
      some ({ arbiterMajority with lastCommittedOpTime := ⟨10, 1⟩ }, true) := by
  have hsort : sortOpTimes [⟨5, 1⟩, ⟨10, 1⟩, ⟨10, 1⟩] = [⟨5, 1⟩, ⟨10, 1⟩, ⟨10, 1⟩] :=
    sortOpTimes_eq_self (by decide)
  unfold TopologyCoordinator.updateLastCommittedOpTimeAndWallTime
  have hv : votingNodesOpTimes arbiterMajority.rsConfig
      arbiterMajority.rsConfig.getWriteConcernMajorityShouldJournal arbiterMajority.memberData =
      some [⟨5, 1⟩, ⟨10, 1⟩, ⟨10, 1⟩] := by decide
  rw [hv]
  simp only [hsort]
  decide

theorem commitPoint_majority_and_monotone_arbiterMajority :
    arbiterMajority.rsConfig.getWriteMajority ≤
      arbiterMajority.countReportedNotBelow (fun m => m.isVoter && !m.isArbiter) ⟨10, 1⟩ +
        arbiterMajority.countReportedNotBelow (fun m => m.isVoter && m.isArbiter) ⟨10, 1⟩ :=
  (TopologyCoordinator.commitPoint_majority_and_monotone.1 updateLastCommittedOpTime_arbiterMajority).2.2.2
    (by decide)

/-- An arbiter out of the primary role, with a commit point of term 5. -/
def arbiterNode : TopologyCoordinator where
  role := .kFollower
  leaderMode := .kNotLeader
  term := 5
  selfIndex := 0
  rsConfig := ⟨[⟨1, false, true⟩], false⟩
  memberData := [⟨0, ⟨0, -1⟩, ⟨0, -1⟩⟩]
  firstOpTimeOfMyTerm := ⟨0, -1⟩
  lastCommittedOpTime := ⟨1, 5⟩

theorem commitPoint_arbiter_counterexample :
    arbiterMajority.updateLastCommittedOpTimeAndWallTime =
      some ({ arbiterMajority with lastCommittedOpTime := ⟨10, 1⟩ }, true) ∧
    arbiterMajority.countReportedNotBelow (fun m => m.isVoter && !m.isArbiter) ⟨10, 1⟩ <
      arbiterMajority.rsConfig.getWriteMajority ∧
    (arbiterNode.advanceLastCommittedOpTimeAndWallTime ⟨2, -1⟩ false).bind
        (fun r => r.1.advanceLastCommittedOpTimeAndWallTime ⟨3, 1⟩ false) =
      some ({ arbiterNode with lastCommittedOpTime := ⟨3, 1⟩ }, true) ∧
    OpTime.lt ⟨3, 1⟩ arbiterNode.lastCommittedOpTime = true :=
  ⟨updateLastCommittedOpTime_arbiterMajority, by decide, by decide, by decide⟩

end Commit

end Mongo.Repl
