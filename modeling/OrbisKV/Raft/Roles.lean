import OrbisKV.Raft.Step
/-!
# Terms, votes and roles

The term and the vote of a node only move forward, a node gets out of the follower
role only by `startElection` and by counting a vote, and every hard-state request
carries the term and vote of its moment.
-/

namespace OrbisKV

variable {n : Nat} {Cmd : Type}

instance : Preorder (HardState n) where
  le h h' := h.currentTerm < h'.currentTerm ∨
    (h.currentTerm = h'.currentTerm ∧ (h.votedFor = none ∨ h.votedFor = h'.votedFor))
  le_refl h := .inr ⟨rfl, .inr rfl⟩
  le_trans h₁ h₂ h₃ h₁₂ h₂₃ := by
    rcases h₁₂ with h₁₂ | ⟨h₁₂, hv₁₂⟩ <;> rcases h₂₃ with h₂₃ | ⟨h₂₃, hv₂₃⟩
    · exact .inl (h₁₂.trans h₂₃)
    · exact .inl (h₂₃ ▸ h₁₂)
    · exact .inl (h₁₂ ▸ h₂₃)
    · refine .inr ⟨h₁₂.trans h₂₃, ?_⟩
      rcases hv₁₂ with hnone | heq
      · exact .inl hnone
      · rw [heq]
        exact hv₂₃

namespace HardState

theorem term_le {h h' : HardState n} (hle : h ≤ h') : h.currentTerm ≤ h'.currentTerm := by
  rcases hle with hlt | ⟨heq, _⟩
  · exact hlt.le
  · exact heq.le

theorem vote_unique {t : Nat} {c d : Fin n}
    (h : (⟨t, some c⟩ : HardState n) ≤ ⟨t, some d⟩) : c = d := by
  rcases h with hlt | ⟨_, hnone | heq⟩
  · exact absurd hlt (Nat.lt_irrefl _)
  · cases hnone
  · exact Option.some.inj heq

theorem vote_unique_of_mem {l : List (HardState n)} (hl : l.Pairwise (· ≤ ·)) {t : Nat}
    {c d : Fin n} (hc : ⟨t, some c⟩ ∈ l) (hd : ⟨t, some d⟩ ∈ l) : c = d := by
  obtain ⟨i, hi, hci⟩ := List.getElem_of_mem hc
  obtain ⟨j, hj, hdj⟩ := List.getElem_of_mem hd
  rw [List.pairwise_iff_getElem] at hl
  rcases Nat.lt_trichotomy i j with hij | rfl | hij
  · exact vote_unique (hci ▸ hdj ▸ hl i j hi hj hij)
  · have heq := hci.symm.trans hdj
    simpa using heq
  · exact (vote_unique (hci ▸ hdj ▸ hl j i hj hi hij)).symm

end HardState

structure Raft.Calm (rf rf' : Raft n Cmd) : Prop where
  me : rf'.me = rf.me
  le : rf.hardState ≤ rf'.hardState
  role : rf'.state = .follower ∨
    (rf'.state = rf.state ∧ rf'.currentTerm = rf.currentTerm ∧ rf'.votes = rf.votes)

namespace Raft

variable (rf : Raft n Cmd)

theorem Calm.refl : Calm rf rf := ⟨rfl, le_refl _, .inr ⟨rfl, rfl, rfl⟩⟩

theorem calm_stepDown {term : Nat} (h : rf.currentTerm < term) : Calm rf (rf.stepDown term) :=
  ⟨rfl, .inl h, .inl rfl⟩

theorem catchUp_currentTerm {term : Nat} (h : ¬ term < rf.currentTerm) :
    (rf.catchUp term).currentTerm = term := by
  unfold catchUp
  split
  · rfl
  · omega

theorem calm_catchUp (term : Nat) : Calm rf (rf.catchUp term) := by
  unfold catchUp
  split
  · exact rf.calm_stepDown ‹_›
  · exact Calm.refl rf

theorem requestVote_cases (args : RequestVoteArgs n) :
    (args.term < rf.currentTerm ∧ rf.requestVote args = (rf, ⟨rf.currentTerm, false⟩, false)) ∨
    (¬ args.term < rf.currentTerm ∧ rf.requestVote args = (rf.catchUp args.term, ⟨args.term, false⟩,
        decide (rf.currentTerm < args.term))) ∨
    (¬ args.term < rf.currentTerm ∧ (rf.catchUp args.term).outdated args = false ∧
      ((rf.catchUp args.term).votedFor = none ∨
        (rf.catchUp args.term).votedFor = some args.candidateId) ∧
      rf.requestVote args = ({ rf.catchUp args.term with votedFor := some args.candidateId },
        ⟨args.term, true⟩, true)) := by
  unfold requestVote
  by_cases hstale : args.term < rf.currentTerm
  · rw [if_pos hstale]
    exact .inl ⟨hstale, rfl⟩
  · rw [if_neg hstale]
    dsimp only
    rw [rf.catchUp_currentTerm hstale]
    split
    · exact .inr (.inl ⟨hstale, rfl⟩)
    · rename_i hlog
      split
      · exact .inr (.inr ⟨hstale, by simpa using hlog, ‹_›, rfl⟩)
      · exact .inr (.inl ⟨hstale, rfl⟩)

theorem calm_requestVote (args : RequestVoteArgs n) : Calm rf (rf.requestVote args).1 := by
  have hcalm := rf.calm_catchUp args.term
  rcases rf.requestVote_cases args with ⟨_, h⟩ | ⟨_, h⟩ | ⟨_, _, hvote, h⟩
  · rw [h]
    exact Calm.refl rf
  · rw [h]
    exact hcalm
  · rw [h]
    exact ⟨hcalm.me, hcalm.le.trans (.inr ⟨rfl, hvote⟩), hcalm.role⟩

theorem acceptTerm_currentTerm {args : AppendEntriesArgs n Cmd}
    (h : ¬ args.term < rf.currentTerm) : (rf.acceptTerm args).currentTerm = args.term :=
  rf.catchUp_currentTerm h

theorem calm_acceptTerm (args : AppendEntriesArgs n Cmd) : Calm rf (rf.acceptTerm args) :=
  ⟨(rf.calm_catchUp args.term).me, (rf.calm_catchUp args.term).le, .inl rfl⟩

theorem calm_appendEntries (args : AppendEntriesArgs n Cmd) :
    Calm rf (rf.appendEntries args).1 := by
  unfold appendEntries
  split
  · exact Calm.refl rf
  · dsimp only
    have hcalm := rf.calm_acceptTerm args
    split
    · exact hcalm
    · obtain ⟨k, hk⟩ := learnCommit_eq { rf.acceptTerm args with
          log := ((rf.acceptTerm args).mergeEntries (args.prevLogIndex + 1) args.entries).1 }
        args.leaderCommit
      rw [hk]
      exact ⟨hcalm.me, hcalm.le, hcalm.role⟩

theorem calm_installSnapshot (args : InstallSnapshotArgs n) :
    Calm rf (rf.installSnapshot args).1 := by
  have hcalm := rf.calm_catchUp args.term
  unfold installSnapshot
  split
  · exact Calm.refl rf
  · dsimp only
    split
    · exact hcalm
    · exact ⟨hcalm.me, hcalm.le, hcalm.role⟩

theorem calm_handleAppendReply (server : Fin n) (args : AppendEntriesArgs n Cmd)
    (reply : AppendEntriesReply) : Calm rf (rf.handleAppendReply server args reply).1 := by
  rcases rf.handleAppendReply_cases server args reply with
    h | ⟨_, hlt, h⟩ | ⟨_, _, h, _, _, _, heq⟩
  · rw [h]
    exact Calm.refl rf
  · rw [h]
    exact rf.calm_stepDown hlt
  · rw [h, heq]
    exact ⟨rfl, le_refl _, .inr ⟨rfl, rfl, rfl⟩⟩

theorem calm_handleInstallReply (server : Fin n) (reply : InstallSnapshotReply) :
    Calm rf (rf.handleInstallReply server reply).1 := by
  unfold handleInstallReply
  split
  · exact rf.calm_stepDown ‹_›
  · exact ⟨rfl, le_refl _, .inr ⟨rfl, rfl, rfl⟩⟩

variable {rf} in
theorem calm_start {rf' : Raft n Cmd} {command : Option Cmd}
    (h : rf.start command = some rf') : Calm rf rf' := by
  unfold start at h
  split_ifs at h
  cases h
  exact ⟨rfl, le_refl _, .inr ⟨rfl, rfl, rfl⟩⟩

variable {rf} in
theorem calm_snapshot {rf' : Raft n Cmd} {index : Nat} {taken : Bool}
    (h : rf.snapshot index = some (rf', taken)) : Calm rf rf' := by
  unfold snapshot at h
  split at h
  · cases h
    exact Calm.refl rf
  · split at h
    · cases h
      exact Calm.refl rf
    · dsimp only at h
      split at h
      · cases h
      · cases h
        exact ⟨rfl, le_refl _, .inr ⟨rfl, rfl, rfl⟩⟩

theorem calm_applier : Calm rf rf.applier.1 := by
  obtain ⟨k, hk⟩ := collect_eq rf.commitIndex rf
  rw [applier, hk]
  exact ⟨rfl, le_refl _, .inr ⟨rfl, rfl, rfl⟩⟩

theorem buildRequest_cases {rf rf' : Raft n Cmd} {server : Fin n} {data : Bytes}
    {request : Option (Request n Cmd)} (h : rf.buildRequest server data = some (rf', request)) :
    (∃ next, rf' = { rf with nextIndex := next }) ∧
    (request = none ∨
     (data ≠ [] ∧ rf.nextIndex server ≤ rf.lastIncludedIndex ∧ request = some (.install
        ⟨rf.currentTerm, rf.me, rf.lastIncludedIndex, rf.lastIncludedTerm, data⟩)) ∨
     ∃ prevTerm, rf.lastIncludedIndex < rf.nextIndex server ∧
      (if rf.nextIndex server - 1 = rf.lastIncludedIndex then some rf.lastIncludedTerm
        else (rf.log.get? (rf.nextIndex server - 1 - rf.lastIncludedIndex)).map
          LogEntry.term) = some prevTerm ∧
      request = some (.append ⟨rf.currentTerm, rf.me, rf.nextIndex server - 1, prevTerm,
        rf.log.toList.drop (rf.nextIndex server - rf.lastIncludedIndex),
        rf.commitIndex⟩)) := by
  unfold buildRequest at h
  split at h
  · split at h
    · cases h
      exact ⟨⟨_, rfl⟩, .inl rfl⟩
    · cases h
      exact ⟨⟨rf.nextIndex, rfl⟩, .inr (.inl ⟨‹_›, ‹_›, rfl⟩)⟩
  · obtain ⟨prevTerm, hprev, heq⟩ := Option.map_eq_some_iff.mp h
    cases heq
    exact ⟨⟨rf.nextIndex, rfl⟩, .inr (.inr ⟨prevTerm, by omega, hprev, rfl⟩)⟩

theorem calm_buildRequest {rf rf' : Raft n Cmd} {server : Fin n} {data : Bytes}
    {request : Option (Request n Cmd)}
    (h : rf.buildRequest server data = some (rf', request)) : Calm rf rf' := by
  obtain ⟨⟨next, rfl⟩, _⟩ := buildRequest_cases h
  exact ⟨rfl, le_refl _, .inr ⟨rfl, rfl, rfl⟩⟩

theorem handleVoteResponse_cases (reply : RequestVoteReply) :
    (Calm rf (rf.handleVoteResponse reply).1 ∧ ((rf.handleVoteResponse reply).1.state = .follower ∨
        rf.handleVoteResponse reply = (rf, false))) ∨
    (reply.term = rf.currentTerm ∧ rf.state = .candidate ∧ reply.voteGranted = true ∧
      rf.handleVoteResponse reply =
        (if n / 2 < rf.votes + 1 then { rf with votes := rf.votes + 1 }.becomeLeader
          else { rf with votes := rf.votes + 1 }, false)) := by
  unfold handleVoteResponse
  split
  · exact .inl ⟨rf.calm_stepDown ‹_›, .inl rfl⟩
  · split
    · exact .inl ⟨Calm.refl rf, .inr rfl⟩
    · split
      · exact .inl ⟨Calm.refl rf, .inr rfl⟩
      · rename_i hst
        split
        · exact .inr ⟨by omega, not_not.mp hst, ‹_›, rfl⟩
        · exact .inl ⟨Calm.refl rf, .inr rfl⟩

theorem startElection_hardState :
    rf.startElection.1.hardState = ⟨rf.currentTerm + 1, some rf.me⟩ := by
  unfold startElection
  dsimp only
  split <;> rfl

theorem startElection_me : rf.startElection.1.me = rf.me := by
  unfold startElection
  dsimp only
  split <;> rfl

theorem startElection_votes : rf.startElection.1.votes = 1 := by
  unfold startElection
  dsimp only
  split <;> rfl

theorem startElection_args :
    rf.startElection.2.term = rf.currentTerm + 1 ∧ rf.startElection.2.candidateId = rf.me := by
  unfold startElection
  dsimp only
  split <;> exact ⟨rfl, rfl⟩

theorem startElection_state :
    (n / 2 < 1 ∧ rf.startElection.1.state = .leader) ∨
    (¬ n / 2 < 1 ∧ rf.startElection.1.state = .candidate) := by
  unfold startElection
  dsimp only
  split
  · exact .inl ⟨‹_›, rfl⟩
  · exact .inr ⟨‹_›, rfl⟩

end Raft

namespace Node

variable {nd nd' : Node n Cmd} {body : CallBody n Cmd}

theorem calm_act {sec : Section Cmd} {body : Option (CallBody n Cmd)}
    (h : nd.act sec = some (nd', body)) (hsec : sec ≠ .startElection) : Raft.Calm nd.rf nd'.rf := by
  cases acts h with
  | startElection => exact absurd rfl hsec
  | start command rf hrf => exact Raft.calm_start hrf
  | completePersist k => exact ⟨rfl, le_refl _, .inr ⟨rfl, rfl, rfl⟩⟩
  | snapshot index data rf taken hrf => exact Raft.calm_snapshot hrf
  | applierCollect => exact nd.rf.calm_applier
  | _ => exact .refl _

theorem finishVote_rf (rf : Raft n Cmd) (args : RequestVoteArgs n) (reply : RequestVoteReply)
    (persistNeeded : Bool) : (nd.finishVote rf args reply persistNeeded).1.rf = rf := by
  unfold finishVote
  split <;> rfl

theorem finishAppend_rf (rf : Raft n Cmd) (args : AppendEntriesArgs n Cmd)
    (reply : AppendEntriesReply) (e : Enqueued) : (nd.finishAppend rf args reply e).1.rf = rf := by
  cases e <;> rfl

theorem calm_notePersisted (wait : Wait) : Raft.Calm nd.rf (nd.notePersisted wait).rf := by
  cases wait
  · exact .refl _
  · exact .refl _
  · exact ⟨rfl, le_refl _, .inr ⟨rfl, rfl, rfl⟩⟩

theorem calm_serve {body' : CallBody n Cmd} (h : nd.serve body = some (nd', body')) :
    Raft.Calm nd.rf nd'.rf := by
  cases body with
  | voteRequested args =>
    simp only [serve, Option.some.injEq] at h
    obtain rfl : _ = nd' := congrArg Prod.fst h
    rw [finishVote_rf]
    exact nd.rf.calm_requestVote args
  | voteServing args reply wait =>
    simp only [serve] at h
    split_ifs at h
    cases h
    exact .refl _
  | appendRequested args =>
    simp only [serve, Option.some.injEq] at h
    obtain rfl : _ = nd' := congrArg Prod.fst h
    rw [finishAppend_rf]
    exact nd.rf.calm_appendEntries args
  | appendServing args reply wait =>
    simp only [serve] at h
    split_ifs at h
    cases h
    exact calm_notePersisted wait
  | appendReturning args reply | installSending args reply msg =>
    cases h
    exact .refl _
  | installRequested args =>
    have hcalm := nd.rf.calm_installSnapshot args
    simp only [serve] at h
    split at h
    · cases h
      exact hcalm
    · cases h
      exact hcalm
  | _ => cases h

theorem calm_resume {peer : Fin n} {body' : Option (CallBody n Cmd)}
    (h : nd.resume peer body = some (nd', body'))
    (hbody : ∀ args reply, body ≠ .voteReplied args reply) : Raft.Calm nd.rf nd'.rf := by
  cases body with
  | voteReplied args reply => exact absurd rfl (hbody args reply)
  | spawned =>
    obtain ⟨⟨rf, request⟩, hrf, heq⟩ := Option.map_eq_some_iff.mp h
    cases heq
    exact Raft.calm_buildRequest hrf
  | appendReplied args reply =>
    cases h
    exact nd.rf.calm_handleAppendReply peer args reply
  | installReplied args reply =>
    cases h
    exact nd.rf.calm_handleInstallReply peer reply
  | _ => cases h

def HardDoneLe (nd : Node n Cmd) : Prop :=
  nd.persister.hardDone ≤ nd.persister.hardStates.length

structure Forward (nd nd' : Node n Cmd) : Prop where
  me : nd'.rf.me = nd.rf.me
  le : nd.rf.hardState ≤ nd'.rf.hardState
  requests : nd'.persister.hardStates = nd.persister.hardStates ∨
    nd'.persister.hardStates = nd.persister.hardStates ++ [nd'.rf.hardState]
  done_mono : nd.persister.hardDone ≤ nd'.persister.hardDone
  done_le : nd'.HardDoneLe

section

variable (hle : nd.HardDoneLe)

include hle

theorem Forward.of_eq (hcalm : Raft.Calm nd.rf nd'.rf)
    (hsta : nd'.persister.hardStates = nd.persister.hardStates)
    (hdone : nd'.persister.hardDone = nd.persister.hardDone) : Forward nd nd' := by
  refine ⟨hcalm.me, hcalm.le, .inl hsta, hdone.ge, ?_⟩
  rw [HardDoneLe, hdone, hsta]
  exact hle

theorem Forward.of_enqueue (hcalm : Raft.Calm nd.rf nd'.rf)
    (hps : nd'.persister = nd.persister.enqueueHardState nd'.rf.hardState) : Forward nd nd' := by
  refine ⟨hcalm.me, hcalm.le, .inr ?_, ?_, ?_⟩
  · rw [hps]
    rfl
  · rw [hps]
    exact le_refl _
  · rw [HardDoneLe, hps]
    simpa [Persister.enqueueHardState] using Nat.le_succ_of_le hle

theorem forward_settle {rf : Raft n Cmd} (hme : rf.me = nd.rf.me)
    (hst : nd.rf.hardState ≤ rf.hardState) (persisted : Bool) :
    Forward nd (nd.settle rf persisted) := by
  cases persisted with
  | false => exact ⟨hme, hst, .inl rfl, le_refl _, hle⟩
  | true =>
    refine ⟨hme, hst, .inr rfl, Nat.le_succ_of_le hle, ?_⟩
    simp [HardDoneLe, settle, Persister.saveHardState]

theorem forward_act {sec : Section Cmd} {body : Option (CallBody n Cmd)}
    (h : nd.act sec = some (nd', body)) : Forward nd nd' := by
  have hcalm := calm_act h
  cases acts h with
  | startElection =>
    have hst : nd.rf.hardState ≤ nd.rf.startElection.1.hardState := by
      rw [nd.rf.startElection_hardState]
      exact .inl (Nat.lt_succ_self _)
    have hfor := forward_settle hle nd.rf.startElection_me hst true
    exact ⟨hfor.me, hfor.le, hfor.requests, hfor.done_mono, hfor.done_le⟩
  | snapshot index data rf taken =>
    cases taken <;> exact .of_eq hle (hcalm (by simp)) rfl rfl
  | hardStateDone hlt => exact ⟨rfl, le_refl _, .inl rfl, Nat.le_succ _, hlt⟩
  | _ => exact .of_eq hle (hcalm (by simp)) rfl rfl

theorem forward_serve {body' : CallBody n Cmd}
    (h : nd.serve body = some (nd', body')) : Forward nd nd' := by
  have hcalm := calm_serve h
  cases body with
  | voteRequested args =>
    simp only [serve, Option.some.injEq] at h
    obtain rfl : _ = nd' := congrArg Prod.fst h
    revert hcalm
    unfold finishVote
    split
    · intro hcalm
      exact .of_enqueue hle hcalm rfl
    · intro hcalm
      exact .of_eq hle hcalm rfl rfl
  | voteServing args reply wait =>
    simp only [serve] at h
    split at h <;> cases h
    exact .of_eq hle hcalm rfl rfl
  | appendRequested args =>
    simp only [serve, Option.some.injEq] at h
    obtain rfl : _ = nd' := congrArg Prod.fst h
    revert hcalm
    cases (nd.rf.appendEntries args).2.2 with
    | hardState => exact fun hcalm => .of_enqueue hle hcalm rfl
    | _ => exact fun hcalm => .of_eq hle hcalm rfl rfl
  | appendServing args reply wait =>
    simp only [serve] at h
    split at h <;> cases h
    cases wait <;> exact .of_eq hle hcalm rfl rfl
  | appendReturning args reply | installSending args reply msg =>
    cases h
    exact .of_eq hle hcalm rfl rfl
  | installRequested args =>
    have hinst := nd.rf.calm_installSnapshot args
    have hfor := forward_settle hle hinst.me hinst.le (nd.rf.installSnapshot args).2.2.1
    simp only [serve] at h
    split at h <;> cases h
    · exact ⟨hfor.me, hfor.le, hfor.requests, hfor.done_mono, hfor.done_le⟩
    · exact hfor
  | voteReplied args reply | spawned | appendReplied args reply | installReplied args reply =>
    cases h

theorem forward_resume {peer : Fin n} {body' : Option (CallBody n Cmd)}
    (h : nd.resume peer body = some (nd', body')) : Forward nd nd' := by
  have hcalm := calm_resume h
  cases resumes h with
  | voteReplied args reply =>
    rcases nd.rf.handleVoteResponse_cases reply with ⟨hcalm, _⟩ | ⟨_, _, _, heq⟩
    · exact forward_settle hle hcalm.me hcalm.le _
    · rw [heq]
      refine forward_settle hle ?_ ?_ _ <;> split
      · rfl
      · rfl
      · exact le_refl _
      · exact le_refl _
  | spawned => exact .of_eq hle (hcalm (by simp)) rfl rfl
  | _ => exact forward_settle hle (hcalm (by simp)).me (hcalm (by simp)).le _

end

theorem Forward.requests_isPrefix (h : Forward nd nd') :
    nd.persister.hardStates <+: nd'.persister.hardStates := by
  rcases h.requests with heq | heq
  · rw [heq]
  · rw [heq]
    exact List.prefix_append _ _

theorem Forward.durable_isPrefix (h : Forward nd nd') :
    nd.persister.durableHardStates <+: nd'.persister.durableHardStates := by
  unfold Persister.durableHardStates
  exact (h.requests_isPrefix.take _).trans (List.take_prefix_take_left h.done_mono)

end Node

end OrbisKV
