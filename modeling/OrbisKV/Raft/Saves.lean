import OrbisKV.Raft.Roles
/-!
# What sections leave alone

Which sections touch neither the log nor the marks of a node, which of them make a
request for the whole state, and that it holds the node they leave behind.
-/

namespace OrbisKV

variable {n : Nat} {Cmd : Type}

structure Raft.Untouched (rf rf' : Raft n Cmd) : Prop where
  log : rf'.log = rf.log
  index : rf'.lastIncludedIndex = rf.lastIncludedIndex
  term : rf'.lastIncludedTerm = rf.lastIncludedTerm
  persisted : rf'.persistedIndex = rf.persistedIndex
  applied : rf'.lastApplied = rf.lastApplied

structure Raft.Unmoved (rf rf' : Raft n Cmd) : Prop extends Raft.Untouched rf rf' where
  commit : rf'.commitIndex = rf.commitIndex

namespace Raft

variable (rf : Raft n Cmd)

theorem Unmoved.refl : Unmoved rf rf := ⟨⟨rfl, rfl, rfl, rfl, rfl⟩, rfl⟩

theorem unmoved_catchUp (term : Nat) : Unmoved rf (rf.catchUp term) := by
  unfold catchUp
  split <;> exact ⟨⟨rfl, rfl, rfl, rfl, rfl⟩, rfl⟩

theorem unmoved_requestVote (args : RequestVoteArgs n) : Unmoved rf (rf.requestVote args).1 := by
  have hcatch := rf.unmoved_catchUp args.term
  rcases rf.requestVote_cases args with ⟨_, h⟩ | ⟨_, h⟩ | ⟨_, _, _, h⟩
  · rw [h]
    exact .refl rf
  · rw [h]
    exact hcatch
  · rw [h]
    exact ⟨⟨hcatch.log, hcatch.index, hcatch.term, hcatch.persisted, hcatch.applied⟩, hcatch.commit⟩

theorem unmoved_startElection : Unmoved rf rf.startElection.1 := by
  unfold startElection
  dsimp only
  split <;> exact ⟨⟨rfl, rfl, rfl, rfl, rfl⟩, rfl⟩

theorem unmoved_handleVoteResponse (reply : RequestVoteReply) :
    Unmoved rf (rf.handleVoteResponse reply).1 := by
  unfold handleVoteResponse
  split
  · exact ⟨⟨rfl, rfl, rfl, rfl, rfl⟩, rfl⟩
  · split
    · exact .refl rf
    · split
      · exact .refl rf
      · split
        · dsimp only
          split <;> exact ⟨⟨rfl, rfl, rfl, rfl, rfl⟩, rfl⟩
        · exact .refl rf

theorem untouched_handleAppendReply (server : Fin n) (args : AppendEntriesArgs n Cmd)
    (reply : AppendEntriesReply) : Untouched rf (rf.handleAppendReply server args reply).1 := by
  rcases rf.handleAppendReply_cases server args reply with
    h | ⟨_, _, h⟩ | ⟨_, _, h, _, _, _, heq⟩
  · rw [h]
    exact ⟨rfl, rfl, rfl, rfl, rfl⟩
  · rw [h]
    exact ⟨rfl, rfl, rfl, rfl, rfl⟩
  · rw [h, heq]
    exact ⟨rfl, rfl, rfl, rfl, rfl⟩

theorem unmoved_handleInstallReply (server : Fin n) (reply : InstallSnapshotReply) :
    Unmoved rf (rf.handleInstallReply server reply).1 := by
  unfold handleInstallReply
  split <;> exact ⟨⟨rfl, rfl, rfl, rfl, rfl⟩, rfl⟩

end Raft

theorem Node.untouched_resume {nd nd' : Node n Cmd} {peer : Fin n} {body : CallBody n Cmd}
    {body' : Option (CallBody n Cmd)} (h : nd.resume peer body = some (nd', body')) :
    nd.rf.Untouched nd'.rf ∧ nd'.completions = nd.completions ∧ nd'.unsent = nd.unsent ∧
      nd'.applied = nd.applied := by
  cases resumes h with
  | voteReplied args reply =>
    exact ⟨(nd.rf.unmoved_handleVoteResponse reply).toUntouched, rfl, rfl, rfl⟩
  | spawned rf request hrf =>
    obtain ⟨⟨next, rfl⟩, _⟩ := Raft.buildRequest_cases hrf
    exact ⟨⟨rfl, rfl, rfl, rfl, rfl⟩, rfl, rfl, rfl⟩
  | appendReplied args reply =>
    exact ⟨nd.rf.untouched_handleAppendReply peer args reply, rfl, rfl, rfl⟩
  | installReplied args reply =>
    exact ⟨(nd.rf.unmoved_handleInstallReply peer reply).toUntouched, rfl, rfl, rfl⟩

structure Persister.SameSaves (ps ps' : Persister n Cmd) : Prop where
  found : ps'.found = ps.found
  snapshot : ps'.foundSnapshot = ps.foundSnapshot
  saves : ps'.saves = ps.saves

structure Persister.Adds (ps ps' : Persister n Cmd) (r : SaveRequest n Cmd) : Prop where
  found : ps'.found = ps.found
  snapshot : ps'.foundSnapshot = ps.foundSnapshot
  saves : ps'.saves = ps.saves ++ [r]

namespace Node

variable {nd nd' : Node n Cmd} {body : Option (CallBody n Cmd)}

theorem sameSaves_refl (ps : Persister n Cmd) : ps.SameSaves ps := ⟨rfl, rfl, rfl⟩

theorem sameSaves_settle (nd : Node n Cmd) (rf : Raft n Cmd) (persisted : Bool) :
    nd.persister.SameSaves (nd.settle rf persisted).persister := by
  cases persisted <;> exact ⟨rfl, rfl, rfl⟩

theorem sameSaves_act {sec : Section Cmd} (h : nd.act sec = some (nd', body))
    (hsta : ∀ command, sec ≠ .start command) (hsnap : ∀ index data, sec ≠ .snapshot index data)
    (hdone : ∀ id, sec ≠ .saveDone id) : nd.persister.SameSaves nd'.persister := by
  cases acts h with
  | start command => exact absurd rfl (hsta command)
  | snapshot index data => exact absurd rfl (hsnap index data)
  | saveDone id => exact absurd rfl (hdone id)
  | startElection => exact sameSaves_settle nd _ true
  | _ => exact ⟨rfl, rfl, rfl⟩

theorem sameSaves_serve {body body' : CallBody n Cmd} (h : nd.serve body = some (nd', body'))
    (happ : ∀ args, body ≠ .appendRequested args)
    (hins : ∀ args, body ≠ .installRequested args) : nd.persister.SameSaves nd'.persister := by
  cases serves h with
  | appendRequested args => exact absurd rfl (happ args)
  | installRefused args | installRequested args => exact absurd rfl (hins args)
  | voteRequested args =>
    unfold finishVote
    split <;> exact ⟨rfl, rfl, rfl⟩
  | appendServing args reply wait => cases wait <;> exact ⟨rfl, rfl, rfl⟩
  | _ => exact ⟨rfl, rfl, rfl⟩

theorem sameSaves_resume {peer : Fin n} {body : CallBody n Cmd} {body' : Option (CallBody n Cmd)}
    (h : nd.resume peer body = some (nd', body')) : nd.persister.SameSaves nd'.persister := by
  cases resumes h with
  | spawned => exact sameSaves_refl _
  | _ => exact sameSaves_settle nd _ _

theorem finishAppend_saves (rf : Raft n Cmd) (args : AppendEntriesArgs n Cmd)
    (reply : AppendEntriesReply) (e : Enqueued) :
    (e ≠ .raftState ∧ nd.persister.SameSaves (nd.finishAppend rf args reply e).1.persister) ∨
    (e = .raftState ∧ nd.persister.Adds (nd.finishAppend rf args reply e).1.persister
        ⟨rf.raftState, [], false⟩) := by
  cases e with
  | raftState => exact Or.inr ⟨rfl, rfl, rfl, rfl⟩
  | _ => exact Or.inl ⟨by simp, rfl, rfl, rfl⟩

end Node

end OrbisKV
