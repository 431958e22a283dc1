import OrbisKV.Raft.Roles
/-!
# Who speaks for a term

`sendHeartbeats` checks that the node is the leader, unlocks, and starts one goroutine
for each peer; the goroutine takes the lock again and fills in the request without a
second check.
-/

namespace OrbisKV

open CallBody Function Node Raft

variable {n : Nat} {Cmd : Type}

def CallBody.serveOusts (t : Nat) : CallBody n Cmd → Bool
  | .voteRequested args => t < args.term
  | .appendRequested args => t ≤ args.term
  | .installRequested args => t < args.term
  | _ => false

def CallBody.resumeOusts (t : Nat) : CallBody n Cmd → Bool
  | .voteReplied _ reply => t < reply.term
  | .appendReplied args reply => args.term = t && t < reply.term
  | .installReplied _ reply => t < reply.term
  | _ => false

def CallBody.isSpawned : CallBody n Cmd → Bool
  | .spawned => true
  | _ => false

theorem CallBody.isSpawned_iff {body : CallBody n Cmd} :
    body.isSpawned = true ↔ body = .spawned := by
  cases body <;> simp [isSpawned]

namespace Raft

variable {rf : Raft n Cmd}

theorem catchUp_of_le {term : Nat} (h : ¬ rf.currentTerm < term) : rf.catchUp term = rf := by
  rw [catchUp, if_neg h]

theorem requestVote_state {args : RequestVoteArgs n} (h : ¬ rf.currentTerm < args.term) :
    (rf.requestVote args).1.state = rf.state := by
  rcases rf.requestVote_cases args with ⟨_, heq⟩ | ⟨_, heq⟩ | ⟨_, _, _, heq⟩
  · rw [heq]
  · rw [heq, catchUp_of_le h]
  · rw [heq, catchUp_of_le h]

theorem appendEntries_of_lt {args : AppendEntriesArgs n Cmd} (h : args.term < rf.currentTerm) :
    rf.appendEntries args = (rf, ⟨rf.currentTerm, false, 0, 0⟩, .nothing) := by
  rw [appendEntries, if_pos h]

theorem installSnapshot_state {args : InstallSnapshotArgs n}
    (h : ¬ rf.currentTerm < args.term) : (rf.installSnapshot args).1.state = rf.state := by
  unfold installSnapshot
  split
  · rfl
  · dsimp only
    rw [catchUp_of_le h]
    split <;> rfl

theorem handleVoteResponse_leader {reply : RequestVoteReply} (h : rf.state = .leader)
    (hterm : ¬ rf.currentTerm < reply.term) : rf.handleVoteResponse reply = (rf, false) := by
  unfold handleVoteResponse
  rw [if_neg hterm]
  split
  · rfl
  · rw [if_pos (by rw [h]; decide)]

theorem handleAppendReply_state {server : Fin n} {args : AppendEntriesArgs n Cmd}
    {reply : AppendEntriesReply}
    (h : ¬ (args.term = rf.currentTerm ∧ rf.currentTerm < reply.term)) :
    (rf.handleAppendReply server args reply).1.state = rf.state := by
  rcases rf.handleAppendReply_cases server args reply with
    heq | ⟨hargs, hlt, _⟩ | ⟨_, _, heq, _, _, _, hadv⟩
  · rw [heq]
  · exact absurd ⟨hargs, hlt⟩ h
  · rw [heq, hadv]

theorem handleInstallReply_state {server : Fin n} {reply : InstallSnapshotReply}
    (h : ¬ rf.currentTerm < reply.term) :
    (rf.handleInstallReply server reply).1.state = rf.state := by
  rw [handleInstallReply, if_neg h]

end Raft

namespace Node

variable {nd nd' : Node n Cmd}

theorem act_state {sec : Section Cmd} {body : Option (CallBody n Cmd)}
    (h : nd.act sec = some (nd', body)) (hsec : sec ≠ .startElection) :
    nd'.rf.state = nd.rf.state := by
  cases acts h with
  | startElection => exact absurd rfl hsec
  | applierCollect =>
    obtain ⟨k, hk⟩ := collect_eq nd.rf.commitIndex nd.rf
    rw [applier, hk]
  | start command rf hrf =>
    unfold start at hrf
    split at hrf <;> cases hrf
    rfl
  | snapshot index data rf taken hrf =>
    unfold snapshot at hrf
    split at hrf
    · cases hrf
      rfl
    · split at hrf
      · cases hrf
        rfl
      · dsimp only at hrf
        split at hrf <;> cases hrf
        rfl
  | _ => rfl

theorem serve_state {body body' : CallBody n Cmd} (h : nd.serve body = some (nd', body'))
    (hkeep : body.serveOusts nd.rf.currentTerm = false) : nd'.rf.state = nd.rf.state := by
  cases serves h with
  | voteRequested args =>
    rw [finishVote_rf]
    exact requestVote_state (by simpa [serveOusts] using hkeep)
  | appendRequested args =>
    have hlt : args.term < nd.rf.currentTerm := by simpa [serveOusts] using hkeep
    rw [finishAppend_rf, appendEntries_of_lt hlt]
  | appendServing args reply wait => cases wait <;> rfl
  | installRefused args =>
    exact installSnapshot_state (by simpa [serveOusts] using hkeep)
  | installRequested args mid hmid =>
    subst hmid
    exact installSnapshot_state (by simpa [serveOusts] using hkeep)
  | _ => rfl

theorem resume_state {peer : Fin n} {body : CallBody n Cmd} {body' : Option (CallBody n Cmd)}
    (h : nd.resume peer body = some (nd', body')) (hlead : nd.rf.state = .leader)
    (hkeep : body.resumeOusts nd.rf.currentTerm = false) : nd'.rf.state = .leader := by
  cases resumes h with
  | voteReplied args reply =>
    rw [handleVoteResponse_leader hlead (by simpa [resumeOusts] using hkeep)]
    exact hlead
  | appendReplied args reply =>
    have hst : (nd.rf.handleAppendReply peer args reply).1.state = nd.rf.state :=
      handleAppendReply_state (by simpa [resumeOusts] using hkeep)
    exact hst.trans hlead
  | installReplied args reply =>
    have hst : (nd.rf.handleInstallReply peer reply).1.state = nd.rf.state :=
      handleInstallReply_state (by simpa [resumeOusts] using hkeep)
    exact hst.trans hlead
  | spawned rf request hrf =>
    obtain ⟨⟨next, rfl⟩, _⟩ := buildRequest_cases hrf
    exact hlead

end Node

def Request.term : Request n Cmd → Nat
  | .append args => args.term
  | .install args => args.term

namespace Cluster

variable {s s' : Cluster n Cmd} {a : Action n Cmd}

def sends (s : Cluster n Cmd) : Action n Cmd → Option (Fin n × Request n Cmd)
  | .resume i =>
    (s.calls[i]?).bind fun c =>
      if c.alive && c.body.isSpawned then
        ((s.node c.src).rf.buildRequest c.dst (s.node c.src).persister.readSnapshot).bind
          fun (_, request) => request.map fun r => (c.src, r)
      else none
  | _ => none

def unbuilt (s : Cluster n Cmd) (p : Fin n) : Bool :=
  s.calls.any fun c => c.src = p && c.body.isSpawned

def ousts (s : Cluster n Cmd) : Action n Cmd → Option (Fin n)
  | .run p .startElection => some p
  | .serve i => (s.calls[i]?).bind fun c =>
    if c.body.serveOusts (s.node c.dst).rf.currentTerm then some c.dst else none
  | .resume i => (s.calls[i]?).bind fun c =>
    if c.body.resumeOusts (s.node c.src).rf.currentTerm then some c.src else none
  | _ => none

/-- A leader leaves its role only when all its goroutines have built their requests. -/
def builtBefore (s : Cluster n Cmd) (a : Action n Cmd) : Bool :=
  (s.ousts a).all fun p => (s.node p).rf.state ≠ .leader || !s.unbuilt p

def Building (s : Cluster n Cmd) : Prop :=
  ∀ c ∈ s.calls, c.body = .spawned → (s.node c.src).rf.state = .leader

theorem unbuilt_of_mem {c : Call n Cmd} (hc : c ∈ s.calls) (hbody : c.body = .spawned) :
    s.unbuilt c.src = true := by
  rw [unbuilt, List.any_eq_true]
  exact ⟨c, hc, by simp [hbody, isSpawned]⟩

theorem ousts_ne_of_unbuilt (hok : s.builtBefore a = true) {p : Fin n}
    (hlead : (s.node p).rf.state = .leader) (hun : s.unbuilt p = true) : s.ousts a ≠ some p := by
  intro hp
  rw [builtBefore, hp] at hok
  simp [hlead, hun] at hok

theorem Building.step (h : s.Building) (hok : s.builtBefore a = true) (hstep : s.step a = some s') :
    s'.Building := by
  have hkeep : ∀ {q nd}, s'.node = update s.node q nd →
      ((s.node q).rf.state = .leader → s.unbuilt q = true → nd.rf.state = .leader) →
      ∀ c ∈ s.calls, c.body = .spawned → (s'.node c.src).rf.state = .leader := by
    intro q nd hnode hq c hc hbody
    have hlead := h c hc hbody
    rw [hnode]
    by_cases hsrc : c.src = q
    · subst hsrc
      rw [update_self]
      exact hq hlead (unbuilt_of_mem hc hbody)
    · rw [update_of_ne hsrc]
      exact hlead
  intro d hd hbody
  cases a with
  | run p sec =>
    obtain ⟨nd, body, hact, hnode, hcs⟩ := step_run hstep
    have hstay : (s.node p).rf.state = .leader → s.unbuilt p = true → nd.rf.state = .leader := by
      intro hlead hun
      by_cases hsec : sec = .startElection
      · subst hsec
        exact absurd rfl (ousts_ne_of_unbuilt hok hlead hun)
      · exact (act_state hact hsec).trans hlead
    rw [hcs, List.mem_append] at hd
    rcases hd with hd | hd
    · exact hkeep hnode hstay d hd hbody
    · obtain ⟨hsrc, _, _, hspawn⟩ := mem_spawn hd
      rw [hbody] at hspawn
      have hsec : sec ≠ .startElection := by
        rintro rfl
        rw [hspawn] at hact
        cases acts hact
      rcases act_body hact hsec with hnone | ⟨_, hlead⟩
      · rw [hnone] at hspawn
        cases hspawn
      · rw [hsrc, hnode, update_self, act_state hact hsec]
        exact hlead
  | serve i =>
    obtain ⟨c, nd, body, hc, hsv, hnode, hcs⟩ := step_serve hstep
    rw [hcs] at hd
    rcases List.mem_or_eq_of_mem_set hd with hd | rfl
    · refine hkeep hnode ?_ d hd hbody
      intro hlead hun
      have hne := ousts_ne_of_unbuilt hok hlead hun
      rw [serve_state hsv ?_]
      · exact hlead
      · simpa [ousts, hc] using hne
    · exact absurd hbody (serve_ne_spawned hsv)
  | resume i =>
    obtain ⟨c, nd, body, hc, _, hres, hnode, hcs⟩ := step_resume hstep
    rw [hcs] at hd
    rcases mem_setCall hd with hd | ⟨b, rfl, rfl⟩
    · refine hkeep hnode ?_ d hd hbody
      intro hlead hun
      have hne := ousts_ne_of_unbuilt hok hlead hun
      exact resume_state hres hlead (by simpa [ousts, hc] using hne)
    · rcases (resume_some hres).2 with ⟨_, rfl⟩ | ⟨_, rfl⟩ <;> cases hbody
  | crash p id =>
    obtain ⟨ps, _, hnode, hcs⟩ := step_crash hstep
    rw [hcs] at hd
    obtain ⟨c, hc, hsur, rfl⟩ := mem_afterCrash hd
    have hne : c.src ≠ p := by
      have hcbody : c.body = .spawned := hbody
      simpa [Call.survives, hcbody] using hsur
    change (s'.node c.src).rf.state = .leader
    rw [hnode, update_of_ne hne]
    exact h c hc hbody

theorem building_of_reachable
    (h : (system n Cmd).Reachable (fun s a => s.builtBefore a = true) s) : s.Building := by
  refine h.invariant ?_ ?_
  · rintro _ rfl c hc
    cases hc
  · exact fun _ _ _ hI hok hstep => hI.step hok hstep

/-- In every run in which leaders leave their role with all requests built, a request
of term `T` is built by the leader of term `T`. -/
theorem request_built_by_leader
    (hs : (system n Cmd).Reachable (fun s a => s.builtBefore a = true) s)
    {a : Action n Cmd} {p : Fin n} {r : Request n Cmd} (hsend : s.sends a = some (p, r)) :
    (s.node p).rf.state = .leader ∧ (s.node p).rf.currentTerm = r.term := by
  cases a with
  | resume i =>
    obtain ⟨c, hc, hif⟩ := Option.bind_eq_some_iff.mp hsend
    split_ifs at hif with hcond
    rw [Bool.and_eq_true, isSpawned_iff] at hcond
    obtain ⟨⟨rf, request⟩, hbd, hmap⟩ := Option.bind_eq_some_iff.mp hif
    obtain ⟨r', rfl, heq⟩ := Option.map_eq_some_iff.mp hmap
    cases heq
    refine ⟨building_of_reachable hs c (List.mem_of_getElem? hc) hcond.2, ?_⟩
    rcases (buildRequest_cases hbd).2 with hnone | ⟨_, _, heq⟩ | ⟨_, _, _, heq⟩
    · cases hnone
    · cases heq
      rfl
    · cases heq
      rfl
  | _ => cases hsend

theorem request_built_by_leader_first :
    ∃ (s : Cluster 3 Nat) (r : Request 3 Nat), s.sends (.resume 1) = some (0, r) ∧
      (s.node 0).rf.state = .leader ∧ (s.node 0).rf.currentTerm = r.term := by
  obtain ⟨s, hs, hsend⟩ := Lib.System.exists_of_execOk (system 3 Nat)
    (fun s a => s.builtBefore a = true) boot
    (electFirst ++ [.run 0 .sendHeartbeats])
    (fun s => s.sends (.resume 1) = some (0, .append ⟨1, 0, 0, 0, [], 0⟩)) (by decide)
  exact ⟨s, _, hsend, request_built_by_leader ⟨_, rfl, hs⟩ hsend⟩

theorem request_built_by_follower :
    ∃ (s : Cluster 3 Nat) (r : Request 3 Nat),
      (system 3 Nat).Reachable Lib.System.anyStep s ∧ s.sends (.resume 2) = some (0, r) ∧
      r.term = 2 ∧ (s.node 0).rf.state = .follower ∧ (s.node 1).rf.state = .leader ∧
      (s.node 1).rf.currentTerm = 2 := by
  obtain ⟨s, hs, hsend, hrest⟩ := Lib.System.exists_of_exec (system 3 Nat) boot
    (electFirst ++ [.run 0 .sendHeartbeats, .run 1 .tick, .run 1 .startElection, .serve 4,
      .run 2 .hardStateDone, .serve 4, .resume 4, .serve 3])
    (fun s => s.sends (.resume 2) = some (0, .append ⟨2, 0, 0, 0, [], 0⟩) ∧
      (s.node 0).rf.state = .follower ∧ (s.node 1).rf.state = .leader ∧
      (s.node 1).rf.currentTerm = 2) (by decide)
  exact ⟨s, _, .of_exec rfl hs, hsend, rfl, hrest⟩

end Cluster

end OrbisKV
