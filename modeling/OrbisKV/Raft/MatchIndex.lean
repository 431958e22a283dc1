import OrbisKV.Raft.CommandStream
/-!
# What a leader notes of its peers

`matchIndex` is set from replies of `AppendEntries` to what the request carried, but from
replies of `InstallSnapshot` to the snapshot index that the leader has by then.
-/

namespace OrbisKV

open Lib.TermLog Function List Node Raft
open Lib.Consensus

variable {n : Nat} {Cmd : Type}

def Raft.KeepsNotes (rf rf' : Raft n Cmd) : Prop :=
  rf'.state = .leader →
    rf.state = .leader ∧ rf'.currentTerm = rf.currentTerm ∧ rf'.matchIndex = rf.matchIndex ∨
      ∀ q, q ≠ rf'.me → rf'.matchIndex q = 0

namespace Raft

variable {rf rf' : Raft n Cmd}

theorem KeepsNotes.of_eq (hstate : rf'.state = rf.state) (hterm : rf'.currentTerm = rf.currentTerm)
    (hmatch : rf'.matchIndex = rf.matchIndex) : rf.KeepsNotes rf' :=
  fun hlead => Or.inl ⟨hstate ▸ hlead, hterm, hmatch⟩

theorem KeepsNotes.of_follower (h : rf'.state = .follower) : rf.KeepsNotes rf' := by
  intro hlead
  rw [h] at hlead
  cases hlead

theorem keepsNotes_becomeLeader (rf₀ rf : Raft n Cmd) : rf₀.KeepsNotes rf.becomeLeader :=
  fun _ => Or.inr fun _ hq => if_neg hq

theorem keepsNotes_handleVoteResponse (rf : Raft n Cmd) (reply : RequestVoteReply) :
    rf.KeepsNotes (rf.handleVoteResponse reply).1 := by
  rcases rf.handleVoteResponse_cases reply with ⟨-, hf | heq⟩ | ⟨_, _, _, heq⟩
  · exact .of_follower hf
  · rw [heq]
    exact .of_eq rfl rfl rfl
  · rw [heq]
    dsimp only
    split
    · exact keepsNotes_becomeLeader _ _
    · exact .of_eq rfl rfl rfl

theorem keepsNotes_catchUp (term : Nat) : rf.KeepsNotes (rf.catchUp term) := by
  unfold catchUp
  split
  · exact .of_follower rfl
  · exact .of_eq rfl rfl rfl

theorem le_commitIndex_installSnapshot {args : InstallSnapshotArgs n}
    (hincluded : rf.lastIncludedIndex ≤ rf.commitIndex)
    (h : (rf.installSnapshot args).2.1.term ≤ args.term) :
    args.lastIncludedIndex ≤ (rf.installSnapshot args).1.commitIndex := by
  have hcatch : (rf.catchUp args.term).commitIndex = rf.commitIndex ∧
      (rf.catchUp args.term).lastIncludedIndex = rf.lastIncludedIndex := by
    unfold catchUp
    split <;> exact ⟨rfl, rfl⟩
  unfold installSnapshot at h ⊢
  split at h
  · exact absurd h (Nat.not_le.mpr ‹_›)
  · rw [if_neg ‹_›]
    dsimp only
    split
    · dsimp only
      omega
    · exact le_max_right _ _

end Raft

namespace Node

variable {nd nd' : Node n Cmd}

theorem keepsNotes_act {sec : Section Cmd} {body : Option (CallBody n Cmd)}
    (h : nd.act sec = some (nd', body)) : nd.rf.KeepsNotes nd'.rf := by
  cases acts h with
  | startElection =>
    change nd.rf.KeepsNotes nd.rf.startElection.1
    unfold startElection
    dsimp only
    split
    · exact keepsNotes_becomeLeader _ _
    · intro hlead
      cases hlead
  | start command rf hrf =>
    unfold start at hrf
    split at hrf <;> cases hrf
    exact .of_eq rfl rfl rfl
  | snapshot index data rf taken hrf =>
    unfold snapshot at hrf
    grind [Raft.KeepsNotes]
  | applierCollect =>
    obtain ⟨k, hk⟩ := collect_eq nd.rf.commitIndex nd.rf
    change nd.rf.KeepsNotes nd.rf.applier.1
    rw [applier, hk]
    exact .of_eq rfl rfl rfl
  | _ => exact .of_eq rfl rfl rfl

theorem keepsNotes_serve {body body' : CallBody n Cmd} (h : nd.serve body = some (nd', body')) :
    nd.rf.KeepsNotes nd'.rf := by
  have hinstall : ∀ args, nd.rf.KeepsNotes (nd.rf.installSnapshot args).1 := by
    intro args
    rcases nd.rf.installSnapshot_cases args with ⟨_, _, term, heq⟩ | ⟨_, _, heq⟩
    · rw [heq]
      exact keepsNotes_catchUp term
    · rw [heq]
      exact keepsNotes_catchUp args.term
  cases serves h with
  | voteRequested args =>
    rw [finishVote_rf]
    rcases nd.rf.requestVote_cases args with ⟨_, heq⟩ | ⟨_, heq⟩ | ⟨_, _, _, heq⟩
    · rw [heq]
      exact .of_eq rfl rfl rfl
    · rw [heq]
      exact keepsNotes_catchUp args.term
    · rw [heq]
      exact keepsNotes_catchUp args.term
  | appendRequested args =>
    rw [finishAppend_rf]
    rcases nd.rf.appendEntries_cases args with
      ⟨_, heq⟩ | ⟨_, _, _, heq⟩ | ⟨_, _, log, _, _, heq⟩
    · rw [heq]
      exact .of_eq rfl rfl rfl
    · rw [heq]
      exact .of_follower rfl
    · rw [heq]
      refine .of_follower ?_
      unfold learnCommit
      split <;> rfl
  | appendServing args reply wait => cases wait <;> exact .of_eq rfl rfl rfl
  | installRefused args => exact hinstall args
  | installRequested args mid hmid =>
    subst hmid
    exact hinstall args
  | _ => exact .of_eq rfl rfl rfl

end Node

/-- The term and the index up to which the called node has confirmed the log of the caller. -/
def CallBody.confirmed? : CallBody n Cmd → Option (Nat × Nat)
  | .appendServing args reply _ | .appendReturning args reply | .appendReplied args reply =>
    if reply.success then some (args.term, args.prevLogIndex + args.entries.length) else none
  | .installSending args reply _ | .installReplied args reply =>
    if reply.term ≤ args.term then some (args.term, args.lastIncludedIndex) else none
  | _ => none

namespace Cluster

def Before (u s : Cluster n Cmd) : Prop :=
  (system n Cmd).Reachable (fun s a => s.leaderBuilds a = true) u ∧
    (system n Cmd).Run (fun s a => s.leaderBuilds a = true) u s

def Had (s : Cluster n Cmd) (g : Ghost n Cmd) (q : Fin n) (T k : Nat) : Prop :=
  k ≤ (g.termLog T).length ∧ ∃ u L, Before u s ∧ (u.node q).rf.Views L ∧
    L.take k = (g.termLog T).take k

variable {s s' : Cluster n Cmd} {g g' : Ghost n Cmd} {q : Fin n} {T k : Nat}

theorem Had.step (h : s.Had g q T k) {a : Action n Cmd} (hok : s.leaderBuilds a = true)
    (hstep : s.step a = some s') (hgrow : Grows g g') : s'.Had g' q T k := by
  obtain ⟨hk, u, L, ⟨hu, hrun⟩, hL, htake⟩ := h
  obtain ⟨rest, hrest⟩ := hgrow.termLog T
  refine ⟨?_, u, L, ⟨hu, hrun.step hok hstep⟩, hL, ?_⟩
  · rw [← hrest, length_append]
    omega
  · rw [htake, ← hrest, take_append_of_le_length hk]

theorem Simulates.had (h : s.Simulates g) (hs : Before s s) (hk : k ≤ g.ack q (g.term q)) :
    s.Had g q (g.term q) k := by
  refine ⟨hk.trans (h.inv.ack_le q _), s, g.log q, hs, (h.nodes q).rf.views, ?_⟩
  have := congrArg (List.take k) (h.inv.ack_log q)
  rwa [take_take, take_take, Nat.min_eq_left hk] at this

theorem Simulates.had_of_committed (h : s.Simulates g) (hs : Before s s)
    (hk : k ≤ (s.node q).rf.commitIndex) {S : List (LogEntry Cmd)} (hS : S <+: g.termLog T)
    (hcom : CommittedPrefix LogEntry.term g T S k) : s.Had g q T k := by
  obtain ⟨rest, hrest⟩ := hS
  have hlen := hcom.le_length
  have hown := (h.inv.learned q).le ((h.nodes q).rf.commit ▸ hk)
  refine ⟨?_, s, g.log q, hs, (h.nodes q).rf.views, ?_⟩
  · rw [← hrest, length_append]
    omega
  · rw [committed_agree h.inv hown hcom, ← hrest, take_append_of_le_length hlen]

def Noted (s : Cluster n Cmd) (g : Ghost n Cmd) (p : Fin n) (rf : Raft n Cmd) : Prop :=
  rf.state = .leader → ∀ q, q ≠ p → s.Had g q rf.currentTerm (rf.matchIndex q)

structure Accounts (s : Cluster n Cmd) (g : Ghost n Cmd) : Prop where
  sim : s.Simulates g
  calls : ∀ c ∈ s.calls, ∀ T k, c.body.confirmed? = some (T, k) → s.Had g c.dst T k
  nodes : ∀ p, s.Noted g p (s.node p).rf

theorem confirmed_of_act {nd nd' : Node n Cmd} {sec : Section Cmd} {body : CallBody n Cmd}
    (h : nd.act sec = some (nd', some body)) : body.confirmed? = none := by
  rcases act_some h with ⟨args, rfl⟩ | rfl <;> rfl

theorem confirmed_of_resume {nd nd' : Node n Cmd} {peer : Fin n} {body body' : CallBody n Cmd}
    (h : nd.resume peer body = some (nd', some body')) : body'.confirmed? = none := by
  rcases (resume_some h).2 with ⟨args, rfl⟩ | ⟨args, rfl⟩ <;> rfl

/-- A confirmation is passed on, or comes from a request that was carried out just now. -/
theorem confirmed_of_serve {nd nd' : Node n Cmd} {body body' : CallBody n Cmd}
    (h : nd.serve body = some (nd', body')) (hconf : body'.confirmed? = some (T, k))
    (hincluded : nd.rf.lastIncludedIndex ≤ nd.rf.commitIndex) :
    body.confirmed? = some (T, k) ∨
    (∃ args reply wait, body' = .appendServing args reply wait ∧ reply.success = true ∧
      T = args.term ∧ k = args.prevLogIndex + args.entries.length ∧ nd'.rf.currentTerm = T) ∨
    (∃ args, body = .installRequested args ∧ T = args.term ∧ k = args.lastIncludedIndex ∧
      k ≤ nd'.rf.commitIndex) := by
  cases serves h with
  | voteRequested args =>
    unfold finishVote at hconf
    split at hconf <;> cases hconf
  | appendRequested req =>
    obtain ⟨wait, hbody⟩ : ∃ wait, (nd.finishAppend (nd.rf.appendEntries req).1 req
        (nd.rf.appendEntries req).2.1 (nd.rf.appendEntries req).2.2).2 =
          .appendServing req (nd.rf.appendEntries req).2.1 wait := by
      cases (nd.rf.appendEntries req).2.2 <;> exact ⟨_, rfl⟩
    rw [hbody] at hconf ⊢
    rw [finishAppend_rf]
    obtain ⟨hsucc, hargs⟩ := Option.ite_none_right_eq_some.mp hconf
    cases hargs
    refine Or.inr (Or.inl ⟨req, _, wait, rfl, hsucc, rfl, rfl, ?_⟩)
    rcases nd.rf.appendEntries_cases req with
      ⟨_, heq⟩ | ⟨_, _, _, heq⟩ | ⟨hstale, _, log, changed, _, heq⟩
    · rw [heq] at hsucc
      cases hsucc
    · rw [heq] at hsucc
      cases hsucc
    · rw [heq]
      unfold learnCommit
      split <;> exact nd.rf.acceptTerm_currentTerm hstale
  | appendServing | appendReturning | installSending => exact Or.inl hconf
  | installRefused args =>
    obtain ⟨hterm, hargs⟩ := Option.ite_none_right_eq_some.mp hconf
    cases hargs
    exact .inr (.inr ⟨args, rfl, rfl, rfl, le_commitIndex_installSnapshot hincluded hterm⟩)
  | installRequested args mid hmid =>
    obtain ⟨hterm, hargs⟩ := Option.ite_none_right_eq_some.mp hconf
    cases hargs
    subst hmid
    exact .inr (.inr ⟨args, rfl, rfl, rfl, le_commitIndex_installSnapshot hincluded hterm⟩)
  | _ => cases hconf

/-- What the leaders of `s` have noted of their peers, these have had. -/
def Carried (s s' : Cluster n Cmd) (g : Ghost n Cmd) : Prop :=
  ∀ p, (s.node p).rf.state = .leader → ∀ q, q ≠ p →
    s'.Had g q (s.node p).rf.currentTerm ((s.node p).rf.matchIndex q)

section

variable {p : Fin n} {nd : Node n Cmd} (h : Carried s s' g)
  (hnode : s'.node = update s.node p nd)

include h hnode

theorem Carried.nodes (hnd : s'.Noted g p nd.rf) : ∀ p, s'.Noted g p (s'.node p).rf := by
  refine forall_node (P := fun r nd => s'.Noted g r nd.rf) hnode hnd ?_
  exact fun r _ => h r

theorem Carried.keeps (hsim : s'.Simulates g) (hs' : Before s' s')
    (hkeep : (s.node p).rf.KeepsNotes nd.rf) : s'.Noted g p nd.rf := by
  intro hlead q hq
  rcases hkeep hlead with ⟨hbefore, hterm, hmatch⟩ | hzero
  · rw [hterm, hmatch]
    exact h p hbefore q hq
  · have hme := (hsim.elections.recorded p).me
    rw [hnode, update_self] at hme
    rw [hzero q (hme ▸ hq)]
    exact ⟨Nat.zero_le _, s', g.log q, hs', (hsim.nodes q).rf.views, rfl⟩

omit hnode in
theorem Carried.appendReplied {args : AppendEntriesArgs n Cmd} {reply : AppendEntriesReply}
    (hrf : nd.rf = ((s.node p).rf.handleAppendReply q args reply).1)
    (hcall : reply.success = true →
      s'.Had g q args.term (args.prevLogIndex + args.entries.length)) : s'.Noted g p nd.rf := by
  have hsrc := h p
  rw [hrf]
  rcases (s.node p).rf.handleAppendReply_cases q args reply with
    heq | ⟨_, _, heq⟩ | ⟨hlead, hterm, heq, -⟩
  · rw [heq]
    exact hsrc
  · rw [heq]
    exact nofun
  · obtain ⟨k, hk⟩ := ((s.node p).rf.noteReply q args reply).advanceCommit_eq
      (s.node p).rf.getLastLogIndex
    rw [heq, hk]
    intro _ r hr
    have hother := hsrc hlead r hr
    unfold noteReply
    split
    · rename_i hsucc
      dsimp only
      by_cases hrq : r = q
      · rw [hrq, update_self, ← hterm]
        exact hcall hsucc
      · rw [update_of_ne hrq]
        exact hother
    · exact hother

omit hnode in
theorem Carried.installReplied {args : InstallSnapshotArgs n} {reply : InstallSnapshotReply}
    (hrf : nd.rf = ((s.node p).rf.handleInstallReply q reply).1)
    (hsent : (s.node p).rf.state = .leader → ¬ (s.node p).rf.currentTerm < reply.term →
      (s.node p).rf.currentTerm = args.term ∧
        (s.node p).rf.lastIncludedIndex = args.lastIncludedIndex)
    (hcall : reply.term ≤ args.term → s'.Had g q args.term args.lastIncludedIndex) :
    s'.Noted g p nd.rf := by
  have hsrc := h p
  rw [hrf]
  unfold handleInstallReply
  split
  · exact nofun
  · rename_i hterm
    intro hlead r hr
    dsimp only at hlead ⊢
    by_cases hrq : r = q
    · obtain ⟨hsame, hindex⟩ := hsent hlead hterm
      rw [hrq, update_self, hsame, hindex]
      exact hcall (by omega)
    · rw [update_of_ne hrq]
      exact hsrc hlead r hr

end

/-- A leader handles the reply to an `InstallSnapshot` request in the term in which it has sent
it and with the snapshot that it has sent. -/
def notesAsSent (s : Cluster n Cmd) : Action n Cmd → Bool
  | .resume i => (s.calls[i]?).all fun c =>
    let rf := (s.node c.src).rf
    match c.body with
    | .installReplied args reply =>
      rf.state != .leader || rf.currentTerm < reply.term ||
        (rf.currentTerm = args.term && rf.lastIncludedIndex = args.lastIncludedIndex)
    | _ => true
  | _ => true

theorem Accounts.step (h : s.Accounts g) (hs' : Before s' s') {a : Action n Cmd}
    (hok : s.leaderBuilds a = true) (hsent : s.notesAsSent a = true)
    (hstep : s.step a = some s') : ∃ g', s'.Accounts g' := by
  obtain ⟨_, g', hturn, hsim⟩ := h.sim.step hok hstep
  have hgrow := hturn.grows h.sim.inv
  have hold := fun c hc T k hconf => (h.calls c hc T k hconf).step hok hstep hgrow
  have hcar : Carried s s' g' := fun p hlead q hq =>
    (h.nodes p hlead q hq).step hok hstep hgrow
  cases a with
  | run p sec =>
    obtain ⟨nd, body, hact, hnode, hcs⟩ := step_run hstep
    refine ⟨g', hsim, ?_, hcar.nodes hnode (hcar.keeps hnode hsim hs' (keepsNotes_act hact))⟩
    intro c hc T k hconf
    rw [hcs, mem_append] at hc
    rcases hc with hc | hc
    · exact hold c hc T k hconf
    · rw [confirmed_of_act ((mem_spawn hc).2.2.2 ▸ hact)] at hconf
      cases hconf
  | serve i =>
    obtain ⟨c, nd, body, hc, hsv, hnode, hcs⟩ := step_serve hstep
    refine ⟨g', hsim, ?_, hcar.nodes hnode (hcar.keeps hnode hsim hs' (keepsNotes_serve hsv))⟩
    intro d hd T k hconf
    have hcall := hsim.calls d hd
    have hself : s'.node c.dst = nd := by rw [hnode, update_self]
    rw [hcs] at hd
    rcases mem_or_eq_of_mem_set hd with hd | rfl
    · exact hold d hd T k hconf
    · rcases confirmed_of_serve hsv hconf (h.sim.nodes c.dst).rf.included with
        hbefore | ⟨args, reply, wait, rfl, hsucc, rfl, rfl, hterm⟩ | ⟨args, hbody, rfl, rfl, hle⟩
      · exact hold c (mem_of_getElem? hc) T k hbefore
      · have hg := (hsim.nodes c.dst).rf.term
        rw [hself, hterm] at hg
        rw [← hg]
        refine hsim.had hs' ?_
        rw [hg]
        exact hcall hsucc
      · have hreq := h.sim.calls c (mem_of_getElem? hc)
        rw [Call.Sim, hbody] at hreq
        obtain ⟨S, hS⟩ := hreq
        have hspoken := hS.mono hgrow
        exact hsim.had_of_committed hs' (hself ▸ hle) hspoken.source hspoken.commit
  | resume i =>
    obtain ⟨c, nd, body, hc, -, hres, hnode, hcs⟩ := step_resume hstep
    refine ⟨g', hsim, ?_, hcar.nodes hnode ?_⟩
    · intro d hd T k hconf
      rw [hcs] at hd
      rcases mem_setCall hd with hd | ⟨b, rfl, rfl⟩
      · exact hold d hd T k hconf
      · rw [confirmed_of_resume hres] at hconf
        cases hconf
    have hcall := hold c (mem_of_getElem? hc)
    rw [notesAsSent, hc] at hsent
    generalize hbody : c.body = cbody at hcall hres hsent
    cases resumes hres with
    | voteReplied args reply =>
      exact hcar.keeps hnode hsim hs' (keepsNotes_handleVoteResponse _ reply)
    | spawned rf request hrf =>
      obtain ⟨⟨next, rfl⟩, _⟩ := buildRequest_cases hrf
      exact hcar.keeps hnode hsim hs' (.of_eq rfl rfl rfl)
    | appendReplied args reply =>
      exact hcar.appendReplied rfl fun hsucc => hcall _ _ (if_pos hsucc)
    | installReplied args reply =>
      refine hcar.installReplied rfl (fun hlead hterm => ?_) fun hle => hcall _ _ (if_pos hle)
      simpa [hbody, hlead, hterm] using hsent
  | crash p id => cases hok

def laterSnapshot (a c : Fin 3) : List (Action 3 Nat) :=
  electFirst ++ [.run a (.start (some 7)), .run a (.start (some 8)), .run a (.saveDone 0),
    .run a (.saveDone 1), .run a (.completePersist 0), .run a (.completePersist 0),
    .run a .sendHeartbeats, .resume 2, .serve 2, .run c (.saveDone 0), .serve 2, .serve 2,
    .resume 2, .run a (.snapshot 1 [0]), .resume 1, .run a (.snapshot 2 [0]), .serve 1, .serve 1,
    .resume 1]

/-- What a node has committed stays: later in the run, nodes that have committed as much and
leaders of its term or a later one have the same entries. -/
theorem committed_entries_permanent (hs : Before s s') {p q : Fin n} {i : Nat}
    (hi : i ≤ (s.node q).rf.commitIndex)
    (hp : i ≤ (s'.node p).rf.commitIndex ∨ (s'.node p).rf.state = .leader ∧
      (s.node q).rf.currentTerm ≤ (s'.node p).rf.currentTerm) :
    i ≤ (s'.node p).rf.getLastLogIndex ∧ ((s'.node p).rf.lastIncludedIndex < i →
      (s.node q).rf.lastIncludedIndex < i →
      (s'.node p).rf.entryAt i = (s.node q).rf.entryAt i) := by
  obtain ⟨g, h⟩ := simulates_of_reachable hs.1
  obtain ⟨g', h', hgrow⟩ : ∃ g', s'.Simulates g' ∧ Grows g g' := by
    refine hs.2.preserves (I := fun t => ∃ g', t.Simulates g' ∧ Grows g g') ?_ ⟨g, h, .refl g⟩
    rintro t a u ⟨g₁, h₁, hg₁⟩ hok hstep
    obtain ⟨_, g₂, hturn, h₂⟩ := h₁.step hok hstep
    exact ⟨g₂, h₂, hg₁.trans (hturn.grows h₁.inv)⟩
  have hold := hgrow.committedPrefix (Nat.le_refl _)
    ((h.inv.learned q).le ((h.nodes q).rf.commit ▸ hi))
  have hrf := (h'.nodes p).rf
  have hnew : CommittedPrefix LogEntry.term g' (g'.term p) (g'.log p) i := by
    rcases hp with hle | ⟨hlead, hterm⟩
    · exact (h'.inv.learned p).le (hrf.commit ▸ hle)
    · exact h'.inv.leader_complete (hrf.term ▸ hrf.leader hlead) hold
        (by rwa [hrf.term, (h.nodes q).rf.term])
  rw [hrf.views.getLastLogIndex]
  refine ⟨hnew.le_length, fun hin hin' => ?_⟩
  rw [hrf.views.entryAt hin, (h.nodes q).rf.views.entryAt hin']
  exact getElem?_eq_of_take_eq (committed_agree h'.inv hnew hold) (by omega)

-- the second moment is after one more command
theorem committed_entries_permanent_sample : ∃ s s' : Cluster 3 Nat,
    2 ≤ (s.node 2).rf.commitIndex ∧ (s'.node 0).rf.getLastLogIndex = 3 ∧
      (s'.node 0).rf.entryAt 2 = (s.node 2).rf.entryAt 2 := by
  obtain ⟨s, hs, hcom, hkept, hlater⟩ := Lib.System.exists_of_execOk (system 3 Nat)
    (fun s a => s.leaderBuilds a = true) boot
    ((laterSnapshot 0 2).take 19 ++ [.run 0 .sendHeartbeats, .resume 3, .serve 3])
    (fun s => 2 ≤ (s.node 2).rf.commitIndex ∧ (s.node 2).rf.lastIncludedIndex < 2 ∧
      ((system 3 Nat).execOk (fun s a => s.leaderBuilds a = true) s
        [.run 0 (.start (some 9))]).any fun s' => (s'.node 0).rf.getLastLogIndex = 3 ∧
          (s'.node 0).rf.lastIncludedIndex < 2 ∧ (s'.node 0).rf.state = .leader ∧
          (s.node 2).rf.currentTerm ≤ (s'.node 0).rf.currentTerm) (by decide +kernel)
  obtain ⟨s', hs', hlast, hin, hlead⟩ := Lib.System.exists_of_execOk _ _ s _ _ hlater
  have hbefore : Before s s' := ⟨⟨_, rfl, hs⟩, hs'⟩
  exact ⟨s, s', hcom, hlast, (committed_entries_permanent hbefore hcom (Or.inr hlead)).2 hin hkept⟩

end Cluster

end OrbisKV
