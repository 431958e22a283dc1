import OrbisKV.Raft.Simulation
/-!
# State machine safety

In a run without crashes in which requests are built by leaders, the cluster follows
the abstract protocol, so what is delivered at one index is committed there and the
same everywhere.
-/

namespace OrbisKV

open Lib.TermLog LogEntry List
open Lib.Consensus

variable {n : Nat} {Cmd : Type}

structure Node.Sim (g : Ghost n Cmd) (p : Fin n) (nd : Node n Cmd) : Prop where
  rf : nd.rf.Sim g p
  cast : ∀ t c, ⟨t, some c⟩ ∈ nd.persister.hardStates → g.vote p t = some c
  msgs : ∀ msg, msg ∈ nd.unsent ∨ msg ∈ nd.applied → msg.Committed g

def Call.Sim (g : Ghost n Cmd) (c : Call n Cmd) : Prop :=
  match c.body with
  | .voteRequested args => ∃ S, g.stood args.candidateId args.term = some S ∧ args.Describes S
  | .appendRequested args => ∃ S, args.Spoken g c.src S
  | .installRequested args => ∃ S : List (LogEntry Cmd), args.Spoken g c.src S
  | .appendServing args reply _ | .appendReturning args reply | .appendReplied args reply =>
    reply.success = true → args.prevLogIndex + args.entries.length ≤ g.ack c.dst args.term
  | .installSending _ _ msg => msg.Committed g
  | _ => True

theorem Call.Sim.mono {g g' : Ghost n Cmd} (hgrow : Grows g g') {c : Call n Cmd}
    (h : c.Sim g) : c.Sim g' := by
  obtain ⟨src, dst, alive, body⟩ := c
  cases body with
  | voteRequested args =>
    obtain ⟨S, hsto, hdesc⟩ := h
    exact ⟨S, hgrow.stood _ _ _ hsto, hdesc⟩
  | appendRequested args | installRequested args =>
    obtain ⟨S, hS⟩ := h
    exact ⟨S, hS.mono hgrow⟩
  | installSending args reply msg => exact ApplyMsg.Committed.mono hgrow h
  | voteServing | voteReplied | spawned | installReplied => trivial
  | _ => exact fun hs => (h hs).trans (hgrow.ack_le _ _)

namespace Node

variable {g g' : Ghost n Cmd} {p : Fin n} {nd nd' : Node n Cmd}

theorem Sim.other (h : nd.Sim g p) {q : Fin n} (hq : p ≠ q) (hown : Own q g g')
    (hgrow : Grows g g') : nd.Sim g' p where
  rf := h.rf.other hq hown hgrow
  cast t c hmem := hgrow.vote _ _ _ (h.cast t c hmem)
  msgs msg hmsg := (h.msgs msg hmsg).mono hgrow

theorem Sim.forward (h : nd.Sim g p) (hg : Inv term g)
    (hturn : Turn term p g g') (hfor : Forward nd nd') (hrf : nd'.rf.Sim g' p)
    (hmsgs : ∀ msg, msg ∈ nd'.unsent ∨ msg ∈ nd'.applied →
      (msg ∈ nd.unsent ∨ msg ∈ nd.applied) ∨ msg.Committed g') : nd'.Sim g' p := by
  have hgrow := hturn.grows hg
  refine ⟨hrf, ?_, ?_⟩
  · intro t c hmem
    have hold : ⟨t, some c⟩ ∈ nd.persister.hardStates → g'.vote p t = some c :=
      fun hin => hgrow.vote _ _ _ (h.cast t c hin)
    rcases hfor.requests with heq | heq
    · rw [heq] at hmem
      exact hold hmem
    · rw [heq, mem_append, mem_singleton] at hmem
      rcases hmem with hmem | hnew
      · exact hold hmem
      · have hvoted := hrf.voted
        rw [show nd'.rf.votedFor = some c from congrArg HardState.votedFor hnew.symm,
          show nd'.rf.currentTerm = t from congrArg HardState.currentTerm hnew.symm] at hvoted
        exact hvoted.symm
  · intro msg hmsg
    rcases hmsgs msg hmsg with hin | hcom
    · exact (h.msgs msg hin).mono hgrow
    · exact hcom

theorem Sim.act (h : nd.Sim g p) (hrec : nd.Recorded p) (hg : Inv term g)
    {sec : Section Cmd} {body : Option (CallBody n Cmd)} (hact : nd.act sec = some (nd', body)) :
    ∃ g', Turn term p g g' ∧ nd'.Sim g' p ∧ ∀ c : Call n Cmd, body = some c.body → c.Sim g' := by
  have hfor := forward_act hrec.done_le hact
  have hnone : ∀ g' : Ghost n Cmd, body = none →
      ∀ c : Call n Cmd, body = some c.body → c.Sim g' := by
    rintro g' rfl c hc
    cases hc
  cases acts hact with
  | startElection =>
    obtain ⟨g', hturn, hsim, S, hsto, hdesc⟩ := h.rf.startElection hrec.me hg
    refine ⟨g', hturn, h.forward hg hturn hfor hsim fun _ hm => .inl hm, ?_⟩
    intro c hc
    rw [Option.some.injEq] at hc
    rw [Call.Sim, ← hc]
    refine ⟨S, ?_, hdesc⟩
    rw [nd.rf.startElection_args.2, hrec.me]
    exact hsto
  | start command rf hrf =>
    obtain ⟨g', hturn, hsim⟩ := h.rf.start hg hrf
    exact ⟨g', hturn, h.forward hg hturn hfor hsim fun _ hm => .inl hm, hnone g' rfl⟩
  | snapshot index data rf taken hrf =>
    exact ⟨g, Turn.refl p g, h.forward hg (Turn.refl p g) hfor (h.rf.snapshot hrf)
      fun _ hm => .inl hm, hnone g rfl⟩
  | completePersist k =>
    exact ⟨g, Turn.refl p g, h.forward hg (Turn.refl p g) hfor (h.rf.touch _ _ _ _)
      fun _ hm => .inl hm, hnone g rfl⟩
  | applierCollect =>
    obtain ⟨hsim, hcom⟩ := h.rf.applier hg
    refine ⟨g, Turn.refl p g, h.forward hg (Turn.refl p g) hfor hsim ?_, hnone g rfl⟩
    rintro msg (hm | hm)
    · exact .inr (hcom msg hm)
    · exact .inl (.inr hm)
  | applierSend msg rest huns =>
    refine ⟨g, Turn.refl p g, h.forward hg (Turn.refl p g) hfor h.rf ?_, hnone g rfl⟩
    intro m hm
    simp only [mem_append, mem_singleton] at hm
    rw [huns, mem_cons]
    tauto
  | tick | saveDone | hardStateDone =>
    exact ⟨g, Turn.refl p g, h.forward hg (Turn.refl p g) hfor h.rf fun _ hm => .inl hm,
      hnone g rfl⟩
  | sendHeartbeats =>
    refine ⟨g, Turn.refl p g, h, ?_⟩
    intro c hc
    rw [Option.some.injEq] at hc
    rw [Call.Sim, ← hc]
    trivial

theorem Sim.serve {c : Call n Cmd} (h : nd.Sim g c.dst) (hrec : nd.Recorded c.dst)
    (hg : Inv term g) (hcall : c.Sim g) (hapart : c.src ≠ c.dst)
    {body : CallBody n Cmd} (hsv : nd.serve c.body = some (nd', body)) :
    ∃ g', Turn term c.dst g g' ∧ nd'.Sim g' c.dst ∧ Call.Sim g' { c with body := body } := by
  have hfor := forward_serve hrec.done_le hsv
  obtain ⟨src, dst, alive, cbody⟩ := c
  dsimp only at *
  have hstay : nd'.rf = nd.rf → (∀ msg, msg ∈ nd'.unsent ∨ msg ∈ nd'.applied →
      (msg ∈ nd.unsent ∨ msg ∈ nd.applied) ∨ msg.Committed g) → nd'.Sim g dst :=
    fun hrf hmsgs => h.forward hg (Turn.refl dst g) hfor (hrf ▸ h.rf) hmsgs
  cases serves hsv with
  | voteRequested args =>
    obtain ⟨S, hsto, hdesc⟩ := hcall
    obtain ⟨g', hturn, hsim⟩ := h.rf.requestVote hg hsto hdesc
    refine ⟨g', hturn, h.forward hg hturn hfor ?_ ?_, ?_⟩
    · rw [finishVote_rf]
      exact hsim
    · unfold finishVote
      split <;> exact fun _ hm => .inl hm
    · unfold finishVote
      split <;> trivial
  | voteServing args reply wait => exact ⟨g, Turn.refl dst g, h, trivial⟩
  | appendRequested args =>
    obtain ⟨S, hS⟩ := hcall
    obtain ⟨g', hturn, hsim, hack⟩ := h.rf.appendEntries hg hS hapart
    refine ⟨g', hturn, h.forward hg hturn hfor ?_ ?_, ?_⟩
    · rw [finishAppend_rf]
      exact hsim
    · cases (nd.rf.appendEntries args).2.2 <;> exact fun _ hm => .inl hm
    · cases (nd.rf.appendEntries args).2.2 <;> exact hack
  | appendServing args reply wait =>
    refine ⟨g, Turn.refl dst g, h.forward hg (Turn.refl dst g) hfor ?_ ?_, hcall⟩
    · cases wait with
      | raftState id logCount => exact h.rf.touch _ _ _ _
      | _ => exact h.rf
    · cases wait <;> exact fun _ hm => .inl hm
  | appendReturning args reply => exact ⟨g, Turn.refl dst g, h, hcall⟩
  | installRefused args =>
    obtain ⟨S, hS⟩ := hcall
    obtain ⟨g', hturn, hsim⟩ := h.rf.installSnapshot hg hS hapart
    exact ⟨g', hturn, h.forward hg hturn hfor hsim fun _ hm => .inl hm, trivial⟩
  | installRequested args mid hmid =>
    subst hmid
    obtain ⟨S, hS⟩ := hcall
    obtain ⟨g', hturn, hsim⟩ := h.rf.installSnapshot hg hS hapart
    exact ⟨g', hturn, h.forward hg hturn hfor hsim fun _ hm => .inl hm, trivial⟩
  | installSending args reply msg =>
    refine ⟨g, Turn.refl dst g, hstay rfl ?_, trivial⟩
    intro m hm
    simp only [mem_append, mem_singleton] at hm
    rcases hm with hm | hm | rfl
    · exact .inl (.inl hm)
    · exact .inl (.inr hm)
    · exact .inr hcall

end Node

namespace Cluster

variable {s s' : Cluster n Cmd} {g g' : Ghost n Cmd}

structure Simulates (s : Cluster n Cmd) (g : Ghost n Cmd) : Prop where
  elections : s.Elections
  inv : Inv term g
  nodes : ∀ p, (s.node p).Sim g p
  calls : ∀ c ∈ s.calls, c.Sim g

theorem Simulates.turn (h : s.Simulates g) (hE : s'.Elections) {q : Fin n} {nd : Node n Cmd}
    (hturn : Turn term q g g') (hnode : s'.node = Function.update s.node q nd)
    (hnd : nd.Sim g' q) (hcs : ∀ c ∈ s'.calls, c ∈ s.calls ∨ c.Sim g') : s'.Simulates g' := by
  have hgrow := hturn.grows h.inv
  refine ⟨hE, hturn.inv h.inv, ?_, ?_⟩
  · exact forall_node (P := fun p nd => nd.Sim g' p) hnode hnd
      fun p hp => (h.nodes p).other hp hturn.own hgrow
  · intro c hc
    rcases hcs c hc with hold | hnew
    · exact (h.calls c hold).mono hgrow
    · exact hnew

theorem Simulates.run (h : s.Simulates g) {p : Fin n} {sec : Section Cmd}
    (hstep : s.step (.run p sec) = some s') : ∃ q g', Turn term q g g' ∧ s'.Simulates g' := by
  have hE := h.elections.step hstep
  obtain ⟨nd, body, hact, hnode, hcs⟩ := step_run hstep
  obtain ⟨g', hturn, hnd, hbody⟩ := (h.nodes p).act (h.elections.recorded p) h.inv hact
  refine ⟨p, g', hturn, h.turn hE hturn hnode hnd ?_⟩
  intro c hc
  rw [hcs, mem_append] at hc
  rcases hc with hc | hc
  · exact .inl hc
  · exact .inr (hbody c (mem_spawn hc).2.2.2)

theorem Simulates.serve (h : s.Simulates g) {i : Nat} (hstep : s.step (.serve i) = some s') :
    ∃ q g', Turn term q g g' ∧ s'.Simulates g' := by
  have hE := h.elections.step hstep
  obtain ⟨c, nd, body, hc, hsv, hnode, hcs⟩ := step_serve hstep
  have hmem := mem_of_getElem? hc
  obtain ⟨g', hturn, hnd, hbody⟩ := (h.nodes c.dst).serve (h.elections.recorded c.dst) h.inv
    (h.calls c hmem) (h.elections.apart c hmem).symm hsv
  refine ⟨c.dst, g', hturn, h.turn hE hturn hnode hnd ?_⟩
  intro d hd
  rw [hcs] at hd
  rcases mem_or_eq_of_mem_set hd with hd | rfl
  · exact .inl hd
  · exact .inr hbody

def crashFree : Action n Cmd → Bool
  | .crash _ _ => false
  | _ => true

/-- No node crashes, and a goroutine of `sendHeartbeats` builds its request only while
its node is the leader. -/
def leaderBuilds (s : Cluster n Cmd) : Action n Cmd → Bool
  | .resume i => (s.calls[i]?).all fun c =>
    !c.body.isSpawned || (s.node c.src).rf.state == .leader
  | .crash _ _ => false
  | _ => true

theorem Simulates.resume (h : s.Simulates g) {i : Nat} (hok : s.leaderBuilds (.resume i) = true)
    (hstep : s.step (.resume i) = some s') : ∃ q g', Turn term q g g' ∧ s'.Simulates g' := by
  have hE := h.elections.step hstep
  obtain ⟨c, nd, body, hc, halive, hresu, hnode, hcs⟩ := step_resume hstep
  have hmem := mem_of_getElem? hc
  have hsim := h.nodes c.src
  have hrec := h.elections.recorded c.src
  have hcall := h.calls c hmem
  have hfor := Node.forward_resume hrec.done_le hresu
  -- handlers of replies end the call
  have hover : ∀ {g' : Ghost n Cmd}, Turn term c.src g g' → nd.rf.Sim g' c.src →
      (nd.unsent = (s.node c.src).unsent ∧ nd.applied = (s.node c.src).applied) →
      (∀ b, body = some b → Call.Sim g' { c with body := b }) →
      ∃ q g', Turn term q g g' ∧ s'.Simulates g' := by
    intro g' hturn hrf hmsgs hbody
    have hnd := hsim.forward h.inv hturn hfor hrf
      (by rw [hmsgs.1, hmsgs.2]; exact fun _ hm => .inl hm)
    refine ⟨c.src, g', hturn, h.turn hE hturn hnode hnd ?_⟩
    intro d hd
    rw [hcs] at hd
    rcases mem_setCall hd with hd | ⟨b, hb, rfl⟩
    · exact .inl hd
    · exact .inr (hbody b hb)
  have hres := Node.resumes hresu
  generalize hbody : c.body = cbody at hres
  cases hres with
  | voteReplied args reply =>
    obtain ⟨g', hturn, hrf⟩ := hsim.rf.handleVoteResponse hrec.me h.inv reply (by
      intro hgr hterm hcand
      obtain ⟨Q, _, hcard, hQ, _⟩ := h.elections.countVote hc halive hbody hgr hterm hcand
      exact ⟨Q, hcard, fun v hv => (h.nodes v).cast _ _ (mem_of_mem_take (hQ v hv))⟩)
    exact hover hturn hrf ⟨rfl, rfl⟩ nofun
  | spawned rf request hbd =>
    have hlead : (s.node c.src).rf.state = .leader := by
      simpa [leaderBuilds, hc, hbody, CallBody.isSpawned] using hok
    obtain ⟨hrf, hreq⟩ := hsim.rf.buildRequest h.inv hlead hbd
    refine hover (Turn.refl c.src g) hrf ⟨rfl, rfl⟩ ?_
    intro b hb
    rcases request with _ | ⟨args | args⟩
    · cases hb
    · cases hb
      exact hreq
    · cases hb
      exact hreq
  | appendReplied args reply =>
    rw [Call.Sim, hbody] at hcall
    obtain ⟨g', hturn, hrf⟩ := hsim.rf.handleAppendReply hrec.me h.inv hcall
    exact hover hturn hrf ⟨rfl, rfl⟩ nofun
  | installReplied args reply =>
    obtain ⟨g', hturn, hrf⟩ := hsim.rf.handleInstallReply h.inv
    exact hover hturn hrf ⟨rfl, rfl⟩ nofun

theorem Simulates.step (h : s.Simulates g) {a : Action n Cmd} (hok : s.leaderBuilds a = true)
    (hstep : s.step a = some s') : ∃ q g', Turn term q g g' ∧ s'.Simulates g' := by
  cases a with
  | run p sec => exact h.run hstep
  | serve i => exact h.serve hstep
  | resume i => exact h.resume hok hstep
  | crash p id => cases hok

theorem simulates_boot : (boot : Cluster n Cmd).Simulates (State.start _ _) where
  elections := elections_boot
  inv := Inv.start
  nodes p := by
    refine ⟨?_, ?_, ?_⟩
    · exact ⟨rfl, ⟨rfl, le_rfl, rfl⟩, rfl, le_rfl, rfl, nofun, nofun, nofun⟩
    · intro t c hmem
      cases hmem
    · rintro msg (hm | hm) <;> cases hm
  calls _ hc := by cases hc

theorem simulates_of_reachable
    (h : (system n Cmd).Reachable (fun s a => s.leaderBuilds a = true) s) :
    ∃ g, s.Simulates g := by
  refine h.invariant (I := fun t => ∃ g, t.Simulates g) ?_ ?_
  · rintro _ rfl
    exact ⟨_, simulates_boot⟩
  · rintro t a u ⟨g, hg⟩ hok hstep
    obtain ⟨_, g', _, hg'⟩ := hg.step hok hstep
    exact ⟨g', hg'⟩

theorem Simulates.applied_agree (h : s.Simulates g) {p q : Fin n} {i : Nat}
    {command command' : Option Cmd} (hp : .command command i ∈ (s.node p).applied)
    (hq : .command command' i ∈ (s.node q).applied) : command = command' := by
  obtain ⟨hpos, t, L, hL, hcomm⟩ := (h.nodes p).msgs _ (.inr hp)
  obtain ⟨_, t', M, hM, hcomm'⟩ := (h.nodes q).msgs _ (.inr hq)
  have hget : L[i - 1]? = M[i - 1]? :=
    getElem?_eq_of_take_eq (committed_agree h.inv hL hM) (by omega)
  rw [hget, hcomm', Option.some.injEq] at hcomm
  exact hcomm.symm

/-- In every crash-free run in which only leaders build requests, no two nodes deliver
different commands for one index. -/
theorem state_machine_safety
    (hs : (system n Cmd).Reachable (fun s a => s.leaderBuilds a = true) s) {p q : Fin n}
    {i : Nat} {command command' : Option Cmd}
    (hp : .command command i ∈ (s.node p).applied)
    (hq : .command command' i ∈ (s.node q).applied) : command = command' := by
  obtain ⟨g, h⟩ := simulates_of_reachable hs
  exact h.applied_agree hp hq

theorem state_machine_safety_first_entry :
    ∃ (s : Cluster 3 Nat) (command : Option Nat),
      .command (some 7) 1 ∈ (s.node 0).applied ∧ .command command 1 ∈ (s.node 2).applied ∧
      some 7 = command := by
  obtain ⟨s, hs, h0, h2⟩ := Lib.System.exists_of_execOk (system 3 Nat)
    (fun s a => s.leaderBuilds a = true) boot
    (electFirst ++ [.run 0 (.start (some 7)), .run 0 (.saveDone 0), .run 0 (.completePersist 0),
      .run 0 .sendHeartbeats, .resume 2, .serve 2, .run 2 (.saveDone 0), .serve 2, .serve 2,
      .resume 2, .run 0 .applierCollect, .run 0 .applierSend, .run 0 .sendHeartbeats, .resume 3,
      .serve 3, .run 2 .applierCollect, .run 2 .applierSend])
    (fun s => .command (some 7) 1 ∈ (s.node 0).applied ∧
      .command (some 7) 1 ∈ (s.node 2).applied) (by decide +kernel)
  exact ⟨s, _, h0, h2, state_machine_safety ⟨_, rfl, hs⟩ h0 h2⟩

theorem state_machine_safety_violated :
    ∃ s : Cluster 3 Nat, (system 3 Nat).Reachable (fun _ a => crashFree a = true) s ∧
      .command (some 7) 1 ∈ (s.node 0).applied ∧ .command (some 8) 1 ∈ (s.node 1).applied :=
  Lib.System.exists_reachable_of_execOk boot
    (electFirst ++ [.run 0 (.start (some 7)), .run 0 .sendHeartbeats, .run 1 .tick,
      .run 1 .startElection, .serve 4, .run 2 .hardStateDone, .serve 4, .resume 4,
      .run 1 (.start (some 8)), .run 1 (.saveDone 0), .run 1 (.completePersist 0),
      .run 1 .sendHeartbeats, .resume 5, .serve 5, .run 2 (.saveDone 0), .serve 5, .serve 5,
      .resume 5, .run 1 .applierCollect, .run 1 .applierSend, .serve 3, .resume 2, .serve 2,
      .run 2 (.saveDone 1), .serve 2, .serve 2, .run 0 .tick, .run 0 .startElection, .serve 6,
      .run 2 .hardStateDone, .serve 6, .resume 6, .run 0 (.start (some 9)), .run 0 (.saveDone 1),
      .run 0 (.completePersist 1), .run 0 .sendHeartbeats, .resume 7, .serve 7,
      .run 2 (.saveDone 2), .serve 7, .serve 7, .resume 7, .run 0 .applierCollect,
      .run 0 .applierSend]) rfl (by decide +kernel)

end Cluster

end OrbisKV
