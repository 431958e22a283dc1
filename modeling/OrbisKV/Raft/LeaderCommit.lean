import OrbisKV.Lib.Announcement
import OrbisKV.Raft.Disk
import OrbisKV.Raft.LogMatching
import OrbisKV.Raft.StateMachineSafety
/-!
# Leaders that are ahead of the group

A leader that has committed an entry of its own term, while no node has reached a later
one, has committed everything that any node has.
-/

namespace OrbisKV

open Lib.TermLog LogEntry Node
open Lib.Consensus

variable {n : Nat} {Cmd : Type}

namespace Raft

variable (rf : Raft n Cmd)

theorem handleAppendReply_commitIndex (server : Fin n) (args : AppendEntriesArgs n Cmd)
    (reply : AppendEntriesReply) :
    (rf.handleAppendReply server args reply).1.commitIndex = rf.commitIndex ∨
      (rf.handleAppendReply server args reply).1.state = .leader := by
  rcases rf.handleAppendReply_cases server args reply with
    h | ⟨_, _, h⟩ | ⟨hlead, _, h, _, _, _, heq⟩
  · rw [h]
    exact .inl rfl
  · rw [h]
    exact .inl rfl
  · rw [h, heq]
    exact .inr hlead

theorem appendEntries_commitIndex (args : AppendEntriesArgs n Cmd) :
    (rf.appendEntries args).1.commitIndex = rf.commitIndex ∨
      ((rf.appendEntries args).1.currentTerm = args.term ∧
        (rf.appendEntries args).1.commitIndex ≤ args.leaderCommit) := by
  have hacc : (rf.acceptTerm args).commitIndex = rf.commitIndex :=
    (rf.unmoved_catchUp args.term).commit
  rcases rf.appendEntries_cases args with
    ⟨_, heq⟩ | ⟨_, _, _, heq⟩ | ⟨hstale, _, log, _, _, heq⟩
  · rw [heq]
    exact .inl rfl
  · rw [heq]
    exact .inl hacc
  · rw [heq]
    unfold learnCommit
    split
    · exact .inr ⟨rf.acceptTerm_currentTerm hstale, Nat.min_le_left _ _⟩
    · exact .inl hacc

theorem installSnapshot_commitIndex (args : InstallSnapshotArgs n) :
    (rf.installSnapshot args).1.commitIndex = rf.commitIndex ∨
      ((rf.installSnapshot args).1.currentTerm = args.term ∧
        (rf.installSnapshot args).1.commitIndex = args.lastIncludedIndex) := by
  rcases rf.installSnapshot_cases args with ⟨_, _, term, heq⟩ | ⟨hacc, _, heq⟩
  · rw [heq]
    exact .inl (rf.unmoved_catchUp term).commit
  · rw [heq]
    have hterm : ((rf.catchUp args.term).install args).currentTerm = args.term := by
      refine rf.catchUp_currentTerm ?_
      simp only [accepts, Bool.and_eq_true, decide_eq_true_eq] at hacc
      omega
    have hcom : ((rf.catchUp args.term).install args).commitIndex =
        max rf.commitIndex args.lastIncludedIndex := by
      rw [← (rf.unmoved_catchUp args.term).commit]
      rfl
    rcases Nat.le_total args.lastIncludedIndex rf.commitIndex with hle | hle
    · exact .inl (hcom.trans (Nat.max_eq_left hle))
    · exact .inr ⟨hterm, hcom.trans (Nat.max_eq_right hle)⟩

end Raft

namespace Node

variable {nd nd' : Node n Cmd}

theorem commitIndex_act {sec : Section Cmd} {body : Option (CallBody n Cmd)}
    (h : nd.act sec = some (nd', body)) : nd'.rf.commitIndex = nd.rf.commitIndex := by
  cases acts h with
  | startElection => exact nd.rf.unmoved_startElection.commit
  | start command rf hrf =>
    unfold Raft.start at hrf
    split at hrf <;> cases hrf
    rfl
  | snapshot index data rf taken hrf =>
    rcases Raft.snapshot_cases hrf with ⟨rfl, _⟩ | ⟨_, _, _, _, _, _, _, _, hcom⟩
    · rfl
    · exact hcom
  | applierCollect =>
    obtain ⟨k, hk⟩ := Raft.collect_eq nd.rf.commitIndex nd.rf
    rw [Raft.applier, hk]
  | _ => rfl

theorem commitIndex_serve {body body' : CallBody n Cmd} (h : nd.serve body = some (nd', body')) :
    nd'.rf.commitIndex = nd.rf.commitIndex ∨
    (∃ args, body = .appendRequested args ∧ nd'.rf.currentTerm = args.term ∧
      nd'.rf.commitIndex ≤ args.leaderCommit) ∨
    ∃ args, body = .installRequested args ∧ nd'.rf.currentTerm = args.term ∧
      nd'.rf.commitIndex = args.lastIncludedIndex := by
  cases serves h with
  | voteRequested args =>
    rw [finishVote_rf]
    exact .inl (nd.rf.unmoved_requestVote args).commit
  | appendRequested args =>
    rw [finishAppend_rf]
    exact (nd.rf.appendEntries_commitIndex args).imp_right fun hnew => .inl ⟨args, rfl, hnew⟩
  | appendServing args reply wait => cases wait <;> exact .inl rfl
  | installRefused args =>
    exact (nd.rf.installSnapshot_commitIndex args).imp_right fun hnew => .inr ⟨args, rfl, hnew⟩
  | installRequested args mid hmid =>
    subst hmid
    exact (nd.rf.installSnapshot_commitIndex args).imp_right fun hnew => .inr ⟨args, rfl, hnew⟩
  | _ => exact .inl rfl

theorem commitIndex_resume {peer : Fin n} {body : CallBody n Cmd}
    {body' : Option (CallBody n Cmd)} (h : nd.resume peer body = some (nd', body')) :
    nd'.rf.commitIndex = nd.rf.commitIndex ∨ nd'.rf.state = .leader := by
  cases resumes h with
  | voteReplied args reply => exact .inl (nd.rf.unmoved_handleVoteResponse reply).commit
  | spawned rf request hrf =>
    obtain ⟨⟨next, rfl⟩, _⟩ := Raft.buildRequest_cases hrf
    exact .inl rfl
  | appendReplied args reply => exact nd.rf.handleAppendReply_commitIndex peer args reply
  | installReplied args reply =>
    exact .inl (nd.rf.unmoved_handleInstallReply peer reply).commit

end Node

def CallBody.Announces (g : Ghost n Cmd) : CallBody n Cmd → Prop
  | .appendRequested args => Announced term g args.term args.leaderCommit
  | .installRequested args => Announced term g args.term args.lastIncludedIndex
  | _ => True

theorem CallBody.Announces.mono {g g' : Ghost n Cmd} {body : CallBody n Cmd} (h : body.Announces g)
    (hgrow : Grows g g') (hcom : ∀ v, g.commit v ≤ g'.commit v) : body.Announces g' := by
  cases body with
  | appendRequested args | installRequested args => exact Announced.mono h hgrow hcom le_rfl
  | _ => trivial

theorem CallBody.announces_of_ne {g : Ghost n Cmd} {body : CallBody n Cmd}
    (happ : ∀ args, body ≠ .appendRequested args)
    (hins : ∀ args, body ≠ .installRequested args) : body.Announces g := by
  cases body with
  | appendRequested args => exact absurd rfl (happ args)
  | installRequested args => exact absurd rfl (hins args)
  | _ => trivial

namespace Cluster

variable {s s' : Cluster n Cmd} {g g' : Ghost n Cmd} {q : Fin n}

structure Heard (s : Cluster n Cmd) (g : Ghost n Cmd) : Prop where
  nodes : ∀ p, Announced term g (s.node p).rf.currentTerm (s.node p).rf.commitIndex
  calls : ∀ c ∈ s.calls, c.body.Announces g

theorem heard_boot : (boot : Cluster n Cmd).Heard (State.start _ _) where
  nodes _ := .inl rfl
  calls := by rintro c ⟨⟩

section

variable (h : s.Heard g) (hs : s.Simulates g) (hs' : s'.Simulates g') (hturn : Turn term q g g')

include h hs hs' hturn

theorem Heard.update {p : Fin n} {nd : Node n Cmd}
    (hnode : s'.node = Function.update s.node p nd)
    (hnd : nd.rf.commitIndex = (s.node p).rf.commitIndex ∨
      Announced term g' nd.rf.currentTerm nd.rf.commitIndex)
    (hcs : ∀ c ∈ s'.calls, c.body.Announces g) : s'.Heard g' := by
  have hgrow := hturn.grows hs.inv
  have hcom := hturn.moves.commit_le
  refine ⟨?_, fun c hc => (hcs c hc).mono hgrow hcom⟩
  intro r
  have hterm : (s.node r).rf.currentTerm ≤ (s'.node r).rf.currentTerm := by
    rw [← (hs.nodes r).rf.term, ← (hs'.nodes r).rf.term]
    exact hgrow.term_le r
  have hold := (h.nodes r).mono hgrow hcom hterm
  by_cases hr : r = p
  · subst hr
    rw [hnode, Function.update_self] at hold ⊢
    rcases hnd with hsame | hnew
    · rw [hsame]
      exact hold
    · exact hnew
  · rw [hnode, Function.update_of_ne hr] at hold ⊢
    exact hold

theorem Heard.run {p : Fin n} {sec : Section Cmd}
    (hstep : s.step (.run p sec) = some s') : s'.Heard g' := by
  obtain ⟨nd, body, hact, hnode, hcs⟩ := step_run hstep
  refine h.update hs hs' hturn hnode (.inl (commitIndex_act hact)) ?_
  rw [hcs]
  intro c hc
  rcases List.mem_append.mp hc with hold | hnew
  · exact h.calls c hold
  · rw [(mem_spawn hnew).2.2.2] at hact
    rcases act_some hact with ⟨args, hbody⟩ | hbody <;> rw [hbody] <;> trivial

theorem Heard.serve {i : Nat} (hstep : s.step (.serve i) = some s') : s'.Heard g' := by
  obtain ⟨c, nd, body, hc, hsv, hnode, hcs⟩ := step_serve hstep
  have hcall := (h.calls c (List.mem_of_getElem? hc)).mono (hturn.grows hs.inv)
    hturn.moves.commit_le
  refine h.update hs hs' hturn hnode ?_ ?_
  · rcases commitIndex_serve hsv with hsame | ⟨args, hbody, hterm, hle⟩ | ⟨args, hbody, hterm, heq⟩
    · exact .inl hsame
    · rw [hbody] at hcall
      rw [hterm]
      exact .inr (Announced.le hcall hle)
    · rw [hbody] at hcall
      rw [hterm, heq]
      exact .inr hcall
  · rw [hcs]
    intro d hd
    rcases List.mem_or_eq_of_mem_set hd with hold | rfl
    · exact h.calls d hold
    · obtain ⟨happ, hins⟩ := serve_ne_requested hsv
      exact CallBody.announces_of_ne happ hins

theorem Heard.resume {i : Nat} (hstep : s.step (.resume i) = some s') : s'.Heard g' := by
  obtain ⟨c, nd, body, _, _, hres, hnode, hcs⟩ := step_resume hstep
  have hsrc : s'.node c.src = nd := by rw [hnode, Function.update_self]
  refine h.update hs hs' hturn hnode ?_ ?_
  · rcases commitIndex_resume hres with hsame | hlead
    · exact .inl hsame
    · have hsim := (hs'.nodes c.src).rf
      rw [hsrc] at hsim
      have hled := hsim.leader hlead
      rw [← hsim.term] at hled
      rw [← hsim.term, ← hsim.commit]
      exact .inr (hs'.inv.announced_commit hled)
  · rw [hcs]
    intro d hd
    rcases mem_setCall hd with hold | ⟨b, rfl, rfl⟩
    · exact h.calls d hold
    · obtain ⟨hspa, _⟩ := resume_some hres
      rw [hspa] at hres
      obtain ⟨rf, request, hbd, _, hreq⟩ := resume_spawned hres
      obtain ⟨_, rfl | ⟨_, _, rfl⟩ | ⟨_, _, _, rfl⟩⟩ := Raft.buildRequest_cases hbd
      · cases hreq
      · cases hreq
        exact (h.nodes c.src).le (hs.nodes c.src).rf.included
      · cases hreq
        exact h.nodes c.src

end

theorem Heard.step (h : s.Heard g) (hs : s.Simulates g) {a : Action n Cmd}
    (hok : s.leaderBuilds a = true) (hstep : s.step a = some s') :
    ∃ g', s'.Simulates g' ∧ s'.Heard g' := by
  obtain ⟨q, g', hturn, hs'⟩ := hs.step hok hstep
  refine ⟨g', hs', ?_⟩
  cases a with
  | run p sec => exact h.run hs hs' hturn hstep
  | serve i => exact h.serve hs hs' hturn hstep
  | resume i => exact h.resume hs hs' hturn hstep
  | crash p id => cases hok

theorem heard_of_reachable (h : (system n Cmd).Reachable (fun s a => s.leaderBuilds a = true) s) :
    ∃ g, s.Simulates g ∧ s.Heard g := by
  refine h.invariant (I := fun t => ∃ g, t.Simulates g ∧ t.Heard g) ?_ ?_
  · rintro _ rfl
    exact ⟨_, simulates_boot, heard_boot⟩
  · rintro t a u ⟨g, hs, hg⟩ hok hstep
    exact hg.step hs hok hstep

def current (s : Cluster n Cmd) (p : Fin n) : Bool :=
  (s.node p).rf.state = .leader &&
    (decide (∀ q, (s.node q).rf.currentTerm ≤ (s.node p).rf.currentTerm) &&
      (s.node p).rf.getTerm (s.node p).rf.commitIndex = (s.node p).rf.currentTerm)

theorem commitIndex_le_of_current
    (hs : (system n Cmd).Reachable (fun s a => s.leaderBuilds a = true) s) {p : Fin n}
    (hp : s.current p = true) (q : Fin n) :
    (s.node q).rf.commitIndex ≤ (s.node p).rf.commitIndex := by
  obtain ⟨g, hsim, hheard⟩ := heard_of_reachable hs
  simp only [current, Bool.and_eq_true, decide_eq_true_eq] at hp
  obtain ⟨hlead, hterms, hown⟩ := hp
  have hrf := (hsim.nodes p).rf
  have hled := hrf.leader hlead
  have hlog : g.log p = g.termLog (s.node p).rf.currentTerm := by
    have := hsim.inv.leader_log p (by rw [hrf.term]; exact hled)
    rwa [hrf.term] at this
  have hpos : 0 < (s.node p).rf.currentTerm := (hsim.inv.leader_term _ p hled).1
  have hmark : Marked term g (s.node p).rf.currentTerm (s.node p).rf.commitIndex := by
    have hterm := hrf.views.getTerm hrf.included
    rw [hown, hlog] at hterm
    refine ⟨?_, ?_, hterm.symm⟩
    · rcases Nat.eq_zero_or_pos (s.node p).rf.commitIndex with hzero | hpos'
      · rw [hzero] at hterm
        change (s.node p).rf.currentTerm = 0 at hterm
        omega
      · exact hpos'
    · rw [← hlog]
      exact (hrf.committed hsim.inv).le_length
  have hle := hsim.inv.announced_le hled hmark hrf.commit.ge (hheard.nodes q) (hterms q)
  rwa [hrf.commit] at hle

end Cluster

end OrbisKV
