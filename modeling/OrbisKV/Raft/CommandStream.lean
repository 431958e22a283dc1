import Mathlib.Data.Fintype.EquivFin
import Mathlib.Data.Fintype.Lattice
import OrbisKV.Raft.ApplyStream
import OrbisKV.Raft.LeaderCommit
/-!
# The stream of a group without snapshots

Without snapshots the messages to the service of a node are the commands at 1, 2 and so
on, up to its commit index at most, and those of two nodes agree.
-/

namespace OrbisKV

open List Node

variable {n : Nat} {Cmd : Type}

def ApplyMsg.IsCommand : ApplyMsg Cmd → Prop
  | .command _ _ => True
  | .snapshot _ _ _ => False

def ApplyMsg.content : ApplyMsg Cmd → Option Cmd
  | .command cmd _ => cmd
  | .snapshot _ _ _ => none

theorem ApplyMsg.InOrder.getElem? {c j : Nat} {msgs : List (ApplyMsg Cmd)}
    (h : InOrder c msgs) (hall : ∀ msg ∈ msgs, msg.IsCommand) {msg : ApplyMsg Cmd}
    (hmsg : msgs[j]? = some msg) : ∃ cmd, msg = .command cmd (c + j + 1) := by
  induction msgs generalizing c j with
  | nil => cases hmsg
  | cons x msgs ih =>
    obtain ⟨hx, hrest⟩ := h
    cases x with
    | snapshot data term index => exact (hall _ mem_cons_self).elim
    | command cmd index =>
      change index = c + 1 at hx
      subst hx
      cases j with
      | zero =>
        cases hmsg
        exact ⟨cmd, rfl⟩
      | succ j =>
        obtain ⟨cmd', heq⟩ := ih hrest (fun m hm => hall m (mem_cons_of_mem _ hm)) hmsg
        refine ⟨cmd', ?_⟩
        rw [heq]
        congr 1
        change c + 1 + j + 1 = c + (j + 1) + 1
        omega

theorem Raft.isCommand_of_mem_collect {fuel : Nat} {rf : Raft n Cmd} {msg : ApplyMsg Cmd}
    (h : msg ∈ (collect fuel rf).2) : msg.IsCommand := by
  induction fuel generalizing rf with
  | zero => cases h
  | succ fuel ih =>
    unfold collect at h
    split at h
    · dsimp only at h
      split at h
      · exact ih h
      · split at h
        · cases h
        · rcases mem_cons.mp h with rfl | h
          · trivial
          · exact ih h
    · cases h

def Node.Delivers (nd : Node n Cmd) : Prop :=
  ∀ msg, msg ∈ nd.unsent ∨ msg ∈ nd.applied → msg.IsCommand ∧ msg.index ≤ nd.rf.commitIndex

namespace Node

variable {nd nd' : Node n Cmd} {body : Option (CallBody n Cmd)}

theorem Delivers.still (h : nd.Delivers) (hstill : nd.Still nd')
    (hcom : nd.rf.commitIndex ≤ nd'.rf.commitIndex) : nd'.Delivers := by
  intro msg hmsg
  rw [hstill.unsent, hstill.applied] at hmsg
  obtain ⟨hcmd, hle⟩ := h msg hmsg
  exact ⟨hcmd, hle.trans hcom⟩

theorem Delivers.applierCollect (h : nd.Delivers)
    (hact : nd.act .applierCollect = some (nd', body)) : nd'.Delivers := by
  have hcom := commitIndex_act hact
  cases acts hact
  rintro msg (hnew | hold)
  · rw [hcom]
    have hcmd := Raft.isCommand_of_mem_collect hnew
    cases msg with
    | command cmd index =>
      obtain ⟨_, hle, _⟩ := Raft.mem_collect hnew
      exact ⟨hcmd, hle⟩
    | snapshot data term index => exact hcmd.elim
  · rw [hcom]
    exact h msg (Or.inr hold)

theorem Delivers.applierSend (h : nd.Delivers) (hact : nd.act .applierSend = some (nd', body)) :
    nd'.Delivers := by
  cases acts hact
  rename_i msg rest huns
  intro m hm
  simp only [mem_append, mem_singleton] at hm
  apply h
  rw [huns, mem_cons]
  tauto

theorem Delivers.act (h : nd.Delivers) {sec : Section Cmd}
    (hsnap : ∀ index data, sec ≠ .snapshot index data) (hact : nd.act sec = some (nd', body)) :
    nd'.Delivers := by
  by_cases hcol : sec = .applierCollect
  · subst hcol
    exact h.applierCollect hact
  by_cases hsend : sec = .applierSend
  · subst hsend
    exact h.applierSend hact
  exact h.still (still_act hact hcol hsend hsnap) (commitIndex_act hact).ge

/-! Nothing that a service received is taken back. -/

theorem applied_act {sec : Section Cmd} (h : nd.act sec = some (nd', body)) :
    nd.applied <+: nd'.applied := by
  cases acts h with
  | applierSend => exact prefix_append _ _
  | _ => exact prefix_rfl

theorem applied_serve {body body' : CallBody n Cmd} (h : nd.serve body = some (nd', body')) :
    nd.applied <+: nd'.applied := by
  have hstill := still_serve h
  cases serves h with
  | installRefused args => exact prefix_rfl
  | installRequested args mid hmid =>
    subst hmid
    exact prefix_rfl
  | installSending args reply msg => exact prefix_append _ _
  | _ => rw [(hstill (by simp) (by simp)).applied]

end Node

namespace Cluster

variable {s s' : Cluster n Cmd} {a : Action n Cmd} {p : Fin n}

def plainStep (s : Cluster n Cmd) (a : Action n Cmd) : Bool := s.leaderBuilds a && noSnapshot a

theorem plainStep_iff : s.plainStep a = true ↔ s.leaderBuilds a = true ∧ noSnapshot a = true :=
  Bool.and_eq_true_iff

structure CommandsOnly (s : Cluster n Cmd) : Prop where
  calls : ∀ c ∈ s.calls, c.body.snapshot? = none
  delivers : ∀ p, (s.node p).Delivers
  recovered : ∀ p, (s.node p).recovered = 0

theorem commitIndex_le_step {g g' : Ghost n Cmd} {q : Fin n} (h : s.Simulates g)
    (h' : s'.Simulates g') (hturn : Lib.Consensus.Turn LogEntry.term q g g') (p : Fin n) :
    (s.node p).rf.commitIndex ≤ (s'.node p).rf.commitIndex := by
  rw [← (h.nodes p).rf.commit, ← (h'.nodes p).rf.commit]
  exact hturn.moves.commit_le p

theorem CommandsOnly.update (h : s.CommandsOnly) {nd : Node n Cmd}
    (hnode : s'.node = Function.update s.node p nd) (hnd : nd.Delivers) (hlogs : (s.node p).Logs nd)
    (hcs : ∀ c ∈ s'.calls, c.body.snapshot? = none) : s'.CommandsOnly := by
  refine ⟨hcs, ?_, ?_⟩
  · exact forall_node (P := fun _ nd => nd.Delivers) hnode hnd fun q _ => h.delivers q
  · exact forall_node (P := fun _ nd => nd.recovered = 0) hnode
      (hlogs.recovered.trans (h.recovered p)) fun q _ => h.recovered q

theorem CommandsOnly.step {G : Nat → List (LogEntry Cmd)} {led : Nat → Option (Fin n)}
    (h : s.CommandsOnly) (hm : s.Matching G led)
    (hcom : ∀ p, (s.node p).rf.commitIndex ≤ (s'.node p).rf.commitIndex)
    (hok : noSnapshot a = true) (hstep : s.step a = some s') : s'.CommandsOnly := by
  cases a with
  | run p sec =>
    obtain ⟨nd, body, hact, hnode, hcs⟩ := step_run hstep
    have hsnap : ∀ index data, sec ≠ .snapshot index data := by
      rintro index data rfl
      cases hok
    refine h.update hnode ((h.delivers p).act hsnap hact) (logs_act hact) ?_
    rw [hcs]
    intro c hc
    rcases mem_append.mp hc with hold | hnew
    · exact h.calls c hold
    · rw [(mem_spawn hnew).2.2.2] at hact
      rcases act_some hact with ⟨args, hbody⟩ | hbody <;> rw [hbody] <;> rfl
  | serve i =>
    obtain ⟨c, nd, body, hc, hsv, hnode, hcs⟩ := step_serve hstep
    have hmem := mem_of_getElem? hc
    have hins : ∀ args, c.body ≠ .installRequested args := by
      intro args hbody
      have hsound := hm.sound c hmem
      rw [Call.Sound, hbody] at hsound
      exact hsound
    have hsen : ∀ args reply msg, c.body ≠ .installSending args reply msg := by
      intro args reply msg hbody
      have hnone := h.calls c hmem
      rw [hbody] at hnone
      cases hnone
    have hdst := hcom c.dst
    rw [hnode, Function.update_self] at hdst
    refine h.update hnode ((h.delivers c.dst).still (still_serve hsv hins hsen) hdst)
      (logs_serve hsv) ?_
    rw [hcs]
    intro d hd
    rcases mem_or_eq_of_mem_set hd with hold | rfl
    · exact h.calls d hold
    · cases body with
      | installSending args reply msg => exact absurd hsv (serve_ne_sending hins)
      | _ => rfl
  | resume i =>
    obtain ⟨c, nd, body, _, _, hres, hnode, hcs⟩ := step_resume hstep
    have hsrc := hcom c.src
    rw [hnode, Function.update_self] at hsrc
    refine h.update hnode ((h.delivers c.src).still (still_resume hres) hsrc) (logs_resume hres) ?_
    rw [hcs]
    intro d hd
    rcases mem_setCall hd with hold | ⟨b, rfl, rfl⟩
    · exact h.calls d hold
    · obtain ⟨_, ⟨args, rfl⟩ | ⟨args, rfl⟩⟩ := resume_some hres <;> rfl
  | crash p id => cases hok

theorem commandsOnly_boot : (boot : Cluster n Cmd).CommandsOnly where
  calls := by rintro c ⟨⟩
  delivers p msg h := by
    rcases h with h | h <;> cases h
  recovered _ := rfl

structure Calm (s : Cluster n Cmd) : Prop where
  simulates : ∃ g, s.Simulates g
  matching : ∃ G led, s.Matching G led
  commands : s.CommandsOnly

theorem calm_of_reachable
    (hs : (system n Cmd).Reachable (fun s a => s.plainStep a = true) s) : s.Calm := by
  apply hs.invariant
  · rintro _ rfl
    exact ⟨⟨_, simulates_boot⟩, ⟨_, _, matching_boot⟩, commandsOnly_boot⟩
  · rintro t a u ⟨⟨g, hg⟩, ⟨G, led, hm⟩, hc⟩ hok hstep
    obtain ⟨hbui, hpl⟩ := plainStep_iff.mp hok
    obtain ⟨q, g', hturn, hg'⟩ := hg.step hbui hstep
    exact ⟨⟨g', hg'⟩, hm.step hpl hstep, hc.step hm (commitIndex_le_step hg hg' hturn) hpl hstep⟩

theorem deliversAhead_of_calm (h : s.Calm) (hok : noSnapshot a = true) :
    s.deliversAhead a = true := by
  obtain ⟨G, led, hm⟩ := h.matching
  cases a with
  | run p sec =>
    cases sec with
    | applierCollect =>
      rw [deliversAhead, List.isEmpty_iff, snapshots, List.filterMap_eq_nil_iff]
      intro c hc
      rw [h.commands.calls c hc, ite_self]
    | snapshot index data => cases hok
    | _ => rfl
  | serve i =>
    rw [deliversAhead, Option.all_eq_true]
    intro c hc
    split
    · rename_i args hbody
      have hsound := hm.sound c (mem_of_getElem? hc)
      rw [Call.Sound, hbody] at hsound
      exact hsound.elim
    · rfl
  | resume i => rfl
  | crash p id => cases hok

theorem applied_step (hok : crashFree a = true) (hstep : s.step a = some s') (p : Fin n) :
    (s.node p).applied <+: (s'.node p).applied := by
  have hupd : ∀ {q : Fin n} {nd : Node n Cmd}, s'.node = Function.update s.node q nd →
      (s.node q).applied <+: nd.applied → (s.node p).applied <+: (s'.node p).applied := by
    intro q nd hnode hq
    exact forall_node (P := fun x nd => (s.node x).applied <+: nd.applied) hnode hq
      (fun x _ => prefix_rfl) p
  cases a with
  | run q sec =>
    obtain ⟨nd, body, hact, hnode, _⟩ := step_run hstep
    exact hupd hnode (applied_act hact)
  | serve i =>
    obtain ⟨c, nd, body, _, hsv, hnode, _⟩ := step_serve hstep
    exact hupd hnode (applied_serve hsv)
  | resume i =>
    obtain ⟨c, nd, body, _, _, hres, hnode, _⟩ := step_resume hstep
    refine hupd hnode ?_
    rw [(still_resume hres).applied]
  | crash q id => cases hok

theorem applied_getElem? (hs : (system n Cmd).Reachable (fun s a => s.plainStep a = true) s)
    {j : Nat} {msg : ApplyMsg Cmd} (hmsg : (s.node p).applied[j]? = some msg) :
    ∃ cmd, msg = .command cmd (j + 1) := by
  have hstr : (system n Cmd).Reachable (fun s a => s.deliversAhead a = true) s :=
    hs.mono_of_reachable fun t a ht hok =>
      deliversAhead_of_calm (calm_of_reachable ht) (plainStep_iff.mp hok).2
  have hcomm := (calm_of_reachable hs).commands
  have hord := ((ApplyMsg.inOrder_append _ _ _).mp (streaming_of_reachable hstr p).order).1
  rw [hcomm.recovered p] at hord
  have hall : ∀ msg ∈ (s.node p).applied, msg.IsCommand := fun msg hmem =>
    (hcomm.delivers p msg (Or.inr hmem)).1
  obtain ⟨cmd, heq⟩ := hord.getElem? hall hmsg
  rw [Nat.zero_add] at heq
  exact ⟨cmd, heq⟩

def delivered (s : Cluster n Cmd) (p : Fin n) : List (Option Cmd) :=
  (s.node p).applied.map ApplyMsg.content

theorem delivered_step (hok : crashFree a = true) (hstep : s.step a = some s') (p : Fin n) :
    s.delivered p <+: s'.delivered p :=
  (applied_step hok hstep p).map _

theorem delivered_run (h : (system n Cmd).Run (fun s a => s.plainStep a = true) s s') (p : Fin n) :
    s.delivered p <+: s'.delivered p := by
  refine h.preserves (I := fun t => s.delivered p <+: t.delivered p) ?_ prefix_rfl
  intro t a u ht hok hstep
  refine ht.trans (delivered_step ?_ hstep p)
  have hpl := (plainStep_iff.mp hok).2
  cases a with
  | crash q id => cases hpl
  | _ => rfl

section

variable (hs : (system n Cmd).Reachable (fun s a => s.plainStep a = true) s)

include hs

theorem delivered_getElem? {j : Nat} {cmd : Option Cmd} (hcmd : (s.delivered p)[j]? = some cmd) :
    (s.node p).applied[j]? = some (.command cmd (j + 1)) := by
  rw [delivered, getElem?_map] at hcmd
  obtain ⟨msg, hmsg, hcon⟩ := Option.map_eq_some_iff.mp hcmd
  obtain ⟨cmd', rfl⟩ := applied_getElem? hs hmsg
  change cmd' = cmd at hcon
  rw [hmsg, hcon]

theorem length_delivered_le (p : Fin n) : (s.delivered p).length ≤ (s.node p).rf.commitIndex := by
  rcases Nat.eq_zero_or_pos (s.delivered p).length with hzero | hpos
  · rw [hzero]
    exact Nat.zero_le _
  · have hlast : (s.delivered p).length - 1 < (s.delivered p).length := by omega
    have hmsg := delivered_getElem? hs (getElem?_eq_getElem hlast)
    have hle := ((calm_of_reachable hs).commands.delivers p _ (Or.inr (mem_of_getElem? hmsg))).2
    change (s.delivered p).length - 1 + 1 ≤ _ at hle
    omega

theorem delivered_prefix_of_le {q : Fin n} (hle : (s.delivered p).length ≤ (s.delivered q).length) :
    s.delivered p <+: s.delivered q := by
  obtain ⟨g, hg⟩ := (calm_of_reachable hs).simulates
  rw [prefix_iff_getElem?]
  intro j hj
  have hp := getElem?_eq_getElem hj
  have hq := getElem?_eq_getElem (lt_of_lt_of_le hj hle)
  rw [hq, hg.applied_agree (mem_of_getElem? (delivered_getElem? hs hp))
    (mem_of_getElem? (delivered_getElem? hs hq))]

theorem exists_history :
    ∃ history, (∀ p, s.delivered p <+: history) ∧ ∀ cmd ∈ history, ∃ p, cmd ∈ s.delivered p := by
  rcases isEmpty_or_nonempty (Fin n) with hempty | hnon
  · exact ⟨[], fun p => hempty.elim p, by rintro cmd ⟨⟩⟩
  · obtain ⟨q, hq⟩ := Finite.exists_max fun p => (s.delivered p).length
    exact ⟨s.delivered q, fun p => delivered_prefix_of_le hs (hq p), fun cmd hcmd => ⟨q, hcmd⟩⟩

end

end Cluster

end OrbisKV
