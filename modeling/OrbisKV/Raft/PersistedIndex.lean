import OrbisKV.Raft.Disk
/-!
# What persistedIndex promises

`persistedIndex` is a high-water mark: it is raised when a request for the state file is
reported done and never lowered.
-/

namespace OrbisKV

open Function List Node Raft

variable {n : Nat} {Cmd : Type}

structure Node.Quiet (nd nd' : Node n Cmd) : Prop where
  log : Raft.SameLog nd.rf nd'.rf
  persisted : nd'.rf.persistedIndex = nd.rf.persistedIndex
  completions : nd'.completions = nd.completions

namespace Node

variable {nd nd' : Node n Cmd} {body : Option (CallBody n Cmd)}

theorem quiet_act {sec : Section Cmd} (h : nd.act sec = some (nd', body))
    (hsta : ∀ command, sec ≠ .start command) (hsnap : ∀ index data, sec ≠ .snapshot index data)
    (hdone : ∀ k, sec ≠ .completePersist k) : nd.Quiet nd' := by
  have hlog := sameLog_act h hsta hsnap
  cases acts h with
  | start command => exact absurd rfl (hsta command)
  | snapshot index data => exact absurd rfl (hsnap index data)
  | completePersist k => exact absurd rfl (hdone k)
  | startElection => exact ⟨hlog, nd.rf.unmoved_startElection.persisted, rfl⟩
  | applierCollect =>
    refine ⟨hlog, ?_, rfl⟩
    obtain ⟨k, hk⟩ := collect_eq nd.rf.commitIndex nd.rf
    rw [applier, hk]
  | _ => exact ⟨hlog, rfl, rfl⟩

theorem quiet_serve {body body' : CallBody n Cmd} (h : nd.serve body = some (nd', body'))
    (happ : ∀ args, body ≠ .appendRequested args) (hins : ∀ args, body ≠ .installRequested args)
    (hwait : ∀ args reply id logCount, body ≠ .appendServing args reply (.raftState id logCount)) :
    nd.Quiet nd' := by
  have hlog := sameLog_serve h happ hins
  cases serves h with
  | appendRequested args => exact absurd rfl (happ args)
  | installRefused args | installRequested args => exact absurd rfl (hins args)
  | voteRequested args =>
    refine ⟨hlog, ?_, ?_⟩
    · rw [finishVote_rf]
      exact (nd.rf.unmoved_requestVote args).persisted
    · unfold finishVote
      split <;> rfl
  | appendServing args reply wait =>
    cases wait with
    | raftState id logCount => exact absurd rfl (hwait args reply id logCount)
    | _ => exact ⟨hlog, rfl, rfl⟩
  | _ => exact ⟨hlog, rfl, rfl⟩

theorem quiet_resume {peer : Fin n} {body : CallBody n Cmd} {body' : Option (CallBody n Cmd)}
    (h : nd.resume peer body = some (nd', body')) : nd.Quiet nd' := by
  obtain ⟨hrf, hcom, _⟩ := untouched_resume h
  exact ⟨hrf.sameLog, hrf.persisted, hcom⟩

structure Backed (nd : Node n Cmd) : Prop where
  le : nd.rf.persistedIndex ≤ nd.rf.getLastLogIndex
  persisted : ∀ i, nd.rf.lastIncludedIndex < i → i ≤ nd.rf.persistedIndex →
    nd.persister.journal.Secured (nd.Has i)
  completion : ∀ x ∈ nd.completions, nd.Covers x.1 x.2

section

variable (h : nd.Backed)

include h

theorem Backed.step (hlogs : nd.Logs nd') (hkeep : Raft.Keeps nd.rf nd'.rf nd.rf.persistedIndex)
    (hkeepAll : ∀ x ∈ nd.completions, Raft.Keeps nd.rf nd'.rf x.2)
    (hle : nd'.rf.persistedIndex ≤ nd'.rf.getLastLogIndex)
    (hper : ∀ i, nd'.rf.lastIncludedIndex < i → i ≤ nd'.rf.persistedIndex →
      i ≤ nd.rf.persistedIndex ∨ nd'.persister.journal.Secured (nd'.Has i))
    (hcomp : ∀ x ∈ nd'.completions, x ∈ nd.completions ∨ nd'.Covers x.1 x.2) :
    nd'.Backed := by
  refine ⟨hle, ?_, ?_⟩
  · intro i hi hip
    rcases hper i hi hip with hold | hnew
    · have hinc := hkeep.included
      exact secured_step (h.persisted i (by omega) hold) hlogs (hkeep.entries i hi hold)
    · exact hnew
  · intro x hx
    rcases hcomp x hx with hold | hnew
    · exact (h.completion x hold).step hlogs (hkeepAll x hold)
    · exact hnew

theorem Backed.quiet (hlogs : nd.Logs nd') (hq : nd.Quiet nd') : nd'.Backed := by
  apply h.step hlogs (hq.log.keeps h.le) fun x hx => hq.log.keeps (h.completion x hx).le
  · rw [hq.persisted, hq.log.getLastLogIndex]
    exact h.le
  · intro i _ hi
    exact .inl (hq.persisted ▸ hi)
  · intro x hx
    exact .inl (hq.completions ▸ hx)

theorem Backed.start {command : Option Cmd}
    (hact : nd.act (.start command) = some (nd', body)) : nd'.Backed := by
  have hlogs := logs_act hact
  cases acts hact
  rename_i rf hrf
  have hper := (sameMarks_start hrf).persisted
  have hadds : nd.persister.Adds (nd.persister.enqueueSave rf.raftState)
      ⟨rf.raftState, [], false⟩ := ⟨rfl, rfl, rfl⟩
  apply h.step hlogs (keeps_start hrf h.le) fun x hx => keeps_start hrf (h.completion x hx).le
  · change rf.persistedIndex ≤ rf.getLastLogIndex
    rw [hper]
    exact (keeps_start hrf h.le).last
  · intro i _ hi
    exact .inl (hper ▸ hi)
  · intro x hx
    rcases mem_append.mp hx with hx | hx
    · exact .inl hx
    · rw [mem_singleton.mp hx]
      exact .inr (covers_new hadds.journal)

theorem Backed.note {id c : Nat} (hcov : nd.Covers id c)
    (hdone : (nd.persister.saves[id]?).any (·.done) = true) (hps : nd'.persister = nd.persister)
    (hlog : Raft.SameLog nd.rf nd'.rf) (hper : nd'.rf.persistedIndex = max nd.rf.persistedIndex c)
    (hcomp : ∀ x ∈ nd'.completions, x ∈ nd.completions) : nd'.Backed := by
  have hlogs : nd.Logs nd' := .inl (by rw [hps])
  apply h.step hlogs (hlog.keeps h.le) fun x hx => hlog.keeps (h.completion x hx).le
  · rw [hper, hlog.getLastLogIndex]
    exact Nat.max_le.mpr ⟨h.le, hcov.le⟩
  · intro i hi hip
    rw [hper] at hip
    rw [hlog.index] at hi
    rcases Nat.le_or_le i nd.rf.persistedIndex with hold | hnew
    · exact .inl hold
    · by_cases hic : i ≤ c
      · exact .inr (secured_step (hcov.secured hdone hi hic) hlogs (hlog.entryAt i))
      · exact .inl (by omega)
  · exact fun x hx => .inl (hcomp x hx)

theorem Backed.completePersist {k : Nat}
    (hact : nd.act (.completePersist k) = some (nd', body)) : nd'.Backed := by
  cases acts hact
  rename_i id covered hdone hget
  have hcov := h.completion (id, covered) (mem_of_getElem? hget)
  exact h.note hcov hdone rfl ⟨rfl, rfl, rfl⟩ rfl fun x hx => mem_of_mem_eraseIdx hx

theorem Backed.rebase (hlogs : nd.Logs nd') (hkeep : Raft.Keeps nd.rf nd'.rf nd.rf.persistedIndex)
    (hkeepAll : ∀ x ∈ nd.completions, Raft.Keeps nd.rf nd'.rf x.2)
    (hper : nd'.rf.persistedIndex = max nd.rf.persistedIndex nd'.rf.lastIncludedIndex)
    (hcomp : nd'.completions = nd.completions) : nd'.Backed := by
  apply h.step hlogs hkeep hkeepAll
  · have hlast := hkeep.last
    have hinc : nd'.rf.lastIncludedIndex ≤ nd'.rf.getLastLogIndex := by
      rw [getLastLogIndex_eq]
      omega
    rw [hper]
    omega
  · intro i hi hip
    rw [hper] at hip
    exact .inl (by omega)
  · intro x hx
    exact .inl (hcomp ▸ hx)

theorem Backed.snapshot {index : Nat} {data : Bytes}
    (hact : nd.act (.snapshot index data) = some (nd', body)) : nd'.Backed := by
  have hlogs := logs_act hact
  cases acts hact
  rename_i rf taken hrf
  rcases snapshot_cases hrf with ⟨rfl, rfl⟩ | ⟨_, _, _, hix, _, _, hper, _⟩
  · exact h
  · apply h.rebase hlogs (keeps_snapshot hrf h.le)
      (fun x hx => keeps_snapshot hrf (h.completion x hx).le) _ rfl
    change rf.persistedIndex = max nd.rf.persistedIndex rf.lastIncludedIndex
    rw [hper, hix]

theorem Backed.appendEntries {args : AppendEntriesArgs n Cmd}
    {body : CallBody n Cmd} (hsv : nd.serve (.appendRequested args) = some (nd', body))
    (hlow : ∀ j, nd.rf.conflict args = some j → nd.rf.persistedIndex < j)
    (hlowAll : ∀ j, nd.rf.conflict args = some j → ∀ x ∈ nd.completions, x.2 < j) : nd'.Backed := by
  have hlogs := logs_serve hsv
  cases serves hsv
  have hcom : (nd.finishAppend (nd.rf.appendEntries args).1 args
      (nd.rf.appendEntries args).2.1 (nd.rf.appendEntries args).2.2).1.completions =
      nd.completions := by
    cases (nd.rf.appendEntries args).2.2 <;> rfl
  have hkeep := keeps_appendEntries h.le hlow
  apply h.step hlogs
  · rw [finishAppend_rf]
    exact hkeep
  · intro x hx
    rw [finishAppend_rf]
    exact keeps_appendEntries (h.completion x hx).le fun j hj => hlowAll j hj x hx
  · rw [finishAppend_rf, (nd.rf.sameMarks_appendEntries args).persisted]
    exact hkeep.last
  · intro i _ hi
    rw [finishAppend_rf, (nd.rf.sameMarks_appendEntries args).persisted] at hi
    exact .inl hi
  · intro x hx
    exact .inl (hcom ▸ hx)

theorem Backed.installSnapshot {args : InstallSnapshotArgs n}
    {body : CallBody n Cmd} (hsv : nd.serve (.installRequested args) = some (nd', body))
    (hagree : nd.rf.accepts args = true → nd.rf.agrees args = true ∨
      (nd.rf.persistedIndex ≤ args.lastIncludedIndex ∧
        ∀ x ∈ nd.completions, x.2 ≤ args.lastIncludedIndex)) : nd'.Backed := by
  have hlogs := logs_serve hsv
  obtain ⟨⟨hcom, _⟩, hcases⟩ := serve_installRequested_cases hsv
  rcases hcases with ⟨_, ⟨term, hrf⟩, _⟩ | ⟨hacc, hrf, _⟩
  · apply h.quiet hlogs
    refine ⟨?_, ?_, hcom⟩ <;> rw [hrf]
    · exact nd.rf.sameLog_catchUp term
    · exact (nd.rf.unmoved_catchUp term).persisted
  · have hall := hagree hacc
    apply h.rebase hlogs _ _ _ hcom
    · rw [hrf]
      exact keeps_installSnapshot hacc h.le (hall.imp_right fun hc => hc.1)
    · intro x hx
      rw [hrf]
      exact keeps_installSnapshot hacc (h.completion x hx).le (hall.imp_right fun hc => hc.2 x hx)
    · rw [hrf]
      change max (nd.rf.catchUp args.term).persistedIndex args.lastIncludedIndex = _
      rw [(nd.rf.unmoved_catchUp args.term).persisted]
      rfl

end

theorem backed_make (p : Fin n) {ps : Persister n Cmd} (hsav : ps.saves = []) :
    (make p ps).Backed := by
  have hlog := make_log p hsav
  refine ⟨Nat.le_refl _, ?_, nofun⟩
  intro i hi hip
  change ps.journal.Secured _
  rw [Persister.journal_of_nil hsav]
  cases hfound : ps.found with
  | none =>
    -- nothing was found, so there is no entry
    have hlast : (make p ps).rf.persistedIndex = (make p ps).rf.getLastLogIndex := rfl
    rw [hfound] at hlog
    rw [hlast, getLastLogIndex_eq, hlog.1, hlog.2] at hip
    rw [hlog.2] at hi
    simp [readPersist, fresh] at hip hi
    omega
  | some st =>
    apply Lib.Journal.secured_base
    rw [hfound] at hlog
    change st.entryAt i = (make p ps).rf.entryAt i
    rw [RaftState.entryAt, entryAt, hlog.1, hlog.2]
    rfl

end Node

def CallBody.logCount? : CallBody n Cmd → Option Nat
  | .appendServing _ _ (.raftState _ logCount) => some logCount
  | _ => none

theorem CallBody.logCount?_eq_some {body : CallBody n Cmd} {logCount : Nat}
    (h : body.logCount? = some logCount) :
    ∃ args reply id, body = .appendServing args reply (.raftState id logCount) := by
  unfold logCount? at h
  split at h <;> cases h
  exact ⟨_, _, _, rfl⟩

theorem Node.logCount?_act {nd nd' : Node n Cmd} {sec : Section Cmd} {body : CallBody n Cmd}
    (h : nd.act sec = some (nd', some body)) : body.logCount? = none := by
  rcases act_some h with ⟨args, rfl⟩ | rfl <;> rfl

namespace Cluster

variable {s s' : Cluster n Cmd} {p : Fin n} {nd : Node n Cmd}

def awaiting (s : Cluster n Cmd) (p : Fin n) : List Nat :=
  s.calls.filterMap fun c => if c.dst = p then c.body.logCount? else none

def covers (s : Cluster n Cmd) (p : Fin n) : List Nat :=
  (s.node p).rf.persistedIndex :: (s.node p).completions.map (·.2) ++
    (s.awaiting p).map fun logCount => (s.node p).rf.lastIncludedIndex + logCount - 1

/-- `AppendEntries` drops no entry that is noted as persisted or will be, and neither does
`InstallSnapshot`; the snapshot point moves while no handler waits for the state file. -/
def dropsUncovered (s : Cluster n Cmd) : Action n Cmd → Bool
  | .serve i => (s.calls[i]?).all fun c =>
    match c.body with
    | .appendRequested args =>
      ((s.node c.dst).rf.conflict args).all fun j => (s.covers c.dst).all (· < j)
    | .installRequested args =>
      !(s.node c.dst).rf.accepts args ||
        ((s.awaiting c.dst).isEmpty && ((s.node c.dst).rf.agrees args ||
          (s.covers c.dst).all (· ≤ args.lastIncludedIndex)))
    | _ => true
  | .run p (.snapshot index _) =>
    !((s.node p).rf.lastIncludedIndex < index && index ≤ (s.node p).rf.commitIndex) ||
      (s.awaiting p).isEmpty
  | _ => true

structure Backed (s : Cluster n Cmd) : Prop where
  node : ∀ p, (s.node p).Backed
  awaited : ∀ c ∈ s.calls, ∀ args reply id logCount,
    c.body = .appendServing args reply (.raftState id logCount) →
    (s.node c.dst).Covers id ((s.node c.dst).rf.lastIncludedIndex + logCount - 1)

theorem Backed.le_last (h : s.Backed) {logCount : Nat} (hin : logCount ∈ s.awaiting p) :
    (s.node p).rf.lastIncludedIndex + logCount - 1 ≤ (s.node p).rf.getLastLogIndex := by
  obtain ⟨c, hc, hif⟩ := mem_filterMap.mp hin
  split_ifs at hif with hdst
  obtain ⟨args, reply, id, hbody⟩ := CallBody.logCount?_eq_some hif
  rw [← hdst]
  exact (h.awaited c hc args reply id logCount hbody).le

theorem Backed.update (h : s.Backed) {q : Fin n} (hnode : s'.node = update s.node q nd)
    (hnd : nd.Backed) (hlogs : (s.node q).Logs nd)
    (hkeep : ∀ logCount ∈ s.awaiting q, nd.rf.lastIncludedIndex =
        (s.node q).rf.lastIncludedIndex ∧ Raft.Keeps (s.node q).rf nd.rf
          ((s.node q).rf.lastIncludedIndex + logCount - 1))
    (hcs : ∀ c ∈ s'.calls, c ∈ s.calls ∨ ∀ args reply id logCount,
      c.body = .appendServing args reply (.raftState id logCount) →
      c.dst = q ∧ nd.Covers id (nd.rf.lastIncludedIndex + logCount - 1)) : s'.Backed := by
  refine ⟨?_, ?_⟩
  · exact forall_node (P := fun _ nd => nd.Backed) hnode hnd fun p _ => h.node p
  · intro c hc args reply id logCount hbody
    rcases hcs c hc with hold | hnew
    · have hcov := h.awaited c hold args reply id logCount hbody
      rw [hnode]
      by_cases hq : c.dst = q
      · have hin : logCount ∈ s.awaiting q := by
          apply mem_filterMap.mpr
          exact ⟨c, hold, by rw [if_pos hq, hbody]; rfl⟩
        obtain ⟨hix, hkeeps⟩ := hkeep logCount hin
        rw [hq] at hcov ⊢
        rw [update_self, hix]
        exact hcov.step hlogs hkeeps
      · rw [update_of_ne hq]
        exact hcov
    · obtain ⟨hq, hcov⟩ := hnew args reply id logCount hbody
      rw [hq, hnode, update_self]
      exact hcov

theorem Backed.keep_awaiting (h : s.Backed) {q : Fin n} (hlog : Raft.SameLog (s.node q).rf nd.rf) :
    ∀ logCount ∈ s.awaiting q, nd.rf.lastIncludedIndex = (s.node q).rf.lastIncludedIndex ∧
      Raft.Keeps (s.node q).rf nd.rf ((s.node q).rf.lastIncludedIndex + logCount - 1) :=
  fun _ hin => ⟨hlog.index, hlog.keeps (h.le_last hin)⟩

theorem awaiting_of_isEmpty (h : (s.awaiting p).isEmpty = true) {P : Nat → Prop} :
    ∀ logCount ∈ s.awaiting p, P logCount := by
  intro logCount hin
  rw [isEmpty_iff.mp h] at hin
  cases hin

theorem Backed.run (h : s.Backed) {sec : Section Cmd} (hok : s.dropsUncovered (.run p sec) = true)
    (hstep : s.step (.run p sec) = some s') : s'.Backed := by
  obtain ⟨nd, body, hact, hnode, hcs⟩ := step_run hstep
  have hlogs := logs_act hact
  have hspawn : ∀ c ∈ s'.calls, c ∈ s.calls ∨ ∀ args reply id logCount,
      c.body = .appendServing args reply (.raftState id logCount) →
      c.dst = p ∧ nd.Covers id (nd.rf.lastIncludedIndex + logCount - 1) := by
    intro c hc
    rw [hcs, mem_append] at hc
    refine hc.imp_right ?_
    intro hnew args reply id logCount hbody
    have hbody' := (mem_spawn hnew).2.2.2
    rw [hbody'] at hact
    have hnone := logCount?_act hact
    rw [hbody] at hnone
    cases hnone
  have hsame := sameLog_act hact
  have hquiet := quiet_act hact
  cases acts hact with
  | start command rf hrf =>
    refine h.update hnode ((h.node p).start hact) hlogs ?_ hspawn
    intro logCount hin
    exact ⟨start_lastIncludedIndex hrf, keeps_start hrf (h.le_last hin)⟩
  | snapshot index data rf taken hrf =>
    refine h.update hnode ((h.node p).snapshot hact) hlogs ?_ hspawn
    rcases snapshot_cases hrf with ⟨rfl, _⟩ | ⟨_, hlow, hhigh, _⟩
    · exact h.keep_awaiting (Raft.SameLog.refl _)
    · apply awaiting_of_isEmpty
      simpa [dropsUncovered, hlow, hhigh] using hok
  | completePersist k =>
    exact h.update hnode ((h.node p).completePersist hact) hlogs
      (h.keep_awaiting (hsame (by simp) (by simp))) hspawn
  | _ =>
    have hquiet := hquiet (by simp) (by simp) (by simp)
    exact h.update hnode ((h.node p).quiet hlogs hquiet) hlogs (h.keep_awaiting hquiet.log) hspawn

theorem covers_appendEntries {nd' : Node n Cmd} {args : AppendEntriesArgs n Cmd}
    {body : CallBody n Cmd} (hsv : nd.serve (.appendRequested args) = some (nd', body))
    {args' : AppendEntriesArgs n Cmd} {reply : AppendEntriesReply} {id logCount : Nat}
    (hbody : body = .appendServing args' reply (.raftState id logCount)) :
    nd'.Covers id (nd'.rf.lastIncludedIndex + logCount - 1) := by
  cases serves hsv
  generalize hres : nd.rf.appendEntries args = res at hbody ⊢
  obtain ⟨rf, rep, enqueued⟩ := res
  cases enqueued with
  | raftState =>
    cases hbody
    have hadds : nd.persister.Adds (nd.persister.enqueueSave rf.raftState)
        ⟨rf.raftState, [], false⟩ := ⟨rfl, rfl, rfl⟩
    exact covers_new hadds.journal
  | _ => cases hbody

theorem Backed.serve (h : s.Backed) {i : Nat} (hok : s.dropsUncovered (.serve i) = true)
    (hstep : s.step (.serve i) = some s') : s'.Backed := by
  obtain ⟨c, nd, body, hc, hsv, hnode, hcs⟩ := step_serve hstep
  have hlogs := logs_serve hsv
  have hmem := mem_of_getElem? hc
  have hset : ∀ P : Call n Cmd → Prop, P { c with body := body } →
      ∀ d ∈ s'.calls, d ∈ s.calls ∨ P d := by
    intro P hP d hd
    rw [hcs] at hd
    rcases mem_or_eq_of_mem_set hd with hd | rfl
    · exact .inl hd
    · exact .inr hP
  have hquiet : (s.node c.dst).Quiet nd → body.logCount? = none → s'.Backed := by
    intro hq hnone
    refine h.update hnode ((h.node c.dst).quiet hlogs hq) hlogs (h.keep_awaiting hq.log) (hset _ ?_)
    intro args reply id logCount hbody
    change body = _ at hbody
    rw [hbody] at hnone
    cases hnone
  cases hcbody : c.body with
  | appendRequested args =>
    rw [hcbody] at hsv
    have hlow : ∀ j, (s.node c.dst).rf.conflict args = some j → ∀ k ∈ s.covers c.dst, k < j := by
      intro j hj
      simpa [dropsUncovered, hc, hcbody, hj] using hok
    have hbac : nd.Backed := by
      apply (h.node c.dst).appendEntries hsv
      · exact fun j hj => hlow j hj _ (by simp [covers])
      · intro j hj x hx
        apply hlow j hj
        simp only [covers, mem_cons, mem_append, mem_map]
        exact .inl (.inr ⟨x, hx, rfl⟩)
    have hrf : nd.rf = ((s.node c.dst).rf.appendEntries args).1 := by
      cases serves hsv
      exact finishAppend_rf ..
    refine h.update hnode hbac hlogs ?_ (hset _ ?_)
    · intro logCount hin
      rw [hrf]
      refine ⟨((s.node c.dst).rf.appendEntries_included args).1,
        keeps_appendEntries (h.le_last hin) ?_⟩
      intro j hj
      apply hlow j hj
      simp only [covers, mem_cons, mem_append, mem_map]
      exact .inr ⟨logCount, hin, rfl⟩
    · intro args' reply id logCount hbody
      exact ⟨rfl, covers_appendEntries hsv hbody⟩
  | installRequested args =>
    rw [hcbody] at hsv
    have hcond : (s.node c.dst).rf.accepts args = true →
        (s.awaiting c.dst).isEmpty = true ∧ ((s.node c.dst).rf.agrees args = true ∨
          ∀ k ∈ s.covers c.dst, k ≤ args.lastIncludedIndex) := by
      intro hacc
      simpa [dropsUncovered, hc, hcbody, hacc] using hok
    have hbac : nd.Backed := by
      apply (h.node c.dst).installSnapshot hsv
      intro hacc
      refine (hcond hacc).2.imp_right fun hall => ⟨hall _ (by simp [covers]), ?_⟩
      intro x hx
      apply hall
      simp only [covers, mem_cons, mem_append, mem_map]
      exact .inl (.inr ⟨x, hx, rfl⟩)
    obtain ⟨_, hcases⟩ := serve_installRequested_cases hsv
    refine h.update hnode hbac hlogs ?_ (hset _ ?_)
    · rcases hcases with ⟨_, ⟨term, hrf⟩, _⟩ | ⟨hacc, _⟩
      · apply h.keep_awaiting
        rw [hrf]
        exact (s.node c.dst).rf.sameLog_catchUp term
      · exact awaiting_of_isEmpty (hcond hacc).1
    · rintro args' reply id logCount hbody
      rcases hcases with ⟨_, _, _, reply', rfl⟩ | ⟨_, _, _, reply', rfl⟩ <;> cases hbody
  | appendServing args reply wait =>
    rw [hcbody] at hsv
    have hquiet' := quiet_serve hsv (by simp) (by simp)
    cases serves hsv
    rename_i hover
    cases wait with
    | raftState id logCount =>
      have hcov := h.awaited c hmem args reply id logCount hcbody
      have hlog := sameLog_serve hsv (by simp) (by simp)
      refine h.update hnode ?_ hlogs (h.keep_awaiting hlog) (hset _ ?_)
      · exact (h.node c.dst).note hcov hover rfl hlog rfl fun x hx => hx
      · intro args' reply' id' logCount' hbody
        cases hbody
    | _ => exact hquiet (hquiet' (by simp)) rfl
  | _ =>
    rw [hcbody] at hsv
    apply hquiet (quiet_serve hsv (by simp) (by simp) (by simp))
    cases serve_follows hsv <;> rfl

theorem Backed.resume (h : s.Backed) {i : Nat} (hstep : s.step (.resume i) = some s') :
    s'.Backed := by
  obtain ⟨c, nd, body, hc, _, hresu, hnode, hcs⟩ := step_resume hstep
  have hlogs := logs_resume hresu
  have hquiet := quiet_resume hresu
  refine h.update hnode ((h.node c.src).quiet hlogs hquiet) hlogs (h.keep_awaiting hquiet.log) ?_
  intro d hd
  rw [hcs] at hd
  rcases mem_setCall hd with hd | ⟨b, rfl, rfl⟩
  · exact .inl hd
  · right
    intro args reply id logCount hbody
    rcases (resume_some hresu).2 with ⟨_, rfl⟩ | ⟨_, rfl⟩ <;> cases hbody

theorem Backed.crash (h : s.Backed) {id : Option Nat} (hstep : s.step (.crash p id) = some s') :
    s'.Backed := by
  obtain ⟨ps, hps, hnode, hcs⟩ := step_crash hstep
  refine ⟨?_, ?_⟩
  · exact forall_node (P := fun _ nd => nd.Backed) hnode
      (backed_make p (Persister.afterCrash_saves hps)) fun q _ => h.node q
  · intro d hd args reply wid logCount hbody
    rw [hcs] at hd
    obtain ⟨c, hc, hsur, rfl⟩ := mem_afterCrash hd
    change c.body = _ at hbody
    have hne : c.dst ≠ p := by simpa [Call.survives, hbody] using hsur
    change (s'.node c.dst).Covers wid ((s'.node c.dst).rf.lastIncludedIndex + logCount - 1)
    rw [hnode, update_of_ne hne]
    exact h.awaited c hc args reply wid logCount hbody

theorem backed_of_reachable
    (h : (system n Cmd).Reachable (fun s a => s.dropsUncovered a = true) s) : s.Backed := by
  apply h.invariant
  · rintro _ rfl
    exact ⟨fun p => backed_make p rfl, nofun⟩
  · intro t a u ht hok hstep
    cases a with
    | run p sec => exact ht.run hok hstep
    | serve i => exact ht.serve hok hstep
    | resume i => exact ht.resume hstep
    | crash p id => exact ht.crash hstep

end Cluster

end OrbisKV
