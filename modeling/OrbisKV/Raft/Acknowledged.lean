import OrbisKV.Raft.Disk
/-!
# Acknowledged entries

An `AppendEntries` handler that changes the log waits for the state it leaves behind
before it returns.
-/

namespace OrbisKV

open CallBody Function List Node Raft

variable {n : Nat} {Cmd : Type}

namespace Node

variable {nd nd' : Node n Cmd}

def Matched (nd : Node n Cmd) (args : AppendEntriesArgs n Cmd) : Prop :=
  ∀ k e, args.entries[k]? = some e → nd.rf.lastIncludedIndex < args.prevLogIndex + 1 + k →
    (nd.rf.entryAt (args.prevLogIndex + 1 + k)).map LogEntry.term = some e.term

structure Stored (nd : Node n Cmd) (c : Nat) : Prop where
  le : c ≤ nd.rf.getLastLogIndex
  held : ∀ i, nd.rf.lastIncludedIndex < i → i ≤ c → nd.persister.journal.Secured (nd.Has i)

def Acks (nd : Node n Cmd) : CallBody n Cmd → Prop
  | .appendServing args reply wait => reply.success = true → nd.Matched args ∧ match wait with
      | .raftState id _ => nd.Covers id (args.prevLogIndex + args.entries.length)
      | _ => nd.Stored (args.prevLogIndex + args.entries.length)
  | .appendReturning args reply => reply.success = true → nd.Matched args ∧
      nd.Stored (args.prevLogIndex + args.entries.length)
  | _ => True

end Node

def CallBody.acked? : CallBody n Cmd → Option Nat
  | .appendServing args reply _ | .appendReturning args reply =>
    if reply.success then some (args.prevLogIndex + args.entries.length) else none
  | _ => none

namespace Node

variable {nd nd' : Node n Cmd} {body : CallBody n Cmd} {args : AppendEntriesArgs n Cmd}

theorem acks_of_none (h : body.acked? = none) : nd.Acks body := by
  cases body with
  | appendServing args reply wait | appendReturning args reply =>
    intro hsucc
    simp [acked?, hsucc] at h
  | _ => trivial

theorem Acks.le_last (h : nd.Acks body) {c : Nat} (hc : body.acked? = some c) :
    c ≤ nd.rf.getLastLogIndex := by
  cases body with
  | appendServing args reply wait =>
    simp only [acked?] at hc
    split at hc <;> cases hc
    obtain ⟨_, hsto⟩ := h ‹_›
    cases wait with
    | _ => exact hsto.le
  | appendReturning args reply =>
    simp only [acked?] at hc
    split at hc <;> cases hc
    exact (h ‹_›).2.le
  | _ => cases hc

theorem Matched.step (h : nd.Matched args)
    (hkeep : Raft.Keeps nd.rf nd'.rf (args.prevLogIndex + args.entries.length)) :
    nd'.Matched args := by
  intro k e he hk
  have hlen := (List.getElem?_eq_some_iff.mp he).1
  have hinc := hkeep.included
  rw [hkeep.entries _ hk (by omega)]
  exact h k e he (by omega)

theorem Stored.step {c : Nat} (h : nd.Stored c) (hlogs : nd.Logs nd')
    (hkeep : Raft.Keeps nd.rf nd'.rf c) : nd'.Stored c := by
  refine ⟨hkeep.last, ?_⟩
  intro i hi hic
  have hinc := hkeep.included
  exact secured_step (h.held i (by omega) hic) hlogs (hkeep.entries i hi hic)

theorem Acks.step (h : nd.Acks body) (hlogs : nd.Logs nd')
    (hkeep : ∀ c, body.acked? = some c → Raft.Keeps nd.rf nd'.rf c) : nd'.Acks body := by
  cases body with
  | appendServing args reply wait =>
    intro hsucc
    obtain ⟨hmat, hsto⟩ := h hsucc
    have hk := hkeep (args.prevLogIndex + args.entries.length) (by simp [acked?, hsucc])
    refine ⟨hmat.step hk, ?_⟩
    cases wait with
    | raftState id logCount => exact Covers.step hsto hlogs hk
    | _ => exact Stored.step hsto hlogs hk
  | appendReturning args reply =>
    intro hsucc
    obtain ⟨hmat, hsto⟩ := h hsucc
    have hk := hkeep (args.prevLogIndex + args.entries.length) (by simp [acked?, hsucc])
    exact ⟨hmat.step hk, hsto.step hlogs hk⟩
  | _ => trivial

theorem Acks.returning {reply : AppendEntriesReply} {wait : Wait}
    (h : nd.Acks (.appendServing args reply wait)) (hover : nd.waitOver wait = true) :
    nd.Acks (.appendReturning args reply) := by
  intro hsucc
  obtain ⟨hmat, hsto⟩ := h hsucc
  refine ⟨hmat, ?_⟩
  cases wait with
  | raftState id logCount => exact ⟨hsto.le, fun i hi hic => hsto.secured hover hi hic⟩
  | _ => exact hsto

theorem acks_appendEntries (hsv : nd.serve (.appendRequested args) = some (nd', body))
    (hsto : nd.rf.hasAll args = true → ∀ i, nd.rf.lastIncludedIndex < i →
      i ≤ args.prevLogIndex + args.entries.length →
      nd.persister.journal.Secured (nd.Has i)) : nd'.Acks body := by
  have hlogs := logs_serve hsv
  obtain ⟨hnd, hbody⟩ : nd' = (nd.finishAppend (nd.rf.appendEntries args).1 args
      (nd.rf.appendEntries args).2.1 (nd.rf.appendEntries args).2.2).1 ∧
      body = (nd.finishAppend (nd.rf.appendEntries args).1 args
        (nd.rf.appendEntries args).2.1 (nd.rf.appendEntries args).2.2).2 := by
    cases serves hsv
    exact ⟨rfl, rfl⟩
  have hrf : nd'.rf = (nd.rf.appendEntries args).1 := by rw [hnd, finishAppend_rf]
  have hmat : (nd.rf.appendEntries args).2.1.success = true → nd'.Matched args := by
    intro hsucc k e he _
    rw [hrf]
    exact (appendEntries_success hsucc).1.terms k e he
  have hlast : (nd.rf.appendEntries args).2.1.success = true →
      args.prevLogIndex + args.entries.length ≤ nd'.rf.getLastLogIndex := by
    intro hsucc
    have := (appendEntries_success hsucc).1.last
    rw [hrf]
    omega
  -- nothing changed, so what was stored is stored
  have hsame : (nd.rf.appendEntries args).2.2 ≠ .raftState →
      (nd.rf.appendEntries args).2.1.success = true →
      nd'.Stored (args.prevLogIndex + args.entries.length) := by
    intro hne hsucc
    rcases (appendEntries_success hsucc).2 with heq | ⟨_, hall, hlog⟩
    · exact absurd heq hne
    · rw [← hrf] at hlog
      refine ⟨hlast hsucc, fun i hi hic => ?_⟩
      rw [hlog.index] at hi
      exact secured_step (hsto hall i hi hic) hlogs (hlog.entryAt i)
  cases henq : (nd.rf.appendEntries args).2.2 with
  | raftState =>
    rw [henq] at hbody hnd
    rw [hbody]
    intro hsucc
    refine ⟨hmat hsucc, Covers.mono ?_ (hlast hsucc)⟩
    have hadds : nd.persister.Adds nd'.persister ⟨nd'.rf.raftState, [], false⟩ := by
      rw [hrf, hnd]
      exact ⟨rfl, rfl, rfl⟩
    exact covers_new hadds.journal
  | _ =>
    rw [henq] at hbody
    rw [hbody]
    exact fun hsucc => ⟨hmat hsucc, hsame (by rw [henq]; simp) hsucc⟩

def storedUpTo [DecidableEq Cmd] (nd : Node n Cmd) (c : Nat) : Bool :=
  (List.range (c + 1)).all fun i => i ≤ nd.rf.lastIncludedIndex ||
    nd.persister.journal.secures fun st => st.entryAt i = nd.rf.entryAt i

theorem secured_of_storedUpTo [DecidableEq Cmd] {c i : Nat} (h : nd.storedUpTo c = true)
    (hi : nd.rf.lastIncludedIndex < i) (hic : i ≤ c) : nd.persister.journal.Secured (nd.Has i) := by
  have hall := all_eq_true.mp h i (mem_range.mpr (by omega))
  rw [Bool.or_eq_true, decide_eq_true_eq] at hall
  have hsecu := Lib.Journal.secured_of_secures (hall.resolve_left (by omega))
  exact hsecu.mono fun st hst => (decide_eq_true_eq.mp hst : st.entryAt i = nd.rf.entryAt i)

def Included (nd : Node n Cmd) : Prop :=
  nd.rf.lastIncludedIndex = 0 ∨ nd.persister.journal.Secured fun st =>
    st.lastIncludedIndex = nd.rf.lastIncludedIndex

theorem Included.step (h : nd.Included) (hlogs : nd.Logs nd')
    (hix : nd'.rf.lastIncludedIndex = nd.rf.lastIncludedIndex) : nd'.Included := by
  rcases h with hzero | hsec
  · exact .inl (hix.trans hzero)
  · right
    rw [hix]
    rcases hlogs with heq | ⟨done, heq⟩ | ⟨id, heq⟩
    · rw [heq]
      exact hsec
    · rw [heq]
      exact hsec.push hix done
    · rw [heq]
      exact hsec.fire id

theorem included_make (p : Fin n) {ps : Persister n Cmd} (hsav : ps.saves = []) :
    (make p ps).Included := by
  have hix := (make_log p hsav).2
  cases hfound : ps.found with
  | none =>
    left
    rw [hix, hfound]
    rfl
  | some st =>
    right
    change ps.journal.Secured _
    rw [Persister.journal_of_nil hsav, hfound]
    apply Lib.Journal.secured_base
    rw [hix, hfound]
    rfl

theorem included_of_push
    (h : nd'.persister.journal = nd.persister.journal.push nd'.rf.raftState true) :
    nd'.Included := by
  right
  rw [h]
  exact Lib.Journal.secured_push_done rfl

end Node

namespace Cluster

variable {nd : Node n Cmd} {i : Nat}

variable {s s' : Cluster n Cmd}

def acked (s : Cluster n Cmd) (p : Fin n) : List Nat :=
  s.calls.filterMap fun c => if c.dst = p then c.body.acked? else none

structure Honest (s : Cluster n Cmd) : Prop where
  included : ∀ p, (s.node p).Included
  acks : ∀ c ∈ s.calls, (s.node c.dst).Acks c.body

theorem Honest.le_last (h : s.Honest) {p : Fin n} {k : Nat} (hin : k ∈ s.acked p) :
    k ≤ (s.node p).rf.getLastLogIndex := by
  obtain ⟨c, hc, hif⟩ := mem_filterMap.mp hin
  split_ifs at hif with hdst
  rw [← hdst]
  exact (h.acks c hc).le_last hif

theorem Honest.update (h : s.Honest) {q : Fin n} (hnode : s'.node = Function.update s.node q nd)
    (hinc : nd.Included) (hlogs : (s.node q).Logs nd)
    (hkeep : ∀ k ∈ s.acked q, Raft.Keeps (s.node q).rf nd.rf k)
    (hcs : ∀ d ∈ s'.calls, d ∈ s.calls ∨ d.body.acked? = none ∨ (d.dst = q ∧ nd.Acks d.body)) :
    s'.Honest := by
  refine ⟨?_, ?_⟩
  · exact forall_node (P := fun _ nd => nd.Included) hnode hinc fun p _ => h.included p
  · intro d hd
    rcases hcs d hd with hold | hnone | ⟨hq, hacks⟩
    · have hacks := h.acks d hold
      rw [hnode]
      by_cases hq : d.dst = q
      · rw [hq] at hacks ⊢
        rw [update_self]
        apply hacks.step hlogs
        intro k hk
        apply hkeep
        exact mem_filterMap.mpr ⟨d, hold, by rw [if_pos hq, hk]⟩
      · rw [update_of_ne hq]
        exact hacks
    · exact acks_of_none hnone
    · rw [hq, hnode, update_self]
      exact hacks

theorem Honest.keep (h : s.Honest) {q : Fin n} (hlog : Raft.SameLog (s.node q).rf nd.rf) :
    ∀ k ∈ s.acked q, Raft.Keeps (s.node q).rf nd.rf k :=
  fun _ hk => hlog.keeps (h.le_last hk)

theorem Honest.run (h : s.Honest) {p : Fin n} {sec : Section Cmd}
    (hstep : s.step (.run p sec) = some s') : s'.Honest := by
  obtain ⟨nd, body, hact, hnode, hcs⟩ := step_run hstep
  have hlogs := logs_act hact
  have hspawn : ∀ d ∈ s'.calls, d ∈ s.calls ∨ d.body.acked? = none ∨
      (d.dst = p ∧ nd.Acks d.body) := by
    intro d hd
    rw [hcs, mem_append] at hd
    refine hd.imp_right fun hnew => .inl ?_
    rw [(mem_spawn hnew).2.2.2] at hact
    rcases act_some hact with ⟨args, hbody⟩ | hbody <;> rw [hbody] <;> rfl
  have hsame := sameLog_act hact
  cases acts hact with
  | start command rf hrf =>
    exact h.update hnode ((h.included p).step hlogs (start_lastIncludedIndex hrf)) hlogs
      (fun k hk => keeps_start hrf (h.le_last hk)) hspawn
  | snapshot index data rf taken hrf =>
    refine h.update hnode ?_ hlogs (fun k hk => keeps_snapshot hrf (h.le_last hk)) hspawn
    rcases snapshot_cases hrf with ⟨rfl, rfl⟩ | ⟨rfl, _⟩
    · exact h.included p
    · have hadds : (s.node p).persister.Adds ((s.node p).persister.save rf.raftState data)
          ⟨rf.raftState, data, true⟩ := ⟨rfl, rfl, rfl⟩
      exact included_of_push hadds.journal
  | _ =>
    have hlog := hsame (by simp) (by simp)
    exact h.update hnode ((h.included p).step hlogs hlog.index) hlogs (h.keep hlog) hspawn

variable [DecidableEq Cmd]

/-- `AppendEntries` drops no entry that a handler at work is going to report, and neither
does `InstallSnapshot`; a request that brings nothing new is handled once the disk holds
its entries. -/
def acksStored (s : Cluster n Cmd) : Action n Cmd → Bool
  | .serve i => (s.calls[i]?).all fun c =>
    match c.body with
    | .appendRequested args =>
      (((s.node c.dst).rf.conflict args).all fun j => (s.acked c.dst).all (· < j)) &&
        (!(s.node c.dst).rf.hasAll args ||
          (s.node c.dst).storedUpTo (args.prevLogIndex + args.entries.length))
    | .installRequested args =>
      !(s.node c.dst).rf.accepts args || (s.node c.dst).rf.agrees args ||
        (s.acked c.dst).all (· ≤ args.lastIncludedIndex)
    | _ => true
  | _ => true

theorem Honest.appendEntries (h : s.Honest) {c : Call n Cmd} {args : AppendEntriesArgs n Cmd}
    (hc : s.calls[i]? = some c) (hbody : c.body = .appendRequested args)
    (hok : s.acksStored (.serve i) = true) {body : CallBody n Cmd}
    (hsv : (s.node c.dst).serve c.body = some (nd, body))
    (hnode : s'.node = Function.update s.node c.dst nd)
    (hcs : s'.calls = s.calls.set i { c with body := body }) : s'.Honest := by
  have hlogs := logs_serve hsv
  rw [hbody] at hsv
  have hlow : ∀ j, (s.node c.dst).rf.conflict args = some j → ∀ k ∈ s.acked c.dst, k < j := by
    intro j hj
    have hok' := hok
    simp only [acksStored, hc, hbody, hj, Option.all_some, Bool.and_eq_true] at hok'
    simpa using hok'.1
  have hsto : (s.node c.dst).rf.hasAll args = true →
      (s.node c.dst).storedUpTo (args.prevLogIndex + args.entries.length) = true := by
    intro hall
    have hok' := hok
    simp only [acksStored, hc, hbody, hall, Option.all_some, Bool.and_eq_true] at hok'
    simpa using hok'.2
  have hrf : nd.rf = ((s.node c.dst).rf.appendEntries args).1 := by
    cases serves hsv
    exact finishAppend_rf ..
  refine h.update hnode ?_ hlogs ?_ ?_
  · apply (h.included c.dst).step hlogs
    rw [hrf]
    exact ((s.node c.dst).rf.appendEntries_included args).1
  · intro k hk
    rw [hrf]
    exact keeps_appendEntries (h.le_last hk) fun j hj => hlow j hj k hk
  · intro d hd
    rw [hcs] at hd
    rcases mem_or_eq_of_mem_set hd with hd | rfl
    · exact .inl hd
    · refine .inr (.inr ⟨rfl, acks_appendEntries hsv ?_⟩)
      exact fun hall i hi hic => secured_of_storedUpTo (hsto hall) hi hic

theorem Honest.installSnapshot (h : s.Honest) {c : Call n Cmd} {args : InstallSnapshotArgs n}
    (hc : s.calls[i]? = some c) (hbody : c.body = .installRequested args)
    (hok : s.acksStored (.serve i) = true) {body : CallBody n Cmd}
    (hsv : (s.node c.dst).serve c.body = some (nd, body))
    (hnode : s'.node = Function.update s.node c.dst nd)
    (hcs : s'.calls = s.calls.set i { c with body := body }) : s'.Honest := by
  have hlogs := logs_serve hsv
  rw [hbody] at hsv
  have hcov : (s.node c.dst).rf.accepts args = true → (s.node c.dst).rf.agrees args = true ∨
        ∀ k ∈ s.acked c.dst, k ≤ args.lastIncludedIndex := by
    intro hacc
    simpa [acksStored, hc, hbody, hacc] using hok
  obtain ⟨_, hcases⟩ := serve_installRequested_cases hsv
  refine h.update hnode ?_ hlogs ?_ ?_
  · rcases hcases with ⟨_, ⟨term, hrf⟩, _⟩ | ⟨_, _, hjou, _⟩
    · apply (h.included c.dst).step hlogs
      rw [hrf]
      exact ((s.node c.dst).rf.sameLog_catchUp term).index
    · exact included_of_push hjou
  · intro k hk
    rcases hcases with ⟨_, ⟨term, hrf⟩, _⟩ | ⟨hacc, hrf, _⟩
    · rw [hrf]
      exact ((s.node c.dst).rf.sameLog_catchUp term).keeps (h.le_last hk)
    · rw [hrf]
      exact keeps_installSnapshot hacc (h.le_last hk) ((hcov hacc).imp_right fun hall => hall k hk)
  · intro d hd
    rw [hcs] at hd
    rcases mem_or_eq_of_mem_set hd with hd | rfl
    · exact .inl hd
    · refine .inr (.inl ?_)
      rcases hcases with ⟨_, _, _, reply, rfl⟩ | ⟨_, _, _, reply, rfl⟩ <;> rfl

theorem Honest.serve (h : s.Honest) (hok : s.acksStored (.serve i) = true)
    (hstep : s.step (.serve i) = some s') : s'.Honest := by
  obtain ⟨c, nd, body, hc, hsv, hnode, hcs⟩ := step_serve hstep
  by_cases happ : ∃ args, c.body = .appendRequested args
  · obtain ⟨args, hbody⟩ := happ
    exact h.appendEntries hc hbody hok hsv hnode hcs
  by_cases hins : ∃ args, c.body = .installRequested args
  · obtain ⟨args, hbody⟩ := hins
    exact h.installSnapshot hc hbody hok hsv hnode hcs
  push Not at happ hins
  have hlogs := logs_serve hsv
  have hlog := sameLog_serve hsv happ hins
  refine h.update hnode ((h.included c.dst).step hlogs hlog.index) hlogs (h.keep hlog) ?_
  intro d hd
  rw [hcs] at hd
  rcases mem_or_eq_of_mem_set hd with hd | rfl
  · exact .inl hd
  · right
    have hacks := h.acks c (mem_of_getElem? hc)
    have hkeep : ∀ k, c.body.acked? = some k → Raft.Keeps (s.node c.dst).rf nd.rf k :=
      fun k hk => hlog.keeps (hacks.le_last hk)
    cases hbody : c.body with
    | appendServing args reply wait =>
      rw [hbody] at hsv hacks
      cases serves hsv with
      | appendServing _ _ _ hover =>
        refine .inr ⟨rfl, (hacks.returning hover).step hlogs fun k hk => hkeep k ?_⟩
        rw [hbody]
        exact hk
    | appendRequested args => exact absurd hbody (happ args)
    | installRequested args => exact absurd hbody (hins args)
    | _ =>
      rw [hbody] at hsv
      cases serve_follows hsv <;> exact .inl rfl

omit [DecidableEq Cmd] in
theorem Honest.resume (h : s.Honest) (hstep : s.step (.resume i) = some s') : s'.Honest := by
  obtain ⟨c, nd, body, hc, _, hres, hnode, hcs⟩ := step_resume hstep
  have hlogs := logs_resume hres
  have hlog := sameLog_resume hres
  refine h.update hnode ((h.included c.src).step hlogs hlog.index) hlogs (h.keep hlog) ?_
  intro d hd
  rw [hcs] at hd
  rcases mem_setCall hd with hd | ⟨b, rfl, rfl⟩
  · exact .inl hd
  · right
    left
    rcases (resume_some hres).2 with ⟨_, rfl⟩ | ⟨_, rfl⟩ <;> rfl

omit [DecidableEq Cmd] in
theorem Honest.crash (h : s.Honest) {p : Fin n} {id : Option Nat}
    (hstep : s.step (.crash p id) = some s') : s'.Honest := by
  obtain ⟨ps, hps, hnode, hcs⟩ := step_crash hstep
  refine ⟨?_, ?_⟩
  · exact forall_node (P := fun _ nd => nd.Included) hnode
      (included_make p (Persister.afterCrash_saves hps)) fun q _ => h.included q
  · intro d hd
    rw [hcs] at hd
    obtain ⟨c, hc, hsur, rfl⟩ := mem_afterCrash hd
    change (s'.node c.dst).Acks c.body
    by_cases hdst : c.dst = p
    · -- the handlers of the crashed node are gone
      apply acks_of_none
      cases hbody : c.body <;> first | rfl | simp [Call.survives, hbody, hdst] at hsur
    · rw [hnode, update_of_ne hdst]
      exact h.acks c hc

theorem honest_of_reachable
    (h : (system n Cmd).Reachable (fun s a => s.acksStored a = true) s) : s.Honest := by
  apply h.invariant
  · rintro _ rfl
    exact ⟨fun p => included_make p rfl, nofun⟩
  · intro t a u ht hok hstep
    cases a with
    | run p sec => exact ht.run hstep
    | serve i => exact ht.serve hok hstep
    | resume i => exact ht.resume hstep
    | crash p id => exact ht.crash hstep

end Cluster

end OrbisKV
