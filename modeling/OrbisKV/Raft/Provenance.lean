import OrbisKV.Raft.ApplyStream
/-!
# Where commands come from

No section makes a command up: what the logs, the files, the messages and the apply
channels of a cluster hold was given to `Start` at some node.
-/

namespace OrbisKV

open List Raft

variable {n : Nat} {Cmd : Type} {P : Cmd → Prop}

def LogEntry.From (P : Cmd → Prop) (e : LogEntry Cmd) : Prop := ∀ c ∈ e.command, P c

def RaftLog.From (P : Cmd → Prop) (log : RaftLog Cmd) : Prop := ∀ e ∈ log.toList, e.From P

def ApplyMsg.From (P : Cmd → Prop) : ApplyMsg Cmd → Prop
  | .command cmd _ => ∀ c ∈ cmd, P c
  | .snapshot .. => True

def CallBody.From (P : Cmd → Prop) : CallBody n Cmd → Prop
  | .appendRequested args => ∀ e ∈ args.entries, e.From P
  | .installSending _ _ msg => msg.From P
  | _ => True

structure Node.From (P : Cmd → Prop) (nd : Node n Cmd) : Prop where
  log : nd.rf.log.From P
  found : ∀ st, nd.persister.found = some st → st.log.From P
  saves : ∀ r ∈ nd.persister.saves, r.state.log.From P
  unsent : ∀ msg ∈ nd.unsent, msg.From P
  applied : ∀ msg ∈ nd.applied, msg.From P

structure Cluster.From (P : Cmd → Prop) (s : Cluster n Cmd) : Prop where
  nodes : ∀ p, (s.node p).From P
  calls : ∀ c ∈ s.calls, c.body.From P

section Mono

variable {Q : Cmd → Prop} (hPQ : ∀ c, P c → Q c)
include hPQ

theorem RaftLog.From.mono {log : RaftLog Cmd} (h : log.From P) : log.From Q :=
  fun e he c hc => hPQ c (h e he c hc)

theorem ApplyMsg.From.mono {msg : ApplyMsg Cmd} (h : msg.From P) : msg.From Q := by
  cases msg with
  | command cmd index => exact fun c hc => hPQ c (h c hc)
  | snapshot data term index => trivial

theorem CallBody.From.mono {body : CallBody n Cmd} (h : body.From P) : body.From Q := by
  cases body with
  | appendRequested args => exact fun e he c hc => hPQ c (h e he c hc)
  | installSending args reply msg => exact ApplyMsg.From.mono hPQ h
  | _ => trivial

theorem Cluster.From.mono {s : Cluster n Cmd} (h : s.From P) : s.From Q where
  nodes p :=
    { log := (h.nodes p).log.mono hPQ
      found := fun st hst => ((h.nodes p).found st hst).mono hPQ
      saves := fun r hr => ((h.nodes p).saves r hr).mono hPQ
      unsent := fun msg hmsg => ((h.nodes p).unsent msg hmsg).mono hPQ
      applied := fun msg hmsg => ((h.nodes p).applied msg hmsg).mono hPQ }
  calls c hc := (h.calls c hc).mono hPQ

end Mono

namespace RaftLog

variable {log : RaftLog Cmd}

theorem from_reset (term : Nat) : (reset term : RaftLog Cmd).From P := by
  intro e he
  rw [toList, reset_entries, mem_singleton] at he
  subst he
  rintro c ⟨⟩

theorem From.append (h : log.From P) {es : List (LogEntry Cmd)} (hes : ∀ e ∈ es, e.From P) :
    (log.append es).From P := by
  intro e he
  rw [toList, append_entries, ← cons_append] at he
  rcases mem_append.mp he with hold | hnew
  · exact h e hold
  · exact hes e hnew

theorem From.cut (h : log.From P) (k : Nat) : (log.cut k).From P := by
  intro e he
  rcases mem_cons.mp he with rfl | he
  · exact h _ mem_cons_self
  · exact h e (mem_cons_of_mem _ (mem_of_mem_take he))

theorem From.rebase (h : log.From P) (term offset : Nat) : (log.rebase term offset).From P := by
  intro e he
  rcases mem_cons.mp he with rfl | he
  · rintro c ⟨⟩
  · exact h e (mem_cons_of_mem _ (mem_of_mem_drop he))

theorem From.get? (h : log.From P) {k : Nat} {e : LogEntry Cmd} (he : log.get? k = some e) :
    e.From P :=
  h e (mem_of_getElem? he)

end RaftLog

namespace Raft

variable {rf : Raft n Cmd}

section

variable (h : rf.log.From P)

include h

theorem from_mergeEntries (index : Nat) {es : List (LogEntry Cmd)}
    (hes : ∀ e ∈ es, e.From P) : (rf.mergeEntries index es).1.From P := by
  induction es generalizing index with
  | nil => exact h
  | cons e es ih =>
    unfold mergeEntries
    split
    · exact h.append hes
    · split
      · exact (h.cut _).append hes
      · exact ih (index + 1) fun e' he' => hes e' (mem_cons_of_mem _ he')

theorem from_appendEntries {args : AppendEntriesArgs n Cmd}
    (hargs : ∀ e ∈ args.entries, e.From P) : (rf.appendEntries args).1.log.From P := by
  have hacc : (rf.acceptTerm args).log.From P := by
    rw [acceptTerm_log]
    exact h
  rcases rf.appendEntries_cases args with
    ⟨_, heq⟩ | ⟨_, _, _, heq⟩ | ⟨_, _, log, changed, hmg, heq⟩
  · rw [heq]
    exact h
  · rw [heq]
    exact hacc
  · obtain ⟨k, hk⟩ := learnCommit_eq { rf.acceptTerm args with log := log } args.leaderCommit
    rw [heq, hk]
    have hmer := from_mergeEntries hacc (args.prevLogIndex + 1) hargs
    rwa [hmg] at hmer

theorem from_snapshot {index : Nat} {rf' : Raft n Cmd} {taken : Bool}
    (hsnap : rf.snapshot index = some (rf', taken)) : rf'.log.From P := by
  unfold snapshot at hsnap
  split at hsnap
  · cases hsnap
    exact h
  · split at hsnap
    · cases hsnap
      exact h
    · dsimp only at hsnap
      split at hsnap
      · cases hsnap
      · cases hsnap
        exact h.rebase _ _

theorem from_install (args : InstallSnapshotArgs n) : (rf.install args).log.From P := by
  change (rf.logAfterInstall args).From P
  unfold logAfterInstall
  split
  · exact h.rebase _ _
  · exact RaftLog.from_reset _

theorem from_installSnapshot (args : InstallSnapshotArgs n) :
    (rf.installSnapshot args).1.log.From P := by
  have hcatch : ∀ term, (rf.catchUp term).log.From P := by
    intro term
    rw [(rf.sameLog_catchUp term).log]
    exact h
  rcases rf.installSnapshot_cases args with ⟨_, _, term, heq⟩ | ⟨_, _, heq⟩
  · rw [heq]
    exact hcatch term
  · rw [heq]
    exact from_install (hcatch args.term) args

end

theorem from_collect (fuel : Nat) {rf : Raft n Cmd} (h : rf.log.From P) :
    ∀ msg ∈ (collect fuel rf).2, msg.From P := by
  rintro (⟨command, index⟩ | _) hmsg
  · obtain ⟨_, _, _, entry, hent, rfl⟩ := mem_collect hmsg
    unfold entryAt at hent
    split_ifs at hent
    exact h.get? hent
  · trivial

theorem from_buildRequest (h : rf.log.From P) {server : Fin n} {data : Bytes} {rf' : Raft n Cmd}
    {request : Option (Request n Cmd)} (hbd : rf.buildRequest server data = some (rf', request)) :
    ∀ body ∈ Node.requestBody request, body.From P := by
  obtain ⟨_, rfl | ⟨_, _, rfl⟩ | ⟨_, _, _, rfl⟩⟩ := buildRequest_cases hbd
  · rintro body ⟨⟩
  · rintro body ⟨⟩
    trivial
  · rintro body ⟨⟩
    exact fun e he => h e (mem_of_mem_drop he)

end Raft

namespace Node

variable {nd nd' : Node n Cmd} {body body' : CallBody n Cmd}

theorem From.log_of_same (h : nd.From P) (hlog : Raft.SameLog nd.rf nd'.rf) :
    nd'.rf.log.From P := by
  rw [hlog.log]
  exact h.log

theorem From.of_same (h : nd.From P) (hlog : nd'.rf.log.From P)
    (hsav : nd.persister.SameSaves nd'.persister) (huns : nd'.unsent = nd.unsent)
    (happ : nd'.applied = nd.applied) : nd'.From P where
  log := hlog
  found := by
    rw [hsav.found]
    exact h.found
  saves := by
    rw [hsav.saves]
    exact h.saves
  unsent := by
    rw [huns]
    exact h.unsent
  applied := by
    rw [happ]
    exact h.applied

theorem From.of_adds (h : nd.From P) (hlog : nd'.rf.log.From P) {r : SaveRequest n Cmd}
    (hsav : nd.persister.Adds nd'.persister r) (hr : r.state = nd'.rf.raftState)
    (huns : nd'.unsent = nd.unsent) (happ : nd'.applied = nd.applied) : nd'.From P where
  log := hlog
  found := by
    rw [hsav.found]
    exact h.found
  saves := by
    rw [hsav.saves]
    intro r' hr'
    rcases mem_append.mp hr' with hold | hnew
    · exact h.saves r' hold
    · rw [mem_singleton.mp hnew, hr]
      exact hlog
  unsent := by
    rw [huns]
    exact h.unsent
  applied := by
    rw [happ]
    exact h.applied

theorem from_make (p : Fin n) {ps : Persister n Cmd} (hsav : ps.saves = [])
    (hfound : ∀ st, ps.found = some st → st.log.From P) : (make p ps).From P where
  log := by
    rw [(make_log p hsav).1]
    cases hst : ps.found with
    | none => exact RaftLog.from_reset 0
    | some st => exact hfound st hst
  found := hfound
  saves := by
    change ∀ r ∈ ps.saves, _
    rw [hsav]
    rintro r ⟨⟩
  unsent := by rintro msg ⟨⟩
  applied := by rintro msg ⟨⟩

section

variable (h : nd.From P)

include h

theorem from_afterCrash {id : Option Nat} {ps : Persister n Cmd}
    (hps : nd.persister.afterCrash id = some ps) : ∀ st, ps.found = some st → st.log.From P := by
  cases id with
  | none =>
    cases hps
    exact h.found
  | some id =>
    obtain ⟨r, hr, rfl⟩ := Option.map_eq_some_iff.mp hps
    rintro st ⟨⟩
    exact h.saves r (mem_of_getElem? hr)

theorem From.finishSave (id : Nat) :
    { nd with persister := nd.persister.finishSave id }.From P := by
  refine { h with saves := ?_ }
  intro r hr
  change r ∈ nd.persister.saves.modify id SaveRequest.fire at hr
  obtain ⟨j, hj, rfl⟩ := getElem_of_mem hr
  have hlt : j < nd.persister.saves.length := by simpa using hj
  have hold := h.saves nd.persister.saves[j] (getElem_mem hlt)
  rw [getElem_modify]
  split <;> exact hold

theorem From.applierCollect {body : Option (CallBody n Cmd)}
    (hact : nd.act .applierCollect = some (nd', body)) : nd'.From P := by
  have hlog := h.log_of_same (sameLog_act hact (by simp) (by simp))
  cases acts hact
  exact { h with log := hlog, unsent := from_collect _ h.log }

theorem From.applierSend {body : Option (CallBody n Cmd)}
    (hact : nd.act .applierSend = some (nd', body)) : nd'.From P := by
  cases acts hact
  rename_i msg rest huns
  have hall : ∀ m ∈ msg :: rest, m.From P := by
    rw [← huns]
    exact h.unsent
  refine { h with unsent := ?_, applied := ?_ }
  · exact fun m hm => hall m (mem_cons_of_mem _ hm)
  · intro m hm
    rcases mem_append.mp hm with hold | hnew
    · exact h.applied m hold
    · rw [mem_singleton.mp hnew]
      exact hall msg mem_cons_self

theorem From.act {sec : Section Cmd} {body : Option (CallBody n Cmd)}
    (hgiven : ∀ c, sec = .start (some c) → P c) (hact : nd.act sec = some (nd', body)) :
    nd'.From P := by
  have hlog := sameLog_act hact
  have hsav := sameSaves_act hact
  have hstill := still_act hact
  cases acts hact with
  | applierCollect => exact h.applierCollect hact
  | applierSend => exact h.applierSend hact
  | start command rf hrf =>
    unfold start at hrf
    split at hrf <;> cases hrf
    refine h.of_adds (h.log.append ?_) ⟨rfl, rfl, rfl⟩ rfl rfl rfl
    intro e he
    rw [mem_singleton.mp he]
    intro c hc
    exact hgiven c (congrArg Section.start hc)
  | snapshot index data rf taken hrf =>
    have hfrom := from_snapshot h.log hrf
    cases taken with
    | false => exact { h with log := hfrom }
    | true => exact h.of_adds hfrom ⟨rfl, rfl, rfl⟩ rfl rfl rfl
  | saveDone id => exact h.finishSave id
  | _ =>
    exact h.of_same (h.log_of_same (hlog (by simp) (by simp))) (hsav (by simp) (by simp) (by simp))
      (hstill (by simp) (by simp) (by simp)).unsent (hstill (by simp) (by simp) (by simp)).applied

theorem From.serve (hbody : body.From P)
    (hsv : nd.serve body = some (nd', body')) : nd'.From P := by
  have hstill := still_serve hsv
  have hsame := sameLog_serve hsv
  have hsav := sameSaves_serve hsv
  cases serves hsv with
  | appendRequested args =>
    have hstill := hstill (by simp) (by simp)
    have hlog := from_appendEntries h.log hbody
    rcases nd.finishAppend_saves (nd.rf.appendEntries args).1 args
      (nd.rf.appendEntries args).2.1 (nd.rf.appendEntries args).2.2 with
      ⟨_, hsav⟩ | ⟨_, hsav⟩
    · refine h.of_same ?_ hsav hstill.unsent hstill.applied
      rw [finishAppend_rf]
      exact hlog
    · refine h.of_adds ?_ hsav ?_ hstill.unsent hstill.applied
      · rw [finishAppend_rf]
        exact hlog
      · rw [finishAppend_rf]
  | installRefused args =>
    exact h.of_same (from_installSnapshot h.log args) (sameSaves_settle nd _ _) rfl rfl
  | installRequested args mid hmid =>
    subst hmid
    have hsav := sameSaves_settle nd (nd.rf.installSnapshot args).1
      (nd.rf.installSnapshot args).2.2.1
    exact h.of_adds (from_installSnapshot h.log args)
      ⟨hsav.found, hsav.snapshot, congrArg (· ++ _) hsav.saves⟩ rfl rfl rfl
  | installSending args reply msg =>
    refine { h with applied := ?_ }
    intro m hm
    rcases mem_append.mp hm with hold | hnew
    · exact h.applied m hold
    · rw [mem_singleton.mp hnew]
      exact hbody
  | _ =>
    have hstill := hstill (by simp) (by simp)
    exact h.of_same (h.log_of_same (hsame (by simp) (by simp))) (hsav (by simp) (by simp))
      hstill.unsent hstill.applied

theorem From.resume {peer : Fin n} {body' : Option (CallBody n Cmd)}
    (hres : nd.resume peer body = some (nd', body')) : nd'.From P := by
  have hstill := still_resume hres
  exact h.of_same (h.log_of_same (sameLog_resume hres)) (sameSaves_resume hres)
    hstill.unsent hstill.applied

end

theorem from_act_body {sec : Section Cmd} (hact : nd.act sec = some (nd', some body)) :
    body.From P := by
  rcases act_some hact with ⟨args, rfl⟩ | rfl <;> trivial

theorem from_serve_body (hsv : nd.serve body = some (nd', body')) : body'.From P := by
  cases serve_follows hsv <;> trivial

theorem From.resume_body (h : nd.From P) {peer : Fin n}
    (hres : nd.resume peer body = some (nd', some body')) : body'.From P := by
  obtain ⟨rfl, _⟩ := resume_some hres
  obtain ⟨rf, request, hbd, _, hreq⟩ := resume_spawned hres
  exact from_buildRequest h.log hbd body' hreq.symm

end Node

namespace Cluster

variable {s s' : Cluster n Cmd}

theorem from_boot : (boot : Cluster n Cmd).From P where
  nodes p := Node.from_make p rfl (by rintro st ⟨⟩)
  calls := by rintro c ⟨⟩

theorem From.update (h : s.From P) {q : Fin n} {nd : Node n Cmd}
    (hnode : s'.node = Function.update s.node q nd) (hnd : nd.From P) (p : Fin n) :
    (s'.node p).From P :=
  forall_node (P := fun _ nd => nd.From P) hnode hnd (fun p _ => h.nodes p) p

theorem From.step (h : s.From P) {a : Action n Cmd}
    (hgiven : ∀ p c, a = .run p (.start (some c)) → P c) (hstep : s.step a = some s') :
    s'.From P := by
  cases a with
  | run p sec =>
    obtain ⟨nd, body, hact, hnode, hcs⟩ := step_run hstep
    have hsec : ∀ c, sec = .start (some c) → P c := by
      rintro c rfl
      exact hgiven p c rfl
    refine ⟨h.update hnode ((h.nodes p).act hsec hact), ?_⟩
    rw [hcs]
    intro c hc
    rcases mem_append.mp hc with hold | hnew
    · exact h.calls c hold
    · rw [(mem_spawn hnew).2.2.2] at hact
      exact Node.from_act_body hact
  | serve i =>
    obtain ⟨c, nd, body, hc, hsv, hnode, hcs⟩ := step_serve hstep
    have hbody := h.calls c (mem_of_getElem? hc)
    refine ⟨h.update hnode ((h.nodes c.dst).serve hbody hsv), ?_⟩
    rw [hcs]
    intro d hd
    rcases mem_or_eq_of_mem_set hd with hold | rfl
    · exact h.calls d hold
    · exact Node.from_serve_body hsv
  | resume i =>
    obtain ⟨c, nd, body, hc, _, hres, hnode, hcs⟩ := step_resume hstep
    refine ⟨h.update hnode ((h.nodes c.src).resume hres), ?_⟩
    rw [hcs]
    intro d hd
    rcases mem_setCall hd with hold | ⟨b, rfl, rfl⟩
    · exact h.calls d hold
    · exact (h.nodes c.src).resume_body hres
  | crash p id =>
    obtain ⟨ps, hps, hnode, hcs⟩ := step_crash hstep
    refine ⟨h.update hnode (Node.from_make p (Persister.afterCrash_saves hps)
      (Node.from_afterCrash (h.nodes p) hps)), ?_⟩
    rw [hcs]
    intro d hd
    obtain ⟨c, hc, _, rfl⟩ := mem_afterCrash hd
    exact h.calls c hc

end Cluster

end OrbisKV
