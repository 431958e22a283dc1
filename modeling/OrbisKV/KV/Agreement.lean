import OrbisKV.KV.Image
import OrbisKV.KV.Ledger
import OrbisKV.KV.TwoPhase
/-!
# Agreement of two-phase commit

The decision record of the coordinator group is written once.
-/

namespace OrbisKV.KV

open Std KVServer List Option Store TxHandle

namespace Deployment

variable (hash : String → UInt64)

def coordinator (session : Session) : Option Int :=
  (session.handle.allGroups (session.router.resolve hash)).head?

def decisionAt (s : Deployment) (gid : Int) (txID : String) : Option TxStatus :=
  ((s.groups gid).store.getTxRecord (txDecisionPrefix ++ txID)).bind fun raw =>
    raw.toDecision?.map (·.decision)

def Coordinates (s : Deployment) (txID : String) (gid : Int) : Prop :=
  ∃ session, s.sessions txID = some session ∧ session.phase ≠ .active ∧
    coordinator hash session = some gid

def Decided (s : Deployment) (txID : String) (d : TxStatus) : Prop :=
  ∃ gid, s.Coordinates hash txID gid ∧ s.decisionAt gid txID = some d

/-- Ownership is fixed and user keys are outside the reserved names. -/
def disciplined (_ : Deployment) : Action → Prop
  | .client _ (.put key _ _) => isUserKey key = true
  | .client _ (.delete key _) => isUserKey key = true
  | .client _ (.learnHint ..) => False
  | .client _ (.moveShard ..) => False
  | .serve _ req _ _ =>
    req.Within (fun key => isUserKey key = true) fun key => isUserKey key = true
  | _ => True

def Planned (rec : PreparedTxRecord) : Prop :=
  (rec.Within fun key => isUserKey key = true) ∧ rec.participantGroupIDs ≠ []

def Backed (s : Deployment) : Message → Prop
  | .call _ (.prepareTx args) =>
    (∀ wk ∈ args.writeKeys, isUserKey wk.key = true) ∧ args.participantGroupIDs ≠ []
  | .call gid (.recordTxDecision args) => s.Coordinates hash args.txID gid
  | .call _ (.commitTx args) => s.Decided hash args.txID .committed
  | .call _ (.abortTx txID) => s.Decided hash txID .aborted
  | .call _ (.resolveTxStatus _) => True
  | .call _ _ => False
  | .reply _ (.recordTxDecision args) (.recordTxDecision .ok) =>
    s.Decided hash args.txID args.decision
  | .reply _ (.resolveTxStatus txID) (.resolveTxStatus reply) =>
    (reply.status = .committed → s.Decided hash txID .committed) ∧
      (reply.status = .aborted → s.Decided hash txID .aborted)
  | .reply _ _ _ => True
  | .decision _ txID decision =>
    (decision = "COMMITTED" → s.Decided hash txID .committed) ∧
      (decision = "ABORTED" → s.Decided hash txID .aborted)

def Allowed (s : Deployment) : Outcome → Prop
  | .commit txID writeKeys =>
    s.Decided hash txID .committed ∧ ∀ wk ∈ writeKeys, isUserKey wk.key = true
  | .abort txID => s.Decided hash txID .aborted

def participants : Phase → Option (List Int)
  | .preparing plan _ _ _ | .committing plan | .aborting plan _ _ | .returned plan _ =>
    some plan.groups
  | .rollingBack groups => some groups
  | .active | .rolledBack => none

structure Proper (txID : String) (session : Session) : Prop where
  named : session.handle.txID = txID
  user : ∀ wk ∈ session.handle.writes, isUserKey wk.key = true
  planned : ∀ groups, participants session.phase = some groups →
    groups = session.handle.allGroups (session.router.resolve hash)

structure Sound (s : Deployment) : Prop where
  groupIDs : ∀ gid, (s.groups gid).groupID = gid
  decisions : ∀ gid txID raw,
    (s.groups gid).store.getTxRecord (txDecisionPrefix ++ txID) = some raw →
      s.Coordinates hash txID gid ∧ ∃ rec, raw = .decision rec
  records : ∀ gid, (s.groups gid).Holds Planned
  commits : ∀ gid txID, (s.groups gid).hasRecord txCommitPrefix txID = true →
    s.Decided hash txID .committed
  aborts : ∀ gid txID, (s.groups gid).hasRecord txAbortPrefix txID = true →
    s.Decided hash txID .aborted
  messages : ∀ m ∈ s.network, s.Backed hash m
  clients : ∀ txID session, s.sessions txID = some session → Proper hash txID session

structure Advances (s : Deployment) (gid : Int) (kv : KVServer) : Prop where
  groupID : kv.groupID = (s.groups gid).groupID
  records : kv.Holds Planned
  kept : ∀ txID raw, (s.groups gid).store.getTxRecord (txDecisionPrefix ++ txID) = some raw →
    kv.store.getTxRecord (txDecisionPrefix ++ txID) = some raw
  decisions : ∀ txID raw, kv.store.getTxRecord (txDecisionPrefix ++ txID) = some raw →
    (s.groups gid).store.getTxRecord (txDecisionPrefix ++ txID) = some raw ∨
      s.Coordinates hash txID gid ∧ ∃ rec, raw = .decision rec
  commits : ∀ txID, kv.hasRecord txCommitPrefix txID = true →
    (s.groups gid).hasRecord txCommitPrefix txID = true ∨ s.Decided hash txID .committed
  aborts : ∀ txID, kv.hasRecord txAbortPrefix txID = true →
    (s.groups gid).hasRecord txAbortPrefix txID = true ∨ s.Decided hash txID .aborted

structure Grows (s t : Deployment) : Prop where
  sessions : ∀ txID session, s.sessions txID = some session → session.phase ≠ .active →
    ∃ session', t.sessions txID = some session' ∧ session'.phase ≠ .active ∧
      session'.handle = session.handle ∧ session'.router = session.router
  decisions : ∀ gid txID d, s.decisionAt gid txID = some d → t.decisionAt gid txID = some d

section

variable {hash} {s t : Deployment}
  {txID : String} {gid : Int} {sent : List Message} {kv : KVServer} {session : Session}
  {phase : Phase}

theorem Coordinates.mono (h : s.Coordinates hash txID gid) (hg : Grows s t) :
    t.Coordinates hash txID gid := by
  obtain ⟨session, hses, hph, hco⟩ := h
  obtain ⟨session', hses', hph', hhan, hrou⟩ := hg.sessions txID session hses hph
  refine ⟨session', hses', hph', ?_⟩
  rw [coordinator, hhan, hrou]
  exact hco

theorem Decided.mono {d : TxStatus} (h : s.Decided hash txID d) (hg : Grows s t) :
    t.Decided hash txID d := by
  obtain ⟨gid, hco, hdecis⟩ := h
  exact ⟨gid, hco.mono hg, hg.decisions gid txID d hdecis⟩

theorem Backed.mono {m : Message} (h : s.Backed hash m) (hg : Grows s t) : t.Backed hash m := by
  unfold Backed at h ⊢
  split at h
  · exact h
  · exact h.mono hg
  · exact h.mono hg
  · exact h.mono hg
  · trivial
  · exact h
  · exact h.mono hg
  · exact ⟨fun hs => (h.1 hs).mono hg, fun hs => (h.2 hs).mono hg⟩
  · trivial
  · exact ⟨fun hs => (h.1 hs).mono hg, fun hs => (h.2 hs).mono hg⟩

theorem Coordinates.unique {gid' : Int} (h : s.Coordinates hash txID gid)
    (h' : s.Coordinates hash txID gid') : gid = gid' := by
  obtain ⟨session, hses, -, hco⟩ := h
  obtain ⟨session', hses', -, hco'⟩ := h'
  rw [hses] at hses'
  cases hses'
  rw [hco] at hco'
  exact Option.some.inj hco'

theorem Decided.unique {d d' : TxStatus} (h : s.Decided hash txID d)
    (h' : s.Decided hash txID d') : d = d' := by
  obtain ⟨gid, hco, hdecis⟩ := h
  obtain ⟨gid', hco', hdecis'⟩ := h'
  rw [hco.unique hco', hdecis'] at hdecis
  exact (Option.some.inj hdecis).symm

theorem grows_setSession {session' : Session}
    (h : ∀ session, s.sessions txID = some session → session.phase ≠ .active →
      session'.phase ≠ .active ∧ session'.handle = session.handle ∧
        session'.router = session.router) : Grows s (s.setSession txID session' sent) := by
  refine ⟨fun id session hses hph => ?_, fun _ _ _ hd => hd⟩
  by_cases hid : id = txID
  · subst hid
    exact ⟨session', if_pos rfl, h session hses hph⟩
  · exact ⟨session, (if_neg hid).trans hses, hph, rfl, rfl⟩

theorem Sound.advances_of_same (h : s.Sound hash) (hgrp : kv.groupID = (s.groups gid).groupID)
    (htx : kv.txMgr = (s.groups gid).txMgr)
    (hrec : ∀ x, kv.store.getTxRecord x = (s.groups gid).store.getTxRecord x) :
    s.Advances hash gid kv := by
  refine ⟨hgrp, ⟨?_, ?_⟩, ?_, ?_, ?_, ?_⟩
  · rw [htx]
    exact (h.records gid).cached
  · intro txID rec hdisk
    rw [diskRecord, hrec] at hdisk
    exact (h.records gid).stored txID rec hdisk
  · intro txID raw hraw
    rwa [hrec]
  · intro txID raw hraw
    rw [hrec] at hraw
    exact .inl hraw
  · intro txID hmark
    rw [hasRecord, hrec] at hmark
    exact .inl hmark
  · intro txID hmark
    rw [hasRecord, hrec] at hmark
    exact .inl hmark

theorem Sound.grow (h : s.Sound hash) (hg : Grows s t)
    (ha : ∀ gid, s.Advances hash gid (t.groups gid)) (hnetw : t.network = sent ++ s.network)
    (hsent : ∀ m ∈ sent, t.Backed hash m)
    (hcli : ∀ id session, t.sessions id = some session → Proper hash id session) :
    t.Sound hash := by
  refine ⟨fun g => (ha g).groupID.trans (h.groupIDs g), fun g id raw hraw => ?_,
    fun g => (ha g).records, fun g id hmark => ?_, fun g id hmark => ?_, fun m hm => ?_, hcli⟩
  · rcases (ha g).decisions id raw hraw with hold | ⟨hco, hrec⟩
    · obtain ⟨hco, hrec⟩ := h.decisions g id raw hold
      exact ⟨hco.mono hg, hrec⟩
    · exact ⟨hco.mono hg, hrec⟩
  · rcases (ha g).commits id hmark with hold | hdeci
    · exact (h.commits g id hold).mono hg
    · exact hdeci.mono hg
  · rcases (ha g).aborts id hmark with hold | hdeci
    · exact (h.aborts g id hold).mono hg
    · exact hdeci.mono hg
  · rw [hnetw] at hm
    rcases mem_append.mp hm with hm | hm
    · exact hsent m hm
    · exact (h.messages m hm).mono hg

theorem Sound.setSession (h : s.Sound hash) {session' : Session}
    (hg : Grows s (s.setSession txID session' sent)) (hpro : Proper hash txID session')
    (hsent : ∀ m ∈ sent, (s.setSession txID session' sent).Backed hash m) :
    (s.setSession txID session' sent).Sound hash := by
  refine h.grow hg (fun gid => h.advances_of_same rfl rfl fun _ => rfl) rfl hsent ?_
  intro id session hses
  by_cases hid : id = txID
  · subst hid
    cases (if_pos rfl).symm.trans hses
    exact hpro
  · exact h.clients id session ((if_neg hid).symm.trans hses)

theorem grows_send (sent : List Message) : Grows s (s.send sent) :=
  ⟨fun _ session hses hph => ⟨session, hses, hph, rfl, rfl⟩, fun _ _ _ hd => hd⟩

theorem Sound.send (h : s.Sound hash) (hsent : ∀ m ∈ sent, s.Backed hash m) :
    (s.send sent).Sound hash :=
  h.grow (grows_send sent) (fun _ => h.advances_of_same rfl rfl fun _ => rfl) rfl
    (fun m hm => (hsent m hm).mono (grows_send sent)) h.clients

theorem setGroup_groups (gid : Int) (kv : KVServer) (sent : List Message) (g : Int) :
    (s.setGroup gid kv sent).groups g = if g = gid then kv else s.groups g := rfl

theorem grows_setGroup (hkept : ∀ txID raw,
      (s.groups gid).store.getTxRecord (txDecisionPrefix ++ txID) = some raw →
        kv.store.getTxRecord (txDecisionPrefix ++ txID) = some raw) :
    Grows s (s.setGroup gid kv sent) := by
  refine ⟨fun _ session hses hph => ⟨session, hses, hph, rfl, rfl⟩, ?_⟩
  intro g txID d hd
  rw [decisionAt, setGroup_groups]
  split
  · rename_i hgid
    subst hgid
    obtain ⟨raw, hraw, hdec⟩ := bind_eq_some_iff.mp hd
    rw [hkept txID raw hraw]
    exact hdec
  · exact hd

theorem Sound.setGroup (h : s.Sound hash) (ha : s.Advances hash gid kv)
    (hsent : ∀ m ∈ sent, (s.setGroup gid kv sent).Backed hash m) :
    (s.setGroup gid kv sent).Sound hash := by
  refine h.grow (grows_setGroup ha.kept) (fun g => ?_) rfl hsent h.clients
  rw [setGroup_groups]
  split
  · rename_i hgid
    rw [hgid]
    exact ha
  · exact h.advances_of_same rfl rfl fun _ => rfl

theorem Sound.decided_of_record (h : s.Sound hash) {d : TxDecisionRecord}
    (hd : ((s.groups gid).store.getTxRecord (txDecisionPrefix ++ txID)).bind
      Document.toDecision? = some d) : s.Decided hash txID d.decision := by
  obtain ⟨raw, hraw, hdec⟩ := bind_eq_some_iff.mp hd
  refine ⟨gid, (h.decisions gid txID raw hraw).1, ?_⟩
  rw [decisionAt, hraw, bind_some, hdec]
  rfl

theorem Sound.answers (h : s.Sound hash) {answers : DecisionAnswers} (forward : Bool)
    (hbacks : s.backs answers = true) (kv : KVServer) (hsto : kv.store = (s.groups gid).store) :
    kv.Answers Planned (s.Allowed hash) (answers.net forward) := by
  intro rec hrec
  have hquery : ∀ d, d = .committed ∨ d = .aborted →
      kv.queryCoordinatorDecision (answers.net forward) rec = d → s.Decided hash rec.txID d := by
    intro d hd hq
    unfold queryCoordinatorDecision at hq
    split at hq
    · cases hrecord : (kv.store.getTxRecord (txDecisionPrefix ++ rec.txID)).bind
          Document.toDecision? with
      | none =>
        rw [hrecord] at hq
        rcases hd with rfl | rfl <;> cases hq
      | some decisionRec =>
        rw [hrecord] at hq
        rw [hsto] at hrecord
        rw [← hq]
        exact h.decided_of_record hrecord
    · cases hnet : (answers.net forward).queryTxDecision rec.coordinatorGroupID rec.txID with
      | none =>
        rw [hnet] at hq
        rcases hd with rfl | rfl <;> cases hq
      | some decision =>
        rw [hnet] at hq
        obtain ⟨a, hfind, rfl⟩ := map_eq_some_iff.mp hnet
        have hmem := mem_of_find?_eq_some hfind
        have hkey := find?_some hfind
        rw [decide_eq_true_eq] at hkey
        have hbac := h.messages _ (of_decide_eq_true (all_eq_true.mp hbacks a hmem))
        rw [hkey.2] at hbac
        dsimp only at hq
        split at hq
        · rename_i hcom
          rw [← hq]
          exact hbac.1 hcom
        · split at hq
          · rename_i habo
            rw [← hq]
            exact hbac.2 habo
          · rcases hd with rfl | rfl <;> cases hq
  exact ⟨fun hq => ⟨hquery _ (.inl rfl) hq, hrec.1⟩, fun hq => hquery _ (.inr rfl) hq⟩

theorem advances_of_ended (he : KVServer.Ended Planned (s.Allowed hash) (s.groups gid) kv) :
    s.Advances hash gid kv := by
  obtain ⟨es, hes, hends⟩ := he.ends
  have huser : ∀ e ∈ es, e.OnUserKeys := by
    intro e he
    cases e with
    | commit txID writeKeys => exact (hes _ he).2
    | abort txID => trivial
  refine ⟨he.groupID, he.holds, ?_, ?_, ?_, ?_⟩
  · intro txID raw hraw
    rw [he.decisions]
    exact hraw
  · intro txID raw hraw
    rw [he.decisions] at hraw
    exact .inl hraw
  · intro txID hmark
    rcases (hends.commitMark_iff huser txID).mp hmark with hold | ⟨writeKeys, hmem⟩
    · exact .inl hold
    · exact .inr (hes _ hmem).1
  · intro txID hmark
    rcases (hends.abortMark_iff huser txID).mp hmark with hold | hmem
    · exact .inl hold
    · exact .inr (hes _ hmem)

section

variable (h : s.Sound hash)

include h

theorem Sound.advances_of_wrote
    (hw : KVServer.Wrote (fun key => isUserKey key = true) (s.groups gid) kv) :
    s.Advances hash gid kv := by
  refine h.advances_of_same (by rw [hw.rest]) (by rw [hw.rest]) fun x => ?_
  apply hw.store.getElem?
  rw [isUserKey_txKey]
  decide

theorem Sound.advances_recordDecision {args : RecordTxDecisionArgs}
    (hco : s.Coordinates hash args.txID gid) :
    s.Advances hash gid ((s.groups gid).recordDecision args).1 := by
  have hsame : s.Advances hash gid (s.groups gid) := h.advances_of_same rfl rfl fun _ => rfl
  have hholds := (h.records gid).recordDecision args
  rcases recordDecision_cases (s.groups gid) args with heq | ⟨hnone, heq⟩ <;>
    rw [heq] at hholds ⊢
  · exact hsame
  · have hput : ∀ x, txDecisionPrefix ++ args.txID ≠ x →
        ((s.groups gid).store.putTxRecord (txDecisionPrefix ++ args.txID)
          (.decision ⟨args.decision, args.participantGroupIDs, args.writeKeys⟩)).getTxRecord x =
          (s.groups gid).store.getTxRecord x := by
      intro x hne
      rw [getTxRecord_putTxRecord, if_neg hne]
    refine ⟨rfl, hholds, ?_, ?_, ?_, ?_⟩
    · intro txID raw hraw
      rw [hput _ ?_]
      · exact hraw
      · intro heq
        rw [← heq, hnone] at hraw
        cases hraw
    · intro txID raw hraw
      dsimp only at hraw
      rw [getTxRecord_putTxRecord] at hraw
      split at hraw
      · rename_i heq
        have hid : args.txID = txID := by simpa using heq
        rw [← hid, ← Option.some.inj hraw]
        exact .inr ⟨hco, _, rfl⟩
      · exact .inl hraw
    · intro txID hmark
      rw [hasRecord, hput _ (decision_ne_commit args.txID txID)] at hmark
      exact .inl hmark
    · intro txID hmark
      rw [hasRecord, hput _ (decision_ne_abort args.txID txID)] at hmark
      exact .inl hmark

theorem Sound.resolveTxStatus {now : Int64} {reply : ResolveTxStatusReply}
    (hrun : (s.groups gid).resolveTxStatus now txID = some (kv, reply)) :
    (reply.status = .committed → s.Decided hash txID .committed) ∧
      (reply.status = .aborted → s.Decided hash txID .aborted) := by
  unfold KVServer.resolveTxStatus at hrun
  split at hrun
  · rename_i d hd
    cases hrun
    have hdeci := h.decided_of_record hd
    exact ⟨fun hs => hs ▸ hdeci, fun hs => hs ▸ hdeci⟩
  · split at hrun
    · rename_i hmark
      cases hrun
      exact ⟨fun _ => h.commits gid txID hmark, fun hs => by cases hs⟩
    · split at hrun
      · rename_i hmark
        cases hrun
        exact ⟨fun hs => (by cases hs), fun _ => h.aborts gid txID hmark⟩
      · split at hrun
        · cases hrun
          exact ⟨fun hs => (by cases hs), fun hs => by cases hs⟩
        · rename_i rec hdisk
          split at hrun
          · rename_i hexp
            exact absurd hexp.1 ((h.records gid).stored txID rec hdisk).2.2
          · cases hrun
            exact ⟨fun hs => (by cases hs), fun hs => by cases hs⟩

theorem Sound.deliver {req : Request} {answers : DecisionAnswers}
    {clock : Clock} (hcall : .call gid req ∈ s.network) (hbacks : s.backs answers = true)
    (hrun : s.apply hash gid req (answers.net false) clock = some t) : t.Sound hash := by
  have hbac := h.messages _ hcall
  have hansw := h.answers false hbacks (s.groups gid) rfl
  have hkeys : ∀ rec, Planned rec → rec.Within fun key => isUserKey key = true := fun _ hr => hr.1
  obtain ⟨⟨kv, reply⟩, hop, rfl⟩ := map_eq_some_iff.mp hrun
  cases req with
  | prepareTx args =>
    obtain ⟨e, hprep, rfl⟩ := of_doOp_prepareTx hop
    have hplan : Planned (prepareRecord args clock.now) := hbac
    have hend := ended_prepare hkeys (h.records gid) hansw hplan hprep
    exact h.setGroup (advances_of_ended hend) (by simp [Backed])
  | recordTxDecision args =>
    obtain ⟨rfl, rfl⟩ := of_doOp_recordTxDecision hop
    have hadv := h.advances_recordDecision hbac
    refine h.setGroup hadv ?_
    intro m hm
    rw [mem_singleton] at hm
    subst hm
    cases hok : ((s.groups gid).recordDecision args).2 with
    | ok =>
      refine ⟨gid, Coordinates.mono hbac (grows_setGroup hadv.kept), ?_⟩
      rw [decisionAt, setGroup_groups, if_pos rfl]
      exact recordDecision_ok hok
    | _ => trivial
  | commitTx args =>
    obtain ⟨e, hcomm, rfl⟩ := of_doOp_commitTx hop
    have hend := ended_commit (E := s.Allowed hash) hkeys (h.records gid)
      (fun rec hrec _ => ⟨hbac, hrec.1⟩) hcomm
    exact h.setGroup (advances_of_ended hend) (by simp [Backed])
  | abortTx txID =>
    obtain ⟨e, hab, rfl⟩ := of_doOp_abortTx hop
    have hend := ended_abort (E := s.Allowed hash) (h.records gid) hbac hab
    exact h.setGroup (advances_of_ended hend) (by simp [Backed])
  | resolveTxStatus txID =>
    obtain ⟨r, hres, rfl⟩ := of_doOp_resolveTxStatus hop
    have hend := ended_resolveTxStatus (E := s.Allowed hash) (h.records gid)
      (fun rec hrec _ hnone => absurd hnone hrec.2) hres
    have hadv := advances_of_ended hend
    refine h.setGroup hadv ?_
    intro m hm
    rw [mem_singleton] at hm
    subst hm
    have hsta := h.resolveTxStatus hres
    have hg : Grows s (s.setGroup gid kv [.reply gid (.resolveTxStatus txID)
      (.resolveTxStatus r)]) := grows_setGroup hadv.kept
    exact ⟨fun hs => (hsta.1 hs).mono hg, fun hs => (hsta.2 hs).mono hg⟩
  | setShardState _ | get _ | put _ | delete _ | cleanupShard _ | scan _ | expire _ =>
    exact hbac.elim

theorem Sound.serve {req : Request} {net : Net} {clock : Clock} (hpl : isPlain req = true)
    (hreq : req.Within (fun key => isUserKey key = true) fun key => isUserKey key = true)
    (hrun : s.apply hash gid req net clock = some t) : t.Sound hash := by
  obtain ⟨⟨kv, reply⟩, hop, rfl⟩ := map_eq_some_iff.mp hrun
  have htx : isTxCommand req = false := by cases req <;> first | rfl | cases hpl
  have hadv : s.Advances hash gid kv := by
    rcases wrote_doOp hreq htx hop with hw | ⟨-, mgr, rfl⟩
    · exact h.advances_of_wrote hw
    · exact h.advances_of_same rfl rfl fun _ => rfl
  refine h.setGroup hadv ?_
  intro m hm
  rw [mem_singleton] at hm
  subst hm
  cases req <;> trivial

theorem Sound.restart {answers : DecisionAnswers}
    {records : List (String × Document)} (hbacks : s.backs answers = true)
    (hperm : records.Perm ((s.groups gid).store.scanTxRecordsByPrefix txPreparePrefix))
    (hrun : { s.groups gid with txMgr := {} }.rebuildLockTable (answers.net false) records =
      some kv) : (s.setGroup gid kv []).Sound hash := by
  have hholds : KVServer.Holds Planned { s.groups gid with txMgr := {} } :=
    ⟨fun _ _ hcac => by simp at hcac, (h.records gid).stored⟩
  have hitems : ∀ item ∈ records, ∀ rec, item.2.toPrepared? = some rec → Planned rec := by
    intro item hitem rec hdoc
    obtain ⟨x, -, hd⟩ := mem_scanTxRecordsByPrefix.mp (hperm.mem_iff.mp hitem)
    refine ((h.records gid).stored x rec ?_).2
    rw [diskRecord, hd]
    exact hdoc
  have hend := ended_rebuildLockTable (fun _ hr => hr.1) hholds
    (h.answers false hbacks { s.groups gid with txMgr := {} } rfl) hitems hrun
  have hfrom : KVServer.Ended Planned (s.Allowed hash) (s.groups gid) kv :=
    ⟨hend.ends, hend.holds, hend.decisions, hend.groupID⟩
  exact h.setGroup (advances_of_ended hfrom) fun m hm => by cases hm

theorem Sound.enter (hses : s.sessions txID = some session)
    (hph : phase ≠ .active) (hplan : ∀ groups, participants phase = some groups →
      groups = session.handle.allGroups (session.router.resolve hash))
    (hsent : ∀ m ∈ sent, (s.setSession txID { session with phase := phase } sent).Backed hash m) :
    (s.setSession txID { session with phase := phase } sent).Sound hash := by
  have hpro := h.clients txID session hses
  refine h.setSession (grows_setSession ?_) ⟨hpro.named, hpro.user, hplan⟩ hsent
  intro old hold _
  rw [hses] at hold
  cases hold
  exact ⟨hph, rfl, rfl⟩

end

theorem grows_enter (hses : s.sessions txID = some session) (hph : phase ≠ .active) :
    Grows s (s.setSession txID { session with phase := phase } sent) := by
  apply grows_setSession
  intro old hold _
  rw [hses] at hold
  cases hold
  exact ⟨hph, rfl, rfl⟩

section

variable (h : s.Sound hash) (hses : s.sessions txID = some session)

include h hses

theorem Sound.startCommit : (s.startCommit hash txID session).Sound hash := by
  have hpro := h.clients txID session hses
  unfold Deployment.startCommit
  dsimp only
  split
  · exact h.enter hses (by simp) (by simp [participants, plan]) (by simp)
  · split
    · exact h.enter hses (by simp) (by simp [participants, plan]) (by simp)
    · rename_i hgroups
      refine h.enter hses (by simp) (by simp [participants, plan]) ?_
      intro m hm
      obtain ⟨gid, -, rfl⟩ := mem_map.mp hm
      refine ⟨?_, ?_⟩
      · intro wk hwk
        exact hpro.user wk (mem_of_mem_filter hwk)
      · simpa [prepareTxArgs] using hgroups

theorem Sound.deciding (hph : phase ≠ .active) {groups : List Int} {args : RecordTxDecisionArgs}
    (hgroups : participants phase = some groups)
    (hplan : groups = session.handle.allGroups (session.router.resolve hash))
    (hgid : groups.head? = some gid) (hargs : args.txID = session.handle.txID) :
    (s.setSession txID { session with phase := phase }
      [.call gid (.recordTxDecision args)]).Sound hash := by
  refine h.enter hses hph (fun groups' hg => ?_) ?_
  · cases hgroups.symm.trans hg
    exact hplan
  · intro m hm
    rw [mem_singleton] at hm
    subst hm
    rw [hplan] at hgid
    refine ⟨{ session with phase := phase }, ?_, hph, hgid⟩
    rw [hargs, (h.clients txID session hses).named]
    exact if_pos rfl

theorem Sound.edit {handle : TxHandle}
    (hph : session.phase = .active) (hnamed : handle.txID = session.handle.txID)
    (huser : ∀ wk ∈ handle.writes, wk ∈ session.handle.writes ∨ isUserKey wk.key = true) :
    (s.setSession txID { session with handle := handle } []).Sound hash := by
  have hpro := h.clients txID session hses
  refine h.setSession (grows_setSession ?_) ⟨hnamed.trans hpro.named, ?_, ?_⟩ (by simp)
  · intro old hold hne
    rw [hses] at hold
    cases hold
    exact absurd hph hne
  · intro wk hwk
    rcases huser wk hwk with hold | hkey
    · exact hpro.user wk hold
    · exact hkey
  · intro groups hg
    rw [hph] at hg
    cases hg

end

end

end Deployment

namespace TxHandle

variable {resolve : String → Int} {h : TxHandle} {key : String}

theorem mem_writes {wk : WriteKey} : wk ∈ h.writes ↔ ∃ k : String, h.writeSet[k]? = some wk := by
  simp [writes, ExtTreeMap.mem_toList_iff_getElem?_eq_some]

theorem get_fst (resp : Option GetReply) :
    (h.get resp key).1.txID = h.txID ∧ (h.get resp key).1.writeSet = h.writeSet := by
  unfold get
  split
  · exact ⟨rfl, rfl⟩
  · split
    · exact ⟨rfl, rfl⟩
    · split <;> exact ⟨rfl, rfl⟩

theorem join_fst : (h.join resolve key).txID = h.txID ∧
    (h.join resolve key).writeSet = h.writeSet := by
  unfold join
  split <;> exact ⟨rfl, rfl⟩

theorem deleteVersion_fst (resp : Option GetReply) :
    (h.deleteVersion resp key).1.txID = h.txID ∧
      (h.deleteVersion resp key).1.writeSet = h.writeSet := by
  unfold deleteVersion
  split
  · exact ⟨rfl, rfl⟩
  · split <;> exact ⟨rfl, rfl⟩

theorem mem_writes_insert {h' : TxHandle} {new wk : WriteKey}
    (hset : h'.writeSet = h.writeSet.insert key new) (hwk : wk ∈ h'.writes) :
    wk ∈ h.writes ∨ wk = new := by
  obtain ⟨k, hk⟩ := mem_writes.mp hwk
  rw [hset, ExtTreeMap.getElem?_insert] at hk
  split at hk
  · exact .inr (Option.some.inj hk).symm
  · exact .inl (mem_writes.mpr ⟨k, hk⟩)

theorem txID_put (value : String) (version : Tversion) :
    (h.put resolve key value version).txID = h.txID := join_fst.1

theorem txID_delete (resp : Option GetReply) : (h.delete resolve resp key).txID = h.txID :=
  join_fst.1.trans (deleteVersion_fst resp).1

theorem writeSet_put (value : String) (version : Tversion) :
    (h.put resolve key value version).writeSet =
      h.writeSet.insert key ⟨key, value, version, false⟩ := join_fst.2

theorem writeSet_delete (resp : Option GetReply) :
    (h.delete resolve resp key).writeSet =
      h.writeSet.insert key ⟨key, "", (h.deleteVersion resp key).2, true⟩ := by
  unfold delete
  rw [join_fst.2]
  dsimp only
  rw [(deleteVersion_fst resp).2]

end TxHandle

namespace Deployment

section

variable {hash : String → UInt64} {s t : Deployment} {txID : String}

theorem Sound.turn (h : s.Sound hash) {session session' : Session} {a : ClientAction}
    {sent : List Message} (hses : s.sessions txID = some session)
    (hok : s.disciplined (.client txID a)) (hturn : s.Turn hash txID session a session' sent) :
    (s.setSession txID session' sent).Sound hash := by
  have hpro := h.clients txID session hses
  have hplan := hpro.planned
  cases hturn with
  | get key resp hph =>
    refine h.edit hses hph (get_fst resp).1 fun wk hwk => ?_
    obtain ⟨k, hk⟩ := mem_writes.mp hwk
    rw [(get_fst resp).2] at hk
    exact .inl (mem_writes.mpr ⟨k, hk⟩)
  | put key value version hph =>
    refine h.edit hses hph (txID_put value version) fun wk hwk => ?_
    rcases mem_writes_insert (writeSet_put value version) hwk with hold | rfl
    · exact .inl hold
    · exact .inr hok
  | delete key resp hph =>
    refine h.edit hses hph (txID_delete resp) fun wk hwk => ?_
    rcases mem_writes_insert (writeSet_delete resp) hwk with hold | rfl
    · exact .inl hold
    · exact .inr hok
  | learnHint | moveShard => exact hok.elim
  | commit phase sent hph hstart =>
    rw [← hstart]
    exact h.startCommit hses
  | prepared gid result plan waiting oks oks' err err' hph =>
    refine h.enter hses (by simp) ?_ (by simp)
    rintro groups ⟨⟩
    exact hplan _ (by rw [hph]; rfl)
  | loses plan oks err gid hph hgid | wins plan oks err gid hph hgid =>
    exact h.deciding hses (by simp) rfl (hplan _ (by rw [hph]; rfl)) hgid rfl
  | committed plan gid hph hrep | aborted plan oks err gid hph hrep =>
    have hdeci := h.messages _ hrep
    rw [Backed, decisionArgs, hpro.named] at hdeci
    refine h.enter hses (by simp) (fun groups hg => ?_) fun m hm => ?_
    · exact hplan groups (by rw [hph]; exact hg)
    · obtain ⟨gid, -, rfl⟩ := mem_map.mp hm
      exact hdeci.mono (grows_enter hses (by simp))
  | rolledBack groups gid hph hrep =>
    have hdeci := h.messages _ hrep
    rw [Backed, decisionArgs, hpro.named] at hdeci
    refine h.enter hses (by simp) (by simp [participants]) fun m hm => ?_
    obtain ⟨gid, -, rfl⟩ := mem_map.mp hm
    exact hdeci.mono (grows_enter hses (by simp))
  | undecided plan hph =>
    refine h.enter hses (by simp) ?_ (by simp)
    rintro groups ⟨⟩
    refine hplan _ ?_
    rcases hph with hph | ⟨oks, err, hph⟩ <;> rw [hph] <;> rfl
  | stuck | nothing => exact h.enter hses (by simp) (by simp [participants]) (by simp)
  | rollback groups gid hph hgroups hgid =>
    exact h.deciding hses (by simp) rfl hgroups hgid rfl

theorem Sound.query (h : s.Sound hash) {gid : Int} {d : String}
    (hd : (s.groups gid).queryTxDecision txID = some d) : s.Backed hash (.decision gid txID d) := by
  have hunk : d = "UNKNOWN" → s.Backed hash (.decision gid txID d) := by
    rintro rfl
    exact ⟨fun hs => absurd hs (by decide), fun hs => absurd hs (by decide)⟩
  unfold queryTxDecision at hd
  split_ifs at hd
  split at hd
  · exact hunk (Option.some.inj hd).symm
  · rename_i raw hraw
    obtain ⟨rec, hrec, rfl⟩ := map_eq_some_iff.mp hd
    have hdeci : s.Decided hash txID rec.decision :=
      h.decided_of_record (bind_eq_some_iff.mpr ⟨raw, hraw, hrec⟩)
    cases hdecis : rec.decision with
    | committed =>
      rw [hdecis] at hdeci
      exact ⟨fun _ => hdeci, fun hs => absurd hs (by decide)⟩
    | aborted =>
      rw [hdecis] at hdeci
      exact ⟨fun hs => absurd hs (by decide), fun _ => hdeci⟩
    | notFound | prepared | unknown =>
      rw [hdecis] at hunk
      exact hunk rfl

theorem backed_outcomeCalls {commit : Bool} (groups : List Int)
    (h : s.Decided hash txID (if commit then .committed else .aborted)) :
    ∀ m ∈ outcomeCalls txID commit groups, s.Backed hash m := by
  intro m hm
  obtain ⟨gid, -, rfl⟩ := mem_map.mp hm
  cases commit <;> exact h

theorem Sound.recover (h : s.Sound hash) {participant : Int} {status : ResolveTxStatusReply}
    {decision : Option ResolveTxStatusReply} {r : List Int × Bool}
    (hans : s.answered txID participant status decision = true)
    (hr : recoverTransaction participant status decision = some r) :
    s.Decided hash txID (if r.2 then .committed else .aborted) := by
  rw [answered, Bool.and_eq_true, decide_eq_true_eq, Option.all_eq_true] at hans
  have hsta := h.messages _ hans.1
  unfold recoverTransaction at hr
  split at hr
  · rename_i hdone
    cases hr
    rcases hdone with hcom | habo
    · rw [if_pos (by simp [hcom])]
      exact hsta.1 hcom
    · rw [if_neg (by simp [habo])]
      exact hsta.2 habo
  · split at hr
    · cases hr
    · split at hr
      · cases hr
      · rename_i d
        have hd := h.messages _ (of_decide_eq_true (hans.2 d rfl))
        dsimp only at hr
        split at hr
        · rename_i hcom
          cases hr
          exact hd.1 hcom
        · split at hr
          · rename_i habo
            cases hr
            exact hd.2 habo
          · cases hr

theorem trimPrefix_append (pre x : String) : trimPrefix (pre ++ x) pre = x := by
  rw [trimPrefix, if_pos ((hasPrefix_iff _ _).mpr ⟨x, rfl⟩), String.toList_append,
    drop_left, String.ofList_toList]

theorem Sound.recoverCoordinator (h : s.Sound hash) {gid : Int} {router : ShardRouter}
    {m : Message} (hm : m ∈ (s.groups gid).recoverCoordinatorTransactions.flatMap
      (recoveredCalls hash router)) : s.Backed hash m := by
  obtain ⟨tx, htx, hm⟩ := mem_flatMap.mp hm
  obtain ⟨g, -, rfl⟩ := mem_map.mp hm
  obtain ⟨item, hitem, hitem'⟩ := mem_filterMap.mp htx
  obtain ⟨x, hkey, hraw⟩ := mem_scanTxRecordsByPrefix.mp hitem
  rw [hkey, ← String.append_assoc, trimPrefix_append] at hitem'
  dsimp only at hitem'
  split at hitem'
  · cases hitem'
  · rename_i rec hrec
    split at hitem'
    · cases hitem'
    · rename_i hgo
      obtain ⟨wks, -, rfl⟩ := map_eq_some_iff.mp hitem'
      have hcom : rec.decision = .committed := by
        by_contra hne
        simp [hne] at hgo
      have hdeci : s.Decided hash x rec.decision :=
        h.decided_of_record (bind_eq_some_iff.mpr ⟨item.2, hraw, hrec⟩)
      rw [hcom] at hdeci
      exact hdeci

theorem Sound.step (h : s.Sound hash) {a : Action} (hok : s.disciplined a)
    (hrun : s.step hash a = some t) : t.Sound hash := by
  cases a with
  | begin txID router =>
    simp only [Deployment.step] at hrun
    split at hrun
    · rename_i hnone
      cases hrun
      refine h.setSession (grows_setSession ?_) ⟨rfl, ?_, ?_⟩ (by simp)
      · intro old hold _
        rw [hnone] at hold
        cases hold
      · intro wk hwk
        obtain ⟨k, hk⟩ := mem_writes.mp hwk
        simp at hk
      · intro groups hg
        cases hg
    · cases hrun
  | client txID action =>
    obtain ⟨session, hses, hstep⟩ := bind_eq_some_iff.mp hrun
    obtain ⟨session', sent, rfl, hturn⟩ := Deployment.turn hstep
    exact h.turn hses hok hturn
  | deliver gid req answers clock =>
    simp only [Deployment.step] at hrun
    split at hrun
    · rename_i hsent
      exact h.deliver hsent.1 hsent.2 hrun
    · cases hrun
  | serve gid req forward clock =>
    simp only [Deployment.step] at hrun
    split at hrun
    · rename_i hpl
      exact h.serve hpl hok hrun
    · cases hrun
  | query gid txID =>
    obtain ⟨d, hd, rfl⟩ := map_eq_some_iff.mp hrun
    refine h.send ?_
    intro m hm
    rw [mem_singleton] at hm
    subst hm
    exact h.query hd
  | ask gid txID =>
    cases hrun
    refine h.send ?_
    intro m hm
    rw [mem_singleton] at hm
    subst hm
    trivial
  | recover txID participant status decision =>
    simp only [Deployment.step] at hrun
    split at hrun
    · rename_i hans
      obtain ⟨r, hr, rfl⟩ := map_eq_some_iff.mp hrun
      exact h.send (backed_outcomeCalls r.1 (h.recover hans hr))
    · cases hrun
  | restart gid answers records =>
    simp only [Deployment.step] at hrun
    split at hrun
    · rename_i hguard
      obtain ⟨kv, hkv, rfl⟩ := map_eq_some_iff.mp hrun
      exact h.restart hguard.1 (isPerm_iff.mp hguard.2) hkv
    · cases hrun
  | recoverCoordinator gid router =>
    cases hrun
    exact h.send fun m hm => h.recoverCoordinator hm

theorem sound_init (hinit : (system hash).init s) : s.Sound hash := by
  obtain ⟨hnetw, hsess, hgroups⟩ := hinit
  have hnone : ∀ gid x, (s.groups gid).store.getTxRecord x = none := fun gid => (hgroups gid).2.2
  refine ⟨fun gid => (hgroups gid).1, ?_, ?_, ?_, ?_, ?_, ?_⟩
  · intro gid txID raw hraw
    rw [hnone] at hraw
    cases hraw
  · intro gid
    refine ⟨?_, ?_⟩
    · intro txID rec hcac
      rw [(hgroups gid).2.1] at hcac
      simp at hcac
    · intro txID rec hdisk
      rw [diskRecord, hnone] at hdisk
      cases hdisk
  · intro gid txID hmark
    rw [hasRecord, hnone] at hmark
    cases hmark
  · intro gid txID hmark
    rw [hasRecord, hnone] at hmark
    cases hmark
  · intro m hm
    rw [hnetw] at hm
    cases hm
  · intro txID session hses
    rw [hsess] at hses
    cases hses

end

/-- In every run no transaction has a commit mark in one group and an abort mark in
the same or another one, and a mark stands only where the coordinator group of the
transaction has recorded the decision it follows. -/
theorem marks_agree_with_decision (hash : String → UInt64) {s : Deployment}
    (hs : (system hash).Reachable disciplined s) (txID : String) :
    (∀ gid gid', ¬((s.groups gid).hasRecord txCommitPrefix txID = true ∧
      (s.groups gid').hasRecord txAbortPrefix txID = true)) ∧
    (∀ gid, (s.groups gid).hasRecord txCommitPrefix txID = true →
      ∃ session coord, s.sessions txID = some session ∧ coordinator hash session = some coord ∧
        s.decisionAt coord txID = some .committed) ∧
    (∀ gid, (s.groups gid).hasRecord txAbortPrefix txID = true →
      ∃ session coord, s.sessions txID = some session ∧ coordinator hash session = some coord ∧
        s.decisionAt coord txID = some .aborted) := by
  have hsound : s.Sound hash :=
    hs.invariant (fun _ hinit => sound_init hinit) fun _ _ _ h hok hstep => h.step hok hstep
  refine ⟨?_, ?_, ?_⟩
  · rintro gid gid' ⟨hcomm, hab⟩
    have heq := (hsound.commits gid txID hcomm).unique (hsound.aborts gid' txID hab)
    cases heq
  · intro gid hmark
    obtain ⟨coord, ⟨session, hses, -, hco⟩, hdecis⟩ := hsound.commits gid txID hmark
    exact ⟨session, coord, hses, hco, hdecis⟩
  · intro gid hmark
    obtain ⟨coord, ⟨session, hses, -, hco⟩, hdecis⟩ := hsound.aborts gid txID hmark
    exact ⟨session, coord, hses, hco, hdecis⟩

instance (s : Deployment) (a : Action) : Decidable (s.disciplined a) := by
  cases a with
  | client txID action => cases action <;> (dsimp only [disciplined]; infer_instance)
  | serve gid req forward clock =>
    match req with
    | .put _ | .delete _ | .cleanupShard _ | .expire _ | .prepareTx _ =>
      dsimp only [disciplined, Request.Within]
      infer_instance
    | .setShardState _ | .get _ | .scan _ | .commitTx _ | .abortTx _ | .resolveTxStatus _
    | .recordTxDecision _ => exact instDecidableTrue
  | _ => exact instDecidableTrue

def twoShards : ShardRouter :=
  ⟨⟨2, 1, [1, 2], {(1, ["a"]), (2, ["b"])}, by decide, rfl⟩, {1, 2}⟩

def emptyGroups : Deployment := ⟨fun gid => newKVServer gid ∅, [], fun _ => none⟩

def sampleCommit : List Action :=
  let prepare (wk : WriteKey) : Request := .prepareTx ⟨"t", [], [wk], 10000, 1, [1, 2]⟩
  let k : WriteKey := ⟨"k", "a", 0, false⟩
  let l : WriteKey := ⟨"l", "b", 0, false⟩
  [.begin "t" twoShards, .client "t" (.put "k" "a" 0), .client "t" (.put "l" "b" 0),
    .client "t" .commit, .deliver 1 (prepare k) [] ⟨0, 0⟩, .deliver 2 (prepare l) [] ⟨0, 0⟩,
    .client "t" (.prepared 2 (some .ok)), .client "t" (.prepared 1 (some .ok)),
    .client "t" .decide,
    .deliver 1 (.recordTxDecision ⟨"t", .committed, [1, 2], [k, l]⟩) [] ⟨0, 0⟩,
    .client "t" (.decided true), .deliver 2 (.commitTx ⟨"t", [l]⟩) [] ⟨0, 0⟩,
    .deliver 1 (.commitTx ⟨"t", [k]⟩) [] ⟨0, 0⟩]

theorem marks_agree_sample : ∃ s, (system fun key => if key = "k" then 0 else 1).Reachable
    disciplined s ∧ (s.groups 1).hasRecord txCommitPrefix "t" = true ∧
      (s.groups 2).hasRecord txCommitPrefix "t" = true ∧
      s.decisionAt 1 "t" = some .committed ∧ ∀ gid gid',
        ¬((s.groups gid).hasRecord txCommitPrefix "t" = true ∧
          (s.groups gid').hasRecord txAbortPrefix "t" = true) := by
  obtain ⟨s, hrun, hmarks⟩ := Lib.System.exists_of_execOk
    (system fun key => if key = "k" then 0 else 1) disciplined emptyGroups sampleCommit
    (fun s => (s.groups 1).hasRecord txCommitPrefix "t" = true ∧
      (s.groups 2).hasRecord txCommitPrefix "t" = true ∧ s.decisionAt 1 "t" = some .committed)
    (by decide +kernel)
  have hinit : (system fun key => if key = "k" then 0 else 1).init emptyGroups :=
    ⟨rfl, fun _ => rfl, fun _ => ⟨rfl, rfl, fun _ => rfl⟩⟩
  exact ⟨s, ⟨emptyGroups, hinit, hrun⟩, hmarks.1, hmarks.2.1, hmarks.2.2,
    (marks_agree_with_decision _ ⟨emptyGroups, hinit, hrun⟩ "t").1⟩

end Deployment

end OrbisKV.KV
