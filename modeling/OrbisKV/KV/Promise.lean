import OrbisKV.KV.Participant
import OrbisKV.KV.Wal
/-!
# A prepared participant can commit

Once `Prepare` has answered OK the transaction is meant to be able to commit whatever
the group applies meanwhile.
-/

namespace OrbisKV.KV

open Std KVServer Option Store

namespace KVServer

/-- The store on which `Prepare` checks the reads would also take the writes. -/
def admitsWrites (kv : KVServer) (net : Net) (args : PrepareTxArgs) : Bool :=
  ((resolveConflicts net args.txID kv args.writeKeys).1.store.writeBatchWithCASInTxn
    (batchOps args.writeKeys)).isOk

structure Promised (txID : String) (rec : PreparedTxRecord) (kv : KVServer) : Prop where
  tidy : kv.Tidy
  ready : kv.hasRecord txCommitPrefix txID = true ∨ kv.txMgr.preparedTxs[txID]? = some rec ∧
      ∃ s, kv.store.writeBatchWithCASInTxn (batchOps rec.writeKeys) = .ok s

/-- The command writes no key that the transaction holds locked, is of another
transaction, keeps to the rules, and learns of no ABORTED decision for the
transaction. -/
def keepsPromise (txID : String) (kv : KVServer) (input : Input) : Bool :=
  kv.orderly input.request && match input.request with
    | .put args => kv.txMgr.lockTable[args.key]? ≠ some txID
    | .delete key => kv.txMgr.lockTable[key]? ≠ some txID
    | .expire _ => true
    | .prepareTx args =>
      args.txID ≠ txID && (kv.diskRecord txID).all fun rec =>
        kv.queryCoordinatorDecision input.net rec ≠ .aborted
    | .commitTx args => args.txID ≠ txID
    | .abortTx id => id ≠ txID
    | _ => false

section

variable {kv kv' : KVServer} {txID : String} {rec : PreparedTxRecord} {net : Net}
  {key other : String}

theorem batch_congr {s t u : Store} {writeKeys : List WriteKey}
    (hsame : ∀ wk ∈ writeKeys, s[wk.key]? = t[wk.key]?)
    (h : s.writeBatchWithCASInTxn (batchOps writeKeys) = .ok u) :
    ∃ v, t.writeBatchWithCASInTxn (batchOps writeKeys) = .ok v := by
  have hops : ∀ op ∈ batchOps writeKeys, s[op.key]? = t[op.key]? := by
    intro op hop
    obtain ⟨wk, hwk, rfl⟩ := List.mem_map.mp hop
    exact hsame wk hwk
  rcases writeBatchWithCASInTxn_congr hops with ⟨e, herr, -⟩ | ⟨s', t', -, ht', -⟩
  · rw [h] at herr
    cases herr
  · exact ⟨t', ht'⟩

theorem Promised.of_frame (h : Promised txID rec kv) (htidy : kv'.Tidy)
    (hmark : kv.hasRecord txCommitPrefix txID = true → kv'.hasRecord txCommitPrefix txID = true)
    (hcache : kv'.txMgr.preparedTxs[txID]? = kv.txMgr.preparedTxs[txID]?)
    (hkeys : kv.txMgr.preparedTxs[txID]? = some rec →
      ∀ key, rec.writes key → kv'.store[key]? = kv.store[key]?) : Promised txID rec kv' := by
  refine ⟨htidy, ?_⟩
  rcases h.ready with hcom | ⟨hcac, s, hbat⟩
  · exact Or.inl (hmark hcom)
  · refine Or.inr ⟨hcache.trans hcac, ?_⟩
    exact batch_congr (fun wk hwk => (hkeys hcac wk.key ⟨wk, hwk, rfl⟩).symm) hbat

theorem Wrote.hasRecord (hw : Wrote (fun key => isUserKey key = true) kv kv')
    (kind id : String) : kv'.hasRecord kind id = kv.hasRecord kind id := by
  have hsame : kv'.store.getTxRecord (kind ++ id) = kv.store.getTxRecord (kind ++ id) := by
    apply hw.store.getElem?
    rw [isUserKey_txKey]
    decide
  rw [KVServer.hasRecord, hsame, KVServer.hasRecord]

theorem Promised.of_wrote {K : String → Prop} (h : Promised txID rec kv)
    (hw : Wrote (fun key => isUserKey key = true) kv kv') (hw' : Wrote K kv kv')
    (hK : kv.txMgr.preparedTxs[txID]? = some rec → ∀ key, rec.writes key → ¬K key) :
    Promised txID rec kv' := by
  refine h.of_frame (h.tidy.of_wrote hw) ?_ (by rw [hw.rest]) ?_
  · intro hmark
    rwa [hw.hasRecord]
  · intro hcac key hwri
    exact hw'.store.getElem? (hK hcac key hwri)

theorem expireKeys_locked {cutoff : Int64} {reply reply' : ExpireReply} {keys : List String}
    (hlock : kv.txMgr.lockTable[key]?.isSome = true)
    (hrun : expireKeys cutoff kv reply keys = some (kv', reply')) :
    kv'.store[key]? = kv.store[key]? := by
  refine (expireKeys_keeps (I := fun mid _ => mid.txMgr.lockTable[key]?.isSome = true ∧
    mid.store[key]? = kv.store[key]?) (fun mid _ k _ hmid _ hfree _ _ => ?_) ⟨hlock, rfl⟩ hrun).2
  refine ⟨hmid.1, (getElem?_erase_of_ne ?_).trans hmid.2⟩
  rintro rfl
  exact hfree hmid.1

theorem Tidy.disjoint (h : kv.Tidy) {rec' : PreparedTxRecord}
    (hcac : kv.txMgr.preparedTxs[txID]? = some rec)
    (hother : kv.txMgr.preparedTxs[other]? = some rec') (hne : other ≠ txID)
    (hwri : rec.writes key) : ¬rec'.writes key := by
  intro hwri'
  have hlock := (h.lockedBy_iff hcac key).mpr hwri
  have hlock' := (h.lockedBy_iff hother key).mpr hwri'
  rw [hlock] at hlock'
  exact hne (Option.some.inj hlock').symm

theorem applyCommit_frame (huser : isUserKey key = true) (hkey : ¬rec.writes key) :
    (kv.applyCommit txID rec).1.store[key]? = kv.store[key]? := by
  rcases applyCommit_cases kv txID rec with heq | ⟨store, hbat, heq⟩ <;> rw [heq]
  rw [writeBatchWithCASAndRecord] at hbat
  split at hbat
  · cases hbat
  · rename_i mid hmid
    cases hbat
    have hframe : mid[key]? = kv.store[key]? := by
      apply writeBatchWithCASInTxn_frame hmid
      rintro op hop rfl
      obtain ⟨wk, hwk, rfl⟩ := List.mem_map.mp hop
      exact hkey ⟨wk, hwk, rfl⟩
    change ((mid.putTxRecord _ _).deleteTxRecord _)[key]? = _
    rw [getElem?_deleteTxRecord huser, getElem?_putTxRecord huser, hframe]

theorem applyCommit_mark (hmark : kv.hasRecord txCommitPrefix txID = true)
    (hrec : rec.Within fun key => isUserKey key = true) :
    (kv.applyCommit other rec).1.hasRecord txCommitPrefix txID = true := by
  rcases applyCommit_cases kv other rec with heq | ⟨store, hbat, heq⟩ <;> rw [heq]
  · exact hmark
  · rw [hasRecord]
    change ((store.deleteTxRecord _).getTxRecord _).isSome = true
    rw [getTxRecord_deleteTxRecord, if_neg (prepare_ne_commit _ _),
      getTxRecord_writeBatchWithCASAndRecord (batchOps_user hrec) hbat]
    split
    · rfl
    · exact hmark

theorem executeAbort_frame (huser : isUserKey key = true) :
    (kv.executeAbort rec).store[key]? = kv.store[key]? := by
  change ((kv.store.putTxRecord _ _).deleteTxRecord _)[key]? = _
  rw [getElem?_deleteTxRecord huser, getElem?_putTxRecord huser]

theorem executeAbort_mark (hmark : kv.hasRecord txCommitPrefix txID = true) :
    (kv.executeAbort rec).hasRecord txCommitPrefix txID = true := by
  rw [hasRecord]
  change (((kv.store.putTxRecord _ _).deleteTxRecord _).getTxRecord _).isSome = true
  rw [getTxRecord_deleteTxRecord, if_neg (prepare_ne_commit _ _),
    getTxRecord_putTxRecord, if_neg (commit_ne_abort _ _).symm]
  exact hmark

theorem applyCommit_ok {s : Store}
    (hbat : kv.store.writeBatchWithCASInTxn (batchOps rec.writeKeys) = .ok s) :
    (kv.applyCommit txID rec).2 = .ok ∧
      (kv.applyCommit txID rec).1.hasRecord txCommitPrefix txID = true := by
  have hrecord : kv.store.writeBatchWithCASAndRecord (batchOps rec.writeKeys)
      (txCommitPrefix ++ txID) .mark = .ok (s.putTxRecord (txCommitPrefix ++ txID) .mark) := by
    rw [writeBatchWithCASAndRecord, hbat]
  unfold applyCommit
  rw [hrecord]
  refine ⟨rfl, ?_⟩
  rw [hasRecord]
  change (((s.putTxRecord _ _).deleteTxRecord _).getTxRecord _).isSome = true
  rw [getTxRecord_deleteTxRecord, if_neg (prepare_ne_commit _ _),
    getTxRecord_putTxRecord, if_pos rfl]
  rfl

theorem Promised.resolveOther (h : Promised txID rec kv) {holder : String}
    (hlock : kv.txMgr.lockTable[key]? = some holder) (hne : holder ≠ txID) :
    Promised txID rec (kv.resolveLockLocked net holder).1 := by
  obtain ⟨rec', hother, -⟩ := (h.tidy.locks key holder).mp hlock
  have hwithin := h.tidy.within.cached holder rec' hother
  have hres := h.tidy.resolveLockLocked net hlock hne
  have huser : kv.txMgr.preparedTxs[txID]? = some rec → ∀ key, rec.writes key →
      isUserKey key = true := by
    rintro hcac key ⟨wk, hwk, rfl⟩
    exact h.tidy.within.cached txID rec hcac wk hwk
  rw [h.tidy.resolveLockLocked_eq net hother] at hres ⊢
  rcases resolvePrepared_cases kv net rec' with heq | ⟨-, heq⟩ | ⟨-, heq⟩ <;> rw [heq] at hres ⊢
  · exact h
  · rw [executeCommit_eq] at hres ⊢
    refine h.of_frame hres.tidy (fun hmark => applyCommit_mark hmark hwithin) hres.cache ?_
    intro hcac key hwri
    exact applyCommit_frame (huser hcac key hwri) (h.tidy.disjoint hcac hother hne hwri)
  · refine h.of_frame hres.tidy executeAbort_mark hres.cache ?_
    intro hcac key hwri
    exact executeAbort_frame (huser hcac key hwri)

section

variable (h : Promised txID rec kv) (hlock : kv.txMgr.lockTable[key]? = some txID)

include h hlock

theorem Promised.pending :
    kv.txMgr.preparedTxs[txID]? = some rec ∧
      ∃ s, kv.store.writeBatchWithCASInTxn (batchOps rec.writeKeys) = .ok s := by
  obtain ⟨rec', hcac, -⟩ := (h.tidy.locks key txID).mp hlock
  rcases h.ready with hcom | hrdy
  · rw [(h.tidy.unmarked hcac).1] at hcom
    cases hcom
  · exact hrdy

theorem Promised.resolveOwn
    (hnet : kv.queryCoordinatorDecision net rec ≠ .aborted) :
    Promised txID rec (kv.resolveLockLocked net txID).1 := by
  obtain ⟨hcac, s, hbat⟩ := h.pending hlock
  rw [h.tidy.resolveLockLocked_eq net hcac]
  rcases resolvePrepared_cases kv net rec with heq | ⟨-, heq⟩ | ⟨habo, heq⟩ <;> rw [heq]
  · exact h
  · rw [executeCommit_eq]
    obtain rfl := h.tidy.named txID rec hcac
    refine ⟨?_, Or.inl (applyCommit_ok hbat).2⟩
    rcases h.tidy.applyCommit hcac with hsame | hclo
    · rw [hsame]
      exact h.tidy
    · exact hclo.tidy h.tidy
  · exact absurd habo hnet

end

theorem Tidy.holds (h : kv.Tidy) :
    kv.Holds fun rec => rec.Within fun key => isUserKey key = true := by
  refine ⟨fun id r hr => ⟨h.named id r hr, h.within.cached id r hr⟩, fun id r hr => ?_⟩
  rw [h.diskRecord_eq] at hr
  exact ⟨h.named id r hr, h.within.cached id r hr⟩

def notAborted (kv : KVServer) (net : Net) (txID : String) (rec : PreparedTxRecord) : Prop :=
  kv.txMgr.preparedTxs[txID]? = some rec → kv.queryCoordinatorDecision net rec ≠ .aborted

section

variable (h : Promised txID rec kv)

include h

theorem Promised.resolveLockLocked {holder : String}
    (hlock : kv.txMgr.lockTable[key]? = some holder) (hnet : kv.notAborted net txID rec) :
    Promised txID rec (kv.resolveLockLocked net holder).1 ∧
      (kv.resolveLockLocked net holder).1.notAborted net txID rec := by
  have hans : kv.Answers (fun rec => rec.Within fun key => isUserKey key = true)
      (fun _ => True) net := fun _ _ => ⟨fun _ => trivial, fun _ => trivial⟩
  have hend := ended_resolveLockLocked (fun _ hr => hr) h.tidy.holds hans holder
  rw [notAborted, queryCoordinatorDecision_congr hend.groupID hend.decisions]
  by_cases hne : holder = txID
  · subst hne
    have hown := hnet (h.pending hlock).1
    exact ⟨h.resolveOwn hlock hown, fun _ => hown⟩
  · rw [(h.tidy.resolveLockLocked net hlock hne).cache]
    exact ⟨h.resolveOther hlock hne, hnet⟩

theorem Promised.installPrepared {new : PreparedTxRecord} (hne : new.txID ≠ txID)
    (htidy : (kv.installPrepared new).Tidy) : Promised txID rec (kv.installPrepared new) := by
  refine h.of_frame htidy ?_ ?_ ?_
  · intro hmark
    rw [hasRecord]
    change ((kv.store.putTxRecord _ _).getTxRecord _).isSome = true
    rw [getTxRecord_putTxRecord, if_neg (prepare_ne_commit _ _)]
    exact hmark
  · change (kv.txMgr.preparedTxs.insert new.txID new)[txID]? = _
    rw [ExtTreeMap.getElem?_insert, if_neg]
    rwa [LawfulEqCmp.compare_eq_iff_eq]
  · rintro hcac key ⟨wk, hwk, rfl⟩
    exact getElem?_putTxRecord (h.tidy.within.cached txID rec hcac wk hwk) _ _

theorem Promised.prepare {now : Int64} {args : PrepareTxArgs} {e : Err}
    (hargs : kv.orderly (.prepareTx args) = true) (hne : args.txID ≠ txID)
    (hnet : kv.notAborted net txID rec)
    (hrun : kv.prepare net now args = some (kv', e)) : Promised txID rec kv' := by
  have htidy := h.tidy.prepare hargs hrun
  obtain ⟨mid, ⟨hmid, -⟩, rfl | rfl⟩ := prepare_keeps
    (I := fun kv => Promised txID rec kv ∧ kv.notAborted net txID rec)
    (fun _ _ _ hmid hlock _ => hmid.1.resolveLockLocked hlock hmid.2) ⟨h, hnet⟩ hrun
  · exact hmid
  · exact hmid.installPrepared hne htidy

theorem Promised.commitOther {e : Err}
    (hargs : (kv.store.finished other || !kv.undecided other) = true) (hne : other ≠ txID)
    (hrun : kv.commit other = some (kv', e)) : Promised txID rec kv' := by
  rcases h.tidy.commit_cases hargs hrun with rfl | ⟨rec', hother, rfl⟩
  · exact h
  · rcases h.tidy.applyCommit hother with hsame | hclo
    · rw [hsame]
      exact h
    · refine h.of_frame (hclo.tidy h.tidy)
        (fun hmark => applyCommit_mark hmark (h.tidy.within.cached other rec' hother)) ?_ ?_
      · rw [hclo.cache, if_neg hne]
      · rintro hcac key ⟨wk, hwk, rfl⟩
        exact applyCommit_frame (h.tidy.within.cached txID rec hcac wk hwk)
          (h.tidy.disjoint hcac hother hne ⟨wk, hwk, rfl⟩)

theorem Promised.abortOther {e : Err} (hne : other ≠ txID)
    (hrun : kv.abort other = some (kv', e)) : Promised txID rec kv' := by
  rcases h.tidy.abort_cases hrun with rfl | ⟨hclo, hstore⟩
  · exact h
  · refine h.of_frame (hclo.tidy h.tidy) ?_ ?_ ?_
    · intro hmark
      rw [hasRecord, hstore, getTxRecord_deleteTxRecord, if_neg (prepare_ne_commit _ _),
        getTxRecord_putTxRecord, if_neg (commit_ne_abort _ _).symm]
      exact hmark
    · rw [hclo.cache, if_neg hne]
    · rintro hcac key ⟨wk, hwk, rfl⟩
      have huser := h.tidy.within.cached txID rec hcac wk hwk
      rw [hstore, getElem?_deleteTxRecord huser, getElem?_putTxRecord huser]

theorem Promised.locked (hcac : kv.txMgr.preparedTxs[txID]? = some rec) (hwri : rec.writes key) :
    kv.txMgr.lockTable[key]? = some txID :=
  (h.tidy.locks key txID).mpr ⟨rec, hcac, hwri⟩

theorem Promised.doOp {hash : String → UInt64} {input : Input}
    {reply : Reply} (hok : kv.keepsPromise txID input = true)
    (hrun : kv.doOp hash input.net input.clock input.request = some (kv', reply)) :
    Promised txID rec kv' := by
  obtain ⟨req, net, clock⟩ := input
  rw [keepsPromise, Bool.and_eq_true] at hok
  obtain ⟨hreq, hok⟩ := hok
  dsimp only at hreq hok hrun
  cases req with
  | put args =>
    rw [decide_eq_true_eq] at hok
    rw [(of_doOp_put hrun).1]
    refine h.of_wrote (wrote_doPut hash net clock hreq)
      (wrote_doPut (K := fun key => key = args.key) hash net clock rfl) ?_
    rintro hcac key hwri rfl
    exact hok (h.locked hcac hwri)
  | delete key =>
    rw [decide_eq_true_eq] at hok
    rw [(of_doOp_delete hrun).1]
    refine h.of_wrote (wrote_doDelete hash net clock.now hreq)
      (wrote_doDelete (K := fun k => k = key) hash net clock.now rfl) ?_
    rintro hcac key hwri rfl
    exact hok (h.locked hcac hwri)
  | expire args =>
    rw [orderly, List.all_eq_true] at hreq
    obtain ⟨r, hexp, -⟩ := of_doOp_expire hrun
    unfold doExpire at hexp
    split at hexp
    · cases hexp
      exact h
    · have hw := wrote_expireKeys hreq hexp
      refine h.of_frame (h.tidy.of_wrote hw) ?_ (by rw [hw.rest]) ?_
      · intro hmark
        rwa [hw.hasRecord]
      · intro hcac key hwri
        apply expireKeys_locked _ hexp
        rw [h.locked hcac hwri]
        rfl
  | prepareTx args =>
    rw [Bool.and_eq_true, decide_eq_true_eq] at hok
    obtain ⟨r, hprep, -⟩ := of_doOp_prepareTx hrun
    refine h.prepare hreq hok.1 ?_ hprep
    intro hcac
    rw [← h.tidy.diskRecord_eq] at hcac
    rw [hcac, all_some, decide_eq_true_eq] at hok
    exact hok.2
  | commitTx args =>
    rw [decide_eq_true_eq] at hok
    obtain ⟨r, hcom, -⟩ := of_doOp_commitTx hrun
    exact h.commitOther hreq hok hcom
  | abortTx id =>
    rw [decide_eq_true_eq] at hok
    obtain ⟨r, hab, -⟩ := of_doOp_abortTx hrun
    exact h.abortOther hok hab
  | _ => cases hok

end

theorem Tidy.promised (h : kv.Tidy) {now : Int64} {args : PrepareTxArgs}
    (hargs : kv.orderly (.prepareTx args) = true) (hfit : kv.admitsWrites net args = true)
    (hrun : kv.prepare net now args = some (kv', .ok)) :
    Promised args.txID (prepareRecord args now) kv' := by
  have htidy := h.prepare hargs hrun
  rw [orderly, Bool.and_eq_true, Bool.and_eq_true, List.all_eq_true] at hargs
  unfold admitsWrites at hfit
  obtain ⟨mid, free, hconf, ⟨-, hne⟩ | ⟨-, -, -, rfl⟩⟩ := prepare_cases hrun
  · exact absurd rfl hne
  rw [hconf] at hfit
  refine ⟨htidy, Or.inr ⟨ExtTreeMap.getElem?_insert_self, ?_⟩⟩
  cases hbat : mid.store.writeBatchWithCASInTxn (batchOps args.writeKeys) with
  | error e =>
    rw [hbat] at hfit
    cases hfit
  | ok s =>
    refine batch_congr (fun wk hwk => ?_) hbat
    exact (getElem?_putTxRecord (hargs.1.1 wk hwk) _ _).symm

theorem Promised.commit (h : Promised txID rec kv) (hdeci : kv.undecided txID = false) :
    ∃ kv', kv.commit txID = some (kv', .ok) := by
  unfold KVServer.commit
  rw [if_neg (by rw [h.tidy.free]; decide)]
  rcases h.ready with hcom | ⟨hcac, s, hbat⟩
  · rw [if_pos hcom]
    exact ⟨kv, rfl⟩
  · obtain ⟨hcom, hab⟩ := h.tidy.unmarked hcac
    rw [hcom, hab, hdeci, h.tidy.loadPrepared_eq, hcac]
    refine ⟨(kv.applyCommit txID rec).1, ?_⟩
    exact congrArg some (Prod.ext rfl (applyCommit_ok hbat).1)

theorem Promised.recordDecision (h : Promised txID rec kv) (args : RecordTxDecisionArgs) :
    Promised txID rec (kv.recordDecision args).1 := by
  have hcases := recordDecision_cases kv args
  refine h.of_frame (h.tidy.recordDecision args) ?_ ?_ ?_
  · intro hmark
    rcases hcases with hsame | ⟨-, hsto⟩
    · rwa [hsame]
    · rw [hsto, hasRecord, getTxRecord_putTxRecord, if_neg (decision_ne_commit _ _)]
      exact hmark
  · rcases hcases with hsame | ⟨-, hsto⟩
    · rw [hsame]
    · rw [hsto]
  · rintro hcac key ⟨wk, hwk, rfl⟩
    rcases hcases with hsame | ⟨-, hsto⟩
    · rw [hsame]
    · rw [hsto]
      exact getElem?_putTxRecord (h.tidy.within.cached txID rec hcac wk hwk) _ _

theorem Promised.decided (h : Promised txID rec kv) (hrec : rec.coordinatorGroupID ≠ kv.groupID ∨
      (kv.store.getTxRecord (txDecisionPrefix ++ txID)).bind
        (fun raw => raw.toDecision?.map (·.decision)) = some .committed) :
    kv.undecided txID = false := by
  unfold undecided
  rw [h.tidy.diskRecord_eq]
  cases hcac : kv.txMgr.preparedTxs[txID]? with
  | none => rfl
  | some rec' =>
    rcases h.ready with hcom | ⟨hrdy, -⟩
    · rw [(h.tidy.unmarked hcac).1] at hcom
      cases hcom
    · rw [hcac] at hrdy
      cases hrdy
      rcases hrec with hrem | hcomm
      · simp [hrem.symm]
      · have hmap : ((kv.store.getTxRecord (txDecisionPrefix ++ txID)).bind
            Document.toDecision?).map (·.decision) = some .committed := by
          rw [map_bind]
          exact hcomm
        simp [hmap]

theorem groupID_doOp {hash : String → UInt64} {clock : Clock} {req : Request} {reply : Reply}
    (hrun : kv.doOp hash net clock req = some (kv', reply)) : kv'.groupID = kv.groupID := by
  rcases moved_or_set (fun _ hk => hk) (within_true kv) (request_within_true req) hrun with
    hmv | ⟨mgr, rfl⟩
  · exact hmv.groupID
  · rfl

end

end KVServer

def group (hash : String → UInt64) : Lib.System KVServer Input where
  init kv := kv.txMgr = {} ∧ ∀ x, kv.store.getTxRecord x = none
  step kv input := (kv.doOp hash input.net input.clock input.request).map Prod.fst

def orderlyStep (kv : KVServer) (input : Input) : Prop := kv.orderly input.request = true

instance : ∀ kv input, Decidable (orderlyStep kv input) :=
  fun kv input => inferInstanceAs (Decidable (kv.orderly input.request = true))

section

variable {hash : String → UInt64} {kv kv₁ kv₂ : KVServer}

theorem tidy_of_reachable (hs : (group hash).Reachable orderlyStep kv) : kv.Tidy := by
  refine hs.invariant (I := KVServer.Tidy) (fun _ h => tidy_of_init h) ?_
  intro kv input kv' h hreq hstep
  obtain ⟨⟨kv₁, reply⟩, hrun, rfl⟩ := map_eq_some_iff.mp hstep
  exact h.doOp hreq hrun

theorem KVServer.Promised.run {txID : String} {rec : PreparedTxRecord} (h : Promised txID rec kv)
    (hrun : (group hash).Run (fun kv input => kv.keepsPromise txID input = true) kv kv₁) :
    Promised txID rec kv₁ ∧ kv₁.groupID = kv.groupID := by
  refine hrun.preserves (I := fun kv' => Promised txID rec kv' ∧ kv'.groupID = kv.groupID) ?_
    ⟨h, rfl⟩
  intro kv' input kv'' ⟨h', hgrp⟩ hok hstep
  obtain ⟨⟨kv₃, reply⟩, hop, rfl⟩ := map_eq_some_iff.mp hstep
  exact ⟨h'.doOp hok hop, (groupID_doOp hop).trans hgrp⟩

/-- The transaction was prepared with write versions that the store had, and the
commands after it keep off its locks: its commit goes through. -/
theorem prepared_can_commit {net : Net} {clock : Clock} {args : PrepareTxArgs}
    (hs : (group hash).Reachable orderlyStep kv)
    (hargs : kv.orderly (.prepareTx args) = true) (hfit : kv.admitsWrites net args = true)
    (hprep : kv.doOp hash net clock (.prepareTx args) = some (kv₁, .prepareTx .ok))
    (hrun : (group hash).Run (fun kv input => kv.keepsPromise args.txID input = true) kv₁ kv₂) :
    (args.coordinatorGroupID ≠ kv.groupID → ∃ kv', kv₂.commit args.txID = some (kv', .ok)) ∧
      ∀ decided participants writeKeys,
        kv₂.recordDecision ⟨args.txID, .committed, participants, writeKeys⟩ = (decided, .ok) →
          ∃ kv', decided.commit args.txID = some (kv', .ok) := by
  obtain ⟨e, hprep', he⟩ := of_doOp_prepareTx hprep
  cases he
  have hpro := (tidy_of_reachable hs).promised hargs hfit hprep'
  obtain ⟨h₂, hgrp⟩ := hpro.run hrun
  rw [groupID_doOp hprep] at hgrp
  constructor
  · intro hrem
    exact h₂.commit (h₂.decided (Or.inl (by rwa [hgrp])))
  · intro decided participants writeKeys hdec
    have hd := h₂.recordDecision ⟨args.txID, .committed, participants, writeKeys⟩
    have hcomm := recordDecision_ok (congrArg Prod.snd hdec)
    rw [hdec] at hd hcomm
    exact hd.commit (hd.decided (Or.inr hcomm))

theorem prepared_can_commit_sample : ∃ kv₁ kv₂ kv',
    (newKVServer 1 ∅).doOp (fun _ => 0) .offline ⟨0, 0⟩ (.prepareTx sampleTx) =
      some (kv₁, .prepareTx .ok) ∧
    (group fun _ => 0).Run (fun kv input => kv.keepsPromise "t" input = true) kv₁ kv₂ ∧
    kv₂.store["j"]? = some (.entry ⟨"b", 1, 0⟩) ∧ kv₂.commit "t" = some (kv', .ok) := by
  have hpre : ((newKVServer 1 ∅).doOp (fun _ => 0) .offline ⟨0, 0⟩
      (.prepareTx sampleTx)).any (fun p => p.2 = .prepareTx .ok ∧ ((group fun _ => 0).execOk
        (fun kv input => kv.keepsPromise "t" input = true) p.1
        [⟨.put ⟨"j", "b", 0, 0⟩, .offline, ⟨0, 0⟩⟩, ⟨.expire ⟨["k"], 9⟩, .offline, ⟨0, 0⟩⟩]).any
          (fun kv => kv.store["j"]? = some (.entry ⟨"b", 1, 0⟩)) = true) = true := by
    decide +kernel
  obtain ⟨⟨kv₁, reply⟩, hprep, hrest⟩ := (any_eq_true _ _).mp hpre
  obtain ⟨rfl, hexec⟩ := of_decide_eq_true hrest
  obtain ⟨kv₂, hrun, hput⟩ := Lib.System.exists_of_execOk _ _ _ _ _ hexec
  have hs : (group fun _ => 0).Reachable orderlyStep (newKVServer 1 ∅) :=
    ⟨newKVServer 1 ∅, ⟨rfl, fun _ => rfl⟩, .refl _⟩
  obtain ⟨kv', hcom⟩ := (prepared_can_commit hs (by decide +kernel) (by decide +kernel) hprep
    hrun).1 (by decide)
  exact ⟨kv₁, kv₂, kv', hprep, hrun, hput, hcom⟩

theorem put_breaks_promise :
    ((machine fun _ => 0).run (newKVServer 1 ∅)
      [⟨.prepareTx sampleTx, .offline, ⟨0, 0⟩⟩, ⟨.put ⟨"k", "b", 0, 0⟩, .offline, ⟨0, 0⟩⟩,
        ⟨.commitTx ⟨"t", []⟩, .offline, ⟨0, 0⟩⟩]).map Prod.snd =
      some [.prepareTx .ok, .put { err := .ok }, .commitTx .txConflict] := by
  decide +kernel

/-- Transactions that are prepared together write different keys, hold the locks of their keys
and have not ended. -/
theorem prepared_writes_exclusive (hs : (group hash).Reachable orderlyStep kv) {t t' key : String}
    {rec rec' : PreparedTxRecord} (ht : kv.txMgr.preparedTxs[t]? = some rec) (hw : rec.writes key)
    (ht' : kv.txMgr.preparedTxs[t']? = some rec') (hw' : rec'.writes key) :
    t = t' ∧ kv.txMgr.lockTable[key]? = some t ∧ kv.store.finished t = false := by
  have htidy := tidy_of_reachable hs
  have hlock := (htidy.locks key t).mpr ⟨rec, ht, hw⟩
  have hlock' := (htidy.locks key t').mpr ⟨rec', ht', hw'⟩
  exact ⟨Option.some.inj (hlock.symm.trans hlock'), hlock, htidy.pending t rec ht⟩

theorem prepared_writes_exclusive_sample : ∃ kv : KVServer,
    kv.txMgr.lockTable["k"]? = some "t" ∧ kv.store.finished "t" = false := by
  obtain ⟨kv, hs, ht⟩ : ∃ kv, (group fun _ => 0).Reachable orderlyStep kv ∧
      kv.txMgr.preparedTxs["t"]? = some (prepareRecord sampleTx 0) :=
    Lib.System.exists_reachable_of_execOk (newKVServer 1 ∅)
      [⟨.prepareTx sampleTx, .offline, ⟨0, 0⟩⟩] ⟨rfl, fun _ => rfl⟩ (by decide +kernel)
  have hw : (prepareRecord sampleTx 0).writes "k" := ⟨_, .head _, rfl⟩
  exact ⟨kv, (prepared_writes_exclusive hs ht hw ht hw).2⟩

end

end OrbisKV.KV
