import OrbisKV.KV.Tidy
/-!
# How transactions end on a participant

A transaction ends on a participant when its commit mark is written together with
its write set, or when its abort mark is written.
-/

namespace OrbisKV.KV

open Std List Store

inductive Outcome
  | commit (txID : String) (writeKeys : List WriteKey)
  | abort (txID : String)
deriving DecidableEq, Repr

def Outcome.txID : Outcome → String
  | commit txID _ => txID
  | abort txID => txID

inductive Store.Ends : List Outcome → Store → Store → Prop
  | refl (s : Store) : Store.Ends [] s s
  | commit {es : List Outcome} {s t u : Store} {txID : String} {writeKeys : List WriteKey}
      (h : Store.Ends es s t) (hopen : t.finished txID = false)
      (hbat : t.writeBatchWithCASAndRecord (batchOps writeKeys) (txCommitPrefix ++ txID)
        .mark = .ok u) :
      Store.Ends (es ++ [.commit txID writeKeys]) s u
  | abort {es : List Outcome} {s t : Store} {txID : String} (h : Store.Ends es s t)
      (hopen : t.finished txID = false) :
      Store.Ends (es ++ [.abort txID]) s (t.putTxRecord (txAbortPrefix ++ txID) .mark)
  | prepare {es : List Outcome} {s t : Store} (h : Store.Ends es s t) (rec : PreparedTxRecord) :
      Store.Ends es s (t.putTxRecord (txPreparePrefix ++ rec.txID) (.prepare rec))
  | decision {es : List Outcome} {s t : Store} (h : Store.Ends es s t) {txID : String}
      (hnew : t.getTxRecord (txDecisionPrefix ++ txID) = none) (rec : TxDecisionRecord) :
      Store.Ends es s (t.putTxRecord (txDecisionPrefix ++ txID) (.decision rec))
  | drop {es : List Outcome} {s t : Store} (h : Store.Ends es s t) (txID : String) :
      Store.Ends es s (t.deleteTxRecord (txPreparePrefix ++ txID))

namespace Store.Ends

variable {es es' : List Outcome} {s t u : Store}

theorem trans (h : Store.Ends es s t) (h' : Store.Ends es' t u) : Store.Ends (es ++ es') s u := by
  induction h' with
  | refl => rwa [append_nil]
  | commit _ hopen hbat ih =>
    rw [← append_assoc]
    exact (ih h).commit hopen hbat
  | abort _ hopen ih =>
    rw [← append_assoc]
    exact (ih h).abort hopen
  | prepare _ rec ih => exact (ih h).prepare rec
  | decision _ hnew rec ih => exact (ih h).decision hnew rec
  | drop _ txID ih => exact (ih h).drop txID

end Store.Ends

def Outcome.OnUserKeys : Outcome → Prop
  | commit _ writeKeys => ∀ wk ∈ writeKeys, isUserKey wk.key = true
  | abort _ => True

theorem batchOps_user {writeKeys : List WriteKey} (h : ∀ wk ∈ writeKeys, isUserKey wk.key = true) :
    ∀ op ∈ batchOps writeKeys, isUserKey op.key = true := by
  intro op hop
  obtain ⟨wk, hwk, rfl⟩ := mem_map.mp hop
  exact h wk hwk

namespace Store.Ends

variable {es : List Outcome} {s t : Store}

section

variable (h : Store.Ends es s t) (hes : ∀ e ∈ es, e.OnUserKeys) (x : String)

include h hes x

theorem commitMark_iff :
    (t.getTxRecord (txCommitPrefix ++ x)).isSome = true ↔
      (s.getTxRecord (txCommitPrefix ++ x)).isSome = true ∨
        ∃ writeKeys, .commit x writeKeys ∈ es := by
  induction h with
  | refl => simp
  | @commit es _ _ _ txID writeKeys _ _ hbat ih =>
    have hkeys := hes _ (mem_append_right _ (mem_singleton_self _))
    rw [getTxRecord_writeBatchWithCASAndRecord (batchOps_user hkeys) hbat]
    by_cases hx : txID = x
    · subst hx
      simp only [if_true, Option.isSome_some, true_iff]
      exact Or.inr ⟨writeKeys, by simp⟩
    · have hne : txCommitPrefix ++ txID ≠ txCommitPrefix ++ x := by simpa using hx
      rw [if_neg hne, ih fun e he => hes e (mem_append_left _ he)]
      simp [Ne.symm hx]
  | @abort es _ _ txID _ _ ih =>
    rw [getTxRecord_putTxRecord, if_neg (commit_ne_abort x txID).symm,
      ih fun e he => hes e (mem_append_left _ he)]
    simp
  | prepare _ rec ih =>
    rw [getTxRecord_putTxRecord, if_neg (prepare_ne_commit _ x), ih hes]
  | decision _ _ rec ih =>
    rw [getTxRecord_putTxRecord, if_neg (decision_ne_commit _ x), ih hes]
  | drop _ txID ih =>
    rw [getTxRecord_deleteTxRecord, if_neg (prepare_ne_commit txID x), ih hes]

theorem abortMark_iff :
    (t.getTxRecord (txAbortPrefix ++ x)).isSome = true ↔
      (s.getTxRecord (txAbortPrefix ++ x)).isSome = true ∨ .abort x ∈ es := by
  induction h with
  | refl => simp
  | @commit es _ _ _ txID writeKeys _ _ hbat ih =>
    have hkeys := hes _ (mem_append_right _ (mem_singleton_self _))
    rw [getTxRecord_writeBatchWithCASAndRecord (batchOps_user hkeys) hbat,
      if_neg (commit_ne_abort txID x), ih fun e he => hes e (mem_append_left _ he)]
    simp
  | @abort es _ _ txID _ _ ih =>
    rw [getTxRecord_putTxRecord]
    by_cases hx : txID = x
    · simp [hx]
    · have hne : txAbortPrefix ++ txID ≠ txAbortPrefix ++ x := by simpa using hx
      rw [if_neg hne, ih fun e he => hes e (mem_append_left _ he)]
      simp [Ne.symm hx]
  | prepare _ rec ih =>
    rw [getTxRecord_putTxRecord, if_neg (prepare_ne_abort _ x), ih hes]
  | decision _ _ rec ih =>
    rw [getTxRecord_putTxRecord, if_neg (decision_ne_abort _ x), ih hes]
  | drop _ txID ih =>
    rw [getTxRecord_deleteTxRecord, if_neg (prepare_ne_abort txID x), ih hes]

end

end Store.Ends

namespace KVServer

structure Holds (P : PreparedTxRecord → Prop) (kv : KVServer) : Prop where
  cached : ∀ (txID : String) (rec : PreparedTxRecord), kv.txMgr.preparedTxs[txID]? = some rec →
    rec.txID = txID ∧ P rec
  stored : ∀ (txID : String) (rec : PreparedTxRecord), kv.diskRecord txID = some rec →
    rec.txID = txID ∧ P rec

structure Ended (P : PreparedTxRecord → Prop) (E : Outcome → Prop) (kv kv' : KVServer) :
    Prop where
  ends : ∃ es, (∀ e ∈ es, E e) ∧ Store.Ends es kv.store kv'.store
  holds : kv'.Holds P
  decisions : ∀ txID, kv'.store.getTxRecord (txDecisionPrefix ++ txID) =
    kv.store.getTxRecord (txDecisionPrefix ++ txID)
  groupID : kv'.groupID = kv.groupID

def Answers (P : PreparedTxRecord → Prop) (E : Outcome → Prop) (net : Net) (kv : KVServer) : Prop :=
  ∀ rec, P rec →
    (kv.queryCoordinatorDecision net rec = .committed → E (.commit rec.txID rec.writeKeys)) ∧
      (kv.queryCoordinatorDecision net rec = .aborted → E (.abort rec.txID))

section

variable {P : PreparedTxRecord → Prop} {E : Outcome → Prop} {kv kv' kv'' : KVServer} {net : Net}
  {txID : String} {rec : PreparedTxRecord}

theorem Ended.refl (h : kv.Holds P) : Ended P E kv kv :=
  ⟨⟨[], by simp, .refl _⟩, h, fun _ => rfl, rfl⟩

theorem Ended.trans (h : Ended P E kv kv') (h' : Ended P E kv' kv'') : Ended P E kv kv'' := by
  obtain ⟨es, hes, hends⟩ := h.ends
  obtain ⟨es', hes', hends'⟩ := h'.ends
  refine ⟨⟨es ++ es', ?_, hends.trans hends'⟩, h'.holds,
    fun x => (h'.decisions x).trans (h.decisions x), h'.groupID.trans h.groupID⟩
  intro e he
  rcases mem_append.mp he with he | he
  · exact hes e he
  · exact hes' e he

theorem queryCoordinatorDecision_congr (hgrp : kv'.groupID = kv.groupID)
    (hdec : ∀ txID, kv'.store.getTxRecord (txDecisionPrefix ++ txID) =
      kv.store.getTxRecord (txDecisionPrefix ++ txID)) :
    kv'.queryCoordinatorDecision net rec = kv.queryCoordinatorDecision net rec := by
  unfold queryCoordinatorDecision
  rw [hgrp, hdec]

theorem Ended.answers (h : Ended P E kv kv') (hnet : kv.Answers P E net) : kv'.Answers P E net := by
  intro rec hrec
  rw [queryCoordinatorDecision_congr h.groupID h.decisions]
  exact hnet rec hrec

theorem Unmarked.unfinished (h : kv.Unmarked txID) : kv.store.finished txID = false := by
  rw [finished_eq, Bool.or_eq_false_iff]
  exact ⟨Bool.not_eq_true _ ▸ h.1, Bool.not_eq_true _ ▸ h.2⟩

theorem Ended.of_locks (h : kv.Holds P) (mu : Bool) (lockTable : ExtTreeMap String String) :
    Ended P E kv { kv with txMgr.mu := mu, txMgr.lockTable := lockTable } :=
  ⟨⟨[], by simp, .refl _⟩, ⟨h.cached, h.stored⟩, fun _ => rfl, rfl⟩

theorem Ended.of_cache (h : kv.Holds P) (hname : rec.txID = txID) (hrec : P rec)
    (lockTable : ExtTreeMap String String) :
    Ended P E kv { kv with
      txMgr.lockTable := lockTable
      txMgr.preparedTxs := kv.txMgr.preparedTxs.insert txID rec } := by
  refine ⟨⟨[], by simp, .refl _⟩, ⟨fun id rec' hrec' => ?_, h.stored⟩, fun _ => rfl, rfl⟩
  simp only [ExtTreeMap.getElem?_insert, LawfulEqCmp.compare_eq_iff_eq] at hrec'
  split at hrec'
  · rename_i hid
    cases hrec'
    exact ⟨hname.trans hid, hrec⟩
  · exact h.cached id rec' hrec'

theorem Ended.of_uncache (h : kv.Holds P) (txID : String) (lockTable : ExtTreeMap String String) :
    Ended P E kv { kv with
      txMgr.lockTable := lockTable
      txMgr.preparedTxs := kv.txMgr.preparedTxs.erase txID } := by
  refine ⟨⟨[], by simp, .refl _⟩, ⟨fun id rec hrec => ?_, h.stored⟩, fun _ => rfl, rfl⟩
  simp only [ExtTreeMap.getElem?_erase, LawfulEqCmp.compare_eq_iff_eq] at hrec
  split_ifs at hrec
  exact h.cached id rec hrec

theorem Ended.of_drop (h : kv.Holds P) (txID : String) :
    Ended P E kv { kv with store := kv.store.deleteTxRecord (txPreparePrefix ++ txID) } := by
  refine ⟨⟨[], by simp, .drop (.refl _) txID⟩, ⟨h.cached, fun id rec hrec => ?_⟩, fun x => ?_, rfl⟩
  · rw [diskRecord, getTxRecord_deleteTxRecord] at hrec
    split at hrec
    · cases hrec
    · exact h.stored id rec hrec
  · rw [getTxRecord_deleteTxRecord, if_neg (prepare_ne_decision txID x)]

theorem Ended.of_mark {kind : String} (hkind : kind = txCommitPrefix ∨ kind = txAbortPrefix)
    {e : Outcome} {store : Store} (h : kv.Holds P) (hE : E e)
    (hends : Store.Ends [e] kv.store store) (hsto : ∀ x, store.getTxRecord x =
      if kind ++ txID = x then some .mark else kv.store.getTxRecord x) :
    Ended P E kv { kv with store := store } := by
  have hpre : ∀ x, kind ++ txID ≠ txPreparePrefix ++ x := by
    rcases hkind with rfl | rfl
    · exact fun x => (prepare_ne_commit x txID).symm
    · exact fun x => (prepare_ne_abort x txID).symm
  have hdeci : ∀ x, kind ++ txID ≠ txDecisionPrefix ++ x := by
    rcases hkind with rfl | rfl
    · exact fun x => (decision_ne_commit x txID).symm
    · exact fun x => (decision_ne_abort x txID).symm
  refine ⟨⟨[e], by simpa using hE, hends⟩, ⟨h.cached, fun id rec hrec => ?_⟩, fun x => ?_, rfl⟩
  · rw [diskRecord, hsto, if_neg (hpre id)] at hrec
    exact h.stored id rec hrec
  · rw [hsto, if_neg (hdeci x)]

section

variable (h : kv.Holds P)

include h

theorem ended_forget (txID : String) (writeKeys : List WriteKey) :
    Ended P E kv (kv.forget txID writeKeys) :=
  have hdrop := Ended.of_drop (E := E) h txID
  hdrop.trans (.of_uncache hdrop.holds txID _)

theorem ended_applyCommit (hrec : rec.Within fun key => isUserKey key = true)
    (hopen : kv.store.finished txID = false) (hE : E (.commit txID rec.writeKeys)) :
    Ended P E kv (kv.applyCommit txID rec).1 := by
  rcases applyCommit_cases kv txID rec with heq | ⟨store, hbat, heq⟩ <;> rw [heq]
  · exact .refl h
  · have hmark : Ended P E kv { kv with store := store } :=
      .of_mark (Or.inl rfl) h hE ((Store.Ends.refl _).commit hopen hbat)
        (getTxRecord_writeBatchWithCASAndRecord (batchOps_user hrec) hbat)
    exact hmark.trans (ended_forget hmark.holds _ _)

theorem ended_executeCommit (hrec : rec.Within fun key => isUserKey key = true)
    (hopen : kv.store.finished rec.txID = false) (hE : E (.commit rec.txID rec.writeKeys)) :
    Ended P E kv (kv.executeCommit rec) := by
  rw [executeCommit_eq]
  exact ended_applyCommit h hrec hopen hE

theorem ended_abortMark (hopen : kv.store.finished txID = false)
    (hE : E (.abort txID)) :
    Ended P E kv { kv with store := kv.store.putTxRecord (txAbortPrefix ++ txID) .mark } :=
  .of_mark (Or.inr rfl) h hE ((Store.Ends.refl _).abort hopen)
    fun x => getTxRecord_putTxRecord _ x .mark

theorem ended_executeAbort (hopen : kv.store.finished rec.txID = false)
    (hE : E (.abort rec.txID)) : Ended P E kv (kv.executeAbort rec) := by
  have hmark := ended_abortMark (P := P) h hopen hE
  exact hmark.trans (ended_forget hmark.holds _ _)

end

variable (hP : ∀ rec, P rec → rec.Within fun key => isUserKey key = true) (h : kv.Holds P)

include hP h

theorem ended_resolvePrepared (hnet : kv.Answers P E net) (hrec : P rec)
    (hopen : kv.store.finished rec.txID = false) : Ended P E kv (kv.resolvePrepared net rec).1 := by
  rcases resolvePrepared_cases kv net rec with heq | ⟨hquery, heq⟩ | ⟨hquery, heq⟩ <;> rw [heq]
  · exact .refl h
  · exact ended_executeCommit h (hP rec hrec) hopen ((hnet rec hrec).1 hquery)
  · exact ended_executeAbort h hopen ((hnet rec hrec).2 hquery)

theorem ended_resolveLockLocked (hnet : kv.Answers P E net) (txID : String) :
    Ended P E kv (kv.resolveLockLocked net txID).1 := by
  rcases resolveLockLocked_cases kv net txID with
    heq | ⟨hopen, rec, ⟨hcac, heq⟩ | ⟨hdisk, heq⟩⟩ <;> rw [heq]
  · exact .of_locks h _ _
  · obtain ⟨rfl, hrec⟩ := h.cached txID rec hcac
    exact ended_resolvePrepared hP h hnet hrec hopen.unfinished
  · obtain ⟨rfl, hrec⟩ := h.stored txID rec hdisk
    have hcache := Ended.of_cache (E := E) h rfl hrec kv.txMgr.lockTable
    exact hcache.trans
      (ended_resolvePrepared hP hcache.holds (hcache.answers hnet) hrec hopen.unfinished)

omit hP in
theorem ended_installPrepared (hrec : P rec) : Ended P E kv (kv.installPrepared rec) := by
  have hsto : Ended P E kv
      { kv with store := kv.store.putTxRecord (txPreparePrefix ++ rec.txID) (.prepare rec) } := by
    refine ⟨⟨[], by simp, (Store.Ends.refl _).prepare rec⟩, ⟨h.cached, fun id rec' hrec' => ?_⟩,
      fun x => ?_, rfl⟩
    · rw [diskRecord, getTxRecord_putTxRecord] at hrec'
      split at hrec'
      · rename_i hid
        cases hrec'
        exact ⟨by simpa using hid, hrec⟩
      · exact h.stored id rec' hrec'
    · rw [getTxRecord_putTxRecord, if_neg (prepare_ne_decision _ x)]
  exact hsto.trans (.of_cache hsto.holds rfl hrec _)

theorem ended_prepare (hnet : kv.Answers P E net) {now : Int64}
    {args : PrepareTxArgs} {e : Err} (hargs : P (prepareRecord args now))
    (hrun : kv.prepare net now args = some (kv', e)) : Ended P E kv kv' := by
  obtain ⟨mid, hmid, rfl | rfl⟩ := prepare_keeps (fun mid _ holder hmid _ _ => hmid.trans
    (ended_resolveLockLocked hP hmid.holds (hmid.answers hnet) holder)) (Ended.refl h) hrun
  · exact hmid
  · exact hmid.trans (ended_installPrepared hmid.holds hargs)

theorem ended_commit {e : Err}
    (hE : ∀ rec, P rec → rec.txID = txID → E (.commit txID rec.writeKeys))
    (hrun : kv.commit txID = some (kv', e)) : Ended P E kv kv' := by
  rcases commit_cases hrun with rfl | ⟨hopen, ⟨-, rfl⟩ | ⟨mid, rec, hload, hap⟩⟩
  · exact .refl h
  · exact .of_locks h true _
  · obtain ⟨hloa, hsto, hname, hrec⟩ :
        Ended P E kv mid ∧ mid.store = kv.store ∧ rec.txID = txID ∧ P rec := by
      rcases loadPrepared_cases hload with ⟨hcac, rfl⟩ | ⟨hdisk, rfl⟩
      · exact ⟨.refl h, rfl, h.cached txID rec hcac⟩
      · obtain ⟨hname, hrec⟩ := h.stored txID rec hdisk
        exact ⟨.of_cache h hname hrec _, rfl, hname, hrec⟩
    have hdone := hloa.trans (ended_applyCommit hloa.holds (hP rec hrec)
      (by rw [hsto]; exact hopen.unfinished) (hE rec hrec hname))
    rw [hap] at hdone
    exact hdone

omit hP in
theorem ended_aborted (hopen : kv.Unmarked txID) (hE : E (.abort txID))
    (locks : ExtTreeMap String String) :
    Ended P E kv { kv with
      store := (kv.store.putTxRecord (txAbortPrefix ++ txID) .mark).deleteTxRecord
        (txPreparePrefix ++ txID)
      txMgr.lockTable := locks
      txMgr.preparedTxs := kv.txMgr.preparedTxs.erase txID } := by
  have hmark := ended_abortMark (P := P) h hopen.unfinished hE
  have hdrop := hmark.trans (.of_drop hmark.holds txID)
  exact hdrop.trans (.of_uncache hdrop.holds txID locks)

omit hP in
theorem ended_abort {e : Err} (hE : E (.abort txID))
    (hrun : kv.abort txID = some (kv', e)) : Ended P E kv kv' := by
  rcases abort_cases hrun with rfl | ⟨hopen, locks, rfl, -⟩
  · exact .refl h
  · exact ended_aborted h hopen hE locks

omit hP in
theorem ended_resolveTxStatus {now : Int64} {reply : ResolveTxStatusReply}
    (hE : ∀ rec, P rec → rec.txID = txID → rec.participantGroupIDs = [] → E (.abort txID))
    (hrun : kv.resolveTxStatus now txID = some (kv', reply)) : Ended P E kv kv' := by
  rcases resolveTxStatus_cases hrun with rfl | ⟨hopen, rec, hdisk, hsin, rfl⟩
  · exact .refl h
  · obtain ⟨hname, hrec⟩ := h.stored txID rec hdisk
    exact ended_aborted h hopen (hE rec hrec hname hsin) _

theorem ended_rebuildRecord (hnet : kv.Answers P E net) {item : String × Document}
    (hitem : ∀ rec, item.2.toPrepared? = some rec → P rec) :
    Ended P E kv (rebuildRecord net kv item) := by
  unfold rebuildRecord
  split
  · exact .refl h
  · rename_i rec hdoc
    have hrec := hitem rec hdoc
    split_ifs with hmar
    · exact .of_drop h rec.txID
    · have hopen : kv.store.finished rec.txID = false := by
        rwa [Bool.not_eq_true] at hmar
      split
      · rename_i hquery
        exact ended_executeCommit h (hP rec hrec) hopen ((hnet rec hrec).1 hquery)
      · rename_i hquery
        exact ended_executeAbort h hopen ((hnet rec hrec).2 hquery)
      all_goals exact .of_cache h rfl hrec _

theorem ended_rebuildLockTable (hnet : kv.Answers P E net) {records : List (String × Document)}
    (hrecord : ∀ item ∈ records, ∀ rec, item.2.toPrepared? = some rec → P rec)
    (hrun : kv.rebuildLockTable net records = some kv') : Ended P E kv kv' := by
  unfold rebuildLockTable at hrun
  split_ifs at hrun
  have hclear : Ended P E kv { kv with txMgr.lockTable := ∅, txMgr.preparedTxs := ∅ } :=
    ⟨⟨[], by simp, .refl _⟩, ⟨fun id rec hrec => by simp at hrec, h.stored⟩, fun _ => rfl, rfl⟩
  have hfold : ∀ (items : List (String × Document)) (mid : KVServer),
      (∀ item ∈ items, ∀ rec, item.2.toPrepared? = some rec → P rec) → Ended P E kv mid →
        Ended P E kv (items.foldl (rebuildRecord net) mid) := by
    intro items
    induction items with
    | nil => exact fun _ _ hmid => hmid
    | cons item items ih =>
      intro mid hitems hmid
      refine ih _ (fun i hi => hitems i (mem_cons_of_mem item hi)) (hmid.trans ?_)
      exact ended_rebuildRecord hP hmid.holds (hmid.answers hnet) (hitems item mem_cons_self)
  rw [← Option.some.inj hrun]
  exact hfold records _ hrecord hclear

end

theorem recordDecision_ok {kv : KVServer} {args : RecordTxDecisionArgs}
    (hok : (kv.recordDecision args).2 = .ok) :
    ((kv.recordDecision args).1.store.getTxRecord (txDecisionPrefix ++ args.txID)).bind
      (fun raw => raw.toDecision?.map (·.decision)) = some args.decision := by
  unfold recordDecision at hok ⊢
  split_ifs at hok with hvalid
  rw [if_neg hvalid]
  cases hraw : kv.store.getTxRecord (txDecisionPrefix ++ args.txID) with
  | some raw =>
    rw [hraw] at hok
    dsimp only at hok ⊢
    split_ifs at hok with hsame
    rw [if_pos hsame, hraw]
    exact hsame
  | none =>
    dsimp only
    rw [getTxRecord_putTxRecord, if_pos rfl]
    rfl

theorem ends_recordDecision (kv : KVServer) (args : RecordTxDecisionArgs) :
    Store.Ends [] kv.store (kv.recordDecision args).1.store := by
  rcases recordDecision_cases kv args with heq | ⟨hnone, heq⟩ <;> rw [heq]
  · exact .refl _
  · exact (Store.Ends.refl _).decision hnone _

theorem Holds.recordDecision {P : PreparedTxRecord → Prop} {kv : KVServer} (h : kv.Holds P)
    (args : RecordTxDecisionArgs) : (kv.recordDecision args).1.Holds P := by
  rcases recordDecision_cases kv args with heq | ⟨-, heq⟩ <;> rw [heq]
  · exact h
  · refine ⟨h.cached, fun id rec hrec => ?_⟩
    rw [diskRecord, getTxRecord_putTxRecord, if_neg (prepare_ne_decision id args.txID).symm] at hrec
    exact h.stored id rec hrec

end KVServer

end OrbisKV.KV
