import OrbisKV.KV.Serving
/-!
# Transactions that the store determines

`RebuildLockTable` rebuilds the lock table and the cache of prepared transactions
from the records of the store.
-/

namespace OrbisKV.KV

open Std KVServer Option Store

def PreparedTxRecord.writes (rec : PreparedTxRecord) (key : String) : Prop :=
  ∃ wk ∈ rec.writeKeys, wk.key = key

namespace Store

variable {s s' : Store}

theorem finished_eq (s : Store) (txID : String) :
    s.finished txID = ((s.getTxRecord (txCommitPrefix ++ txID)).isSome ||
      (s.getTxRecord (txAbortPrefix ++ txID)).isSome) := rfl

theorem commit_ne_abort (x y : String) : txCommitPrefix ++ x ≠ txAbortPrefix ++ y :=
  append_ne_append (by decide) (by decide) (by decide) x y

theorem decision_ne_commit (x y : String) : txDecisionPrefix ++ x ≠ txCommitPrefix ++ y :=
  append_ne_append (by decide) (by decide) (by decide) x y

theorem decision_ne_abort (x y : String) : txDecisionPrefix ++ x ≠ txAbortPrefix ++ y :=
  append_ne_append (by decide) (by decide) (by decide) x y

theorem finished_putPrepare (s : Store) (txID : String) (d : Document) (x : String) :
    (s.putTxRecord (txPreparePrefix ++ txID) d).finished x = s.finished x := by
  rw [finished_eq, finished_eq, getTxRecord_putTxRecord, getTxRecord_putTxRecord,
    if_neg (prepare_ne_commit txID x), if_neg (prepare_ne_abort txID x)]

theorem finished_putDecision (s : Store) (txID : String) (d : Document) (x : String) :
    (s.putTxRecord (txDecisionPrefix ++ txID) d).finished x = s.finished x := by
  rw [finished_eq, finished_eq, getTxRecord_putTxRecord, getTxRecord_putTxRecord,
    if_neg (decision_ne_commit txID x), if_neg (decision_ne_abort txID x)]

theorem getTxRecord_writeBatchWithCASAndRecord {ops : List WriteBatchOp} {recordKey : String}
    {recordData : Document} (hops : ∀ op ∈ ops, isUserKey op.key = true)
    (h : s.writeBatchWithCASAndRecord ops recordKey recordData = .ok s') (x : String) :
    s'.getTxRecord x = if recordKey = x then some recordData else s.getTxRecord x := by
  unfold writeBatchWithCASAndRecord at h
  split at h
  · cases h
  · rename_i mid hmid
    cases h
    rw [getTxRecord_putTxRecord]
    have hframe : mid[txKeyPrefix ++ x]? = s[txKeyPrefix ++ x]? :=
      writeBatchWithCASInTxn_frame hmid fun op hop heq => txKey_ne (hops op hop) x heq.symm
    rw [show mid.getTxRecord x = s.getTxRecord x from hframe]

end Store

namespace KVServer

theorem getElem?_installPrepared (kv : KVServer) (rec : PreparedTxRecord) (x : String) :
    (kv.installPrepared rec).txMgr.preparedTxs[x]? =
      if rec.txID = x then some rec else kv.txMgr.preparedTxs[x]? := by
  simp [installPrepared, ExtTreeMap.getElem?_insert]

/-- The transaction state is what the records of the store say: the cache holds the
prepare records, none of them is finished, and a key is locked exactly by the
prepared transaction that writes it. -/
structure Tidy (kv : KVServer) : Prop where
  free : kv.txMgr.mu = false
  within : kv.Within fun key => isUserKey key = true
  cached : ∀ txID, kv.store.getTxRecord (txPreparePrefix ++ txID) =
    kv.txMgr.preparedTxs[txID]?.map .prepare
  named : ∀ (txID : String) (rec : PreparedTxRecord), kv.txMgr.preparedTxs[txID]? = some rec →
    rec.txID = txID
  pending : ∀ (txID : String) (rec : PreparedTxRecord), kv.txMgr.preparedTxs[txID]? = some rec →
    kv.store.finished txID = false
  locks : ∀ key txID : String, kv.txMgr.lockTable[key]? = some txID ↔
    ∃ rec, kv.txMgr.preparedTxs[txID]? = some rec ∧ rec.writes key

namespace Tidy

variable {kv kv' : KVServer}

theorem of_records (h : kv.Tidy) (htx : kv'.txMgr = kv.txMgr)
    (hwithin : kv'.Within fun key => isUserKey key = true)
    (hpre : ∀ x, kv'.store.getTxRecord (txPreparePrefix ++ x) =
      kv.store.getTxRecord (txPreparePrefix ++ x))
    (hfin : ∀ x, kv'.store.finished x = kv.store.finished x) : kv'.Tidy := by
  refine ⟨?_, hwithin, ?_, ?_, ?_, ?_⟩ <;> simp only [htx, hpre, hfin]
  exacts [h.free, h.cached, h.named, h.pending, h.locks]

theorem lockedBy_iff (h : kv.Tidy) {txID : String} {rec : PreparedTxRecord}
    (hcac : kv.txMgr.preparedTxs[txID]? = some rec) (key : String) :
    kv.txMgr.lockTable[key]? = some txID ↔ rec.writes key := by
  rw [h.locks]
  constructor
  · rintro ⟨rec', hrec', hwri⟩
    rw [hcac] at hrec'
    cases hrec'
    exact hwri
  · intro hwri
    exact ⟨rec, hcac, hwri⟩

theorem uncached_holds_no_lock (h : kv.Tidy) {txID : String}
    (hcac : kv.txMgr.preparedTxs[txID]? = none) (key : String) :
    kv.txMgr.lockTable[key]? ≠ some txID := by
  rw [Ne, h.locks]
  rintro ⟨rec, hrec, -⟩
  rw [hcac] at hrec
  cases hrec

end Tidy

structure Closes (txID : String) (kv kv' : KVServer) : Prop where
  mu : kv'.txMgr.mu = kv.txMgr.mu
  within : kv'.Within fun key => isUserKey key = true
  cache : ∀ x : String, kv'.txMgr.preparedTxs[x]? =
    if txID = x then none else kv.txMgr.preparedTxs[x]?
  records : ∀ x, kv'.store.getTxRecord (txPreparePrefix ++ x) =
    if txID = x then none else kv.store.getTxRecord (txPreparePrefix ++ x)
  marks : ∀ x, txID ≠ x → kv'.store.finished x = kv.store.finished x
  locks : ∀ key : String, kv'.txMgr.lockTable[key]? =
    kv.txMgr.lockTable[key]?.filter fun holder => holder ≠ txID

theorem Closes.tidy {txID : String} {kv kv' : KVServer} (hc : Closes txID kv kv') (h : kv.Tidy) :
    kv'.Tidy := by
  refine ⟨hc.mu.trans h.free, hc.within, ?_, ?_, ?_, ?_⟩
  · intro x
    rw [hc.records, hc.cache]
    split
    · rfl
    · exact h.cached x
  · intro x rec hrec
    rw [hc.cache] at hrec
    split_ifs at hrec
    exact h.named x rec hrec
  · intro x rec hrec
    rw [hc.cache] at hrec
    split_ifs at hrec with hne
    rw [hc.marks x hne]
    exact h.pending x rec hrec
  · intro key x
    rw [hc.locks, filter_eq_some_iff, hc.cache, h.locks]
    by_cases hx : txID = x
    · simp [hx]
    · simp [hx, Ne.symm hx]

section

variable {kv kv' : KVServer} {txID : String} {rec : PreparedTxRecord}

theorem closes_of_mark {kind : String} (hkind : kind = txCommitPrefix ∨ kind = txAbortPrefix)
    {store : Store} (hstore : ∀ x, store.getTxRecord x =
      if kind ++ txID = x then some .mark else kv.store.getTxRecord x)
    (hwithin : kv'.Within fun key => isUserKey key = true)
    (hkv' : kv'.store = store.deleteTxRecord (txPreparePrefix ++ txID))
    (hmu : kv'.txMgr.mu = kv.txMgr.mu)
    (hcache : kv'.txMgr.preparedTxs = kv.txMgr.preparedTxs.erase txID)
    (hlocks : ∀ key : String, kv'.txMgr.lockTable[key]? =
      kv.txMgr.lockTable[key]?.filter fun holder => holder ≠ txID) : Closes txID kv kv' := by
  have hpre : ∀ x, kind ++ txID ≠ txPreparePrefix ++ x := by
    rcases hkind with rfl | rfl
    · exact fun x => (prepare_ne_commit x txID).symm
    · exact fun x => (prepare_ne_abort x txID).symm
  refine ⟨hmu, hwithin, ?_, ?_, ?_, hlocks⟩
  · intro x
    rw [hcache]
    simp [ExtTreeMap.getElem?_erase]
  · intro x
    rw [hkv', getTxRecord_deleteTxRecord, hstore, if_neg (hpre x)]
    simp
  · intro x hne
    have hsame : ∀ {k : String}, k = txCommitPrefix ∨ k = txAbortPrefix →
        kv'.store.getTxRecord (k ++ x) = kv.store.getTxRecord (k ++ x) := by
      intro k hk
      have hother : kind ++ txID ≠ k ++ x := by
        rcases hkind with rfl | rfl <;> rcases hk with rfl | rfl
        · simpa using hne
        · exact commit_ne_abort txID x
        · exact (commit_ne_abort x txID).symm
        · simpa using hne
      have hkept : txPreparePrefix ++ txID ≠ k ++ x := by
        rcases hk with rfl | rfl
        · exact prepare_ne_commit txID x
        · exact prepare_ne_abort txID x
      rw [hkv', getTxRecord_deleteTxRecord, if_neg hkept, hstore, if_neg hother]
    rw [finished_eq, finished_eq, hsame (.inl rfl), hsame (.inr rfl)]

theorem filter_ne_holder {lock : Option String} (h : lock ≠ some txID) :
    lock.filter (fun holder => holder ≠ txID) = lock := by
  cases lock with
  | none => rfl
  | some holder => simpa [Option.filter] using h

section

variable (h : kv.Tidy) (hcac : kv.txMgr.preparedTxs[txID]? = some rec)

include h hcac

theorem Tidy.getElem?_unlockKeys
    (key : String) : (unlockKeys kv.txMgr.lockTable rec.writeKeys)[key]? =
      kv.txMgr.lockTable[key]?.filter fun holder => holder ≠ txID := by
  have hiff := h.lockedBy_iff hcac key
  rw [KVServer.getElem?_unlockKeys]
  split
  · rename_i hwri
    rw [hiff.mpr hwri]
    simp [Option.filter]
  · rename_i hwri
    exact (filter_ne_holder fun heq => hwri (hiff.mp heq)).symm

theorem Tidy.getElem?_unlockHeld
    (key : String) : (unlockHeld kv.txMgr.lockTable txID rec.writeKeys)[key]? =
      kv.txMgr.lockTable[key]?.filter fun holder => holder ≠ txID := by
  have hiff := h.lockedBy_iff hcac key
  rw [← h.getElem?_unlockKeys hcac, KVServer.getElem?_unlockHeld, KVServer.getElem?_unlockKeys]
  by_cases hwri : ∃ wk ∈ rec.writeKeys, wk.key = key
  · rw [if_pos ⟨hwri, hiff.mpr hwri⟩, if_pos hwri]
  · rw [if_neg fun hand => hwri hand.1, if_neg hwri]

theorem Tidy.batchOps_user : ∀ op ∈ batchOps rec.writeKeys, isUserKey op.key = true := by
  intro op hop
  obtain ⟨wk, hwk, rfl⟩ := List.mem_map.mp hop
  exact h.within.cached txID rec hcac wk hwk

theorem Tidy.applyCommit :
    (kv.applyCommit txID rec).1 = kv ∨ Closes txID kv (kv.applyCommit txID rec).1 := by
  have hmv := moved_applyCommit (K := fun key => isUserKey key = true) h.within
    (fun _ hk => hk) txID (h.within.cached txID rec hcac)
  rcases applyCommit_cases kv txID rec with heq | ⟨store, hbat, heq⟩ <;> rw [heq] at hmv ⊢
  · exact .inl rfl
  · exact .inr (closes_of_mark (.inl rfl)
      (getTxRecord_writeBatchWithCASAndRecord (h.batchOps_user hcac) hbat)
      hmv.within rfl rfl rfl (h.getElem?_unlockKeys hcac))

theorem Tidy.executeCommit : kv.executeCommit rec = kv ∨ Closes txID kv (kv.executeCommit rec) := by
  obtain rfl := h.named txID rec hcac
  rw [executeCommit_eq]
  exact h.applyCommit hcac

theorem Tidy.executeAbort : Closes txID kv (kv.executeAbort rec) := by
  have hmv := moved_executeAbort (K := fun key => isUserKey key = true) h.within rec
  obtain rfl := h.named txID rec hcac
  exact closes_of_mark (.inr rfl) (fun x => getTxRecord_putTxRecord _ x .mark)
    hmv.within rfl rfl rfl (h.getElem?_unlockKeys hcac)

end

end

structure Resolves (txID : String) (kv kv' : KVServer) : Prop where
  tidy : kv'.Tidy
  cache : kv'.txMgr.preparedTxs[txID]? = kv.txMgr.preparedTxs[txID]?
  finished : kv'.store.finished txID = kv.store.finished txID
  locks : ∀ key holder : String, kv'.txMgr.lockTable[key]? = some holder →
    kv.txMgr.lockTable[key]? = some holder

section

variable {kv kv' kv'' : KVServer} {txID : String} {holder : String}

theorem Resolves.refl (h : kv.Tidy) : Resolves txID kv kv := ⟨h, rfl, rfl, fun _ _ h => h⟩

theorem Resolves.trans (h : Resolves txID kv kv') (h' : Resolves txID kv' kv'') :
    Resolves txID kv kv'' :=
  ⟨h'.tidy, h'.cache.trans h.cache, h'.finished.trans h.finished,
    fun key holder hlock => h.locks key holder (h'.locks key holder hlock)⟩

theorem Closes.resolves (hc : Closes holder kv kv') (h : kv.Tidy) (hne : holder ≠ txID) :
    Resolves txID kv kv' := by
  refine ⟨hc.tidy h, ?_, hc.marks txID hne, ?_⟩
  · rw [hc.cache, if_neg hne]
  · intro key other hlock
    rw [hc.locks, filter_eq_some_iff] at hlock
    exact hlock.1

theorem Tidy.unmarked (h : kv.Tidy) {rec : PreparedTxRecord}
    (hcac : kv.txMgr.preparedTxs[txID]? = some rec) :
    kv.hasRecord txCommitPrefix txID = false ∧ kv.hasRecord txAbortPrefix txID = false := by
  have hpen := h.pending txID rec hcac
  rwa [finished_eq, Bool.or_eq_false_iff] at hpen

theorem Tidy.resolveLockLocked_eq (h : kv.Tidy) (net : Net) {rec : PreparedTxRecord}
    (hcac : kv.txMgr.preparedTxs[holder]? = some rec) :
    kv.resolveLockLocked net holder = kv.resolvePrepared net rec := by
  unfold resolveLockLocked
  rw [(h.unmarked hcac).1, (h.unmarked hcac).2, hcac]
  rfl

theorem Tidy.resolveLockLocked (h : kv.Tidy) (net : Net) {key : String}
    (hlock : kv.txMgr.lockTable[key]? = some holder) (hne : holder ≠ txID) :
    Resolves txID kv (kv.resolveLockLocked net holder).1 := by
  obtain ⟨rec, hcac, -⟩ := (h.locks key holder).mp hlock
  rw [h.resolveLockLocked_eq net hcac]
  rcases resolvePrepared_cases kv net rec with heq | ⟨-, heq⟩ | ⟨-, heq⟩ <;> rw [heq]
  · exact .refl h
  · rcases h.executeCommit hcac with hsame | hclo
    · rw [hsame]
      exact .refl h
    · exact hclo.resolves h hne
  · exact (h.executeAbort hcac).resolves h hne

theorem otherHolder_eq_none_of_locks {kv kv' : KVServer} {key : String}
    (hlocks : ∀ key holder : String, kv'.txMgr.lockTable[key]? = some holder →
      kv.txMgr.lockTable[key]? = some holder) (h : kv.otherHolder txID key = none) :
    kv'.otherHolder txID key = none := by
  rw [otherHolder, filter_eq_none_iff] at h ⊢
  exact fun holder hlock => h holder (hlocks key holder hlock)

theorem Tidy.resolveConflicts (h : kv.Tidy) (net : Net) {writeKeys : List WriteKey} {free : Bool}
    (hrun : KVServer.resolveConflicts net txID kv writeKeys = (kv', free)) :
    Resolves txID kv kv' ∧
      (free = true → ∀ wk ∈ writeKeys, kv'.otherHolder txID wk.key = none) := by
  induction writeKeys generalizing kv with
  | nil =>
    cases hrun
    exact ⟨.refl h, by simp⟩
  | cons wk wks ih =>
    rw [KVServer.resolveConflicts] at hrun
    cases hhol : kv.otherHolder txID wk.key with
    | none =>
      rw [hhol] at hrun
      obtain ⟨hres, hfree⟩ := ih h hrun
      refine ⟨hres, fun hf => List.forall_mem_cons.mpr ⟨?_, hfree hf⟩⟩
      exact otherHolder_eq_none_of_locks hres.locks hhol
    | some holder =>
      have hother := hhol
      rw [otherHolder, filter_eq_some_iff, decide_eq_true_eq] at hother
      have hstep := h.resolveLockLocked net hother.1 hother.2
      rw [hhol] at hrun
      dsimp only at hrun
      generalize kv.resolveLockLocked net holder = result at hrun hstep
      obtain ⟨mid, resolved⟩ := result
      cases resolved with
      | false =>
        cases hrun
        exact ⟨hstep, by simp⟩
      | true =>
        dsimp only at hrun
        split_ifs at hrun with hstill
        · cases hrun
          exact ⟨hstep, by simp⟩
        · obtain ⟨hres, hfree⟩ := ih hstep.tidy hrun
          refine ⟨hstep.trans hres, fun hf => List.forall_mem_cons.mpr ⟨?_, hfree hf⟩⟩
          rw [not_isSome_iff_eq_none] at hstill
          exact otherHolder_eq_none_of_locks hres.locks hstill

theorem Tidy.resolveConflicts_rule {net : Net} {I : KVServer → Prop}
    (hcom : ∀ (kv : KVServer) (x : String) rec, kv.Tidy → I kv →
      kv.txMgr.preparedTxs[x]? = some rec →
        kv.queryCoordinatorDecision net rec = .committed → I (kv.executeCommit rec))
    (hab : ∀ (kv : KVServer) (x : String) rec, kv.Tidy → I kv →
      kv.txMgr.preparedTxs[x]? = some rec →
        kv.queryCoordinatorDecision net rec = .aborted → I (kv.executeAbort rec))
    (h : kv.Tidy) (hI : I kv) (txID : String) (writeKeys : List WriteKey) :
    I (KVServer.resolveConflicts net txID kv writeKeys).1 := by
  refine (resolveConflicts_keeps (I := fun kv => kv.Tidy ∧ I kv) ?_ ⟨h, hI⟩ writeKeys).2
  rintro mid key holder ⟨htidy, hmid⟩ hlock hne
  refine ⟨(htidy.resolveLockLocked net hlock hne).tidy, ?_⟩
  obtain ⟨rec, hcac, -⟩ := (htidy.locks key holder).mp hlock
  rw [htidy.resolveLockLocked_eq net hcac]
  rcases resolvePrepared_cases mid net rec with heq | ⟨hquery, heq⟩ | ⟨hquery, heq⟩ <;> rw [heq]
  · exact hmid
  · exact hcom mid holder rec htidy hmid hcac hquery
  · exact hab mid holder rec htidy hmid hcac hquery

theorem Tidy.installPrepared (h : kv.Tidy) {rec : PreparedTxRecord}
    (hrec : rec.Within fun key => isUserKey key = true) (hopen : kv.store.finished rec.txID = false)
    (hcov : ∀ old, kv.txMgr.preparedTxs[rec.txID]? = some old →
      ∀ key, old.writes key → rec.writes key)
    (hunl : ∀ wk ∈ rec.writeKeys, kv.otherHolder rec.txID wk.key = none) :
    (kv.installPrepared rec).Tidy := by
  have hmv := moved_installPrepared (K := fun key => isUserKey key = true) h.within hrec
  refine ⟨h.free, hmv.within, ?_, ?_, ?_, ?_⟩
  · intro x
    rw [getElem?_installPrepared]
    refine (getTxRecord_putTxRecord _ _ _).trans ?_
    by_cases hx : rec.txID = x
    · simp [hx]
    · simpa [hx] using h.cached x
  · intro x old hold
    rw [getElem?_installPrepared] at hold
    split at hold
    · cases hold
      assumption
    · exact h.named x old hold
  · intro x old hold
    refine (finished_putPrepare _ _ _ x).trans ?_
    rw [getElem?_installPrepared] at hold
    split at hold
    · rename_i hx
      rw [← hx]
      exact hopen
    · exact h.pending x old hold
  · intro key x
    have htable : (kv.installPrepared rec).txMgr.lockTable[key]? =
        if ∃ wk ∈ rec.writeKeys, wk.key = key then some rec.txID
        else kv.txMgr.lockTable[key]? := getElem?_lockKeys _ _ _ _
    rw [htable, getElem?_installPrepared]
    by_cases hx : rec.txID = x
    · subst hx
      rw [if_pos rfl]
      constructor
      · intro hlock
        split at hlock
        · exact ⟨rec, rfl, ‹_›⟩
        · obtain ⟨old, hold, hwri⟩ := (h.locks key rec.txID).mp hlock
          exact ⟨rec, rfl, hcov old hold key hwri⟩
      · rintro ⟨_, heq, hwri⟩
        cases heq
        exact if_pos hwri
    · rw [if_neg hx, ← h.locks]
      split
      · -- a key of the new record was not locked by another transaction
        rename_i hwri
        obtain ⟨wk, hwk, rfl⟩ := hwri
        have hnone := hunl wk hwk
        rw [otherHolder, filter_eq_none_iff] at hnone
        constructor
        · intro heq
          exact absurd (Option.some.inj heq) hx
        · intro hlock
          have hcon := hnone x hlock
          simp [Ne.symm hx] at hcon
      · rfl

end

def orderly (kv : KVServer) : Request → Bool
  | .put args => isUserKey args.key
  | .delete key => isUserKey key
  | .cleanupShard args => args.keys.all fun k => isUserKey k.key
  | .expire args => args.keys.all isUserKey
  | .prepareTx args =>
    (args.writeKeys.all fun wk => isUserKey wk.key) && !kv.store.finished args.txID &&
      (kv.diskRecord args.txID).all fun old =>
        old.writeKeys.all fun wk => args.writeKeys.any fun wk' => wk'.key = wk.key
  | .commitTx args => kv.store.finished args.txID || !kv.undecided args.txID
  | _ => true

section

variable {kv kv' : KVServer} {txID : String}

section

variable (h : kv.Tidy)

include h

theorem Tidy.diskRecord_eq (txID : String) : kv.diskRecord txID = kv.txMgr.preparedTxs[txID]? := by
  rw [diskRecord, h.cached]
  cases kv.txMgr.preparedTxs[txID]? <;> rfl

theorem Tidy.of_wrote (hw : Wrote (fun key => isUserKey key = true) kv kv') : kv'.Tidy := by
  have hrec : ∀ x, kv'.store.getTxRecord x = kv.store.getTxRecord x := by
    intro x
    apply hw.store.getElem?
    rw [isUserKey_txKey]
    decide
  refine h.of_records (by rw [hw.rest]) (hw.moved h.within).within (fun x => hrec _) fun x => ?_
  rw [finished_eq, finished_eq, hrec, hrec]

theorem Tidy.prepare {net : Net} {now : Int64} {args : PrepareTxArgs} {e : Err}
    (hargs : kv.orderly (.prepareTx args) = true)
    (hrun : kv.prepare net now args = some (kv', e)) : kv'.Tidy := by
  simp only [orderly, Bool.and_eq_true, Bool.not_eq_true', List.all_eq_true, List.any_eq_true,
    all_eq_true, decide_eq_true_eq] at hargs
  obtain ⟨⟨huser, hopen⟩, hcov⟩ := hargs
  obtain ⟨mid, free, hconf, hcases⟩ := prepare_cases hrun
  obtain ⟨hres, hfree⟩ := h.resolveConflicts net hconf
  rcases hcases with ⟨rfl, -⟩ | ⟨hok, -, -, rfl⟩
  · exact hres.tidy
  · have huser' : (prepareRecord args now).Within fun key => isUserKey key = true := huser
    refine hres.tidy.installPrepared huser' (hres.finished.trans hopen) ?_ (hfree hok)
    rintro old hold key ⟨wk, hwk, rfl⟩
    have hdisk : kv.diskRecord args.txID = some old := by
      rw [h.diskRecord_eq, ← hres.cache]
      exact hold
    obtain ⟨wk', hwk', heq⟩ := hcov old hdisk wk hwk
    exact ⟨wk', hwk', heq⟩

theorem Tidy.loadPrepared_eq (id : String) :
    kv.loadPrepared id = kv.txMgr.preparedTxs[id]?.map fun rec => (kv, rec) := by
  unfold loadPrepared
  rw [h.diskRecord_eq]
  cases kv.txMgr.preparedTxs[id]? <;> rfl

theorem Tidy.commit_cases {e : Err} (hargs : (kv.store.finished txID || !kv.undecided txID) = true)
    (hrun : kv.commit txID = some (kv', e)) :
    kv' = kv ∨ ∃ rec, kv.txMgr.preparedTxs[txID]? = some rec ∧
      kv' = (kv.applyCommit txID rec).1 := by
  rcases KVServer.commit_cases hrun with hsame | ⟨hopen, ⟨hund, -⟩ | ⟨mid, rec, hload, hap⟩⟩
  · exact .inl hsame
  · rw [hund, Bool.not_true, Bool.or_false] at hargs
    exact absurd ((finished_iff_hasRecord kv txID).mp hargs) (not_or.mpr hopen)
  · rw [h.loadPrepared_eq] at hload
    obtain ⟨rec', hcac, hpair⟩ := map_eq_some_iff.mp hload
    cases hpair
    exact .inr ⟨rec, hcac, by rw [hap]⟩

theorem Tidy.commit {e : Err} (hargs : (kv.store.finished txID || !kv.undecided txID) = true)
    (hrun : kv.commit txID = some (kv', e)) : kv'.Tidy := by
  rcases h.commit_cases hargs hrun with rfl | ⟨rec, hcac, rfl⟩
  · exact h
  · rcases h.applyCommit hcac with hsame | hclo
    · rw [hsame]
      exact h
    · exact hclo.tidy h

theorem Tidy.abort_cases {e : Err} (hrun : kv.abort txID = some (kv', e)) :
    kv' = kv ∨ Closes txID kv kv' ∧ kv'.store =
      (kv.store.putTxRecord (txAbortPrefix ++ txID) .mark).deleteTxRecord
        (txPreparePrefix ++ txID) := by
  have hwithin := (moved_abort (K := fun key => isUserKey key = true) h.within hrun).within
  rcases KVServer.abort_cases hrun with hsame | ⟨-, locks, rfl, hlocks⟩
  · exact .inl hsame
  · refine .inr ⟨closes_of_mark (.inr rfl)
      (fun x => getTxRecord_putTxRecord _ x .mark) hwithin rfl rfl rfl ?_, rfl⟩
    rcases hlocks with ⟨hnone, rfl⟩ | ⟨rec, hcac, rfl⟩
    · exact fun key => (filter_ne_holder (h.uncached_holds_no_lock hnone key)).symm
    · exact h.getElem?_unlockHeld hcac

theorem Tidy.abort {e : Err} (hrun : kv.abort txID = some (kv', e)) : kv'.Tidy := by
  rcases h.abort_cases hrun with rfl | ⟨hclo, -⟩
  · exact h
  · exact hclo.tidy h

theorem Tidy.resolveTxStatus {now : Int64} {reply : ResolveTxStatusReply}
    (hrun : kv.resolveTxStatus now txID = some (kv', reply)) : kv'.Tidy := by
  have hwithin :=
    (moved_resolveTxStatus (K := fun key => isUserKey key = true) h.within hrun).within
  rcases resolveTxStatus_cases hrun with rfl | ⟨-, rec, -, -, rfl⟩
  · exact h
  · exact (closes_of_mark (.inr rfl) (fun x => getTxRecord_putTxRecord _ x .mark) hwithin
      rfl rfl rfl fun _ => ExtTreeMap.getElem?_filter').tidy h

theorem Tidy.recordDecision (args : RecordTxDecisionArgs) : (kv.recordDecision args).1.Tidy := by
  have hwithin :=
    (moved_recordDecision (K := fun key => isUserKey key = true) h.within args).within
  rcases recordDecision_cases kv args with hsame | ⟨-, hsto⟩
  · rw [hsame]
    exact h
  · rw [hsto] at hwithin ⊢
    refine h.of_records rfl hwithin (fun x => ?_) fun x => ?_
    · rw [getTxRecord_putTxRecord, if_neg (prepare_ne_decision x args.txID).symm]
    · exact finished_putDecision _ _ _ x

theorem Tidy.doOp {hash : String → UInt64} {net : Net} {clock : Clock}
    {req : Request} {reply : Reply} (hreq : kv.orderly req = true)
    (hrun : kv.doOp hash net clock req = some (kv', reply)) : kv'.Tidy := by
  cases htx : isTxCommand req with
  | false =>
    have hwithin : req.Within (fun key => isUserKey key = true) fun _ => True := by
      cases req <;> simp_all [orderly, Request.Within]
    rcases wrote_doOp hwithin htx hrun with hw | ⟨-, mgr, rfl⟩
    · exact h.of_wrote hw
    · exact h.of_records rfl ⟨h.within.cached, h.within.stored⟩ (fun _ => rfl) fun _ => rfl
  | true =>
    cases req with
    | prepareTx args =>
      obtain ⟨r, hprep, -⟩ := of_doOp_prepareTx hrun
      exact h.prepare hreq hprep
    | commitTx args =>
      obtain ⟨r, hcom, -⟩ := of_doOp_commitTx hrun
      exact h.commit hreq hcom
    | abortTx txID =>
      obtain ⟨r, hab, -⟩ := of_doOp_abortTx hrun
      exact h.abort hab
    | resolveTxStatus txID =>
      obtain ⟨r, hres, -⟩ := of_doOp_resolveTxStatus hrun
      exact h.resolveTxStatus hres
    | recordTxDecision args =>
      rw [(of_doOp_recordTxDecision hrun).1]
      exact h.recordDecision args
    | _ => cases htx

end

end

end KVServer

end OrbisKV.KV
