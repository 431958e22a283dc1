import OrbisKV.KV.Frame
/-!
# What the handlers can change

All that later arguments need to know of a handler's effect on the store is said
once here: which entries it may write, and which records it may add or remove.
-/

namespace OrbisKV.KV

open Std List

def PreparedTxRecord.Within (rec : PreparedTxRecord) (R : String → Prop) : Prop :=
  ∀ wk ∈ rec.writeKeys, R wk.key

/-- What the handlers do to the store when every entry they write or delete is
under a key of `K` and every record they add writes keys of `R`. -/
inductive Store.Changes (K R : String → Prop) (s : Store) : Store → Prop
  | refl : Store.Changes K R s s
  | write {t : Store} (h : Store.Changes K R s t) {key : String} (hkey : K key)
      (left : Option KVEntry) : Store.Changes K R s (t.place key (left.map .entry))
  | mark {t : Store} (h : Store.Changes K R s t) {kind : String}
      (hkind : kind = txCommitPrefix ∨ kind = txAbortPrefix) (txID : String) :
      Store.Changes K R s (t.putTxRecord (kind ++ txID) .mark)
  | prepare {t : Store} (h : Store.Changes K R s t) {rec : PreparedTxRecord} (hrec : rec.Within R) :
      Store.Changes K R s (t.putTxRecord (txPreparePrefix ++ rec.txID) (.prepare rec))
  | decision {t : Store} (h : Store.Changes K R s t) (txID : String) (rec : TxDecisionRecord) :
      Store.Changes K R s (t.putTxRecord (txDecisionPrefix ++ txID) (.decision rec))
  | drop {t : Store} (h : Store.Changes K R s t) (txID : String) :
      Store.Changes K R s (t.deleteTxRecord (txPreparePrefix ++ txID))

inductive Store.Writes (K : String → Prop) (s : Store) : Store → Prop
  | refl : Store.Writes K s s
  | write {t : Store} (h : Store.Writes K s t) {key : String} (hkey : K key)
      (left : Option KVEntry) : Store.Writes K s (t.place key (left.map .entry))

def Store.Within (s : Store) (R : String → Prop) : Prop :=
  ∀ (txID : String) (rec : PreparedTxRecord),
    (s.getTxRecord (txPreparePrefix ++ txID)).bind Document.toPrepared? = some rec → rec.Within R

def Store.Typed (s : Store) : Prop :=
  ∀ key, isUserKey key = true → ∀ d, s[key]? = some d → ∃ e, d = .entry e

namespace Store.Writes

variable {K R : String → Prop} {s t u : Store}

section

variable (h : Store.Writes K s t)

include h

theorem trans (h' : Store.Writes K t u) : Store.Writes K s u := by
  induction h' with
  | refl => exact h
  | write _ hkey left ih => exact ih.write hkey left

theorem mono {K' : String → Prop} (hle : ∀ k, K k → K' k) :
    Store.Writes K' s t := by
  induction h with
  | refl => exact .refl
  | write _ hkey left ih => exact ih.write (hle _ hkey) left

theorem getElem? {key : String} (hkey : ¬K key) : t[key]? = s[key]? := by
  induction h with
  | refl => rfl
  | write _ hk left ih =>
    rw [getElem?_place, if_neg]
    · exact ih
    · rintro rfl
      exact hkey hk

theorem changes : Store.Changes K R s t := by
  induction h with
  | refl => exact .refl
  | write _ hkey left ih => exact ih.write hkey left

end

theorem writeBatch {ops : List WriteBatchOp} (hops : ∀ op ∈ ops, K op.key)
    (h : t.writeBatchWithCASInTxn ops = .ok u) : Store.Writes K t u := by
  induction ops generalizing t with
  | nil =>
    cases h
    exact refl
  | cons op ops ih =>
    rw [writeBatchWithCASInTxn, writeOpWithCAS_eq] at h
    cases hres : opResult op t[op.key]? with
    | error e => rw [hres] at h; cases h
    | ok left =>
      rw [hres] at h
      have hent : ∃ e : Option KVEntry, left = e.map .entry := by
        cases left with
        | none => exact ⟨none, rfl⟩
        | some d =>
          obtain ⟨e, rfl⟩ := entry_of_opResult hres
          exact ⟨some e, rfl⟩
      obtain ⟨e, rfl⟩ := hent
      have hhead : Store.Writes K t (t.place op.key (e.map .entry)) :=
        refl.write (hops op mem_cons_self) e
      exact hhead.trans (ih (fun o ho => hops o (mem_cons_of_mem op ho)) h)

end Store.Writes

namespace Store.Changes

variable {K R : String → Prop} {s t u : Store}

section

variable (h : Store.Changes K R s t)

include h

theorem trans (h' : Store.Changes K R t u) : Store.Changes K R s u := by
  induction h' with
  | refl => exact h
  | write _ hkey left ih => exact ih.write hkey left
  | mark _ hkind txID ih => exact ih.mark hkind txID
  | prepare _ hrec ih => exact ih.prepare hrec
  | decision _ txID rec ih => exact ih.decision txID rec
  | drop _ txID ih => exact ih.drop txID

theorem getElem? {key : String} (huser : isUserKey key = true)
    (hkey : ¬K key) : t[key]? = s[key]? := by
  induction h with
  | refl => rfl
  | write _ hk left ih =>
    rw [getElem?_place, if_neg, ih]
    rintro rfl
    exact hkey hk
  | mark _ _ txID ih | prepare _ _ ih | decision _ txID rec ih =>
    rw [getElem?_putTxRecord huser, ih]
  | drop _ txID ih => rw [getElem?_deleteTxRecord huser, ih]

theorem typed (hs : s.Typed) : t.Typed := by
  induction h with
  | refl => exact hs
  | write _ _ left ih =>
    intro key hkey d hd
    rw [getElem?_place] at hd
    split at hd
    · obtain ⟨e, -, rfl⟩ := Option.map_eq_some_iff.mp hd
      exact ⟨e, rfl⟩
    · exact ih key hkey d hd
  | mark _ _ txID ih | prepare _ _ ih | decision _ txID rec ih =>
    intro key hkey d hd
    exact ih key hkey d (by rwa [getElem?_putTxRecord hkey] at hd)
  | drop _ txID ih =>
    intro key hkey d hd
    exact ih key hkey d (by rwa [getElem?_deleteTxRecord hkey] at hd)

theorem within (hs : s.Within R) : t.Within R := by
  induction h with
  | refl => exact hs
  | write _ _ left ih =>
    intro txID rec hrec
    rw [getTxRecord, getElem?_place] at hrec
    split at hrec
    · cases left with
      | none => cases hrec
      | some e =>
        cases hrec
        intro wk hwk
        cases hwk
    · exact ih txID rec hrec
  | mark _ hkind id ih =>
    intro txID rec hrec
    rw [getTxRecord_putTxRecord] at hrec
    split at hrec
    · cases hrec
    · exact ih txID rec hrec
  | prepare _ hnew ih =>
    intro txID rec hrec
    rw [getTxRecord_putTxRecord] at hrec
    split at hrec
    · cases hrec
      exact hnew
    · exact ih txID rec hrec
  | decision _ id d ih =>
    intro txID rec hrec
    rw [getTxRecord_putTxRecord, if_neg (prepare_ne_decision txID id).symm] at hrec
    exact ih txID rec hrec
  | drop _ id ih =>
    intro txID rec hrec
    rw [getTxRecord_deleteTxRecord] at hrec
    split at hrec
    · cases hrec
    · exact ih txID rec hrec

theorem mark_stays (hK : ∀ key, K key → isUserKey key = true)
    {kind : String} (hkind : kind = txCommitPrefix ∨ kind = txAbortPrefix) {txID : String}
    (hmark : (s.getTxRecord (kind ++ txID)).isSome = true) :
    (t.getTxRecord (kind ++ txID)).isSome = true := by
  have hne : ∀ id, txPreparePrefix ++ id ≠ kind ++ txID := by
    intro id
    rcases hkind with rfl | rfl
    · exact prepare_ne_commit id txID
    · exact prepare_ne_abort id txID
  induction h with
  | refl => exact hmark
  | write _ hkey left ih =>
    rw [getTxRecord, getElem?_place, if_neg (txKey_ne (hK _ hkey) _).symm]
    exact ih
  | mark _ _ id ih | prepare _ _ ih | decision _ id rec ih =>
    rw [getTxRecord_putTxRecord]
    split
    · rfl
    · exact ih
  | drop _ id ih =>
    rw [getTxRecord_deleteTxRecord, if_neg (hne id)]
    exact ih

end

theorem writeBatchAndMark {ops : List WriteBatchOp} {txID : String} (hops : ∀ op ∈ ops, K op.key)
    (h : t.writeBatchWithCASAndRecord ops (txCommitPrefix ++ txID) .mark = .ok u) :
    Store.Changes K R t u := by
  rw [writeBatchWithCASAndRecord] at h
  cases hbat : t.writeBatchWithCASInTxn ops with
  | error e => rw [hbat] at h; cases h
  | ok s' =>
    rw [hbat] at h
    cases h
    exact (Store.Writes.writeBatch hops hbat).changes.mark (.inl rfl) txID

end Store.Changes

theorem PreparedTxRecord.Within.batchOps {rec : PreparedTxRecord} {K R : String → Prop}
    (h : rec.Within R) (hRK : ∀ key, R key → K key) : ∀ op ∈ batchOps rec.writeKeys, K op.key := by
  intro op hop
  obtain ⟨wk, hwk, rfl⟩ := mem_map.mp hop
  exact hRK _ (h wk hwk)

/-- The entries a request may write are under keys of `K`, and those that its record
may write later are under keys of `R`. -/
def Request.Within (K R : String → Prop) : Request → Prop
  | .put args => K args.key
  | .delete key => K key
  | .cleanupShard args => ∀ k ∈ args.keys, K k.key
  | .expire args => ∀ key ∈ args.keys, K key
  | .prepareTx args => ∀ wk ∈ args.writeKeys, R wk.key
  | _ => True

namespace KVServer

def Unmarked (kv : KVServer) (txID : String) : Prop :=
  ¬kv.hasRecord txCommitPrefix txID = true ∧ ¬kv.hasRecord txAbortPrefix txID = true

section

variable {kv kv' : KVServer} {net : Net} {txID : String} {rec : PreparedTxRecord} {e : Err}
  {now : Int64}

theorem applyCommit_cases (kv : KVServer) (txID : String) (rec : PreparedTxRecord) :
    kv.applyCommit txID rec = (kv, .txConflict) ∨
      ∃ store, kv.store.writeBatchWithCASAndRecord (batchOps rec.writeKeys)
          (txCommitPrefix ++ txID) .mark = .ok store ∧
        kv.applyCommit txID rec = ({ kv with store := store }.forget txID rec.writeKeys, .ok) := by
  unfold applyCommit
  split
  · exact .inl rfl
  · rename_i store hsto
    exact .inr ⟨store, hsto, rfl⟩

theorem executeCommit_eq (kv : KVServer) (rec : PreparedTxRecord) :
    kv.executeCommit rec = (kv.applyCommit rec.txID rec).1 := by
  unfold executeCommit applyCommit
  split <;> rfl

theorem resolvePrepared_cases (kv : KVServer) (net : Net) (rec : PreparedTxRecord) :
    (kv.resolvePrepared net rec).1 = kv ∨ kv.queryCoordinatorDecision net rec = .committed ∧
        (kv.resolvePrepared net rec).1 = kv.executeCommit rec ∨
      kv.queryCoordinatorDecision net rec = .aborted ∧
        (kv.resolvePrepared net rec).1 = kv.executeAbort rec := by
  unfold resolvePrepared
  split
  · exact .inr (.inl ⟨‹_›, rfl⟩)
  · exact .inr (.inr ⟨‹_›, rfl⟩)
  all_goals exact .inl rfl

theorem resolveLockLocked_cases (kv : KVServer) (net : Net) (txID : String) :
    (kv.resolveLockLocked net txID).1 = kv.releaseLocksForTxLocked txID ∨
      kv.Unmarked txID ∧ ∃ rec, kv.txMgr.preparedTxs[txID]? = some rec ∧
          kv.resolveLockLocked net txID = kv.resolvePrepared net rec ∨
        kv.diskRecord txID = some rec ∧ kv.resolveLockLocked net txID =
          { kv with txMgr.preparedTxs := kv.txMgr.preparedTxs.insert txID rec }.resolvePrepared
            net rec := by
  unfold resolveLockLocked
  split_ifs with hcom hab
  · exact .inl rfl
  · exact .inl rfl
  · split
    · exact .inr ⟨⟨hcom, hab⟩, _, .inl ⟨‹_›, rfl⟩⟩
    · split
      · exact .inl rfl
      · exact .inr ⟨⟨hcom, hab⟩, _, .inr ⟨‹_›, rfl⟩⟩

theorem resolveConflicts_keeps {I : KVServer → Prop}
    (hstep : ∀ (mid : KVServer) (key holder : String), I mid →
      mid.txMgr.lockTable[key]? = some holder → holder ≠ txID →
        I (mid.resolveLockLocked net holder).1)
    (hI : I kv) (writeKeys : List WriteKey) : I (resolveConflicts net txID kv writeKeys).1 := by
  induction writeKeys generalizing kv with
  | nil => exact hI
  | cons wk wks ih =>
    rw [resolveConflicts]
    cases hhol : kv.otherHolder txID wk.key with
    | none => exact ih hI
    | some holder =>
      rw [otherHolder, Option.filter_eq_some_iff, decide_eq_true_eq] at hhol
      have hnext := hstep kv wk.key holder hI hhol.1 hhol.2
      dsimp only
      generalize kv.resolveLockLocked net holder = result at hnext ⊢
      obtain ⟨mid, resolved⟩ := result
      cases resolved with
      | false => exact hnext
      | true =>
        dsimp only
        split_ifs
        · exact hnext
        · exact ih hnext

theorem prepare_cases {args : PrepareTxArgs} (hrun : kv.prepare net now args = some (kv', e)) :
    ∃ mid free, resolveConflicts net args.txID kv args.writeKeys = (mid, free) ∧
      (kv' = mid ∧ e ≠ .ok ∨ free = true ∧ e = .ok ∧ checkReads mid.store now args.readKeys = .ok ∧
          kv' = mid.installPrepared (prepareRecord args now)) := by
  unfold prepare at hrun
  split_ifs at hrun
  split at hrun
  · cases hrun
    exact ⟨_, _, ‹_›, .inl ⟨rfl, by simp⟩⟩
  · split at hrun
    · cases hrun
      exact ⟨_, _, ‹_›, .inr ⟨rfl, rfl, ‹_›, rfl⟩⟩
    · cases hrun
      exact ⟨_, _, ‹_›, .inl ⟨rfl, ‹_›⟩⟩

theorem prepare_keeps {I : KVServer → Prop} {now : Int64} {args : PrepareTxArgs} {e : Err}
    (hstep : ∀ (mid : KVServer) (key holder : String), I mid →
      mid.txMgr.lockTable[key]? = some holder → holder ≠ args.txID →
        I (mid.resolveLockLocked net holder).1)
    (hI : I kv) (hrun : kv.prepare net now args = some (kv', e)) :
    ∃ mid, I mid ∧ (kv' = mid ∨ kv' = mid.installPrepared (prepareRecord args now)) := by
  have hmid := resolveConflicts_keeps hstep hI args.writeKeys
  obtain ⟨mid, free, heq, hcases⟩ := prepare_cases hrun
  rw [heq] at hmid
  exact ⟨mid, hmid, hcases.imp And.left fun hdone => hdone.2.2.2⟩

theorem loadPrepared_cases (hload : kv.loadPrepared txID = some (kv', rec)) :
    kv.txMgr.preparedTxs[txID]? = some rec ∧ kv' = kv ∨
      kv.diskRecord txID = some rec ∧ kv' = { kv with
        txMgr.preparedTxs := kv.txMgr.preparedTxs.insert txID rec
        txMgr.lockTable := lockKeys kv.txMgr.lockTable rec.txID rec.writeKeys } := by
  unfold loadPrepared at hload
  split at hload
  · cases hload
    exact .inl ⟨‹_›, rfl⟩
  · split at hload
    · cases hload
    · cases hload
      exact .inr ⟨‹_›, rfl⟩

theorem commit_cases (hrun : kv.commit txID = some (kv', e)) :
    kv' = kv ∨ kv.Unmarked txID ∧
      (kv.undecided txID = true ∧ kv' = { kv with txMgr.mu := true } ∨
        ∃ mid rec, kv.loadPrepared txID = some (mid, rec) ∧
          mid.applyCommit txID rec = (kv', e)) := by
  unfold commit at hrun
  split_ifs at hrun with hmu hcom hab hund
  · cases hrun
    exact .inl rfl
  · cases hrun
    exact .inl rfl
  · cases hrun
    exact .inr ⟨⟨hcom, hab⟩, .inl ⟨hund, rfl⟩⟩
  · split at hrun
    · cases hrun
      exact .inl rfl
    · exact .inr ⟨⟨hcom, hab⟩, .inr ⟨_, _, ‹_›, Option.some.inj hrun⟩⟩

theorem abort_cases (hrun : kv.abort txID = some (kv', e)) :
    kv' = kv ∨ kv.Unmarked txID ∧ ∃ locks, kv' = { kv with
        store := (kv.store.putTxRecord (txAbortPrefix ++ txID) .mark).deleteTxRecord
          (txPreparePrefix ++ txID)
        txMgr.lockTable := locks
        txMgr.preparedTxs := kv.txMgr.preparedTxs.erase txID } ∧
      (kv.txMgr.preparedTxs[txID]? = none ∧ locks = kv.txMgr.lockTable ∨
        ∃ rec, kv.txMgr.preparedTxs[txID]? = some rec ∧
          locks = unlockHeld kv.txMgr.lockTable txID rec.writeKeys) := by
  unfold abort at hrun
  split_ifs at hrun with hmu hcom hab
  · cases hrun
    exact .inl rfl
  · cases hrun
    exact .inl rfl
  · refine .inr ⟨⟨hcom, hab⟩, ?_⟩
    dsimp only at hrun
    split at hrun
    · rename_i hnone
      cases hrun
      refine ⟨kv.txMgr.lockTable, ?_, .inl ⟨hnone, rfl⟩⟩
      have hsame : kv.txMgr.preparedTxs.erase txID = kv.txMgr.preparedTxs := by
        apply ExtTreeMap.ext_getElem?
        intro x
        rw [ExtTreeMap.getElem?_erase]
        split
        · rename_i hx
          rw [LawfulEqCmp.compare_eq_iff_eq] at hx
          rw [← hx, hnone]
        · rfl
      rw [hsame]
    · cases hrun
      exact ⟨_, rfl, .inr ⟨_, ‹_›, rfl⟩⟩

theorem resolveTxStatus_cases {reply : ResolveTxStatusReply}
    (hrun : kv.resolveTxStatus now txID = some (kv', reply)) :
    kv' = kv ∨ kv.Unmarked txID ∧ ∃ rec, kv.diskRecord txID = some rec ∧
      rec.participantGroupIDs = [] ∧ kv' = { kv with
        store := (kv.store.putTxRecord (txAbortPrefix ++ txID) .mark).deleteTxRecord
          (txPreparePrefix ++ txID)
        txMgr.lockTable := kv.txMgr.lockTable.filter fun _ holder => holder ≠ txID
        txMgr.preparedTxs := kv.txMgr.preparedTxs.erase txID } := by
  unfold resolveTxStatus at hrun
  split at hrun
  · cases hrun
    exact .inl rfl
  split_ifs at hrun with hcom hab hmu <;> try split at hrun
  all_goals first | cases hrun; exact .inl rfl | skip
  all_goals split_ifs at hrun with hexpi <;> cases hrun
  · exact .inl rfl
  · exact .inr ⟨⟨hcom, hab⟩, _, ‹_›, hexpi.1, rfl⟩
  · exact .inl rfl

theorem recordDecision_cases (kv : KVServer) (args : RecordTxDecisionArgs) :
    (kv.recordDecision args).1 = kv ∨ kv.store.getTxRecord (txDecisionPrefix ++ args.txID) = none ∧
        (kv.recordDecision args).1 = { kv with
          store := kv.store.putTxRecord (txDecisionPrefix ++ args.txID)
            (.decision ⟨args.decision, args.participantGroupIDs, args.writeKeys⟩) } := by
  unfold recordDecision
  split_ifs
  · exact .inl rfl
  · split
    · split_ifs <;> exact .inl rfl
    · exact .inr ⟨‹_›, rfl⟩

end

/-- The prepared records of the server, cached or on disk, write only keys of
`R`. -/
structure Within (kv : KVServer) (R : String → Prop) : Prop where
  cached : ∀ (txID : String) (rec : PreparedTxRecord), kv.txMgr.preparedTxs[txID]? = some rec →
    rec.Within R
  stored : kv.store.Within R

/-- A handler changed entries under keys of `K` only and left records that write
keys of `R` only; it did not touch the shard states. -/
structure Moved (K R : String → Prop) (kv kv' : KVServer) : Prop where
  changes : Store.Changes K R kv.store kv'.store
  within : kv'.Within R
  groupID : kv'.groupID = kv.groupID
  dead : kv'.dead = kv.dead
  shardMgr : kv'.shardMgr = kv.shardMgr

section

variable {rec : PreparedTxRecord} {txID : String}

variable {K R : String → Prop} {kv kv' kv'' : KVServer}

theorem Moved.refl (h : kv.Within R) : Moved K R kv kv := ⟨.refl, h, rfl, rfl, rfl⟩

theorem Moved.trans (h : Moved K R kv kv') (h' : Moved K R kv' kv'') : Moved K R kv kv'' :=
  ⟨h.changes.trans h'.changes, h'.within, h'.groupID.trans h.groupID, h'.dead.trans h.dead,
    h'.shardMgr.trans h.shardMgr⟩

theorem Moved.of_locks (h : kv.Within R) (mu : Bool) (lockTable : ExtTreeMap String String) :
    Moved K R kv { kv with txMgr.mu := mu, txMgr.lockTable := lockTable } :=
  ⟨.refl, ⟨h.cached, h.stored⟩, rfl, rfl, rfl⟩

theorem Moved.of_store (h : kv.Within R) {store : Store}
    (hsto : Store.Changes K R kv.store store) : Moved K R kv { kv with store := store } :=
  ⟨hsto, ⟨h.cached, hsto.within h.stored⟩, rfl, rfl, rfl⟩

theorem Moved.of_cache (h : kv.Within R) (hrec : rec.Within R) (txID : String)
    (lockTable : ExtTreeMap String String) :
    Moved K R kv { kv with
      txMgr.lockTable := lockTable
      txMgr.preparedTxs := kv.txMgr.preparedTxs.insert txID rec } := by
  refine ⟨.refl, ⟨fun id rec' hrec' => ?_, h.stored⟩, rfl, rfl, rfl⟩
  simp only [ExtTreeMap.getElem?_insert, LawfulEqCmp.compare_eq_iff_eq] at hrec'
  split at hrec'
  · cases hrec'
    exact hrec
  · exact h.cached id rec' hrec'

theorem Moved.of_uncache (h : kv.Within R) (txID : String) (lockTable : ExtTreeMap String String) :
    Moved K R kv { kv with
      txMgr.lockTable := lockTable
      txMgr.preparedTxs := kv.txMgr.preparedTxs.erase txID } := by
  refine ⟨.refl, ⟨fun id rec hrec => ?_, h.stored⟩, rfl, rfl, rfl⟩
  simp only [ExtTreeMap.getElem?_erase, LawfulEqCmp.compare_eq_iff_eq] at hrec
  split_ifs at hrec
  exact h.cached id rec hrec

variable (h : kv.Within R)

include h

theorem moved_forget (txID : String) (writeKeys : List WriteKey) :
    Moved K R kv (kv.forget txID writeKeys) :=
  have hsto := Moved.of_store (K := K) h (Store.Changes.refl.drop txID)
  hsto.trans (.of_uncache hsto.within txID _)

theorem moved_applyCommit (hRK : ∀ key, R key → K key) (txID : String) (hrec : rec.Within R) :
    Moved K R kv (kv.applyCommit txID rec).1 := by
  rcases applyCommit_cases kv txID rec with heq | ⟨store, hsto, heq⟩ <;> rw [heq]
  · exact Moved.refl h
  · have hbat := Moved.of_store h (Store.Changes.writeBatchAndMark (hrec.batchOps hRK) hsto)
    exact hbat.trans (moved_forget hbat.within _ _)

theorem moved_executeAbort (rec : PreparedTxRecord) : Moved K R kv (kv.executeAbort rec) := by
  have hmark := Moved.of_store (K := K) h (Store.Changes.refl.mark (.inr rfl) rec.txID)
  exact hmark.trans (moved_forget hmark.within _ _)

theorem moved_resolvePrepared (hRK : ∀ key, R key → K key) (net : Net) (hrec : rec.Within R) :
    Moved K R kv (kv.resolvePrepared net rec).1 := by
  rcases resolvePrepared_cases kv net rec with heq | ⟨-, heq⟩ | ⟨-, heq⟩ <;> rw [heq]
  · exact Moved.refl h
  · rw [executeCommit_eq]
    exact moved_applyCommit h hRK _ hrec
  · exact moved_executeAbort h rec

theorem moved_resolveLockLocked (hRK : ∀ key, R key → K key) (net : Net) (txID : String) :
    Moved K R kv (kv.resolveLockLocked net txID).1 := by
  rcases resolveLockLocked_cases kv net txID with heq | ⟨-, rec, ⟨hcac, heq⟩ | ⟨hdisk, heq⟩⟩ <;>
    rw [heq]
  · exact .of_locks h _ _
  · exact moved_resolvePrepared h hRK net (h.cached txID rec hcac)
  · have hrec := h.stored txID rec hdisk
    have hcache := Moved.of_cache (K := K) h hrec txID kv.txMgr.lockTable
    exact hcache.trans (moved_resolvePrepared hcache.within hRK net hrec)

theorem moved_installPrepared (hrec : rec.Within R) : Moved K R kv (kv.installPrepared rec) := by
  have hsto := Moved.of_store (K := K) h (Store.Changes.refl.prepare hrec)
  exact hsto.trans (.of_cache hsto.within hrec rec.txID _)

theorem moved_prepare (hRK : ∀ key, R key → K key) {net : Net} {now : Int64}
    {args : PrepareTxArgs} {e : Err} (hargs : ∀ wk ∈ args.writeKeys, R wk.key)
    (hrun : kv.prepare net now args = some (kv', e)) : Moved K R kv kv' := by
  obtain ⟨mid, hmid, rfl | rfl⟩ := prepare_keeps (fun mid _ holder hmid _ _ =>
    hmid.trans (moved_resolveLockLocked hmid.within hRK net holder)) (Moved.refl h) hrun
  · exact hmid
  · exact hmid.trans (moved_installPrepared hmid.within hargs)

theorem moved_recordDecision (args : RecordTxDecisionArgs) :
    Moved K R kv (kv.recordDecision args).1 := by
  rcases recordDecision_cases kv args with heq | ⟨-, heq⟩ <;> rw [heq]
  · exact Moved.refl h
  · exact Moved.of_store h (Store.Changes.refl.decision args.txID _)

theorem moved_commit (hRK : ∀ key, R key → K key) {e : Err}
    (hrun : kv.commit txID = some (kv', e)) : Moved K R kv kv' := by
  rcases commit_cases hrun with rfl | ⟨-, ⟨-, rfl⟩ | ⟨mid, rec, hload, hap⟩⟩
  · exact Moved.refl h
  · exact .of_locks h true _
  · obtain ⟨hmv, hrec⟩ : Moved K R kv mid ∧ rec.Within R := by
      rcases loadPrepared_cases hload with ⟨hcac, rfl⟩ | ⟨hdisk, rfl⟩
      · exact ⟨Moved.refl h, h.cached txID rec hcac⟩
      · exact ⟨.of_cache h (h.stored txID rec hdisk) txID _, h.stored txID rec hdisk⟩
    have hdone := hmv.trans (moved_applyCommit hmv.within hRK txID hrec)
    rw [hap] at hdone
    exact hdone

theorem moved_abortMark (txID : String) (locks : ExtTreeMap String String) :
    Moved K R kv { kv with
      store := (kv.store.putTxRecord (txAbortPrefix ++ txID) .mark).deleteTxRecord
        (txPreparePrefix ++ txID)
      txMgr.lockTable := locks
      txMgr.preparedTxs := kv.txMgr.preparedTxs.erase txID } :=
  have hmark := Moved.of_store (K := K) h ((Store.Changes.refl.mark (.inr rfl) txID).drop txID)
  hmark.trans (.of_uncache hmark.within txID _)

theorem moved_abort {e : Err} (hrun : kv.abort txID = some (kv', e)) : Moved K R kv kv' := by
  rcases abort_cases hrun with rfl | ⟨-, locks, rfl, -⟩
  · exact Moved.refl h
  · exact moved_abortMark h txID locks

theorem moved_resolveTxStatus {now : Int64} {reply : ResolveTxStatusReply}
    (hrun : kv.resolveTxStatus now txID = some (kv', reply)) : Moved K R kv kv' := by
  rcases resolveTxStatus_cases hrun with rfl | ⟨-, rec, -, -, rfl⟩
  · exact Moved.refl h
  · exact moved_abortMark h txID _

end

section

structure Wrote (K : String → Prop) (kv kv' : KVServer) : Prop where
  store : Store.Writes K kv.store kv'.store
  rest : kv' = { kv with store := kv'.store }

variable {K R : String → Prop} {kv kv' kv'' : KVServer} {key : String} {args : PutArgs}

theorem Wrote.refl (kv : KVServer) : Wrote K kv kv := ⟨.refl, rfl⟩

theorem Wrote.shardMgr (h : Wrote K kv kv') : kv'.shardMgr = kv.shardMgr := by
  rw [h.rest]

theorem Wrote.trans (h : Wrote K kv kv') (h' : Wrote K kv' kv'') : Wrote K kv kv'' := by
  refine ⟨h.store.trans h'.store, ?_⟩
  rw [h'.rest, h.rest]

theorem Wrote.mono {K' : String → Prop} (h : Wrote K kv kv') (hle : ∀ k, K k → K' k) :
    Wrote K' kv kv' :=
  ⟨h.store.mono hle, h.rest⟩

theorem Wrote.moved (hw : Wrote K kv kv') (h : kv.Within R) : Moved K R kv kv' := by
  rw [hw.rest]
  exact .of_store h hw.store.changes

theorem wrote_place (hkey : K key) (left : Option KVEntry) :
    Wrote K kv { kv with store := kv.store.place key (left.map .entry) } :=
  ⟨Store.Writes.refl.write hkey left, rfl⟩

theorem wrote_afterPut (clock : Clock) (hkey : K args.key) : Wrote K kv (kv.afterPut clock args) :=
  wrote_place hkey (some (written clock args))

theorem wrote_doPut (hash : String → UInt64) (net : Net) (clock : Clock) (hkey : K args.key) :
    Wrote K kv (kv.doPut hash net clock args).1 := by
  apply doPut_cases fun r => Wrote K kv r.1
  · exact fun _ _ _ _ _ => Wrote.refl kv
  · exact fun _ _ _ => wrote_afterPut clock hkey
  · exact fun _ _ _ => wrote_afterPut clock hkey
  · exact fun _ _ _ _ => wrote_place hkey _

theorem wrote_delete (hkey : K key) : Wrote K kv { kv with store := kv.store.delete key } :=
  wrote_place hkey none

theorem wrote_doDelete (hash : String → UInt64) (net : Net) (now : Int64) (hkey : K key) :
    Wrote K kv (kv.doDelete hash net now key).1 := by
  apply doDelete_cases fun r => Wrote K kv r.1
  · exact fun _ _ _ => Wrote.refl kv
  · exact fun _ _ _ _ _ => wrote_delete hkey
  · exact fun _ _ _ _ _ _ _ => wrote_place hkey _

theorem cleanupOps_eq {hash : String → UInt64} {shardID : Int64} {keys : List CleanupShardKey}
    {ops : List WriteBatchOp} (hops : cleanupOps hash shardID keys = some ops) :
    ops = keys.map fun key => ⟨key.key, "", key.expectedVersion.toUInt64, 0, true⟩ := by
  induction keys generalizing ops with
  | nil => exact (Option.some.inj hops).symm
  | cons key keys ih =>
    rw [cleanupOps] at hops
    split_ifs at hops
    obtain ⟨rest, hrest, rfl⟩ := Option.map_eq_some_iff.mp hops
    rw [ih hrest, map_cons]

theorem doCleanupShard_cases (hash : String → UInt64) (kv : KVServer) (args : CleanupShardArgs) :
    (kv.doCleanupShard hash args).1 = kv ∨ ∃ store,
      kv.store.writeBatchWithCAS (args.keys.map fun key =>
        ⟨key.key, "", key.expectedVersion.toUInt64, 0, true⟩) = .ok store ∧
      (kv.doCleanupShard hash args).1 = { kv with store := store } := by
  unfold doCleanupShard
  split
  · exact .inl rfl
  · split
    · exact .inl rfl
    · rename_i hops
      rw [cleanupOps_eq hops]
      split
      · exact .inl rfl
      · rename_i store hsto
        exact .inr ⟨store, hsto, rfl⟩

theorem wrote_doCleanupShard (hash : String → UInt64) {args : CleanupShardArgs}
    (hkeys : ∀ k ∈ args.keys, K k.key) : Wrote K kv (kv.doCleanupShard hash args).1 := by
  rcases doCleanupShard_cases hash kv args with heq | ⟨store, hsto, heq⟩ <;> rw [heq]
  · exact Wrote.refl kv
  · exact ⟨Store.Writes.writeBatch (forall_mem_map.mpr hkeys) hsto, rfl⟩

theorem expireKeys_keeps {cutoff : Int64} {reply reply' : ExpireReply} {keys : List String}
    {I : KVServer → ExpireReply → Prop}
    (hstep : ∀ (kv : KVServer) (reply : ExpireReply) (key : String) (entry : KVEntry), I kv reply →
      key ∈ keys → ¬kv.txMgr.lockTable[key]?.isSome = true → kv.store.get key = .ok (some entry) →
      isExpired entry.expires cutoff = true → I { kv with store := kv.store.delete key }
        { reply with
          expiredKeys := reply.expiredKeys ++ [key]
          expiredOldValues := reply.expiredOldValues.insert key entry.value })
    (hI : I kv reply) (hrun : expireKeys cutoff kv reply keys = some (kv', reply')) :
    I kv' reply' := by
  induction keys generalizing kv reply with
  | nil =>
    cases hrun
    exact hI
  | cons key keys ih =>
    have hrest := fun {kv reply} => @ih kv reply fun kv reply k entry hkv hk =>
      hstep kv reply k entry hkv (mem_cons_of_mem key hk)
    rw [expireKeys] at hrun
    split_ifs at hrun with _ hlock
    · exact hrest hI hrun
    · split at hrun
      · exact hrest hI hrun
      · exact hrest hI hrun
      · rename_i entry hget
        split_ifs at hrun with hexp
        · exact hrest (hstep kv reply key entry hI mem_cons_self hlock hget hexp) hrun
        · exact hrest hI hrun

theorem wrote_expireKeys {cutoff : Int64} {reply reply' : ExpireReply} {keys : List String}
    (hkeys : ∀ key ∈ keys, K key)
    (hrun : expireKeys cutoff kv reply keys = some (kv', reply')) : Wrote K kv kv' := by
  exact expireKeys_keeps (I := fun mid _ => Wrote K kv mid)
    (fun _ _ key _ hmid hkey _ _ _ => hmid.trans (wrote_delete (hkeys key hkey)))
    (Wrote.refl kv) hrun

end

end KVServer

def isTxCommand : Request → Bool
  | .prepareTx _ | .commitTx _ | .abortTx _ | .resolveTxStatus _ | .recordTxDecision _ => true
  | _ => false

namespace KVServer

section

variable {K R : String → Prop} {kv kv' : KVServer} {hash : String → UInt64} {net : Net}
  {clock : Clock} {req : Request} {reply : Reply}

theorem wrote_doOp (hreq : req.Within K R) (htx : isTxCommand req = false)
    (hrun : kv.doOp hash net clock req = some (kv', reply)) :
    Wrote K kv kv' ∨ (∃ args, req = .setShardState args) ∧
      ∃ mgr, kv' = { kv with shardMgr := mgr } := by
  cases req with
  | setShardState args =>
    rw [(of_doOp_setShardState hrun).1]
    refine .inr ⟨⟨args, rfl⟩, ?_⟩
    unfold doSetShardState
    split <;> exact ⟨_, rfl⟩
  | put args =>
    rw [(of_doOp_put hrun).1]
    exact .inl (wrote_doPut hash net clock hreq)
  | delete key =>
    rw [(of_doOp_delete hrun).1]
    exact .inl (wrote_doDelete hash net clock.now hreq)
  | cleanupShard args =>
    rw [(of_doOp_cleanupShard hrun).1]
    exact .inl (wrote_doCleanupShard hash hreq)
  | expire args =>
    obtain ⟨r, hexp, -⟩ := of_doOp_expire hrun
    unfold doExpire at hexp
    split_ifs at hexp
    · cases hexp
      exact .inl (Wrote.refl kv)
    · exact .inl (wrote_expireKeys hreq hexp)
  | get key | scan args =>
    cases hrun
    exact .inl (Wrote.refl kv)
  | _ => cases htx

section

variable (hRK : ∀ key, R key → K key) (h : kv.Within R) (hreq : req.Within K R)

include hRK h hreq

theorem moved_doOp
    (hshard : ∀ args, req ≠ .setShardState args)
    (hrun : kv.doOp hash net clock req = some (kv', reply)) : Moved K R kv kv' := by
  cases htx : isTxCommand req with
  | false =>
    rcases wrote_doOp hreq htx hrun with hw | ⟨⟨args, heq⟩, -⟩
    · exact hw.moved h
    · exact absurd heq (hshard args)
  | true =>
    cases req with
    | prepareTx args =>
      obtain ⟨r, hprep, -⟩ := of_doOp_prepareTx hrun
      exact moved_prepare h hRK hreq hprep
    | commitTx args =>
      obtain ⟨r, hcom, -⟩ := of_doOp_commitTx hrun
      exact moved_commit h hRK hcom
    | abortTx txID =>
      obtain ⟨r, hab, -⟩ := of_doOp_abortTx hrun
      exact moved_abort h hab
    | resolveTxStatus txID =>
      obtain ⟨r, hres, -⟩ := of_doOp_resolveTxStatus hrun
      exact moved_resolveTxStatus h hres
    | recordTxDecision args =>
      rw [(of_doOp_recordTxDecision hrun).1]
      exact moved_recordDecision h args
    | _ => cases htx

theorem moved_or_set
    (hrun : kv.doOp hash net clock req = some (kv', reply)) :
    Moved K R kv kv' ∨ ∃ mgr, kv' = { kv with shardMgr := mgr } := by
  by_cases hshard : ∃ args, req = .setShardState args
  · obtain ⟨args, rfl⟩ := hshard
    exact (wrote_doOp hreq rfl hrun).imp (·.moved h) (·.2)
  · exact .inl (moved_doOp hRK h hreq (fun args heq => hshard ⟨args, heq⟩) hrun)

end

end

theorem within_true (kv : KVServer) : kv.Within fun _ => True :=
  ⟨fun _ _ _ _ _ => trivial, fun _ _ _ _ _ => trivial⟩

theorem request_within_true (req : Request) : req.Within (fun _ => True) (fun _ => True) := by
  cases req with
  | cleanupShard args | expire args | prepareTx args => exact fun _ _ => trivial
  | _ => trivial

theorem moved_doOp_any {kv kv' : KVServer} {hash : String → UInt64} {net : Net} {clock : Clock}
    {req : Request} {reply : Reply} (hshard : ∀ args, req ≠ .setShardState args)
    (hrun : kv.doOp hash net clock req = some (kv', reply)) :
    Moved (fun _ => True) (fun _ => True) kv kv' :=
  moved_doOp (fun _ h => h) (within_true kv) (request_within_true req) hshard hrun

end KVServer

end OrbisKV.KV
