import OrbisKV.Lib.TreeMap
import OrbisKV.KV.Tidy
/-!
# A snapshot holds the server

`SaveSnapshot` sorts the documents into entries and transaction records and
`LoadSnapshot` fills a new database with both.
-/

namespace OrbisKV.KV

open Std ExtTreeMap List

namespace Store

theorem loadSnapshot_eq (envelope : Envelope) :
    loadSnapshot envelope =
      Lib.refill id (Lib.refill .entry ∅ envelope.kv.toList) envelope.txRecords.toList := rfl

theorem getElem?_loadSnapshot (envelope : Envelope) (key : String) :
    (loadSnapshot envelope)[key]? = envelope.txRecords[key]?.or (envelope.kv[key]?.map .entry) := by
  rw [loadSnapshot_eq, Lib.getElem?_refill_toList, Lib.getElem?_refill_toList]
  simp

def Envelope.Sorted (envelope : Envelope) : Prop :=
  ∀ key, isUserKey key = true → envelope.txRecords[key]? = none

theorem collect_eq {envelope : Envelope} (h : envelope.Sorted) {key : String} {d : Document}
    (hd : isUserKey key = true → ∃ e, d = .entry e) :
    ∃ envelope', envelope.collect (key, d) = .ok envelope' ∧ envelope'.Sorted ∧
      loadSnapshot envelope' = (loadSnapshot envelope).insert key d := by
  unfold Envelope.collect
  by_cases hkey : hasPrefix key txKeyPrefix = true
  · refine ⟨_, if_pos hkey, ?_, ?_⟩
    · intro k hk
      have hne : key ≠ k := by
        rintro rfl
        simp [isUserKey, hkey] at hk
      simp [ExtTreeMap.getElem?_insert, hne, h k hk]
    · apply ExtTreeMap.ext_getElem?
      intro k
      simp only [getElem?_loadSnapshot, ExtTreeMap.getElem?_insert, LawfulEqCmp.compare_eq_iff_eq]
      split <;> simp
  · have huser : isUserKey key = true := by simp [isUserKey, hkey]
    obtain ⟨e, rfl⟩ := hd huser
    refine ⟨_, if_neg hkey, h, ?_⟩
    apply ExtTreeMap.ext_getElem?
    intro k
    simp only [getElem?_loadSnapshot, ExtTreeMap.getElem?_insert, LawfulEqCmp.compare_eq_iff_eq]
    split
    · rename_i heq
      subst heq
      rw [h key huser]
      rfl
    · rfl

theorem foldlM_collect {envelope : Envelope} (h : envelope.Sorted) {l : List (String × Document)}
    (hl : ∀ item ∈ l, isUserKey item.1 = true → ∃ e, item.2 = .entry e) :
    ∃ envelope', l.foldlM Envelope.collect envelope = .ok envelope' ∧
      loadSnapshot envelope' = Lib.refill id (loadSnapshot envelope) l := by
  induction l generalizing envelope with
  | nil => exact ⟨envelope, rfl, rfl⟩
  | cons item l ih =>
    obtain ⟨next, hcol, hnext, hload⟩ := collect_eq h (hl item mem_cons_self)
    obtain ⟨last, hfold, hlast⟩ := ih hnext fun x hx => hl x (mem_cons_of_mem item hx)
    refine ⟨last, ?_, ?_⟩
    · rw [foldlM_cons, hcol]
      exact hfold
    · rw [hlast, hload]
      rfl

theorem loadSnapshot_saveSnapshot {s : Store} (h : s.Typed) :
    ∃ envelope, s.saveSnapshot = .ok envelope ∧ loadSnapshot envelope = s := by
  have hempty : Envelope.Sorted ⟨∅, ∅⟩ := fun key _ => by simp
  have hitems : ∀ item ∈ s.toList, isUserKey item.1 = true → ∃ e, item.2 = .entry e :=
    fun item hitem huser =>
      h item.1 huser item.2 (mem_toList_iff_getElem?_eq_some.mp hitem)
  obtain ⟨envelope, hsave, hload⟩ := foldlM_collect hempty hitems
  refine ⟨envelope, hsave, ?_⟩
  have hnew : loadSnapshot ⟨∅, ∅⟩ = ∅ := rfl
  rw [hload, hnew, Lib.refill_toList]

end Store

theorem hasPrefix_iff (s pre : String) : hasPrefix s pre = true ↔ ∃ x, s = pre ++ x := by
  rw [hasPrefix, isPrefixOf_iff_prefix]
  constructor
  · rintro ⟨t, ht⟩
    refine ⟨String.ofList t, ?_⟩
    apply String.toList_injective
    rw [String.toList_append, String.toList_ofList, ht]
  · rintro ⟨x, rfl⟩
    rw [String.toList_append]
    exact prefix_append _ _

theorem Store.mem_scanTxRecordsByPrefix {s : Store} {kind : String} {item : String × Document} :
    item ∈ s.scanTxRecordsByPrefix kind ↔
      ∃ x, item.1 = txKeyPrefix ++ (kind ++ x) ∧ s.getTxRecord (kind ++ x) = some item.2 := by
  obtain ⟨key, d⟩ := item
  simp only [scanTxRecordsByPrefix, mem_filter, mem_toList_iff_getElem?_eq_some,
    hasPrefix_iff, String.append_assoc, getTxRecord]
  constructor
  · rintro ⟨hd, x, rfl⟩
    exact ⟨x, rfl, hd⟩
  · rintro ⟨x, rfl, hd⟩
    exact ⟨hd, x, rfl⟩

namespace KVServer

def Open (kv : KVServer) (net : Net) (rec : PreparedTxRecord) : Prop :=
  kv.queryCoordinatorDecision net rec ≠ .committed ∧ kv.queryCoordinatorDecision net rec ≠ .aborted

section

variable {kv base : KVServer} {net : Net} {records : List (String × Document)}

structure Partly (kv : KVServer) (table : ExtTreeMap String String)
    (cache : ExtTreeMap String PreparedTxRecord) : Prop where
  locks : ∀ key txID : String, table[key]? = some txID → kv.txMgr.lockTable[key]? = some txID
  cached : ∀ (txID : String) (rec : PreparedTxRecord), cache[txID]? = some rec →
    kv.txMgr.preparedTxs[txID]? = some rec

theorem Partly.add {table : ExtTreeMap String String}
    {cache : ExtTreeMap String PreparedTxRecord} (hp : Partly kv table cache) (h : kv.Tidy)
    {rec : PreparedTxRecord} (hrec : kv.txMgr.preparedTxs[rec.txID]? = some rec) :
    Partly kv (lockKeys table rec.txID rec.writeKeys) (cache.insert rec.txID rec) := by
  constructor
  · intro key txID hlock
    rw [getElem?_lockKeys] at hlock
    split at hlock
    · cases hlock
      exact (h.lockedBy_iff hrec key).mpr ‹_›
    · exact hp.locks key txID hlock
  · intro txID old hold
    simp only [ExtTreeMap.getElem?_insert, LawfulEqCmp.compare_eq_iff_eq] at hold
    split at hold
    · rename_i heq
      cases hold
      rw [← heq]
      exact hrec
    · exact hp.cached txID old hold

theorem rebuildRecord_eq (h : kv.Tidy) (hsto : base.store = kv.store)
    (hgrp : base.groupID = kv.groupID) (key : String) {rec : PreparedTxRecord}
    (hrec : kv.txMgr.preparedTxs[rec.txID]? = some rec) (hopen : kv.Open net rec) :
    rebuildRecord net base (key, .prepare rec) = { base with
        txMgr.lockTable := lockKeys base.txMgr.lockTable rec.txID rec.writeKeys
        txMgr.preparedTxs := base.txMgr.preparedTxs.insert rec.txID rec } := by
  have hpen := h.pending rec.txID rec hrec
  rw [Store.finished_eq, ← hsto] at hpen
  have hdec : base.queryCoordinatorDecision net rec = kv.queryCoordinatorDecision net rec := by
    rw [queryCoordinatorDecision, queryCoordinatorDecision, hgrp, hsto]
  have hmarks : (base.hasRecord txCommitPrefix rec.txID ||
      base.hasRecord txAbortPrefix rec.txID) = false := hpen
  simp only [rebuildRecord, Document.toPrepared?, hmarks, hdec, Bool.false_eq_true, if_false]
  obtain ⟨hcom, habo⟩ := hopen
  cases hd : kv.queryCoordinatorDecision net rec with
  | committed => exact absurd hd hcom
  | aborted => exact absurd hd habo
  | _ => rfl

theorem foldl_rebuildRecord (base : KVServer) (h : kv.Tidy)
    (hrecord : ∀ item ∈ records, ∃ rec, item.2 = .prepare rec ∧
      kv.txMgr.preparedTxs[rec.txID]? = some rec ∧ kv.Open net rec) (hsto : base.store = kv.store)
    (hgrp : base.groupID = kv.groupID)
    (hpar : Partly kv base.txMgr.lockTable base.txMgr.preparedTxs) :
    ∃ (table : ExtTreeMap String String) (cache : ExtTreeMap String PreparedTxRecord),
      records.foldl (rebuildRecord net) base =
        { base with txMgr.lockTable := table, txMgr.preparedTxs := cache } ∧
      Partly kv table cache ∧
      (∀ key : String, base.txMgr.lockTable[key]?.isSome → table[key]?.isSome) ∧
      (∀ x : String, base.txMgr.preparedTxs[x]?.isSome → cache[x]?.isSome) ∧
      ∀ item ∈ records, ∀ rec, item.2 = .prepare rec →
        cache[rec.txID]?.isSome ∧ ∀ key, rec.writes key → table[key]?.isSome := by
  induction records generalizing base with
  | nil =>
    exact ⟨_, _, rfl, hpar, fun _ h => h, fun _ h => h, nofun⟩
  | cons item records ih =>
    obtain ⟨key, d⟩ := item
    obtain ⟨rec, hd, hrec, hopen⟩ := hrecord (key, d) mem_cons_self
    cases hd
    have hstep := rebuildRecord_eq h hsto hgrp key hrec hopen
    obtain ⟨table, cache, hfold, hpart, hlocks, hcac, hdone⟩ :=
      ih { base with
          txMgr.lockTable := lockKeys base.txMgr.lockTable rec.txID rec.writeKeys
          txMgr.preparedTxs := base.txMgr.preparedTxs.insert rec.txID rec }
        (fun x hx => hrecord x (mem_cons_of_mem _ hx)) hsto hgrp (hpar.add h hrec)
    have hgrow : ∀ k : String, rec.writes k ∨ base.txMgr.lockTable[k]?.isSome →
        table[k]?.isSome := by
      intro k hk
      apply hlocks k
      rw [show (_ : KVServer).txMgr.lockTable = lockKeys _ _ _ from rfl, getElem?_lockKeys]
      split
      · rfl
      · exact hk.resolve_left ‹_›
    refine ⟨table, cache, ?_, hpart, fun k hk => hgrow k (Or.inr hk), ?_, ?_⟩
    · rw [foldl_cons, hstep]
      exact hfold
    · intro x hx
      apply hcac x
      simp only [ExtTreeMap.getElem?_insert]
      split
      · rfl
      · exact hx
    · intro other hother rec' hrec'
      rcases mem_cons.mp hother with rfl | hother
      · cases hrec'
        refine ⟨hcac rec.txID ?_, fun k hk => hgrow k (Or.inl hk)⟩
        simp
      · exact hdone other hother rec' hrec'

theorem Tidy.rebuildLockTable (h : kv.Tidy) (base : KVServer)
    (hopen : ∀ (txID : String) (rec : PreparedTxRecord),
      kv.txMgr.preparedTxs[txID]? = some rec → kv.Open net rec)
    (hperm : records.Perm (kv.store.scanTxRecordsByPrefix txPreparePrefix))
    (hsto : base.store = kv.store) (hgrp : base.groupID = kv.groupID)
    (hmu : base.txMgr.mu = false) :
    base.rebuildLockTable net records = some { base with txMgr := kv.txMgr } := by
  have hrecord : ∀ item ∈ records, ∃ rec, item.2 = .prepare rec ∧
      kv.txMgr.preparedTxs[rec.txID]? = some rec ∧ kv.Open net rec := by
    intro item hitem
    obtain ⟨x, -, hd⟩ := Store.mem_scanTxRecordsByPrefix.mp (hperm.mem_iff.mp hitem)
    rw [h.cached, Option.map_eq_some_iff] at hd
    obtain ⟨rec, hrec, hdoc⟩ := hd
    obtain rfl := h.named x rec hrec
    exact ⟨rec, hdoc.symm, hrec, hopen rec.txID rec hrec⟩
  have hempty : Partly kv ∅ ∅ := ⟨fun key txID hk => by simp at hk, fun x rec hx => by simp at hx⟩
  obtain ⟨table, cache, hfold, hpart, -, -, hdone⟩ := foldl_rebuildRecord
    { base with txMgr.lockTable := ∅, txMgr.preparedTxs := ∅ } h hrecord hsto hgrp hempty
  have hall : ∀ (x : String) (rec : PreparedTxRecord), kv.txMgr.preparedTxs[x]? = some rec →
      cache[x]?.isSome ∧ ∀ key, rec.writes key → table[key]?.isSome := by
    intro x rec hrec
    obtain rfl := h.named x rec hrec
    have hmem : (txKeyPrefix ++ (txPreparePrefix ++ rec.txID), Document.prepare rec) ∈ records := by
      apply hperm.mem_iff.mpr
      refine Store.mem_scanTxRecordsByPrefix.mpr ⟨rec.txID, rfl, ?_⟩
      rw [h.cached, hrec]
      rfl
    exact hdone _ hmem rec rfl
  have hcache : cache = kv.txMgr.preparedTxs := by
    apply ExtTreeMap.ext_getElem?
    intro x
    cases hx : kv.txMgr.preparedTxs[x]? with
    | none =>
      cases hc : cache[x]? with
      | none => rfl
      | some rec =>
        rw [hpart.cached x rec hc] at hx
        cases hx
    | some rec =>
      obtain ⟨rec', hc⟩ := Option.isSome_iff_exists.mp (hall x rec hx).1
      rw [hc, ← hx, hpart.cached x rec' hc]
  have htable : table = kv.txMgr.lockTable := by
    apply ExtTreeMap.ext_getElem?
    intro key
    cases hk : kv.txMgr.lockTable[key]? with
    | none =>
      cases ht : table[key]? with
      | none => rfl
      | some txID =>
        rw [hpart.locks key txID ht] at hk
        cases hk
    | some txID =>
      obtain ⟨rec, hrec, hwri⟩ := (h.locks key txID).mp hk
      obtain ⟨txID', ht⟩ := Option.isSome_iff_exists.mp ((hall txID rec hrec).2 key hwri)
      rw [ht, ← hk, hpart.locks key txID' ht]
  have htx : kv.txMgr = ⟨base.txMgr.mu, table, cache⟩ := by
    rw [hmu, hcache, htable, ← h.free]
  rw [KVServer.rebuildLockTable, if_neg (by rw [hmu]; decide), hfold, htx]

theorem Tidy.restore (h : kv.Tidy) (htyped : kv.store.Typed) (halive : kv.dead = false)
    (hopen : ∀ (txID : String) (rec : PreparedTxRecord),
      kv.txMgr.preparedTxs[txID]? = some rec → kv.Open net rec)
    (hperm : records.Perm (kv.store.scanTxRecordsByPrefix txPreparePrefix))
    (hgrp : base.groupID = kv.groupID) (hbase : base.dead = false) (hmu : base.txMgr.mu = false) :
    base.restore net records kv.snapshot = some kv := by
  obtain ⟨envelope, hsave, hload⟩ := Store.loadSnapshot_saveSnapshot htyped
  have hsnap : kv.snapshot = some ⟨envelope, kv.shardMgr.snapshot⟩ := by
    rw [snapshot, if_neg (by rw [halive]; decide), hsave]
  have hloa : base.loadSnapshot ⟨envelope, kv.shardMgr.snapshot⟩ =
      { base with store := kv.store, shardMgr := kv.shardMgr } := by
    rw [KVServer.loadSnapshot, hload, ShardStateManager.restore_snapshot]
    rfl
  have hreb := h.rebuildLockTable { base with store := kv.store, shardMgr := kv.shardMgr }
    hopen hperm rfl hgrp hmu
  rw [hsnap, KVServer.restore, hloa, hreb, hgrp, hbase, ← halive]

end

end KVServer

end OrbisKV.KV
