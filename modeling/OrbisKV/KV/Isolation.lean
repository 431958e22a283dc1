import OrbisKV.KV.Promise
import OrbisKV.Sharding.Migrator
/-!
# Transaction records and user keys

The records of transactions stand under reserved keys of the same store.
-/

namespace OrbisKV.KV

open Std KVServer List

def apart (pre : String) : Bool := !hasPrefix pre txKeyPrefix && !hasPrefix txKeyPrefix pre

def avoidsRecords : Request → Bool
  | .put args => isUserKey args.key
  | .delete key => isUserKey key
  | .cleanupShard args => args.keys.all fun k => isUserKey k.key
  | .expire args => args.keys.all isUserKey
  | .prepareTx args => args.writeKeys.all fun wk => isUserKey wk.key
  | .scan args => apart args.pre
  | _ => true

def Store.Genuine (s : Store) : Prop :=
  ∀ x d, s.getTxRecord x = some d → (∃ id rec, x = txPreparePrefix ++ id ∧ d = .prepare rec) ∨
    (∃ id rec, x = txDecisionPrefix ++ id ∧ d = .decision rec) ∨
    ∃ id, (x = txCommitPrefix ++ id ∨ x = txAbortPrefix ++ id) ∧ d = .mark

theorem isUserKey_of_apart {key pre : String} (hpre : apart pre = true)
    (hkey : hasPrefix key pre = true) : isUserKey key = true := by
  rw [apart, Bool.and_eq_true, Bool.not_eq_true', Bool.not_eq_true'] at hpre
  rw [isUserKey, Bool.not_eq_true', Bool.eq_false_iff]
  intro htx
  unfold hasPrefix at hpre hkey htx
  rw [ isPrefixOf_iff_prefix] at hkey htx
  rcases prefix_or_prefix_of_prefix hkey htx with h | h
  · rw [ isPrefixOf_iff_prefix.mpr h] at hpre
    exact absurd hpre.2 (by decide)
  · rw [ isPrefixOf_iff_prefix.mpr h] at hpre
    exact absurd hpre.1 (by decide)

namespace Store

variable {K R : String → Prop} {s t : Store}

theorem Changes.genuine (h : Store.Changes K R s t) (hK : ∀ key, K key → isUserKey key = true)
    (hs : s.Genuine) : t.Genuine := by
  induction h with
  | refl => exact hs
  | write _ hkey left ih =>
    intro x d hd
    rw [getTxRecord, getElem?_place, if_neg (txKey_ne (hK _ hkey) x).symm] at hd
    exact ih x d hd
  | mark _ hkind id ih =>
    intro x d hd
    rw [getTxRecord_putTxRecord] at hd
    split at hd
    · rename_i hx
      cases hd
      refine Or.inr (Or.inr ⟨id, ?_, rfl⟩)
      rcases hkind with rfl | rfl
      · exact Or.inl hx.symm
      · exact Or.inr hx.symm
    · exact ih x d hd
  | prepare _ _ ih =>
    intro x d hd
    rw [getTxRecord_putTxRecord] at hd
    split at hd
    · rename_i hx
      cases hd
      exact Or.inl ⟨_, _, hx.symm, rfl⟩
    · exact ih x d hd
  | decision _ id rec ih =>
    intro x d hd
    rw [getTxRecord_putTxRecord] at hd
    split at hd
    · rename_i hx
      cases hd
      exact Or.inr (Or.inl ⟨id, rec, hx.symm, rfl⟩)
    · exact ih x d hd
  | drop _ id ih =>
    intro x d hd
    rw [getTxRecord_deleteTxRecord] at hd
    split_ifs at hd
    exact ih x d hd

theorem mem_scanPrefix {pre : String} {limit : Int} {item : String × KVEntry}
    (h : item ∈ s.scanPrefix pre limit) : hasPrefix item.1 pre = true := by
  have hall : ∀ it ∈ (s.toList.filter fun item => hasPrefix item.1 pre).filterMap
      (fun item => item.2.toKV?.map fun entry => (item.1, entry)),
      hasPrefix it.1 pre = true := by
    intro it hit
    obtain ⟨raw, hraw, hmap⟩ := mem_filterMap.mp hit
    obtain ⟨entry, -, rfl⟩ := Option.map_eq_some_iff.mp hmap
    exact (mem_filter.mp hraw).2
  unfold scanPrefix at h
  dsimp only at h
  split at h
  · exact hall item (mem_of_mem_take h)
  · exact hall item h

end Store

namespace KVServer

variable {hash : String → UInt64} {kv kv' : KVServer} {net : Net} {clock : Clock} {reply : Reply}

theorem scan_user {args : ScanArgs} {now : Int64} (hpre : apart args.pre = true) {item : ScanItem}
    (hitem : item ∈ (kv.doScan now args).items) : isUserKey item.key = true := by
  unfold doScan at hitem
  split at hitem
  · cases hitem
  · obtain ⟨found, hfound, rfl⟩ := mem_map.mp hitem
    exact isUserKey_of_apart hpre (Store.mem_scanPrefix (mem_filter.mp hfound).1)

theorem of_scan_reply {req : Request} {r : ScanReply}
    (hrun : kv.doOp hash net clock req = some (kv', .scan r)) :
    ∃ args, req = .scan args ∧ r = kv.doScan clock.now args := by
  cases req with
  | scan args =>
    have hpair := Prod.ext_iff.mp (Option.some.inj hrun)
    exact ⟨args, rfl, (Reply.scan.inj hpair.2).symm⟩
  | setShardState args => cases (of_doOp_setShardState hrun).2
  | get key => cases (Prod.ext_iff.mp (Option.some.inj hrun)).2
  | put args => cases (of_doOp_put hrun).2
  | delete key => cases (of_doOp_delete hrun).2
  | cleanupShard args => cases (of_doOp_cleanupShard hrun).2
  | expire args =>
    obtain ⟨_, _, heq⟩ := of_doOp_expire hrun
    cases heq
  | prepareTx args =>
    obtain ⟨_, _, heq⟩ := of_doOp_prepareTx hrun
    cases heq
  | commitTx args =>
    obtain ⟨_, _, heq⟩ := of_doOp_commitTx hrun
    cases heq
  | abortTx txID =>
    obtain ⟨_, _, heq⟩ := of_doOp_abortTx hrun
    cases heq
  | resolveTxStatus txID =>
    obtain ⟨_, _, heq⟩ := of_doOp_resolveTxStatus hrun
    cases heq
  | recordTxDecision args => cases (of_doOp_recordTxDecision hrun).2

theorem commit_records {txID : String} {e : Err} (h : kv.Within fun key => isUserKey key = true)
    (hrun : kv.commit txID = some (kv', e)) {x : String} (hcomm : x ≠ txCommitPrefix ++ txID)
    (hprep : x ≠ txPreparePrefix ++ txID) : kv'.store.getTxRecord x = kv.store.getTxRecord x := by
  rcases commit_cases hrun with rfl | ⟨-, ⟨-, rfl⟩ | ⟨mid, rec, hload, hap⟩⟩
  · rfl
  · rfl
  obtain ⟨hsto, hrec⟩ : mid.store = kv.store ∧ rec.Within fun key => isUserKey key = true := by
    rcases loadPrepared_cases hload with ⟨hcac, rfl⟩ | ⟨hdisk, rfl⟩
    · exact ⟨rfl, h.cached txID rec hcac⟩
    · exact ⟨rfl, h.stored txID rec hdisk⟩
  rcases applyCommit_cases mid txID rec with heq | ⟨store, hbat, heq⟩ <;> cases hap.symm.trans heq
  · rw [hsto]
  · change (store.deleteTxRecord _).getTxRecord x = _
    rw [Store.getTxRecord_deleteTxRecord, if_neg hprep.symm,
      Store.getTxRecord_writeBatchWithCASAndRecord (hrec.batchOps fun _ hk => hk) hbat,
      if_neg hcomm.symm, hsto]

theorem within_of_avoidsRecords {req : Request} (hreq : avoidsRecords req = true) :
    req.Within (fun key => isUserKey key = true) fun key => isUserKey key = true := by
  cases req <;> simp_all [avoidsRecords, Request.Within]

theorem records_stay {req : Request} (hreq : avoidsRecords req = true)
    (htx : isTxCommand req = false) (hrun : kv.doOp hash net clock req = some (kv', reply))
    (x : String) : kv'.store.getTxRecord x = kv.store.getTxRecord x := by
  rcases wrote_doOp (within_of_avoidsRecords hreq) htx hrun with hw | ⟨-, mgr, rfl⟩
  · apply hw.store.getElem?
    rw [isUserKey_txKey]
    decide
  · rfl

end KVServer

structure Separate (kv : KVServer) : Prop where
  within : kv.Within fun key => isUserKey key = true
  genuine : kv.store.Genuine

theorem Separate.step {hash : String → UInt64} {kv kv' : KVServer} {net : Net} {clock : Clock}
    {req : Request} {reply : Reply} (h : Separate kv) (hreq : avoidsRecords req = true)
    (hrun : kv.doOp hash net clock req = some (kv', reply)) : Separate kv' := by
  rcases moved_or_set (fun _ hk => hk) h.within
    (within_of_avoidsRecords hreq) hrun with hmv | ⟨mgr, rfl⟩
  · exact ⟨hmv.within, hmv.changes.genuine (fun _ hk => hk) h.genuine⟩
  · exact ⟨⟨h.within.cached, h.within.stored⟩, h.genuine⟩

theorem separate_of_reachable {hash : String → UInt64} {kv : KVServer}
    (hs : (group hash).Reachable (fun _ input => avoidsRecords input.request = true) kv) :
    Separate kv := by
  refine hs.invariant (I := Separate) ?_ ?_
  · rintro kv ⟨htx, hnone⟩
    refine ⟨⟨fun txID rec hrec => ?_, fun txID rec hrec => ?_⟩, fun x d hd => ?_⟩
    · rw [htx] at hrec
      simp at hrec
    · rw [hnone] at hrec
      cases hrec
    · rw [hnone] at hd
      cases hd
  · intro kv input kv' h hreq hstep
    obtain ⟨⟨kv₁, reply⟩, hrun, rfl⟩ := Option.map_eq_some_iff.mp hstep
    exact h.step hreq hrun

/-- In every run whose commands keep off the reserved keys records are written by the
commands of two-phase commit only, the writes of a transaction touch none, and no scan
returns one; a migration with a prefix that keeps off them neither copies nor deletes
one. -/
theorem records_isolated {hash : String → UInt64} {kv kv' : KVServer} {input : Input}
    {reply : Reply}
    (hs : (group hash).Reachable (fun _ input => avoidsRecords input.request = true) kv)
    (hreq : avoidsRecords input.request = true)
    (hrun : kv.doOp hash input.net input.clock input.request = some (kv', reply)) :
    (isTxCommand input.request = false → ∀ x, kv'.store.getTxRecord x = kv.store.getTxRecord x) ∧
    kv'.store.Genuine ∧
    (∀ args, input.request = .commitTx args → ∀ x, x ≠ txCommitPrefix ++ args.txID →
      x ≠ txPreparePrefix ++ args.txID → kv'.store.getTxRecord x = kv.store.getTxRecord x) ∧
    (∀ r, reply = .scan r → ∀ item ∈ r.items, isUserKey item.key = true) ∧
    ∀ (job : MigrationJob) (now : Int64), apart job.pre = true →
      (∀ item ∈ job.bulkItems hash (kv.doScan now ⟨"", 0⟩).items, isUserKey item.key = true) ∧
        ∀ k ∈ job.cleanupKeys hash (kv.doScan now ⟨"", 0⟩).items, isUserKey k.key = true := by
  have hsep := separate_of_reachable hs
  refine ⟨fun htx => records_stay hreq htx hrun, (hsep.step hreq hrun).genuine, ?_, ?_, ?_⟩
  · intro args hcomm x hx hx'
    rw [hcomm] at hrun
    obtain ⟨e, hcom, -⟩ := of_doOp_commitTx hrun
    exact commit_records hsep.within hcom hx hx'
  · rintro r rfl item hitem
    obtain ⟨args, hscan, rfl⟩ := of_scan_reply hrun
    rw [hscan] at hreq
    exact scan_user hreq hitem
  · intro job now hpre
    have hsel : ∀ it : ScanItem, job.selects hash it.key = true → isUserKey it.key = true := by
      intro it hit
      rw [MigrationJob.selects, Bool.and_eq_true, Bool.or_eq_true] at hit
      rcases hit.2 with hempty | hpref
      · rw [of_decide_eq_true hempty] at hpre
        exact absurd hpre (by decide)
      · exact isUserKey_of_apart hpre hpref
    constructor
    · intro item hitem
      obtain ⟨it, hit, rfl⟩ := mem_map.mp hitem
      exact hsel it (mem_filter.mp hit).2
    · intro k hk
      obtain ⟨it, hit, rfl⟩ := mem_map.mp hk
      exact hsel it (mem_filter.mp hit).2

theorem records_isolated_sample : ∃ kv reply,
    (group fun _ => 0).Reachable (fun _ input => avoidsRecords input.request = true) kv ∧
      (kv.store.getTxRecord "prepare:t").isSome = true ∧
      kv.doOp (fun _ => 0) .offline ⟨0, 0⟩ (.scan ⟨"k", 0⟩) = some (kv, .scan reply) ∧
      reply.items = [⟨"key", "a", 1, 0⟩] ∧ ∀ item ∈ reply.items, isUserKey item.key = true := by
  obtain ⟨kv, hrun, hrecord, hitems⟩ := Lib.System.exists_of_execOk (group fun _ => 0)
    (fun _ input => avoidsRecords input.request = true) (newKVServer 1 ∅)
    [⟨.put ⟨"key", "a", 0, 0⟩, .offline, ⟨0, 0⟩⟩, ⟨.prepareTx sampleTx, .offline, ⟨0, 0⟩⟩]
    (fun kv => (kv.store.getTxRecord "prepare:t").isSome = true ∧
      (kv.doScan 0 ⟨"k", 0⟩).items = [⟨"key", "a", 1, 0⟩]) (by decide +kernel)
  have hs : (group fun _ => 0).Reachable (fun _ input => avoidsRecords input.request = true) kv :=
    ⟨newKVServer 1 ∅, ⟨rfl, fun _ => rfl⟩, hrun⟩
  have hscan := @records_isolated _ _ _ ⟨.scan ⟨"k", 0⟩, .offline, ⟨0, 0⟩⟩ _ hs (by decide) rfl
  exact ⟨kv, kv.doScan 0 ⟨"k", 0⟩, hs, hrecord, rfl, hitems, hscan.2.2.2.1 _ rfl⟩

theorem records_exposed :
    ((machine fun _ => 0).run (newKVServer 1 ∅)
      [⟨.prepareTx sampleTx, .offline, ⟨0, 0⟩⟩, ⟨.scan ⟨"", 0⟩, .offline, ⟨0, 0⟩⟩,
        ⟨.put ⟨"_tx:commit:t", "", 0, 0⟩, .offline, ⟨0, 0⟩⟩,
        ⟨.commitTx ⟨"t", []⟩, .offline, ⟨0, 0⟩⟩,
        ⟨.cleanupShard ⟨0, [⟨"_tx:prepare:t", 0⟩]⟩, .offline, ⟨0, 0⟩⟩]).map
      (fun r => (r.1.store["k"]?, r.1.store.getTxRecord "prepare:t", r.2)) =
      some (none, none, [.prepareTx .ok,
        .scan { items := [⟨"_tx:prepare:t", "", 0, 0⟩], err := .ok }, .put { err := .ok },
        .commitTx .ok, .cleanupShard { deleted := 1, err := .ok }]) ∧
    (MigrationJob.bulkItems (fun _ => 0) ⟨0, 1, 2, "", 1024, 1, 1, []⟩
      [⟨"_tx:prepare:t", "", 0, 0⟩]).map (·.key) = ["_tx:prepare:t"] := by
  constructor
  · decide +kernel
  · decide +kernel

end OrbisKV.KV
