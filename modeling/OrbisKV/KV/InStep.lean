import OrbisKV.KV.Promise
import OrbisKV.KV.PlainKey
import OrbisKV.KV.Serial
/-!
# A group beside the serial execution

The transactions run one after another in the order in which their decisions are
recorded.
-/

namespace OrbisKV.KV

open Std Entries List Option Store

namespace Store

variable {s t : Store}

theorem finished_aborted (s : Store) (txID : String) (d : Document) :
    ((s.putTxRecord (txAbortPrefix ++ txID) d).deleteTxRecord
      (txPreparePrefix ++ txID)).finished txID = true := by
  rw [finished_eq, Bool.or_eq_true, getTxRecord_deleteTxRecord, getTxRecord_deleteTxRecord,
    if_neg (prepare_ne_abort _ _), getTxRecord_putTxRecord, getTxRecord_putTxRecord, if_pos rfl]
  exact .inr rfl

theorem left_of_opResult {wk : WriteKey} {found left : Option Document}
    (h : opResult ⟨wk.key, wk.value, wk.version.toUInt64, 0, wk.isDelete⟩ found = .ok left) :
    left = wk.left.map .entry := by
  unfold WriteKey.left
  unfold opResult at h
  cases found with
  | none =>
    dsimp only at h
    split_ifs at h with hver hdel
    · cases h
      rw [if_pos hdel]
      rfl
    · cases h
      rw [if_neg hdel, not_not.mp hver]
      rfl
  | some raw =>
    dsimp only at h
    split at h
    · cases h
    · split_ifs at h with hver hdel
      · cases h
        rw [if_pos hdel]
        rfl
      · cases h
        rw [if_neg hdel, not_not.mp hver]
        rfl

theorem left_of_batch {writeKeys : List WriteKey} {key : String}
    (h : s.writeBatchWithCASInTxn (batchOps writeKeys) = .ok t)
    (hkey : ∃ wk ∈ writeKeys, wk.key = key) :
    ∃ wk ∈ writeKeys, wk.key = key ∧ t[key]? = wk.left.map .entry := by
  induction writeKeys generalizing s with
  | nil => simp at hkey
  | cons wk wks ih =>
    rw [batchOps, map_cons, writeBatchWithCASInTxn, writeOpWithCAS_eq] at h
    by_cases hlater : ∃ other ∈ wks, other.key = key
    · split at h
      · cases h
      · obtain ⟨other, hother, hrest⟩ := ih h hlater
        exact ⟨other, mem_cons_of_mem wk hother, hrest⟩
    · have hfirst : wk.key = key := by
        obtain ⟨other, hother, hk⟩ := hkey
        rcases mem_cons.mp hother with rfl | hother
        · exact hk
        · exact absurd ⟨other, hother, hk⟩ hlater
      subst hfirst
      refine ⟨wk, mem_cons_self, rfl, ?_⟩
      cases hres : opResult ⟨wk.key, wk.value, wk.version.toUInt64, 0, wk.isDelete⟩ s[wk.key]? with
      | error e =>
        rw [hres] at h
        cases h
      | ok left =>
        rw [hres] at h
        have hframe : t[wk.key]? = (s.place wk.key left)[wk.key]? := by
          apply writeBatchWithCASInTxn_frame h
          intro op hop heq
          obtain ⟨other, hother, rfl⟩ := mem_map.mp hop
          exact hlater ⟨other, hother, heq⟩
        rw [hframe, getElem?_place, if_pos rfl, left_of_opResult hres]

end Store

def PrepareTxArgs.writes (args : PrepareTxArgs) (key : String) : Prop :=
  ∃ wk ∈ args.writeKeys, wk.key = key

instance (args : PrepareTxArgs) (key : String) : Decidable (args.writes key) :=
  inferInstanceAs (Decidable (∃ wk ∈ args.writeKeys, wk.key = key))

instance (rec : PreparedTxRecord) (key : String) : Decidable (rec.writes key) :=
  inferInstanceAs (Decidable (∃ wk ∈ rec.writeKeys, wk.key = key))

namespace KVServer

structure Thins (kv kv' : KVServer) : Prop where
  fresh : ∀ (x : String) rec, kv'.txMgr.preparedTxs[x]? = some rec →
    kv.txMgr.preparedTxs[x]? = some rec
  kept : ∀ (x : String) rec, kv.txMgr.preparedTxs[x]? = some rec →
    kv'.txMgr.preparedTxs[x]? = some rec ∨ kv'.store.finished x = true
  finished : ∀ x, kv.store.finished x = true → kv'.store.finished x = true

section

variable {kv kv' kv'' : KVServer} {txID : String} {rec : PreparedTxRecord} {net : Net}

theorem Thins.refl (kv : KVServer) : Thins kv kv :=
  ⟨fun _ _ h => h, fun _ _ h => .inl h, fun _ h => h⟩

theorem Thins.trans (h : Thins kv kv') (h' : Thins kv' kv'') : Thins kv kv'' := by
  refine ⟨fun x rec hx => h.fresh x rec (h'.fresh x rec hx), fun x rec hx => ?_,
    fun x hx => h'.finished x (h.finished x hx)⟩
  rcases h.kept x rec hx with hmid | hmid
  · exact h'.kept x rec hmid
  · exact .inr (h'.finished x hmid)

theorem Closes.thins (hc : Closes txID kv kv') (hfin : kv'.store.finished txID = true) :
    Thins kv kv' := by
  refine ⟨?_, ?_, ?_⟩
  · intro x rec hx
    rw [hc.cache] at hx
    split_ifs at hx
    exact hx
  · intro x rec hx
    rw [hc.cache]
    split
    · rename_i heq
      subst heq
      exact .inr hfin
    · exact .inl hx
  · intro x hx
    by_cases heq : txID = x
    · rwa [← heq]
    · rwa [hc.marks x heq]

structure Turns (new : PreparedTxRecord → Prop) (kv kv' : KVServer) : Prop where
  fresh : ∀ (x : String) rec, kv'.txMgr.preparedTxs[x]? = some rec →
    kv.txMgr.preparedTxs[x]? = some rec ∨ rec.txID = x ∧ new rec
  kept : ∀ x : String, kv.txMgr.preparedTxs[x]?.isSome = true →
    kv'.txMgr.preparedTxs[x]?.isSome = true ∨ kv'.store.finished x = true
  finished : ∀ x, kv.store.finished x = true → kv'.store.finished x = true

theorem Thins.turns (h : Thins kv kv') (new : PreparedTxRecord → Prop) : Turns new kv kv' := by
  refine ⟨fun x rec hx => .inl (h.fresh x rec hx), fun x hx => ?_, h.finished⟩
  obtain ⟨rec, hrec⟩ := isSome_iff_exists.mp hx
  rcases h.kept x rec hrec with hkept | hfin
  · exact .inl (by rw [hkept]; rfl)
  · exact .inr hfin

theorem Tidy.applyCommit_cases (h : kv.Tidy) (hcac : kv.txMgr.preparedTxs[txID]? = some rec) :
    (kv.applyCommit txID rec).1 = kv ∨ Closes txID kv (kv.applyCommit txID rec).1 ∧
        (kv.applyCommit txID rec).1.store.finished txID = true ∧
        ∀ key, isUserKey key = true → rec.writes key → ∃ wk ∈ rec.writeKeys, wk.key = key ∧
          (kv.applyCommit txID rec).1.store[key]? = wk.left.map .entry := by
  have hap := h.applyCommit hcac
  cases hbat : kv.store.writeBatchWithCASInTxn (batchOps rec.writeKeys) with
  | error e =>
    refine .inl ?_
    unfold KVServer.applyCommit Store.writeBatchWithCASAndRecord
    rw [hbat]
  | ok mid =>
    rcases hap with hsame | hclo
    · exact .inl hsame
    · refine .inr ⟨hclo, ?_, ?_⟩
      · exact (finished_iff_hasRecord _ txID).mpr (.inl (applyCommit_ok hbat).2)
      · intro key huser hwri
        obtain ⟨wk, hwk, hkey, hleft⟩ := left_of_batch hbat hwri
        refine ⟨wk, hwk, hkey, ?_⟩
        rw [← hleft]
        unfold KVServer.applyCommit Store.writeBatchWithCASAndRecord
        rw [hbat]
        change ((mid.putTxRecord _ _).deleteTxRecord _)[key]? = _
        rw [getElem?_deleteTxRecord huser, getElem?_putTxRecord huser]

end

/-- The entries that the keys of the group have once the recorded decisions are carried
out: `order` are the transactions whose decision is COMMITTED. -/
def latest (kv : KVServer) (order : List String) : Entries := fun key =>
  match order.findSome? fun txID => kv.txMgr.preparedTxs[txID]?.bind fun rec =>
      rec.writeKeys.find? fun wk => wk.key = key with
  | some wk => wk.left
  | none => kv.store.kvAt? key

/-- The group keeps step with the serial execution of `order`, which has led to the
entries `m`, while the transactions that are prepared have been given the answers
`seen`. -/
structure InStep (resolve : String → Int) (m : Entries) (order : List String)
    (seen : String → List (String × Answer)) (gid : Int) (kv : KVServer) : Prop where
  tidy : kv.Tidy
  plain : ∀ key, isUserKey key = true → kv.Plain key
  pending : ∀ x ∈ order, ∀ rec, kv.txMgr.preparedTxs[x]? = some rec →
    ∀ wk ∈ rec.writeKeys, m wk.key = wk.left
  current : ∀ key, isUserKey key = true → resolve key = gid →
    (∀ x ∈ order, ∀ rec, kv.txMgr.preparedTxs[x]? = some rec → ¬rec.writes key) →
      m key = kv.store.kvAt? key
  valid : ∀ (x : String) rec, kv.txMgr.preparedTxs[x]? = some rec → x ∉ order →
    (∀ wk ∈ rec.writeKeys, m.version wk.key = wk.version.toUInt64) ∧
      ∀ item ∈ seen x, resolve item.1 = gid → m.answer item.1 = item.2
  apart : ∀ (x y : String) rec rec', kv.txMgr.preparedTxs[x]? = some rec →
    kv.txMgr.preparedTxs[y]? = some rec' → x ≠ y → ∀ item ∈ seen x, ¬rec'.writes item.1

namespace InStep

variable {resolve : String → Int} {m : Entries} {order : List String}
  {seen : String → List (String × Answer)} {gid : Int} {kv kv' : KVServer} {txID : String}
  {rec : PreparedTxRecord} {net : Net}

section

variable (h : InStep resolve m order seen gid kv)

include h

theorem congr (htidy : kv'.Tidy)
    (hcache : ∀ x : String, kv'.txMgr.preparedTxs[x]? = kv.txMgr.preparedTxs[x]?)
    (hkeys : ∀ key, isUserKey key = true → kv'.store[key]? = kv.store[key]?) :
    InStep resolve m order seen gid kv' := by
  refine ⟨htidy, fun key hkey => (h.plain key hkey).congr (hkeys key hkey), ?_, ?_, ?_, ?_⟩
  · simpa only [hcache] using h.pending
  · intro key huser hgid hfree
    simp only [hcache] at hfree
    rw [h.current key huser hgid hfree, kvAt?_of_getElem? (hkeys key huser)]
  · simpa only [hcache] using h.valid
  · simpa only [hcache] using h.apart

theorem close (hc : Closes txID kv kv') (hkept : ∀ key, isUserKey key = true →
      (∀ rec, kv.txMgr.preparedTxs[txID]? = some rec → txID ∈ order → ¬rec.writes key) →
        kv'.store[key]? = kv.store[key]?)
    (hleft : ∀ key rec, isUserKey key = true → kv.txMgr.preparedTxs[txID]? = some rec →
      txID ∈ order → rec.writes key →
        ∃ wk ∈ rec.writeKeys, wk.key = key ∧ kv'.store[key]? = wk.left.map .entry) :
    InStep resolve m order seen gid kv' := by
  have hfr : ∀ (x : String) rec, kv'.txMgr.preparedTxs[x]? = some rec →
      kv.txMgr.preparedTxs[x]? = some rec := by
    intro x rec hx
    rw [hc.cache] at hx
    split_ifs at hx
    exact hx
  refine ⟨hc.tidy h.tidy, ?_, ?_, ?_, ?_, ?_⟩
  · intro key huser
    by_cases hw : ∃ rec, kv.txMgr.preparedTxs[txID]? = some rec ∧ txID ∈ order ∧ rec.writes key
    · obtain ⟨rec, hcac, hin, hwri⟩ := hw
      obtain ⟨wk, -, -, hstore⟩ := hleft key rec huser hcac hin hwri
      unfold WriteKey.left at hstore
      split at hstore
      · exact plain_of_none hstore
      · exact plain_of_entry hstore (Int64.le_refl 0)
    · refine (h.plain key huser).congr (hkept key huser fun rec hcac hin hwri => ?_)
      exact hw ⟨rec, hcac, hin, hwri⟩
  · exact fun x hx rec hcac => h.pending x hx rec (hfr x rec hcac)
  · intro key huser hgid hfree
    by_cases hw : ∃ rec, kv.txMgr.preparedTxs[txID]? = some rec ∧ txID ∈ order ∧ rec.writes key
    · obtain ⟨rec, hcac, hin, hwri⟩ := hw
      obtain ⟨wk, hwk, rfl, hstore⟩ := hleft key rec huser hcac hin hwri
      rw [h.pending txID hin rec hcac wk hwk, kvAt?, hstore]
      cases wk.left <;> rfl
    · have hsame := hkept key huser fun rec hcac hin hwri => hw ⟨rec, hcac, hin, hwri⟩
      rw [kvAt?_of_getElem? hsame]
      refine h.current key huser hgid fun x hx rec hcac hwri => ?_
      by_cases heq : txID = x
      · subst heq
        exact hw ⟨rec, hcac, hx, hwri⟩
      · refine hfree x hx rec ?_ hwri
        rwa [hc.cache, if_neg heq]
  · exact fun x rec hcac => h.valid x rec (hfr x rec hcac)
  · exact fun x y rec rec' hx hy => h.apart x y rec rec' (hfr x rec hx) (hfr y rec' hy)

section

variable (hcac : kv.txMgr.preparedTxs[txID]? = some rec) (hin : txID ∈ order)

include hcac hin

theorem applyCommit :
    InStep resolve m order seen gid (kv.applyCommit txID rec).1 ∧
      Thins kv (kv.applyCommit txID rec).1 := by
  rcases h.tidy.applyCommit_cases hcac with hsame | ⟨hclo, hfin, hleft⟩
  · rw [hsame]
    exact ⟨h, .refl kv⟩
  · refine ⟨h.close hclo ?_ ?_, hclo.thins hfin⟩
    · intro key huser hfree
      exact applyCommit_frame huser (hfree rec hcac hin)
    · intro key rec' huser hcac' _ hwri
      rw [hcac] at hcac'
      cases hcac'
      exact hleft key huser hwri

theorem executeCommit :
    InStep resolve m order seen gid (kv.executeCommit rec) ∧ Thins kv (kv.executeCommit rec) := by
  obtain rfl := h.tidy.named txID rec hcac
  rw [executeCommit_eq]
  exact h.applyCommit hcac hin

end

theorem closeOther (hc : Closes txID kv kv')
    (hout : txID ∉ order) (hkeys : ∀ key, isUserKey key = true → kv'.store[key]? = kv.store[key]?) :
    InStep resolve m order seen gid kv' :=
  h.close hc (fun key huser _ => hkeys key huser) fun _ _ _ _ hin => absurd hin hout

theorem executeAbort (hcac : kv.txMgr.preparedTxs[txID]? = some rec) (hout : txID ∉ order) :
    InStep resolve m order seen gid (kv.executeAbort rec) ∧ Thins kv (kv.executeAbort rec) := by
  have hclo := h.tidy.executeAbort hcac
  obtain rfl := h.tidy.named txID rec hcac
  exact ⟨h.closeOther hclo hout fun key huser => executeAbort_frame huser,
    hclo.thins (finished_aborted _ _ _)⟩

def Answered (order : List String) (net : Net) (kv : KVServer) : Prop :=
  ∀ (x : String) rec, kv.txMgr.preparedTxs[x]? = some rec →
    (kv.queryCoordinatorDecision net rec = .committed → x ∈ order) ∧
      (kv.queryCoordinatorDecision net rec = .aborted → x ∉ order)

theorem resolveConflicts (hnet : Answered order net kv)
    (txID : String) (writeKeys : List WriteKey) :
    InStep resolve m order seen gid (KVServer.resolveConflicts net txID kv writeKeys).1 ∧
      Thins kv (KVServer.resolveConflicts net txID kv writeKeys).1 := by
  -- the answers are those that `kv` would be given, as no decision is recorded on the way
  let I (mid : KVServer) : Prop := (InStep resolve m order seen gid mid ∧ Thins kv mid) ∧
    Ended (fun rec => rec.Within fun key => isUserKey key = true) (fun _ => True) kv mid
  have hopen : ∀ (mid : KVServer) (x : String) rec, mid.Tidy →
      mid.txMgr.preparedTxs[x]? = some rec → mid.store.finished rec.txID = false := by
    intro mid x rec htidy hcac
    rw [htidy.named x rec hcac]
    exact htidy.pending x rec hcac
  have hfinal : I (KVServer.resolveConflicts net txID kv writeKeys).1 := by
    refine h.tidy.resolveConflicts_rule ?_ ?_ ⟨⟨h, .refl kv⟩, .refl h.tidy.holds⟩ txID writeKeys
    · rintro mid x rec htidy ⟨⟨hmid, hthins⟩, hend⟩ hcac hquery
      rw [queryCoordinatorDecision_congr hend.groupID hend.decisions] at hquery
      have hin := (hnet x rec (hthins.fresh x rec hcac)).1 hquery
      obtain ⟨hstep, hthins'⟩ := hmid.executeCommit hcac hin
      exact ⟨⟨hstep, hthins.trans hthins'⟩, hend.trans (ended_executeCommit hend.holds
        (htidy.within.cached x rec hcac) (hopen mid x rec htidy hcac) trivial)⟩
    · rintro mid x rec htidy ⟨⟨hmid, hthins⟩, hend⟩ hcac hquery
      rw [queryCoordinatorDecision_congr hend.groupID hend.decisions] at hquery
      have hout := (hnet x rec (hthins.fresh x rec hcac)).2 hquery
      obtain ⟨hstep, hthins'⟩ := hmid.executeAbort hcac hout
      exact ⟨⟨hstep, hthins.trans hthins'⟩, hend.trans (ended_executeAbort hend.holds
        (hopen mid x rec htidy hcac) trivial)⟩
  exact hfinal.1

/-- The transaction meets the group as it left it, and no other transaction in between:
what `Prepare` leaves unchecked, by the entries that the keys have once the recorded
decisions are carried out. -/
structure Undisturbed (resolve : String → Int) (order : List String)
    (seen : String → List (String × Answer)) (gid : Int) (kv : KVServer) (args : PrepareTxArgs) :
    Prop where
  writes : ∀ wk ∈ args.writeKeys, (kv.latest order).version wk.key = wk.version.toUInt64 ∨
      ∃ rk ∈ args.readKeys, rk.key = wk.key ∧ rk.expectedVersion = wk.version
  absent : ∀ item ∈ seen args.txID, resolve item.1 = gid → item.2.2.2 ≠ .ok →
    kv.latest order item.1 = none
  same : ∀ item ∈ seen args.txID, resolve item.1 = gid → item.2.2.2 = .ok →
    ((kv.latest order).version item.1).toInt64 = item.2.2.1 →
      (kv.latest order).answer item.1 = item.2
  others : ∀ tx ∈ kv.txMgr.preparedTxs.toList, tx.1 ≠ args.txID →
    (∀ item ∈ seen args.txID, tx.2.writes item.1 → args.writes item.1) ∧
      ∀ item ∈ seen tx.1, args.writes item.1 → tx.2.writes item.1

set_option synthInstance.maxSize 512 in
instance (resolve : String → Int) (order : List String)
    (seen : String → List (String × Answer)) (gid : Int) (kv : KVServer) (args : PrepareTxArgs) :
    Decidable (Undisturbed resolve order seen gid kv args) :=
  decidable_of_iff (_ ∧ _ ∧ _ ∧ _)
    ⟨fun h => ⟨h.1, h.2.1, h.2.2.1, h.2.2.2⟩, fun h => ⟨h.writes, h.absent, h.same, h.others⟩⟩

theorem latest_eq {key : String}
    (huser : isUserKey key = true) (hgid : resolve key = gid) : kv.latest order key = m key := by
  unfold latest
  split
  · rename_i wk hfound
    obtain ⟨x, hx, hwr⟩ := exists_of_findSome?_eq_some hfound
    obtain ⟨rec, hcac, hfind⟩ := bind_eq_some_iff.mp hwr
    have hkey : wk.key = key := by simpa using find?_some hfind
    rw [← hkey, h.pending x hx rec hcac wk (mem_of_find?_eq_some hfind)]
  · rename_i hnone
    rw [findSome?_eq_none_iff] at hnone
    refine (h.current key huser hgid ?_).symm
    rintro x hx rec hcac ⟨wk, hwk, rfl⟩
    have hfind := hnone x hx
    rw [hcac, bind_some, find?_eq_none] at hfind
    exact hfind wk hwk (decide_eq_true rfl)

end

theorem checkRead_ok {now : Int64} {rk : ReadKey} (hpl : kv.Plain rk.key)
    (hok : checkRead kv.store now rk = .ok) :
    (version kv.store.kvAt? rk.key).toInt64 = rk.expectedVersion := by
  obtain ⟨found, hget, hlive, hdoc, -⟩ := hpl.get
  have hkv : kv.store.kvAt? rk.key = found := by
    rw [kvAt?, hdoc]
    cases found <;> rfl
  unfold checkRead at hok
  rw [hget] at hok
  unfold version
  rw [hkv]
  cases found with
  | none =>
    dsimp only at hok
    split_ifs at hok with hver
    exact (not_not.mp hver).symm
  | some e =>
    have hexp : isExpired e.expires now = false := by
      have hl := hlive now
      rw [live?_some] at hl
      by_contra hexp
      rw [Bool.not_eq_false] at hexp
      rw [hexp] at hl
      cases hl
    dsimp only at hok
    rw [hexp] at hok
    simp only [Bool.false_eq_true, if_false] at hok
    split_ifs at hok with hver
    exact (not_not.mp hver).symm

theorem checkReads_ok {s : Store} {now : Int64} {rks : List ReadKey}
    (hok : checkReads s now rks = .ok) : ∀ rk ∈ rks, checkRead s now rk = .ok := by
  induction rks with
  | nil => simp
  | cons rk rks ih =>
    rw [checkReads] at hok
    split at hok
    · exact forall_mem_cons.mpr ⟨‹_›, ih hok⟩
    · rename_i hne
      exact absurd hok hne

structure Fits (resolve : String → Int) (seen : String → List (String × Answer)) (gid : Int)
    (args : PrepareTxArgs) : Prop where
  writes : ∀ wk ∈ args.writeKeys, isUserKey wk.key = true ∧ resolve wk.key = gid
  answers : ∀ item ∈ seen args.txID,
    isUserKey item.1 = true ∧ (item.2.2.2 = .ok ∨ item.2 = ("", 0, .noKey))
  reads : ∀ item ∈ seen args.txID, resolve item.1 = gid → item.2.2.2 = .ok →
    ∃ rk ∈ args.readKeys, rk.key = item.1 ∧ rk.expectedVersion = item.2.2.1

section

variable {args : PrepareTxArgs} {now : Int64} {mid : KVServer}

theorem current_of_unlocked (h : InStep resolve m order seen gid kv) {key : String}
    (huser : isUserKey key = true) (hgid : resolve key = gid) (hout : txID ∉ order)
    (hunlo : kv.otherHolder txID key = none) : m key = kv.store.kvAt? key := by
  refine h.current key huser hgid fun x hx rec hcac hwri => ?_
  have hlock := (h.tidy.lockedBy_iff hcac key).mpr hwri
  rw [otherHolder, filter_eq_none_iff] at hunlo
  have hown := hunlo x hlock
  rw [decide_eq_true_eq, not_not] at hown
  exact hout (hown ▸ hx)

theorem valid_of_checked (h : InStep resolve m order seen gid kv)
    (hmid : InStep resolve m order seen gid mid) (hthins : Thins kv mid)
    (hfits : Fits resolve seen gid args) (hcalm : Undisturbed resolve order seen gid kv args)
    (hout : args.txID ∉ order)
    (hunlo : ∀ wk ∈ args.writeKeys, mid.otherHolder args.txID wk.key = none)
    (hreads : checkReads mid.store now args.readKeys = .ok) :
    (∀ wk ∈ args.writeKeys, m.version wk.key = wk.version.toUInt64) ∧
      ∀ item ∈ seen args.txID, resolve item.1 = gid → m.answer item.1 = item.2 := by
  have hche := checkReads_ok hreads
  have hwrit : ∀ wk ∈ args.writeKeys, m wk.key = mid.store.kvAt? wk.key := by
    intro wk hwk
    obtain ⟨huser, hgid⟩ := hfits.writes wk hwk
    exact hmid.current_of_unlocked huser hgid hout (hunlo wk hwk)
  have hseen : ∀ item ∈ seen args.txID, resolve item.1 = gid →
      m item.1 = mid.store.kvAt? item.1 := by
    intro item hitem hgid
    refine hmid.current item.1 (hfits.answers item hitem).1 hgid fun x hx rec hcac hwri => ?_
    have hne : x ≠ args.txID := fun heq => hout (heq ▸ hx)
    have hold : (x, rec) ∈ kv.txMgr.preparedTxs.toList :=
      ExtTreeMap.mem_toList_iff_getElem?_eq_some.mpr (hthins.fresh x rec hcac)
    obtain ⟨wk, hwk, hkey⟩ := (hcalm.others (x, rec) hold hne).1 item hitem hwri
    have hlock := (hmid.tidy.lockedBy_iff hcac item.1).mpr hwri
    have hunl := hunlo wk hwk
    rw [hkey, otherHolder, filter_eq_none_iff] at hunl
    exact hunl x hlock (decide_eq_true hne)
  refine ⟨fun wk hwk => ?_, fun item hitem hgid => ?_⟩
  · obtain ⟨huser, hgid⟩ := hfits.writes wk hwk
    rcases hcalm.writes wk hwk with hver | ⟨rk, hrk, hkey, hver⟩
    · rwa [version, h.latest_eq huser hgid] at hver
    · have hread := checkRead_ok (hmid.plain rk.key (by rwa [hkey])) (hche rk hrk)
      rw [hkey, hver, version, ← hwrit wk hwk] at hread
      rw [← hread]
      exact (UInt64.toUInt64_toInt64 _).symm
  · have huser := (hfits.answers item hitem).1
    have hlat := h.latest_eq huser hgid
    rcases (hfits.answers item hitem).2 with hok | hnone
    · obtain ⟨rk, hrk, hkey, hver⟩ := hfits.reads item hitem hgid hok
      have hread := checkRead_ok (hmid.plain rk.key (by rwa [hkey])) (hche rk hrk)
      rw [hkey, hver, version, ← hseen item hitem hgid] at hread
      have hsame := hcalm.same item hitem hgid hok
      rw [version, answer, reply, hlat] at hsame
      exact hsame hread
    · have habsent := hcalm.absent item hitem hgid (by rw [hnone]; decide)
      rw [hlat] at habsent
      rw [answer, reply, habsent, hnone]
      rfl

theorem installPrepared (h : InStep resolve m order seen gid mid)
    (htidy : (mid.installPrepared rec).Tidy)
    (hsame : ∀ old, mid.txMgr.preparedTxs[rec.txID]? = some old → old.writeKeys = rec.writeKeys)
    (hagain : rec.txID ∈ order → ∀ wk ∈ rec.writeKeys, m wk.key = wk.left)
    (hvalid : rec.txID ∉ order → (∀ wk ∈ rec.writeKeys, m.version wk.key = wk.version.toUInt64) ∧
        ∀ item ∈ seen rec.txID, resolve item.1 = gid → m.answer item.1 = item.2)
    (hother : ∀ (x : String) rec', mid.txMgr.preparedTxs[x]? = some rec' → x ≠ rec.txID →
      (∀ item ∈ seen rec.txID, rec'.writes item.1 → rec.writes item.1) ∧
        ∀ item ∈ seen x, rec.writes item.1 → rec'.writes item.1) :
    InStep resolve m order seen gid (mid.installPrepared rec) := by
  have hstore : ∀ key, isUserKey key = true →
      (mid.installPrepared rec).store[key]? = mid.store[key]? := fun key huser =>
    getElem?_putTxRecord huser _ _
  have hcases : ∀ (x : String) rec', (mid.installPrepared rec).txMgr.preparedTxs[x]? = some rec' →
      (x = rec.txID ∧ rec' = rec) ∨ x ≠ rec.txID ∧ mid.txMgr.preparedTxs[x]? = some rec' := by
    intro x rec' hx
    rw [getElem?_installPrepared] at hx
    split at hx
    · rename_i heq
      cases hx
      exact .inl ⟨heq.symm, rfl⟩
    · rename_i hne
      exact .inr ⟨Ne.symm hne, hx⟩
  refine ⟨htidy, fun key huser => (h.plain key huser).congr (hstore key huser), ?_, ?_, ?_, ?_⟩
  · intro x hx rec' hcac
    rcases hcases x rec' hcac with ⟨rfl, rfl⟩ | ⟨-, hold⟩
    · exact hagain hx
    · exact h.pending x hx rec' hold
  · intro key huser hgid hfree
    rw [kvAt?_of_getElem? (hstore key huser)]
    refine h.current key huser hgid fun x hx rec' hold hwri => ?_
    by_cases heq : rec.txID = x
    · subst heq
      refine hfree rec.txID hx rec ?_ ?_
      · rw [getElem?_installPrepared, if_pos rfl]
      · rwa [PreparedTxRecord.writes, ← hsame rec' hold]
    · refine hfree x hx rec' ?_ hwri
      rwa [getElem?_installPrepared, if_neg heq]
  · intro x rec' hcac hx
    rcases hcases x rec' hcac with ⟨rfl, rfl⟩ | ⟨-, hold⟩
    · exact hvalid hx
    · exact h.valid x rec' hold hx
  · intro x y rec₁ rec₂ hx hy hne item hitem hwri
    rcases hcases x rec₁ hx with ⟨rfl, rfl⟩ | ⟨hxne, hxold⟩
    · rcases hcases y rec₂ hy with ⟨rfl, rfl⟩ | ⟨hyne, hyold⟩
      · exact hne rfl
      · have hown := (hother y rec₂ hyold hyne).1 item hitem hwri
        exact htidy.disjoint hx hy hne.symm hown hwri
    · rcases hcases y rec₂ hy with ⟨rfl, rfl⟩ | ⟨hyne, hyold⟩
      · have hown := (hother x rec₁ hxold hxne).2 item hitem hwri
        exact htidy.disjoint hx hy hne.symm hown hwri
      · exact h.apart x y rec₁ rec₂ hxold hyold hne item hitem hwri

theorem turns_installPrepared (hthins : Thins kv mid) :
    Turns (fun new => new = rec) kv (mid.installPrepared rec) := by
  have hfini : ∀ x, (mid.installPrepared rec).store.finished x = mid.store.finished x :=
    finished_putPrepare _ _ _
  refine ⟨fun x rec' hx => ?_, fun x hx => ?_, fun x hx => ?_⟩
  · rw [getElem?_installPrepared] at hx
    split at hx
    · rename_i heq
      cases hx
      exact .inr ⟨heq, rfl⟩
    · exact .inl (hthins.fresh x rec' hx)
  · rw [getElem?_installPrepared, hfini]
    split
    · exact .inl rfl
    · exact (hthins.turns (fun _ => False)).kept x hx
  · rw [hfini]
    exact hthins.finished x hx

theorem prepare {e : Err} (h : InStep resolve m order seen gid kv) (hnet : Answered order net kv)
    (hord : kv.orderly (.prepareTx args) = true) (hfits : Fits resolve seen gid args)
    (hcalm : Undisturbed resolve order seen gid kv args)
    (hsame : ∀ old, kv.txMgr.preparedTxs[args.txID]? = some old → old.writeKeys = args.writeKeys)
    (hagain : args.txID ∈ order → ∀ wk ∈ args.writeKeys, m wk.key = wk.left)
    (hrun : kv.prepare net now args = some (kv', e)) :
    InStep resolve m order seen gid kv' ∧ Turns (fun new => new = prepareRecord args now) kv kv' ∧
      (e = .ok → kv'.txMgr.preparedTxs[args.txID]?.isSome = true) := by
  have htidy := h.tidy.prepare hord hrun
  have hstep := h.resolveConflicts hnet args.txID args.writeKeys
  obtain ⟨mid, free, hconf, hcases⟩ := prepare_cases hrun
  rw [hconf] at hstep
  obtain ⟨hmid, hthins⟩ := hstep
  rcases hcases with ⟨rfl, hne⟩ | ⟨rfl, rfl, hreads, rfl⟩
  · exact ⟨hmid, hthins.turns _, fun he => absurd he hne⟩
  · have hunlo := (h.tidy.resolveConflicts net hconf).2 rfl
    refine ⟨hmid.installPrepared htidy ?_ hagain ?_ ?_, turns_installPrepared hthins, fun _ => ?_⟩
    · exact fun old hold => hsame old (hthins.fresh _ old hold)
    · exact fun hout => h.valid_of_checked hmid hthins hfits hcalm hout hunlo hreads
    · intro x rec' hcac hne
      exact hcalm.others (x, rec')
        (ExtTreeMap.mem_toList_iff_getElem?_eq_some.mpr (hthins.fresh x rec' hcac)) hne
    · exact congrArg isSome ExtTreeMap.getElem?_insert_self

end

section

variable (h : InStep resolve m order seen gid kv)

include h

theorem commit {e : Err} (hord : (kv.store.finished txID || !kv.undecided txID) = true)
    (hin : txID ∈ order) (hrun : kv.commit txID = some (kv', e)) :
    InStep resolve m order seen gid kv' ∧ Thins kv kv' := by
  rcases h.tidy.commit_cases hord hrun with rfl | ⟨rec, hcac, rfl⟩
  · exact ⟨h, .refl kv'⟩
  · exact h.applyCommit hcac hin

theorem abort {e : Err} (hout : txID ∉ order) (hrun : kv.abort txID = some (kv', e)) :
    InStep resolve m order seen gid kv' ∧ Thins kv kv' := by
  rcases h.tidy.abort_cases hrun with rfl | ⟨hclo, hstore⟩
  · exact ⟨h, .refl kv'⟩
  · refine ⟨h.closeOther hclo hout fun key huser => ?_, hclo.thins ?_⟩
    · rw [hstore, getElem?_deleteTxRecord huser, getElem?_putTxRecord huser]
    · rw [hstore]
      exact finished_aborted _ _ _

theorem recordDecision (args : RecordTxDecisionArgs) :
    InStep resolve m order seen gid (kv.recordDecision args).1 ∧
      Thins kv (kv.recordDecision args).1 := by
  have htidy := h.tidy.recordDecision args
  rcases recordDecision_cases kv args with hsame | ⟨-, hsto⟩
  · rw [hsame]
    exact ⟨h, .refl kv⟩
  · rw [hsto] at htidy ⊢
    refine ⟨h.congr htidy (fun _ => rfl) fun key huser => getElem?_putTxRecord huser _ _,
      fun _ _ hx => hx, fun _ _ hx => .inl hx, fun x hx => ?_⟩
    exact (finished_putDecision _ _ _ x).trans hx

theorem settle {m' : Entries} (hout : txID ∉ order)
    (hwrit : ∀ rec, kv.txMgr.preparedTxs[txID]? = some rec →
      ∀ wk ∈ rec.writeKeys, m' wk.key = wk.left) (hframe : ∀ key, resolve key = gid →
      (∀ rec, kv.txMgr.preparedTxs[txID]? = some rec → ¬rec.writes key) → m' key = m key)
    (hhere : ∀ (x : String) rec, kv.txMgr.preparedTxs[x]? = some rec →
      ∀ wk ∈ rec.writeKeys, resolve wk.key = gid) :
    InStep resolve m' (order ++ [txID]) seen gid kv := by
  have hother : ∀ (x : String) rec, kv.txMgr.preparedTxs[x]? = some rec → x ≠ txID →
      ∀ wk ∈ rec.writeKeys, m' wk.key = m wk.key := by
    intro x rec hcac hne wk hwk
    refine hframe wk.key (hhere x rec hcac wk hwk) fun rec' hcac' hwri => ?_
    exact h.tidy.disjoint hcac' hcac hne hwri ⟨wk, hwk, rfl⟩
  refine ⟨h.tidy, h.plain, ?_, ?_, ?_, h.apart⟩
  · intro x hx rec hcac wk hwk
    by_cases heq : x = txID
    · subst heq
      exact hwrit rec hcac wk hwk
    · rw [hother x rec hcac heq wk hwk]
      refine h.pending x ?_ rec hcac wk hwk
      simpa [heq] using hx
  · intro key huser hgid hfree
    rw [hframe key hgid fun rec hcac => hfree txID (by simp) rec hcac]
    exact h.current key huser hgid fun x hx => hfree x (mem_append_left _ hx)
  · intro x rec hcac hx
    rw [mem_append, mem_singleton, not_or] at hx
    obtain ⟨hwri, hseen⟩ := h.valid x rec hcac hx.1
    refine ⟨fun wk hwk => ?_, fun item hitem hgid => ?_⟩
    · rw [version, hother x rec hcac hx.2 wk hwk]
      exact hwri wk hwk
    · have hkey : m' item.1 = m item.1 := hframe item.1 hgid fun rec' hcac' =>
        h.apart x txID rec rec' hcac hcac' hx.2 item hitem
      rw [answer, reply, hkey]
      exact hseen item hitem hgid

theorem of_seen {seen' : String → List (String × Answer)}
    (hseen : ∀ x : String, kv.txMgr.preparedTxs[x]?.isSome = true → seen' x = seen x) :
    InStep resolve m order seen' gid kv := by
  refine ⟨h.tidy, h.plain, h.pending, h.current, ?_, ?_⟩
  · intro x rec hcac hx
    rw [hseen x (by rw [hcac]; rfl)]
    exact h.valid x rec hcac hx
  · intro x y rec rec' hcac
    rw [hseen x (by rw [hcac]; rfl)]
    exact h.apart x y rec rec' hcac

end

end InStep

end KVServer

end OrbisKV.KV
