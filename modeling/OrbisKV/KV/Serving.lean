import OrbisKV.KV.Moves
/-!
# Handlers of a serving node

What the handlers do on a node that takes commands, owns every shard and has
entries under its user keys, and what the handlers of transactions do there once
every holder of a lock has its commit or abort mark.
-/

namespace OrbisKV.KV

open Std Option Store

namespace Store

def kvAt? (s : Store) (key : String) : Option KVEntry := s[key]?.bind Document.toKV?

def admitsPut (s : Store) (now : Int64) (key : String) (version : UInt64) : Bool :=
  match s.kvAt? key with
  | none => version = 0
  | some cur => if isExpired cur.expires now then version = 0 else cur.version = version

def holdsLive (s : Store) (now : Int64) (key : String) : Bool :=
  (s.kvAt? key).any fun e => !isExpired e.expires now

def holdsExpired (s : Store) (cutoff : Int64) (key : String) : Bool :=
  (s.kvAt? key).any fun e => isExpired e.expires cutoff

def finished (s : Store) (txID : String) : Bool :=
  (s.getTxRecord (txCommitPrefix ++ txID)).isSome || (s.getTxRecord (txAbortPrefix ++ txID)).isSome

variable {s : Store} {key : String}

theorem Typed.getElem? (h : s.Typed) (hkey : isUserKey key = true) :
    s[key]? = (s.kvAt? key).map .entry := by
  unfold kvAt?
  cases hd : s[key]? with
  | none => rfl
  | some d =>
    obtain ⟨e, rfl⟩ := h key hkey d hd
    rfl

theorem kvAt?_of_getElem? {t : Store} (h : s[key]? = t[key]?) : s.kvAt? key = t.kvAt? key := by
  rw [kvAt?, kvAt?, h]

theorem get_eq (s : Store) (key : String) :
    (∃ e, s.get key = .error e) ∧ s.kvAt? key = none ∨ s.get key = .ok (s.kvAt? key) := by
  unfold Store.get kvAt?
  cases s[key]? with
  | none => exact Or.inr rfl
  | some raw =>
    cases hraw : raw.toKV? with
    | none => exact Or.inl ⟨⟨.undecodable key, by simp [hraw]⟩, by simp [hraw]⟩
    | some e => exact Or.inr (by simp [hraw])

theorem kvAt?_of_get {e : KVEntry} (h : s.get key = .ok (some e)) : s.kvAt? key = some e := by
  rcases s.get_eq key with ⟨⟨e', herr⟩, -⟩ | hget
  · cases herr.symm.trans h
  · exact Except.ok.inj (hget.symm.trans h)

theorem Typed.get (h : s.Typed) (hkey : isUserKey key = true) : s.get key = .ok (s.kvAt? key) := by
  have hd := h.getElem? hkey
  unfold Store.get
  cases he : s.kvAt? key with
  | none =>
    rw [he] at hd
    simp [hd]
  | some e =>
    rw [he] at hd
    simp [hd, Document.toKV?]

theorem left_of_not_admitsPut {now : Int64} {value : String} {version : UInt64} {expires : Int64}
    {left : Option Document} {old : String} {status : PutCASStatus}
    (hadm : s.admitsPut now key version = false)
    (h : putResult now key value version expires s[key]? = .ok (left, old, status)) :
    left = s[key]? := by
  rcases left_of_putResult h with ⟨rfl, -⟩ | ⟨-, hleft⟩
  · exfalso
    unfold admitsPut kvAt? at hadm
    unfold putResult at h
    cases hd : s[key]? with
    | none =>
      simp only [hd, bind_none, decide_eq_false_iff_not] at h hadm
      simp [firstResult, hadm] at h
    | some raw =>
      cases he : raw.toKV? with
      | none => simp [hd, he] at h
      | some cur =>
        simp only [hd, he, bind_some] at h hadm
        split at hadm
        · rename_i hexp
          rw [decide_eq_false_iff_not] at hadm
          simp [hexp, firstResult, hadm] at h
        · rename_i hexp
          rw [decide_eq_false_iff_not] at hadm
          simp [hexp, hadm] at h
  · exact hleft

end Store

theorem isExpired_zero (now : Int64) : isExpired 0 now = false := by simp [isExpired]

namespace KVServer

variable {kv : KVServer} {txID : String}

structure Serving (kv : KVServer) : Prop where
  alive : kv.dead = false
  owned : ∀ shard, (kv.shardMgr.states shard).state = .owned
  typed : kv.store.Typed

theorem Serving.of_moved {K R : String → Prop} {kv' : KVServer} (h : kv.Serving)
    (hmv : Moved K R kv kv') : kv'.Serving := by
  refine ⟨hmv.dead.trans h.alive, fun shard => ?_, hmv.changes.typed h.typed⟩
  rw [hmv.shardMgr]
  exact h.owned shard

section

variable {kv : KVServer} (h : kv.Serving) (hash : String → UInt64)

include h

theorem Serving.doPut (net : Net) (clock : Clock) {args : PutArgs}
    (hkey : isUserKey args.key = true) :
    ∃ left old status, putResult clock.casNow args.key args.value args.version.toUInt64
        (absoluteExpiryFromTTL args.ttl clock.now) kv.store[args.key]? = .ok (left, old, status) ∧
      (kv.doPut hash net clock args).1 = { kv with store := kv.store.place args.key left } ∧
      ((kv.doPut hash net clock args).2.err = .ok ↔ status = .ok) := by
  have hlocal : kv.doPut hash net clock args = kv.doPutLocal clock args := by
    simp [KVServer.doPut, h.alive, shardOf, h.owned]
  have hres : ∃ r, putResult clock.casNow args.key args.value args.version.toUInt64
      (absoluteExpiryFromTTL args.ttl clock.now) kv.store[args.key]? = .ok r := by
    rw [h.typed.getElem? hkey]
    unfold putResult
    cases kv.store.kvAt? args.key with
    | none => exact ⟨_, rfl⟩
    | some e =>
      simp only [map_some, Document.toKV?]
      split_ifs <;> exact ⟨_, rfl⟩
  obtain ⟨⟨left, old, status⟩, hres⟩ := hres
  refine ⟨left, old, status, hres, ?_⟩
  rw [hlocal, doPutLocal, putCAS, putCASWithTTL_eq, hres]
  have hsame : status ≠ .ok → kv.store.place args.key left = kv.store := by
    intro hne
    rcases left_of_putResult hres with ⟨heq, -⟩ | ⟨-, hleft⟩
    · exact absurd heq hne
    · rw [hleft, place_self]
  cases status with
  | ok => exact ⟨rfl, by simp [Except.map]⟩
  | _ => simp [Except.map, hsame]

theorem Serving.doDelete (net : Net) (now : Int64) {key : String} (hkey : isUserKey key = true) :
    (kv.doDelete hash net now key).1 =
        (if kv.store.holdsLive now key then { kv with store := kv.store.erase key } else kv) ∧
      ((kv.doDelete hash net now key).2.err = .ok ↔ kv.store.holdsLive now key = true) := by
  have hlocal : kv.doDelete hash net now key = kv.doDeleteLocal now key := by
    simp [KVServer.doDelete, h.alive, shardOf, h.owned]
  rw [hlocal, doDeleteLocal, h.typed.get hkey, holdsLive]
  cases hent : kv.store.kvAt? key with
  | none => simp [live?]
  | some e =>
    by_cases hexp : isExpired e.expires now = true
    · have hlive : live? (some e) now = none := by simp [live?, Option.filter, hexp]
      simp [hlive, hexp]
    · have hlive : live? (some e) now = some e := by simp [live?, Option.filter, hexp]
      simp [hlive, hexp, delete]

theorem Serving.doDelete_lasting (net : Net) (now : Int64) {key : String}
    (hkey : isUserKey key = true) (hlast : ∀ e, kv.store.kvAt? key = some e → e.expires = 0) :
    (kv.doDelete hash net now key).1 = { kv with store := kv.store.erase key } ∧
      ((kv.doDelete hash net now key).2.err = .ok ↔ kv.store[key]? ≠ none) := by
  obtain ⟨hsto, hok⟩ := h.doDelete hash net now hkey
  have hdoc := h.typed.getElem? hkey
  rw [hsto, hok, holdsLive]
  cases he : kv.store.kvAt? key with
  | none =>
    rw [he] at hdoc
    have herase : kv.store.erase key = kv.store := by
      have hself := place_self kv.store key
      rw [hdoc] at hself
      exact hself
    simp [herase, hdoc]
  | some e =>
    rw [he] at hdoc
    simp [hlast e he, isExpired_zero, hdoc]

end

theorem expireKeys_idle {cutoff : Int64} (hmu : kv.txMgr.mu = false) {keys : List String}
    (htyped : ∀ key ∈ keys, kv.store.get key = .ok (kv.store.kvAt? key))
    (hkeys : ∀ key ∈ keys, kv.store.holdsExpired cutoff key = false) (reply : ExpireReply) :
    expireKeys cutoff kv reply keys = some (kv, reply) := by
  induction keys with
  | nil => rfl
  | cons key keys ih =>
    have hrest := ih (fun k hk => htyped k (List.mem_cons_of_mem key hk))
      (fun k hk => hkeys k (List.mem_cons_of_mem key hk))
    have hkey := hkeys key List.mem_cons_self
    rw [expireKeys, htyped key List.mem_cons_self, hmu]
    rw [holdsExpired] at hkey
    cases hent : kv.store.kvAt? key with
    | none => simp [hrest]
    | some e =>
      rw [hent, any_some] at hkey
      simp [hkey, hrest]

theorem expireKeys_live {cutoff : Int64} {kv' : KVServer} {reply reply' : ExpireReply}
    {keys : List String} {key : String} (hkey : kv.store.holdsExpired cutoff key = false)
    (hrun : expireKeys cutoff kv reply keys = some (kv', reply')) :
    kv'.store[key]? = kv.store[key]? := by
  refine expireKeys_keeps (I := fun mid _ => mid.store[key]? = kv.store[key]?)
    (fun mid _ k entry hmid _ _ hget hexp => ?_) rfl hrun
  have hne : k ≠ key := by
    rintro rfl
    rw [holdsExpired, ← kvAt?_of_getElem? hmid, kvAt?_of_get hget, any_some, hexp] at hkey
    cases hkey
  exact (getElem?_erase_of_ne hne).trans hmid

theorem finished_iff_hasRecord (kv : KVServer) (txID : String) :
    kv.store.finished txID = true ↔
      kv.hasRecord txCommitPrefix txID = true ∨ kv.hasRecord txAbortPrefix txID = true := by
  rw [finished, Bool.or_eq_true]
  rfl

theorem resolveLockLocked_of_finished (h : kv.store.finished txID = true) (net : Net) :
    kv.resolveLockLocked net txID = (kv.releaseLocksForTxLocked txID, true) := by
  unfold resolveLockLocked
  by_cases hcom : kv.hasRecord txCommitPrefix txID = true
  · rw [if_pos hcom]
  · rw [if_neg hcom, if_pos (((finished_iff_hasRecord kv txID).mp h).resolve_left hcom)]

theorem otherHolder_release {key holder : String} (h : kv.otherHolder txID key = some holder) :
    (kv.releaseLocksForTxLocked holder).otherHolder txID key = none := by
  rw [otherHolder, filter_eq_some_iff] at h
  simp [otherHolder, releaseLocksForTxLocked, ExtTreeMap.getElem?_filter, h.1]

theorem resolveConflicts_of_finished (net : Net) (txID : String)
    (hlocks : ∀ key holder : String, kv.txMgr.lockTable[key]? = some holder →
      kv.store.finished holder = true) (writeKeys : List WriteKey) :
    ∃ table : ExtTreeMap String String,
      resolveConflicts net txID kv writeKeys = ({ kv with txMgr.lockTable := table }, true) ∧
      ∀ key holder : String, table[key]? = some holder →
        kv.txMgr.lockTable[key]? = some holder := by
  induction writeKeys generalizing kv with
  | nil => exact ⟨kv.txMgr.lockTable, rfl, fun _ _ h => h⟩
  | cons wk wks ih =>
    cases hhol : kv.otherHolder txID wk.key with
    | none =>
      obtain ⟨table, hrun, hsub⟩ := ih hlocks
      refine ⟨table, ?_, hsub⟩
      simp only [resolveConflicts, hhol]
      exact hrun
    | some holder =>
      have hfin : kv.store.finished holder = true := by
        rw [otherHolder, filter_eq_some_iff] at hhol
        exact hlocks wk.key holder hhol.1
      have hsub₁ : ∀ key other : String,
          (kv.releaseLocksForTxLocked holder).txMgr.lockTable[key]? = some other →
          kv.txMgr.lockTable[key]? = some other := by
        intro key other hkey
        simp only [releaseLocksForTxLocked, ExtTreeMap.getElem?_filter', filter_eq_some_iff] at hkey
        exact hkey.1
      have hlocks₁ : ∀ key other : String,
          (kv.releaseLocksForTxLocked holder).txMgr.lockTable[key]? = some other →
          (kv.releaseLocksForTxLocked holder).store.finished other = true :=
        fun key other hkey => hlocks key other (hsub₁ key other hkey)
      obtain ⟨table, hrun, hsub⟩ := ih hlocks₁
      refine ⟨table, ?_, fun key other hkey => hsub₁ key other (hsub key other hkey)⟩
      simp only [resolveConflicts, hhol, resolveLockLocked_of_finished hfin,
        otherHolder_release hhol]
      exact hrun

/-- A pass over the write keys that changes the lock of each in one way, to no further effect
when a key comes again. -/
theorem getElem?_foldl_locks {f : ExtTreeMap String String → WriteKey → ExtTreeMap String String}
    {g : Option String → Option String} (hg : ∀ o, g (g o) = g o)
    (hf : ∀ table wk key, (f table wk)[key]? = if wk.key = key then g table[key]? else table[key]?)
    (table : ExtTreeMap String String) (writeKeys : List WriteKey) (key : String) :
    (writeKeys.foldl f table)[key]? =
      if ∃ wk ∈ writeKeys, wk.key = key then g table[key]? else table[key]? := by
  induction writeKeys generalizing table with
  | nil => simp
  | cons wk wks ih =>
    rw [List.foldl_cons, ih, hf]
    by_cases hk : wk.key = key
    · simp [hk, hg]
    · simp [hk]

section

variable (table : ExtTreeMap String String)

include table

theorem getElem?_lockKeys (txID : String)
    (writeKeys : List WriteKey) (key : String) :
    (lockKeys table txID writeKeys)[key]? =
      if ∃ wk ∈ writeKeys, wk.key = key then some txID else table[key]? := by
  refine getElem?_foldl_locks (g := fun _ => some txID) (fun _ => rfl) (fun table wk key => ?_) ..
  simp [ExtTreeMap.getElem?_insert]

theorem getElem?_unlockKeys (writeKeys : List WriteKey)
    (key : String) :
    (unlockKeys table writeKeys)[key]? =
      if ∃ wk ∈ writeKeys, wk.key = key then none else table[key]? := by
  refine getElem?_foldl_locks (g := fun _ => none) (fun _ => rfl) (fun table wk key => ?_) ..
  simp [ExtTreeMap.getElem?_erase]

theorem getElem?_unlockHeld (txID : String)
    (writeKeys : List WriteKey) (key : String) :
    (unlockHeld table txID writeKeys)[key]? =
      if (∃ wk ∈ writeKeys, wk.key = key) ∧ table[key]? = some txID then none
      else table[key]? := by
  rw [ite_and]
  refine getElem?_foldl_locks (g := fun o => if o = some txID then none else o) (fun o => ?_)
    (fun table wk key => ?_) ..
  · split_ifs <;> rfl
  · by_cases hk : wk.key = key
    · subst hk
      rw [if_pos rfl]
      split_ifs <;> simp
    · rw [if_neg hk]
      split_ifs <;> simp [ExtTreeMap.getElem?_erase, hk]

end

theorem prepare_of_resolved {net : Net} {args : PrepareTxArgs} {kv₁ : KVServer}
    (hmu : kv.txMgr.mu = false)
    (hconf : resolveConflicts net args.txID kv args.writeKeys = (kv₁, true)) (now : Int64) :
    kv.prepare net now args =
      if checkReads kv₁.store now args.readKeys = .ok then
        some (kv₁.installPrepared (prepareRecord args now), .ok)
      else some (kv₁, checkReads kv₁.store now args.readKeys) := by
  unfold prepare
  rw [if_neg (by rw [hmu]; decide), hconf]
  cases hreads : checkReads kv₁.store now args.readKeys <;> simp [hreads]

/-- The server during the replay: no lock is left held, the marks of the surviving
store `s` are there, and every holder of a lock is finished in `s`. -/
structure Replayed (s : Store) (kv : KVServer) : Prop where
  serving : kv.Serving
  within : kv.Within fun key => isUserKey key = true
  free : kv.txMgr.mu = false
  marks : ∀ txID, s.finished txID = true → kv.store.finished txID = true
  locks : ∀ key holder : String, kv.txMgr.lockTable[key]? = some holder → s.finished holder = true

theorem finished_of_changes {K R : String → Prop} {s t : Store} (h : Store.Changes K R s t)
    (hK : ∀ key, K key → isUserKey key = true) (hs : s.finished txID = true) :
    t.finished txID = true := by
  rw [finished, Bool.or_eq_true] at hs ⊢
  exact hs.imp (fun hc => h.mark_stays hK (Or.inl rfl) hc)
    (fun ha => h.mark_stays hK (Or.inr rfl) ha)

section

variable {s : Store} {kv kv' : KVServer} (h : Replayed s kv)

include h

theorem Replayed.of_moved
    (hmv : Moved (fun key => isUserKey key = true) (fun key => isUserKey key = true) kv kv')
    (hfree : kv'.txMgr.mu = false)
    (hlocks : ∀ key holder : String, kv'.txMgr.lockTable[key]? = some holder →
      s.finished holder = true) : Replayed s kv' :=
  ⟨h.serving.of_moved hmv, hmv.within, hfree,
    fun txID hs => finished_of_changes hmv.changes (fun _ hk => hk) (h.marks txID hs), hlocks⟩

theorem Replayed.prepare (net : Net) (now : Int64) (args : PrepareTxArgs)
    (hargs : ∀ wk ∈ args.writeKeys, isUserKey wk.key = true) (hfin : s.finished args.txID = true) :
    ∃ kv' e, kv.prepare net now args = some (kv', e) ∧ Replayed s kv' ∧
      ∀ key : String, isUserKey key = true → kv'.store[key]? = kv.store[key]? := by
  have hhold : ∀ key holder : String, kv.txMgr.lockTable[key]? = some holder →
      kv.store.finished holder = true := fun key holder hk => h.marks _ (h.locks key holder hk)
  obtain ⟨table, hconf, hsub⟩ := resolveConflicts_of_finished net args.txID hhold args.writeKeys
  have hloc : ∀ key holder : String, table[key]? = some holder → s.finished holder = true :=
    fun key holder hk => h.locks key holder (hsub key holder hk)
  have hdro : Replayed s { kv with txMgr.lockTable := table } :=
    h.of_moved (.of_locks h.within _ _) h.free hloc
  rw [prepare_of_resolved h.free hconf]
  split
  · refine ⟨_, _, rfl, ?_, ?_⟩
    · refine hdro.of_moved (moved_installPrepared hdro.within hargs) h.free ?_
      intro key holder hk
      rw [show (installPrepared _ _).txMgr.lockTable = lockKeys _ _ _ from rfl,
        getElem?_lockKeys] at hk
      split at hk
      · cases hk
        exact hfin
      · exact hloc key holder hk
    · intro key hkey
      exact getElem?_putTxRecord hkey _ _
  · exact ⟨_, _, rfl, hdro, fun _ _ => rfl⟩

theorem Replayed.commit {txID : String} (hfin : s.finished txID = true) :
    ∃ e, kv.commit txID = some (kv, e) := by
  have hrec := (finished_iff_hasRecord kv txID).mp (h.marks txID hfin)
  unfold KVServer.commit
  by_cases hcom : kv.hasRecord txCommitPrefix txID = true
  · exact ⟨.ok, by simp [h.free, hcom]⟩
  · exact ⟨.txConflict, by simp [h.free, hcom, hrec.resolve_left hcom]⟩

theorem Replayed.abort (txID : String) :
    ∃ kv' e, kv.abort txID = some (kv', e) ∧ Replayed s kv' ∧
      ∀ key : String, isUserKey key = true → kv'.store[key]? = kv.store[key]? := by
  have hrun : ∃ kv' e, kv.abort txID = some (kv', e) ∧ kv'.txMgr.mu = false ∧
      ∀ key holder : String, kv'.txMgr.lockTable[key]? = some holder →
        kv.txMgr.lockTable[key]? = some holder := by
    unfold KVServer.abort
    rw [if_neg (by rw [h.free]; decide)]
    split
    · exact ⟨_, _, rfl, h.free, fun _ _ hk => hk⟩
    · split
      · exact ⟨_, _, rfl, h.free, fun _ _ hk => hk⟩
      · dsimp only
        split
        · exact ⟨_, _, rfl, h.free, fun _ _ hk => hk⟩
        · refine ⟨_, _, rfl, h.free, fun key holder hk => ?_⟩
          rw [getElem?_unlockHeld] at hk
          split_ifs at hk
          exact hk
  obtain ⟨kv', e, hrun, hfree, hsub⟩ := hrun
  have hmv := moved_abort (K := fun key => isUserKey key = true) h.within hrun
  refine ⟨kv', e, hrun, h.of_moved hmv hfree ?_, ?_⟩
  · exact fun key holder hk => h.locks key holder (hsub key holder hk)
  · intro key hkey
    exact (moved_abort (K := fun _ => False) h.within hrun).changes.getElem? hkey id

theorem Replayed.recordDecision (args : RecordTxDecisionArgs) :
    Replayed s (kv.recordDecision args).1 ∧ ∀ key : String, isUserKey key = true →
        (kv.recordDecision args).1.store[key]? = kv.store[key]? := by
  have htx : (kv.recordDecision args).1.txMgr = kv.txMgr := by
    unfold KVServer.recordDecision
    split_ifs
    · rfl
    · split
      · split_ifs <;> rfl
      · rfl
  refine ⟨h.of_moved (moved_recordDecision h.within args) ?_ ?_, ?_⟩
  · rw [htx]
    exact h.free
  · rw [htx]
    exact h.locks
  · intro key hkey
    exact (moved_recordDecision (K := fun _ => False) h.within args).changes.getElem? hkey id

theorem Replayed.of_wrote (hw : Wrote (fun key => isUserKey key = true) kv kv') :
    Replayed s kv' := by
  have htx : kv'.txMgr = kv.txMgr := by rw [hw.rest]
  refine h.of_moved (hw.moved h.within) ?_ ?_
  · rw [htx]
    exact h.free
  · rw [htx]
    exact h.locks

end

end KVServer

end OrbisKV.KV
