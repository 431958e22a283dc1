import OrbisKV.KV.Server
/-!
# Writes of the store, key by key

User keys and transaction records share one store.
-/

namespace OrbisKV.KV

open Std Store

theorem isUserKey_txKey (x : String) : isUserKey (txKeyPrefix ++ x) = false := by
  simp [isUserKey, hasPrefix]

theorem txKey_ne {key : String} (hkey : isUserKey key = true) (x : String) :
    txKeyPrefix ++ x ≠ key := by
  rintro rfl
  rw [isUserKey_txKey] at hkey
  cases hkey

theorem append_ne_append {p q : String} (hp : p.toList ≠ []) (hq : q.toList ≠ [])
    (hpq : p.toList.head? ≠ q.toList.head?) (x y : String) : p ++ x ≠ q ++ y := by
  intro h
  have hlist := congrArg String.toList h
  rw [String.toList_append, String.toList_append] at hlist
  have hhead := congrArg List.head? hlist
  rw [List.head?_append_of_ne_nil _ hp, List.head?_append_of_ne_nil _ hq] at hhead
  exact hpq hhead

theorem prepare_ne_commit (x y : String) : txPreparePrefix ++ x ≠ txCommitPrefix ++ y :=
  append_ne_append (by decide) (by decide) (by decide) x y

theorem prepare_ne_abort (x y : String) : txPreparePrefix ++ x ≠ txAbortPrefix ++ y :=
  append_ne_append (by decide) (by decide) (by decide) x y

theorem prepare_ne_decision (x y : String) : txPreparePrefix ++ x ≠ txDecisionPrefix ++ y :=
  append_ne_append (by decide) (by decide) (by decide) x y

namespace Store

variable {s t s' : Store} {key : String} {found : Option Document} {version : UInt64}

@[simp] theorem getElem?_insert (k : String) (d : Document) :
    (s.insert k d)[key]? = if k = key then some d else s[key]? := by
  simp [ExtTreeMap.getElem?_insert]

@[simp] theorem getElem?_erase (k : String) :
    (s.erase k)[key]? = if k = key then none else s[key]? := by
  simp [ExtTreeMap.getElem?_erase]

theorem getElem?_erase_of_ne {k : String} (h : k ≠ key) : (s.erase k)[key]? = s[key]? := by
  rw [getElem?_erase, if_neg h]

theorem getElem?_putTxRecord (hkey : isUserKey key = true) (x : String) (d : Document) :
    (s.putTxRecord x d)[key]? = s[key]? := by
  rw [putTxRecord, getElem?_insert, if_neg (txKey_ne hkey x)]

theorem getElem?_deleteTxRecord (hkey : isUserKey key = true) (x : String) :
    (s.deleteTxRecord x)[key]? = s[key]? := by
  rw [deleteTxRecord, getElem?_erase, if_neg (txKey_ne hkey x)]

theorem getTxRecord_putTxRecord (x y : String) (d : Document) :
    (s.putTxRecord x d).getTxRecord y = if x = y then some d else s.getTxRecord y := by
  simp [putTxRecord, getTxRecord]

theorem getTxRecord_deleteTxRecord (x y : String) :
    (s.deleteTxRecord x).getTxRecord y = if x = y then none else s.getTxRecord y := by
  simp [deleteTxRecord, getTxRecord]

def opResult (op : WriteBatchOp) : Option Document → Except StoreError (Option Document)
  | none =>
    if op.expectedVersion ≠ 0 then .error (.notFound op.key op.expectedVersion)
    else if op.isDelete then .ok none
    else .ok (some (.entry ⟨op.value, 1, op.expires⟩))
  | some raw =>
    match raw.toKV? with
    | none => .error (.undecodable op.key)
    | some cur =>
      if cur.version ≠ op.expectedVersion then
        .error (.versionMismatch op.key op.expectedVersion cur.version)
      else if op.isDelete then .ok none
      else .ok (some (.entry ⟨op.value, cur.version + 1, op.expires⟩))

theorem entry_of_opResult {op : WriteBatchOp} {d : Document}
    (h : opResult op found = .ok (some d)) : ∃ e, d = .entry e := by
  unfold opResult at h
  split at h
  · grind
  · split at h <;> grind

def place (s : Store) (key : String) : Option Document → Store
  | none => s.erase key
  | some d => s.insert key d

@[simp] theorem getElem?_place (s : Store) (k : String) (left : Option Document) (key : String) :
    (s.place k left)[key]? = if k = key then left else s[key]? := by
  cases left with
  | none => rw [place, getElem?_erase]
  | some d => rw [place, getElem?_insert]

theorem place_none (s : Store) (key : String) : s.place key none = s.erase key := rfl

theorem place_some (s : Store) (key : String) (d : Document) :
    s.place key (some d) = s.insert key d := rfl

theorem place_place (s : Store) (key : String) (left left' : Option Document) :
    (s.place key left).place key left' = s.place key left' := by
  apply ExtTreeMap.ext_getElem?
  intro k
  rw [getElem?_place, getElem?_place, getElem?_place]
  split <;> rfl

theorem place_self (s : Store) (key : String) : s.place key s[key]? = s := by
  apply ExtTreeMap.ext_getElem?
  intro k
  rw [getElem?_place]
  split
  · rename_i hk
    rw [hk]
  · rfl

theorem writeOpWithCAS_eq (s : Store) (op : WriteBatchOp) :
    s.writeOpWithCAS op = (opResult op s[op.key]?).map (s.place op.key) := by
  unfold writeOpWithCAS opResult
  cases hdoc : s[op.key]? with
  | none =>
    by_cases hver : op.expectedVersion = 0
    · cases hdel : op.isDelete with
      | false => simp [hver, Except.map, place, putFirst]
      | true =>
        have hsame : s.place op.key none = s := by rw [← hdoc, place_self]
        simp [hver, Except.map, hsame]
    · simp [hver, Except.map]
  | some raw =>
    cases hraw : raw.toKV? with
    | none => simp [hraw, Except.map]
    | some cur =>
      by_cases hver : cur.version = op.expectedVersion
      · cases hdel : op.isDelete <;> simp [hraw, hver, Except.map, place]
      · simp [hraw, hver, Except.map]

theorem writeOpWithCAS_frame {op : WriteBatchOp} (h : s.writeOpWithCAS op = .ok s')
    (hkey : op.key ≠ key) : s'[key]? = s[key]? := by
  rw [writeOpWithCAS_eq] at h
  cases hres : opResult op s[op.key]? with
  | error e => rw [hres] at h; cases h
  | ok left =>
    rw [hres] at h
    cases h
    rw [getElem?_place, if_neg hkey]

theorem writeBatchWithCASInTxn_frame {ops : List WriteBatchOp}
    (h : s.writeBatchWithCASInTxn ops = .ok s') (hkey : ∀ op ∈ ops, op.key ≠ key) :
    s'[key]? = s[key]? := by
  induction ops generalizing s with
  | nil =>
    cases h
    rfl
  | cons op ops ih =>
    rw [writeBatchWithCASInTxn] at h
    cases hop : s.writeOpWithCAS op with
    | error e => simp only [hop] at h; cases h
    | ok mid =>
      simp only [hop] at h
      rw [ih h fun o ho => hkey o (List.mem_cons_of_mem op ho),
        writeOpWithCAS_frame hop (hkey op List.mem_cons_self)]

theorem writeBatchWithCASInTxn_congr {ops : List WriteBatchOp}
    (hagree : ∀ op ∈ ops, s[op.key]? = t[op.key]?) :
    (∃ e, s.writeBatchWithCASInTxn ops = .error e ∧ t.writeBatchWithCASInTxn ops = .error e) ∨
    ∃ s' t' : Store, s.writeBatchWithCASInTxn ops = .ok s' ∧
      t.writeBatchWithCASInTxn ops = .ok t' ∧ ∀ k : String, s[k]? = t[k]? → s'[k]? = t'[k]? := by
  induction ops generalizing s t with
  | nil => exact .inr ⟨s, t, rfl, rfl, fun _ hk => hk⟩
  | cons op ops ih =>
    simp only [writeBatchWithCASInTxn, writeOpWithCAS_eq, ← hagree op List.mem_cons_self]
    cases opResult op s[op.key]? with
    | error e => exact .inl ⟨e, rfl, rfl⟩
    | ok left =>
      have hkeep : ∀ k : String, s[k]? = t[k]? →
          (s.place op.key left)[k]? = (t.place op.key left)[k]? := by
        intro k hk
        rw [getElem?_place, getElem?_place, hk]
      have hrest : ∀ o ∈ ops, (s.place op.key left)[o.key]? = (t.place op.key left)[o.key]? :=
        fun o ho => hkeep o.key (hagree o (List.mem_cons_of_mem op ho))
      rcases ih hrest with herr | ⟨s', t', hs', ht', hat⟩
      · exact .inl herr
      · exact .inr ⟨s', t', hs', ht', fun k hk => hat k (hkeep k hk)⟩

def firstResult (value : String) (expectedVersion : UInt64) (expires : Int64)
    (found : Option Document) : Option Document × String × PutCASStatus :=
  if expectedVersion ≠ 0 then (found, "", .noKey)
  else (some (.entry ⟨value, 1, expires⟩), "", .ok)

def putResult (now : Int64) (key value : String) (expectedVersion : UInt64) (expires : Int64)
    (found : Option Document) : Except StoreError (Option Document × String × PutCASStatus) :=
  match found with
  | none => .ok (firstResult value expectedVersion expires none)
  | some raw =>
    match raw.toKV? with
    | none => .error (.undecodable key)
    | some cur =>
      if isExpired cur.expires now then
        .ok (firstResult value expectedVersion expires (some raw))
      else if cur.version ≠ expectedVersion then .ok (some raw, "", .versionMismatch)
      else .ok (some (.entry ⟨value, cur.version + 1, expires⟩), cur.value, .ok)

theorem putCASWithTTL_eq (s : Store) (now : Int64) (key value : String) (expectedVersion : UInt64)
    (expires : Int64) :
    s.putCASWithTTL now key value expectedVersion expires =
      (putResult now key value expectedVersion expires s[key]?).map
        fun r => (s.place key r.1, r.2) := by
  have hself := place_self s key
  have hfirst : (if expectedVersion ≠ 0 then .ok (s, "", .noKey)
      else .ok (s.putFirst key value expires, "", .ok) :
        Except StoreError (Store × String × PutCASStatus)) =
      .ok (s.place key (firstResult value expectedVersion expires s[key]?).1,
        (firstResult value expectedVersion expires s[key]?).2) := by
    unfold firstResult
    split_ifs
    · rw [hself]
    · rfl
  unfold putCASWithTTL putResult
  cases hdoc : s[key]? with
  | none =>
    rw [hdoc] at hfirst
    exact hfirst
  | some raw =>
    rw [hdoc] at hself hfirst
    cases hraw : raw.toKV? with
    | none => simp [hraw, Except.map]
    | some cur =>
      simp only [hraw]
      by_cases hexp : isExpired cur.expires now = true
      · rw [if_pos hexp, if_pos hexp]
        exact hfirst
      · rw [if_neg hexp, if_neg hexp]
        by_cases hver : cur.version ≠ expectedVersion
        · rw [if_pos hver, if_pos hver, Except.map, hself]
        · rw [if_neg hver, if_neg hver]
          rfl

theorem left_of_firstResult {value : String} {expires : Int64} {left : Option Document}
    {old : String} {status : PutCASStatus}
    (h : firstResult value version expires found = (left, old, status)) :
    status = .ok ∧ (∃ e : KVEntry, left = some (.entry e) ∧ e.expires = expires) ∨
      status ≠ .ok ∧ left = found := by
  unfold firstResult at h
  split_ifs at h
  · cases h
    exact .inr ⟨by decide, rfl⟩
  · cases h
    exact .inl ⟨rfl, _, rfl, rfl⟩

theorem left_of_putResult {now : Int64} {key value : String} {expires : Int64}
    {left : Option Document} {old : String} {status : PutCASStatus}
    (h : putResult now key value version expires found = .ok (left, old, status)) :
    status = .ok ∧ (∃ e : KVEntry, left = some (.entry e) ∧ e.expires = expires) ∨
      status ≠ .ok ∧ left = found := by
  unfold putResult at h
  split at h
  · exact left_of_firstResult (Except.ok.inj h)
  · split at h
    · cases h
    · split_ifs at h
      · exact left_of_firstResult (Except.ok.inj h)
      · cases h
        exact .inr ⟨by decide, rfl⟩
      · cases h
        exact .inl ⟨rfl, _, rfl, rfl⟩

theorem rollbackCASMutation_eq_ok {previous : Option KVEntry}
    (h : s.rollbackCASMutation key version previous = .ok s') :
    s' = s.place key (previous.map .entry) := by
  have hresto : ∀ r : Store, (match previous with
      | none => s.erase key
      | some entry => s.insert key (.entry entry)) = r → r = s.place key (previous.map .entry) := by
    rintro r rfl
    cases previous <;> rfl
  unfold rollbackCASMutation at h
  grind

end Store

namespace KVServer

variable {hash : String → UInt64} {kv : KVServer} {net : Net} {clock : Clock}
  {args : PutArgs} {now : Int64} {key : String}

theorem live?_some (e : KVEntry) (now : Int64) :
    live? (some e) now = if isExpired e.expires now then none else some e := by
  rw [live?, Option.filter_some]
  cases isExpired e.expires now <;> rfl

def written (clock : Clock) (args : PutArgs) : KVEntry :=
  ⟨args.value, args.version.toUInt64 + 1, absoluteExpiryFromTTL args.ttl clock.now⟩

theorem putCAS_eq (kv : KVServer) (clock : Clock) (args : PutArgs) :
    kv.putCAS clock args = match kv.store.get args.key with
      | .error e => .error e
      | .ok found =>
        match live? found clock.casNow with
        | none =>
          if args.version.toUInt64 ≠ 0 then .ok (kv.store, "", .noKey)
          else .ok (kv.store.insert args.key (.entry (written clock args)), "", .ok)
        | some cur =>
          if cur.version ≠ args.version.toUInt64 then .ok (kv.store, "", .versionMismatch)
          else .ok (kv.store.insert args.key (.entry (written clock args)), cur.value, .ok) := by
  unfold putCAS Store.putCASWithTTL Store.get
  cases kv.store[args.key]? with
  | none =>
    by_cases hver : args.version.toUInt64 = 0
    · simp [live?, hver, putFirst, written]
    · simp [live?, hver]
  | some raw =>
    cases hraw : raw.toKV? with
    | none => simp [hraw]
    | some cur =>
      by_cases hexp : isExpired cur.expires clock.casNow = true
      · by_cases hver : args.version.toUInt64 = 0
        · simp [live?_some, hraw, hexp, hver, putFirst, written]
        · simp [live?_some, hraw, hexp, hver]
      · by_cases hver : cur.version = args.version.toUInt64
        · simp [live?_some, hraw, hexp, hver, written]
        · simp [live?_some, hraw, hexp, hver]

theorem putCAS_ok {store : Store} {old : String}
    (h : kv.putCAS clock args = .ok (store, old, .ok)) :
    store = kv.store.insert args.key (.entry (written clock args)) := by
  rw [putCAS_eq] at h
  split at h
  · cases h
  · split at h
    · split at h
      · cases h
      · cases h
        rfl
    · split at h
      · cases h
      · cases h
        rfl

theorem live?_eq_none {found : Option KVEntry} :
    live? found now = none ↔ ∀ e, found = some e → isExpired e.expires now = true := by
  cases found with
  | none => simp [live?]
  | some e => simp [live?_some]

theorem putCAS_noKey {store : Store} {old : String}
    (h : kv.putCAS clock args = .ok (store, old, .noKey)) :
    args.version.toUInt64 ≠ 0 ∧
      ∀ e, kv.store.get args.key = .ok (some e) → isExpired e.expires clock.casNow = true := by
  rw [putCAS_eq] at h
  split at h
  · cases h
  · rename_i found hget
    split at h
    · rename_i hlive
      split at h
      · rename_i hver
        refine ⟨hver, fun e he => live?_eq_none.mp hlive e ?_⟩
        rw [hget] at he
        exact Except.ok.inj he
      · cases h
    · split at h <;> cases h

def afterPut (kv : KVServer) (clock : Clock) (args : PutArgs) : KVServer :=
  { kv with store := kv.store.insert args.key (.entry (written clock args)) }

def takenBack (kv : KVServer) (key : String) (found : Option KVEntry) (now : Int64) : KVServer :=
  { kv with store := kv.store.place key ((live? found now).map .entry) }

def Stuck (kv : KVServer) (clock : Clock) (args : PutArgs) : Prop :=
  ∃ found e, kv.store.get args.key = .ok found ∧
    (kv.afterPut clock args).store.rollbackCASMutation args.key
      ((live? found clock.now).elim 1 fun e => e.version + 1) (live? found clock.now) = .error e

def Passes (kv : KVServer) (clock : Clock) (args : PutArgs) : Prop :=
  ∃ old, kv.putCAS clock args = .ok ((kv.afterPut clock args).store, old, .ok)

theorem passes_of_putCAS {store : Store} {old : String}
    (h : kv.putCAS clock args = .ok (store, old, .ok)) : kv.Passes clock args := by
  obtain rfl := putCAS_ok h
  exact ⟨old, h⟩

theorem not_passes {r : Store × String × PutCASStatus} (h : kv.putCAS clock args = .ok r)
    (hr : r.2.2 ≠ .ok) : ¬kv.Passes clock args := by
  rintro ⟨old, hput⟩
  cases h.symm.trans hput
  exact hr rfl

/-- A dual put is refused by its version check, written on both sides, or fails to be
sent on and is then left in doubt or taken back. -/
theorem doPutWithForward_cases (P : KVServer × PutReply → Prop)
    (href : ∀ reply : PutReply, reply.err = .wrongLeader ∨ reply.err = .version →
      ¬kv.Passes clock args → P (kv, reply))
    (hwri : ∀ old, kv.Passes clock args → net.forward = true →
      P (kv.afterPut clock args, { err := .ok, oldValue := old }))
    (hleft : kv.Passes clock args → kv.Stuck clock args → net.forward = false →
      P (kv.afterPut clock args, { err := .maybe }))
    (hback : ∀ found, kv.store.get args.key = .ok found → kv.Passes clock args →
      net.forward = false → P (kv.takenBack args.key found clock.now, { err := .wrongGroup })) :
    P (kv.doPutWithForward net clock args) := by
  unfold doPutWithForward
  cases hget : kv.store.get args.key with
  | error e =>
    refine href _ (.inl rfl) ?_
    rintro ⟨old, hput⟩
    rw [putCAS_eq, hget] at hput
    cases hput
  | ok found =>
    dsimp only
    split
    · rename_i hput
      refine href _ (.inl rfl) ?_
      rintro ⟨old, hok⟩
      cases hput.symm.trans hok
    · rename_i hput
      exact href _ (.inr rfl) (not_passes hput (by simp))
    · rename_i hput
      exact href _ (.inr rfl) (not_passes hput (by simp))
    · rename_i store old hput
      have hpas := passes_of_putCAS hput
      obtain rfl := putCAS_ok hput
      split
      · rename_i hfor
        exact hwri old hpas hfor
      · rename_i hfor
        rw [Bool.not_eq_true] at hfor
        split
        · rename_i e hstuck
          exact hleft hpas ⟨found, e, hget, hstuck⟩ hfor
        · rename_i restored hresto
          rw [rollbackCASMutation_eq_ok hresto, ← place_some, place_place]
          exact hback found hget hpas hfor

theorem doPut_cases (P : KVServer × PutReply → Prop)
    (href : ∀ reply : PutReply, reply.err ≠ .ok → reply.err ≠ .maybe →
      (reply.err = .noKey → args.version.toUInt64 ≠ 0 ∧
        ∀ e, kv.store.get args.key = .ok (some e) → isExpired e.expires clock.casNow = true) →
      (kv.dead = true ∨ (kv.shardOf hash args.key).state ≠ .migrating ∨
        ¬kv.Passes clock args) → P (kv, reply))
    (hwri : ∀ old, kv.Passes clock args →
      ((kv.shardOf hash args.key).state = .migrating → net.forward = true) →
      P (kv.afterPut clock args, { err := .ok, oldValue := old }))
    (hleft : kv.Passes clock args → kv.Stuck clock args →
      (kv.shardOf hash args.key).state = .migrating ∧ net.forward = false →
      P (kv.afterPut clock args, { err := .maybe }))
    (hback : ∀ found, kv.store.get args.key = .ok found → kv.Passes clock args →
      (kv.shardOf hash args.key).state = .migrating ∧ net.forward = false →
      P (kv.takenBack args.key found clock.now, { err := .wrongGroup })) :
    P (kv.doPut hash net clock args) := by
  have hloc : (kv.shardOf hash args.key).state ≠ .migrating → P (kv.doPutLocal clock args) := by
    intro hst
    unfold doPutLocal
    split
    · exact href _ (by simp) (by simp) (by simp) (.inr (.inl hst))
    · rename_i store old hput
      obtain rfl := putCAS_ok hput
      exact hwri old ⟨old, hput⟩ fun h => absurd h hst
    · exact href _ (by simp) (by simp) (by simp) (.inr (.inl hst))
    · rename_i hput
      exact href _ (by simp) (by simp) (fun _ => putCAS_noKey hput) (.inr (.inl hst))
  unfold doPut
  split
  · rename_i hdead
    exact href _ (by simp) (by simp) (by simp) (.inl hdead)
  · dsimp only
    split
    · rename_i hst
      exact href _ (by simp) (by simp) (by simp) (.inr (.inl (by simp [hst])))
    · rename_i hst
      apply doPutWithForward_cases P
      · intro reply herr hpas
        refine href reply ?_ ?_ ?_ (.inr (.inr hpas)) <;>
          rcases herr with herr | herr <;> simp [herr]
      · exact fun old hpas hfor => hwri old hpas fun _ => hfor
      · exact fun hpas hstuck hfor => hleft hpas hstuck ⟨hst, hfor⟩
      · exact fun found hget hpas hfor => hback found hget hpas ⟨hst, hfor⟩
    · rename_i hst
      exact hloc (by simp [hst])
    · rename_i hst
      exact hloc (by simp [hst])

theorem doDeleteWithForward_cases {shard : ShardMeta} (P : KVServer × DeleteReply → Prop)
    (href : ∀ reply : DeleteReply, reply.err = .wrongLeader ∨ reply.err = .noKey ∧
      (∀ found, kv.store.get key = .ok found → live? found now = none) → P (kv, reply))
    (hera : ∀ found old, kv.store.get key = .ok found → live? found now = some old →
      net.forward = true →
      P ({ kv with store := kv.store.delete key }, { err := .ok, oldValue := old.value }))
    (hback : ∀ found old reply, kv.store.get key = .ok found → live? found now = some old →
      net.forward = false → reply.err = .wrongGroup → P (kv.takenBack key found now, reply)) :
    P (kv.doDeleteWithForward net now key shard) := by
  unfold doDeleteWithForward
  cases hget : kv.store.get key with
  | error e => exact href _ (.inl rfl)
  | ok found =>
    dsimp only
    split
    · rename_i hlive
      refine href _ (.inr ⟨rfl, fun found' hfound => ?_⟩)
      cases hget.symm.trans hfound
      exact hlive
    · rename_i old hlive
      split
      · rename_i hfor
        exact hera found old hget hlive hfor
      · rename_i hfor
        rw [Bool.not_eq_true] at hfor
        have hresto : (kv.store.delete key).rollbackCASMutation key 0 (some old) =
            .ok (kv.store.place key (some (.entry old))) := by
          simp [rollbackCASMutation, delete, ← place_some, ← place_none, place_place]
        rw [hresto]
        have hplan := hback found old { err := .wrongGroup, hint := kv.wrongGroupHint shard }
          hget hlive hfor rfl
        rw [takenBack, hlive] at hplan
        exact hplan

theorem doDelete_cases (P : KVServer × DeleteReply → Prop)
    (href : ∀ reply : DeleteReply, reply.err ≠ .ok → (reply.err = .noKey →
      ∀ found, kv.store.get key = .ok found → live? found now = none) → P (kv, reply))
    (hera : ∀ found old, kv.store.get key = .ok found → live? found now = some old →
      ((kv.shardOf hash key).state = .migrating → net.forward = true) →
      P ({ kv with store := kv.store.delete key }, { err := .ok, oldValue := old.value }))
    (hback : ∀ found old reply, kv.store.get key = .ok found → live? found now = some old →
      (kv.shardOf hash key).state = .migrating ∧ net.forward = false →
      reply.err = .wrongGroup → P (kv.takenBack key found now, reply)) :
    P (kv.doDelete hash net now key) := by
  have hloc : (kv.shardOf hash key).state ≠ .migrating → P (kv.doDeleteLocal now key) := by
    intro hst
    unfold doDeleteLocal
    cases hget : kv.store.get key with
    | error e => exact href _ (by simp) (by simp)
    | ok found =>
      dsimp only
      split
      · rename_i hlive
        refine href _ (by simp) fun _ found' hfound => ?_
        cases hget.symm.trans hfound
        exact hlive
      · rename_i old hlive
        exact hera found old hget hlive fun h => absurd h hst
  unfold doDelete
  split
  · exact href _ (by simp) (by simp)
  · dsimp only
    split
    · exact href _ (by simp) (by simp)
    · rename_i hst
      apply doDeleteWithForward_cases P
      · rintro reply (herr | ⟨herr, hnone⟩)
        · exact href reply (by simp [herr]) (by simp [herr])
        · exact href reply (by simp [herr]) fun _ => hnone
      · exact fun found old hget hlive hfor => hera found old hget hlive fun _ => hfor
      · exact fun found old reply hget hlive hfor =>
          hback found old reply hget hlive ⟨hst, hfor⟩
    · rename_i hst
      exact hloc (by simp [hst])
    · rename_i hst
      exact hloc (by simp [hst])

end KVServer

end OrbisKV.KV
