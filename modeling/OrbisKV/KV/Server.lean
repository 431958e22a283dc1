import OrbisKV.KV.Tx
/-!
# The replicated state machine

`DoOp` and the handlers behind it, `Snapshot` and `Restore`.
-/

namespace OrbisKV.KV

open Std

/-- The readings of the wall clock while one command is applied: the one of the
handler, and the later one inside `PutCASWithTTL`. -/
structure Clock where
  now : Int64
  casNow : Int64
deriving DecidableEq, Repr

def absoluteExpiryFromTTL (ttlSeconds now : Int64) : Int64 :=
  if ttlSeconds ≤ 0 then 0 else now + ttlSeconds * 1000000000

theorem isExpired_of_le {expires : Int64} (h : expires ≤ 0) (now : Int64) :
    isExpired expires now = false := by
  have hpos : ¬0 < expires := Int64.not_lt.mpr h
  simp [isExpired, hpos]

theorem absoluteExpiryFromTTL_of_le {ttl : Int64} (h : ttl ≤ 0) (now : Int64) :
    absoluteExpiryFromTTL ttl now = 0 := if_pos h

namespace KVServer

variable (hash : String → UInt64)

def shardForKey (key : String) : Fin numShards :=
  ⟨(hash key).toNat % numShards, Nat.mod_lt _ (by decide)⟩

def shardOf (kv : KVServer) (key : String) : ShardMeta :=
  kv.shardMgr.states (shardForKey hash key)

/-- The hint of `wrongGroupGetReply`, `wrongGroupPutReply` and
`wrongGroupDeleteReply`. -/
def wrongGroupHint (kv : KVServer) (shard : ShardMeta) : Hint :=
  ⟨shard.targetGroup, shard.targetReplicas, kv.shardMgr.epoch⟩

def doSetShardState (kv : KVServer) (args : SetShardStateArgs) : KVServer × String :=
  match kv.shardMgr.setShardState args with
  | .error e => (kv, e)
  | .ok shardMgr => ({ kv with shardMgr := shardMgr }, "")

/-- The deletions that `doCleanupShard` asks the store for, `none` for a key of
another shard. -/
def cleanupOps (shardID : Int64) : List CleanupShardKey → Option (List WriteBatchOp)
  | [] => some []
  | key :: keys =>
    if ((shardForKey hash key.key).val : Int) ≠ shardID.toInt then none
    else
      (cleanupOps shardID keys).map fun ops =>
        ⟨key.key, "", key.expectedVersion.toUInt64, 0, true⟩ :: ops

def doCleanupShard (kv : KVServer) (args : CleanupShardArgs) : KVServer × CleanupShardReply :=
  if kv.dead then (kv, { err := .wrongLeader })
  else
    match cleanupOps hash args.shardID args.keys with
    | none => (kv, { err := .wrongGroup })
    | some ops =>
      match kv.store.writeBatchWithCAS ops with
      | .error _ => (kv, { err := .version })
      | .ok store => ({ kv with store := store }, { deleted := ops.length, err := .ok })

def doGet (kv : KVServer) (now : Int64) (key : String) : GetReply :=
  if kv.dead then { err := .wrongLeader }
  else
    let shard := kv.shardOf hash key
    if shard.state = .absent then { err := .wrongGroup, hint := kv.wrongGroupHint shard }
    else
      match kv.store.get key with
      | .error _ => { err := .wrongLeader }
      | .ok none => { err := .noKey }
      | .ok (some entry) =>
        if isExpired entry.expires now then { err := .noKey }
        else { value := entry.value, version := entry.version.toInt64
               expires := entry.expires, err := .ok }

/-- The write of `doPut` and `doPutWithForward` to the local store. -/
def putCAS (kv : KVServer) (clock : Clock) (args : PutArgs) :
    Except StoreError (Store × String × PutCASStatus) :=
  kv.store.putCASWithTTL clock.casNow args.key args.value args.version.toUInt64
    (absoluteExpiryFromTTL args.ttl clock.now)

def doPutLocal (kv : KVServer) (clock : Clock) (args : PutArgs) : KVServer × PutReply :=
  match kv.putCAS clock args with
  | .error _ => (kv, { err := .wrongLeader })
  | .ok (store, oldValue, .ok) => ({ kv with store := store }, { err := .ok, oldValue := oldValue })
  | .ok (_, _, .versionMismatch) => (kv, { err := .version })
  | .ok (_, _, .noKey) => (kv, { err := .noKey })

def live? (entry : Option KVEntry) (now : Int64) : Option KVEntry :=
  entry.filter fun e => !isExpired e.expires now

def doPutWithForward (kv : KVServer) (net : Net) (clock : Clock) (args : PutArgs) :
    KVServer × PutReply :=
  match kv.store.get args.key with
  | .error _ => (kv, { err := .wrongLeader })
  | .ok found =>
    match kv.putCAS clock args with
    | .error _ => (kv, { err := .wrongLeader })
    | .ok (_, _, .versionMismatch) => (kv, { err := .version })
    | .ok (_, _, .noKey) => (kv, { err := .version })
    | .ok (store, oldValue, .ok) =>
      if net.forward then ({ kv with store := store }, { err := .ok, oldValue := oldValue })
      else
        let previous := live? found clock.now
        let producedVersion := previous.elim 1 fun e => e.version + 1
        match store.rollbackCASMutation args.key producedVersion previous with
        | .error _ => ({ kv with store := store }, { err := .maybe })
        | .ok restored => ({ kv with store := restored }, { err := .wrongGroup })

def doPut (kv : KVServer) (net : Net) (clock : Clock) (args : PutArgs) : KVServer × PutReply :=
  if kv.dead then (kv, { err := .wrongLeader })
  else
    let shard := kv.shardOf hash args.key
    match shard.state with
    | .absent => (kv, { err := .wrongGroup, hint := kv.wrongGroupHint shard })
    | .migrating => kv.doPutWithForward net clock args
    | .owned | .importing => kv.doPutLocal clock args

def doDeleteLocal (kv : KVServer) (now : Int64) (key : String) : KVServer × DeleteReply :=
  match kv.store.get key with
  | .error _ => (kv, { err := .wrongLeader })
  | .ok found =>
    match live? found now with
    | none => (kv, { err := .noKey })
    | some old =>
      ({ kv with store := kv.store.delete key }, { err := .ok, oldValue := old.value })

def doDeleteWithForward (kv : KVServer) (net : Net) (now : Int64) (key : String)
    (shard : ShardMeta) : KVServer × DeleteReply :=
  match kv.store.get key with
  | .error _ => (kv, { err := .wrongLeader })
  | .ok found =>
    match live? found now with
    | none => (kv, { err := .noKey })
    | some old =>
      let deleted := kv.store.delete key
      if net.forward then ({ kv with store := deleted }, { err := .ok, oldValue := old.value })
      else
        match deleted.rollbackCASMutation key 0 (some old) with
        | .error _ => ({ kv with store := deleted }, { err := .maybe })
        | .ok restored =>
          ({ kv with store := restored },
            { err := .wrongGroup, hint := kv.wrongGroupHint shard })

def doDelete (kv : KVServer) (net : Net) (now : Int64) (key : String) : KVServer × DeleteReply :=
  if kv.dead then (kv, { err := .wrongLeader })
  else
    let shard := kv.shardOf hash key
    match shard.state with
    | .absent => (kv, { err := .wrongGroup, hint := kv.wrongGroupHint shard })
    | .migrating => kv.doDeleteWithForward net now key shard
    | .owned | .importing => kv.doDeleteLocal now key

theorem doPut_eq_local {kv : KVServer} {args : PutArgs} (halive : kv.dead = false)
    (habsent : (kv.shardOf hash args.key).state ≠ .absent)
    (hmig : (kv.shardOf hash args.key).state ≠ .migrating) (net : Net) (clock : Clock) :
    kv.doPut hash net clock args = kv.doPutLocal clock args := by
  unfold doPut
  cases hst : (kv.shardOf hash args.key).state with
  | absent => exact absurd hst habsent
  | migrating => exact absurd hst hmig
  | _ => simp [halive, hst]

theorem doDelete_eq_local {kv : KVServer} {key : String} (halive : kv.dead = false)
    (habsent : (kv.shardOf hash key).state ≠ .absent)
    (hmig : (kv.shardOf hash key).state ≠ .migrating)
    (net : Net) (now : Int64) : kv.doDelete hash net now key = kv.doDeleteLocal now key := by
  unfold doDelete
  cases hst : (kv.shardOf hash key).state with
  | absent => exact absurd hst habsent
  | migrating => exact absurd hst hmig
  | _ => simp [halive, hst]

def doScan (kv : KVServer) (now : Int64) (args : ScanArgs) : ScanReply :=
  if kv.dead then { err := .wrongLeader }
  else
    let found := kv.store.scanPrefix args.pre args.limit
    let live := found.filter fun item => !isExpired item.2.expires now
    { items := live.map fun item =>
        ⟨item.1, item.2.value, item.2.version.toInt64, item.2.expires⟩
      err := .ok }

def expireKeys (cutoff : Int64) :
    KVServer → ExpireReply → List String → Option (KVServer × ExpireReply)
  | kv, reply, [] => some (kv, reply)
  | kv, reply, key :: keys =>
    if kv.txMgr.mu then none
    else if kv.txMgr.lockTable[key]?.isSome then expireKeys cutoff kv reply keys
    else
      match kv.store.get key with
      | .error _ => expireKeys cutoff kv reply keys
      | .ok none => expireKeys cutoff kv reply keys
      | .ok (some entry) =>
        if isExpired entry.expires cutoff then
          expireKeys cutoff { kv with store := kv.store.delete key }
            { reply with
              expiredKeys := reply.expiredKeys ++ [key]
              expiredOldValues := reply.expiredOldValues.insert key entry.value } keys
        else expireKeys cutoff kv reply keys

def doExpire (kv : KVServer) (args : ExpireArgs) : Option (KVServer × ExpireReply) :=
  if kv.dead then some (kv, { err := .wrongLeader })
  else expireKeys args.cutoff kv { err := .ok } args.keys

def doOp (kv : KVServer) (net : Net) (clock : Clock) : Request → Option (KVServer × Reply)
  | .setShardState args =>
    let (kv', e) := kv.doSetShardState args
    some (kv', .setShardState e)
  | .get key => some (kv, .get (kv.doGet hash clock.now key))
  | .put args =>
    let (kv', reply) := kv.doPut hash net clock args
    some (kv', .put reply)
  | .delete key =>
    let (kv', reply) := kv.doDelete hash net clock.now key
    some (kv', .delete reply)
  | .cleanupShard args =>
    let (kv', reply) := kv.doCleanupShard hash args
    some (kv', .cleanupShard reply)
  | .scan args => some (kv, .scan (kv.doScan clock.now args))
  | .expire args => (kv.doExpire args).map fun r => (r.1, .expire r.2)
  | .prepareTx args => (kv.prepare net clock.now args).map fun r => (r.1, .prepareTx r.2)
  | .commitTx args => (kv.commit args.txID).map fun r => (r.1, .commitTx r.2)
  | .abortTx txID => (kv.abort txID).map fun r => (r.1, .abortTx r.2)
  | .resolveTxStatus txID =>
    (kv.resolveTxStatus clock.now txID).map fun r => (r.1, .resolveTxStatus r.2)
  | .recordTxDecision args =>
    let (kv', e) := kv.recordDecision args
    some (kv', .recordTxDecision e)

section

variable {hash} {kv kv' : KVServer} {net : Net} {clock : Clock} {reply : Reply}

theorem of_some_pair {α β γ : Type} {p : α × β} {f : β → γ} {a : α} {c : γ}
    (h : some (p.1, f p.2) = some (a, c)) : a = p.1 ∧ c = f p.2 := by
  have hp := Prod.ext_iff.mp (Option.some.inj h)
  exact ⟨hp.1.symm, hp.2.symm⟩

theorem of_map_pair {α β γ : Type} {o : Option (α × β)} {f : β → γ} {a : α} {c : γ}
    (h : (o.map fun p => (p.1, f p.2)) = some (a, c)) : ∃ r, o = some (a, r) ∧ c = f r := by
  obtain ⟨⟨a, r⟩, hrun, heq⟩ := Option.map_eq_some_iff.mp h
  cases heq
  exact ⟨r, hrun, rfl⟩

theorem of_doOp_put {args : PutArgs} (h : kv.doOp hash net clock (.put args) = some (kv', reply)) :
    kv' = (kv.doPut hash net clock args).1 ∧ reply = .put (kv.doPut hash net clock args).2 :=
  of_some_pair h

theorem of_doOp_delete {key : String}
    (h : kv.doOp hash net clock (.delete key) = some (kv', reply)) :
    kv' = (kv.doDelete hash net clock.now key).1 ∧
      reply = .delete (kv.doDelete hash net clock.now key).2 :=
  of_some_pair h

theorem of_doOp_cleanupShard {args : CleanupShardArgs}
    (h : kv.doOp hash net clock (.cleanupShard args) = some (kv', reply)) :
    kv' = (kv.doCleanupShard hash args).1 ∧ reply = .cleanupShard (kv.doCleanupShard hash args).2 :=
  of_some_pair h

theorem of_doOp_setShardState {args : SetShardStateArgs}
    (h : kv.doOp hash net clock (.setShardState args) = some (kv', reply)) :
    kv' = (kv.doSetShardState args).1 ∧ reply = .setShardState (kv.doSetShardState args).2 :=
  of_some_pair h

theorem of_doOp_recordTxDecision {args : RecordTxDecisionArgs}
    (h : kv.doOp hash net clock (.recordTxDecision args) = some (kv', reply)) :
    kv' = (kv.recordDecision args).1 ∧ reply = .recordTxDecision (kv.recordDecision args).2 :=
  of_some_pair h

theorem of_doOp_expire {args : ExpireArgs}
    (h : kv.doOp hash net clock (.expire args) = some (kv', reply)) :
    ∃ r, kv.doExpire args = some (kv', r) ∧ reply = .expire r :=
  of_map_pair h

theorem of_doOp_prepareTx {args : PrepareTxArgs}
    (h : kv.doOp hash net clock (.prepareTx args) = some (kv', reply)) :
    ∃ r, kv.prepare net clock.now args = some (kv', r) ∧ reply = .prepareTx r :=
  of_map_pair h

theorem of_doOp_commitTx {args : CommitTxArgs}
    (h : kv.doOp hash net clock (.commitTx args) = some (kv', reply)) :
    ∃ r, kv.commit args.txID = some (kv', r) ∧ reply = .commitTx r :=
  of_map_pair h

theorem of_doOp_abortTx {txID : String}
    (h : kv.doOp hash net clock (.abortTx txID) = some (kv', reply)) :
    ∃ r, kv.abort txID = some (kv', r) ∧ reply = .abortTx r :=
  of_map_pair h

theorem of_doOp_resolveTxStatus {txID : String}
    (h : kv.doOp hash net clock (.resolveTxStatus txID) = some (kv', reply)) :
    ∃ r, kv.resolveTxStatus clock.now txID = some (kv', r) ∧ reply = .resolveTxStatus r :=
  of_map_pair h

end

structure Snapshot where
  store : Store.Envelope
  shards : ShardStateSnapshot

/-- `Snapshot`, nil for a server that is closed or a store that does not decode. -/
def snapshot (kv : KVServer) : Option Snapshot :=
  if kv.dead then none
  else
    match kv.store.saveSnapshot with
    | .error _ => none
    | .ok envelope => some ⟨envelope, kv.shardMgr.snapshot⟩

/-- The state that `Restore` puts in place before it rebuilds the locks. -/
def loadSnapshot (kv : KVServer) (data : Snapshot) : KVServer :=
  { kv with
    store := Store.loadSnapshot data.store
    shardMgr := (ShardStateManager.restore data.shards).toOption.getD kv.shardMgr }

/-- `Restore`. -/
def restore (kv : KVServer) (net : Net) (records : List (String × Document)) :
    Option Snapshot → Option KVServer
  | none => some kv
  | some data => (kv.loadSnapshot data).rebuildLockTable net records

end KVServer

end OrbisKV.KV
