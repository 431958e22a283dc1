import OrbisKV.Storage.Store
import OrbisKV.KV.Shards
/-!
# The participant side of two-phase commit

`TxManager` together with the server it works on.
-/

namespace OrbisKV.KV

open Std

structure TxManager where
  mu : Bool := false
  lockTable : ExtTreeMap String String := ∅
  preparedTxs : ExtTreeMap String PreparedTxRecord := ∅
deriving DecidableEq

/-- The fields of `KVServer` that the state machine reads or writes. -/
structure KVServer where
  groupID : Int
  dead : Bool
  store : Store
  shardMgr : ShardStateManager
  txMgr : TxManager

def newKVServer (groupID : Int) (store : Store) : KVServer :=
  ⟨groupID, false, store, newShardStateManager, {}⟩

/-- What other groups answer while one command is applied: the decision string of
`QueryTxDecision` by group and transaction, `none` for a failed call or a missing
router, and whether a forwarded write succeeded. -/
structure Net where
  queryTxDecision : Int → String → Option String
  forward : Bool

def Net.offline : Net := ⟨fun _ _ => none, false⟩

def txPreparePrefix : String := "prepare:"

def txCommitPrefix : String := "commit:"

def txAbortPrefix : String := "abort:"

def txDecisionPrefix : String := "decision:"

def txDefaultTimeoutMs : Int64 := 10000

def lockKeys (lockTable : ExtTreeMap String String) (txID : String) (writeKeys : List WriteKey) :
    ExtTreeMap String String :=
  writeKeys.foldl (fun table wk => table.insert wk.key txID) lockTable

/-- `delete(lockTable, wk.Key)` for every write key, whoever holds it. -/
def unlockKeys (lockTable : ExtTreeMap String String) (writeKeys : List WriteKey) :
    ExtTreeMap String String :=
  writeKeys.foldl (fun table wk => table.erase wk.key) lockTable

def batchOps (writeKeys : List WriteKey) : List WriteBatchOp :=
  writeKeys.map fun wk => ⟨wk.key, wk.value, wk.version.toUInt64, 0, wk.isDelete⟩

namespace KVServer

/-- Whether the store has a record of this kind for the transaction. -/
def hasRecord (kv : KVServer) (kind txID : String) : Bool :=
  (kv.store.getTxRecord (kind ++ txID)).isSome

def releaseLocksForTxLocked (kv : KVServer) (txID : String) : KVServer :=
  { kv with txMgr.lockTable := kv.txMgr.lockTable.filter fun _ holder => holder ≠ txID }

def queryCoordinatorDecision (kv : KVServer) (net : Net) (rec : PreparedTxRecord) : TxStatus :=
  if rec.coordinatorGroupID = kv.groupID then
    match (kv.store.getTxRecord (txDecisionPrefix ++ rec.txID)).bind Document.toDecision? with
    | some decisionRec => decisionRec.decision
    | none => .unknown
  else
    match net.queryTxDecision rec.coordinatorGroupID rec.txID with
    | some decision =>
      if decision = "COMMITTED" then .committed
      else if decision = "ABORTED" then .aborted
      else .unknown
    | none => .unknown

/-- The locks, the cached record and the stored record of a finished transaction. -/
def forget (kv : KVServer) (txID : String) (writeKeys : List WriteKey) : KVServer :=
  { kv with
    store := kv.store.deleteTxRecord (txPreparePrefix ++ txID)
    txMgr.lockTable := unlockKeys kv.txMgr.lockTable writeKeys
    txMgr.preparedTxs := kv.txMgr.preparedTxs.erase txID }

def executeCommit (kv : KVServer) (rec : PreparedTxRecord) : KVServer :=
  match kv.store.writeBatchWithCASAndRecord (batchOps rec.writeKeys)
      (txCommitPrefix ++ rec.txID) .mark with
  | .error _ => kv
  | .ok store => { kv with store := store }.forget rec.txID rec.writeKeys

def executeAbort (kv : KVServer) (rec : PreparedTxRecord) : KVServer :=
  { kv with store := kv.store.putTxRecord (txAbortPrefix ++ rec.txID) .mark }.forget
    rec.txID rec.writeKeys

def diskRecord (kv : KVServer) (txID : String) : Option PreparedTxRecord :=
  (kv.store.getTxRecord (txPreparePrefix ++ txID)).bind Document.toPrepared?

def resolvePrepared (kv : KVServer) (net : Net) (rec : PreparedTxRecord) : KVServer × Bool :=
  match kv.queryCoordinatorDecision net rec with
  | .committed => (kv.executeCommit rec, true)
  | .aborted => (kv.executeAbort rec, true)
  | .unknown | .notFound | .prepared => (kv, false)

def resolveLockLocked (kv : KVServer) (net : Net) (txID : String) : KVServer × Bool :=
  if kv.hasRecord txCommitPrefix txID then (kv.releaseLocksForTxLocked txID, true)
  else if kv.hasRecord txAbortPrefix txID then (kv.releaseLocksForTxLocked txID, true)
  else
    match kv.txMgr.preparedTxs[txID]? with
    | some rec => kv.resolvePrepared net rec
    | none =>
      match kv.diskRecord txID with
      | none => (kv.releaseLocksForTxLocked txID, true)
      | some rec =>
        { kv with txMgr.preparedTxs := kv.txMgr.preparedTxs.insert txID rec }.resolvePrepared
          net rec

def otherHolder (kv : KVServer) (txID key : String) : Option String :=
  kv.txMgr.lockTable[key]?.filter fun holder => holder ≠ txID

def resolveConflicts (net : Net) (txID : String) : KVServer → List WriteKey → KVServer × Bool
  | kv, [] => (kv, true)
  | kv, wk :: wks =>
    match kv.otherHolder txID wk.key with
    | none => resolveConflicts net txID kv wks
    | some holder =>
      match kv.resolveLockLocked net holder with
      | (kv', false) => (kv', false)
      | (kv', true) =>
        if (kv'.otherHolder txID wk.key).isSome then (kv', false)
        else resolveConflicts net txID kv' wks

def checkRead (s : Store) (now : Int64) (rk : ReadKey) : Err :=
  match s.get rk.key with
  | .error _ => .wrongLeader
  | .ok none => if rk.expectedVersion ≠ 0 then .txConflict else .ok
  | .ok (some entry) =>
    if isExpired entry.expires now then
      if rk.expectedVersion ≠ 0 then .txConflict else .ok
    else if rk.expectedVersion ≠ entry.version.toInt64 then .txConflict
    else .ok

def checkReads (s : Store) (now : Int64) : List ReadKey → Err
  | [] => .ok
  | rk :: rks =>
    match checkRead s now rk with
    | .ok => checkReads s now rks
    | e => e

def prepareRecord (args : PrepareTxArgs) (now : Int64) : PreparedTxRecord :=
  { txID := args.txID
    readKeys := args.readKeys
    writeKeys := args.writeKeys
    preparedAt := now
    timeoutMs := if args.timeoutMs ≤ 0 then txDefaultTimeoutMs else args.timeoutMs
    coordinatorGroupID := args.coordinatorGroupID
    participantGroupIDs := args.participantGroupIDs }

def installPrepared (kv : KVServer) (rec : PreparedTxRecord) : KVServer :=
  { kv with
    store := kv.store.putTxRecord (txPreparePrefix ++ rec.txID) (.prepare rec)
    txMgr.lockTable := lockKeys kv.txMgr.lockTable rec.txID rec.writeKeys
    txMgr.preparedTxs := kv.txMgr.preparedTxs.insert rec.txID rec }

def prepare (kv : KVServer) (net : Net) (now : Int64) (args : PrepareTxArgs) :
    Option (KVServer × Err) :=
  if kv.txMgr.mu then none
  else
    match resolveConflicts net args.txID kv args.writeKeys with
    | (kv', false) => some (kv', .txConflict)
    | (kv', true) =>
      match checkReads kv'.store now args.readKeys with
      | .ok => some (kv'.installPrepared (prepareRecord args now), .ok)
      | e => some (kv', e)

def recordDecision (kv : KVServer) (args : RecordTxDecisionArgs) : KVServer × Err :=
  if args.decision ≠ .committed ∧ args.decision ≠ .aborted then (kv, .txConflict)
  else
    match kv.store.getTxRecord (txDecisionPrefix ++ args.txID) with
    | some raw =>
      if raw.toDecision?.map (·.decision) = some args.decision then (kv, .ok)
      else (kv, .txConflict)
    | none =>
      ({ kv with
          store := kv.store.putTxRecord (txDecisionPrefix ++ args.txID)
            (.decision ⟨args.decision, args.participantGroupIDs, args.writeKeys⟩) }, .ok)

/-- Whether `Commit` still has to wait for the decision of its own group. -/
def undecided (kv : KVServer) (txID : String) : Bool :=
  match kv.diskRecord txID with
  | none => false
  | some pending =>
    pending.participantGroupIDs ≠ [] && kv.groupID = pending.coordinatorGroupID &&
      ((kv.store.getTxRecord (txDecisionPrefix ++ txID)).bind Document.toDecision?).map
        (·.decision) ≠ some .committed

/-- The record that `Commit` applies, read into the cache where it was not there. -/
def loadPrepared (kv : KVServer) (txID : String) : Option (KVServer × PreparedTxRecord) :=
  match kv.txMgr.preparedTxs[txID]? with
  | some rec => some (kv, rec)
  | none =>
    match kv.diskRecord txID with
    | none => none
    | some rec =>
      some ({ kv with
              txMgr.preparedTxs := kv.txMgr.preparedTxs.insert txID rec
              txMgr.lockTable := lockKeys kv.txMgr.lockTable rec.txID rec.writeKeys }, rec)

def applyCommit (kv : KVServer) (txID : String) (rec : PreparedTxRecord) : KVServer × Err :=
  match kv.store.writeBatchWithCASAndRecord (batchOps rec.writeKeys) (txCommitPrefix ++ txID)
      .mark with
  | .error _ => (kv, .txConflict)
  | .ok store => ({ kv with store := store }.forget txID rec.writeKeys, .ok)

def commit (kv : KVServer) (txID : String) : Option (KVServer × Err) :=
  if kv.txMgr.mu then none
  else if kv.hasRecord txCommitPrefix txID then some (kv, .ok)
  else if kv.hasRecord txAbortPrefix txID then some (kv, .txConflict)
  else if kv.undecided txID then
    -- The returns of this check do not release the mutex.
    some ({ kv with txMgr.mu := true }, .txConflict)
  else
    match kv.loadPrepared txID with
    | none => some (kv, .txNotFound)
    | some (kv', rec) => some (kv'.applyCommit txID rec)

/-- The locks that `Abort` releases: those of the write set that the transaction
holds. -/
def unlockHeld (lockTable : ExtTreeMap String String) (txID : String)
    (writeKeys : List WriteKey) : ExtTreeMap String String :=
  writeKeys.foldl (fun table wk => if table[wk.key]? = some txID then table.erase wk.key
    else table) lockTable

def abort (kv : KVServer) (txID : String) : Option (KVServer × Err) :=
  if kv.txMgr.mu then none
  else if kv.hasRecord txCommitPrefix txID then some (kv, .txConflict)
  else if kv.hasRecord txAbortPrefix txID then some (kv, .ok)
  else
    let store := (kv.store.putTxRecord (txAbortPrefix ++ txID) .mark).deleteTxRecord
      (txPreparePrefix ++ txID)
    match kv.txMgr.preparedTxs[txID]? with
    | none => some ({ kv with store := store }, .ok)
    | some rec =>
      some ({ kv with
              store := store
              txMgr.lockTable := unlockHeld kv.txMgr.lockTable txID rec.writeKeys
              txMgr.preparedTxs := kv.txMgr.preparedTxs.erase txID }, .ok)

/-- The moment after which a prepared transaction of a single group is given up. -/
def deadline (rec : PreparedTxRecord) : Int64 := rec.preparedAt + rec.timeoutMs * 1000000

def resolveTxStatus (kv : KVServer) (now : Int64) (txID : String) :
    Option (KVServer × ResolveTxStatusReply) :=
  match (kv.store.getTxRecord (txDecisionPrefix ++ txID)).bind Document.toDecision? with
  | some d =>
    some (kv, { status := d.decision, participantGroupIDs := d.participantGroupIDs, err := .ok })
  | none =>
    if kv.hasRecord txCommitPrefix txID then some (kv, { status := .committed, err := .ok })
    else if kv.hasRecord txAbortPrefix txID then some (kv, { status := .aborted, err := .ok })
    else
      match kv.diskRecord txID with
      | none => some (kv, { status := .notFound, err := .txNotFound })
      | some rec =>
        if rec.participantGroupIDs = [] ∧ 0 < rec.timeoutMs ∧ deadline rec < now then
          if kv.txMgr.mu then none
          else
            let kv' := kv.releaseLocksForTxLocked txID
            some ({ kv' with
                    store := (kv'.store.putTxRecord (txAbortPrefix ++ txID) .mark).deleteTxRecord
                      (txPreparePrefix ++ txID)
                    txMgr.preparedTxs := kv'.txMgr.preparedTxs.erase txID },
                  { status := .aborted, err := .ok })
        else
          some (kv, { status := .prepared, preparedAt := rec.preparedAt
                      writeKeys := rec.writeKeys, err := .ok
                      coordinatorGroupID := rec.coordinatorGroupID
                      participantGroupIDs := rec.participantGroupIDs })

def rebuildRecord (net : Net) (kv : KVServer) (item : String × Document) : KVServer :=
  match item.2.toPrepared? with
  | none => kv
  | some rec =>
    if kv.hasRecord txCommitPrefix rec.txID || kv.hasRecord txAbortPrefix rec.txID then
      { kv with store := kv.store.deleteTxRecord (txPreparePrefix ++ rec.txID) }
    else
      match kv.queryCoordinatorDecision net rec with
      | .committed => kv.executeCommit rec
      | .aborted => kv.executeAbort rec
      | .unknown | .notFound | .prepared =>
        { kv with
          txMgr.lockTable := lockKeys kv.txMgr.lockTable rec.txID rec.writeKeys
          txMgr.preparedTxs := kv.txMgr.preparedTxs.insert rec.txID rec }

/-- `RebuildLockTable`, with the records in the order in which the loop over the
map meets them. -/
def rebuildLockTable (kv : KVServer) (net : Net) (records : List (String × Document)) :
    Option KVServer :=
  if kv.txMgr.mu then none
  else
    some (records.foldl (rebuildRecord net)
      { kv with txMgr.lockTable := ∅, txMgr.preparedTxs := ∅ })

end KVServer

end OrbisKV.KV
