import OrbisKV.Lib.Machine
import OrbisKV.KV.Server
/-!
# The write-ahead log of applied commands

Every applied command is appended as one `wal.Entry` and `recoverFromWAL` executes
the entries again when the node starts.
-/

namespace OrbisKV.KV

open List

/-- The operation types that `walEntryFromOp` writes for the requests of `DoOp`. -/
inductive OpType
  | get
  | scan
  | put
  | delete
  | expire
  | cleanupShard
  | setShardState
  | prepareTx
  | commitTx
  | abortTx
  | resolveTxStatus
  | recordTxDecision
deriving DecidableEq, Repr

/-- `wal.Entry` without the fields that recovery does not read (term, node, request
id and time of the append). -/
structure WalEntry where
  raftIndex : Int
  opType : OpType
  key : String := ""
  value : String := ""
  version : Int64 := 0
  ttl : Int64 := 0
  keys : List String := []
  versions : List Int64 := []
  shardID : Int64 := 0
  shardState : ShardState := .owned
  targetGroup : Int := 0
  epoch : Int64 := 0
  replicas : List String := []
  cutoff : Int64 := 0
  txReadKeys : List String := []
  txReadVersions : List Int64 := []
  txWriteKeys : List String := []
  txWriteValues : List String := []
  txWriteVersions : List Int64 := []
  txWriteDeletes : List Bool := []
  txTimeoutMs : Int64 := 0
  txCoordinatorGroup : Int := 0
  txParticipantGroups : List Int := []
  txDecision : TxStatus := .notFound
deriving DecidableEq, Repr

def walEntryFromOp (commandIndex : Int) : Request → WalEntry
  | .get key => { raftIndex := commandIndex, opType := .get, key := key }
  | .scan _ => { raftIndex := commandIndex, opType := .scan }
  | .put t =>
    { raftIndex := commandIndex, opType := .put, key := t.key, value := t.value
      version := t.version, ttl := t.ttl }
  | .delete key => { raftIndex := commandIndex, opType := .delete, key := key }
  | .expire t =>
    { raftIndex := commandIndex, opType := .expire, keys := t.keys, cutoff := t.cutoff }
  | .cleanupShard t =>
    { raftIndex := commandIndex, opType := .cleanupShard, version := t.shardID
      keys := t.keys.map (·.key), versions := t.keys.map (·.expectedVersion) }
  | .setShardState t =>
    { raftIndex := commandIndex, opType := .setShardState, shardID := t.shardID
      shardState := t.state, targetGroup := t.targetGroup, epoch := t.topologyEpoch
      replicas := t.targetReplicas }
  | .prepareTx t =>
    { raftIndex := commandIndex, opType := .prepareTx, key := t.txID
      txReadKeys := t.readKeys.map (·.key), txReadVersions := t.readKeys.map (·.expectedVersion)
      txWriteKeys := t.writeKeys.map (·.key), txWriteValues := t.writeKeys.map (·.value)
      txWriteVersions := t.writeKeys.map (·.version)
      txWriteDeletes := t.writeKeys.map (·.isDelete)
      txTimeoutMs := t.timeoutMs, txCoordinatorGroup := t.coordinatorGroupID
      txParticipantGroups := t.participantGroupIDs }
  | .commitTx t =>
    { raftIndex := commandIndex, opType := .commitTx, key := t.txID
      txWriteKeys := t.writeKeys.map (·.key), txWriteValues := t.writeKeys.map (·.value)
      txWriteVersions := t.writeKeys.map (·.version)
      txWriteDeletes := t.writeKeys.map (·.isDelete) }
  | .abortTx txID => { raftIndex := commandIndex, opType := .abortTx, key := txID }
  | .resolveTxStatus txID =>
    { raftIndex := commandIndex, opType := .resolveTxStatus, key := txID }
  | .recordTxDecision t =>
    { raftIndex := commandIndex, opType := .recordTxDecision, key := t.txID
      txDecision := t.decision, txParticipantGroups := t.participantGroupIDs }

namespace WalEntry

def reads (entry : WalEntry) : List ReadKey :=
  zipWith (fun key version => ⟨key, "", version⟩) entry.txReadKeys entry.txReadVersions

def writes (entry : WalEntry) : List WriteKey :=
  zipWith (fun (item : String × String) (rest : Int64 × Bool) =>
      ⟨item.1, item.2, rest.1, rest.2⟩)
    (entry.txWriteKeys.zip entry.txWriteValues) (entry.txWriteVersions.zip entry.txWriteDeletes)

def writesAligned (entry : WalEntry) : Bool :=
  entry.txWriteKeys.length = entry.txWriteValues.length &&
    entry.txWriteKeys.length = entry.txWriteVersions.length &&
    entry.txWriteKeys.length = entry.txWriteDeletes.length

end WalEntry

/-- `walEntryToRequest`: the request, and whether it is executed again. -/
def walEntryToRequest (entry : WalEntry) : Except String (Option Request × Bool) :=
  match entry.opType with
  | .get => .ok (none, false)
  | .scan => .ok (none, false)
  | .put => .ok (some (.put ⟨entry.key, entry.value, entry.version, entry.ttl⟩), true)
  | .delete => .ok (some (.delete entry.key), true)
  | .expire => .ok (some (.expire ⟨entry.keys, entry.cutoff⟩), true)
  | .cleanupShard =>
    if entry.keys.length ≠ entry.versions.length then
      .error "invalid cleanup shard WAL entry"
    else
      .ok (some (.cleanupShard ⟨entry.version,
        zipWith (fun key version => ⟨key, version⟩) entry.keys entry.versions⟩), true)
  | .setShardState =>
    .ok (some (.setShardState ⟨entry.shardID, entry.shardState, entry.targetGroup, entry.epoch,
      entry.replicas⟩), true)
  | .prepareTx =>
    if entry.txReadKeys.length ≠ entry.txReadVersions.length ∨ !entry.writesAligned then
      .error "invalid prepare tx WAL entry"
    else
      .ok (some (.prepareTx ⟨entry.key, entry.reads, entry.writes, entry.txTimeoutMs,
        entry.txCoordinatorGroup, entry.txParticipantGroups⟩), true)
  | .commitTx =>
    if !entry.writesAligned then .error "invalid commit tx WAL entry"
    else .ok (some (.commitTx ⟨entry.key, entry.writes⟩), true)
  | .abortTx => .ok (some (.abortTx entry.key), true)
  | .recordTxDecision =>
    .ok (some (.recordTxDecision ⟨entry.key, entry.txDecision, entry.txParticipantGroups, []⟩),
      true)
  | .resolveTxStatus => .ok (some (.resolveTxStatus entry.key), false)

def ReadKey.withoutValue (rk : ReadKey) : ReadKey := { rk with value := "" }

theorem map_withoutValue_eq_self_iff {readKeys : List ReadKey} :
    readKeys.map ReadKey.withoutValue = readKeys ↔ readKeys.all (·.value = "") = true := by
  induction readKeys with
  | nil => simp
  | cons rk rks ih =>
    have hhead : rk.withoutValue = rk ↔ rk.value = "" := by
      cases rk
      simp [ReadKey.withoutValue, eq_comm]
    simp only [map_cons, cons.injEq, all_cons, Bool.and_eq_true, hhead, ih, decide_eq_true_eq]

def Request.recorded : Request → Option Request
  | .get _ => none
  | .scan _ => none
  | .resolveTxStatus _ => none
  | .prepareTx t =>
    some (.prepareTx { t with readKeys := t.readKeys.map ReadKey.withoutValue })
  | .recordTxDecision t => some (.recordTxDecision { t with writeKeys := [] })
  | req => some req

theorem zipWith_map_writeKey (writeKeys : List WriteKey) :
    zipWith (fun (item : String × String) (rest : Int64 × Bool) =>
        (⟨item.1, item.2, rest.1, rest.2⟩ : WriteKey))
      ((writeKeys.map (·.key)).zip (writeKeys.map (·.value)))
      ((writeKeys.map (·.version)).zip (writeKeys.map (·.isDelete))) = writeKeys := by
  induction writeKeys with
  | nil => rfl
  | cons wk wks ih => simpa using ih

theorem walEntryToRequest_walEntryFromOp (commandIndex : Int) (req : Request) :
    ∃ decoded mutates, walEntryToRequest (walEntryFromOp commandIndex req)
        = .ok (decoded, mutates) ∧ (if mutates then decoded else none) = req.recorded := by
  cases req with
  | cleanupShard t =>
    refine ⟨some (.cleanupShard t), true, ?_, rfl⟩
    simp [walEntryToRequest, walEntryFromOp]
  | prepareTx t =>
    refine ⟨_, true, ?_, rfl⟩
    simp [walEntryToRequest, walEntryFromOp, WalEntry.writesAligned, WalEntry.reads,
      WalEntry.writes, zipWith_map_writeKey, ReadKey.withoutValue]
  | commitTx t =>
    refine ⟨_, true, ?_, rfl⟩
    simp [walEntryToRequest, walEntryFromOp, WalEntry.writesAligned, WalEntry.writes,
      zipWith_map_writeKey]
  | _ => exact ⟨_, _, rfl, rfl⟩

structure Input where
  request : Request
  net : Net
  clock : Clock

def machine (hash : String → UInt64) : Lib.Machine KVServer Input Reply :=
  ⟨fun kv input => kv.doOp hash input.net input.clock input.request⟩

/-- One entry of the replay with `recoveredIndex`.  `none` where the entry does not
decode, which stops the process, or where `DoOp` does not return. -/
def recoverEntry (hash : String → UInt64) (snapshotIndex : Int) (st : KVServer × Int)
    (entry : WalEntry) (net : Net) (clock : Clock) : Option (KVServer × Int) :=
  if entry.raftIndex ≤ snapshotIndex then some st
  else if entry.raftIndex ≤ st.2 then some st
  else
    match walEntryToRequest entry with
    | .error _ => none
    | .ok (decoded, mutates) =>
      match if mutates then decoded else none with
      | some req => (st.1.doOp hash net clock req).map fun r => (r.1, entry.raftIndex)
      | none => some (st.1, entry.raftIndex)

/-- `recoverFromWAL`: the entries in file order, each with what its execution
meets. -/
def recoverFromWAL (hash : String → UInt64) (snapshotIndex : Int) (kv : KVServer)
    (entries : List (WalEntry × Net × Clock)) : Option (KVServer × Int) :=
  entries.foldlM (fun st item => recoverEntry hash snapshotIndex st item.1 item.2.1 item.2.2)
    (kv, snapshotIndex)

/-- The log of a node that has applied the inputs from index `first` on. -/
def walOf (first : Int) : List Input → List (WalEntry × Net × Clock)
  | [] => []
  | input :: inputs =>
    (walEntryFromOp first input.request, input.net, input.clock) :: walOf (first + 1) inputs

def replay (hash : String → UInt64) (kv : KVServer) (input : Input) : Option KVServer :=
  match input.request.recorded with
  | some req => (kv.doOp hash input.net input.clock req).map (·.1)
  | none => some kv

@[simp] theorem raftIndex_walEntryFromOp (commandIndex : Int) (req : Request) :
    (walEntryFromOp commandIndex req).raftIndex = commandIndex := by
  cases req <;> rfl

theorem recoverEntry_next (hash : String → UInt64) {snapshotIndex done : Int}
    (h : snapshotIndex ≤ done) (kv : KVServer) (input : Input) :
    recoverEntry hash snapshotIndex (kv, done) (walEntryFromOp (done + 1) input.request)
        input.net input.clock =
      (replay hash kv input).map fun kv' => (kv', done + 1) := by
  obtain ⟨decoded, mutates, hent, hrec⟩ := walEntryToRequest_walEntryFromOp (done + 1) input.request
  have hnew : ¬done + 1 ≤ done := by omega
  rw [recoverEntry, raftIndex_walEntryFromOp, if_neg (by omega), if_neg hnew, hent]
  simp only [hrec, replay]
  cases input.request.recorded with
  | none => rfl
  | some req => simp [Option.map_map, Function.comp_def]

theorem recoverEntry_of_le (hash : String → UInt64) {snapshotIndex done : Int} {entry : WalEntry}
    (h : entry.raftIndex ≤ done) (kv : KVServer) (net : Net) (clock : Clock) :
    recoverEntry hash snapshotIndex (kv, done) entry net clock = some (kv, done) := by
  simp [recoverEntry, h]

theorem recoverFromWAL_walOf (hash : String → UInt64) (snapshotIndex : Int) (kv : KVServer)
    (inputs : List Input) :
    recoverFromWAL hash snapshotIndex kv (walOf (snapshotIndex + 1) inputs) =
      (inputs.foldlM (replay hash) kv).map fun kv' => (kv', snapshotIndex + inputs.length) := by
  suffices h : ∀ (inputs : List Input) (kv : KVServer) (done : Int), snapshotIndex ≤ done →
      (walOf (done + 1) inputs).foldlM (fun st item =>
          recoverEntry hash snapshotIndex st item.1 item.2.1 item.2.2) (kv, done) =
        (inputs.foldlM (replay hash) kv).map fun kv' => (kv', done + inputs.length) by
    exact h inputs kv snapshotIndex le_rfl
  intro inputs
  induction inputs with
  | nil =>
    intro kv done hdone
    simp [walOf]
  | cons input inputs ih =>
    intro kv done hdone
    rw [walOf, foldlM_cons, foldlM_cons, recoverEntry_next hash hdone kv input]
    cases replay hash kv input with
    | none => rfl
    | some kv' =>
      simp only [Option.map_some, Option.bind_eq_bind, Option.bind_some]
      rw [ih kv' (done + 1) (by omega)]
      have hlen : done + 1 + inputs.length = done + (input :: inputs).length := by
        rw [length_cons]
        omega
      rw [hlen]

end OrbisKV.KV
