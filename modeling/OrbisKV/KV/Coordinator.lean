import OrbisKV.KV.Server
import OrbisKV.Sharding.Topology
/-!
# The client side of two-phase commit

`TxHandle` buffers the reads and writes of one transaction; `Commit` plans the
requests of both phases from them and from the routing table of that moment.
-/

namespace OrbisKV.KV

open Std

def int32 (n : Int) : Int := n.bmod UInt32.size

/-- `clerkGet` on the response of the group, `none` for a failed call. -/
def clerkGet : Option GetReply → String × Tversion × Err
  | none => ("", 0, .wrongLeader)
  | some resp => if resp.err ≠ .ok then ("", 0, resp.err) else (resp.value, resp.version, .ok)

structure TxHandle where
  txID : String
  readSet : ExtTreeMap String ReadKey := ∅
  writeSet : ExtTreeMap String WriteKey := ∅
  groups : ExtTreeSet Int := ∅
  timeoutMs : Int64 := 10000

/-- What `Commit` computes before its first request: the participants in ascending
order, the keys of each, and the writes that some group takes. -/
structure CommitPlan where
  groups : List Int
  writeKeys : Int → List WriteKey
  readKeys : Int → List ReadKey
  grouped : List WriteKey

namespace TxHandle

variable (resolve : String → Int)

def get (h : TxHandle) (resp : Option GetReply) (key : String) :
    TxHandle × (String × Tversion × Err) :=
  match h.writeSet[key]? with
  | some wk => (h, wk.value, wk.version, .ok)
  | none =>
    match h.readSet[key]? with
    | some rk => (h, rk.value, rk.expectedVersion, .ok)
    | none =>
      match clerkGet resp with
      | (val, ver, .ok) =>
        ({ h with readSet := h.readSet.insert key ⟨key, val, ver⟩ }, val, ver, .ok)
      | (_, _, e) => (h, "", 0, e)

def join (h : TxHandle) (key : String) : TxHandle :=
  if 0 ≤ resolve key then { h with groups := h.groups.insert (resolve key) } else h

def put (h : TxHandle) (key value : String) (expectedVersion : Tversion) : TxHandle :=
  { h with writeSet := h.writeSet.insert key ⟨key, value, expectedVersion, false⟩ }.join resolve key

/-- The version that `Delete` names, and the handle with the read it made. -/
def deleteVersion (h : TxHandle) (resp : Option GetReply) (key : String) : TxHandle × Tversion :=
  match h.readSet[key]? with
  | some rk => (h, rk.expectedVersion)
  | none =>
    match clerkGet resp with
    | (_, ver, .ok) => ({ h with readSet := h.readSet.insert key ⟨key, "", ver⟩ }, ver)
    | (_, _, _) => (h, 0)

def delete (h : TxHandle) (resp : Option GetReply) (key : String) : TxHandle :=
  let (h', version) := h.deleteVersion resp key
  { h' with writeSet := h'.writeSet.insert key ⟨key, "", version, true⟩ }.join resolve key

def writes (h : TxHandle) : List WriteKey := h.writeSet.toList.map Prod.snd

def reads (h : TxHandle) : List ReadKey := h.readSet.toList.map Prod.snd

def groupWriteKeys (h : TxHandle) (gid : Int) : List WriteKey :=
  h.writes.filter fun wk => 0 ≤ resolve wk.key ∧ resolve wk.key = gid

def groupReadKeys (h : TxHandle) (gid : Int) : List ReadKey :=
  h.reads.filter fun rk => 0 ≤ resolve rk.key ∧ resolve rk.key = gid

def readGroups (h : TxHandle) : List Int :=
  (h.reads.map fun rk => resolve rk.key).filter fun gid => 0 ≤ gid

def allGroups (h : TxHandle) : List Int := (h.groups.insertMany (h.readGroups resolve)).toList

def rollbackGroups (h : TxHandle) : List Int := (h.groups.insertMany (h.readGroups resolve)).toList

def plan (h : TxHandle) : CommitPlan :=
  { groups := h.allGroups resolve
    writeKeys := h.groupWriteKeys resolve
    readKeys := h.groupReadKeys resolve
    grouped := h.writes.filter fun wk => 0 ≤ resolve wk.key }

variable {resolve}

/-- The `PrepareTx` request for a participant. -/
def prepareTxArgs (h : TxHandle) (plan : CommitPlan) (gid : Int) : PrepareTxArgs :=
  { txID := h.txID
    readKeys := (plan.readKeys gid).map fun rk => ⟨rk.key, "", rk.expectedVersion⟩
    writeKeys := plan.writeKeys gid
    timeoutMs := h.timeoutMs
    coordinatorGroupID := int32 (plan.groups.headD 0)
    participantGroupIDs := plan.groups.map int32 }

def decisionArgs (h : TxHandle) (decision : TxStatus) (groups : List Int)
    (writeKeys : List WriteKey) : RecordTxDecisionArgs :=
  ⟨h.txID, decision, groups.map int32, writeKeys⟩

end TxHandle

def groupsOr (groups other : List Int) : List Int := if groups = [] then other else groups

/-- `RecoverTransaction` on the answers to its two requests: the groups that
`recoverBroadcast` writes to and whether it commits. -/
def recoverTransaction (participantGroupID : Int) (participant : ResolveTxStatusReply)
    (decision : Option ResolveTxStatusReply) : Option (List Int × Bool) :=
  if participant.status = .committed ∨ participant.status = .aborted then
    some (groupsOr (participant.participantGroupIDs.map int32) [participantGroupID],
      participant.status = .committed)
  else if participant.status ≠ .prepared then none
  else
    match decision with
    | none => none
    | some decision =>
      let groups := groupsOr (decision.participantGroupIDs.map int32)
        (participant.participantGroupIDs.map int32)
      if decision.status = .committed then some (groups, true)
      else if decision.status = .aborted then some (groups, false)
      else none

def trimPrefix (s pre : String) : String :=
  if hasPrefix s pre then String.ofList (s.toList.drop pre.toList.length) else s

namespace KVServer

def allCompleted (kv : KVServer) (txID : String) (rec : TxDecisionRecord) : Bool :=
  rec.participantGroupIDs.all fun gid => gid = kv.groupID && kv.hasRecord txCommitPrefix txID

/-- The write keys that `RecoverCoordinatorTransactions` finds for a decision. -/
def recoveredWriteKeys (kv : KVServer) (txID : String) (rec : TxDecisionRecord) :
    Option (List WriteKey) :=
  if rec.writeKeys ≠ [] then some rec.writeKeys
  else (kv.diskRecord txID).map (·.writeKeys)

/-- `RecoverCoordinatorTransactions`: the transactions whose second phase is started
again, with their participants and write keys. -/
def recoverCoordinatorTransactions (kv : KVServer) : List (String × List Int × List WriteKey) :=
  (kv.store.scanTxRecordsByPrefix txDecisionPrefix).filterMap fun item =>
    let txID := trimPrefix item.1 (txKeyPrefix ++ txDecisionPrefix)
    match item.2.toDecision? with
    | none => none
    | some rec =>
      if rec.decision ≠ .committed || kv.allCompleted txID rec then none
      else (kv.recoveredWriteKeys txID rec).map fun wks => (txID, rec.participantGroupIDs, wks)

def txStatusToString : TxStatus → String
  | .committed => "COMMITTED"
  | .aborted => "ABORTED"
  | .notFound | .prepared | .unknown => "UNKNOWN"

/-- `QueryTxDecision`, `none` for the answers that the router takes for a wrong
leader. -/
def queryTxDecision (kv : KVServer) (txID : String) : Option String :=
  if kv.dead then none
  else
    match kv.store.getTxRecord (txDecisionPrefix ++ txID) with
    | none => some (txStatusToString .unknown)
    | some decision => decision.toDecision?.map fun rec => txStatusToString rec.decision

end KVServer

end OrbisKV.KV
