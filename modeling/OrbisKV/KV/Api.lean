import Mathlib.Data.List.Basic
/-!
# Requests and replies of the key-value service

The argument and reply records that reach the state machine through the log.
-/

namespace OrbisKV.KV

open Std

abbrev Tversion := Int64

inductive Err
  | ok
  | noKey
  | wrongLeader
  | version
  | maybe
  | wrongGroup
  | txConflict
  | txNotFound
  | txTimeout
deriving DecidableEq, Repr

inductive TxStatus
  | notFound
  | prepared
  | committed
  | aborted
  | unknown
deriving DecidableEq, Repr

inductive ShardState
  | owned
  | migrating
  | importing
  | absent
deriving DecidableEq, Repr

structure ReadKey where
  key : String
  value : String
  expectedVersion : Tversion
deriving DecidableEq, Repr

/-- `version` is the version the key must have, zero for an absent key. -/
structure WriteKey where
  key : String
  value : String
  version : Tversion
  isDelete : Bool
deriving DecidableEq, Repr

structure PutArgs where
  key : String
  value : String
  version : Tversion
  ttl : Int64
deriving DecidableEq, Repr

structure CleanupShardKey where
  key : String
  expectedVersion : Tversion
deriving DecidableEq, Repr

structure CleanupShardArgs where
  shardID : Int64
  keys : List CleanupShardKey
deriving DecidableEq, Repr

structure SetShardStateArgs where
  shardID : Int64
  state : ShardState
  targetGroup : Int
  topologyEpoch : Int64
  targetReplicas : List String
deriving DecidableEq, Repr

structure ScanArgs where
  pre : String
  limit : Int
deriving DecidableEq, Repr

structure ExpireArgs where
  keys : List String
  cutoff : Int64
deriving DecidableEq, Repr

structure PrepareTxArgs where
  txID : String
  readKeys : List ReadKey
  writeKeys : List WriteKey
  timeoutMs : Int64
  coordinatorGroupID : Int
  participantGroupIDs : List Int
deriving DecidableEq, Repr

structure CommitTxArgs where
  txID : String
  writeKeys : List WriteKey
deriving DecidableEq, Repr

structure RecordTxDecisionArgs where
  txID : String
  decision : TxStatus
  participantGroupIDs : List Int
  writeKeys : List WriteKey
deriving DecidableEq, Repr

inductive Request
  | setShardState (args : SetShardStateArgs)
  | get (key : String)
  | put (args : PutArgs)
  | delete (key : String)
  | cleanupShard (args : CleanupShardArgs)
  | scan (args : ScanArgs)
  | expire (args : ExpireArgs)
  | prepareTx (args : PrepareTxArgs)
  | commitTx (args : CommitTxArgs)
  | abortTx (txID : String)
  | resolveTxStatus (txID : String)
  | recordTxDecision (args : RecordTxDecisionArgs)
deriving DecidableEq, Repr

/-- The three hint fields that `GetReply`, `PutReply` and `DeleteReply` share. -/
structure Hint where
  groupID : Int := 0
  replicas : List String := []
  epoch : Int64 := 0
deriving DecidableEq, Repr

structure GetReply where
  value : String := ""
  version : Tversion := 0
  expires : Int64 := 0
  err : Err
  hint : Hint := {}
deriving DecidableEq, Repr

structure PutReply where
  err : Err
  oldValue : String := ""
  hint : Hint := {}
deriving DecidableEq, Repr

structure DeleteReply where
  err : Err
  oldValue : String := ""
  hint : Hint := {}
deriving DecidableEq, Repr

structure CleanupShardReply where
  deleted : Nat := 0
  err : Err
deriving DecidableEq, Repr

structure ScanItem where
  key : String
  value : String
  version : Tversion
  expires : Int64
deriving DecidableEq, Repr

structure ScanReply where
  items : List ScanItem := []
  err : Err
deriving DecidableEq, Repr

structure ExpireReply where
  expiredKeys : List String := []
  expiredOldValues : ExtTreeMap String String := ∅
  err : Err
deriving DecidableEq

structure ResolveTxStatusReply where
  status : TxStatus
  preparedAt : Int64 := 0
  writeKeys : List WriteKey := []
  err : Err
  coordinatorGroupID : Int := 0
  participantGroupIDs : List Int := []
deriving DecidableEq, Repr

/-- What `DoOp` returns.  `setShardState` carries the error text, empty for none;
the replies of `Prepare`, `Commit`, `Abort` and `RecordDecision` hold a code only. -/
inductive Reply
  | setShardState (error : String)
  | get (reply : GetReply)
  | put (reply : PutReply)
  | delete (reply : DeleteReply)
  | cleanupShard (reply : CleanupShardReply)
  | scan (reply : ScanReply)
  | expire (reply : ExpireReply)
  | prepareTx (err : Err)
  | commitTx (err : Err)
  | abortTx (err : Err)
  | resolveTxStatus (reply : ResolveTxStatusReply)
  | recordTxDecision (err : Err)
deriving DecidableEq

end OrbisKV.KV
