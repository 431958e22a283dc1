import OrbisKV.Lib.Transition
import OrbisKV.KV.PlainKey
/-!
# The online migration of a shard

`MigrateShardOnline` is a sequence of calls to two groups: what it does next depends
on the reply to the last one.
-/

namespace OrbisKV.KV

open Std

structure MigrationPlanItem where
  key : String
  value : String
  version : Tversion
  sourceGroup : Int
  targetGroup : Int
deriving DecidableEq, Repr

def migrationPutVersion (resp : GetReply) : Tversion :=
  if resp.err = .noKey then 0 else if resp.err = .ok then resp.version else 0

def migrationPutAccepted (resp : PutReply) : Bool := resp.err = .ok

def migrationGetAccepted (resp : GetReply) : Bool := resp.err = .ok || resp.err = .noKey

def migrationValueEquals (resp : GetReply) (item : MigrationPlanItem) : Bool :=
  resp.err = .ok && resp.value = item.value

structure OnlineCopiedItem where
  item : MigrationPlanItem
  before : GetReply
deriving DecidableEq, Repr

/-- The arguments of `MigrateShardOnline` and what it takes from its two routers. -/
structure MigrationJob where
  shardID : Int
  sourceGID : Int
  targetGID : Int
  pre : String
  /-- The number of shards and the epoch of the source router's topology. -/
  numShards : Nat
  epoch : Int64
  targetEpoch : Int64
  targetReplicas : List String

namespace MigrationJob

variable (hash : String → UInt64)

def selects (job : MigrationJob) (key : String) : Bool :=
  ((hash key).toNat % job.numShards : Nat) = job.shardID && (job.pre = "" || hasPrefix key job.pre)

def bulkItems (job : MigrationJob) (items : List ScanItem) : List MigrationPlanItem :=
  (items.filter fun it => job.selects hash it.key).map fun it =>
    ⟨it.key, it.value, it.version, job.sourceGID, job.targetGID⟩

def cleanupKeys (job : MigrationJob) (items : List ScanItem) : List CleanupShardKey :=
  (items.filter fun it => job.selects hash it.key).map fun it => ⟨it.key, it.version⟩

end MigrationJob

inductive MigrationStage
  | reading
  | importing
  | migrating
  /-- Phase 3: the scan, and for the first of the items the source value, the target
  value, the put and its verification. -/
  | scanning
  | checking (items : List MigrationPlanItem) (copied : List OnlineCopiedItem)
  | comparing (items : List MigrationPlanItem) (copied : List OnlineCopiedItem)
  | putting (items : List MigrationPlanItem) (copied : List OnlineCopiedItem) (before : GetReply)
  | verifying (items : List MigrationPlanItem) (copied : List OnlineCopiedItem) (before : GetReply)
  | owning (copied : List OnlineCopiedItem)
  | leaving (copied : List OnlineCopiedItem)
  | listing
  | cleaning (keys : List CleanupShardKey)
  /-- `rollbackOnlineMigration`: the copied items, the latest first, then the shard
  states. -/
  | undoing (copied : List OnlineCopiedItem)
  | undoingPut (copied : List OnlineCopiedItem) (current : GetReply)
  | restoringSource
  | restoringTarget (epoch : Int64)
  | done
  | failed
deriving DecidableEq, Repr

inductive Side
  | source
  | target
deriving DecidableEq, Repr

/-- The state of a migration between two groups.  `source` is the replica of its group that
answers, `acked` what the last acknowledged operation of a client left under a key, and what
the source had there before the first one. -/
structure OnlineMigration where
  source : KVServer
  target : KVServer
  stage : MigrationStage
  sourceOriginal : ShardMeta
  targetOriginal : ShardMeta
  acked : String → Option String

namespace MigrationStage

def copyNext (items : List MigrationPlanItem) (copied : List OnlineCopiedItem) : MigrationStage :=
  match items with
  | [] => .owning copied
  | item :: items => .checking (item :: items) copied

def undoNext (copied : List OnlineCopiedItem) : MigrationStage :=
  match copied with
  | [] => .restoringSource
  | c :: copied => .undoing (c :: copied)

variable (hash : String → UInt64) (job : MigrationJob)

def resume : MigrationStage → Option Reply → MigrationStage
  | .reading, _ => .reading
  | .importing, some (.setShardState "") => .migrating
  | .importing, _ => .failed
  | .migrating, some (.setShardState "") => .scanning
  | .migrating, _ => .restoringTarget (job.epoch + 3)
  | .scanning, some (.scan reply) =>
    if reply.err = .wrongLeader then undoNext []
    else copyNext (job.bulkItems hash reply.items) []
  | .scanning, _ => undoNext []
  | .checking [] copied, _ => .owning copied
  | .checking (item :: items) copied, some (.get reply) =>
    if reply.err = .ok ∧ reply.value = item.value then .comparing (item :: items) copied
    else undoNext copied
  | .checking _ copied, _ => undoNext copied
  | .comparing [] copied, _ => .owning copied
  | .comparing (item :: items) copied, some (.get reply) =>
    if !migrationGetAccepted reply then undoNext copied
    else if migrationValueEquals reply item then copyNext items copied
    else .putting (item :: items) copied reply
  | .comparing _ copied, _ => undoNext copied
  | .putting items copied before, some (.put reply) =>
    if migrationPutAccepted reply then .verifying items copied before else undoNext copied
  | .putting _ copied _, _ => undoNext copied
  | .verifying [] copied _, _ => .owning copied
  | .verifying (item :: items) copied before, some (.get reply) =>
    if migrationGetAccepted reply && migrationValueEquals reply item then
      copyNext items (⟨item, before⟩ :: copied)
    else undoNext copied
  | .verifying _ copied _, _ => undoNext copied
  | .owning copied, some (.setShardState "") => .leaving copied
  | .owning copied, _ => undoNext copied
  | .leaving _, some (.setShardState "") => .listing
  | .leaving copied, _ => undoNext copied
  | .listing, some (.scan reply) =>
    if reply.err = .wrongLeader then .failed
    else
      match job.cleanupKeys hash reply.items with
      | [] => .done
      | key :: keys => .cleaning (key :: keys)
  | .listing, _ => .failed
  | .cleaning _, some (.cleanupShard reply) => if reply.err = .ok then .done else .failed
  | .cleaning _, _ => .failed
  | .undoing [], _ => .restoringSource
  | .undoing (c :: copied), some (.get reply) =>
    if reply.err = .ok then .undoingPut (c :: copied) reply else undoNext copied
  | .undoing (_ :: copied), _ => undoNext copied
  | .undoingPut copied _, _ => undoNext copied.tail
  | .restoringSource, _ => .restoringTarget (job.targetEpoch + 1)
  | .restoringTarget _, _ => .failed
  | .done, _ => .done
  | .failed, _ => .failed

end MigrationStage

namespace OnlineMigration

variable (hash : String → UInt64) (job : MigrationJob)

def call (s : OnlineMigration) : Option (Side × Request) :=
  let shardID := Int64.ofInt job.shardID
  match s.stage with
  | .importing =>
    some (.target, .setShardState ⟨shardID, .importing, job.sourceGID, job.epoch + 1, []⟩)
  | .migrating =>
    some (.source, .setShardState
      ⟨shardID, .migrating, job.targetGID, job.epoch + 2, job.targetReplicas⟩)
  | .scanning => some (.source, .scan ⟨"", 0⟩)
  | .checking (item :: _) _ => some (.source, .get item.key)
  | .comparing (item :: _) _ => some (.target, .get item.key)
  | .putting (item :: _) _ before =>
    some (.target, .put ⟨item.key, item.value, migrationPutVersion before, 0⟩)
  | .verifying (item :: _) _ _ => some (.target, .get item.key)
  | .owning _ => some (.target, .setShardState ⟨shardID, .owned, 0, job.epoch + 3, []⟩)
  | .leaving _ =>
    some (.source, .setShardState
      ⟨shardID, .absent, job.targetGID, job.epoch + 4, job.targetReplicas⟩)
  | .listing => some (.source, .scan ⟨"", 0⟩)
  | .cleaning keys => some (.source, .cleanupShard ⟨shardID, keys⟩)
  | .undoing (c :: _) =>
    if c.before.err = .noKey then some (.target, .delete c.item.key)
    else some (.target, .get c.item.key)
  | .undoingPut (c :: _) current =>
    some (.target, .put ⟨c.item.key, c.before.value, current.version, 0⟩)
  | .restoringSource =>
    some (.source, .setShardState ⟨shardID, s.sourceOriginal.state,
      s.sourceOriginal.targetGroup, job.epoch + 1, []⟩)
  | .restoringTarget epoch =>
    some (.target, .setShardState ⟨shardID, s.targetOriginal.state,
      s.targetOriginal.targetGroup, epoch, []⟩)
  | _ => none

end OnlineMigration

/-- The handlers of the service in front of `DoOp`: `CleanupShard` looks at the shard
state first. -/
def KVServer.handle (hash : String → UInt64) (kv : KVServer) (net : Net) (clock : Clock)
    (req : Request) : Option (KVServer × Reply) :=
  match req with
  | .cleanupShard args =>
    match ShardStateManager.validateShardID args.shardID with
    | .error _ => some (kv, .cleanupShard { err := .wrongGroup })
    | .ok shard =>
      if (kv.shardMgr.states shard).state ≠ .absent then
        some (kv, .cleanupShard { err := .wrongGroup })
      else kv.doOp hash net clock req
  | req => kv.doOp hash net clock req

namespace OnlineMigration

variable (hash : String → UInt64) (job : MigrationJob)

inductive Action
  | client (input : Input) (exchange : Exchange)
  /-- Another replica of the source group applies the put or delete of a client, before or
  after the one that answers, and sends it on as well. -/
  | echo (req : Request) (exchange : Exchange)
  | start
  | call (delivery : Delivery) (net : Net) (clock : Clock)
  /-- A replica executes the call that is due and another one is tried. -/
  | stray (net : Net) (clock : Clock)

def execute (s : OnlineMigration) (net : Net) (clock : Clock) : Option (OnlineMigration × Reply) :=
  (s.call job).bind fun c =>
    match c.1 with
    | .source =>
      (s.source.handle hash net clock c.2).map fun r => ({ s with source := r.1 }, r.2)
    | .target =>
      (s.target.handle hash net clock c.2).map fun r => ({ s with target := r.1 }, r.2)

def note (acked : String → Option String) (req : Request) (reply : Reply) :
    String → Option String :=
  match req, reply with
  | .put args, .put reply =>
    fun key => if reply.err = .ok ∧ key = args.key then some args.value else acked key
  | .delete k, .delete reply =>
    fun key => if reply.err = .ok ∧ key = k then none else acked key
  | _, _ => acked

/-- The put or delete of a client.  A shard that is given away to another group than
the target of this migration leads to forwards of which nothing is known. -/
def serve (s : OnlineMigration) (key : String) (input : Input) (x : Exchange) :
    Option OnlineMigration :=
  if (s.source.shardOf hash key).targetGroup = job.targetGID then
    (s.source.dualApply hash s.target input x).map fun r =>
      { s with source := r.1, target := r.2.1, acked := note s.acked input.request r.2.2 }
  else
    (s.source.doOp hash input.net input.clock input.request).map fun r =>
      { s with source := r.1, acked := note s.acked input.request r.2 }

/-- What a replica sends on to the target. -/
def forwarded : Request → Option Request
  | .put args => some (.put ⟨args.key, args.value, args.version, 0⟩)
  | .delete key => some (.delete key)
  | _ => none

def step (s : OnlineMigration) : Action → Option OnlineMigration
  | .client input x =>
    match input.request with
    | .put args => s.serve hash job args.key input x
    | .delete key => s.serve hash job key input x
    | _ => none
  | .echo req x =>
    (forwarded req).map fun fwd => { s with target := (s.target.exchange hash x fwd).1 }
  | .start =>
    match s.stage with
    | .reading =>
      if h : 0 ≤ job.shardID ∧ job.shardID < (numShards : Int) then
        let shard : Fin numShards := ⟨job.shardID.toNat, by omega⟩
        some { s with
               stage := .importing
               sourceOriginal := s.source.shardMgr.states shard
               targetOriginal := s.target.shardMgr.states shard }
      else some { s with stage := .failed }
    | _ => none
  | .call delivery net clock =>
    match delivery with
    | .lost =>
      (s.call job).map fun _ => { s with stage := s.stage.resume hash job none }
    | .unanswered =>
      (s.execute hash job net clock).map fun r =>
        { r.1 with stage := s.stage.resume hash job none }
    | .answered =>
      (s.execute hash job net clock).map fun r =>
        { r.1 with stage := s.stage.resume hash job (some r.2) }
  | .stray net clock => (s.execute hash job net clock).map Prod.fst

def system : Lib.System OnlineMigration Action where
  init s := s.stage = .reading ∧ ∀ key, s.acked key = s.source.value key
  step := step hash job

end OnlineMigration

end OrbisKV.KV
