import OrbisKV.KV.InStep
/-!
# Histories of transactions

Clients that use `Get`, `Put`, `Delete` and `Commit` only, over groups that keep their
shards.
-/

namespace OrbisKV.KV

open Std

structure History where
  deployment : Deployment
  begun : List String := []
  ops : String → List TxOp := fun _ => []
  seen : String → List (String × Answer) := fun _ => []
  order : List String := []

namespace Phase

def isActive : Phase → Bool
  | .active => true
  | _ => false

def isCommitting : Phase → Bool
  | .committing _ => true
  | _ => false

def isWinning : Phase → Bool
  | .committing _ => true
  | .returned _ err => err = .ok
  | _ => false

end Phase

namespace History

inductive Event
  | begin (txID : String)
  | get (txID key : String) (now : Int64)
  | put (txID key value : String) (version : Tversion)
  | delete (txID key : String) (now : Int64)
  | protocol (action : Deployment.Action)

def ofCommit : Deployment.Action → Bool
  | .client _ .commit | .client _ (.prepared ..) | .client _ .decide | .client _ (.decided _)
  | .deliver .. | .query .. => true
  | _ => false

variable (hash : String → UInt64) (router : ShardRouter)

def answer (s : History) (key : String) (now : Int64) : Option GetReply :=
  if 0 ≤ router.resolve hash key then
    let reply := (s.deployment.groups (router.resolve hash key)).doGet hash now key
    if reply.err = .ok ∨ reply.err = .noKey then some reply else none
  else none

def consult (s : History) (asks : Bool) (key : String) (now : Int64) : Option (Option GetReply) :=
  if asks then (s.answer hash router key now).map some else some none

def log (s : History) (txID : String) (d : Deployment) (op : TxOp)
    (answers : List (String × Answer)) : History :=
  { s with
    deployment := d
    ops := Function.update s.ops txID (s.ops txID ++ [op])
    seen := Function.update s.seen txID (s.seen txID ++ answers) }

def settled (s : History) (d : Deployment) : Deployment.Action → List String
  | .deliver gid (.recordTxDecision args) _ _ =>
    if s.deployment.decisionAt gid args.txID = none ∧
        d.decisionAt gid args.txID = some .committed then [args.txID]
    else []
  | .client txID .commit =>
    if (d.sessions txID).any fun session => Deployment.Committed session then [txID] else []
  | _ => []

def step (s : History) : Event → Option History
  | .begin txID =>
    (s.deployment.step hash (.begin txID router)).map fun d =>
      { s with deployment := d, begun := s.begun ++ [txID] }
  | .get txID key now =>
    (s.deployment.sessions txID).bind fun session =>
      (s.consult hash router (session.handle.asksGet key) key now).bind fun resp =>
        (s.deployment.step hash (.client txID (.get key resp))).map fun d =>
          s.log txID d (.get key (session.handle.get resp key).2) (noted key resp)
  | .put txID key value version =>
    (s.deployment.step hash (.client txID (.put key value version))).map fun d =>
      s.log txID d (.put key value version) []
  | .delete txID key now =>
    (s.deployment.sessions txID).bind fun session =>
      (s.consult hash router (session.handle.asksDelete key) key now).bind fun resp =>
        (s.deployment.step hash (.client txID (.delete key resp))).map fun d =>
          s.log txID d (.delete key) (noted key resp)
  | .protocol action =>
    if ofCommit action then
      (s.deployment.step hash action).map fun d =>
        { s with deployment := d, order := s.order ++ s.settled d action }
    else none

def system : Lib.System History Event where
  init s := (Deployment.system hash).init s.deployment ∧ s.begun = [] ∧
    (∀ txID, s.ops txID = [] ∧ s.seen txID = []) ∧ s.order = []
  step := step hash router

def entries (s : History) : Entries := fun key =>
  if isUserKey key then
    (s.deployment.groups (router.resolve hash key)).store.kvAt? key
  else none

def committed (s : History) : List String :=
  s.begun.filter fun txID =>
    (s.deployment.sessions txID).any fun session => Deployment.Committed session

/-- The transactions whose `Commit` returned OK, one after another in some order, give
every `Get` its result and lead from the user entries of `s₀` to those of `s`. -/
def Serializable (s₀ s : History) : Prop :=
  ∃ order : List String, order.Perm s.committed ∧
    (order.map fun txID => (txID, s.ops txID)).foldlM (Entries.run (router.resolve hash))
      (s₀.entries hash router) = some (s.entries hash router)

/-- No decision is outstanding, and what was decided is carried out in all groups. -/
def Quiescent (s : History) : Prop :=
  ∀ txID ∈ s.begun, ∀ session ∈ s.deployment.sessions txID,
    session.phase.isCommitting = false ∧ (Deployment.Committed session →
      ∀ gid ∈ session.handle.allGroups (router.resolve hash),
        (s.deployment.groups gid).hasRecord txCommitPrefix txID = true)

instance (s : History) : Decidable (s.Quiescent hash router) := by
  unfold Quiescent
  infer_instance

def writesAbsent (s : History) (txID : String) (h : TxHandle) : Bool :=
  (s.seen txID).all fun item => item.2.2.2 = .ok || h.writeSet[item.1]?.isSome

/-- Transactions name user keys and call `Commit` once, with writes to the keys that they
found absent.  A group applies no `Prepare` of a transaction that has ended there and no
`Commit` before its decision, and each `Prepare` finds the transaction undisturbed.  No
client gives up waiting for the answer to a COMMITTED decision. -/
def undisturbed (s : History) : Event → Prop
  | .begin _ => True
  | .get _ key _ => isUserKey key = true
  | .put _ key _ _ => isUserKey key = true
  | .delete _ key _ => isUserKey key = true
  | .protocol (.client txID .commit) =>
    ((s.deployment.sessions txID).all fun session =>
      session.phase.isActive && s.writesAbsent txID session.handle) = true
  | .protocol (.client txID (.decided false)) =>
    ((s.deployment.sessions txID).all fun session => !session.phase.isCommitting) = true
  | .protocol (.deliver gid (.prepareTx args) _ _) =>
    (s.deployment.groups gid).orderly (.prepareTx args) = true ∧
      KVServer.InStep.Undisturbed (router.resolve hash) s.order s.seen gid
        (s.deployment.groups gid) args
  | .protocol (.deliver gid req _ _) => (s.deployment.groups gid).orderly req = true
  | .protocol _ => True

instance (s : History) (e : Event) : Decidable (s.undisturbed hash router e) := by
  unfold undisturbed
  split <;> infer_instance

end History

end OrbisKV.KV
