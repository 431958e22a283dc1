import OrbisKV.KV.Api
import OrbisKV.Raft.Cluster
/-!
# The replicated state machine

`consensus.go` stands between the service and Raft.
-/

namespace OrbisKV.KV

structure Op (n : Nat) (Req : Type) where
  me : Fin n
  id : Nat
  req : Req
deriving DecidableEq, Repr

def opEquals {n : Nat} {Req : Type} (a b : Op n Req) : Bool := a.me == b.me && a.id == b.id

theorem opEquals_comm {n : Nat} {Req : Type} (a b : Op n Req) : opEquals a b = opEquals b a := by
  rw [opEquals, opEquals, BEq.comm (a := a.me), BEq.comm (a := a.id)]

/-- An `Op` with the call of `Submit` that made it, by its place among all calls.  The code
does not see the number: it tells apart commands that are equal as values. -/
structure Command (n : Nat) (Req : Type) where
  oper : Op n Req
  call : Nat
deriving DecidableEq, Repr

/-- `StateMachine`.  The outcome `none` is a panic of `DoOp`. -/
structure StateMachine (σ Req Res : Type) where
  doOp : σ → Req → Option (σ × Res)
  snapshot : σ → Bytes
  restore : σ → Bytes → σ

/-- The layout of a snapshot: the id counter and the bytes of the state machine. -/
structure SnapshotCodec where
  encode : Nat → Bytes → Bytes
  decode : Bytes → Option (Nat × Bytes)
  decode_encode : ∀ idctr smSnapshot, decode (encode idctr smSnapshot) = some (idctr, smSnapshot)

def SnapshotCodec.unary : SnapshotCodec where
  encode idctr smSnapshot := List.replicate idctr 1 ++ 0 :: smSnapshot
  decode data := some ((data.takeWhile (· = 1)).length, (data.dropWhile (· = 1)).tail)
  decode_encode idctr smSnapshot := by simp

/-- A register: a request without a value reads, and all requests return what the register
holds then. -/
def StateMachine.register : StateMachine Nat (Option Nat) Nat where
  doOp state req := some (req.getD state, req.getD state)
  snapshot state := [UInt8.ofNat state]
  restore state smSnapshot := (smSnapshot.head?.map UInt8.toNat).getD state

/-! ## Calls of Submit -/

inductive SubmitPhase (Res : Type)
  | called
  | started
  | waiting
  /-- The wait is over, the entry of `waitingOps` not deleted yet. -/
  | answered (err : Err) (result : Option Res)
  | returned (err : Err) (result : Option Res)
  | lost
deriving DecidableEq, Repr

def SubmitPhase.outcome {Res : Type} : SubmitPhase Res → Option (Err × Option Res)
  | .answered err result => some (err, result)
  | .returned err result => some (err, result)
  | _ => none

/-- A call of `Submit` with its `waitingOp`; `done` is a channel of capacity one. -/
structure SubmitCall (n : Nat) (Req Res : Type) where
  oper : Op n Req
  index : Option Nat := none
  result : Option Res := none
  done : Option Bool := none
  phase : SubmitPhase Res := .called
deriving DecidableEq, Repr

namespace SubmitCall

variable {n : Nat} {Req Res : Type}

def make (oper : Op n Req) : SubmitCall n Req Res := { oper := oper }

/-- A send on `done` that does not block. -/
def send (c : SubmitCall n Req Res) (ok : Bool) : SubmitCall n Req Res :=
  { c with done := c.done.or (some ok) }

/-- What `applyCommand` tells the waiter at the index of a command. -/
def tell (c : SubmitCall n Req Res) (oper : Op n Req) (value : Res) : SubmitCall n Req Res :=
  if opEquals c.oper oper then { c with result := some value }.send true else c.send false

def receive (c : SubmitCall n Req Res) (ok : Bool) : SubmitCall n Req Res :=
  { c with
    done := none
    phase := if ok then .answered .ok c.result else .answered .wrongLeader none }

def lose (c : SubmitCall n Req Res) : SubmitCall n Req Res :=
  match c.phase with
  | .returned .. => c
  | _ => { c with phase := .lost }

end SubmitCall

/-! ## Nodes -/

inductive SnapshotStage
  | started
  | saved (smSnapshot : Bytes)
  | encoded (data : Bytes)
deriving DecidableEq, Repr

inductive Applying (n : Nat) (Req Res : Type)
  | executed (index : Nat) (command : Command n Req) (value : Res)
  /-- The counter has been compared; `idctr` is what is to be stored. -/
  | restoring (idctr : Option Nat) (smSnapshot : Bytes)
deriving DecidableEq, Repr

structure RSM (n : Nat) (σ Req Res : Type) where
  sm : σ
  idCounter : Nat := 0
  waitingOps : Nat → Option Nat := fun _ => none
  shutdown : Bool := false
  ready : Bool := true
  received : Nat := 0
  applying : Option (Applying n Req Res) := none
  routines : List (Nat × SnapshotStage) := []

/-- A command that `applyCommand` has executed, and the value of `DoOp`. -/
structure Execution (n : Nat) (Req Res : Type) where
  node : Fin n
  index : Nat
  command : Command n Req
  value : Res
deriving DecidableEq, Repr

structure Group (n : Nat) (σ Req Res : Type) where
  cluster : Cluster n (Command n Req)
  rsm : Fin n → RSM n σ Req Res
  /-- All calls of `Submit`, oldest first. -/
  submits : List (SubmitCall n Req Res)
  executed : List (Execution n Req Res)

namespace Group

variable {n : Nat} {σ Req Res : Type} (g : Group n σ Req Res)

def setRsm (p : Fin n) (r : RSM n σ Req Res) : Group n σ Req Res :=
  { g with rsm := Function.update g.rsm p r }

variable {g} in
theorem forall_setRsm {P : Fin n → RSM n σ Req Res → Prop} {p : Fin n} {r : RSM n σ Req Res}
    (hp : P p r) (h : ∀ q, P q (g.rsm q)) (q : Fin n) : P q ((g.setRsm p r).rsm q) :=
  (Function.forall_update_iff g.rsm P).mpr ⟨hp, fun x _ => h x⟩ q

def update (f : Nat → SubmitCall n Req Res → SubmitCall n Req Res) : Group n σ Req Res :=
  { g with submits := g.submits.mapIdx f }

def modify (k : Option Nat) (f : SubmitCall n Req Res → SubmitCall n Req Res) : Group n σ Req Res :=
  g.update fun j c => if some j = k then f c else c

/-! ### Submit -/

def submit (p : Fin n) (req : Req) : Option (Group n σ Req Res) :=
  let r := g.rsm p
  if r.ready && !r.shutdown then
    let opID := r.idCounter + 1
    let call := SubmitCall.make ⟨p, opID, req⟩
    some ({ g with submits := g.submits ++ [call] }.setRsm p { r with idCounter := opID })
  else none

def start (k : Nat) : Option (Group n σ Req Res) :=
  (g.submits[k]?).bind fun c =>
    match c.phase with
    | .called =>
      match g.cluster.step (.run c.oper.me (.start (some ⟨c.oper, k⟩))) with
      | none => some (g.modify (some k) fun c => { c with phase := .returned .wrongLeader none })
      | some cluster =>
        let index := (g.cluster.node c.oper.me).rf.getLastLogIndex + 1
        some ({ g with cluster := cluster }.modify (some k) fun c =>
          { c with index := some index, phase := .started })
    | _ => none

def register (k : Nat) : Option (Group n σ Req Res) :=
  (g.submits[k]?).bind fun c =>
    match c.phase, c.index with
    | .started, some index =>
      let r := g.rsm c.oper.me
      let g := g.modify (r.waitingOps index) (·.send false)
      let g := g.modify (some k) fun c => { c with phase := .waiting }
      some (g.setRsm c.oper.me
        { r with waitingOps := Function.update r.waitingOps index (some k) })
    | _, _ => none

def receive (k : Nat) : Option (Group n σ Req Res) :=
  (g.submits[k]?).bind fun c =>
    match c.phase, c.done with
    | .waiting, some ok => some (g.modify (some k) (·.receive ok))
    | _, _ => none

def giveUp (k : Nat) : Option (Group n σ Req Res) :=
  (g.submits[k]?).bind fun c =>
    match c.phase with
    | .waiting =>
      some (g.modify (some k) fun c => { c with phase := .answered .wrongLeader none })
    | _ => none

def finish (k : Nat) : Option (Group n σ Req Res) :=
  (g.submits[k]?).bind fun c =>
    match c.phase, c.index with
    | .answered err result, some index =>
      let r := g.rsm c.oper.me
      let g := g.modify (some k) fun c => { c with phase := .returned err result }
      some (g.setRsm c.oper.me
        { r with waitingOps := Function.update r.waitingOps index none })
    | _, _ => none

/-! ### The apply loop -/

variable (sm : StateMachine σ Req Res) (codec : SnapshotCodec)

/-- `applyLoop` receives a message: `applyCommand` up to the return of `DoOp`, or
`applySnapshot` up to the comparison of the counters. -/
def receiveMsg (p : Fin n) : Option (Group n σ Req Res) :=
  let r := g.rsm p
  if r.ready && !r.shutdown && r.applying.isNone then
    ((g.cluster.node p).applied[r.received]?).bind fun msg =>
      let r := { r with received := r.received + 1 }
      match msg with
      | .command none _ => some (g.setRsm p r)
      | .command (some command) index =>
        (sm.doOp r.sm command.oper.req).map fun (state, value) =>
          let e : Execution n Req Res := ⟨p, index, command, value⟩
          { g with executed := g.executed ++ [e] }.setRsm p
            { r with sm := state, applying := some (.executed index command value) }
      | .snapshot data _ _ =>
        (codec.decode data).map fun (idctr, smSnapshot) =>
          g.setRsm p { r with
            applying := some (.restoring (if r.idCounter < idctr then some idctr else none)
              smSnapshot) }
  else none

/-- The rest of `applyCommand` or `applySnapshot`.  Whether `shouldCreateSnapshot` asks for
a snapshot is left open. -/
def finishMsg (p : Fin n) (wants : Bool) : Option (Group n σ Req Res) :=
  let r := g.rsm p
  match r.applying with
  | none => none
  | some (.executed index command value) =>
    let g := g.modify (r.waitingOps index) (·.tell command.oper value)
    some (g.setRsm p { r with
      applying := none
      routines := if wants then r.routines ++ [(index, .started)] else r.routines })
  | some (.restoring idctr smSnapshot) =>
    some (g.setRsm p { r with
      idCounter := idctr.getD r.idCounter
      sm := sm.restore r.sm smSnapshot
      applying := none })

def createSnapshot (p : Fin n) (j : Nat) : Option (Group n σ Req Res) :=
  let r := g.rsm p
  (r.routines[j]?).bind fun (index, stage) =>
    match stage with
    | .started =>
      if r.shutdown then none
      else some (g.setRsm p { r with
        routines := r.routines.set j (index, .saved (sm.snapshot r.sm)) })
    | .saved smSnapshot =>
      some (g.setRsm p { r with
        routines := r.routines.set j (index, .encoded (codec.encode r.idCounter smSnapshot)) })
    | .encoded data =>
      (g.cluster.step (.run p (.snapshot index data))).map fun cluster =>
        { g with cluster := cluster }.setRsm p { r with routines := r.routines.eraseIdx j }

/-- `DoOp` outside the log, as `SubmitLeaseReadWithMode` calls it. -/
def localRead (p : Fin n) (req : Req) : Option (Group n σ Req Res) :=
  let r := g.rsm p
  if r.ready then
    (sm.doOp r.sm req).map fun (state, _) => g.setRsm p { r with sm := state }
  else none

/-! ### Shutting down and starting again -/

def shutDown (p : Fin n) : Group n σ Req Res :=
  g.setRsm p { g.rsm p with shutdown := true }

def dismiss (p : Fin n) : Option (Group n σ Req Res) :=
  let r := g.rsm p
  if r.shutdown then
    let g := g.update fun k c =>
      if c.index.any (fun index => r.waitingOps index == some k) then c.send false else c
    some (g.setRsm p { r with waitingOps := fun _ => none })
  else none

def makeRSM (state : σ) (snapshot : Bytes) : Option (RSM n σ Req Res) :=
  if snapshot = [] then some { sm := state, ready := false }
  else
    (codec.decode snapshot).map fun (idctr, smSnapshot) =>
      { sm := sm.restore state smSnapshot, idCounter := idctr, ready := false }

/-- A crash, and a new process over what the crash has left of the Raft state. -/
def restart (p : Fin n) (id : Option Nat) (state : σ) : Option (Group n σ Req Res) :=
  (g.cluster.step (.crash p id)).bind fun cluster =>
    (makeRSM sm codec state (cluster.node p).persister.readSnapshot).map fun r =>
      ({ g with cluster := cluster }.update fun _ c => if c.oper.me = p then c.lose else c).setRsm
        p r

/-- The rest of `MakeRSM`.  What `recoverFromWAL` executes and the index it returns are left
open; `none` stands for a disabled WAL. -/
def recover (p : Fin n) (wal : Option (List Req × Nat)) : Option (Group n σ Req Res) :=
  let r := g.rsm p
  if r.ready then none
  else
    match wal with
    | none => some (g.setRsm p { r with ready := true })
    | some (reqs, index) =>
      (reqs.foldlM (fun state req => (sm.doOp state req).map Prod.fst) r.sm).map fun state =>
        let nd := g.cluster.node p
        let cluster := g.cluster.setNode p { nd with rf := nd.rf.syncAppliedIndex index }
        { g with cluster := cluster }.setRsm p { r with sm := state, ready := true }

/-! ### The system -/

def internal {Cmd : Type} : OrbisKV.Action n Cmd → Bool
  | .run _ (.start _) => false
  | .run _ (.snapshot _ _) => false
  | .crash _ _ => false
  | _ => true

inductive Action (n : Nat) (σ Req : Type)
  | submit (p : Fin n) (req : Req)
  | start (k : Nat)
  | register (k : Nat)
  | receive (k : Nat)
  | giveUp (k : Nat)
  | finish (k : Nat)
  | receiveMsg (p : Fin n)
  | finishMsg (p : Fin n) (wants : Bool)
  | createSnapshot (p : Fin n) (j : Nat)
  | localRead (p : Fin n) (req : Req)
  | shutDown (p : Fin n)
  | dismiss (p : Fin n)
  | restart (p : Fin n) (id : Option Nat) (state : σ)
  | recover (p : Fin n) (wal : Option (List Req × Nat))
  | raft (a : OrbisKV.Action n (Command n Req))

def step : Action n σ Req → Option (Group n σ Req Res)
  | .submit p req => g.submit p req
  | .start k => g.start k
  | .register k => g.register k
  | .receive k => g.receive k
  | .giveUp k => g.giveUp k
  | .finish k => g.finish k
  | .receiveMsg p => g.receiveMsg sm codec p
  | .finishMsg p wants => g.finishMsg sm p wants
  | .createSnapshot p j => g.createSnapshot sm codec p j
  | .localRead p req => g.localRead sm p req
  | .shutDown p => some (g.shutDown p)
  | .dismiss p => g.dismiss p
  | .restart p id state => g.restart sm codec p id state
  | .recover p wal => g.recover sm p wal
  | .raft a =>
    if internal a then (g.cluster.step a).map fun cluster => { g with cluster := cluster }
    else none

def boot (state : Fin n → σ) : Group n σ Req Res :=
  ⟨Cluster.boot, fun p => { sm := state p }, [], []⟩

def system (state : Fin n → σ) : Lib.System (Group n σ Req Res) (Action n σ Req) where
  init g := g = boot state
  step g := g.step sm codec

end Group

end OrbisKV.KV
