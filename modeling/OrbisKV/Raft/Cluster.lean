import OrbisKV.Lib.Transition
import OrbisKV.Raft.Handlers
/-!
# A cluster of Raft nodes

The steps of the system are the sections of the nodes, one at a time, in any order.
-/

namespace OrbisKV

/-- A request for the whole Raft state.  An incremental request stands for the state
it leads to. -/
structure SaveRequest (n : Nat) (Cmd : Type) where
  state : RaftState n Cmd
  snapshot : Bytes
  done : Bool
deriving DecidableEq, Repr

def SaveRequest.fire {n : Nat} {Cmd : Type} (r : SaveRequest n Cmd) : SaveRequest n Cmd :=
  { r with done := true }

structure Persister (n : Nat) (Cmd : Type) where
  found : Option (RaftState n Cmd)
  foundSnapshot : Bytes
  saves : List (SaveRequest n Cmd)
  hardStates : List (HardState n)
  hardDone : Nat
deriving DecidableEq, Repr

namespace Persister

variable {n : Nat} {Cmd : Type}

def empty : Persister n Cmd := ⟨none, [], [], [], 0⟩

def enqueueSave (ps : Persister n Cmd) (state : RaftState n Cmd) : Persister n Cmd :=
  { ps with saves := ps.saves ++ [⟨state, [], false⟩] }

/-- `rf.persist`, which waits for the disk while it holds the lock. -/
def save (ps : Persister n Cmd) (state : RaftState n Cmd) (snapshot : Bytes) : Persister n Cmd :=
  { ps with saves := ps.saves ++ [⟨state, snapshot, true⟩] }

def enqueueHardState (ps : Persister n Cmd) (hs : HardState n) : Persister n Cmd :=
  { ps with hardStates := ps.hardStates ++ [hs] }

/-- `rf.persistHardState`, which waits for the disk while it holds the lock. -/
def saveHardState (ps : Persister n Cmd) (hs : HardState n) : Persister n Cmd :=
  { ps with hardStates := ps.hardStates ++ [hs], hardDone := ps.hardStates.length + 1 }

def finishSave (ps : Persister n Cmd) (id : Nat) : Persister n Cmd :=
  { ps with saves := ps.saves.modify id SaveRequest.fire }

/-- The state produced by the requests whose done channel has fired. -/
def durable (ps : Persister n Cmd) : Option (RaftState n Cmd) :=
  match (ps.saves.filter (·.done)).getLast? with
  | some r => some r.state
  | none => ps.found

def readSnapshot (ps : Persister n Cmd) : Bytes :=
  match (ps.saves.filter fun r => r.done && !r.snapshot.isEmpty).getLast? with
  | some r => r.snapshot
  | none => ps.foundSnapshot

def durableHardStates (ps : Persister n Cmd) : List (HardState n) :=
  ps.hardStates.take ps.hardDone

def readHardState (ps : Persister n Cmd) : Option (HardState n) :=
  ps.durableHardStates.getLast?

/-- What a crash leaves behind.  The state file may hold any request that was
enqueued, or be the one found at the last start. -/
def afterCrash (ps : Persister n Cmd) (id : Option Nat) : Option (Persister n Cmd) :=
  match id with
  | none => some ⟨ps.found, ps.foundSnapshot, [], ps.durableHardStates, ps.hardDone⟩
  | some id =>
    (ps.saves[id]?).map fun r =>
      let kept := { ps with saves := (ps.saves.take (id + 1)).map SaveRequest.fire }
      ⟨some r.state, kept.readSnapshot, [], ps.durableHardStates, ps.hardDone⟩

end Persister

/-- What an `AppendEntries` handler waits for after it has unlocked. -/
inductive Wait
  | nothing
  | hardState (id : Nat)
  | raftState (id logCount : Nat)
deriving DecidableEq, Repr

inductive CallBody (n : Nat) (Cmd : Type)
  | voteRequested (args : RequestVoteArgs n)
  | voteServing (args : RequestVoteArgs n) (reply : RequestVoteReply) (wait : Option Nat)
  | voteReplied (args : RequestVoteArgs n) (reply : RequestVoteReply)
  /-- A per-peer goroutine of `sendHeartbeats` that has not taken the lock yet. -/
  | spawned
  | appendRequested (args : AppendEntriesArgs n Cmd)
  | appendServing (args : AppendEntriesArgs n Cmd) (reply : AppendEntriesReply) (wait : Wait)
  | appendReturning (args : AppendEntriesArgs n Cmd) (reply : AppendEntriesReply)
  | appendReplied (args : AppendEntriesArgs n Cmd) (reply : AppendEntriesReply)
  | installRequested (args : InstallSnapshotArgs n)
  | installSending (args : InstallSnapshotArgs n) (reply : InstallSnapshotReply)
      (msg : ApplyMsg Cmd)
  | installReplied (args : InstallSnapshotArgs n) (reply : InstallSnapshotReply)
deriving DecidableEq, Repr

structure Node (n : Nat) (Cmd : Type) where
  rf : Raft n Cmd
  persister : Persister n Cmd
  /-- The ticker has found the election timer expired and will call `startElection`. -/
  needStart : Bool
  /-- The goroutines of `completePersistAsync`: request and covered index. -/
  completions : List (Nat × Nat)
  unsent : List (ApplyMsg Cmd)
  /-- The messages received on `applyCh`, oldest first. -/
  applied : List (ApplyMsg Cmd)

inductive Section (Cmd : Type)
  | tick
  | startElection
  | sendHeartbeats
  | start (command : Option Cmd)
  | completePersist (k : Nat)
  | snapshot (index : Nat) (data : Bytes)
  | applierCollect
  | applierSend
  | saveDone (id : Nat)
  | hardStateDone
deriving DecidableEq, Repr

namespace Node

variable {n : Nat} {Cmd : Type} (nd : Node n Cmd)

def make (me : Fin n) (ps : Persister n Cmd) : Node n Cmd where
  rf := Raft.make me ps.durable ps.readHardState
  persister := ps
  needStart := false
  completions := []
  unsent := []
  applied := []

/-- Leave the lock with a node whose hard state was persisted under it or not. -/
def settle (rf : Raft n Cmd) (persisted : Bool) : Node n Cmd :=
  { nd with
    rf := rf
    persister := if persisted then nd.persister.saveHardState rf.hardState else nd.persister }

/-- One section of the node's own goroutines, with the call that each peer is sent. -/
def act : Section Cmd → Option (Node n Cmd × Option (CallBody n Cmd))
  | .tick =>
    if nd.rf.state ≠ .leader then some ({ nd with needStart := true }, none) else none
  | .startElection =>
    if nd.needStart then
      let (rf, args) := nd.rf.startElection
      some ({ nd.settle rf true with needStart := false }, some (.voteRequested args))
    else none
  | .sendHeartbeats => if nd.rf.state = .leader then some (nd, some .spawned) else none
  | .start command =>
    (nd.rf.start command).map fun rf =>
      ({ nd with
        rf := rf
        persister := nd.persister.enqueueSave rf.raftState
        completions := nd.completions ++ [(nd.persister.saves.length, rf.getLastLogIndex)] }, none)
  | .completePersist k =>
    match nd.completions[k]? with
    | none => none
    | some (id, coveredIndex) =>
      if (nd.persister.saves[id]?).any (·.done) then
        some ({ nd with
          rf := { nd.rf with persistedIndex := max nd.rf.persistedIndex coveredIndex }
          completions := nd.completions.eraseIdx k }, none)
      else none
  | .snapshot index data =>
    (nd.rf.snapshot index).map fun (rf, taken) =>
      ({ nd with
        rf := rf
        persister := if taken then nd.persister.save rf.raftState data else nd.persister },
        none)
  | .applierCollect =>
    if nd.unsent = [] then
      let (rf, msgs) := nd.rf.applier
      some ({ nd with rf := rf, unsent := msgs }, none)
    else none
  | .applierSend =>
    match nd.unsent with
    | [] => none
    | msg :: rest => some ({ nd with unsent := rest, applied := nd.applied ++ [msg] }, none)
  | .saveDone id =>
    if id < nd.persister.saves.length then
      some ({ nd with persister := nd.persister.finishSave id }, none)
    else none
  | .hardStateDone =>
    if nd.persister.hardDone < nd.persister.hardStates.length then
      some ({ nd with
        persister := { nd.persister with hardDone := nd.persister.hardDone + 1 } }, none)
    else none

def finishVote (rf : Raft n Cmd) (args : RequestVoteArgs n) (reply : RequestVoteReply)
    (persistNeeded : Bool) : Node n Cmd × CallBody n Cmd :=
  if persistNeeded then
    ({ nd with rf := rf, persister := nd.persister.enqueueHardState rf.hardState },
      .voteServing args reply (some nd.persister.hardStates.length))
  else ({ nd with rf := rf }, .voteServing args reply none)

def finishAppend (rf : Raft n Cmd) (args : AppendEntriesArgs n Cmd)
    (reply : AppendEntriesReply) : Enqueued → Node n Cmd × CallBody n Cmd
  | .nothing => ({ nd with rf := rf }, .appendServing args reply .nothing)
  | .hardState =>
    ({ nd with rf := rf, persister := nd.persister.enqueueHardState rf.hardState },
      .appendServing args reply (.hardState nd.persister.hardStates.length))
  | .raftState =>
    ({ nd with rf := rf, persister := nd.persister.enqueueSave rf.raftState },
      .appendServing args reply (.raftState nd.persister.saves.length rf.log.len))

def waitOver : Wait → Bool
  | .nothing => true
  | .hardState id => id < nd.persister.hardDone
  | .raftState id _ => (nd.persister.saves[id]?).any (·.done)

/-- The section of `finalize` after the wait; the covered index is computed from the
snapshot index of this moment. -/
def notePersisted : Wait → Node n Cmd
  | .raftState _ logCount =>
    { nd with rf := { nd.rf with
      persistedIndex := max nd.rf.persistedIndex (nd.rf.lastIncludedIndex + logCount - 1) } }
  | _ => nd

def serve : CallBody n Cmd → Option (Node n Cmd × CallBody n Cmd)
  | .voteRequested args =>
    let (rf, reply, persistNeeded) := nd.rf.requestVote args
    some (nd.finishVote rf args reply persistNeeded)
  | .voteServing args reply wait =>
    if wait.all (· < nd.persister.hardDone) then some (nd, .voteReplied args reply) else none
  | .appendRequested args =>
    let (rf, reply, enqueued) := nd.rf.appendEntries args
    some (nd.finishAppend rf args reply enqueued)
  | .appendServing args reply wait =>
    if nd.waitOver wait then some (nd.notePersisted wait, .appendReturning args reply)
    else none
  | .appendReturning args reply => some (nd, .appendReplied args reply)
  | .installRequested args =>
    let (rf, reply, hardPersisted, installed) := nd.rf.installSnapshot args
    let nd := nd.settle rf hardPersisted
    if installed then
      some ({ nd with persister := nd.persister.save rf.raftState args.data },
        .installSending args reply (.snapshot args.data rf.lastIncludedTerm rf.lastIncludedIndex))
    else some (nd, .installReplied args reply)
  | .installSending args reply msg =>
    some ({ nd with applied := nd.applied ++ [msg] }, .installReplied args reply)
  | _ => none

/-- The next section of the goroutine that made the call, and what becomes of the
call. -/
def resume (peer : Fin n) : CallBody n Cmd → Option (Node n Cmd × Option (CallBody n Cmd))
  | .voteReplied _ reply =>
    let (rf, persisted) := nd.rf.handleVoteResponse reply
    some (nd.settle rf persisted, none)
  | .spawned =>
    (nd.rf.buildRequest peer nd.persister.readSnapshot).map fun (rf, request) =>
      ({ nd with rf := rf },
        match request with
        | none => none
        | some (.append args) => some (.appendRequested args)
        | some (.install args) => some (.installRequested args))
  | .appendReplied args reply =>
    let (rf, persisted) := nd.rf.handleAppendReply peer args reply
    some (nd.settle rf persisted, none)
  | .installReplied _ reply =>
    let (rf, persisted) := nd.rf.handleInstallReply peer reply
    some (nd.settle rf persisted, none)
  | _ => none

end Node

structure Call (n : Nat) (Cmd : Type) where
  src : Fin n
  dst : Fin n
  alive : Bool
  body : CallBody n Cmd
deriving DecidableEq, Repr

/-- A goroutine of the calling node, or a handler of the called one, is lost when
that node crashes; a message is not. -/
def Call.survives {n : Nat} {Cmd : Type} (c : Call n Cmd) (p : Fin n) : Bool :=
  match c.body with
  | .spawned => c.src ≠ p
  | .voteServing .. | .appendServing .. | .appendReturning .. | .installSending .. =>
    c.dst ≠ p
  | _ => true

def Call.orphan {n : Nat} {Cmd : Type} (c : Call n Cmd) (p : Fin n) : Call n Cmd :=
  { c with alive := c.alive && c.src ≠ p }

structure Cluster (n : Nat) (Cmd : Type) where
  node : Fin n → Node n Cmd
  calls : List (Call n Cmd)

inductive Action (n : Nat) (Cmd : Type)
  | run (p : Fin n) (sec : Section Cmd)
  | serve (i : Nat)
  | resume (i : Nat)
  | crash (p : Fin n) (id : Option Nat)
deriving DecidableEq, Repr

namespace Cluster

variable {n : Nat} {Cmd : Type} (s : Cluster n Cmd)

def peers (p : Fin n) : List (Fin n) := (List.finRange n).filter (· ≠ p)

def spawn (p : Fin n) : Option (CallBody n Cmd) → List (Call n Cmd)
  | none => []
  | some body => (peers p).map fun q => ⟨p, q, true, body⟩

def setNode (p : Fin n) (nd : Node n Cmd) : Cluster n Cmd :=
  { s with node := Function.update s.node p nd }

/-- What becomes of call `i`: it goes on with a new body or is over. -/
def setCall (i : Nat) (c : Call n Cmd) : Option (CallBody n Cmd) → Cluster n Cmd
  | some body => { s with calls := s.calls.set i { c with body := body } }
  | none => { s with calls := s.calls.eraseIdx i }

/-- One step; `none` where the section cannot run. -/
def step : Action n Cmd → Option (Cluster n Cmd)
  | .run p sec =>
    ((s.node p).act sec).map fun (nd, body) =>
      { s.setNode p nd with calls := s.calls ++ spawn p body }
  | .serve i =>
    (s.calls[i]?).bind fun c =>
      ((s.node c.dst).serve c.body).map fun (nd, body) =>
        (s.setNode c.dst nd).setCall i c (some body)
  | .resume i =>
    (s.calls[i]?).bind fun c =>
      if c.alive then
        ((s.node c.src).resume c.dst c.body).map fun (nd, body) =>
          (s.setNode c.src nd).setCall i c body
      else none
  | .crash p id =>
    ((s.node p).persister.afterCrash id).map fun ps =>
      { node := Function.update s.node p (Node.make p ps)
        calls := (s.calls.filter (·.survives p)).map (·.orphan p) }

def boot : Cluster n Cmd := ⟨fun p => Node.make p .empty, []⟩

def system (n : Nat) (Cmd : Type) : Lib.System (Cluster n Cmd) (Action n Cmd) where
  init s := s = boot
  step := step

def electFirst : List (Action 3 Nat) :=
  [.run 0 .tick, .run 0 .startElection, .serve 0, .run 1 .hardStateDone, .serve 0, .resume 0]

end Cluster

end OrbisKV
