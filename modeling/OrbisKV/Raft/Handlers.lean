import OrbisKV.Raft.State
/-!
# The critical sections of a Raft node

Each function here is one section of `raft.go` that runs under `rf.mu`: what it
makes of the node, what it answers, and which persist request it enqueues.
-/

namespace OrbisKV

open Function

structure HardState (n : Nat) where
  currentTerm : Nat
  votedFor : Option (Fin n)
deriving DecidableEq, Repr

/-- What `encodePersistentStateIncrementalLocked` writes, header and entries. -/
structure RaftState (n : Nat) (Cmd : Type) where
  currentTerm : Nat
  votedFor : Option (Fin n)
  lastIncludedIndex : Nat
  lastIncludedTerm : Nat
  log : RaftLog Cmd
deriving DecidableEq, Repr

/-- The persist request that `AppendEntries` enqueues before it unlocks. -/
inductive Enqueued
  | nothing
  | hardState
  | raftState
deriving DecidableEq, Repr

/-- What a per-peer goroutine of `sendHeartbeats` puts on the wire. -/
inductive Request (n : Nat) (Cmd : Type)
  | append (args : AppendEntriesArgs n Cmd)
  | install (args : InstallSnapshotArgs n)
deriving DecidableEq, Repr

namespace Raft

variable {n : Nat} {Cmd : Type} (rf : Raft n Cmd)

def hardState : HardState n := ⟨rf.currentTerm, rf.votedFor⟩

def raftState : RaftState n Cmd :=
  ⟨rf.currentTerm, rf.votedFor, rf.lastIncludedIndex, rf.lastIncludedTerm, rf.log⟩

def stepDown (term : Nat) : Raft n Cmd :=
  { rf with currentTerm := term, state := .follower, votedFor := none }

/-- The handlers of RPCs run it after they have turned down older terms. -/
def catchUp (term : Nat) : Raft n Cmd :=
  if rf.currentTerm < term then rf.stepDown term else rf

/-! ## RequestVote -/

def outdated (args : RequestVoteArgs n) : Bool :=
  args.lastLogTerm < rf.getLastLogTerm ||
    (args.lastLogTerm == rf.getLastLogTerm && args.lastLogIndex < rf.getLastLogIndex)

/-- The flag says that the handler enqueues the hard state and waits for it. -/
def requestVote (args : RequestVoteArgs n) : Raft n Cmd × RequestVoteReply × Bool :=
  if args.term < rf.currentTerm then (rf, ⟨rf.currentTerm, false⟩, false)
  else
    let persistNeeded : Bool := rf.currentTerm < args.term
    let rf := rf.catchUp args.term
    if rf.outdated args then (rf, ⟨rf.currentTerm, false⟩, persistNeeded)
    else if rf.votedFor = none ∨ rf.votedFor = some args.candidateId then
      ({ rf with votedFor := some args.candidateId }, ⟨rf.currentTerm, true⟩, true)
    else (rf, ⟨rf.currentTerm, false⟩, persistNeeded)

/-! ## AppendEntries -/

/-- The loop that looks for the first index of the conflicting term. -/
def firstIndexOfTerm (term : Nat) : Nat → Nat
  | 0 => 0
  | index + 1 =>
    if rf.lastIncludedIndex < index + 1 ∧ rf.getTerm index = term then
      firstIndexOfTerm term index
    else index + 1

/-- Steps 6 and 7: skip the entries that are there already, cut the log at the
first conflict, append the rest.  The flag is `persistNeeded`. -/
def mergeEntries : Nat → List (LogEntry Cmd) → RaftLog Cmd × Bool
  | _, [] => (rf.log, false)
  | index, e :: es =>
    if rf.getLastLogIndex < index then (rf.log.append (e :: es), true)
    else if rf.getTerm index ≠ e.term then
      ((rf.log.cut (max (index - rf.lastIncludedIndex) 1)).append (e :: es), true)
    else mergeEntries (index + 1) es

def learnCommit (leaderCommit : Nat) : Raft n Cmd :=
  if rf.commitIndex < leaderCommit then
    { rf with commitIndex := min leaderCommit rf.getLastLogIndex }
  else rf

/-- Steps 4 and 5: the follower cannot place the entries after `prevLogIndex`. -/
def mismatch (args : AppendEntriesArgs n Cmd) : Option (Int × Nat) :=
  if rf.getLastLogIndex < args.prevLogIndex then some (-1, rf.getLastLogIndex + 1)
  else if args.prevLogIndex < rf.lastIncludedIndex then some (-1, rf.lastIncludedIndex + 1)
  else if rf.getTerm args.prevLogIndex ≠ args.prevLogTerm then
    some (rf.getTerm args.prevLogIndex,
      rf.firstIndexOfTerm (rf.getTerm args.prevLogIndex) args.prevLogIndex)
  else none

/-- Steps 1 to 3: the term check, after which the node is a follower. -/
def acceptTerm (args : AppendEntriesArgs n Cmd) : Raft n Cmd :=
  { rf.catchUp args.term with state := .follower }

def appendEntries (args : AppendEntriesArgs n Cmd) : Raft n Cmd × AppendEntriesReply × Enqueued :=
  if args.term < rf.currentTerm then (rf, ⟨rf.currentTerm, false, 0, 0⟩, .nothing)
  else
    let hardPersist := if rf.currentTerm < args.term then Enqueued.hardState else .nothing
    let rf := rf.acceptTerm args
    match rf.mismatch args with
    | some (conflictTerm, conflictIndex) =>
      (rf, ⟨rf.currentTerm, false, conflictTerm, conflictIndex⟩, hardPersist)
    | none =>
      let (log, persistNeeded) := rf.mergeEntries (args.prevLogIndex + 1) args.entries
      ({ rf with log := log }.learnCommit args.leaderCommit, ⟨rf.currentTerm, true, 0, 0⟩,
        if persistNeeded then .raftState else hardPersist)

/-! ## Start, Snapshot, InstallSnapshot -/

/-- `none` where the node is not the leader. -/
def start (command : Option Cmd) : Option (Raft n Cmd) :=
  if rf.state = .leader then
    some { rf with log := rf.log.append [⟨rf.currentTerm, command⟩] }
  else none

/-- The outcome `none` is an index out of range; the flag says that the snapshot
is persisted. -/
def snapshot (index : Nat) : Option (Raft n Cmd × Bool) :=
  if index ≤ rf.lastIncludedIndex then some (rf, false)
  else if rf.commitIndex < index then some (rf, false)
  else
    let offset := index - rf.lastIncludedIndex
    match rf.log.get? offset with
    | none => none
    | some entry =>
      some ({ rf with
        log := rf.log.rebase entry.term offset
        lastIncludedIndex := index
        lastIncludedTerm := entry.term
        lastApplied := max rf.lastApplied index
        persistedIndex := max rf.persistedIndex index }, true)

/-- The log after an accepted snapshot: the entries behind it are kept when the log
agrees with it, otherwise all are dropped. -/
def logAfterInstall (args : InstallSnapshotArgs n) : RaftLog Cmd :=
  if args.lastIncludedIndex ≤ rf.getLastLogIndex ∧
      rf.getTerm args.lastIncludedIndex = args.lastIncludedTerm then
    rf.log.rebase args.lastIncludedTerm (args.lastIncludedIndex - rf.lastIncludedIndex)
  else .reset args.lastIncludedTerm

/-- The part of `InstallSnapshot` behind the check for an old snapshot. -/
def install (args : InstallSnapshotArgs n) : Raft n Cmd :=
  { rf with
    log := rf.logAfterInstall args
    lastIncludedIndex := args.lastIncludedIndex
    lastIncludedTerm := args.lastIncludedTerm
    commitIndex := max rf.commitIndex args.lastIncludedIndex
    lastApplied := max rf.lastApplied args.lastIncludedIndex
    persistedIndex := max rf.persistedIndex args.lastIncludedIndex }

/-- The flags say that the hard state was persisted, and that the snapshot was
installed. The term of the reply is read before the term check. -/
def installSnapshot (args : InstallSnapshotArgs n) :
    Raft n Cmd × InstallSnapshotReply × Bool × Bool :=
  if args.term < rf.currentTerm then (rf, ⟨rf.currentTerm⟩, false, false)
  else
    let reply : InstallSnapshotReply := ⟨rf.currentTerm⟩
    let higher : Bool := rf.currentTerm < args.term
    let rf := rf.catchUp args.term
    if args.lastIncludedIndex ≤ rf.lastIncludedIndex then (rf, reply, higher, false)
    else (rf.install args, reply, higher, true)

/-! ## Elections -/

def becomeLeader : Raft n Cmd :=
  { rf with
    state := .leader
    nextIndex := fun _ => rf.getLastLogIndex + 1
    matchIndex := fun i => if i = rf.me then rf.getLastLogIndex else 0 }

def startElection : Raft n Cmd × RequestVoteArgs n :=
  let rf := { rf with
    state := .candidate
    currentTerm := rf.currentTerm + 1
    votedFor := some rf.me
    votes := 1 }
  let rf := if n / 2 < rf.votes then rf.becomeLeader else rf
  (rf, ⟨rf.currentTerm, rf.me, rf.getLastLogIndex, rf.getLastLogTerm⟩)

def handleVoteResponse (reply : RequestVoteReply) : Raft n Cmd × Bool :=
  if rf.currentTerm < reply.term then (rf.stepDown reply.term, true)
  else if reply.term < rf.currentTerm then (rf, false)
  else if rf.state ≠ .candidate then (rf, false)
  else if reply.voteGranted then
    let rf := { rf with votes := rf.votes + 1 }
    (if n / 2 < rf.votes then rf.becomeLeader else rf, false)
  else (rf, false)

/-! ## The per-peer goroutines of sendHeartbeats -/

/-- The section that fills in the request.  Nothing is sent when the snapshot is
missing; the outcome `none` is an index out of range.  Where `log[prevIndex]`
exists the slice `log[start:]` does too. -/
def buildRequest (server : Fin n) (snapshotData : Bytes) :
    Option (Raft n Cmd × Option (Request n Cmd)) :=
  if rf.nextIndex server ≤ rf.lastIncludedIndex then
    if snapshotData = [] then
      some ({ rf with
        nextIndex := update rf.nextIndex server (rf.lastIncludedIndex + 1) }, none)
    else
      some (rf, some (.install
        ⟨rf.currentTerm, rf.me, rf.lastIncludedIndex, rf.lastIncludedTerm, snapshotData⟩))
  else
    let prevIndex := rf.nextIndex server - 1
    let prevTerm := if prevIndex = rf.lastIncludedIndex then some rf.lastIncludedTerm
      else (rf.log.get? (prevIndex - rf.lastIncludedIndex)).map LogEntry.term
    let start := rf.nextIndex server - rf.lastIncludedIndex
    prevTerm.map fun prevTerm => (rf, some (.append
      ⟨rf.currentTerm, rf.me, prevIndex, prevTerm, rf.log.toList.drop start, rf.commitIndex⟩))

/-- The loop that looks for the last entry of a term, from position `i` down. -/
def lastIndexOfTerm (term : Int) : Nat → Option Nat
  | 0 => none
  | i + 1 =>
    if ((rf.log.get? i).map fun e => (e.term : Int)) = some term then
      some (rf.lastIncludedIndex + i)
    else lastIndexOfTerm term i

def backUp (reply : AppendEntriesReply) : Nat :=
  max 1 <|
    if reply.conflictTerm = -1 then reply.conflictIndex
    else
      match rf.lastIndexOfTerm reply.conflictTerm rf.log.len with
      | some lastIndex => lastIndex + 1
      | none => reply.conflictIndex

/-- The replicas known to hold index `N`; the leader counts itself only when the
entry is on its own disk. -/
def countReplicas (N : Nat) : Nat :=
  (if N ≤ rf.persistedIndex then 1 else 0) +
    (Finset.univ.filter fun i => i ≠ rf.me ∧ N ≤ rf.matchIndex i).card

def advanceCommit : Nat → Raft n Cmd
  | 0 => rf
  | N + 1 =>
    if N + 1 ≤ rf.commitIndex then rf
    else if N + 1 = rf.lastIncludedIndex ∨ rf.getTerm (N + 1) ≠ rf.currentTerm then
      advanceCommit N
    else if n / 2 < rf.countReplicas (N + 1) then { rf with commitIndex := N + 1 }
    else advanceCommit N

def noteReply (server : Fin n) (args : AppendEntriesArgs n Cmd) (reply : AppendEntriesReply) :
    Raft n Cmd :=
  if reply.success then
    let matched := args.prevLogIndex + args.entries.length
    { rf with
      matchIndex := update rf.matchIndex server matched
      nextIndex := update rf.nextIndex server (matched + 1) }
  else { rf with nextIndex := update rf.nextIndex server (rf.backUp reply) }

/-- The section that handles the reply of `AppendEntries`. The flag says that the
hard state was persisted. -/
def handleAppendReply (server : Fin n) (args : AppendEntriesArgs n Cmd)
    (reply : AppendEntriesReply) : Raft n Cmd × Bool :=
  if rf.state ≠ .leader ∨ args.term ≠ rf.currentTerm then (rf, false)
  else if rf.currentTerm < reply.term then (rf.stepDown reply.term, true)
  else
    let rf := rf.noteReply server args reply
    (rf.advanceCommit rf.getLastLogIndex, false)

def handleInstallReply (server : Fin n) (reply : InstallSnapshotReply) : Raft n Cmd × Bool :=
  if rf.currentTerm < reply.term then (rf.stepDown reply.term, true)
  else
    ({ rf with
      nextIndex := update rf.nextIndex server (rf.lastIncludedIndex + 1)
      matchIndex := update rf.matchIndex server rf.lastIncludedIndex }, false)

/-! ## The applier -/

def collect : Nat → Raft n Cmd → Raft n Cmd × List (ApplyMsg Cmd)
  | 0, rf => (rf, [])
  | fuel + 1, rf =>
    if rf.lastApplied < rf.commitIndex ∧ rf.lastApplied < rf.persistedIndex then
      let index := rf.lastApplied + 1
      if index ≤ rf.lastIncludedIndex then collect fuel { rf with lastApplied := index }
      else
        match rf.log.get? (index - rf.lastIncludedIndex) with
        | none => (rf, [])
        | some entry =>
          let (rf, msgs) := collect fuel { rf with lastApplied := index }
          (rf, .command entry.command index :: msgs)
    else (rf, [])

/-- Every round raises `LastApplied`, so the loop is over after `CommitIndex` rounds. -/
def applier : Raft n Cmd × List (ApplyMsg Cmd) := collect rf.commitIndex rf

/-! ## Start-up -/

def readPersist : Option (RaftState n Cmd) → Raft n Cmd
  | none => rf
  | some data =>
    { rf with
      currentTerm := data.currentTerm
      votedFor := data.votedFor
      log := data.log
      lastIncludedIndex := data.lastIncludedIndex
      lastIncludedTerm := data.lastIncludedTerm }

def readHardState : Option (HardState n) → Raft n Cmd
  | none => rf
  | some hs =>
    if rf.currentTerm < hs.currentTerm ∨
        (hs.currentTerm = rf.currentTerm ∧ hs.votedFor ≠ none) then
      { rf with currentTerm := hs.currentTerm, votedFor := hs.votedFor }
    else rf

def fresh (me : Fin n) : Raft n Cmd where
  me := me
  votes := 0
  state := .follower
  currentTerm := 0
  votedFor := none
  log := .reset 0
  commitIndex := 0
  lastApplied := 0
  persistedIndex := 0
  nextIndex := fun _ => 0
  matchIndex := fun _ => 0
  lastIncludedIndex := 0
  lastIncludedTerm := 0

def make (me : Fin n) (state : Option (RaftState n Cmd)) (hard : Option (HardState n)) :
    Raft n Cmd :=
  let rf := ((fresh me).readPersist state).readHardState hard
  { rf with
    commitIndex := rf.lastIncludedIndex
    lastApplied := rf.lastIncludedIndex
    persistedIndex := rf.lastIncludedIndex + rf.log.len - 1 }

/-- `SyncAppliedIndex`, after the service has recovered on its own. -/
def syncAppliedIndex (index : Nat) : Raft n Cmd :=
  let index := max index rf.lastIncludedIndex
  let index := min index rf.getLastLogIndex
  { rf with commitIndex := max rf.commitIndex index, lastApplied := max rf.lastApplied index }

/-! ## What the loops change -/

theorem learnCommit_eq (leaderCommit : Nat) :
    ∃ k, rf.learnCommit leaderCommit = { rf with commitIndex := k } := by
  unfold learnCommit
  split
  · exact ⟨_, rfl⟩
  · exact ⟨rf.commitIndex, rfl⟩

theorem advanceCommit_eq (N : Nat) : ∃ k, rf.advanceCommit N = { rf with commitIndex := k } := by
  induction N with
  | zero => exact ⟨rf.commitIndex, rfl⟩
  | succ N ih =>
    unfold advanceCommit
    split
    · exact ⟨rf.commitIndex, rfl⟩
    · split
      · exact ih
      · split
        · exact ⟨N + 1, rfl⟩
        · exact ih

theorem collect_eq (fuel : Nat) (rf : Raft n Cmd) :
    ∃ k, (collect fuel rf).1 = { rf with lastApplied := k } := by
  induction fuel generalizing rf with
  | zero => exact ⟨rf.lastApplied, rfl⟩
  | succ fuel ih =>
    unfold collect
    split
    · dsimp only
      split
      · exact ih _
      · split
        · exact ⟨rf.lastApplied, rfl⟩
        · exact ih _
    · exact ⟨rf.lastApplied, rfl⟩

theorem mem_collect {fuel : Nat} {rf : Raft n Cmd} {command : Option Cmd} {index : Nat}
    (h : .command command index ∈ (collect fuel rf).2) :
    rf.lastIncludedIndex < index ∧ index ≤ rf.commitIndex ∧ index ≤ rf.persistedIndex ∧
      ∃ entry, rf.entryAt index = some entry ∧ entry.command = command := by
  induction fuel generalizing rf with
  | zero => cases h
  | succ fuel ih =>
    unfold collect at h
    split at h
    · rename_i hmore
      dsimp only at h
      split at h
      · have hrest := ih h
        exact hrest
      · rename_i habove
        split at h
        · cases h
        · rename_i entry hent
          rcases List.mem_cons.mp h with heq | h
          · cases heq
            refine ⟨by omega, by omega, by omega, entry, ?_, rfl⟩
            rw [entryAt, if_neg habove]
            exact hent
          · have hrest := ih h
            exact hrest
    · cases h

section

variable (server : Fin n) (args : AppendEntriesArgs n Cmd) (reply : AppendEntriesReply)

include server args reply

theorem noteReply_eq : ∃ next matched,
      rf.noteReply server args reply = { rf with nextIndex := next, matchIndex := matched } := by
  unfold noteReply
  split <;> exact ⟨_, _, rfl⟩

theorem handleAppendReply_cases :
    rf.handleAppendReply server args reply = (rf, false) ∨
    (args.term = rf.currentTerm ∧ rf.currentTerm < reply.term ∧
      rf.handleAppendReply server args reply = (rf.stepDown reply.term, true)) ∨
    (rf.state = .leader ∧ args.term = rf.currentTerm ∧ rf.handleAppendReply server args reply =
        ((rf.noteReply server args reply).advanceCommit rf.getLastLogIndex, false) ∧
      ∃ next matched commit, (rf.noteReply server args reply).advanceCommit rf.getLastLogIndex =
          { rf with nextIndex := next, matchIndex := matched, commitIndex := commit }) := by
  unfold handleAppendReply
  split
  · exact Or.inl rfl
  · rename_i hlead
    push Not at hlead
    split
    · exact Or.inr (Or.inl ⟨hlead.2, ‹_›, rfl⟩)
    · obtain ⟨next, matched, hnote⟩ := rf.noteReply_eq server args reply
      obtain ⟨k, hk⟩ := (rf.noteReply server args reply).advanceCommit_eq rf.getLastLogIndex
      refine Or.inr (Or.inr ⟨hlead.1, hlead.2, ?_, next, matched, k, ?_⟩)
      · dsimp only
        rw [hnote]
        rfl
      · rw [hk, hnote]

end

end Raft

end OrbisKV
