import OrbisKV.Lib.TermLog
import Mathlib.Data.Fintype.Card
import Mathlib.Logic.Function.Basic
/-!
# The data of a Raft node

The fields of `Raft` that the protocol reads and the arguments and replies of its
three RPCs.
-/

namespace OrbisKV

/-- File and snapshot contents. -/
abbrev Bytes := List UInt8

inductive Role
  | follower
  | candidate
  | leader
deriving DecidableEq, Repr

structure LogEntry (Cmd : Type) where
  term : Nat
  command : Option Cmd
deriving DecidableEq, Repr

/-- The slice `rf.log`, which is never empty: `log[0]` is the dummy entry at
`lastIncludedIndex`. -/
structure RaftLog (Cmd : Type) where
  dummy : LogEntry Cmd
  entries : List (LogEntry Cmd)
deriving DecidableEq, Repr

namespace RaftLog

variable {Cmd : Type}

def reset (term : Nat) : RaftLog Cmd := ⟨⟨term, none⟩, []⟩

def toList (log : RaftLog Cmd) : List (LogEntry Cmd) := log.dummy :: log.entries

def len (log : RaftLog Cmd) : Nat := log.toList.length

/-- `rf.log[k]`, `none` where the index is out of range. -/
def get? (log : RaftLog Cmd) (k : Nat) : Option (LogEntry Cmd) := log.toList[k]?

def cut (log : RaftLog Cmd) (k : Nat) : RaftLog Cmd :=
  { log with entries := log.entries.take (k - 1) }

def append (log : RaftLog Cmd) (es : List (LogEntry Cmd)) : RaftLog Cmd :=
  { log with entries := log.entries ++ es }

def rebase (log : RaftLog Cmd) (term offset : Nat) : RaftLog Cmd :=
  ⟨⟨term, none⟩, log.entries.drop offset⟩

@[simp] theorem len_eq (log : RaftLog Cmd) : log.len = log.entries.length + 1 := rfl

@[simp] theorem get?_succ (log : RaftLog Cmd) (k : Nat) : log.get? (k + 1) = log.entries[k]? := rfl

theorem get?_of_pos (log : RaftLog Cmd) {k : Nat} (h : 0 < k) :
    log.get? k = log.entries[k - 1]? := by
  obtain ⟨j, rfl⟩ := Nat.exists_eq_add_of_lt h
  simp

@[simp] theorem reset_entries (term : Nat) : (reset term : RaftLog Cmd).entries = [] := rfl

@[simp] theorem cut_entries (log : RaftLog Cmd) (k : Nat) :
    (log.cut k).entries = log.entries.take (k - 1) := rfl

@[simp] theorem append_entries (log : RaftLog Cmd) (es : List (LogEntry Cmd)) :
    (log.append es).entries = log.entries ++ es := rfl

@[simp] theorem rebase_entries (log : RaftLog Cmd) (term offset : Nat) :
    (log.rebase term offset).entries = log.entries.drop offset := rfl

end RaftLog

structure Raft (n : Nat) (Cmd : Type) where
  me : Fin n
  votes : Nat
  state : Role
  currentTerm : Nat
  votedFor : Option (Fin n)
  log : RaftLog Cmd
  commitIndex : Nat
  lastApplied : Nat
  persistedIndex : Nat
  nextIndex : Fin n → Nat
  matchIndex : Fin n → Nat
  lastIncludedIndex : Nat
  lastIncludedTerm : Nat

namespace Raft

variable {n : Nat} {Cmd : Type}

def getLastLogIndex (rf : Raft n Cmd) : Nat := rf.lastIncludedIndex + rf.log.len - 1

/-- The source panics where `rf.log` has no such position; every caller has
compared the index with `getLastLogIndex` before. -/
def getTerm (rf : Raft n Cmd) (index : Nat) : Nat :=
  if index ≤ rf.lastIncludedIndex then rf.lastIncludedTerm
  else ((rf.log.get? (index - rf.lastIncludedIndex)).map LogEntry.term).getD 0

def getLastLogTerm (rf : Raft n Cmd) : Nat := rf.getTerm rf.getLastLogIndex

theorem getLastLogIndex_eq (rf : Raft n Cmd) :
    rf.getLastLogIndex = rf.lastIncludedIndex + rf.log.entries.length := by
  simp [getLastLogIndex]

def entryAt (rf : Raft n Cmd) (index : Nat) : Option (LogEntry Cmd) :=
  if index ≤ rf.lastIncludedIndex then none else rf.log.get? (index - rf.lastIncludedIndex)

end Raft

structure RequestVoteArgs (n : Nat) where
  term : Nat
  candidateId : Fin n
  lastLogIndex : Nat
  lastLogTerm : Nat
deriving DecidableEq, Repr

structure RequestVoteReply where
  term : Nat
  voteGranted : Bool
deriving DecidableEq, Repr

structure AppendEntriesArgs (n : Nat) (Cmd : Type) where
  term : Nat
  leaderId : Fin n
  prevLogIndex : Nat
  prevLogTerm : Nat
  entries : List (LogEntry Cmd)
  leaderCommit : Nat
deriving DecidableEq, Repr

/-- A reply starts with zero values; `ConflictTerm = -1` says that the log of the
follower does not reach the previous index. -/
structure AppendEntriesReply where
  term : Nat
  success : Bool
  conflictTerm : Int
  conflictIndex : Nat
deriving DecidableEq, Repr

structure InstallSnapshotArgs (n : Nat) where
  term : Nat
  leaderId : Fin n
  lastIncludedIndex : Nat
  lastIncludedTerm : Nat
  data : Bytes
deriving DecidableEq, Repr

structure InstallSnapshotReply where
  term : Nat
deriving DecidableEq, Repr

inductive ApplyMsg (Cmd : Type)
  | command (command : Option Cmd) (commandIndex : Nat)
  | snapshot (snapshot : Bytes) (snapshotTerm snapshotIndex : Nat)
deriving DecidableEq, Repr

end OrbisKV
