import OrbisKV.Lib.Transition
import OrbisKV.Raft.PersistCache
/-!
# Incremental persistence

The handlers of a node change the log, mark the place from which it is dirty, and enqueue what
the encoder makes of it.
-/

namespace OrbisKV.Incremental

open Lib Encoding List

namespace Node

variable {Cmd : Type} (codec : CommandCodec Cmd) (rf : Node Cmd)

def getLastLogIndex : Int64 := rf.lastIncludedIndex + Int64.ofNat rf.log.length - 1

/-- `rf.log[pos]`, `none` where it panics. -/
def entryAt (pos : Int64) : Option (Entry Cmd) :=
  if pos < 0 then none else rf.log[pos.toInt.toNat]?

def getTerm (index : Int64) : Option Int64 :=
  if index ≤ rf.lastIncludedIndex then some rf.lastIncludedTerm
  else (rf.entryAt (index - rf.lastIncludedIndex)).map Entry.term

def start (command : Option Cmd) : Option (Node Cmd) :=
  if rf.state ≠ .leader then none
  else
    let entry := ensureEntryCommandEncoded codec ⟨rf.currentTerm, command, []⟩
    let rf := rf.markPersistDirtyFrom rf.log.length
    { rf with log := rf.log ++ [entry] }.enqueueLater codec

/-- The arguments of `AppendEntries`. -/
structure AppendEntriesArgs (Cmd : Type) where
  term : Int64
  prevLogIndex : Int64
  prevLogTerm : Int64
  entries : List (Int64 × Option Cmd)
  leaderCommit : Int64

def cutAt (index : Int64) : Nat :=
  let cut := index - rf.lastIncludedIndex
  (if cut < 1 then 1 else cut).toInt.toNat

/-- Step 6 of `AppendEntries` from the entry at `index` on: the node, the entries that are
left to append, and whether the log was cut. -/
def dropConflicts (index : Int64) :
    List (Int64 × Option Cmd) → Option (Node Cmd × List (Int64 × Option Cmd) × Bool)
  | [] => some (rf, [], false)
  | entry :: entries =>
    if rf.getLastLogIndex < index then some (rf, entry :: entries, false)
    else
      match rf.getTerm index with
      | none => none
      | some term =>
        if term = entry.1 then dropConflicts (index + 1) entries
        else if rf.cutAt index < rf.log.length then
          some ({ rf.markPersistDirtyFrom (rf.cutAt index) with
            log := rf.log.take (rf.cutAt index) }, entry :: entries, true)
        else some (rf, entry :: entries, false)

def appendNew (entries : List (Int64 × Option Cmd)) : Node Cmd :=
  let rf := rf.markPersistDirtyFrom rf.log.length
  { rf with log := rf.log ++ entries.map fun entry =>
      ensureEntryCommandEncoded codec ⟨entry.1, entry.2, []⟩ }

def learnCommit (leaderCommit : Int64) : Node Cmd :=
  if rf.commitIndex < leaderCommit then
    { rf with commitIndex := min leaderCommit rf.getLastLogIndex }
  else rf

def acceptTerm (term : Int64) : Node Cmd :=
  if rf.currentTerm < term then { rf with currentTerm := term, votedFor := -1, state := .follower }
  else { rf with state := .follower }

/-- `AppendEntries` without its reply. -/
def appendEntries (args : AppendEntriesArgs Cmd) : Option (Node Cmd) :=
  if args.term < rf.currentTerm then some rf
  else
    let rf := rf.acceptTerm args.term
    if rf.getLastLogIndex < args.prevLogIndex ∨ args.prevLogIndex < rf.lastIncludedIndex then
      some rf
    else
      match rf.getTerm args.prevLogIndex with
      | none => none
      | some term =>
        if term ≠ args.prevLogTerm then some rf
        else
          match rf.dropConflicts (args.prevLogIndex + 1) args.entries with
          | none => none
          | some (rf, entries, cut) =>
            if entries.isEmpty && !cut then some (rf.learnCommit args.leaderCommit)
            else
              let rf := if entries.isEmpty then rf else rf.appendNew codec entries
              (rf.enqueueLater codec).map fun rf => rf.learnCommit args.leaderCommit

def rebase (lastIncludedIndex lastIncludedTerm : Int64) (log : List (Entry Cmd)) : Node Cmd :=
  let rf := { rf with log := ⟨lastIncludedTerm, none, []⟩ :: log }.markPersistDirtyFrom 0
  { rf with lastIncludedIndex := lastIncludedIndex, lastIncludedTerm := lastIncludedTerm }

def snapshot (index : Int64) (snapshot : Option Bytes) : Option (Node Cmd) :=
  if index ≤ rf.lastIncludedIndex ∨ rf.commitIndex < index then some rf
  else
    let offset := index - rf.lastIncludedIndex
    match rf.entryAt offset with
    | none => none
    | some entry =>
      (rf.rebase index entry.term (rf.log.drop (offset.toInt.toNat + 1))).persist codec snapshot

structure InstallSnapshotArgs where
  term : Int64
  lastIncludedIndex : Int64
  lastIncludedTerm : Int64
  data : Option Bytes

/-- The log behind the dummy entry after `InstallSnapshot`, `none` where it panics. -/
def logAfterInstall (args : InstallSnapshotArgs) : Option (List (Entry Cmd)) :=
  if rf.getLastLogIndex < args.lastIncludedIndex then some []
  else
    match rf.getTerm args.lastIncludedIndex with
    | none => none
    | some term =>
      if term = args.lastIncludedTerm then
        some (rf.log.drop ((args.lastIncludedIndex - rf.lastIncludedIndex).toInt.toNat + 1))
      else some []

def install (args : InstallSnapshotArgs) : Option (Node Cmd) :=
  if args.lastIncludedIndex ≤ rf.lastIncludedIndex then some rf
  else
    match rf.logAfterInstall args with
    | none => none
    | some log =>
      { rf with commitIndex := max rf.commitIndex args.lastIncludedIndex }.rebase
        args.lastIncludedIndex args.lastIncludedTerm log |>.persist codec args.data

/-- `InstallSnapshot` without its reply. -/
def installSnapshot (args : InstallSnapshotArgs) : Option (Node Cmd) :=
  if args.term < rf.currentTerm then some rf
  else if rf.currentTerm < args.term then (rf.acceptTerm args.term).install codec args
  else rf.install codec args

/-- `commitPersistResult` for a request that succeeded, in any order. -/
def commitPersistResult (k : Nat) : Option (Node Cmd) :=
  match rf.pending[k]? with
  | none => none
  | some (stateLen, logCount) =>
    some { rf.markPersistPersisted stateLen logCount with pending := rf.pending.eraseIdx k }

/-- The assignments of `readPersistBinary`. -/
def adopt (data : Bytes) (header : Header) (decoded : List (Entry Cmd × Nat)) : Node Cmd :=
  if decoded.isEmpty then
    { rf.invalidatePersistCache with
      toHeader := header
      log := [⟨header.lastIncludedTerm, none, []⟩] }
  else
    { rf with
      toHeader := header
      log := decoded.map Prod.fst
      persistState := data
      persistEntryEnd := decoded.map Prod.snd
      persistLogCount := decoded.length
      persistDirtyFrom := decoded.length
      persistReady := true
      persistPersistedLen := data.length
      persistPersistedLogCount := decoded.length
      persistQueuedLen := data.length
      persistQueuedLogCount := decoded.length }

/-- `readPersistBinary`: the node and the result; the outcome `none` is a panic. -/
def readPersistBinary (reserve : Nat → Bool) (decode : Bytes → Option (Option Cmd))
    (data : Bytes) : Option (Node Cmd × Bool) :=
  match readState reserve decode data with
  | .error .panic => none
  | .error .refused => some (rf, false)
  | .ok (header, decoded) => some (rf.adopt data header decoded, true)

/-- `readPersist` of a process with as much memory as it asks for. -/
def readPersist (data : Bytes) : Node Cmd :=
  match rf.readPersistBinary (fun _ => true) codec.decode data with
  | some (rf, true) => rf
  | _ => rf.invalidatePersistCache

def readHardState (hard : Option (Int64 × Int64)) : Node Cmd :=
  match hard with
  | none => rf
  | some (currentTerm, votedFor) =>
    if rf.currentTerm < currentTerm ∨ rf.currentTerm = currentTerm ∧ votedFor ≠ -1 then
      { rf with currentTerm := currentTerm, votedFor := votedFor }
    else rf

def fresh (data : Bytes) : Node Cmd :=
  { currentTerm := 0, votedFor := -1, lastIncludedIndex := 0, lastIncludedTerm := 0
    state := .follower, commitIndex := 0, log := [⟨0, none, []⟩], loaded := data }

def make (data : Bytes) (hard : Option (Int64 × Int64)) : Node Cmd :=
  let rf := ((fresh data).readPersist codec data).readHardState hard
  { rf with commitIndex := rf.lastIncludedIndex }

inductive Action (Cmd : Type)
  | start (command : Option Cmd)
  | appendEntries (args : AppendEntriesArgs Cmd)
  | snapshot (index : Int64) (snapshot : Option Bytes)
  | installSnapshot (args : InstallSnapshotArgs)
  | complete (k : Nat)
  /-- What the other handlers do: votes and replies set the term, the vote and the role, and
  a leader moves its commit index. -/
  | vote (currentTerm votedFor : Int64) (state : Role) (commitIndex : Int64)

def step : Action Cmd → Option (Node Cmd)
  | .start command => rf.start codec command
  | .appendEntries args => rf.appendEntries codec args
  | .snapshot index data => rf.snapshot codec index data
  | .installSnapshot args => rf.installSnapshot codec args
  | .complete k => rf.commitPersistResult k
  | .vote currentTerm votedFor state commitIndex =>
    some { rf with
      currentTerm := currentTerm, votedFor := votedFor, state := state
      commitIndex := commitIndex }

def SuffixesFit (action : Action Cmd) : Prop :=
  (rf.step codec action).all (fun rf' => rf'.requests.all fits) = true

instance (action : Action Cmd) : Decidable (rf.SuffixesFit codec action) :=
  inferInstanceAs (Decidable (_ = true))

def system : System (Node Cmd) (Action Cmd) where
  init rf := ∃ data hard, data.length < maxLen ∧ rf = make codec data hard
  step := step codec

variable {codec} {rf rf' : Node Cmd} {old : List (Entry Cmd)}
  {header : Header} {state : Role} {commitIndex : Int64} {log : List (Entry Cmd)}
  {persistedLen persistedLogCount : Nat} {pending : List (Nat × Nat)} {args : InstallSnapshotArgs}

theorem Tracks.change (h : Tracks old rf) {dirty : Nat}
    (hdy : rf.persistReady = true → dirty ≤ rf.persistDirtyFrom ∧ dirty ≤ log.length ∧
      log.take dirty = rf.log.take dirty) :
    Tracks old { rf with
      toHeader := header, state := state, commitIndex := commitIndex, log := log
      persistDirtyFrom := dirty, persistPersistedLen := persistedLen
      persistPersistedLogCount := persistedLogCount, pending := pending } := by
  rcases h with hcold | hmar
  · exact .inl ⟨hcold.ready, hcold.queuedLen, hcold.stored⟩
  · obtain ⟨hle, hlog, hkept⟩ := hdy hmar.encodes.ready
    have henc := hmar.encodes
    refine .inr ⟨⟨henc.ready, henc.size, henc.short, henc.body, henc.ends, henc.count⟩,
      hmar.queuedLen, hmar.queuedCount, le_trans hle hmar.dirty_le_old, hlog, ?_,
      hmar.stored⟩
    -- the old mark is behind the new one
    have htake := congrArg (List.take dirty) hmar.kept
    rw [take_take, take_take, min_eq_left hle] at htake
    dsimp only
    rw [hkept, htake]

theorem Tracks.vote (h : Tracks old rf) :
    Tracks old { rf with
      toHeader := header, state := state, commitIndex := commitIndex
      persistPersistedLen := persistedLen, persistPersistedLogCount := persistedLogCount
      pending := pending } := by
  rcases h with hcold | hmar
  · exact .inl ⟨hcold.ready, hcold.queuedLen, hcold.stored⟩
  · exact Tracks.change (.inr hmar) fun _ => ⟨le_refl _, hmar.dirty_le_log, rfl⟩

theorem markPersistDirtyFrom_eq (rf : Node Cmd) (pos : Nat) :
    rf.markPersistDirtyFrom pos = { rf with
      persistDirtyFrom := if rf.persistReady then min rf.persistDirtyFrom (min pos rf.log.length)
        else rf.persistDirtyFrom } := by
  rw [markPersistDirtyFrom]
  by_cases hrdy : rf.persistReady = true
  · rw [if_neg (by simp [hrdy]), if_pos hrdy]
  · rw [if_pos (by simpa using hrdy), if_neg hrdy]

@[simp] theorem requests_markPersistDirtyFrom (rf : Node Cmd) (pos : Nat) :
    (rf.markPersistDirtyFrom pos).requests = rf.requests := by
  rw [markPersistDirtyFrom_eq]

@[simp] theorem log_markPersistDirtyFrom (rf : Node Cmd) (pos : Nat) :
    (rf.markPersistDirtyFrom pos).log = rf.log := by
  rw [markPersistDirtyFrom_eq]

theorem Tracks.append (h : Tracks old rf) (entries : List (Entry Cmd)) :
    Tracks old { rf.markPersistDirtyFrom rf.log.length with log := rf.log ++ entries } := by
  rw [markPersistDirtyFrom_eq]
  refine h.change fun hrdy => ?_
  dsimp only
  rw [if_pos hrdy, min_self, length_append]
  refine ⟨min_le_left .., by omega, ?_⟩
  rw [take_append_of_le_length (min_le_right ..)]

theorem Tracks.cut (h : Tracks old rf) {cut : Nat} (hcut : cut < rf.log.length) :
    Tracks old { rf.markPersistDirtyFrom cut with log := rf.log.take cut } := by
  rw [markPersistDirtyFrom_eq]
  refine h.change fun hrdy => ?_
  dsimp only
  rw [if_pos hrdy, min_eq_left (le_of_lt hcut), length_take, take_take]
  refine ⟨min_le_left .., by omega, ?_⟩
  rw [min_eq_left (min_le_right ..)]

theorem Tracks.rebase (h : Tracks old rf) (lastIncludedIndex lastIncludedTerm : Int64)
    (log : List (Entry Cmd)) : Tracks old (rf.rebase lastIncludedIndex lastIncludedTerm log) := by
  rw [Node.rebase, markPersistDirtyFrom_eq]
  refine h.change fun hrdy => ?_
  dsimp only
  rw [if_pos hrdy, Nat.zero_min, Nat.min_zero]
  exact ⟨Nat.zero_le _, Nat.zero_le _, rfl⟩

structure Settled (codec : CommandCodec Cmd) (rf : Node Cmd) : Prop where
  encoded : ∀ e ∈ rf.log, e.Decoded codec.decode
  tracks : Tracks rf.log rf

def Written (rf : Node Cmd) : Prop := rf.folded = some rf.fullState ∧ rf.fullState.length < maxLen

def Done (codec : CommandCodec Cmd) (rf rf' : Node Cmd) : Prop :=
  Settled codec rf' ∧ (rf'.requests = rf.requests ∨ rf'.Written)

theorem Settled.vote (h : Settled codec rf) :
    Settled codec { rf with
      toHeader := header, state := state, commitIndex := commitIndex
      persistPersistedLen := persistedLen, persistPersistedLogCount := persistedLogCount
      pending := pending } :=
  ⟨h.encoded, h.tracks.vote⟩

theorem Written.commit (h : rf.Written) {state : Role} {commitIndex : Int64}
    {persistedLen persistedLogCount : Nat} {pending : List (Nat × Nat)} :
    Written { rf with
      state := state, commitIndex := commitIndex, persistPersistedLen := persistedLen
      persistPersistedLogCount := persistedLogCount, pending := pending } :=
  h

theorem Enqueued.done (h : Enqueued rf rf') (hlog : ∀ e ∈ rf.log, e.Decoded codec.decode) :
    Settled codec rf' ∧ rf'.Written := by
  have hfull : rf'.fullState = rf.fullState := by rw [fullState, fullState, h.log, h.header]
  refine ⟨⟨?_, .inr ?_⟩, ?_, ?_⟩
  · rw [h.log]
    exact hlog
  · rw [h.log]
    exact h.marked
  · rw [hfull]
    exact h.folded
  · rw [hfull]
    exact h.short

section

variable (hlog : ∀ e ∈ rf.log, e.Decoded codec.decode) (h : Tracks old rf)

include hlog h

theorem enqueueLater_spec
    (hrun : rf.enqueueLater codec = some rf') (hfits : PayloadFits rf rf') :
    Settled codec rf' ∧ rf'.Written := by
  rw [enqueueLater] at hrun
  split at hrun
  · cases hrun
  · rename_i next lengths henq
    cases hrun
    obtain ⟨hset, hwri⟩ := (enqueuePersist_spec hlog h henq hfits).done hlog
    exact ⟨hset.vote, hwri.commit⟩

theorem persist_spec
    {snapshot : Option Bytes} (hrun : rf.persist codec snapshot = some rf')
    (hfits : PayloadFits rf rf') : Settled codec rf' ∧ rf'.Written := by
  rw [persist] at hrun
  split at hrun
  · cases hrun
  · rename_i next henq
    cases hrun
    exact (enqueuePersist_spec hlog h henq hfits).done hlog
  · rename_i next stateLen logCount henq
    cases hrun
    obtain ⟨hset, hwri⟩ := (enqueuePersist_spec hlog h henq hfits).done hlog
    exact ⟨hset.vote, hwri.commit⟩

end

theorem PayloadFits.of_requests {mid : Node Cmd} (h : PayloadFits rf rf')
    (hmid : mid.requests = rf.requests) : PayloadFits mid rf' := by
  rw [PayloadFits, hmid]
  exact h

theorem Settled.start (h : Settled codec rf) {command : Option Cmd}
    (hrun : rf.start codec command = some rf') (hfits : PayloadFits rf rf') :
    Done codec rf rf' := by
  rw [Node.start] at hrun
  split_ifs at hrun
  have hent : ∀ e ∈ rf.log ++ [ensureEntryCommandEncoded codec ⟨rf.currentTerm, command, []⟩],
      e.Decoded codec.decode := by
    intro e he
    rcases mem_append.mp he with he | he
    · exact h.encoded e he
    · rw [mem_singleton.mp he]
      exact encoded_ensureEntryCommandEncoded ..
  simp only [log_markPersistDirtyFrom] at hrun
  obtain ⟨hset, hwri⟩ := enqueueLater_spec (by exact hent) (h.tracks.append _) hrun
    (hfits.of_requests (requests_markPersistDirtyFrom ..))
  exact ⟨hset, .inr hwri⟩

theorem Settled.acceptTerm (h : Settled codec rf) (term : Int64) :
    Settled codec (rf.acceptTerm term) ∧ (rf.acceptTerm term).requests = rf.requests := by
  rw [Node.acceptTerm]
  split_ifs
  · exact ⟨h.vote, rfl⟩
  · exact ⟨h.vote, rfl⟩

theorem Settled.learnCommit (h : Settled codec rf) (leaderCommit : Int64) :
    Settled codec (rf.learnCommit leaderCommit) := by
  rw [Node.learnCommit]
  split_ifs
  · exact h.vote
  · exact h

theorem Written.learnCommit (h : rf.Written) (leaderCommit : Int64) :
    (rf.learnCommit leaderCommit).Written := by
  rw [Node.learnCommit]
  split_ifs
  · exact h.commit
  · exact h

@[simp] theorem requests_learnCommit (rf : Node Cmd) (leaderCommit : Int64) :
    (rf.learnCommit leaderCommit).requests = rf.requests := by
  rw [Node.learnCommit]
  split_ifs <;> rfl

section

variable (h : Settled codec rf)

include h

theorem Settled.dropConflicts {index : Int64}
    {entries rest : List (Int64 × Option Cmd)} {cut : Bool}
    (hrun : rf.dropConflicts index entries = some (rf', rest, cut)) :
    (∀ e ∈ rf'.log, e.Decoded codec.decode) ∧ Tracks rf.log rf' ∧ rf'.requests = rf.requests ∧
      (cut = false → rf' = rf) := by
  induction entries generalizing index with
  | nil =>
    obtain ⟨rfl, -⟩ := Prod.mk.inj (Option.some.inj hrun)
    exact ⟨h.encoded, h.tracks, rfl, fun _ => rfl⟩
  | cons entry entries ih =>
    rw [Node.dropConflicts] at hrun
    by_cases hbeh : rf.getLastLogIndex < index
    · rw [if_pos hbeh] at hrun
      obtain ⟨rfl, -⟩ := Prod.mk.inj (Option.some.inj hrun)
      exact ⟨h.encoded, h.tracks, rfl, fun _ => rfl⟩
    · rw [if_neg hbeh] at hrun
      cases hterm : rf.getTerm index with
      | none =>
        rw [hterm] at hrun
        cases hrun
      | some term =>
        simp only [hterm] at hrun
        split_ifs at hrun with hequal hcut
        · exact ih hrun
        · obtain ⟨rfl, hrest⟩ := Prod.mk.inj (Option.some.inj hrun)
          refine ⟨fun e he => h.encoded e (mem_of_mem_take he), h.tracks.cut hcut,
            requests_markPersistDirtyFrom .., ?_⟩
          intro hfalse
          rw [hfalse] at hrest
          cases (Prod.mk.inj hrest).2
        · obtain ⟨rfl, -⟩ := Prod.mk.inj (Option.some.inj hrun)
          exact ⟨h.encoded, h.tracks, rfl, fun _ => rfl⟩

theorem Settled.appendEntries {args : AppendEntriesArgs Cmd}
    (hrun : rf.appendEntries codec args = some rf') (hfits : PayloadFits rf rf') :
    Done codec rf rf' := by
  simp only [Node.appendEntries] at hrun
  obtain ⟨hacc, hreq⟩ := h.acceptTerm args.term
  split_ifs at hrun
  · cases hrun
    exact ⟨h, .inl rfl⟩
  · cases hrun
    exact ⟨hacc, .inl hreq⟩
  split at hrun
  · cases hrun
  split_ifs at hrun
  · cases hrun
    exact ⟨hacc, .inl hreq⟩
  split at hrun
  · cases hrun
  · rename_i mid rest cut hdrop
    obtain ⟨hlog, htra, hmid, hsame⟩ := hacc.dropConflicts hdrop
    have hbef : mid.requests = rf.requests := hmid.trans hreq
    split_ifs at hrun with hnone hempty
    · -- nothing was cut and nothing is new
      cases hrun
      rw [Bool.and_eq_true, Bool.not_eq_true'] at hnone
      obtain rfl := hsame hnone.2
      exact ⟨hacc.learnCommit _, .inl ((requests_learnCommit ..).trans hreq)⟩
    · obtain ⟨next, hnext, rfl⟩ := Option.map_eq_some_iff.mp hrun
      have hfits' : PayloadFits mid next := by
        intro payload hpay
        apply hfits payload
        rw [requests_learnCommit, hpay, hbef]
      obtain ⟨hset, hwri⟩ := enqueueLater_spec hlog htra hnext hfits'
      exact ⟨hset.learnCommit _, .inr (hwri.learnCommit _)⟩
    · obtain ⟨next, hnext, rfl⟩ := Option.map_eq_some_iff.mp hrun
      have hent : ∀ e ∈ (mid.appendNew codec rest).log, e.Decoded codec.decode := by
        intro e he
        rw [appendNew] at he
        rcases mem_append.mp he with he | he
        · rw [log_markPersistDirtyFrom] at he
          exact hlog e he
        · obtain ⟨entry, -, rfl⟩ := mem_map.mp he
          exact encoded_ensureEntryCommandEncoded ..
      have hnew : Tracks (rf.acceptTerm args.term).log (mid.appendNew codec rest) := by
        rw [appendNew, log_markPersistDirtyFrom]
        exact htra.append _
      have hfits' : PayloadFits (mid.appendNew codec rest) next := by
        intro payload hpay
        apply hfits payload
        rw [requests_learnCommit, hpay, appendNew, requests_markPersistDirtyFrom, hbef]
      obtain ⟨hset, hwri⟩ := enqueueLater_spec hent hnew hnext hfits'
      exact ⟨hset.learnCommit _, .inr (hwri.learnCommit _)⟩

theorem Settled.rebase (lastIncludedIndex lastIncludedTerm : Int64)
    (hlog : ∀ e ∈ log, e ∈ rf.log) :
    (∀ e ∈ (rf.rebase lastIncludedIndex lastIncludedTerm log).log, e.Decoded codec.decode) ∧
      (rf.rebase lastIncludedIndex lastIncludedTerm log).requests = rf.requests := by
  rw [Node.rebase, log_markPersistDirtyFrom, requests_markPersistDirtyFrom]
  refine ⟨?_, rfl⟩
  intro e he
  rcases mem_cons.mp he with rfl | he
  · exact ⟨rfl, by simp [maxLen]⟩
  · exact h.encoded e (hlog e he)

theorem Settled.snapshot {index : Int64} {data : Option Bytes}
    (hrun : rf.snapshot codec index data = some rf') (hfits : PayloadFits rf rf') :
    Done codec rf rf' := by
  simp only [Node.snapshot] at hrun
  split_ifs at hrun
  · cases hrun
    exact ⟨h, .inl rfl⟩
  split at hrun
  · cases hrun
  · obtain ⟨hlog, hreq⟩ := h.rebase index _ fun e he => mem_of_mem_drop he
    obtain ⟨hset, hwri⟩ := persist_spec hlog (h.tracks.rebase ..) hrun (hfits.of_requests hreq)
    exact ⟨hset, .inr hwri⟩

end

theorem mem_logAfterInstall (h : rf.logAfterInstall args = some log) {e : Entry Cmd}
    (he : e ∈ log) : e ∈ rf.log := by
  rw [logAfterInstall] at h
  split_ifs at h
  · cases h
    cases he
  · split at h
    · cases h
    · split_ifs at h
      · cases h
        exact mem_of_mem_drop he
      · cases h
        cases he

section

variable (h : Settled codec rf)

include h

theorem Settled.install (hrun : rf.install codec args = some rf')
    (hfits : PayloadFits rf rf') : Done codec rf rf' := by
  rw [Node.install] at hrun
  split_ifs at hrun
  · cases hrun
    exact ⟨h, .inl rfl⟩
  split at hrun
  · cases hrun
  · rename_i log hafter
    have hcom : Settled codec { rf with
        commitIndex := max rf.commitIndex args.lastIncludedIndex } := h.vote
    obtain ⟨hlog, hreq⟩ := hcom.rebase args.lastIncludedIndex args.lastIncludedTerm
      fun e he => mem_logAfterInstall hafter he
    obtain ⟨hset, hwri⟩ := persist_spec hlog (hcom.tracks.rebase ..) hrun (hfits.of_requests hreq)
    exact ⟨hset, .inr hwri⟩

theorem Settled.installSnapshot
    (hrun : rf.installSnapshot codec args = some rf') (hfits : PayloadFits rf rf') :
    Done codec rf rf' := by
  rw [Node.installSnapshot] at hrun
  split_ifs at hrun
  · cases hrun
    exact ⟨h, .inl rfl⟩
  · obtain ⟨hacc, hreq⟩ := h.acceptTerm args.term
    obtain ⟨hset, hdone⟩ := hacc.install hrun (hfits.of_requests hreq)
    exact ⟨hset, hdone.imp_left fun heq => heq.trans hreq⟩
  · exact h.install hrun hfits

theorem Settled.step {action : Action Cmd}
    (hrun : rf.step codec action = some rf') (hfits : PayloadFits rf rf') : Done codec rf rf' := by
  cases action with
  | start command => exact h.start hrun hfits
  | appendEntries args => exact h.appendEntries hrun hfits
  | snapshot index data => exact h.snapshot hrun hfits
  | installSnapshot args => exact h.installSnapshot hrun hfits
  | complete k =>
    simp only [Node.step, commitPersistResult] at hrun
    split at hrun
    · cases hrun
    · cases hrun
      exact ⟨h.vote, .inl rfl⟩
  | vote currentTerm votedFor state commitIndex =>
    cases hrun
    exact ⟨h.vote, .inl rfl⟩

theorem Settled.readHardState (hard : Option (Int64 × Int64)) :
    Settled codec (rf.readHardState hard) := by
  cases hard with
  | none => exact h
  | some hs =>
    simp only [Node.readHardState]
    split_ifs
    · exact h.vote
    · exact h

end

theorem settled_readPersist {data : Bytes} (hdata : data.length < maxLen) (hloa : rf.loaded = data)
    (hrequ : rf.requests = []) (hlog : ∀ e ∈ rf.log, e.Decoded codec.decode) :
    Settled codec (rf.readPersist codec data) := by
  have hfol : rf.folded = some data := by rw [folded, hrequ, hloa]; rfl
  have hempty : Settled codec rf.invalidatePersistCache := ⟨hlog, .inl ⟨rfl, rfl, data, hfol⟩⟩
  rw [Node.readPersist, readPersistBinary]
  cases hread : readState (fun _ => true) codec.decode data with
  | error stop => cases stop <;> exact hempty
  | ok state =>
    obtain ⟨log, hdecoded, hsize, hbody, hcodes, -⟩ := of_readState hdata hread
    dsimp only
    rw [adopt, hdecoded]
    split_ifs
    · refine ⟨?_, .inl ⟨rfl, rfl, data, hfol⟩⟩
      intro e he
      rw [mem_singleton.mp he]
      exact ⟨rfl, by simp [maxLen]⟩
    · refine ⟨by simpa using hcodes, .inr ⟨⟨rfl, hsize, hdata, ?_, ?_, ?_⟩, rfl, ?_, ?_, ?_, rfl,
        data, hfol, rfl, ?_⟩⟩ <;> simp [hbody]

theorem settled_of_init (h : (system codec).init rf) : Settled codec rf := by
  obtain ⟨data, hard, hdata, rfl⟩ := h
  have hread : Settled codec ((fresh data).readPersist codec data) := by
    apply settled_readPersist hdata rfl rfl
    intro e he
    rw [mem_singleton.mp he]
    exact ⟨rfl, by simp [maxLen]⟩
  exact (hread.readHardState hard).vote

theorem SuffixesFit.payloadFits {action : Action Cmd} (h : rf.SuffixesFit codec action)
    (hrun : rf.step codec action = some rf') : PayloadFits rf rf' := by
  intro payload hpay
  rw [SuffixesFit, hrun, Option.all_some, all_eq_true] at h
  apply h
  rw [hpay]
  exact mem_append_right _ mem_cons_self

theorem settled_of_reachable
    (h : (system codec).Reachable (fun rf action => rf.SuffixesFit codec action) rf) :
    Settled codec rf := by
  apply h.invariant
  · exact fun rf hinit => settled_of_init hinit
  · intro rf action rf' hset hok hstep
    exact (hset.step hstep (hok.payloadFits hstep)).1

/-- The incremental encoding refines the full one: right after a request was enqueued, all
requests so far lead to the encoding of the node from scratch, and this is read back as the
node's term, vote, snapshot metadata and log. -/
theorem incremental_refines_full (codec : CommandCodec Cmd) {rf rf' : Node Cmd}
    {action : Action Cmd}
    (hrf : (system codec).Reachable (fun rf action => rf.SuffixesFit codec action) rf)
    (hstep : rf.step codec action = some rf') (hfits : rf.SuffixesFit codec action)
    (hnew : rf'.requests ≠ rf.requests) :
    rf'.folded = some (encodeState codec rf'.toHeader rf'.log) ∧
      ∃ decoded, readState (fun _ => true) codec.decode (encodeState codec rf'.toHeader rf'.log) =
        .ok (rf'.toHeader, decoded) ∧ decoded.map Prod.fst = rf'.log := by
  obtain ⟨hset, hdone⟩ := (settled_of_reachable hrf).step hstep (hfits.payloadFits hstep)
  obtain ⟨hfol, hshort⟩ := hdone.resolve_left hnew
  rw [encodeState_of_decoded hset.encoded]
  exact ⟨hfol, _, readState_written rf'.toHeader hset.encoded rfl hshort, map_fst_withEnds ..⟩

def byteCodec : CommandCodec UInt8 where
  encode command := [command]
  decode data := some data.head?
  encode_ne_nil _ := by simp
  length_encode _ := by simp [maxLen]
  decode_encode _ := rfl

theorem incremental_refines_full_second_command : ∃ rf rf' : Node UInt8,
    (system byteCodec).Reachable (fun rf action => rf.SuffixesFit byteCodec action) rf ∧
      rf.step byteCodec (.start (some 8)) = some rf' ∧
      rf'.requests.map (fun request => request matches .append _) = [false, true] ∧
      rf'.log.map (·.command) = [none, some 7, some 8] ∧
      rf'.folded = some (encodeState byteCodec rf'.toHeader rf'.log) ∧
      ∃ decoded, readState (fun _ => true) byteCodec.decode
        (encodeState byteCodec rf'.toHeader rf'.log) = .ok (rf'.toHeader, decoded) ∧
          decoded.map Prod.fst = rf'.log := by
  obtain ⟨rf, hrun, hlen, hfits, hany⟩ := (system byteCodec).exists_of_execOk
    (fun rf action => rf.SuffixesFit byteCodec action) (make byteCodec [] none)
    [.vote 1 0 .leader 0, .start (some 7), .complete 0]
    (fun rf => rf.requests.length = 1 ∧ rf.SuffixesFit byteCodec (.start (some 8)) ∧
      (rf.step byteCodec (.start (some 8))).any (fun rf' =>
        rf'.requests.map (fun request => request matches .append _) = [false, true] ∧
        rf'.log.map (·.command) = [none, some 7, some 8])) (by decide +kernel)
  obtain ⟨rf', hstep, hfacts⟩ := (Option.any_eq_true ..).mp hany
  obtain ⟨hkinds, hlog⟩ := of_decide_eq_true hfacts
  have hrf : (system byteCodec).Reachable (fun rf action => rf.SuffixesFit byteCodec action) rf :=
    ⟨_, ⟨[], none, by decide, rfl⟩, hrun⟩
  have hnew : rf'.requests ≠ rf.requests := by
    intro heq
    have hsize := congrArg List.length hkinds
    rw [length_map, heq, hlen] at hsize
    cases hsize
  exact ⟨rf, rf', hrf, hstep, hkinds, hlog, incremental_refines_full byteCodec hrf hstep hfits hnew⟩

end Node

end OrbisKV.Incremental
