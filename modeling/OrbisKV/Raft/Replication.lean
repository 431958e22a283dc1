import OrbisKV.Raft.LogView
/-!
# One leader and one follower

Two facts about the exchange of `AppendEntries` between one leader and one follower,
each for any logs that match.
-/

namespace OrbisKV

open Lib.TermLog List Option

namespace Raft

variable {n : Nat} {Cmd : Type}

section

variable (rf : Raft n Cmd)

def getTerm? (index : Nat) : Option Nat :=
  if index ≤ rf.lastIncludedIndex then some rf.lastIncludedTerm
  else (rf.log.get? (index - rf.lastIncludedIndex)).map LogEntry.term

def firstIndexOfTerm? (term : Nat) : Nat → Option Nat
  | 0 => some 0
  | index + 1 =>
    if rf.lastIncludedIndex < index + 1 then
      (rf.getTerm? index).bind fun found =>
        if found = term then firstIndexOfTerm? term index else some (index + 1)
    else some (index + 1)

def mismatch? (args : AppendEntriesArgs n Cmd) : Option (Option (Int × Nat)) :=
  if rf.getLastLogIndex < args.prevLogIndex then some (some (-1, rf.getLastLogIndex + 1))
  else if args.prevLogIndex < rf.lastIncludedIndex then
    some (some (-1, rf.lastIncludedIndex + 1))
  else
    (rf.getTerm? args.prevLogIndex).bind fun term =>
      if term ≠ args.prevLogTerm then
        (rf.firstIndexOfTerm? term args.prevLogIndex).map fun index => some (term, index)
      else some none

def mergeEntries? : Nat → List (LogEntry Cmd) → Option (RaftLog Cmd × Bool)
  | _, [] => some (rf.log, false)
  | index, e :: es =>
    if rf.getLastLogIndex < index then some (rf.log.append (e :: es), true)
    else
      (rf.getTerm? index).bind fun term =>
        if term ≠ e.term then
          some ((rf.log.cut (max (index - rf.lastIncludedIndex) 1)).append (e :: es), true)
        else mergeEntries? (index + 1) es

def appendEntries? (args : AppendEntriesArgs n Cmd) :
    Option (Raft n Cmd × AppendEntriesReply × Enqueued) :=
  if args.term < rf.currentTerm then some (rf, ⟨rf.currentTerm, false, 0, 0⟩, .nothing)
  else
    let hardPersist := if rf.currentTerm < args.term then Enqueued.hardState else .nothing
    let rf := rf.acceptTerm args
    (rf.mismatch? args).bind fun
      | some (conflictTerm, conflictIndex) =>
        some (rf, ⟨rf.currentTerm, false, conflictTerm, conflictIndex⟩, hardPersist)
      | none =>
        (rf.mergeEntries? (args.prevLogIndex + 1) args.entries).map fun (log, persistNeeded) =>
          ({ rf with log := log }.learnCommit args.leaderCommit, ⟨rf.currentTerm, true, 0, 0⟩,
            if persistNeeded then .raftState else hardPersist)

end

variable {rf : Raft n Cmd}

theorem getTerm?_eq {index : Nat} (h : index ≤ rf.getLastLogIndex) :
    rf.getTerm? index = some (rf.getTerm index) := by
  unfold getTerm? getTerm
  by_cases hle : index ≤ rf.lastIncludedIndex
  · rw [if_pos hle, if_pos hle]
  · rw [if_neg hle, if_neg hle]
    rw [getLastLogIndex_eq] at h
    have hlt : index - rf.lastIncludedIndex - 1 < rf.log.entries.length := by omega
    rw [RaftLog.get?_of_pos _ (by omega), List.getElem?_eq_getElem hlt]
    rfl

theorem firstIndexOfTerm?_eq {term index : Nat} (h : index ≤ rf.getLastLogIndex) :
    rf.firstIndexOfTerm? term index = some (rf.firstIndexOfTerm term index) := by
  induction index with
  | zero => rfl
  | succ index ih =>
    rw [firstIndexOfTerm?, firstIndexOfTerm, getTerm?_eq (by omega), bind_some,
      ih (by omega)]
    split_ifs <;> grind

theorem mismatch?_eq (args : AppendEntriesArgs n Cmd) :
    rf.mismatch? args = some (rf.mismatch args) := by
  unfold mismatch? mismatch
  by_cases hshort : rf.getLastLogIndex < args.prevLogIndex
  · rw [if_pos hshort, if_pos hshort]
  · rw [if_neg hshort, if_neg hshort]
    have hle : args.prevLogIndex ≤ rf.getLastLogIndex := by omega
    rw [getTerm?_eq hle, bind_some, firstIndexOfTerm?_eq hle, map_some]
    split_ifs <;> rfl

theorem mergeEntries?_eq (index : Nat) (es : List (LogEntry Cmd)) :
    rf.mergeEntries? index es = some (rf.mergeEntries index es) := by
  induction es generalizing index with
  | nil => rfl
  | cons e es ih =>
    rw [mergeEntries?, mergeEntries]
    by_cases hend : rf.getLastLogIndex < index
    · rw [if_pos hend, if_pos hend]
    · rw [if_neg hend, if_neg hend, getTerm?_eq (by omega), bind_some, ih]
      split_ifs <;> rfl

theorem appendEntries?_eq (args : AppendEntriesArgs n Cmd) :
    rf.appendEntries? args = some (rf.appendEntries args) := by
  unfold appendEntries? appendEntries
  split
  · rfl
  · dsimp only
    rw [mismatch?_eq, bind_some, mergeEntries?_eq]
    cases (rf.acceptTerm args).mismatch args <;> rfl

section

variable {args : AppendEntriesArgs n Cmd} {F S : List (LogEntry Cmd)}

theorem appendEntries_rejected (hterm : ¬args.term < rf.currentTerm) {conflict : Int × Nat}
    (h : (rf.acceptTerm args).mismatch args = some conflict) :
    rf.appendEntries args =
      (rf.acceptTerm args, ⟨args.term, false, conflict.1, conflict.2⟩, rf.termEnqueued args) := by
  unfold appendEntries
  rw [if_neg hterm]
  dsimp only
  rw [rf.acceptTerm_currentTerm hterm, h]
  rfl

theorem appendEntries_accepted (hterm : ¬args.term < rf.currentTerm)
    (h : (rf.acceptTerm args).mismatch args = none) :
    (rf.appendEntries args).1 = { rf.acceptTerm args with
        log := ((rf.acceptTerm args).mergeEntries (args.prevLogIndex + 1) args.entries).1
      }.learnCommit args.leaderCommit ∧
      (rf.appendEntries args).2.1 = ⟨args.term, true, 0, 0⟩ := by
  unfold appendEntries
  rw [if_neg hterm]
  dsimp only
  rw [rf.acceptTerm_currentTerm hterm, h]
  exact ⟨rfl, rfl⟩

theorem of_appendEntries_success (h : (rf.appendEntries args).2.1.success = true) :
    ¬args.term < rf.currentTerm ∧ (rf.acceptTerm args).mismatch args = none := by
  have hterm : ¬args.term < rf.currentTerm := by
    intro hstale
    unfold appendEntries at h
    rw [if_pos hstale] at h
    cases h
  refine ⟨hterm, ?_⟩
  cases hmis : (rf.acceptTerm args).mismatch args with
  | none => rfl
  | some conflict =>
    rw [appendEntries_rejected hterm hmis] at h
    cases h

theorem acceptTerm_commitIndex (args : AppendEntriesArgs n Cmd) :
    (rf.acceptTerm args).commitIndex = rf.commitIndex := by
  unfold acceptTerm catchUp
  split <;> rfl

theorem learnCommit_currentTerm (leaderCommit : Nat) :
    (rf.learnCommit leaderCommit).currentTerm = rf.currentTerm := by
  obtain ⟨k, hk⟩ := rf.learnCommit_eq leaderCommit
  rw [hk]

theorem learnCommit_log (leaderCommit : Nat) : (rf.learnCommit leaderCommit).log = rf.log := by
  obtain ⟨k, hk⟩ := rf.learnCommit_eq leaderCommit
  rw [hk]

theorem Views.accepted (h : rf.Views F) (hmatch : Matching LogEntry.term F S)
    (hargs : args.Carries S) (hok : (rf.appendEntries args).2.1.success = true) :
    ∃ F', (rf.appendEntries args).1.Views F' ∧ S <+: F' := by
  obtain ⟨hterm, hmis⟩ := of_appendEntries_success hok
  rw [(appendEntries_accepted hterm hmis).1]
  rcases (h.acceptTerm args).merged hmatch hargs hmis rfl with
    ⟨-, hfr, hviews⟩ | ⟨-, hviews, -⟩
  · exact ⟨F, hviews.learnCommit _, hfr⟩
  · exact ⟨S, hviews.learnCommit _, prefix_rfl⟩

theorem matching_of_isPrefix (h : S <+: F) : Matching LogEntry.term F S := by
  intro i d e _ he _
  exact take_eq_of_isPrefix h (List.getElem?_eq_some_iff.mp he).1

section

variable (h : rf.Views F) (hfr : S <+: F) (hargs : args.Carries S)
  (hfrom : rf.lastIncludedIndex ≤ args.prevLogIndex)

include h hfr hargs hfrom

theorem Views.mergeEntries_of_isPrefix :
    rf.mergeEntries (args.prevLogIndex + 1) args.entries = (rf.log, false) := by
  have htake := take_eq_of_isPrefix hfr hargs.prev_le
  rw [hargs.entries]
  rcases h.mergeEntries (matching_of_isPrefix hfr) hfrom hargs.prev_le htake with
    ⟨hmg, -⟩ | ⟨log, x, -, -, hx, -, hne, -⟩
  · exact hmg
  · have hSx : S[x]? = some S[x] := List.getElem?_eq_getElem hx
    exact absurd ((getElem?_of_isPrefix hfr hSx).trans hSx.symm) hne

theorem Views.mismatch_of_isPrefix : rf.mismatch args = none := by
  have hlen := hfr.length_le
  have hprev := hargs.prev_le
  have hterm : rf.getTerm args.prevLogIndex = args.prevLogTerm := by
    rw [h.getTerm hfrom, hargs.prev_term]
    exact termAt_eq_of_take_eq LogEntry.term (take_eq_of_isPrefix hfr hprev) (Nat.le_refl _)
  unfold mismatch
  rw [h.getLastLogIndex, if_neg (by omega), if_neg (by omega), if_neg (not_not.mpr hterm)]

end

end

theorem learnCommit_commitIndex (rf : Raft n Cmd) (leaderCommit : Nat) :
    (rf.learnCommit leaderCommit).commitIndex =
      if rf.commitIndex < leaderCommit then min leaderCommit rf.getLastLogIndex
      else rf.commitIndex := by
  unfold learnCommit
  split_ifs <;> rfl

theorem learnCommit_learned {rf' : Raft n Cmd} {a b : Nat} (hab : a ≤ b)
    (hcom : rf'.commitIndex = (rf.learnCommit b).commitIndex)
    (hlast : rf'.getLastLogIndex = rf.getLastLogIndex) :
    (rf'.learnCommit a).commitIndex = (rf.learnCommit b).commitIndex := by
  rw [learnCommit_commitIndex, hcom, hlast, learnCommit_commitIndex]
  split_ifs <;> omega

theorem buildRequest_append {leader leader' : Raft n Cmd} {server : Fin n} {data : Bytes}
    {args : AppendEntriesArgs n Cmd}
    (h : leader.buildRequest server data = some (leader', some (.append args))) :
    args.term = leader.currentTerm ∧ args.leaderCommit = leader.commitIndex ∧
      args.prevLogIndex = leader.nextIndex server - 1 ∧
      leader.lastIncludedIndex < leader.nextIndex server := by
  rcases (buildRequest_cases h).2 with hnone | ⟨_, _, heq⟩ | ⟨prevTerm, hnext, hprev, heq⟩
  · cases hnone
  · cases heq
  · cases heq
    exact ⟨rfl, rfl, rfl, by omega⟩

/-- Requests `m₁` and `m₂` were built in this order by the leader of one term. -/
theorem delayed_appendEntries_harmless {leader₁ leader₁' leader₂ leader₂' follower : Raft n Cmd}
    {L₁ L₂ F : List (LogEntry Cmd)} {server : Fin n} {data₁ data₂ : Bytes}
    {m₁ m₂ : AppendEntriesArgs n Cmd} (h₁ : leader₁.Views L₁) (h₂ : leader₂.Views L₂)
    (hF : follower.Views F) (hmatch : Matching LogEntry.term F L₂)
    (hterm : leader₁.currentTerm = leader₂.currentTerm) (hlog : L₁ <+: L₂)
    (hcom : leader₁.commitIndex ≤ leader₂.commitIndex)
    (hm₁ : leader₁.buildRequest server data₁ = some (leader₁', some (.append m₁)))
    (hm₂ : leader₂.buildRequest server data₂ = some (leader₂', some (.append m₂)))
    (hok : (follower.appendEntries m₂).2.1.success = true) :
    ((follower.appendEntries m₂).1.appendEntries m₁).1.log = (follower.appendEntries m₂).1.log ∧
    ((follower.appendEntries m₂).1.appendEntries m₁).1.commitIndex =
      (follower.appendEntries m₂).1.commitIndex ∧
    (follower.lastIncludedIndex ≤ m₁.prevLogIndex →
      ((follower.appendEntries m₂).1.appendEntries m₁).2.1.success = true) := by
  obtain ⟨hterm₁, hcom₁, -⟩ := buildRequest_append hm₁
  obtain ⟨hterm₂, hcom₂, -⟩ := buildRequest_append hm₂
  have hcarries₁ := h₁.carries hm₁
  obtain ⟨F', hviews, hfr₂⟩ := hF.accepted hmatch (h₂.carries hm₂) hok
  have hfr : L₁ <+: F' := hlog.trans hfr₂
  obtain ⟨hnew, hmis⟩ := of_appendEntries_success hok
  -- the state after `m₂`, by the commit index that it has learned
  obtain ⟨accepted, hafter, hcur⟩ : ∃ accepted : Raft n Cmd,
      (follower.appendEntries m₂).1 = accepted.learnCommit m₂.leaderCommit ∧
        accepted.currentTerm = m₂.term :=
    ⟨_, (appendEntries_accepted hnew hmis).1, follower.acceptTerm_currentTerm hnew⟩
  have hinc := (follower.appendEntries_included m₂).1
  generalize (follower.appendEntries m₂).1 = after at hafter hviews hinc ⊢
  have hsame : ¬m₁.term < after.currentTerm := by
    rw [hafter, learnCommit_currentTerm, hcur, hterm₁, hterm₂, hterm]
    exact Nat.lt_irrefl _
  have hvw₁ := hviews.acceptTerm m₁
  have hfrom : (after.acceptTerm m₁).lastIncludedIndex = follower.lastIncludedIndex :=
    (acceptTerm_lastIncludedIndex m₁).trans hinc
  by_cases hprev : follower.lastIncludedIndex ≤ m₁.prevLogIndex
  · have hmis₁ := hvw₁.mismatch_of_isPrefix hfr hcarries₁ (hfrom.trans_le hprev)
    have hmg := hvw₁.mergeEntries_of_isPrefix hfr hcarries₁ (hfrom.trans_le hprev)
    obtain ⟨hst, hrep⟩ := appendEntries_accepted hsame hmis₁
    rw [hmg] at hst
    refine ⟨?_, ?_, fun _ => ?_⟩
    · rw [hst, learnCommit_log]
      exact acceptTerm_log m₁
    · rw [hst, hafter]
      apply learnCommit_learned
      · rw [hcom₁, hcom₂]
        exact hcom
      · exact acceptTerm_commitIndex m₁
      · change ((accepted.learnCommit m₂.leaderCommit).acceptTerm m₁).getLastLogIndex = _
        rw [getLastLogIndex, getLastLogIndex, acceptTerm_log, acceptTerm_lastIncludedIndex]
        obtain ⟨k, hk⟩ := accepted.learnCommit_eq m₂.leaderCommit
        rw [hk]
    · rw [hrep]
  · refine ⟨?_, ?_, fun hle => absurd hle hprev⟩
    all_goals
      have hmis₁ : (after.acceptTerm m₁).mismatch m₁ ≠ none := fun hnone =>
        hprev (hfrom ▸ (mismatch_eq_none hnone).1)
      obtain ⟨conflict, hcon⟩ := ne_none_iff_exists'.mp hmis₁
      rw [appendEntries_rejected hsame hcon]
    · exact acceptTerm_log m₁
    · exact acceptTerm_commitIndex m₁

def sampleLeader (term : Nat) (entries : List (LogEntry Nat)) (commitIndex next : Nat) :
    Raft 2 Nat :=
  { (fresh 0 : Raft 2 Nat) with
    state := .leader
    currentTerm := term
    log := ⟨⟨0, none⟩, entries⟩
    commitIndex := commitIndex
    nextIndex := fun _ => next }

theorem views_sampleLeader (term : Nat) (entries : List (LogEntry Nat)) (commitIndex next : Nat) :
    (sampleLeader term entries commitIndex next).Views entries := ⟨rfl, Nat.zero_le _, rfl⟩

theorem delayed_appendEntries_harmless_overtaken :
    ∃ m₁ m₂ : AppendEntriesArgs 2 Nat, (sampleLeader 1 [⟨1, some 7⟩] 0 1).buildRequest 1 [] =
        some (sampleLeader 1 [⟨1, some 7⟩] 0 1, some (.append m₁)) ∧
      (sampleLeader 1 [⟨1, some 7⟩, ⟨1, some 8⟩] 1 1).buildRequest 1 [] =
        some (sampleLeader 1 [⟨1, some 7⟩, ⟨1, some 8⟩] 1 1, some (.append m₂)) ∧
      (((fresh 1 : Raft 2 Nat).appendEntries m₂).1.appendEntries m₁).1.log =
        ⟨⟨0, none⟩, [⟨1, some 7⟩, ⟨1, some 8⟩]⟩ ∧
      (((fresh 1 : Raft 2 Nat).appendEntries m₂).1.appendEntries m₁).2.1.success = true := by
  have hhar := @delayed_appendEntries_harmless 2 Nat _ _ _ _ (fresh 1) _ _ [] 1 [] [] _ _
    (views_sampleLeader 1 [⟨1, some 7⟩] 0 1) (views_sampleLeader 1 [⟨1, some 7⟩, ⟨1, some 8⟩] 1 1)
    ⟨rfl, Nat.le_refl _, rfl⟩ nofun rfl ⟨[⟨1, some 8⟩], rfl⟩ (by decide)
    rfl rfl rfl
  exact ⟨_, _, rfl, rfl, hhar.1.trans rfl, hhar.2.2 (Nat.zero_le _)⟩

/-- Where one log has a term at some index and the other has it there or later, the other
has it at that index as well. -/
def Runs (L M : List (LogEntry Cmd)) : Prop :=
  ∀ i j, 1 ≤ i → i ≤ j → i ≤ L.length → j ≤ M.length →
    termAt LogEntry.term L i = termAt LogEntry.term M j →
      termAt LogEntry.term M i = termAt LogEntry.term M j

structure Replication (n : Nat) (Cmd : Type) where
  leader : Raft n Cmd
  follower : Raft n Cmd
  success : Bool := false

namespace Replication

def round (server : Fin n) (data : Bytes) (r : Replication n Cmd) : Option (Replication n Cmd) :=
  match r.leader.buildRequest server data with
  | none => none
  | some (leader, some (.append args)) =>
    (r.follower.appendEntries? args).map fun (follower, reply, _) =>
      ⟨(leader.handleAppendReply server args reply).1, follower, reply.success⟩
  | some (leader, _) => some { r with leader := leader }

def finished (server : Fin n) (r : Replication n Cmd) : Bool :=
  r.success || decide (r.leader.nextIndex server ≤ r.leader.lastIncludedIndex)

def rounds (server : Fin n) (data : Bytes) : Nat → Replication n Cmd → Option (Replication n Cmd)
  | 0, r => some r
  | fuel + 1, r =>
    if r.finished server then some r
    else (r.round server data).bind (rounds server data fuel)

structure Agrees (r : Replication n Cmd) : Prop where
  success : r.success = true
  last : r.leader.getLastLogIndex ≤ r.follower.getLastLogIndex
  entries : ∀ i, r.leader.lastIncludedIndex < i → r.follower.lastIncludedIndex < i →
    i ≤ r.leader.getLastLogIndex → r.follower.entryAt i = r.leader.entryAt i

structure Ready (server : Fin n) (L F : List (LogEntry Cmd)) (r : Replication n Cmd) : Prop where
  leads : r.leader.state = .leader
  leader : r.leader.Views L
  dummy : r.leader.log.dummy.term = r.leader.lastIncludedTerm
  follower : r.follower.Views F
  term : r.follower.currentTerm ≤ r.leader.currentTerm
  pos : 1 ≤ r.leader.nextIndex server
  next : r.leader.nextIndex server ≤ L.length + 1
  snapshot : r.follower.lastIncludedIndex ≤ L.length
  agree : termAt LogEntry.term L r.follower.lastIncludedIndex =
    termAt LogEntry.term F r.follower.lastIncludedIndex

def rank (server : Fin n) (r : Replication n Cmd) : Nat :=
  if r.leader.nextIndex server ≤ r.follower.lastIncludedIndex then 2
  else if r.leader.nextIndex server = r.follower.lastIncludedIndex + 1 then 1
  else r.leader.nextIndex server

end Replication

section

variable {leader follower : Raft n Cmd} {L F : List (LogEntry Cmd)} {server : Fin n}
  {args : AppendEntriesArgs n Cmd}

theorem firstIndexOfTerm_le (rf : Raft n Cmd) (term index : Nat) :
    rf.firstIndexOfTerm term index ≤ index := by
  induction index with
  | zero => exact Nat.le_refl 0
  | succ index ih =>
    rw [firstIndexOfTerm]
    split_ifs
    · omega
    · omega

theorem of_lastIndexOfTerm {rf : Raft n Cmd} {term : Int} {k m : Nat}
    (h : rf.lastIndexOfTerm term k = some m) :
    ∃ i, m = rf.lastIncludedIndex + i ∧
      ((rf.log.get? i).map fun e => (e.term : Int)) = some term := by
  induction k with
  | zero => cases h
  | succ k ih =>
    rw [lastIndexOfTerm] at h
    split_ifs at h with hfound
    · exact ⟨k, (Option.some.inj h).symm, hfound⟩
    · exact ih h

theorem Views.of_lastIndexOfTerm (h : leader.Views L)
    (hdummy : leader.log.dummy.term = leader.lastIncludedTerm) {term : Int} {k m : Nat}
    (hfound : leader.lastIndexOfTerm term k = some m) :
    m ≤ L.length ∧ (termAt LogEntry.term L m : Int) = term := by
  obtain ⟨i, rfl, hget⟩ := Raft.of_lastIndexOfTerm hfound
  cases i with
  | zero =>
    cases hget
    refine ⟨h.included, ?_⟩
    rw [Nat.add_zero, ← h.term, ← hdummy]
  | succ i =>
    rw [RaftLog.get?_succ, h.entries, List.getElem?_drop] at hget
    obtain ⟨e, he, rfl⟩ := map_eq_some_iff.mp hget
    have hlt := (List.getElem?_eq_some_iff.mp he).1
    refine ⟨by omega, ?_⟩
    rw [← Nat.add_assoc, termAt_of_getElem? LogEntry.term he]

theorem backUp_le (hlea : leader.Views L) (hdummy : leader.log.dummy.term = leader.lastIncludedTerm)
    (hfol : follower.Views F) (hruns : Runs F L) (hargs : args.Carries L)
    (hfrom : follower.lastIncludedIndex ≤ args.prevLogIndex) (hpos : 1 ≤ args.prevLogIndex)
    {conflict : Int × Nat} (hmis : follower.mismatch args = some conflict) (term : Nat) :
    leader.backUp ⟨term, false, conflict.1, conflict.2⟩ ≤ args.prevLogIndex := by
  unfold mismatch at hmis
  rw [if_neg (not_lt.mpr hfrom)] at hmis
  split_ifs at hmis with hshort hterm
  · -- the follower's log is too short
    cases hmis
    rw [backUp, if_pos rfl]
    dsimp only
    omega
  · cases hmis
    have hne : ((follower.getTerm args.prevLogIndex : Nat) : Int) ≠ -1 := by omega
    have hfirst :=
      firstIndexOfTerm_le follower (follower.getTerm args.prevLogIndex) args.prevLogIndex
    rw [backUp, if_neg hne]
    dsimp only
    split
    · -- the leader has the follower's term, but only below the previous index
      rename_i m hm
      obtain ⟨hmL, hmterm⟩ := hlea.of_lastIndexOfTerm hdummy hm
      rw [hfol.getTerm hfrom] at hmterm hterm
      rw [hfol.getLastLogIndex] at hshort
      have hlt : m < args.prevLogIndex := by
        by_contra hle
        have hrun := hruns args.prevLogIndex m hpos (by omega) (by omega) hmL
          (Int.natCast_inj.mp hmterm).symm
        rw [hargs.prev_term, hrun, Int.natCast_inj.mp hmterm] at hterm
        exact hterm rfl
      omega
    · omega

theorem mismatch_below (hviews : follower.Views F)
    (h : args.prevLogIndex < follower.lastIncludedIndex) :
    follower.mismatch args = some (-1, follower.lastIncludedIndex + 1) := by
  have hlen := hviews.included
  rw [mismatch, hviews.getLastLogIndex, if_neg (by omega), if_pos h]

theorem mismatch_at_snapshot (hviews : follower.Views F) (hargs : args.Carries L)
    (hagree : termAt LogEntry.term L follower.lastIncludedIndex =
      termAt LogEntry.term F follower.lastIncludedIndex)
    (h : args.prevLogIndex = follower.lastIncludedIndex) : follower.mismatch args = none := by
  have hlen := hviews.included
  have hterm : follower.getTerm args.prevLogIndex = args.prevLogTerm := by
    rw [hviews.getTerm h.ge, hargs.prev_term, h, hagree]
  rw [mismatch, hviews.getLastLogIndex, if_neg (by omega), if_neg (by omega),
    if_neg (not_not.mpr hterm)]

theorem Views.buildRequest (h : leader.Views L)
    (hnext : leader.lastIncludedIndex < leader.nextIndex server)
    (hlast : leader.nextIndex server ≤ L.length + 1) (data : Bytes) :
    ∃ args, leader.buildRequest server data = some (leader, some (.append args)) := by
  unfold Raft.buildRequest
  rw [if_neg (by omega)]
  dsimp only
  split_ifs with hprev
  · exact ⟨_, rfl⟩
  · have hlt : leader.nextIndex server - 1 - 1 < L.length := by omega
    rw [h.get? (by omega), List.getElem?_eq_getElem hlt]
    exact ⟨_, rfl⟩

theorem handleAppendReply_eq (server : Fin n) {reply : AppendEntriesReply}
    (hleads : leader.state = .leader) (hterm : args.term = leader.currentTerm)
    (hrep : ¬leader.currentTerm < reply.term) :
    ∃ commit, (leader.handleAppendReply server args reply).1 =
      { leader.noteReply server args reply with commitIndex := commit } := by
  unfold handleAppendReply
  rw [if_neg (by simp [hleads, hterm]), if_neg hrep]
  exact (leader.noteReply server args reply).advanceCommit_eq _

end

namespace Replication

variable {r : Replication n Cmd} {L F : List (LogEntry Cmd)} {server : Fin n}

theorem agrees_of_accepted {leader follower : Raft n Cmd} {F' : List (LogEntry Cmd)}
    (hlea : leader.Views L) (hfol : follower.Views F') (hfr : L <+: F') :
    Agrees ⟨leader, follower, true⟩ := by
  refine ⟨rfl, ?_, fun i hi hi' hlast => ?_⟩
  · rw [hlea.getLastLogIndex, hfol.getLastLogIndex]
    exact hfr.length_le
  · rw [hlea.getLastLogIndex] at hlast
    have hlt : i - 1 < L.length := by
      dsimp only at hi
      omega
    have hL : L[i - 1]? = some L[i - 1] := List.getElem?_eq_getElem hlt
    rw [hlea.entryAt hi, hfol.entryAt hi', hL]
    exact getElem?_of_isPrefix hfr hL

section

variable (h : r.Ready server L F) (hmatch : Matching LogEntry.term F L) (hruns : Runs F L)

include h hmatch hruns

theorem Ready.round
    (hopen : r.leader.lastIncludedIndex < r.leader.nextIndex server) (data : Bytes) :
    ∃ r', r.round server data = some r' ∧
      (r'.Agrees ∨ r'.success = false ∧ r'.Ready server L F ∧ r'.rank server < r.rank server) := by
  obtain ⟨args, hbd⟩ := h.leader.buildRequest hopen h.next data
  obtain ⟨hterm, -, hprev, -⟩ := buildRequest_append hbd
  have hargs := h.leader.carries hbd
  have hcur : ¬args.term < r.follower.currentTerm := by
    have := h.term
    omega
  have hviews := h.follower.acceptTerm args
  have hinc : (r.follower.acceptTerm args).lastIncludedIndex = r.follower.lastIncludedIndex :=
    acceptTerm_lastIncludedIndex args
  unfold Replication.round
  rw [hbd]
  dsimp only
  rw [appendEntries?_eq, map_some]
  refine ⟨_, rfl, ?_⟩
  cases hmis : (r.follower.acceptTerm args).mismatch args with
  | none =>
    left
    obtain ⟨-, hrep⟩ := appendEntries_accepted hcur hmis
    obtain ⟨F', hF', hfr⟩ := h.follower.accepted hmatch hargs (by rw [hrep])
    have hsame : SameLog r.leader (r.leader.handleAppendReply server args
        (r.follower.appendEntries args).2.1).1 := r.leader.sameLog_handleAppendReply server args _
    rw [hrep] at hsame ⊢
    exact agrees_of_accepted (hsame.views h.leader) hF' hfr
  | some conflict =>
    right
    rw [appendEntries_rejected hcur hmis]
    dsimp only
    have hnotHigher : ¬r.leader.currentTerm <
        (⟨args.term, false, conflict.1, conflict.2⟩ : AppendEntriesReply).term := hterm.le.not_gt
    obtain ⟨commit, hlea⟩ := handleAppendReply_eq server h.leads hterm hnotHigher
    have hnext : (r.leader.handleAppendReply server args
        ⟨args.term, false, conflict.1, conflict.2⟩).1.nextIndex server =
        r.leader.backUp ⟨args.term, false, conflict.1, conflict.2⟩ := by
      rw [hlea]
      exact Function.update_self ..
    have hsame : SameLog r.leader (r.leader.handleAppendReply server args
        ⟨args.term, false, conflict.1, conflict.2⟩).1 :=
      r.leader.sameLog_handleAppendReply server args _
    have hpos : 1 ≤ r.leader.backUp ⟨args.term, false, conflict.1, conflict.2⟩ := by
      rw [backUp]
      exact Nat.le_max_left ..
    have hmove : r.leader.backUp ⟨args.term, false, conflict.1, conflict.2⟩ ≤ L.length + 1 ∧
        ((r.leader.nextIndex server ≤ r.follower.lastIncludedIndex ∧
          r.leader.backUp ⟨args.term, false, conflict.1, conflict.2⟩ =
            r.follower.lastIncludedIndex + 1) ∨
        (r.follower.lastIncludedIndex + 1 < r.leader.nextIndex server ∧
          r.leader.backUp ⟨args.term, false, conflict.1, conflict.2⟩ <
            r.leader.nextIndex server)) := by
      have hsnap := h.snapshot
      have hprevL := hargs.prev_le
      by_cases hbelow : args.prevLogIndex < r.follower.lastIncludedIndex
      · -- up, to the end of the follower's snapshot
        rw [mismatch_below hviews (hinc ▸ hbelow), hinc] at hmis
        cases hmis
        rw [backUp, if_pos rfl]
        dsimp only
        omega
      · have hne : args.prevLogIndex ≠ r.follower.lastIncludedIndex := by
          intro heq
          rw [mismatch_at_snapshot hviews hargs (hinc ▸ h.agree) (heq.trans hinc.symm)] at hmis
          cases hmis
        have hdown := backUp_le h.leader h.dummy hviews hruns hargs (by omega) (by omega) hmis
          args.term
        omega
    refine ⟨rfl, ?_, ?_⟩
    · exact {
        leads := by
          rw [hlea]
          exact h.leads
        leader := hsame.views h.leader
        dummy := by
          rw [hlea]
          exact h.dummy
        follower := hviews
        term := by
          rw [hlea]
          exact (r.follower.acceptTerm_currentTerm hcur).trans_le hterm.le
        pos := hnext ▸ hpos
        next := hnext ▸ hmove.1
        snapshot := hinc ▸ h.snapshot
        agree := hinc ▸ h.agree }
    · unfold rank
      dsimp only
      rw [hnext, hinc]
      split_ifs <;> omega

theorem Ready.rounds (data : Bytes) (fuel : Nat) (hfresh : r.success = false) :
    ∃ r', r.rounds server data fuel = some r' ∧ (r.rank server ≤ fuel → r'.Agrees ∨
        r'.leader.nextIndex server ≤ r'.leader.lastIncludedIndex) := by
  induction fuel generalizing r with
  | zero =>
    refine ⟨r, rfl, fun hrank => ?_⟩
    have hpos := h.pos
    unfold rank at hrank
    split_ifs at hrank <;> omega
  | succ fuel ih =>
    rw [Replication.rounds]
    by_cases hopen : r.leader.lastIncludedIndex < r.leader.nextIndex server
    · have hgoing : r.finished server = false := by
        rw [finished, hfresh, Bool.false_or, decide_eq_false_iff_not]
        omega
      obtain ⟨r₁, hround, hnext⟩ := h.round hmatch hruns hopen data
      rw [hgoing, if_neg Bool.false_ne_true, hround, bind_some]
      rcases hnext with hagr | ⟨hfai, hrdy, hrank⟩
      · -- an exchange that has succeeded stays as it is
        have hdone : r₁.rounds server data fuel = some r₁ := by
          cases fuel with
          | zero => rfl
          | succ fuel =>
            rw [Replication.rounds, finished, hagr.success, Bool.true_or, if_pos rfl]
        exact ⟨r₁, hdone, fun _ => Or.inl hagr⟩
      · obtain ⟨r₂, hrou, hend⟩ := ih hrdy hfai
        exact ⟨r₂, hrou, fun hle => hend (by omega)⟩
    · have hdone : r.finished server = true := by
        rw [finished, hfresh, Bool.false_or, decide_eq_true_iff]
        omega
      rw [hdone, if_pos rfl]
      exact ⟨r, rfl, fun _ => Or.inr (by omega)⟩

end

/-- The loop of a leader with log `L` and a follower with log `F`: no round indexes a log
out of range, and after at most `nextIndex + 1` rounds the follower has replied with success
and holds the whole log of the leader, or the leader goes on with `InstallSnapshot`. -/
theorem fast_backup_terminates {leader follower : Raft n Cmd} (hleads : leader.state = .leader)
    (hL : leader.Views L) (hdummy : leader.log.dummy.term = leader.lastIncludedTerm)
    (hF : follower.Views F) (hmatch : Matching LogEntry.term F L) (hruns : Runs F L)
    (hsnap : follower.lastIncludedIndex ≤ L.length)
    (hagree : termAt LogEntry.term L follower.lastIncludedIndex =
      termAt LogEntry.term F follower.lastIncludedIndex)
    (hterm : follower.currentTerm ≤ leader.currentTerm) (hpos : 1 ≤ leader.nextIndex server)
    (hlast : leader.nextIndex server ≤ leader.getLastLogIndex + 1) (data : Bytes) (fuel : Nat) :
    ∃ r, Replication.rounds server data fuel ⟨leader, follower, false⟩ = some r ∧
      (leader.nextIndex server + 1 ≤ fuel →
        r.Agrees ∨ r.leader.nextIndex server ≤ r.leader.lastIncludedIndex) := by
  have hrdy : Ready server L F ⟨leader, follower, false⟩ :=
    ⟨hleads, hL, hdummy, hF, hterm, hpos, hL.getLastLogIndex ▸ hlast, hsnap, hagree⟩
  obtain ⟨r, hrou, hend⟩ := hrdy.rounds hmatch hruns data fuel rfl
  refine ⟨r, hrou, fun hfuel => hend ?_⟩
  unfold rank
  dsimp only
  split_ifs <;> omega

def strayFollower : Raft 2 Nat :=
  { (fresh 1 : Raft 2 Nat) with
    currentTerm := 2
    log := ⟨⟨0, none⟩, [⟨1, some 7⟩, ⟨2, some 5⟩, ⟨2, some 6⟩]⟩ }

theorem fast_backup_terminates_stray : ∃ r,
    rounds 1 [] 5 ⟨sampleLeader 4 [⟨1, some 7⟩, ⟨1, some 8⟩, ⟨3, some 9⟩] 0 4, strayFollower,
      false⟩ = some r ∧ r.success = true ∧
    (r.Agrees ∨ r.leader.nextIndex 1 ≤ r.leader.lastIncludedIndex) := by
  have hmatch : Matching LogEntry.term [⟨1, some 7⟩, ⟨2, some 5⟩, ⟨2, some 6⟩]
      ([⟨1, some 7⟩, ⟨1, some 8⟩, ⟨3, some 9⟩] : List (LogEntry Nat)) := by
    intro i d e hd he hterm
    rcases i with _ | _ | _ | i <;> simp_all
    · subst hd he
      cases hterm
    · subst hd he
      cases hterm
  have hruns : Runs [⟨1, some 7⟩, ⟨2, some 5⟩, ⟨2, some 6⟩]
      ([⟨1, some 7⟩, ⟨1, some 8⟩, ⟨3, some 9⟩] : List (LogEntry Nat)) := by
    have hsmall : ∀ i < 4, ∀ j < 4, 1 ≤ i → i ≤ j →
        termAt LogEntry.term ([⟨1, some 7⟩, ⟨2, some 5⟩, ⟨2, some 6⟩] : List (LogEntry Nat)) i =
          termAt LogEntry.term [⟨1, some 7⟩, ⟨1, some 8⟩, ⟨3, some 9⟩] j →
        termAt LogEntry.term ([⟨1, some 7⟩, ⟨1, some 8⟩, ⟨3, some 9⟩] : List (LogEntry Nat)) i =
          termAt LogEntry.term [⟨1, some 7⟩, ⟨1, some 8⟩, ⟨3, some 9⟩] j := by
      decide
    exact fun i j hi hij hiL hjL =>
      hsmall i (Nat.lt_succ_of_le hiL) j (Nat.lt_succ_of_le hjL) hi hij
  obtain ⟨r, hrou, hend⟩ := @fast_backup_terminates 2 Nat _ _ 1 _ strayFollower rfl
    (views_sampleLeader 4 [⟨1, some 7⟩, ⟨1, some 8⟩, ⟨3, some 9⟩] 0 4) rfl
    ⟨rfl, Nat.zero_le _, rfl⟩ hmatch hruns (Nat.zero_le _) rfl
    (by decide) (by decide) (by decide) [] 5
  refine ⟨r, hrou, ?_, hend (by decide)⟩
  have hsuc := congrArg (Option.map Replication.success) hrou
  exact (Option.some.inj hsuc).symm

end Replication

end Raft

end OrbisKV
