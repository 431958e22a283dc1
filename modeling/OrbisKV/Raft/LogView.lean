import OrbisKV.Raft.Saves
import OrbisKV.Raft.Speaker
/-!
# The log behind a snapshot

A node keeps the entries above `lastIncludedIndex`.
-/

namespace OrbisKV

open Lib.TermLog List Raft RaftLog

variable {n : Nat} {Cmd : Type}

def RequestVoteArgs.Describes (args : RequestVoteArgs n) (S : List (LogEntry Cmd)) : Prop :=
  args.lastLogIndex = S.length ∧ args.lastLogTerm = lastTerm LogEntry.term S

structure AppendEntriesArgs.Carries (args : AppendEntriesArgs n Cmd)
    (S : List (LogEntry Cmd)) : Prop where
  prev_le : args.prevLogIndex ≤ S.length
  prev_term : args.prevLogTerm = termAt LogEntry.term S args.prevLogIndex
  entries : args.entries = S.drop args.prevLogIndex

namespace Raft

variable {rf : Raft n Cmd} {L S : List (LogEntry Cmd)}
  {rf' : Raft n Cmd} {args : AppendEntriesArgs n Cmd}

structure Views (rf : Raft n Cmd) (L : List (LogEntry Cmd)) : Prop where
  entries : rf.log.entries = L.drop rf.lastIncludedIndex
  included : rf.lastIncludedIndex ≤ L.length
  term : rf.lastIncludedTerm = termAt LogEntry.term L rf.lastIncludedIndex

section

variable (h : rf.Views L)

include h

theorem Views.congr (hlog : rf'.log = rf.log) (hix : rf'.lastIncludedIndex = rf.lastIncludedIndex)
    (hterm : rf'.lastIncludedTerm = rf.lastIncludedTerm) : rf'.Views L := by
  refine ⟨?_, ?_, ?_⟩
  · rw [hlog, hix, h.entries]
  · rw [hix]
    exact h.included
  · rw [hterm, hix, h.term]

theorem Views.getLastLogIndex : rf.getLastLogIndex = L.length := by
  rw [getLastLogIndex_eq, h.entries, length_drop]
  have := h.included
  omega

theorem Views.get? {i : Nat} (hi : rf.lastIncludedIndex < i) :
    rf.log.get? (i - rf.lastIncludedIndex) = L[i - 1]? := by
  rw [get?_of_pos _ (by omega), h.entries, List.getElem?_drop]
  congr 1
  omega

theorem Views.entryAt {i : Nat} (hi : rf.lastIncludedIndex < i) : rf.entryAt i = L[i - 1]? := by
  rw [Raft.entryAt, if_neg (by omega), h.get? hi]

theorem Views.getTerm {i : Nat} (hi : rf.lastIncludedIndex ≤ i) :
    rf.getTerm i = termAt LogEntry.term L i := by
  unfold Raft.getTerm
  split
  · have : i = rf.lastIncludedIndex := by omega
    rw [this, h.term]
  · rw [h.get? (by omega)]
    obtain ⟨j, rfl⟩ : ∃ j, i = j + 1 := ⟨i - 1, by omega⟩
    rfl

theorem Views.getLastLogTerm : rf.getLastLogTerm = lastTerm LogEntry.term L := by
  rw [Raft.getLastLogTerm, h.getTerm (by rw [h.getLastLogIndex]; exact h.included),
    h.getLastLogIndex]
  rfl

theorem Views.upToDate {args : RequestVoteArgs n} (hargs : args.Describes S)
    (hout : rf.outdated args = false) : UpToDate LogEntry.term S L := by
  unfold outdated at hout
  rw [h.getLastLogTerm, h.getLastLogIndex, hargs.1, hargs.2] at hout
  simp only [Bool.or_eq_false_iff, decide_eq_false_iff_not, Bool.and_eq_false_iff,
    beq_eq_false_iff_ne] at hout
  rintro (hlt | ⟨heq, hlt⟩)
  · exact hout.1 hlt
  · rcases hout.2 with hne | hnlt
    · exact hne heq
    · exact hnlt hlt

end

theorem acceptTerm_log (args : AppendEntriesArgs n Cmd) : (rf.acceptTerm args).log = rf.log := by
  unfold acceptTerm catchUp
  split <;> rfl

theorem acceptTerm_lastIncludedIndex (args : AppendEntriesArgs n Cmd) :
    (rf.acceptTerm args).lastIncludedIndex = rf.lastIncludedIndex := by
  unfold acceptTerm catchUp
  split <;> rfl

theorem acceptTerm_lastIncludedTerm (args : AppendEntriesArgs n Cmd) :
    (rf.acceptTerm args).lastIncludedTerm = rf.lastIncludedTerm := by
  unfold acceptTerm catchUp
  split <;> rfl

theorem mismatch_eq_none (h : rf.mismatch args = none) :
    rf.lastIncludedIndex ≤ args.prevLogIndex ∧ args.prevLogIndex ≤ rf.getLastLogIndex ∧
      rf.getTerm args.prevLogIndex = args.prevLogTerm := by
  unfold mismatch at h
  split_ifs at h with _ _ hterm
  exact ⟨by omega, by omega, not_not.mp hterm⟩

def termEnqueued (rf : Raft n Cmd) (args : AppendEntriesArgs n Cmd) : Enqueued :=
  if rf.currentTerm < args.term then .hardState else .nothing

theorem appendEntries_cases (rf : Raft n Cmd) (args : AppendEntriesArgs n Cmd) :
    (args.term < rf.currentTerm ∧
      rf.appendEntries args = (rf, ⟨rf.currentTerm, false, 0, 0⟩, .nothing)) ∨
    (¬ args.term < rf.currentTerm ∧ ∃ conflictTerm conflictIndex,
      rf.appendEntries args = (rf.acceptTerm args,
        ⟨args.term, false, conflictTerm, conflictIndex⟩, rf.termEnqueued args)) ∨
    (¬ args.term < rf.currentTerm ∧ (rf.acceptTerm args).mismatch args = none ∧ ∃ log changed,
        (rf.acceptTerm args).mergeEntries (args.prevLogIndex + 1) args.entries = (log, changed) ∧
        rf.appendEntries args =
          ({ rf.acceptTerm args with log := log }.learnCommit args.leaderCommit,
            ⟨args.term, true, 0, 0⟩,
            if changed then .raftState else rf.termEnqueued args)) := by
  unfold appendEntries
  by_cases hstale : args.term < rf.currentTerm
  · rw [if_pos hstale]
    exact .inl ⟨hstale, rfl⟩
  · rw [if_neg hstale]
    dsimp only
    rw [rf.acceptTerm_currentTerm hstale]
    split
    · exact .inr (.inl ⟨hstale, _, _, rfl⟩)
    · exact .inr (.inr ⟨hstale, ‹_›, _, _, rfl, rfl⟩)

/-- The merge loop, started where the logs agree: either the sender's log is a prefix
of the log here, or the logs differ at some position and the sender's log is taken. -/
theorem Views.mergeEntries (h : rf.Views L) (hLS : Matching LogEntry.term L S) {k : Nat}
    (hk : rf.lastIncludedIndex ≤ k) (hkS : k ≤ S.length) (htake : L.take k = S.take k) :
    (rf.mergeEntries (k + 1) (S.drop k) = (rf.log, false) ∧ S <+: L) ∨
    (∃ log x, rf.mergeEntries (k + 1) (S.drop k) = (log, true) ∧ k ≤ x ∧ x < S.length ∧
      L.take x = S.take x ∧ L[x]? ≠ S[x]? ∧ log.dummy = rf.log.dummy ∧
      log.entries = S.drop rf.lastIncludedIndex) := by
  -- induction on the entries that are left, the position moves with it
  obtain ⟨m, hm⟩ : ∃ m, m = S.length - k := ⟨_, rfl⟩
  induction m generalizing k with
  | zero =>
    left
    have hdrop : S.drop k = [] := drop_eq_nil_of_le (by omega)
    refine ⟨by rw [hdrop]; rfl, ?_⟩
    have hall : S.take k = S := take_of_length_le (by omega)
    rw [← hall, ← htake]
    exact take_prefix _ _
  | succ m ih =>
    have hlt : k < S.length := by omega
    have hkL : k ≤ L.length := le_length_of_take_eq htake.symm hkS
    have hcons : S.drop k = S[k] :: S.drop (k + 1) := drop_eq_getElem_cons hlt
    have hSk : S[k]? = some S[k] := List.getElem?_eq_getElem hlt
    have htaken : (L.take k).drop rf.lastIncludedIndex ++ S.drop k =
        S.drop rf.lastIncludedIndex := by
      rw [htake, ← drop_append_of_le_length (by rw [length_take]; omega),
        take_append_drop]
    rw [hcons]
    unfold Raft.mergeEntries
    rw [h.getLastLogIndex, h.getTerm (by omega)]
    by_cases hend : L.length < k + 1
    · -- the log here ends before the entry
      rw [if_pos hend, ← hcons]
      have hall : L.take k = L := take_of_length_le (by omega)
      refine .inr ⟨_, k, rfl, Nat.le_refl _, hlt, htake, ?_, rfl, ?_⟩
      · rw [List.getElem?_eq_none (by omega), hSk]
        simp
      · rw [append_entries, h.entries]
        nth_rewrite 1 [← hall]
        exact htaken
    · rw [if_neg hend]
      have hLk : L[k]? = some L[k] := List.getElem?_eq_getElem (by omega)
      rw [termAt_of_getElem? LogEntry.term hLk]
      by_cases hterm : L[k].term ≠ S[k].term
      · -- the first conflict
        rw [if_pos hterm, ← hcons]
        refine .inr ⟨_, k, rfl, Nat.le_refl _, hlt, htake, ?_, rfl, ?_⟩
        · rw [hLk, hSk]
          intro heq
          exact hterm (congrArg LogEntry.term (Option.some.inj heq))
        · rw [append_entries, cut_entries, h.entries,
            show max (k + 1 - rf.lastIncludedIndex) 1 - 1 = k - rf.lastIncludedIndex by omega,
            ← drop_take]
          exact htaken
      · rw [if_neg hterm]
        have hnext := hLS k _ _ hLk hSk (not_not.mp hterm)
        rcases ih (by omega) hlt hnext (by omega) with hpre | ⟨log, x, hlog, hx, hrest⟩
        · exact .inl hpre
        · exact .inr ⟨log, x, hlog, by omega, hrest⟩

theorem Views.acceptTerm (h : rf.Views L) (args : AppendEntriesArgs n Cmd) :
    (rf.acceptTerm args).Views L :=
  h.congr (acceptTerm_log args) (acceptTerm_lastIncludedIndex args)
    (acceptTerm_lastIncludedTerm args)

theorem appendEntries_included (rf : Raft n Cmd) (args : AppendEntriesArgs n Cmd) :
    (rf.appendEntries args).1.lastIncludedIndex = rf.lastIncludedIndex ∧
      (rf.appendEntries args).1.lastIncludedTerm = rf.lastIncludedTerm := by
  rcases rf.appendEntries_cases args with
    ⟨_, heq⟩ | ⟨_, _, _, heq⟩ | ⟨_, _, log, _, _, heq⟩
  · rw [heq]
    exact ⟨rfl, rfl⟩
  · rw [heq]
    exact ⟨acceptTerm_lastIncludedIndex args, acceptTerm_lastIncludedTerm args⟩
  · obtain ⟨k, hk⟩ := learnCommit_eq { rf.acceptTerm args with log := log } args.leaderCommit
    rw [heq, hk]
    exact ⟨acceptTerm_lastIncludedIndex args, acceptTerm_lastIncludedTerm args⟩

section

variable (h : rf.Views L)

include h

theorem Views.learnCommit (leaderCommit : Nat) : (rf.learnCommit leaderCommit).Views L := by
  obtain ⟨k, hk⟩ := rf.learnCommit_eq leaderCommit
  rw [hk]
  exact h.congr rfl rfl rfl

/-- A successful `AppendEntries`: the logs agree up to the previous index, and the log
here holds all entries of the sender's or becomes the sender's. -/
theorem Views.merged (hLS : Matching LogEntry.term L S) (hargs : args.Carries S)
    (hmatch : rf.mismatch args = none) {log : RaftLog Cmd} {changed : Bool}
    (hmg : rf.mergeEntries (args.prevLogIndex + 1) args.entries = (log, changed)) :
    (changed = false ∧ S <+: L ∧ { rf with log := log }.Views L) ∨
    (changed = true ∧ { rf with log := log }.Views S ∧
      ∃ x, x < S.length ∧ L[x]? ≠ S[x]?) := by
  obtain ⟨hfrom, hto, hterm⟩ := mismatch_eq_none hmatch
  rw [h.getLastLogIndex] at hto
  have htake : L.take args.prevLogIndex = S.take args.prevLogIndex := by
    refine hLS.take_eq_of_termAt hto hargs.prev_le ?_
    rw [← h.getTerm hfrom, hterm, hargs.prev_term]
  rw [hargs.entries] at hmg
  rcases h.mergeEntries hLS hfrom hargs.prev_le htake with
    ⟨heq, hpre⟩ | ⟨log', x, heq, _, hx, _, hne, _, hent⟩
  · rw [heq] at hmg
    cases hmg
    exact .inl ⟨rfl, hpre, h.congr rfl rfl rfl⟩
  · rw [heq] at hmg
    cases hmg
    refine .inr ⟨rfl, ⟨hent, hfrom.trans hargs.prev_le, ?_⟩, x, hx, hne⟩
    change rf.lastIncludedTerm = _
    rw [h.term]
    exact termAt_eq_of_take_eq LogEntry.term htake hfrom

theorem Views.appendEntries {G : Nat → List (LogEntry Cmd)}
    (hL : Grown LogEntry.term G L) (hS : Grown LogEntry.term G S) (hargs : args.Carries S) :
    (rf.appendEntries args).1.Views L ∨
    ((rf.appendEntries args).1.Views S ∧ (rf.appendEntries args).1.state = .follower) := by
  rcases rf.appendEntries_cases args with
    ⟨_, heq⟩ | ⟨_, _, _, heq⟩ | ⟨_, hmatch, log, changed, hmg, heq⟩
  · rw [heq]
    exact .inl h
  · rw [heq]
    exact .inl (h.acceptTerm args)
  · rw [heq]
    rcases (h.acceptTerm args).merged (hL.matching hS) hargs hmatch hmg with
      ⟨_, _, hold⟩ | ⟨_, hnew, _⟩
    · exact .inl (hold.learnCommit _)
    · refine .inr ⟨hnew.learnCommit _, ?_⟩
      obtain ⟨k, hk⟩ := learnCommit_eq { rf.acceptTerm args with log := log }
        args.leaderCommit
      rw [hk]
      rfl

theorem Views.start {command : Option Cmd} (hsta : rf.start command = some rf') :
    rf'.Views (L ++ [⟨rf.currentTerm, command⟩]) := by
  unfold Raft.start at hsta
  split_ifs at hsta
  cases hsta
  have hle := h.included
  refine ⟨?_, ?_, ?_⟩
  · change rf.log.entries ++ _ = _
    rw [h.entries, drop_append_of_le_length hle]
  · change rf.lastIncludedIndex ≤ _
    rw [length_append]
    omega
  · change rf.lastIncludedTerm = termAt _ _ rf.lastIncludedIndex
    rw [h.term]
    refine termAt_eq_of_take_eq LogEntry.term (j := L.length) ?_ hle
    rw [take_append_of_le_length (Nat.le_refl _)]

theorem Views.snapshot {index : Nat} {taken : Bool}
    (hsnap : rf.snapshot index = some (rf', taken)) : rf'.Views L := by
  unfold Raft.snapshot at hsnap
  split at hsnap
  · cases hsnap
    exact h
  · split at hsnap
    · cases hsnap
      exact h
    · rename_i hnew _
      dsimp only at hsnap
      rw [h.get? (by omega)] at hsnap
      split at hsnap
      · cases hsnap
      · rename_i entry hentry
        cases hsnap
        have hlt := (List.getElem?_eq_some_iff.mp hentry).1
        refine ⟨?_, ?_, ?_⟩
        · change rf.log.entries.drop (index - rf.lastIncludedIndex) = L.drop index
          rw [h.entries, drop_drop]
          congr 1
          omega
        · change index ≤ L.length
          omega
        · change entry.term = termAt _ L index
          have := termAt_of_getElem? LogEntry.term hentry
          rw [Nat.sub_add_cancel (by omega)] at this
          exact this.symm

/-- An installed snapshot of the first entries of `S` leaves the log as it was, where
both agree, or replaces it by these entries. -/
theorem Views.install {G : Nat → List (LogEntry Cmd)}
    (hL : Grown LogEntry.term G L) (hS : Grown LogEntry.term G S)
    {args : InstallSnapshotArgs n} (hnew : rf.lastIncludedIndex < args.lastIncludedIndex)
    (hlen : args.lastIncludedIndex ≤ S.length)
    (hterm : args.lastIncludedTerm = termAt LogEntry.term S args.lastIncludedIndex) :
    (L.take args.lastIncludedIndex = S.take args.lastIncludedIndex ∧ (rf.install args).Views L) ∨
    (L[args.lastIncludedIndex - 1]? ≠ S[args.lastIncludedIndex - 1]? ∧
      (rf.install args).Views (S.take args.lastIncludedIndex)) := by
  obtain ⟨i, hi⟩ : ∃ i, args.lastIncludedIndex = i + 1 := ⟨args.lastIncludedIndex - 1, by omega⟩
  have hlog : (rf.install args).log = rf.logAfterInstall args := rfl
  unfold logAfterInstall at hlog
  rw [h.getLastLogIndex, h.getTerm (by omega)] at hlog
  split at hlog
  · rename_i hkeep
    left
    have htake := (hL.matching hS).take_eq_of_termAt hkeep.1 hlen (hkeep.2.trans hterm)
    refine ⟨htake, ?_, hkeep.1, ?_⟩
    · rw [hlog, rebase_entries, h.entries, drop_drop]
      change L.drop _ = L.drop args.lastIncludedIndex
      congr 1
      omega
    · exact hkeep.2.symm
  · rename_i hdrop
    right
    refine ⟨?_, ?_, ?_, ?_⟩
    · intro heq
      rw [hi, Nat.add_sub_cancel] at heq
      have hSi : S[i]? = some S[i] := List.getElem?_eq_getElem (by omega)
      have hLi := heq.trans hSi
      have hlt := (List.getElem?_eq_some_iff.mp hLi).1
      refine hdrop ⟨by omega, ?_⟩
      rw [hterm, hi, termAt_of_getElem? LogEntry.term hLi, termAt_of_getElem? LogEntry.term hSi]
    · rw [hlog, reset_entries]
      change [] = (S.take args.lastIncludedIndex).drop args.lastIncludedIndex
      rw [drop_take_self]
    · change args.lastIncludedIndex ≤ _
      rw [length_take]
      omega
    · change args.lastIncludedTerm = termAt _ _ args.lastIncludedIndex
      rw [hterm]
      refine termAt_eq_of_take_eq LogEntry.term (j := args.lastIncludedIndex) ?_ (Nat.le_refl _)
      rw [take_take, Nat.min_self]

theorem Views.carries {server : Fin n} {data : Bytes}
    (hbd : rf.buildRequest server data = some (rf', some (.append args))) : args.Carries L := by
  rcases (buildRequest_cases hbd).2 with hnone | ⟨_, _, heq⟩ | ⟨prevTerm, hnext, hprev, heq⟩
  · cases hnone
  · cases heq
  · cases heq
    have hle : rf.lastIncludedIndex ≤ rf.nextIndex server - 1 := by omega
    have hprevLe : rf.nextIndex server - 1 ≤ L.length ∧
        prevTerm = termAt LogEntry.term L (rf.nextIndex server - 1) := by
      split at hprev
      · rename_i hzero
        cases hprev
        rw [hzero]
        exact ⟨h.included, h.term⟩
      · rw [h.get? (by omega)] at hprev
        obtain ⟨entry, hentry, rfl⟩ := Option.map_eq_some_iff.mp hprev
        have hlt := (List.getElem?_eq_some_iff.mp hentry).1
        refine ⟨by omega, ?_⟩
        have := termAt_of_getElem? LogEntry.term hentry
        rw [Nat.sub_add_cancel (by omega)] at this
        exact this.symm
    refine ⟨hprevLe.1, hprevLe.2, ?_⟩
    change rf.log.toList.drop (rf.nextIndex server - rf.lastIncludedIndex) =
      L.drop (rf.nextIndex server - 1)
    obtain ⟨j, hj⟩ : ∃ j, rf.nextIndex server - rf.lastIncludedIndex = j + 1 :=
      ⟨rf.nextIndex server - rf.lastIncludedIndex - 1, by omega⟩
    rw [hj, toList, drop_succ_cons, h.entries, drop_drop]
    congr 1
    omega

end

end Raft

structure Raft.SameLog (rf rf' : Raft n Cmd) : Prop where
  log : rf'.log = rf.log
  index : rf'.lastIncludedIndex = rf.lastIncludedIndex
  term : rf'.lastIncludedTerm = rf.lastIncludedTerm

namespace Raft

variable (rf : Raft n Cmd)

theorem SameLog.refl : SameLog rf rf := ⟨rfl, rfl, rfl⟩

variable {rf} in
theorem SameLog.views {rf' : Raft n Cmd} (h : SameLog rf rf') {L : List (LogEntry Cmd)}
    (hL : rf.Views L) : rf'.Views L :=
  hL.congr h.log h.index h.term

variable {rf} in
theorem Untouched.sameLog {rf' : Raft n Cmd} (h : Untouched rf rf') : SameLog rf rf' :=
  ⟨h.log, h.index, h.term⟩

theorem sameLog_catchUp (term : Nat) : SameLog rf (rf.catchUp term) :=
  (rf.unmoved_catchUp term).sameLog

theorem sameLog_startElection : SameLog rf rf.startElection.1 :=
  rf.unmoved_startElection.sameLog

theorem sameLog_handleAppendReply (server : Fin n) (args : AppendEntriesArgs n Cmd)
    (reply : AppendEntriesReply) : SameLog rf (rf.handleAppendReply server args reply).1 :=
  (rf.untouched_handleAppendReply server args reply).sameLog

end Raft

namespace Node

variable {nd nd' : Node n Cmd}

theorem sameLog_act {sec : Section Cmd} {body : Option (CallBody n Cmd)}
    (h : nd.act sec = some (nd', body)) (hsta : ∀ command, sec ≠ .start command)
    (hsnap : ∀ index data, sec ≠ .snapshot index data) : Raft.SameLog nd.rf nd'.rf := by
  cases acts h with
  | start command => exact absurd rfl (hsta command)
  | snapshot index data => exact absurd rfl (hsnap index data)
  | startElection => exact nd.rf.sameLog_startElection
  | applierCollect =>
    obtain ⟨k, hk⟩ := collect_eq nd.rf.commitIndex nd.rf
    rw [applier, hk]
    exact ⟨rfl, rfl, rfl⟩
  | _ => exact ⟨rfl, rfl, rfl⟩

theorem sameLog_serve {body body' : CallBody n Cmd} (h : nd.serve body = some (nd', body'))
    (happ : ∀ args, body ≠ .appendRequested args)
    (hins : ∀ args, body ≠ .installRequested args) : Raft.SameLog nd.rf nd'.rf := by
  cases serves h with
  | appendRequested args => exact absurd rfl (happ args)
  | installRefused args | installRequested args => exact absurd rfl (hins args)
  | voteRequested args =>
    rw [finishVote_rf]
    exact (nd.rf.unmoved_requestVote args).sameLog
  | appendServing args reply wait => cases wait <;> exact ⟨rfl, rfl, rfl⟩
  | _ => exact ⟨rfl, rfl, rfl⟩

theorem sameLog_resume {peer : Fin n} {body : CallBody n Cmd} {body' : Option (CallBody n Cmd)}
    (h : nd.resume peer body = some (nd', body')) : Raft.SameLog nd.rf nd'.rf :=
  (untouched_resume h).1.sameLog

end Node

end OrbisKV
