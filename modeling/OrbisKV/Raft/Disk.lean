import OrbisKV.Lib.Journal
import OrbisKV.Raft.LogView
/-!
# The log in memory and the log on disk

The requests for the state file as a `Journal`, what every section of a node does to
it, and which entries in memory a section leaves where they are.
-/

namespace OrbisKV

open List Persister Raft RaftLog

variable {n : Nat} {Cmd : Type}

def RaftState.entryAt (st : RaftState n Cmd) (index : Nat) : Option (LogEntry Cmd) :=
  if index ≤ st.lastIncludedIndex then none else st.log.get? (index - st.lastIncludedIndex)

theorem Raft.raftState_entryAt (rf : Raft n Cmd) (index : Nat) :
    rf.raftState.entryAt index = rf.entryAt index := rfl

/-! ## The requests as a journal -/

namespace Persister

variable {ps ps' : Persister n Cmd}

def journal (ps : Persister n Cmd) : Lib.Journal (RaftState n Cmd) :=
  ⟨ps.found, ps.saves.map fun r => ⟨r.state, r.done⟩⟩

theorem journal_durable (ps : Persister n Cmd) : ps.journal.durable = ps.durable := by
  have hfil : (ps.saves.map fun r => (⟨r.state, r.done⟩ : Lib.Write _)).filter (·.done) =
      (ps.saves.filter (·.done)).map fun r => ⟨r.state, r.done⟩ := by
    rw [filter_map]
    rfl
  unfold Lib.Journal.durable durable journal
  rw [hfil, getLast?_map]
  cases (ps.saves.filter (·.done)).getLast? <;> rfl

theorem journal_finishSave (ps : Persister n Cmd) (id : Nat) :
    (ps.finishSave id).journal = ps.journal.fire id := by
  unfold journal finishSave Lib.Journal.fire
  congr 1
  apply ext_getElem?
  intro i
  simp only [List.getElem?_map, List.getElem?_modify]
  cases ps.saves[i]? with
  | none => rfl
  | some r => by_cases hid : id = i <;> simp [hid, SaveRequest.fire]

theorem SameSaves.journal (h : ps.SameSaves ps') : ps'.journal = ps.journal := by
  rw [Persister.journal, h.found, h.saves]
  rfl

theorem Adds.journal {r : SaveRequest n Cmd} (h : ps.Adds ps' r) :
    ps'.journal = ps.journal.push r.state r.done := by
  rw [Persister.journal, h.found, h.saves, List.map_append]
  rfl

theorem journal_of_nil (hsv : ps.saves = []) : ps.journal = ⟨ps.found, []⟩ := by
  rw [journal, hsv]
  rfl

theorem afterCrash_saves {id : Option Nat} (h : ps.afterCrash id = some ps') : ps'.saves = [] := by
  cases id with
  | none =>
    cases h
    rfl
  | some id =>
    obtain ⟨r, _, rfl⟩ := Option.map_eq_some_iff.mp h
    rfl

theorem journal_done {id : Nat} (h : (ps.saves[id]?).any (·.done) = true) :
    ∃ w, ps.journal.writes[id]? = some w ∧ w.done = true := by
  cases hget : ps.saves[id]? with
  | none =>
    rw [hget] at h
    cases h
  | some r =>
    rw [hget] at h
    exact ⟨⟨r.state, r.done⟩, by simp [journal, hget], h⟩

end Persister

/-! ## Entries that stay where they are -/

namespace Raft

variable {rf rf' : Raft n Cmd}
  {c index : Nat} {command : Option Cmd} {es : List (LogEntry Cmd)} {log : RaftLog Cmd}

structure Keeps (rf rf' : Raft n Cmd) (c : Nat) : Prop where
  last : c ≤ rf'.getLastLogIndex
  included : rf.lastIncludedIndex ≤ rf'.lastIncludedIndex
  entries : ∀ i, rf'.lastIncludedIndex < i → i ≤ c → rf'.entryAt i = rf.entryAt i

theorem SameLog.entryAt (h : SameLog rf rf') (i : Nat) : rf'.entryAt i = rf.entryAt i := by
  rw [Raft.entryAt, Raft.entryAt, h.log, h.index]

theorem SameLog.getLastLogIndex (h : SameLog rf rf') :
    rf'.getLastLogIndex = rf.getLastLogIndex := by
  rw [Raft.getLastLogIndex, Raft.getLastLogIndex, h.log, h.index]

theorem SameLog.keeps (h : SameLog rf rf') (hc : c ≤ rf.getLastLogIndex) : Keeps rf rf' c :=
  ⟨by rw [h.getLastLogIndex]; exact hc, h.index.ge, fun i _ _ => h.entryAt i⟩

theorem entryAt_of_lt {i : Nat} (h : rf.lastIncludedIndex < i) :
    rf.entryAt i = rf.log.entries[i - rf.lastIncludedIndex - 1]? := by
  rw [entryAt, if_neg (by omega), get?_of_pos _ (by omega)]

theorem keeps_of_take (hix : rf'.lastIncludedIndex = rf.lastIncludedIndex)
    (hlast : c ≤ rf'.getLastLogIndex)
    (htake : ∀ k, k < c - rf.lastIncludedIndex → rf'.log.entries[k]? = rf.log.entries[k]?) :
    Keeps rf rf' c := by
  refine ⟨hlast, hix.ge, ?_⟩
  intro i hi hic
  rw [entryAt_of_lt hi, entryAt_of_lt (by omega), hix]
  apply htake
  omega

theorem keeps_start (h : rf.start command = some rf') (hc : c ≤ rf.getLastLogIndex) :
    Keeps rf rf' c := by
  unfold start at h
  split at h <;> cases h
  rw [getLastLogIndex_eq] at hc
  refine keeps_of_take rfl ?_ ?_
  · rw [getLastLogIndex_eq]
    simp only [append_entries, length_append]
    omega
  · intro k hk
    exact List.getElem?_append_left (by omega)

theorem start_lastIncludedIndex (h : rf.start command = some rf') :
    rf'.lastIncludedIndex = rf.lastIncludedIndex := by
  unfold start at h
  split at h <;> cases h
  rfl

theorem keeps_of_drop (hle : rf.lastIncludedIndex ≤ rf'.lastIncludedIndex)
    (hc : c ≤ rf'.getLastLogIndex)
    (hdrop : rf'.log.entries = rf.log.entries.drop (rf'.lastIncludedIndex - rf.lastIncludedIndex)) :
    Keeps rf rf' c := by
  refine ⟨hc, hle, ?_⟩
  intro i hi _
  rw [entryAt_of_lt hi, entryAt_of_lt (by omega), hdrop, List.getElem?_drop]
  congr 1
  omega

theorem snapshot_cases {taken : Bool} (h : rf.snapshot index = some (rf', taken)) :
    (rf' = rf ∧ taken = false) ∨
    (taken = true ∧ rf.lastIncludedIndex < index ∧ index ≤ rf.commitIndex ∧
      rf'.lastIncludedIndex = index ∧ rf'.getLastLogIndex = rf.getLastLogIndex ∧
      rf'.log.entries = rf.log.entries.drop (index - rf.lastIncludedIndex) ∧
      rf'.persistedIndex = max rf.persistedIndex index ∧
      rf'.lastApplied = max rf.lastApplied index ∧ rf'.commitIndex = rf.commitIndex) := by
  unfold snapshot at h
  split at h
  · cases h
    exact .inl ⟨rfl, rfl⟩
  · split at h
    · cases h
      exact .inl ⟨rfl, rfl⟩
    · dsimp only at h
      split at h
      · cases h
      · rename_i entry hentry
        cases h
        rw [get?_of_pos _ (by omega)] at hentry
        have hlt := (List.getElem?_eq_some_iff.mp hentry).1
        refine .inr ⟨rfl, by omega, by omega, rfl, ?_, rfl, rfl, rfl, rfl⟩
        rw [getLastLogIndex_eq, getLastLogIndex_eq]
        simp only [rebase_entries, length_drop]
        omega

theorem keeps_snapshot {taken : Bool} (h : rf.snapshot index = some (rf', taken))
    (hc : c ≤ rf.getLastLogIndex) : Keeps rf rf' c := by
  rcases snapshot_cases h with ⟨rfl, _⟩ | ⟨_, hlt, _, hix, hlast, hent, _⟩
  · exact (SameLog.refl rf').keeps hc
  · apply keeps_of_drop
    · omega
    · omega
    · rw [hix]
      exact hent

/-! ## InstallSnapshot -/

def agrees (rf : Raft n Cmd) (args : InstallSnapshotArgs n) : Bool :=
  args.lastIncludedIndex ≤ rf.getLastLogIndex &&
    rf.getTerm args.lastIncludedIndex = args.lastIncludedTerm

def accepts (rf : Raft n Cmd) (args : InstallSnapshotArgs n) : Bool :=
  rf.currentTerm ≤ args.term && rf.lastIncludedIndex < args.lastIncludedIndex

theorem installSnapshot_cases (rf : Raft n Cmd) (args : InstallSnapshotArgs n) :
    (rf.accepts args = false ∧ (rf.installSnapshot args).2.2.2 = false ∧
      ∃ term, (rf.installSnapshot args).1 = rf.catchUp term) ∨
    (rf.accepts args = true ∧ (rf.installSnapshot args).2.2.2 = true ∧
      (rf.installSnapshot args).1 = (rf.catchUp args.term).install args) := by
  have hix := (rf.sameLog_catchUp args.term).index
  unfold installSnapshot accepts
  split
  · rename_i hstale
    refine .inl ⟨by simp; omega, rfl, rf.currentTerm, ?_⟩
    rw [catchUp, if_neg (Nat.lt_irrefl _)]
  · dsimp only
    split
    · exact .inl ⟨by simp; omega, rfl, args.term, rfl⟩
    · exact .inr ⟨by simp; omega, rfl, rfl⟩

theorem SameLog.agrees (h : SameLog rf rf') (args : InstallSnapshotArgs n) :
    rf'.agrees args = rf.agrees args := by
  unfold Raft.agrees getTerm
  rw [h.getLastLogIndex, h.index, h.term, h.log]

theorem keeps_install {args : InstallSnapshotArgs n}
    (hnew : rf.lastIncludedIndex < args.lastIncludedIndex) (hc : c ≤ rf.getLastLogIndex)
    (hagree : rf.agrees args = true ∨ c ≤ args.lastIncludedIndex) :
    Keeps rf (rf.install args) c := by
  have hix : (rf.install args).lastIncludedIndex = args.lastIncludedIndex := rfl
  have hlog : (rf.install args).log = rf.logAfterInstall args := rfl
  by_cases hag : rf.agrees args = true
  · have hag' := hag
    simp only [Raft.agrees, Bool.and_eq_true, decide_eq_true_eq] at hag'
    have hent : (rf.install args).log.entries =
        rf.log.entries.drop (args.lastIncludedIndex - rf.lastIncludedIndex) := by
      rw [hlog, logAfterInstall, if_pos hag', rebase_entries]
    apply keeps_of_drop
    · omega
    · rw [getLastLogIndex_eq] at hc hag' ⊢
      rw [hix, hent, length_drop]
      omega
    · rw [hix]
      exact hent
  · -- the log is dropped, and the snapshot covers the index
    have hle : c ≤ args.lastIncludedIndex := hagree.resolve_left hag
    refine ⟨?_, by omega, fun i hi hic => by omega⟩
    rw [getLastLogIndex_eq, hix]
    omega

theorem SameLog.trans_keeps {mid : Raft n Cmd} (h : SameLog rf mid) (hk : Keeps mid rf' c) :
    Keeps rf rf' c :=
  ⟨hk.last, by rw [← h.index]; exact hk.included,
    fun i hi hic => (hk.entries i hi hic).trans (h.entryAt i)⟩

theorem keeps_installSnapshot {args : InstallSnapshotArgs n} (hacc : rf.accepts args = true)
    (hc : c ≤ rf.getLastLogIndex) (hagree : rf.agrees args = true ∨ c ≤ args.lastIncludedIndex) :
    Keeps rf ((rf.catchUp args.term).install args) c := by
  have hsame := rf.sameLog_catchUp args.term
  simp only [accepts, Bool.and_eq_true, decide_eq_true_eq] at hacc
  apply hsame.trans_keeps
  apply keeps_install
  · rw [hsame.index]
    exact hacc.2
  · rw [hsame.getLastLogIndex]
    exact hc
  · rw [hsame.agrees]
    exact hagree

/-! ## AppendEntries -/

def firstConflict (rf : Raft n Cmd) : Nat → List (LogEntry Cmd) → Option Nat
  | _, [] => none
  | index, e :: es =>
    if rf.getLastLogIndex < index then none
    else if rf.getTerm index ≠ e.term then some index
    else firstConflict rf (index + 1) es

def conflict (rf : Raft n Cmd) (args : AppendEntriesArgs n Cmd) : Option Nat :=
  if args.term < rf.currentTerm ∨ (rf.mismatch args).isSome then none
  else rf.firstConflict (args.prevLogIndex + 1) args.entries

theorem keeps_mergeEntries {changed : Bool} (hix : rf.lastIncludedIndex < index)
    (h : rf.mergeEntries index es = (log, changed)) (hc : c ≤ rf.getLastLogIndex)
    (hfirst : ∀ j, rf.firstConflict index es = some j → c < j) :
    Keeps rf { rf with log := log } c := by
  rw [getLastLogIndex_eq] at hc
  induction es generalizing index with
  | nil =>
    cases h
    refine keeps_of_take rfl ?_ (fun k _ => rfl)
    rw [getLastLogIndex_eq]
    exact hc
  | cons e es ih =>
    unfold mergeEntries at h
    unfold firstConflict at hfirst
    by_cases hend : rf.getLastLogIndex < index
    · rw [if_pos hend] at h
      cases h
      refine keeps_of_take rfl ?_ ?_
      · rw [getLastLogIndex_eq]
        simp only [append_entries, length_append]
        omega
      · intro k hk
        exact List.getElem?_append_left (by omega)
    · rw [if_neg hend] at h hfirst
      by_cases hterm : rf.getTerm index ≠ e.term
      · rw [if_pos hterm] at h hfirst
        cases h
        have hlt : c < index := hfirst index rfl
        rw [getLastLogIndex_eq] at hend
        refine keeps_of_take rfl ?_ ?_
        · rw [getLastLogIndex_eq]
          simp only [append_entries, cut_entries, length_append, length_take]
          omega
        · intro k hk
          simp only [append_entries, cut_entries]
          rw [List.getElem?_append_left (by rw [length_take]; omega),
            List.getElem?_take_of_lt (by omega)]
      · rw [if_neg hterm] at h hfirst
        exact ih (by omega) h hfirst

theorem mergeEntries_unchanged (hix : index ≤ rf.getLastLogIndex + 1)
    (h : rf.mergeEntries index es = (log, false)) :
    log = rf.log ∧ rf.firstConflict index es = none ∧
      index + es.length ≤ rf.getLastLogIndex + 1 := by
  induction es generalizing index with
  | nil =>
    cases h
    exact ⟨rfl, rfl, hix⟩
  | cons e es ih =>
    unfold mergeEntries at h
    by_cases hend : rf.getLastLogIndex < index
    · rw [if_pos hend] at h
      cases h
    · rw [if_neg hend] at h
      by_cases hterm : rf.getTerm index ≠ e.term
      · rw [if_pos hterm] at h
        cases h
      · rw [if_neg hterm] at h
        obtain ⟨hlog, hfirst, hlast⟩ := ih (by omega) h
        refine ⟨hlog, ?_, ?_⟩
        · rw [firstConflict, if_neg hend, if_neg hterm]
          exact hfirst
        · rw [length_cons]
          omega

theorem entryAt_term {i : Nat} (hi : rf.lastIncludedIndex < i) (hlast : i ≤ rf.getLastLogIndex) :
    (rf.entryAt i).map LogEntry.term = some (rf.getTerm i) := by
  rw [getLastLogIndex_eq] at hlast
  have hget : rf.log.get? (i - rf.lastIncludedIndex) =
      some (rf.log.entries[i - rf.lastIncludedIndex - 1]) := by
    rw [get?_of_pos _ (by omega)]
    exact List.getElem?_eq_getElem (by omega)
  rw [entryAt, getTerm, if_neg (by omega), if_neg (by omega), hget]
  rfl

structure Holds (rf : Raft n Cmd) (index : Nat) (es : List (LogEntry Cmd)) : Prop where
  last : index + es.length ≤ rf.getLastLogIndex + 1
  terms : ∀ k e, es[k]? = some e → (rf.entryAt (index + k)).map LogEntry.term = some e.term

theorem holds_of_append (front : List (LogEntry Cmd)) (hix : rf.lastIncludedIndex < index)
    (hfr : front.length = index - rf.lastIncludedIndex - 1)
    (hlog : rf.log.entries = front ++ es) : rf.Holds index es := by
  refine ⟨?_, ?_⟩
  · rw [getLastLogIndex_eq, hlog, length_append]
    omega
  · intro k e he
    rw [entryAt_of_lt (by omega), hlog, List.getElem?_append_right (by omega),
      show index + k - rf.lastIncludedIndex - 1 - front.length = k by omega, he]
    rfl

theorem le_firstConflict {j : Nat} (h : rf.firstConflict index es = some j) : index ≤ j := by
  induction es generalizing index with
  | nil => cases h
  | cons e es ih =>
    unfold firstConflict at h
    split at h
    · cases h
    · split at h
      · cases h
        exact Nat.le_refl _
      · have := ih h
        omega

theorem holds_mergeEntries {changed : Bool} (hix : rf.lastIncludedIndex < index)
    (hlast : index ≤ rf.getLastLogIndex + 1) (h : rf.mergeEntries index es = (log, changed)) :
    Holds { rf with log := log } index es := by
  induction es generalizing index with
  | nil =>
    cases h
    exact ⟨hlast, fun k e he => by simp at he⟩
  | cons e es ih =>
    unfold mergeEntries at h
    by_cases hend : rf.getLastLogIndex < index
    · rw [if_pos hend] at h
      cases h
      rw [getLastLogIndex_eq] at hend hlast
      exact holds_of_append rf.log.entries hix (by dsimp only; omega) rfl
    · rw [if_neg hend] at h
      by_cases hterm : rf.getTerm index ≠ e.term
      · rw [if_pos hterm] at h
        cases h
        rw [getLastLogIndex_eq] at hend
        refine holds_of_append (rf.log.entries.take (index - rf.lastIncludedIndex - 1)) hix ?_ ?_
        · rw [length_take]
          dsimp only
          omega
        · simp only [append_entries, cut_entries]
          congr 2
          omega
      · -- the entry is in the log, and the merge of the rest does not touch it
        rw [if_neg hterm] at h
        have hrest := ih (by omega) (by omega) h
        have hkeep := keeps_mergeEntries (c := index) (by omega) h (by omega) fun j hj => by
          have := le_firstConflict hj
          omega
        refine ⟨?_, ?_⟩
        · have := hrest.last
          rw [length_cons]
          omega
        · intro k d hd
          cases k with
          | zero =>
            cases hd
            rw [Nat.add_zero, hkeep.entries index hix (Nat.le_refl _),
              entryAt_term hix (by omega), not_not.mp hterm]
          | succ k =>
            have := hrest.terms k d hd
            rwa [show index + 1 + k = index + (k + 1) by omega] at this

theorem SameLog.mismatch (h : SameLog rf rf') (args : AppendEntriesArgs n Cmd) :
    rf'.mismatch args = rf.mismatch args := by
  have hterm : rf'.getTerm = rf.getTerm := by
    funext i
    rw [getTerm, getTerm, h.index, h.term, h.log]
  have hfirst : ∀ t i, rf'.firstIndexOfTerm t i = rf.firstIndexOfTerm t i := by
    intro t i
    induction i with
    | zero => rfl
    | succ i ih => rw [firstIndexOfTerm, firstIndexOfTerm, h.index, hterm, ih]
  unfold Raft.mismatch
  rw [h.getLastLogIndex, h.index, hterm, hfirst]

theorem SameLog.firstConflict (h : SameLog rf rf') (index : Nat) (es : List (LogEntry Cmd)) :
    rf'.firstConflict index es = rf.firstConflict index es := by
  induction es generalizing index with
  | nil => rfl
  | cons e es ih =>
    rw [Raft.firstConflict, Raft.firstConflict, h.getLastLogIndex, getTerm, getTerm, h.index,
      h.term, h.log, ih]

theorem sameLog_acceptTerm (rf : Raft n Cmd) (args : AppendEntriesArgs n Cmd) :
    SameLog rf (rf.acceptTerm args) :=
  ⟨acceptTerm_log args, acceptTerm_lastIncludedIndex args, acceptTerm_lastIncludedTerm args⟩

theorem sameLog_learnCommit (rf : Raft n Cmd) (leaderCommit : Nat) :
    SameLog rf (rf.learnCommit leaderCommit) := by
  obtain ⟨k, hk⟩ := rf.learnCommit_eq leaderCommit
  rw [hk]
  exact ⟨rfl, rfl, rfl⟩

theorem Keeps.trans_sameLog {mid : Raft n Cmd} (hk : Keeps rf mid c) (h : SameLog mid rf') :
    Keeps rf rf' c :=
  ⟨by rw [h.getLastLogIndex]; exact hk.last, by rw [h.index]; exact hk.included,
    fun i hi hic => (h.entryAt i).trans (hk.entries i (by rw [← h.index]; exact hi) hic)⟩

def hasAll (rf : Raft n Cmd) (args : AppendEntriesArgs n Cmd) : Bool :=
  rf.currentTerm ≤ args.term && (rf.mismatch args).isNone &&
    args.prevLogIndex + args.entries.length ≤ rf.getLastLogIndex &&
    (rf.firstConflict (args.prevLogIndex + 1) args.entries).isNone

theorem SameLog.holds (h : SameLog rf rf') (hh : rf.Holds index es) : rf'.Holds index es :=
  ⟨by rw [h.getLastLogIndex]; exact hh.last, fun k e he => by rw [h.entryAt]; exact hh.terms k e he⟩

/-- After a success the log holds the entries of the request; the whole state is
requested, or the log is as it was and held them before. -/
theorem appendEntries_success {args : AppendEntriesArgs n Cmd}
    (h : (rf.appendEntries args).2.1.success = true) :
    (rf.appendEntries args).1.Holds (args.prevLogIndex + 1) args.entries ∧
      ((rf.appendEntries args).2.2 = .raftState ∨
        ((rf.appendEntries args).2.2 ≠ .raftState ∧ rf.hasAll args = true ∧
          SameLog rf (rf.appendEntries args).1)) := by
  have hsame := rf.sameLog_acceptTerm args
  rcases rf.appendEntries_cases args with
    ⟨_, heq⟩ | ⟨_, _, _, heq⟩ | ⟨hstale, hmatch, log, changed, hmg, heq⟩
  · rw [heq] at h
    cases h
  · rw [heq] at h
    cases h
  · have hprev := mismatch_eq_none hmatch
    have hlearn := sameLog_learnCommit { rf.acceptTerm args with log := log } args.leaderCommit
    rw [heq]
    refine ⟨hlearn.holds (holds_mergeEntries (by omega) (by omega) hmg), ?_⟩
    cases changed with
    | true => exact .inl rfl
    | false =>
      obtain ⟨hlog, hfirst, hlast⟩ := mergeEntries_unchanged (by omega) hmg
      refine .inr ⟨?_, ?_, ?_⟩
      · change rf.termEnqueued args ≠ _
        unfold termEnqueued
        split <;> simp
      · rw [hsame.firstConflict] at hfirst
        rw [hsame.mismatch] at hmatch
        rw [hsame.getLastLogIndex] at hlast
        simp only [hasAll, hmatch, hfirst, Option.isNone_none, Bool.and_true, Bool.and_eq_true,
          decide_eq_true_eq]
        omega
      · have hmid : SameLog rf { rf.acceptTerm args with log := log } :=
          ⟨hlog.trans hsame.log, hsame.index, hsame.term⟩
        exact ⟨hlearn.log.trans hmid.log, hlearn.index.trans hmid.index,
          hlearn.term.trans hmid.term⟩

theorem keeps_appendEntries {args : AppendEntriesArgs n Cmd} (hc : c ≤ rf.getLastLogIndex)
    (hfirst : ∀ j, rf.conflict args = some j → c < j) : Keeps rf (rf.appendEntries args).1 c := by
  have hsame := rf.sameLog_acceptTerm args
  rcases rf.appendEntries_cases args with
    ⟨_, heq⟩ | ⟨_, _, _, heq⟩ | ⟨hstale, hmatch, log, changed, hmg, heq⟩
  · rw [heq]
    exact (SameLog.refl rf).keeps hc
  · rw [heq]
    exact hsame.keeps hc
  · rw [heq]
    have hprev := (mismatch_eq_none hmatch).1
    have hconf : rf.conflict args = rf.firstConflict (args.prevLogIndex + 1) args.entries := by
      rw [conflict, if_neg]
      rw [← hsame.mismatch args, hmatch]
      simpa using hstale
    have hkeep : Keeps (rf.acceptTerm args) { rf.acceptTerm args with log := log } c := by
      apply keeps_mergeEntries (by omega) hmg
      · rw [hsame.getLastLogIndex]
        exact hc
      · intro j hj
        rw [hsame.firstConflict, ← hconf] at hj
        exact hfirst j hj
    exact (hsame.trans_keeps hkeep).trans_sameLog (sameLog_learnCommit _ _)

/-! ## Sections that leave the marks alone -/

structure SameMarks (rf rf' : Raft n Cmd) : Prop where
  persisted : rf'.persistedIndex = rf.persistedIndex
  applied : rf'.lastApplied = rf.lastApplied

theorem sameMarks_appendEntries (rf : Raft n Cmd) (args : AppendEntriesArgs n Cmd) :
    SameMarks rf (rf.appendEntries args).1 := by
  have hcatch := rf.unmoved_catchUp args.term
  rcases rf.appendEntries_cases args with
    ⟨_, heq⟩ | ⟨_, _, _, heq⟩ | ⟨_, _, log, _, _, heq⟩
  · rw [heq]
    exact ⟨rfl, rfl⟩
  · rw [heq]
    exact ⟨hcatch.persisted, hcatch.applied⟩
  · obtain ⟨k, hk⟩ := learnCommit_eq { rf.acceptTerm args with log := log } args.leaderCommit
    rw [heq, hk]
    exact ⟨hcatch.persisted, hcatch.applied⟩

theorem sameMarks_start (h : rf.start command = some rf') : SameMarks rf rf' := by
  unfold start at h
  split at h <;> cases h
  exact ⟨rfl, rfl⟩

end Raft

namespace Node

variable {nd nd' : Node n Cmd} {body : CallBody n Cmd} {i id : Nat}

/-! ## Requests -/

theorem serve_installRequested_cases {args : InstallSnapshotArgs n}
    (h : nd.serve (.installRequested args) = some (nd', body)) :
    (nd'.completions = nd.completions ∧ nd'.unsent = nd.unsent ∧ nd'.applied = nd.applied) ∧
    ((nd.rf.accepts args = false ∧ (∃ term, nd'.rf = nd.rf.catchUp term) ∧
        nd'.persister.journal = nd.persister.journal ∧
        ∃ reply, body = .installReplied args reply) ∨
      (nd.rf.accepts args = true ∧ nd'.rf = (nd.rf.catchUp args.term).install args ∧
        nd'.persister.journal = nd.persister.journal.push nd'.rf.raftState true ∧
        ∃ reply, body = .installSending args reply
          (.snapshot args.data args.lastIncludedTerm args.lastIncludedIndex))) := by
  rcases nd.rf.installSnapshot_cases args with
    ⟨hacc, hnot, term, hrf⟩ | ⟨hacc, hinst, hrf⟩
  · rcases serves h with _ | _ | _ | _ | _ | _ | ⟨_, mid, rfl, hinst⟩
    · exact ⟨⟨rfl, rfl, rfl⟩, .inl ⟨hacc, ⟨term, hrf⟩, (sameSaves_settle nd _ _).journal, _, rfl⟩⟩
    · rw [hnot] at hinst
      cases hinst
  · rcases serves h with _ | _ | _ | _ | _ | ⟨_, hnot⟩ | ⟨_, mid, rfl⟩
    · rw [hinst] at hnot
      cases hnot
    · have hsame := sameSaves_settle nd (nd.rf.installSnapshot args).1
        (nd.rf.installSnapshot args).2.2.1
      have hadds : nd.persister.Adds ((nd.settle (nd.rf.installSnapshot args).1
            (nd.rf.installSnapshot args).2.2.1).persister.save
              (nd.rf.installSnapshot args).1.raftState args.data)
          ⟨(nd.rf.installSnapshot args).1.raftState, args.data, true⟩ :=
        ⟨hsame.found, hsame.snapshot, congrArg (· ++ _) hsame.saves⟩
      refine ⟨⟨rfl, rfl, rfl⟩, .inr ⟨hacc, hrf, hadds.journal,
        (nd.rf.installSnapshot args).2.1, ?_⟩⟩
      rw [hrf]
      rfl

def Logs (nd nd' : Node n Cmd) : Prop :=
  nd'.persister.journal = nd.persister.journal ∨
  (∃ done, nd'.persister.journal = nd.persister.journal.push nd'.rf.raftState done) ∨
  ∃ id, nd'.persister.journal = nd.persister.journal.fire id

theorem make_log (p : Fin n) {ps : Persister n Cmd} (hsv : ps.saves = []) :
    (make p ps).rf.log = ((fresh p).readPersist ps.found).log ∧ (make p ps).rf.lastIncludedIndex =
        ((fresh p).readPersist ps.found).lastIncludedIndex := by
  have hdur : ps.durable = ps.found := by simp [durable, hsv]
  rw [← hdur]
  change (Raft.readHardState _ _).log = _ ∧ (Raft.readHardState _ _).lastIncludedIndex = _
  unfold Raft.readHardState
  split
  · exact ⟨rfl, rfl⟩
  · split <;> exact ⟨rfl, rfl⟩

theorem logs_act {sec : Section Cmd} {body : Option (CallBody n Cmd)}
    (h : nd.act sec = some (nd', body)) : nd.Logs nd' := by
  have hsame := sameSaves_act h
  cases acts h with
  | start command rf =>
    have hadds : nd.persister.Adds (nd.persister.enqueueSave rf.raftState)
        ⟨rf.raftState, [], false⟩ := ⟨rfl, rfl, rfl⟩
    exact .inr (.inl ⟨false, hadds.journal⟩)
  | snapshot index data rf taken =>
    cases taken with
    | false => exact .inl rfl
    | true =>
      have hadds : nd.persister.Adds (nd.persister.save rf.raftState data)
          ⟨rf.raftState, data, true⟩ := ⟨rfl, rfl, rfl⟩
      exact .inr (.inl ⟨true, hadds.journal⟩)
  | saveDone id => exact .inr (.inr ⟨id, nd.persister.journal_finishSave id⟩)
  | _ => exact .inl (hsame (by simp) (by simp) (by simp)).journal

theorem logs_serve {body' : CallBody n Cmd} (h : nd.serve body = some (nd', body')) :
    nd.Logs nd' := by
  have hsame := sameSaves_serve h
  cases serves h with
  | appendRequested args =>
    rcases nd.finishAppend_saves (nd.rf.appendEntries args).1 args
      (nd.rf.appendEntries args).2.1 (nd.rf.appendEntries args).2.2 with
      ⟨_, hsv⟩ | ⟨_, hsv⟩
    · exact .inl hsv.journal
    · refine .inr (.inl ⟨false, ?_⟩)
      rw [finishAppend_rf]
      exact hsv.journal
  | installRefused args | installRequested args =>
    rcases (serve_installRequested_cases h).2 with ⟨_, _, hjou, _⟩ | ⟨_, _, hjou, _⟩
    · exact .inl hjou
    · exact .inr (.inl ⟨true, hjou⟩)
  | _ => exact .inl (hsame (by simp) (by simp)).journal

theorem logs_resume {peer : Fin n} {body' : Option (CallBody n Cmd)}
    (h : nd.resume peer body = some (nd', body')) : nd.Logs nd' :=
  .inl (sameSaves_resume h).journal

/-! ## Covered entries -/

def Has (nd : Node n Cmd) (i : Nat) (st : RaftState n Cmd) : Prop :=
  st.entryAt i = nd.rf.entryAt i

theorem has_raftState (nd : Node n Cmd) (i : Nat) : nd.Has i nd.rf.raftState :=
  nd.rf.raftState_entryAt i

theorem secured_step (h : nd.persister.journal.Secured (nd.Has i)) (hlogs : nd.Logs nd')
    (hentry : nd'.rf.entryAt i = nd.rf.entryAt i) : nd'.persister.journal.Secured (nd'.Has i) := by
  have hhas : nd.persister.journal.Secured (nd'.Has i) := h.mono fun st hst => hst.trans hentry.symm
  rcases hlogs with heq | ⟨done, heq⟩ | ⟨id, heq⟩
  · rw [heq]
    exact hhas
  · rw [heq]
    exact hhas.push (nd'.has_raftState i) done
  · rw [heq]
    exact hhas.fire id

theorem heldFrom_step (h : nd.persister.journal.HeldFrom id (nd.Has i)) (hlogs : nd.Logs nd')
    (hentry : nd'.rf.entryAt i = nd.rf.entryAt i) :
    nd'.persister.journal.HeldFrom id (nd'.Has i) := by
  have hhas : nd.persister.journal.HeldFrom id (nd'.Has i) :=
    h.mono fun st hst => hst.trans hentry.symm
  rcases hlogs with heq | ⟨done, heq⟩ | ⟨k, heq⟩
  · rw [heq]
    exact hhas
  · rw [heq]
    exact hhas.push (nd'.has_raftState i) done
  · rw [heq]
    exact hhas.fire k

def OnDisk (nd : Node n Cmd) (i : Nat) : Prop :=
  ∃ st e, nd.persister.durable = some st ∧ nd.rf.entryAt i = some e ∧ st.entryAt i = some e

theorem onDisk_of_secured (h : nd.persister.journal.Secured (nd.Has i))
    (hi : nd.rf.lastIncludedIndex < i) (hlast : i ≤ nd.rf.getLastLogIndex) : nd.OnDisk i := by
  obtain ⟨st, hdur, hhas⟩ := h.durable
  rw [journal_durable] at hdur
  rw [getLastLogIndex_eq] at hlast
  have hentry : nd.rf.entryAt i = some (nd.rf.log.entries[i - nd.rf.lastIncludedIndex - 1]) := by
    rw [entryAt_of_lt hi]
    exact List.getElem?_eq_getElem (by omega)
  exact ⟨st, _, hdur, hentry, hhas.trans hentry⟩

structure Covers (nd : Node n Cmd) (id c : Nat) : Prop where
  le : c ≤ nd.rf.getLastLogIndex
  held : ∀ i, nd.rf.lastIncludedIndex < i → i ≤ c → nd.persister.journal.HeldFrom id (nd.Has i)

theorem Covers.step {c : Nat} (h : nd.Covers id c) (hlogs : nd.Logs nd')
    (hkeep : Raft.Keeps nd.rf nd'.rf c) : nd'.Covers id c := by
  refine ⟨hkeep.last, ?_⟩
  intro i hi hic
  have hinc := hkeep.included
  exact heldFrom_step (h.held i (by omega) hic) hlogs (hkeep.entries i hi hic)

theorem Covers.mono {c c' : Nat} (h : nd.Covers id c) (hc : c' ≤ c) : nd.Covers id c' :=
  ⟨hc.trans h.le, fun i hi hic => h.held i hi (hic.trans hc)⟩

theorem covers_new {done : Bool}
    (h : nd'.persister.journal = nd.persister.journal.push nd'.rf.raftState done) :
    nd'.Covers nd.persister.saves.length nd'.rf.getLastLogIndex := by
  refine ⟨Nat.le_refl _, ?_⟩
  intro i _ _
  have hlen : nd.persister.saves.length = nd.persister.journal.writes.length := by
    simp [Persister.journal]
  rw [h, hlen]
  exact Lib.Journal.heldFrom_push_new (nd'.has_raftState i) done

theorem Covers.secured {c : Nat} (h : nd.Covers id c)
    (hdone : (nd.persister.saves[id]?).any (·.done) = true) (hi : nd.rf.lastIncludedIndex < i)
    (hic : i ≤ c) : nd.persister.journal.Secured (nd.Has i) := by
  obtain ⟨w, hw, hwdone⟩ := journal_done hdone
  exact (h.held i hi hic).secured hw hwdone

end Node

end OrbisKV
