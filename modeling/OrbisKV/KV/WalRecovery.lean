import OrbisKV.KV.Wal
import OrbisKV.Wal.Logger
/-!
# Recovery from the write-ahead log

The node appends every command that it applies to the log, but only asynchronously: the
entry is refused when the channel is full or while the file is rewritten, and entries that
wait in the channel are dropped when the worker stops for that.
-/

namespace OrbisKV.KV

open Lib List

def recoveredIndex (start : Int) (entries : List WalEntry) : Int :=
  entries.foldl (fun done entry => max done entry.raftIndex) start

def Unbroken (start : Int) : List WalEntry → Prop
  | [] => True
  | entry :: entries => entry.raftIndex ≤ start + 1 ∧ Unbroken (max start entry.raftIndex) entries

variable {start start' : Int} {entries entries' : List WalEntry}

@[simp] theorem recoveredIndex_nil : recoveredIndex start [] = start := rfl

@[simp] theorem recoveredIndex_cons (entry : WalEntry) :
    recoveredIndex start (entry :: entries) =
      recoveredIndex (max start entry.raftIndex) entries := rfl

theorem le_recoveredIndex (start : Int) (entries : List WalEntry) :
    start ≤ recoveredIndex start entries := by
  induction entries generalizing start with
  | nil => exact le_refl start
  | cons entry entries ih => exact le_trans (le_max_left ..) (ih _)

theorem Unbroken.mono (h : Unbroken start entries) (hle : start ≤ start') :
    Unbroken start' entries := by
  induction entries generalizing start start' with
  | nil => trivial
  | cons entry entries ih =>
    have hentry := h.1
    exact ⟨by omega, ih h.2 (max_le_max_right _ hle)⟩

theorem unbroken_append : Unbroken start (entries ++ entries') ↔
    Unbroken start entries ∧ Unbroken (recoveredIndex start entries) entries' := by
  induction entries generalizing start with
  | nil => simp [Unbroken]
  | cons entry entries ih => simp [Unbroken, ih, and_assoc]

theorem Unbroken.filter (h : Unbroken start entries) {upTo : Int} (hle : upTo ≤ start) :
    Unbroken start (entries.filter fun entry => upTo < entry.raftIndex) := by
  induction entries generalizing start with
  | nil => trivial
  | cons entry entries ih =>
    obtain ⟨hentry, hrest⟩ := h
    by_cases hkeep : upTo < entry.raftIndex
    · rw [filter_cons_of_pos (by simpa using hkeep)]
      exact ⟨hentry, ih hrest (le_trans hle (le_max_left ..))⟩
    · have hmax : max start entry.raftIndex = start := max_eq_left (by omega)
      rw [filter_cons_of_neg (by simpa using hkeep)]
      rw [hmax] at hrest
      exact ih hrest hle

theorem recoveredIndex_filter {upTo : Int} (hle : upTo ≤ start) :
    recoveredIndex start (entries.filter fun entry => upTo < entry.raftIndex) =
      recoveredIndex start entries := by
  induction entries generalizing start with
  | nil => rfl
  | cons entry entries ih =>
    by_cases hkeep : upTo < entry.raftIndex
    · rw [filter_cons_of_pos (by simpa using hkeep), recoveredIndex_cons,
        recoveredIndex_cons, ih (le_trans hle (le_max_left ..))]
    · have hmax : max start entry.raftIndex = start := max_eq_left (by omega)
      rw [filter_cons_of_neg (by simpa using hkeep), recoveredIndex_cons, hmax, ih hle]

theorem Unbroken.take (h : Unbroken start entries) (n : Nat) : Unbroken start (entries.take n) := by
  rw [← take_append_drop n entries, unbroken_append] at h
  exact h.1

def Request.keptWhole : Request → Bool
  | .prepareTx t => t.readKeys.all (·.value = "")
  | .recordTxDecision t => t.writeKeys = []
  | .resolveTxStatus _ => false
  | _ => true

theorem replay_of_keptWhole (hash : String → UInt64) (kv : KVServer) {input : Input}
    (h : input.request.keptWhole = true) :
    replay hash kv input = ((machine hash).step kv input).map (·.1) := by
  obtain ⟨request, net, clock⟩ := input
  cases request with
  | prepareTx t =>
    simp only [replay, Request.recorded, machine]
    rw [map_withoutValue_eq_self_iff.mpr h]
  | recordTxDecision t =>
    obtain ⟨txID, decision, participantGroupIDs, writeKeys⟩ := t
    obtain rfl : writeKeys = [] := by simpa [Request.keptWhole] using h
    rfl
  | resolveTxStatus txID => cases h
  | _ => rfl

section

variable (log : Int → Request) (env : Int → Net × Clock)

def Committed (entries : List WalEntry) : Prop :=
  ∀ entry ∈ entries, entry = walEntryFromOp entry.raftIndex (log entry.raftIndex) ∧
    (log entry.raftIndex).keptWhole = true

def inputAt (index : Int) : Input := ⟨log index, (env index).1, (env index).2⟩

def inputsFrom (start : Int) : Nat → List Input
  | 0 => []
  | n + 1 => inputAt log env (start + 1) :: inputsFrom (start + 1) n

def inputsBetween (start last : Int) : List Input := inputsFrom log env start (last - start).toNat

variable {log env}

theorem inputsBetween_self (start : Int) : inputsBetween log env start start = [] := by
  simp [inputsBetween, inputsFrom]

theorem inputsBetween_succ {last : Int} (h : start + 1 ≤ last) :
    inputsBetween log env start last =
      inputAt log env (start + 1) :: inputsBetween log env (start + 1) last := by
  have hcount : (last - start).toNat = (last - (start + 1)).toNat + 1 := by omega
  rw [inputsBetween, hcount]
  rfl

theorem foldlM_recoverEntry {snapshotIndex : Int} (hash : String → UInt64)
    (hle : snapshotIndex ≤ start) (hent : Committed log entries) (h : Unbroken start entries)
    (kv : KVServer) :
    entries.foldlM (fun st entry => recoverEntry hash snapshotIndex st entry
        (env entry.raftIndex).1 (env entry.raftIndex).2) (kv, start) =
      ((machine hash).run kv (inputsBetween log env start (recoveredIndex start entries))).map
        fun p => (p.1, recoveredIndex start entries) := by
  induction entries generalizing start kv with
  | nil => simp [inputsBetween_self, Machine.run]
  | cons entry entries ih =>
    have hrest : Committed log entries := fun e he => hent e (mem_cons_of_mem _ he)
    rw [foldlM_cons, recoveredIndex_cons]
    by_cases hold : entry.raftIndex ≤ start
    · have hmax : max start entry.raftIndex = start := max_eq_left hold
      have hunb := h.2
      rw [hmax] at hunb
      rw [recoverEntry_of_le hash hold, hmax]
      exact ih hle hrest hunb kv
    · -- the entry is the next one
      have hnext : entry.raftIndex = start + 1 := by
        have hbound := h.1
        omega
      have hmax : max start entry.raftIndex = start + 1 := by omega
      obtain ⟨hentry, hwhole⟩ := hent entry mem_cons_self
      rw [hnext] at hentry hwhole
      have hunb := h.2
      rw [hmax] at hunb
      have hlast : start + 1 ≤ recoveredIndex (start + 1) entries := le_recoveredIndex _ _
      have hstep := recoverEntry_next hash hle kv (inputAt log env (start + 1))
      rw [replay_of_keptWhole hash kv hwhole] at hstep
      rw [hmax, inputsBetween_succ hlast, Machine.run, hnext, hentry]
      change (recoverEntry hash snapshotIndex (kv, start)
        (walEntryFromOp (start + 1) (inputAt log env (start + 1)).request)
        (inputAt log env (start + 1)).net (inputAt log env (start + 1)).clock).bind _ = _
      rw [hstep]
      cases (machine hash).step kv (inputAt log env (start + 1)) with
      | none => rfl
      | some p =>
        have hrec := ih (by omega) hrest hunb p.1
        simp only [Option.map_some, Option.bind_some, Option.map_map]
        exact hrec

end

inductive WalPhase
  | running
  | stopping
  | exited
  | rewriting
deriving DecidableEq, Repr

structure WalNode where
  lastSnapIndex : Int := 0
  file : List WalEntry := []
  batch : List WalEntry := []
  reqCh : List WalEntry := []
  replaced : Option (List WalEntry) := none
  phase : WalPhase := .running
  gc : Option Int := none
deriving DecidableEq, Repr

namespace WalNode

inductive Action
  | apply (index : Int)
  | snapshot (index : Int)
  | truncateUpTo
  | receive
  | tick
  | stopWorker
  | closeFile
  | rewrite
  | restart (lost : Bool) (cut : Nat)

def pipeline (node : WalNode) : List WalEntry := node.file ++ node.batch ++ node.reqCh

def accepts (node : WalNode) : Bool :=
  node.phase ≠ .rewriting && node.reqCh.length < Wal.Logger.channelSize

def working (node : WalNode) : Bool := node.phase = .running || node.phase = .stopping

def flush (node : WalNode) : WalNode := { node with file := node.file ++ node.batch, batch := [] }

def survives (node : WalNode) (lost : Bool) (cut : Nat) : List WalEntry :=
  (if lost then node.replaced.getD node.file else node.file).take cut

def step (log : Int → Request) (node : WalNode) : Action → Option WalNode
  | .apply index =>
    if node.accepts then
      some { node with reqCh := node.reqCh ++ [walEntryFromOp index (log index)] }
    else some node
  | .snapshot index =>
    let node := { node with lastSnapIndex := max node.lastSnapIndex index }
    if 0 < index ∧ node.gc = none then some { node with gc := some index } else some node
  | .truncateUpTo =>
    if node.phase = .running ∧ node.gc ≠ none then some { node with phase := .stopping } else none
  | .receive =>
    match node.working, node.reqCh with
    | true, entry :: rest =>
      let node := { node with reqCh := rest, batch := node.batch ++ [entry] }
      some (if Wal.Logger.batchSize ≤ node.batch.length then node.flush else node)
    | _, _ => none
  | .tick => if node.working then some node.flush else none
  | .stopWorker =>
    if node.phase = .stopping then some { node.flush with phase := .exited } else none
  | .closeFile =>
    if node.phase = .exited then some { node with reqCh := [], phase := .rewriting } else none
  | .rewrite =>
    match node.phase, node.gc with
    | .rewriting, some upTo =>
      some { node with
        file := node.file.filter fun entry => upTo < entry.raftIndex
        replaced := some node.file
        phase := .running
        gc := none }
    | _, _ => none
  | .restart lost cut =>
    some { lastSnapIndex := node.lastSnapIndex, file := node.survives lost cut }

/-- When an entry is accepted, it holds the whole of its command, and the log and the snapshot
reach up to the command in front of it. -/
def Reaches (log : Int → Request) (node : WalNode) : Action → Prop
  | .apply index =>
    node.accepts = true → (log index).keptWhole = true ∧
      index ≤ recoveredIndex node.lastSnapIndex node.pipeline + 1
  | _ => True

def system (log : Int → Request) : System WalNode Action where
  init node := node = {}
  step := step log

instance (log : Int → Request) (node : WalNode) (action : Action) :
    Decidable (node.Reaches log action) := by
  cases action <;> dsimp only [Reaches] <;> infer_instance

structure Gapless (log : Int → Request) (node : WalNode) : Prop where
  committed : Committed log node.pipeline
  unbroken : Unbroken node.lastSnapIndex node.pipeline
  replaced : ∀ file, node.replaced = some file →
    Committed log file ∧ Unbroken node.lastSnapIndex file
  gc : ∀ upTo, node.gc = some upTo → upTo ≤ node.lastSnapIndex

variable {log : Int → Request} {node node' : WalNode}

section

variable (h : Gapless log node)

include h

theorem Gapless.flush : Gapless log node.flush := by
  have hpip : node.flush.pipeline = node.pipeline := by simp [pipeline, WalNode.flush]
  exact ⟨hpip ▸ h.committed, hpip ▸ h.unbroken, h.replaced, h.gc⟩

theorem Gapless.front {front back : List WalEntry}
    (hsplit : node.pipeline = front ++ back) : Committed log front ∧
      Unbroken node.lastSnapIndex front := by
  have hcom := h.committed
  have hunb := h.unbroken
  rw [hsplit] at hcom hunb
  exact ⟨fun entry hmem => hcom entry (mem_append_left _ hmem), (unbroken_append.mp hunb).1⟩

theorem Gapless.survives (lost : Bool) (cut : Nat) :
    Committed log (node.survives lost cut) ∧
      Unbroken node.lastSnapIndex (node.survives lost cut) := by
  have hfile : Committed log node.file ∧ Unbroken node.lastSnapIndex node.file := by
    apply h.front
    rw [pipeline, append_assoc]
  have hkept : Committed log (if lost then node.replaced.getD node.file else node.file) ∧
      Unbroken node.lastSnapIndex (if lost then node.replaced.getD node.file else node.file) := by
    cases lost with
    | false => exact hfile
    | true =>
      cases hrep : node.replaced with
      | none => exact hfile
      | some file => exact h.replaced file hrep
  exact ⟨fun entry hmem => hkept.1 entry (mem_of_mem_take hmem), hkept.2.take cut⟩

theorem Gapless.step {action : Action} (hok : node.Reaches log action)
    (hstep : step log node action = some node') : Gapless log node' := by
  cases action with
  | apply index =>
    simp only [WalNode.step] at hstep
    split_ifs at hstep with hacc
    · cases hstep
      obtain ⟨hwhole, hrea⟩ := hok hacc
      refine ⟨?_, ?_, h.replaced, h.gc⟩
      · intro entry hmem
        rw [pipeline, ← append_assoc, mem_append, mem_singleton] at hmem
        rcases hmem with hmem | rfl
        · exact h.committed entry hmem
        · rw [raftIndex_walEntryFromOp]
          exact ⟨rfl, hwhole⟩
      · rw [pipeline, ← append_assoc, unbroken_append]
        refine ⟨h.unbroken, ?_, trivial⟩
        rw [raftIndex_walEntryFromOp]
        exact hrea
    · cases hstep
      exact h
  | snapshot index =>
    have hle : node.lastSnapIndex ≤ max node.lastSnapIndex index := le_max_left ..
    simp only [WalNode.step] at hstep
    split_ifs at hstep
    · cases hstep
      refine ⟨h.committed, h.unbroken.mono hle,
        fun file hfile => ⟨(h.replaced file hfile).1, (h.replaced file hfile).2.mono hle⟩, ?_⟩
      intro upTo hgc
      cases hgc
      exact le_max_right ..
    · cases hstep
      exact ⟨h.committed, h.unbroken.mono hle,
        fun file hfile => ⟨(h.replaced file hfile).1, (h.replaced file hfile).2.mono hle⟩,
        fun upTo hgc => le_trans (h.gc upTo hgc) hle⟩
  | truncateUpTo =>
    simp only [WalNode.step] at hstep
    split_ifs at hstep
    cases hstep
    exact ⟨h.committed, h.unbroken, h.replaced, h.gc⟩
  | receive =>
    simp only [WalNode.step] at hstep
    split at hstep
    · rename_i entry rest _ hch
      cases hstep
      have hpip : ({ node with reqCh := rest, batch := node.batch ++ [entry] } :
          WalNode).pipeline = node.pipeline := by
        simp [pipeline, hch]
      have hmv : Gapless log { node with reqCh := rest, batch := node.batch ++ [entry] } :=
        ⟨hpip ▸ h.committed, hpip ▸ h.unbroken, h.replaced, h.gc⟩
      split
      · exact hmv.flush
      · exact hmv
    · cases hstep
  | tick =>
    simp only [WalNode.step] at hstep
    split_ifs at hstep
    cases hstep
    exact h.flush
  | stopWorker =>
    simp only [WalNode.step] at hstep
    split_ifs at hstep
    cases hstep
    exact ⟨h.flush.committed, h.flush.unbroken, h.flush.replaced, h.flush.gc⟩
  | closeFile =>
    simp only [WalNode.step] at hstep
    split_ifs at hstep
    cases hstep
    have hfr : Committed log (node.file ++ node.batch) ∧
        Unbroken node.lastSnapIndex (node.file ++ node.batch) := h.front rfl
    refine ⟨?_, ?_, h.replaced, h.gc⟩
    · rw [pipeline, append_nil]
      exact hfr.1
    · rw [pipeline, append_nil]
      exact hfr.2
  | rewrite =>
    simp only [WalNode.step] at hstep
    split at hstep
    · rename_i upTo _ hgc
      cases hstep
      have hle := h.gc upTo hgc
      refine ⟨?_, ?_, ?_, nofun⟩
      · intro entry hmem
        apply h.committed
        rw [pipeline, append_assoc, mem_append] at hmem ⊢
        exact hmem.imp_left mem_of_mem_filter
      · have hunb := h.unbroken
        rw [pipeline, append_assoc, unbroken_append] at hunb ⊢
        rw [recoveredIndex_filter hle]
        exact ⟨hunb.1.filter hle, hunb.2⟩
      · intro file hfile
        cases hfile
        apply h.front
        rw [pipeline, append_assoc]
    · cases hstep
  | restart lost cut =>
    cases hstep
    obtain ⟨hcom, hunb⟩ := h.survives lost cut
    refine ⟨?_, ?_, nofun, nofun⟩
    · rw [pipeline, append_nil, append_nil]
      exact hcom
    · rw [pipeline, append_nil, append_nil]
      exact hunb

end

theorem gapless_of_reachable
    (h : (system log).Reachable (fun s a => s.Reaches log a) node) : Gapless log node := by
  apply h.invariant
  · rintro _ rfl
    refine ⟨?_, trivial, ?_, ?_⟩ <;> simp [Committed, pipeline]
  · intro s action t hs hok hstep
    exact hs.step hok hstep

/-- Recovery leaves no gap: from the entries that a crash leaves, it executes the committed
commands between the snapshot and the index it returns, each of them once and in order, on top
of the server that the snapshot was restored to. -/
theorem wal_recovery_leaves_no_gap (hash : String → UInt64) (log : Int → Request)
    {node : WalNode} (hnode : (system log).Reachable (fun s a => s.Reaches log a) node)
    (lost : Bool) (cut : Nat) (env : Int → Net × Clock) (kv : KVServer) :
    ∃ r, node.lastSnapIndex ≤ r ∧ recoverFromWAL hash node.lastSnapIndex kv
          ((node.survives lost cut).map fun entry => (entry, env entry.raftIndex)) =
        ((machine hash).run kv (inputsBetween log env node.lastSnapIndex r)).map
          fun p => (p.1, r) := by
  obtain ⟨hcom, hunb⟩ := (gapless_of_reachable hnode).survives lost cut
  refine ⟨_, le_recoveredIndex node.lastSnapIndex (node.survives lost cut), ?_⟩
  rw [recoverFromWAL, foldlM_map]
  exact foldlM_recoverEntry hash le_rfl hcom hunb kv

def threePuts (index : Int) : Request :=
  .put ⟨if index = 1 then "a" else if index = 2 then "b" else "c", "x", 0, 0⟩

def calm : Int → Net × Clock := fun _ => (.offline, ⟨5, 5⟩)

theorem wal_recovery_leaves_no_gap_threePuts : ∃ node,
    (system threePuts).Reachable (fun s a => s.Reaches threePuts a) node ∧
      node.lastSnapIndex = 1 ∧ node.file.map (·.raftIndex) = [2, 3] ∧
      ∃ r, node.lastSnapIndex ≤ r ∧ recoverFromWAL (fun _ => 0) node.lastSnapIndex (newKVServer 1 ∅)
            ((node.survives false 2).map fun entry => (entry, calm entry.raftIndex)) =
          ((machine fun _ => 0).run (newKVServer 1 ∅)
            (inputsBetween threePuts calm node.lastSnapIndex r)).map fun p => (p.1, r) := by
  obtain ⟨node, hrun, hsnap, hfile⟩ := (system threePuts).exists_of_execOk
    (fun s a => s.Reaches threePuts a) {}
    [.apply 1, .receive, .tick, .snapshot 1, .truncateUpTo, .stopWorker, .closeFile, .rewrite,
      .apply 2, .apply 3, .receive, .receive, .tick]
    (fun node => node.lastSnapIndex = 1 ∧ node.file.map (·.raftIndex) = [2, 3])
    (by decide +kernel)
  have hnode : (system threePuts).Reachable (fun s a => s.Reaches threePuts a) node :=
    ⟨_, rfl, hrun⟩
  exact ⟨node, hnode, hsnap, hfile,
    wal_recovery_leaves_no_gap (fun _ => 0) threePuts hnode false 2 calm (newKVServer 1 ∅)⟩

theorem refused_append_leaves_gap : ∃ node kv kv' kv'' replies replies',
    (system threePuts).Reachable Lib.System.anyStep node ∧ node.lastSnapIndex = 1 ∧
      (machine fun _ => 0).run (newKVServer 1 ∅) (inputsBetween threePuts calm 0 1) =
        some (kv, replies) ∧
      recoverFromWAL (fun _ => 0) 1 kv
        ((node.survives false 2).map fun entry => (entry, calm entry.raftIndex)) = some (kv', 3) ∧
      (machine fun _ => 0).run kv (inputsBetween threePuts calm 1 3) = some (kv'', replies') ∧
      kv'.store["b"]? = none ∧ kv''.store["b"]? = some (.entry ⟨"x", 1, 0⟩) := by
  obtain ⟨node, hrun, hsnap, hfile⟩ := (system threePuts).exists_of_exec {}
    [.apply 1, .receive, .tick, .snapshot 1, .truncateUpTo, .stopWorker, .closeFile, .apply 2,
      .rewrite, .apply 3, .receive, .tick]
    (fun node => node.lastSnapIndex = 1 ∧ node.survives false 2 = [walEntryFromOp 3 (threePuts 3)])
    (by decide +kernel)
  have hfacts : ((machine fun _ => 0).run (newKVServer 1 ∅)
      (inputsBetween threePuts calm 0 1)).any (fun p =>
        (recoverFromWAL (fun _ => 0) 1 p.1
          ([walEntryFromOp 3 (threePuts 3)].map fun entry => (entry, calm entry.raftIndex))).any
            (fun q => q.2 = 3 ∧ q.1.store["b"]? = none) ∧
        ((machine fun _ => 0).run p.1 (inputsBetween threePuts calm 1 3)).any
          fun q => q.1.store["b"]? = some (.entry ⟨"x", 1, 0⟩)) = true := by decide +kernel
  obtain ⟨⟨kv, replies⟩, hkv, hrest⟩ := (Option.any_eq_true ..).mp hfacts
  simp only [Bool.decide_and, Bool.and_eq_true, Option.any_eq_true, decide_eq_true_eq] at hrest
  obtain ⟨⟨⟨kv', r⟩, hrecord, hr, hb⟩, ⟨kv'', replies'⟩, hall, hb'⟩ := hrest
  subst hr
  rw [← hfile] at hrecord
  exact ⟨node, kv, kv', kv'', replies, replies', ⟨_, rfl, Lib.System.Run.of_exec hrun⟩, hsnap, hkv,
    hrecord, hall, hb, hb'⟩

end WalNode

end OrbisKV.KV
