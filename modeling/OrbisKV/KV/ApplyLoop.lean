import OrbisKV.Lib.Transition
import OrbisKV.KV.Image
import OrbisKV.KV.Wal
/-!
# Snapshots next to the apply loop

`applyCommand` executes a command and may start `createSnapshot` in a goroutine of
its own, with the index of that command as its label.
-/

namespace OrbisKV.KV

open Std Lib KVServer List Option Store

inductive Stage
  | started
  | saved (store : Store.Envelope)
  | taken (data : Option KVServer.Snapshot)
  | finished

def Stage.isReading : Stage → Bool
  | .started => true
  | .saved _ => true
  | _ => false

structure Routine where
  label : Nat
  stage : Stage

structure ApplyLoop where
  kv : KVServer
  applied : List Input := []
  applying : Option Input := none
  lastSnapIndex : Int := 0
  routines : List Routine := []
  handed : List (Nat × Option KVServer.Snapshot) := []

def snapMinDelta : Int := 64

namespace ApplyLoop

inductive Action
  | take (input : Input)
  | apply (wants : Bool)
  | readStore (j : Nat) (torn : Option Store)
  | readShards (j : Nat) (torn : Option ShardStateManager)
  | hand (j : Nat)

def shouldCreateSnapshot (loop : ApplyLoop) (commandIndex : Nat) (wants : Bool) : Bool :=
  wants && decide (snapMinDelta ≤ commandIndex - loop.lastSnapIndex)

def seen {α : Type} (loop : ApplyLoop) (current : α) : Option α → Option α
  | none => some current
  | some torn => if loop.applying.isSome then some torn else none

def setStage (loop : ApplyLoop) (j : Nat) (r : Routine) (stage : Stage) : ApplyLoop :=
  { loop with routines := loop.routines.set j { r with stage := stage } }

def step (hash : String → UInt64) (loop : ApplyLoop) : Action → Option ApplyLoop
  | .take input =>
    match loop.applying with
    | some _ => none
    | none => some { loop with applying := some input }
  | .apply wants =>
    match loop.applying with
    | none => none
    | some input =>
      (loop.kv.doOp hash input.net input.clock input.request).map fun r =>
        let commandIndex := loop.applied.length + 1
        { loop with
          kv := r.1
          applied := loop.applied ++ [input]
          applying := none
          routines :=
            if loop.shouldCreateSnapshot commandIndex wants then
              loop.routines ++ [⟨commandIndex, .started⟩]
            else loop.routines }
  | .readStore j torn =>
    match loop.routines[j]? with
    | some r =>
      match r.stage with
      | .started =>
        (loop.seen loop.kv.store torn).map fun s =>
          loop.setStage j r <|
            if loop.kv.dead then .taken none
            else
              match s.saveSnapshot with
              | .error _ => .taken none
              | .ok envelope => .saved envelope
      | _ => none
    | none => none
  | .readShards j torn =>
    match loop.routines[j]? with
    | some r =>
      match r.stage with
      | .saved envelope =>
        (loop.seen loop.kv.shardMgr torn).map fun m =>
          loop.setStage j r (.taken (some ⟨envelope, m.snapshot⟩))
      | _ => none
    | none => none
  | .hand j =>
    match loop.routines[j]? with
    | some r =>
      match r.stage with
      | .taken data =>
        some { loop.setStage j r .finished with
          handed := loop.handed ++ [(r.label, data)]
          lastSnapIndex := r.label }
      | _ => none
    | none => none

def system (hash : String → UInt64) (groupID : Int) : System ApplyLoop Action where
  init loop := loop = { kv := newKVServer groupID ∅ }
  step := step hash

def noneDecided (kv : KVServer) : Bool :=
  kv.txMgr.preparedTxs.toList.all fun item =>
    item.2.coordinatorGroupID ≠ kv.groupID ||
      (kv.store.getTxRecord (txDecisionPrefix ++ item.1)).isNone

/-- The loop waits for the reads of a snapshot before it takes the next command,
the commands keep to the rules, and a snapshot is begun while no prepared
transaction is decided. -/
def calm (loop : ApplyLoop) : Action → Bool
  | .take input =>
    (loop.routines.all fun r => !r.stage.isReading) && loop.kv.orderly input.request
  | .readStore _ _ => noneDecided loop.kv
  | _ => true

section

variable {j : Nat}

variable {hash : String → UInt64} {groupID : Int}

structure Steady (groupID : Int) (kv : KVServer) : Prop where
  tidy : kv.Tidy
  typed : kv.store.Typed
  alive : kv.dead = false
  group : kv.groupID = groupID

theorem Steady.doOp {kv kv' : KVServer} (h : Steady groupID kv) {net : Net} {clock : Clock}
    {req : Request} {reply : Reply} (hreq : kv.orderly req = true)
    (hrun : kv.doOp hash net clock req = some (kv', reply)) : Steady groupID kv' := by
  have htidy := h.tidy.doOp hreq hrun
  rcases moved_or_set (fun _ hk => hk) (within_true kv)
    (request_within_true req) hrun with hmv | ⟨mgr, rfl⟩
  · exact ⟨htidy, hmv.changes.typed h.typed, hmv.dead.trans h.alive, hmv.groupID.trans h.group⟩
  · exact ⟨htidy, h.typed, h.alive, h.group⟩

structure Faithful (hash : String → UInt64) (groupID : Int) (applied : List Input) (i : Nat)
    (data : Option KVServer.Snapshot) : Prop where
  bound : i ≤ applied.length
  image : ∃ kv replies,
    (machine hash).run (newKVServer groupID ∅) (applied.take i) = some (kv, replies) ∧
      data = kv.snapshot ∧ Steady groupID kv ∧ noneDecided kv = true

theorem Faithful.append {applied : List Input} {i : Nat} {data : Option KVServer.Snapshot}
    (h : Faithful hash groupID applied i data) (later : List Input) :
    Faithful hash groupID (applied ++ later) i data := by
  refine ⟨?_, ?_⟩
  · rw [length_append]
    exact Nat.le_add_right_of_le h.bound
  · rw [take_append_of_le_length h.bound]
    exact h.image

/-- The invariant: goroutines that are still reading read the state of their label,
and what the others have read is the snapshot of theirs. -/
structure Invariant (hash : String → UInt64) (groupID : Int) (loop : ApplyLoop) : Prop where
  ran : ∃ replies, (machine hash).run (newKVServer groupID ∅) loop.applied = some (loop.kv, replies)
  steady : Steady groupID loop.kv
  waits : loop.applying.isSome → ∀ r ∈ loop.routines, r.stage.isReading = false
  follows : ∀ input, loop.applying = some input → loop.kv.orderly input.request = true
  reading : ∀ r ∈ loop.routines, r.stage.isReading = true → r.label = loop.applied.length
  saved : ∀ r ∈ loop.routines, ∀ envelope, r.stage = .saved envelope →
    loop.kv.store.saveSnapshot = .ok envelope ∧ noneDecided loop.kv = true
  taken : ∀ r ∈ loop.routines, ∀ data, r.stage = .taken data →
    Faithful hash groupID loop.applied r.label data
  handed : ∀ item ∈ loop.handed, Faithful hash groupID loop.applied item.1 item.2

theorem steady_newKVServer (groupID : Int) : Steady groupID (newKVServer groupID ∅) := by
  have hrecord : ∀ x, getTxRecord ∅ x = none := fun x => by simp [getTxRecord]
  refine ⟨⟨rfl, ⟨?_, ?_⟩, ?_, ?_, ?_, ?_⟩, ?_, rfl, rfl⟩
  · intro txID rec hrec
    simp [newKVServer] at hrec
  · intro txID rec hrec
    simp [newKVServer, hrecord] at hrec
  · intro txID
    simp [newKVServer, hrecord]
  · intro txID rec hrec
    simp [newKVServer] at hrec
  · intro txID rec hrec
    simp [newKVServer] at hrec
  · intro key txID
    simp [newKVServer]
  · intro key _ d hd
    simp [newKVServer] at hd

theorem invariant_init (hash : String → UInt64) (groupID : Int) :
    Invariant hash groupID { kv := newKVServer groupID ∅ } := by
  refine ⟨⟨[], rfl⟩, steady_newKVServer groupID, ?_, ?_, ?_, ?_, ?_, ?_⟩
  · intro happ
    cases happ
  · intro input happ
    cases happ
  · intro r hr
    cases hr
  · intro r hr
    cases hr
  · intro r hr
    cases hr
  · intro item hitem
    cases hitem

variable {loop loop' : ApplyLoop}

section

variable (h : Invariant hash groupID loop)

include h

theorem Invariant.take {input : Input} (hcalm : loop.calm (.take input) = true)
    (hstep : loop.step hash (.take input) = some loop') : Invariant hash groupID loop' := by
  simp only [calm, Bool.and_eq_true, List.all_eq_true, Bool.not_eq_true'] at hcalm
  simp only [ApplyLoop.step] at hstep
  split at hstep
  · cases hstep
  · cases hstep
    refine ⟨h.ran, h.steady, fun _ => hcalm.1, ?_, h.reading, h.saved, h.taken, h.handed⟩
    intro other happ
    cases happ
    exact hcalm.2

theorem Invariant.apply {wants : Bool}
    (hstep : loop.step hash (.apply wants) = some loop') : Invariant hash groupID loop' := by
  simp only [ApplyLoop.step] at hstep
  split at hstep
  · cases hstep
  · rename_i input happ
    obtain ⟨⟨kv', reply⟩, hrun, rfl⟩ := map_eq_some_iff.mp hstep
    obtain ⟨replies, hran⟩ := h.ran
    have hquiet := h.waits (by rw [happ]; rfl)
    -- the only goroutine that reads is the one that this command has started
    have hrou : ∀ r ∈ (if loop.shouldCreateSnapshot (loop.applied.length + 1) wants then
          loop.routines ++ [⟨loop.applied.length + 1, .started⟩] else loop.routines),
        r ∈ loop.routines ∨ r = ⟨loop.applied.length + 1, .started⟩ := by
      intro r hr
      split at hr
      · exact (mem_append.mp hr).imp_right mem_singleton.mp
      · exact Or.inl hr
    refine ⟨?_, h.steady.doOp (h.follows input happ) hrun, ?_, ?_, ?_, ?_, ?_, ?_⟩
    · refine ⟨replies ++ [reply], ?_⟩
      rw [Machine.run_append, hran, Option.bind_some, Machine.run_singleton,
        show (machine hash).step loop.kv input = some (kv', reply) from hrun]
      rfl
    · intro hnone
      cases hnone
    · intro other hnone
      cases hnone
    · intro r hr hrea
      rcases hrou r hr with hold | rfl
      · rw [hquiet r hold] at hrea
        cases hrea
      · simp
    · intro r hr envelope hstg
      rcases hrou r hr with hold | rfl
      · have hrea := hquiet r hold
        rw [hstg] at hrea
        cases hrea
      · cases hstg
    · intro r hr data hstg
      rcases hrou r hr with hold | rfl
      · exact (h.taken r hold data hstg).append [input]
      · cases hstg
    · intro item hitem
      exact (h.handed item hitem).append [input]

theorem Invariant.setStage {r : Routine}
    (hr : loop.routines[j]? = some r) {stage : Stage}
    (hrea : stage.isReading = true → r.stage.isReading = true)
    (hsaved : ∀ envelope, stage = .saved envelope →
      loop.kv.store.saveSnapshot = .ok envelope ∧ noneDecided loop.kv = true)
    (htaken : ∀ data, stage = .taken data → Faithful hash groupID loop.applied r.label data) :
    Invariant hash groupID (loop.setStage j r stage) := by
  have hmem : r ∈ loop.routines := mem_of_getElem? hr
  have hrou : ∀ x ∈ (loop.setStage j r stage).routines,
      x ∈ loop.routines ∨ x = { r with stage := stage } :=
    fun x hx => mem_or_eq_of_mem_set hx
  refine ⟨h.ran, h.steady, ?_, h.follows, ?_, ?_, ?_, h.handed⟩
  · intro happ x hx
    rcases hrou x hx with hold | rfl
    · exact h.waits happ x hold
    · have hidle := h.waits happ r hmem
      rw [Bool.eq_false_iff] at hidle ⊢
      exact fun hstg => hidle (hrea hstg)
  · intro x hx hxre
    rcases hrou x hx with hold | rfl
    · exact h.reading x hold hxre
    · exact h.reading r hmem (hrea hxre)
  · intro x hx envelope hstg
    rcases hrou x hx with hold | rfl
    · exact h.saved x hold envelope hstg
    · exact hsaved envelope hstg
  · intro x hx data hstg
    rcases hrou x hx with hold | rfl
    · exact h.taken x hold data hstg
    · exact htaken data hstg

theorem Invariant.seen_eq {r : Routine}
    (hr : r ∈ loop.routines) (hrea : r.stage.isReading = true) {α : Type} {current s : α}
    {torn : Option α} (hseen : loop.seen current torn = some s) : s = current := by
  have hnone : loop.applying.isSome = false := by
    rw [Bool.eq_false_iff]
    intro hsome
    rw [h.waits hsome r hr] at hrea
    cases hrea
  unfold seen at hseen
  split at hseen
  · exact (Option.some.inj hseen).symm
  · rw [hnone] at hseen
    cases hseen

theorem Invariant.readStore {torn : Option Store} (hcalm : loop.calm (.readStore j torn) = true)
    (hstep : loop.step hash (.readStore j torn) = some loop') : Invariant hash groupID loop' := by
  simp only [ApplyLoop.step] at hstep
  split at hstep
  · rename_i r hr
    split at hstep
    · rename_i hstg
      obtain ⟨s, hseen, rfl⟩ := map_eq_some_iff.mp hstep
      have hrea : r.stage.isReading = true := by rw [hstg]; rfl
      obtain rfl := h.seen_eq (mem_of_getElem? hr) hrea hseen
      obtain ⟨envelope, hsave, -⟩ := loadSnapshot_saveSnapshot h.steady.typed
      rw [if_neg (by rw [h.steady.alive]; decide), hsave]
      apply h.setStage hr (fun _ => hrea)
      · intro envelope' heq
        cases heq
        exact ⟨hsave, hcalm⟩
      · intro data heq
        cases heq
    · cases hstep
  · cases hstep

theorem Invariant.readShards {torn : Option ShardStateManager}
    (hstep : loop.step hash (.readShards j torn) = some loop') : Invariant hash groupID loop' := by
  simp only [ApplyLoop.step] at hstep
  split at hstep
  · rename_i r hr
    split at hstep
    · rename_i envelope hstg
      obtain ⟨m, hseen, rfl⟩ := map_eq_some_iff.mp hstep
      have hmem := mem_of_getElem? hr
      have hrea : r.stage.isReading = true := by rw [hstg]; rfl
      obtain rfl := h.seen_eq hmem hrea hseen
      obtain ⟨hsave, hnone⟩ := h.saved r hmem envelope hstg
      apply h.setStage hr (fun hfalse => by cases hfalse)
      · intro envelope' heq
        cases heq
      · intro data heq
        cases heq
        obtain ⟨replies, hran⟩ := h.ran
        have hlabel := h.reading r hmem hrea
        refine ⟨Nat.le_of_eq hlabel, loop.kv, replies, ?_, ?_, h.steady, hnone⟩
        · rw [hlabel, take_length]
          exact hran
        · rw [snapshot, if_neg (by rw [h.steady.alive]; decide), hsave]
    · cases hstep
  · cases hstep

theorem Invariant.hand
    (hstep : loop.step hash (.hand j) = some loop') : Invariant hash groupID loop' := by
  simp only [ApplyLoop.step] at hstep
  split at hstep
  · rename_i r hr
    split at hstep
    · rename_i data hstg
      cases hstep
      have hmv : Invariant hash groupID (loop.setStage j r .finished) :=
        h.setStage hr nofun nofun nofun
      refine ⟨hmv.ran, hmv.steady, hmv.waits, hmv.follows, hmv.reading, hmv.saved, hmv.taken, ?_⟩
      intro item hitem
      rcases mem_append.mp hitem with hold | hnew
      · exact h.handed item hold
      · obtain rfl := mem_singleton.mp hnew
        exact h.taken r (mem_of_getElem? hr) data hstg
    · cases hstep
  · cases hstep

theorem Invariant.step {a : Action} (hcalm : loop.calm a = true)
    (hstep : loop.step hash a = some loop') : Invariant hash groupID loop' := by
  cases a with
  | take input => exact h.take hcalm hstep
  | apply wants => exact h.apply hstep
  | readStore j torn => exact h.readStore hcalm hstep
  | readShards j torn => exact h.readShards hstep
  | hand j => exact h.hand hstep

end

theorem open_of_noneDecided {kv : KVServer} (h : kv.Tidy) (hnone : noneDecided kv = true)
    {net : Net} {txID : String} {rec : PreparedTxRecord}
    (hcac : kv.txMgr.preparedTxs[txID]? = some rec) (hnet : rec.coordinatorGroupID ≠ kv.groupID →
      net.queryTxDecision rec.coordinatorGroupID rec.txID ≠ some "COMMITTED" ∧
        net.queryTxDecision rec.coordinatorGroupID rec.txID ≠ some "ABORTED") :
    kv.Open net rec := by
  have hunk : kv.queryCoordinatorDecision net rec = .unknown := by
    unfold queryCoordinatorDecision
    by_cases hown : rec.coordinatorGroupID = kv.groupID
    · rw [noneDecided, List.all_eq_true] at hnone
      have hitem := hnone (txID, rec) (ExtTreeMap.mem_toList_iff_getElem?_eq_some.mpr hcac)
      obtain rfl := h.named txID rec hcac
      simp only [hown, ne_eq, not_true_eq_false, decide_false, Bool.false_or,
        isNone_iff_eq_none] at hitem
      rw [if_pos hown, hitem]
      rfl
    · obtain ⟨hcom, habo⟩ := hnet hown
      rw [if_neg hown]
      cases hans : net.queryTxDecision rec.coordinatorGroupID rec.txID with
      | none => rfl
      | some decision =>
        rw [hans] at hcom habo
        simp only [ne_eq, Option.some.injEq] at hcom habo
        simp [hcom, habo]
  rw [KVServer.Open, hunk]
  exact ⟨by decide, by decide⟩

/-- In every run in which the loop waits for the reads of a snapshot and its commands
keep to the rules, a snapshot handed over with label `i` is the state at `i`: a node
that restores it and goes on with any commands ends as a node that has applied the
first `i` commands itself. -/
theorem snapshot_is_state_at_label {loop : ApplyLoop}
    (hloop : (system hash groupID).Reachable (fun l a => l.calm a = true) loop)
    {i : Nat} {data : Option KVServer.Snapshot} (hhan : (i, data) ∈ loop.handed)
    (node : KVServer) (hgrp : node.groupID = groupID) (halive : node.dead = false)
    (hmu : node.txMgr.mu = false) (net : Net) (records : List (String × Document))
    (hperm : ∀ d, data = some d →
      records.Perm ((loadSnapshot d.store).scanTxRecordsByPrefix txPreparePrefix))
    (hnet : ∀ item ∈ records, ∀ rec, item.2 = .prepare rec → rec.coordinatorGroupID ≠ groupID →
      net.queryTxDecision rec.coordinatorGroupID rec.txID ≠ some "COMMITTED" ∧
        net.queryTxDecision rec.coordinatorGroupID rec.txID ≠ some "ABORTED")
    (later : List Input) :
    i ≤ loop.applied.length ∧
      ((node.restore net records data).bind fun kv => (machine hash).run kv later).map (·.1) =
        ((machine hash).run (newKVServer groupID ∅) (loop.applied.take i ++ later)).map (·.1) := by
  have hinv : Invariant hash groupID loop := by
    refine System.Reachable.invariant ?_ (fun l a l' h hcalm hstep => h.step hcalm hstep) hloop
    rintro l rfl
    exact invariant_init hash groupID
  obtain ⟨hbound, kv, replies, hrun, hdata, hste, hnone⟩ := hinv.handed _ hhan
  obtain ⟨envelope, hsave, hload⟩ := loadSnapshot_saveSnapshot hste.typed
  have hsnap : kv.snapshot = some ⟨envelope, kv.shardMgr.snapshot⟩ := by
    rw [snapshot, if_neg (by rw [hste.alive]; decide), hsave]
  have hperm := hperm _ (hdata.trans hsnap)
  rw [hload] at hperm
  have hopen : ∀ (txID : String) (rec : PreparedTxRecord),
      kv.txMgr.preparedTxs[txID]? = some rec → kv.Open net rec := by
    intro txID rec hcac
    apply open_of_noneDecided hste.tidy hnone hcac
    intro hother
    rw [hste.group] at hother
    refine hnet (txKeyPrefix ++ (txPreparePrefix ++ txID), .prepare rec) ?_ rec rfl hother
    apply hperm.mem_iff.mpr
    refine mem_scanTxRecordsByPrefix.mpr ⟨txID, rfl, ?_⟩
    rw [hste.tidy.cached, hcac]
    rfl
  have hres : node.restore net records data = some kv := by
    rw [show data = kv.snapshot from hdata]
    exact hste.tidy.restore hste.typed hste.alive hopen hperm (hgrp.trans hste.group.symm)
      halive hmu
  refine ⟨hbound, ?_⟩
  rw [hres, Option.bind_some, Machine.run_append,
    show (machine hash).run (newKVServer groupID ∅) (loop.applied.take i) = _ from hrun,
    Option.bind_some, Option.map_map]
  rfl

end

def sampleInput (req : Request) : Input := ⟨req, .offline, ⟨5, 5⟩⟩

def applyAll (wants : Bool) (inputs : List Input) : List Action :=
  inputs.flatMap fun input => [.take input, .apply wants]

def sampleCommands : List Input :=
  List.replicate 63 (sampleInput (.get "k")) ++ [sampleInput (.put ⟨"k", "a", 0, 0⟩)]

def laterCommands : List Input :=
  [sampleInput (.put ⟨"k", "b", 2, 0⟩), sampleInput (.put ⟨"k", "c", 1, 0⟩)]

theorem snapshot_is_state_at_label_sample :
    ∃ loop : ApplyLoop, (system (fun _ => 0) 1).Reachable (fun l a => l.calm a = true) loop ∧
      ∃ item ∈ loop.handed, item.1 = 64 ∧
        (((newKVServer 1 ∅).restore .offline [] item.2).bind fun kv =>
            (machine fun _ => 0).run kv laterCommands).map (·.1) =
          ((machine fun _ => 0).run (newKVServer 1 ∅) (loop.applied.take 64 ++ laterCommands)).map
            (·.1) := by
  obtain ⟨loop, hrun, hhan, hscan⟩ := System.exists_of_execOk (system (fun _ => 0) 1)
    (fun l a => l.calm a = true) { kv := newKVServer 1 ∅ }
    (applyAll true sampleCommands ++ [.readStore 0 none, .readShards 0 none] ++
      applyAll false laterCommands ++ [.hand 0])
    (fun l => l.handed.map (·.1) = [64] ∧ ∀ item ∈ l.handed, item.2.all (fun d =>
      (loadSnapshot d.store).scanTxRecordsByPrefix txPreparePrefix = []) = true)
    (by decide +kernel)
  obtain ⟨item, hitem⟩ : ∃ item, loop.handed = [item] :=
    length_eq_one_iff.mp (by rw [← length_map, hhan]; rfl)
  have hmem : item ∈ loop.handed := by rw [hitem]; exact mem_singleton_self item
  have hlabel : item.1 = 64 := by
    rw [hitem] at hhan
    exact singleton_inj.mp hhan
  have hreach : (system (fun _ => 0) 1).Reachable (fun l a => l.calm a = true) loop :=
    ⟨_, rfl, hrun⟩
  refine ⟨loop, hreach, item, hmem, hlabel, ?_⟩
  rw [← hlabel]
  refine (snapshot_is_state_at_label hreach hmem (newKVServer 1 ∅) rfl rfl rfl .offline [] ?_
    nofun laterCommands).2
  intro d hd
  have hempty := hscan item hmem
  rw [hd, all_some, decide_eq_true_eq] at hempty
  rw [hempty]

theorem snapshot_overtaken_by_commands :
    ∃ loop : ApplyLoop, (system (fun _ => 0) 1).Reachable System.anyStep loop ∧
      loop.handed.map (·.1) = [64] ∧ loop.applied.length = 66 ∧
      ((machine fun _ => 0).run (newKVServer 1 ∅) loop.applied).map (fun p => p.1.store["k"]?) =
        some (some (.entry ⟨"c", 2, 0⟩)) ∧
      ∀ item ∈ loop.handed, (((newKVServer 1 ∅).restore .offline [] item.2).bind fun kv =>
            (machine fun _ => 0).run kv (loop.applied.drop 64)).map (fun p => p.1.store["k"]?) =
          some (some (.entry ⟨"b", 3, 0⟩)) :=
  System.exists_reachable_of_exec { kv := newKVServer 1 ∅ }
    (applyAll true sampleCommands ++ applyAll false laterCommands ++
      [.readStore 0 none, .readShards 0 none, .hand 0]) rfl (by decide +kernel)

theorem steady_run {hash : String → UInt64} {groupID : Int} {kv kv' : KVServer}
    {inputs : List Input} {replies : List Reply} (h : Steady groupID kv)
    (hrun : (machine hash).run kv inputs = some (kv', replies))
    (hok : (machine hash).Along (fun kv input _ => kv.orderly input.request = true) kv inputs) :
    Steady groupID kv' := by
  induction inputs generalizing kv replies with
  | nil =>
    cases hrun
    exact h
  | cons input inputs ih =>
    obtain ⟨mid, r, rs, hstep, hrest, -⟩ := Machine.run_cons_eq_some.mp hrun
    obtain ⟨hreq, htail⟩ := hok mid r hstep
    exact ih (h.doOp hreq hstep) hrest htail

/-- A server that is asked for a snapshot after any commands that keep to the rules, while
no decision can be had for a prepared transaction, is restored as it was: the store with
its entries and records, the locks, the prepared transactions, the shard states and the
epoch. -/
theorem restore_gives_back_server {hash : String → UInt64} {groupID : Int} {kv : KVServer}
    {inputs : List Input} {replies : List Reply}
    (hrun : (machine hash).run (newKVServer groupID ∅) inputs = some (kv, replies))
    (hok : (machine hash).Along (fun kv input _ => kv.orderly input.request = true)
      (newKVServer groupID ∅) inputs)
    (net : Net) (hopen : ∀ (txID : String) (rec : PreparedTxRecord),
      kv.txMgr.preparedTxs[txID]? = some rec → kv.Open net rec)
    (initial : Store) (records : List (String × Document))
    (hrecor : records.Perm (kv.store.scanTxRecordsByPrefix txPreparePrefix)) :
    kv.snapshot.isSome = true ∧
      (newKVServer groupID initial).restore net records kv.snapshot = some kv := by
  have h := steady_run (steady_newKVServer groupID) hrun hok
  obtain ⟨envelope, hsave, -⟩ := loadSnapshot_saveSnapshot h.typed
  refine ⟨?_, h.tidy.restore h.typed h.alive hopen hrecor h.group.symm rfl rfl⟩
  rw [snapshot, if_neg (by rw [h.alive]; decide), hsave]
  rfl

def preparedWrite : Input :=
  sampleInput (.prepareTx ⟨"t", [], [⟨"k", "a", 0, false⟩], 0, 1, [1, 2]⟩)

def mixedCommands : List Input :=
  [sampleInput (.put ⟨"j", "b", 0, 7⟩), preparedWrite,
    sampleInput (.setShardState ⟨3, .migrating, 2, 9, ["r"]⟩)]

theorem restore_gives_back_server_mixed :
    ∃ kv replies, (machine fun _ => 0).run (newKVServer 1 ∅) mixedCommands = some (kv, replies) ∧
      kv.txMgr.lockTable["k"]? = some "t" ∧ kv.shardMgr.epoch = 9 ∧
      (newKVServer 1 ∅).restore .offline (kv.store.scanTxRecordsByPrefix txPreparePrefix)
        kv.snapshot = some kv := by
  have hfacts : ((machine fun _ => 0).run (newKVServer 1 ∅) mixedCommands).any (fun p =>
      decide (p.1.txMgr.lockTable["k"]? = some "t" ∧ p.1.shardMgr.epoch = 9) &&
        noneDecided p.1) = true := by
    decide +kernel
  obtain ⟨⟨kv, replies⟩, hrun, hfacts⟩ := (Option.any_eq_true ..).mp hfacts
  rw [Bool.and_eq_true, decide_eq_true_eq] at hfacts
  obtain ⟨⟨hlock, hepoch⟩, hnone⟩ := hfacts
  have hok : (machine fun _ => 0).Along (fun kv input _ => kv.orderly input.request = true)
      (newKVServer 1 ∅) mixedCommands := by
    decide +kernel
  have htidy := (steady_run (steady_newKVServer 1) hrun hok).tidy
  have hopen : ∀ (txID : String) (rec : PreparedTxRecord),
      kv.txMgr.preparedTxs[txID]? = some rec → kv.Open .offline rec :=
    fun _ _ hrec => open_of_noneDecided htidy hnone hrec fun _ =>
      ⟨(some_ne_none _).symm, (some_ne_none _).symm⟩
  exact ⟨kv, replies, hrun, hlock, hepoch,
    (restore_gives_back_server hrun hok .offline hopen ∅ _ (List.Perm.refl _)).2⟩

/-- The transaction and the decision to commit it, which the coordinator has not passed
on yet. -/
def decidedWrite : List Input :=
  [preparedWrite, sampleInput (.recordTxDecision ⟨"t", .committed, [1, 2], [⟨"k", "a", 0, false⟩]⟩)]

theorem restore_commits_decided_transaction :
    ∃ kv kv' replies, (machine fun _ => 0).run (newKVServer 1 ∅) decidedWrite = some (kv, replies) ∧
      (newKVServer 1 ∅).restore .offline (kv.store.scanTxRecordsByPrefix txPreparePrefix)
        kv.snapshot = some kv' ∧
      (kv.store["k"]? = none ∧ kv'.store["k"]? = some (.entry ⟨"a", 1, 0⟩)) ∧
      (kv.txMgr.lockTable["k"]? = some "t" ∧ kv'.txMgr.lockTable["k"]? = none) ∧
      (kv.txMgr.preparedTxs["t"]?.isSome = true ∧ kv'.txMgr.preparedTxs["t"]? = none) ∧
      kv.hasRecord txCommitPrefix "t" = false ∧ kv'.hasRecord txCommitPrefix "t" = true := by
  have hfacts : ((machine fun _ => 0).run (newKVServer 1 ∅) decidedWrite).any (fun p =>
      ((newKVServer 1 ∅).restore .offline (p.1.store.scanTxRecordsByPrefix txPreparePrefix)
        p.1.snapshot).any fun kv' => decide
          ((p.1.store["k"]? = none ∧ kv'.store["k"]? = some (.entry ⟨"a", 1, 0⟩)) ∧
          (p.1.txMgr.lockTable["k"]? = some "t" ∧ kv'.txMgr.lockTable["k"]? = none) ∧
          (p.1.txMgr.preparedTxs["t"]?.isSome = true ∧ kv'.txMgr.preparedTxs["t"]? = none) ∧
          p.1.hasRecord txCommitPrefix "t" = false ∧
            kv'.hasRecord txCommitPrefix "t" = true)) = true := by
    decide +kernel
  obtain ⟨⟨kv, replies⟩, hrun, hresto⟩ := (Option.any_eq_true ..).mp hfacts
  obtain ⟨kv', hres, hdif⟩ := (Option.any_eq_true ..).mp hresto
  exact ⟨kv, kv', replies, hrun, hres, of_decide_eq_true hdif⟩

end ApplyLoop

end OrbisKV.KV
