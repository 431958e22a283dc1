import OrbisKV.Lib.Update
import OrbisKV.Lib.Transition
import OrbisKV.KV.Moves
import OrbisKV.KV.Wal
/-!
# Cleaning up a shard that was given away

`CleanupShard` looks at the shard's state on the replica that takes the call and then
submits its command; `doCleanupShard`, which every replica runs when it applies the
command, does not look again.
-/

namespace OrbisKV.KV

open Std List Option ShardStateManager

namespace ShardStateManager

def getShardState (ssm : ShardStateManager) (shardID : Int64) : Option ShardMeta :=
  (validateShardID shardID).toOption.map ssm.states

def Abandoned (ssm : ShardStateManager) (shardID : Int64) : Prop :=
  (ssm.getShardState shardID).map (·.state) = some .absent

instance (ssm : ShardStateManager) (shardID : Int64) : Decidable (ssm.Abandoned shardID) :=
  inferInstanceAs (Decidable (_ = _))

def applyRequest (ssm : ShardStateManager) : Request → ShardStateManager
  | .setShardState args => (ssm.setShardState args).toOption.getD ssm
  | _ => ssm

def after (log : List Request) : ShardStateManager := log.foldl applyRequest newShardStateManager

end ShardStateManager

def Request.reclaims (shardID : Int64) : Request → Bool
  | .setShardState args => args.shardID = shardID && args.state ≠ .absent
  | _ => false

def Request.setsShardState : Request → Bool
  | .setShardState _ => true
  | _ => false

def Request.isCleanup : Request → Bool
  | .cleanupShard _ => true
  | _ => false

/-- A node of the group with the number of commands it has applied. -/
structure Replica where
  server : KVServer
  applied : Nat

/-- A `CleanupShard` call between its check and its command, with the number of
commands that the replica had applied when it looked. -/
structure CheckedCall where
  args : CleanupShardArgs
  seen : Nat

structure CleanupGroup where
  log : List Request
  replicas : Nat → Replica
  snapshots : List (KVServer.Snapshot × Nat)
  checked : List CheckedCall

inductive CleanupAction
  | append (req : Request)
  | check (r : Nat) (args : CleanupShardArgs)
  | submit (i : Nat)
  | apply (r : Nat) (net : Net) (clock : Clock)
  | replay (r i : Nat) (net : Net) (clock : Clock)
  | snapshot (r : Nat)
  | restore (r i : Nat) (net : Net) (records : List (String × Document))
  | restart (r : Nat)

namespace CleanupGroup

def setReplica (g : CleanupGroup) (r : Nat) (server : KVServer) (applied : Nat) : CleanupGroup :=
  { g with replicas := Function.update g.replicas r ⟨server, applied⟩ }

def step (hash : String → UInt64) (g : CleanupGroup) : CleanupAction → Option CleanupGroup
  | .append req => if req.isCleanup then none else some { g with log := g.log ++ [req] }
  | .check r args =>
    if (g.replicas r).server.shardMgr.Abandoned args.shardID then
      some { g with checked := g.checked ++ [⟨args, (g.replicas r).applied⟩] }
    else some g
  | .submit i =>
    g.checked[i]?.map fun call =>
      { g with log := g.log ++ [.cleanupShard call.args], checked := g.checked.eraseIdx i }
  | .apply r net clock =>
    let node := g.replicas r
    g.log[node.applied]?.bind fun req =>
      (node.server.doOp hash net clock req).map fun out =>
        g.setReplica r out.1 (node.applied + 1)
  -- the write-ahead log lacks the commands whose append was refused
  | .replay r i net clock =>
    let node := g.replicas r
    if i < node.applied then none
    else
      g.log[i]?.bind fun req =>
        (KV.replay hash node.server ⟨req, net, clock⟩).map fun server =>
          g.setReplica r server (i + 1)
  | .snapshot r =>
    (g.replicas r).server.snapshot.map fun data =>
      { g with snapshots := g.snapshots ++ [(data, (g.replicas r).applied)] }
  | .restore r i net records =>
    g.snapshots[i]?.bind fun item =>
      ((g.replicas r).server.restore net records (some item.1)).map fun server =>
        g.setReplica r server item.2
  | .restart r =>
    let server := (g.replicas r).server
    some (g.setReplica r (newKVServer server.groupID server.store) 0)

def system (hash : String → UInt64) : Lib.System CleanupGroup CleanupAction where
  init g := g.log = [] ∧ g.snapshots = [] ∧ g.checked = [] ∧
    ∀ r, (g.replicas r).server.shardMgr = newShardStateManager ∧ (g.replicas r).applied = 0
  step := step hash

/-- The command that an action executes, with the replica. -/
def executes (g : CleanupGroup) : CleanupAction → Option (Nat × Request)
  | .apply r _ _ => g.log[(g.replicas r).applied]?.map (r, ·)
  | .replay r i _ _ => if i < (g.replicas r).applied then none else g.log[i]?.map (r, ·)
  | _ => none

/-- Between what the replica of the check had applied and the command's place in the
log, no command gives the shard another state, and a replay skips no `SetShardState`. -/
def unclaimed (g : CleanupGroup) : CleanupAction → Prop
  | .submit i => ∀ call ∈ g.checked[i]?, ∀ req ∈ g.log.drop call.seen,
      req.reclaims call.args.shardID = false
  | .replay r i _ _ => ∀ req ∈ (g.log.take i).drop (g.replicas r).applied,
      req.setsShardState = false
  | _ => True

def Leads (log : List Request) (n : Nat) (ssm : ShardStateManager) : Prop :=
  n ≤ log.length ∧ ssm = .after (log.take n)

structure Inv (g : CleanupGroup) : Prop where
  replicas : ∀ r, Leads g.log (g.replicas r).applied (g.replicas r).server.shardMgr
  snapshots : ∀ item ∈ g.snapshots, ∃ ssm, ShardStateManager.restore item.1.shards = .ok ssm ∧
    Leads g.log item.2 ssm
  checked : ∀ call ∈ g.checked, ∃ ssm, Leads g.log call.seen ssm ∧ ssm.Abandoned call.args.shardID
  cleanups : ∀ i args, g.log[i]? = some (.cleanupShard args) →
    (ShardStateManager.after (g.log.take i)).Abandoned args.shardID

end CleanupGroup

namespace ShardStateManager

variable {ssm : ShardStateManager} {shardID : Int64} {req : Request}

theorem toInt_of_validateShardID {shard : Fin numShards} (h : validateShardID shardID = .ok shard) :
    shardID.toInt = shard.val := by
  unfold validateShardID at h
  split_ifs at h
  cases h
  dsimp only
  omega

theorem Abandoned.applyRequest (h : ssm.Abandoned shardID) (hreq : req.reclaims shardID = false) :
    (ssm.applyRequest req).Abandoned shardID := by
  cases req with
  | setShardState args =>
    cases hset : validateShardID args.shardID with
    | error e =>
      simp only [ShardStateManager.applyRequest, setShardState, hset]
      exact h
    | ok set =>
      simp only [ShardStateManager.applyRequest, setShardState, hset]
      unfold Abandoned getShardState at h ⊢
      cases hown : validateShardID shardID with
      | error e => simp [hown, Except.toOption] at h
      | ok own =>
        simp only [hown, Except.toOption, map_some, Option.some.injEq, getD_some] at h ⊢
        split
        · rename_i heq
          have hsame : args.shardID = shardID := by
            rw [← Int64.toInt_inj, toInt_of_validateShardID hset, toInt_of_validateShardID hown,
              heq]
          simpa [Request.reclaims, hsame] using hreq
        · exact h
  | _ => exact h

theorem Abandoned.foldl {log : List Request} (h : ssm.Abandoned shardID)
    (hlog : ∀ req ∈ log, req.reclaims shardID = false) :
    (log.foldl ShardStateManager.applyRequest ssm).Abandoned shardID := by
  induction log generalizing ssm with
  | nil => exact h
  | cons req log ih =>
    exact ih (h.applyRequest (hlog req mem_cons_self)) fun r hr =>
      hlog r (mem_cons_of_mem req hr)

theorem foldl_applyRequest_of_not_set {log : List Request}
    (hlog : ∀ req ∈ log, req.setsShardState = false) :
    log.foldl ShardStateManager.applyRequest ssm = ssm := by
  induction log with
  | nil => rfl
  | cons req log ih =>
    obtain ⟨hreq, hrest⟩ := forall_mem_cons.mp hlog
    have hsame : ssm.applyRequest req = ssm := by
      cases req <;> first | rfl | cases hreq
    rw [foldl_cons, hsame, ih hrest]

end ShardStateManager

namespace KVServer

variable {hash : String → UInt64} {kv kv' : KVServer} {net : Net} {clock : Clock}
  {req : Request} {reply : Reply}

theorem shardMgr_doOp (h : kv.doOp hash net clock req = some (kv', reply)) :
    kv'.shardMgr = kv.shardMgr.applyRequest req := by
  cases req with
  | setShardState args =>
    rw [(of_doOp_setShardState h).1, ShardStateManager.applyRequest, doSetShardState]
    cases kv.shardMgr.setShardState args <;> rfl
  | _ => exact (moved_doOp_any (by simp) h).shardMgr

theorem applyRequest_recorded {ssm : ShardStateManager} {recorded : Request}
    (h : req.recorded = some recorded) : ssm.applyRequest recorded = ssm.applyRequest req := by
  cases req <;> cases h <;> rfl

theorem shardMgr_replay (h : replay hash kv ⟨req, net, clock⟩ = some kv') :
    kv'.shardMgr = kv.shardMgr.applyRequest req := by
  unfold replay at h
  cases hrec : req.recorded with
  | none =>
    rw [hrec] at h
    cases h
    cases req <;> first | rfl | cases hrec
  | some recorded =>
    rw [hrec] at h
    obtain ⟨⟨kv₁, r⟩, hrun, rfl⟩ := map_eq_some_iff.mp h
    rw [shardMgr_doOp hrun, applyRequest_recorded hrec]

theorem shardMgr_rebuildRecord (item : String × Document) :
    (rebuildRecord net kv item).shardMgr = kv.shardMgr := by
  unfold rebuildRecord
  split
  · rfl
  · rename_i rec _
    split
    · rfl
    · have hall := within_true kv
      split
      · rw [executeCommit_eq]
        exact (moved_applyCommit hall (K := fun _ => True) (fun _ h => h) rec.txID
          fun _ _ => trivial).shardMgr
      · exact (moved_executeAbort hall (K := fun _ => True) rec).shardMgr
      all_goals rfl

theorem shardMgr_rebuildRecords (records : List (String × Document)) :
    (records.foldl (rebuildRecord net) kv).shardMgr = kv.shardMgr := by
  induction records generalizing kv with
  | nil => rfl
  | cons item records ih => rw [foldl_cons, ih, shardMgr_rebuildRecord]

theorem shardMgr_restore {data : Snapshot} {records : List (String × Document)}
    {ssm : ShardStateManager} (hdata : ShardStateManager.restore data.shards = .ok ssm)
    (h : kv.restore net records (some data) = some kv') : kv'.shardMgr = ssm := by
  rw [restore, rebuildLockTable] at h
  split_ifs at h
  cases h
  rw [shardMgr_rebuildRecords, loadSnapshot, hdata]
  rfl

end KVServer

namespace CleanupGroup

variable {hash : String → UInt64} {g g' : CleanupGroup} {log : List Request}

theorem Leads.append {n : Nat} {ssm : ShardStateManager} (h : Leads log n ssm) (req : Request) :
    Leads (log ++ [req]) n ssm := by
  refine ⟨h.1.trans (by simp), ?_⟩
  rw [take_append_of_le_length h.1]
  exact h.2

theorem Leads.next {n : Nat} {ssm : ShardStateManager} {req : Request} (h : Leads log n ssm)
    (hreq : log[n]? = some req) : Leads log (n + 1) (ssm.applyRequest req) := by
  obtain ⟨hlt, hget⟩ := List.getElem?_eq_some_iff.mp hreq
  refine ⟨hlt, ?_⟩
  rw [take_add_one, hreq, h.2]
  simp [ShardStateManager.after]

theorem Leads.skip {n i : Nat} {ssm : ShardStateManager} (h : Leads log n ssm) (hle : n ≤ i)
    (hlen : i ≤ log.length) (hskip : ∀ req ∈ (log.take i).drop n, req.setsShardState = false) :
    Leads log i ssm := by
  refine ⟨hlen, ?_⟩
  have htake : (log.take i).take n = log.take n := by rw [take_take, Nat.min_eq_left hle]
  rw [← List.take_append_drop n (log.take i), htake, ShardStateManager.after, List.foldl_append,
    foldl_applyRequest_of_not_set hskip]
  exact h.2

theorem Inv.append (h : g.Inv) {req : Request} (hreq : ∀ args, req = .cleanupShard args →
      (ShardStateManager.after g.log).Abandoned args.shardID) :
    Inv { g with log := g.log ++ [req] } := by
  refine ⟨fun r => (h.replicas r).append req, fun item hitem => ?_, fun call hcall => ?_,
    fun i args hi => ?_⟩
  · obtain ⟨ssm, hres, hleads⟩ := h.snapshots item hitem
    exact ⟨ssm, hres, hleads.append req⟩
  · obtain ⟨ssm, hleads, haba⟩ := h.checked call hcall
    exact ⟨ssm, hleads.append req, haba⟩
  · dsimp only at hi ⊢
    by_cases hlt : i < g.log.length
    · rw [List.getElem?_append_left hlt] at hi
      rw [take_append_of_le_length hlt.le]
      exact h.cleanups i args hi
    · have hlen : i = g.log.length := by
        have := (List.getElem?_eq_some_iff.mp hi).1
        rw [length_append, length_singleton] at this
        omega
      subst hlen
      rw [List.getElem?_concat_length] at hi
      rw [take_left]
      exact hreq args (Option.some.inj hi)

theorem Inv.setReplica (h : g.Inv) {server : KVServer} {applied : Nat}
    (hleads : Leads g.log applied server.shardMgr) (r : Nat) :
    (g.setReplica r server applied).Inv := by
  refine ⟨?_, h.snapshots, h.checked, h.cleanups⟩
  exact Lib.forall_update (P := fun _ (r : Replica) => Leads g.log r.applied r.server.shardMgr)
    hleads fun q _ => h.replicas q

theorem inv_init (h : (system hash).init g) : g.Inv := by
  obtain ⟨hlog, hsnap, hche, hrep⟩ := h
  refine ⟨fun r => ?_, ?_, ?_, ?_⟩
  · rw [(hrep r).1, (hrep r).2]
    exact ⟨Nat.zero_le _, rfl⟩
  · simp [hsnap]
  · simp [hche]
  · simp [hlog]

theorem inv_step (a : CleanupAction) (h : g.Inv) (hok : unclaimed g a)
    (hstep : g.step hash a = some g') : g'.Inv := by
  cases a with
  | append req =>
    simp only [step] at hstep
    split at hstep
    · cases hstep
    · rename_i hcle
      cases hstep
      refine h.append fun args hargs => ?_
      rw [hargs] at hcle
      exact absurd rfl hcle
  | check r args =>
    simp only [step] at hstep
    split at hstep
    · rename_i haba
      cases hstep
      refine ⟨h.replicas, h.snapshots, fun call hcall => ?_, h.cleanups⟩
      rcases mem_append.mp hcall with hold | hnew
      · exact h.checked call hold
      · rw [mem_singleton] at hnew
        subst hnew
        exact ⟨_, h.replicas r, haba⟩
    · cases hstep
      exact h
  | submit i =>
    obtain ⟨call, hcall, rfl⟩ := map_eq_some_iff.mp hstep
    obtain ⟨ssm, hleads, haba⟩ := h.checked call (mem_of_getElem? hcall)
    have hend : (ShardStateManager.after g.log).Abandoned call.args.shardID := by
      rw [← List.take_append_drop call.seen g.log, ShardStateManager.after, List.foldl_append,
        ← ShardStateManager.after, ← hleads.2]
      exact haba.foldl (hok call hcall)
    have hadded : Inv { g with log := g.log ++ [.cleanupShard call.args] } :=
      h.append fun args hargs => by
        cases hargs
        exact hend
    exact ⟨hadded.replicas, hadded.snapshots,
      fun c hc => hadded.checked c (mem_of_mem_eraseIdx hc), hadded.cleanups⟩
  | apply r net clock =>
    obtain ⟨req, hreq, hap⟩ := bind_eq_some_iff.mp hstep
    obtain ⟨⟨kv', reply⟩, hrun, rfl⟩ := map_eq_some_iff.mp hap
    refine h.setReplica ?_ r
    rw [KVServer.shardMgr_doOp hrun]
    exact (h.replicas r).next hreq
  | replay r i net clock =>
    simp only [step] at hstep
    split_ifs at hstep with hpast
    obtain ⟨req, hreq, hap⟩ := bind_eq_some_iff.mp hstep
    obtain ⟨kv', hrun, rfl⟩ := map_eq_some_iff.mp hap
    refine h.setReplica ?_ r
    rw [KVServer.shardMgr_replay hrun]
    have hlen := (List.getElem?_eq_some_iff.mp hreq).1
    exact ((h.replicas r).skip (Nat.le_of_not_lt hpast) hlen.le hok).next hreq
  | snapshot r =>
    obtain ⟨data, hdata, rfl⟩ := map_eq_some_iff.mp hstep
    refine ⟨h.replicas, fun item hitem => ?_, h.checked, h.cleanups⟩
    rcases mem_append.mp hitem with hold | hnew
    · exact h.snapshots item hold
    · rw [mem_singleton] at hnew
      subst hnew
      refine ⟨_, ?_, h.replicas r⟩
      unfold KVServer.snapshot at hdata
      split at hdata
      · cases hdata
      · split at hdata
        · cases hdata
        · cases hdata
          exact restore_snapshot _
  | restore r i net records =>
    obtain ⟨item, hitem, hload⟩ := bind_eq_some_iff.mp hstep
    obtain ⟨kv', hrun, rfl⟩ := map_eq_some_iff.mp hload
    obtain ⟨ssm, hdata, hleads⟩ := h.snapshots item (mem_of_getElem? hitem)
    refine h.setReplica ?_ r
    rw [KVServer.shardMgr_restore hdata hrun]
    exact hleads
  | restart r =>
    cases hstep
    exact h.setReplica ⟨Nat.zero_le _, rfl⟩ r

def sample : CleanupGroup :=
  ⟨[], fun _ => ⟨newKVServer 1 ((∅ : Store).insert "k" (.entry ⟨"v", 1, 0⟩)), 0⟩, [], []⟩

def sampleRun (reclaim : List CleanupAction) : List CleanupAction :=
  [.append (.setShardState ⟨0, .absent, 2, 2, []⟩), .apply 0 .offline ⟨0, 0⟩,
    .check 0 ⟨0, [⟨"k", 1⟩]⟩] ++ reclaim ++ [.submit 0]

instance (g : CleanupGroup) (a : CleanupAction) : Decidable (unclaimed g a) := by
  unfold unclaimed
  split <;> infer_instance

end CleanupGroup

end OrbisKV.KV
