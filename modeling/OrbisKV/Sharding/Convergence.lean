import OrbisKV.Sharding.OnlineMigration
import OrbisKV.Sharding.Topology
/-!
# Routers and migrations

A migrator moves shards from group to group, one migration after another, and a client
routes its requests by its own topology, which it corrects by the hints of groups that
have given a shard up.
-/

namespace OrbisKV.KV

open Std Int64 KVServer Lib.System List ShardStateManager

/-- `NewShardTopology`: the shards are dealt out to the groups in turn. -/
def newShardTopology (numShards : Nat) (groups : ExtTreeMap Int (List String)) : ShardTopology :=
  let count := if numShards < 1 then 1024 else numShards
  { numShards := count
    epoch := 1
    shardToGroup := (List.range count).map fun i => groups.keys.getD (i % groups.keys.length) 0
    groups := groups
    pos := by
      dsimp only [count]
      split <;> omega
    size := by rw [length_map, length_range] }

/-- The calls of `MigrateShardOnline` that change something about shards. -/
inductive MovePhase
  | importing
  | migrating
  | owning
  | leaving
  | moving
deriving DecidableEq, Repr

def MovePhase.next : MovePhase → MovePhase
  | .importing => .migrating
  | .migrating => .owning
  | .owning => .leaving
  | .leaving => .moving
  | .moving => .moving

namespace MigrationJob

/-- The change of a shard state in a phase, with the group it goes to. -/
def shardState (job : MigrationJob) : MovePhase → Option (Int × SetShardStateArgs)
  | .importing => some (job.targetGID,
      ⟨ofInt job.shardID, .importing, job.sourceGID, job.epoch + 1, []⟩)
  | .migrating => some (job.sourceGID,
      ⟨ofInt job.shardID, .migrating, job.targetGID, job.epoch + 2, job.targetReplicas⟩)
  | .owning => some (job.targetGID, ⟨ofInt job.shardID, .owned, 0, job.epoch + 3, []⟩)
  | .leaving => some (job.sourceGID,
      ⟨ofInt job.shardID, .absent, job.targetGID, job.epoch + 4, job.targetReplicas⟩)
  | .moving => none

end MigrationJob

def Request.routedKey : Request → Option String
  | .get key => some key
  | .put args => some args.key
  | .delete key => some key
  | _ => none

/-- The hint that `GetRoute`, `PutRouteWithTTL` and `DeleteRoute` pass on. -/
def Reply.hint : Reply → Hint
  | .get reply => reply.hint
  | .put reply => reply.hint
  | .delete reply => reply.hint
  | _ => {}

def Reply.wrongGroup : Reply → Bool
  | .get reply => reply.err = .wrongGroup
  | .put reply => reply.err = .wrongGroup
  | .delete reply => reply.err = .wrongGroup
  | _ => false

/-- Groups, one migrator and one client. -/
structure Fleet where
  groups : Int → KVServer
  migrator : ShardRouter
  running : Option (MigrationJob × MovePhase)
  client : ShardRouter
  given : Int → Fin numShards → Option Int64

namespace Fleet

variable (hash : String → UInt64)

inductive Action
  | begin (job : MigrationJob)
  /-- The next of its calls that change something about shards, with success. -/
  | proceed
  /-- A group applies any other command, such as those of the bulk copy. -/
  | apply (gid : Int) (input : Input)
  /-- The client sends a request to the group that its router resolves the key to and
  takes the answer. -/
  | route (input : Input)

def setGroup (s : Fleet) (gid : Int) (kv : KVServer) : Fleet :=
  { s with groups := fun g => if g = gid then kv else s.groups g }

/-- `connectToKVService` finds the source group in the source router, and the target group
with its addresses in the target router, which knows only positive ids. -/
def mayBegin (s : Fleet) (job : MigrationJob) : Prop :=
  s.running = none ∧ 0 ≤ job.shardID ∧ job.shardID < (numShards : Int) ∧
    job.sourceGID ∈ s.migrator.groupsByID ∧ 0 < job.targetGID ∧ job.targetReplicas ≠ [] ∧
    job.epoch = s.migrator.topology.epoch

instance (s : Fleet) (job : MigrationJob) : Decidable (s.mayBegin job) :=
  inferInstanceAs (Decidable (_ = none ∧ _))

def note (s : Fleet) (job : MigrationJob) : MovePhase → Fleet
  | .leaving =>
    { s with given := fun gid shard =>
        if gid = job.sourceGID ∧ (shard.val : Int) = job.shardID then some job.epoch
        else s.given gid shard }
  | _ => s

/-- The end of `MigrateShardOnline`: the source router moves the shard if it knows the
target group. -/
def finish (s : Fleet) (job : MigrationJob) : Option Fleet :=
  if job.targetGID ∈ s.migrator.groupsByID then
    match s.migrator.topology.moveShard job.shardID job.targetGID with
    | (_, false) => none
    | (topology, true) =>
      some { s with migrator := { s.migrator with topology := topology }, running := none }
  else some { s with running := none }

def step (s : Fleet) : Action → Option Fleet
  | .begin job => if s.mayBegin job then some { s with running := some (job, .importing) } else none
  | .proceed =>
    match s.running with
    | none => none
    | some (job, phase) =>
      match job.shardState phase with
      | none => s.finish job
      | some (gid, args) =>
        some ({ s.setGroup gid ((s.groups gid).doSetShardState args).1 with
                running := some (job, phase.next) }.note job phase)
  | .apply gid input =>
    match input.request with
    | .setShardState _ => none
    | request =>
      ((s.groups gid).doOp hash input.net input.clock request).map fun r =>
        s.setGroup gid r.1
  | .route input =>
    match input.request.routedKey with
    | none => none
    | some key =>
      let gid := s.client.resolve hash key
      ((s.groups gid).doOp hash input.net input.clock input.request).map fun r =>
        { s.setGroup gid r.1 with
          client := s.client.learnHint hash key r.2.hint.groupID r.2.hint.replicas r.2.hint.epoch }

/-- A router that was made from a configuration for the shards of the groups. -/
structure Configured (r : ShardRouter) : Prop where
  shards : r.topology.numShards = numShards
  groups : ∀ gid, gid ∈ r.groupsByID → gid ∈ r.topology.groups

/-- Every group serves every shard, and both routers have the initial topology. -/
def system : Lib.System Fleet Action where
  init s := (∀ gid, (s.groups gid).shardMgr = newShardStateManager) ∧ s.running = none ∧
    s.client = s.migrator ∧ Configured s.client ∧ ∀ gid shard, s.given gid shard = none
  step := step hash

section

variable {hash} {s t : Fleet} {gid : Int} {key : String} {kv kv' : KVServer} {net : Net}
  {clock : Clock} {req : Request} {reply : Reply} {args : SetShardStateArgs} {shard : Fin numShards}

theorem resolve_eq_of_shard {st : ShardTopology} {key' : String} (hst : st.numShards = numShards)
    (hsh : shardForKey hash key' = shardForKey hash key) :
    st.resolve hash key' = st.resolve hash key := by
  have hsame : st.shardForKey hash key' = st.shardForKey hash key := by
    apply Fin.ext
    show (hash key').toNat % st.numShards = (hash key).toNat % st.numShards
    rw [hst]
    exact congrArg Fin.val hsh
  rw [ShardTopology.resolve, hsame, ShardTopology.resolve]

theorem moveShard_known (hash : String → UInt64) {st : ShardTopology} (hgid : gid ∈ st.groups)
    (key : String) :
    (st.moveShard (st.shardForKey hash key).val gid).1.numShards = st.numShards ∧
      (st.moveShard (st.shardForKey hash key).val gid).1.groups = st.groups ∧
      (st.moveShard (st.shardForKey hash key).val gid).1.resolve hash key = gid := by
  have hlt := (st.shardForKey hash key).isLt
  have hrange : ¬(((st.shardForKey hash key).val : Int) < 0 ∨
      (st.numShards : Int) ≤ ((st.shardForKey hash key).val : Int)) := by
    have hsize := st.size
    omega
  have hknown : ¬gid ∉ st.groups := not_not.mpr hgid
  unfold ShardTopology.moveShard
  rw [if_neg hrange, if_neg hknown]
  refine ⟨rfl, rfl, ?_⟩
  unfold ShardTopology.resolve
  simp only [Int.toNat_natCast, get_eq_getElem]
  exact getElem_set_self _

theorem registerGroup_known (st : ShardTopology) {replicas : List String} (hgid : 0 < gid)
    (hrep : replicas ≠ []) :
    (st.registerGroup gid replicas).1.numShards = st.numShards ∧
      ∀ g, g ∈ (st.registerGroup gid replicas).1.groups ↔ g = gid ∨ g ∈ st.groups := by
  have hvalid : ¬(gid ≤ 0 ∨ replicas = []) := by
    rintro (h | h)
    · omega
    · exact hrep h
  unfold ShardTopology.registerGroup
  rw [if_neg hvalid]
  split
  · rename_i hmem
    refine ⟨rfl, fun g => ⟨Or.inr, ?_⟩⟩
    rintro (rfl | h)
    · exact hmem
    · exact h
  · refine ⟨rfl, fun g => ?_⟩
    rw [ExtTreeMap.mem_insert, LawfulEqCmp.compare_eq_iff_eq]
    exact ⟨fun h => h.imp_left Eq.symm, fun h => h.imp_left Eq.symm⟩

theorem Configured.known {r : ShardRouter} (h : Configured r) {replicas : List String}
    (hgid : 0 < gid) (hrep : replicas ≠ []) :
    ∃ k : ShardRouter, k = (if gid ∈ r.groupsByID then r
        else ⟨(r.topology.registerGroup gid replicas).1, r.groupsByID.insert gid⟩) ∧
      Configured k ∧ gid ∈ k.topology.groups := by
  refine ⟨_, rfl, ?_⟩
  split
  · rename_i hmem
    exact ⟨h, h.groups gid hmem⟩
  · obtain ⟨hshard, hgroups⟩ := registerGroup_known r.topology hgid hrep
    refine ⟨⟨hshard.trans h.shards, fun g hg => ?_⟩, (hgroups gid).mpr (Or.inl rfl)⟩
    rw [ExtTreeSet.mem_insert, LawfulEqCmp.compare_eq_iff_eq] at hg
    exact (hgroups g).mpr (hg.imp Eq.symm (h.groups g))

theorem Configured.learnHint {r : ShardRouter} (h : Configured r) (key : String) (gid : Int)
    (replicas : List String) (epoch : Int64) :
    Configured (r.learnHint hash key gid replicas epoch) ∧
      (0 < gid → replicas ≠ [] → r.topology.epoch ≤ epoch →
        (r.learnHint hash key gid replicas epoch).resolve hash key = gid) := by
  unfold ShardRouter.learnHint
  split
  · rename_i href
    refine ⟨h, fun hgid hrep hepoch => ?_⟩
    rcases href with hneg | hnil | hold
    · omega
    · exact absurd hnil hrep
    · exact absurd hold (not_lt.mpr hepoch)
  · rename_i hvalid
    simp only [not_or, Int.not_le] at hvalid
    obtain ⟨k, hk, hconf, hmem⟩ := h.known hvalid.1 hvalid.2.1
    dsimp only
    rw [← hk]
    split
    · rename_i howner
      refine ⟨hconf, fun _ _ _ => ?_⟩
      obtain ⟨hlt, hget⟩ := List.getElem?_eq_some_iff.mp howner
      exact hget
    · obtain ⟨hshard, hgroups, hres⟩ := moveShard_known hash hmem key
      refine ⟨⟨hshard.trans hconf.shards, fun g hg => ?_⟩, fun _ _ _ => hres⟩
      dsimp only
      rw [hgroups]
      exact hconf.groups g hg

theorem hint_of_absent (hkey : req.routedKey = some key)
    (habsent : (kv.shardOf hash key).state = .absent)
    (hrun : kv.doOp hash net clock req = some (kv', reply)) (href : reply.wrongGroup = true) :
    reply.hint = kv.wrongGroupHint (kv.shardOf hash key) := by
  cases hdead : kv.dead with
  | true =>
    cases req with
    | get k =>
      cases hrun
      simp [Reply.wrongGroup, doGet, hdead] at href
    | put args =>
      obtain ⟨-, rfl⟩ := of_doOp_put hrun
      simp [Reply.wrongGroup, doPut, hdead] at href
    | delete k =>
      obtain ⟨-, rfl⟩ := of_doOp_delete hrun
      simp [Reply.wrongGroup, doDelete, hdead] at href
    | _ => cases hkey
  | false =>
    cases req with
    | get k =>
      cases hkey
      cases hrun
      simp [Reply.hint, doGet, hdead, habsent]
    | put args =>
      cases hkey
      obtain ⟨-, rfl⟩ := of_doOp_put hrun
      simp [Reply.hint, doPut, hdead, habsent]
    | delete k =>
      cases hkey
      obtain ⟨-, rfl⟩ := of_doOp_delete hrun
      simp [Reply.hint, doDelete, hdead, habsent]
    | _ => cases hkey

/-- A shard that a group has given up was given to a group with addresses, and the epoch
of the group has not been below that of the last phase since. -/
def GivenUp (s : Fleet) : Prop :=
  ∀ gid shard, ((s.groups gid).shardMgr.states shard).state = .absent →
    0 < ((s.groups gid).shardMgr.states shard).targetGroup ∧
      ((s.groups gid).shardMgr.states shard).targetReplicas ≠ [] ∧
      ∃ base, s.given gid shard = some base ∧ base + 4 ≤ (s.groups gid).shardMgr.epoch

def Begun (s : Fleet) : Prop :=
  ∀ job phase, s.running = some (job, phase) →
    0 < job.targetGID ∧ job.targetReplicas ≠ [] ∧ 0 ≤ job.shardID ∧ job.shardID < (numShards : Int)

structure Inv (s : Fleet) : Prop where
  client : Configured s.client
  begun : s.Begun
  given : s.GivenUp

theorem GivenUp.of_shardMgr (h : s.GivenUp) (hgiven : t.given = s.given)
    (hgroups : ∀ gid, (t.groups gid).shardMgr = (s.groups gid).shardMgr) : t.GivenUp := by
  intro gid shard habsent
  rw [hgroups] at habsent ⊢
  rw [hgiven]
  exact h gid shard habsent

theorem shardMgr_setGroup (hreq : ∀ args, req ≠ .setShardState args)
    (hrun : (s.groups gid).doOp hash net clock req = some (kv', reply)) (g : Int) :
    ((s.setGroup gid kv').groups g).shardMgr = (s.groups g).shardMgr := by
  unfold setGroup
  dsimp only
  split
  · rename_i hg
    rw [hg]
    exact (moved_doOp_any hreq hrun).shardMgr
  · rfl

theorem states_doSetShardState {kv : KVServer} (hsh : (shard.val : Int) = args.shardID.toInt)
    (i : Fin numShards) :
    (kv.doSetShardState args).1.shardMgr.states i =
      if i = shard then ⟨args.state, args.targetGroup, args.targetReplicas⟩
      else kv.shardMgr.states i := by
  have hlt := shard.isLt
  have hrange : 0 ≤ args.shardID.toInt ∧ args.shardID.toInt < numShards := by omega
  have hsame : shard = ⟨args.shardID.toInt.toNat, by omega⟩ := Fin.ext (by dsimp only; omega)
  unfold doSetShardState setShardState validateShardID
  rw [dif_pos hrange]
  dsimp only
  rw [← hsame]

theorem le_epoch_doSetShardState (kv : KVServer) (args : SetShardStateArgs) :
    kv.shardMgr.epoch ≤ (kv.doSetShardState args).1.shardMgr.epoch := by
  unfold doSetShardState setShardState
  cases validateShardID args.shardID with
  | error e => exact le_refl _
  | ok shard =>
    dsimp only
    split
    · rename_i hlt
      exact le_of_lt hlt
    · exact le_refl _

theorem topologyEpoch_le_doSetShardState {kv : KVServer}
    (hsh : (shard.val : Int) = args.shardID.toInt) :
    args.topologyEpoch ≤ (kv.doSetShardState args).1.shardMgr.epoch := by
  have hlt := shard.isLt
  have hrange : 0 ≤ args.shardID.toInt ∧ args.shardID.toInt < numShards := by omega
  unfold doSetShardState setShardState validateShardID
  rw [dif_pos hrange]
  dsimp only
  split
  · exact le_refl _
  · rename_i hle
    exact not_lt.mp hle

section

variable (h : s.GivenUp) (hsh : (shard.val : Int) = args.shardID.toInt)

include h hsh

theorem GivenUp.setShardState
    (hstate : args.state ≠ .absent)
    (hgroups : t.groups = (s.setGroup gid ((s.groups gid).doSetShardState args).1).groups)
    (hgiven : t.given = s.given) : t.GivenUp := by
  intro g i habsent
  rw [hgiven]
  rw [hgroups] at habsent ⊢
  unfold setGroup at habsent ⊢
  dsimp only at habsent ⊢
  split at habsent
  · rename_i hg
    subst hg
    rw [if_pos rfl]
    rw [states_doSetShardState hsh] at habsent ⊢
    split at habsent
    · exact absurd habsent hstate
    · rename_i hi
      rw [if_neg hi]
      obtain ⟨htarget, hrep, base, hbase, hle⟩ := h g i habsent
      exact ⟨htarget, hrep, base, hbase, le_trans hle (le_epoch_doSetShardState _ args)⟩
  · rename_i hg
    rw [if_neg hg]
    exact h g i habsent

theorem GivenUp.leave {job : MigrationJob} (hjob : (shard.val : Int) = job.shardID)
    (htarget : 0 < args.targetGroup) (hrep : args.targetReplicas ≠ [])
    (hepoch : args.topologyEpoch = job.epoch + 4) (hgroups : t.groups =
      (s.setGroup job.sourceGID ((s.groups job.sourceGID).doSetShardState args).1).groups)
    (hgiven : t.given = (s.note job .leaving).given) : t.GivenUp := by
  intro g i habsent
  rw [hgiven]
  rw [hgroups] at habsent ⊢
  unfold setGroup at habsent ⊢
  unfold note
  dsimp only at habsent ⊢
  split at habsent
  · rename_i hg
    subst hg
    rw [if_pos rfl]
    rw [states_doSetShardState hsh] at habsent ⊢
    split at habsent
    · rename_i hi
      rw [if_pos hi, if_pos ⟨rfl, by rw [hi]; exact hjob⟩]
      refine ⟨htarget, hrep, job.epoch, rfl, ?_⟩
      rw [← hepoch]
      exact topologyEpoch_le_doSetShardState hsh
    · rename_i hi
      have hne : (i.val : Int) ≠ job.shardID := by
        intro heq
        exact hi (Fin.ext (by omega))
      rw [if_neg hi, if_neg fun hand => hne hand.2]
      obtain ⟨htarget, hrep, base, hbase, hle⟩ := h _ i habsent
      exact ⟨htarget, hrep, base, hbase, le_trans hle (le_epoch_doSetShardState _ args)⟩
  · rename_i hg
    rw [if_neg hg, if_neg fun hand => hg hand.1]
    exact h g i habsent

end

theorem Inv.step (h : Inv s) {a : Action} (hstep : s.step hash a = some t) : Inv t := by
  cases a with
  | begin job =>
    unfold Fleet.step at hstep
    dsimp only at hstep
    split at hstep
    · rename_i hmay
      cases hstep
      refine ⟨h.client, ?_, h.given⟩
      intro job' phase hrunn
      cases hrunn
      obtain ⟨-, hlow, hhigh, -, htarget, hrep, -⟩ := hmay
      exact ⟨htarget, hrep, hlow, hhigh⟩
    · cases hstep
  | proceed =>
    unfold Fleet.step at hstep
    dsimp only at hstep
    cases hrunn : s.running with
    | none => rw [hrunn] at hstep; cases hstep
    | some r =>
      obtain ⟨job, phase⟩ := r
      rw [hrunn] at hstep
      obtain ⟨htarget, hrep, hlow, hhigh⟩ := h.begun job phase hrunn
      have hnum : numShards = 1024 := rfl
      have hid : (ofInt job.shardID).toInt = job.shardID := toInt_ofInt_of_le (by omega) (by omega)
      obtain ⟨shard, hsh⟩ : ∃ shard : Fin numShards, (shard.val : Int) = job.shardID :=
        ⟨⟨job.shardID.toNat, by omega⟩, by dsimp only; omega⟩
      have hbegun : ∀ next, ∀ job' phase', (some (job, next) : Option (_ × MovePhase)) =
          some (job', phase') → 0 < job'.targetGID ∧ job'.targetReplicas ≠ [] ∧
            0 ≤ job'.shardID ∧ job'.shardID < (numShards : Int) := by
        intro next job' phase' heq
        cases heq
        exact ⟨htarget, hrep, hlow, hhigh⟩
      cases phase with
      | leaving =>
        cases hstep
        exact ⟨h.client, hbegun _, h.given.leave (hsh.trans hid.symm) hsh htarget hrep rfl rfl rfl⟩
      | moving =>
        have hidle : ∀ job' phase', (none : Option (MigrationJob × MovePhase)) =
            some (job', phase') → 0 < job'.targetGID ∧ job'.targetReplicas ≠ [] ∧
              0 ≤ job'.shardID ∧ job'.shardID < (numShards : Int) :=
          nofun
        unfold finish at hstep
        dsimp only [MigrationJob.shardState] at hstep
        split at hstep
        · split at hstep
          · cases hstep
          · cases hstep
            exact ⟨h.client, hidle, h.given.of_shardMgr rfl fun _ => rfl⟩
        · cases hstep
          exact ⟨h.client, hidle, h.given.of_shardMgr rfl fun _ => rfl⟩
      | _ =>
        cases hstep
        exact ⟨h.client, hbegun _, h.given.setShardState (hsh.trans hid.symm) (by simp) rfl rfl⟩
  | apply gid input =>
    unfold Fleet.step at hstep
    dsimp only at hstep
    split at hstep
    · cases hstep
    · rename_i request hreq
      obtain ⟨⟨kv', r⟩, hrun, rfl⟩ := Option.map_eq_some_iff.mp hstep
      exact ⟨h.client, h.begun, h.given.of_shardMgr rfl (shardMgr_setGroup hreq hrun)⟩
  | route input =>
    unfold Fleet.step at hstep
    dsimp only at hstep
    split at hstep
    · cases hstep
    · rename_i key hkey
      obtain ⟨⟨kv', r⟩, hrun, rfl⟩ := Option.map_eq_some_iff.mp hstep
      have hreq : ∀ args, input.request ≠ .setShardState args := by
        intro args heq
        rw [heq] at hkey
        cases hkey
      exact ⟨(h.client.learnHint key _ _ _).1, h.begun,
        h.given.of_shardMgr rfl (shardMgr_setGroup hreq hrun)⟩

theorem inv_init (hinit : (system hash).init s) : Inv s := by
  obtain ⟨hgroups, hidle, -, hcli, -⟩ := hinit
  refine ⟨hcli, fun job phase hrunn => ?_, fun gid shard habsent => ?_⟩
  · rw [hidle] at hrunn
    cases hrunn
  · rw [hgroups] at habsent
    cases habsent

/-- In every run: a group that has given a shard up refuses a request of the client. -/
theorem router_follows_hint (hreach : (system hash).Reachable anyStep s)
    {input : Input} (hkey : input.request.routedKey = some key)
    (habsent : ((s.groups (s.client.resolve hash key)).shardOf hash key).state = .absent)
    (hrun : (s.groups (s.client.resolve hash key)).doOp hash input.net input.clock
      input.request = some (kv', reply))
    (href : reply.wrongGroup = true)
    (hfr : ∀ base, s.given (s.client.resolve hash key) (shardForKey hash key) =
      some base → s.client.topology.epoch ≤ base + 4) :
    ∃ t, s.step hash (.route input) = some t ∧ ∀ key',
      shardForKey hash key' = shardForKey hash key →
        t.client.resolve hash key' = reply.hint.groupID := by
  have hinv : Inv s := Lib.System.Reachable.invariant (fun s hs => inv_init hs)
    (fun _ _ _ h _ hstep => h.step hstep) hreach
  obtain ⟨htarget, hrep, base, hbase, hepoch⟩ := hinv.given _ _ habsent
  have hhint := hint_of_absent hkey habsent hrun href
  refine ⟨{ s.setGroup (s.client.resolve hash key) kv' with
    client := s.client.learnHint hash key reply.hint.groupID reply.hint.replicas
      reply.hint.epoch }, ?_, fun key' hsh => ?_⟩
  · unfold Fleet.step
    dsimp only
    rw [hkey]
    dsimp only
    rw [hrun]
    rfl
  · obtain ⟨hconf, htaken⟩ := hinv.client.learnHint key reply.hint.groupID reply.hint.replicas
      reply.hint.epoch
    refine (resolve_eq_of_shard hconf.shards hsh).trans (htaken ?_ ?_ ?_)
    · rw [hhint]
      exact htarget
    · rw [hhint]
      exact hrep
    · rw [hhint]
      exact le_trans (hfr base hbase) hepoch

end

def byLength (key : String) : UInt64 := UInt64.ofNat key.length

def twoGroups : Fleet :=
  let groups : ExtTreeMap Int (List String) := ((∅ : ExtTreeMap Int (List String)).insert 1
    ["a"]).insert 2 ["b"]
  let router : ShardRouter := ⟨newShardTopology 1024 groups, ExtTreeSet.ofList [(1 : Int), 2]⟩
  ⟨fun gid => newKVServer gid ∅, router, none, router, fun _ _ => none⟩

theorem init_twoGroups : (system byLength).init twoGroups := by
  refine ⟨fun _ => rfl, rfl, rfl, ⟨by decide +kernel, fun gid hgid => ?_⟩, fun _ _ => rfl⟩
  simp only [twoGroups, ExtTreeSet.mem_ofList, contains_iff_mem, mem_cons,
    not_mem_nil, or_false] at hgid
  rcases hgid with rfl | rfl
  · decide +kernel
  · decide +kernel

/-- A shard of group 1 moves to a new group 3, and the client asks for a key of it. -/
def expand (shard : Nat) : List Action :=
  [.begin ⟨shard, 1, 3, "", 1024, 1, 1, ["c"]⟩, .proceed, .proceed, .proceed, .proceed, .proceed]

def read (shard : Nat) : Input :=
  ⟨.get (String.ofList (List.replicate shard 'x')), .offline, ⟨0, 0⟩⟩

theorem router_follows_hint_expansion : ∃ s t : Fleet,
    (system byLength).Reachable anyStep s ∧ s.client.resolve byLength "" = 1 ∧
      s.step byLength (.route (read 0)) = some t ∧ t.client.resolve byLength "" = 3 := by
  obtain ⟨s, hexec, hres, habsent, hgiven, hepoch, halive⟩ :=
    exists_of_exec (system byLength) twoGroups (expand 0) (fun s =>
      s.client.resolve byLength "" = 1 ∧ ((s.groups 1).shardOf byLength "").state = .absent ∧
        s.given 1 (shardForKey byLength "") = some 1 ∧ s.client.topology.epoch = 1 ∧
        ((s.groups 1).doGet byLength 0 "") = { err := .wrongGroup, hint := ⟨3, ["c"], 5⟩ })
      (by decide +kernel)
  have hreach : (system byLength).Reachable anyStep s :=
    Lib.System.Reachable.of_exec init_twoGroups hexec
  have hrun : (s.groups (s.client.resolve byLength "")).doOp byLength .offline ⟨0, 0⟩ (.get "") =
      some (s.groups 1, .get { err := .wrongGroup, hint := ⟨3, ["c"], 5⟩ }) := by
    rw [hres, doOp, halive]
  have hfr : ∀ base, s.given (s.client.resolve byLength "")
      (shardForKey byLength "") = some base → s.client.topology.epoch ≤ base + 4 := by
    intro base hbase
    rw [hres, hgiven] at hbase
    cases hbase
    rw [hepoch]
    decide
  obtain ⟨t, hstep, hfol⟩ := router_follows_hint hreach
    (show (read 0).request.routedKey = some "" from rfl) (by rw [hres]; exact habsent) hrun
    rfl hfr
  exact ⟨s, t, hreach, hres, hstep, hfol "" rfl⟩

theorem router_ignores_hint : ∃ s : Fleet, (system byLength).Reachable anyStep s ∧
      s.client.resolve byLength "xxxxxxxxxx" = 1 ∧
      ((s.groups 1).doGet byLength 0 "xxxxxxxxxx") =
        { err := .wrongGroup, hint := ⟨3, ["c"], 5⟩ } ∧
      (s.step byLength (.route (read 10))).any (fun t => decide
        (t.client.topology.shardToGroup = s.client.topology.shardToGroup ∧
          t.client.topology.epoch = s.client.topology.epoch ∧
          t.client.resolve byLength "xxxxxxxxxx" = 1)) = true :=
  exists_reachable_of_exec twoGroups
    (expand 0 ++ expand 2 ++ expand 4 ++ expand 6 ++ expand 8 ++ expand 10 ++
      [.route (read 0), .route (read 2), .route (read 4), .route (read 6), .route (read 8)])
    init_twoGroups (by decide +kernel)

end Fleet

end OrbisKV.KV
