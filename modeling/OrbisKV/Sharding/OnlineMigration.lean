import OrbisKV.Sharding.Migrator
/-!
# No acknowledged write is lost by a migration

Dual writes keep a key the same in both groups once it is the same.
-/

namespace OrbisKV.KV

open Std Int64 KVServer List MigrationStage Option

def Request.lasting : Request → Bool
  | .put args => args.ttl ≤ 0 && args.version.toUInt64 + 1 ≠ 0
  | _ => true

def MigrationStage.copying : MigrationStage → Option String
  | .comparing (item :: _) _ => some item.key
  | .putting (item :: _) _ _ => some item.key
  | _ => none

namespace OnlineMigration

variable (hash : String → UInt64) (job : MigrationJob)

def Covered (key : String) : Prop :=
  isUserKey key = true ∧ ((shardForKey hash key).val : Int) = job.shardID

instance (key : String) : Decidable (Covered hash job key) :=
  inferInstanceAs (Decidable (_ ∧ _))

/-- Clients write without TTL, not to the key that is being copied, and forwards are
answered or lost; what other replicas send on changes nothing; when the shard is scanned, the
target has none of its keys but those of the source. -/
def careful (s : OnlineMigration) : Action → Prop
  | .client input x =>
    x.delivery ≠ .unanswered ∧ input.request.lasting = true ∧ input.request.key? ≠ s.stage.copying
  | .echo req x => ∀ fwd ∈ forwarded req, ∀ key ∈ fwd.key?,
      (s.target.exchange hash x fwd).1.store[key]? = s.target.store[key]?
  | .call _ _ _ =>
    match s.stage with
    | .scanning => ∀ item ∈ s.target.store.toList, Covered hash job item.1 →
        s.source.store[item.1]?.isSome = true
    | _ => True
  | _ => True

instance (s : OnlineMigration) (a : Action) : Decidable (careful hash job s a) := by
  unfold careful
  split
  · infer_instance
  · infer_instance
  · split <;> infer_instance
  · infer_instance

def Gives (s : OnlineMigration) (key : String) : Prop :=
  (s.source.shardOf hash key).state = .absent ∨ (s.source.shardOf hash key).state = .migrating ∧
      (s.source.shardOf hash key).targetGroup = job.targetGID

def PlainKeys (s : OnlineMigration) : Prop :=
  ∀ key, Covered hash job key → s.source.Plain key ∧ s.target.Plain key

structure Faithful (s : OnlineMigration) : Prop where
  plain : PlainKeys hash job s
  acked : ∀ key, Covered hash job key → s.source.value key = s.acked key

structure Giving (s : OnlineMigration) : Prop extends Faithful hash job s where
  gives : ∀ key, Covered hash job key → Gives hash job s key

structure Handover (s : OnlineMigration) (pending : List String) : Prop
    extends Giving hash job s where
  synced : ∀ key, Covered hash job key → key ∉ pending → s.source.value key = s.target.value key

def Matches (s : OnlineMigration) (items : List MigrationPlanItem) : Prop :=
  ∀ item ∈ items.head?, Covered hash job item.key → s.source.value item.key = some item.value

structure Delivered (s : OnlineMigration) : Prop where
  acked : ∀ key, Covered hash job key → s.target.value key = s.acked key
  absent : ∀ key, Covered hash job key → (s.source.shardOf hash key).state = .absent

def Inv (s : OnlineMigration) : MigrationStage → Prop
  | .reading | .importing | .migrating => Faithful hash job s
  | .scanning => Giving hash job s
  | .checking items _ => Handover hash job s (items.map (·.key))
  | .comparing items _ | .putting items _ _ =>
    Handover hash job s (items.map (·.key)) ∧ Matches hash job s items
  | .verifying items _ _ => Handover hash job s (items.tail.map (·.key))
  | .owning _ | .leaving _ => Handover hash job s []
  | .listing | .cleaning _ | .done => Delivered hash job s
  | .undoing _ | .undoingPut _ _ | .restoringSource | .restoringTarget _ | .failed => True

variable {hash job} {s s' : OnlineMigration} {key : String} {input : Input} {x : Exchange}

variable (hash job) in
structure Served (s s' : OnlineMigration) (key : String) (left : Option String) : Prop where
  stage : s'.stage = s.stage
  shards : s'.source.shardMgr = s.source.shardMgr
  others : ∀ k, k ≠ key → s'.source.store[k]? = s.source.store[k]? ∧
    s'.target.store[k]? = s.target.store[k]? ∧ s'.acked k = s.acked k
  plain : s.source.Plain key → s.target.Plain key → s'.source.Plain key ∧ s'.target.Plain key
  acked : s.source.Plain key →
    (s'.acked key = s.acked key ∧ s'.source.value key = s.source.value key) ∨
      (s'.acked key = left ∧ s'.source.value key = left)
  synced : s.source.Plain key → s.target.Plain key → Gives hash job s key →
    s.source.value key = s.target.value key → s'.source.value key = s'.target.value key
  refused : (s.source.shardOf hash key).state = .absent → s'.target = s.target ∧ s'.acked = s.acked

theorem note_leaves {acked : String → Option String} {req : Request} {reply : Reply}
    {left : Option String} {kv kv' : KVServer} {net : Net} {clock : Clock}
    (hreq : KVServer.Leaves req key left)
    (hop : kv.doOp hash net clock req = some (kv', reply)) (k : String) :
    note acked req reply k =
      if acknowledged reply = true ∧ k = key then left else acked k := by
  cases hreq with
  | put args =>
    obtain ⟨-, rfl⟩ := of_doOp_put hop
    simp only [note, acknowledged, decide_eq_true_eq]
  | delete =>
    obtain ⟨-, rfl⟩ := of_doOp_delete hop
    simp only [note, acknowledged, decide_eq_true_eq]

theorem of_serve (h : s.serve hash job key input x = some s') :
    ∃ source target reply net,
      s' = { s with source := source, target := target
                    acked := note s.acked input.request reply } ∧
      s.source.doOp hash net input.clock input.request = some (source, reply) ∧
      (s.source.dualApply hash s.target input x = some (source, target, reply) ∨
        target = s.target ∧ (s.source.shardOf hash key).targetGroup ≠ job.targetGID) := by
  unfold serve at h
  split at h
  · obtain ⟨⟨source, target, reply⟩, hdual, rfl⟩ := map_eq_some_iff.mp h
    obtain ⟨forward, hop, -⟩ := of_dualApply hdual
    exact ⟨source, target, reply, _, rfl, hop, Or.inl hdual⟩
  · rename_i hother
    obtain ⟨⟨source, reply⟩, hop, rfl⟩ := map_eq_some_iff.mp h
    exact ⟨source, s.target, reply, _, rfl, hop, Or.inr ⟨rfl, hother⟩⟩

theorem dual_target {P : KVServer → Prop} {source target source' target' : KVServer} {reply : Reply}
    (h : P target) (hop : ∀ fwd t r, source.forwards hash input.clock input.request = some fwd →
      target.doOp hash x.net x.clock fwd = some (t, r) → P t)
    (hdual : source.dualApply hash target input x = some (source', target', reply)) :
    P target' := by
  obtain ⟨forward, -, ⟨-, rfl⟩ | ⟨fwd, hfwd, hex⟩⟩ := of_dualApply hdual
  · exact h
  · have hkept := exchange_keeps h x fun t r hrun => hop fwd t r hfwd hrun
    rwa [hex] at hkept

theorem target_of_absent {source target : KVServer} {reply : Reply}
    (hkey : input.request.key? = some key)
    (hdual : s.source.dualApply hash s.target input x = some (source, target, reply) ∨
      target = s.target ∧ (s.source.shardOf hash key).targetGroup ≠ job.targetGID)
    (habsent : (s.source.shardOf hash key).state = .absent) : target = s.target := by
  rcases hdual with hdual | ⟨rfl, -⟩
  · refine dual_target (P := fun kv => kv = s.target) rfl (fun fwd t r hfwd _ => ?_) hdual
    rw [forwards_of_ne_migrating hkey (by rw [habsent]; nofun)] at hfwd
    cases hfwd
  · rfl

theorem served_of_leaves {req : Request} {net : Net} {clock : Clock} {left : Option String}
    (hreq : KVServer.Leaves req key left) (hdel : x.delivery ≠ .unanswered)
    (h : s.serve hash job key ⟨req, net, clock⟩ x = some s') : Served hash job s s' key left := by
  obtain ⟨source, target, reply, net', rfl, hop, hdual⟩ := of_serve h
  have hwrote := wrote_of_key hreq.key? hop
  have hidle : (s.source.shardOf hash key).state = .absent → target = s.target :=
    target_of_absent hreq.key? hdual
  have htarget : ∀ P : KVServer → Prop, P s.target → (∀ fwd net clock t r,
      KVServer.Leaves fwd key left → s.target.doOp hash net clock fwd = some (t, r) → P t) →
      P target := by
    intro P hP hwr
    rcases hdual with hdual | ⟨rfl, -⟩
    · exact dual_target hP (fun fwd t r hfwd hrun =>
        hwr fwd _ _ t r (hreq.forwarded hop hfwd).1 hrun) hdual
    · exact hP
  refine ⟨rfl, hwrote.shardMgr, ?_, ?_, ?_, ?_, ?_⟩
  · intro k hk
    refine ⟨hwrote.store.getElem? hk, ?_, ?_⟩
    · exact htarget (fun kv => kv.store[k]? = s.target.store[k]?) rfl
        fun _ _ _ _ _ hfwd hrun => (wrote_of_key hfwd.key? hrun).store.getElem? hk
    · exact (note_leaves hreq hop k).trans (if_neg fun h => hk h.2)
  · exact fun hs ht => ⟨(hs.doOp hreq hop).1, htarget (fun kv => kv.Plain key) ht
      fun _ _ _ _ _ hfwd hrun => (ht.doOp hfwd hrun).1⟩
  · intro hs
    dsimp only
    rw [note_leaves hreq hop]
    rcases (hs.doOp hreq hop).2 with ⟨hack, -, hleft⟩ | ⟨href, rfl⟩
    · rw [if_pos ⟨hack, rfl⟩]
      exact Or.inr ⟨rfl, hleft⟩
    · rw [href, if_neg (by simp)]
      exact Or.inl ⟨rfl, rfl⟩
  · intro hs ht hgives hsync
    rcases hgives with habsent | ⟨hmig, hgrp⟩
    · rw [(refused_of_absent hreq.key? habsent hop).1, hidle habsent]
      exact hsync
    · rcases hdual with hdual | ⟨-, hother⟩
      · exact dual_synced hreq hs ht hdel hmig hsync hdual
      · exact absurd hgrp hother
  · intro habsent
    refine ⟨hidle habsent, funext fun k => ?_⟩
    dsimp only
    rw [note_leaves hreq hop, (refused_of_absent hreq.key? habsent hop).2, if_neg (by simp)]

namespace Served

variable {left : Option String} (h : Served hash job s s' key left)
include h

theorem shardOf (k : String) : s'.source.shardOf hash k = s.source.shardOf hash k := by
  unfold KVServer.shardOf
  rw [h.shards]

theorem faithful (hs : Faithful hash job s) : Faithful hash job s' := by
  refine ⟨fun k hk => ?_, fun k hk => ?_⟩
  · obtain ⟨hsrc, htgt⟩ := hs.plain k hk
    by_cases heq : k = key
    · subst heq
      exact h.plain hsrc htgt
    · obtain ⟨hsame, hsame', -⟩ := h.others k heq
      exact ⟨hsrc.congr hsame, htgt.congr hsame'⟩
  · by_cases heq : k = key
    · subst heq
      rcases h.acked (hs.plain k hk).1 with ⟨hsame, hval⟩ | ⟨hnew, hval⟩
      · rw [hval, hsame]
        exact hs.acked k hk
      · rw [hval, hnew]
    · obtain ⟨hsame, -, hack⟩ := h.others k heq
      rw [value_congr hsame, hack]
      exact hs.acked k hk

theorem giving (hs : Giving hash job s) : Giving hash job s' := by
  refine ⟨h.faithful hs.toFaithful, fun k hk => ?_⟩
  unfold Gives
  rw [h.shardOf]
  exact hs.gives k hk

theorem handover {pending : List String} (hs : Handover hash job s pending) :
    Handover hash job s' pending := by
  refine ⟨h.giving hs.toGiving, fun k hk hnot => ?_⟩
  by_cases heq : k = key
  · subst heq
    obtain ⟨hsrc, htgt⟩ := hs.plain k hk
    exact h.synced hsrc htgt (hs.gives k hk) (hs.synced k hk hnot)
  · obtain ⟨hsame, hsame', -⟩ := h.others k heq
    rw [value_congr hsame, value_congr hsame']
    exact hs.synced k hk hnot

theorem matches_items {items : List MigrationPlanItem} (hs : Matches hash job s items)
    (hne : ∀ item ∈ items.head?, item.key ≠ key) : Matches hash job s' items := by
  intro item hitem hk
  rw [value_congr (h.others item.key (hne item hitem)).1]
  exact hs item hitem hk

theorem delivered (hs : Delivered hash job s) : Delivered hash job s' := by
  refine ⟨fun k hk => ?_, fun k hk => ?_⟩
  · by_cases heq : k = key
    · subst heq
      obtain ⟨htarget, hack⟩ := h.refused (hs.absent k hk)
      rw [htarget, hack]
      exact hs.acked k hk
    · obtain ⟨-, hsame, hack⟩ := h.others k heq
      rw [value_congr hsame, hack]
      exact hs.acked k hk
  · rw [h.shardOf]
    exact hs.absent k hk

theorem inv {stage : MigrationStage} (hs : Inv hash job s stage)
    (hne : some key ≠ stage.copying) : Inv hash job s' stage := by
  have hhead : ∀ items : List MigrationPlanItem, (∀ item rest, items = item :: rest →
      stage.copying = some item.key) → ∀ item ∈ items.head?, item.key ≠ key := by
    rintro items hcop item hitem rfl
    cases items with
    | nil => cases hitem
    | cons first rest =>
      cases hitem
      exact hne (hcop item rest rfl).symm
  cases stage with
  | reading | importing | migrating => exact h.faithful hs
  | scanning => exact h.giving hs
  | checking items copied | verifying items copied before | owning copied | leaving copied =>
    exact h.handover hs
  | comparing items copied | putting items copied before =>
    exact ⟨h.handover hs.1, h.matches_items hs.2 (hhead items fun _ _ heq => by rw [heq]; rfl)⟩
  | listing | cleaning keys | done => exact h.delivered hs
  | _ => trivial

end Served

theorem inv_client (h : Inv hash job s s.stage) (hok : careful hash job s (.client input x))
    (hstep : s.step hash job (.client input x) = some s') : Inv hash job s' s'.stage := by
  obtain ⟨hdel, hlast, hkey⟩ := hok
  obtain ⟨req, net, clock⟩ := input
  cases req with
  | put args =>
    rw [Request.lasting, Bool.and_eq_true, decide_eq_true_eq, decide_eq_true_eq] at hlast
    have hser := served_of_leaves (.put args hlast.1 hlast.2) hdel hstep
    rw [hser.stage]
    exact hser.inv h hkey
  | delete k =>
    have hser := served_of_leaves (.delete k) hdel hstep
    rw [hser.stage]
    exact hser.inv h hkey
  | _ => cases hstep

section

variable {args : SetShardStateArgs} {t : KVServer} {pending : List String} {now : Int64}
  {item : MigrationPlanItem} {items : List MigrationPlanItem}

variable {net : Net} {clock : Clock} {reply : Reply} {req : Request} {s₁ : OnlineMigration}

variable (hash job) in
inductive Executed (s : OnlineMigration) (net : Net) (clock : Clock) :
    MigrationStage → OnlineMigration → Reply → Prop
  | importing (args : SetShardStateArgs)
    (h : args = ⟨ofInt job.shardID, .importing, job.sourceGID, job.epoch + 1, []⟩) :
    Executed s net clock .importing { s with target := (s.target.doSetShardState args).1 }
      (.setShardState (s.target.doSetShardState args).2)
  | migrating (args : SetShardStateArgs) (h : args = ⟨ofInt job.shardID, .migrating,
      job.targetGID, job.epoch + 2, job.targetReplicas⟩) :
    Executed s net clock .migrating { s with source := (s.source.doSetShardState args).1 }
      (.setShardState (s.source.doSetShardState args).2)
  | scanning : Executed s net clock .scanning s (.scan (s.source.doScan clock.now ⟨"", 0⟩))
  | checking (item : MigrationPlanItem) (items : List MigrationPlanItem)
    (copied : List OnlineCopiedItem) : Executed s net clock (.checking (item :: items) copied) s
      (.get (s.source.doGet hash clock.now item.key))
  | comparing (item : MigrationPlanItem) (items : List MigrationPlanItem)
    (copied : List OnlineCopiedItem) : Executed s net clock (.comparing (item :: items) copied) s
      (.get (s.target.doGet hash clock.now item.key))
  | putting (item : MigrationPlanItem) (items : List MigrationPlanItem)
    (copied : List OnlineCopiedItem) (before : GetReply) (args : PutArgs)
    (h : args = ⟨item.key, item.value, migrationPutVersion before, 0⟩) :
    Executed s net clock (.putting (item :: items) copied before)
      { s with target := (s.target.doPut hash net clock args).1 }
      (.put (s.target.doPut hash net clock args).2)
  | verifying (item : MigrationPlanItem) (items : List MigrationPlanItem)
    (copied : List OnlineCopiedItem) (before : GetReply) :
    Executed s net clock (.verifying (item :: items) copied before) s
      (.get (s.target.doGet hash clock.now item.key))
  | owning (copied : List OnlineCopiedItem) (args : SetShardStateArgs)
    (h : args = ⟨ofInt job.shardID, .owned, 0, job.epoch + 3, []⟩) :
    Executed s net clock (.owning copied)
      { s with target := (s.target.doSetShardState args).1 }
      (.setShardState (s.target.doSetShardState args).2)
  | leaving (copied : List OnlineCopiedItem) (args : SetShardStateArgs)
    (h : args = ⟨ofInt job.shardID, .absent, job.targetGID, job.epoch + 4, job.targetReplicas⟩) :
    Executed s net clock (.leaving copied)
      { s with source := (s.source.doSetShardState args).1 }
      (.setShardState (s.source.doSetShardState args).2)
  | listing : Executed s net clock .listing s (.scan (s.source.doScan clock.now ⟨"", 0⟩))
  | cleaning (keys : List CleanupShardKey) (source : KVServer) (reply : CleanupShardReply)
    (h : source.shardMgr = s.source.shardMgr) :
    Executed s net clock (.cleaning keys) { s with source := source } (.cleanupShard reply)
  | undoingDelete (c : OnlineCopiedItem) (copied : List OnlineCopiedItem)
    (h : c.before.err = .noKey) : Executed s net clock (.undoing (c :: copied))
      { s with target := (s.target.doDelete hash net clock.now c.item.key).1 }
      (.delete (s.target.doDelete hash net clock.now c.item.key).2)
  | undoing (c : OnlineCopiedItem) (copied : List OnlineCopiedItem)
    (h : c.before.err ≠ .noKey) : Executed s net clock (.undoing (c :: copied)) s
      (.get (s.target.doGet hash clock.now c.item.key))
  | undoingPut (c : OnlineCopiedItem) (copied : List OnlineCopiedItem) (current : GetReply)
    (args : PutArgs) : Executed s net clock (.undoingPut (c :: copied) current)
      { s with target := (s.target.doPut hash net clock args).1 }
      (.put (s.target.doPut hash net clock args).2)
  | restoringSource (args : SetShardStateArgs) (h : args = ⟨ofInt job.shardID,
      s.sourceOriginal.state, s.sourceOriginal.targetGroup, job.epoch + 1, []⟩) :
    Executed s net clock .restoringSource
      { s with source := (s.source.doSetShardState args).1 }
      (.setShardState (s.source.doSetShardState args).2)
  | restoringTarget (epoch : Int64) (args : SetShardStateArgs) (h : args =
      ⟨ofInt job.shardID, s.targetOriginal.state, s.targetOriginal.targetGroup, epoch, []⟩) :
    Executed s net clock (.restoringTarget epoch)
      { s with target := (s.target.doSetShardState args).1 }
      (.setShardState (s.target.doSetShardState args).2)

theorem handle_cleanupShard {kv kv' : KVServer} {args : CleanupShardArgs}
    (h : kv.handle hash net clock (.cleanupShard args) = some (kv', reply)) :
    kv'.shardMgr = kv.shardMgr ∧ ∃ r, reply = .cleanupShard r := by
  unfold handle at h
  dsimp only at h
  split at h
  · cases h
    exact ⟨rfl, _, rfl⟩
  · split at h
    · cases h
      exact ⟨rfl, _, rfl⟩
    · obtain ⟨rfl, rfl⟩ := of_doOp_cleanupShard h
      refine ⟨?_, _, rfl⟩
      exact (wrote_doCleanupShard (K := fun _ => True) hash fun _ _ => trivial).shardMgr

theorem executed {stage : MigrationStage} (hst : s.stage = stage)
    (h : s.execute hash job net clock = some (s₁, reply)) :
    Executed hash job s net clock stage s₁ reply := by
  obtain ⟨source, target, current, sourceOriginal, targetOriginal, acked⟩ := s
  obtain rfl : current = stage := hst
  simp only [execute, call] at h
  cases current with
  | reading | done | failed => cases h
  | cleaning keys =>
    obtain ⟨⟨source', r⟩, hrun, heq⟩ := map_eq_some_iff.mp h
    cases heq
    obtain ⟨hshard, r, rfl⟩ := handle_cleanupShard hrun
    exact .cleaning keys source' r hshard
  | checking items | comparing items | putting items | verifying items | undoingPut items =>
    cases items with
    | nil => cases h
    | cons item items =>
      simp only [handle, doOp, bind_some, map_some, Option.some.injEq, Prod.mk.injEq] at h
      obtain ⟨rfl, rfl⟩ := h
      constructor <;> rfl
  | undoing copied =>
    cases copied with
    | nil => cases h
    | cons c copied =>
      dsimp only at h
      split_ifs at h
      all_goals
        simp only [handle, doOp, bind_some, map_some, Option.some.injEq, Prod.mk.injEq] at h
        obtain ⟨rfl, rfl⟩ := h
        constructor
        assumption
  | _ =>
    simp only [handle, doOp, bind_some, map_some, Option.some.injEq, Prod.mk.injEq] at h
    obtain ⟨rfl, rfl⟩ := h
    constructor <;> rfl

theorem stage_of_execute (h : s.execute hash job net clock = some (s₁, reply)) :
    s₁.stage = s.stage := by
  generalize hst : s.stage = stage
  cases executed hst h <;> exact hst

theorem getElem?_doSetShardState (kv : KVServer) (args : SetShardStateArgs) (key : String) :
    (kv.doSetShardState args).1.store[key]? = kv.store[key]? := by
  unfold doSetShardState
  split <;> rfl

theorem shardOf_doSetShardState (kv : KVServer)
    (hkey : ((shardForKey hash key).val : Int) = args.shardID.toInt) :
    (kv.doSetShardState args).1.shardOf hash key =
      ⟨args.state, args.targetGroup, args.targetReplicas⟩ := by
  have hlt := (shardForKey hash key).isLt
  have hrange : 0 ≤ args.shardID.toInt ∧ args.shardID.toInt < numShards := by omega
  have hsame : shardForKey hash key = ⟨args.shardID.toInt.toNat, by omega⟩ :=
    Fin.ext (by dsimp only; omega)
  unfold doSetShardState ShardStateManager.setShardState
    ShardStateManager.validateShardID KVServer.shardOf
  rw [dif_pos hrange]
  dsimp only
  rw [if_pos hsame]

theorem Covered.shardID (h : Covered hash job key) :
    ((shardForKey hash key).val : Int) = (ofInt job.shardID).toInt := by
  have hlt := (shardForKey hash key).isLt
  have hnum : numShards = 1024 := rfl
  have heq := h.2
  rw [toInt_ofInt_of_le (by omega) (by omega)]
  exact heq

theorem Faithful.withTarget (h : Faithful hash job s)
    (hpl : ∀ key, Covered hash job key → t.Plain key) : Faithful hash job { s with target := t } :=
  ⟨fun key hk => ⟨(h.plain key hk).1, hpl key hk⟩, h.acked⟩

theorem Handover.withTarget {pending' : List String} (h : Handover hash job s pending)
    (hpl : ∀ key, Covered hash job key → t.Plain key)
    (hsync : ∀ key, Covered hash job key → key ∉ pending' → s.source.value key = t.value key) :
    Handover hash job { s with target := t } pending' :=
  ⟨⟨h.toFaithful.withTarget hpl, h.gives⟩, hsync⟩

/-! The shard states -/

theorem Faithful.setTarget (h : Faithful hash job s) (args : SetShardStateArgs) :
    Faithful hash job { s with target := (s.target.doSetShardState args).1 } := by
  refine h.withTarget fun key hk => (h.plain key hk).2.congr ?_
  exact getElem?_doSetShardState s.target args key

theorem Handover.setTarget (h : Handover hash job s pending) (args : SetShardStateArgs) :
    Handover hash job { s with target := (s.target.doSetShardState args).1 } pending := by
  have hsame := getElem?_doSetShardState s.target args
  refine h.withTarget (fun key hk => (h.plain key hk).2.congr (hsame key)) fun key hk hnot => ?_
  rw [value_congr (hsame key)]
  exact h.synced key hk hnot

theorem Faithful.setSource (h : Faithful hash job s) (args : SetShardStateArgs) :
    Faithful hash job { s with source := (s.source.doSetShardState args).1 } := by
  have hsame := getElem?_doSetShardState s.source args
  refine ⟨fun key hk => ⟨(h.plain key hk).1.congr (hsame key), (h.plain key hk).2⟩,
    fun key hk => ?_⟩
  dsimp only
  rw [value_congr (hsame key)]
  exact h.acked key hk

theorem Giving.setSource (h : Faithful hash job s) (hsh : args.shardID = ofInt job.shardID)
    (hstate : args.state = .absent ∨ args.state = .migrating ∧ args.targetGroup = job.targetGID) :
    Giving hash job { s with source := (s.source.doSetShardState args).1 } := by
  refine ⟨h.setSource args, fun key hk => ?_⟩
  unfold Gives
  rw [shardOf_doSetShardState s.source (hsh ▸ hk.shardID)]
  exact hstate

theorem Handover.setSource (h : Handover hash job s pending)
    (hsh : args.shardID = ofInt job.shardID)
    (hstate : args.state = .absent ∨ args.state = .migrating ∧ args.targetGroup = job.targetGID) :
    Handover hash job { s with source := (s.source.doSetShardState args).1 } pending := by
  refine ⟨Giving.setSource h.toFaithful hsh hstate, fun key hk hnot => ?_⟩
  dsimp only
  rw [value_congr (getElem?_doSetShardState s.source args key)]
  exact h.synced key hk hnot

theorem Handover.leave (h : Handover hash job s [])
    (hsh : args.shardID = ofInt job.shardID) (hstate : args.state = .absent) :
    Delivered hash job { s with source := (s.source.doSetShardState args).1 } := by
  refine ⟨fun key hk => ?_, fun key hk => ?_⟩
  · dsimp only
    rw [← h.synced key hk not_mem_nil]
    exact h.acked key hk
  · dsimp only
    rw [shardOf_doSetShardState s.source (hsh ▸ hk.shardID)]
    exact hstate

theorem Delivered.withSource {source : KVServer} (h : Delivered hash job s)
    (hshard : source.shardMgr = s.source.shardMgr) :
    Delivered hash job { s with source := source } := by
  refine ⟨h.acked, fun key hk => ?_⟩
  unfold KVServer.shardOf
  dsimp only
  rw [hshard]
  exact h.absent key hk

/-! The bulk copy -/

theorem mem_doScan {kv : KVServer} {e : KVEntry} (hdead : kv.dead = false)
    (hkey : kv.store[key]? = some (.entry e)) (he : e.expires ≤ 0) :
    ⟨key, e.value, e.version.toInt64, e.expires⟩ ∈ (kv.doScan now ⟨"", 0⟩).items := by
  unfold doScan Store.scanPrefix
  rw [hdead]
  simp only [Bool.false_eq_true, if_false]
  refine mem_map.mpr ⟨(key, e), mem_filter.mpr ⟨?_, ?_⟩, rfl⟩
  · rw [if_neg (by decide)]
    refine mem_filterMap.mpr ⟨(key, .entry e), mem_filter.mpr ⟨?_, ?_⟩, rfl⟩
    · exact ExtTreeMap.mem_toList_iff_getElem?_eq_some.mpr hkey
    · simp [hasPrefix]
  · rw [isExpired_of_le he]
    rfl

theorem mem_bulkItems (hnum : job.numShards = numShards) (hpre : job.pre = "") {e : KVEntry}
    (hk : Covered hash job key) (hdead : s.source.dead = false)
    (hkey : s.source.store[key]? = some (.entry e)) (he : e.expires ≤ 0) :
    key ∈ (job.bulkItems hash (s.source.doScan now ⟨"", 0⟩).items).map (·.key) := by
  refine mem_map.mpr ⟨_, mem_map.mpr ⟨_, mem_filter.mpr ⟨mem_doScan hdead hkey he, ?_⟩, rfl⟩, rfl⟩
  have hsh := hk.2
  unfold shardForKey at hsh
  simp [MigrationJob.selects, hnum, hpre, hsh]

theorem Giving.scanned (hnum : job.numShards = numShards) (hpre : job.pre = "")
    (h : Giving hash job s) (hdead : s.source.dead = false)
    (hstale : ∀ item ∈ s.target.store.toList, Covered hash job item.1 →
      s.source.store[item.1]?.isSome = true) :
    Handover hash job s ((job.bulkItems hash (s.source.doScan now ⟨"", 0⟩).items).map (·.key)) := by
  refine ⟨h, fun key hk hnot => ?_⟩
  have hsource : s.source.store[key]? = none := by
    cases hkey : s.source.store[key]? with
    | none => rfl
    | some d =>
      obtain ⟨e, rfl, he⟩ := (h.plain key hk).1 d hkey
      exact absurd (mem_bulkItems hnum hpre hk hdead hkey he) hnot
  have htarget : s.target.store[key]? = none := by
    cases hkey : s.target.store[key]? with
    | none => rfl
    | some d =>
      have hfound := hstale (key, d) (ExtTreeMap.mem_toList_iff_getElem?_eq_some.mpr hkey) hk
      rw [hsource] at hfound
      cases hfound
  unfold value
  rw [hsource, htarget]

theorem matches_of_get (h : Faithful hash job s)
    (hok : (s.source.doGet hash now item.key).err = .ok)
    (hval : (s.source.doGet hash now item.key).value = item.value) :
    Matches hash job s (item :: items) := by
  rintro it ⟨⟩ hk
  rw [(h.plain item.key hk).1.doGet_ok hok, hval]

section

variable (h : Handover hash job s ((item :: items).map (·.key)))
  (hmatch : Matches hash job s (item :: items))

include h hmatch

theorem Handover.copied (hpl : ∀ key, Covered hash job key → t.Plain key)
    (hother : ∀ key, key ≠ item.key → t.store[key]? = s.target.store[key]?)
    (hval : Covered hash job item.key → t.value item.key = some item.value) :
    Handover hash job { s with target := t } (items.map (·.key)) := by
  refine h.withTarget hpl fun key hk hnot => ?_
  by_cases heq : key = item.key
  · subst heq
    rw [hval hk]
    exact hmatch item rfl hk
  · rw [value_congr (hother key heq)]
    refine h.synced key hk fun hmem => ?_
    rcases mem_cons.mp hmem with hhead | htail
    · exact heq hhead
    · exact hnot htail

theorem Handover.equal (heq : migrationValueEquals (s.target.doGet hash now item.key) item = true) :
    Handover hash job s (items.map (·.key)) := by
  rw [migrationValueEquals, Bool.and_eq_true, decide_eq_true_eq, decide_eq_true_eq] at heq
  refine h.copied hmatch (fun key hk => (h.plain key hk).2) (fun _ _ => rfl) fun hk => ?_
  rw [(h.plain item.key hk).2.doGet_ok heq.1, heq.2]

end

theorem plain_put {version : Tversion} (h : Faithful hash job s) (hk : Covered hash job key) :
    (s.target.doPut hash net clock ⟨item.key, item.value, version, 0⟩).1.Plain key := by
  have hpl := (h.plain key hk).2
  by_cases heq : item.key = key
  · subst heq
    have ht : s.target.Plain (PutArgs.key ⟨item.key, item.value, version, 0⟩) := hpl
    exact ht.doPut (le_refl 0)
  · exact hpl.congr (doPut_other heq)

theorem Handover.put {version : Tversion} (h : Handover hash job s ((item :: items).map (·.key))) :
    Handover hash job { s with target := (s.target.doPut hash net clock
      ⟨item.key, item.value, version, 0⟩).1 } ((item :: items).map (·.key)) := by
  refine h.withTarget (fun key hk => plain_put h.toFaithful hk) fun key hk hnot => ?_
  have hne : item.key ≠ key := fun heq => hnot (heq ▸ mem_cons_self)
  rw [value_congr (doPut_other hne)]
  exact h.synced key hk hnot

theorem inv_undoNext (copied : List OnlineCopiedItem) : Inv hash job s (undoNext copied) := by
  cases copied <;> trivial

theorem inv_copyNext (copied : List OnlineCopiedItem)
    (h : Handover hash job s (items.map (·.key))) :
    Inv hash job s (copyNext items copied) := by
  cases items <;> exact h

theorem inv_unanswered {c : Side × Request} (hcall : s.call job = some c) :
    Inv hash job s₁ (s.stage.resume hash job none) := by
  unfold call at hcall
  cases hstg : s.stage with
  | checking items copied | comparing items copied | verifying items copied before =>
    cases items with
    | nil =>
      rw [hstg] at hcall
      cases hcall
    | cons item items => exact inv_undoNext copied
  | putting items copied before | owning copied | leaving copied => exact inv_undoNext copied
  | undoing copied =>
    cases copied with
    | nil => trivial
    | cons c copied => exact inv_undoNext copied
  | undoingPut copied current => exact inv_undoNext copied.tail
  | reading | done =>
    rw [hstg] at hcall
    cases hcall
  | scanning => exact inv_undoNext []
  | _ => trivial

/-! The answers to changes of shard states -/

theorem resume_importing (e : String) :
    resume hash job .importing (some (.setShardState e)) =
      if e = "" then .migrating else .failed := by
  unfold resume
  split <;> simp_all

theorem resume_migrating (e : String) :
    resume hash job .migrating (some (.setShardState e)) =
      if e = "" then .scanning else .restoringTarget (job.epoch + 3) := by
  unfold resume
  split <;> simp_all

theorem resume_owning (copied : List OnlineCopiedItem) (e : String) :
    resume hash job (.owning copied) (some (.setShardState e)) =
      if e = "" then .leaving copied else undoNext copied := by
  unfold resume
  split <;> simp_all

theorem resume_leaving (copied : List OnlineCopiedItem) (e : String) :
    resume hash job (.leaving copied) (some (.setShardState e)) =
      if e = "" then .listing else undoNext copied := by
  unfold resume
  split <;> simp_all

theorem inv_executed (hexec : s.execute hash job net clock = some (s₁, reply))
    (hnum : job.numShards = numShards) (hpre : job.pre = "") (h : Inv hash job s s.stage) :
    Inv hash job s₁ s.stage ∧ ∀ delivery, careful hash job s (.call delivery net clock) →
      Inv hash job s₁ (s.stage.resume hash job (some reply)) := by
  unfold careful
  generalize hst : s.stage = stage at h
  cases executed hst hexec with
  | importing args =>
    refine ⟨h.setTarget args, fun _ _ => ?_⟩
    rw [resume_importing]
    split
    · exact h.setTarget args
    · trivial
  | migrating args hargs =>
    refine ⟨h.setSource args, fun _ _ => ?_⟩
    rw [resume_migrating]
    split
    · exact Giving.setSource h (by rw [hargs]) (Or.inr (by simp [hargs]))
    · trivial
  | scanning =>
    refine ⟨h, fun _ hstale => ?_⟩
    dsimp only [resume]
    split
    · exact inv_undoNext []
    · rename_i halive
      refine inv_copyNext [] (Giving.scanned hnum hpre h ?_ hstale)
      cases hdead : s.source.dead with
      | false => rfl
      | true =>
        refine absurd ?_ halive
        rw [doScan, if_pos hdead]
  | checking item items copied =>
    refine ⟨h, fun _ _ => ?_⟩
    dsimp only [resume]
    split
    · rename_i hget
      exact ⟨h, matches_of_get h.toFaithful hget.1 hget.2⟩
    · exact inv_undoNext copied
  | comparing item items copied =>
    refine ⟨h, fun _ _ => ?_⟩
    dsimp only [resume]
    split_ifs with _ heq
    · exact inv_undoNext copied
    · exact inv_copyNext copied (h.1.equal h.2 heq)
    · exact h
  | putting item items copied before args hargs =>
    subst hargs
    refine ⟨⟨h.1.put, h.2⟩, fun _ _ => ?_⟩
    dsimp only [resume]
    split
    · rename_i hok
      rw [migrationPutAccepted, decide_eq_true_eq] at hok
      exact h.1.copied h.2 (fun key hk => plain_put h.1.toFaithful hk)
        (fun key hne => doPut_other hne.symm) fun _ => value_doPut hok
    · exact inv_undoNext copied
  | verifying item items copied before =>
    refine ⟨h, fun _ _ => ?_⟩
    dsimp only [resume]
    split
    · exact inv_copyNext _ h
    · exact inv_undoNext copied
  | owning copied args =>
    refine ⟨h.setTarget args, fun _ _ => ?_⟩
    rw [resume_owning]
    split
    · exact h.setTarget args
    · exact inv_undoNext copied
  | leaving copied args hargs =>
    subst hargs
    refine ⟨h.setSource rfl (Or.inl rfl), fun _ _ => ?_⟩
    rw [resume_leaving]
    split
    · exact h.leave rfl rfl
    · exact inv_undoNext copied
  | listing =>
    refine ⟨h, fun _ _ => ?_⟩
    dsimp only [resume]
    split
    · trivial
    · split <;> exact h
  | cleaning keys source reply hshard =>
    refine ⟨h.withSource hshard, fun _ _ => ?_⟩
    dsimp only [resume]
    split
    · exact h.withSource hshard
    · trivial
  | undoing c copied =>
    refine ⟨trivial, fun _ _ => ?_⟩
    dsimp only [resume]
    split
    · trivial
    · exact inv_undoNext copied
  | undoingDelete c copied | undoingPut c copied =>
    exact ⟨trivial, fun _ _ => inv_undoNext copied⟩
  | restoringSource | restoringTarget => exact ⟨trivial, fun _ _ => trivial⟩

end

theorem Inv.congr {stage : MigrationStage} (h : Inv hash job s stage)
    (hsource : s'.source = s.source)
    (htarget : ∀ key : String, s'.target.store[key]? = s.target.store[key]?)
    (hacked : s'.acked = s.acked) : Inv hash job s' stage := by
  have hfaithful : Faithful hash job s → Faithful hash job s' := fun h => by
    refine ⟨fun key hk => ?_, fun key hk => ?_⟩
    · rw [hsource]
      exact ⟨(h.plain key hk).1, (h.plain key hk).2.congr (htarget key)⟩
    · rw [hsource, hacked]
      exact h.acked key hk
  have hgiving : Giving hash job s → Giving hash job s' := fun h =>
    ⟨hfaithful h.toFaithful, fun key hk => by rw [Gives, hsource]; exact h.gives key hk⟩
  have hhandover : ∀ {pending}, Handover hash job s pending → Handover hash job s' pending :=
    fun h => ⟨hgiving h.toGiving, fun key hk hnot => by
      rw [hsource, value_congr (htarget key)]
      exact h.synced key hk hnot⟩
  cases stage with
  | reading | importing | migrating => exact hfaithful h
  | scanning => exact hgiving h
  | checking items copied | verifying items copied before | owning copied | leaving copied =>
    exact hhandover h
  | comparing items copied | putting items copied before =>
    exact ⟨hhandover h.1, fun item hitem hk => by rw [hsource]; exact h.2 item hitem hk⟩
  | listing | cleaning keys | done =>
    refine ⟨fun key hk => ?_, fun key hk => by rw [hsource]; exact h.absent key hk⟩
    rw [value_congr (htarget key), hacked]
    exact h.acked key hk
  | _ => trivial

theorem key?_of_forwarded {req fwd : Request} (h : forwarded req = some fwd) :
    ∃ key, fwd.key? = some key := by
  cases req <;> cases h <;> exact ⟨_, rfl⟩

theorem inv_echo {req : Request} (h : Inv hash job s s.stage)
    (hok : careful hash job s (.echo req x)) (hstep : s.step hash job (.echo req x) = some s') :
    Inv hash job s' s'.stage := by
  obtain ⟨fwd, hfwd, rfl⟩ := map_eq_some_iff.mp hstep
  obtain ⟨key, hkey⟩ := key?_of_forwarded hfwd
  refine h.congr rfl (fun k => ?_) rfl
  by_cases hk : k = key
  · rw [hk]
    exact hok fwd hfwd key hkey
  · exact exchange_keeps (P := fun kv => kv.store[k]? = s.target.store[k]?) rfl x
      fun t r hrun => (wrote_of_key hkey hrun).store.getElem? hk

theorem inv_step (hnum : job.numShards = numShards) (hpre : job.pre = "") {a : Action}
    (h : Inv hash job s s.stage) (hok : careful hash job s a)
    (hstep : s.step hash job a = some s') : Inv hash job s' s'.stage := by
  cases a with
  | client input x => exact inv_client h hok hstep
  | echo req x => exact inv_echo h hok hstep
  | start =>
    unfold step at hstep
    dsimp only at hstep
    split at hstep
    · rename_i hst
      rw [hst] at h
      split at hstep
      · cases hstep
        have hfirst : Inv hash job s .importing := h
        exact hfirst.congr rfl (fun _ => rfl) rfl
      · cases hstep
        trivial
    · cases hstep
  | call delivery net clock =>
    cases delivery with
    | lost =>
      obtain ⟨c, hcall, rfl⟩ := map_eq_some_iff.mp hstep
      exact inv_unanswered hcall
    | unanswered =>
      obtain ⟨r, hexec, rfl⟩ := map_eq_some_iff.mp hstep
      obtain ⟨c, hcall, -⟩ := bind_eq_some_iff.mp hexec
      exact inv_unanswered hcall
    | answered =>
      obtain ⟨r, hexec, rfl⟩ := map_eq_some_iff.mp hstep
      exact ((inv_executed hexec hnum hpre h).2 _ hok).congr rfl (fun _ => rfl) rfl
  | stray net clock =>
    obtain ⟨r, hexec, rfl⟩ := map_eq_some_iff.mp hstep
    rw [stage_of_execute hexec]
    exact (inv_executed hexec hnum hpre h).1

/-- After a migration that returns nil the target has under every user key of the shard what
the last acknowledged operation left there, and where there was none what the source had. -/
theorem migration_keeps_acknowledged_writes (hash : String → UInt64) (job : MigrationJob)
    (hnum : job.numShards = numShards) (hpre : job.pre = "") (s₀ s : OnlineMigration)
    (hinit : (system hash job).init s₀) (hplain : PlainKeys hash job s₀)
    (hrun : (system hash job).Run (careful hash job) s₀ s) (hdone : s.stage = .done) :
    ∀ key, Covered hash job key → s.target.value key = s.acked key := by
  have hstart : Inv hash job s₀ s₀.stage := by
    rw [hinit.1]
    exact ⟨hplain, fun key _ => (hinit.2 key).symm⟩
  have hinv := hrun.preserves (I := fun s => Inv hash job s s.stage)
    (fun s a t h hok hstep => inv_step hnum hpre h hok hstep) hstart
  rw [hdone] at hinv
  exact hinv.acked

def sampleJob : MigrationJob := ⟨0, 1, 2, "", 1024, 1, 1, ["b"]⟩

def startFrom (store : Store) : OnlineMigration :=
  let source := newKVServer 1 store
  ⟨source, newKVServer 2 ∅, .reading, ⟨.owned, 0, []⟩, ⟨.owned, 0, []⟩, source.value⟩

def sampleStart : OnlineMigration :=
  startFrom (((∅ : Store).insert "j" (.entry ⟨"w", 1, 0⟩)).insert "k" (.entry ⟨"v0", 1, 0⟩))

def proceed : Action := .call .answered .offline ⟨0, 0⟩

def samplePut : Action :=
  .client ⟨.put ⟨"k", "v1", 1, 0⟩, .offline, ⟨0, 0⟩⟩ ⟨.answered, .offline, ⟨0, 0⟩⟩

def sampleEcho : Action := .echo (.put ⟨"k", "v1", 1, 0⟩) ⟨.answered, .offline, ⟨0, 0⟩⟩

theorem plainKeys_sampleStart : PlainKeys (fun _ => 0) sampleJob sampleStart := by
  intro key _
  refine ⟨fun d hd => ?_, fun d hd => ?_⟩
  · simp only [sampleStart, startFrom, newKVServer, ExtTreeMap.getElem?_insert] at hd
    split_ifs at hd
    · cases hd
      exact ⟨_, rfl, by decide⟩
    · cases hd
      exact ⟨_, rfl, by decide⟩
    · simp at hd
  · simp [sampleStart, startFrom, newKVServer] at hd

-- nobody writes to "j", and the put to "k" is sent on by a second replica as well
theorem migration_keeps_acknowledged_writes_sample : ∃ s,
    (system (fun _ => 0) sampleJob).Run (careful (fun _ => 0) sampleJob) sampleStart s ∧
      s.stage = .done ∧ s.target.value "k" = some "v1" ∧ s.target.value "j" = some "w" := by
  obtain ⟨s, hrun, hdone, hput, hkept⟩ := Lib.System.exists_of_execOk
    (system (fun _ => 0) sampleJob) (careful (fun _ => 0) sampleJob) sampleStart
    (.start :: List.replicate 11 proceed ++ [samplePut, sampleEcho] ++ List.replicate 4 proceed)
    (fun s => s.stage = .done ∧ s.acked "k" = some "v1" ∧ s.acked "j" = some "w")
    (by decide +kernel)
  have hval := migration_keeps_acknowledged_writes (fun _ => 0) sampleJob rfl rfl sampleStart s
    ⟨rfl, fun _ => rfl⟩ plainKeys_sampleStart hrun hdone
  exact ⟨s, hrun, hdone, (hval "k" ⟨by decide, rfl⟩).trans hput,
    (hval "j" ⟨by decide, rfl⟩).trans hkept⟩

theorem migration_loses_put : ∃ s, (system (fun _ => 0) sampleJob).exec
        (startFrom ((∅ : Store).insert "k" (.entry ⟨"v0", 1, 0⟩)))
        (.start :: List.replicate 4 proceed ++ samplePut :: List.replicate 7 proceed) = some s ∧
      s.stage = .done ∧ s.acked "k" = some "v1" ∧ s.target.value "k" = some "v0" :=
  Lib.System.exists_of_exec _ _ _ _ (by decide +kernel)

end OnlineMigration

end OrbisKV.KV
