import OrbisKV.Lib.Update
import OrbisKV.Lib.Transition
import OrbisKV.KV.Forward
import OrbisKV.KV.Tidy
/-!
# Shard states and the write paths

`doPut` and `doDelete` look at the state of the shard: ABSENT refuses, MIGRATING sends
the write on to the target group.
-/

namespace OrbisKV.KV

open Std Function Option

structure GroupCommand where
  gid : Int
  input : Input
  exchange : Exchange

def Request.key? : Request → Option String
  | .put args => some args.key
  | .delete key => some key
  | _ => none

def acknowledged : Reply → Bool
  | .put reply => reply.err = .ok
  | .delete reply => reply.err = .ok
  | .prepareTx e => e = .ok
  | .commitTx e => e = .ok
  | _ => false

def Request.isWrite : Request → Bool
  | .put _ | .delete _ | .prepareTx _ | .commitTx _ => true
  | _ => false

namespace KVServer

variable (hash : String → UInt64)

def Serves (kv : KVServer) (key : String) : Prop :=
  (kv.shardOf hash key).state = .owned ∨ (kv.shardOf hash key).state = .importing

def AsksFor (kv : KVServer) (key : String) : Request → Prop
  | .put args => args.key = key
  | .delete k => k = key
  | .prepareTx args => ∃ wk ∈ args.writeKeys, wk.key = key
  | .commitTx args => ∃ rec, (kv.txMgr.preparedTxs[args.txID]? = some rec ∨
      kv.diskRecord args.txID = some rec) ∧ rec.writes key
  | _ => False

def Live (kv : KVServer) (key : String) (now : Int64) : Prop :=
  ∃ e, kv.store.get key = .ok (some e) ∧ isExpired e.expires now = false

instance (kv : KVServer) (key : String) : Decidable (kv.Serves hash key) :=
  inferInstanceAs (Decidable (_ ∨ _))

instance (kv : KVServer) (key : String) (now : Int64) : Decidable (kv.Live key now) :=
  match h : kv.store.get key with
  | .ok (some e) => decidable_of_iff (isExpired e.expires now = false) <| by simp [Live, h]
  | .ok none => .isFalse <| by simp [Live, h]
  | .error _ => .isFalse <| by simp [Live, h]

/-- The target has what the source has: the value and version of an entry, or nothing
live where the source has none. -/
def AppliedAt (source target : KVServer) (key : String) (now : Int64) : Prop :=
  match source.store[key]? with
  | some (.entry e) => ∃ e', target.store[key]? = some (.entry e') ∧ e'.value = e.value ∧
      e'.version = e.version
  | none => ¬target.Live key now
  | some _ => False

end KVServer

def forwardTarget (hash : String → UInt64) (groups : Int → KVServer) (c : GroupCommand) : Int :=
  match c.input.request.key? with
  | none => c.gid
  | some key => ((groups c.gid).shardOf hash key).targetGroup

def GroupCommand.exchangeWith (c : GroupCommand) (target : Int) : Exchange :=
  if target = c.gid then { c.exchange with delivery := .lost } else c.exchange

def applyCommand (hash : String → UInt64) (groups : Int → KVServer) (c : GroupCommand) :
    Option ((Int → KVServer) × Reply) :=
  let target := forwardTarget hash groups c
  ((groups c.gid).dualApply hash (groups target) c.input (c.exchangeWith target)).map fun r =>
    (update (update groups target r.2.1) c.gid r.1, r.2.2)

def shardGroups (hash : String → UInt64) : Lib.System (Int → KVServer) GroupCommand where
  init groups := ∀ gid, (groups gid).txMgr = {} ∧ ∀ x, (groups gid).store.getTxRecord x = none
  step groups c := (applyCommand hash groups c).map Prod.fst

/-- Transactions write only keys of shards that the group serves alone, such a shard
is given up only when no prepared transaction writes to it, and a put that is sent on
finds the key at the target if it names a version. -/
def governed (hash : String → UInt64) (groups : Int → KVServer) (c : GroupCommand) : Prop :=
  match c.input.request with
  | .prepareTx args => ∀ wk ∈ args.writeKeys, (groups c.gid).Serves hash wk.key
  | .setShardState args => args.state = .absent ∨ args.state = .migrating →
      (groups c.gid).Within fun key =>
        ((KVServer.shardForKey hash key).val : Int) ≠ args.shardID.toInt
  | .put args => args.version.toUInt64 = 0 ∨
      ((groups c.gid).shardOf hash args.key).state ≠ .migrating ∨
      (groups (forwardTarget hash groups c)).Live args.key c.exchange.clock.casNow
  | _ => True

section

variable {hash : String → UInt64} {groups groups' : Int → KVServer} {c : GroupCommand}

def Guarded (hash : String → UInt64) (groups : Int → KVServer) : Prop :=
  ∀ gid, (groups gid).Within ((groups gid).Serves hash)

namespace KVServer

variable {kv kv' : KVServer} {net : Net} {clock : Clock} {reply : Reply}
  {key : String} {req fwd : Request} {target target' : KVServer} {x : Exchange}
  {args : PutArgs} {now : Int64}

theorem serves_congr (h : kv'.shardMgr = kv.shardMgr) : kv'.Serves hash = kv.Serves hash := by
  unfold Serves shardOf
  rw [h]

theorem Serves.set {args : SetShardStateArgs} {mgr : ShardStateManager}
    (hset : kv.shardMgr.setShardState args = .ok mgr) (h : kv.Serves hash key)
    (hgive : args.state = .absent ∨ args.state = .migrating →
      ((shardForKey hash key).val : Int) ≠ args.shardID.toInt) :
    ({ kv with shardMgr := mgr } : KVServer).Serves hash key := by
  unfold ShardStateManager.setShardState ShardStateManager.validateShardID at hset
  split at hset
  · cases hset
  · rename_i shard hvalid
    cases hset
    split_ifs at hvalid
    cases hvalid
    unfold Serves shardOf
    dsimp only
    split
    · rename_i hrange hsame
      have hval : ((shardForKey hash key).val : Int) = args.shardID.toInt := by
        rw [hsame]
        exact Int.toNat_of_nonneg hrange.1
      cases hst : args.state with
      | owned => exact .inl rfl
      | importing => exact .inr rfl
      | absent => exact absurd hval (hgive (.inl hst))
      | migrating => exact absurd hval (hgive (.inr hst))
    · exact h

theorem Within.setShardState {args : SetShardStateArgs} (h : kv.Within (kv.Serves hash))
    (hok : args.state = .absent ∨ args.state = .migrating →
      kv.Within fun key => ((shardForKey hash key).val : Int) ≠ args.shardID.toInt) :
    (kv.doSetShardState args).1.Within ((kv.doSetShardState args).1.Serves hash) := by
  unfold doSetShardState
  split
  · exact h
  · rename_i mgr hset
    refine ⟨fun txID rec hrec wk hwk => ?_, fun txID rec hrec wk hwk => ?_⟩
    · exact (h.cached txID rec hrec wk hwk).set hset fun hg => (hok hg).cached txID rec hrec wk hwk
    · exact (h.stored txID rec hrec wk hwk).set hset fun hg => (hok hg).stored txID rec hrec wk hwk

theorem Within.doOp (h : kv.Within (kv.Serves hash))
    (hreq : ∀ args, req = .prepareTx args → ∀ wk ∈ args.writeKeys, kv.Serves hash wk.key)
    (hshard : ∀ args, req ≠ .setShardState args)
    (hrun : kv.doOp hash net clock req = some (kv', reply)) :
    kv'.Within (kv'.Serves hash) ∧ kv'.shardMgr = kv.shardMgr := by
  have hwithin : req.Within (fun _ => True) (kv.Serves hash) := by
    cases req with
    | prepareTx args => exact hreq args rfl
    | _ => simp [Request.Within]
  have hmv := moved_doOp (fun _ _ => trivial) h hwithin hshard hrun
  rw [serves_congr hmv.shardMgr]
  exact ⟨hmv.within, hmv.shardMgr⟩

theorem forwards_eq_some (h : kv.forwards hash clock req = some fwd) :
    (∃ args, fwd = .put args) ∨ ∃ key, fwd = .delete key := by
  unfold forwards at h
  split at h
  · split at h
    · cases h
    · split at h
      · cases h
        exact .inl ⟨_, rfl⟩
      · cases h
  · split at h
    · cases h
    · split at h
      · cases h
      · obtain ⟨-, -, rfl⟩ := map_eq_some_iff.mp h
        exact .inr ⟨_, rfl⟩
  · cases h

theorem exchange_keeps {P : KVServer → Prop} (h : P kv) (x : Exchange)
    (hop : ∀ kv' reply, kv.doOp hash x.net x.clock fwd = some (kv', reply) → P kv') :
    P (kv.exchange hash x fwd).1 := by
  unfold KVServer.exchange
  split
  · exact h
  · split
    · exact h
    · rename_i hrun
      exact hop _ _ hrun
  · split
    · exact h
    · rename_i hrun
      exact hop _ _ hrun

theorem Within.exchange (h : kv.Within (kv.Serves hash)) (x : Exchange) {source : KVServer}
    (hfwd : source.forwards hash clock req = some fwd) :
    (kv.exchange hash x fwd).1.Within ((kv.exchange hash x fwd).1.Serves hash) := by
  refine exchange_keeps (P := fun kv => kv.Within (kv.Serves hash)) h x fun kv' reply hrun => ?_
  rcases forwards_eq_some hfwd with ⟨args, rfl⟩ | ⟨key, rfl⟩
  · exact (h.doOp (fun _ h => by cases h) (fun _ h => by cases h) hrun).1
  · exact (h.doOp (fun _ h => by cases h) (fun _ h => by cases h) hrun).1

theorem of_dualApply {source source' : KVServer} {input : Input}
    (h : source.dualApply hash target input x = some (source', target', reply)) :
    ∃ forward, source.doOp hash { input.net with forward := forward } input.clock input.request =
        some (source', reply) ∧
      ((source.forwards hash input.clock input.request = none ∧ target' = target) ∨
        ∃ fwd, source.forwards hash input.clock input.request = some fwd ∧
          target.exchange hash x fwd = (target', forward)) := by
  unfold dualApply at h
  split at h
  · rename_i hnone
    obtain ⟨⟨s, r⟩, hop, heq⟩ := map_eq_some_iff.mp h
    cases heq
    exact ⟨input.net.forward, hop, .inl ⟨hnone, rfl⟩⟩
  · rename_i fwd hsome
    obtain ⟨⟨s, r⟩, hop, heq⟩ := map_eq_some_iff.mp h
    cases heq
    exact ⟨_, hop, .inr ⟨fwd, hsome, rfl⟩⟩

theorem of_exchange_true (h : kv.exchange hash x fwd = (target', true)) :
    x.delivery = .answered ∧ ∃ reply, kv.doOp hash x.net x.clock fwd = some (target', reply) ∧
      forwardAccepted reply = true := by
  unfold KVServer.exchange at h
  split at h
  · cases h
  · rename_i hdel
    split at h
    · cases h
    · rw [hdel] at h
      simp at h
  · rename_i hdel
    refine ⟨hdel, ?_⟩
    split at h
    · cases h
    · rename_i t reply hop
      obtain ⟨rfl, hok⟩ := Prod.mk.inj h
      rw [Bool.and_eq_true] at hok
      exact ⟨reply, hop, hok.2⟩

theorem wrote_of_key (hkey : req.key? = some key)
    (hop : kv.doOp hash net clock req = some (kv', reply)) : Wrote (· = key) kv kv' := by
  cases req with
  | put args =>
    rw [(of_doOp_put hop).1]
    exact wrote_doPut hash net clock (Option.some.inj hkey)
  | delete k =>
    rw [(of_doOp_delete hop).1]
    exact wrote_doDelete hash net clock.now (Option.some.inj hkey)
  | _ => cases hkey

theorem refused_of_absent (hkey : req.key? = some key)
    (habsent : (kv.shardOf hash key).state = .absent)
    (hop : kv.doOp hash net clock req = some (kv', reply)) :
    kv' = kv ∧ acknowledged reply = false := by
  cases req with
  | put args =>
    cases hkey
    obtain ⟨rfl, rfl⟩ := of_doOp_put hop
    unfold doPut
    dsimp only
    rw [habsent]
    split_ifs <;> exact ⟨rfl, rfl⟩
  | delete k =>
    cases hkey
    obtain ⟨rfl, rfl⟩ := of_doOp_delete hop
    unfold doDelete
    dsimp only
    rw [habsent]
    split_ifs <;> exact ⟨rfl, rfl⟩
  | _ => cases hkey

theorem doPut_other (hne : args.key ≠ key) :
    (kv.doPut hash net clock args).1.store[key]? = kv.store[key]? := by
  refine (wrote_doPut (K := fun k => k = args.key) hash net clock rfl).store.getElem? ?_
  exact fun h => hne h.symm

theorem doDelete_other {k : String} (hne : k ≠ key) :
    (kv.doDelete hash net now k).1.store[key]? = kv.store[key]? := by
  refine (wrote_doDelete (K := fun x => x = k) hash net now rfl).store.getElem? ?_
  exact fun h => hne h.symm

theorem applied_put (hex : target.exchange hash x (.put ⟨args.key, args.value, args.version, 0⟩) =
      (target', true)) (hfound : args.version.toUInt64 = 0 ∨ target.Live args.key x.clock.casNow)
    (hok : (kv.doPut hash net clock args).2.err = .ok) :
    (kv.doPut hash net clock args).1.AppliedAt target' args.key now := by
  obtain ⟨-, reply, hop, hacc⟩ := of_exchange_true hex
  obtain ⟨rfl, rfl⟩ := of_doOp_put hop
  rw [forwardAccepted, Bool.or_eq_true, decide_eq_true_eq, decide_eq_true_eq] at hacc
  have hput : (target.doPut hash x.net x.clock ⟨args.key, args.value, args.version, 0⟩).2.err =
      .ok := by
    refine hacc.resolve_right fun hnoKey => ?_
    obtain ⟨hver, hexp⟩ := doPut_noKey hnoKey
    rcases hfound with hzero | ⟨e, hget, hlive⟩
    · exact hver hzero
    · rw [hexp e hget] at hlive
      cases hlive
  rw [doPut_ok hok, doPut_ok hput]
  unfold AppliedAt
  dsimp only
  rw [ExtTreeMap.getElem?_insert_self, ExtTreeMap.getElem?_insert_self]
  exact ⟨_, rfl, rfl, rfl⟩

theorem applied_delete (hex : target.exchange hash x (.delete key) = (target', true))
    (hok : (kv.doDelete hash net now key).2.err = .ok) :
    (kv.doDelete hash net now key).1.AppliedAt target' key x.clock.now := by
  obtain ⟨-, reply, hop, hacc⟩ := of_exchange_true hex
  obtain ⟨rfl, rfl⟩ := of_doOp_delete hop
  rw [forwardAccepted, Bool.or_eq_true, decide_eq_true_eq, decide_eq_true_eq] at hacc
  rw [doDelete_ok hok]
  unfold AppliedAt
  dsimp only
  rw [Store.delete, ExtTreeMap.getElem?_erase_self]
  rintro ⟨e, hget, hlive⟩
  rcases hacc with hdone | hnoKey
  · rw [doDelete_ok hdone] at hget
    simp [Store.get, Store.delete] at hget
  · obtain ⟨hsame, hexp⟩ := doDelete_noKey hnoKey
    rw [hsame] at hget
    rw [hexp e hget] at hlive
    cases hlive

theorem Within.unserved_tx (h : kv.Within (kv.Serves hash)) (huser : isUserKey key = true)
    (hkey : ¬kv.Serves hash key)
    (hreq : (∃ args, req = .prepareTx args ∧ ∀ wk ∈ args.writeKeys, kv.Serves hash wk.key) ∨
      ∃ args, req = .commitTx args) (hrun : kv.doOp hash net clock req = some (kv', reply)) :
    kv'.store[key]? = kv.store[key]? := by
  have hwithin : req.Within (kv.Serves hash) (kv.Serves hash) := by
    rcases hreq with ⟨args, rfl, hkeys⟩ | ⟨args, rfl⟩
    · exact hkeys
    · trivial
  refine (moved_doOp (fun _ hk => hk) h hwithin ?_ hrun).changes.getElem? huser hkey
  rcases hreq with ⟨args, rfl, -⟩ | ⟨args, rfl⟩ <;> exact fun _ => nofun

theorem not_serves_of_absent (h : (kv.shardOf hash key).state = .absent) : ¬kv.Serves hash key := by
  unfold Serves
  rw [h]
  decide

theorem not_serves_of_migrating (h : (kv.shardOf hash key).state = .migrating) :
    ¬kv.Serves hash key := by
  unfold Serves
  rw [h]
  decide

theorem absent_refuses (hguard : kv.Within (kv.Serves hash))
    (hreq : ∀ args, req = .prepareTx args → ∀ wk ∈ args.writeKeys, kv.Serves hash wk.key)
    (hwr : req.isWrite = true) (huser : isUserKey key = true)
    (habsent : (kv.shardOf hash key).state = .absent)
    (hop : kv.doOp hash net clock req = some (kv', reply)) :
    kv'.store[key]? = kv.store[key]? ∧ (kv.AsksFor key req → acknowledged reply = false) := by
  have hser := not_serves_of_absent habsent
  have hown : ∀ k, req.key? = some k → kv'.store[key]? = kv.store[key]? ∧
      (k = key → acknowledged reply = false) := by
    intro k hk
    by_cases heq : key = k
    · subst heq
      obtain ⟨rfl, href⟩ := refused_of_absent hk habsent hop
      exact ⟨rfl, fun _ => href⟩
    · exact ⟨(wrote_of_key hk hop).store.getElem? heq, fun h => absurd h.symm heq⟩
  cases req with
  | put args => exact hown args.key rfl
  | delete k => exact hown k rfl
  | prepareTx args =>
    have hkeys := hreq args rfl
    refine ⟨hguard.unserved_tx huser hser (.inl ⟨args, rfl, hkeys⟩) hop, ?_⟩
    rintro ⟨wk, hwk, rfl⟩
    exact absurd (hkeys wk hwk) hser
  | commitTx args =>
    refine ⟨hguard.unserved_tx huser hser (.inr ⟨args, rfl⟩) hop, ?_⟩
    rintro ⟨rec, hrec | hrec, wk, hwk, rfl⟩
    · exact absurd (hguard.cached _ rec hrec wk hwk) hser
    · exact absurd (hguard.stored _ rec hrec wk hwk) hser
  | _ => cases hwr

theorem migrating_applies {source' : KVServer} {input : Input}
    (hguard : kv.Within (kv.Serves hash)) (hreq : ∀ args, input.request = .prepareTx args →
      ∀ wk ∈ args.writeKeys, kv.Serves hash wk.key)
    (hput : ∀ args, input.request = .put args → args.key = key →
      args.version.toUInt64 = 0 ∨ target.Live key x.clock.casNow)
    (hwr : input.request.isWrite = true) (huser : isUserKey key = true)
    (hst : (kv.shardOf hash key).state = .migrating)
    (hdual : kv.dualApply hash target input x = some (source', target', reply))
    (hcha : source'.store[key]? ≠ kv.store[key]?) (hack : acknowledged reply = true) :
    input.request.key? = some key ∧ x.delivery = .answered ∧
      source'.AppliedAt target' key x.clock.now := by
  have hser := not_serves_of_migrating hst
  obtain ⟨forward, hop, hfwd⟩ := of_dualApply hdual
  obtain ⟨req, net, clock⟩ := input
  dsimp only at hreq hput hwr hop hfwd ⊢
  cases req with
  | put args =>
    obtain ⟨rfl, rfl⟩ := of_doOp_put hop
    by_cases hkey : args.key = key
    · subst hkey
      have hok := of_decide_eq_true hack
      obtain ⟨hsome, rfl⟩ := forwards_of_put_ok hst hok
      rw [hsome] at hfwd
      rcases hfwd with ⟨hnone, -⟩ | ⟨fwd, heq, hex⟩
      · cases hnone
      · cases heq
        exact ⟨rfl, (of_exchange_true hex).1, applied_put hex (hput args rfl rfl) hok⟩
    · exact absurd (doPut_other hkey) hcha
  | delete k =>
    obtain ⟨rfl, rfl⟩ := of_doOp_delete hop
    by_cases hkey : k = key
    · subst hkey
      have hok := of_decide_eq_true hack
      obtain ⟨hsome, rfl⟩ := forwards_of_delete_ok hst hok
      rw [hsome] at hfwd
      rcases hfwd with ⟨hnone, -⟩ | ⟨fwd, heq, hex⟩
      · cases hnone
      · cases heq
        exact ⟨rfl, (of_exchange_true hex).1, applied_delete hex hok⟩
    · exact absurd (doDelete_other hkey) hcha
  | prepareTx args =>
    exact absurd (hguard.unserved_tx huser hser (.inl ⟨args, rfl, hreq args rfl⟩) hop) hcha
  | commitTx args =>
    exact absurd (hguard.unserved_tx huser hser (.inr ⟨args, rfl⟩) hop) hcha
  | _ => cases hwr

end KVServer

open KVServer

theorem Guarded.step {reply : Reply} (h : Guarded hash groups) (hok : governed hash groups c)
    (hstep : applyCommand hash groups c = some (groups', reply)) : Guarded hash groups' := by
  obtain ⟨⟨source', target', r⟩, hdual, heq⟩ := map_eq_some_iff.mp hstep
  cases heq
  obtain ⟨forward, hop, hfwd⟩ := of_dualApply hdual
  have hsource : source'.Within (source'.Serves hash) := by
    unfold governed at hok
    by_cases hshard : ∃ args, c.input.request = .setShardState args
    · obtain ⟨args, hreq⟩ := hshard
      rw [hreq] at hok hop
      rw [(of_doOp_setShardState hop).1]
      exact (h c.gid).setShardState hok
    · refine ((h c.gid).doOp ?_ ?_ hop).1
      · intro args hreq
        rw [hreq] at hok
        exact hok
      · exact fun args hreq => hshard ⟨args, hreq⟩
  have htarget : target'.Within (target'.Serves hash) := by
    rcases hfwd with ⟨-, rfl⟩ | ⟨fwd, hfwd, hex⟩
    · exact h _
    · have hkept := (h (forwardTarget hash groups c)).exchange
        (c.exchangeWith (forwardTarget hash groups c)) hfwd
      rw [hex] at hkept
      exact hkept
  let P : Int → KVServer → Prop := fun _ kv => kv.Within (kv.Serves hash)
  refine Lib.forall_update (P := P) hsource fun gid _ => ?_
  exact Lib.forall_update (P := P) htarget (fun gid _ => h gid) gid

theorem guarded_of_reachable (hs : (shardGroups hash).Reachable (governed hash) groups) :
    Guarded hash groups := by
  refine hs.invariant (I := Guarded hash) ?_ ?_
  · intro groups hinit gid
    obtain ⟨htx, hnone⟩ := hinit gid
    refine ⟨fun txID rec hrec => ?_, fun txID rec hrec => ?_⟩
    · rw [htx] at hrec
      simp at hrec
    · rw [hnone] at hrec
      cases hrec
  · intro groups c groups' h hok hstep
    obtain ⟨⟨g, reply⟩, hap, rfl⟩ := map_eq_some_iff.mp hstep
    exact h.step hok hap

/-- Where transactions keep to shards that their group serves alone and puts that are
sent on find their key, an absent shard takes no write, and what is acknowledged on a
shard that is given away has been applied at the target group as well. -/
theorem shard_state_governs_writes {reply : Reply}
    (hs : (shardGroups hash).Reachable (governed hash) groups)
    (hok : governed hash groups c) (hwr : c.input.request.isWrite = true)
    (hstep : applyCommand hash groups c = some (groups', reply)) {key : String}
    (huser : isUserKey key = true) :
    (((groups c.gid).shardOf hash key).state = .absent →
      (groups' c.gid).store[key]? = (groups c.gid).store[key]? ∧
        ((groups c.gid).AsksFor key c.input.request → acknowledged reply = false)) ∧
    (((groups c.gid).shardOf hash key).state = .migrating →
      (groups' c.gid).store[key]? ≠ (groups c.gid).store[key]? → acknowledged reply = true →
        (groups' c.gid).AppliedAt (groups' ((groups c.gid).shardOf hash key).targetGroup) key
          c.exchange.clock.now) := by
  have hguard := guarded_of_reachable hs c.gid
  obtain ⟨⟨source', target', r⟩, hdual, heq⟩ := map_eq_some_iff.mp hstep
  cases heq
  have hreq : ∀ args, c.input.request = .prepareTx args →
      ∀ wk ∈ args.writeKeys, (groups c.gid).Serves hash wk.key := by
    intro args hreq
    unfold governed at hok
    rw [hreq] at hok
    exact hok
  rw [update_self]
  refine ⟨fun habsent => ?_, fun hst hcha hack => ?_⟩
  · obtain ⟨forward, hop, -⟩ := of_dualApply hdual
    exact absent_refuses hguard hreq hwr huser habsent hop
  · have hclock : (c.exchangeWith (forwardTarget hash groups c)).clock = c.exchange.clock := by
      unfold GroupCommand.exchangeWith
      split <;> rfl
    have hput : ∀ args, c.input.request = .put args → args.key = key →
        args.version.toUInt64 = 0 ∨ (groups (forwardTarget hash groups c)).Live key
          (c.exchangeWith (forwardTarget hash groups c)).clock.casNow := by
      rintro args hreq rfl
      unfold governed at hok
      rw [hreq] at hok
      rw [hclock]
      exact hok.imp_right fun h => h.resolve_left (not_not.mpr hst)
    obtain ⟨hkey, hdel, happ⟩ := migrating_applies hguard hreq hput hwr huser hst hdual hcha hack
    have htarget : forwardTarget hash groups c = ((groups c.gid).shardOf hash key).targetGroup := by
      unfold forwardTarget
      rw [hkey]
    have hne : forwardTarget hash groups c ≠ c.gid := by
      intro hsame
      unfold GroupCommand.exchangeWith at hdel
      rw [if_pos hsame] at hdel
      cases hdel
    rw [← htarget, update_of_ne hne, update_self, ← hclock]
    exact happ

end

def giveAway : GroupCommand :=
  ⟨1, ⟨.setShardState ⟨0, .migrating, 2, 2, ["b"]⟩, .offline, ⟨0, 0⟩⟩, ⟨.lost, .offline, ⟨0, 0⟩⟩⟩

def samplePut : GroupCommand :=
  ⟨1, ⟨.put ⟨"k", "a", 0, 0⟩, .offline, ⟨0, 0⟩⟩, ⟨.answered, .offline, ⟨0, 0⟩⟩⟩

theorem shard_state_governs_writes_sample : ∃ groups groups' reply,
    (shardGroups fun _ => 0).Reachable (governed fun _ => 0) groups ∧
      applyCommand (fun _ => 0) groups samplePut = some (groups', reply) ∧
      acknowledged reply = true ∧ (groups' 1).store["k"]? = some (.entry ⟨"a", 1, 0⟩) ∧
      (groups' 1).AppliedAt (groups' 2) "k" 0 := by
  have hgov : governed (fun _ => 0) (fun gid => newKVServer gid ∅) giveAway := by
    intro _
    refine ⟨fun txID rec hrec => ?_, fun txID rec hrec => ?_⟩
    · cases hrec
    · cases hrec
  have hall : ((shardGroups fun _ => 0).step (fun gid => newKVServer gid ∅) giveAway).any
      (fun groups => ((groups 1).shardOf (fun _ => 0) "k").state = .migrating ∧
        ((groups 1).shardOf (fun _ => 0) "k").targetGroup = 2 ∧ (groups 1).store["k"]? = none ∧
        (applyCommand (fun _ => 0) groups samplePut).any (fun r => acknowledged r.2 = true ∧
          (r.1 1).store["k"]? = some (.entry ⟨"a", 1, 0⟩)) = true) = true := by
    decide +kernel
  obtain ⟨groups, hfirst, hrest⟩ := (any_eq_true _ _).mp hall
  obtain ⟨hst, htarget, hbef, hrest⟩ := of_decide_eq_true hrest
  obtain ⟨⟨groups', reply⟩, hstep, hrest⟩ := (any_eq_true _ _).mp hrest
  obtain ⟨hack, hafter⟩ := of_decide_eq_true hrest
  have hs : (shardGroups fun _ => 0).Reachable (governed fun _ => 0) groups :=
    ⟨_, fun _ => ⟨rfl, fun _ => rfl⟩, (Lib.System.Run.refl _).step hgov hfirst⟩
  have hcha : (groups' 1).store["k"]? ≠ (groups 1).store["k"]? := by
    rw [hafter, hbef]
    exact nofun
  have hput : governed (fun _ => 0) groups samplePut := .inl rfl
  have happ := (shard_state_governs_writes hs hput rfl hstep (by decide)).2 hst
    hcha hack
  rw [show samplePut.gid = 1 from rfl, htarget] at happ
  exact ⟨groups, groups', reply, hs, hstep, hack, hafter, happ⟩

theorem transaction_ignores_shard_state :
    ((machine fun _ => 0).run (newKVServer 1 ∅)
      [⟨.setShardState ⟨0, .absent, 2, 2, ["b"]⟩, .offline, ⟨0, 0⟩⟩,
        ⟨.prepareTx ⟨"t", [], [⟨"k", "a", 0, false⟩], 0, 2, [1, 2]⟩, .offline, ⟨0, 0⟩⟩,
        ⟨.commitTx ⟨"t", []⟩, .offline, ⟨0, 0⟩⟩]).map (fun r => (r.1.store["k"]?, r.2)) =
      some (some (.entry ⟨"a", 1, 0⟩), [.setShardState "", .prepareTx .ok, .commitTx .ok]) ∧
    ((shardGroups fun _ => 0).exec (fun gid => newKVServer gid ∅) [giveAway,
        ⟨1, ⟨.prepareTx ⟨"t", [], [⟨"k", "a", 0, false⟩], 0, 2, [1, 2]⟩, .offline, ⟨0, 0⟩⟩,
          ⟨.answered, .offline, ⟨0, 0⟩⟩⟩,
        ⟨1, ⟨.commitTx ⟨"t", []⟩, .offline, ⟨0, 0⟩⟩, ⟨.answered, .offline, ⟨0, 0⟩⟩⟩]).map
      (fun groups => ((groups 1).store["k"]?, (groups 2).store["k"]?)) =
      some (some (.entry ⟨"a", 1, 0⟩), none) := by
  constructor
  · decide +kernel
  · decide +kernel

end OrbisKV.KV
