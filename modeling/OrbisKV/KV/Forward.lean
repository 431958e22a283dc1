import OrbisKV.KV.Moves
import OrbisKV.KV.Wal
/-!
# Dual writes

A group that gives a shard away applies a put or delete to its own store, sends it on
to the target group while the command is being applied, and undoes it where the
answer is not taken for success.
-/

namespace OrbisKV.KV

open Std

inductive Delivery
  | lost
  | unanswered
  | answered
deriving DecidableEq, Repr

structure Exchange where
  delivery : Delivery
  net : Net
  clock : Clock

def forwardAccepted : Reply → Bool
  | .put reply => reply.err = .ok || reply.err = .noKey
  | .delete reply => reply.err = .ok || reply.err = .noKey
  | _ => false

namespace KVServer

variable (hash : String → UInt64)

def forwards (kv : KVServer) (clock : Clock) : Request → Option Request
  | .put args =>
    if kv.dead || (kv.shardOf hash args.key).state ≠ .migrating then none
    else
      match kv.store.get args.key, kv.putCAS clock args with
      | .ok _, .ok (_, _, .ok) => some (.put ⟨args.key, args.value, args.version, 0⟩)
      | _, _ => none
  | .delete key =>
    if kv.dead || (kv.shardOf hash key).state ≠ .migrating then none
    else
      match kv.store.get key with
      | .error _ => none
      | .ok found => (live? found clock.now).map fun _ => .delete key
  | _ => none

def exchange (target : KVServer) (x : Exchange) (req : Request) : KVServer × Bool :=
  match x.delivery with
  | .lost => (target, false)
  | .unanswered | .answered =>
    match target.doOp hash x.net x.clock req with
    | none => (target, false)
    | some (target', reply) => (target', x.delivery = .answered && forwardAccepted reply)

def dualApply (source target : KVServer) (input : Input) (x : Exchange) :
    Option (KVServer × KVServer × Reply) :=
  match source.forwards hash input.clock input.request with
  | none =>
    (source.doOp hash input.net input.clock input.request).map fun r => (r.1, target, r.2)
  | some req =>
    let (target', ok) := target.exchange hash x req
    (source.doOp hash { input.net with forward := ok } input.clock input.request).map
      fun r => (r.1, target', r.2)

section

variable {hash} {kv kv' : KVServer} {net : Net} {clock : Clock}
  {args : PutArgs} {now : Int64} {key : String}

theorem doPut_ok (h : (kv.doPut hash net clock args).2.err = .ok) :
    (kv.doPut hash net clock args).1 =
      { kv with store := kv.store.insert args.key (.entry (written clock args)) } := by
  revert h
  apply doPut_cases fun r => r.2.err = .ok → r.1 =
    { kv with store := kv.store.insert args.key (.entry (written clock args)) }
  · exact fun _ hne _ _ _ hok => absurd hok hne
  · exact fun _ _ _ _ => rfl
  · exact nofun
  · exact nofun

theorem doPut_noKey (h : (kv.doPut hash net clock args).2.err = .noKey) :
    args.version.toUInt64 ≠ 0 ∧
      ∀ e, kv.store.get args.key = .ok (some e) → isExpired e.expires clock.casNow = true := by
  revert h
  apply doPut_cases fun r => r.2.err = .noKey → args.version.toUInt64 ≠ 0 ∧
    ∀ e, kv.store.get args.key = .ok (some e) → isExpired e.expires clock.casNow = true
  · exact fun _ _ _ hnoKey _ => hnoKey
  · exact nofun
  · exact nofun
  · exact nofun

theorem forwards_put (halive : kv.dead = false)
    (hst : (kv.shardOf hash args.key).state = .migrating) (hpas : kv.Passes clock args) :
    kv.forwards hash clock (.put args) = some (.put ⟨args.key, args.value, args.version, 0⟩) := by
  obtain ⟨old, hput⟩ := hpas
  cases hget : kv.store.get args.key with
  | error e =>
    rw [putCAS_eq, hget] at hput
    cases hput
  | ok found => simp [forwards, halive, hst, hget, hput]

theorem of_forwards_put_some {fwd : Request} (h : kv.forwards hash clock (.put args) = some fwd) :
    kv.dead = false ∧ (kv.shardOf hash args.key).state = .migrating ∧ kv.Passes clock args ∧
      fwd = .put ⟨args.key, args.value, args.version, 0⟩ := by
  unfold forwards at h
  dsimp only at h
  split at h
  · cases h
  · rename_i hst
    rw [Bool.or_eq_true, not_or, Bool.not_eq_true, decide_eq_true_eq, ne_eq, not_not] at hst
    split at h
    · rename_i hput
      exact ⟨hst.1, hst.2, passes_of_putCAS hput, (Option.some.inj h).symm⟩
    · cases h

theorem forwards_of_put_ok (hst : (kv.shardOf hash args.key).state = .migrating)
    (h : (kv.doPut hash net clock args).2.err = .ok) :
    kv.forwards hash clock (.put args) =
        some (.put ⟨args.key, args.value, args.version, 0⟩) ∧ net.forward = true := by
  have halive : kv.dead = false := by
    cases hdead : kv.dead with
    | false => rfl
    | true => simp [doPut, hdead] at h
  revert h
  apply doPut_cases fun r => r.2.err = .ok → kv.forwards hash clock (.put args) =
    some (.put ⟨args.key, args.value, args.version, 0⟩) ∧ net.forward = true
  · exact fun _ hne _ _ _ hok => absurd hok hne
  · exact fun _ hpas hfor _ => ⟨forwards_put halive hst hpas, hfor hst⟩
  · exact nofun
  · exact nofun

theorem doDelete_ok (h : (kv.doDelete hash net now key).2.err = .ok) :
    (kv.doDelete hash net now key).1 = { kv with store := kv.store.delete key } := by
  revert h
  apply doDelete_cases fun r => r.2.err = .ok → r.1 = { kv with store := kv.store.delete key }
  · exact fun _ hne _ hok => absurd hok hne
  · exact fun _ _ _ _ _ _ => rfl
  · exact fun _ _ _ _ _ _ hgrp hok => by cases hgrp.symm.trans hok

theorem doDelete_noKey (h : (kv.doDelete hash net now key).2.err = .noKey) :
    (kv.doDelete hash net now key).1 = kv ∧
      ∀ e, kv.store.get key = .ok (some e) → isExpired e.expires now = true := by
  revert h
  apply doDelete_cases fun r => r.2.err = .noKey → r.1 = kv ∧
    ∀ e, kv.store.get key = .ok (some e) → isExpired e.expires now = true
  · exact fun _ _ hnone hnoKey =>
      ⟨rfl, fun e he => live?_eq_none.mp (hnone hnoKey _ he) e rfl⟩
  · exact nofun
  · exact fun _ _ _ _ _ _ hgrp hnoKey => by cases hgrp.symm.trans hnoKey

theorem forwards_of_delete_ok (hst : (kv.shardOf hash key).state = .migrating)
    (h : (kv.doDelete hash net clock.now key).2.err = .ok) :
    kv.forwards hash clock (.delete key) = some (.delete key) ∧ net.forward = true := by
  have halive : kv.dead = false := by
    cases hdead : kv.dead with
    | false => rfl
    | true => simp [doDelete, hdead] at h
  revert h
  apply doDelete_cases fun r => r.2.err = .ok →
    kv.forwards hash clock (.delete key) = some (.delete key) ∧ net.forward = true
  · exact fun _ hne _ hok => absurd hok hne
  · exact fun _ _ hget hlive hfor _ =>
      ⟨by simp [forwards, halive, hst, hget, hlive], hfor hst⟩
  · exact fun _ _ _ _ _ _ hgrp hok => by cases hgrp.symm.trans hok

def readAt (kv : KVServer) (t : Int64) (key : String) : Except StoreError (Option KVEntry) :=
  (kv.store.get key).map (live? · t)

structure ReadsAlike (now : Int64) (kv' kv : KVServer) : Prop where
  dead : kv'.dead = kv.dead
  shardMgr : kv'.shardMgr = kv.shardMgr
  readAt : ∀ t, now ≤ t → ∀ key, kv'.readAt t key = kv.readAt t key

theorem ReadsAlike.refl (now : Int64) (kv : KVServer) : ReadsAlike now kv kv :=
  ⟨rfl, rfl, fun _ _ _ => rfl⟩

theorem doGet_eq (kv : KVServer) (t : Int64) (key : String) :
    kv.doGet hash t key =
      if kv.dead then { err := .wrongLeader }
      else if (kv.shardOf hash key).state = .absent then
        { err := .wrongGroup, hint := kv.wrongGroupHint (kv.shardOf hash key) }
      else
        match kv.readAt t key with
        | .error _ => { err := .wrongLeader }
        | .ok none => { err := .noKey }
        | .ok (some entry) =>
          { value := entry.value, version := entry.version.toInt64
            expires := entry.expires, err := .ok } := by
  unfold doGet readAt
  cases kv.store.get key with
  | error e => rfl
  | ok found =>
    cases found with
    | none => rfl
    | some e =>
      simp only [Except.map, live?_some]
      cases isExpired e.expires t <;> rfl

theorem ReadsAlike.doGet_eq_doGet (h : ReadsAlike now kv' kv) {t : Int64} (ht : now ≤ t)
    (key : String) : kv'.doGet hash t key = kv.doGet hash t key := by
  have hsh : kv'.shardOf hash key = kv.shardOf hash key := by
    rw [shardOf, shardOf, h.shardMgr]
  have hhint : kv'.wrongGroupHint = kv.wrongGroupHint := by
    funext shard
    rw [wrongGroupHint, wrongGroupHint, h.shardMgr]
  rw [doGet_eq, doGet_eq, h.readAt t ht key, h.dead, hsh, hhint]

theorem isExpired_mono {expires t : Int64} (hle : now ≤ t) (h : isExpired expires now = true) :
    isExpired expires t = true := by
  simp only [isExpired, Bool.and_eq_true, decide_eq_true_eq] at h ⊢
  exact ⟨h.1, Int64.le_trans h.2 hle⟩

theorem live?_live? {t : Int64} (ht : now ≤ t) (found : Option KVEntry) :
    live? (live? found now) t = live? found t := by
  cases found with
  | none => rfl
  | some e =>
    rw [live?_some]
    split
    · rename_i hexp
      rw [live?_some, if_pos (isExpired_mono ht hexp)]
      rfl
    · rfl

theorem readsAlike_takenBack {found : Option KVEntry} (hget : kv.store.get key = .ok found) :
    ReadsAlike now (kv.takenBack key found now) kv := by
  refine ⟨rfl, rfl, fun t ht k => ?_⟩
  by_cases hk : key = k
  · subst hk
    have hplan : (kv.takenBack key found now).store.get key = .ok (live? found now) := by
      rw [takenBack, Store.get, Store.getElem?_place, if_pos rfl]
      cases live? found now <;> rfl
    rw [KVServer.readAt, KVServer.readAt, hplan, hget, Except.map, Except.map, live?_live? ht]
  · have hsame : (kv.takenBack key found now).store[k]? = kv.store[k]? := by
      rw [takenBack, Store.getElem?_place, if_neg hk]
    simp only [KVServer.readAt, Store.get, hsame]

theorem readsAlike_doPutWithForward (hok : (kv.doPutWithForward net clock args).2.err ≠ .ok)
    (hmaybe : (kv.doPutWithForward net clock args).2.err ≠ .maybe) :
    ReadsAlike clock.now (kv.doPutWithForward net clock args).1 kv := by
  revert hok hmaybe
  apply doPutWithForward_cases fun r => r.2.err ≠ .ok → r.2.err ≠ .maybe →
    ReadsAlike clock.now r.1 kv
  · exact fun _ _ _ _ _ => .refl _ _
  · exact fun _ _ _ hok => absurd rfl hok
  · exact fun _ _ _ _ hmaybe => absurd rfl hmaybe
  · exact fun _ hget _ _ _ _ => readsAlike_takenBack hget

theorem readsAlike_doDeleteWithForward {shard : ShardMeta}
    (hok : (kv.doDeleteWithForward net now key shard).2.err ≠ .ok) :
    ReadsAlike now (kv.doDeleteWithForward net now key shard).1 kv := by
  revert hok
  apply doDeleteWithForward_cases fun r => r.2.err ≠ .ok → ReadsAlike now r.1 kv
  · exact fun _ _ _ => .refl _ _
  · exact fun _ _ _ _ _ hok => absurd rfl hok
  · exact fun _ _ _ hget _ _ _ _ => readsAlike_takenBack hget

/-- A dual write that is refused leaves every key reading as before: what is put back
is the entry that was live when the command began, and an entry that had expired by
then stays unreadable. -/
theorem refused_dual_write_unseen (hash : String → UInt64) (kv : KVServer) (net : Net)
    (clock : Clock) :
    (∀ args : PutArgs, (kv.doPutWithForward net clock args).2.err ≠ .ok →
      (kv.doPutWithForward net clock args).2.err ≠ .maybe → ∀ t, clock.now ≤ t → ∀ key,
      (kv.doPutWithForward net clock args).1.readAt t key = kv.readAt t key ∧
        (kv.doPutWithForward net clock args).1.doGet hash t key = kv.doGet hash t key) ∧
    ∀ (deleted : String) (shard : ShardMeta),
      (kv.doDeleteWithForward net clock.now deleted shard).2.err ≠ .ok →
      (kv.doDeleteWithForward net clock.now deleted shard).2.err ≠ .maybe →
      ∀ t, clock.now ≤ t → ∀ key,
      (kv.doDeleteWithForward net clock.now deleted shard).1.readAt t key = kv.readAt t key ∧
        (kv.doDeleteWithForward net clock.now deleted shard).1.doGet hash t key =
          kv.doGet hash t key := by
  constructor
  · intro args hok hmaybe t ht key
    have halike := readsAlike_doPutWithForward hok hmaybe
    exact ⟨halike.readAt t ht key, halike.doGet_eq_doGet ht key⟩
  · intro deleted shard hok _ t ht key
    have halike := readsAlike_doDeleteWithForward hok
    exact ⟨halike.readAt t ht key, halike.doGet_eq_doGet ht key⟩

theorem refused_dual_write_unseen_sample :
    let kv := newKVServer 1 (((∅ : Store).insert "old" (.entry ⟨"a", 3, 5⟩)).insert "new"
      (.entry ⟨"b", 2, 0⟩))
    let hash : String → UInt64 := fun _ => 0
    (kv.doPutWithForward .offline ⟨7, 8⟩ ⟨"old", "c", 0, 0⟩).1.doGet hash 9 "old" =
        kv.doGet hash 9 "old" ∧
      (kv.doDeleteWithForward .offline 7 "new" { state := .migrating }).1.doGet hash 9 "new" =
        kv.doGet hash 9 "new" := by
  intro kv hash
  have hwr := refused_dual_write_unseen hash kv .offline ⟨7, 8⟩
  exact ⟨(hwr.1 ⟨"old", "c", 0, 0⟩ (by decide +kernel) (by decide +kernel) 9 (by decide)
      "old").2,
    (hwr.2 "new" { state := .migrating } (by decide +kernel) (by decide +kernel) 9
      (by decide) "new").2⟩

end

end KVServer

end OrbisKV.KV
