import OrbisKV.KV.PlainKey
/-!
# Dual writes by several replicas

Every replica of the source group applies the log by itself and sends each put and
delete on to the target group while it applies it.
-/

namespace OrbisKV.KV

open Std Function KVServer Lib.System Option

/-- The replicas of a source group and the target group, with how far each replica has
applied the log, what it answered to each entry, and how often the target group has
applied an entry. -/
structure Replicas (r : Nat) where
  replica : Fin r → KVServer
  applied : Fin r → Nat
  target : KVServer
  answers : Fin r → Nat → Option Reply
  writes : Nat → Nat

structure Turn (r : Nat) where
  id : Fin r
  net : Net
  clock : Clock
  targetNet : Net
  targetClock : Clock

namespace KVServer

variable (hash : String → UInt64)

def Admits (kv : KVServer) (now : Int64) (args : PutArgs) : Prop :=
  match kv.store.get args.key with
  | .error _ => False
  | .ok found => (live? found now).elim 0 KVEntry.version = args.version.toUInt64

instance (kv : KVServer) (now : Int64) (args : PutArgs) : Decidable (kv.Admits now args) := by
  unfold Admits
  split <;> infer_instance

def takes (kv : KVServer) (net : Net) (clock : Clock) (fwd : Option Request) : Bool :=
  (fwd.bind (kv.doOp hash net clock)).any fun r => acknowledged r.2

end KVServer

namespace Replicas

variable {r : Nat} (hash : String → UInt64) (log : List Request)

def step (s : Replicas r) (a : Turn r) : Option (Replicas r) :=
  let n := s.applied a.id
  let kv := s.replica a.id
  (log[n]?).bind fun req =>
    (kv.dualApply hash s.target ⟨req, a.net, a.clock⟩
      ⟨.answered, a.targetNet, a.targetClock⟩).map fun out =>
      { replica := update s.replica a.id out.1
        applied := update s.applied a.id (n + 1)
        target := out.2.1
        answers := update s.answers a.id (update (s.answers a.id) n (some out.2.2))
        writes :=
          if s.target.takes hash a.targetNet a.targetClock (kv.forwards hash a.clock req) then
            update s.writes n (s.writes n + 1)
          else s.writes }

def system (r : Nat) : Lib.System (Replicas r) (Turn r) where
  init s := ∃ kv : KVServer, (∀ i, s.replica i = kv) ∧ (∀ i, s.applied i = 0) ∧
    (∀ i n, s.answers i n = none) ∧ (∀ n, s.writes n = 0) ∧
    ∀ req ∈ log, ∃ key, req.key? = some key ∧ (kv.shardOf hash key).state = .migrating
  step := step hash log

/-- Only a single replica puts, the target group is ready for the first forward of an
entry, and several replicas delete entries without expiry only. -/
def single (s : Replicas r) (a : Turn r) : Prop :=
  match log[s.applied a.id]? with
  | some (.put args) => (s.replica a.id).Admits a.clock.casNow args →
      r = 1 ∧ s.target.dead = false ∧ s.target.Serves hash args.key ∧
        s.target.Admits a.targetClock.casNow args
  | some (.delete key) => (r = 1 ∨ (s.replica a.id).Plain key) ∧ s.target.dead = false ∧
      s.target.Serves hash key ∧
      ((s.replica a.id).Live key a.clock.now → (∀ j, s.applied j ≤ s.applied a.id) →
        s.target.Live key a.targetClock.now)
  | _ => True

instance (s : Replicas r) (a : Turn r) : Decidable (single hash log s a) := by
  unfold single
  split <;> infer_instance

end Replicas

namespace KVServer

variable {hash : String → UInt64} {kv kv' : KVServer} {net : Net} {clock : Clock}
  {key : String} {now : Int64} {args : PutArgs}

theorem admits_iff :
    kv.Admits clock.casNow args ↔ ∃ store old, kv.putCAS clock args = .ok (store, old, .ok) := by
  rw [putCAS_eq]
  unfold Admits
  cases kv.store.get args.key with
  | error e => simp
  | ok found =>
    dsimp only
    cases live? found clock.casNow with
    | none =>
      by_cases hzero : args.version.toUInt64 = 0
      · simp [hzero]
      · simp [hzero, Ne.symm hzero]
    | some e =>
      by_cases hsame : e.version = args.version.toUInt64
      · simp [hsame]
      · simp [hsame]

theorem Serves.ne_absent (h : kv.Serves hash key) : (kv.shardOf hash key).state ≠ .absent :=
  fun habsent => not_serves_of_absent habsent h

theorem Serves.ne_migrating (h : kv.Serves hash key) : (kv.shardOf hash key).state ≠ .migrating :=
  fun hmig => not_serves_of_migrating hmig h

theorem doPut_of_admits (halive : kv.dead = false) (hser : kv.Serves hash args.key)
    (hadm : kv.Admits clock.casNow args) : (kv.doPut hash net clock args).2.err = .ok := by
  obtain ⟨store, old, hput⟩ := admits_iff.mp hadm
  rw [doPut_eq_local hash halive hser.ne_absent hser.ne_migrating, doPutLocal, hput]

theorem doDelete_of_live (halive : kv.dead = false) (hser : kv.Serves hash key)
    (hlive : kv.Live key now) : (kv.doDelete hash net now key).2.err = .ok := by
  obtain ⟨e, hget, hexp⟩ := hlive
  rw [doDelete_eq_local hash halive hser.ne_absent hser.ne_migrating, doDeleteLocal, hget]
  dsimp only
  rw [live?_some, hexp]
  rfl

theorem doDelete_of_none (halive : kv.dead = false) (hser : kv.Serves hash key)
    (hnone : kv.store[key]? = none) : kv.doDelete hash net now key = (kv, { err := .noKey }) := by
  rw [doDelete_eq_local hash halive hser.ne_absent hser.ne_migrating, doDeleteLocal,
    Store.get, hnone]
  rfl

theorem of_not_admits (net : Net) (hst : (kv.shardOf hash args.key).state = .migrating)
    (h : ¬kv.Admits clock.casNow args) :
    kv.forwards hash clock (.put args) = none ∧
      (kv.doPut hash net clock args).1 = kv ∧ (kv.doPut hash net clock args).2.err ≠ .ok := by
  have hput : ∀ store old, kv.putCAS clock args ≠ .ok (store, old, .ok) :=
    fun store old hok => h (admits_iff.mpr ⟨store, old, hok⟩)
  have hnone : kv.forwards hash clock (.put args) = none := by
    cases hfwd : kv.forwards hash clock (.put args) with
    | none => rfl
    | some fwd =>
      obtain ⟨-, ⟨store, old, hok⟩, -⟩ := of_forwards_put net hfwd
      exact absurd hok (hput store old)
  refine ⟨hnone, ?_⟩
  unfold doPut
  split
  · exact ⟨rfl, by simp⟩
  · dsimp only
    rw [hst]
    dsimp only
    unfold doPutWithForward
    split
    · exact ⟨rfl, by simp⟩
    · split
      · exact ⟨rfl, by simp⟩
      · exact ⟨rfl, by simp⟩
      · exact ⟨rfl, by simp⟩
      · rename_i hok
        exact absurd hok (hput _ _)

theorem live_of_forwards {fwd : Request} (h : kv.forwards hash clock (.delete key) = some fwd) :
    kv.dead = false ∧ kv.Live key clock.now := by
  unfold forwards at h
  dsimp only at h
  split_ifs at h with hst
  rw [Bool.or_eq_true, not_or, Bool.not_eq_true] at hst
  refine ⟨hst.1, ?_⟩
  split at h
  · cases h
  · rename_i found hget
    obtain ⟨e, hlive, -⟩ := map_eq_some_iff.mp h
    cases found with
    | none => cases hlive
    | some f =>
      refine ⟨f, hget, ?_⟩
      rw [live?_some] at hlive
      split_ifs at hlive with hexp
      exact Bool.eq_false_iff.mpr hexp

section

variable {target target' : KVServer} {input : Input} {x : Exchange} {reply : Reply}

theorem takes_of_put {args : PutArgs}
    (hdual : kv.dualApply hash target ⟨.put args, net, clock⟩ x = some (kv', target', reply))
    (hst : (kv.shardOf hash args.key).state = .migrating)
    (hrdy : kv.Admits clock.casNow args → target.dead = false ∧
      target.Serves hash args.key ∧ target.Admits x.clock.casNow args)
    (hack : acknowledged reply = true) :
    target.takes hash x.net x.clock (kv.forwards hash clock (.put args)) = true := by
  obtain ⟨forward, hop, -⟩ := of_dualApply hdual
  obtain ⟨rfl, rfl⟩ := of_doOp_put hop
  obtain ⟨hfwd, -⟩ := forwards_of_put_ok hst (of_decide_eq_true hack)
  obtain ⟨-, hput, -⟩ := of_forwards_put net hfwd
  obtain ⟨halive, hser, hadm⟩ := hrdy (admits_iff.mpr hput)
  rw [hfwd]
  exact decide_eq_true (doPut_of_admits halive hser hadm)

theorem takes_of_delete
    (hdual : kv.dualApply hash target ⟨.delete key, net, clock⟩ x = some (kv', target', reply))
    (hst : (kv.shardOf hash key).state = .migrating) (halive : target.dead = false)
    (hser : target.Serves hash key) (hrdy : kv.Live key clock.now → target.Live key x.clock.now)
    (hack : acknowledged reply = true) :
    target.takes hash x.net x.clock (kv.forwards hash clock (.delete key)) = true := by
  obtain ⟨forward, hop, -⟩ := of_dualApply hdual
  obtain ⟨rfl, rfl⟩ := of_doOp_delete hop
  obtain ⟨hfwd, -⟩ := forwards_of_delete_ok hst (of_decide_eq_true hack)
  have hlive := hrdy (live_of_forwards hfwd).2
  rw [hfwd]
  exact decide_eq_true (doDelete_of_live halive hser hlive)

theorem dual_keeps_shards {k : String}
    (hdual : kv.dualApply hash target input x = some (kv', target', reply))
    (hkey : input.request.key? = some k) : kv'.shardMgr = kv.shardMgr := by
  obtain ⟨forward, hop, -⟩ := of_dualApply hdual
  exact (wrote_of_key hkey hop).shardMgr

theorem dual_delete_erases
    (hdual : kv.dualApply hash target ⟨.delete key, net, clock⟩ x = some (kv', target', reply))
    (hanswe : x.delivery = .answered) (hpl : kv.Plain key)
    (hst : (kv.shardOf hash key).state = .migrating) (hdead : kv.dead = false)
    (hsome : kv.store[key]? ≠ none) (halive : target.dead = false) (hser : target.Serves hash key)
    (hrdy : target.Live key x.clock.now ∨ target.store[key]? = none) :
    acknowledged reply = true ∧ kv' = { kv with store := kv.store.erase key } ∧
      target'.store[key]? = none ∧ ∀ k, k ≠ key → target'.store[k]? = target.store[k]? := by
  have hfwd : kv.forwards hash clock (.delete key) = some (.delete key) := by
    obtain ⟨found, hget, hlive, hkey, -⟩ := hpl.get
    cases found with
    | none => exact absurd hkey hsome
    | some e => simp [forwards, hdead, hst, hget, hlive]
  have hgone : forwardAccepted (.delete (target.doDelete hash x.net x.clock.now key).2) = true ∧
      (target.doDelete hash x.net x.clock.now key).1.store[key]? = none := by
    rcases hrdy with hlive | hnone
    · have hok : (target.doDelete hash x.net x.clock.now key).2.err = .ok :=
        doDelete_of_live halive hser hlive
      exact ⟨by simp [forwardAccepted, hok], getElem?_doDelete hok⟩
    · rw [doDelete_of_none halive hser hnone]
      exact ⟨rfl, hnone⟩
  obtain ⟨forward, hop, ⟨hnone, -⟩ | ⟨fwd, hsent, hex⟩⟩ := of_dualApply hdual
  · cases hfwd.symm.trans hnone
  obtain rfl := Option.some.inj (hfwd.symm.trans hsent)
  have hpair : ((target.doDelete hash x.net x.clock.now key).1, true) = (target', forward) := by
    rw [← hex, exchange, hanswe]
    simp [doOp, hgone.1]
  obtain ⟨rfl, rfl⟩ := Prod.mk.inj hpair
  obtain ⟨rfl, rfl⟩ := of_doOp_delete hop
  have hok := (of_forwards_delete { net with forward := true } hfwd).2.mpr rfl
  exact ⟨decide_eq_true hok, doDelete_ok hok, hgone.2, fun k hk => doDelete_other hk.symm⟩

theorem dual_delete_idle (hst : (kv.shardOf hash key).state = .migrating)
    (hidle : kv.dead = true ∨ kv.store[key]? = none)
    (hdual : kv.dualApply hash target ⟨.delete key, net, clock⟩ x = some (kv', target', reply)) :
    kv' = kv ∧ target' = target := by
  have hnone : kv.forwards hash clock (.delete key) = none := by
    rcases hidle with hdead | hkey
    · simp [forwards, hdead]
    · simp [forwards, Store.get, hkey, live?]
  obtain ⟨forward, hop, ⟨-, rfl⟩ | ⟨fwd, hsent, -⟩⟩ := of_dualApply hdual
  · obtain ⟨rfl, -⟩ := of_doOp_delete hop
    refine ⟨?_, rfl⟩
    unfold doDelete
    rcases hidle with hdead | hkey
    · rw [if_pos hdead]
    · split
      · rfl
      · dsimp only
        rw [hst]
        simp [doDeleteWithForward, Store.get, hkey, live?]
  · cases hnone.symm.trans hsent

end

theorem takes_delete : kv.takes hash net clock (some (.delete key)) =
    decide ((kv.doDelete hash net clock.now key).2.err = .ok) := rfl

end KVServer

namespace Replicas

variable {r : Nat} {hash : String → UInt64} {log : List Request} {s s' : Replicas r} {a : Turn r}
  {kv kv₀ : KVServer}

theorem of_step (h : s.step hash log a = some s') :
    ∃ req kv target reply, log[s.applied a.id]? = some req ∧
      (s.replica a.id).dualApply hash s.target ⟨req, a.net, a.clock⟩
        ⟨.answered, a.targetNet, a.targetClock⟩ = some (kv, target, reply) ∧
      s'.replica = update s.replica a.id kv ∧
      s'.applied = update s.applied a.id (s.applied a.id + 1) ∧ s'.target = target ∧
      s'.answers = update s.answers a.id (update (s.answers a.id) (s.applied a.id) (some reply)) ∧
      s'.writes = (if s.target.takes hash a.targetNet a.targetClock
          ((s.replica a.id).forwards hash a.clock req) then
        update s.writes (s.applied a.id) (s.writes (s.applied a.id) + 1)
        else s.writes) := by
  obtain ⟨req, hreq, h⟩ := bind_eq_some_iff.mp h
  obtain ⟨⟨kv, target, reply⟩, hdual, rfl⟩ := map_eq_some_iff.mp h
  exact ⟨req, kv, target, reply, hreq, hdual, rfl, rfl, rfl, rfl, rfl⟩

variable (hash log) in
structure Once (s : Replicas r) : Prop where
  migrating : ∀ i, ∀ req ∈ log, ∃ key, req.key? = some key ∧
    ((s.replica i).shardOf hash key).state = .migrating
  fresh : ∀ n, (∀ j, s.applied j ≤ n) → s.writes n = 0
  answered : ∀ i n reply, s.answers i n = some reply → n < s.applied i
  acked : ∀ i n reply, s.answers i n = some reply → acknowledged reply = true → s.writes n = 1

variable (hash log) in
def Sound (s : Replicas r) (a : Turn r) : Prop :=
  ∀ req kv target reply, log[s.applied a.id]? = some req →
    (s.replica a.id).dualApply hash s.target ⟨req, a.net, a.clock⟩
      ⟨.answered, a.targetNet, a.targetClock⟩ = some (kv, target, reply) →
    let took := s.target.takes hash a.targetNet a.targetClock
      ((s.replica a.id).forwards hash a.clock req)
    ((∀ j, s.applied j ≤ s.applied a.id) → acknowledged reply = true → took = true) ∧
      ∀ j, s.applied a.id < s.applied j →
        took = false ∧ (acknowledged reply = true → s.writes (s.applied a.id) = 1)

theorem writes_of_ne (hstep : s.step hash log a = some s') {n : Nat}
    (hn : n ≠ s.applied a.id) : s'.writes n = s.writes n := by
  obtain ⟨req, kv, target, reply, -, -, -, -, -, -, hwri⟩ := of_step hstep
  rw [hwri]
  split
  · exact update_of_ne hn _ _
  · rfl

theorem Once.step (h : Once hash log s) (hsound : Sound hash log s a)
    (hstep : s.step hash log a = some s') : Once hash log s' := by
  obtain ⟨req, kv, target, reply, hreq, hdual, hrep, happ, -, hansw, hwri⟩ := of_step hstep
  obtain ⟨hfirst, hlater⟩ := hsound req kv target reply hreq hdual
  have hanswer : ∀ i n reply', s'.answers i n = some reply' →
      (i = a.id ∧ n = s.applied a.id ∧ reply' = reply) ∨ s.answers i n = some reply' := by
    intro i n reply' hans
    rw [hansw] at hans
    by_cases hi : i = a.id
    · subst hi
      rw [update_self] at hans
      by_cases hn : n = s.applied a.id
      · subst hn
        rw [update_self] at hans
        exact Or.inl ⟨rfl, rfl, (Option.some.inj hans).symm⟩
      · rw [update_of_ne hn] at hans
        exact Or.inr hans
    · rw [update_of_ne hi] at hans
      exact Or.inr hans
  have hgrows : ∀ i, s.applied i ≤ s'.applied i := by
    rw [happ]
    exact Lib.forall_update (P := fun i k => s.applied i ≤ k) (Nat.le_succ _)
      fun _ _ => Nat.le_refl _
  refine ⟨fun i q hq => ?_, fun n hn => ?_, fun i n reply' hans => ?_,
    fun i n reply' hans hack => ?_⟩
  · obtain ⟨key, hkey, hst⟩ := h.migrating i q hq
    refine ⟨key, hkey, ?_⟩
    rw [hrep]
    by_cases hi : i = a.id
    · subst hi
      rw [update_self]
      obtain ⟨k, hk, -⟩ := h.migrating a.id req (List.mem_of_getElem? hreq)
      unfold shardOf
      rw [dual_keeps_shards hdual hk]
      exact hst
    · rw [update_of_ne hi]
      exact hst
  · have hself := hn a.id
    rw [happ, update_self] at hself
    rw [writes_of_ne hstep (by omega)]
    exact h.fresh n fun j => (hgrows j).trans (hn j)
  · rcases hanswer i n reply' hans with ⟨rfl, rfl, -⟩ | hold
    · rw [happ, update_self]
      omega
    · exact (h.answered i n reply' hold).trans_le (hgrows i)
  · rcases hanswer i n reply' hans with ⟨rfl, rfl, rfl⟩ | hold
    · by_cases hall : ∀ j, s.applied j ≤ s.applied a.id
      · rw [hwri, if_pos (hfirst hall hack), update_self, h.fresh _ hall]
      · obtain ⟨j, hj⟩ := not_forall.mp hall
        obtain ⟨htook, hone⟩ := hlater j (Nat.lt_of_not_le hj)
        rw [hwri, htook]
        exact hone hack
    · have hone := h.acked i n reply' hold hack
      by_cases hn : n = s.applied a.id
      · subst hn
        rw [hwri, (hlater i (h.answered i _ reply' hold)).1]
        exact hone
      · rw [writes_of_ne hstep hn]
        exact hone

section Turn

variable {req : Request} {kv target : KVServer} {reply : Reply}
  (hreq : log[s.applied a.id]? = some req)
  (hdual : (s.replica a.id).dualApply hash s.target ⟨req, a.net, a.clock⟩
  ⟨.answered, a.targetNet, a.targetClock⟩ = some (kv, target, reply))

include hreq in
theorem Once.state (h : Once hash log s) (i : Fin r) :
    ∃ key, req.key? = some key ∧ ((s.replica i).shardOf hash key).state = .migrating :=
  h.migrating i req (List.mem_of_getElem? hreq)

include hreq hdual

theorem Once.first (h : Once hash log s) (hok : single hash log s a)
    (hall : ∀ j, s.applied j ≤ s.applied a.id) (hack : acknowledged reply = true) :
    s.target.takes hash a.targetNet a.targetClock
      ((s.replica a.id).forwards hash a.clock req) = true := by
  obtain ⟨key, hkey, hst⟩ := h.state hreq a.id
  rw [single, hreq] at hok
  cases req with
  | put args =>
    cases hkey
    have htaken := takes_of_put hdual hst (fun hadm => (hok hadm).2) hack
    exact htaken
  | delete k =>
    cases hkey
    obtain ⟨-, halive, hser, hrdy⟩ := hok
    have htaken := takes_of_delete hdual hst halive hser (fun hlive => hrdy hlive hall) hack
    exact htaken
  | _ => cases hkey

end Turn

theorem Once.sound_alone (hr : r = 1) (h : Once hash log s) (hok : single hash log s a) :
    Sound hash log s a := by
  intro req kv target reply hreq hdual
  refine ⟨h.first hreq hdual hok, fun j hj => ?_⟩
  have hsame : j = a.id := Fin.ext (by omega)
  rw [hsame] at hj
  exact absurd hj (Nat.lt_irrefl _)

def settle (kv : KVServer) : Request → KVServer
  | .delete key => if kv.dead then kv else { kv with store := kv.store.erase key }
  | _ => kv

theorem settle_of_none {key : String} (h : kv.store[key]? = none) :
    settle kv (.delete key) = kv := by
  have hsame : kv.store.erase key = kv.store := by
    apply ExtTreeMap.ext_getElem?
    intro k
    rw [Store.getElem?_erase]
    split
    · rename_i hk
      rw [← hk, h]
    · rfl
  unfold settle
  dsimp only
  rw [hsame]
  split <;> rfl

def settled (log : List Request) (kv : KVServer) (n : Nat) : KVServer :=
  (log.take n).foldl settle kv

theorem settled_succ {n : Nat} {req : Request} (h : log[n]? = some req) :
    settled log kv (n + 1) = settle (settled log kv n) req := by
  rw [settled, List.take_add_one, h, List.foldl_append]
  rfl

variable (log) in
structure Several (kv : KVServer) (s : Replicas r) : Prop where
  replica : ∀ i, s.replica i = settled log kv (s.applied i)
  gone : ∀ j n key, n < s.applied j → log[n]? = some (.delete key) →
    (settled log kv n).dead = false → (settled log kv n).store[key]? ≠ none →
    s.target.store[key]? = none ∧ s.writes n = 1

theorem Several.live (h : Several log kv₀ s) {key : String} {now : Int64}
    (hlive : (s.replica a.id).Live key now) :
    (settled log kv₀ (s.applied a.id)).store[key]? ≠ none := by
  obtain ⟨e, hget, -⟩ := hlive
  rw [h.replica] at hget
  intro hnone
  rw [Store.get, hnone] at hget
  cases hget

section

variable (hr : r ≠ 1) (h : Once hash log s) (hs : Several log kv₀ s) (hok : single hash log s a)

include hr h hs hok

theorem Several.sound : Sound hash log s a := by
  intro req kv target reply hreq hdual
  refine ⟨h.first hreq hdual hok, fun j hj => ?_⟩
  obtain ⟨key, hkey, hst⟩ := h.state hreq a.id
  rw [single, hreq] at hok
  obtain ⟨forward, hop, -⟩ := of_dualApply hdual
  cases req with
  | put args =>
    cases hkey
    obtain ⟨hnone, -, href⟩ := of_not_admits { a.net with forward := forward }
      hst fun hadm => hr (hok hadm).1
    obtain ⟨-, rfl⟩ := of_doOp_put hop
    rw [hnone]
    exact ⟨rfl, fun hack => absurd (of_decide_eq_true hack) href⟩
  | delete k =>
    cases hkey
    obtain ⟨-, halive, hser, -⟩ := hok
    have hgone : ∀ fwd, (s.replica a.id).forwards hash a.clock (.delete key) = some fwd →
        s.target.store[key]? = none ∧ s.writes (s.applied a.id) = 1 := by
      intro fwd hfwd
      obtain ⟨hdead, hlive⟩ := live_of_forwards hfwd
      exact hs.gone j _ key hj hreq (hs.replica a.id ▸ hdead) (hs.live hlive)
    refine ⟨?_, fun hack => ?_⟩
    · cases hfwd : (s.replica a.id).forwards hash a.clock (.delete key) with
      | none => rfl
      | some fwd =>
        obtain ⟨rfl, -⟩ := of_forwards_delete a.net hfwd
        rw [takes_delete, doDelete_of_none halive hser (hgone _ hfwd).1]
        rfl
    · obtain ⟨-, rfl⟩ := of_doOp_delete hop
      obtain ⟨hfwd, -⟩ := forwards_of_delete_ok hst (of_decide_eq_true hack)
      exact (hgone _ hfwd).2
  | _ => cases hkey

theorem Several.turn {req : Request} {target : KVServer} {reply : Reply}
    (hreq : log[s.applied a.id]? = some req)
    (hdual : (s.replica a.id).dualApply hash s.target ⟨req, a.net, a.clock⟩
      ⟨.answered, a.targetNet, a.targetClock⟩ = some (kv, target, reply)) :
    kv = settle (s.replica a.id) req ∧
      (∀ k : String, s.target.store[k]? = none → target.store[k]? = none) ∧
      ∀ key, req = .delete key → (s.replica a.id).dead = false →
        (s.replica a.id).store[key]? ≠ none →
        target.store[key]? = none ∧ acknowledged reply = true := by
  obtain ⟨key, hkey, hst⟩ := h.state hreq a.id
  rw [single, hreq] at hok
  cases req with
  | put args =>
    cases hkey
    obtain ⟨forward, hop, hfwd⟩ := of_dualApply hdual
    obtain ⟨hnone, hsame, -⟩ := of_not_admits { a.net with forward := forward }
      hst fun hadm => hr (hok hadm).1
    obtain ⟨rfl, -⟩ := of_doOp_put hop
    rcases hfwd with ⟨-, rfl⟩ | ⟨fwd, hsent, -⟩
    · exact ⟨hsame, fun _ hk => hk, nofun⟩
    · exact absurd (hnone.symm.trans hsent) nofun
  | delete k =>
    cases hkey
    obtain ⟨hpl, halive, hser, hrdy⟩ := hok
    have hpl := hpl.resolve_left hr
    by_cases hidle : (s.replica a.id).dead = true ∨ (s.replica a.id).store[key]? = none
    · obtain ⟨rfl, rfl⟩ := dual_delete_idle hst hidle hdual
      refine ⟨?_, fun _ hk => hk, ?_⟩
      · rcases hidle with hdead | hnone
        · simp [settle, hdead]
        · exact (settle_of_none hnone).symm
      · rintro _ ⟨⟩ hdead hsome
        rcases hidle with hclo | hnone
        · exact absurd (hdead.symm.trans hclo) nofun
        · exact absurd hnone hsome
    · rw [not_or, Bool.not_eq_true] at hidle
      have hfound : s.target.Live key a.targetClock.now ∨ s.target.store[key]? = none := by
        by_cases hall : ∀ j, s.applied j ≤ s.applied a.id
        · exact Or.inl (hrdy (hpl.live hidle.2) hall)
        · obtain ⟨j, hj⟩ := not_forall.mp hall
          refine Or.inr (hs.gone j _ key (Nat.lt_of_not_le hj) hreq ?_ ?_).1
          · exact hs.replica a.id ▸ hidle.1
          · exact hs.replica a.id ▸ hidle.2
      obtain ⟨hack, rfl, hnone, hother⟩ := dual_delete_erases hdual rfl hpl
        hst hidle.1 hidle.2 halive hser hfound
      refine ⟨?_, fun k hk => ?_, ?_⟩
      · simp [settle, hidle.1]
      · by_cases heq : k = key
        · rw [heq, hnone]
        · rw [hother k heq, hk]
      · rintro _ ⟨⟩ _ _
        exact ⟨hnone, hack⟩
  | _ => cases hkey

theorem Several.step (hstep : s.step hash log a = some s') : Several log kv₀ s' := by
  have h' := h.step (hs.sound hr h hok) hstep
  obtain ⟨req, kv, target, reply, hreq, hdual, hrep, happ, htarget, hansw, hwri⟩ := of_step hstep
  obtain ⟨hkv, hkeeps, hgone⟩ := hs.turn hr h hok hreq hdual
  refine ⟨fun i => ?_, fun j n key hn hent hdead hsome => ?_⟩
  · rw [hrep, happ]
    by_cases hi : i = a.id
    · subst hi
      rw [update_self, update_self, settled_succ hreq, ← hs.replica, hkv]
    · rw [update_of_ne hi, update_of_ne hi]
      exact hs.replica i
  · by_cases hnow : n = s.applied a.id
    · subst hnow
      rw [← hs.replica] at hdead hsome
      obtain ⟨hnone, hack⟩ := hgone key (Option.some.inj (hreq.symm.trans hent)) hdead hsome
      refine ⟨htarget ▸ hnone, h'.acked a.id _ reply ?_ hack⟩
      rw [hansw, update_self, update_self]
    · have hbef : ∃ j, n < s.applied j := by
        rw [happ] at hn
        by_cases hj : j = a.id
        · subst hj
          rw [update_self] at hn
          exact ⟨a.id, by omega⟩
        · rw [update_of_ne hj] at hn
          exact ⟨j, hn⟩
      obtain ⟨j', hj'⟩ := hbef
      obtain ⟨hnone, hone⟩ := hs.gone j' n key hj' hent hdead hsome
      rw [htarget, writes_of_ne hstep hnow]
      exact ⟨hkeeps key hnone, hone⟩

end

/-- Replicas that are equally far hold the same entries, and the target has applied
every acknowledged entry once. -/
theorem dual_writes_agree (hash : String → UInt64) (log : List Request) (r : Nat)
    (s : Replicas r) (hs : (system hash log r).Reachable (single hash log) s) :
    (∀ i j, s.applied i = s.applied j → ∀ key : String,
        (s.replica i).store[key]? = (s.replica j).store[key]?) ∧
      ∀ i n reply, s.answers i n = some reply → acknowledged reply = true → s.writes n = 1 := by
  obtain ⟨s₀, ⟨kv, hrep, happ, hansw, hwri, hlog⟩, hrun⟩ := hs
  have honce : Once hash log s₀ := by
    refine ⟨fun i req hreq => ?_, fun n _ => hwri n, fun i n reply h => ?_, fun i n reply h _ => ?_⟩
    · rw [hrep i]
      exact hlog req hreq
    · rw [hansw] at h
      cases h
    · rw [hansw] at h
      cases h
  by_cases hr : r = 1
  · have hend := hrun.preserves (I := Once hash log)
      (fun s a t h hok hstep => h.step (h.sound_alone hr hok) hstep) honce
    refine ⟨fun i j _ key => ?_, hend.acked⟩
    rw [show i = j from Fin.ext (by omega)]
  · have hsev : Several log kv s₀ := by
      refine ⟨fun i => ?_, fun j n key hn => ?_⟩
      · rw [hrep i, happ i]
        rfl
      · rw [happ j] at hn
        exact absurd hn (Nat.not_lt_zero n)
    obtain ⟨hend, hsame⟩ := hrun.preserves (I := fun s => Once hash log s ∧ Several log kv s)
      (fun s a t h hok hstep =>
        ⟨h.1.step (h.2.sound hr h.1 hok) hstep, h.2.step hr h.1 hok hstep⟩) ⟨honce, hsev⟩
    refine ⟨fun i j hij key => ?_, hend.acked⟩
    rw [hsame.replica i, hsame.replica j, hij]

def sampleStart (r : Nat) (source target : Store) : Replicas r :=
  ⟨fun _ => { newKVServer 1 source with shardMgr := ⟨fun _ => ⟨.migrating, 2, ["b"]⟩, 2⟩ },
    fun _ => 0, newKVServer 2 target, fun _ _ => none, fun _ => 0⟩

theorem init_sampleStart {log : List Request} (r : Nat) (source target : Store)
    (hlog : ∀ req ∈ log, req.key?.isSome = true) :
    (system (fun _ => 0) log r).init (sampleStart r source target) := by
  refine ⟨_, fun _ => rfl, fun _ => rfl, fun _ _ => rfl, fun _ => rfl, fun req hreq => ?_⟩
  obtain ⟨key, hkey⟩ := isSome_iff_exists.mp (hlog req hreq)
  exact ⟨key, hkey, rfl⟩

def sampleTurn {r : Nat} (i : Fin r) : Turn r := ⟨i, .offline, ⟨0, 0⟩, .offline, ⟨0, 0⟩⟩

theorem dual_writes_agree_sample : ∃ s : Replicas 2,
    (system (fun _ => 0) [.delete "k"] 2).Reachable (single (fun _ => 0) [.delete "k"]) s ∧
      (s.applied 0 = 1 ∧ s.applied 1 = 1 ∧
        s.answers 1 0 = some (.delete { err := .ok, oldValue := "a" })) ∧
      (s.replica 0).store["k"]? = (s.replica 1).store["k"]? ∧ s.writes 0 = 1 := by
  obtain ⟨s, hrun, hfacts⟩ := exists_of_execOk (system (fun _ => 0) [.delete "k"] 2)
    (single (fun _ => 0) [.delete "k"])
    (sampleStart 2 ((∅ : Store).insert "k" (.entry ⟨"a", 1, 0⟩))
      ((∅ : Store).insert "k" (.entry ⟨"a", 1, 0⟩))) [sampleTurn 0, sampleTurn 1]
    (fun s : Replicas 2 => s.applied 0 = 1 ∧ s.applied 1 = 1 ∧
      s.answers 1 0 = some (.delete { err := .ok, oldValue := "a" })) (by decide +kernel)
  have hs : (system (fun _ => 0) [.delete "k"] 2).Reachable (single (fun _ => 0) [.delete "k"]) s :=
    ⟨_, init_sampleStart 2 _ _ (by decide), hrun⟩
  obtain ⟨hsame, honce⟩ := dual_writes_agree (fun _ => 0) [.delete "k"] 2 s hs
  exact ⟨s, hs, hfacts, hsame 0 1 (hfacts.1.trans hfacts.2.1.symm) "k", honce 1 0 _ hfacts.2.2 rfl⟩

theorem dual_put_diverges :
    (∃ s : Replicas 2, (system (fun _ => 0) [.put ⟨"k", "a", 0, 0⟩] 2).Reachable anyStep s ∧
        s.applied 0 = 1 ∧ s.applied 1 = 1 ∧
        (s.replica 0).store["k"]? = some (.entry ⟨"a", 1, 0⟩) ∧
        (s.replica 1).store["k"]? = none) ∧
    ∃ s : Replicas 1, (system (fun _ => 0) [.put ⟨"k", "b", 1, 0⟩] 1).Reachable anyStep s ∧
        s.answers 0 0 = some (.put { err := .ok, oldValue := "a" }) ∧ s.writes 0 = 0 := by
  constructor
  · exact exists_reachable_of_exec (sampleStart 2 ∅ ∅) [sampleTurn 0, sampleTurn 1]
      (init_sampleStart 2 _ _ (by decide)) (by decide +kernel)
  · exact exists_reachable_of_exec
      (sampleStart 1 ((∅ : Store).insert "k" (.entry ⟨"a", 1, 0⟩)) ∅) [sampleTurn 0]
      (init_sampleStart 1 _ _ (by decide)) (by decide +kernel)

end Replicas

end OrbisKV.KV
