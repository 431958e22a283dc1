import OrbisKV.KV.ShardGuard
/-!
# Keys without expiry

Under a key whose entry does not expire the clocks play no part, and a put or delete
that a group takes back leaves what was there.
-/

namespace OrbisKV.KV

open Std

namespace KVServer

variable {hash : String → UInt64} {kv kv' : KVServer} {net : Net} {clock : Clock}
  {key : String} {now : Int64} {e : KVEntry} {args : PutArgs} {fwd : Request}

def Plain (kv : KVServer) (key : String) : Prop :=
  ∀ d, kv.store[key]? = some d → ∃ e, d = .entry e ∧ e.expires ≤ 0

instance (kv : KVServer) (key : String) : Decidable (kv.Plain key) :=
  match h : kv.store[key]? with
  | none => .isTrue <| by simp [Plain, h]
  | some (.entry e) => decidable_of_iff (e.expires ≤ 0) <| by simp [Plain, h]
  | some (.prepare rec) => .isFalse <| by simp [Plain, h]
  | some (.decision rec) => .isFalse <| by simp [Plain, h]
  | some .mark => .isFalse <| by simp [Plain, h]

def value (kv : KVServer) (key : String) : Option String :=
  match kv.store[key]? with
  | some (.entry e) => some e.value
  | _ => none

theorem live?_of_le (h : e.expires ≤ 0) (now : Int64) : live? (some e) now = some e := by
  rw [live?_some, isExpired_of_le h]
  rfl

theorem Plain.congr (h : kv.Plain key) (hsame : kv'.store[key]? = kv.store[key]?) :
    kv'.Plain key := by
  unfold Plain
  rw [hsame]
  exact h

theorem value_congr (hsame : kv'.store[key]? = kv.store[key]?) : kv'.value key = kv.value key := by
  unfold value
  rw [hsame]

theorem plain_of_none (h : kv.store[key]? = none) : kv.Plain key := by
  intro d hd
  rw [h] at hd
  cases hd

theorem plain_of_entry (h : kv.store[key]? = some (.entry e)) (he : e.expires ≤ 0) :
    kv.Plain key := by
  intro d hd
  rw [h] at hd
  cases hd
  exact ⟨e, rfl, he⟩

theorem Plain.get (h : kv.Plain key) :
    ∃ found, kv.store.get key = .ok found ∧ (∀ now, live? found now = found) ∧
      kv.store[key]? = found.map .entry ∧ kv.value key = found.map KVEntry.value := by
  unfold Store.get value
  cases hkey : kv.store[key]? with
  | none => exact ⟨none, rfl, fun _ => rfl, rfl, rfl⟩
  | some d =>
    obtain ⟨e, rfl, he⟩ := h d hkey
    exact ⟨some e, rfl, live?_of_le he, rfl, rfl⟩

theorem Plain.live (h : kv.Plain key) (hsome : kv.store[key]? ≠ none) : kv.Live key now := by
  obtain ⟨d, hd⟩ := Option.ne_none_iff_exists'.mp hsome
  obtain ⟨e, rfl, he⟩ := h d hd
  exact ⟨e, by rw [Store.get, hd]; rfl, isExpired_of_le he now⟩

theorem Plain.doGet_ok (h : kv.Plain key) (hok : (kv.doGet hash now key).err = .ok) :
    kv.value key = some (kv.doGet hash now key).value := by
  obtain ⟨found, hget, -, -, hval⟩ := h.get
  revert hok
  unfold doGet
  dsimp only
  rw [hget, hval]
  split
  · intro hok
    cases hok
  · split
    · intro hok
      cases hok
    · cases found with
      | none =>
        intro hok
        cases hok
      | some e =>
        dsimp only
        split
        · intro hok
          cases hok
        · intro _
          rfl

theorem Plain.takenBack (h : kv.Plain key) {found : Option KVEntry}
    (hget : kv.store.get key = .ok found) (now : Int64) : kv.takenBack key found now = kv := by
  obtain ⟨found', hget', hlive, hkey, -⟩ := h.get
  cases hget.symm.trans hget'
  rw [KVServer.takenBack, hlive now, ← hkey, Store.place_self]

theorem putCAS_version {store : Store} {old : String} {found : Option KVEntry}
    (hget : kv.store.get args.key = .ok found) (hlive : live? found clock.casNow = found)
    (h : kv.putCAS clock args = .ok (store, old, .ok)) :
    (written clock args).version = found.elim 1 fun f => f.version + 1 := by
  rw [putCAS_eq, hget] at h
  dsimp only at h
  rw [hlive] at h
  cases found with
  | none =>
    dsimp only at h
    split at h
    · cases h
    · rename_i hzero
      rw [ne_eq, not_not] at hzero
      simp [written, hzero]
  | some f =>
    dsimp only at h
    split at h
    · cases h
    · rename_i hsame
      rw [ne_eq, not_not] at hsame
      simp [written, hsame]

section

variable (h : kv.Plain args.key) (hwrap : args.version.toUInt64 + 1 ≠ 0)

include h hwrap

theorem Plain.not_stuck
    (hpas : kv.Passes clock args) : ¬kv.Stuck clock args := by
  rintro ⟨found, e, hget, hstuck⟩
  obtain ⟨old, hput⟩ := hpas
  obtain ⟨found', hget', hlive, -, -⟩ := h.get
  cases hget.symm.trans hget'
  have hver := putCAS_version hget (hlive _) hput
  have hne : (written clock args).version ≠ 0 := hwrap
  rw [hlive, ← hver] at hstuck
  simp [Store.rollbackCASMutation, afterPut, hne, Document.toKV?] at hstuck

theorem Plain.doPut_refused
    (href : (kv.doPut hash net clock args).2.err ≠ .ok) :
    (kv.doPut hash net clock args).1 = kv := by
  revert href
  apply doPut_cases fun r => r.2.err ≠ .ok → r.1 = kv
  · exact fun _ _ _ _ _ _ => rfl
  · exact fun _ _ _ hne => absurd rfl hne
  · exact fun hpas hstuck => absurd hstuck (h.not_stuck hwrap hpas)
  · exact fun _ hget _ _ _ => h.takenBack hget clock.now

end

theorem Plain.doPut (h : kv.Plain args.key) (httl : args.ttl ≤ 0) :
    (kv.doPut hash net clock args).1.Plain args.key := by
  have hnew : (kv.afterPut clock args).Plain args.key := by
    refine plain_of_entry ExtTreeMap.getElem?_insert_self ?_
    rw [written, absoluteExpiryFromTTL_of_le httl]
    exact Int64.le_refl 0
  apply doPut_cases fun r => r.1.Plain args.key
  · exact fun _ _ _ _ _ => h
  · exact fun _ _ _ => hnew
  · exact fun _ _ _ => hnew
  · intro found hget _ _
    rw [h.takenBack hget clock.now]
    exact h

theorem value_doPut (hok : (kv.doPut hash net clock args).2.err = .ok) :
    (kv.doPut hash net clock args).1.value args.key = some args.value := by
  rw [doPut_ok hok]
  unfold value
  dsimp only
  rw [ExtTreeMap.getElem?_insert_self]
  rfl

theorem Plain.doDelete_refused (h : kv.Plain key)
    (href : (kv.doDelete hash net now key).2.err ≠ .ok) :
    (kv.doDelete hash net now key).1 = kv := by
  revert href
  apply doDelete_cases fun r => r.2.err ≠ .ok → r.1 = kv
  · exact fun _ _ _ _ => rfl
  · exact fun _ _ _ _ _ hne => absurd rfl hne
  · exact fun _ _ _ hget _ _ _ _ => h.takenBack hget now

theorem getElem?_doDelete (hok : (kv.doDelete hash net now key).2.err = .ok) :
    (kv.doDelete hash net now key).1.store[key]? = none := by
  rw [doDelete_ok hok]
  exact ExtTreeMap.getElem?_erase_self

theorem Plain.doDelete (h : kv.Plain key) : (kv.doDelete hash net now key).1.Plain key := by
  by_cases hok : (kv.doDelete hash net now key).2.err = .ok
  · exact plain_of_none (getElem?_doDelete hok)
  · rw [h.doDelete_refused hok]
    exact h

theorem value_doDelete (hok : (kv.doDelete hash net now key).2.err = .ok) :
    (kv.doDelete hash net now key).1.value key = none := by
  unfold value
  rw [getElem?_doDelete hok]

theorem forwards_of_ne_migrating {req : Request} {k : String} (hkey : req.key? = some k)
    (h : (kv.shardOf hash k).state ≠ .migrating) : kv.forwards hash clock req = none := by
  cases req with
  | put args | delete k' =>
    cases hkey
    simp [forwards, h]
  | _ => rfl

theorem of_forwards_put (net : Net) (h : kv.forwards hash clock (.put args) = some fwd) :
    fwd = .put ⟨args.key, args.value, args.version, 0⟩ ∧
      (∃ store old, kv.putCAS clock args = .ok (store, old, .ok)) ∧
      ((kv.doPut hash net clock args).2.err = .ok ↔ net.forward = true) := by
  obtain ⟨halive, hst, ⟨old, hput⟩, rfl⟩ := of_forwards_put_some h
  refine ⟨rfl, ⟨_, old, hput⟩, ?_⟩
  apply doPut_cases fun r => r.2.err = .ok ↔ net.forward = true
  · intro reply _ _ _ hidle
    rcases hidle with hdead | hother | hpas
    · cases halive.symm.trans hdead
    · exact absurd hst hother
    · exact absurd ⟨old, hput⟩ hpas
  · exact fun _ _ hfor => ⟨fun _ => hfor hst, fun _ => rfl⟩
  · exact fun _ _ hlost => ⟨nofun, fun h => by cases hlost.2.symm.trans h⟩
  · exact fun _ _ _ hlost => ⟨nofun, fun h => by cases hlost.2.symm.trans h⟩

theorem of_forwards_delete (net : Net) (h : kv.forwards hash clock (.delete key) = some fwd) :
    fwd = .delete key ∧
      ((kv.doDelete hash net clock.now key).2.err = .ok ↔ net.forward = true) := by
  unfold forwards at h
  dsimp only at h
  split_ifs at h with hst
  rw [Bool.or_eq_true, not_or, Bool.not_eq_true, decide_eq_true_eq, ne_eq, not_not] at hst
  split at h
  · cases h
  · rename_i found hget
    obtain ⟨old, hlive, rfl⟩ := Option.map_eq_some_iff.mp h
    refine ⟨rfl, ?_⟩
    unfold doDelete doDeleteWithForward
    simp only [hst.1, hst.2, hget, hlive, Bool.false_eq_true, if_false]
    split
    · rename_i hfor
      exact ⟨fun _ => hfor, fun _ => rfl⟩
    · rename_i hfor
      split <;> exact ⟨nofun, fun h => absurd h hfor⟩

theorem of_exchange_false {target target' : KVServer} {x : Exchange}
    (hdel : x.delivery ≠ .unanswered)
    (href : ∀ t reply, target.doOp hash x.net x.clock fwd = some (t, reply) →
      forwardAccepted reply = false → t = target)
    (h : target.exchange hash x fwd = (target', false)) : target' = target := by
  unfold KVServer.exchange at h
  split at h
  · cases h
    rfl
  · rename_i huna
    exact absurd huna hdel
  · rename_i hans
    split at h
    · cases h
      rfl
    · rename_i t reply hop
      obtain ⟨rfl, hnot⟩ := Prod.mk.inj h
      rw [hans] at hnot
      exact href _ reply hop (by simpa using hnot)

section

variable {source target source' target' : KVServer} {x : Exchange} {reply : Reply}

inductive Leaves : Request → String → Option String → Prop
  | put (args : PutArgs) (httl : args.ttl ≤ 0) (hwrap : args.version.toUInt64 + 1 ≠ 0) :
    Leaves (.put args) args.key (some args.value)
  | delete (key : String) : Leaves (.delete key) key none

variable {req : Request} {left : Option String}

theorem Leaves.key? (h : Leaves req key left) : req.key? = some key := by
  cases h <;> rfl

theorem Plain.doOp (h : kv.Plain key) (hreq : Leaves req key left)
    (hop : kv.doOp hash net clock req = some (kv', reply)) : kv'.Plain key ∧
      (acknowledged reply = true ∧ forwardAccepted reply = true ∧ kv'.value key = left ∨
        acknowledged reply = false ∧ kv' = kv) := by
  cases hreq with
  | put args httl hwrap =>
    obtain ⟨rfl, rfl⟩ := of_doOp_put hop
    refine ⟨h.doPut httl, ?_⟩
    by_cases hok : (kv.doPut hash net clock args).2.err = .ok
    · exact Or.inl ⟨decide_eq_true hok, by simp [forwardAccepted, hok], value_doPut hok⟩
    · exact Or.inr ⟨decide_eq_false hok, h.doPut_refused hwrap hok⟩
  | delete =>
    obtain ⟨rfl, rfl⟩ := of_doOp_delete hop
    refine ⟨h.doDelete, ?_⟩
    by_cases hok : (kv.doDelete hash net clock.now key).2.err = .ok
    · exact Or.inl ⟨decide_eq_true hok, by simp [forwardAccepted, hok], value_doDelete hok⟩
    · exact Or.inr ⟨decide_eq_false hok, h.doDelete_refused hok⟩

section

variable (hreq : Leaves req key left)

include hreq

theorem Leaves.forwarded (hop : kv.doOp hash net clock req = some (kv', reply))
    (hfwd : kv.forwards hash clock req = some fwd) :
    Leaves fwd key left ∧ (acknowledged reply = true ↔ net.forward = true) := by
  cases hreq with
  | put args httl hwrap =>
    obtain ⟨rfl, rfl⟩ := of_doOp_put hop
    obtain ⟨rfl, -, hiff⟩ := of_forwards_put net hfwd
    exact ⟨.put ⟨args.key, args.value, args.version, 0⟩ (Int64.le_refl 0) hwrap,
      decide_eq_true_iff.trans hiff⟩
  | delete =>
    obtain ⟨rfl, rfl⟩ := of_doOp_delete hop
    obtain ⟨rfl, hiff⟩ := of_forwards_delete net hfwd
    exact ⟨.delete key, decide_eq_true_iff.trans hiff⟩

theorem Leaves.sent (hst : (kv.shardOf hash key).state = .migrating)
    (hop : kv.doOp hash net clock req = some (kv', reply)) (hack : acknowledged reply = true) :
    ∃ fwd, kv.forwards hash clock req = some fwd ∧ net.forward = true := by
  cases hreq with
  | put args =>
    obtain ⟨rfl, rfl⟩ := of_doOp_put hop
    exact ⟨_, forwards_of_put_ok hst (of_decide_eq_true hack)⟩
  | delete =>
    obtain ⟨rfl, rfl⟩ := of_doOp_delete hop
    exact ⟨_, forwards_of_delete_ok hst (of_decide_eq_true hack)⟩

theorem Leaves.value_forwarded (hs : source.Plain key) (ht : target.Plain key)
    (hsync : source.value key = target.value key) (hfwd : source.forwards hash clock req = some fwd)
    (hdone : target.doOp hash x.net x.clock fwd = some (target', reply))
    (hacc : forwardAccepted reply = true) : target'.value key = left := by
  obtain ⟨found', hget', hlive', -, hval'⟩ := ht.get
  cases hreq with
  | put args =>
    obtain ⟨rfl, ⟨store, old, hput⟩, -⟩ := of_forwards_put x.net hfwd
    obtain ⟨rfl, rfl⟩ := of_doOp_put hdone
    rw [forwardAccepted, Bool.or_eq_true, decide_eq_true_eq, decide_eq_true_eq] at hacc
    refine value_doPut (hacc.resolve_right fun hnoKey => ?_)
    -- the target has no entry, so the source has none and the put names no version
    obtain ⟨hver, hexp⟩ := doPut_noKey hnoKey
    obtain ⟨found, hget, hlive, -, hval⟩ := hs.get
    have hnone' : found' = none := by
      rw [← hlive' x.clock.casNow]
      exact live?_eq_none.mpr fun e he => hexp e (by rw [hget', he])
    subst hnone'
    rw [hval, hval', Option.map_none, Option.map_eq_none_iff] at hsync
    subst hsync
    have hone := putCAS_version hget (hlive _) hput
    apply hver
    simpa [written] using hone
  | delete =>
    obtain ⟨rfl, -⟩ := of_forwards_delete x.net hfwd
    obtain ⟨rfl, rfl⟩ := of_doOp_delete hdone
    rw [forwardAccepted, Bool.or_eq_true, decide_eq_true_eq, decide_eq_true_eq] at hacc
    rcases hacc with hdone | hnoKey
    · exact value_doDelete hdone
    · obtain ⟨hsame, hexp⟩ := doDelete_noKey hnoKey
      have hnone : found' = none := by
        rw [← hlive' x.clock.now]
        exact live?_eq_none.mpr fun e he => hexp e (by rw [hget', he])
      rw [hsame, hval', hnone, Option.map_none]

theorem dual_synced (hs : source.Plain key) (ht : target.Plain key)
    (hdel : x.delivery ≠ .unanswered) (hst : (source.shardOf hash key).state = .migrating)
    (hsync : source.value key = target.value key)
    (h : source.dualApply hash target ⟨req, net, clock⟩ x = some (source', target', reply)) :
    source'.value key = target'.value key := by
  obtain ⟨forward, hop, hfwd⟩ := of_dualApply h
  obtain ⟨-, ⟨hack, -, hleft⟩ | ⟨href, rfl⟩⟩ := hs.doOp hreq hop
  · obtain ⟨sent, hsent, rfl⟩ := hreq.sent hst hop hack
    rcases hfwd with ⟨hnone, -⟩ | ⟨fwd, hfwd, hex⟩
    · cases hsent.symm.trans hnone
    obtain ⟨-, r, hdone, hacc⟩ := of_exchange_true hex
    rw [hleft, hreq.value_forwarded hs ht hsync hfwd hdone hacc]
  · rcases hfwd with ⟨-, rfl⟩ | ⟨fwd, hfwd, hex⟩
    · exact hsync
    obtain ⟨hreq', hiff⟩ := hreq.forwarded hop hfwd
    have hlost : forward = false :=
      Bool.eq_false_iff.mpr fun h => Bool.eq_false_iff.mp href (hiff.mpr h)
    subst hlost
    rw [of_exchange_false hdel ?_ hex]
    · exact hsync
    · intro t r hdone hacc
      refine ((ht.doOp hreq' hdone).2.resolve_left fun hok => ?_).2
      cases hacc.symm.trans hok.2.1

end

end

end KVServer

end OrbisKV.KV
