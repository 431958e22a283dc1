import OrbisKV.KV.DualWrite
import OrbisKV.KV.LostUpdate
/-!
# Watch streams

The apply loop starts one goroutine for every command that it has applied.
-/

namespace OrbisKV.KV

open Std KVServer List Store

inductive EventType
  | put
  | set
  | delete
  | expire
deriving DecidableEq, Repr

/-- `watch.Event` without its time stamp. -/
structure Event where
  key : String
  oldValue : String
  newValue : String
  newVersion : Int64
  eventType : EventType
deriving DecidableEq, Repr

/-- `notifyPutEvent`. -/
def notifyPutEvent (args : PutArgs) (reply : PutReply) : List Event :=
  if reply.err = .ok then
    [⟨args.key, reply.oldValue, args.value, args.version,
      if reply.oldValue = "" then .set else .put⟩]
  else []

def notifyDeleteEvent (key : String) (reply : DeleteReply) : List Event :=
  if reply.err = .ok then [⟨key, reply.oldValue, "", 0, .delete⟩] else []

def expireEvent (reply : ExpireReply) (key : String) : Event :=
  ⟨key, (reply.expiredOldValues[key]?).getD "", "", 0, .expire⟩

def notifyExpireEvent (reply : ExpireReply) : List Event :=
  if reply.err = .ok then reply.expiredKeys.map (expireEvent reply) else []

/-- `OnOpComplete`: the events of a command, in the order in which they are handed to
the manager. -/
def onOpComplete (kv : KVServer) (req : Request) (reply : Reply) : List Event :=
  if kv.dead then []
  else
    match req, reply with
    | .put args, .put r => notifyPutEvent args r
    | .delete key, .delete r => notifyDeleteEvent key r
    | .expire _, .expire r => notifyExpireEvent r
    | _, _ => []

structure Watcher where
  key : String
  isPrefix : Bool
  channel : List Event := []
deriving DecidableEq

def Watcher.admits (w : Watcher) (key : String) : Bool :=
  if w.isPrefix then hasPrefix key w.key else w.key = key

def Watcher.take (w : Watcher) (ev : Event) : Watcher :=
  if w.admits ev.key then { w with channel := w.channel ++ [ev] } else w

/-- A replica, the goroutines of `OnOpComplete` with the events that each has still to
hand over, and the watch manager. -/
structure WatchedNode where
  kv : KVServer
  notifiers : List (List Event) := []
  eventCh : List Event := []
  watchers : List Watcher
  changes : String → List (Option Document) := fun _ => []

inductive WatchAction
  | apply (input : Input)
  | notify (i : Nat)
  | distribute

namespace WatchedNode

variable (hash : String → UInt64)

def record (s : WatchedNode) (kv' : KVServer) (key : String) : List (Option Document) :=
  if kv'.store[key]? = s.kv.store[key]? then s.changes key
  else s.changes key ++ [kv'.store[key]?]

/-- One step; `none` where the action is not enabled. -/
def step (s : WatchedNode) : WatchAction → Option WatchedNode
  | .apply input =>
    (s.kv.doOp hash input.net input.clock input.request).map fun r =>
      { s with
        kv := r.1
        notifiers := s.notifiers ++ [onOpComplete r.1 input.request r.2]
        changes := s.record r.1 }
  | .notify i =>
    match s.notifiers[i]? with
    | some (ev :: evs) =>
      some { s with notifiers := s.notifiers.set i evs, eventCh := s.eventCh ++ [ev] }
    | _ => none
  | .distribute =>
    match s.eventCh with
    | ev :: evs => some { s with eventCh := evs, watchers := s.watchers.map (·.take ev) }
    | [] => none

/-- The node from the moment at which the watchers have subscribed. -/
def system (kv₀ : KVServer) : Lib.System WatchedNode WatchAction where
  init s := ∃ watchers : List Watcher, s = { kv := kv₀, watchers := watchers } ∧
    ∀ w ∈ watchers, w.channel = []
  step := step hash

def eventsOf (key : String) (evs : List Event) : List Event := evs.filter fun ev => ev.key = key

def underway (s : WatchedNode) (key : String) : List Event :=
  eventsOf key s.eventCh ++ eventsOf key s.notifiers.flatten

/-- No transaction and no cleanup writes the key, a put of the key is not left half done
and does not write the entry that is there already, and the goroutines hand over the
events of the key in the order of their commands. -/
def Tracked (key : String) (s : WatchedNode) : WatchAction → Prop
  | .apply input =>
    match input.request with
    | .put args => args.key = key → s.kv.store[key]? ≠ some (.entry (written input.clock args)) ∧
          ((s.kv.shardOf hash key).state = .migrating → input.net.forward = true)
    | .cleanupShard args => ∀ k ∈ args.keys, k.key ≠ key
    | .prepareTx args => ∀ wk ∈ args.writeKeys, wk.key ≠ key
    | _ => True
  | .notify i =>
    ((s.notifiers[i]?.bind head?).map Event.key = some key) →
      ∀ evs ∈ s.notifiers.take i, ∀ ev ∈ evs, ev.key ≠ key
  | .distribute => True

def RefusesPuts (key : String) (s : WatchedNode) : WatchAction → Prop
  | .apply input =>
    match input.request with
    | .put args => args.key = key → ¬s.kv.Admits input.clock.casNow args
    | _ => True
  | _ => True

end WatchedNode

/-- The event tells what the store holds under its key after a change: the value, and a
version that lies `lag` behind the one of the entry, or that the entry is gone. -/
def Event.Tells (lag : UInt64) (found : Option Document) (ev : Event) : Prop :=
  match found with
  | none => (ev.eventType = .delete ∨ ev.eventType = .expire) ∧ ev.newValue = ""
  | some (.entry e) => (ev.eventType = .put ∨ ev.eventType = .set) ∧ ev.newValue = e.value ∧
      ev.newVersion.toUInt64 + lag = e.version
  | some _ => False

/-- A command changed what is under a key and has one event of the key, which tells the
change, or it did neither. -/
def Noted (lag : UInt64) (before after : Option Document) (evs : List Event) : Prop :=
  after = before ∧ evs = [] ∨ after ≠ before ∧ ∃ ev, evs = [ev] ∧ ev.Tells lag after

namespace KVServer

section

variable {hash : String → UInt64} {kv kv' : KVServer} {net : Net} {clock : Clock}
  {key : String} {now : Int64} {args : PutArgs}

open WatchedNode (eventsOf)

theorem doPut_refused (hfor : (kv.shardOf hash args.key).state = .migrating → net.forward = true)
    (href : (kv.doPut hash net clock args).2.err ≠ .ok) :
    (kv.doPut hash net clock args).1 = kv := by
  revert href
  apply doPut_cases fun r => r.2.err ≠ .ok → r.1 = kv
  · exact fun _ _ _ _ _ _ => rfl
  · exact fun _ _ _ hne => absurd rfl hne
  · exact fun _ _ hlost => by cases hlost.2.symm.trans (hfor hlost.1)
  · exact fun _ _ _ hlost => by cases hlost.2.symm.trans (hfor hlost.1)

theorem doPut_of_not_admits (hash : String → UInt64) (net : Net)
    (h : ¬kv.Admits clock.casNow args) :
    (kv.doPut hash net clock args).1 = kv ∧ (kv.doPut hash net clock args).2.err ≠ .ok := by
  have herr : (kv.doPut hash net clock args).2.err ≠ .ok :=
    fun hok => h (admits_iff.mpr (putCAS_of_doPut_ok hok))
  by_cases hst : (kv.shardOf hash args.key).state = .migrating
  · exact (of_not_admits net hst h).2
  · exact ⟨doPut_refused (fun hmig => absurd hmig hst) herr, herr⟩

theorem eventsOf_singleton {ev : Event} (h : ev.key = key) : eventsOf key [ev] = [ev] := by
  simp [eventsOf, h]

theorem noted_put (hnew : kv.store[args.key]? ≠ some (.entry (written clock args)))
    (hfor : (kv.shardOf hash args.key).state = .migrating → net.forward = true) :
    Noted 1 kv.store[args.key]? (kv.doPut hash net clock args).1.store[args.key]?
      (eventsOf args.key (notifyPutEvent args (kv.doPut hash net clock args).2)) := by
  by_cases hok : (kv.doPut hash net clock args).2.err = .ok
  · right
    rw [doPut_ok hok, ExtTreeMap.getElem?_insert_self, notifyPutEvent, if_pos hok]
    refine ⟨fun h => hnew h.symm, _, eventsOf_singleton rfl, ?_, rfl, rfl⟩
    dsimp only
    split_ifs
    · exact .inr rfl
    · exact .inl rfl
  · left
    rw [doPut_refused hfor hok, notifyPutEvent, if_neg hok]
    exact ⟨rfl, rfl⟩

theorem noted_put_refused (lag : UInt64) (h : ¬kv.Admits clock.casNow args) :
    Noted lag kv.store[key]? (kv.doPut hash net clock args).1.store[key]?
      (eventsOf key (notifyPutEvent args (kv.doPut hash net clock args).2)) := by
  obtain ⟨hsame, herr⟩ := doPut_of_not_admits hash net h
  left
  rw [hsame, notifyPutEvent, if_neg herr]
  exact ⟨rfl, rfl⟩

theorem doDelete_removes (hash : String → UInt64) (net : Net) (now : Int64)
    (htyped : ∀ d, kv.store[key]? = some d → ∃ e, d = .entry e) :
    (kv.doDelete hash net now key).2.err = .ok ∧ kv.store[key]? ≠ none ∨
      (kv.doDelete hash net now key).2.err ≠ .ok ∧ (kv.doDelete hash net now key).1 = kv := by
  apply doDelete_cases fun r => r.2.err = .ok ∧ kv.store[key]? ≠ none ∨ r.2.err ≠ .ok ∧ r.1 = kv
  · exact fun _ hne _ => .inr ⟨hne, rfl⟩
  · intro found old hget hlive _
    refine .inl ⟨rfl, fun hnone => ?_⟩
    simp [Store.get, hnone] at hget
    simp [← hget, live?] at hlive
  · intro found old reply hget hlive _ hgrp
    refine .inr ⟨by simp [hgrp], ?_⟩
    obtain ⟨rfl, -⟩ := Option.filter_eq_some_iff.mp hlive
    obtain ⟨d, hkey, hd⟩ := Option.bind_eq_some_iff.mp (kvAt?_of_get hget)
    obtain ⟨e, rfl⟩ := htyped d hkey
    cases hd
    rw [takenBack, hlive, Option.map_some, ← hkey, place_self]

theorem noted_delete (lag : UInt64) (htyped : ∀ d, kv.store[key]? = some d → ∃ e, d = .entry e) :
    Noted lag kv.store[key]? (kv.doDelete hash net now key).1.store[key]?
      (eventsOf key (notifyDeleteEvent key (kv.doDelete hash net now key).2)) := by
  rcases doDelete_removes hash net now htyped with ⟨hok, hkey⟩ | ⟨href, hsame⟩
  · right
    rw [getElem?_doDelete hok, notifyDeleteEvent, if_pos hok]
    exact ⟨hkey.symm, _, eventsOf_singleton rfl, .inl rfl, rfl⟩
  · left
    rw [hsame, notifyDeleteEvent, if_neg href]
    exact ⟨rfl, rfl⟩

theorem expireKeys_names {cutoff : Int64} {reply reply' : ExpireReply} {keys : List String}
    (key : String) (hrun : expireKeys cutoff kv reply keys = some (kv', reply')) :
    reply'.err = reply.err ∧ ∃ names, reply'.expiredKeys = reply.expiredKeys ++ names ∧
      (kv'.store[key]? = kv.store[key]? ∧ names.filter (· = key) = [] ∨
        kv.store[key]? ≠ none ∧ kv'.store[key]? = none ∧ names.filter (· = key) = [key]) := by
  refine expireKeys_keeps (I := fun mid r => r.err = reply.err ∧ ∃ names,
    r.expiredKeys = reply.expiredKeys ++ names ∧ (mid.store[key]? = kv.store[key]? ∧
      names.filter (· = key) = [] ∨ kv.store[key]? ≠ none ∧ mid.store[key]? = none ∧
        names.filter (· = key) = [key])) ?_
    ⟨rfl, [], (append_nil _).symm, .inl ⟨rfl, rfl⟩⟩ hrun
  rintro mid r k entry ⟨herr, names, hnames, hkey⟩ _ _ hget _
  refine ⟨herr, names ++ [k], by simp [hnames], ?_⟩
  rw [delete, getElem?_erase, filter_append]
  by_cases hk : k = key
  · subst hk
    have hfound : mid.store[k]? ≠ none := by
      intro hnone
      have hent := kvAt?_of_get hget
      rw [kvAt?, hnone] at hent
      cases hent
    rcases hkey with ⟨hsame, hother⟩ | ⟨-, hgone, -⟩
    · exact .inr ⟨hsame ▸ hfound, if_pos rfl, by simp [hother]⟩
    · exact absurd hgone hfound
  · simpa [hk] using hkey

theorem eventsOf_expire (reply : ExpireReply) (names : List String) :
    eventsOf key (names.map (expireEvent reply)) =
      (names.filter (· = key)).map (expireEvent reply) := by
  rw [eventsOf, filter_map]
  rfl

theorem noted_expire (lag : UInt64) {args : ExpireArgs} {reply : ExpireReply}
    (hrun : kv.doExpire args = some (kv', reply)) :
    Noted lag kv.store[key]? kv'.store[key]? (eventsOf key (notifyExpireEvent reply)) := by
  unfold doExpire at hrun
  split_ifs at hrun
  · cases hrun
    exact .inl ⟨rfl, rfl⟩
  · obtain ⟨herr, names, hnames, hkey⟩ := expireKeys_names key hrun
    rw [notifyExpireEvent, if_pos herr, hnames, nil_append, eventsOf_expire]
    rcases hkey with ⟨hsame, hnone⟩ | ⟨hfound, hgone, hone⟩
    · rw [hnone]
      exact .inl ⟨hsame, rfl⟩
    · rw [hone, hgone]
      exact .inr ⟨hfound.symm, _, rfl, .inr rfl, rfl⟩

theorem noted_doOp {lag : UInt64} {req : Request} {reply : Reply} (huser : isUserKey key = true)
    (halive : kv.dead = false) (htyped : kv.store.Typed) (hwithin : kv.Within (· ≠ key))
    (hcle : ∀ args, req = .cleanupShard args → ∀ k ∈ args.keys, k.key ≠ key)
    (hpre : ∀ args, req = .prepareTx args → ∀ wk ∈ args.writeKeys, wk.key ≠ key)
    (hput : ∀ args, req = .put args → args.key = key →
      Noted lag kv.store[key]? (kv.doPut hash net clock args).1.store[key]?
        (eventsOf key (notifyPutEvent args (kv.doPut hash net clock args).2)))
    (hrun : kv.doOp hash net clock req = some (kv', reply)) :
    Noted lag kv.store[key]? kv'.store[key]? (eventsOf key (onOpComplete kv' req reply)) := by
  -- what leaves the key alone and has no event
  have hquiet : req.Within (· ≠ key) (· ≠ key) → (∀ args, req ≠ .setShardState args) →
      kv'.store[key]? = kv.store[key]? := by
    intro hreq hshard
    exact (moved_doOp (fun _ h => h) hwithin hreq hshard hrun).changes.getElem? huser
      (not_not.mpr rfl)
  have hdead : (∀ args, req ≠ .setShardState args) → kv'.dead = false :=
    fun hshard => (moved_doOp_any hshard hrun).dead.trans halive
  have hnone : onOpComplete kv' req reply = [] → kv'.store[key]? = kv.store[key]? →
      Noted lag kv.store[key]? kv'.store[key]? (eventsOf key (onOpComplete kv' req reply)) := by
    intro heve hsame
    rw [heve]
    exact .inl ⟨hsame, rfl⟩
  cases req with
  | setShardState args =>
    apply hnone (by simp [onOpComplete])
    rw [(of_doOp_setShardState hrun).1]
    unfold doSetShardState
    split <;> rfl
  | cleanupShard args =>
    exact hnone (by simp [onOpComplete]) (hquiet (hcle args rfl) (by simp))
  | prepareTx args =>
    exact hnone (by simp [onOpComplete]) (hquiet (hpre args rfl) (by simp))
  | put args =>
    have heve : onOpComplete kv' (.put args) reply =
        notifyPutEvent args (kv.doPut hash net clock args).2 := by
      rw [(of_doOp_put hrun).2]
      simp [onOpComplete, hdead (by simp)]
    rw [heve]
    by_cases hkey : args.key = key
    · rw [(of_doOp_put hrun).1]
      exact hput args rfl hkey
    · refine .inl ⟨hquiet hkey (by simp), ?_⟩
      unfold notifyPutEvent
      split_ifs <;> simp [eventsOf, hkey]
  | delete k =>
    have heve : onOpComplete kv' (.delete k) reply =
        notifyDeleteEvent k (kv.doDelete hash net clock.now k).2 := by
      rw [(of_doOp_delete hrun).2]
      simp [onOpComplete, hdead (by simp)]
    rw [heve]
    by_cases hkey : k = key
    · subst hkey
      rw [(of_doOp_delete hrun).1]
      exact noted_delete lag (htyped k huser)
    · refine .inl ⟨hquiet hkey (by simp), ?_⟩
      unfold notifyDeleteEvent
      split_ifs <;> simp [eventsOf, hkey]
  | expire args =>
    obtain ⟨r, hexp, rfl⟩ := of_doOp_expire hrun
    have heve : onOpComplete kv' (.expire args) (.expire r) = notifyExpireEvent r := by
      simp [onOpComplete, hdead (by simp)]
    rw [heve]
    exact noted_expire lag hexp
  | _ => exact hnone (by simp [onOpComplete]) (hquiet trivial (by simp))

end

end KVServer

namespace WatchedNode

variable {hash : String → UInt64} {lag : UInt64} {key : String} {s s' : WatchedNode}
  {evs : List Event} {kv₀ : KVServer}

/-- The events of the key, those that a watcher has and those on their way to it, tell the
changes of the key in order. -/
def Streams (lag : UInt64) (key : String) (s : WatchedNode) : Prop :=
  ∀ w ∈ s.watchers, w.key = key → w.isPrefix = false →
    List.Forall₂ (fun found ev => ev.Tells lag found) (s.changes key) (w.channel ++ s.underway key)

theorem eventsOf_append (key : String) (evs evs' : List Event) :
    eventsOf key (evs ++ evs') = eventsOf key evs ++ eventsOf key evs' := filter_append ..

theorem eventsOf_flatten_nil {lists : List (List Event)}
    (h : ∀ evs ∈ lists, ∀ ev ∈ evs, ev.key ≠ key) : eventsOf key lists.flatten = [] := by
  rw [eventsOf, filter_eq_nil_iff]
  intro ev hev
  obtain ⟨evs, hevs, hmem⟩ := mem_flatten.mp hev
  simpa using h evs hevs ev hmem

theorem Streams.apply (h : s.Streams lag key) {kv' : KVServer}
    (hnoted : Noted lag s.kv.store[key]? kv'.store[key]? (eventsOf key evs)) :
    Streams lag key { s with
      kv := kv', notifiers := s.notifiers ++ [evs], changes := s.record kv' } := by
  intro w hw hkey hexact
  have hstr := h w hw hkey hexact
  have hund : underway { s with
      kv := kv', notifiers := s.notifiers ++ [evs], changes := s.record kv' } key =
      s.underway key ++ eventsOf key evs := by
    simp [underway, eventsOf_append, flatten_append]
  rw [hund]
  change List.Forall₂ _ (s.record kv' key) _
  unfold record
  rcases hnoted with ⟨hsame, hnone⟩ | ⟨hchan, ev, hone, htells⟩
  · rw [if_pos hsame, hnone, append_nil]
    exact hstr
  · rw [if_neg hchan, hone, ← append_assoc]
    exact rel_append hstr (List.Forall₂.cons htells List.Forall₂.nil)

/-- Handing over an event moves it from the goroutines to the channel; it is the first
one of its key among the goroutines. -/
theorem underway_notify {i : Nat} {ev : Event} (hi : s.notifiers[i]? = some (ev :: evs))
    (hfirst : ev.key = key → ∀ evs ∈ s.notifiers.take i, ∀ e ∈ evs, e.key ≠ key) :
    underway { s with notifiers := s.notifiers.set i evs, eventCh := s.eventCh ++ [ev] } key =
      s.underway key := by
  obtain ⟨hlt, hget⟩ := List.getElem?_eq_some_iff.mp hi
  have hsplit : s.notifiers = s.notifiers.take i ++ (ev :: evs) :: s.notifiers.drop (i + 1) := by
    rw [← hget, getElem_cons_drop, take_append_drop]
  have hbef : eventsOf key s.notifiers.flatten = eventsOf key (s.notifiers.take i).flatten ++
      (eventsOf key [ev] ++
        (eventsOf key evs ++ eventsOf key (s.notifiers.drop (i + 1)).flatten)) := by
    conv_lhs => rw [hsplit]
    rw [flatten_append, flatten_cons, eventsOf_append, eventsOf_append,
      ← append_assoc (eventsOf key [ev]), ← eventsOf_append key [ev] evs]
    rfl
  have hafter : eventsOf key (s.notifiers.set i evs).flatten =
      eventsOf key (s.notifiers.take i).flatten ++
        (eventsOf key evs ++ eventsOf key (s.notifiers.drop (i + 1)).flatten) := by
    rw [set_eq_take_append_cons_drop, if_pos hlt, flatten_append, flatten_cons,
      eventsOf_append, eventsOf_append]
  unfold underway
  dsimp only
  rw [hbef, hafter, eventsOf_append]
  by_cases hkey : ev.key = key
  · rw [eventsOf_flatten_nil (hfirst hkey)]
    simp
  · simp [eventsOf, hkey]

theorem Streams.distribute (h : s.Streams lag key) {ev : Event} (hch : s.eventCh = ev :: evs) :
    Streams lag key { s with eventCh := evs, watchers := s.watchers.map (·.take ev) } := by
  intro w hw hkey hexact
  obtain ⟨w₀, hw₀, rfl⟩ := mem_map.mp hw
  have hsame : (w₀.take ev).key = w₀.key ∧ (w₀.take ev).isPrefix = w₀.isPrefix := by
    unfold Watcher.take
    split_ifs <;> exact ⟨rfl, rfl⟩
  rw [hsame.1] at hkey
  rw [hsame.2] at hexact
  have hstr := h w₀ hw₀ hkey hexact
  have htake : (w₀.take ev).channel = w₀.channel ++ eventsOf key [ev] := by
    by_cases hev : ev.key = key
    · simp [Watcher.take, Watcher.admits, hexact, hkey, hev, eventsOf]
    · simp [Watcher.take, Watcher.admits, hexact, hkey, hev, Ne.symm hev, eventsOf]
  have hsplit : eventsOf key (ev :: evs) = eventsOf key [ev] ++ eventsOf key evs :=
    eventsOf_append key [ev] evs
  unfold underway at hstr ⊢
  rw [hch, hsplit] at hstr
  rw [htake]
  simpa [append_assoc] using hstr

structure Inv (lag : UInt64) (key : String) (s : WatchedNode) : Prop where
  alive : s.kv.dead = false
  typed : s.kv.store.Typed
  within : s.kv.Within (· ≠ key)
  streams : s.Streams lag key

theorem Inv.apply (h : s.Inv lag key) (huser : isUserKey key = true) {input : Input}
    {kv' : KVServer} {reply : Reply} (hok : s.Tracked hash key (.apply input))
    (hput : ∀ args, input.request = .put args → args.key = key →
      Noted lag s.kv.store[key]? (s.kv.doPut hash input.net input.clock args).1.store[key]?
        (eventsOf key (notifyPutEvent args (s.kv.doPut hash input.net input.clock args).2)))
    (hrun : s.kv.doOp hash input.net input.clock input.request = some (kv', reply)) :
    Inv lag key { s with
      kv := kv'
      notifiers := s.notifiers ++ [onOpComplete kv' input.request reply]
      changes := s.record kv' } := by
  obtain ⟨req, net, clock⟩ := input
  dsimp only at hput hrun ⊢
  have hcle : ∀ args, req = .cleanupShard args → ∀ k ∈ args.keys, k.key ≠ key := by
    rintro args rfl
    exact hok
  have hpre : ∀ args, req = .prepareTx args → ∀ wk ∈ args.writeKeys, wk.key ≠ key := by
    rintro args rfl
    exact hok
  have hstre := h.streams.apply (noted_doOp huser h.alive h.typed h.within hcle hpre hput hrun)
  have hreq : req.Within (fun _ => True) (· ≠ key) := by
    cases req with
    | cleanupShard args | expire args => exact fun _ _ => trivial
    | prepareTx args => exact hpre args rfl
    | _ => trivial
  rcases moved_or_set (fun _ _ => trivial) h.within hreq hrun with hmv | ⟨mgr, rfl⟩
  · exact ⟨hmv.dead.trans h.alive, hmv.changes.typed h.typed, hmv.within, hstre⟩
  · exact ⟨h.alive, h.typed, ⟨h.within.cached, h.within.stored⟩, hstre⟩

theorem Inv.step (h : s.Inv lag key) (huser : isUserKey key = true) {a : WatchAction}
    (hok : s.Tracked hash key a)
    (hput : ∀ input, a = .apply input → ∀ args, input.request = .put args → args.key = key →
      Noted lag s.kv.store[key]? (s.kv.doPut hash input.net input.clock args).1.store[key]?
        (eventsOf key (notifyPutEvent args (s.kv.doPut hash input.net input.clock args).2)))
    (hstep : s.step hash a = some s') : s'.Inv lag key := by
  cases a with
  | apply input =>
    obtain ⟨⟨kv', reply⟩, hrun, rfl⟩ := Option.map_eq_some_iff.mp hstep
    exact h.apply huser hok (hput input rfl) hrun
  | notify i =>
    simp only [WatchedNode.step] at hstep
    split at hstep
    · rename_i ev evs hi
      cases hstep
      have hfirst : ev.key = key → ∀ evs ∈ s.notifiers.take i, ∀ e ∈ evs, e.key ≠ key :=
        fun hev => hok (by simp [hi, hev])
      refine ⟨h.alive, h.typed, h.within, fun w hw hkey hexact => ?_⟩
      rw [underway_notify hi hfirst]
      exact h.streams w hw hkey hexact
    · cases hstep
  | distribute =>
    simp only [WatchedNode.step] at hstep
    split at hstep
    · rename_i ev evs hch
      cases hstep
      exact ⟨h.alive, h.typed, h.within, h.streams.distribute hch⟩
    · cases hstep

theorem inv_init (lag : UInt64) (halive : kv₀.dead = false) (htyped : kv₀.store.Typed)
    (hwithin : kv₀.Within (· ≠ key)) (hinit : (system hash kv₀).init s) : s.Inv lag key := by
  obtain ⟨watchers, rfl, hempty⟩ := hinit
  refine ⟨halive, htyped, hwithin, fun w hw _ _ => ?_⟩
  rw [hempty w hw]
  exact List.Forall₂.nil

theorem streams_lag (huser : isUserKey key = true) (halive : kv₀.dead = false)
    (htyped : kv₀.store.Typed) (hwithin : kv₀.Within (· ≠ key))
    (hs : (system hash kv₀).Reachable (Tracked hash key) s) : s.Streams 1 key := by
  refine (hs.invariant (fun _ hinit => inv_init 1 halive htyped hwithin hinit) ?_).streams
  intro s a t h hok hstep
  refine h.step huser hok ?_ hstep
  rintro ⟨req, net, clock⟩ rfl args hreq rfl
  cases hreq
  obtain ⟨hnew, hfor⟩ := hok rfl
  exact noted_put hnew hfor

theorem streams_exact (huser : isUserKey key = true) (halive : kv₀.dead = false)
    (htyped : kv₀.store.Typed) (hwithin : kv₀.Within (· ≠ key))
    (hs : (system hash kv₀).Reachable (fun s a => s.Tracked hash key a ∧ s.RefusesPuts key a) s) :
    s.Streams 0 key := by
  refine (hs.invariant (fun _ hinit => inv_init 0 halive htyped hwithin hinit) ?_).streams
  intro s a t h hok hstep
  refine h.step huser hok.1 ?_ hstep
  rintro ⟨req, net, clock⟩ rfl args hreq hkey
  cases hreq
  exact noted_put_refused 0 (hok.2 hkey)

/-- In every run whose steps are all tracked, the stream of a watcher has one event for
each change of its key, in the order of the changes. -/
theorem watch_stream_tells_changes {kv₀ : KVServer} {w : Watcher} (huser : isUserKey key = true)
    (halive : kv₀.dead = false) (htyped : kv₀.store.Typed) (hwithin : kv₀.Within (· ≠ key))
    (hs : (system hash kv₀).Reachable (Tracked hash key) s) (hw : w ∈ s.watchers)
    (hkey : w.key = key) (hexact : w.isPrefix = false) :
    List.Forall₂ (fun found ev => ev.Tells 1 found) (s.changes key) (w.channel ++ s.underway key) ∧
      ((system hash kv₀).Reachable (fun s a => s.Tracked hash key a ∧ s.RefusesPuts key a) s →
        List.Forall₂ (fun found ev => ev.Tells 0 found) (s.changes key)
          (w.channel ++ s.underway key)) := by
  refine ⟨streams_lag huser halive htyped hwithin hs w hw hkey hexact, fun href => ?_⟩
  exact streams_exact huser halive htyped hwithin href w hw hkey hexact

instance (key : String) (s : WatchedNode) (a : WatchAction) : Decidable (s.Tracked hash key a) := by
  rcases a with ⟨req, net, clock⟩ | i | _
  · cases req <;> dsimp only [Tracked] <;> infer_instance
  all_goals dsimp only [Tracked]; infer_instance

instance (key : String) (s : WatchedNode) (a : WatchAction) : Decidable (s.RefusesPuts key a) := by
  rcases a with ⟨req, net, clock⟩ | i | _
  · cases req <;> dsimp only [RefusesPuts] <;> infer_instance
  all_goals exact isTrue trivial

def watchedHolder : WatchedNode := { kv := holder, watchers := [⟨"k", false, []⟩] }

/-- A refused put of `k`, a put of another key and the delete of `k`, whose goroutine is
the first to run. -/
def deletion : List WatchAction :=
  [.apply (atZero (.put ⟨"k", "b", 7, 0⟩)), .apply (atZero (.put ⟨"j", "c", 0, 0⟩)),
    .apply (atZero (.delete "k")), .notify 2, .distribute, .notify 1, .distribute]

theorem watch_stream_tells_changes_deletion : ∃ s : WatchedNode,
    (system (fun _ => 0) holder).Reachable
      (fun s a => s.Tracked (fun _ => 0) "k" a ∧ s.RefusesPuts "k" a) s ∧
    s.changes "k" = [none] ∧ s.watchers = [⟨"k", false, [⟨"k", "a", "", 0, .delete⟩]⟩] ∧
    List.Forall₂ (fun found ev => ev.Tells 0 found) (s.changes "k")
      ([⟨"k", "a", "", 0, .delete⟩] ++ s.underway "k") := by
  obtain ⟨s, hrun, hcha, hwat⟩ := Lib.System.exists_of_execOk (system (fun _ => 0) holder)
    (fun s a => s.Tracked (fun _ => 0) "k" a ∧ s.RefusesPuts "k" a) watchedHolder deletion
    (fun s => s.changes "k" = [none] ∧ s.watchers = [⟨"k", false, [⟨"k", "a", "", 0, .delete⟩]⟩])
    (by decide +kernel)
  have hs : (system (fun _ => 0) holder).Reachable
      (fun s a => s.Tracked (fun _ => 0) "k" a ∧ s.RefusesPuts "k" a) s :=
    ⟨watchedHolder, ⟨_, rfl, by simp⟩, hrun⟩
  have hsto : Store.Changes (fun _ => True) (· ≠ "k") ∅ holder.store :=
    (Store.Changes.refl (s := ∅)).write trivial (some ⟨"a", 1, 0⟩)
  have htyped : holder.store.Typed := hsto.typed nofun
  have hwithin : holder.Within (· ≠ "k") := ⟨nofun, hsto.within nofun⟩
  have hstr := (watch_stream_tells_changes (by decide) rfl htyped hwithin
    (hs.mono fun _ _ h => h.1) (hwat ▸ mem_singleton_self _) rfl rfl).2 hs
  exact ⟨s, hs, hcha, hwat, hstr⟩

/-- Transaction `t` writes `k` and is committed; then `k` is put twice, and the goroutine of
the second put is the first to run. -/
def unheardCommit : List WatchAction :=
  [.apply (atZero (.prepareTx ⟨"t", [], [⟨"k", "a", 0, false⟩], 0, 1, [1]⟩)),
    .apply (atZero (.recordTxDecision ⟨"t", .committed, [1], [⟨"k", "a", 0, false⟩]⟩)),
    .apply (atZero (.commitTx ⟨"t", []⟩)),
    .apply (atZero (.put ⟨"k", "b", 1, 0⟩)),
    .apply (atZero (.put ⟨"k", "c", 2, 0⟩)),
    .notify 4, .notify 3, .distribute, .distribute]

theorem watch_stream_unfaithful : ∃ s : WatchedNode, (system (fun _ => 0) (newKVServer 1 ∅)).exec
      { kv := newKVServer 1 ∅, watchers := [⟨"k", false, []⟩] } unheardCommit = some s ∧
    s.changes "k" = [some (.entry ⟨"a", 1, 0⟩), some (.entry ⟨"b", 2, 0⟩),
      some (.entry ⟨"c", 3, 0⟩)] ∧
    s.watchers = [⟨"k", false, [⟨"k", "b", "c", 2, .put⟩, ⟨"k", "a", "b", 1, .put⟩]⟩] ∧
    s.underway "k" = [] ∧
    ∀ w ∈ s.watchers, ¬List.Forall₂ (fun found ev => ev.Tells 0 found) (s.changes "k")
      (w.channel ++ s.underway "k") := by
  obtain ⟨s, hexec, hcha, hwat, hnone⟩ := Lib.System.exists_of_exec
    (system (fun _ => 0) (newKVServer 1 ∅))
    { kv := newKVServer 1 ∅, watchers := [⟨"k", false, []⟩] } unheardCommit
    (fun s => s.changes "k" = [some (.entry ⟨"a", 1, 0⟩), some (.entry ⟨"b", 2, 0⟩),
        some (.entry ⟨"c", 3, 0⟩)] ∧
      s.watchers = [⟨"k", false, [⟨"k", "b", "c", 2, .put⟩, ⟨"k", "a", "b", 1, .put⟩]⟩] ∧
      s.underway "k" = []) (by decide +kernel)
  refine ⟨s, hexec, hcha, hwat, hnone, fun w hw htells => ?_⟩
  rw [hwat, mem_singleton] at hw
  have hlen := htells.length_eq
  simp [hw, hcha, hnone] at hlen

end WatchedNode

end OrbisKV.KV
