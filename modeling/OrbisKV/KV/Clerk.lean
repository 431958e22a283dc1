import OrbisKV.Lib.Transition
import OrbisKV.KV.LostUpdate
/-!
# The clerk's put

`Clerk.Put` is a loop around the put requests of the router.
-/

namespace OrbisKV.KV

open Std Lib List KVServer Option

def maxAttempts : Nat := 80

inductive PutPhase
  | ready
  | routing
  | refreshing
  | returned (err : Err)
deriving DecidableEq, Repr

structure PutCall where
  args : PutArgs
  version : Tversion
  attempts : Nat := 0
  rpcAttempted : Bool := false
  autoRefreshLeft : Nat := 3
  phase : PutPhase := .ready
deriving DecidableEq, Repr

namespace PutCall

def put (key value : String) (version : Tversion) : PutCall where
  args := ⟨key, value, version, 0⟩
  version := version

def request (call : PutCall) : PutArgs := { call.args with version := call.version }

def conflict (call : PutCall) : PutCall :=
  if !call.rpcAttempted then { call with phase := .returned .version }
  else if 0 < call.autoRefreshLeft then
    { call with autoRefreshLeft := call.autoRefreshLeft - 1, phase := .refreshing }
  else { call with phase := .returned .maybe }

/-- The rest of a turn once the router has returned, with `none` for its error. -/
def answered (call : PutCall) (result : Option Err) : PutCall :=
  let call := { call with attempts := call.attempts + 1 }
  match result with
  | some .ok => { call with phase := .returned .ok }
  | some .noKey => { call with phase := .returned .noKey }
  | some .version => call.conflict
  | _ => { call with rpcAttempted := true, phase := .ready }

/-- The answer of `readVersionFast`, which is 0 where it has none. -/
def refreshed (call : PutCall) (latestV : Tversion) : PutCall :=
  { call with
    version := if call.version < latestV then latestV else call.version
    phase := .ready }

end PutCall

/-- A put request on its way to a group; `attempt` is `none` for one that a group
forwards. -/
structure PutRpc where
  gid : Int
  attempt : Option Nat
  args : PutArgs

/-- The groups, one call of the clerk, its requests that are not applied yet, and the
answers that the attempt under way can still get. -/
structure ClerkRun where
  groups : Int → KVServer
  call : PutCall
  inFlight : List PutRpc := []
  answers : List Err := []

inductive ClerkAction
  | attempt
  | giveUp
  | send (gid : Int)
  | deliver (i : Nat) (net : Net) (clock : Clock)
  | lose (i : Nat)
  | answer (result : Option Err)
  | refresh (latestV : Tversion)
  /-- A group applies a command of another client, of an operator or of another group. -/
  | command (gid : Int) (input : Input)

namespace ClerkRun

variable (hash : String → UInt64)

def forwarded (kv : KVServer) (clock : Clock) (args : PutArgs) : List PutRpc :=
  match kv.forwards hash clock (.put args) with
  | some (.put args') => [⟨(kv.shardOf hash args.key).targetGroup, none, args'⟩]
  | _ => []

def deliver (c : ClerkRun) (i : Nat) (rpc : PutRpc) (net : Net) (clock : Clock) : ClerkRun :=
  let kv := c.groups rpc.gid
  let r := kv.doPut hash net clock rpc.args
  { c with
    groups := Function.update c.groups rpc.gid r.1
    inFlight := c.inFlight.eraseIdx i ++ forwarded hash kv clock rpc.args
    answers :=
      if rpc.attempt = some c.call.attempts then c.answers ++ [r.2.err] else c.answers }

/-- Whether the router can return this: an error, an answer that some request of the
attempt got, or an answer that a replica gives by itself. -/
def canReturn (c : ClerkRun) : Option Err → Bool
  | none => true
  | some e => e ∈ c.answers || (e ≠ .ok && e ≠ .noKey && e ≠ .version)

def step (c : ClerkRun) : ClerkAction → Option ClerkRun
  | .attempt =>
    if c.call.phase = .ready ∧ c.call.attempts < maxAttempts then
      some { c with call.phase := .routing, answers := [] }
    else none
  | .giveUp =>
    if c.call.phase = .ready then some { c with call.phase := .returned .wrongLeader } else none
  | .send gid =>
    if c.call.phase = .routing then
      some { c with inFlight := c.inFlight ++ [⟨gid, some c.call.attempts, c.call.request⟩] }
    else none
  | .deliver i net clock => c.inFlight[i]?.map fun rpc => c.deliver hash i rpc net clock
  | .lose i => some { c with inFlight := c.inFlight.eraseIdx i }
  | .answer result =>
    if c.call.phase = .routing ∧ c.canReturn result = true then
      some { c with call := c.call.answered result }
    else none
  | .refresh latestV =>
    if c.call.phase = .refreshing then some { c with call := c.call.refreshed latestV } else none
  | .command gid input =>
    ((c.groups gid).doOp hash input.net input.clock input.request).map fun r =>
      { c with groups := Function.update c.groups gid r.1 }

def system : System ClerkRun ClerkAction where
  init c := ∃ groups key value version, c = { groups := groups, call := .put key value version }
  step := step hash

/-- A refresh does not find a newer version than the one of the call. -/
def Unraised (c : ClerkRun) : ClerkAction → Prop
  | .refresh latestV => latestV ≤ c.call.version
  | _ => True

end ClerkRun

def KVServer.versionAt (kv : KVServer) (now : Int64) (key : String) : Tversion :=
  match kv.store.get key with
  | .ok found => ((live? found now).elim 0 KVEntry.version).toInt64
  | .error _ => 0

section

variable {hash : String → UInt64} {kv : KVServer} {net : Net} {clock : Clock} {args : PutArgs}

theorem versionAt_of_putCAS {store : Store} {old : String}
    (h : kv.putCAS clock args = .ok (store, old, .ok)) :
    kv.versionAt clock.casNow args.key = args.version := by
  rw [putCAS_eq] at h
  unfold versionAt
  cases hget : kv.store.get args.key with
  | error e => simp [hget] at h
  | ok found =>
    simp only [hget] at h
    dsimp only
    cases hlive : live? found clock.casNow with
    | none =>
      simp only [hlive] at h
      split_ifs at h with hver
      · cases h
      · rw [not_ne_iff] at hver
        rw [elim_none, ← hver]
        simp
    | some cur =>
      simp only [hlive] at h
      split_ifs at h with hver
      · cases h
      · rw [not_ne_iff] at hver
        rw [elim_some, hver]
        simp

theorem versionAt_of_doPut {key : String}
    (h : (kv.doPut hash net clock args).1.store[key]? ≠ kv.store[key]?) :
    kv.versionAt clock.casNow args.key = args.version := by
  revert h
  apply doPut_cases fun r => r.1.store[key]? ≠ kv.store[key]? →
    kv.versionAt clock.casNow args.key = args.version
  · exact fun _ _ _ _ _ h => absurd rfl h
  · exact fun _ ⟨_, hput⟩ _ _ => versionAt_of_putCAS hput
  · exact fun ⟨_, hput⟩ _ _ _ => versionAt_of_putCAS hput
  · exact fun _ _ ⟨_, hput⟩ _ _ => versionAt_of_putCAS hput

theorem of_mem_forwarded {rpc : PutRpc} (h : rpc ∈ ClerkRun.forwarded hash kv clock args) :
    rpc.args.key = args.key ∧ rpc.args.version = args.version := by
  unfold ClerkRun.forwarded at h
  split at h
  · rename_i args' hreq
    obtain rfl := mem_singleton.mp h
    obtain ⟨-, -, -, hargs⟩ := of_forwards_put_some hreq
    cases hargs
    exact ⟨rfl, rfl⟩
  · cases h

end

namespace ClerkRun

variable {hash : String → UInt64} {c c' : ClerkRun}

/-- The call still has the version of the caller, and so have its requests. -/
structure Named (c : ClerkRun) : Prop where
  version : c.call.version = c.call.args.version
  requests : ∀ rpc ∈ c.inFlight,
    rpc.args.key = c.call.args.key ∧ rpc.args.version = c.call.args.version

theorem args_answered (call : PutCall) (result : Option Err) :
    (call.answered result).args = call.args ∧ (call.answered result).version = call.version := by
  unfold PutCall.answered
  dsimp only
  split
  · exact ⟨rfl, rfl⟩
  · exact ⟨rfl, rfl⟩
  · unfold PutCall.conflict
    split_ifs <;> exact ⟨rfl, rfl⟩
  · exact ⟨rfl, rfl⟩

theorem Named.deliver (h : c.Named) {i : Nat} {rpc : PutRpc} (hrpc : c.inFlight[i]? = some rpc)
    (net : Net) (clock : Clock) : (c.deliver hash i rpc net clock).Named := by
  refine ⟨h.version, ?_⟩
  intro rpc' hmem
  rcases mem_append.mp hmem with hold | hnew
  · exact h.requests rpc' (mem_of_mem_eraseIdx hold)
  · obtain ⟨hkey, hver⟩ := of_mem_forwarded hnew
    have hsent := h.requests rpc (mem_of_getElem? hrpc)
    exact ⟨hkey.trans hsent.1, hver.trans hsent.2⟩

theorem Named.step (h : c.Named) {action : ClerkAction} (hok : c.Unraised action)
    (hstep : c.step hash action = some c') : c'.Named := by
  cases action with
  | send gid =>
    simp only [ClerkRun.step] at hstep
    split_ifs at hstep
    cases hstep
    refine ⟨h.version, ?_⟩
    intro rpc hmem
    rcases mem_append.mp hmem with hold | hnew
    · exact h.requests rpc hold
    · obtain rfl := mem_singleton.mp hnew
      exact ⟨rfl, h.version⟩
  | deliver i net clock =>
    obtain ⟨rpc, hrpc, rfl⟩ := map_eq_some_iff.mp hstep
    exact h.deliver hrpc net clock
  | lose i =>
    cases hstep
    exact ⟨h.version, fun rpc hmem => h.requests rpc (mem_of_mem_eraseIdx hmem)⟩
  | answer result =>
    simp only [ClerkRun.step] at hstep
    split_ifs at hstep
    cases hstep
    obtain ⟨hargs, hver⟩ := args_answered c.call result
    refine ⟨?_, ?_⟩
    · rw [hver, hargs]
      exact h.version
    · rw [hargs]
      exact h.requests
  | refresh latestV =>
    simp only [ClerkRun.step] at hstep
    split_ifs at hstep
    cases hstep
    have hkept : ¬ c.call.version < latestV := Int64.not_lt.mpr hok
    refine ⟨?_, h.requests⟩
    rw [PutCall.refreshed, if_neg hkept]
    exact h.version
  | command gid input =>
    obtain ⟨r, -, rfl⟩ := map_eq_some_iff.mp hstep
    exact ⟨h.version, h.requests⟩
  | _ =>
    simp only [ClerkRun.step] at hstep
    split_ifs at hstep
    cases hstep
    exact ⟨h.version, h.requests⟩

theorem named_of_reachable (h : (system hash).Reachable Unraised c) : c.Named := by
  apply h.invariant
  · rintro _ ⟨groups, key, value, version, rfl⟩
    exact ⟨rfl, nofun⟩
  · exact fun s action t hs hok hstep => hs.step hok hstep

/-- Each time a request of the call changes the key in the store of a group, the version
of the key is the one that the caller named, unless the call was raised to a version that
it read itself. -/
theorem put_writes_over_named_version (hash : String → UInt64) {c c' : ClerkRun}
    (hc : (system hash).Reachable Unraised c) {i : Nat} {net : Net} {clock : Clock}
    (hstep : (system hash).step c (.deliver i net clock) = some c') {gid : Int}
    (hwr : (c'.groups gid).store[c.call.args.key]? ≠ (c.groups gid).store[c.call.args.key]?) :
    (c.groups gid).versionAt clock.casNow c.call.args.key = c.call.args.version := by
  obtain ⟨rpc, hrpc, rfl⟩ := map_eq_some_iff.mp hstep
  obtain ⟨hkey, hver⟩ := (named_of_reachable hc).requests rpc (mem_of_getElem? hrpc)
  have hgroups : (c.deliver hash i rpc net clock).groups = Function.update c.groups rpc.gid
      ((c.groups rpc.gid).doPut hash net clock rpc.args).1 := rfl
  rw [hgroups] at hwr
  by_cases hgid : gid = rpc.gid
  · subst hgid
    rw [Function.update_self] at hwr
    rw [← hkey, versionAt_of_doPut hwr, hver]
  · rw [Function.update_of_ne hgid] at hwr
    exact absurd rfl hwr

def sample : ClerkRun where
  groups _ := holder
  call := .put "k" "mine" 1

theorem init_sample : (system fun _ => 0).init sample := ⟨_, _, _, _, rfl⟩

instance (c : ClerkRun) (action : ClerkAction) : Decidable (c.Unraised action) := by
  unfold Unraised
  split <;> infer_instance

/-- The key at group 1 before and after the next request in flight. -/
def nextChange (c : ClerkRun) : Option (Option Document × Option Document) :=
  (c.step (fun _ => 0) (.deliver 0 .offline ⟨0, 0⟩)).map fun c' =>
    ((c.groups 1).store["k"]?, (c'.groups 1).store["k"]?)

theorem put_writes_over_named_version_second_attempt : ∃ c c' : ClerkRun,
    (system fun _ => 0).Reachable Unraised c ∧ c.call.args.key = "k" ∧
    (system fun _ => 0).step c (.deliver 0 .offline ⟨0, 0⟩) = some c' ∧
    (c'.groups 1).store["k"]? ≠ (c.groups 1).store["k"]? ∧
    (c.groups 1).versionAt 0 "k" = c.call.args.version := by
  obtain ⟨c, hrun, hkey, hcha⟩ := (system fun _ => 0).exists_of_execOk Unraised sample
    [.attempt, .send 1, .lose 0, .answer none, .attempt, .send 1]
    (fun c => c.call.args.key = "k" ∧ c.nextChange =
      some (some (.entry ⟨"a", 1, 0⟩), some (.entry ⟨"mine", 2, 0⟩))) (by decide +kernel)
  have hreach : (system fun _ => 0).Reachable Unraised c := ⟨_, init_sample, hrun⟩
  obtain ⟨c', hstep, hdocs⟩ := map_eq_some_iff.mp hcha
  obtain ⟨hbef, hafter⟩ := Prod.mk.inj hdocs
  have hwr : (c'.groups 1).store[c.call.args.key]? ≠ (c.groups 1).store[c.call.args.key]? := by
    rw [hkey, hbef, hafter]
    decide
  have hver := put_writes_over_named_version (fun _ => 0) hreach hstep hwr
  rw [hkey] at hwr hver
  exact ⟨c, c', hreach, hkey, hstep, hwr, hver⟩

theorem refreshed_put_overwrites : ∃ c c' : ClerkRun,
    (system fun _ => 0).Reachable System.anyStep c ∧
    c.call.args.key = "k" ∧ c.call.args.version = 1 ∧
    (system fun _ => 0).step c (.deliver 0 .offline ⟨0, 0⟩) = some c' ∧
    (c.groups 1).store["k"]? = some (.entry ⟨"other", 2, 0⟩) ∧
    (c'.groups 1).store["k"]? = some (.entry ⟨"mine", 3, 0⟩) ∧
    (c.groups 1).versionAt 0 "k" = 2 := by
  obtain ⟨c, hrun, hkey, hnamed, hver, hcha⟩ := (system fun _ => 0).exists_of_exec sample
    [.attempt, .send 1, .lose 0, .answer none, .command 1 (atZero (.put ⟨"k", "other", 1, 0⟩)),
      .attempt, .send 1, .deliver 0 .offline ⟨0, 0⟩, .answer (some .version), .refresh 2,
      .attempt, .send 1]
    (fun c => c.call.args.key = "k" ∧ c.call.args.version = 1 ∧
      (c.groups 1).versionAt 0 "k" = 2 ∧ c.nextChange =
        some (some (.entry ⟨"other", 2, 0⟩), some (.entry ⟨"mine", 3, 0⟩))) (by decide +kernel)
  obtain ⟨c', hstep, hdocs⟩ := map_eq_some_iff.mp hcha
  obtain ⟨hbef, hafter⟩ := Prod.mk.inj hdocs
  exact ⟨c, c', System.Reachable.of_exec init_sample hrun, hkey, hnamed, hstep, hbef, hafter, hver⟩

end ClerkRun

section

variable {hash : String → UInt64} {kv : KVServer} {net : Net} {clock : Clock} {args : PutArgs}

theorem doPut_version (h : (kv.doPut hash net clock args).2.err = .version) :
    (kv.doPut hash net clock args).1 = kv ∧ ClerkRun.forwarded hash kv clock args = [] := by
  revert h
  apply doPut_cases fun r => r.2.err = .version → r.1 = kv ∧
    ClerkRun.forwarded hash kv clock args = []
  · intro reply _ _ _ hidle _
    refine ⟨rfl, ?_⟩
    rw [ClerkRun.forwarded]
    cases hfwd : kv.forwards hash clock (.put args) with
    | none => rfl
    | some fwd =>
      obtain ⟨halive, hst, hpas, -⟩ := of_forwards_put_some hfwd
      rcases hidle with hdead | hother | hfails
      · cases halive.symm.trans hdead
      · exact absurd hst hother
      · exact absurd hpas hfails
  · exact nofun
  · exact nofun
  · exact nofun

end

/-- A call with whether a group has executed a put request of it: answered it with OK
or changed its store. -/
structure PutTrace where
  run : ClerkRun
  executed : Bool := false

namespace PutTrace

variable (hash : String → UInt64)

def executes (c : ClerkRun) : ClerkAction → Bool
  | .deliver i net clock =>
    c.inFlight[i]?.any fun rpc =>
      let r := (c.groups rpc.gid).doPut hash net clock rpc.args
      r.2.err = .ok || r.1.store ≠ (c.groups rpc.gid).store
  | _ => false

def system : System PutTrace ClerkAction where
  init t := (ClerkRun.system hash).init t.run ∧ t.executed = false
  step t action := (t.run.step hash action).map fun run =>
    ⟨run, t.executed || executes hash t.run action⟩

/-- In the first attempt the router turns to another replica only after its earlier
requests were lost. -/
def FailsOverLost (t : PutTrace) : ClerkAction → Prop
  | .send _ => t.run.call.rpcAttempted = true ∨ (t.run.inFlight = [] ∧ t.run.answers = [])
  | _ => True

variable {hash} {t t' : PutTrace}

/-- The requests of the first attempt: none applied and at most one on its way, or one
applied; a request that met a conflict left nothing behind. -/
def First (t : PutTrace) : Prop :=
  (t.run.answers = [] ∧ t.executed = false ∧ (t.run.inFlight = [] ∨
      ∃ rpc, t.run.inFlight = [rpc] ∧ rpc.attempt = some t.run.call.attempts)) ∨
  (t.run.answers ≠ [] ∧ (∀ rpc ∈ t.run.inFlight, rpc.attempt = none) ∧
    (.version ∈ t.run.answers → t.executed = false ∧ t.run.inFlight = []))

structure Inv (t : PutTrace) : Prop where
  ready : t.run.call.phase = .ready → t.run.call.rpcAttempted = false →
    t.run.answers = [] ∧ t.executed = false ∧ t.run.inFlight = []
  routing : t.run.call.phase = .routing → t.run.call.rpcAttempted = false → t.First
  refreshing : t.run.call.phase = .refreshing → t.run.call.rpcAttempted = true
  returned : t.run.call.phase = .returned .version → t.executed = false ∧ t.run.inFlight = []

theorem attempt_of_forwarded {kv : KVServer} {clock : Clock} {args : PutArgs} {rpc : PutRpc}
    (h : rpc ∈ ClerkRun.forwarded hash kv clock args) : rpc.attempt = none := by
  unfold ClerkRun.forwarded at h
  split at h
  · rw [mem_singleton.mp h]
  · cases h

theorem First.deliver (h : t.First) {i : Nat} {rpc : PutRpc} (hrpc : t.run.inFlight[i]? = some rpc)
    (net : Net) (clock : Clock) :
    First ⟨t.run.deliver hash i rpc net clock,
      t.executed || executes hash t.run (.deliver i net clock)⟩ := by
  have hmem := mem_of_getElem? hrpc
  rcases h with ⟨hans, hexe, hempty | ⟨own, hown, hatt⟩⟩ | ⟨hans, hnone, hver⟩
  · rw [hempty] at hmem
    cases hmem
  · -- The only request is applied, and its answer is the only one.
    rw [hown, mem_singleton] at hmem
    subst hmem
    have hi : i = 0 := by
      rw [hown] at hrpc
      have := (List.getElem?_eq_some_iff.mp hrpc).1
      simpa using this
    subst hi
    right
    simp only [ClerkRun.deliver, hatt, if_true, hans, nil_append, hown, eraseIdx_zero, tail_cons]
    refine ⟨cons_ne_nil _ _, fun r hr => attempt_of_forwarded hr, fun hcon => ?_⟩
    have herr := (mem_singleton.mp hcon).symm
    obtain ⟨hsame, hquiet⟩ := doPut_version herr
    refine ⟨?_, hquiet⟩
    simp [executes, hown, herr, hsame, hexe]
  · right
    have hfor : rpc.attempt ≠ some t.run.call.attempts := by
      rw [hnone rpc hmem]
      exact nofun
    simp only [ClerkRun.deliver, if_neg hfor]
    refine ⟨hans, fun r hr => ?_, fun hcon => ?_⟩
    · rcases mem_append.mp hr with hold | hnew
      · exact hnone r (mem_of_mem_eraseIdx hold)
      · exact attempt_of_forwarded hnew
    · rw [(hver hcon).2] at hmem
      cases hmem

theorem First.send (h : t.run.inFlight = [] ∧ t.run.answers = []) (hfirst : t.First) (gid : Int) :
    First ⟨{ t.run with inFlight := t.run.inFlight ++
      [⟨gid, some t.run.call.attempts, t.run.call.request⟩] }, t.executed⟩ := by
  rcases hfirst with ⟨hans, hexe, -⟩ | ⟨hans, -⟩
  · exact .inl ⟨hans, hexe, .inr ⟨_, by rw [h.1]; rfl, rfl⟩⟩
  · exact absurd h.2 hans

theorem First.lose (h : t.First) (i : Nat) :
    First ⟨{ t.run with inFlight := t.run.inFlight.eraseIdx i }, t.executed⟩ := by
  rcases h with ⟨hans, hexe, hempty | ⟨own, hown, hatt⟩⟩ | ⟨hans, hnone, hver⟩
  · exact .inl ⟨hans, hexe, .inl (by rw [hempty]; rfl)⟩
  · refine .inl ⟨hans, hexe, ?_⟩
    cases i with
    | zero => exact .inl (by rw [hown]; rfl)
    | succ i => exact .inr ⟨own, by rw [hown]; rfl, hatt⟩
  · refine .inr ⟨hans, fun rpc hmem => hnone rpc (mem_of_mem_eraseIdx hmem), fun hcon => ?_⟩
    obtain ⟨hexe, hempty⟩ := hver hcon
    exact ⟨hexe, by rw [hempty]; rfl⟩

theorem Inv.answer (h : t.Inv) (hph : t.run.call.phase = .routing) {result : Option Err}
    (hcan : t.run.canReturn result = true) :
    Inv ⟨{ t.run with call := t.run.call.answered result }, t.executed⟩ := by
  have hrdy : ∀ {call : PutCall}, call.rpcAttempted = true → call.phase ≠ .routing →
      call.phase ≠ .returned .version → Inv ⟨{ t.run with call := call }, t.executed⟩ :=
    fun hrpc hrou hret => ⟨fun _ hno => absurd hrpc (by rw [hno]; decide),
      fun hp => absurd hp hrou, fun _ => hrpc, fun hp => absurd hp hret⟩
  have hdone : ∀ {call : PutCall} {e : Err}, call.phase = .returned e →
      (e = .version → t.executed = false ∧ t.run.inFlight = []) →
      Inv ⟨{ t.run with call := call }, t.executed⟩ := by
    intro call e hp hver
    refine ⟨fun hother => ?_, fun hother => ?_, fun hother => ?_, fun hother => ?_⟩
    · cases hp.symm.trans hother
    · cases hp.symm.trans hother
    · cases hp.symm.trans hother
    · cases hp.symm.trans hother
      exact hver rfl
  unfold PutCall.answered
  dsimp only
  split
  · exact hdone rfl nofun
  · exact hdone rfl nofun
  · unfold PutCall.conflict
    split
    · rename_i hfirst
      refine hdone rfl fun _ => ?_
      have hans : .version ∈ t.run.answers := by simpa [ClerkRun.canReturn] using hcan
      rcases h.routing hph (by simpa using hfirst) with ⟨hempty, -⟩ | ⟨-, -, hver⟩
      · rw [hempty] at hans
        cases hans
      · exact hver hans
    · rename_i hlater
      split
      · exact hrdy (by simpa using hlater) (by simp) (by simp)
      · exact hdone rfl nofun
  · exact hrdy rfl (by simp) (by simp)

theorem inv_step (action : ClerkAction) (h : t.Inv) (hok : t.FailsOverLost action)
    (hstep : (system hash).step t action = some t') : t'.Inv := by
  obtain ⟨run, hrun, rfl⟩ := map_eq_some_iff.mp hstep
  have hother : executes hash t.run action = false →
      Inv ⟨run, t.executed⟩ → Inv ⟨run, t.executed || executes hash t.run action⟩ := by
    intro hno hinv
    rw [hno, Bool.or_false]
    exact hinv
  cases action with
  | attempt =>
    refine hother rfl ?_
    simp only [ClerkRun.step] at hrun
    split_ifs at hrun with hguard
    cases hrun
    refine ⟨nofun, fun _ hfirst => ?_, nofun, nofun⟩
    obtain ⟨-, hexe, hempty⟩ := h.ready hguard.1 hfirst
    exact .inl ⟨rfl, hexe, .inl hempty⟩
  | giveUp =>
    refine hother rfl ?_
    simp only [ClerkRun.step] at hrun
    split_ifs at hrun
    cases hrun
    exact ⟨nofun, nofun, nofun, nofun⟩
  | send gid =>
    refine hother rfl ?_
    simp only [ClerkRun.step] at hrun
    split_ifs at hrun with hph
    cases hrun
    have hno : ∀ {p : PutPhase}, p ≠ .routing → t.run.call.phase ≠ p :=
      fun hp heq => hp (heq.symm.trans hph)
    refine ⟨fun hp => absurd hp (hno (by simp)), fun _ hfirst => ?_,
      fun hp => absurd hp (hno (by simp)), fun hp => absurd hp (hno (by simp))⟩
    rcases hok with hlater | hquiet
    · cases hfirst.symm.trans hlater
    · exact First.send hquiet (h.routing hph hfirst) gid
  | deliver i net clock =>
    obtain ⟨rpc, hrpc, rfl⟩ := map_eq_some_iff.mp hrun
    have hsome : t.run.inFlight ≠ [] := ne_nil_of_mem (mem_of_getElem? hrpc)
    exact ⟨fun hp hfirst => absurd (h.ready hp hfirst).2.2 hsome,
      fun hp hfirst => (h.routing hp hfirst).deliver hrpc net clock, h.refreshing,
      fun hp => absurd (h.returned hp).2 hsome⟩
  | lose i =>
    refine hother rfl ?_
    cases hrun
    refine ⟨fun hp hfirst => ?_, fun hp hfirst => (h.routing hp hfirst).lose i, h.refreshing,
      fun hp => ?_⟩
    · obtain ⟨hans, hexe, hempty⟩ := h.ready hp hfirst
      exact ⟨hans, hexe, by rw [hempty]; rfl⟩
    · obtain ⟨hexe, hempty⟩ := h.returned hp
      exact ⟨hexe, by rw [hempty]; rfl⟩
  | answer result =>
    refine hother rfl ?_
    simp only [ClerkRun.step] at hrun
    split_ifs at hrun with hguard
    cases hrun
    exact h.answer hguard.1 hguard.2
  | refresh latestV =>
    refine hother rfl ?_
    simp only [ClerkRun.step] at hrun
    split_ifs at hrun with hph
    cases hrun
    have hrpc := h.refreshing hph
    refine ⟨fun _ hfirst => ?_, nofun, nofun, nofun⟩
    cases hfirst.symm.trans hrpc
  | command gid input =>
    refine hother rfl ?_
    obtain ⟨r, -, rfl⟩ := map_eq_some_iff.mp hrun
    exact ⟨h.ready, h.routing, h.refreshing, h.returned⟩

theorem inv_init (h : (system hash).init t) : t.Inv := by
  obtain ⟨run, executed⟩ := t
  obtain ⟨⟨groups, key, value, version, hrun⟩, hexe⟩ := h
  dsimp only at hrun hexe
  subst hrun hexe
  exact ⟨fun _ _ => ⟨rfl, rfl, rfl⟩, nofun, nofun, nofun⟩

/-- Once the call has returned `ErrVersion`, no group has executed a request of it and
none is on its way, if the router turned to another replica in the first attempt only
after its earlier requests were lost. -/
theorem put_conflict_not_executed (ht : (system hash).Reachable FailsOverLost t)
    (hret : t.run.call.phase = .returned .version) : t.executed = false ∧ t.run.inFlight = [] :=
  (ht.invariant (fun _ => inv_init) fun _ action _ hi hok hs => inv_step action hi hok hs).returned
    hret

instance (t : PutTrace) (action : ClerkAction) : Decidable (t.FailsOverLost action) := by
  unfold FailsOverLost
  split <;> infer_instance

theorem init_sample : (system fun _ => 0).init ⟨ClerkRun.sample, false⟩ :=
  ⟨ClerkRun.init_sample, rfl⟩

theorem put_conflict_not_executed_sample :
    ∃ t, (system fun _ => 0).Reachable FailsOverLost t ∧
      t.run.call.phase = .returned .version ∧ t.executed = false ∧ t.run.inFlight = [] := by
  obtain ⟨t, hrun, hph⟩ := (system fun _ => 0).exists_of_execOk FailsOverLost
    ⟨ClerkRun.sample, false⟩
    [.command 1 (atZero (.put ⟨"k", "other", 1, 0⟩)), .attempt, .send 1, .lose 0,
      .send 1, .deliver 0 .offline ⟨0, 0⟩, .answer (some .version)]
    (fun t => t.run.call.phase = .returned .version) (by decide +kernel)
  exact ⟨t, ⟨_, init_sample, hrun⟩, hph, put_conflict_not_executed ⟨_, init_sample, hrun⟩ hph⟩

theorem put_conflict_executed :
    ∃ t, (system fun _ => 0).Reachable System.anyStep t ∧
      t.run.call.phase = .returned .version ∧ t.executed = true ∧
      (t.run.groups 1).store["k"]? = some (.entry ⟨"mine", 2, 0⟩) :=
  System.exists_reachable_of_exec ⟨ClerkRun.sample, false⟩
    [.attempt, .send 1, .deliver 0 .offline ⟨0, 0⟩, .send 1, .deliver 0 .offline ⟨0, 0⟩,
      .answer (some .version)] init_sample (by decide +kernel)

end PutTrace

end OrbisKV.KV
