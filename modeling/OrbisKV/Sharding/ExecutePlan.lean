import OrbisKV.KV.DualWrite
import OrbisKV.Sharding.Migrator
/-!
# The execution of a migration plan

`ExecutePlan` copies the keys of a plan one after another and may delete each from its
source once the copy was read back.
-/

namespace OrbisKV.KV

open Std Function KVServer List Option

def migrationDeleteAccepted (resp : DeleteReply) : Bool := resp.err = .ok || resp.err = .noKey

/-- A replica executes a call. -/
structure Handling (G : Type) where
  net : Net
  clock : Clock
  peer : G
  exchange : Exchange

/-- The executions of a call whose replies are lost, and the one whose reply the caller
gets. -/
structure Fate (G : Type) where
  strays : List (Handling G)
  answer : Option (Handling G)

inductive PlanCall
  | getSource
  | getTarget
  | put
  | verifyPut
  | getSourceAgain
  | deleteSource
  | verifyDelete
  | rollbackDelete
  | rollbackGet
  | rollbackPut
deriving DecidableEq, Repr

/-- Whether the context has ended when an item is reached, and what becomes of the calls
that the item leads to. -/
structure Attempt (G : Type) where
  cancelled : Bool
  fate : PlanCall → Fate G

def Fate.executed {G : Type} (fate : Fate G) : Bool :=
  !fate.strays.isEmpty || fate.answer.isSome

/-- The rollback to what the target had takes effect. -/
def Attempt.undoes {G : Type} (a : Attempt G) : Option String → Bool
  | none => (a.fate .rollbackDelete).executed
  | some _ => (a.fate .rollbackGet).answer.isSome && (a.fate .rollbackPut).executed

/-- The copy is made, its source delete is executed without the replies to it and to the get
after it, and the target gets back what it had, `before`. -/
def Attempt.loses {G : Type} (a : Attempt G) (before : Option String) : Bool :=
  let answered := fun call => (a.fate call).answer.isSome
  answered .getSource && answered .getTarget && (a.fate .put).strays.isEmpty && answered .put &&
    answered .verifyPut && answered .getSourceAgain && (a.fate .deleteSource).executed &&
    !(answered .deleteSource && answered .verifyDelete) && a.undoes before

structure MigrationStats where
  planned : Nat := 0
  migrated : Nat := 0
  deletedFromSrc : Nat := 0
  skipped : Nat := 0
  failed : Nat := 0
deriving DecidableEq, Repr

structure Migrator (G : Type) where
  source : Int → G
  target : Int → G

/-- The loop of `ExecutePlan`; once the context has ended it returns. -/
structure PlanRun (G : Type) where
  groups : G → KVServer
  stats : MigrationStats
  cancelled : Bool := false

namespace Migrator

variable {G : Type} [DecidableEq G] (hash : String → UInt64)

def execute (groups : G → KVServer) (g : G) (req : Request) (e : Handling G) :
    Option ((G → KVServer) × Reply) :=
  ((groups g).dualApply hash (groups e.peer) ⟨req, e.net, e.clock⟩ e.exchange).map fun r =>
    (update (update groups e.peer r.2.1) g r.1, r.2.2)

/-- `GetFromGroup`, `PutToGroup` or `DeleteFromGroup`, which try the replicas in turn. -/
def rpc (groups : G → KVServer) (g : G) (req : Request) (fate : Fate G) :
    (G → KVServer) × Option Reply :=
  let groups := fate.strays.foldl
    (fun groups e => ((execute hash groups g req e).map Prod.fst).getD groups) groups
  match fate.answer.bind (execute hash groups g req) with
  | none => (groups, none)
  | some (groups, reply) => (groups, some reply)

def fetchGroupValue (groups : G → KVServer) (g : G) (key : String) (fate : Fate G) :
    (G → KVServer) × Option GetReply :=
  match rpc hash groups g (.get key) fate with
  | (groups, some (.get resp)) => (groups, if migrationGetAccepted resp then some resp else none)
  | (groups, _) => (groups, none)

variable (m : Migrator G)

def rollbackTarget (groups : G → KVServer) (item : MigrationPlanItem) (before : GetReply)
    (a : Attempt G) : (G → KVServer) × Bool :=
  let target := m.target item.targetGroup
  if before.err = .noKey then
    match rpc hash groups target (.delete item.key) (a.fate .rollbackDelete) with
    | (groups, some (.delete resp)) => (groups, migrationDeleteAccepted resp)
    | (groups, _) => (groups, false)
  else
    match fetchGroupValue hash groups target item.key (a.fate .rollbackGet) with
    | (groups, none) => (groups, false)
    | (groups, some current) =>
      if current.err ≠ .ok then (groups, false)
      else
        match rpc hash groups target (.put ⟨item.key, before.value, current.version, 0⟩)
          (a.fate .rollbackPut) with
        | (groups, some (.put resp)) => (groups, migrationPutAccepted resp)
        | (groups, _) => (groups, false)

def deleteSourceWithVerify (groups : G → KVServer) (item : MigrationPlanItem) (a : Attempt G) :
    (G → KVServer) × Bool :=
  let source := m.source item.sourceGroup
  match fetchGroupValue hash groups source item.key (a.fate .getSourceAgain) with
  | (groups, none) => (groups, false)
  | (groups, some srcBefore) =>
    if srcBefore.err ≠ .ok ∨ srcBefore.value ≠ item.value then (groups, false)
    else
      match rpc hash groups source (.delete item.key) (a.fate .deleteSource) with
      | (groups, some (.delete resp)) =>
        if !migrationDeleteAccepted resp then (groups, false)
        else
          match fetchGroupValue hash groups source item.key (a.fate .verifyDelete) with
          | (groups, none) => (groups, false)
          | (groups, some srcAfter) => (groups, srcAfter.err = .noKey)
      | (groups, _) => (groups, false)

/-- The put of an item whose target value differs, and what follows it. -/
def copyItem (deleteSource : Bool) (groups : G → KVServer) (stats : MigrationStats)
    (item : MigrationPlanItem) (targetBefore : GetReply) (a : Attempt G) : PlanRun G :=
  let target := m.target item.targetGroup
  let failed := { stats with failed := stats.failed + 1 }
  match rpc hash groups target
    (.put ⟨item.key, item.value, migrationPutVersion targetBefore, 0⟩) (a.fate .put) with
  | (groups, some (.put resp)) =>
    if !migrationPutAccepted resp then ⟨groups, failed, false⟩
    else
      let (groups, after) := fetchGroupValue hash groups target item.key (a.fate .verifyPut)
      if !after.any (migrationValueEquals · item) then
        ⟨(m.rollbackTarget hash groups item targetBefore a).1, failed, false⟩
      else
        let stats := { stats with migrated := stats.migrated + 1 }
        if !deleteSource then ⟨groups, stats, false⟩
        else
          match m.deleteSourceWithVerify hash groups item a with
          | (groups, true) =>
            ⟨groups, { stats with deletedFromSrc := stats.deletedFromSrc + 1 }, false⟩
          | (groups, false) =>
            ⟨(m.rollbackTarget hash groups item targetBefore a).1,
              { stats with failed := stats.failed + 1 }, false⟩
  | (groups, _) => ⟨groups, failed, false⟩

def processItem (deleteSource : Bool) (run : PlanRun G) (item : MigrationPlanItem)
    (a : Attempt G) : PlanRun G :=
  let failed := { run.stats with failed := run.stats.failed + 1 }
  let skipped := { run.stats with skipped := run.stats.skipped + 1 }
  if run.cancelled || a.cancelled then { run with cancelled := true }
  else
    match fetchGroupValue hash run.groups (m.source item.sourceGroup) item.key
      (a.fate .getSource) with
    | (groups, none) => ⟨groups, failed, false⟩
    | (groups, some sourceBefore) =>
      if sourceBefore.err = .noKey then ⟨groups, skipped, false⟩
      else if sourceBefore.value ≠ item.value then ⟨groups, failed, false⟩
      else
        match fetchGroupValue hash groups (m.target item.targetGroup) item.key
          (a.fate .getTarget) with
        | (groups, none) => ⟨groups, failed, false⟩
        | (groups, some targetBefore) =>
          if migrationValueEquals targetBefore item then
            if !deleteSource then ⟨groups, skipped, false⟩
            else
              match m.deleteSourceWithVerify hash groups item a with
              | (groups, true) =>
                ⟨groups, { run.stats with
                  deletedFromSrc := run.stats.deletedFromSrc + 1
                  migrated := run.stats.migrated + 1 }, false⟩
              | (groups, false) => ⟨groups, failed, false⟩
          else m.copyItem hash deleteSource groups run.stats item targetBefore a

def processItems (deleteSource : Bool) (run : PlanRun G)
    (plan : List (MigrationPlanItem × Attempt G)) : PlanRun G :=
  plan.foldl (fun run p => m.processItem hash deleteSource run p.1 p.2) run

def executePlan (deleteSource : Bool) (groups : G → KVServer)
    (plan : List (MigrationPlanItem × Attempt G)) : PlanRun G :=
  let run := m.processItems hash deleteSource ⟨groups, {}, false⟩ plan
  { run with stats.planned := plan.length }

end Migrator

namespace KVServer

variable {hash : String → UInt64} {kv kv' : KVServer} {key : String} {slot : Option KVEntry}

variable (hash) in
/-- The server takes writes of the key and has under it, if anything, an entry that does not
expire. -/
structure Keeps (kv : KVServer) (key : String) (slot : Option KVEntry) : Prop where
  alive : kv.dead = false
  serves : kv.Serves hash key
  entry : kv.store[key]? = slot.map .entry
  lasting : ∀ e ∈ slot, e.expires ≤ 0

def slotReply (slot : Option KVEntry) : GetReply :=
  slot.elim { err := .noKey } fun e =>
    { value := e.value, version := e.version.toInt64, expires := e.expires, err := .ok }

theorem holds_of_plain (halive : kv.dead = false) (hserves : kv.Serves hash key)
    (hplain : kv.Plain key) : ∃ slot, kv.Keeps hash key slot := by
  obtain ⟨found, -, -, hkey, -⟩ := hplain.get
  refine ⟨found, halive, hserves, hkey, fun e he => ?_⟩
  obtain ⟨e', heq, hle⟩ := hplain (.entry e) (by rw [hkey, he]; rfl)
  cases heq
  exact hle

section

variable (h : kv.Keeps hash key slot)

include h

theorem Keeps.value : kv.value key = slot.map KVEntry.value := by
  rw [KVServer.value, h.entry]
  cases slot <;> rfl

theorem Keeps.wrote {K : String → Prop} (hwrote : Wrote K kv kv')
    (hkey : ¬K key) : kv'.Keeps hash key slot := by
  refine ⟨?_, ?_, (hwrote.store.getElem? hkey).trans h.entry, h.lasting⟩
  · rw [hwrote.rest]
    exact h.alive
  · rw [hwrote.rest]
    exact h.serves

theorem Keeps.get : kv.store.get key = .ok slot := by
  rw [Store.get, h.entry]
  cases slot <;> rfl

theorem Keeps.live? (now : Int64) : live? slot now = slot := by
  cases slot with
  | none => rfl
  | some e => exact live?_of_le (h.lasting e rfl) now

theorem Keeps.doGet (now : Int64) : kv.doGet hash now key = slotReply slot := by
  unfold KVServer.doGet
  rw [if_neg (by rw [h.alive]; decide), if_neg h.serves.ne_absent, h.get]
  cases slot with
  | none => rfl
  | some e =>
    dsimp only
    rw [isExpired_of_le (h.lasting e rfl)]
    rfl

theorem Keeps.doDelete (net : Net) (now : Int64) :
    (kv.doDelete hash net now key).1.Keeps hash key none ∧
      migrationDeleteAccepted (kv.doDelete hash net now key).2 = true := by
  rw [doDelete_eq_local hash h.alive h.serves.ne_absent h.serves.ne_migrating, doDeleteLocal, h.get]
  dsimp only
  rw [h.live?]
  cases slot with
  | none => exact ⟨h, rfl⟩
  | some e => exact ⟨⟨h.alive, h.serves, ExtTreeMap.getElem?_erase_self, by simp⟩, rfl⟩

end

/-- What a put of the version leaves. -/
def putSlot (value : String) (version : UInt64) (slot : Option KVEntry) : Option KVEntry :=
  if slot.elim 0 KVEntry.version = version then some ⟨value, version + 1, 0⟩ else slot

theorem putSlot_putSlot (value : String) (version : UInt64) (slot : Option KVEntry) :
    putSlot value version (putSlot value version slot) = putSlot value version slot := by
  unfold putSlot
  split_ifs with hsame hagain
  · rfl
  · rfl
  · rfl

theorem Keeps.doPut (h : kv.Keeps hash key slot) (net : Net) (clock : Clock) (value : String)
    (version : Tversion) :
    (kv.doPut hash net clock ⟨key, value, version, 0⟩).1.Keeps hash key
        (putSlot value version.toUInt64 slot) ∧
      migrationPutAccepted (kv.doPut hash net clock ⟨key, value, version, 0⟩).2 =
        decide (slot.elim 0 KVEntry.version = version.toUInt64) := by
  have hadmits : kv.Admits clock.casNow ⟨key, value, version, 0⟩ ↔
      slot.elim 0 KVEntry.version = version.toUInt64 := by
    rw [Admits, h.get]
    dsimp only
    rw [h.live?]
  unfold putSlot
  by_cases hsame : slot.elim 0 KVEntry.version = version.toUInt64
  · have hok : (kv.doPut hash net clock ⟨key, value, version, 0⟩).2.err = .ok :=
      doPut_of_admits h.alive h.serves (hadmits.mpr hsame)
    rw [if_pos hsame, doPut_ok hok, migrationPutAccepted, hok, decide_eq_true hsame]
    refine ⟨⟨h.alive, h.serves, ExtTreeMap.getElem?_insert_self, ?_⟩, rfl⟩
    rintro e ⟨⟩
    exact Int64.le_refl 0
  · rw [if_neg hsame, decide_eq_false hsame, doPut_eq_local hash h.alive h.serves.ne_absent
      h.serves.ne_migrating, doPutLocal]
    split
    · exact ⟨h, rfl⟩
    · rename_i store old hput
      exact absurd (hadmits.mp (admits_iff.mpr ⟨store, old, hput⟩)) hsame
    · exact ⟨h, rfl⟩
    · exact ⟨h, rfl⟩

end KVServer

namespace Migrator

variable {G : Type} {hash : String → UInt64} {m : Migrator G}
  {groups groups' groups'' : G → KVServer} {g : G} {key : String} {req : Request}
  {reply : Reply} {e : Handling G} {fate : Fate G} {slot : Option KVEntry}

structure Touched (key : String) (g : G) (groups groups' : G → KVServer) : Prop where
  others : ∀ h, h ≠ g → groups' h = groups h
  wrote : KVServer.Wrote (· = key) (groups g) (groups' g)

theorem Touched.refl (key : String) (g : G) (groups : G → KVServer) :
    Touched key g groups groups := ⟨fun _ _ => rfl, .refl _⟩

theorem Touched.trans (h : Touched key g groups groups') (h' : Touched key g groups' groups'') :
    Touched key g groups groups'' :=
  ⟨fun x hx => (h'.others x hx).trans (h.others x hx), h.wrote.trans h'.wrote⟩

def Beside (key : String) (groups groups' : G → KVServer) : Prop :=
  ∀ g, KVServer.Wrote (· = key) (groups g) (groups' g)

theorem Beside.trans (h : Beside key groups groups') (h' : Beside key groups' groups'') :
    Beside key groups groups'' := fun g => (h g).trans (h' g)

theorem Touched.beside (h : Touched key g groups groups') : Beside key groups groups' := by
  intro x
  by_cases hx : x = g
  · subst hx
    exact h.wrote
  · rw [h.others x hx]
    exact .refl _

variable (hash) in
/-- No group gives the shard of the key away. -/
def Settled (groups : G → KVServer) (key : String) : Prop :=
  ∀ g, ((groups g).shardOf hash key).state ≠ .migrating

theorem Settled.beside {k : String} (hst : Settled hash groups k)
    (h : Beside key groups groups') : Settled hash groups' k := by
  intro x
  rw [shardOf, (h x).shardMgr]
  exact hst x

variable (hash) in
def fetched (groups : G → KVServer) (g : G) (key : String) (fate : Fate G) : Option GetReply :=
  (fate.answer.map fun e => (groups g).doGet hash e.clock.now key).filter migrationGetAccepted

theorem fetched_eq (h : (groups g).Keeps hash key slot) (fate : Fate G) :
    fetched hash groups g key fate = fate.answer.map fun _ => slotReply slot := by
  unfold fetched
  cases fate.answer with
  | none => rfl
  | some e =>
    rw [map_some, h.doGet]
    cases slot <;> rfl

def acceptedPut : Reply → Bool
  | .put resp => migrationPutAccepted resp
  | _ => false

def acceptedDelete : Reply → Bool
  | .delete resp => migrationDeleteAccepted resp
  | _ => false

variable [DecidableEq G]

section

variable (hst : Settled hash groups key) (hkey : req.key? = some key)

include hst hkey

theorem execute_eq {kv : KVServer}
    (hop : (groups g).doOp hash e.net e.clock req = some (kv, reply)) :
    execute hash groups g req e = some (update groups g kv, reply) := by
  unfold execute dualApply
  rw [forwards_of_ne_migrating hkey (hst g)]
  simp only [hop, map_some, update_eq_self]

theorem touched_execute
    (h : execute hash groups g req e = some (groups', reply)) : Touched key g groups groups' := by
  cases hop : (groups g).doOp hash e.net e.clock req with
  | none =>
    rw [execute, dualApply, forwards_of_ne_migrating hkey (hst g)] at h
    simp only [hop, map_none] at h
    cases h
  | some r =>
    rw [execute_eq hst hkey hop] at h
    cases h
    refine ⟨fun x hx => update_of_ne hx _ _, ?_⟩
    rw [update_self]
    exact wrote_of_key hkey hop

/-- The executions whose replies are lost. -/
theorem touched_strays (strays : List (Handling G)) : Touched key g groups (strays.foldl
      (fun groups e => ((execute hash groups g req e).map Prod.fst).getD groups) groups) := by
  induction strays generalizing groups with
  | nil => exact .refl key g groups
  | cons e strays ih =>
    rw [foldl_cons]
    cases hrun : execute hash groups g req e with
    | none => exact ih hst
    | some r =>
      have htouched := touched_execute hst hkey hrun
      exact htouched.trans (ih (hst.beside htouched.beside))

theorem touched_rpc : Touched key g groups (rpc hash groups g req fate).1 := by
  have hstrays : Touched key g groups _ := touched_strays hst hkey fate.strays
  unfold rpc
  dsimp only
  split
  · exact hstrays
  · rename_i answer
    obtain ⟨e, -, hrun⟩ := bind_eq_some_iff.mp answer
    exact hstrays.trans (touched_execute (hst.beside hstrays.beside) hkey hrun)

end

/-- A call that may be executed several times, each time with the effect of the first. -/
theorem rpc_spec (req : Request) (fate : Fate G) (next : Option KVEntry → Option KVEntry)
    (took : Option KVEntry → Bool) (accepted : Reply → Bool) (hst : Settled hash groups key)
    (hkey : req.key? = some key)
    (hnext : ∀ slot, next (next slot) = next slot)
    (hop : ∀ (kv : KVServer) slot net clock, kv.Keeps hash key slot → ∃ kv' reply,
      kv.doOp hash net clock req = some (kv', reply) ∧ kv'.Keeps hash key (next slot) ∧
        accepted reply = took slot)
    (h : (groups g).Keeps hash key slot) :
    ((rpc hash groups g req fate).1 g).Keeps hash key (if fate.executed then next slot else slot) ∧
      (rpc hash groups g req fate).2.any accepted = (fate.answer.isSome &&
        took (if fate.strays.isEmpty then slot else next slot)) := by
  have hmid : (fate.strays.foldl (fun groups e => ((execute hash groups g req e).map
      Prod.fst).getD groups) groups g).Keeps hash key
        (if fate.strays.isEmpty then slot else next slot) := by
    generalize fate.strays = strays
    induction strays generalizing groups slot with
    | nil => exact h
    | cons e strays ih =>
      obtain ⟨kv, reply, hrun, hafter, -⟩ := hop _ _ e.net e.clock h
      have hexec := execute_eq hst hkey hrun
      have hrest := @ih _ (next slot) (hst.beside (touched_execute hst hkey hexec).beside)
        (by rwa [update_self])
      rw [hnext, ite_self] at hrest
      rw [foldl_cons, hexec]
      exact hrest
  have hst' := hst.beside (touched_strays (g := g) hst hkey fate.strays).beside
  unfold rpc Fate.executed
  generalize fate.strays.foldl _ groups = mid at hmid hst'
  cases fate.answer with
  | none =>
    refine ⟨?_, rfl⟩
    cases hempty : fate.strays.isEmpty <;> simpa [hempty] using hmid
  | some e =>
    obtain ⟨kv, reply, hrun, hafter, htook⟩ := hop _ _ e.net e.clock hmid
    simp only [bind_some, execute_eq hst' hkey hrun, isSome_some, Bool.or_true,
      if_true, any_some, htook, Bool.true_and, update_self, and_true]
    split at hafter
    · exact hafter
    · rwa [hnext] at hafter

theorem rpc_delete (fate : Fate G) (hst : Settled hash groups key)
    (h : (groups g).Keeps hash key slot) :
    ((rpc hash groups g (.delete key) fate).1 g).Keeps hash key
        (if fate.executed then none else slot) ∧
      (rpc hash groups g (.delete key) fate).2.any acceptedDelete = fate.answer.isSome := by
  have hspec := rpc_spec (.delete key) fate (fun _ => none) (fun _ => true) acceptedDelete hst rfl
    (fun _ => rfl) (fun kv slot net clock h => ⟨_, _, rfl, h.doDelete net clock.now⟩) h
  rwa [Bool.and_true] at hspec

theorem rpc_put (fate : Fate G) (hst : Settled hash groups key)
    (h : (groups g).Keeps hash key slot) (value : String) (version : Tversion)
    (hversion : slot.elim 0 KVEntry.version = version.toUInt64) :
    ((rpc hash groups g (.put ⟨key, value, version, 0⟩) fate).1 g).Keeps hash key
        (if fate.executed then some ⟨value, version.toUInt64 + 1, 0⟩ else slot) ∧
      (rpc hash groups g (.put ⟨key, value, version, 0⟩) fate).2.any acceptedPut =
        (fate.answer.isSome && fate.strays.isEmpty) := by
  obtain ⟨hholds, hany⟩ := rpc_spec (.put ⟨key, value, version, 0⟩) fate
    (putSlot value version.toUInt64)
    (fun slot => decide (slot.elim 0 KVEntry.version = version.toUInt64)) acceptedPut hst rfl
    (putSlot_putSlot value version.toUInt64)
    (fun kv slot net clock h => ⟨_, _, rfl, h.doPut net clock value version⟩) h
  rw [putSlot, if_pos hversion] at hholds
  refine ⟨hholds, hany.trans (congrArg _ ?_)⟩
  cases fate.strays.isEmpty with
  | true => exact decide_eq_true hversion
  | false => simp [putSlot, hversion]

theorem fetchGroupValue_eq (groups : G → KVServer) (g : G) (key : String) (fate : Fate G) :
    fetchGroupValue hash groups g key fate = (groups, fetched hash groups g key fate) := by
  have hrun : ∀ e, execute hash groups g (.get key) e =
      some (groups, .get ((groups g).doGet hash e.clock.now key)) := by
    intro e
    simp [execute, dualApply, forwards, doOp]
  unfold fetchGroupValue rpc fetched
  rw [foldl_fixed' (by intro e; rw [hrun e]; rfl)]
  cases fate.answer with
  | none => rfl
  | some e => simp [hrun e, Option.filter]

section Item

variable (m : Migrator G) {item : MigrationPlanItem} {a : Attempt G} {before : GetReply}
  {deleteSource : Bool} {stats : MigrationStats} {run : PlanRun G}

theorem deleteSourceWithVerify_eq :
    m.deleteSourceWithVerify hash groups item a =
      let source := m.source item.sourceGroup
      let r := rpc hash groups source (.delete item.key) (a.fate .deleteSource)
      if (fetched hash groups source item.key (a.fate .getSourceAgain)).any
          (migrationValueEquals · item) then
        (r.1, r.2.any acceptedDelete && (fetched hash r.1 source item.key
          (a.fate .verifyDelete)).any (·.err = .noKey))
      else (groups, false) := by
  unfold deleteSourceWithVerify
  simp only [fetchGroupValue_eq]
  cases fetched hash groups (m.source item.sourceGroup) item.key (a.fate .getSourceAgain) with
  | none => rfl
  | some resp =>
    simp only [any_some, migrationValueEquals, Bool.and_eq_true, decide_eq_true_eq]
    by_cases hequal : resp.err = .ok ∧ resp.value = item.value
    · rw [if_pos hequal, if_neg (by tauto)]
      rcases rpc hash groups (m.source item.sourceGroup) (.delete item.key)
        (a.fate .deleteSource) with ⟨after, _ | reply⟩
      · rfl
      · cases reply with
        | delete resp =>
          cases hacc : migrationDeleteAccepted resp with
          | false => simp [acceptedDelete, hacc]
          | true =>
            cases hver : fetched hash after (m.source item.sourceGroup) item.key
              (a.fate .verifyDelete) <;> simp [acceptedDelete, hacc, hver]
        | _ => rfl
    · rw [if_neg hequal, if_pos (by tauto)]

theorem rollbackTarget_eq :
    (m.rollbackTarget hash groups item before a).1 =
      let target := m.target item.targetGroup
      if before.err = .noKey then
        (rpc hash groups target (.delete item.key) (a.fate .rollbackDelete)).1
      else
        ((fetched hash groups target item.key (a.fate .rollbackGet)).filter (·.err = .ok)).elim
          groups fun current => (rpc hash groups target
            (.put ⟨item.key, before.value, current.version, 0⟩) (a.fate .rollbackPut)).1 := by
  unfold rollbackTarget
  simp only [fetchGroupValue_eq]
  split_ifs
  · split <;> simp_all
  · cases fetched hash groups (m.target item.targetGroup) item.key (a.fate .rollbackGet) with
    | none => rfl
    | some current =>
      by_cases hok : current.err = .ok
      · simp only [filter_some, hok, decide_true, if_true, elim_some, ne_eq, not_true, if_false]
        split <;> simp_all
      · simp [filter_some, hok]

theorem copyItem_eq :
    (m.copyItem hash deleteSource groups stats item before a).cancelled = false ∧
    (m.copyItem hash deleteSource groups stats item before a).groups =
      let target := m.target item.targetGroup
      let r := rpc hash groups target
        (.put ⟨item.key, item.value, migrationPutVersion before, 0⟩) (a.fate .put)
      let d := m.deleteSourceWithVerify hash r.1 item a
      if !r.2.any acceptedPut then r.1
      else if !(fetched hash r.1 target item.key (a.fate .verifyPut)).any
          (migrationValueEquals · item) then (m.rollbackTarget hash r.1 item before a).1
      else if !deleteSource then r.1
      else if d.2 then d.1 else (m.rollbackTarget hash d.1 item before a).1 := by
  unfold copyItem
  simp only [fetchGroupValue_eq]
  rcases rpc hash groups (m.target item.targetGroup)
    (.put ⟨item.key, item.value, migrationPutVersion before, 0⟩) (a.fate .put)
    with ⟨after, _ | reply⟩
  · exact ⟨rfl, rfl⟩
  · cases reply with
    | put resp =>
      simp only [any_some, acceptedPut]
      split_ifs
      · exact ⟨rfl, rfl⟩
      · exact ⟨rfl, rfl⟩
      · exact ⟨rfl, rfl⟩
      all_goals split <;> simp_all
    | _ => exact ⟨rfl, rfl⟩

/-! What an item touches -/

variable (a)

theorem touched_deleteSourceWithVerify
    (hst : Settled hash groups item.key) : Touched item.key (m.source item.sourceGroup) groups
      (m.deleteSourceWithVerify hash groups item a).1 := by
  rw [deleteSourceWithVerify_eq]
  dsimp only
  split_ifs
  · exact touched_rpc hst rfl
  · exact .refl ..

theorem touched_rollbackTarget (before : GetReply)
    (hst : Settled hash groups item.key) : Touched item.key (m.target item.targetGroup) groups
      (m.rollbackTarget hash groups item before a).1 := by
  rw [rollbackTarget_eq]
  dsimp only
  split_ifs
  · exact touched_rpc hst rfl
  · cases (fetched hash groups (m.target item.targetGroup) item.key
      (a.fate .rollbackGet)).filter (·.err = .ok) with
    | none => exact .refl ..
    | some current => exact touched_rpc hst rfl

theorem beside_copyItem (hst : Settled hash groups item.key) : Beside item.key groups
      (m.copyItem hash deleteSource groups stats item before a).groups := by
  have hput : Touched item.key (m.target item.targetGroup) groups (rpc hash groups _
      (.put ⟨item.key, item.value, migrationPutVersion before, 0⟩) (a.fate .put)).1 :=
    touched_rpc hst rfl
  have hst' := hst.beside hput.beside
  have hdelete := (m.touched_deleteSourceWithVerify a hst').beside
  rw [(m.copyItem_eq ..).2]
  dsimp only
  split_ifs
  · exact hput.beside
  · exact hput.beside.trans (m.touched_rollbackTarget a before hst').beside
  · exact hput.beside
  · exact hput.beside.trans hdelete
  · exact (hput.beside.trans hdelete).trans
      (m.touched_rollbackTarget a before (hst'.beside hdelete)).beside

theorem processItem_eq :
    (m.processItem hash deleteSource run item a).cancelled = (run.cancelled || a.cancelled) ∧
    (m.processItem hash deleteSource run item a).groups =
      if (run.cancelled || a.cancelled) || !(fetched hash run.groups (m.source item.sourceGroup)
          item.key (a.fate .getSource)).any (fun r => r.err ≠ .noKey ∧ r.value = item.value) then
        run.groups
      else
        (fetched hash run.groups (m.target item.targetGroup) item.key (a.fate .getTarget)).elim
          run.groups fun before =>
            if migrationValueEquals before item then
              if !deleteSource then run.groups
              else (m.deleteSourceWithVerify hash run.groups item a).1
            else (m.copyItem hash deleteSource run.groups run.stats item before a).groups := by
  unfold processItem
  simp only [fetchGroupValue_eq]
  cases hstop : run.cancelled || a.cancelled with
  | true => exact ⟨rfl, rfl⟩
  | false =>
    simp only [Bool.false_eq_true, if_false, Bool.false_or]
    cases fetched hash run.groups (m.source item.sourceGroup) item.key (a.fate .getSource) with
    | none => exact ⟨rfl, rfl⟩
    | some source =>
      by_cases hnone : source.err = .noKey
      · simp [hnone]
      by_cases hvalue : source.value = item.value
      · simp only [hnone, hvalue, if_false, ne_eq, not_true, not_false_eq_true, any_some,
          and_self, decide_true, Bool.not_true, Bool.false_eq_true]
        cases hget : fetched hash run.groups (m.target item.targetGroup) item.key
          (a.fate .getTarget) with
        | none => exact ⟨rfl, rfl⟩
        | some before =>
          simp only [elim_some]
          split_ifs
          · exact ⟨rfl, rfl⟩
          · split <;> simp_all
          · exact ⟨(m.copyItem_eq ..).1, rfl⟩
      · simp [hnone, hvalue]

theorem beside_processItem (deleteSource : Bool) (hst : Settled hash run.groups item.key) :
    Beside item.key run.groups (m.processItem hash deleteSource run item a).groups := by
  have hsame : Beside item.key run.groups run.groups := fun g => .refl _
  rw [(m.processItem_eq ..).2]
  split
  · exact hsame
  · cases fetched hash run.groups (m.target item.targetGroup) item.key (a.fate .getTarget) with
    | none => exact hsame
    | some before =>
      dsimp only [elim_some]
      split_ifs
      · exact hsame
      · exact (m.touched_deleteSourceWithVerify a hst).beside
      · exact m.beside_copyItem a hst

/-! What the calls of an item leave under its key -/

variable {entry : KVEntry}

theorem valueEquals_slotReply (item : MigrationPlanItem) (slot : Option KVEntry) :
    migrationValueEquals (slotReply slot) item =
      decide (slot.map KVEntry.value = some item.value) := by
  cases slot with
  | none => rfl
  | some e => by_cases hsame : e.value = item.value <;>
      simp [migrationValueEquals, slotReply, hsame]

theorem deleteSource_spec (hst : Settled hash groups item.key)
    (h : (groups (m.source item.sourceGroup)).Keeps hash item.key (some entry))
    (hvalue : entry.value = item.value) : let r := m.deleteSourceWithVerify hash groups item a
    let again := (a.fate .getSourceAgain).answer.isSome
    (r.1 (m.source item.sourceGroup)).Keeps hash item.key
        (if again && (a.fate .deleteSource).executed then none else some entry) ∧
      r.2 = (again && ((a.fate .deleteSource).answer.isSome &&
        (a.fate .verifyDelete).answer.isSome)) := by
  obtain ⟨hafter, haccepted⟩ := rpc_delete (a.fate .deleteSource) hst h
  rw [deleteSourceWithVerify_eq]
  dsimp only
  rw [fetched_eq h]
  cases (a.fate .getSourceAgain).answer with
  | none => exact ⟨h, rfl⟩
  | some e =>
    rw [map_some, any_some, valueEquals_slotReply, map_some, hvalue,
      if_pos (decide_eq_true rfl), isSome_some, Bool.true_and, Bool.true_and, haccepted,
      fetched_eq hafter]
    refine ⟨hafter, ?_⟩
    cases hanswer : (a.fate .deleteSource).answer with
    | none => rfl
    | some e =>
      rw [Fate.executed, hanswer]
      cases (a.fate .verifyDelete).answer <;> simp [slotReply]

theorem rollback_spec (found : Option KVEntry) (hst : Settled hash groups item.key)
    (h : (groups (m.target item.targetGroup)).Keeps hash item.key (some entry)) :
    ((m.rollbackTarget hash groups item (slotReply found) a).1
      (m.target item.targetGroup)).value item.key =
        if a.undoes (found.map KVEntry.value) then found.map KVEntry.value
        else some entry.value := by
  rw [rollbackTarget_eq]
  dsimp only
  rw [fetched_eq h]
  cases found with
  | none =>
    have hafter := (rpc_delete (a.fate .rollbackDelete) hst h).1
    rw [if_pos (show (slotReply none).err = .noKey from rfl), hafter.value, map_none,
      Attempt.undoes]
    split <;> rfl
  | some old =>
    have hafter := (rpc_put (a.fate .rollbackPut) hst h old.value entry.version.toInt64 (by simp)).1
    rw [if_neg (by simp [slotReply]), map_some, Attempt.undoes]
    cases (a.fate .rollbackGet).answer with
    | none => exact h.value
    | some e =>
      refine hafter.value.trans ?_
      rw [isSome_some, Bool.true_and]
      split <;> rfl

/-- The planned value is in one of the two groups. -/
def Kept (item : MigrationPlanItem) (groups : G → KVServer) : Prop :=
  (groups (m.source item.sourceGroup)).value item.key = some item.value ∨
    (groups (m.target item.targetGroup)).value item.key = some item.value

theorem kept_copyItem_iff (hne : m.source item.sourceGroup ≠ m.target item.targetGroup)
    (hst : Settled hash groups item.key)
    (hsource : (groups (m.source item.sourceGroup)).Keeps hash item.key (some entry))
    (hvalue : entry.value = item.value) {found : Option KVEntry}
    (htarget : (groups (m.target item.targetGroup)).Keeps hash item.key found)
    (hother : found.map KVEntry.value ≠ some item.value) :
    m.Kept item (m.copyItem hash deleteSource groups stats item (slotReply found) a).groups ↔
      ¬((a.fate .put).strays.isEmpty = true ∧ (a.fate .put).answer.isSome = true ∧
        (a.fate .verifyPut).answer.isSome = true ∧ deleteSource = true ∧
        (a.fate .getSourceAgain).answer.isSome = true ∧ (a.fate .deleteSource).executed = true ∧
        ¬((a.fate .deleteSource).answer.isSome = true ∧
          (a.fate .verifyDelete).answer.isSome = true) ∧
        a.undoes (found.map KVEntry.value) = true) := by
  have hput : Touched item.key (m.target item.targetGroup) groups (rpc hash groups _
      (.put ⟨item.key, item.value, migrationPutVersion (slotReply found), 0⟩)
      (a.fate .put)).1 := touched_rpc hst rfl
  obtain ⟨hcopy, haccepted⟩ := rpc_put (a.fate .put) hst htarget item.value
    (migrationPutVersion (slotReply found)) (by
      cases found with
      | none => rfl
      | some e => simp [migrationPutVersion, slotReply])
  rw [(m.copyItem_eq ..).2]
  dsimp only
  rw [haccepted]
  generalize (rpc hash groups (m.target item.targetGroup) _ (a.fate .put)).1 = mid at hput hcopy ⊢
  have hst' := hst.beside hput.beside
  have hunchanged : ∀ {groups' : G → KVServer},
      Touched item.key (m.target item.targetGroup) groups groups' → m.Kept item groups' :=
    fun htouched => Or.inl <| by
      rw [htouched.others _ hne, hsource.value, map_some, hvalue]
  by_cases hok : ((a.fate .put).answer.isSome && (a.fate .put).strays.isEmpty) = true
  · rw [hok, if_neg (by decide)]
    rw [Bool.and_eq_true] at hok
    rw [Fate.executed, hok.1, Bool.or_true, if_pos rfl] at hcopy
    have hread : (fetched hash mid (m.target item.targetGroup) item.key
        (a.fate .verifyPut)).any (migrationValueEquals · item) =
          (a.fate .verifyPut).answer.isSome := by
      rw [fetched_eq hcopy]
      cases (a.fate .verifyPut).answer <;> simp [valueEquals_slotReply]
    rw [hread]
    cases hverify : (a.fate .verifyPut).answer.isSome with
    | false =>
      exact iff_of_true (hunchanged (hput.trans (m.touched_rollbackTarget a _ hst'))) (by simp)
    | true =>
      cases deleteSource with
      | false => exact iff_of_true (hunchanged hput) (by simp)
      | true =>
        have hsource' : (mid (m.source item.sourceGroup)).Keeps hash item.key (some entry) := by
          rw [hput.others _ hne]
          exact hsource
        obtain ⟨hleft, hconfirmed⟩ := m.deleteSource_spec a hst' hsource' hvalue
        have hdelete := m.touched_deleteSourceWithVerify a hst'
        simp only [Bool.not_true, Bool.false_eq_true, if_false]
        generalize m.deleteSourceWithVerify hash mid item a = d at hleft hconfirmed hdelete ⊢
        rw [← hdelete.others _ hne.symm] at hcopy
        cases hd : d.2 with
        | true =>
          rw [hd] at hconfirmed
          refine iff_of_true (Or.inr hcopy.value) ?_
          simp_all
        | false =>
          -- the source has the key unless its delete was executed, the target has it unless the
          -- rollback took effect
          have hst'' := hst'.beside hdelete.beside
          have hback := m.touched_rollbackTarget a (slotReply found) hst''
          rw [hd] at hconfirmed
          simp only [Kept, Bool.false_eq_true, if_false]
          rw [hback.others _ hne, hleft.value, m.rollback_spec a found hst'' hcopy]
          by_cases hall : ((a.fate .getSourceAgain).answer.isSome &&
              (a.fate .deleteSource).executed) = true ∧ a.undoes (found.map KVEntry.value) = true
          · rw [if_pos hall.1, if_pos hall.2]
            refine iff_of_false (fun h => h.elim nofun hother) fun h => h ?_
            have hboth := Bool.and_eq_true_iff.mp hall.1
            refine ⟨hok.2, hok.1, trivial, trivial, hboth.1, hboth.2, fun hanswers => ?_, hall.2⟩
            rw [hboth.1, hanswers.1, hanswers.2] at hconfirmed
            cases hconfirmed
          · refine iff_of_true ?_ fun h => hall ⟨by simp [h.2.2.2.2.1, h.2.2.2.2.2.1],
              h.2.2.2.2.2.2.2⟩
            by_cases hundone : a.undoes (found.map KVEntry.value) = true
            · rw [if_neg fun h => hall ⟨h, hundone⟩]
              exact Or.inl (congrArg some hvalue)
            · rw [if_neg hundone]
              exact Or.inr rfl
  · rw [Bool.not_eq_true] at hok
    rw [hok]
    refine iff_of_true (hunchanged hput) fun h => ?_
    rw [h.1, h.2.1] at hok
    cases hok

theorem kept_processItem_iff (hne : m.source item.sourceGroup ≠ m.target item.targetGroup)
    (hst : Settled hash run.groups item.key)
    (hsource : (run.groups (m.source item.sourceGroup)).Keeps hash item.key (some entry))
    (hvalue : entry.value = item.value) {found : Option KVEntry}
    (htarget : (run.groups (m.target item.targetGroup)).Keeps hash item.key found) :
    m.Kept item (m.processItem hash deleteSource run item a).groups ↔
      ¬(deleteSource = true ∧ (run.cancelled || a.cancelled) = false ∧
        found.map KVEntry.value ≠ some item.value ∧
        a.loses (found.map KVEntry.value) = true) := by
  have hsame : m.Kept item run.groups := Or.inl (by rw [hsource.value, map_some, hvalue])
  rw [(m.processItem_eq ..).2, fetched_eq hsource, fetched_eq htarget]
  cases run.cancelled || a.cancelled with
  | true => exact iff_of_true hsame (by simp)
  | false =>
    cases hget : (a.fate .getSource).answer with
    | none => exact iff_of_true hsame (by simp [Attempt.loses, hget])
    | some e =>
      rw [if_neg (by simp [slotReply, hvalue])]
      cases hget' : (a.fate .getTarget).answer with
      | none => exact iff_of_true hsame (by simp [Attempt.loses, hget'])
      | some e' =>
        dsimp only [map_some, elim_some]
        rw [valueEquals_slotReply]
        by_cases hother : found.map KVEntry.value = some item.value
        · rw [decide_eq_true hother, if_pos rfl]
          cases deleteSource with
          | false => exact iff_of_true hsame (by simp)
          | true =>
            have hdelete := m.touched_deleteSourceWithVerify a hst
            refine iff_of_true (Or.inr ?_) (by simp [hother])
            simp only [Bool.not_true, Bool.false_eq_true, if_false]
            rw [hdelete.others _ hne.symm, htarget.value, hother]
        · rw [decide_eq_false hother, if_neg Bool.false_ne_true,
            kept_copyItem_iff m a hne hst hsource hvalue htarget hother]
          simp only [Attempt.loses, hget, hget', isSome_some, Bool.and_eq_true, Bool.not_eq_true',
            ← Bool.not_eq_true, true_and, hother, ne_eq, not_false_eq_true]
          tauto

end Item

theorem processItems_spec (m : Migrator G) (deleteSource : Bool) (run : PlanRun G)
    (plan : List (MigrationPlanItem × Attempt G))
    (hst : ∀ p ∈ plan, Settled hash run.groups p.1.key) :
    (m.processItems hash deleteSource run plan).cancelled =
        (run.cancelled || plan.any (·.2.cancelled)) ∧
      ∀ g, KVServer.Wrote (fun k => ∃ p ∈ plan, k = p.1.key) (run.groups g)
        ((m.processItems hash deleteSource run plan).groups g) := by
  induction plan generalizing run with
  | nil => exact ⟨(Bool.or_false _).symm, fun g => .refl _⟩
  | cons p plan ih =>
    rw [forall_mem_cons] at hst
    have hitem := m.beside_processItem p.2 deleteSource hst.1
    obtain ⟨hcancelled, hrest⟩ := ih (m.processItem hash deleteSource run p.1 p.2) fun q hq =>
      (hst.2 q hq).beside hitem
    refine ⟨?_, fun g => ((hitem g).mono ?_).trans ((hrest g).mono ?_)⟩
    · rw [any_cons, ← Bool.or_assoc, ← (m.processItem_eq ..).1]
      exact hcancelled
    · rintro k rfl
      exact ⟨p, mem_cons_self, rfl⟩
    · rintro k ⟨q, hq, rfl⟩
      exact ⟨q, mem_cons_of_mem p hq, rfl⟩

def sampleMigrator : Migrator Bool := ⟨(· = 1), (· = 1)⟩

def sampleGroups (g : Bool) : KVServer :=
  newKVServer 0 (if g then ∅ else (∅ : Store).insert "k" (.entry ⟨"v", 1, 0⟩))

def sampleItem : MigrationPlanItem := ⟨"k", "v", 1, 0, 1⟩

def sampleHandling : Handling Bool :=
  ⟨.offline, ⟨0, 0⟩, false, ⟨.unanswered, .offline, ⟨0, 0⟩⟩⟩

def sampleAttempt (strays : List (Handling Bool)) : Attempt Bool :=
  ⟨false, fun call => if call = .deleteSource then ⟨strays, none⟩ else ⟨[], some sampleHandling⟩⟩

end Migrator

end OrbisKV.KV
