import OrbisKV.Lib.Transition
import OrbisKV.KV.Coordinator
/-!
# Two-phase commit between clients and groups

Every group is one state machine.
-/

namespace OrbisKV.KV

open Std Option

inductive Message
  | call (gid : Int) (req : Request)
  | reply (gid : Int) (req : Request) (reply : Reply)
  | decision (gid : Int) (txID decision : String)
deriving DecidableEq

inductive Phase
  | active
  /-- Results of `PrepareTx` are awaited from the groups in `waiting`. -/
  | preparing (plan : CommitPlan) (waiting prepared : List Int) (firstErr : Option Err)
  | committing (plan : CommitPlan)
  | aborting (plan : CommitPlan) (prepared : List Int) (firstErr : Option Err)
  | returned (plan : CommitPlan) (err : Err)
  | rollingBack (groups : List Int)
  | rolledBack

structure Session where
  handle : TxHandle
  router : ShardRouter
  phase : Phase

structure Deployment where
  groups : Int → KVServer
  network : List Message
  sessions : String → Option Session

abbrev DecisionAnswers := List (Int × String × String)

def DecisionAnswers.net (answers : DecisionAnswers) (forward : Bool) : Net :=
  ⟨fun gid txID => (answers.find? fun a => a.1 = gid ∧ a.2.1 = txID).map fun a => a.2.2, forward⟩

namespace Deployment

inductive ClientAction
  | get (key : String) (resp : Option GetReply)
  | put (key value : String) (version : Tversion)
  | delete (key : String) (resp : Option GetReply)
  | learnHint (key : String) (gid : Int) (replicas : List String) (epoch : Int64)
  | moveShard (shard toGroup : Int)
  | commit
  /-- The result of one `PrepareTx`, `none` for a failed call. -/
  | prepared (gid : Int) (result : Option Err)
  | decide
  | decided (ok : Bool)
  | rollback

inductive Action
  | begin (txID : String) (router : ShardRouter)
  | client (txID : String) (action : ClientAction)
  | deliver (gid : Int) (req : Request) (answers : DecisionAnswers) (clock : Clock)
  | serve (gid : Int) (req : Request) (forward : Bool) (clock : Clock)
  | query (gid : Int) (txID : String)
  | ask (gid : Int) (txID : String)
  | recover (txID : String) (participant : Int) (status : ResolveTxStatusReply)
      (decision : Option ResolveTxStatusReply)
  | restart (gid : Int) (answers : DecisionAnswers) (records : List (String × Document))
  | recoverCoordinator (gid : Int) (router : ShardRouter)

def backs (s : Deployment) (answers : DecisionAnswers) : Bool :=
  answers.all fun a => .decision a.1 a.2.1 a.2.2 ∈ s.network

def setSession (s : Deployment) (txID : String) (session : Session) (sent : List Message) :
    Deployment :=
  { s with
    network := sent ++ s.network
    sessions := fun id => if id = txID then some session else s.sessions id }

def setGroup (s : Deployment) (gid : Int) (kv : KVServer) (sent : List Message) : Deployment :=
  { s with
    groups := fun g => if g = gid then kv else s.groups g
    network := sent ++ s.network }

def send (s : Deployment) (sent : List Message) : Deployment :=
  { s with network := sent ++ s.network }

/-- The requests that clients other than those of transactions send. -/
def isPlain : Request → Bool
  | .prepareTx _ | .commitTx _ | .abortTx _ | .resolveTxStatus _ | .recordTxDecision _ => false
  | _ => true

def outcomeCalls (txID : String) (commit : Bool) (groups : List Int) : List Message :=
  groups.map fun gid =>
    .call gid (if commit then .commitTx ⟨txID, []⟩ else .abortTx txID)

/-- The request by which the client persists a decision, with the group it goes to. -/
def decisionCall (session : Session) : Option (Int × RecordTxDecisionArgs) :=
  let h := session.handle
  match session.phase with
  | .committing plan =>
    plan.groups.head?.map fun gid => (gid, h.decisionArgs .committed plan.groups plan.grouped)
  | .aborting plan _ _ =>
    plan.groups.head?.map fun gid => (gid, h.decisionArgs .aborted plan.groups [])
  | .rollingBack groups =>
    groups.head?.map fun gid => (gid, h.decisionArgs .aborted groups [])
  | _ => none

/-- The client enters a phase and sends the decision that the phase waits for. -/
def persistDecision (s : Deployment) (txID : String) (session : Session) : Option Deployment :=
  (decisionCall session).map fun c =>
    s.setSession txID session [.call c.1 (.recordTxDecision c.2)]

variable (hash : String → UInt64)

def startCommit (s : Deployment) (txID : String) (session : Session) : Deployment :=
  let h := session.handle
  let plan := h.plan (session.router.resolve hash)
  if plan.grouped.length < h.writes.length then
    s.setSession txID { session with phase := .returned plan .wrongGroup } []
  else if plan.groups = [] then
    s.setSession txID { session with phase := .returned plan .ok } []
  else
    s.setSession txID { session with phase := .preparing plan plan.groups [] none }
      (plan.groups.map fun gid => .call gid (.prepareTx (h.prepareTxArgs plan gid)))

def takePrepared (s : Deployment) (txID : String) (session : Session) (gid : Int)
    (result : Option Err) : Option Deployment :=
  match session.phase with
  | .preparing plan waiting prepared firstErr =>
    if gid ∉ waiting then none
    else
      let waiting := waiting.erase gid
      let args := session.handle.prepareTxArgs plan gid
      match result with
      | none =>
        some (s.setSession txID
          { session with phase := .preparing plan waiting prepared (some .txConflict) } [])
      | some e =>
        if .reply gid (.prepareTx args) (.prepareTx e) ∉ s.network then none
        else if e = .ok then
          some (s.setSession txID
            { session with phase := .preparing plan waiting (prepared ++ [gid]) firstErr } [])
        else
          some (s.setSession txID
            { session with phase := .preparing plan waiting prepared (some e) } [])
  | _ => none

def takeDecision (s : Deployment) (txID : String) (session : Session) : Option Deployment :=
  match session.phase with
  | .preparing plan [] prepared firstErr =>
    if prepared.length < plan.groups.length then
      s.persistDecision txID { session with phase := .aborting plan prepared firstErr }
    else s.persistDecision txID { session with phase := .committing plan }
  | _ => none

/-- What the client does when the decision is known to be recorded. -/
def afterDecision (s : Deployment) (txID : String) (session : Session) : Option Deployment :=
  match session.phase with
  | .committing plan =>
    some (s.setSession txID { session with phase := .returned plan .ok }
      (plan.groups.map fun gid => .call gid (.commitTx ⟨txID, plan.writeKeys gid⟩)))
  | .aborting plan prepared firstErr =>
    some (s.setSession txID
      { session with phase := .returned plan (firstErr.getD .txConflict) }
      (outcomeCalls txID false prepared))
  | .rollingBack groups =>
    some (s.setSession txID { session with phase := .rolledBack }
      (outcomeCalls txID false groups))
  | _ => none

def withoutDecision (s : Deployment) (txID : String) (session : Session) : Option Deployment :=
  match session.phase with
  | .committing plan | .aborting plan _ _ =>
    some (s.setSession txID { session with phase := .returned plan .txTimeout } [])
  | .rollingBack _ => some (s.setSession txID { session with phase := .rolledBack } [])
  | _ => none

def edit (s : Deployment) (txID : String) (session : Session) (handle : TxHandle) :
    Option Deployment :=
  match session.phase with
  | .active => some (s.setSession txID { session with handle := handle } [])
  | _ => none

def startRollback (s : Deployment) (txID : String) (session : Session) : Option Deployment :=
  let groups := session.handle.rollbackGroups (session.router.resolve hash)
  if groups = [] then some (s.setSession txID { session with phase := .rolledBack } [])
  else s.persistDecision txID { session with phase := .rollingBack groups }

/-- A step of a client on its own transaction. -/
def clientStep (s : Deployment) (txID : String) (session : Session) :
    ClientAction → Option Deployment
  | .get key resp => s.edit txID session (session.handle.get resp key).1
  | .put key value version =>
    s.edit txID session
      (session.handle.put (session.router.resolve hash) key value version)
  | .delete key resp =>
    s.edit txID session (session.handle.delete (session.router.resolve hash) resp key)
  | .learnHint key gid replicas epoch =>
    some (s.setSession txID
      { session with router := session.router.learnHint hash key gid replicas epoch } [])
  | .moveShard shard toGroup =>
    some (s.setSession txID { session with
      router := { session.router with
        topology := (session.router.topology.moveShard shard toGroup).1 } } [])
  | .commit =>
    match session.phase with
    | .active => some (s.startCommit hash txID session)
    | .returned _ e => if e = .ok then none else some (s.startCommit hash txID session)
    | _ => none
  | .prepared gid result => s.takePrepared txID session gid result
  | .decide => s.takeDecision txID session
  | .decided true =>
    (decisionCall session).bind fun c =>
      if .reply c.1 (.recordTxDecision c.2) (.recordTxDecision .ok) ∈ s.network then
        s.afterDecision txID session
      else none
  | .decided false => s.withoutDecision txID session
  | .rollback =>
    match session.phase with
    | .returned _ e => if e = .ok then none else s.startRollback hash txID session
    | _ => none

def apply (s : Deployment) (gid : Int) (req : Request) (net : Net) (clock : Clock) :
    Option Deployment :=
  ((s.groups gid).doOp hash net clock req).map fun r =>
    s.setGroup gid r.1 [.reply gid req r.2]

/-- The answers that `RecoverTransaction` works on are in the network. -/
def answered (s : Deployment) (txID : String) (participant : Int) (status : ResolveTxStatusReply)
    (decision : Option ResolveTxStatusReply) : Bool :=
  .reply participant (.resolveTxStatus txID) (.resolveTxStatus status) ∈ s.network &&
    decision.all fun d =>
      .reply (int32 status.coordinatorGroupID) (.resolveTxStatus txID) (.resolveTxStatus d) ∈
        s.network

def recoveredCalls (router : ShardRouter) (tx : String × List Int × List WriteKey) :
    List Message :=
  tx.2.1.map fun gid =>
    .call gid (.commitTx ⟨tx.1, tx.2.2.filter fun wk => router.resolve hash wk.key = gid⟩)

def step (s : Deployment) : Action → Option Deployment
  | .begin txID router =>
    match s.sessions txID with
    | none => some (s.setSession txID ⟨{ txID := txID }, router, .active⟩ [])
    | some _ => none
  | .client txID action =>
    (s.sessions txID).bind fun session => s.clientStep hash txID session action
  | .deliver gid req answers clock =>
    if .call gid req ∈ s.network ∧ s.backs answers then
      s.apply hash gid req (answers.net false) clock
    else none
  | .serve gid req forward clock =>
    if isPlain req then s.apply hash gid req (DecisionAnswers.net [] forward) clock else none
  | .query gid txID =>
    ((s.groups gid).queryTxDecision txID).map fun d => s.send [.decision gid txID d]
  | .ask gid txID => some (s.send [.call gid (.resolveTxStatus txID)])
  | .recover txID participant status decision =>
    if s.answered txID participant status decision then
      (recoverTransaction participant status decision).map fun r =>
        s.send (outcomeCalls txID r.2 r.1)
    else none
  | .restart gid answers records =>
    if s.backs answers ∧
        records.isPerm ((s.groups gid).store.scanTxRecordsByPrefix txPreparePrefix) then
      ({ s.groups gid with txMgr := {} }.rebuildLockTable (answers.net false) records).map
        fun kv => s.setGroup gid kv []
    else none
  | .recoverCoordinator gid router =>
    some (s.send ((s.groups gid).recoverCoordinatorTransactions.flatMap
      (recoveredCalls hash router)))

/-- The groups start with user entries only and without transactions. -/
def system : Lib.System Deployment Action where
  init s := s.network = [] ∧ (∀ txID, s.sessions txID = none) ∧
    ∀ gid, (s.groups gid).groupID = gid ∧ (s.groups gid).txMgr = {} ∧
      ∀ x, (s.groups gid).store.getTxRecord x = none
  step := step hash

end Deployment

/-- `Commit` and `Rollback` may be called: the last `Commit` has failed. -/
def Session.Failed (session : Session) : Prop :=
  ∃ plan e, session.phase = .returned plan e ∧ e ≠ .ok

namespace Deployment

variable (hash : String → UInt64)

/-- The steps of a client: what its session becomes and what it sends. -/
inductive Turn (s : Deployment) (txID : String) (session : Session) :
    ClientAction → Session → List Message → Prop
  | get (key : String) (resp : Option GetReply) (hph : session.phase = .active) :
    Turn s txID session (.get key resp)
      { session with handle := (session.handle.get resp key).1 } []
  | put (key value : String) (version : Tversion) (hph : session.phase = .active) :
    Turn s txID session (.put key value version) { session with
      handle := session.handle.put (session.router.resolve hash) key value version } []
  | delete (key : String) (resp : Option GetReply) (hph : session.phase = .active) :
    Turn s txID session (.delete key resp) { session with
      handle := session.handle.delete (session.router.resolve hash) resp key } []
  | learnHint (key : String) (gid : Int) (replicas : List String) (epoch : Int64) :
    Turn s txID session (.learnHint key gid replicas epoch) { session with
      router := session.router.learnHint hash key gid replicas epoch } []
  | moveShard (shard toGroup : Int) : Turn s txID session (.moveShard shard toGroup)
      { session with router := { session.router with
        topology := (session.router.topology.moveShard shard toGroup).1 } } []
  | commit (phase : Phase) (sent : List Message)
    (hph : session.phase = .active ∨ session.Failed)
    (h : s.startCommit hash txID session =
      s.setSession txID { session with phase := phase } sent) :
    Turn s txID session .commit { session with phase := phase } sent
  | prepared (gid : Int) (result : Option Err) (plan : CommitPlan) (waiting oks oks' : List Int)
    (err err' : Option Err) (hph : session.phase = .preparing plan waiting oks err)
    (hgid : gid ∈ waiting) (h : oks' = oks ∧ err' ≠ some .ok ∨ oks' = oks ++ [gid] ∧ err' = err ∧
      .reply gid (.prepareTx (session.handle.prepareTxArgs plan gid))
        (.prepareTx .ok) ∈ s.network) :
    Turn s txID session (.prepared gid result)
      { session with phase := .preparing plan (waiting.erase gid) oks' err' } []
  | loses (plan : CommitPlan) (oks : List Int) (err : Option Err) (gid : Int)
    (hph : session.phase = .preparing plan [] oks err) (hgid : plan.groups.head? = some gid) :
    Turn s txID session .decide { session with phase := .aborting plan oks err }
      [.call gid (.recordTxDecision (session.handle.decisionArgs .aborted plan.groups []))]
  | wins (plan : CommitPlan) (oks : List Int) (err : Option Err) (gid : Int)
    (hph : session.phase = .preparing plan [] oks err) (hgid : plan.groups.head? = some gid)
    (hall : plan.groups.length ≤ oks.length) :
    Turn s txID session .decide { session with phase := .committing plan } [.call gid
      (.recordTxDecision (session.handle.decisionArgs .committed plan.groups plan.grouped))]
  | committed (plan : CommitPlan) (gid : Int) (hph : session.phase = .committing plan)
    (hrep : .reply gid (.recordTxDecision (session.handle.decisionArgs .committed plan.groups
      plan.grouped)) (.recordTxDecision .ok) ∈ s.network) :
    Turn s txID session (.decided true) { session with phase := .returned plan .ok }
      (plan.groups.map fun gid => .call gid (.commitTx ⟨txID, plan.writeKeys gid⟩))
  | aborted (plan : CommitPlan) (oks : List Int) (err : Option Err) (gid : Int)
    (hph : session.phase = .aborting plan oks err)
    (hrep : .reply gid (.recordTxDecision (session.handle.decisionArgs .aborted plan.groups []))
      (.recordTxDecision .ok) ∈ s.network) :
    Turn s txID session (.decided true)
      { session with phase := .returned plan (err.getD .txConflict) } (outcomeCalls txID false oks)
  | rolledBack (groups : List Int) (gid : Int) (hph : session.phase = .rollingBack groups)
    (hrep : .reply gid (.recordTxDecision (session.handle.decisionArgs .aborted groups []))
      (.recordTxDecision .ok) ∈ s.network) :
    Turn s txID session (.decided true) { session with phase := .rolledBack }
      (outcomeCalls txID false groups)
  | undecided (plan : CommitPlan) (hph : session.phase = .committing plan ∨
      ∃ oks err, session.phase = .aborting plan oks err) :
    Turn s txID session (.decided false) { session with phase := .returned plan .txTimeout } []
  | stuck (groups : List Int) (hph : session.phase = .rollingBack groups) :
    Turn s txID session (.decided false) { session with phase := .rolledBack } []
  | nothing (hph : session.Failed) :
    Turn s txID session .rollback { session with phase := .rolledBack } []
  | rollback (groups : List Int) (gid : Int) (hph : session.Failed)
    (hgroups : groups = session.handle.rollbackGroups (session.router.resolve hash))
    (hgid : groups.head? = some gid) :
    Turn s txID session .rollback { session with phase := .rollingBack groups }
      [.call gid (.recordTxDecision (session.handle.decisionArgs .aborted groups []))]

variable {hash} {s t : Deployment} {txID : String} {session : Session} {a : ClientAction}

variable (hash s txID session) in
theorem startCommit_eq : ∃ phase sent, s.startCommit hash txID session =
    s.setSession txID { session with phase := phase } sent := by
  unfold startCommit
  dsimp only
  split_ifs <;> exact ⟨_, _, rfl⟩

theorem turn (h : s.clientStep hash txID session a = some t) :
    ∃ session' sent, t = s.setSession txID session' sent ∧
      s.Turn hash txID session a session' sent := by
  cases a with
  | get | put | delete =>
    simp only [clientStep, edit] at h
    split at h <;> cases h
    exact ⟨_, _, rfl, by constructor; assumption⟩
  | learnHint | moveShard =>
    cases h
    exact ⟨_, _, rfl, by constructor⟩
  | commit =>
    obtain ⟨phase, sent, hsta⟩ := startCommit_eq hash s txID session
    simp only [clientStep] at h
    split at h
    · cases h
      exact ⟨_, _, hsta, .commit phase sent (Or.inl ‹_›) hsta⟩
    · split_ifs at h with he
      cases h
      exact ⟨_, _, hsta, .commit phase sent (Or.inr ⟨_, _, ‹_›, he⟩) hsta⟩
    · cases h
  | prepared gid result =>
    simp only [clientStep, takePrepared] at h
    split at h
    · rename_i plan waiting oks err hph
      split_ifs at h with hgid
      cases result with
      | none =>
        cases h
        exact ⟨_, _, rfl, .prepared _ _ _ _ _ _ _ _ hph hgid (Or.inl ⟨rfl, by simp⟩)⟩
      | some e =>
        dsimp only at h
        split_ifs at h with hrep he
        · cases h
          subst he
          exact ⟨_, _, rfl, .prepared _ _ _ _ _ _ _ _ hph hgid (Or.inr ⟨rfl, rfl, hrep⟩)⟩
        · cases h
          refine ⟨_, _, rfl, .prepared _ _ _ _ _ _ _ _ hph hgid (Or.inl ⟨rfl, ?_⟩)⟩
          simpa using he
    · cases h
  | decide =>
    simp only [clientStep, takeDecision] at h
    split at h
    · split_ifs at h with hlen
      all_goals
        obtain ⟨c, hcall, rfl⟩ := map_eq_some_iff.mp h
        obtain ⟨gid, hgid, rfl⟩ := map_eq_some_iff.mp hcall
      · exact ⟨_, _, rfl, .loses _ _ _ gid ‹_› hgid⟩
      · exact ⟨_, _, rfl, .wins _ _ _ gid ‹_› hgid (Nat.le_of_not_lt hlen)⟩
    · cases h
  | decided known =>
    cases known with
    | true =>
      obtain ⟨c, hcall, h⟩ := bind_eq_some_iff.mp h
      split_ifs at h with hrep
      unfold afterDecision at h
      unfold decisionCall at hcall
      split at h <;> cases h
      all_goals
        rename_i hph
        rw [hph] at hcall
        obtain ⟨gid, -, rfl⟩ := map_eq_some_iff.mp hcall
      · exact ⟨_, _, rfl, .committed _ gid hph hrep⟩
      · exact ⟨_, _, rfl, .aborted _ _ _ gid hph hrep⟩
      · exact ⟨_, _, rfl, .rolledBack _ gid hph hrep⟩
    | false =>
      simp only [clientStep, withoutDecision] at h
      split at h <;> cases h
      · exact ⟨_, _, rfl, .undecided _ (Or.inl ‹_›)⟩
      · exact ⟨_, _, rfl, .undecided _ (Or.inr ⟨_, _, ‹_›⟩)⟩
      · exact ⟨_, _, rfl, .stuck _ ‹_›⟩
  | rollback =>
    simp only [clientStep, startRollback] at h
    split at h
    · split_ifs at h with he
      · cases h
        exact ⟨_, _, rfl, .nothing ⟨_, _, ‹_›, he⟩⟩
      · obtain ⟨c, hcall, rfl⟩ := map_eq_some_iff.mp h
        obtain ⟨gid, hgid, rfl⟩ := map_eq_some_iff.mp hcall
        exact ⟨_, _, rfl, .rollback _ gid ⟨_, _, ‹_›, he⟩ rfl hgid⟩
    · cases h

end Deployment

end OrbisKV.KV
