import OrbisKV.Lib.Mutex
import OrbisKV.Lib.Transition
import OrbisKV.KV.Server
/-!
# The mutex of the transaction manager

The calls of `TxManager` again, with each `Lock` and `Unlock` of `tm.mu` in its place.
-/

namespace OrbisKV.KV

open Lib

def txMutex : Mutex KVServer where
  held kv := kv.txMgr.mu
  put b kv := { kv with txMgr.mu := b }
  held_put _ _ := rfl
  put_put _ _ _ := rfl
  put_held _ := rfl

abbrev Locking := Program KVServer

namespace Locking

/-- `executeCommit`, entered without the mutex. -/
def executeCommit (rec : PreparedTxRecord) : Locking Unit := do
  let kv ← get
  match kv.store.writeBatchWithCASAndRecord (batchOps rec.writeKeys)
      (txCommitPrefix ++ rec.txID) .mark with
  | .error _ => return ()
  | .ok store =>
    set { kv with store := store }
    txMutex.critical fun kv => kv.forget rec.txID rec.writeKeys

/-- `executeAbort`, entered without the mutex. -/
def executeAbort (rec : PreparedTxRecord) : Locking Unit := do
  modify fun kv => { kv with store := kv.store.putTxRecord (txAbortPrefix ++ rec.txID) .mark }
  txMutex.critical fun kv => kv.forget rec.txID rec.writeKeys

/-- The switch of `resolveLockLocked` and of `RebuildLockTable`, entered with the mutex;
`false` where there is no decision. -/
def carryOut (rec : PreparedTxRecord) : TxStatus → Locking Bool
  | .committed => do
      txMutex.unlock
      executeCommit rec
      txMutex.lock
      return true
  | .aborted => do
      txMutex.unlock
      executeAbort rec
      txMutex.lock
      return true
  | .unknown | .notFound | .prepared => return false

/-- The part of `resolveLockLocked` that asks the coordinator. -/
def resolvePrepared (net : Net) (rec : PreparedTxRecord) : Locking Bool := do
  txMutex.unlock
  let kv ← get
  let decision := kv.queryCoordinatorDecision net rec
  txMutex.lock
  carryOut rec decision

def resolveLockLocked (net : Net) (txID : String) : Locking Bool := do
  let kv ← get
  if kv.hasRecord txCommitPrefix txID then
    set (kv.releaseLocksForTxLocked txID)
    return true
  else if kv.hasRecord txAbortPrefix txID then
    set (kv.releaseLocksForTxLocked txID)
    return true
  else
    match kv.txMgr.preparedTxs[txID]? with
    | some rec => resolvePrepared net rec
    | none =>
      match kv.diskRecord txID with
      | none =>
        set (kv.releaseLocksForTxLocked txID)
        return true
      | some rec =>
        set { kv with txMgr.preparedTxs := kv.txMgr.preparedTxs.insert txID rec }
        resolvePrepared net rec

def resolveConflicts (net : Net) (txID : String) : List WriteKey → Locking Bool
  | [] => return true
  | wk :: wks => do
      let kv ← get
      match kv.otherHolder txID wk.key with
      | none => resolveConflicts net txID wks
      | some holder =>
        let resolved ← resolveLockLocked net holder
        if resolved then
          let kv ← get
          if (kv.otherHolder txID wk.key).isSome then return false
          else resolveConflicts net txID wks
        else return false

def prepare (net : Net) (now : Int64) (args : PrepareTxArgs) : Locking Err :=
  txMutex.deferUnlock do
    let resolved ← resolveConflicts net args.txID args.writeKeys
    if resolved then
      let kv ← get
      match KVServer.checkReads kv.store now args.readKeys with
      | .ok =>
        set (kv.installPrepared (KVServer.prepareRecord args now))
        return .ok
      | e => return e
    else return .txConflict

/-- `RecordDecision`, which does not take the mutex. -/
def recordDecision (args : RecordTxDecisionArgs) : Locking Err := do
  let kv ← get
  set (kv.recordDecision args).1
  return (kv.recordDecision args).2

def applyCommit (txID : String) (rec : PreparedTxRecord) : Locking Err := do
  let kv ← get
  match kv.store.writeBatchWithCASAndRecord (batchOps rec.writeKeys) (txCommitPrefix ++ txID)
      .mark with
  | .error _ => return .txConflict
  | .ok store =>
    set { kv with store := store }
    txMutex.critical fun kv =>
      { kv with
        txMgr.lockTable := unlockKeys kv.txMgr.lockTable rec.writeKeys
        txMgr.preparedTxs := kv.txMgr.preparedTxs.erase txID }
    modify fun kv => { kv with store := kv.store.deleteTxRecord (txPreparePrefix ++ txID) }
    return .ok

/-- The check that `Commit` and `Abort` begin with: the mutex is taken, and released again
where the transaction is finished. -/
def unlessFinished (txID : String) (committed aborted : Err) (rest : KVServer → Locking Err) :
    Locking Err := do
  txMutex.lock
  let kv ← get
  if kv.hasRecord txCommitPrefix txID then
    txMutex.unlock
    return committed
  else if kv.hasRecord txAbortPrefix txID then
    txMutex.unlock
    return aborted
  else rest kv

def commit (txID : String) : Locking Err :=
  unlessFinished txID .ok .txConflict fun kv => do
    if kv.undecided txID then
      -- There is no `Unlock` on the two returns of this check.
      return .txConflict
    else
      txMutex.unlock
      match kv.txMgr.preparedTxs[txID]? with
      | some rec => applyCommit txID rec
      | none =>
        match kv.diskRecord txID with
        | none => return .txNotFound
        | some rec =>
          txMutex.critical fun kv =>
            { kv with
              txMgr.preparedTxs := kv.txMgr.preparedTxs.insert txID rec
              txMgr.lockTable := lockKeys kv.txMgr.lockTable rec.txID rec.writeKeys }
          applyCommit txID rec

def dropPrepared (txID : String) (kv : KVServer) : KVServer :=
  match kv.txMgr.preparedTxs[txID]? with
  | none => kv
  | some rec =>
    { kv with
      txMgr.lockTable := KVServer.unlockHeld kv.txMgr.lockTable txID rec.writeKeys
      txMgr.preparedTxs := kv.txMgr.preparedTxs.erase txID }

def abort (txID : String) : Locking Err :=
  unlessFinished txID .txConflict .ok fun _ => do
    txMutex.unlock
    modify fun kv => { kv with store := kv.store.putTxRecord (txAbortPrefix ++ txID) .mark }
    txMutex.critical (dropPrepared txID)
    modify fun kv => { kv with store := kv.store.deleteTxRecord (txPreparePrefix ++ txID) }
    return .ok

/-- `ResolveTxStatus`, which takes the mutex only to give a transaction up. -/
def resolveTxStatus (now : Int64) (txID : String) : Locking ResolveTxStatusReply := do
  let kv ← get
  match (kv.store.getTxRecord (txDecisionPrefix ++ txID)).bind Document.toDecision? with
  | some d =>
    return { status := d.decision, participantGroupIDs := d.participantGroupIDs, err := .ok }
  | none =>
    if kv.hasRecord txCommitPrefix txID then return { status := .committed, err := .ok }
    else if kv.hasRecord txAbortPrefix txID then return { status := .aborted, err := .ok }
    else
      match kv.diskRecord txID with
      | none => return { status := .notFound, err := .txNotFound }
      | some rec =>
        if rec.participantGroupIDs = [] ∧ 0 < rec.timeoutMs ∧ KVServer.deadline rec < now then
          txMutex.critical fun kv =>
            { kv.releaseLocksForTxLocked txID with
              txMgr.preparedTxs := kv.txMgr.preparedTxs.erase txID }
          modify fun kv =>
            { kv with
              store := (kv.store.putTxRecord (txAbortPrefix ++ txID) .mark).deleteTxRecord
                (txPreparePrefix ++ txID) }
          return { status := .aborted, err := .ok }
        else
          return { status := .prepared, preparedAt := rec.preparedAt
                   writeKeys := rec.writeKeys, err := .ok
                   coordinatorGroupID := rec.coordinatorGroupID
                   participantGroupIDs := rec.participantGroupIDs }

/-- One turn of the loop of `RebuildLockTable`, entered with the mutex; the coordinator is
asked with it. -/
def rebuildRecord (net : Net) (item : String × Document) : Locking Unit := do
  match item.2.toPrepared? with
  | none => return ()
  | some rec =>
    let kv ← get
    if kv.hasRecord txCommitPrefix rec.txID || kv.hasRecord txAbortPrefix rec.txID then
      set { kv with store := kv.store.deleteTxRecord (txPreparePrefix ++ rec.txID) }
      return ()
    else
      let carriedOut ← carryOut rec (kv.queryCoordinatorDecision net rec)
      if carriedOut then return ()
      else
        modify fun kv =>
          { kv with
            txMgr.lockTable := lockKeys kv.txMgr.lockTable rec.txID rec.writeKeys
            txMgr.preparedTxs := kv.txMgr.preparedTxs.insert rec.txID rec }
        return ()

def rebuildRecords (net : Net) : List (String × Document) → Locking Unit
  | [] => return ()
  | item :: items => do
      rebuildRecord net item
      rebuildRecords net items

def rebuildLockTable (net : Net) (records : List (String × Document)) : Locking Unit :=
  txMutex.deferUnlock do
    modify fun kv => { kv with txMgr.lockTable := ∅, txMgr.preparedTxs := ∅ }
    rebuildRecords net records

def doExpire (args : ExpireArgs) : Locking ExpireReply :=
  fun kv => (kv.doExpire args).map Prod.swap

section

variable (b : Bool) (kv : KVServer)

@[simp] theorem store_put : (txMutex.put b kv).store = kv.store := rfl

@[simp] theorem preparedTxs_put : (txMutex.put b kv).txMgr.preparedTxs = kv.txMgr.preparedTxs := rfl

@[simp] theorem hasRecord_put (kind txID : String) :
    (txMutex.put b kv).hasRecord kind txID = kv.hasRecord kind txID := rfl

@[simp] theorem diskRecord_put (txID : String) :
    (txMutex.put b kv).diskRecord txID = kv.diskRecord txID := rfl

@[simp] theorem undecided_put (txID : String) :
    (txMutex.put b kv).undecided txID = kv.undecided txID := rfl

@[simp] theorem otherHolder_put (txID key : String) :
    (txMutex.put b kv).otherHolder txID key = kv.otherHolder txID key := rfl

@[simp] theorem queryCoordinatorDecision_put (net : Net) (rec : PreparedTxRecord) :
    (txMutex.put b kv).queryCoordinatorDecision net rec = kv.queryCoordinatorDecision net rec := rfl

@[simp] theorem releaseLocksForTxLocked_put (txID : String) :
    (txMutex.put b kv).releaseLocksForTxLocked txID =
      txMutex.put b (kv.releaseLocksForTxLocked txID) := rfl

theorem dropPrepared_put (txID : String) :
    dropPrepared txID (txMutex.put b kv) = txMutex.put b (dropPrepared txID kv) := by
  simp only [dropPrepared, preparedTxs_put]
  cases kv.txMgr.preparedTxs[txID]? <;> rfl

theorem mu_dropPrepared (txID : String) : (dropPrepared txID kv).txMgr.mu = kv.txMgr.mu := by
  unfold dropPrepared
  split <;> rfl

end

variable {kv : KVServer}

/-- Called with the mutex free, the program does what the function of the server says and
releases the mutex. -/
def ComesTo {α : Type} (p : Locking α) (kv : KVServer) (result : Option (KVServer × α)) : Prop :=
  ∃ r, result = some r ∧ txMutex.Releases p kv r.2 r.1

theorem ComesTo.get {α : Type} {f : KVServer → Locking α} {result : Option (KVServer × α)}
    (h : ComesTo (f kv) kv result) : ComesTo (MonadState.get >>= f) kv result := by
  obtain ⟨r, hr, hrel⟩ := h
  exact ⟨r, hr, .get hrel⟩

section

variable (hfree : kv.txMgr.mu = false)

include hfree

section

variable (rec : PreparedTxRecord)

include rec

theorem releases_executeCommit :
    txMutex.Releases (executeCommit rec) kv () (kv.executeCommit rec) := by
  unfold executeCommit KVServer.executeCommit
  apply Mutex.Releases.get
  cases kv.store.writeBatchWithCASAndRecord (batchOps rec.writeKeys)
      (txCommitPrefix ++ rec.txID) .mark with
  | error e => exact .pure hfree ()
  | ok store => exact .set (.critical hfree rfl hfree)

theorem releases_executeAbort :
    txMutex.Releases (executeAbort rec) kv () (kv.executeAbort rec) :=
  .modify (.critical hfree rfl hfree)

theorem keeps_committed :
    txMutex.Keeps (carryOut rec .committed) kv true (kv.executeCommit rec) := by
  have hcom := releases_executeCommit hfree rec
  exact .unlocked hfree hcom (.pure hcom.free true)

theorem keeps_aborted :
    txMutex.Keeps (carryOut rec .aborted) kv true (kv.executeAbort rec) := by
  have hab := releases_executeAbort hfree rec
  exact .unlocked hfree hab (.pure hab.free true)

end

theorem keeps_resolvePrepared (net : Net) (rec : PreparedTxRecord) :
    txMutex.Keeps (resolvePrepared net rec) kv (kv.resolvePrepared net rec).2
      (kv.resolvePrepared net rec).1 := by
  have hswi : txMutex.Keeps (carryOut rec (kv.queryCoordinatorDecision net rec)) kv
      (kv.resolvePrepared net rec).2 (kv.resolvePrepared net rec).1 := by
    unfold KVServer.resolvePrepared
    cases kv.queryCoordinatorDecision net rec with
    | committed => exact keeps_committed hfree rec
    | aborted => exact keeps_aborted hfree rec
    | _ => exact .pure hfree false
  refine ⟨hswi.free, ?_⟩
  rw [resolvePrepared, Mutex.unlock_bind hfree, Program.get_bind, Mutex.lock_bind hfree]
  exact hswi.run

theorem keeps_resolveLockLocked (net : Net) (txID : String) :
    txMutex.Keeps (resolveLockLocked net txID) kv (kv.resolveLockLocked net txID).2
      (kv.resolveLockLocked net txID).1 := by
  have hrele : txMutex.Keeps
      (do set (txMutex.put true (kv.releaseLocksForTxLocked txID)); return true) kv true
      (kv.releaseLocksForTxLocked txID) := .set rfl (.pure hfree true)
  unfold resolveLockLocked KVServer.resolveLockLocked
  apply Mutex.Keeps.get
  by_cases hcom : kv.hasRecord txCommitPrefix txID
  · simp only [hasRecord_put, releaseLocksForTxLocked_put, hcom, ↓reduceIte]
    exact hrele
  by_cases hab : kv.hasRecord txAbortPrefix txID
  · simp only [hasRecord_put, releaseLocksForTxLocked_put, hcom, hab, ↓reduceIte]
    exact hrele
  simp only [hasRecord_put, preparedTxs_put, diskRecord_put, hcom, hab]
  cases kv.txMgr.preparedTxs[txID]? with
  | some rec => exact keeps_resolvePrepared hfree net rec
  | none =>
    cases kv.diskRecord txID with
    | none => exact hrele
    | some rec =>
      have hloa : { kv with txMgr.preparedTxs :=
          kv.txMgr.preparedTxs.insert txID rec }.txMgr.mu = false := hfree
      exact .set rfl (keeps_resolvePrepared hloa net rec)

theorem keeps_resolveConflicts (net : Net) (txID : String) (writeKeys : List WriteKey) :
    txMutex.Keeps (resolveConflicts net txID writeKeys) kv
      (KVServer.resolveConflicts net txID kv writeKeys).2
      (KVServer.resolveConflicts net txID kv writeKeys).1 := by
  induction writeKeys generalizing kv with
  | nil => exact .pure hfree true
  | cons wk wks ih =>
    unfold resolveConflicts KVServer.resolveConflicts
    apply Mutex.Keeps.get
    rw [otherHolder_put]
    cases kv.otherHolder txID wk.key with
    | none => exact ih hfree
    | some holder =>
      have hres := keeps_resolveLockLocked hfree net holder
      dsimp only
      generalize kv.resolveLockLocked net holder = r at hres ⊢
      obtain ⟨kv', resolved⟩ := r
      apply hres.bind
      cases resolved with
      | false => exact .pure hres.free false
      | true =>
        apply Mutex.Keeps.get
        by_cases hloc : (kv'.otherHolder txID wk.key).isSome
        · simp only [otherHolder_put, hloc, ↓reduceIte]
          exact .pure hres.free false
        · simp only [otherHolder_put, hloc]
          exact ih hres.free

theorem comesTo_prepare (net : Net) (now : Int64) (args : PrepareTxArgs) :
    ComesTo (prepare net now args) kv (kv.prepare net now args) := by
  have hres := keeps_resolveConflicts hfree net args.txID args.writeKeys
  unfold KVServer.prepare
  rw [if_neg (by rw [hfree]; decide)]
  generalize KVServer.resolveConflicts net args.txID kv args.writeKeys = r at hres ⊢
  obtain ⟨kv', resolved⟩ := r
  cases resolved with
  | false =>
    refine ⟨_, rfl, .deferUnlock hfree (hres.bind ?_)⟩
    exact .pure hres.free Err.txConflict
  | true =>
    dsimp only
    cases hreads : KVServer.checkReads kv'.store now args.readKeys with
    | ok =>
      refine ⟨_, rfl, .deferUnlock hfree (hres.bind (.get ?_))⟩
      simp only [store_put, hreads]
      have hins : (kv'.installPrepared (KVServer.prepareRecord args now)).txMgr.mu =
          false := hres.free
      exact .set rfl (.pure hins Err.ok)
    | _ =>
      refine ⟨_, rfl, .deferUnlock hfree (hres.bind (.get ?_))⟩
      simp only [store_put, hreads]
      exact .pure hres.free _

theorem releases_recordDecision (args : RecordTxDecisionArgs) :
    txMutex.Releases (recordDecision args) kv (kv.recordDecision args).2
      (kv.recordDecision args).1 := by
  refine ⟨?_, rfl⟩
  unfold KVServer.recordDecision
  split_ifs
  · exact hfree
  · split
    · split_ifs <;> exact hfree
    · exact hfree

theorem releases_applyCommit (txID : String) (rec : PreparedTxRecord) :
    txMutex.Releases (applyCommit txID rec) kv (kv.applyCommit txID rec).2
      (kv.applyCommit txID rec).1 := by
  unfold applyCommit KVServer.applyCommit
  apply Mutex.Releases.get
  cases kv.store.writeBatchWithCASAndRecord (batchOps rec.writeKeys) (txCommitPrefix ++ txID)
      .mark with
  | error e => exact .pure hfree Err.txConflict
  | ok store =>
    apply Mutex.Releases.set
    refine .critical_bind hfree rfl hfree ?_
    exact ⟨hfree, rfl⟩

theorem comesTo_unlessFinished (txID : String) (committed aborted : Err)
    {rest : KVServer → Locking Err} {result : Option (KVServer × Err)}
    (hrest : kv.hasRecord txCommitPrefix txID = false → kv.hasRecord txAbortPrefix txID = false →
      ComesTo (do txMutex.lock; rest (txMutex.put true kv)) kv result) :
    ComesTo (unlessFinished txID committed aborted rest) kv
      (if kv.hasRecord txCommitPrefix txID then some (kv, committed)
      else if kv.hasRecord txAbortPrefix txID then some (kv, aborted) else result) := by
  unfold unlessFinished
  cases hcom : kv.hasRecord txCommitPrefix txID with
  | true =>
    refine ⟨_, rfl, hfree, ?_⟩
    rw [Mutex.lock_bind hfree, Program.get_bind, hasRecord_put, if_pos hcom,
      Mutex.unlock_bind hfree]
    rfl
  | false =>
    have hnot : ¬ kv.hasRecord txCommitPrefix txID = true := by simp [hcom]
    cases hab : kv.hasRecord txAbortPrefix txID with
    | true =>
      refine ⟨_, rfl, hfree, ?_⟩
      rw [Mutex.lock_bind hfree, Program.get_bind, hasRecord_put, if_neg hnot, hasRecord_put,
        if_pos hab, Mutex.unlock_bind hfree]
      rfl
    | false =>
      have hnot' : ¬ kv.hasRecord txAbortPrefix txID = true := by simp [hab]
      obtain ⟨r, hr, hrel⟩ := hrest hcom hab
      refine ⟨r, hr, hrel.free, ?_⟩
      rw [← hrel.run, Mutex.lock_bind hfree, Mutex.lock_bind hfree, Program.get_bind,
        hasRecord_put, if_neg hnot, hasRecord_put, if_neg hnot']

theorem comesTo_commit {txID : String} (hdec : kv.hasRecord txCommitPrefix txID = true ∨
      kv.hasRecord txAbortPrefix txID = true ∨ kv.undecided txID = false) :
    ComesTo (commit txID) kv (kv.commit txID) := by
  unfold KVServer.commit
  rw [if_neg (by rw [hfree]; decide)]
  apply comesTo_unlessFinished hfree
  intro hcom hab
  have hund : kv.undecided txID = false := by
    simpa [hcom, hab] using hdec
  simp only [undecided_put, preparedTxs_put, diskRecord_put, hund, Bool.false_eq_true, ↓reduceIte]
  unfold KVServer.loadPrepared
  cases kv.txMgr.preparedTxs[txID]? with
  | some rec => exact ⟨_, rfl, .lock_unlock hfree (releases_applyCommit hfree txID rec)⟩
  | none =>
    cases kv.diskRecord txID with
    | none => exact ⟨_, rfl, .lock_unlock hfree (.pure hfree Err.txNotFound)⟩
    | some rec =>
      have hloa : { kv with
          txMgr.preparedTxs := kv.txMgr.preparedTxs.insert txID rec
          txMgr.lockTable := lockKeys kv.txMgr.lockTable rec.txID rec.writeKeys }.txMgr.mu =
            false := hfree
      exact ⟨_, rfl, .lock_unlock hfree (.critical_bind hfree rfl hfree
        (releases_applyCommit hloa txID rec))⟩

theorem comesTo_abort (txID : String) : ComesTo (abort txID) kv (kv.abort txID) := by
  unfold KVServer.abort
  rw [if_neg (by rw [hfree]; decide)]
  apply comesTo_unlessFinished hfree
  intro _ _
  -- the mark is stored before the locks are dropped, and the record is deleted after it
  have hdro : ∀ s : Store, (dropPrepared txID { kv with store := s }).txMgr.mu = false :=
    fun s => (mu_dropPrepared _ txID).trans hfree
  have hrun : txMutex.Releases (do
      txMutex.lock
      txMutex.unlock
      modify fun kv => { kv with store := kv.store.putTxRecord (txAbortPrefix ++ txID) .mark }
      txMutex.critical (dropPrepared txID)
      modify fun kv => { kv with store := kv.store.deleteTxRecord (txPreparePrefix ++ txID) }
      return Err.ok) kv .ok
      (let aborted := dropPrepared txID
        { kv with store := kv.store.putTxRecord (txAbortPrefix ++ txID) .mark }
      { aborted with store := aborted.store.deleteTxRecord (txPreparePrefix ++ txID) }) :=
    .lock_unlock hfree (.modify (.critical_bind hfree (dropPrepared_put _ _ txID) (hdro _)
      ⟨hdro _, rfl⟩))
  cases hcac : kv.txMgr.preparedTxs[txID]? with
  | none | some rec =>
    refine ⟨_, rfl, ?_⟩
    simp only [dropPrepared, hcac] at hrun
    exact hrun

theorem comesTo_resolveTxStatus (now : Int64) (txID : String) :
    ComesTo (resolveTxStatus now txID) kv (kv.resolveTxStatus now txID) := by
  have hrep : ∀ reply : ResolveTxStatusReply,
      ComesTo (return reply) kv (some (kv, reply)) := fun reply => ⟨_, rfl, .pure hfree reply⟩
  unfold KVServer.resolveTxStatus
  apply ComesTo.get
  cases (kv.store.getTxRecord (txDecisionPrefix ++ txID)).bind Document.toDecision? with
  | some d => exact hrep _
  | none =>
    by_cases hcom : kv.hasRecord txCommitPrefix txID
    · simp only [hcom, ↓reduceIte]
      exact hrep _
    by_cases hab : kv.hasRecord txAbortPrefix txID
    · simp only [hcom, hab, Bool.false_eq_true, ↓reduceIte]
      exact hrep _
    simp only [hcom, hab, Bool.false_eq_true, ↓reduceIte]
    cases kv.diskRecord txID with
    | none => exact hrep _
    | some rec =>
      by_cases hlate : rec.participantGroupIDs = [] ∧ 0 < rec.timeoutMs ∧
          KVServer.deadline rec < now
      · simp only [if_pos hlate]
        rw [if_neg (by rw [hfree]; decide)]
        exact ⟨_, rfl, .critical_bind hfree rfl hfree ⟨hfree, rfl⟩⟩
      · simp only [if_neg hlate]
        exact hrep _

theorem keeps_rebuildRecord (net : Net) (item : String × Document) :
    txMutex.Keeps (rebuildRecord net item) kv () (KVServer.rebuildRecord net kv item) := by
  unfold rebuildRecord KVServer.rebuildRecord
  cases item.2.toPrepared? with
  | none => exact .pure hfree ()
  | some rec =>
    apply Mutex.Keeps.get
    dsimp only
    by_cases hfin :
        kv.hasRecord txCommitPrefix rec.txID || kv.hasRecord txAbortPrefix rec.txID
    · simp only [hasRecord_put, hfin, ↓reduceIte]
      exact .set rfl (.pure hfree ())
    simp only [hasRecord_put, queryCoordinatorDecision_put, hfin]
    cases kv.queryCoordinatorDecision net rec with
    | committed =>
      have hcom := keeps_committed hfree rec
      exact hcom.bind (.pure hcom.free ())
    | aborted =>
      have hab := keeps_aborted hfree rec
      exact hab.bind (.pure hab.free ())
    | _ => exact .bind (.pure hfree false) ⟨hfree, rfl⟩

theorem keeps_rebuildRecords (net : Net) (records : List (String × Document)) :
    txMutex.Keeps (rebuildRecords net records) kv ()
      (records.foldl (KVServer.rebuildRecord net) kv) := by
  induction records generalizing kv with
  | nil => exact .pure hfree ()
  | cons item items ih =>
    have hitem := keeps_rebuildRecord hfree net item
    exact hitem.bind (ih hitem.free)

theorem releases_rebuildLockTable (net : Net) (records : List (String × Document)) :
    ∃ kv', kv.rebuildLockTable net records = some kv' ∧
      txMutex.Releases (rebuildLockTable net records) kv () kv' := by
  have hcle : { kv with txMgr.lockTable := ∅, txMgr.preparedTxs := ∅ }.txMgr.mu = false := hfree
  have hloop := keeps_rebuildRecords hcle net records
  refine ⟨_, if_neg (by rw [hfree]; decide), .deferUnlock hfree ?_⟩
  exact ⟨hloop.free, hloop.run⟩

theorem expireKeys_free (cutoff : Int64) (reply : ExpireReply) (keys : List String) :
    ∃ r, KVServer.expireKeys cutoff kv reply keys = some r ∧ r.1.txMgr.mu = false := by
  induction keys generalizing kv reply with
  | nil => exact ⟨_, rfl, hfree⟩
  | cons key keys ih =>
    rw [KVServer.expireKeys, if_neg (by rw [hfree]; decide)]
    split_ifs
    · exact ih hfree reply
    · split
      · exact ih hfree reply
      · exact ih hfree reply
      · split_ifs
        · apply ih
          exact hfree
        · exact ih hfree reply

theorem comesTo_doExpire (args : ExpireArgs) : ComesTo (doExpire args) kv (kv.doExpire args) := by
  have hloop := expireKeys_free hfree args.cutoff { err := .ok } args.keys
  have hrun : ∃ r, kv.doExpire args = some r ∧ r.1.txMgr.mu = false := by
    unfold KVServer.doExpire
    split_ifs
    · exact ⟨_, rfl, hfree⟩
    · exact hloop
  obtain ⟨r, hr, hmu⟩ := hrun
  refine ⟨r, hr, hmu, ?_⟩
  rw [doExpire, hr]
  rfl

end

/-- A call of the transaction manager, or of the expiry that looks at its locks. -/
inductive Call
  | prepare (net : Net) (now : Int64) (args : PrepareTxArgs)
  | commit (txID : String)
  | abort (txID : String)
  | recordDecision (args : RecordTxDecisionArgs)
  | resolveTxStatus (now : Int64) (txID : String)
  | rebuildLockTable (net : Net) (records : List (String × Document))
  | expire (args : ExpireArgs)

/-- The server after a call, `none` if it does not return. -/
def Call.run (kv : KVServer) : Call → Option KVServer
  | prepare net now args => (Locking.prepare net now args kv).map Prod.snd
  | commit txID => (Locking.commit txID kv).map Prod.snd
  | abort txID => (Locking.abort txID kv).map Prod.snd
  | recordDecision args => (Locking.recordDecision args kv).map Prod.snd
  | resolveTxStatus now txID => (Locking.resolveTxStatus now txID kv).map Prod.snd
  | rebuildLockTable net records => (Locking.rebuildLockTable net records kv).map Prod.snd
  | expire args => (Locking.doExpire args kv).map Prod.snd

/-- Calls one after another, on any records and locks, from a mutex that is free. -/
def calls : System KVServer Call where
  init kv := kv.txMgr.mu = false
  step := Call.run

/-- A transaction that its own group coordinates is only committed here once the group has
decided so, unless it is finished. -/
def Decided (kv : KVServer) : Call → Prop
  | .commit txID => kv.hasRecord txCommitPrefix txID = true ∨
      kv.hasRecord txAbortPrefix txID = true ∨ kv.undecided txID = false
  | _ => True

instance (kv : KVServer) (call : Call) : Decidable (Decided kv call) := by
  cases call <;> dsimp only [Decided] <;> infer_instance

theorem ComesTo.free {α : Type} {p : Locking α} {result : Option (KVServer × α)}
    (h : ComesTo p kv result) : ∃ kv', (p kv).map Prod.snd = some kv' ∧ kv'.txMgr.mu = false := by
  obtain ⟨r, -, hrel⟩ := h
  exact ⟨r.1, by rw [hrel.run]; rfl, hrel.free⟩

theorem run_free (hfree : kv.txMgr.mu = false) {call : Call} (hdec : Decided kv call) :
    ∃ kv', calls.step kv call = some kv' ∧ kv'.txMgr.mu = false := by
  cases call with
  | prepare net now args => exact (comesTo_prepare hfree net now args).free
  | commit txID => exact (comesTo_commit hfree hdec).free
  | abort txID => exact (comesTo_abort hfree txID).free
  | recordDecision args =>
    have hrun := releases_recordDecision hfree args
    exact ⟨_, congrArg (Option.map Prod.snd) hrun.run, hrun.free⟩
  | resolveTxStatus now txID => exact (comesTo_resolveTxStatus hfree now txID).free
  | rebuildLockTable net records =>
    obtain ⟨kv', -, hrun⟩ := releases_rebuildLockTable hfree net records
    exact ⟨kv', congrArg (Option.map Prod.snd) hrun.run, hrun.free⟩
  | expire args => exact (comesTo_doExpire hfree args).free

theorem exists_undecided_of_exec_none {cs : List Call} (hfree : kv.txMgr.mu = false)
    (hblo : calls.exec kv cs = none) :
    ∃ before call after kv', cs = before ++ call :: after ∧ calls.exec kv before = some kv' ∧
      ¬ Decided kv' call := by
  induction cs generalizing kv with
  | nil => cases hblo
  | cons call cs ih =>
    by_cases hdec : Decided kv call
    · obtain ⟨kv', hstep, hfree'⟩ := run_free hfree hdec
      rw [System.exec, hstep] at hblo
      obtain ⟨before, call', after, kv'', rfl, hexec, hnot⟩ := ih hfree' hblo
      refine ⟨call :: before, call', after, kv'', rfl, ?_, hnot⟩
      rw [System.exec, hstep]
      exact hexec
    · exact ⟨[], call, cs, kv, rfl, rfl, hdec⟩

/-- The mutex is free after every call, no call blocks, and every sequence of calls runs to
its end, as long as no transaction is committed at its own coordinator without a decision. -/
theorem calls_release_mutex {kv : KVServer} (hkv : calls.Reachable Decided kv) :
    kv.txMgr.mu = false ∧
    (∀ call, Decided kv call → ∃ kv', calls.step kv call = some kv' ∧ kv'.txMgr.mu = false) ∧
    ∀ cs, calls.exec kv cs = none → ∃ before call after kv',
      cs = before ++ call :: after ∧ calls.exec kv before = some kv' ∧ ¬ Decided kv' call := by
  have hfree : kv.txMgr.mu = false := by
    apply hkv.invariant (fun _ hinit => hinit)
    intro s call t hs hdec hstep
    obtain ⟨t', ht', hfree'⟩ := run_free hs hdec
    obtain rfl : t' = t := Option.some.inj (ht'.symm.trans hstep)
    exact hfree'
  exact ⟨hfree, fun call hdec => run_free hfree hdec,
    fun cs hblo => exists_undecided_of_exec_none hfree hblo⟩

def localPrepare : Call :=
  .prepare .offline 0 ⟨"t", [], [⟨"k", "v", 0, false⟩], 0, 1, [1, 2]⟩

theorem init_newKVServer : calls.init (newKVServer 1 ∅) := rfl

theorem calls_release_mutex_decided : ∃ kv, calls.Reachable Decided kv ∧
    Decided kv (.commit "t") ∧
    ∃ kv', calls.step kv (.commit "t") = some kv' ∧ kv'.txMgr.mu = false := by
  obtain ⟨kv, hrun, hdec⟩ := calls.exists_of_execOk Decided (newKVServer 1 ∅)
    [localPrepare, .recordDecision ⟨"t", .committed, [1, 2], []⟩]
    (fun kv => Decided kv (.commit "t")) (by decide +kernel)
  have hreach : calls.Reachable Decided kv := ⟨_, init_newKVServer, hrun⟩
  exact ⟨kv, hreach, hdec, (calls_release_mutex hreach).2.1 _ hdec⟩

theorem undecided_commit_keeps_mutex : ∃ kv, calls.Reachable System.anyStep kv ∧
    kv.txMgr.mu = true ∧
    calls.step kv (.expire ⟨["k"], 0⟩) = none ∧ calls.step kv localPrepare = none := by
  obtain ⟨kv, hrun, hheld⟩ := calls.exists_of_exec (newKVServer 1 ∅) [localPrepare, .commit "t"]
    (fun kv => kv.txMgr.mu = true ∧ (calls.step kv (.expire ⟨["k"], 0⟩)).isNone = true ∧
      (calls.step kv localPrepare).isNone = true) (by decide +kernel)
  exact ⟨kv, System.Reachable.of_exec init_newKVServer hrun, hheld.1,
    Option.isNone_iff_eq_none.mp hheld.2.1, Option.isNone_iff_eq_none.mp hheld.2.2⟩

end Locking

end OrbisKV.KV
