import OrbisKV.KV.Frame
import OrbisKV.KV.Wal
/-!
# What the write-ahead log keeps of a command

The entry of a command drops the values of its read keys and the write keys of a
decision, and `ResolveTxStatus`, which gives up a prepared transaction after its
deadline, is not executed again.
-/

namespace OrbisKV.KV

open Std KVServer Option Request

variable {kv : KVServer} {net : Net} {now : Int64} {txID : String}

namespace KVServer

/-- The case in which `ResolveTxStatus` aborts: no decision and no outcome is known, and
the transaction is one of this group only and past its deadline. -/
def timedOut (kv : KVServer) (now : Int64) (txID : String) : Bool :=
  ((kv.store.getTxRecord (txDecisionPrefix ++ txID)).bind Document.toDecision?).isNone &&
    !kv.hasRecord txCommitPrefix txID && !kv.hasRecord txAbortPrefix txID &&
    (kv.diskRecord txID).any fun rec =>
      rec.participantGroupIDs = [] ∧ 0 < rec.timeoutMs ∧ deadline rec < now

theorem checkReads_withoutValue (s : Store) (readKeys : List ReadKey) :
    checkReads s now (readKeys.map ReadKey.withoutValue) = checkReads s now readKeys := by
  induction readKeys with
  | nil => rfl
  | cons rk rks ih =>
    have hhead : checkRead s now rk.withoutValue = checkRead s now rk := rfl
    simp only [List.map_cons, checkReads, hhead, ih]

theorem installPrepared_inj {kv : KVServer} {rec rec' : PreparedTxRecord}
    (htx : rec.txID = rec'.txID)
    (h : kv.installPrepared rec = kv.installPrepared rec') : rec = rec' := by
  have hcac := congrArg (fun kv' => kv'.txMgr.preparedTxs[rec.txID]?) h
  simpa [installPrepared, htx] using hcac

theorem prepare_withoutValue_iff (args : PrepareTxArgs) :
    (kv.prepare net now
        { args with readKeys := args.readKeys.map ReadKey.withoutValue }).map (·.1) =
      (kv.prepare net now args).map (·.1) ↔
    args.readKeys.all (·.value = "") = true ∨ (kv.prepare net now args).all (·.2 ≠ .ok) = true := by
  unfold prepare
  by_cases hmu : kv.txMgr.mu = true
  · simp [hmu]
  · simp only [hmu, Bool.false_eq_true, if_false]
    obtain ⟨kv', resolved⟩ := resolveConflicts net args.txID kv args.writeKeys
    cases resolved with
    | false => simp
    | true =>
      simp only [checkReads_withoutValue]
      cases checkReads kv'.store now args.readKeys with
      | ok =>
        simp only [map_some, Option.some.injEq, all_some, ne_eq, not_true_eq_false,
          decide_false, Bool.false_eq_true, or_false]
        rw [← map_withoutValue_eq_self_iff]
        constructor
        · intro h
          have hrec := installPrepared_inj (by rfl) h
          exact congrArg PreparedTxRecord.readKeys hrec
        · intro h
          rw [h]
      | _ => simp

theorem recordDecision_withoutWrites_iff (args : RecordTxDecisionArgs) :
    (kv.recordDecision { args with writeKeys := [] }).1 = (kv.recordDecision args).1 ↔
      args.writeKeys = [] ∨ (args.decision ≠ .committed ∧ args.decision ≠ .aborted) ∨
        kv.hasRecord txDecisionPrefix args.txID = true := by
  unfold recordDecision hasRecord
  by_cases hdec : args.decision ≠ .committed ∧ args.decision ≠ .aborted
  · simp [hdec]
  · simp only [hdec, if_false, false_or]
    cases hfound : kv.store.getTxRecord (txDecisionPrefix ++ args.txID) with
    | some raw =>
      simp only [isSome_some, or_true]
    | none =>
      simp only [isSome_none, Bool.false_eq_true, or_false]
      constructor
      · intro h
        have hrecord :=
          congrArg (fun kv' => kv'.store.getTxRecord (txDecisionPrefix ++ args.txID)) h
        simpa [Store.getTxRecord_putTxRecord, eq_comm] using hrecord
      · intro h
        rw [h]

theorem resolveTxStatus_of_not_timedOut (h : kv.timedOut now txID = false) :
    (kv.resolveTxStatus now txID).map (·.1) = some kv := by
  unfold timedOut at h
  unfold resolveTxStatus
  cases hdec : (kv.store.getTxRecord (txDecisionPrefix ++ txID)).bind Document.toDecision? with
  | some d => rfl
  | none =>
    cases hcom : kv.hasRecord txCommitPrefix txID with
    | true => rfl
    | false =>
      cases hab : kv.hasRecord txAbortPrefix txID with
      | true => rfl
      | false =>
        cases hdisk : kv.diskRecord txID with
        | none => rfl
        | some rec =>
          have hlate : ¬(rec.participantGroupIDs = [] ∧ 0 < rec.timeoutMs ∧
              deadline rec < now) := by
            simpa [hdec, hcom, hab, hdisk] using h
          simp [hlate]

theorem resolveTxStatus_of_timedOut (h : kv.timedOut now txID = true) :
    (kv.resolveTxStatus now txID).map (·.1) ≠ some kv := by
  simp only [timedOut, Bool.and_eq_true, isNone_iff_eq_none, Bool.not_eq_true',
    any_eq_true, decide_eq_true_eq] at h
  obtain ⟨⟨⟨hdec, hcom⟩, hab⟩, rec, hdisk, hlate⟩ := h
  simp only [resolveTxStatus, hdec, hcom, hab, hdisk, hlate, and_self, if_true,
    Bool.false_eq_true, if_false]
  split
  · simp
  · intro hsame
    have hrecord := congrArg (fun kv' => kv'.hasRecord txAbortPrefix txID) (Option.some.inj hsame)
    simp only [hasRecord, Store.getTxRecord_deleteTxRecord, Store.getTxRecord_putTxRecord,
      if_neg (prepare_ne_abort txID txID), if_true] at hrecord
    rw [hasRecord, ← hrecord] at hab
    cases hab

end KVServer

/-- Nothing that the log drops of the command reaches the state in which it is applied. -/
def Request.keptByWal (req : Request) (kv : KVServer) (net : Net) (clock : Clock) : Prop :=
  match req with
  | .prepareTx args =>
    args.readKeys.all (·.value = "") = true ∨ (kv.prepare net clock.now args).all (·.2 ≠ .ok) = true
  | .resolveTxStatus txID => kv.timedOut clock.now txID = false
  | .recordTxDecision args =>
    args.writeKeys = [] ∨ (args.decision ≠ .committed ∧ args.decision ≠ .aborted) ∨
      kv.hasRecord txDecisionPrefix args.txID = true
  | _ => True

/-- The replay of a command leaves the server that the command left exactly where
nothing that the log drops reaches the state. -/
theorem replay_eq_doOp_iff (hash : String → UInt64) (kv : KVServer) (net : Net)
    (clock : Clock) (req : Request) :
    replay hash kv ⟨req, net, clock⟩ = (kv.doOp hash net clock req).map (·.1) ↔
      req.keptByWal kv net clock := by
  cases req with
  | prepareTx args =>
    simp only [replay, recorded, doOp, map_map, keptByWal]
    exact prepare_withoutValue_iff args
  | resolveTxStatus txID =>
    simp only [replay, recorded, doOp, map_map, keptByWal]
    cases hlate : kv.timedOut clock.now txID with
    | false => simpa [Function.comp_def] using (resolveTxStatus_of_not_timedOut hlate).symm
    | true => simpa [Function.comp_def] using (resolveTxStatus_of_timedOut hlate).symm
  | recordTxDecision args =>
    simp only [replay, recorded, doOp, map_some, Option.some.injEq, keptByWal]
    exact recordDecision_withoutWrites_iff args
  | _ => simp [replay, recorded, doOp, keptByWal]

theorem replay_ne_doOp_sample :
    let decision : Request := .recordTxDecision ⟨"t", .committed, [2], [⟨"k", "v", 0, false⟩]⟩
    let prepare : Request := .prepareTx ⟨"t", [], [⟨"k", "v", 0, false⟩], 1, 1, []⟩
    let hash : String → UInt64 := fun _ => 0
    let kv := newKVServer 1 ∅
    ((replay hash kv ⟨decision, .offline, ⟨0, 0⟩⟩).map fun kv' =>
        kv'.store.getTxRecord "decision:t") = some (some (.decision ⟨.committed, [2], []⟩)) ∧
      ((kv.doOp hash .offline ⟨0, 0⟩ decision).map fun r =>
        r.1.store.getTxRecord "decision:t") =
          some (some (.decision ⟨.committed, [2], [⟨"k", "v", 0, false⟩]⟩)) ∧
      (kv.doOp hash .offline ⟨0, 0⟩ prepare).any fun prepared =>
        (replay hash prepared.1 ⟨.resolveTxStatus "t", .offline, ⟨2000000, 2000000⟩⟩).map
            (·.store.getTxRecord "abort:t") = some none ∧
          (prepared.1.doOp hash .offline ⟨2000000, 2000000⟩ (.resolveTxStatus "t")).map
            (·.1.store.getTxRecord "abort:t") = some (some .mark) := by
  decide +kernel

end OrbisKV.KV
