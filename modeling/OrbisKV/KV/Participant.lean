import OrbisKV.Lib.Transition
import OrbisKV.KV.Image
import OrbisKV.KV.Ledger
/-!
# One participant on its own

The calls on the `TxManager` of one group in any order and with any repetition, the
answers of other groups being arbitrary.
-/

namespace OrbisKV.KV

open KVServer Lib.System List Option

variable {kv : KVServer}

open Std

inductive TxCommand
  | prepare (args : PrepareTxArgs) (net : Net) (now : Int64)
  | commit (txID : String)
  | abort (txID : String)
  | recordDecision (args : RecordTxDecisionArgs)
  | resolveTxStatus (txID : String) (now : Int64)
  | rebuildLockTable (net : Net) (records : List (String × Document))

namespace TxCommand

def run (kv : KVServer) : TxCommand → Option KVServer
  | prepare args net now => (kv.prepare net now args).map Prod.fst
  | commit txID => (kv.commit txID).map Prod.fst
  | abort txID => (kv.abort txID).map Prod.fst
  | recordDecision args => some (kv.recordDecision args).1
  | resolveTxStatus txID now => (kv.resolveTxStatus now txID).map Prod.fst
  | rebuildLockTable net records =>
    if records.isPerm (kv.store.scanTxRecordsByPrefix txPreparePrefix) then
      kv.rebuildLockTable net records
    else none

def onUserKeys : TxCommand → Bool
  | prepare args _ _ => args.writeKeys.all fun wk => isUserKey wk.key
  | _ => true

end TxCommand

def participant : Lib.System KVServer TxCommand where
  init kv := kv.txMgr = {} ∧ ∀ x, kv.store.getTxRecord x = none
  step := TxCommand.run

def Store.applyOutcomes : Store → List Outcome → Except StoreError Store
  | s, [] => .ok s
  | s, .abort _ :: es => s.applyOutcomes es
  | s, .commit _ writeKeys :: es =>
    match s.writeBatchWithCASInTxn (batchOps writeKeys) with
    | .error e => .error e
    | .ok t => t.applyOutcomes es

def PreparedBy (calls : List TxCommand) (txID : String) (writeKeys : List WriteKey) : Prop :=
  ∃ args net now, .prepare args net now ∈ calls ∧ args.txID = txID ∧ args.writeKeys = writeKeys

/-- The history of ends that explains the marks and the user entries of a
participant after the calls. -/
structure Accounts (kv₀ : KVServer) (calls : List TxCommand) (history : List Outcome)
    (kv : KVServer) : Prop where
  once : (history.map Outcome.txID).Nodup
  committed : ∀ txID, kv.hasRecord txCommitPrefix txID = true ↔
    ∃ writeKeys, .commit txID writeKeys ∈ history
  aborted : ∀ txID, kv.hasRecord txAbortPrefix txID = true ↔ .abort txID ∈ history
  prepared : ∀ txID writeKeys, .commit txID writeKeys ∈ history → PreparedBy calls txID writeKeys
  entries : ∃ s, kv₀.store.applyOutcomes history = .ok s ∧
    ∀ key, isUserKey key = true → kv.store[key]? = s[key]?

namespace Store

theorem applyOutcomes_append {s t : Store} {es es' : List Outcome}
    (h : s.applyOutcomes es = .ok t) : s.applyOutcomes (es ++ es') = t.applyOutcomes es' := by
  induction es generalizing s with
  | nil =>
    cases h
    rfl
  | cons e es ih =>
    cases e with
    | abort txID => exact ih h
    | commit txID writeKeys =>
      rw [cons_append, applyOutcomes]
      rw [applyOutcomes] at h
      split at h
      · cases h
      · exact ih h

namespace Ends

variable {es : List Outcome} {s t : Store}

theorem finished_iff (h : Ends es s t) (hes : ∀ e ∈ es, e.OnUserKeys) (x : String) :
    t.finished x = true ↔ s.finished x = true ∨ ∃ e ∈ es, e.txID = x := by
  rw [finished_eq, finished_eq, Bool.or_eq_true, Bool.or_eq_true, h.commitMark_iff hes,
    h.abortMark_iff hes]
  constructor
  · rintro ((hs | ⟨wks, hmem⟩) | (hs | hmem))
    · exact .inl (.inl hs)
    · exact .inr ⟨_, hmem, rfl⟩
    · exact .inl (.inr hs)
    · exact .inr ⟨_, hmem, rfl⟩
  · rintro ((hs | hs) | ⟨e, hmem, rfl⟩)
    · exact .inl (.inl hs)
    · exact .inr (.inl hs)
    · cases e with
      | commit txID wks => exact .inl (.inr ⟨wks, hmem⟩)
      | abort txID => exact .inr (.inr hmem)

theorem nodup_snoc {e : Outcome} (h : Ends es s t) (hes : ∀ e' ∈ es ++ [e], e'.OnUserKeys)
    (hnodup : (es.map Outcome.txID).Nodup) (hopen : t.finished e.txID = false) :
    ((es ++ [e]).map Outcome.txID).Nodup := by
  rw [map_append, map_singleton, nodup_append]
  refine ⟨hnodup, nodup_singleton _, ?_⟩
  intro x hx y hy hxy
  rw [mem_singleton] at hy
  obtain ⟨e', he', rfl⟩ := mem_map.mp hx
  have hfin := (h.finished_iff (fun d hd => hes d (mem_append_left _ hd)) e'.txID).mpr
    (.inr ⟨e', he', rfl⟩)
  rw [hxy, hy, hopen] at hfin
  cases hfin

theorem nodup (h : Ends es s t) (hes : ∀ e ∈ es, e.OnUserKeys) : (es.map Outcome.txID).Nodup := by
  induction h with
  | refl => exact nodup_nil
  | commit hends hopen _ ih | abort hends hopen ih =>
    exact hends.nodup_snoc hes (ih fun e he => hes e (mem_append_left _ he)) hopen
  | prepare _ _ ih | decision _ _ _ ih | drop _ _ ih => exact ih hes

theorem entries (h : Ends es s t) (hes : ∀ e ∈ es, e.OnUserKeys) :
    ∃ u, s.applyOutcomes es = .ok u ∧ ∀ key, isUserKey key = true → t[key]? = u[key]? := by
  induction h with
  | refl => exact ⟨_, rfl, fun _ _ => rfl⟩
  | @commit es s t u' txID writeKeys _ _ hbat ih =>
    obtain ⟨u, hap, hsame⟩ := ih fun e he => hes e (mem_append_left _ he)
    have hkeys := hes _ (mem_append_right _ (mem_singleton_self _))
    rw [applyOutcomes_append hap]
    rw [writeBatchWithCASAndRecord] at hbat
    rcases writeBatchWithCASInTxn_congr
        (fun op hop => hsame op.key (batchOps_user hkeys op hop)) with
      ⟨e, herr, -⟩ | ⟨t', v, ht', hv, hagree⟩
    · rw [herr] at hbat
      cases hbat
    · rw [ht'] at hbat
      cases hbat
      refine ⟨v, by rw [applyOutcomes, hv]; rfl, ?_⟩
      intro key hkey
      rw [getElem?_putTxRecord hkey]
      exact hagree key (hsame key hkey)
  | abort _ _ ih =>
    obtain ⟨u, hap, hsame⟩ := ih fun e he => hes e (mem_append_left _ he)
    refine ⟨u, applyOutcomes_append hap, ?_⟩
    intro key hkey
    rw [getElem?_putTxRecord hkey, hsame key hkey]
  | prepare _ rec ih | decision _ _ rec ih =>
    obtain ⟨u, hap, hsame⟩ := ih hes
    refine ⟨u, hap, ?_⟩
    intro key hkey
    rw [getElem?_putTxRecord hkey, hsame key hkey]
  | drop _ txID ih =>
    obtain ⟨u, hap, hsame⟩ := ih hes
    refine ⟨u, hap, ?_⟩
    intro key hkey
    rw [getElem?_deleteTxRecord hkey, hsame key hkey]

end Ends

end Store

def CalledFor (calls : List TxCommand) (rec : PreparedTxRecord) : Prop :=
  (rec.Within fun key => isUserKey key = true) ∧ PreparedBy calls rec.txID rec.writeKeys

def LedTo (calls : List TxCommand) : Outcome → Prop
  | .commit txID writeKeys =>
    (∀ wk ∈ writeKeys, isUserKey wk.key = true) ∧ PreparedBy calls txID writeKeys
  | .abort _ => True

section

variable {calls : List TxCommand} {kv kv' : KVServer} {calls' : List TxCommand}

theorem LedTo.onUserKeys {e : Outcome} (h : LedTo calls e) : e.OnUserKeys := by
  cases e with
  | commit txID writeKeys => exact h.1
  | abort txID => trivial

theorem PreparedBy.mono {txID : String} {writeKeys : List WriteKey}
    (h : PreparedBy calls txID writeKeys) (hsub : calls ⊆ calls') :
    PreparedBy calls' txID writeKeys := by
  obtain ⟨args, net, now, hmem, heq⟩ := h
  exact ⟨args, net, now, hsub hmem, heq⟩

theorem LedTo.mono {e : Outcome} (h : LedTo calls e) (hsub : calls ⊆ calls') : LedTo calls' e := by
  cases e with
  | commit txID writeKeys => exact ⟨h.1, h.2.mono hsub⟩
  | abort txID => trivial

theorem holds_mono (h : kv.Holds (CalledFor calls)) (hsub : calls ⊆ calls') :
    kv.Holds (CalledFor calls') := by
  refine ⟨?_, ?_⟩
  · intro txID rec hcac
    obtain ⟨hname, hrec⟩ := h.cached txID rec hcac
    exact ⟨hname, hrec.1, hrec.2.mono hsub⟩
  · intro txID rec hdisk
    obtain ⟨hname, hrec⟩ := h.stored txID rec hdisk
    exact ⟨hname, hrec.1, hrec.2.mono hsub⟩

theorem answers_ledTo (net : Net) (kv : KVServer) :
    kv.Answers (CalledFor calls) (LedTo calls) net :=
  fun _ hrec => ⟨fun _ => hrec, fun _ => trivial⟩

theorem TxCommand.ends {c : TxCommand} (h : kv.Holds (CalledFor calls))
    (hc : c.onUserKeys = true) (hmem : c ∈ calls) (hrun : c.run kv = some kv') :
    (∃ es, (∀ e ∈ es, LedTo calls e) ∧ Store.Ends es kv.store kv'.store) ∧
      kv'.Holds (CalledFor calls) := by
  have hkeys : ∀ rec, CalledFor calls rec → rec.Within fun key => isUserKey key = true :=
    fun _ hrec => hrec.1
  have hend : KVServer.Ended (CalledFor calls) (LedTo calls) kv kv' ∨
      ∃ args, kv' = (kv.recordDecision args).1 := by
    cases c with
    | prepare args net now =>
      obtain ⟨⟨kv₁, e⟩, hprep, rfl⟩ := map_eq_some_iff.mp hrun
      rw [TxCommand.onUserKeys, List.all_eq_true] at hc
      have hargs : CalledFor calls (prepareRecord args now) := ⟨hc, args, net, now, hmem, rfl, rfl⟩
      exact .inl (ended_prepare hkeys h (answers_ledTo net kv) hargs hprep)
    | commit txID =>
      obtain ⟨⟨kv₁, e⟩, hcom, rfl⟩ := map_eq_some_iff.mp hrun
      refine .inl (ended_commit hkeys h ?_ hcom)
      rintro rec hrec rfl
      exact hrec
    | abort txID =>
      obtain ⟨⟨kv₁, e⟩, hab, rfl⟩ := map_eq_some_iff.mp hrun
      exact .inl (ended_abort h trivial hab)
    | recordDecision args =>
      cases hrun
      exact .inr ⟨args, rfl⟩
    | resolveTxStatus txID now =>
      obtain ⟨⟨kv₁, r⟩, hres, rfl⟩ := map_eq_some_iff.mp hrun
      exact .inl (ended_resolveTxStatus h (fun _ _ _ _ => trivial) hres)
    | rebuildLockTable net records =>
      simp only [TxCommand.run] at hrun
      split_ifs at hrun with hperm
      refine .inl (ended_rebuildLockTable hkeys h (answers_ledTo net kv) ?_ hrun)
      intro item hitem rec hdoc
      obtain ⟨x, -, hd⟩ := Store.mem_scanTxRecordsByPrefix.mp
        ((isPerm_iff.mp hperm).mem_iff.mp hitem)
      refine (h.stored x rec ?_).2
      rw [diskRecord, hd]
      exact hdoc
  rcases hend with hend | ⟨args, rfl⟩
  · exact ⟨hend.ends, hend.holds⟩
  · exact ⟨⟨[], by simp, ends_recordDecision kv args⟩, h.recordDecision args⟩

theorem ends_of_exec {before calls : List TxCommand} (h : kv.Holds (CalledFor before))
    (hcs : ∀ c ∈ calls, c.onUserKeys = true) (hrun : participant.exec kv calls = some kv') :
    (∃ es, (∀ e ∈ es, LedTo (before ++ calls) e) ∧ Store.Ends es kv.store kv'.store) ∧
      kv'.Holds (CalledFor (before ++ calls)) := by
  induction calls generalizing kv before with
  | nil =>
    cases hrun
    rw [append_nil]
    exact ⟨⟨[], by simp, .refl _⟩, h⟩
  | cons c calls ih =>
    obtain ⟨mid, hstep, hrest⟩ := bind_eq_some_iff.mp hrun
    have hholds := holds_mono h (subset_append_left before [c])
    obtain ⟨⟨es, hes, hends⟩, hmid⟩ := TxCommand.ends hholds (hcs c mem_cons_self)
      (mem_append_right _ (mem_singleton_self c)) hstep
    obtain ⟨⟨es', hes', hends'⟩, hkv'⟩ := ih hmid (fun d hd => hcs d (mem_cons_of_mem c hd)) hrest
    rw [append_assoc, singleton_append] at hes' hkv'
    refine ⟨⟨es ++ es', ?_, hends.trans hends'⟩, hkv'⟩
    intro e he
    rcases mem_append.mp he with he | he
    · refine (hes e he).mono ?_
      intro d hd
      rcases mem_append.mp hd with hd | hd
      · exact mem_append_left _ hd
      · rw [mem_singleton] at hd
        subst hd
        exact mem_append_right _ mem_cons_self
    · exact hes' e he

theorem accounts_of_ends {kv₀ : KVServer} {history : List Outcome}
    (hnone : ∀ x, kv₀.store.getTxRecord x = none) (hes : ∀ e ∈ history, LedTo calls e)
    (hends : Store.Ends history kv₀.store kv.store) : Accounts kv₀ calls history kv := by
  have huser : ∀ e ∈ history, e.OnUserKeys := fun e he => (hes e he).onUserKeys
  refine ⟨hends.nodup huser, ?_, ?_, fun txID writeKeys hmem => (hes _ hmem).2, hends.entries huser⟩
  · intro txID
    rw [hasRecord, hends.commitMark_iff huser, hnone]
    simp
  · intro txID
    rw [hasRecord, hends.abortMark_iff huser, hnone]
    simp

end

/-- Cut the calls on a participant anywhere. -/
theorem ends_once_and_exclusively {kv₀ kv₁ kv₂ : KVServer} (hinit : participant.init kv₀)
    {calls₁ calls₂ : List TxCommand} (huser : ∀ c ∈ calls₁ ++ calls₂, c.onUserKeys = true)
    (h₁ : participant.exec kv₀ calls₁ = some kv₁) (h₂ : participant.exec kv₁ calls₂ = some kv₂) :
    ∃ history₁ history₂, Accounts kv₀ calls₁ history₁ kv₁ ∧
      Accounts kv₀ (calls₁ ++ calls₂) (history₁ ++ history₂) kv₂ ∧
      ∀ txID, ¬(kv₂.hasRecord txCommitPrefix txID = true ∧
        kv₂.hasRecord txAbortPrefix txID = true) := by
  obtain ⟨htx, hnone⟩ := hinit
  have hholds : kv₀.Holds (CalledFor []) := by
    refine ⟨?_, ?_⟩
    · intro txID rec hcac
      rw [htx] at hcac
      simp at hcac
    · intro txID rec hdisk
      rw [diskRecord, hnone] at hdisk
      cases hdisk
  obtain ⟨⟨es₁, hes₁, hends₁⟩, hkv₁⟩ :=
    ends_of_exec hholds (fun c hc => huser c (mem_append_left _ hc)) h₁
  rw [nil_append] at hes₁ hkv₁
  obtain ⟨⟨es₂, hes₂, hends₂⟩, -⟩ :=
    ends_of_exec hkv₁ (fun c hc => huser c (mem_append_right _ hc)) h₂
  have hall : ∀ e ∈ es₁ ++ es₂, LedTo (calls₁ ++ calls₂) e := by
    intro e he
    rcases mem_append.mp he with he | he
    · exact (hes₁ e he).mono (subset_append_left _ _)
    · exact hes₂ e he
  have hacc := accounts_of_ends hnone hall (hends₁.trans hends₂)
  refine ⟨es₁, es₂, accounts_of_ends hnone hes₁ hends₁, hacc, ?_⟩
  rintro txID ⟨hcom, hab⟩
  obtain ⟨writeKeys, hmem⟩ := (hacc.committed txID).mp hcom
  have hmem' := (hacc.aborted txID).mp hab
  have heq := inj_on_of_nodup_map hacc.once hmem hmem' rfl
  cases heq

def sampleTx : PrepareTxArgs := ⟨"t", [], [⟨"k", "a", 0, false⟩], 0, 2, [1, 2]⟩

theorem ends_once_sample : ∃ kv₁ kv₂,
    participant.exec (newKVServer 1 ∅) [.prepare sampleTx .offline 0] = some kv₁ ∧
    participant.exec kv₁ [.commit "t", .abort "t", .commit "t"] = some kv₂ ∧
    kv₂.hasRecord txCommitPrefix "t" = true ∧
    ¬(kv₂.hasRecord txCommitPrefix "t" = true ∧ kv₂.hasRecord txAbortPrefix "t" = true) := by
  obtain ⟨kv₂, hrun, hmark⟩ := exists_of_exec participant (newKVServer 1 ∅)
    [.prepare sampleTx .offline 0, .commit "t", .abort "t", .commit "t"]
    (fun kv => kv.hasRecord txCommitPrefix "t" = true) (by decide +kernel)
  obtain ⟨kv₁, h₁, h₂⟩ := bind_eq_some_iff.mp hrun
  have hfirst : participant.exec (newKVServer 1 ∅) [.prepare sampleTx .offline 0] = some kv₁ := by
    rw [exec, h₁]
    rfl
  obtain ⟨-, -, -, -, hone⟩ := ends_once_and_exclusively ⟨rfl, fun _ => rfl⟩
    (by decide +kernel) hfirst h₂
  exact ⟨kv₁, kv₂, hfirst, h₂, hmark, hone "t"⟩

/-- The call keeps to the rules: a transaction is prepared only before its end, and
again only with all its keys, and its commit does not come before the decision that
its own group has to record. -/
def TxCommand.orderly (kv : KVServer) : TxCommand → Bool
  | prepare args _ _ => kv.orderly (.prepareTx args)
  | commit txID => kv.orderly (.commitTx ⟨txID, []⟩)
  | rebuildLockTable _ _ => false
  | abort _ | recordDecision _ | resolveTxStatus _ _ => true

theorem tidy_of_init (h : kv.txMgr = {} ∧ ∀ x, kv.store.getTxRecord x = none) : kv.Tidy := by
  obtain ⟨htx, hnone⟩ := h
  refine ⟨by rw [htx], ⟨?_, ?_⟩, ?_, ?_, ?_, ?_⟩
  · intro txID rec hcac
    rw [htx] at hcac
    simp at hcac
  · intro txID rec hdisk
    rw [hnone] at hdisk
    cases hdisk
  · intro txID
    rw [hnone, htx]
    simp
  · intro txID rec hcac
    rw [htx] at hcac
    simp at hcac
  · intro txID rec hcac
    rw [htx] at hcac
    simp at hcac
  · intro key txID
    rw [htx]
    simp

theorem TxCommand.tidy {kv' : KVServer} {c : TxCommand} (h : kv.Tidy) (hc : c.orderly kv = true)
    (hrun : c.run kv = some kv') : kv'.Tidy := by
  cases c with
  | prepare args net now =>
    obtain ⟨⟨kv₁, e⟩, hprep, rfl⟩ := map_eq_some_iff.mp hrun
    exact h.prepare hc hprep
  | commit txID =>
    obtain ⟨⟨kv₁, e⟩, hcom, rfl⟩ := map_eq_some_iff.mp hrun
    exact h.commit hc hcom
  | abort txID =>
    obtain ⟨⟨kv₁, e⟩, hab, rfl⟩ := map_eq_some_iff.mp hrun
    exact h.abort hab
  | recordDecision args =>
    cases hrun
    exact h.recordDecision args
  | resolveTxStatus txID now =>
    obtain ⟨⟨kv₁, r⟩, hres, rfl⟩ := map_eq_some_iff.mp hrun
    exact h.resolveTxStatus hres
  | rebuildLockTable net records => cases hc

/-- After calls that keep to the rules `RebuildLockTable` changes nothing while no
coordinator has a decision for a prepared transaction; the holder of a lock has not
ended and its prepare record has the key. -/
theorem lockTable_is_derived {kv : KVServer}
    (hs : participant.Reachable (fun kv c => c.orderly kv = true) kv) (net : Net)
    {records : List (String × Document)}
    (hperm : records.Perm (kv.store.scanTxRecordsByPrefix txPreparePrefix))
    (hopen : ∀ (txID : String) (rec : PreparedTxRecord), kv.diskRecord txID = some rec →
      kv.Open net rec) :
    kv.rebuildLockTable net records = some kv ∧
      ∀ key txID : String, kv.txMgr.lockTable[key]? = some txID →
        kv.store.finished txID = false ∧ ∃ rec, kv.diskRecord txID = some rec ∧ rec.writes key := by
  have htidy : kv.Tidy :=
    hs.invariant (fun _ => tidy_of_init) fun _ _ _ h hc hrun => TxCommand.tidy h hc hrun
  refine ⟨?_, ?_⟩
  · refine htidy.rebuildLockTable kv ?_ hperm rfl rfl htidy.free
    intro txID rec hcac
    rw [← htidy.diskRecord_eq] at hcac
    exact hopen txID rec hcac
  · intro key txID hlock
    obtain ⟨rec, hcac, hwri⟩ := (htidy.locks key txID).mp hlock
    refine ⟨htidy.pending txID rec hcac, rec, ?_, hwri⟩
    rw [htidy.diskRecord_eq]
    exact hcac

theorem open_of_remote
    (h : ∀ item ∈ kv.store.scanTxRecordsByPrefix txPreparePrefix, ∀ rec ∈ item.2.toPrepared?,
      rec.coordinatorGroupID ≠ kv.groupID) (txID : String) (rec : PreparedTxRecord)
    (hdisk : kv.diskRecord txID = some rec) : kv.Open .offline rec := by
  obtain ⟨d, hd, hrec⟩ := bind_eq_some_iff.mp hdisk
  have hmem : (txKeyPrefix ++ (txPreparePrefix ++ txID), d) ∈
      kv.store.scanTxRecordsByPrefix txPreparePrefix :=
    Store.mem_scanTxRecordsByPrefix.mpr ⟨txID, rfl, hd⟩
  have hne := h _ hmem rec hrec
  simp [KVServer.Open, queryCoordinatorDecision, hne, Net.offline]

theorem lockTable_is_derived_sample : ∃ kv,
    participant.Reachable (fun kv c => c.orderly kv = true) kv ∧
      kv.txMgr.lockTable["k"]? = some "t" ∧
      ∃ net records, kv.rebuildLockTable net records = some kv := by
  obtain ⟨kv, hrun, hlock, hopen⟩ := exists_of_execOk participant
    (fun kv c => c.orderly kv = true) (newKVServer 1 ∅)
    [.prepare ⟨"u", [], [⟨"k", "b", 0, false⟩], 0, 2, [1, 2]⟩ .offline 0, .abort "u",
      .prepare sampleTx .offline 0]
    (fun kv => kv.txMgr.lockTable["k"]? = some "t" ∧ ∀ item ∈
      kv.store.scanTxRecordsByPrefix txPreparePrefix, ∀ rec ∈ item.2.toPrepared?,
        rec.coordinatorGroupID ≠ kv.groupID) (by decide +kernel)
  have hs : participant.Reachable (fun kv c => c.orderly kv = true) kv :=
    ⟨newKVServer 1 ∅, ⟨rfl, fun _ => rfl⟩, hrun⟩
  exact ⟨kv, hs, hlock, .offline, _,
    (lockTable_is_derived hs .offline (.refl _) (open_of_remote hopen)).1⟩

theorem lock_outlives_commit : ∃ kv,
    participant.Reachable (fun _ c => c.onUserKeys = true) kv ∧
      (∀ txID rec, kv.diskRecord txID = some rec → kv.Open .offline rec) ∧
      kv.txMgr.lockTable["k"]? = some "t" ∧ kv.store.finished "t" = true ∧
      ((kv.rebuildLockTable .offline (kv.store.scanTxRecordsByPrefix txPreparePrefix)).map
        fun kv' => kv'.txMgr.lockTable["k"]?) = some none := by
  obtain ⟨kv, hrun, hlock, hfin, hreb, hopen⟩ := exists_of_execOk participant
    (fun _ c => c.onUserKeys = true) (newKVServer 1 ∅)
    [.prepare sampleTx .offline 0, .commit "t", .prepare sampleTx .offline 0]
    (fun kv => kv.txMgr.lockTable["k"]? = some "t" ∧ kv.store.finished "t" = true ∧
      ((kv.rebuildLockTable .offline (kv.store.scanTxRecordsByPrefix txPreparePrefix)).map
        fun kv' => kv'.txMgr.lockTable["k"]?) = some none ∧ ∀ item ∈
      kv.store.scanTxRecordsByPrefix txPreparePrefix, ∀ rec ∈ item.2.toPrepared?,
        rec.coordinatorGroupID ≠ kv.groupID) (by decide +kernel)
  exact ⟨kv, ⟨newKVServer 1 ∅, ⟨rfl, fun _ => rfl⟩, hrun⟩, open_of_remote hopen, hlock, hfin, hreb⟩

end OrbisKV.KV
