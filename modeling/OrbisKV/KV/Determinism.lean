import OrbisKV.KV.Serving
import OrbisKV.KV.Wal
/-!
# Commands that do not look at the clock

The handlers read the wall clock of the replica they run on.
-/

namespace OrbisKV.KV

open Std Int64 Store KVServer

namespace KVServer

variable (hash : String → UInt64)

def lastingKey (kv : KVServer) (key : String) : Bool :=
  (kv.store.kvAt? key).all fun e => e.expires ≤ 0

/-- The put does not depend on the time: it is refused at any time, or sets no expiry
on a key whose entry does not expire. -/
def lastingPut (kv : KVServer) (args : PutArgs) : Bool :=
  match kv.store[args.key]? with
  | none => args.version.toUInt64 ≠ 0 || args.ttl ≤ 0
  | some raw =>
    match raw.toKV? with
    | none => true
    | some cur =>
      if cur.expires ≤ 0 then cur.version ≠ args.version.toUInt64 || args.ttl ≤ 0
      else
        -- an expired and a live entry are replaced alike
        cur.version = 0 && cur.value = "" && args.version.toUInt64 = 0 && args.ttl ≤ 0

def lastingStatus (kv : KVServer) (txID : String) : Bool :=
  ((kv.store.getTxRecord (txDecisionPrefix ++ txID)).bind Document.toDecision?).isSome ||
    kv.store.finished txID ||
    (kv.diskRecord txID).all fun rec =>
      rec.participantGroupIDs ≠ [] || rec.timeoutMs ≤ 0 || deadline rec = maxValue

def refusesReads (s : Store) (readKeys : List ReadKey) : Prop :=
  ∃ e, e ≠ .ok ∧ ∀ now, checkReads s now readKeys = e

def clockFree (kv : KVServer) (net : Net) : Request → Prop
  | .get key => kv.dead = true ∨ (kv.shardOf hash key).state = .absent ∨ kv.lastingKey key = true
  | .delete key =>
    kv.dead = true ∨ (kv.shardOf hash key).state = .absent ∨ kv.lastingKey key = true
  | .put args =>
    kv.dead = true ∨ (kv.shardOf hash args.key).state = .absent ∨ kv.lastingPut args = true
  | .scan args =>
    kv.dead = true ∨ ∀ item ∈ kv.store.scanPrefix args.pre args.limit, item.2.expires ≤ 0
  | .prepareTx args =>
    kv.txMgr.mu = true ∨ (resolveConflicts net args.txID kv args.writeKeys).2 = false ∨
      refusesReads (resolveConflicts net args.txID kv args.writeKeys).1.store args.readKeys
  | .resolveTxStatus txID => kv.lastingStatus txID = true
  | _ => True

def settled (kv : KVServer) : Request → Prop
  | .put args => (kv.shardOf hash args.key).state ≠ .migrating
  | .delete key => (kv.shardOf hash key).state ≠ .migrating
  | _ => True

def outcome (kv : KVServer) (net : Net) (clock : Clock) (req : Request) : Option (Store × Reply) :=
  (kv.doOp hash net clock req).map fun r => (r.1.store, r.2)

end KVServer

theorem isExpired_at_zero (expires : Int64) : isExpired expires 0 = false := by
  by_cases hpos : 0 < expires
  · have hle : ¬expires ≤ 0 := not_le.mpr hpos
    simp [isExpired, hle]
  · simp [isExpired, hpos]

theorem isExpired_at_max {expires : Int64} (h : ¬expires ≤ 0) :
    isExpired expires maxValue = true := by
  rw [isExpired, Bool.and_eq_true]
  exact ⟨decide_eq_true (not_le.mp h), decide_eq_true (le_maxValue expires)⟩

def Clock.stopped (t : Int64) : Clock := ⟨t, t⟩

namespace Store

theorem get_of_kvAt? {s : Store} {key : String} {e : KVEntry} (h : s.kvAt? key = some e) :
    s.get key = .ok (some e) := by
  rcases s.get_eq key with ⟨-, hnone⟩ | hget
  · rw [h] at hnone
    cases hnone
  · rw [hget, h]

end Store

namespace KVServer

section

variable {hash : String → UInt64} {kv : KVServer} {net : Net} {key : String} {args : PutArgs}

theorem lastingKey_iff : kv.lastingKey key = true ↔
    ∀ e, kv.store.kvAt? key = some e → e.expires ≤ 0 := by
  simp [lastingKey, Option.all_eq_true]

theorem exists_of_not_lastingKey (h : ¬kv.lastingKey key = true) :
    ∃ e, kv.store.kvAt? key = some e ∧ ¬e.expires ≤ 0 := by
  rw [lastingKey_iff] at h
  by_contra hnone
  exact h fun e he => Classical.not_not.mp fun hpos => hnone ⟨e, he, hpos⟩

theorem doGet_const (h : kv.clockFree hash net (.get key)) (now now' : Int64) :
    kv.doGet hash now key = kv.doGet hash now' key := by
  unfold doGet
  rcases h with hdead | habsent | hlas
  · simp [hdead]
  · simp [habsent]
  · rw [lastingKey_iff] at hlas
    rcases kv.store.get_eq key with ⟨⟨e, herr⟩, -⟩ | hget
    · simp [herr]
    · rw [hget]
      cases he : kv.store.kvAt? key with
      | none => rfl
      | some e => simp [isExpired_of_le (hlas e he)]

theorem clockFree_of_doGet (h : kv.doGet hash 0 key = kv.doGet hash maxValue key) :
    kv.clockFree hash net (.get key) := by
  by_contra hfree
  simp only [clockFree, not_or] at hfree
  obtain ⟨hdead, habsent, hlas⟩ := hfree
  obtain ⟨e, he, hpos⟩ := exists_of_not_lastingKey hlas
  have herr := congrArg GetReply.err h
  simp [doGet, hdead, habsent, get_of_kvAt? he, isExpired_at_zero, isExpired_at_max hpos] at herr

theorem doScan_const {args : ScanArgs} (h : kv.clockFree hash net (.scan args))
    (now now' : Int64) : kv.doScan now args = kv.doScan now' args := by
  unfold doScan
  rcases h with hdead | hlas
  · simp [hdead]
  · have hall : ∀ t : Int64, (kv.store.scanPrefix args.pre args.limit).filter
        (fun item => !isExpired item.2.expires t) = kv.store.scanPrefix args.pre args.limit := by
      intro t
      rw [List.filter_eq_self]
      intro item hitem
      rw [isExpired_of_le (hlas item hitem)]
      rfl
    simp only [hall]

theorem clockFree_of_doScan {args : ScanArgs} (h : kv.doScan 0 args = kv.doScan maxValue args) :
    kv.clockFree hash net (.scan args) := by
  by_cases hdead : kv.dead = true
  · exact .inl hdead
  · right
    intro item hitem
    by_contra hpos
    have hlen := congrArg (fun r => r.items.length) h
    have hkept : (kv.store.scanPrefix args.pre args.limit).filter
        (fun item => !isExpired item.2.expires 0) = kv.store.scanPrefix args.pre args.limit := by
      rw [List.filter_eq_self]
      intro x _
      rw [isExpired_at_zero]
      rfl
    have hdro : ((kv.store.scanPrefix args.pre args.limit).filter
        (fun item => !isExpired item.2.expires maxValue)).length <
          (kv.store.scanPrefix args.pre args.limit).length := by
      rw [List.length_filter_lt_length_iff_exists]
      exact ⟨item, hitem, by simp [isExpired_at_max hpos]⟩
    simp only [doScan, hdead, if_false, List.length_map, hkept, Bool.false_eq_true] at hlen
    omega

theorem doDelete_const (h : kv.clockFree hash net (.delete key))
    (hset : kv.settled hash (.delete key)) (now now' : Int64) :
    kv.doDelete hash net now key = kv.doDelete hash net now' key := by
  by_cases hdead : kv.dead = true
  · simp [doDelete, hdead]
  · by_cases habsent : (kv.shardOf hash key).state = .absent
    · simp [doDelete, habsent]
    · have hlas := lastingKey_iff.mp ((h.resolve_left hdead).resolve_left habsent)
      rw [Bool.not_eq_true] at hdead
      rw [doDelete_eq_local hash hdead habsent hset, doDelete_eq_local hash hdead habsent hset]
      unfold doDeleteLocal
      rcases kv.store.get_eq key with ⟨⟨e, herr⟩, -⟩ | hget
      · rw [herr]
      · rw [hget]
        cases he : kv.store.kvAt? key with
        | none => rfl
        | some e => simp [live?, Option.filter, isExpired_of_le (hlas e he)]

theorem clockFree_of_doDelete (hset : kv.settled hash (.delete key))
    (h : (kv.doDelete hash net 0 key).2 = (kv.doDelete hash net maxValue key).2) :
    kv.clockFree hash net (.delete key) := by
  by_contra hfree
  simp only [clockFree, not_or, Bool.not_eq_true] at hfree
  obtain ⟨hdead, habsent, hlas⟩ := hfree
  obtain ⟨e, he, hpos⟩ := exists_of_not_lastingKey (by rw [hlas]; decide)
  rw [doDelete_eq_local hash hdead habsent hset, doDelete_eq_local hash hdead habsent hset] at h
  have herr := congrArg DeleteReply.err h
  simp [doDeleteLocal, get_of_kvAt? he, live?, Option.filter, isExpired_at_zero,
    isExpired_at_max hpos] at herr

def putAnswer (found : Option Document) :
    Except StoreError (Option Document × String × PutCASStatus) → Option Document × PutReply
  | .error _ => (found, { err := .wrongLeader })
  | .ok (left, old, .ok) => (left, { err := .ok, oldValue := old })
  | .ok (_, _, .versionMismatch) => (found, { err := .version })
  | .ok (_, _, .noKey) => (found, { err := .noKey })

def putAnswerAt (kv : KVServer) (clock : Clock) (args : PutArgs) : Option Document × PutReply :=
  putAnswer kv.store[args.key]? (putResult clock.casNow args.key args.value
    args.version.toUInt64 (absoluteExpiryFromTTL args.ttl clock.now) kv.store[args.key]?)

theorem doPutLocal_eq (clock : Clock) (args : PutArgs) :
    kv.doPutLocal clock args =
      ({ kv with store := kv.store.place args.key (kv.putAnswerAt clock args).1 },
        (kv.putAnswerAt clock args).2) := by
  have hself := place_self kv.store args.key
  rw [doPutLocal, putCAS, putCASWithTTL_eq, putAnswerAt]
  cases putResult clock.casNow args.key args.value args.version.toUInt64
      (absoluteExpiryFromTTL args.ttl clock.now) kv.store[args.key]? with
  | error e => simp [Except.map, putAnswer, hself]
  | ok r =>
    obtain ⟨left, old, status⟩ := r
    cases status with
    | ok => simp [Except.map, putAnswer]
    | _ => simp [Except.map, putAnswer, hself]

theorem absoluteExpiryFromTTL_inj {ttl now now' : Int64} (h : ¬ttl ≤ 0)
    (heq : absoluteExpiryFromTTL ttl now = absoluteExpiryFromTTL ttl now') : now = now' := by
  rw [absoluteExpiryFromTTL, absoluteExpiryFromTTL, if_neg h, if_neg h] at heq
  exact (Int64.add_left_inj _).mp heq

theorem putResult_blank {raw : Document} {cur : KVEntry} (hraw : raw.toKV? = some cur)
    (hver : cur.version = 0) (hval : cur.value = "") (now : Int64) (key value : String)
    (expires : Int64) : putResult now key value 0 expires (some raw) =
      .ok (some (.entry ⟨value, 1, expires⟩), "", .ok) := by
  by_cases hexp : isExpired cur.expires now = true
  · simp [putResult, hraw, hexp, firstResult]
  · simp [putResult, hraw, hexp, hver, hval]

theorem putAnswerAt_const (h : kv.lastingPut args = true) (clock clock' : Clock) :
    kv.putAnswerAt clock args = kv.putAnswerAt clock' args := by
  unfold lastingPut at h
  unfold putAnswerAt
  cases hfound : kv.store[args.key]? with
  | none =>
    simp only [hfound, Bool.or_eq_true, decide_eq_true_eq] at h
    rcases h with hver | httl
    · simp [putResult, firstResult, hver]
    · simp [putResult, absoluteExpiryFromTTL_of_le httl]
  | some raw =>
    cases hraw : raw.toKV? with
    | none => simp [putResult, hraw]
    | some cur =>
      simp only [hfound, hraw] at h
      by_cases hexp : cur.expires ≤ 0
      · simp only [if_pos hexp, Bool.or_eq_true, decide_eq_true_eq] at h
        rcases h with hver | httl
        · simp [putResult, hraw, isExpired_of_le hexp, hver]
        · simp [putResult, hraw, isExpired_of_le hexp, absoluteExpiryFromTTL_of_le httl]
      · simp only [if_neg hexp, Bool.and_eq_true, decide_eq_true_eq] at h
        obtain ⟨⟨⟨hver, hval⟩, hzero⟩, httl⟩ := h
        rw [hzero, absoluteExpiryFromTTL_of_le httl, absoluteExpiryFromTTL_of_le httl,
          putResult_blank hraw hver hval, putResult_blank hraw hver hval]

theorem putAnswerAt_none (hfound : kv.store[args.key]? = none)
    (hver : args.version.toUInt64 = 0) (t : Int64) :
    (kv.putAnswerAt (.stopped t) args).1 =
      some (.entry ⟨args.value, 1, absoluteExpiryFromTTL args.ttl t⟩) := by
  simp [putAnswerAt, hfound, putResult, firstResult, hver, putAnswer, Clock.stopped]

theorem putAnswerAt_some {raw : Document} {cur : KVEntry} (hfound : kv.store[args.key]? = some raw)
    (hraw : raw.toKV? = some cur) (t : Int64) :
    kv.putAnswerAt (.stopped t) args =
      if isExpired cur.expires t then
        if args.version.toUInt64 ≠ 0 then (some raw, { err := .noKey })
        else (some (.entry ⟨args.value, 1, absoluteExpiryFromTTL args.ttl t⟩),
          { err := .ok, oldValue := "" })
      else if cur.version ≠ args.version.toUInt64 then (some raw, { err := .version })
      else (some (.entry ⟨args.value, cur.version + 1, absoluteExpiryFromTTL args.ttl t⟩),
        { err := .ok, oldValue := cur.value }) := by
  rw [putAnswerAt, hfound]
  by_cases hexp : isExpired cur.expires t = true
  · rw [if_pos hexp, putResult]
    simp only [hraw, Clock.stopped, hexp, if_true, firstResult]
    split_ifs <;> rfl
  · rw [if_neg hexp, putResult]
    simp only [hraw, Clock.stopped, hexp, if_false, Bool.false_eq_true]
    split_ifs <;> rfl

theorem lastingPut_of_answers
    (h : ∀ t t', kv.putAnswerAt (.stopped t) args = kv.putAnswerAt (.stopped t') args) :
    kv.lastingPut args = true := by
  have hne : (0 : Int64) ≠ 1 := by decide
  unfold lastingPut
  cases hfound : kv.store[args.key]? with
  | none =>
    simp only [Bool.or_eq_true, decide_eq_true_eq]
    by_contra hcond
    rw [not_or, Classical.not_not] at hcond
    obtain ⟨hver, httl⟩ := hcond
    have hleft := congrArg Prod.fst (h 0 1)
    rw [putAnswerAt_none hfound hver, putAnswerAt_none hfound hver] at hleft
    simp only [Option.some.injEq, Document.entry.injEq, KVEntry.mk.injEq] at hleft
    exact hne (absoluteExpiryFromTTL_inj httl hleft.2.2)
  | some raw =>
    cases hraw : raw.toKV? with
    | none => simp only [hraw]
    | some cur =>
      have hat := fun t => putAnswerAt_some hfound hraw t
      simp only [hraw]
      by_cases hexp : cur.expires ≤ 0
      · rw [if_pos hexp]
        simp only [Bool.or_eq_true, decide_eq_true_eq]
        by_contra hcond
        rw [not_or, Classical.not_not] at hcond
        obtain ⟨hver, httl⟩ := hcond
        have hleft := congrArg Prod.fst (h 0 1)
        simp [hat, isExpired_of_le hexp, hver] at hleft
        exact hne (absoluteExpiryFromTTL_inj httl hleft)
      · rw [if_neg hexp]
        have hends := h 0 maxValue
        rw [hat, hat, isExpired_at_zero, isExpired_at_max hexp, if_neg Bool.false_ne_true,
          if_pos rfl] at hends
        by_cases hver : cur.version ≠ args.version.toUInt64
        · rw [if_pos hver] at hends
          split at hends
          · have herr := congrArg (fun p => p.2.err) hends
            cases herr
          · have herr := congrArg (fun p => p.2.err) hends
            cases herr
        · rw [if_neg hver] at hends
          split at hends
          · have herr := congrArg (fun p => p.2.err) hends
            cases herr
          · rename_i hzero
            rw [Classical.not_not] at hver hzero
            have hold := congrArg (fun p => p.2.oldValue) hends
            have hexpi := congrArg Prod.fst hends
            simp only [Option.some.injEq, Document.entry.injEq, KVEntry.mk.injEq] at hexpi
            have httl : args.ttl ≤ 0 := by
              by_contra hpos
              have hcont := absoluteExpiryFromTTL_inj hpos hexpi.2.2
              exact absurd hcont (by decide)
            simp only [Bool.and_eq_true, decide_eq_true_eq]
            exact ⟨⟨⟨hver.trans hzero, hold⟩, hzero⟩, httl⟩

theorem doPut_const (h : kv.clockFree hash net (.put args)) (hset : kv.settled hash (.put args))
    (clock clock' : Clock) : kv.doPut hash net clock args = kv.doPut hash net clock' args := by
  by_cases hdead : kv.dead = true
  · simp [doPut, hdead]
  · by_cases habsent : (kv.shardOf hash args.key).state = .absent
    · simp [doPut, habsent]
    · have hlas := (h.resolve_left hdead).resolve_left habsent
      rw [Bool.not_eq_true] at hdead
      rw [doPut_eq_local hash hdead habsent hset, doPut_eq_local hash hdead habsent hset,
        doPutLocal_eq, doPutLocal_eq, putAnswerAt_const hlas clock clock']

theorem clockFree_of_doPut (hset : kv.settled hash (.put args))
    (h : ∀ t t', (kv.doPut hash net (.stopped t) args).1.store =
        (kv.doPut hash net (.stopped t') args).1.store ∧
      (kv.doPut hash net (.stopped t) args).2 = (kv.doPut hash net (.stopped t') args).2) :
    kv.clockFree hash net (.put args) := by
  by_cases hdead : kv.dead = true
  · exact .inl hdead
  · by_cases habsent : (kv.shardOf hash args.key).state = .absent
    · exact .inr (.inl habsent)
    · rw [Bool.not_eq_true] at hdead
      refine .inr (.inr (lastingPut_of_answers fun t t' => ?_))
      have hsame := h t t'
      simp only [doPut_eq_local hash hdead habsent hset, doPutLocal_eq] at hsame
      have hleft := congrArg (fun s : Store => s[args.key]?) hsame.1
      simp only [getElem?_place, if_true] at hleft
      exact Prod.ext hleft hsame.2

theorem prepare_const {args : PrepareTxArgs} (h : kv.clockFree hash net (.prepareTx args))
    (now now' : Int64) : kv.prepare net now args = kv.prepare net now' args := by
  unfold prepare
  rcases h with hmu | hcon | ⟨e, hne, hreads⟩
  · simp [hmu]
  · generalize resolveConflicts net args.txID kv args.writeKeys = r at hcon
    obtain ⟨kv₁, free⟩ := r
    cases hcon
    rfl
  · generalize resolveConflicts net args.txID kv args.writeKeys = r at hreads
    obtain ⟨kv₁, free⟩ := r
    cases free with
    | false => rfl
    | true =>
      simp only [hreads]

theorem clockFree_of_prepare {args : PrepareTxArgs}
    (h : ∀ t t', (kv.prepare net t args).map (fun r => (r.1.store, r.2)) =
      (kv.prepare net t' args).map fun r => (r.1.store, r.2)) :
    kv.clockFree hash net (.prepareTx args) := by
  by_cases hmu : kv.txMgr.mu = true
  · exact .inl hmu
  · rw [Bool.not_eq_true] at hmu
    generalize hconf : resolveConflicts net args.txID kv args.writeKeys = r
    obtain ⟨kv₁, free⟩ := r
    cases free with
    | false => exact .inr (.inl (by rw [hconf]))
    | true =>
      refine .inr (.inr ?_)
      rw [hconf]
      simp only [prepare_of_resolved hmu hconf] at h
      -- a transaction that is prepared carries the time of its preparation
      have href : ∀ t, checkReads kv₁.store t args.readKeys ≠ .ok := by
        intro t hok
        have hother : t ≠ t + 1 := by
          intro heq
          have hzero := (Int64.add_right_inj t).mp ((Int64.add_zero t).trans heq)
          exact absurd hzero (by decide)
        have hpair := h t (t + 1)
        rw [if_pos hok] at hpair
        split at hpair
        · simp only [Option.map_some, Option.some.injEq, Prod.mk.injEq, and_true] at hpair
          have hrec := congrArg (fun s : Store => s.getTxRecord (txPreparePrefix ++ args.txID))
            hpair
          simp only [installPrepared, prepareRecord, getTxRecord_putTxRecord, if_true,
            Option.some.injEq, Document.prepare.injEq, PreparedTxRecord.mk.injEq] at hrec
          exact hother hrec.2.2.2.1
        · rename_i hne
          simp only [Option.map_some, Option.some.injEq, Prod.mk.injEq] at hpair
          exact hne hpair.2.symm
      refine ⟨checkReads kv₁.store 0 args.readKeys, href 0, fun now => ?_⟩
      have hpair := h now 0
      rw [if_neg (href now), if_neg (href 0)] at hpair
      simp only [Option.map_some, Option.some.injEq, Prod.mk.injEq] at hpair
      exact hpair.2

theorem resolveTxStatus_const {txID : String} (h : kv.lastingStatus txID = true)
    (now now' : Int64) : kv.resolveTxStatus now txID = kv.resolveTxStatus now' txID := by
  simp only [lastingStatus, Bool.or_eq_true] at h
  unfold resolveTxStatus
  cases hdec : (kv.store.getTxRecord (txDecisionPrefix ++ txID)).bind Document.toDecision? with
  | some d => rfl
  | none =>
    dsimp only
    by_cases hcom : kv.hasRecord txCommitPrefix txID = true
    · rw [if_pos hcom, if_pos hcom]
    · by_cases hab : kv.hasRecord txAbortPrefix txID = true
      · rw [if_neg hcom, if_pos hab, if_neg hcom, if_pos hab]
      · rw [if_neg hcom, if_neg hab, if_neg hcom, if_neg hab]
        cases hdisk : kv.diskRecord txID with
        | none => rfl
        | some rec =>
          have hnot : ∀ t, ¬(rec.participantGroupIDs = [] ∧ 0 < rec.timeoutMs ∧
              deadline rec < t) := by
            rintro t ⟨hgroups, htim, hdea⟩
            rw [hdec, finished_iff_hasRecord, hdisk] at h
            simp only [Option.isSome_none, Bool.false_eq_true, false_or, hcom, hab,
              or_self, Option.all_some, Bool.or_eq_true, decide_eq_true_eq] at h
            rcases h with (hne | hle) | hmax
            · exact hne hgroups
            · exact not_le.mpr htim hle
            · rw [hmax] at hdea
              exact not_lt.mpr (le_maxValue t) hdea
          simp only [if_neg (hnot now), if_neg (hnot now')]

theorem lastingStatus_of_resolve {txID : String}
    (h : (kv.resolveTxStatus minValue txID).map (fun r => r.2) =
      (kv.resolveTxStatus maxValue txID).map fun r => r.2) :
    kv.lastingStatus txID = true := by
  by_contra hlas
  simp only [lastingStatus, Bool.or_eq_true, not_or, Bool.not_eq_true, Option.isSome_eq_false_iff,
    Option.isNone_iff_eq_none] at hlas
  obtain ⟨⟨hdec, hfin⟩, hall⟩ := hlas
  have hmarks := (finished_iff_hasRecord kv txID).not.mp (by rw [hfin]; decide)
  rw [not_or] at hmarks
  cases hdisk : kv.diskRecord txID with
  | none =>
    rw [hdisk] at hall
    cases hall
  | some rec =>
    simp only [hdisk, Option.all_some, Bool.or_eq_false_iff, decide_eq_false_iff_not,
      Classical.not_not] at hall
    obtain ⟨⟨hgroups, htim⟩, hdea⟩ := hall
    have hlate : rec.participantGroupIDs = [] ∧ 0 < rec.timeoutMs ∧ deadline rec < maxValue :=
      ⟨hgroups, not_le.mp htim, lt_of_le_of_ne (le_maxValue _) hdea⟩
    have hearly : ¬(rec.participantGroupIDs = [] ∧ 0 < rec.timeoutMs ∧ deadline rec < minValue) :=
      fun hlt => not_lt.mpr (minValue_le _) hlt.2.2
    unfold resolveTxStatus at h
    simp only [hdec, hmarks.1, hmarks.2, hdisk, if_pos hlate, if_neg hearly,
      Bool.false_eq_true, if_false] at h
    by_cases hmu : kv.txMgr.mu = true
    · simp [hmu] at h
    · simp [hmu] at h

theorem doOp_const {req : Request} (h : kv.clockFree hash net req) (hset : kv.settled hash req)
    (clock clock' : Clock) : kv.doOp hash net clock req = kv.doOp hash net clock' req := by
  cases req with
  | get key => simp only [doOp, doGet_const h clock.now clock'.now]
  | put args => simp only [doOp, doPut_const h hset clock clock']
  | delete key => simp only [doOp, doDelete_const h hset clock.now clock'.now]
  | scan args => simp only [doOp, doScan_const h clock.now clock'.now]
  | prepareTx args => simp only [doOp, prepare_const h clock.now clock'.now]
  | resolveTxStatus txID => simp only [doOp, resolveTxStatus_const h clock.now clock'.now]
  | _ => rfl

theorem clockFree_of_outcome {req : Request} (hset : kv.settled hash req)
    (h : ∀ t t', kv.outcome hash net (.stopped t) req = kv.outcome hash net (.stopped t') req) :
    kv.clockFree hash net req := by
  cases req with
  | get key =>
    have heq := h 0 maxValue
    simp only [outcome, doOp, Option.map_some, Option.some.injEq, Prod.mk.injEq, true_and,
      Reply.get.injEq] at heq
    exact clockFree_of_doGet heq
  | put args =>
    refine clockFree_of_doPut hset fun t t' => ?_
    have heq := h t t'
    simpa only [outcome, doOp, Option.map_some, Option.some.injEq, Prod.mk.injEq,
      Reply.put.injEq] using heq
  | delete key =>
    have heq := h 0 maxValue
    simp only [outcome, doOp, Option.map_some, Option.some.injEq, Prod.mk.injEq,
      Reply.delete.injEq] at heq
    exact clockFree_of_doDelete hset heq.2
  | scan args =>
    have heq := h 0 maxValue
    simp only [outcome, doOp, Option.map_some, Option.some.injEq, Prod.mk.injEq, true_and,
      Reply.scan.injEq] at heq
    exact clockFree_of_doScan heq
  | prepareTx args =>
    refine clockFree_of_prepare fun t t' => ?_
    have heq := h t t'
    simp only [outcome, doOp, Option.map_map] at heq
    have hinj : Function.Injective fun p : Store × Err => (p.1, Reply.prepareTx p.2) := by
      rintro ⟨s, e⟩ ⟨s', e'⟩ hp
      simpa using hp
    refine Option.map_injective hinj ?_
    rw [Option.map_map, Option.map_map]
    exact heq
  | resolveTxStatus txID =>
    refine lastingStatus_of_resolve ?_
    have heq := congrArg (Option.map Prod.snd) (h minValue maxValue)
    simp only [outcome, doOp, Option.map_map] at heq
    have hinj : Function.Injective Reply.resolveTxStatus := fun r r' hr => by simpa using hr
    refine Option.map_injective hinj ?_
    rw [Option.map_map, Option.map_map]
    exact heq
  | _ => trivial

end

end KVServer

def inputsAt (commands : List (Request × Net)) (clocks : List Clock) : List Input :=
  List.zipWith (fun c clock => ⟨c.1, c.2, clock⟩) commands clocks

def Nondecreasing (clocks : List Clock) : Prop :=
  (clocks.flatMap fun c => [c.now, c.casNow]).Pairwise (· ≤ ·)

instance (clocks : List Clock) : Decidable (Nondecreasing clocks) :=
  inferInstanceAs (Decidable (List.Pairwise _ _))

section

variable (hash : String → UInt64)

def settledRun : KVServer → List (Request × Net) → Prop
  | _, [] => True
  | kv, c :: cs =>
    kv.settled hash c.1 ∧ ∀ clock kv' reply,
      kv.doOp hash c.2 clock c.1 = some (kv', reply) → settledRun kv' cs

def clockFreeRun : KVServer → List (Request × Net) → Prop
  | _, [] => True
  | kv, c :: cs =>
    kv.clockFree hash c.2 c.1 ∧ ∀ clock kv' reply,
      kv.doOp hash c.2 clock c.1 = some (kv', reply) → clockFreeRun kv' cs

def replica (kv : KVServer) (commands : List (Request × Net)) (clocks : List Clock) :
    Option (Store × List Reply) :=
  ((machine hash).run kv (inputsAt commands clocks)).map fun p => (p.1.store, p.2)

variable {hash}

theorem replica_cons (kv : KVServer) (c : Request × Net) (cs : List (Request × Net))
    (clock : Clock) (clocks : List Clock) :
    replica hash kv (c :: cs) (clock :: clocks) = (kv.doOp hash c.2 clock c.1).bind fun p =>
        (replica hash p.1 cs clocks).map fun q => (q.1, p.2 :: q.2) := by
  have hstep : (machine hash).step kv ⟨c.1, c.2, clock⟩ = kv.doOp hash c.2 clock c.1 := rfl
  rw [replica, inputsAt, List.zipWith_cons_cons, Lib.Machine.run, hstep]
  cases kv.doOp hash c.2 clock c.1 with
  | none => rfl
  | some p =>
    simp only [Option.bind_some, Option.map_map, replica]
    rfl

theorem Nondecreasing.tail {clock : Clock} {clocks : List Clock}
    (h : Nondecreasing (clock :: clocks)) : Nondecreasing clocks := by
  rw [Nondecreasing, List.flatMap_cons] at h
  exact (List.pairwise_append.mp h).2.1

theorem nondecreasing_min_cons {clocks : List Clock} (h : Nondecreasing clocks) :
    Nondecreasing (.stopped minValue :: clocks) := by
  rw [Nondecreasing, List.flatMap_cons, List.pairwise_append]
  refine ⟨?_, h, ?_⟩
  · simp [Clock.stopped]
  · intro t ht t' _
    simp only [Clock.stopped, List.mem_cons, List.not_mem_nil, or_false, or_self] at ht
    rw [ht]
    exact minValue_le t'

theorem nondecreasing_stopped (t : Int64) : Nondecreasing [.stopped t] := by
  simp [Nondecreasing, Clock.stopped]

/-- Two replicas that start from the same state and apply the same commands agree
after every part of them, whatever their clocks, exactly when every command meets
its condition. -/
theorem replicas_agree_iff (hash : String → UInt64) (kv : KVServer)
    (commands : List (Request × Net)) (hset : settledRun hash kv commands) :
    (∀ clocks clocks' : List Clock, clocks.length = clocks'.length → Nondecreasing clocks →
        Nondecreasing clocks' → replica hash kv commands clocks = replica hash kv commands clocks')
      ↔ clockFreeRun hash kv commands := by
  induction commands generalizing kv with
  | nil =>
    constructor
    · intro _
      trivial
    · intro _ clocks clocks' _ _ _
      rfl
  | cons c cs ih =>
    obtain ⟨hhead, htail⟩ := hset
    constructor
    · intro h
      have hfree : kv.clockFree hash c.2 c.1 := by
        apply clockFree_of_outcome hhead
        intro t t'
        have heq := h [.stopped t] [.stopped t'] rfl (nondecreasing_stopped t)
          (nondecreasing_stopped t')
        rw [replica_cons, replica_cons] at heq
        have hinj : Function.Injective fun p : Store × Reply => (p.1, [p.2]) := by
          rintro ⟨s, r⟩ ⟨s', r'⟩ hp
          simpa using hp
        refine Option.map_injective hinj ?_
        simp only [outcome, Option.map_map]
        have hone : ∀ clock, ((kv.doOp hash c.2 clock c.1).bind fun p =>
            (replica hash p.1 cs []).map fun q => (q.1, p.2 :: q.2)) =
              (kv.doOp hash c.2 clock c.1).map fun p => (p.1.store, [p.2]) := by
          intro clock
          cases kv.doOp hash c.2 clock c.1 with
          | none => rfl
          | some p =>
            cases cs <;> rfl
        rw [hone, hone] at heq
        exact heq
      refine ⟨hfree, fun clock kv' reply hrun => ?_⟩
      refine (ih kv' (htail clock kv' reply hrun)).mp ?_
      -- the first command at the earliest time leaves the clocks of the rest free
      intro clocks clocks' hlen hmono hmono'
      have heq := h (.stopped minValue :: clocks) (.stopped minValue :: clocks')
        (by rw [List.length_cons, List.length_cons, hlen]) (nondecreasing_min_cons hmono)
        (nondecreasing_min_cons hmono')
      rw [replica_cons, replica_cons,
        doOp_const hfree hhead (.stopped minValue) clock, hrun, Option.bind_some,
        Option.bind_some] at heq
      have hinj : Function.Injective fun q : Store × List Reply => (q.1, reply :: q.2) := by
        rintro ⟨s, r⟩ ⟨s', r'⟩ hp
        simpa using hp
      exact Option.map_injective hinj heq
    · rintro ⟨hfree, hrest⟩ clocks clocks' hlen hmono hmono'
      cases clocks with
      | nil =>
        obtain rfl : clocks' = [] := List.length_eq_zero_iff.mp hlen.symm
        rfl
      | cons clock clocks =>
        cases clocks' with
        | nil => cases hlen
        | cons clock' clocks' =>
          rw [replica_cons, replica_cons, doOp_const hfree hhead clock clock']
          cases hrun : kv.doOp hash c.2 clock' c.1 with
          | none => rfl
          | some p =>
            have hagree := (ih p.1 (htail clock' p.1 p.2 hrun)).mpr
              (hrest clock' p.1 p.2 hrun) clocks clocks' (Nat.succ.inj hlen) hmono.tail
              hmono'.tail
            simp only [Option.bind_some, hagree]

end

theorem replicas_agree_sample :
    replica (fun _ => 0) (newKVServer 1 ∅)
        [(.put ⟨"k", "a", 0, 0⟩, .offline), (.get "k", .offline)] [⟨1, 1⟩, ⟨2, 2⟩] =
      replica (fun _ => 0) (newKVServer 1 ∅)
        [(.put ⟨"k", "a", 0, 0⟩, .offline), (.get "k", .offline)] [⟨5, 6⟩, ⟨9, 9⟩] := by
  have hset : (newKVServer 1 ∅).settled (fun _ => 0) (.put ⟨"k", "a", 0, 0⟩) := by
    change ((newKVServer 1 ∅).shardOf (fun _ => 0) "k").state ≠ .migrating
    decide +kernel
  have hfree : (newKVServer 1 ∅).clockFree (fun _ => 0) .offline (.put ⟨"k", "a", 0, 0⟩) :=
    .inr (.inr (by decide +kernel))
  refine (replicas_agree_iff (fun _ => 0) (newKVServer 1 ∅)
    [(.put ⟨"k", "a", 0, 0⟩, .offline), (.get "k", .offline)]
    ⟨hset, fun _ _ _ _ => ⟨trivial, fun _ _ _ _ => trivial⟩⟩).mpr
    ⟨hfree, fun clock kv' reply hrun => ⟨.inr (.inr ?_), fun _ _ _ _ => trivial⟩⟩
    [⟨1, 1⟩, ⟨2, 2⟩] [⟨5, 6⟩, ⟨9, 9⟩] rfl (by decide) (by decide)
  rw [doOp_const hfree hset clock (.stopped 0)] at hrun
  have hall : ((newKVServer 1 ∅).doOp (fun _ => 0) .offline (.stopped 0)
      (.put ⟨"k", "a", 0, 0⟩)).all (fun p => p.1.lastingKey "k") = true := by decide +kernel
  rw [Option.all_eq_true] at hall
  exact hall _ hrun

theorem replicas_diverge_on_expired_key :
    ∃ (commands : List (Request × Net)) (clocks clocks' : List Clock),
      settledRun (fun _ => 0) (newKVServer 1 ∅) commands ∧ clocks.length = clocks'.length ∧
        Nondecreasing clocks ∧ Nondecreasing clocks' ∧
        (replica (fun _ => 0) (newKVServer 1 ∅) commands clocks).map (fun p => p.1["k"]?) =
          some (some (.entry ⟨"a", 1, 1000000000⟩)) ∧
        (replica (fun _ => 0) (newKVServer 1 ∅) commands clocks').map (fun p => p.1["k"]?) =
          some (some (.entry ⟨"b", 1, 0⟩)) := by
  refine ⟨[(.put ⟨"k", "a", 0, 1⟩, .offline), (.put ⟨"k", "b", 0, 0⟩, .offline)],
    [.stopped 0, .stopped 0], [.stopped 0, .stopped 2000000000], ?_, rfl, ?_, ?_, ?_, ?_⟩
  · refine ⟨?_, fun clock kv' reply hrun => ⟨?_, fun _ _ _ _ => trivial⟩⟩
    · change ((newKVServer 1 ∅).shardOf (fun _ => 0) "k").state ≠ .migrating
      decide +kernel
    · have hwrote : KVServer.Wrote (fun _ => True) (newKVServer 1 ∅) kv' := by
        rw [(of_doOp_put hrun).1]
        exact wrote_doPut _ _ _ trivial
      rw [hwrote.rest]
      change ((newKVServer 1 ∅).shardOf (fun _ => 0) "k").state ≠ .migrating
      decide +kernel
  · simp [Nondecreasing, Clock.stopped]
  · simp [Nondecreasing, Clock.stopped]
  · decide +kernel
  · decide +kernel

end OrbisKV.KV
