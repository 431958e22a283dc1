import OrbisKV.KV.Serving
import OrbisKV.KV.Wal
/-!
# Restart without a snapshot

`MakeRSM` executes the whole log again, on the store that the first execution
left.
-/

namespace OrbisKV.KV

open Std List Option Request Store Bool

def Reply.rejected : Reply → Bool
  | .setShardState error => error ≠ ""
  | .get reply => reply.err ≠ .ok
  | .put reply => reply.err ≠ .ok
  | .delete reply => reply.err ≠ .ok
  | .cleanupShard reply => reply.err ≠ .ok
  | .scan reply => reply.err ≠ .ok
  | .expire reply => reply.err ≠ .ok
  | .prepareTx err => err ≠ .ok
  | .commitTx err => err ≠ .ok
  | .abortTx err => err ≠ .ok
  | .resolveTxStatus reply => reply.err ≠ .ok
  | .recordTxDecision err => err ≠ .ok

section

variable (hash : String → UInt64) (s : Store) (wal done : List Input)

/-- The log writes the key only by puts without a TTL and by deletions. -/
def plain (key : String) : Bool :=
  wal.all fun input =>
    match input.request with
    | .put args => args.key ≠ key || args.ttl ≤ 0
    | .prepareTx args => args.writeKeys.all fun wk => wk.key ≠ key
    | _ => true

/-- A plain key that does not survive starts the replay as it started the first
execution, and any other plain key is absent in both after a deletion of it. -/
def inStep (key : String) : Bool :=
  plain wal key && (s[key]?.isNone || done.any fun input => input.request = .delete key)

def refusesCleanup (args : CleanupShardArgs) : Bool :=
  match KVServer.cleanupOps hash args.shardID args.keys with
  | none => true
  | some ops =>
    match s.writeBatchWithCAS ops with
    | .error _ => true
    | .ok _ => false

/-- The command may be executed again after `done`: it names user keys, of the keys
in step it may do anything, all others the surviving store does not let it change,
and its transaction is finished. -/
def replaysAt (input : Input) (reply : Reply) : Bool :=
  match input.request with
  | .put args =>
    isUserKey args.key && (inStep s wal done args.key ||
      !s.admitsPut input.clock.casNow args.key args.version.toUInt64)
  | .delete key =>
    isUserKey key &&
      if plain wal key then inStep s wal done key || !reply.rejected
      else !s.holdsLive input.clock.now key
  | .expire args =>
    args.keys.all fun key => isUserKey key && (plain wal key || !s.holdsExpired args.cutoff key)
  | .cleanupShard args =>
    (args.keys.all fun k => isUserKey k.key) && ((args.keys.all fun k => inStep s wal done k.key) ||
        ((args.keys.all fun k => !inStep s wal done k.key) && refusesCleanup hash s args))
  | .prepareTx args => (args.writeKeys.all fun wk => isUserKey wk.key) && s.finished args.txID
  | .commitTx args => s.finished args.txID
  | _ => true

end

def replaysFrom (hash : String → UInt64) (s : Store) (wal : List Input) :
    List Input → List (Input × Reply) → Bool
  | _, [] => true
  | done, (input, reply) :: rest =>
    replaysAt hash s wal done input reply && replaysFrom hash s wal (done ++ [input]) rest

theorem Store.writeBatch_deletes {s s' : Store} {ops : List WriteBatchOp}
    (hdel : ∀ op ∈ ops, op.isDelete = true) (h : s.writeBatchWithCASInTxn ops = .ok s')
    (key : String) : s'[key]? = none ∨ s'[key]? = s[key]? := by
  induction ops generalizing s with
  | nil =>
    cases h
    exact Or.inr rfl
  | cons op ops ih =>
    rw [writeBatchWithCASInTxn, writeOpWithCAS_eq] at h
    cases hres : opResult op s[op.key]? with
    | error e => rw [hres] at h; cases h
    | ok left =>
      rw [hres] at h
      have hnone : left = none := by
        have hop := hdel op mem_cons_self
        unfold opResult at hres
        grind
      subst hnone
      rcases ih (fun o ho => hdel o (mem_cons_of_mem op ho)) h with hgone | hsame
      · exact Or.inl hgone
      · rw [getElem?_place] at hsame
        split at hsame
        · exact Or.inl hsame
        · exact Or.inr hsame

def Request.spares (key : String) : Request → Prop
  | .put args => args.key ≠ key
  | .delete k => k ≠ key
  | .cleanupShard args => ∀ k ∈ args.keys, k.key ≠ key
  | _ => True

section

variable {wal : List Input} {key : String}

theorem ttl_of_plain (h : plain wal key = true) {input : Input} (hmem : input ∈ wal)
    {args : PutArgs} (hreq : input.request = .put args) (hkey : args.key = key) : args.ttl ≤ 0 := by
  have hall := List.all_eq_true.mp h input hmem
  simpa [hreq, hkey] using hall

theorem writeKeys_of_plain (h : plain wal key = true) {input : Input} (hmem : input ∈ wal)
    {args : PrepareTxArgs} (hreq : input.request = .prepareTx args) :
    ∀ wk ∈ args.writeKeys, wk.key ≠ key := by
  have hall := List.all_eq_true.mp h input hmem
  simpa [hreq] using hall

end

/-- What holds while the commands of the log are executed for the first time: plain
keys are written by no transaction and have entries that do not expire. -/
structure Original (wal : List Input) (kv : KVServer) : Prop where
  serving : kv.Serving
  within : kv.Within fun key => isUserKey key = true
  avoids : ∀ key, plain wal key = true → kv.Within (· ≠ key)
  lasting : ∀ key, isUserKey key = true → plain wal key = true →
    ∀ e, kv.store.kvAt? key = some e → e.expires = 0

namespace Original

open KVServer

variable {wal : List Input} {kv kv' : KVServer} {hash : String → UInt64} {net : Net}
  {clock : Clock} {input : Input} {reply : Reply} {key : String}

section

variable (h : Original wal kv)

include h

theorem not_expired (hkey : isUserKey key = true)
    (hpl : plain wal key = true) (now : Int64) : kv.store.holdsExpired now key = false := by
  rw [holdsExpired]
  cases he : kv.store.kvAt? key with
  | none => rfl
  | some e => simp [h.lasting key hkey hpl e he, isExpired_zero]

theorem keeps (hmem : input ∈ wal)
    (hshard : ∀ args, input.request ≠ .setShardState args) (hkey : isUserKey key = true)
    (hpl : plain wal key = true) (hreq : input.request.spares key)
    (hrun : kv.doOp hash net clock input.request = some (kv', reply)) :
    kv'.store[key]? = kv.store[key]? := by
  have hwri := @writeKeys_of_plain _ _ hpl _ hmem
  generalize input.request = req at *
  cases req with
  | expire args =>
    obtain ⟨⟨kv₁, r⟩, hexp, heq⟩ := map_eq_some_iff.mp hrun
    cases heq
    rw [doExpire, if_neg (by rw [h.serving.alive]; decide)] at hexp
    exact expireKeys_live (h.not_expired hkey hpl args.cutoff) hexp
  | prepareTx args =>
    refine (moved_doOp (K := (· ≠ key)) (fun _ hk => hk) (h.avoids key hpl)
      ?_ hshard hrun).changes.getElem? hkey (fun hne => hne rfl)
    exact hwri rfl
  | _ =>
    refine (moved_doOp (K := (· ≠ key)) (fun _ hk => hk) (h.avoids key hpl)
      ?_ hshard hrun).changes.getElem? hkey (fun hne => hne rfl)
    exact hreq

theorem kvAt?_doPut {args : PutArgs} (hkey : isUserKey args.key = true)
    (httl : args.ttl ≤ 0) {e : KVEntry}
    (he : (kv.doPut hash net clock args).1.store.kvAt? args.key = some e) :
    e.expires = 0 ∨ kv.store.kvAt? args.key = some e := by
  obtain ⟨left, old, status, hres, hstore, -⟩ := h.serving.doPut hash net clock hkey
  rw [hstore, kvAt?, getElem?_place, if_pos rfl] at he
  rcases left_of_putResult hres with ⟨-, e', rfl, hexp⟩ | ⟨-, rfl⟩
  · cases he
    rw [hexp, absoluteExpiryFromTTL, if_pos httl]
    exact Or.inl rfl
  · exact Or.inr he

theorem step (hmem : input ∈ wal)
    (hshard : ∀ args, input.request ≠ .setShardState args)
    (huser : input.request.Within (fun key => isUserKey key = true)
      (fun key => isUserKey key = true))
    (hrun : kv.doOp hash net clock input.request = some (kv', reply)) : Original wal kv' := by
  have hmv := moved_doOp (fun _ hk => hk) h.within huser hshard hrun
  refine ⟨h.serving.of_moved hmv, hmv.within, ?_, ?_⟩
  · intro key hpl
    have hreq : input.request.Within (fun _ => True) (· ≠ key) := by
      have hwri := @writeKeys_of_plain _ _ hpl _ hmem
      cases hr : input.request with
      | prepareTx args => exact hwri hr
      | cleanupShard args | expire args => exact fun _ _ => trivial
      | _ => trivial
    exact (moved_doOp (fun _ _ => trivial) (h.avoids key hpl) hreq hshard hrun).within
  · intro key hkey hpl e he
    by_cases hspa : input.request.spares key
    · rw [kvAt?_of_getElem? (h.keeps hmem hshard hkey hpl hspa hrun)] at he
      exact h.lasting key hkey hpl e he
    · have httl := @ttl_of_plain _ _ hpl _ hmem
      generalize input.request = req at *
      cases req with
      | put args =>
        have hargs : args.key = key := Classical.not_not.mp hspa
        subst hargs
        rw [(of_doOp_put hrun).1] at he
        rcases h.kvAt?_doPut hkey (httl rfl rfl) he with hzero | hold
        · exact hzero
        · exact h.lasting _ hkey hpl e hold
      | delete k =>
        have hk : k = key := Classical.not_not.mp hspa
        subst hk
        rw [(of_doOp_delete hrun).1, (h.serving.doDelete hash net clock.now hkey).1] at he
        split at he
        · rw [kvAt?, getElem?_erase, if_pos rfl] at he
          cases he
        · exact h.lasting k hkey hpl e he
      | cleanupShard args =>
        have hgone : kv'.store[key]? = none ∨ kv'.store[key]? = kv.store[key]? := by
          rw [(of_doOp_cleanupShard hrun).1]
          rcases doCleanupShard_cases hash kv args with heq | ⟨store, hstore, heq⟩ <;> rw [heq]
          · exact Or.inr rfl
          · exact writeBatch_deletes (forall_mem_map.mpr fun _ _ => rfl) hstore key
        rcases hgone with hnone | hsame
        · rw [kvAt?, hnone] at he
          cases he
        · rw [kvAt?_of_getElem? hsame] at he
          exact h.lasting key hkey hpl e he
      | _ => exact absurd trivial hspa

end

end Original

/-- Under a key in step the replay holds what the first execution held at the same
place of the log, under every other user key what survived. -/
def Aligned (s : Store) (wal done : List Input) (kv g : KVServer) : Prop :=
  ∀ key, isUserKey key = true →
    g.store[key]? = if inStep s wal done key then kv.store[key]? else s[key]?

section

variable {s : Store} {wal done : List Input} {input : Input} {key : String}

theorem plain_of_inStep (h : inStep s wal done key = true) : plain wal key = true :=
  (Bool.and_eq_true _ _ ▸ h).1

theorem inStep_append (h : input.request ≠ .delete key) :
    inStep s wal (done ++ [input]) key = inStep s wal done key := by
  simp [inStep, h]

theorem inStep_append_delete (hpl : plain wal key = true) (h : input.request = .delete key) :
    inStep s wal (done ++ [input]) key = true := by
  simp [inStep, hpl, h]

end

section

open KVServer

variable {hash : String → UInt64} {s : Store} {wal done : List Input} {input : Input}
  {kv kv' g g' : KVServer} {net : Net} {clock : Clock} {reply : Reply} {key : String}

def ReplaysTo (hash : String → UInt64) (s : Store) (wal done : List Input) (input : Input)
    (reply : Reply) (kv' g : KVServer) : Prop :=
  ∃ g', replay hash g input = some g' ∧ Replayed s g' ∧ Aligned s wal (done ++ [input]) kv' g' ∧
    (reply.rejected = true → ∀ key : String, isUserKey key = true → g'.store[key]? = g.store[key]?)

theorem Aligned.inStep_eq (haligned : Aligned s wal done kv g) (hkey : isUserKey key = true)
    (hstep : inStep s wal done key = true) : g.store[key]? = kv.store[key]? := by
  rw [haligned key hkey, if_pos hstep]

theorem Aligned.settled_eq (haligned : Aligned s wal done kv g) (hkey : isUserKey key = true)
    (hstep : inStep s wal done key = false) : g.store[key]? = s[key]? := by
  rw [haligned key hkey, if_neg (by rw [hstep]; decide)]

theorem putResult_lasting {value : String} {version : UInt64} {expires : Int64}
    {found : Option KVEntry} (h : ∀ e, found = some e → e.expires = 0) (now now' : Int64) :
    putResult now key value version expires (found.map .entry) =
      putResult now' key value version expires (found.map .entry) := by
  cases found with
  | none => rfl
  | some e =>
    simp [putResult, Document.toKV?, h e rfl, isExpired_zero]

theorem within_of_replaysAt (h : replaysAt hash s wal done input reply = true) :
    input.request.Within (fun key => isUserKey key = true) (fun key => isUserKey key = true) := by
  rw [replaysAt] at h
  cases hreq : input.request with
  | put args | delete key =>
    simp only [hreq, Bool.and_eq_true] at h
    exact h.1
  | expire args =>
    simp only [hreq, List.all_eq_true, Bool.and_eq_true] at h
    exact fun key hk => (h key hk).1
  | cleanupShard args | prepareTx args =>
    simp only [hreq, List.all_eq_true, Bool.and_eq_true] at h
    exact h.1
  | _ => trivial

section

-- one command, executed for the first time on `kv` and again on `g`
variable (hO : Original wal kv) (hR : Replayed s g) (haligned : Aligned s wal done kv g)
  (hmem : input ∈ wal) (hshard : ∀ args, input.request ≠ .setShardState args)
  (hrun : kv.doOp hash net clock input.request = some (kv', reply))

include hO haligned hmem hshard hrun

theorem replaysTo_quiet (hdel : ∀ k, input.request ≠ .delete k)
    (hspa : ∀ key, inStep s wal done key = true → input.request.spares key)
    (hg : ∃ g', replay hash g input = some g' ∧ Replayed s g' ∧
      ∀ key : String, isUserKey key = true → g'.store[key]? = g.store[key]?) :
    ReplaysTo hash s wal done input reply kv' g := by
  obtain ⟨g', hrepl, hrep, hsame⟩ := hg
  refine ⟨g', hrepl, hrep, fun key hkey => ?_, fun _ => hsame⟩
  rw [hsame key hkey, haligned key hkey, inStep_append (hdel key)]
  split
  · rename_i hstep
    rw [hO.keeps hmem hshard hkey (plain_of_inStep hstep) (hspa key hstep) hrun]
  · rfl

include hR

omit hshard in
theorem replaysTo_put_inStep {args : PutArgs} (hreq : input.request = .put args)
    (hkey : isUserKey args.key = true) (hstep : inStep s wal done args.key = true) :
    ReplaysTo hash s wal done input reply kv' g := by
  have hpl := plain_of_inStep hstep
  have httl := ttl_of_plain hpl hmem hreq rfl
  have hexpi : ∀ now, absoluteExpiryFromTTL args.ttl now = 0 := fun now => if_pos httl
  obtain ⟨left, old, status, hres, hstore, hok⟩ := hO.serving.doPut hash net clock hkey
  obtain ⟨left', old', status', hres', hstore', hok'⟩ :=
    hR.serving.doPut hash input.net input.clock hkey
  have hsame : left' = left ∧ status' = status := by
    rw [haligned.inStep_eq hkey hstep, hO.serving.typed.getElem? hkey, hexpi] at hres'
    rw [hO.serving.typed.getElem? hkey, hexpi,
      putResult_lasting (hO.lasting _ hkey hpl) _ input.clock.casNow, hres'] at hres
    cases hres
    exact ⟨rfl, rfl⟩
  obtain ⟨rfl, rfl⟩ := hsame
  refine ⟨(g.doPut hash input.net input.clock args).1, ?_,
    hR.of_wrote (wrote_doPut hash _ _ hkey), ?_, ?_⟩
  · simp [replay, hreq, Request.recorded, doOp]
  · intro key huser
    rw [inStep_append (by rw [hreq]; exact Request.noConfusion), hstore']
    rw [hreq] at hrun
    rw [(of_doOp_put hrun).1, hstore]
    simp only [getElem?_place]
    by_cases hk : args.key = key
    · subst hk
      rw [if_pos rfl, if_pos hstep, if_pos rfl]
    · rw [if_neg hk, if_neg hk]
      exact haligned key huser
  · intro hrej key _
    rw [hreq] at hrun
    rw [(of_doOp_put hrun).2] at hrej
    have hne : status' ≠ .ok := fun heq => by simp [Reply.rejected, hok.mpr heq] at hrej
    rcases left_of_putResult hres' with ⟨heq, -⟩ | ⟨-, hleft⟩
    · exact absurd heq hne
    · rw [hstore', hleft, place_self]

theorem replaysTo_put_refused {args : PutArgs} (hreq : input.request = .put args)
    (hkey : isUserKey args.key = true) (hstep : inStep s wal done args.key = false)
    (hadm : s.admitsPut input.clock.casNow args.key args.version.toUInt64 = false) :
    ReplaysTo hash s wal done input reply kv' g := by
  apply replaysTo_quiet hO haligned hmem hshard hrun
  · simp [hreq]
  · intro key hin
    rw [hreq]
    rintro rfl
    rw [hstep] at hin
    cases hin
  · refine ⟨(g.doPut hash input.net input.clock args).1, ?_,
      hR.of_wrote (wrote_doPut hash _ _ hkey), ?_⟩
    · simp [replay, hreq, Request.recorded, doOp]
    · intro key _
      obtain ⟨left, old, status, hres, hstore, -⟩ :=
        hR.serving.doPut hash input.net input.clock hkey
      have hg := haligned.settled_eq hkey hstep
      rw [hg] at hres
      rw [hstore, left_of_not_admitsPut hadm hres, ← hg, place_self]

omit hmem hshard in
theorem replaysTo_delete_plain {k : String} (hlast : ∀ e, s.kvAt? k = some e → e.expires = 0)
    (hreq : input.request = .delete k) (hkey : isUserKey k = true) (hpl : plain wal k = true)
    (hcond : inStep s wal done k = true ∨ reply.rejected = false) :
    ReplaysTo hash s wal done input reply kv' g := by
  have hlastg : ∀ e, g.store.kvAt? k = some e → e.expires = 0 := by
    have hdoc := haligned k hkey
    split at hdoc
    · rw [kvAt?_of_getElem? hdoc]
      exact hO.lasting k hkey hpl
    · rw [kvAt?_of_getElem? hdoc]
      exact hlast
  obtain ⟨hstore, hok⟩ :=
    hO.serving.doDelete_lasting hash net clock.now hkey (hO.lasting k hkey hpl)
  have hsto := (hR.serving.doDelete_lasting hash input.net input.clock.now hkey hlastg).1
  rw [hreq] at hrun
  obtain ⟨hkv', hreply⟩ := of_doOp_delete hrun
  rw [hstore] at hkv'
  refine ⟨(g.doDelete hash input.net input.clock.now k).1, ?_,
    hR.of_wrote (wrote_doDelete hash _ _ hkey), ?_, ?_⟩
  · simp [replay, hreq, Request.recorded, doOp]
  · intro key huser
    rw [hsto, hkv', getElem?_erase, getElem?_erase]
    by_cases hk : k = key
    · subst hk
      rw [if_pos rfl, if_pos rfl, inStep_append_delete hpl hreq]
      rfl
    · rw [if_neg hk, if_neg hk, inStep_append (by rw [hreq]; simpa using hk)]
      exact haligned key huser
  · intro hrej key _
    have hstep := hcond.resolve_right (by rw [hrej]; decide)
    have hgone : g.store[k]? = none := by
      rw [haligned.inStep_eq hkey hstep]
      rw [hreply] at hrej
      by_contra hne
      simp [Reply.rejected, hok.mpr hne] at hrej
    rw [hsto, getElem?_erase]
    split
    · rename_i hk
      rw [← hk, hgone]
    · rfl

theorem replaysTo_delete_idle {k : String} (hreq : input.request = .delete k)
    (hkey : isUserKey k = true) (hpl : plain wal k = false)
    (hlive : s.holdsLive input.clock.now k = false) :
    ReplaysTo hash s wal done input reply kv' g := by
  have hstep : inStep s wal done k = false := by rw [inStep, hpl, Bool.false_and]
  have hsame : ∀ key, isUserKey key = true → inStep s wal done key = true →
      kv'.store[key]? = kv.store[key]? := by
    intro key huser hin
    apply hO.keeps hmem hshard huser (plain_of_inStep hin) _ hrun
    rw [hreq]
    rintro rfl
    rw [hstep] at hin
    cases hin
  have hidle : (g.doDelete hash input.net input.clock.now k).1 = g := by
    rw [(hR.serving.doDelete hash input.net input.clock.now hkey).1, holdsLive,
      kvAt?_of_getElem? (haligned.settled_eq hkey hstep)]
    exact if_neg (by rw [holdsLive] at hlive; rw [hlive]; decide)
  refine ⟨g, ?_, hR, fun key huser => ?_, fun _ _ _ => rfl⟩
  · simp [replay, hreq, Request.recorded, doOp, hidle]
  · have hin : inStep s wal (done ++ [input]) key = inStep s wal done key := by
      by_cases hk : k = key
      · rw [← hk, inStep, inStep, hpl, Bool.false_and, Bool.false_and]
      · exact inStep_append (by rw [hreq]; simpa using hk)
    rw [hin, haligned key huser]
    split
    · rename_i hstep'
      rw [hsame key huser hstep']
    · rfl

theorem replaysTo_expire {args : ExpireArgs}
    (hlast : ∀ key, isUserKey key = true → plain wal key = true →
      ∀ e, s.kvAt? key = some e → e.expires = 0) (hreq : input.request = .expire args)
    (hcond : ∀ key ∈ args.keys, isUserKey key = true ∧
      (plain wal key = true ∨ s.holdsExpired args.cutoff key = false)) :
    ReplaysTo hash s wal done input reply kv' g := by
  have hidle : ∀ key ∈ args.keys, g.store.holdsExpired args.cutoff key = false := by
    intro key hk
    obtain ⟨huser, hcases⟩ := hcond key hk
    have hdoc := haligned key huser
    have hset : g.store[key]? = s[key]? → g.store.holdsExpired args.cutoff key = false := by
      intro heq
      rw [holdsExpired, kvAt?_of_getElem? heq]
      rcases hcases with hpl | hexp
      · cases he : s.kvAt? key with
        | none => rfl
        | some e => simp [hlast key huser hpl e he, isExpired_zero]
      · exact hexp
    split at hdoc
    · rename_i hstep
      have hold := hO.not_expired huser (plain_of_inStep hstep) args.cutoff
      rw [holdsExpired] at hold ⊢
      rw [kvAt?_of_getElem? hdoc, hold]
    · exact hset hdoc
  apply replaysTo_quiet hO haligned hmem hshard hrun
  · simp [hreq]
  · simp [hreq, spares]
  · refine ⟨g, ?_, hR, fun _ _ => rfl⟩
    have hrun' : g.doExpire args = some (g, { err := .ok }) := by
      rw [doExpire, if_neg (by rw [hR.serving.alive]; decide)]
      exact expireKeys_idle hR.free (fun key hk => hR.serving.typed.get (hcond key hk).1) hidle _
    simp [replay, hreq, Request.recorded, doOp, hrun']

omit hmem hshard in
theorem replaysTo_cleanupShard_inStep {args : CleanupShardArgs}
    (hreq : input.request = .cleanupShard args)
    (hcond : ∀ k ∈ args.keys, isUserKey k.key = true ∧ inStep s wal done k.key = true) :
    ReplaysTo hash s wal done input reply kv' g := by
  have hdel : ∀ key, inStep s wal (done ++ [input]) key = inStep s wal done key := fun key =>
    inStep_append (by rw [hreq]; exact Request.noConfusion)
  rw [hreq] at hrun
  obtain ⟨hkv', hreply⟩ := of_doOp_cleanupShard hrun
  refine ⟨(g.doCleanupShard hash args).1, ?_,
    hR.of_wrote (wrote_doCleanupShard hash fun k hk => (hcond k hk).1), ?_⟩
  · simp [replay, hreq, Request.recorded, doOp]
  · rw [hkv', hreply]
    unfold KVServer.doCleanupShard
    rw [hO.serving.alive, hR.serving.alive, if_neg Bool.false_ne_true, if_neg Bool.false_ne_true]
    cases hops : cleanupOps hash args.shardID args.keys with
    | none => exact ⟨fun key huser => by rw [hdel]; exact haligned key huser, fun _ _ _ => rfl⟩
    | some ops =>
      have hin : ∀ op ∈ ops, isUserKey op.key = true ∧ inStep s wal done op.key = true := by
        rw [cleanupOps_eq hops]
        exact forall_mem_map.mpr hcond
      have hagree : ∀ op ∈ ops, kv.store[op.key]? = g.store[op.key]? :=
        fun op hop => (haligned.inStep_eq (hin op hop).1 (hin op hop).2).symm
      rcases writeBatchWithCASInTxn_congr hagree with
        ⟨e, herr, herrg⟩ | ⟨t, t', hok, hokg, hsame⟩
      · simp only [writeBatchWithCAS, herr, herrg]
        exact ⟨fun key huser => by rw [hdel]; exact haligned key huser, fun _ _ _ => trivial⟩
      · simp only [writeBatchWithCAS, hok, hokg]
        refine ⟨fun key huser => ?_, fun h => absurd h Bool.false_ne_true⟩
        rw [hdel]
        split
        · rename_i hstep
          exact (hsame key (haligned.inStep_eq huser hstep).symm).symm
        · rename_i hstep
          have hframe : t'[key]? = g.store[key]? := writeBatchWithCASInTxn_frame hokg
            (fun op hop heq => hstep (heq ▸ (hin op hop).2))
          rw [hframe, haligned key huser, if_neg hstep]

theorem replaysTo_cleanupShard_refused {args : CleanupShardArgs}
    (hreq : input.request = .cleanupShard args)
    (hcond : ∀ k ∈ args.keys, isUserKey k.key = true ∧ inStep s wal done k.key = false)
    (href : refusesCleanup hash s args = true) : ReplaysTo hash s wal done input reply kv' g := by
  have hidle : (g.doCleanupShard hash args).1 = g := by
    unfold KVServer.doCleanupShard
    rw [hR.serving.alive, if_neg Bool.false_ne_true]
    cases hops : cleanupOps hash args.shardID args.keys with
    | none => rfl
    | some ops =>
      have hin : ∀ op ∈ ops, isUserKey op.key = true ∧ inStep s wal done op.key = false := by
        rw [cleanupOps_eq hops]
        exact forall_mem_map.mpr hcond
      have hagree : ∀ op ∈ ops, s[op.key]? = g.store[op.key]? :=
        fun op hop => (haligned.settled_eq (hin op hop).1 (hin op hop).2).symm
      rw [refusesCleanup, hops] at href
      rcases writeBatchWithCASInTxn_congr hagree with
        ⟨e, -, herrg⟩ | ⟨t, t', hok, -, -⟩
      · simp only [writeBatchWithCAS, herrg]
      · simp [writeBatchWithCAS, hok] at href
  apply replaysTo_quiet hO haligned hmem hshard hrun
  · simp [hreq]
  · intro key hin
    rw [hreq]
    intro k hk heq
    rw [← heq, (hcond k hk).2] at hin
    cases hin
  · refine ⟨g, ?_, hR, fun _ _ => rfl⟩
    simp [replay, hreq, Request.recorded, doOp, hidle]

theorem replaysTo_of_replaysAt (hlast : ∀ key, isUserKey key = true → plain wal key = true →
      ∀ e, s.kvAt? key = some e → e.expires = 0)
    (hcond : replaysAt hash s wal done input reply = true) :
    ReplaysTo hash s wal done input reply kv' g := by
  have hquiet := replaysTo_quiet hO haligned hmem hshard hrun
  rw [replaysAt] at hcond
  cases hreq : input.request with
  | setShardState args => exact absurd hreq (hshard args)
  | put args =>
    simp only [hreq, Bool.and_eq_true, or_eq_true, not_eq_true'] at hcond
    obtain ⟨hkey, hcases⟩ := hcond
    by_cases hstep : inStep s wal done args.key = true
    · exact replaysTo_put_inStep hO hR haligned hmem hrun hreq hkey hstep
    · exact replaysTo_put_refused hO hR haligned hmem hshard hrun hreq hkey (by simpa using hstep)
        (hcases.resolve_left hstep)
  | delete k =>
    simp only [hreq, Bool.and_eq_true] at hcond
    obtain ⟨hkey, hcases⟩ := hcond
    by_cases hpl : plain wal k = true
    · rw [if_pos hpl, or_eq_true, not_eq_true'] at hcases
      exact replaysTo_delete_plain hO hR haligned hrun (hlast k hkey hpl) hreq hkey hpl hcases
    · rw [if_neg hpl, not_eq_true'] at hcases
      exact replaysTo_delete_idle hO hR haligned hmem hshard hrun hreq hkey (by simpa using hpl)
        hcases
  | expire args =>
    simp only [hreq, List.all_eq_true, Bool.and_eq_true, or_eq_true,
      not_eq_true'] at hcond
    exact replaysTo_expire hO hR haligned hmem hshard hrun hlast hreq hcond
  | cleanupShard args =>
    simp only [hreq, List.all_eq_true, Bool.and_eq_true, or_eq_true,
      not_eq_true'] at hcond
    obtain ⟨hkeys, hstep | ⟨hset, href⟩⟩ := hcond
    · exact replaysTo_cleanupShard_inStep hO hR haligned hrun hreq
        (fun k hk => ⟨hkeys k hk, hstep k hk⟩)
    · exact replaysTo_cleanupShard_refused hO hR haligned hmem hshard hrun hreq
        (fun k hk => ⟨hkeys k hk, hset k hk⟩) href
  | prepareTx args =>
    simp only [hreq, List.all_eq_true, Bool.and_eq_true] at hcond
    apply hquiet (by simp [hreq]) (by simp [hreq, spares])
    -- the values of the read keys are not recorded
    obtain ⟨g', e, hprep, hrest⟩ := hR.prepare input.net input.clock.now
      { args with readKeys := args.readKeys.map ReadKey.withoutValue }
      hcond.1 hcond.2
    exact ⟨g', by simp [replay, hreq, Request.recorded, doOp, hprep], hrest⟩
  | commitTx args =>
    simp only [hreq] at hcond
    apply hquiet (by simp [hreq]) (by simp [hreq, spares])
    obtain ⟨e, hcom⟩ := hR.commit hcond
    exact ⟨g, by simp [replay, hreq, Request.recorded, doOp, hcom], hR, fun _ _ => rfl⟩
  | abortTx txID =>
    apply hquiet (by simp [hreq]) (by simp [hreq, spares])
    obtain ⟨g', e, hab, hrest⟩ := hR.abort txID
    exact ⟨g', by simp [replay, hreq, Request.recorded, doOp, hab], hrest⟩
  | recordTxDecision args =>
    apply hquiet (by simp [hreq]) (by simp [hreq, spares])
    exact ⟨_, by simp [replay, hreq, Request.recorded, doOp],
      hR.recordDecision { args with writeKeys := [] }⟩
  | get key | scan args | resolveTxStatus txID =>
    apply hquiet (by simp [hreq]) (by simp [hreq, spares])
    exact ⟨g, by simp [replay, hreq, Request.recorded], hR, fun _ _ => rfl⟩

end

theorem Original.run {inputs again : List Input} {replies : List Reply} (hO : Original wal kv)
    (hsame : again.map (·.request) = inputs.map (·.request)) (hmem : ∀ input ∈ again, input ∈ wal)
    (hshard : ∀ input ∈ again, ∀ args, input.request ≠ .setShardState args)
    (hcond : replaysFrom hash s wal done (again.zip replies) = true)
    (hrun : (machine hash).run kv inputs = some (kv', replies)) : Original wal kv' := by
  induction again generalizing inputs kv replies done with
  | nil =>
    obtain rfl : inputs = [] := map_eq_nil_iff.mp hsame.symm
    cases hrun
    exact hO
  | cons input again ih =>
    obtain ⟨first, rest, rfl, hreq, hrest⟩ := map_eq_cons_iff.mp hsame.symm
    obtain ⟨mid, reply, replies', hstep, htail, rfl⟩ := Lib.Machine.run_cons_eq_some.mp hrun
    simp only [zip_cons_cons, replaysFrom, Bool.and_eq_true] at hcond
    have hstep : kv.doOp hash first.net first.clock input.request = some (mid, reply) := by
      rw [← show first.request = input.request from hreq]
      exact hstep
    have hO' := hO.step (hmem input mem_cons_self) (hshard input mem_cons_self)
      (within_of_replaysAt hcond.1) hstep
    exact ih hO' hrest.symm (fun i hi => hmem i (mem_cons_of_mem input hi))
      (fun i hi => hshard i (mem_cons_of_mem input hi)) hcond.2 htail

theorem foldlM_replay {inputs again : List Input} {replies : List Reply} (hO : Original wal kv)
    (hR : Replayed s g) (haligned : Aligned s wal done kv g)
    (hlast : ∀ key, isUserKey key = true → plain wal key = true →
      ∀ e, s.kvAt? key = some e → e.expires = 0)
    (hsame : again.map (·.request) = inputs.map (·.request)) (hmem : ∀ input ∈ again, input ∈ wal)
    (hshard : ∀ input ∈ again, ∀ args, input.request ≠ .setShardState args)
    (hcond : replaysFrom hash s wal done (again.zip replies) = true)
    (hrun : (machine hash).run kv inputs = some (kv', replies)) :
    (∃ g', again.foldlM (replay hash) g = some g' ∧ Aligned s wal (done ++ again) kv' g') ∧
      ∀ (n : ℕ) (reply : Reply), replies[n]? = some reply → reply.rejected = true →
        ∃ g₁ g₂, (again.take n).foldlM (replay hash) g = some g₁ ∧
          (again.take (n + 1)).foldlM (replay hash) g = some g₂ ∧
          ∀ key : String, isUserKey key = true → g₂.store[key]? = g₁.store[key]? := by
  induction again generalizing inputs kv replies done g with
  | nil =>
    obtain rfl : inputs = [] := map_eq_nil_iff.mp hsame.symm
    cases hrun
    refine ⟨⟨g, rfl, by rwa [append_nil]⟩, ?_⟩
    intro n reply hreply
    cases hreply
  | cons input again ih =>
    obtain ⟨first, rest, rfl, hreq, hrest⟩ := map_eq_cons_iff.mp hsame.symm
    obtain ⟨mid, reply, replies', hstep, htail, rfl⟩ := Lib.Machine.run_cons_eq_some.mp hrun
    simp only [zip_cons_cons, replaysFrom, Bool.and_eq_true] at hcond
    have hstep : kv.doOp hash first.net first.clock input.request = some (mid, reply) := by
      rw [← show first.request = input.request from hreq]
      exact hstep
    have hin := hmem input mem_cons_self
    have hkind := hshard input mem_cons_self
    have hO' := hO.step hin hkind (within_of_replaysAt hcond.1) hstep
    obtain ⟨g', hrepl, hR', haligned', hrej⟩ :=
      replaysTo_of_replaysAt hO hR haligned hin hkind hstep hlast hcond.1
    obtain ⟨⟨gEnd, hfold, halEnd⟩, hlater⟩ := ih hO' hR' haligned' hrest.symm
      (fun i hi => hmem i (mem_cons_of_mem input hi))
      (fun i hi => hshard i (mem_cons_of_mem input hi)) hcond.2 htail
    refine ⟨⟨gEnd, ?_, ?_⟩, ?_⟩
    · rw [foldlM_cons, hrepl]
      exact hfold
    · rw [append_assoc] at halEnd
      exact halEnd
    · intro n r hr hreje
      cases n with
      | zero =>
        cases hr
        refine ⟨g, g', rfl, ?_, hrej hreje⟩
        simp [hrepl]
      | succ n =>
        obtain ⟨g₁, g₂, hg₁, hg₂, hkeys⟩ := hlater n r hr hreje
        refine ⟨g₁, g₂, ?_, ?_, hkeys⟩
        · rw [take_succ_cons, foldlM_cons, hrepl]
          exact hg₁
        · rw [take_succ_cons, foldlM_cons, hrepl]
          exact hg₂

end

section

open KVServer

theorem serving_newKVServer {store : Store} (htyped : store.Typed) (groupID : Int) :
    (newKVServer groupID store).Serving := ⟨rfl, fun _ => rfl, htyped⟩

theorem within_newKVServer {store : Store} {R : String → Prop} (hstore : store.Within R)
    (groupID : Int) : (newKVServer groupID store).Within R := by
  refine ⟨fun txID rec hrec => ?_, hstore⟩
  simp [newKVServer] at hrec

theorem original_newKVServer (wal : List Input) (groupID : Int) :
    Original wal (newKVServer groupID ∅) := by
  have hwithin : ∀ R, Store.Within ∅ R := fun R txID rec hrec => by
    simp [getTxRecord] at hrec
  refine ⟨serving_newKVServer (fun key _ d hd => ?_) groupID,
    within_newKVServer (hwithin _) groupID,
    fun key _ => within_newKVServer (hwithin _) groupID, fun key _ _ e he => ?_⟩
  · simp at hd
  · simp [newKVServer, kvAt?] at he

end

def restart (hash : String → UInt64) (groupID : Int) (store : Store) (wal : List Input) :
    Option KVServer :=
  (recoverFromWAL hash 0 (newKVServer groupID store) (walOf 1 wal)).map (·.1)

theorem restart_eq (hash : String → UInt64) (groupID : Int) (store : Store) (wal : List Input) :
    restart hash groupID store wal = wal.foldlM (replay hash) (newKVServer groupID store) := by
  have hrecord : recoverFromWAL hash 0 (newKVServer groupID store) (walOf 1 wal) = _ :=
    recoverFromWAL_walOf hash 0 (newKVServer groupID store) wal
  rw [restart, hrecord, Option.map_map]
  exact map_id' ..

/-- A restart gives the user entries back when every command may be executed again,
and no command that had been rejected takes effect. -/
theorem restart_exact (hash : String → UInt64) (groupID : Int) (inputs again : List Input)
    (kv : KVServer) (replies : List Reply)
    (hrun : (machine hash).run (newKVServer groupID ∅) inputs = some (kv, replies))
    (hshard : ∀ input ∈ inputs, ∀ args, input.request ≠ .setShardState args)
    (hsame : again.map (·.request) = inputs.map (·.request))
    (hcond : replaysFrom hash kv.store again [] (again.zip replies) = true) :
    (∃ kv', restart hash groupID kv.store again = some kv' ∧
      ∀ key : String, isUserKey key = true → kv'.store[key]? = kv.store[key]?) ∧
    ∀ (n : ℕ) (reply : Reply), replies[n]? = some reply → reply.rejected = true →
      ∃ before after, restart hash groupID kv.store (again.take n) = some before ∧
        restart hash groupID kv.store (again.take (n + 1)) = some after ∧
        ∀ key : String, isUserKey key = true → after.store[key]? = before.store[key]? := by
  have hkinds : ∀ input ∈ again, ∀ args, input.request ≠ .setShardState args := by
    intro input hin args heq
    have hreq : input.request ∈ inputs.map (·.request) := hsame ▸ mem_map_of_mem hin
    obtain ⟨first, hfirst, hsame⟩ := mem_map.mp hreq
    exact hshard first hfirst args (hsame.trans heq)
  have hO := original_newKVServer again groupID
  have hend := hO.run hsame (fun _ h => h) hkinds hcond hrun
  have hR : KVServer.Replayed kv.store (newKVServer groupID kv.store) := by
    refine ⟨serving_newKVServer hend.serving.typed groupID,
      within_newKVServer hend.within.stored groupID, rfl, fun _ h => h, fun key holder hk => ?_⟩
    simp [newKVServer] at hk
  have haligned :
      Aligned kv.store again [] (newKVServer groupID ∅) (newKVServer groupID kv.store) := by
    intro key _
    split
    · rename_i hstep
      rw [inStep, Bool.and_eq_true, any_nil, Bool.or_false, isNone_iff_eq_none] at hstep
      exact hstep.2
    · rfl
  obtain ⟨⟨g', hfold, halEnd⟩, hrej⟩ :=
    foldlM_replay hO hR haligned hend.lasting hsame (fun _ h => h) hkinds hcond hrun
  simp only [restart_eq]
  refine ⟨⟨g', hfold, fun key huser => ?_⟩, hrej⟩
  rw [halEnd key huser, ite_self]

def sampleLog (now : Int64) : List Input :=
  [.put ⟨"k", "a", 0, 0⟩, .put ⟨"k", "b", 0, 0⟩, .put ⟨"k", "b", 1, 0⟩, .delete "j",
    .prepareTx ⟨"t", [⟨"k", "b", 2⟩], [⟨"m", "x", 0, false⟩], 1000, 1, [1]⟩,
    .recordTxDecision ⟨"t", .committed, [1], []⟩,
    .commitTx ⟨"t", [⟨"m", "x", 0, false⟩]⟩].map fun req => ⟨req, .offline, ⟨now, now⟩⟩

theorem restart_exact_sampleLog :
    ∃ kv replies, (machine fun _ => 0).run (newKVServer 1 ∅) (sampleLog 5) = some (kv, replies) ∧
      (∃ kv', restart (fun _ => 0) 1 kv.store (sampleLog 9) = some kv' ∧
        ∀ key : String, isUserKey key = true → kv'.store[key]? = kv.store[key]?) ∧
      kv.store["k"]? = some (.entry ⟨"b", 2, 0⟩) ∧ kv.store["m"]? = some (.entry ⟨"x", 1, 0⟩) := by
  have hsome : ((machine fun _ => 0).run (newKVServer 1 ∅) (sampleLog 5)).isSome = true := by
    decide +kernel
  obtain ⟨⟨kv, replies⟩, hrun⟩ := isSome_iff_exists.mp hsome
  have hfacts : ((machine fun _ => 0).run (newKVServer 1 ∅) (sampleLog 5)).any (fun p =>
      replaysFrom (fun _ => 0) p.1.store (sampleLog 9) [] ((sampleLog 9).zip p.2) &&
        p.1.store["k"]? = some (.entry ⟨"b", 2, 0⟩) &&
        p.1.store["m"]? = some (.entry ⟨"x", 1, 0⟩)) = true := by decide +kernel
  simp only [hrun, any_some, Bool.and_eq_true, decide_eq_true_eq] at hfacts
  refine ⟨kv, replies, hrun, ?_, hfacts.1.2, hfacts.2⟩
  refine (restart_exact _ 1 _ (sampleLog 9) kv replies hrun ?_ rfl hfacts.1.1).1
  simp [sampleLog]

theorem restart_revives_refused_put :
    ∃ (inputs : List Input) (kv kv' : KVServer) (reply : Reply) (replies : List Reply),
      (machine fun _ => 0).run (newKVServer 1 ∅) inputs = some (kv, reply :: replies) ∧
      inputs.map (·.request) = [.put ⟨"k", "x", 1, 0⟩, .put ⟨"k", "a", 0, 0⟩] ∧
      reply = .put { err := .noKey } ∧
      restart (fun _ => 0) 1 kv.store inputs = some kv' ∧ isUserKey "k" = true ∧
      kv.store["k"]? = some (.entry ⟨"a", 1, 0⟩) ∧ kv'.store["k"]? = some (.entry ⟨"x", 2, 0⟩) := by
  let inputs : List Input := [⟨.put ⟨"k", "x", 1, 0⟩, .offline, ⟨5, 5⟩⟩,
    ⟨.put ⟨"k", "a", 0, 0⟩, .offline, ⟨5, 5⟩⟩]
  have hfacts : ((machine fun _ => 0).run (newKVServer 1 ∅) inputs).any (fun p =>
      p.2.head? = some (.put { err := .noKey }) && p.1.store["k"]? = some (.entry ⟨"a", 1, 0⟩) &&
        (restart (fun _ => 0) 1 p.1.store inputs).any fun kv' =>
          kv'.store["k"]? = some (.entry ⟨"x", 2, 0⟩)) = true := by decide +kernel
  obtain ⟨⟨kv, replies⟩, hrun, hp⟩ := (Option.any_eq_true ..).mp hfacts
  simp only [Bool.and_eq_true, decide_eq_true_eq, Option.any_eq_true] at hp
  obtain ⟨⟨hhead, hk⟩, kv', hresta, hk'⟩ := hp
  obtain ⟨rest, rfl⟩ := head?_eq_some_iff.mp hhead
  exact ⟨inputs, kv, kv', _, rest, hrun, rfl, rfl, hresta, by decide, hk, hk'⟩

end OrbisKV.KV
