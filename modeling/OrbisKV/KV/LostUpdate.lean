import OrbisKV.KV.Forward
import OrbisKV.KV.Ledger
/-!
# Versions and lost updates

A put names the version that its client read.
-/

namespace OrbisKV.KV

open Std List Store

def AtLeast (v : UInt64) (found : Option Document) : Prop :=
  ∀ e, found.bind Document.toKV? = some e → e.version = 0 ∨ v ≤ e.version

def Above (v : UInt64) (found : Option Document) : Prop :=
  ∀ e, found.bind Document.toKV? = some e → e.version = 0 ∨ v < e.version

section

variable {v : UInt64} {found : Option Document} {e : KVEntry}

theorem Above.atLeast (h : Above v found) : AtLeast v found :=
  fun e he => (h e he).imp_right UInt64.le_of_lt

theorem above_none (v : UInt64) : Above v none := nofun

theorem above_entry (h : e.version = 0 ∨ v < e.version) : Above v (some (.entry e)) := by
  intro e' he
  cases he
  exact h

theorem above_prepare (v : UInt64) (rec : PreparedTxRecord) : Above v (some (.prepare rec)) := by
  intro e' he
  cases he
  exact .inl rfl

theorem above_decision (v : UInt64) (rec : TxDecisionRecord) : Above v (some (.decision rec)) := by
  intro e' he
  cases he
  exact .inl rfl

theorem above_mark (v : UInt64) : Above v (some .mark) := nofun

theorem AtLeast.above_succ (h : AtLeast v found) {cur : KVEntry}
    (hcur : found.bind Document.toKV? = some cur) (hzero : cur.version ≠ 0)
    (hmax : cur.version ≠ -1) (value : String) (expires : Int64) :
    Above v (some (.entry ⟨value, cur.version + 1, expires⟩)) := by
  have hle : v ≤ cur.version := (h cur hcur).resolve_left hzero
  apply above_entry
  right
  show v < cur.version + 1
  grind

theorem toUInt64_inj {a b : Int64} (h : a.toUInt64 = b.toUInt64) : a = b := by
  have hback := congrArg UInt64.toInt64 h
  simpa using hback

end

namespace Store

variable {v : UInt64} {key : String} {s t u : Store}

def Raises (v : UInt64) (key : String) (s t : Store) : Prop := t[key]? = s[key]? ∨ Above v t[key]?

theorem Raises.refl (v : UInt64) (key : String) (s : Store) : Raises v key s s := .inl rfl

theorem Raises.trans (h : Raises v key s t) (h' : Raises v key t u) : Raises v key s u := by
  rcases h' with hsame | habove
  · rw [Raises, hsame]
    exact h
  · exact .inr habove

theorem Raises.atLeast (h : Raises v key s t) (hs : AtLeast v s[key]?) : AtLeast v t[key]? := by
  rcases h with hsame | habove
  · rwa [hsame]
  · exact habove.atLeast

theorem Raises.above (h : Raises v key s t) (hs : Above v s[key]?) : Above v t[key]? := by
  rcases h with hsame | habove
  · rwa [hsame]
  · exact habove

theorem raises_place {left : Option Document} (k : String) (h : k = key → Above v left) :
    Raises v key s (s.place k left) := by
  rw [Raises, getElem?_place]
  split_ifs with hk
  · exact .inr (h hk)
  · exact .inl rfl

theorem raises_erase (v : UInt64) (key : String) (s : Store) (k : String) :
    Raises v key s (s.erase k) := raises_place k fun _ => above_none v

theorem raises_putTxRecord (v : UInt64) (key : String) (s : Store) (x : String) {d : Document}
    (hd : Above v (some d)) : Raises v key s (s.putTxRecord x d) :=
  raises_place (txKeyPrefix ++ x) fun _ => hd

theorem raises_deleteTxRecord (v : UInt64) (key : String) (s : Store) (x : String) :
    Raises v key s (s.deleteTxRecord x) := raises_erase v key s (txKeyPrefix ++ x)

theorem raises_restore {k : String} {old : KVEntry} (hold : s.get k = .ok (some old))
    (ht : t[key]? = if k = key then some (.entry old) else s[key]?) : Raises v key s t := by
  rw [Raises, ht]
  split_ifs with hk
  · subst hk
    unfold get at hold
    cases hdoc : s[k]? with
    | none => rw [hdoc] at hold; cases hold
    | some raw =>
      rw [hdoc] at hold
      cases raw with
      | entry e =>
        cases hold
        exact .inl rfl
      | mark => cases hold
      | _ =>
        cases hold
        exact .inr (above_entry (.inl rfl))
  · exact .inl rfl

def occupied (s : Store) (now : Int64) (key : String) : Bool :=
  match s.get key with
  | .ok (some e) => !isExpired e.expires now && e.version != 0
  | _ => false

theorem of_occupied {now : Int64} (h : s.occupied now key = true) :
    ∃ e, s.get key = .ok (some e) ∧ isExpired e.expires now = false ∧ e.version ≠ 0 := by
  unfold occupied at h
  split at h
  · rename_i e hget
    rw [Bool.and_eq_true, Bool.not_eq_true', bne_iff_ne] at h
    exact ⟨e, hget, h⟩
  · cases h

def Spares (key : String) (op : WriteBatchOp) : Prop :=
  op.key = key → op.isDelete = false → op.expectedVersion ≠ 0 ∧ op.expectedVersion ≠ -1

theorem above_opResult {op : WriteBatchOp} {found left : Option Document} (hfound : AtLeast v found)
    (hop : op.isDelete = false → op.expectedVersion ≠ 0 ∧ op.expectedVersion ≠ -1)
    (h : opResult op found = .ok left) : Above v left := by
  unfold opResult at h
  cases found with
  | none =>
    dsimp only at h
    split_ifs at h with hver hdel
    · cases h
      exact above_none v
    · exact absurd (hop (Bool.eq_false_iff.mpr hdel)).1 hver
  | some raw =>
    cases hcur : raw.toKV? with
    | none => simp only [hcur] at h; cases h
    | some cur =>
      simp only [hcur] at h
      split_ifs at h with hver hdel
      · cases h
        exact above_none v
      · cases h
        have hne := hop (Bool.eq_false_iff.mpr hdel)
        rw [not_ne_iff] at hver
        rw [← hver] at hne
        exact hfound.above_succ hcur hne.1 hne.2 _ _

theorem raises_writeBatch {ops : List WriteBatchOp} (hops : ∀ op ∈ ops, Spares key op)
    (hs : AtLeast v s[key]?) (h : s.writeBatchWithCASInTxn ops = .ok t) : Raises v key s t := by
  induction ops generalizing s with
  | nil =>
    cases h
    exact Raises.refl v key _
  | cons op ops ih =>
    rw [writeBatchWithCASInTxn, writeOpWithCAS_eq] at h
    cases hres : opResult op s[op.key]? with
    | error e => simp only [hres] at h; cases h
    | ok left =>
      simp only [hres, Except.map] at h
      have hfirst : Raises v key s (s.place op.key left) := by
        apply raises_place
        intro hkey
        rw [← hkey] at hs
        exact above_opResult hs (hops op mem_cons_self hkey) hres
      exact hfirst.trans (ih (fun o ho => hops o (mem_cons_of_mem op ho)) (hfirst.atLeast hs) h)

theorem Changes.raises {R : String → Prop} (h : Store.Changes (fun _ => False) R s t) :
    Raises v key s t := by
  induction h with
  | refl => exact Raises.refl v key _
  | write _ hkey => exact hkey.elim
  | mark _ _ txID ih => exact ih.trans (raises_putTxRecord v key _ _ (above_mark v))
  | prepare _ _ ih => exact ih.trans (raises_putTxRecord v key _ _ (above_prepare v _))
  | decision _ txID rec ih => exact ih.trans (raises_putTxRecord v key _ _ (above_decision v _))
  | drop _ txID ih => exact ih.trans (raises_deleteTxRecord v key _ _)

end Store

def PreparedTxRecord.Spares (key : String) (rec : PreparedTxRecord) : Prop :=
  (rec.Within fun k => isUserKey k = true) ∧ ∀ op ∈ batchOps rec.writeKeys, Store.Spares key op

def Outcome.Spares (key : String) : Outcome → Prop
  | commit _ writeKeys => ∀ op ∈ batchOps writeKeys, Store.Spares key op
  | abort _ => True

theorem Store.Ends.raises {es : List Outcome} {v : UInt64} {key : String} {s t : Store}
    (h : Store.Ends es s t) (hes : ∀ e ∈ es, e.Spares key) (hs : AtLeast v s[key]?) :
    Store.Raises v key s t := by
  induction h with
  | refl => exact Store.Raises.refl v key _
  | @commit es s t u txID writeKeys _ _ hbat ih =>
    have hbef := ih (fun e he => hes e (mem_append_left _ he)) hs
    have hkeys : Outcome.Spares key (.commit txID writeKeys) :=
      hes _ (mem_append_right _ (mem_singleton_self _))
    unfold writeBatchWithCASAndRecord at hbat
    split at hbat
    · cases hbat
    · rename_i mid hmid
      cases hbat
      have hwr := raises_writeBatch hkeys (hbef.atLeast hs) hmid
      exact (hbef.trans hwr).trans (raises_putTxRecord v key _ _ (above_mark v))
  | abort _ _ ih =>
    have hbef := ih (fun e he => hes e (mem_append_left _ he)) hs
    exact hbef.trans (raises_putTxRecord v key _ _ (above_mark v))
  | prepare _ rec ih =>
    exact (ih hes hs).trans (raises_putTxRecord v key _ _ (above_prepare v rec))
  | decision _ _ rec ih =>
    exact (ih hes hs).trans (raises_putTxRecord v key _ _ (above_decision v rec))
  | drop _ txID ih => exact (ih hes hs).trans (raises_deleteTxRecord v key _ _)

namespace KVServer

/-- The command gives the key no first version: a put names version 0 only where a live
entry refuses it, and no transaction that the command may commit creates the key. -/
def Continues (key : String) (kv : KVServer) (input : Input) : Prop :=
  match input.request with
  | .put args => args.key = key → args.version ≠ -1 ∧
      (args.version = 0 → kv.store.occupied input.clock.casNow key = true)
  | .prepareTx args =>
    kv.Holds (·.Spares key) ∧ (prepareRecord args input.clock.now).Spares key
  | .commitTx _ => kv.Holds (·.Spares key)
  | _ => True

section

variable {v : UInt64} {key : String} {kv kv' : KVServer} {clock : Clock} {args : PutArgs}
  {hash : String → UInt64}

theorem found_of_putCAS {store : Store} {old : String}
    (hput : kv.putCAS clock args = .ok (store, old, .ok))
    (hocc : args.version = 0 → kv.store.occupied clock.casNow args.key = true) :
    ∃ cur, kv.store.get args.key = .ok (some cur) ∧ cur.version ≠ 0 ∧
      cur.version = args.version.toUInt64 := by
  rw [putCAS_eq] at hput
  by_cases hzero : args.version = 0
  · obtain ⟨cur, hget, hexp, hcur⟩ := of_occupied (hocc hzero)
    have hver : cur.version ≠ args.version.toUInt64 := by
      rw [hzero]
      exact hcur
    have hlive : live? (some cur) clock.casNow = some cur := by simp [live?, Option.filter, hexp]
    simp [hget, hlive, hver] at hput
  · have hnamed : args.version.toUInt64 ≠ 0 := fun h => hzero (toUInt64_inj h)
    cases hget : kv.store.get args.key with
    | error e => simp [hget] at hput
    | ok found =>
      simp only [hget] at hput
      cases hlive : live? found clock.casNow with
      | none => simp [hlive, hnamed] at hput
      | some cur =>
        simp only [hlive] at hput
        obtain ⟨rfl, -⟩ := Option.filter_eq_some_iff.mp hlive
        by_cases hver : cur.version = args.version.toUInt64
        · exact ⟨cur, rfl, hver ▸ hnamed, hver⟩
        · simp [hver] at hput

theorem raises_putCAS {store : Store} {old : String} (hs : AtLeast v kv.store[key]?)
    (hkey : args.key = key → args.version ≠ -1 ∧
      (args.version = 0 → kv.store.occupied clock.casNow key = true))
    (hput : kv.putCAS clock args = .ok (store, old, .ok)) : Store.Raises v key kv.store store := by
  have hplace : args.key = key → Above v (some (.entry (written clock args))) := by
    intro hk
    obtain ⟨hmax, hocc⟩ := hkey hk
    subst hk
    obtain ⟨cur, hcur, hzero, hver⟩ := found_of_putCAS hput hocc
    have hwrap : cur.version ≠ -1 := by
      rw [hver]
      exact fun h => hmax (toUInt64_inj h)
    have habove := hs.above_succ (kvAt?_of_get hcur) hzero hwrap args.value
      (absoluteExpiryFromTTL args.ttl clock.now)
    rwa [hver] at habove
  rw [putCAS_ok hput]
  exact raises_place args.key hplace

theorem raises_takenBack {k : String} {found : Option KVEntry} (hget : kv.store.get k = .ok found)
    (now : Int64) : Store.Raises v key kv.store (kv.takenBack k found now).store := by
  unfold takenBack
  cases hlive : live? found now with
  | none => exact raises_erase v key kv.store k
  | some old =>
    obtain ⟨rfl, -⟩ := Option.filter_eq_some_iff.mp hlive
    apply raises_restore hget
    rw [Option.map_some, getElem?_place]

theorem raises_doPut (hash : String → UInt64) (net : Net) (hs : AtLeast v kv.store[key]?)
    (hkey : args.key = key → args.version ≠ -1 ∧
      (args.version = 0 → kv.store.occupied clock.casNow key = true)) :
    Store.Raises v key kv.store (kv.doPut hash net clock args).1.store := by
  apply doPut_cases fun r => Store.Raises v key kv.store r.1.store
  · exact fun _ _ _ _ _ => Store.Raises.refl v key kv.store
  · exact fun _ ⟨_, hput⟩ _ => raises_putCAS hs hkey hput
  · exact fun ⟨_, hput⟩ _ _ => raises_putCAS hs hkey hput
  · exact fun _ hget _ _ => raises_takenBack hget clock.now

theorem raises_doDelete (hash : String → UInt64) (net : Net) (now : Int64) (k : String) :
    Store.Raises v key kv.store (kv.doDelete hash net now k).1.store := by
  apply doDelete_cases fun r => Store.Raises v key kv.store r.1.store
  · exact fun _ _ _ => Store.Raises.refl v key kv.store
  · exact fun _ _ _ _ _ => raises_erase v key kv.store k
  · exact fun _ _ _ hget _ _ _ => raises_takenBack hget now

theorem raises_doCleanupShard (hash : String → UInt64) (args : CleanupShardArgs)
    (hs : AtLeast v kv.store[key]?) :
    Store.Raises v key kv.store (kv.doCleanupShard hash args).1.store := by
  rcases doCleanupShard_cases hash kv args with heq | ⟨store, hsto, heq⟩ <;> rw [heq]
  · exact Store.Raises.refl v key kv.store
  · refine raises_writeBatch (forall_mem_map.mpr fun _ _ _ hdel => ?_) hs hsto
    cases hdel

theorem raises_expireKeys {cutoff : Int64} {reply reply' : ExpireReply} {keys : List String}
    (h : expireKeys cutoff kv reply keys = some (kv', reply')) :
    Store.Raises v key kv.store kv'.store := by
  exact expireKeys_keeps (I := fun mid _ => Store.Raises v key kv.store mid.store)
    (fun mid _ k _ hmid _ _ _ _ => hmid.trans (raises_erase v key mid.store k))
    (Store.Raises.refl v key _) h

theorem raises_of_ended (h : Ended (·.Spares key) (·.Spares key) kv kv')
    (hs : AtLeast v kv.store[key]?) : Store.Raises v key kv.store kv'.store := by
  obtain ⟨es, hes, hends⟩ := h.ends
  exact hends.raises hes hs

theorem raises_doOp {input : Input} {reply : Reply} (hs : AtLeast v kv.store[key]?)
    (hok : kv.Continues key input) (hstep : (machine hash).step kv input = some (kv', reply)) :
    Store.Raises v key kv.store kv'.store := by
  have hrefl := Store.Raises.refl v key kv.store
  obtain ⟨request, net, clock⟩ := input
  change kv.doOp hash net clock request = some (kv', reply) at hstep
  unfold Continues at hok
  cases request with
  | setShardState args =>
    obtain ⟨rfl, -⟩ := of_doOp_setShardState hstep
    unfold doSetShardState
    split <;> exact hrefl
  | put args =>
    obtain ⟨rfl, -⟩ := of_doOp_put hstep
    exact raises_doPut hash net hs hok
  | delete k =>
    obtain ⟨rfl, -⟩ := of_doOp_delete hstep
    exact raises_doDelete hash net clock.now k
  | cleanupShard args =>
    obtain ⟨rfl, -⟩ := of_doOp_cleanupShard hstep
    exact raises_doCleanupShard hash args hs
  | expire args =>
    obtain ⟨r, hrun, -⟩ := of_doOp_expire hstep
    unfold doExpire at hrun
    split_ifs at hrun
    · cases hrun
      exact hrefl
    · exact raises_expireKeys hrun
  | prepareTx args =>
    obtain ⟨r, hrun, -⟩ := of_doOp_prepareTx hstep
    have hnet : kv.Answers (·.Spares key) (·.Spares key) net :=
      fun rec hrec => ⟨fun _ => hrec.2, fun _ => trivial⟩
    exact raises_of_ended (ended_prepare (fun _ hrec => hrec.1) hok.1 hnet hok.2 hrun) hs
  | commitTx args =>
    obtain ⟨r, hrun, -⟩ := of_doOp_commitTx hstep
    exact raises_of_ended
      (ended_commit (fun _ hrec => hrec.1) hok (fun rec hrec _ => hrec.2) hrun) hs
  | abortTx txID =>
    obtain ⟨r, hrun, -⟩ := of_doOp_abortTx hstep
    exact (moved_abort (within_true kv) hrun).changes.raises
  | resolveTxStatus txID =>
    obtain ⟨r, hrun, -⟩ := of_doOp_resolveTxStatus hstep
    exact (moved_resolveTxStatus (within_true kv) hrun).changes.raises
  | recordTxDecision args =>
    obtain ⟨rfl, -⟩ := of_doOp_recordTxDecision hstep
    exact (moved_recordDecision (within_true kv) args).changes.raises
  | _ =>
    cases hstep
    exact hrefl

theorem above_run {inputs : List Input} {replies : List Reply} (hs : Above v kv.store[key]?)
    (hok : (machine hash).Along (fun kv input _ => kv.Continues key input) kv inputs)
    (hrun : (machine hash).run kv inputs = some (kv', replies)) : Above v kv'.store[key]? := by
  induction inputs generalizing kv replies with
  | nil =>
    cases hrun
    exact hs
  | cons input inputs ih =>
    obtain ⟨mid, r, rs, hstep, hrest, -⟩ := Lib.Machine.run_cons_eq_some.mp hrun
    obtain ⟨hcalm, htail⟩ := hok mid r hstep
    exact ih ((raises_doOp hs.atLeast hcalm hstep).above hs) htail hrest

theorem unchanged_run {inputs : List Input} {replies : List Reply} (hs : AtLeast v kv.store[key]?)
    (hok : (machine hash).Along (fun kv input _ => kv.Continues key input) kv inputs)
    (hrun : (machine hash).run kv inputs = some (kv', replies)) (hend : ¬Above v kv'.store[key]?) :
    (machine hash).Along (fun kv _ kv' => kv'.store[key]? = kv.store[key]?) kv inputs := by
  induction inputs generalizing kv replies with
  | nil => trivial
  | cons input inputs ih =>
    obtain ⟨mid, r, rs, hstep, hrest, -⟩ := Lib.Machine.run_cons_eq_some.mp hrun
    obtain ⟨hcalm, htail⟩ := hok mid r hstep
    have hraise := raises_doOp hs hcalm hstep
    intro next reply hnext
    rw [hstep] at hnext
    cases hnext
    refine ⟨hraise.resolve_right fun habove => ?_, ih (hraise.atLeast hs) htail hrest⟩
    exact hend (above_run habove htail hrest)

theorem putCAS_of_doPut_ok {net : Net} (h : (kv.doPut hash net clock args).2.err = .ok) :
    ∃ store old, kv.putCAS clock args = .ok (store, old, .ok) := by
  revert h
  apply doPut_cases fun r => r.2.err = .ok →
    ∃ store old, kv.putCAS clock args = .ok (store, old, .ok)
  · exact fun _ hne _ _ _ hok => absurd hok hne
  · exact fun _ ⟨old, hput⟩ _ _ => ⟨_, old, hput⟩
  · exact nofun
  · exact nofun

theorem found_of_doGet {now : Int64} (h : (kv.doGet hash now key).err = .ok) :
    ∃ e, kv.store.get key = .ok (some e) ∧ (kv.doGet hash now key).version = e.version.toInt64 := by
  unfold doGet at h ⊢
  split_ifs at h with halive
  rw [if_neg halive]
  dsimp only at h ⊢
  split_ifs at h with howned
  rw [if_neg howned]
  split at h
  · cases h
  · cases h
  · rename_i e hget
    split_ifs at h with hlive
    exact ⟨e, hget, by rw [if_neg hlive]⟩

/-- Compare-and-set against lost updates: a get returned a version of at least 1, a later
put of that version was accepted, and no command between them gave the key a first
version. -/
theorem cas_excludes_lost_updates {hash : String → UInt64} {kv₀ kv₁ : KVServer} {now : Int64}
    {net : Net} {inputs : List Input} {replies : List Reply}
    (hget : (kv₀.doGet hash now args.key).err = .ok)
    (hver : (kv₀.doGet hash now args.key).version = args.version) (hpos : 1 ≤ args.version)
    (hrun : (machine hash).run kv₀ inputs = some (kv₁, replies))
    (hput : (kv₁.doPut hash net clock args).2.err = .ok)
    (hok : (machine hash).Along (fun kv input _ => kv.Continues args.key input) kv₀ inputs) :
    (machine hash).Along (fun kv _ kv' => kv'.store[args.key]? = kv.store[args.key]?)
      kv₀ inputs := by
  obtain ⟨e, hfound, he⟩ := found_of_doGet hget
  have hnamed : args.version.toUInt64 = e.version := by
    rw [← hver, he, UInt64.toUInt64_toInt64]
  have hsta : AtLeast e.version kv₀.store[args.key]? := by
    intro e' he'
    cases (kvAt?_of_get hfound).symm.trans he'
    exact .inr (UInt64.le_refl _)
  have hzero : args.version ≠ 0 := by
    intro hzero
    rw [hzero] at hpos
    exact absurd hpos (by decide)
  -- the accepted put still found the version that was read
  obtain ⟨store, old, hcas⟩ := putCAS_of_doPut_ok hput
  obtain ⟨cur, hcur, hne, hsame⟩ := found_of_putCAS hcas fun h => absurd h hzero
  apply unchanged_run hsta hok hrun
  intro habove
  rcases habove cur (kvAt?_of_get hcur) with h | h
  · exact hne h
  · rw [hsame, hnamed] at h
    exact absurd h (UInt64.lt_irrefl _)

end

def atZero (request : Request) : Input := ⟨request, .offline, ⟨0, 0⟩⟩

def holder : KVServer := newKVServer 1 (ExtTreeMap.insert ∅ "k" (.entry ⟨"a", 1, 0⟩))

def refusedPuts : List Input :=
  [atZero (.put ⟨"j", "b", 0, 0⟩), atZero (.put ⟨"k", "b", 0, 0⟩), atZero (.put ⟨"k", "b", 7, 0⟩)]

theorem cas_excludes_lost_updates_refused_puts :
    ∃ kv₁ replies, (machine fun _ => 0).run holder refusedPuts = some (kv₁, replies) ∧
      (kv₁.doPut (fun _ => 0) .offline ⟨0, 0⟩ ⟨"k", "x", 1, 0⟩).2.err = .ok ∧
      (machine fun _ => 0).Along (fun kv _ kv' => kv'.store["k"]? = kv.store["k"]?) holder
        refusedPuts := by
  have hrun : ((machine fun _ => 0).run holder refusedPuts).any (fun p =>
      decide ((p.1.doPut (fun _ => 0) .offline ⟨0, 0⟩ ⟨"k", "x", 1, 0⟩).2.err = .ok)) = true := by
    decide +kernel
  obtain ⟨⟨kv₁, replies⟩, hrun, hput⟩ := (Option.any_eq_true ..).mp hrun
  rw [decide_eq_true_eq] at hput
  refine ⟨kv₁, replies, hrun, hput, ?_⟩
  have hget : (holder.doGet (fun _ => 0) 0 (PutArgs.mk "k" "x" 1 0).key).err = .ok := by
    decide +kernel
  refine cas_excludes_lost_updates hget (by decide +kernel) (by decide) hrun hput ?_
  intro s₁ r₁ h₁
  refine ⟨fun hkey => absurd hkey (by decide), ?_⟩
  cases h₁
  intro s₂ r₂ h₂
  refine ⟨fun _ => ⟨by decide, fun _ => by decide +kernel⟩, ?_⟩
  cases h₂
  intro s₃ r₃ h₃
  exact ⟨fun _ => ⟨by decide, fun h => absurd h (by decide)⟩, trivial⟩

def recreation : List Input := [atZero (.delete "k"), atZero (.put ⟨"k", "b", 0, 0⟩)]

theorem recreated_key_loses_update :
    ∃ kv₀ kv₁ : KVServer, ∃ replies₀ replies₁,
      (machine fun _ => 0).run (newKVServer 1 ∅) [atZero (.put ⟨"k", "a", 0, 0⟩)] =
        some (kv₀, replies₀) ∧
      kv₀.doGet (fun _ => 0) 0 "k" = { value := "a", version := 1, err := .ok } ∧
      (machine fun _ => 0).run kv₀ recreation = some (kv₁, replies₁) ∧
      (kv₁.doPut (fun _ => 0) .offline ⟨0, 0⟩ ⟨"k", "x", 1, 0⟩).2 =
        { err := .ok, oldValue := "b" } ∧
      ¬(machine fun _ => 0).Along (fun kv _ kv' => kv'.store["k"]? = kv.store["k"]?) kv₀
        recreation := by
  refine ⟨_, _, _, _, rfl, by decide +kernel, rfl, by decide +kernel, ?_⟩
  intro hsame
  obtain ⟨hdele, -⟩ := hsame _ _ rfl
  revert hdele
  decide +kernel

end KVServer

end OrbisKV.KV
