import OrbisKV.Sharding.OnlineMigration
/-!
# Which entries a migration preserves

`bulkCopyShard` puts the value of an entry to the target with the version that the
target expects and without TTL, and compares values when it verifies the copy.
-/

namespace OrbisKV.KV

open Std KVServer List MigrationStage

namespace OnlineMigration

/-- Nobody writes beside the migration, and every call of it is answered. -/
def unhindered : Action → Prop
  | .start => True
  | .call delivery _ _ => delivery = .answered
  | .client _ _ | .echo _ _ | .stray _ _ => False

instance : DecidablePred unhindered := fun a =>
  match a with
  | .start => isTrue trivial
  | .call _ _ _ => inferInstanceAs (Decidable (_ = _))
  | .client _ _ | .echo _ _ | .stray _ _ => isFalse not_false

section

variable {items : List MigrationPlanItem} {item : MigrationPlanItem} {kv : KVServer} {now : Int64}
  {copied : List OnlineCopiedItem}

variable {hash : String → UInt64} {job : MigrationJob} {key : String} {e : KVEntry}
  {s s' s₁ : OnlineMigration} {net : Net} {clock : Clock} {reply : Reply}

/-- What `bulkCopyShard` makes of an entry in a target without the key. -/
def asCopied (e : KVEntry) : KVEntry := ⟨e.value, 1, 0⟩

def Untouched (key : String) (e : KVEntry) (s : OnlineMigration) : Prop :=
  s.source.store[key]? = some (.entry e) ∧ s.target.store[key]? = none

structure Pending (key : String) (e : KVEntry) (s : OnlineMigration)
    (items : List MigrationPlanItem) : Prop where
  value : ∀ item ∈ items, item.key = key → item.value = e.value
  target : s.target.store[key]? = some (.entry (asCopied e)) ∨
    s.target.store[key]? = none ∧ (e.expires = 0 → ∃ item ∈ items, item.key = key)

def Creates (key : String) (s : OnlineMigration) (items : List MigrationPlanItem)
    (before : GetReply) : Prop :=
  ∀ item ∈ items.head?, item.key = key →
    s.target.store[key]? = none ∧ migrationPutVersion before = 0

def Transfers (key : String) (e : KVEntry) (s : OnlineMigration) : MigrationStage → Prop
  | .reading | .importing | .migrating | .scanning => Untouched key e s
  | .checking items _ | .comparing items _ => Pending key e s items
  | .putting items _ before => Pending key e s items ∧ Creates key s items before
  | .verifying items _ _ => Pending key e s items.tail
  | .owning _ | .leaving _ | .listing | .cleaning _ | .done => Pending key e s []
  | .undoing _ | .undoingPut _ _ | .restoringSource | .restoringTarget _ | .failed => True

theorem Untouched.congr (h : Untouched key e s)
    (hsource : s'.source.store[key]? = s.source.store[key]?)
    (htarget : s'.target.store[key]? = s.target.store[key]?) : Untouched key e s' :=
  ⟨hsource.trans h.1, htarget.trans h.2⟩

theorem Pending.congr (h : Pending key e s items)
    (htarget : s'.target.store[key]? = s.target.store[key]?) : Pending key e s' items :=
  ⟨h.value, by rw [htarget]; exact h.target⟩

theorem transfers_undoNext (copied : List OnlineCopiedItem) :
    Transfers key e s (undoNext copied) := by
  cases copied <;> trivial

theorem transfers_copyNext (copied : List OnlineCopiedItem) (h : Pending key e s items) :
    Transfers key e s (copyNext items copied) := by
  cases items <;> exact h

theorem Pending.tail (h : Pending key e s (item :: items))
    (hdone : item.key = key → s.target.store[key]? = some (.entry (asCopied e))) :
    Pending key e s items := by
  refine ⟨fun it hit => h.value it (mem_cons_of_mem item hit), ?_⟩
  by_cases hkey : item.key = key
  · exact Or.inl (hdone hkey)
  · refine h.target.imp_right fun ⟨hnone, hleft⟩ => ⟨hnone, fun hexp => ?_⟩
    obtain ⟨it, hit, heq⟩ := hleft hexp
    rcases mem_cons.mp hit with rfl | hit
    · exact absurd heq hkey
    · exact ⟨it, hit, heq⟩

theorem value_of_mem_doScan {it : ScanItem} (hit : it ∈ (kv.doScan now ⟨"", 0⟩).items)
    (hkey : kv.store[it.key]? = some (.entry e)) : it.value = e.value := by
  unfold doScan at hit
  split at hit
  · cases hit
  · obtain ⟨⟨k, e'⟩, hmem, rfl⟩ := mem_map.mp hit
    unfold Store.scanPrefix at hmem
    rw [if_neg (by decide)] at hmem
    obtain ⟨⟨k', d⟩, hd, hent⟩ := mem_filterMap.mp (mem_filter.mp hmem).1
    obtain ⟨cur, hcur, heq⟩ := Option.map_eq_some_iff.mp hent
    cases heq
    have hsto := ExtTreeMap.mem_toList_iff_getElem?_eq_some.mp (mem_filter.mp hd).1
    dsimp only at hkey hsto hcur
    rw [hkey] at hsto
    cases hsto
    cases hcur
    rfl

theorem doGet_of_entry (hkey : kv.store[key]? = some (.entry e)) (he : e.expires = 0)
    (hget : migrationGetAccepted (kv.doGet hash now key) = true) :
    (kv.doGet hash now key).err = .ok ∧ (kv.doGet hash now key).value = e.value := by
  have hlive : isExpired e.expires now = false := isExpired_of_le (by rw [he]; decide) now
  unfold doGet Store.get at hget ⊢
  rw [hkey] at hget ⊢
  simp only [Document.toKV?, hlive] at hget ⊢
  split at hget
  · cases hget
  · rename_i halive
    rw [if_neg halive]
    split at hget
    · cases hget
    · rename_i howned
      rw [if_neg howned]
      exact ⟨rfl, rfl⟩

theorem doGet_of_absent (hkey : kv.store[key]? = none)
    (hget : migrationGetAccepted (kv.doGet hash now key) = true) :
    (kv.doGet hash now key).err = .noKey := by
  unfold doGet Store.get at hget ⊢
  rw [hkey] at hget ⊢
  dsimp only at hget ⊢
  split at hget
  · cases hget
  · rename_i halive
    rw [if_neg halive]
    split at hget
    · cases hget
    · rename_i howned
      rw [if_neg howned]

theorem Untouched.scanned (hkey : job.selects hash key = true)
    (h : Untouched key e s) (hdead : s.source.dead = false) :
    Pending key e s (job.bulkItems hash (s.source.doScan now ⟨"", 0⟩).items) := by
  refine ⟨fun item hitem hk => ?_, Or.inr ⟨h.2, fun he => ?_⟩⟩
  · obtain ⟨it, hit, rfl⟩ := mem_map.mp hitem
    dsimp only at hk
    subst hk
    exact value_of_mem_doScan (mem_filter.mp hit).1 h.1
  · have hscan : ⟨key, e.value, e.version.toInt64, e.expires⟩ ∈
        (s.source.doScan now ⟨"", 0⟩).items := mem_doScan hdead h.1 (by rw [he]; decide)
    exact ⟨_, mem_map.mpr ⟨_, mem_filter.mpr ⟨hscan, hkey⟩, rfl⟩, rfl⟩

theorem Pending.compared (h : Pending key e s (item :: items))
    (hget : migrationGetAccepted (s.target.doGet hash now item.key) = true) :
    if migrationValueEquals (s.target.doGet hash now item.key) item = true then
      Pending key e s items
    else Creates key s (item :: items) (s.target.doGet hash now item.key) := by
  split
  · rename_i hequal
    refine h.tail fun hk => ?_
    -- an equal value under the key is an entry that was copied before
    rcases h.target with htarget | ⟨hnone, -⟩
    · exact htarget
    · rw [migrationValueEquals, hk, doGet_of_absent hnone (hk ▸ hget)] at hequal
      cases hequal
  · rename_i hdif
    rintro it ⟨⟩ hk
    rcases h.target with htarget | ⟨hnone, -⟩
    · obtain ⟨hok, hval⟩ := doGet_of_entry htarget rfl (hk ▸ hget)
      refine absurd ?_ hdif
      rw [migrationValueEquals, hk, hok, hval, h.value item mem_cons_self hk]
      simp [asCopied]
    · refine ⟨hnone, ?_⟩
      rw [migrationPutVersion, hk, if_pos (doGet_of_absent hnone (hk ▸ hget))]

theorem Pending.put {before : GetReply} (h : Pending key e s (item :: items))
    (hcre : Creates key s (item :: items) before)
    (hok : (s.target.doPut hash net clock
      ⟨item.key, item.value, migrationPutVersion before, 0⟩).2.err = .ok) :
    Pending key e { s with target := (s.target.doPut hash net clock
      ⟨item.key, item.value, migrationPutVersion before, 0⟩).1 } items := by
  by_cases hk : item.key = key
  · obtain ⟨-, hzero⟩ := hcre item rfl hk
    refine ⟨fun it hit => h.value it (mem_cons_of_mem item hit), Or.inl ?_⟩
    dsimp only
    rw [doPut_ok hok]
    have hval := h.value item mem_cons_self hk
    simp [written, hk, hzero, hval, asCopied, absoluteExpiryFromTTL_of_le]
    rfl
  · have hpen := h.tail fun heq => absurd heq hk
    exact hpen.congr (doPut_other hk)

theorem transfers_executed (hexec : s.execute hash job net clock = some (s₁, reply))
    (hkey : job.selects hash key = true) (h : Transfers key e s s.stage) :
    Transfers key e s₁ (s.stage.resume hash job (some reply)) := by
  generalize hst : s.stage = stage at h
  cases executed hst hexec with
  | importing args =>
    rw [resume_importing]
    split
    · exact Untouched.congr h rfl (getElem?_doSetShardState s.target args key)
    · trivial
  | migrating args =>
    rw [resume_migrating]
    split
    · exact Untouched.congr h (getElem?_doSetShardState s.source args key) rfl
    · trivial
  | scanning =>
    dsimp only [resume]
    split
    · exact transfers_undoNext []
    · rename_i halive
      refine transfers_copyNext [] (Untouched.scanned hkey h ?_)
      cases hdead : s.source.dead with
      | false => rfl
      | true =>
        refine absurd ?_ halive
        rw [doScan, if_pos hdead]
  | checking item items copied =>
    dsimp only [resume]
    split
    · exact h
    · exact transfers_undoNext copied
  | comparing item items copied =>
    dsimp only [resume]
    split
    · exact transfers_undoNext copied
    · rename_i hget
      rw [Bool.not_eq_true', Bool.not_eq_false] at hget
      have hcom := Pending.compared h hget
      split at hcom
      · rename_i hequal
        rw [if_pos hequal]
        exact transfers_copyNext copied hcom
      · rename_i hdif
        rw [if_neg hdif]
        exact ⟨h, hcom⟩
  | putting item items copied before args hargs =>
    subst hargs
    dsimp only [resume]
    split
    · rename_i hok
      exact h.1.put h.2 (decide_eq_true_eq.mp hok)
    · exact transfers_undoNext copied
  | verifying item items copied before =>
    dsimp only [resume]
    split
    · exact transfers_copyNext _ h
    · exact transfers_undoNext copied
  | owning copied args =>
    rw [resume_owning]
    split
    · exact Pending.congr h (getElem?_doSetShardState s.target args key)
    · exact transfers_undoNext copied
  | leaving copied args =>
    rw [resume_leaving]
    split
    · exact Pending.congr h rfl
    · exact transfers_undoNext copied
  | listing =>
    dsimp only [resume]
    split
    · trivial
    · split <;> exact h
  | cleaning keys source reply =>
    dsimp only [resume]
    split
    · exact Pending.congr h rfl
    · trivial
  | undoing c copied =>
    dsimp only [resume]
    split
    · trivial
    · exact transfers_undoNext copied
  | undoingDelete c copied | undoingPut c copied => exact transfers_undoNext copied
  | restoringSource | restoringTarget => trivial

theorem Transfers.congr {stage : MigrationStage} (h : Transfers key e s stage)
    (hsource : s'.source = s.source) (htarget : s'.target = s.target) :
    Transfers key e s' stage := by
  obtain ⟨source, target, _, _, _, _⟩ := s
  obtain ⟨source', target', _, _, _, _⟩ := s'
  dsimp only at hsource htarget
  subst hsource htarget
  cases stage with
  | putting items copied before => exact ⟨⟨h.1.value, h.1.target⟩, h.2⟩
  | reading | importing | migrating | scanning => exact h
  | undoing | undoingPut | restoringSource | restoringTarget | failed => trivial
  | _ => exact ⟨h.value, h.target⟩

theorem transfers_step (hkey : job.selects hash key = true) {a : Action}
    (h : Transfers key e s s.stage) (hok : unhindered a)
    (hstep : s.step hash job a = some s') : Transfers key e s' s'.stage := by
  cases a with
  | start =>
    unfold step at hstep
    dsimp only at hstep
    split at hstep
    · rename_i hst
      rw [hst] at h
      split at hstep
      · cases hstep
        exact Untouched.congr h rfl rfl
      · cases hstep
        trivial
    · cases hstep
  | call delivery net clock =>
    obtain rfl : delivery = .answered := hok
    obtain ⟨r, hexec, rfl⟩ := Option.map_eq_some_iff.mp hstep
    exact (transfers_executed hexec hkey h).congr rfl rfl
  | _ => exact hok.elim

end

/-- A migration without other writers that returns nil, to a target that was empty: an
entry of the shard is the same in the target as it was in the source exactly when it has its
first version and no expiry. -/
theorem migration_preserves_entries (hash : String → UInt64) (job : MigrationJob)
    (hpre : job.pre = "") (s₀ s : OnlineMigration) (hinit : (system hash job).init s₀)
    (hempty : s₀.target.store = ∅)
    (hrun : (system hash job).Run (fun _ a => unhindered a) s₀ s) (hdone : s.stage = .done)
    (key : String) (hshard : ((hash key).toNat % job.numShards : Nat) = job.shardID)
    (e : KVEntry) (hkey : s₀.source.store[key]? = some (.entry e)) :
    s.target.store[key]? = some (.entry e) ↔ e.version = 1 ∧ e.expires = 0 := by
  have hsel : job.selects hash key = true := by
    simp [MigrationJob.selects, hpre, hshard]
  have hstart : Transfers key e s₀ s₀.stage := by
    rw [hinit.1]
    exact ⟨hkey, by rw [hempty]; exact ExtTreeMap.getElem?_empty⟩
  have hend := hrun.preserves (I := fun s => Transfers key e s s.stage)
    (fun s a t h hok hstep => transfers_step hsel h hok hstep) hstart
  rw [hdone] at hend
  rcases hend.target with hcopied | ⟨hnone, hleft⟩
  · rw [hcopied]
    obtain ⟨value, version, expires⟩ := e
    simp [asCopied, eq_comm]
  · refine iff_of_false (by simp [hnone]) fun he => ?_
    obtain ⟨item, hitem, -⟩ := hleft he.2
    cases hitem

def twoKeys : List Action := .start :: List.replicate 15 proceed

theorem migration_preserves_entries_first_version : ∃ s,
    (system (fun _ => 0) sampleJob).Run (fun _ a => unhindered a) sampleStart s ∧
      s.stage = .done ∧ s.target.store["k"]? = some (.entry ⟨"v0", 1, 0⟩) := by
  obtain ⟨s, hrun, hdone⟩ := Lib.System.exists_of_execOk (system (fun _ => 0) sampleJob)
    (fun _ a => unhindered a) sampleStart twoKeys (fun s => s.stage = .done) (by decide +kernel)
  have hentry := migration_preserves_entries (fun _ => 0) sampleJob rfl sampleStart s
    ⟨rfl, fun _ => rfl⟩ rfl hrun hdone "k" rfl ⟨"v0", 1, 0⟩ (by decide +kernel)
  exact ⟨s, hrun, hdone, hentry.mpr ⟨rfl, rfl⟩⟩

def agedStart : OnlineMigration :=
  startFrom (((∅ : Store).insert "j" (.entry ⟨"a", 3, 0⟩)).insert "k" (.entry ⟨"b", 1, 100⟩))

theorem migration_resets_version_and_expiry : ∃ s,
    (system (fun _ => 0) sampleJob).Run (fun _ a => unhindered a) agedStart s ∧
      s.stage = .done ∧ s.target.store["j"]? = some (.entry ⟨"a", 1, 0⟩) ∧
      s.target.store["k"]? = some (.entry ⟨"b", 1, 0⟩) ∧
      (s.target.doPut (fun _ => 0) .offline ⟨0, 0⟩ ⟨"j", "c", 3, 0⟩).2.err = .version ∧
      (agedStart.source.doGet (fun _ => 0) 100 "k").err = .noKey ∧
      (s.target.doGet (fun _ => 0) 100 "k").err = .ok :=
  Lib.System.exists_of_execOk _ _ _ twoKeys _ (by decide +kernel)

end OnlineMigration

end OrbisKV.KV
