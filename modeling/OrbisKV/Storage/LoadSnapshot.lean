import OrbisKV.KV.Image
/-!
# Loading a snapshot

`LoadSnapshot` fills a new database beside the old one, closes the old one, moves it aside
and puts the new one in its place.
-/

namespace OrbisKV.KV

open Std

/-- The directories of a store by what a database in them holds, and whether `s.db` is an
open database, which is the one in `dbPath`. -/
structure StoreFiles where
  opened : Bool
  dbPath : Option Store
  tmpPath : Option Store
  backupPath : Option Store
deriving DecidableEq

namespace StoreFiles

/-- The calls that may fail. -/
inductive Call
  | removeTmp
  | openTmp
  | put (i : Nat)
  | closeTmp
  | closeOld (closed : Bool)
  | removeBackup
  | stat
  | renameOld
  | renameNew
  | openNew
  | dropBackup
deriving DecidableEq

/-- The two readings of a snapshot by `json.Unmarshal`. -/
structure SnapshotCodec where
  envelope : List UInt8 → Option (Option (ExtTreeMap String KVEntry) × ExtTreeMap String Document)
  legacy : List UInt8 → Option (ExtTreeMap String KVEntry)

def SnapshotCodec.decode (codec : SnapshotCodec) (data : List UInt8) : Option Store.Envelope :=
  match codec.envelope data with
  | none => none
  | some (some kv, txRecords) => some ⟨kv, txRecords⟩
  | some (none, txRecords) => (codec.legacy data).map fun kv => ⟨kv, txRecords⟩

variable (fault : Option Call) (refused : String × Document → Bool)

/-- The loops that write to the temporary database, from the write with number `i` on.  A write
fails by a fault or because Badger refuses it (`refused`), as it does the empty key. -/
def fill : Nat → Store → List (String × Document) → Option Store
  | _, db, [] => some db
  | i, db, item :: items =>
    if fault = some (.put i) ∨ refused item then none
    else fill (i + 1) (db.insert item.1 item.2) items

def removeTmp (s : StoreFiles) : StoreFiles := { s with tmpPath := none }

/-- `os.Rename` of the backup, whose error is ignored. -/
def renameBack (s : StoreFiles) : StoreFiles :=
  if s.dbPath.isNone && s.backupPath.isSome then
    { s with dbPath := s.backupPath, backupPath := none }
  else s

/-- `openBadger(s.dbPath)`, which makes a database where there is none. -/
def openDB (s : StoreFiles) : StoreFiles :=
  { s with opened := true, dbPath := some (s.dbPath.getD ∅) }

/-- From the `Rename` that switches the databases on. -/
def switch (s : StoreFiles) : StoreFiles × Bool :=
  if fault = some .renameNew ∨ s.dbPath.isSome then (s.renameBack, false)
  else
    let s := { s with dbPath := s.tmpPath, tmpPath := none }
    if fault = some .openNew then ({ s with dbPath := none }.renameBack.openDB, false)
    else if fault = some .dropBackup then (s.openDB, true)
    else ({ s.openDB with backupPath := none }, true)

def replaceDB (s : StoreFiles) : StoreFiles × Bool :=
  if s.opened ∧ fault = some (.closeOld false) then (s.removeTmp, false)
  else if s.opened ∧ fault = some (.closeOld true) then
    ({ s.removeTmp with opened := false }, false)
  else
    let s := { s with opened := false }
    if fault = some .removeBackup then (s.removeTmp, false)
    else
      let s := { s with backupPath := none }
      if fault = some .stat ∨ s.dbPath.isNone then s.switch fault
      else if fault = some .renameOld then (s.removeTmp, false)
      else { s with dbPath := none, backupPath := s.dbPath }.switch fault

/-- What the loops write. -/
def writes (envelope : Store.Envelope) : List (String × Document) :=
  (envelope.kv.toList.map fun item => (item.1, .entry item.2)) ++ envelope.txRecords.toList

def loadSnapshot (codec : SnapshotCodec) (s : StoreFiles) (data : List UInt8) : StoreFiles × Bool :=
  match codec.decode data with
  | none => (s, false)
  | some envelope =>
    if fault = some .removeTmp then (s, false)
    else if fault = some .openTmp then (s.removeTmp, false)
    else
      match fill fault refused 0 ∅ (writes envelope) with
      | none => (s.removeTmp, false)
      | some db =>
        if fault = some .closeTmp then (s.removeTmp, false)
        else { s with tmpPath := some db }.replaceDB fault

/-- `Get`, `none` where the store has no open database. -/
def get (s : StoreFiles) (key : String) : Option (Except StoreError (Option KVEntry)) :=
  if s.opened then s.dbPath.map (·.get key) else none

/-- The failures that do not leave the store without a database. -/
def harmless : Option Call → Bool
  | some (.closeOld closed) => !closed
  | some .removeBackup | some .stat | some .renameOld | some .renameNew => false
  | _ => true

/-- After an error every `Get` returns what it returned from `db`; without one it finds under
every key what the snapshot has there, and nothing else. -/
def AllOrNothing (db : Store) (snapshot : Option Store.Envelope) (r : StoreFiles × Bool) : Prop :=
  (r.2 = false → ∀ key, r.1.get key = some (db.get key)) ∧
    (r.2 = true → ∃ (envelope : Store.Envelope) (new : Store), snapshot = some envelope ∧
      (∀ key, r.1.get key = some (new.get key)) ∧
      ∀ key : String, new[key]? = envelope.txRecords[key]?.or (envelope.kv[key]?.map .entry))

/-- The snapshot decodes and Badger takes all of it. -/
def Loadable (snapshot : Option Store.Envelope) : Prop :=
  ∃ envelope, snapshot = some envelope ∧ ∀ item ∈ writes envelope, refused item = false

variable {fault refused} {db : Store} {tmp backup : Option Store} {envelope : Store.Envelope}
  {snapshot : Option Store.Envelope} {s : StoreFiles}

theorem fill_eq {i : Nat} {db' : Store} {items : List (String × Document)}
    (h : fill fault refused i db items = some db') :
    db' = items.foldl (fun db item => db.insert item.1 item.2) db ∧
      ∀ item ∈ items, refused item = false := by
  induction items generalizing i db with
  | nil => exact ⟨(Option.some.inj h).symm, nofun⟩
  | cons item items ih =>
    rw [fill] at h
    split_ifs at h with hbad
    obtain ⟨hdb, htaken⟩ := ih h
    exact ⟨hdb, List.forall_mem_cons.mpr ⟨by simpa using fun hitem => hbad (Or.inr hitem), htaken⟩⟩

theorem refused_of_fill {i : Nat} {items : List (String × Document)}
    (hfault : ∀ i, fault ≠ some (.put i)) (h : fill fault refused i db items = none) :
    ∃ item ∈ items, refused item = true := by
  induction items generalizing i db with
  | nil => cases h
  | cons item items ih =>
    rw [fill] at h
    split_ifs at h with hbad
    · exact ⟨item, List.mem_cons_self, hbad.resolve_left (hfault i)⟩
    · obtain ⟨other, hmem, hother⟩ := ih h
      exact ⟨other, List.mem_cons_of_mem item hmem, hother⟩

theorem allOrNothing_error (hope : s.opened = true) (hdb : s.dbPath = some db) :
    AllOrNothing db snapshot (s, false) :=
  ⟨fun _ key => by simp [get, hope, hdb], nofun⟩

theorem allOrNothing_ok (hope : s.opened = true)
    (hdb : s.dbPath = some (Store.loadSnapshot envelope)) :
    AllOrNothing db (some envelope) (s, true) := by
  refine ⟨nofun, fun _ => ⟨envelope, _, rfl, fun key => ?_, Store.getElem?_loadSnapshot envelope⟩⟩
  simp [get, hope, hdb]

theorem not_allOrNothing_closed (hclosed : s.opened = false) :
    ¬ AllOrNothing db snapshot (s, false) := by
  intro h
  have hget := h.1 rfl ""
  rw [get, hclosed] at hget
  cases hget

theorem allOrNothing_replaceDB_iff :
    AllOrNothing db (some envelope) (replaceDB fault
      ⟨true, some db, some (Store.loadSnapshot envelope), backup⟩) ↔ harmless fault = true := by
  cases fault with
  | none => exact iff_of_true (allOrNothing_ok rfl rfl) rfl
  | some call =>
    cases call with
    | closeOld closed =>
      cases closed with
      | false => exact iff_of_true (allOrNothing_error rfl rfl) rfl
      | true => exact iff_of_false (not_allOrNothing_closed rfl) Bool.false_ne_true
    | removeBackup | stat | renameOld | renameNew =>
      exact iff_of_false (not_allOrNothing_closed rfl) Bool.false_ne_true
    | openNew => exact iff_of_true (allOrNothing_error rfl rfl) rfl
    | removeTmp | openTmp | put | closeTmp | dropBackup =>
      exact iff_of_true (allOrNothing_ok rfl rfl) rfl

/-- Loading a snapshot is all or nothing unless its database is complete and a call between the
closing of the old database and the opening of the new one fails. -/
theorem loadSnapshot_all_or_nothing (codec : SnapshotCodec) (data : List UInt8) (db : Store)
    (tmp backup : Option Store) (fault : Option Call) (refused : String × Document → Bool) :
    AllOrNothing db (codec.decode data)
      (loadSnapshot fault refused codec ⟨true, some db, tmp, backup⟩ data) ↔
        ¬ Loadable refused (codec.decode data) ∨ harmless fault = true := by
  have hearly : ∀ {s : StoreFiles} {P : Prop}, s.opened = true → s.dbPath = some db → P →
      (AllOrNothing db (codec.decode data) (s, false) ↔ P) := fun hopen hdb hP =>
    iff_of_true (allOrNothing_error hopen hdb) hP
  rw [loadSnapshot]
  cases hdec : codec.decode data with
  | none => exact iff_of_true (allOrNothing_error rfl rfl) (Or.inl (by rintro ⟨_, h, _⟩; cases h))
  | some envelope =>
    rw [hdec] at hearly
    dsimp only
    by_cases htmp : fault = some .removeTmp
    · rw [if_pos htmp]
      exact hearly rfl rfl (Or.inr (by rw [htmp]; rfl))
    by_cases hopen : fault = some .openTmp
    · rw [if_neg htmp, if_pos hopen]
      exact hearly rfl rfl (Or.inr (by rw [hopen]; rfl))
    rw [if_neg htmp, if_neg hopen]
    cases hfill : fill fault refused 0 ∅ (writes envelope) with
    | none =>
      refine hearly rfl rfl (or_iff_not_imp_right.mpr fun hfault => ?_)
      obtain ⟨item, hmem, hitem⟩ := refused_of_fill (by rintro i rfl; exact hfault rfl) hfill
      rintro ⟨other, hsame, htaken⟩
      cases hsame
      exact absurd (htaken item hmem) (by rw [hitem]; decide)
    | some new =>
      obtain ⟨hnew, htaken⟩ := fill_eq hfill
      obtain rfl : new = Store.loadSnapshot envelope := by
        rw [hnew, writes, List.foldl_append, List.foldl_map]
        rfl
      have hload : Loadable refused (some envelope) := ⟨envelope, rfl, htaken⟩
      dsimp only
      split_ifs with hclose
      · exact hearly rfl rfl (Or.inr (by rw [hclose]; rfl))
      · rw [allOrNothing_replaceDB_iff, or_iff_right (not_not_intro hload)]

def sampleCodec : SnapshotCodec where
  envelope _ := some (some ((∅ : ExtTreeMap String KVEntry).insert "k" ⟨"new", 7, 0⟩), ∅)
  legacy _ := none

def sampleDB : Store := (∅ : Store).insert "k" (.entry ⟨"old", 1, 0⟩)

theorem loadSnapshot_leaves_store_closed :
    ([Call.closeOld true, .removeBackup, .stat, .renameOld, .renameNew].map fun call =>
      let loaded := loadSnapshot (some call) (fun _ => false) sampleCodec
        ⟨true, some sampleDB, none, none⟩ []
      (loaded.2, loaded.1.get "k")) = List.replicate 5 (false, none) := by
  decide +kernel

end StoreFiles

end OrbisKV.KV
