import OrbisKV.Lib.Transition
import OrbisKV.KV.Frame
/-!
# The expiry heap

`GetExpiredKeys` takes keys from a heap of expiry times, or reads the whole store where the
heap is empty.
-/

namespace OrbisKV.KV

open Std Lib Int64 List Store

/-- A `Store` with its heap, whose items stand in the order in which they are popped. -/
structure ExpiryStore where
  db : Store := ∅
  heap : List (String × Int64) := []
  tombstones : List String := []
  /-- The `Expire` command that `TTLCleanupLoop` has submitted: its keys and its cutoff. -/
  pending : Option (List String × Int64) := none

namespace ExpiryStore

def push (item : String × Int64) : List (String × Int64) → List (String × Int64)
  | [] => [item]
  | top :: rest => if item.2 < top.2 then item :: top :: rest else top :: push item rest

def trackExpiry (s : ExpiryStore) (key : String) (expires : Int64) : ExpiryStore :=
  if expires ≤ 0 then s
  else
    { s with
      tombstones := s.tombstones.filter (· ≠ key)
      heap := push (key, expires) s.heap }

def delete (s : ExpiryStore) (key : String) : ExpiryStore :=
  { s with db := s.db.delete key, tombstones := key :: s.tombstones }

/-- The loop of `PeekExpiredKeys`: the keys, and what is left of heap and tombstones. -/
def peek (cutoff : Int64) : Nat → List (String × Int64) → List String →
    List String × List (String × Int64) × List String
  | _, [], tombs => ([], [], tombs)
  | 0, heap, tombs => ([], heap, tombs)
  | limit + 1, top :: rest, tombs =>
    if cutoff < top.2 then ([], top :: rest, tombs)
    else if top.1 ∈ tombs then
      peek cutoff (limit + 1) rest (tombs.filter (· ≠ top.1))
    else
      let r := peek cutoff limit rest tombs
      (top.1 :: r.1, r.2)

/-- The keys that a full scan finds expired. -/
def scanExpired (db : Store) (cutoff : Int64) : List String :=
  (db.toList.filter fun item => item.2.toKV?.any (isExpired ·.expires cutoff)).map Prod.fst

def getExpiredKeys (s : ExpiryStore) (cutoff : Int64) (limit : Int) : List String × ExpiryStore :=
  let n := if limit ≤ 0 then 128 else limit.toNat
  if s.heap = [] then ((scanExpired s.db cutoff).take n, s)
  else
    let r := peek cutoff n s.heap s.tombstones
    (r.1, { s with heap := r.2.1, tombstones := r.2.2 })

/-- One key of `doExpire`. -/
def expireKey (cutoff : Int64) (s : ExpiryStore) (key : String) : ExpiryStore :=
  match s.db.get key with
  | .ok (some e) => if isExpired e.expires cutoff then s.delete key else s
  | _ => s

inductive Action
  | put (now : Int64) (key value : String) (expectedVersion : UInt64) (expires : Int64)
  | delete (key : String)
  | rollback (key : String) (expectedCurrentVersion : UInt64) (previous : Option KVEntry)
  | getExpired (cutoff : Int64) (limit : Int)
  /-- The submission ends; `kept` are locked keys, or all keys where it has failed. -/
  | expire (kept : List String)
  | restart
  | loadSnapshot (envelope : Store.Envelope)

def step (s : ExpiryStore) : Action → Option ExpiryStore
  | .put now key value expectedVersion expires =>
    match s.db.putCASWithTTL now key value expectedVersion expires with
    | .ok (db, _, .ok) => some ({ s with db := db }.trackExpiry key expires)
    | _ => some s
  | .delete key => some (s.delete key)
  | .rollback key expectedCurrentVersion previous =>
    match s.db.rollbackCASMutation key expectedCurrentVersion previous with
    | .ok db => some ({ s with db := db }.trackExpiry key (previous.elim 0 (·.expires)))
    | .error _ => some s
  | .getExpired cutoff limit =>
    if s.pending.isSome then none
    else
      let r := s.getExpiredKeys cutoff limit
      some { r.2 with pending := some (r.1, cutoff) }
  | .expire kept => s.pending.map fun p =>
    { (p.1.filter (· ∉ kept)).foldl (expireKey p.2) s with pending := none }
  | .restart => some { db := s.db }
  | .loadSnapshot envelope => some { s with db := loadSnapshot envelope }

def system : System ExpiryStore Action where
  init s := s = {}
  step := step

/-- No entry has an expiry time. -/
def lasting (db : Store) : Bool :=
  db.toList.all fun item => item.2.toKV?.all (·.expires ≤ 0)

/-- Every submission deletes the keys that have expired, and neither a restart nor a snapshot
brings in entries that expire. -/
def careful (s : ExpiryStore) : Action → Bool
  | .expire kept => kept = []
  | .restart => lasting s.db
  | .loadSnapshot envelope => lasting (loadSnapshot envelope)
  | _ => true

variable {s t : ExpiryStore} {key : String} {cutoff : Int64} {item : String × Int64}
  {heap : List (String × Int64)} {tombs : List String}

theorem mem_push {x : String × Int64} : x ∈ push item heap ↔ x = item ∨ x ∈ heap := by
  induction heap with
  | nil => simp [push]
  | cons top rest ih =>
    rw [push]
    split_ifs
    · simp
    · rw [mem_cons, ih, mem_cons]
      tauto

theorem sorted_push (h : heap.Pairwise (·.2 ≤ ·.2)) : (push item heap).Pairwise (·.2 ≤ ·.2) := by
  induction heap with
  | nil => exact pairwise_singleton _ _
  | cons top rest ih =>
    have hrest := pairwise_cons.mp h
    rw [push]
    split_ifs with hlt
    · refine pairwise_cons.mpr ⟨fun x hx => ?_, h⟩
      rcases mem_cons.mp hx with rfl | hx
      · exact le_of_lt hlt
      · exact le_trans (le_of_lt hlt) (hrest.1 x hx)
    · refine pairwise_cons.mpr ⟨fun x hx => ?_, ih hrest.2⟩
      rcases mem_push.mp hx with rfl | hx
      · exact not_lt.mp hlt
      · exact hrest.1 x hx

/-- An item stays, or it is due and its key is returned; with a limit that is large enough
no due item stays. -/
theorem peek_spec (limit : Nat) (hsorted : heap.Pairwise (·.2 ≤ ·.2)) :
    let r := peek cutoff limit heap tombs
    r.2.1.Sublist heap ∧ r.2.2 ⊆ tombs ∧ (heap.length ≤ limit → ∀ x ∈ r.2.1, cutoff < x.2) ∧
      ∀ x ∈ heap, x.1 ∉ tombs → x ∈ r.2.1 ∨ x.2 ≤ cutoff ∧ x.1 ∈ r.1 := by
  induction heap generalizing limit tombs with
  | nil => simp [peek]
  | cons top rest ih =>
    obtain ⟨htop, hrest⟩ := pairwise_cons.mp hsorted
    cases limit with
    | zero => exact ⟨List.Sublist.refl _, fun _ hx => hx, nofun, fun x hx _ => .inl hx⟩
    | succ limit =>
      rw [peek]
      split_ifs with hlater htomb
      · refine ⟨List.Sublist.refl _, fun _ hx => hx, fun _ x hx => ?_, fun x hx _ => .inl hx⟩
        rcases mem_cons.mp hx with rfl | hx
        · exact hlater
        · exact lt_of_lt_of_le hlater (htop x hx)
      · obtain ⟨hsub, htombs, hall, hdue⟩ := @ih (tombs.filter (· ≠ top.1)) (limit + 1) hrest
        refine ⟨hsub.trans (sublist_cons_self _ _),
          fun x hx => mem_of_mem_filter (htombs hx), fun hlen => hall ?_, fun x hx hfree => ?_⟩
        · rw [length_cons] at hlen
          omega
        · rcases mem_cons.mp hx with rfl | hx
          · exact absurd htomb hfree
          · exact hdue x hx fun hmem => hfree (mem_of_mem_filter hmem)
      · obtain ⟨hsub, htombs, hall, hdue⟩ := @ih tombs limit hrest
        refine ⟨hsub.trans (sublist_cons_self _ _), htombs, fun hlen => hall ?_,
          fun x hx hfree => ?_⟩
        · rw [length_cons] at hlen
          omega
        · rcases mem_cons.mp hx with rfl | hx
          · exact .inr ⟨not_lt.mp hlater, mem_cons_self⟩
          · exact (hdue x hx hfree).imp id fun h => ⟨h.1, mem_cons_of_mem _ h.2⟩

/-- The entry that a document under the key decodes to. -/
def entryOf (db : Store) (key : String) : Option KVEntry := db[key]?.bind Document.toKV?

/-- Every entry that expires is in the heap, or in a command that is going to delete it. -/
structure Covered (s : ExpiryStore) : Prop where
  sorted : s.heap.Pairwise (·.2 ≤ ·.2)
  covered : ∀ key e, entryOf s.db key = some e → 0 < e.expires →
    ((key, e.expires) ∈ s.heap ∧ key ∉ s.tombstones) ∨
      ∃ p, s.pending = some p ∧ key ∈ p.1 ∧ e.expires ≤ p.2

theorem not_expiring_of_lasting {db : Store} (h : lasting db = true) {e : KVEntry}
    (he : entryOf db key = some e) : ¬0 < e.expires := by
  obtain ⟨d, hd, hkv⟩ := Option.bind_eq_some_iff.mp he
  have hmem := ExtTreeMap.mem_toList_iff_getElem?_eq_some.mpr hd
  have hle := all_eq_true.mp h _ hmem
  rw [hkv, Option.all_some, decide_eq_true_eq] at hle
  exact not_lt.mpr hle

theorem entryOf_place {db : Store} {k : String} {left : Option Document} {e : KVEntry}
    (h : entryOf (db.place key left) k = some e) :
    k = key ∧ left.bind Document.toKV? = some e ∨ k ≠ key ∧ entryOf db k = some e := by
  rw [entryOf, getElem?_place] at h
  by_cases hk : key = k
  · rw [if_pos hk] at h
    exact .inl ⟨hk.symm, h⟩
  · rw [if_neg hk] at h
    exact .inr ⟨Ne.symm hk, h⟩

theorem entryOf_delete {db : Store} {k : String} {e : KVEntry}
    (h : entryOf (db.delete key) k = some e) : k ≠ key ∧ entryOf db k = some e := by
  rw [Store.delete, ← Store.place_none] at h
  exact (entryOf_place h).resolve_left fun hk => by cases hk.2

theorem Covered.track (h : s.Covered) {left : Option Document} {expires : Int64}
    (hleft : ∀ e, left.bind Document.toKV? = some e → e.expires = expires) :
    ({ s with db := s.db.place key left }.trackExpiry key expires).Covered := by
  unfold trackExpiry
  split_ifs with hnever
  · refine ⟨h.sorted, fun k e he hpos => ?_⟩
    rcases entryOf_place he with ⟨-, hnew⟩ | ⟨-, hold⟩
    · rw [hleft e hnew] at hpos
      exact absurd hpos (not_lt.mpr hnever)
    · exact h.covered k e hold hpos
  · refine ⟨sorted_push h.sorted, fun k e he hpos => ?_⟩
    rcases entryOf_place he with ⟨hk, hnew⟩ | ⟨-, hold⟩
    · rw [hk, hleft e hnew]
      exact .inl ⟨mem_push.mpr (.inl rfl), by simp⟩
    · refine (h.covered k e hold hpos).imp_left fun hin => ⟨mem_push.mpr (.inr hin.1), ?_⟩
      exact fun hmem => hin.2 (mem_of_mem_filter hmem)

theorem entryOf_expireKey {k : String} {e : KVEntry}
    (h : entryOf (expireKey cutoff s key).db k = some e) : entryOf s.db k = some e ∧
      (k = key → isExpired e.expires cutoff = false) ∧
      (k ∈ (expireKey cutoff s key).tombstones → k ∈ s.tombstones) := by
  have hget : ∀ e, s.db.get key = .ok (some e) ↔ entryOf s.db key = some e := by
    intro e
    unfold Store.get entryOf
    split
    · simp_all
    · rename_i raw hraw
      rw [hraw, Option.bind_some]
      cases raw.toKV? <;> simp
  unfold expireKey at h ⊢
  split at h
  · rename_i cur hcur
    split_ifs at h with hexp
    · obtain ⟨hk, he⟩ := entryOf_delete h
      rw [if_pos hexp]
      exact ⟨he, fun heq => absurd heq hk, fun hmem => (mem_cons.mp hmem).resolve_left hk⟩
    · rw [if_neg hexp]
      refine ⟨h, ?_, id⟩
      rintro rfl
      cases (hcur.symm.trans ((hget e).mpr h))
      exact Bool.eq_false_iff.mpr hexp
  · rename_i hnone
    refine ⟨h, ?_, id⟩
    rintro rfl
    exact absurd ((hget e).mpr h) (hnone e)

theorem heap_expireKey : (expireKey cutoff s key).heap = s.heap := by
  unfold expireKey
  split
  · split_ifs <;> rfl
  · rfl

theorem foldl_expireKey (keys : List String) (s : ExpiryStore) :
    (keys.foldl (expireKey cutoff) s).heap = s.heap ∧
    ∀ k e, entryOf (keys.foldl (expireKey cutoff) s).db k = some e → entryOf s.db k = some e ∧
      (k ∈ keys → isExpired e.expires cutoff = false) ∧
      (k ∈ (keys.foldl (expireKey cutoff) s).tombstones → k ∈ s.tombstones) := by
  induction keys generalizing s with
  | nil => exact ⟨rfl, fun k e he => ⟨he, nofun, id⟩⟩
  | cons key keys ih =>
    obtain ⟨hheap, hrest⟩ := ih (expireKey cutoff s key)
    refine ⟨hheap.trans heap_expireKey, fun k e he => ?_⟩
    obtain ⟨hmid, hfresh, hfree⟩ := hrest k e he
    obtain ⟨hold, hfirst, hfree'⟩ := entryOf_expireKey hmid
    exact ⟨hold, fun hk => (mem_cons.mp hk).elim hfirst hfresh, fun hk => hfree' (hfree hk)⟩

theorem Covered.getExpiredKeys (h : s.Covered) (hidle : s.pending = none) (limit : Int) :
    Covered { (s.getExpiredKeys cutoff limit).2 with
      pending := some ((s.getExpiredKeys cutoff limit).1, cutoff) } := by
  unfold ExpiryStore.getExpiredKeys
  dsimp only
  have hin : ∀ key e, entryOf s.db key = some e → 0 < e.expires →
      (key, e.expires) ∈ s.heap ∧ key ∉ s.tombstones := by
    intro key e he hpos
    exact (h.covered key e he hpos).resolve_right (by simp [hidle])
  generalize (if limit ≤ 0 then 128 else limit.toNat) = n
  by_cases hempty : s.heap = []
  · rw [if_pos hempty]
    refine ⟨h.sorted, fun key e he hpos => ?_⟩
    have hmem := (hin key e he hpos).1
    rw [hempty] at hmem
    cases hmem
  · rw [if_neg hempty]
    obtain ⟨hsub, htombs, -, hdue⟩ := peek_spec n h.sorted
    refine ⟨h.sorted.sublist hsub, fun key e he hpos => ?_⟩
    obtain ⟨hmem, hfree⟩ := hin key e he hpos
    rcases hdue _ hmem hfree with hstay | ⟨hle, hkey⟩
    · exact .inl ⟨hstay, fun hk => hfree (htombs hk)⟩
    · exact .inr ⟨_, rfl, hkey, hle⟩

theorem Covered.step {a : Action} (h : s.Covered) (hok : s.careful a = true)
    (hstep : s.step a = some t) : t.Covered := by
  cases a with
  | put now key value expectedVersion expires =>
    simp only [ExpiryStore.step] at hstep
    split at hstep
    · rename_i db old hput
      cases hstep
      rw [putCASWithTTL_eq] at hput
      cases hres : putResult now key value expectedVersion expires s.db[key]? with
      | error e => rw [hres] at hput; cases hput
      | ok res =>
        obtain ⟨left, old', status⟩ := res
        rw [hres] at hput
        cases hput
        obtain ⟨-, entry, rfl, rfl⟩ := (left_of_putResult hres).resolve_right fun h => h.1 rfl
        exact h.track fun e he => by cases he; rfl
    · cases hstep
      exact h
  | delete key =>
    cases hstep
    refine ⟨h.sorted, fun k e he hpos => ?_⟩
    obtain ⟨hk, he⟩ := entryOf_delete he
    refine (h.covered k e he hpos).imp_left fun hin => ⟨hin.1, fun hmem => ?_⟩
    exact hin.2 ((mem_cons.mp hmem).resolve_left hk)
  | rollback key expectedCurrentVersion previous =>
    simp only [ExpiryStore.step] at hstep
    split at hstep
    · rename_i db hroll
      cases hstep
      rw [rollbackCASMutation_eq_ok hroll]
      refine h.track fun e he => ?_
      cases previous with
      | none => cases he
      | some prev =>
        cases he
        rfl
    · cases hstep
      exact h
  | getExpired cutoff limit =>
    simp only [ExpiryStore.step] at hstep
    split_ifs at hstep with hidle
    cases hstep
    exact h.getExpiredKeys (by simpa using hidle) limit
  | expire kept =>
    obtain ⟨p, hp, rfl⟩ := Option.map_eq_some_iff.mp hstep
    obtain rfl := of_decide_eq_true hok
    obtain ⟨hheap, hleft⟩ := @foldl_expireKey p.2 (p.1.filter (· ∉ [])) s
    refine ⟨hheap ▸ h.sorted, fun k e he hpos => ?_⟩
    obtain ⟨hold, hfresh, hfree⟩ := hleft k e he
    rcases h.covered k e hold hpos with ⟨hmem, htomb⟩ | ⟨q, hq, hk, hle⟩
    · exact .inl ⟨hheap ▸ hmem, fun hin => htomb (hfree hin)⟩
    · cases hp.symm.trans hq
      have := hfresh (by simpa using hk)
      simp [isExpired, hpos, hle] at this
  | restart =>
    cases hstep
    exact ⟨List.Pairwise.nil, fun k e he hpos => absurd hpos (not_expiring_of_lasting hok he)⟩
  | loadSnapshot envelope =>
    cases hstep
    exact ⟨h.sorted, fun k e he hpos => absurd hpos (not_expiring_of_lasting hok he)⟩

/-- In every run in which submissions delete the expired keys and no expiring entries come in
past the heap: a limit of at least the items of the heap gives all keys that have expired. -/
theorem getExpiredKeys_complete (h : system.Reachable (fun s a => s.careful a = true) s)
    (hidle : s.pending = none) (cutoff : Int64) (limit : Int)
    (hlimit : (s.heap.length : Int) ≤ limit) (hkey : key ∈ scanExpired s.db cutoff) :
    key ∈ (s.getExpiredKeys cutoff limit).1 := by
  have hcov : s.Covered := by
    refine h.invariant ?_ fun _ _ _ hs hok hstep => hs.step hok hstep
    rintro _ rfl
    exact ⟨List.Pairwise.nil, by simp [entryOf]⟩
  obtain ⟨⟨k, d⟩, hmem, rfl⟩ := mem_map.mp hkey
  obtain ⟨hmem, hexp⟩ := mem_filter.mp hmem
  obtain ⟨e, he, hexp⟩ : ∃ e, d.toKV? = some e ∧ isExpired e.expires cutoff = true := by
    cases hd : d.toKV? <;> simp_all
  rw [isExpired, Bool.and_eq_true, decide_eq_true_eq, decide_eq_true_eq] at hexp
  have hentry : entryOf s.db k = some e := by
    rw [entryOf, ExtTreeMap.mem_toList_iff_getElem?_eq_some.mp hmem, Option.bind_some, he]
  obtain ⟨hin, hfree⟩ := (hcov.covered _ e hentry hexp.1).resolve_right (by simp [hidle])
  have hne : s.heap ≠ [] := ne_nil_of_mem hin
  have hpos := length_pos_of_mem hin
  rw [getExpiredKeys]
  dsimp only
  rw [if_neg hne, if_neg (by omega)]
  obtain ⟨-, -, hall, hdue⟩ := peek_spec limit.toNat hcov.sorted
  rcases hdue _ hin hfree with hstay | hreturned
  · exact absurd (hall (by omega) _ hstay) (not_lt.mpr hexp.2)
  · exact hreturned.2

theorem getExpiredKeys_complete_sample :
    ∃ s : ExpiryStore, "j" ∈ scanExpired s.db 9 ∧ "j" ∈ (s.getExpiredKeys 9 2).1 := by
  obtain ⟨s, hs, hidle, hlimit, hkey⟩ := @System.exists_reachable_of_execOk _ _ system
    (fun s a => s.careful a = true) (fun s => s.pending = none ∧ (s.heap.length : Int) ≤ 2 ∧
      "j" ∈ scanExpired s.db 9) _ _ {}
    [.put 0 "k" "v" 0 5, .put 0 "j" "w" 0 9, .getExpired 5 2, .expire []] rfl (by decide +kernel)
  exact ⟨s, hkey, getExpiredKeys_complete hs hidle 9 2 hlimit hkey⟩

/-- What `GetExpiredKeys` returns and what a full scan finds. -/
def found (as : List Action) (cutoff : Int64) (limit : Int) : Option (List String × List String) :=
  (system.exec {} as).map fun s => ((s.getExpiredKeys cutoff limit).1, scanExpired s.db cutoff)

theorem getExpiredKeys_misses_keys :
    found [.put 0 "k" "v" 0 5, .restart, .put 0 "j" "w" 0 9] 5 2 = some ([], ["k"]) ∧
      found [.put 0 "k" "v" 0 5, .put 0 "j" "w" 0 9, .getExpired 5 2, .expire ["k"]] 5 2 =
        some ([], ["k"]) ∧
      found [.put 0 "k" "v" 0 1, .put 0 "k" "v" 1 2, .put 0 "j" "w" 0 3] 3 2 =
        some (["k", "k"], ["j", "k"]) := by
  decide +kernel

end ExpiryStore

end OrbisKV.KV
