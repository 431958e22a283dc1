import OrbisKV.KV.Routing
/-!
# Transactions one after another

What `Get`, `Put`, `Delete` and `Commit` do when nothing else runs: reads are answered
from the user entries, and `Commit` replaces the entries of the write set.
-/

namespace OrbisKV.KV

open Std ExtTreeMap Function List Option TxHandle

abbrev Entries := String → Option KVEntry

abbrev Answer := String × Tversion × Err

def WriteKey.left (wk : WriteKey) : Option KVEntry :=
  if wk.isDelete then none else some ⟨wk.value, wk.version.toUInt64 + 1, 0⟩

inductive TxOp
  | get (key : String) (result : Answer)
  | put (key value : String) (version : Tversion)
  | delete (key : String)
deriving DecidableEq, Repr

namespace Entries

def reply (m : Entries) (key : String) : GetReply :=
  match m key with
  | none => { err := .noKey }
  | some e => { value := e.value, version := e.version.toInt64, expires := e.expires, err := .ok }

def answer (m : Entries) (key : String) : Answer := clerkGet (some (m.reply key))

def version (m : Entries) (key : String) : UInt64 := (m key).elim 0 KVEntry.version

def write (m : Entries) (wk : WriteKey) : Option Entries :=
  if m.version wk.key = wk.version.toUInt64 then some (update m wk.key wk.left) else none

def commit (m : Entries) (writes : List WriteKey) : Option Entries := writes.foldlM write m

end Entries

namespace TxHandle

variable (resolve : String → Int)

def perform (m : Entries) (h : TxHandle) : TxOp → Option TxHandle
  | .get key result =>
    if (h.get (some (m.reply key)) key).2 = result then some (h.get (some (m.reply key)) key).1
    else none
  | .put key value version => some (h.put resolve key value version)
  | .delete key => some (h.delete resolve (some (m.reply key)) key)

def asksGet (h : TxHandle) (key : String) : Bool :=
  h.writeSet[key]?.isNone && h.readSet[key]?.isNone

def asksDelete (h : TxHandle) (key : String) : Bool := h.readSet[key]?.isNone

end TxHandle

def Entries.run (resolve : String → Int) (m : Entries) (tx : String × List TxOp) : Option Entries :=
  (tx.2.foldlM (perform resolve m) { txID := tx.1 }).bind fun h =>
    if (h.plan resolve).grouped.length < h.writes.length then none else m.commit h.writes

namespace Entries

variable {m : Entries} {writes : List WriteKey}

theorem exists_commit (hkeys : writes.Pairwise fun a b => a.key ≠ b.key)
    (hvers : ∀ wk ∈ writes, m.version wk.key = wk.version.toUInt64) :
    ∃ m', m.commit writes = some m' ∧ (∀ wk ∈ writes, m' wk.key = wk.left) ∧
      ∀ key, (∀ wk ∈ writes, wk.key ≠ key) → m' key = m key := by
  induction writes generalizing m with
  | nil => exact ⟨m, rfl, by simp, fun _ _ => rfl⟩
  | cons wk wks ih =>
    rw [pairwise_cons] at hkeys
    obtain ⟨hhead, htail⟩ := hkeys
    have hrest : ∀ other ∈ wks, version (update m wk.key wk.left) other.key =
        other.version.toUInt64 := by
      intro other hother
      rw [version, update_of_ne (hhead other hother).symm]
      exact hvers other (mem_cons_of_mem wk hother)
    obtain ⟨m', hm', hleft, hframe⟩ := ih htail hrest
    refine ⟨m', ?_, ?_, ?_⟩
    · rw [commit, foldlM_cons, write, if_pos (hvers wk mem_cons_self)]
      exact hm'
    · refine forall_mem_cons.mpr ⟨?_, hleft⟩
      rw [hframe wk.key fun other hother => (hhead other hother).symm, update_self]
    · intro key hkey
      rw [hframe key fun other hother => hkey other (mem_cons_of_mem wk hother),
        update_of_ne (hkey wk mem_cons_self).symm]

end Entries

namespace TxHandle

variable {resolve : String → Int} {h : TxHandle} {key : String} {resp resp' : Option GetReply}

theorem get_congr (hresp : h.asksGet key = true → clerkGet resp = clerkGet resp') :
    h.get resp key = h.get resp' key := by
  unfold get
  cases hwr : h.writeSet[key]? with
  | some wk => rfl
  | none =>
    cases hread : h.readSet[key]? with
    | some rk => rfl
    | none =>
      rw [hresp (by rw [asksGet, hwr, hread]; rfl)]

theorem delete_congr (hresp : h.asksDelete key = true → clerkGet resp = clerkGet resp') :
    h.delete resolve resp key = h.delete resolve resp' key := by
  have hver : h.deleteVersion resp key = h.deleteVersion resp' key := by
    unfold deleteVersion
    cases hread : h.readSet[key]? with
    | some rk => rfl
    | none => rw [hresp (by rw [asksDelete, hread]; rfl)]
  unfold delete
  rw [hver]

def Records (h h' : TxHandle) (key : String) (resp : Option GetReply) : Prop :=
  (h'.readSet = h.readSet ∧ ∀ r, resp = some r → r.err ≠ .ok) ∨
    ∃ r value, resp = some r ∧ h.readSet[key]? = none ∧
      h'.readSet = h.readSet.insert key ⟨key, value, r.version⟩

theorem records_get (hasks : resp.isSome = h.asksGet key) :
    h.Records (h.get resp key).1 key resp := by
  unfold get
  cases hwr : h.writeSet[key]? with
  | some wk =>
    rw [asksGet, hwr] at hasks
    refine .inl ⟨rfl, ?_⟩
    rintro r rfl
    cases hasks
  | none =>
    cases hread : h.readSet[key]? with
    | some rk =>
      rw [asksGet, hwr, hread] at hasks
      refine .inl ⟨rfl, ?_⟩
      rintro r rfl
      cases hasks
    | none =>
      rw [asksGet, hwr, hread] at hasks
      obtain ⟨r, rfl⟩ := isSome_iff_exists.mp hasks
      by_cases hok : r.err = .ok
      · refine .inr ⟨r, r.value, rfl, hread, ?_⟩
        simp [clerkGet, hok]
      · refine .inl ⟨?_, by simpa using hok⟩
        simp [clerkGet, hok]

theorem records_deleteVersion (hasks : resp.isSome = h.asksDelete key) :
    h.Records (h.deleteVersion resp key).1 key resp := by
  unfold deleteVersion
  cases hread : h.readSet[key]? with
  | some rk =>
    rw [asksDelete, hread] at hasks
    refine .inl ⟨rfl, ?_⟩
    rintro r rfl
    cases hasks
  | none =>
    rw [asksDelete, hread] at hasks
    obtain ⟨r, rfl⟩ := isSome_iff_exists.mp hasks
    by_cases hok : r.err = .ok
    · refine .inr ⟨r, "", rfl, hread, ?_⟩
      simp [clerkGet, hok]
    · refine .inl ⟨?_, by simpa using hok⟩
      simp [clerkGet, hok]

theorem pairwise_writes (hkeys : ∀ (k : String) wk, h.writeSet[k]? = some wk → wk.key = k) :
    h.writes.Pairwise fun a b => a.key ≠ b.key := by
  rw [writes, pairwise_map]
  refine (distinct_keys_toList (t := h.writeSet)).imp_of_mem ?_
  intro a b ha hb hne heq
  rw [hkeys a.1 a.2 (mem_toList_iff_getElem?_eq_some.mp ha),
    hkeys b.1 b.2 (mem_toList_iff_getElem?_eq_some.mp hb)] at heq
  exact hne (LawfulEqCmp.compare_eq_iff_eq.mpr heq)

theorem mem_reads {rk : ReadKey} : rk ∈ h.reads ↔ ∃ k : String, h.readSet[k]? = some rk := by
  simp [reads, mem_toList_iff_getElem?_eq_some]

end TxHandle

def noted (key : String) (resp : Option GetReply) : List (String × Answer) :=
  resp.toList.map fun r => (key, clerkGet (some r))

structure Traced (resolve : String → Int) (txID : String) (ops : List TxOp)
    (seen : List (String × Answer)) (h : TxHandle) : Prop where
  replays : ∀ m : Entries, (∀ item ∈ seen, m.answer item.1 = item.2) →
    ops.foldlM (perform resolve m) { txID := txID } = some h
  resolved : ∀ item ∈ seen, isUserKey item.1 = true ∧ 0 ≤ resolve item.1
  answered : ∀ item ∈ seen, item.2.2.2 = .ok ∨ item.2 = ("", 0, .noKey)
  recorded : ∀ item ∈ seen, item.2.2.2 = .ok →
    ∃ rk, h.readSet[item.1]? = some rk ∧ rk.expectedVersion = item.2.2.1
  reads : ∀ (key : String) rk, h.readSet[key]? = some rk → rk.key = key
  writes : ∀ (key : String) wk, h.writeSet[key]? = some wk → wk.key = key
  joined : ∀ (key : String) wk, h.writeSet[key]? = some wk → 0 ≤ resolve key →
    resolve key ∈ h.groups

namespace Traced

variable {resolve : String → Int} {txID : String} {ops : List TxOp}
  {seen : List (String × Answer)} {h : TxHandle} {key : String} {resp : Option GetReply}
  {h' : TxHandle}

theorem init : Traced resolve txID [] [] { txID := txID } := by
  refine ⟨fun _ _ => rfl, by simp, by simp, by simp, ?_, ?_, ?_⟩ <;> simp

theorem mem_noted {item : String × Answer} :
    item ∈ noted key resp ↔ ∃ r, resp = some r ∧ item = (key, clerkGet (some r)) := by
  cases resp <;> simp [noted]

section

variable (ht : Traced resolve txID ops seen h)

include ht

theorem replays_snoc {op : TxOp}
    (hop : ∀ m : Entries, (∀ r, resp = some r → m.answer key = clerkGet (some r)) →
      perform resolve m h op = some h') (m : Entries)
    (hm : ∀ item ∈ seen ++ noted key resp, m.answer item.1 = item.2) :
    (ops ++ [op]).foldlM (perform resolve m) { txID := txID } = some h' := by
  rw [foldlM_append, ht.replays m fun item hitem => hm item (mem_append_left _ hitem)]
  simp only [foldlM_cons, foldlM_nil, bind_eq_bind, bind_some]
  rw [hop m]
  · rfl
  · intro r hr
    exact hm (key, clerkGet (some r)) (mem_append_right _ (mem_noted.mpr ⟨r, hr, rfl⟩))

theorem recorded_append (hrec : h.Records h' key resp) :
    ∀ item ∈ seen ++ noted key resp, item.2.2.2 = .ok →
      ∃ rk, h'.readSet[item.1]? = some rk ∧ rk.expectedVersion = item.2.2.1 := by
  intro item hitem hok
  rcases mem_append.mp hitem with hitem | hitem
  · obtain ⟨rk, hrk, hver⟩ := ht.recorded item hitem hok
    refine ⟨rk, ?_, hver⟩
    rcases hrec with ⟨hsame, -⟩ | ⟨r, value, -, hnone, hins⟩
    · rwa [hsame]
    · rw [hins, ExtTreeMap.getElem?_insert, if_neg]
      · exact hrk
      · rw [LawfulEqCmp.compare_eq_iff_eq]
        rintro rfl
        rw [hnone] at hrk
        cases hrk
  · obtain ⟨r, rfl, rfl⟩ := mem_noted.mp hitem
    have hr : r.err = .ok := by
      by_contra herr
      simp only [clerkGet, ne_eq, herr, not_false_eq_true, if_true] at hok
    rcases hrec with ⟨-, hbad⟩ | ⟨r', value, hr', -, hins⟩
    · exact absurd hr (hbad r rfl)
    · cases hr'
      refine ⟨_, by rw [hins, ExtTreeMap.getElem?_insert_self], ?_⟩
      simp [clerkGet, hr]

theorem reads_of_records (hrec : h.Records h' key resp)
    (k : String) (rk : ReadKey) (hrk : h'.readSet[k]? = some rk) : rk.key = k := by
  rcases hrec with ⟨hsame, -⟩ | ⟨r, value, -, -, hins⟩
  · rw [hsame] at hrk
    exact ht.reads k rk hrk
  · rw [hins, ExtTreeMap.getElem?_insert] at hrk
    split at hrk
    · rename_i hk
      cases hrk
      exact LawfulEqCmp.compare_eq_iff_eq.mp hk
    · exact ht.reads k rk hrk

theorem snoc {op : TxOp}
    (hop : ∀ m : Entries, (∀ r, resp = some r → m.answer key = clerkGet (some r)) →
      perform resolve m h op = some h')
    (hkey : ∀ r, resp = some r → (isUserKey key = true ∧ 0 ≤ resolve key) ∧
      (r.err = .ok ∨ r.err = .noKey)) (hrec : h.Records h' key resp)
    (hwri : ∀ (k : String) wk, h'.writeSet[k]? = some wk → wk.key = k)
    (hjoi : ∀ (k : String) wk, h'.writeSet[k]? = some wk → 0 ≤ resolve k → resolve k ∈ h'.groups) :
    Traced resolve txID (ops ++ [op]) (seen ++ noted key resp) h' := by
  refine ⟨ht.replays_snoc hop, ?_, ?_, ht.recorded_append hrec, ht.reads_of_records hrec, hwri,
    hjoi⟩
  · intro item hitem
    rcases mem_append.mp hitem with hitem | hitem
    · exact ht.resolved item hitem
    · obtain ⟨r, hr, rfl⟩ := mem_noted.mp hitem
      exact (hkey r hr).1
  · intro item hitem
    rcases mem_append.mp hitem with hitem | hitem
    · exact ht.answered item hitem
    · obtain ⟨r, hr, rfl⟩ := mem_noted.mp hitem
      rcases (hkey r hr).2 with hok | hnone
      · exact .inl (by simp [clerkGet, hok])
      · exact .inr (by simp [clerkGet, hnone])

theorem get (hasks : resp.isSome = h.asksGet key)
    (hkey : ∀ r, resp = some r → (isUserKey key = true ∧ 0 ≤ resolve key) ∧
      (r.err = .ok ∨ r.err = .noKey)) :
    Traced resolve txID (ops ++ [.get key (h.get resp key).2]) (seen ++ noted key resp)
      (h.get resp key).1 := by
  have hwri : (h.get resp key).1.writeSet = h.writeSet := (get_fst resp).2
  have hgroups : (h.get resp key).1.groups = h.groups := by
    unfold TxHandle.get
    split
    · rfl
    · split
      · rfl
      · split <;> rfl
  refine ht.snoc ?_ hkey (records_get hasks) ?_ ?_
  · intro m hm
    have hsame : h.get (some (m.reply key)) key = h.get resp key := by
      refine get_congr fun hask => ?_
      rw [hask] at hasks
      obtain ⟨r, rfl⟩ := isSome_iff_exists.mp hasks
      exact hm r rfl
    rw [perform, hsame, if_pos rfl]
  · rw [hwri]
    exact ht.writes
  · rw [hwri, hgroups]
    exact ht.joined

end

theorem joined_insert {h₁ : TxHandle} {new : WriteKey}
    (hjoi : ∀ (k : String) wk, h₁.writeSet[k]? = some wk → 0 ≤ resolve k → resolve k ∈ h₁.groups)
    (hh' : h' = { h₁ with writeSet := h₁.writeSet.insert key new }.join resolve key) (k : String)
    (wk : WriteKey) (hwk : h'.writeSet[k]? = some wk) (hk : 0 ≤ resolve k) :
    resolve k ∈ h'.groups := by
  subst hh'
  rw [TxHandle.join_fst.2, ExtTreeMap.getElem?_insert] at hwk
  unfold TxHandle.join
  split at hwk
  · rename_i heq
    rw [LawfulEqCmp.compare_eq_iff_eq] at heq
    subst heq
    rw [if_pos hk]
    exact ExtTreeSet.mem_insert_self
  · have hold := hjoi k wk hwk hk
    split
    · exact ExtTreeSet.mem_insert.mpr (.inr hold)
    · exact hold

theorem writes_insert {h₁ : TxHandle} {new : WriteKey}
    (hwri : ∀ (k : String) wk, h₁.writeSet[k]? = some wk → wk.key = k)
    (hset : h'.writeSet = h₁.writeSet.insert key new) (hnew : new.key = key) (k : String)
    (wk : WriteKey) (hwk : h'.writeSet[k]? = some wk) : wk.key = k := by
  rw [hset, ExtTreeMap.getElem?_insert] at hwk
  split at hwk
  · rename_i heq
    cases hwk
    exact hnew.trans (LawfulEqCmp.compare_eq_iff_eq.mp heq)
  · exact hwri k wk hwk

section

variable (ht : Traced resolve txID ops seen h)

include ht

theorem put (key value : String) (version : Tversion) :
    Traced resolve txID (ops ++ [.put key value version]) seen
      (h.put resolve key value version) := by
  have hreads : (h.put resolve key value version).readSet = h.readSet := by
    unfold TxHandle.put TxHandle.join
    split <;> rfl
  have hsnoc : Traced resolve txID (ops ++ [.put key value version]) (seen ++ noted key none)
      (h.put resolve key value version) :=
    ht.snoc (fun _ _ => rfl) nofun (.inl ⟨hreads, nofun⟩)
      (writes_insert ht.writes (writeSet_put value version) rfl)
      (joined_insert ht.joined rfl)
  rwa [noted, toList_none, map_nil, append_nil] at hsnoc

theorem delete (hasks : resp.isSome = h.asksDelete key)
    (hkey : ∀ r, resp = some r → (isUserKey key = true ∧ 0 ≤ resolve key) ∧
      (r.err = .ok ∨ r.err = .noKey)) :
    Traced resolve txID (ops ++ [.delete key]) (seen ++ noted key resp)
      (h.delete resolve resp key) := by
  have hwri : (h.deleteVersion resp key).1.writeSet = h.writeSet := (deleteVersion_fst resp).2
  have hgroups : (h.deleteVersion resp key).1.groups = h.groups := by
    unfold deleteVersion
    split
    · rfl
    · split <;> rfl
  have hreads : (h.delete resolve resp key).readSet = (h.deleteVersion resp key).1.readSet := by
    unfold TxHandle.delete TxHandle.join
    dsimp only
    split <;> rfl
  refine ht.snoc ?_ hkey ?_ ?_ ?_
  · intro m hm
    rw [perform]
    refine congrArg some (delete_congr fun hask => ?_)
    rw [hask] at hasks
    obtain ⟨r, rfl⟩ := isSome_iff_exists.mp hasks
    exact hm r rfl
  · have hrec := records_deleteVersion hasks
    unfold TxHandle.Records at hrec ⊢
    rwa [hreads]
  · exact writes_insert ht.writes (writeSet_delete resp) rfl
  · have hjoi : ∀ (k : String) wk, (h.deleteVersion resp key).1.writeSet[k]? = some wk →
        0 ≤ resolve k → resolve k ∈ (h.deleteVersion resp key).1.groups := by
      rw [hwri, hgroups]
      exact ht.joined
    exact joined_insert hjoi rfl

theorem run {m m' : Entries} (hgrou : (h.plan resolve).grouped.length = h.writes.length)
    (hseen : ∀ item ∈ seen, m.answer item.1 = item.2) (hcom : m.commit h.writes = some m') :
    m.run resolve (txID, ops) = some m' := by
  rw [Entries.run, ht.replays m hseen, bind_some, hgrou, if_neg (Nat.lt_irrefl _)]
  exact hcom

end

end Traced

end OrbisKV.KV
