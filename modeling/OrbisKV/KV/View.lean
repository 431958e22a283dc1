import Mathlib.Data.List.Induction
import OrbisKV.KV.Serial
/-!
# What a transaction sees

A handle answers a `Get` from its writes, from its reads, or from the group.  A delete is
kept among the writes like the write of an empty value, and only reads that found an entry
are kept.
-/

namespace OrbisKV.KV

open Std List Option

inductive TxCall
  | get (key : String)
  | put (key value : String) (version : Tversion)
  | delete (key : String)
deriving DecidableEq, Repr

namespace TxHandle

variable (resolve : String → Int)

/-- A call on a handle, with the group's answer to the read that it may make. -/
def call (h : TxHandle) (c : TxCall × Option GetReply) : TxHandle :=
  match c.1 with
  | .get key => (h.get c.2 key).1
  | .put key value version => h.put resolve key value version
  | .delete key => h.delete resolve c.2 key

def calls (txID : String) (cs : List (TxCall × Option GetReply)) : TxHandle :=
  cs.foldl (call resolve) { txID := txID }

/-- The last buffered operation on the key, a delete as `none`. -/
def buffer (key : String) (last : Option (Option String)) : TxCall → Option (Option String)
  | .get _ => last
  | .put k value _ => if k = key then some (some value) else last
  | .delete k => if k = key then some none else last

def lastWrite (key : String) (cs : List (TxCall × Option GetReply)) : Option (Option String) :=
  cs.foldl (fun last c => buffer key last c.1) none

/-- The reads of the key: the answers with a value or `ErrNoKey`.  A call that failed has not
read. -/
def answers (key : String) (cs : List (TxCall × Option GetReply)) : List Answer :=
  (cs.filterMap fun c => if c.1 = .get key then some (clerkGet c.2) else none).filter
    fun answer => answer.2.2 = .ok ∨ answer.2.2 = .noKey

/-- The first read of the key, which may be the present one. -/
def firstRead (key : String) (cs : List (TxCall × Option GetReply)) (resp : Option GetReply) :
    Answer :=
  (answers key cs).headD (clerkGet resp)

/-- The value and the error that `Get` should return. -/
def view (key : String) (cs : List (TxCall × Option GetReply)) (resp : Option GetReply) :
    String × Err :=
  match lastWrite key cs with
  | some (some value) => (value, .ok)
  | some none => ("", .noKey)
  | none => ((firstRead key cs resp).1, (firstRead key cs resp).2.2)

/-- The key is not deleted, and where it is only read the first read found an entry, or no
earlier read did and the present one ends like the first. -/
def Consistent (key : String) (cs : List (TxCall × Option GetReply)) (resp : Option GetReply) :
    Prop :=
  lastWrite key cs ≠ some none ∧ (lastWrite key cs = none → (firstRead key cs resp).2.2 = .ok ∨
      (∀ answer ∈ answers key cs, answer.2.2 ≠ .ok) ∧
        (clerkGet resp).2.2 = (firstRead key cs resp).2.2)

variable {resolve} {h : TxHandle} {key k txID : String} {resp : Option GetReply}
  {cs : List (TxCall × Option GetReply)}

theorem readSet_get (hwr : h.writeSet[key]? = none) :
    (h.get resp key).1.readSet[key]?.map ReadKey.value = (h.readSet[key]?.map ReadKey.value).or
        (if (clerkGet resp).2.2 = .ok then some (clerkGet resp).1 else none) := by
  unfold get
  rw [hwr]
  cases hread : h.readSet[key]? with
  | some rk => simp [hread]
  | none =>
    rcases hclerk : clerkGet resp with ⟨value, version, err⟩
    cases err <;> simp [hread]

theorem readSet_get_of_ne (hne : k ≠ key) : (h.get resp k).1.readSet[key]? = h.readSet[key]? := by
  unfold get
  split
  · rfl
  · split
    · rfl
    · split
      · simp [ExtTreeMap.getElem?_insert, hne]
      · rfl

theorem readSet_join : (h.join resolve k).readSet = h.readSet := by
  unfold join
  split <;> rfl

theorem readSet_delete_of_ne (hne : k ≠ key) :
    (h.delete resolve resp k).readSet[key]? = h.readSet[key]? := by
  unfold delete
  rw [readSet_join]
  dsimp only
  unfold deleteVersion
  split
  · rfl
  · split
    · simp [ExtTreeMap.getElem?_insert, hne]
    · rfl

theorem calls_append (c : TxCall × Option GetReply) :
    calls resolve txID (cs ++ [c]) = (calls resolve txID cs).call resolve c := by
  simp [calls]

theorem lastWrite_append (c : TxCall × Option GetReply) :
    lastWrite key (cs ++ [c]) = buffer key (lastWrite key cs) c.1 := by
  simp [lastWrite]

theorem writeSet_calls (resolve : String → Int) (txID key : String)
    (cs : List (TxCall × Option GetReply)) :
    (calls resolve txID cs).writeSet[key]?.map (fun wk => (wk.value, wk.isDelete)) =
      (lastWrite key cs).map fun last => (last.getD "", last.isNone) := by
  induction cs using reverseRecOn with
  | nil => simp [calls, lastWrite]
  | append_singleton cs c ih =>
    obtain ⟨c, resp⟩ := c
    rw [calls_append, lastWrite_append]
    cases c with
    | get k =>
      rw [call, (get_fst resp).2, ih]
      rfl
    | put k value version =>
      rw [call, writeSet_put, ExtTreeMap.getElem?_insert, buffer]
      by_cases hk : k = key
      · simp [hk]
      · simpa [hk] using ih
    | delete k =>
      rw [call, writeSet_delete, ExtTreeMap.getElem?_insert, buffer]
      by_cases hk : k = key
      · simp [hk]
      · simpa [hk] using ih

theorem readSet_calls (resolve : String → Int) (txID : String) (hlast : lastWrite key cs = none) :
    (calls resolve txID cs).readSet[key]?.map ReadKey.value =
      ((answers key cs).find? fun answer => answer.2.2 = .ok).map Prod.fst := by
  induction cs using reverseRecOn with
  | nil => simp [calls, answers]
  | append_singleton cs c ih =>
    obtain ⟨c, resp⟩ := c
    rw [lastWrite_append] at hlast
    rw [calls_append, answers, filterMap_append, filter_append, find?_append, ← answers]
    cases c with
    | get k =>
      have hprev := ih hlast
      by_cases hk : k = key
      · subst hk
        have hwr := writeSet_calls resolve txID k cs
        rw [show lastWrite k cs = none from hlast, map_none, map_eq_none_iff] at hwr
        rw [call, readSet_get hwr, hprev]
        by_cases hok : (clerkGet resp).2.2 = .ok
        · simp [hok]
        · by_cases habsent : (clerkGet resp).2.2 = .noKey <;> simp [hok, habsent]
      · rw [call, readSet_get_of_ne hk, hprev]
        simp [hk]
    | put k value version =>
      have hk : k ≠ key := by
        rintro rfl
        simp [buffer] at hlast
      have hread : ((calls resolve txID cs).put resolve k value version).readSet =
          (calls resolve txID cs).readSet := readSet_join
      rw [call, hread, ih (by simpa [buffer, hk] using hlast)]
      simp
    | delete k =>
      have hk : k ≠ key := by
        rintro rfl
        simp [buffer] at hlast
      rw [call, readSet_delete_of_ne hk, ih (by simpa [buffer, hk] using hlast)]
      simp

theorem clerkGet_fst (h : (clerkGet resp).2.2 ≠ .ok) : (clerkGet resp).1 = "" := by
  cases resp with
  | none => rfl
  | some reply =>
    by_cases hok : reply.err = .ok
    · simp [clerkGet, hok] at h
    · simp [clerkGet, hok]

theorem get_of_unwritten (hwr : h.writeSet[key]? = none) :
    ((h.get resp key).2.1, (h.get resp key).2.2.2) =
      ((h.readSet[key]?.map ReadKey.value).map fun value => (value, Err.ok)).getD
        ((clerkGet resp).1, (clerkGet resp).2.2) := by
  unfold get
  rw [hwr]
  cases hread : h.readSet[key]? with
  | some rk => rfl
  | none =>
    have hval : (clerkGet resp).2.2 ≠ .ok → (clerkGet resp).1 = "" := clerkGet_fst
    rcases hclerk : clerkGet resp with ⟨value, version, err⟩
    rw [hclerk] at hval
    cases err <;> simp_all

theorem fst_of_mem_answers {answer : Answer} (hmem : answer ∈ answers key cs)
    (hbad : answer.2.2 ≠ .ok) : answer.1 = "" := by
  obtain ⟨c, -, hc⟩ := mem_filterMap.mp (mem_filter.mp hmem).1
  split_ifs at hc
  cases hc
  exact clerkGet_fst hbad

/-- `Get` returns what the operations of the handle make of the answers to it exactly when
the key is consistent. -/
theorem get_eq_view_iff (resolve : String → Int) (txID : String)
    (cs : List (TxCall × Option GetReply)) (key : String) (resp : Option GetReply) :
    (((calls resolve txID cs).get resp key).2.1, ((calls resolve txID cs).get resp key).2.2.2) =
      view key cs resp ↔ Consistent key cs resp := by
  have hwr := writeSet_calls resolve txID key cs
  unfold view Consistent
  cases hlast : lastWrite key cs with
  | some last =>
    rw [hlast, map_some, map_eq_some_iff] at hwr
    obtain ⟨wk, hwk, hpair⟩ := hwr
    unfold get
    rw [hwk]
    cases last <;> simp_all
  | none =>
    rw [hlast, map_none, map_eq_none_iff] at hwr
    rw [get_of_unwritten hwr, readSet_calls resolve txID hlast, firstRead]
    simp only [ne_eq, reduceCtorEq, not_false_eq_true, true_and, forall_const]
    have hempty := fun answer => @fst_of_mem_answers key cs answer
    generalize answers key cs = as at hempty
    cases as with
    | nil => simp
    | cons a as =>
      by_cases hok : a.2.2 = .ok
      · simp [hok]
      · have hval := hempty a mem_cons_self hok
        cases hfind : as.find? fun answer => answer.2.2 = .ok with
        | some b =>
          -- a later read found an entry, and is the one that is kept
          have hb : b ∈ as ∧ b.2.2 = .ok :=
            ⟨mem_of_find?_eq_some hfind, by simpa using find?_some hfind⟩
          have hdif : Err.ok ≠ a.2.2 := fun heq => hok heq.symm
          simp only [find?_cons, hok, hfind, headD_cons, decide_false, map_some,
            getD_some, Prod.mk.injEq, hdif, and_false, false_or, false_iff, not_and]
          exact fun hnone => absurd hb.2 (hnone b (mem_cons_of_mem a hb.1))
        | none =>
          rw [find?_eq_none] at hfind
          have hsame : (clerkGet resp).2.2 = a.2.2 → (clerkGet resp).1 = "" := fun heq =>
            clerkGet_fst (heq ▸ hok)
          have hnone : ∀ answer ∈ a :: as, answer.2.2 ≠ .ok :=
            forall_mem_cons.mpr ⟨hok, by simpa using hfind⟩
          have hfind' : (a :: as).find? (fun answer => answer.2.2 = .ok) = none := by
            simpa using hnone
          rw [hfind', headD_cons, hval]
          simp only [map_none, getD_none, Prod.mk.injEq, hok, false_or]
          exact ⟨fun heq => ⟨hnone, heq.2⟩, fun heq => ⟨hsame heq.2, heq.2⟩⟩

theorem get_differs_from_view :
    let found : Option GetReply := some { value := "v", version := 1, err := .ok }
    let absent : Option GetReply := some { err := .noKey }
    let get := fun cs resp => ((calls (fun _ => 0) "t" cs).get resp "k").2
    get [(.delete "k", found)] found = ("", 1, .ok) ∧
      view "k" [(.delete "k", found)] found = ("", .noKey) ∧
      get [(.get "k", absent)] found = ("v", 1, .ok) ∧
      view "k" [(.get "k", absent)] found = ("", .noKey) := by
  decide +kernel

end TxHandle

end OrbisKV.KV
