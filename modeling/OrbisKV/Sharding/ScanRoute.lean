import Mathlib.Data.String.Basic
import OrbisKV.KV.Server
/-!
# Scans over all groups

Every group cuts its list to the limit before it drops expired entries, and the router
sorts the lists of the groups together and cuts again.
-/

namespace OrbisKV.KV

open List Option

/-- A group that a scan reaches, with the clock of the replica that answers, if one does. -/
structure ScannedGroup where
  kv : KVServer
  now : Option Int64

namespace ScannedGroup

def scanGroup (g : ScannedGroup) (args : ScanArgs) : Option (List ScanItem) :=
  g.now.bind fun now =>
    let reply := g.kv.doScan now args
    if reply.err = .wrongLeader then none else some reply.items

/-- All entries of the group with the given start, in key order. -/
def matching (g : ScannedGroup) (pre : String) : List ScanItem :=
  (g.kv.store.scanPrefix pre 0).map fun item =>
    ⟨item.1, item.2.value, item.2.version.toInt64, item.2.expires⟩

/-- What the group lists: the first documents without those that have expired. -/
def listed (g : ScannedGroup) (args : ScanArgs) : List ScanItem :=
  ((g.matching args.pre).take args.limit.toNat).filter fun item =>
    g.now.all fun now => !isExpired item.expires now

/-- The entries that a scan should find. -/
def live (g : ScannedGroup) (pre : String) : List ScanItem :=
  (g.matching pre).filter fun item =>
    isUserKey item.key && g.now.all fun now => !isExpired item.expires now

end ScannedGroup

def ScanItem.le (a b : ScanItem) : Bool :=
  if a.key = b.key then a.version ≤ b.version else a.key ≤ b.key

/-- `ScanRoute` over the groups in the order of their ids. -/
def scanRoute (groups : List ScannedGroup) (args : ScanArgs) : Option (List ScanItem) :=
  match groups with
  | [] => none
  | [g] => g.scanGroup args
  | groups =>
    (groups.mapM (ScannedGroup.scanGroup · args)).map fun results =>
      let all := results.flatten.mergeSort ScanItem.le
      if 0 < args.limit ∧ args.limit < all.length then all.take args.limit.toNat else all

/-- The items are the first of those that `truth` has, by their keys. -/
structure FirstPage (truth : String → Option ScanItem) (limit : Nat) (items : List ScanItem) :
    Prop where
  ascending : items.Pairwise fun a b => a.key < b.key
  true : ∀ item ∈ items, truth item.key = some item
  length : items.length ≤ limit
  first : ∀ key item, truth key = some item →
    item ∈ items ∨ items.length = limit ∧ ∀ x ∈ items, x.key < key

/-- The entry of the key, that of its owner if several groups have one. -/
def scanTruth (owner : String → Nat) (pre : String) (groups : List ScannedGroup) (key : String) :
    Option ScanItem :=
  (groups[owner key]?.bind fun g => (g.live pre).find? (·.key = key)).or
    ((groups.flatMap (·.live pre)).find? (·.key = key))

/-- What all groups list, in the order of the router. -/
def listing (groups : List ScannedGroup) (args : ScanArgs) : List ScanItem :=
  (groups.flatMap (·.listed args)).mergeSort ScanItem.le

/-- A key that has fewer than `limit` listed items in front of it is listed with its true entry
alone, as far as the limit goes. -/
def ListedTruly (truth : String → Option ScanItem) (limit : Nat) (listing : List ScanItem) : Prop :=
  ∀ key, listing.countP (·.key < key) < limit →
    (listing.filter (·.key = key)).take (limit - listing.countP (·.key < key)) = (truth key).toList

namespace ScannedGroup

variable {g : ScannedGroup} {args : ScanArgs} {items : List ScanItem} {pre : String}

theorem matching_ascending (g : ScannedGroup) (pre : String) :
    (g.matching pre).Pairwise fun a b => a.key < b.key := by
  unfold matching Store.scanPrefix
  rw [if_neg (by decide), pairwise_map]
  refine List.Pairwise.filterMap _ ?_
    ((Std.ExtTreeMap.ordered_keys_toList (t := g.kv.store)).filter fun item => hasPrefix item.1 pre)
  intro a b hab a' ha b' hb
  obtain ⟨e, -, rfl⟩ := map_eq_some_iff.mp ha
  obtain ⟨e', -, rfl⟩ := map_eq_some_iff.mp hb
  exact compareOfLessAndEq_eq_lt.mp hab

theorem scanGroup_eq (hlimit : 0 < args.limit) (h : g.scanGroup args = some items) :
    items = g.listed args := by
  obtain ⟨now, hnow, hreply⟩ := Option.bind_eq_some_iff.mp h
  unfold KVServer.doScan at hreply
  have hcut : g.kv.store.scanPrefix args.pre args.limit =
      (g.kv.store.scanPrefix args.pre 0).take args.limit.toNat := by
    simp [Store.scanPrefix, hlimit]
  rw [listed, matching, hnow, ← List.map_take, List.filter_map, ← hcut]
  cases hdead : g.kv.dead <;> simp [hdead] at hreply
  exact hreply.symm

theorem mapM_scanGroup {groups : List ScannedGroup} {results : List (List ScanItem)}
    (hlimit : 0 < args.limit) (h : groups.mapM (scanGroup · args) = some results) :
    results = groups.map (·.listed args) := by
  induction groups generalizing results with
  | nil =>
    cases h
    rfl
  | cons g groups ih =>
    rw [mapM_cons] at h
    obtain ⟨items, hitems, h⟩ := Option.bind_eq_some_iff.mp h
    obtain ⟨rest, hrest, h⟩ := Option.bind_eq_some_iff.mp h
    cases h
    rw [map_cons, ← scanGroup_eq hlimit hitems, ← ih hrest]

end ScannedGroup

namespace ScanItem

theorem le_trans (a b c : ScanItem) (hab : a.le b = true) (hbc : b.le c = true) :
    a.le c = true := by
  unfold ScanItem.le at *
  grind

theorem le_of_key_lt {a b : ScanItem} (h : a.key < b.key) : a.le b = true := by
  rw [ScanItem.le, if_neg (ne_of_lt h)]
  exact decide_eq_true (le_of_lt h)

theorem le_total (a b : ScanItem) : (a.le b || b.le a) = true := by
  unfold ScanItem.le
  grind

end ScanItem

section

variable {l : List ScanItem} {n : Nat} {truth : String → Option ScanItem} {key : String}

/-- In a sorted list the items of a key stand behind those of all smaller keys, so a cut leaves
as many of them as there is room behind these. -/
theorem filter_take (hsorted : l.Pairwise fun a b => a.key ≤ b.key) (n : Nat) (key : String) :
    (l.take n).filter (·.key = key) =
      (l.filter (·.key = key)).take (n - l.countP (·.key < key)) := by
  induction l generalizing n with
  | nil => simp
  | cons a l ih =>
    obtain ⟨hfirst, hrest⟩ := pairwise_cons.mp hsorted
    cases n with
    | zero => simp
    | succ n =>
      rw [take_succ_cons, countP_cons]
      rcases lt_trichotomy a.key key with hlt | rfl | hgt
      · simp [hlt, hlt.ne, ih hrest n]
      · have hnone : l.countP (·.key < a.key) = 0 :=
          countP_eq_zero.mpr fun x hx hlt => not_lt.mpr (hfirst x hx) (of_decide_eq_true hlt)
        rw [filter_cons_of_pos (by simp), filter_cons_of_pos (by simp), ih hrest n, hnone,
          decide_eq_false (lt_irrefl a.key)]
        rfl
      · have hnone : l.filter (·.key = key) = [] :=
          filter_eq_nil_iff.mpr fun x hx => by simpa using (hgt.trans_le (hfirst x hx)).ne'
        simp [hgt.ne', ih hrest n, hnone]

theorem count_of_mem_take (hsorted : l.Pairwise fun a b => a.key ≤ b.key) {x : ScanItem}
    (hx : x ∈ l.take n) : l.countP (·.key < x.key) < n := by
  have hmem : x ∈ (l.take n).filter (·.key = x.key) := mem_filter.mpr ⟨hx, by simp⟩
  rw [filter_take hsorted] at hmem
  have hpos := length_pos_of_mem hmem
  rw [length_take] at hpos
  omega

theorem FirstPage.filter_eq {items : List ScanItem} (h : FirstPage truth n items) {x : ScanItem}
    (hx : x ∈ items) : items.filter (·.key = x.key) = [x] := by
  have hmem : x ∈ items.filter (·.key = x.key) := mem_filter.mpr ⟨hx, by simp⟩
  have hasc := h.ascending.sublist (filter_sublist (p := fun y => decide (y.key = x.key)))
  have hkeys : ∀ y ∈ items.filter (·.key = x.key), y.key = x.key := fun y hy => by
    simpa using (mem_filter.mp hy).2
  match hfound : items.filter (·.key = x.key) with
  | [] =>
    rw [hfound] at hmem
    cases hmem
  | [y] =>
    rw [hfound] at hmem
    obtain rfl := mem_singleton.mp hmem
    exact hfound
  | y :: z :: rest =>
    rw [hfound] at hasc hkeys
    have hlt := (pairwise_cons.mp hasc).1 z mem_cons_self
    rw [hkeys y mem_cons_self, hkeys z (by simp)] at hlt
    exact absurd hlt (lt_irrefl _)

theorem FirstPage.listedTruly (htruth : ∀ key x, truth key = some x → x.key = key)
    (hsorted : l.Pairwise fun a b => a.key ≤ b.key) (h : FirstPage truth n (l.take n)) :
    ListedTruly truth n l := by
  intro key hcount
  rw [← filter_take hsorted]
  cases hkey : truth key with
  | none =>
    refine filter_eq_nil_iff.mpr fun x hx hx' => ?_
    have hentry := h.true x hx
    rw [decide_eq_true_eq.mp hx', hkey] at hentry
    cases hentry
  | some x =>
    rcases h.first key x hkey with hmem | ⟨hlength, hall⟩
    · rw [← htruth key x hkey]
      exact h.filter_eq hmem
    · have hle := (take_sublist n l).countP_le (p := fun y => decide (y.key < key))
      rw [countP_eq_length.mpr (by simpa using hall), hlength] at hle
      omega

theorem ListedTruly.firstPage (hsorted : l.Pairwise fun a b => a.key ≤ b.key)
    (h : ListedTruly truth n l) : FirstPage truth n (l.take n) := by
  have honly : ∀ x ∈ l.take n, (l.take n).filter (·.key = x.key) = (truth x.key).toList :=
    fun x hx => (filter_take hsorted n x.key).trans (h x.key (count_of_mem_take hsorted hx))
  refine ⟨?_, fun x hx => ?_, length_take_le n l, fun key x hkey => ?_⟩
  · rw [pairwise_iff_forall_sublist]
    intro a b hab
    have hle : a.key ≤ b.key :=
      pairwise_iff_forall_sublist.mp hsorted (hab.trans (take_sublist n l))
    refine lt_of_le_of_ne hle fun heq => ?_
    have htwo := hab.filter (·.key = a.key)
    rw [honly a (hab.subset (by simp))] at htwo
    have hshort : (truth b.key).toList.length ≤ 1 := by cases truth b.key <;> simp
    have hlength := htwo.length_le
    simp only [heq, decide_true, filter_cons_of_pos, filter_nil, length_cons] at hlength
    omega
  · have hmem : x ∈ (l.take n).filter (·.key = x.key) := mem_filter.mpr ⟨hx, by simp⟩
    rw [honly x hx] at hmem
    exact mem_toList.mp hmem
  · by_cases hcount : l.countP (·.key < key) < n
    · have hfound := h key hcount
      rw [← filter_take hsorted, hkey] at hfound
      have hmem : x ∈ (l.take n).filter (·.key = key) := by
        rw [hfound]
        exact mem_singleton_self x
      exact Or.inl (mem_filter.mp hmem).1
    · refine Or.inr ⟨?_, fun y hy => ?_⟩
      · have hle := countP_le_length (p := fun y : ScanItem => decide (y.key < key)) (l := l)
        rw [length_take]
        omega
      · by_contra hlate
        have hmono : l.countP (·.key < key) ≤ l.countP (·.key < y.key) :=
          countP_mono_left fun z _ hz => by
            simpa using (of_decide_eq_true hz).trans_le (not_lt.mp hlate)
        have hbefore := count_of_mem_take hsorted hy
        omega

end

theorem key_of_scanTruth {owner : String → Nat} {pre : String} {groups : List ScannedGroup}
    (key : String) (x : ScanItem) (h : scanTruth owner pre groups key = some x) : x.key = key := by
  rcases or_eq_some_iff.mp h with h | ⟨-, h⟩
  · obtain ⟨g, -, h⟩ := Option.bind_eq_some_iff.mp h
    simpa using find?_some h
  · simpa using find?_some h

theorem listing_sorted (groups : List ScannedGroup) (args : ScanArgs) :
    (listing groups args).Pairwise fun a b => a.key ≤ b.key := by
  refine (pairwise_mergeSort ScanItem.le_trans ScanItem.le_total _).imp fun {a b} hle => ?_
  rw [ScanItem.le] at hle
  split_ifs at hle with heq
  · exact heq.le
  · exact of_decide_eq_true hle

/-- The router cuts what the groups list, also where there is one group only. -/
theorem scanRoute_eq {groups : List ScannedGroup} {args : ScanArgs} {items : List ScanItem}
    (hlimit : 0 < args.limit) (h : scanRoute groups args = some items) :
    items = (listing groups args).take args.limit.toNat := by
  unfold scanRoute at h
  split at h
  · cases h
  · rename_i g
    have hshort : (g.listed args).length ≤ args.limit.toNat :=
      (length_filter_le _ _).trans (length_take_le _ _)
    have hsorted : (g.listed args).Pairwise fun a b => a.le b = true :=
      ((g.matching_ascending args.pre).sublist (filter_sublist.trans
        (take_sublist _ _))).imp ScanItem.le_of_key_lt
    rw [listing, flatMap_singleton, mergeSort_of_pairwise hsorted,
      take_of_length_le hshort, ScannedGroup.scanGroup_eq hlimit h]
  · obtain ⟨results, hresults, rfl⟩ := map_eq_some_iff.mp h
    rw [ScannedGroup.mapM_scanGroup hlimit hresults, ← flatMap_def]
    dsimp only
    split_ifs with hlong
    · rfl
    · rw [listing, take_of_length_le (by omega)]

/-- A group with two entries that expire as given. -/
def scanned (expires expires' : Int64) : ScannedGroup :=
  ⟨newKVServer 0 ((Std.ExtTreeMap.empty.insert "a" (.entry ⟨"1", 1, expires⟩)).insert "b"
    (.entry ⟨"2", 1, expires'⟩)), some 5⟩

end OrbisKV.KV
