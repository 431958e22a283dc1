import Mathlib.Algebra.Order.BigOperators.Group.Finset
import Mathlib.Data.Multiset.Count
import OrbisKV.Sharding.Convergence
/-!
# Planning for a new group

`PlanAddGroup` takes shards from the groups in the order of their ids, the last shard of a
group first, until the new group has its share.  Two counters say when to stop.
-/

namespace OrbisKV.KV

open Std ExtTreeMap Function List

namespace ShardTopology

def newShardTopologyWithOwnership (numShards : Int) (groups : ExtTreeMap Int (List String))
    (owners : List Int) (epoch : Int64) : Option ShardTopology :=
  if h : numShards < 1 ∨ groups.keys = [] ∨ (owners.length : Int) ≠ numShards then none
  else if owners.all (· ∈ groups) then
    some
      { numShards := numShards.toNat
        epoch := if 0 < epoch then epoch else 1
        shardToGroup := owners
        groups := groups
        pos := by omega
        size := by omega }
  else none

/-- The topologies that the constructors, `RegisterGroup` and `MoveShard` lead to. -/
inductive Built : ShardTopology → Prop
  | new (numShards : Nat) {groups : ExtTreeMap Int (List String)} (h : groups.keys ≠ []) :
      Built (newShardTopology numShards groups)
  | owned {numShards : Int} {groups : ExtTreeMap Int (List String)} {owners : List Int}
      {epoch : Int64} {st : ShardTopology}
      (h : newShardTopologyWithOwnership numShards groups owners epoch = some st) : Built st
  | register {st : ShardTopology} (h : Built st) (gid : Int) (replicas : List String) :
      Built (st.registerGroup gid replicas).1
  | move {st : ShardTopology} (h : Built st) (shard toGroup : Int) :
      Built (st.moveShard shard toGroup).1

/-- The variables of `PlanAddGroup`. -/
structure Plan where
  owners : List Int
  counts : Int → Nat
  moved : List Nat := []

namespace Plan

def lastShard (p : Plan) (g : Int) : Option Nat :=
  (List.range p.owners.length).reverse.find? fun shard => p.owners[shard]? = some g

/-- The inner loop, which looks for a shard from the end. -/
def take (gid source : Int) (p : Plan) : Plan :=
  match p.lastShard source with
  | none => p
  | some shard =>
    { owners := p.owners.set shard gid
      counts := update (update p.counts source (p.counts source - 1)) gid (p.counts gid + 1)
      moved := p.moved ++ [shard] }

/-- The loop over the shards of one group; it does not end where its counters are wrong. -/
def drain (target : Nat) (gid source : Int) : Nat → Plan → Option Plan
  | 0, _ => none
  | fuel + 1, p =>
    if target < p.counts source ∧ p.counts gid < target then
      drain target gid source fuel (p.take gid source)
    else some p

end Plan

/-- `PlanAddGroup`; `none` inside is its nil. -/
def planAddGroup (fuel : Nat) (st : ShardTopology) (gid : Int) (replicas : List String) :
    Option (Option (List Int × List Nat)) :=
  if gid ∈ st.groups ∨ replicas = [] then some none
  else
    let target := st.numShards / (st.groups.size + 1)
    let ids := (st.groups.keys ++ [gid]).mergeSort
    let start : Plan := ⟨st.shardToGroup, update (st.shardToGroup.count ·) gid 0, []⟩
    (ids.foldlM (fun p source => if source = gid then some p else p.drain target gid source fuel)
      start).map fun p => some (p.owners, p.moved)

theorem Built.owner_registered {st : ShardTopology} (h : Built st) :
    ∀ g ∈ st.shardToGroup, g ∈ st.groups := by
  induction h with
  | @new numShards groups h =>
    intro g hg
    obtain ⟨i, -, rfl⟩ := mem_map.mp hg
    have hlt : i % groups.keys.length < groups.keys.length := Nat.mod_lt _ (length_pos_iff.mpr h)
    rw [getD_eq_getElem?_getD, List.getElem?_eq_getElem hlt, Option.getD_some]
    exact ExtTreeMap.mem_keys.mp (getElem_mem hlt)
  | owned h =>
    unfold newShardTopologyWithOwnership at h
    split at h
    · cases h
    · split at h
      · rename_i hall
        cases h
        simpa using hall
      · cases h
  | @register st h gid replicas ih =>
    unfold registerGroup
    split_ifs
    · exact ih
    · exact ih
    · exact fun g hg => mem_insert.mpr (Or.inr (ih g hg))
  | @move st h shard toGroup ih =>
    unfold moveShard
    split
    · exact ih
    · split
      · exact ih
      · rename_i hgrp
        intro g hg
        rcases mem_or_eq_of_mem_set hg with hold | rfl
        · exact ih g hold
        · exact not_not.mp hgrp

namespace Plan

variable {p : Plan} {owners : List Int} {gid source : Int} {target : Nat}

/-- What the loops keep: the counters count, and the shards that changed their owner are
those that were noted, each once. -/
structure Fair (owners : List Int) (gid : Int) (target : Nat) (p : Plan) : Prop where
  counts : ∀ g, p.counts g = p.owners.count g
  length : p.owners.length = owners.length
  nodup : p.moved.Nodup
  owner : ∀ shard, p.owners[shard]? = if shard ∈ p.moved then some gid else owners[shard]?
  enough : ∀ g, g ≠ gid → p.counts g < owners.count g → target ≤ p.counts g
  quota : p.counts gid ≤ target

/-- Shards are given to the group and to no other. -/
structure Shifts (gid : Int) (p p' : Plan) : Prop where
  gains : p.counts gid ≤ p'.counts gid
  gives : ∀ g, g ≠ gid → p'.counts g ≤ p.counts g

theorem Shifts.refl (gid : Int) (p : Plan) : Shifts gid p p :=
  ⟨Nat.le_refl _, fun _ _ => Nat.le_refl _⟩

theorem Shifts.trans {p' p'' : Plan} (h : Shifts gid p p') (h' : Shifts gid p' p'') :
    Shifts gid p p'' :=
  ⟨h.gains.trans h'.gains, fun g hg => (h'.gives g hg).trans (h.gives g hg)⟩

theorem lastShard_spec (hpos : 0 < p.owners.count source) :
    ∃ shard, p.lastShard source = some shard ∧ p.owners[shard]? = some source := by
  cases hfind : p.lastShard source with
  | some shard => exact ⟨shard, rfl, by simpa using find?_some hfind⟩
  | none =>
    obtain ⟨shard, hsh⟩ := List.getElem?_of_mem (count_pos_iff.mp hpos)
    rw [lastShard, find?_eq_none] at hfind
    have hlt : shard < p.owners.length := by
      by_contra hge
      rw [List.getElem?_eq_none (Nat.le_of_not_lt hge)] at hsh
      cases hsh
    exact absurd (decide_eq_true hsh) (by simpa using hfind shard (by simpa using hlt))

section

variable (h : Fair owners gid target p)

include h

theorem Fair.take (hne : source ≠ gid) (hgid : gid ∉ owners)
    (hsource : target < p.counts source) (hroom : p.counts gid < target) :
    Fair owners gid target (p.take gid source) ∧
      (p.take gid source).counts source = p.counts source - 1 ∧
      Shifts gid p (p.take gid source) := by
  have hpos : 0 < p.owners.count source := by
    rw [← h.counts]
    omega
  obtain ⟨shard, hfind, hsh⟩ := lastShard_spec hpos
  have hlt : shard < p.owners.length := (List.getElem?_eq_some_iff.mp hsh).1
  have hnew : shard ∉ p.moved := by
    intro hmem
    rw [h.owner, if_pos hmem] at hsh
    exact hne (Option.some.inj hsh).symm
  unfold Plan.take
  rw [hfind]
  dsimp only
  refine ⟨⟨fun g => ?_, ?_, ?_, fun x => ?_, fun g hg hless => ?_, ?_⟩, ?_, ?_, fun g hg => ?_⟩
  · have hget : p.owners[shard] = source := (List.getElem?_eq_some_iff.mp hsh).2
    rw [count_set hlt, hget]
    by_cases hg : g = gid
    · subst hg
      simp [hne, h.counts]
    · by_cases hgs : g = source
      · subst hgs
        simp [Ne.symm hg, hg, h.counts]
      · simp [Ne.symm hg, hg, Ne.symm hgs, hgs, h.counts]
  · exact length_set.trans h.length
  · exact nodup_append.mpr ⟨h.nodup, nodup_singleton _, by
      intro a ha b hb heq
      rw [mem_singleton.mp hb] at heq
      exact hnew (heq ▸ ha)⟩
  · rw [List.getElem?_set]
    by_cases hx : shard = x
    · subst hx
      simp [hlt]
    · have hmem : x ∈ p.moved ++ [shard] ↔ x ∈ p.moved := by simp [Ne.symm hx]
      rw [if_neg hx, h.owner]
      simp only [hmem]
  · dsimp only at hless ⊢
    rw [update_of_ne hg] at hless ⊢
    by_cases hgs : g = source
    · subst hgs
      rw [update_self]
      omega
    · rw [update_of_ne hgs] at hless ⊢
      exact h.enough g hg hless
  · dsimp only
    rw [update_self]
    omega
  · rw [update_of_ne hne, update_self]
  · dsimp only
    rw [update_self]
    omega
  · dsimp only
    rw [update_of_ne hg]
    by_cases hgs : g = source
    · subst hgs
      rw [update_self]
      omega
    · rw [update_of_ne hgs]

theorem Fair.drain (hne : source ≠ gid) (hgid : gid ∉ owners)
    {fuel : Nat} (hfuel : p.counts source < fuel) :
    ∃ p', p.drain target gid source fuel = some p' ∧ Fair owners gid target p' ∧
      Shifts gid p p' ∧ (p'.counts source ≤ target ∨ target ≤ p'.counts gid) := by
  induction fuel generalizing p with
  | zero => omega
  | succ fuel ih =>
    rw [Plan.drain]
    by_cases hmore : target < p.counts source ∧ p.counts gid < target
    · obtain ⟨hfair, hsource, hshift⟩ := h.take hne hgid hmore.1 hmore.2
      obtain ⟨p', hdrain, hfair', hshift', hend⟩ := ih hfair (by omega)
      rw [if_pos hmore]
      exact ⟨p', hdrain, hfair', hshift.trans hshift', hend⟩
    · rw [if_neg hmore]
      exact ⟨p, rfl, h, .refl gid p, by omega⟩

theorem Fair.drainAll (hgid : gid ∉ owners) {fuel : Nat}
    (hfuel : ∀ g, g ≠ gid → p.counts g < fuel) (ids : List Int) :
    ∃ p', ids.foldlM (fun p source => if source = gid then some p
        else p.drain target gid source fuel) p = some p' ∧ Fair owners gid target p' ∧
      Shifts gid p p' ∧
      ∀ g ∈ ids, g ≠ gid → p'.counts g ≤ target ∨ target ≤ p'.counts gid := by
  induction ids generalizing p with
  | nil => exact ⟨p, rfl, h, .refl gid p, by simp⟩
  | cons source ids ih =>
    rw [foldlM_cons]
    by_cases hsource : source = gid
    · obtain ⟨p', hfold, hfair, hshift, hend⟩ := ih h hfuel
      rw [if_pos hsource]
      refine ⟨p', hfold, hfair, hshift, forall_mem_cons.mpr ⟨fun hne => ?_, hend⟩⟩
      exact absurd hsource hne
    · obtain ⟨mid, hdrain, hmid, hfirst, hdone⟩ := h.drain hsource hgid (hfuel source hsource)
      obtain ⟨p', hfold, hfair, hshift, hend⟩ :=
        ih hmid fun g hg => (hfirst.gives g hg).trans_lt (hfuel g hg)
      rw [if_neg hsource, hdrain]
      refine ⟨p', hfold, hfair, hfirst.trans hshift, forall_mem_cons.mpr ⟨fun hne => ?_, hend⟩⟩
      exact hdone.imp (hshift.gives source hne).trans (·.trans hshift.gains)

theorem Fair.full {groups : ExtTreeMap Int (List String)} (howners : ∀ g ∈ owners, g ∈ groups)
    (hnew : gid ∉ groups) (htarget : (groups.size + 1) * target ≤ owners.length)
    (hend : ∀ g ∈ groups, p.counts g ≤ target ∨ target ≤ p.counts gid) : p.counts gid = target := by
  refine Nat.le_antisymm h.quota (Nat.le_of_not_lt fun hless => ?_)
  have hall : ∀ g ∈ (p.owners : Multiset Int), g ∈ insert gid groups.keys.toFinset := by
    intro g hg
    obtain ⟨shard, hsh⟩ := List.getElem?_of_mem (Multiset.mem_coe.mp hg)
    rw [h.owner] at hsh
    split at hsh
    · cases hsh
      exact Finset.mem_insert_self _ _
    · refine Finset.mem_insert_of_mem (mem_toFinset.mpr (ExtTreeMap.mem_keys.mpr ?_))
      exact howners g (mem_of_getElem? hsh)
  have hout : gid ∉ groups.keys.toFinset := by
    rw [mem_toFinset, ExtTreeMap.mem_keys]
    exact hnew
  have hsum := Multiset.sum_count_eq_card hall
  rw [Finset.sum_insert hout, Multiset.coe_card, h.length] at hsum
  have hothers : ∑ g ∈ groups.keys.toFinset, Multiset.count g (p.owners : Multiset Int) ≤
      groups.size * target := by
    refine (Finset.sum_le_card_nsmul _ _ target fun g hg => ?_).trans ?_
    · rw [mem_toFinset, ExtTreeMap.mem_keys] at hg
      rw [Multiset.coe_count, ← h.counts]
      exact (hend g hg).resolve_right (Nat.not_le.mpr hless)
    · rw [Nat.nsmul_eq_mul, ← length_keys]
      exact Nat.mul_le_mul_right _ (toFinset_card_le _)
  rw [Multiset.coe_count, ← h.counts] at hsum
  rw [Nat.add_mul, Nat.one_mul] at htarget
  omega

end

end Plan

def sampleGroups : ExtTreeMap Int (List String) :=
  (∅ : ExtTreeMap Int (List String)).insert 1 ["a"] |>.insert 2 ["b"]

end ShardTopology

end OrbisKV.KV
