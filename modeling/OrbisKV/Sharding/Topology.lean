import OrbisKV.Storage.Store
/-!
# Shard topology and routing table

`ShardTopology` maps a key to a shard and a shard to its owner group;
`ShardRouter` holds the topology that one client knows and corrects it by the
hints in replies.
-/

namespace OrbisKV.KV

open Std

/-- `ShardTopology`; the owner table has one entry for each shard. -/
structure ShardTopology where
  numShards : Nat
  epoch : Int64
  shardToGroup : List Int
  groups : ExtTreeMap Int (List String)
  pos : 0 < numShards
  size : shardToGroup.length = numShards

namespace ShardTopology

variable (hash : String → UInt64)

def shardForKey (st : ShardTopology) (key : String) : Fin st.shardToGroup.length :=
  ⟨(hash key).toNat % st.numShards, by rw [st.size]; exact Nat.mod_lt _ st.pos⟩

def resolve (st : ShardTopology) (key : String) : Int :=
  st.shardToGroup.get (st.shardForKey hash key)

def groupForShard (st : ShardTopology) (shard : Nat) : Option Int := st.shardToGroup[shard]?

def registerGroup (st : ShardTopology) (gid : Int) (replicas : List String) :
    ShardTopology × Bool :=
  if gid ≤ 0 ∨ replicas = [] then (st, false)
  else if gid ∈ st.groups then (st, true)
  else ({ st with groups := st.groups.insert gid replicas }, true)

def moveShard (st : ShardTopology) (shard : Int) (toGroup : Int) : ShardTopology × Bool :=
  if shard < 0 ∨ st.numShards ≤ shard then (st, false)
  else if toGroup ∉ st.groups then (st, false)
  else
    ({ st with
        shardToGroup := st.shardToGroup.set shard.toNat toGroup
        epoch := st.epoch + 1
        size := by rw [List.length_set]; exact st.size }, true)

end ShardTopology

/-- The fields of `ShardRouter` that routing reads; `groupsByID` as the set of its
ids. -/
structure ShardRouter where
  topology : ShardTopology
  groupsByID : ExtTreeSet Int

namespace ShardRouter

variable (hash : String → UInt64)

def resolve (r : ShardRouter) (key : String) : Int := r.topology.resolve hash key

/-- `learnHint`. -/
def learnHint (r : ShardRouter) (key : String) (gid : Int) (replicas : List String)
    (epoch : Int64) : ShardRouter :=
  if gid ≤ 0 ∨ replicas = [] ∨ epoch < r.topology.epoch then r
  else
    let known : ShardRouter :=
      if gid ∈ r.groupsByID then r
      else ⟨(r.topology.registerGroup gid replicas).1, r.groupsByID.insert gid⟩
    let shard := (known.topology.shardForKey hash key).val
    if known.topology.groupForShard shard = some gid then known
    else { known with topology := (known.topology.moveShard shard gid).1 }

end ShardRouter

end OrbisKV.KV
