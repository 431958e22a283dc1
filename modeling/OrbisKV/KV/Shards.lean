import OrbisKV.KV.Api
import Mathlib.Data.List.FinRange
/-!
# Shard states of a group

The map of `shardStateManager` is filled for every shard below `numShards` when
it is made and only ever assigned at such shards, so it is a function on
`Fin numShards`.
-/

namespace OrbisKV.KV

def numShards : Nat := 1024

structure ShardMeta where
  state : ShardState
  targetGroup : Int := 0
  targetReplicas : List String := []
deriving DecidableEq, Repr

structure ShardStateManager where
  states : Fin numShards → ShardMeta
  epoch : Int64

/-- `shardStateSnapshot`, with the JSON object of the states as its members. -/
structure ShardStateSnapshot where
  epoch : Int64
  states : List (Int × ShardMeta)
deriving DecidableEq

def newShardStateManager : ShardStateManager := ⟨fun _ => ⟨.owned, 0, []⟩, 1⟩

namespace ShardStateManager

def validateShardID (shardID : Int64) : Except String (Fin numShards) :=
  if h : 0 ≤ shardID.toInt ∧ shardID.toInt < numShards then .ok ⟨shardID.toInt.toNat, by omega⟩
  else .error ("shard " ++ toString shardID ++ " out of range [0," ++ toString numShards ++ ")")

def setShardState (ssm : ShardStateManager) (args : SetShardStateArgs) :
    Except String ShardStateManager :=
  match validateShardID args.shardID with
  | .error e => .error e
  | .ok shard =>
    .ok { states := fun i =>
            if i = shard then ⟨args.state, args.targetGroup, args.targetReplicas⟩
            else ssm.states i
          epoch := if ssm.epoch < args.topologyEpoch then args.topologyEpoch else ssm.epoch }

def snapshot (ssm : ShardStateManager) : ShardStateSnapshot :=
  ⟨ssm.epoch, (List.finRange numShards).map fun i => ((i.val : Int), ssm.states i)⟩

def outOfRange (item : Int × ShardMeta) : Bool := item.1 < 0 || (numShards : Int) ≤ item.1

/-- `Restore`: refuses a snapshot that does not have one state for every shard. -/
def restore (snapshot : ShardStateSnapshot) : Except String ShardStateManager :=
  if snapshot.states.length ≠ numShards then
    .error ("shard snapshot contains " ++ toString snapshot.states.length ++ " states, want "
      ++ toString numShards)
  else
    match snapshot.states.find? outOfRange with
    | some item =>
      .error ("shard snapshot id " ++ toString item.1 ++ " out of range [0,"
        ++ toString numShards ++ ")")
    | none =>
      .ok ⟨fun i => (snapshot.states.lookup (i.val : Int)).getD ⟨.owned, 0, []⟩, snapshot.epoch⟩

theorem lookup_map_val (states : Fin numShards → ShardMeta) (i : Fin numShards)
    (shards : List (Fin numShards)) (hi : i ∈ shards) :
    (shards.map fun j => ((j.val : Int), states j)).lookup (i.val : Int) = some (states i) := by
  induction shards with
  | nil => cases hi
  | cons j rest ih =>
    by_cases hij : i = j
    · subst hij
      simp
    · have hval : ((i.val : Int) == (j.val : Int)) = false := by
        rw [beq_eq_false_iff_ne]
        omega
      have hrest : i ∈ rest := (List.mem_cons.mp hi).resolve_left hij
      rw [List.map_cons, List.lookup_cons, hval]
      exact ih hrest

theorem restore_snapshot (ssm : ShardStateManager) : restore ssm.snapshot = .ok ssm := by
  have hlen : ssm.snapshot.states.length = numShards := by simp [snapshot]
  have hrange : ssm.snapshot.states.find? outOfRange = none := by
    rw [List.find?_eq_none]
    intro item hitem
    simp only [snapshot, List.mem_map] at hitem
    obtain ⟨i, -, rfl⟩ := hitem
    simp only [outOfRange, Bool.or_eq_true, decide_eq_true_eq, not_or]
    omega
  have hloo : ∀ i : Fin numShards,
      ssm.snapshot.states.lookup (i.val : Int) = some (ssm.states i) := by
    intro i
    simp only [snapshot]
    exact lookup_map_val ssm.states i (List.finRange numShards) (List.mem_finRange i)
  simp only [restore, hlen, hrange, hloo, ne_eq, not_true_eq_false, if_false, Option.getD_some]
  rfl

end ShardStateManager

end OrbisKV.KV
