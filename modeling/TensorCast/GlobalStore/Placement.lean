import TensorCast.Core.Status

/-!
# Placement of shards by stable headroom

`PlacementService.plan_placement` leaves every shard on the source node and, unless the policy is
`local_only`, gives it to one more node out of those whose stable headroom is larger than the shard.
-/

namespace TensorCast.GlobalStore.Placement

open List

structure WorkerMemoryTierState where
  stableTotalBytes : ℤ
  stableUsedBytes : ℤ

structure Worker where
  nodeId : String
  memoryTierState : Option WorkerMemoryTierState

inductive PlacementPolicy
  | localOnly
  | replicated
  | sharded
deriving DecidableEq

structure PlacementShard where
  shardIdx : ℕ
  sizeBytes : ℕ
  degradedReason : Option String := none

structure PlacementTarget where
  shardIdx : ℕ
  nodeId : String

structure PlacementPlan where
  shards : List PlacementShard := []
  targets : List PlacementTarget := []
  degradedReason : Option String := none

/-- `_has_stable_capacity`. -/
def hasStableCapacity (worker : Worker) (requiredBytes : ℕ) : Bool :=
  if requiredBytes = 0 then true
  else match worker.memoryTierState with
    | none => false
    | some tier => (requiredBytes : ℤ) < tier.stableTotalBytes - tier.stableUsedBytes

section Plan

variable (activeWorkers : List Worker) (policy : PlacementPolicy) (sourceNodeId : String)

def remoteCandidates (shard : PlacementShard) : List Worker :=
  activeWorkers.filter fun w =>
    w.nodeId ≠ sourceNodeId ∧ hasStableCapacity w shard.sizeBytes = true

/-- The worker `remote_candidates[shard_idx % len(remote_candidates)]`, if the policy asks for one
and there is one. -/
def remote (shard : PlacementShard) : Option Worker :=
  let candidates := remoteCandidates activeWorkers sourceNodeId shard
  if policy = .localOnly then none else candidates[shard.shardIdx % candidates.length]?

def shardReason (shard : PlacementShard) : Option String :=
  if policy ≠ .localOnly ∧ (remoteCandidates activeWorkers sourceNodeId shard).isEmpty then
    some "insufficient_remote_capacity"
  else none

def shardModel (shard : PlacementShard) : PlacementShard :=
  { shard with
    degradedReason := (shardReason activeWorkers policy sourceNodeId shard).or shard.degradedReason }

/-- A round of the loop, which appends to the lists of the plan. -/
def placeShard (plan : PlacementPlan) (shard : PlacementShard) : PlacementPlan :=
  { shards := plan.shards ++ [shardModel activeWorkers policy sourceNodeId shard]
    targets := plan.targets ++ ⟨shard.shardIdx, sourceNodeId⟩ ::
      (remote activeWorkers policy sourceNodeId shard).toList.map
        fun w => ⟨shard.shardIdx, w.nodeId⟩
    degradedReason := plan.degradedReason.or (shardReason activeWorkers policy sourceNodeId shard) }

/-- `plan_placement`.  There is no plan if two shards have one index, which is the primary key of
their rows in `upsert_plan`. -/
def planPlacement (shards : List PlacementShard) : Option PlacementPlan :=
  if (shards.map (·.shardIdx)).Nodup then
    some (shards.foldl (placeShard activeWorkers policy sourceNodeId) {})
  else none

/-! ## What a node is given -/

/-- The shards that fall to a node. -/
def crowd (shards : List PlacementShard) (node : String) : List PlacementShard :=
  shards.filter fun s => ∃ w ∈ remote activeWorkers policy sourceNodeId s, w.nodeId = node

end Plan

def Worker.headroom (w : Worker) : ℕ :=
  match w.memoryTierState with
  | none => 0
  | some tier => (tier.stableTotalBytes - tier.stableUsedBytes).toNat

/-- The stable headroom of a node, over its workers. -/
def stableHeadroom (activeWorkers : List Worker) (node : String) : ℕ :=
  ((activeWorkers.filter (·.nodeId = node)).map Worker.headroom).sum

/-- The bytes of the shards that have the node as a target. -/
def PlacementPlan.assignedBytes (plan : PlacementPlan) (node : String) : ℕ :=
  ((plan.shards.filter fun s =>
    ∃ t ∈ plan.targets, t.shardIdx = s.shardIdx ∧ t.nodeId = node).map (·.sizeBytes)).sum

variable {activeWorkers : List Worker} {policy : PlacementPolicy} {sourceNodeId node : String}
  {shard : PlacementShard} {shards : List PlacementShard} {plan : PlacementPlan} {w : Worker}

lemma remote_mem (h : w ∈ remote activeWorkers policy sourceNodeId shard) :
    w ∈ activeWorkers ∧ w.nodeId ≠ sourceNodeId ∧ hasStableCapacity w shard.sizeBytes = true := by
  simp only [remote, Option.mem_def] at h
  split_ifs at h
  simpa [remoteCandidates] using mem_of_getElem? h

lemma le_headroom {bytes : ℕ} (h : hasStableCapacity w bytes = true) : bytes ≤ w.headroom := by
  unfold hasStableCapacity at h
  unfold Worker.headroom
  split_ifs at h with h0
  · omega
  · cases ht : w.memoryTierState with
    | none => simp [ht] at h
    | some tier =>
      simp only [ht, decide_eq_true_eq] at h
      simp only
      omega

/-- A shard alone fits on the node that it falls to. -/
lemma sizeBytes_le_stableHeadroom (h : w ∈ remote activeWorkers policy sourceNodeId shard) :
    shard.sizeBytes ≤ stableHeadroom activeWorkers w.nodeId := by
  obtain ⟨hmem, -, hcapacity⟩ := remote_mem h
  refine (le_headroom hcapacity).trans (single_le_sum (fun _ _ => Nat.zero_le _) _ ?_)
  exact mem_map_of_mem (mem_filter.mpr ⟨hmem, by simp⟩)

variable (activeWorkers policy sourceNodeId) in
lemma foldl_placeShard (shards : List PlacementShard) (plan : PlacementPlan) :
    let after := shards.foldl (placeShard activeWorkers policy sourceNodeId) plan
    after.targets = plan.targets ++
        shards.flatMap (fun s => (placeShard activeWorkers policy sourceNodeId {} s).targets) ∧
      after.shards = plan.shards ++ shards.map (shardModel activeWorkers policy sourceNodeId) := by
  induction shards generalizing plan with
  | nil => simp
  | cons shard shards ih => simp [ih, placeShard]

/-- The bytes that a remote node is given are those of its crowd. -/
lemma assignedBytes_eq (h : planPlacement activeWorkers policy sourceNodeId shards = some plan)
    (hnode : node ≠ sourceNodeId) : plan.assignedBytes node =
      ((crowd activeWorkers policy sourceNodeId shards node).map (·.sizeBytes)).sum := by
  unfold planPlacement at h
  split_ifs at h with hnodup
  obtain rfl := Option.some.inj h
  obtain ⟨htargets, hshards⟩ := foldl_placeShard activeWorkers policy sourceNodeId shards {}
  have hcrowd : crowd activeWorkers policy sourceNodeId shards node = shards.filter fun s =>
      ∃ t ∈ shards.flatMap fun s => (placeShard activeWorkers policy sourceNodeId {} s).targets,
        t.shardIdx = s.shardIdx ∧ t.nodeId = node := by
    refine filter_congr fun s hs => decide_eq_decide.mpr ⟨?_, ?_⟩
    · rintro ⟨w, hw, rfl⟩
      have ht : ⟨s.shardIdx, w.nodeId⟩ ∈
          (placeShard activeWorkers policy sourceNodeId {} s).targets := by
        simpa [placeShard] using .inr ⟨w, hw, rfl⟩
      exact ⟨_, mem_flatMap.mpr ⟨s, hs, ht⟩, rfl, rfl⟩
    · rintro ⟨t, ht, hidx, rfl⟩
      obtain ⟨s', hs', ht⟩ := mem_flatMap.mp ht
      simp only [placeShard, nil_append, mem_cons, mem_map, Option.mem_toList] at ht
      rcases ht with rfl | ⟨w, hw, rfl⟩
      · exact absurd rfl hnode
      · -- the shards have different indices
        obtain rfl := inj_on_of_nodup_map hnodup hs' hs hidx
        exact ⟨w, hw, rfl⟩
  rw [PlacementPlan.assignedBytes, hshards, htargets, hcrowd, nil_append, nil_append,
    filter_map, map_map]
  rfl

/-- One node besides the source, with a headroom of ten bytes. -/
def lone : List Worker := [⟨"node-b", some ⟨10, 0⟩⟩]

end TensorCast.GlobalStore.Placement
