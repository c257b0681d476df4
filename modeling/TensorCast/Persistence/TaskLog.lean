import Mathlib

/-!
# The persistence task log

`PersistenceManager` appends a line of JSON to its task log each time a task changes, and a restart
resumes the tasks it reads back.  A line is written from the fields of the task, each number at its
own width; it is read with `json::value`, at the type of the default that stands beside it: `0` is an
`int` and `0u` an `unsigned`, also where the field is a `uint64_t`.
-/

namespace TensorCast.Persistence

/-- A JSON value as the library keeps it: integers and texts exactly, a `double` by its bits. -/
inductive Json
  | boolean (value : Bool)
  | number (value : ℤ)
  | double (bits : UInt64)
  | string (text : String)
  | array (items : List Json)
  | object (fields : List (String × Json))

namespace Json

def asInt (n : ℤ) : ℤ :=
  n.bmod (2 ^ 32)

def asUnsigned (n : ℤ) : ℤ :=
  n % 2 ^ 32

/-- `json::value`: the field of an object, or the default; `none` is the exception for another kind. -/
def value {α : Type} (get : Json → Option α) (j : Json) (key : String) (default : α) : Option α :=
  match j with
  | object fields => (fields.lookup key).elim (some default) get
  | _ => none

def getText : Json → Option String
  | string text => some text
  | _ => none

def getInt : Json → Option ℤ
  | number n => some (asInt n)
  | _ => none

def getChunkId : Json → Option UInt32
  | number n => some (UInt64.ofInt n).toUInt32
  | _ => none

def text (j : Json) (key : String) : Option String :=
  j.value getText key ""

def int (j : Json) (key : String) : Option ℤ :=
  j.value getInt key 0

def unsigned (j : Json) (key : String) : Option ℤ :=
  j.value (fun | number n => some (asUnsigned n) | _ => none) key 0

def bool (j : Json) (key : String) : Option Bool :=
  j.value (fun | boolean value => some value | _ => none) key false

def real (j : Json) (key : String) : Option UInt64 :=
  j.value (fun | double bits => some bits | _ => none) key 0

def items (j : Json) (key : String) : Option (List Json) :=
  j.value (fun | array items => some items | _ => none) key []

end Json

open Json UInt64 Option UInt32

-- The enumerations of the protocol are open: a cast takes any number to the enumeration, so
-- they stand by their numbers.
structure PersistenceTargetState where
  nodeId : String := ""
  leaseId : String := ""
  targetState : Int32 := 1
  degradedReason : String := ""
  isSharedDisk : Bool := false
  attempts : UInt32 := 0
  cooldownTicks : UInt32 := 0
  leaseAcked : Bool := false
  replicaRegistered : Bool := false

structure PersistenceShardState where
  shardId : String := ""
  shardIdx : UInt32 := 0
  byteRangeStart : UInt64 := 0
  byteRangeLength : UInt64 := 0
  sizeBytes : UInt64 := 0
  contentDigest : String := ""
  chunkIds : List UInt32 := []
  state : Int32 := 1
  progress : UInt64 := 0
  degradedReason : String := ""
  lastError : String := ""
  targets : List PersistenceTargetState := []

structure VerifiedContentDescriptor where
  layoutKind : UInt8
  layoutValue : String
  logicalSizeBytes : UInt64
  digestAlg : String
  digestBytes : List UInt8

structure PersistenceTaskState where
  taskId : String
  planId : String := ""
  artifactId : String := ""
  sourceArtifactId : String := ""
  verifiedContentDescriptor : Option VerifiedContentDescriptor := none
  keyHint : String := ""
  placementPolicy : Int32 := 0
  persistToSharedDisk : Bool := false
  remoteRequirement : UInt8 := 0
  sharedDiskRequirement : UInt8 := 0
  layout : Int32 := 1
  state : Int32 := 1
  progress : UInt64 := 0
  degradedReason : String := ""
  lastError : String := ""
  shards : List PersistenceShardState := []
  totalSizeBytes : UInt64 := 0
  diskRelativePath : String := ""
  diskDirectoryReady : Bool := false
  diskMetadataWritten : Bool := false
  diskLocationRegistered : Bool := false
  byKeyLinked : Bool := false

/-- `content_digest_bytes_to_hex` and `absl::HexStringToBytes`: what is written is read back. -/
structure Hex where
  ofBytes : List UInt8 → String
  toBytes : String → Option (List UInt8)
  toBytes_ofBytes (bytes : List UInt8) : toBytes (ofBytes bytes) = some bytes
  ofBytes_eq_empty (bytes : List UInt8) : ofBytes bytes = "" → bytes = []

variable (hex : Hex)

def targetToJson (target : PersistenceTargetState) : Json :=
  .object [("node_id", .string target.nodeId), ("lease_id", .string target.leaseId),
    ("state", .number target.targetState.toInt),
    ("degraded_reason", .string target.degradedReason),
    ("is_shared_disk", .boolean target.isSharedDisk),
    ("attempts", .number target.attempts.toNat),
    ("cooldown_ticks", .number target.cooldownTicks.toNat),
    ("lease_acked", .boolean target.leaseAcked),
    ("replica_registered", .boolean target.replicaRegistered)]

def shardToJson (shard : PersistenceShardState) : Json :=
  .object [("shard_id", .string shard.shardId), ("shard_idx", .number shard.shardIdx.toNat),
    ("byte_range_start", .number shard.byteRangeStart.toNat),
    ("byte_range_length", .number shard.byteRangeLength.toNat),
    ("size_bytes", .number shard.sizeBytes.toNat),
    ("content_digest", .string shard.contentDigest),
    ("chunk_ids", .array (shard.chunkIds.map fun id => .number id.toNat)),
    ("state", .number shard.state.toInt), ("progress", .double shard.progress),
    ("degraded_reason", .string shard.degradedReason), ("last_error", .string shard.lastError),
    ("targets", .array (shard.targets.map targetToJson))]

def verifiedContentDescriptorToJson (descriptor : VerifiedContentDescriptor) : Json :=
  .object [("layout_kind", .number descriptor.layoutKind.toNat),
    ("layout_value", .string descriptor.layoutValue),
    ("logical_size_bytes", .number descriptor.logicalSizeBytes.toNat),
    ("digest_alg", .string descriptor.digestAlg),
    ("digest_hex", .string (hex.ofBytes descriptor.digestBytes))]

def taskToJson (task : PersistenceTaskState) : Json :=
  .object <|
    [("task_id", .string task.taskId), ("plan_id", .string task.planId),
      ("artifact_id", .string task.artifactId),
      ("source_artifact_id", .string task.sourceArtifactId)] ++
    (task.verifiedContentDescriptor.toList.map fun descriptor =>
      ("verified_content_descriptor", verifiedContentDescriptorToJson hex descriptor)) ++
    [("key_hint", .string task.keyHint), ("placement_policy", .number task.placementPolicy.toInt),
      ("persist_to_shared_disk", .boolean task.persistToSharedDisk),
      ("remote_requirement", .number task.remoteRequirement.toNat),
      ("shared_disk_requirement", .number task.sharedDiskRequirement.toNat),
      ("layout", .number task.layout.toInt), ("state", .number task.state.toInt),
      ("progress", .double task.progress), ("degraded_reason", .string task.degradedReason),
      ("last_error", .string task.lastError),
      ("total_size_bytes", .number task.totalSizeBytes.toNat),
      ("disk_relative_path", .string task.diskRelativePath),
      ("disk_directory_ready", .boolean task.diskDirectoryReady),
      ("disk_metadata_written", .boolean task.diskMetadataWritten),
      ("disk_location_registered", .boolean task.diskLocationRegistered),
      ("by_key_linked", .boolean task.byKeyLinked),
      ("shards", .array (task.shards.map shardToJson))]

def targetFromJson (j : Json) : Option PersistenceTargetState := do
  return {
    nodeId := ← j.text "node_id"
    leaseId := ← j.text "lease_id"
    targetState := .ofInt (← j.int "state")
    degradedReason := ← j.text "degraded_reason"
    isSharedDisk := ← j.bool "is_shared_disk"
    attempts := .ofInt (← j.int "attempts")
    cooldownTicks := .ofInt (← j.int "cooldown_ticks")
    leaseAcked := ← j.bool "lease_acked"
    replicaRegistered := ← j.bool "replica_registered" }

def shardFromJson (j : Json) : Option PersistenceShardState := do
  return {
    shardId := ← j.text "shard_id"
    shardIdx := .ofInt (← j.int "shard_idx")
    byteRangeStart := .ofInt (← j.int "byte_range_start")
    byteRangeLength := .ofInt (← j.int "byte_range_length")
    sizeBytes := .ofInt (← j.int "size_bytes")
    contentDigest := ← j.text "content_digest"
    state := .ofInt (← j.int "state")
    progress := ← j.real "progress"
    degradedReason := ← j.text "degraded_reason"
    lastError := ← j.text "last_error"
    chunkIds := ← (← j.items "chunk_ids").mapM getChunkId
    targets := ← (← j.items "targets").mapM targetFromJson }

def verifiedContentDescriptorFromJson (j : Json) : Option (Option VerifiedContentDescriptor) :=
  match j with
  | .object _ => do
    let digestHex ← j.text "digest_hex"
    return some {
      layoutKind := .ofInt (← j.int "layout_kind")
      layoutValue := ← j.text "layout_value"
      logicalSizeBytes := .ofInt (← j.unsigned "logical_size_bytes")
      digestAlg := ← j.text "digest_alg"
      digestBytes := if digestHex = "" then [] else
        -- A text that is no hexadecimal number stands for itself.
        (hex.toBytes digestHex).getD digestHex.toUTF8.toList }
  | _ => some none

def taskFromJson (j : Json) : Option PersistenceTaskState := do
  let taskId ← j.text "task_id"
  if taskId = "" then none else
  let artifactId ← j.text "artifact_id"
  return {
    taskId, artifactId
    planId := ← j.text "plan_id"
    sourceArtifactId := ← j.value getText "source_artifact_id" artifactId
    verifiedContentDescriptor :=
      ← j.value (verifiedContentDescriptorFromJson hex) "verified_content_descriptor" none
    keyHint := ← j.text "key_hint"
    placementPolicy := .ofInt (← j.int "placement_policy")
    persistToSharedDisk := ← j.bool "persist_to_shared_disk"
    remoteRequirement := .ofInt (← j.int "remote_requirement")
    sharedDiskRequirement := .ofInt (← j.int "shared_disk_requirement")
    layout := .ofInt (← j.value getInt "layout" 1)
    state := .ofInt (← j.int "state")
    progress := ← j.real "progress"
    degradedReason := ← j.text "degraded_reason"
    lastError := ← j.text "last_error"
    totalSizeBytes := .ofInt (← j.unsigned "total_size_bytes")
    diskRelativePath := ← j.text "disk_relative_path"
    diskDirectoryReady := ← j.bool "disk_directory_ready"
    diskMetadataWritten := ← j.bool "disk_metadata_written"
    diskLocationRegistered := ← j.bool "disk_location_registered"
    byKeyLinked := ← j.bool "by_key_linked"
    shards := ← (← j.items "shards").mapM shardFromJson }

/-! ### What a number becomes -/

@[simp] lemma int32_ofInt (n : Int32) : Int32.ofInt (asInt n.toInt) = n := by
  simp [asInt]

@[simp] lemma uint32_ofInt (n : UInt32) : UInt32.ofInt (asInt n.toNat) = n := by
  have := n.toNat_lt
  apply UInt32.toNat.inj
  simp [UInt32.ofInt, asInt, Int.bmod]
  split_ifs <;> omega

@[simp] lemma uint8_ofInt (n : UInt8) : UInt8.ofInt (asInt n.toNat) = n := by
  have := n.toNat_lt
  apply UInt8.toNat.inj
  simp [UInt8.ofInt, asInt, Int.bmod]
  split_ifs <;> omega

@[simp] lemma uint64_toUInt32 (n : UInt32) : (UInt64.ofInt n.toNat).toUInt32 = n := by
  have := n.toNat_lt
  apply UInt32.toNat.inj
  simp [UInt64.ofInt]
  omega

/-- A size read as an `unsigned` survives below 4 GiB. -/
lemma unsigned_eq_iff (n : UInt64) : UInt64.ofInt (asUnsigned n.toNat) = n ↔ n.toNat < 2 ^ 32 := by
  rw [← UInt64.toNat_inj]
  simp [UInt64.ofInt, asUnsigned]
  omega

/-- A size that survives being read as an `int`: below 2 GiB, or in place of a negative `int`. -/
def IsInt (n : UInt64) : Prop :=
  n.toNat < 2 ^ 31 ∨ 2 ^ 64 - 2 ^ 31 ≤ n.toNat

lemma int_eq_iff (n : UInt64) : UInt64.ofInt (asInt n.toNat) = n ↔ IsInt n := by
  have := n.toNat_lt
  rw [← UInt64.toNat_inj, IsInt]
  simp [UInt64.ofInt, asInt, Int.bmod]
  split_ifs <;> omega

/-! ### What a task becomes -/

lemma mapM_map_eq_self_iff {α : Type} {encode : α → Json} {decode : Json → Option α}
    {xs : List α} :
    (xs.map encode).mapM decode = some xs ↔ ∀ x ∈ xs, decode (encode x) = some x := by
  induction xs with
  | nil => simp
  | cons x xs ih => simp [-List.mapM_map, bind_eq_some_iff, ih]

attribute [local simp] value text int unsigned Json.bool real items getText getInt List.lookup

lemma targetFromJson_toJson (target : PersistenceTargetState) :
    targetFromJson (targetToJson target) = some target := by
  simp [targetFromJson, targetToJson]

/-- The sizes of a shard are small enough for the type they are read at. -/
def PersistenceShardState.Fits (shard : PersistenceShardState) : Prop :=
  IsInt shard.byteRangeStart ∧ IsInt shard.byteRangeLength ∧ IsInt shard.sizeBytes

lemma shardFromJson_toJson_iff (shard : PersistenceShardState) :
    shardFromJson (shardToJson shard) = some shard ↔ shard.Fits := by
  cases shard
  simp [shardFromJson, shardToJson, Option.bind_eq_some_iff, mapM_map_eq_self_iff, getChunkId,
    targetFromJson_toJson, PersistenceShardState.Fits, int_eq_iff, -List.mapM_map]

lemma verifiedContentDescriptorFromJson_toJson_iff (descriptor : VerifiedContentDescriptor) :
    verifiedContentDescriptorFromJson hex (verifiedContentDescriptorToJson hex descriptor) =
      some (some descriptor) ↔ descriptor.logicalSizeBytes.toNat < 2 ^ 32 := by
  have hdigest := hex.ofBytes_eq_empty descriptor.digestBytes
  rw [← unsigned_eq_iff]
  cases descriptor
  simp [verifiedContentDescriptorFromJson, verifiedContentDescriptorToJson, hex.toBytes_ofBytes]
  grind

/-- The sizes of a task are small enough for the types they are read at. -/
def PersistenceTaskState.Fits (task : PersistenceTaskState) : Prop :=
  task.totalSizeBytes.toNat < 2 ^ 32 ∧
    (∀ d ∈ task.verifiedContentDescriptor, d.logicalSizeBytes.toNat < 2 ^ 32) ∧
    ∀ s ∈ task.shards, s.Fits

/-- Digests written as they are, byte for character. -/
def Hex.plain : Hex where
  ofBytes bytes := .ofList (bytes.map .ofUInt8)
  toBytes text := some (text.toList.map (·.toUInt8))
  toBytes_ofBytes bytes := by
    have hbyte (b : UInt8) : (Char.ofUInt8 b).toUInt8 = b := by
      apply UInt8.toNat.inj
      simp [Char.ofUInt8, Char.toUInt8]
    simp [Function.comp_def, hbyte]
  ofBytes_eq_empty bytes := by simp

/-- An artifact of `size` bytes as one shard on this node, as it is logged without a Global Store. -/
def unsharded (size : UInt64) (digest : String) : PersistenceTaskState :=
  { taskId := "persist-0000000000000001", planId := "plan-0000000000000001"
    artifactId := "weights", sourceArtifactId := "weights", placementPolicy := 1, layout := 2
    lastError := "global store unavailable", totalSizeBytes := size
    shards := [
      { shardId := "weights:0", byteRangeLength := size, sizeBytes := size, contentDigest := digest
        chunkIds := [0], targets := [{ nodeId := "local" }] }] }

end TensorCast.Persistence
