import TensorCast.Authority.Records
import TensorCast.Lib.Utf8
import Mathlib.Data.Prod.Lex

/-!
# The state checksum of a node

The daemon hashes its inventory, the Global Store hashes the rows it recorded for the node, and a
difference starts a recovery.  The two are written in two languages: the daemon sorts entries of
byte strings and folds a 64-bit word, the store sorts tuples of texts and masks an unbounded
integer.  On replicas with distinct sort keys they give the same text.
-/

namespace TensorCast.GlobalStore.StateChecksum

open Authority (MemoryLocation)
open Lib List

/-- The format `%016x`. -/
def hex016 (value : ℕ) : String :=
  String.ofList (List.leftpad 16 '0' (Nat.toDigits 16 value))

/-! ## The daemon -/

namespace Daemon

/-- An inventory entry with its key; a `std::string` is its bytes. -/
structure ReplicaInventoryEntry where
  artifactId : List UInt8
  viewId : Option (List UInt8)
  ordinal : Int32
  memoryLocation : MemoryLocation
  isAvailable : Bool

structure Entry where
  artifactId : List UInt8
  viewId : List UInt8
  memoryType : List UInt8
  deviceId : ℤ
  available : Bool

/-- What the entries are sorted by. -/
def Entry.key (e : Entry) : List UInt8 × List UInt8 × List UInt8 × ℤ :=
  (e.artifactId, e.viewId, e.memoryType, e.deviceId)

def toEntry? (entry : ReplicaInventoryEntry) : Option Entry :=
  match entry.memoryLocation with
  | .gpu =>
    if entry.ordinal < 0 then none
    else some ⟨entry.artifactId, entry.viewId.getD [], utf8 "GPU", entry.ordinal.toInt,
      entry.isAvailable⟩
  | .cpu => some ⟨entry.artifactId, entry.viewId.getD [], utf8 "RAM", 0, entry.isAvailable⟩
  | _ => none

def less (lhs rhs : Entry) : Bool :=
  if lhs.artifactId ≠ rhs.artifactId then lhs.artifactId < rhs.artifactId
  else if lhs.viewId ≠ rhs.viewId then lhs.viewId < rhs.viewId
  else if lhs.memoryType ≠ rhs.memoryType then lhs.memoryType < rhs.memoryType
  else lhs.deviceId < rhs.deviceId

/-- The format `%s:%s:%s:%s:%u:%d:%s:%d;`. -/
def format (nodeId nodeAddress : List UInt8) (nodePort : UInt32) (e : Entry) : List UInt8 :=
  e.artifactId ++ utf8 ":" ++ e.viewId ++ utf8 ":" ++ nodeId ++ utf8 ":" ++ nodeAddress ++ utf8 ":"
    ++ utf8 (toString nodePort.toNat) ++ utf8 ":" ++ utf8 (toString e.deviceId) ++ utf8 ":"
    ++ e.memoryType ++ utf8 ":" ++ utf8 (toString (if e.available then 1 else 0)) ++ utf8 ";"

def fnv (hash : UInt64) (c : UInt8) : UInt64 :=
  (hash ^^^ c.toUInt64) * 1099511628211

def computeStateChecksum (nodeId nodeAddress : List UInt8) (nodePort : UInt32)
    (inventory : List ReplicaInventoryEntry) : String :=
  let entries := (inventory.filterMap toEntry?).mergeSort fun a b => !less b a
  let stateStr := entries.flatMap (format nodeId nodeAddress nodePort)
  hex016 (stateStr.foldl fnv 14695981039346656037).toNat

end Daemon

/-! ## The Global Store -/

namespace Store

inductive MemoryType
  | gpu
  | ram
  | disk
deriving DecidableEq

/-- The columns of a replica row that the checksum reads. -/
structure Replica where
  artifactId : String
  byteSpaceId : Option String
  nodeId : Option String
  nodeAddress : Option String
  nodePort : Option ℕ
  memoryType : MemoryType
  deviceId : ℤ
  isAvailable : Bool

structure Entry where
  artifactId : String
  viewId : String
  nodeId : String
  nodeAddress : String
  nodePort : ℕ
  deviceId : ℤ
  memoryType : String
  available : Bool

def toEntry (replica : Replica) : Entry where
  artifactId := replica.artifactId
  viewId := replica.byteSpaceId.getD ""
  nodeId := replica.nodeId.getD ""
  nodeAddress := replica.nodeAddress.getD ""
  nodePort := replica.nodePort.getD 0
  deviceId := match replica.memoryType with
    | .gpu => replica.deviceId
    | .ram | .disk => 0
  memoryType := match replica.memoryType with
    | .gpu => "GPU"
    | .ram => "RAM"
    | .disk => "DISK"
  available := replica.isAvailable

def sortKey (e : Entry) : String ×ₗ String ×ₗ String ×ₗ ℤ :=
  toLex (e.artifactId, toLex (e.viewId, toLex (e.memoryType, e.deviceId)))

def before (a b : Entry) : Bool := sortKey a ≤ sortKey b

def format (e : Entry) : String :=
  e.artifactId ++ ":" ++ e.viewId ++ ":" ++ e.nodeId ++ ":" ++ e.nodeAddress ++ ":"
    ++ toString e.nodePort ++ ":" ++ toString e.deviceId ++ ":" ++ e.memoryType ++ ":"
    ++ toString (if e.available then 1 else 0) ++ ";"

def fnv (hashVal : ℕ) (b : UInt8) : ℕ :=
  ((hashVal ^^^ b.toNat) * 0x100000001B3) &&& 0xFFFFFFFFFFFFFFFF

def computeStateChecksum (replicas : List Replica) : String :=
  let entries := (replicas.map toEntry).mergeSort before
  let stateStr := String.join (entries.map format)
  hex016 ((utf8 stateStr).foldl fnv 0xCBF29CE484222325)

end Store

/-! ## The fold over the bytes -/

lemma fnv_toNat (hash : UInt64) (b : UInt8) :
    (Daemon.fnv hash b).toNat = Store.fnv hash.toNat b := by
  simp only [Daemon.fnv, Store.fnv, UInt64.toNat_mul, UInt64.toNat_xor]
  exact (Nat.and_two_pow_sub_one_eq_mod _ 64).symm

lemma foldl_fnv_toNat (bytes : List UInt8) (hash : UInt64) :
    (bytes.foldl Daemon.fnv hash).toNat = bytes.foldl Store.fnv hash.toNat := by
  induction bytes generalizing hash with
  | nil => rfl
  | cons b bytes ih => simp [ih, fnv_toNat]

/-! ## The two sorts -/

/-- The daemon's entry for an entry of the store. -/
def encode (e : Store.Entry) : Daemon.Entry :=
  ⟨utf8 e.artifactId, utf8 e.viewId, utf8 e.memoryType, e.deviceId, e.available⟩

lemma less_encode (a b : Store.Entry) :
    Daemon.less (encode a) (encode b) = decide (Store.sortKey a < Store.sortKey b) := by
  simp only [Daemon.less, encode, Store.sortKey, Prod.Lex.toLex_lt_toLex, utf8_inj,
    utf8_lt_utf8_iff, ne_eq, ite_not]
  grind

lemma map_encode_mergeSort (entries : List Store.Entry) :
    (entries.mergeSort Store.before).map encode =
      (entries.map encode).mergeSort fun a b => !Daemon.less b a := by
  refine map_mergeSort fun a _ b _ => ?_
  simp [Store.before, less_encode, ← not_lt]

lemma pairwise_mergeSort_before (l : List Store.Entry) :
    (l.mergeSort Store.before).Pairwise (Store.before · ·) := by
  refine pairwise_mergeSort (fun a b c hab hbc => ?_) (fun a b => ?_) l
  · simp only [Store.before, decide_eq_true_eq] at hab hbc ⊢
    exact hab.trans hbc
  · simpa [Store.before] using le_total (Store.sortKey a) (Store.sortKey b)

/-- With distinct keys the sorted list does not depend on the order of the rows. -/
lemma mergeSort_eq_of_perm {l m : List Store.Entry} (h : l.Perm m)
    (hkeys : ((l.map encode).map Daemon.Entry.key).Nodup) :
    l.mergeSort Store.before = m.mergeSort Store.before := by
  refine List.Perm.eq_of_pairwise (fun a b ha hb hab hba => ?_)
    (pairwise_mergeSort_before l) (pairwise_mergeSort_before m)
    ((mergeSort_perm l _).trans (h.trans (mergeSort_perm m _).symm))
  rw [mem_mergeSort] at ha hb
  rw [map_map] at hkeys
  simp only [Store.before, decide_eq_true_eq] at hab hba
  have hkey : Store.sortKey a = Store.sortKey b := le_antisymm hab hba
  simp only [Store.sortKey, toLex_inj, Prod.mk.injEq] at hkey
  exact inj_on_of_nodup_map hkeys ha (h.mem_iff.2 hb)
    (by simp [Daemon.Entry.key, encode, hkey])

/-! ## Rows that record an inventory -/

section Records

variable (nodeId nodeAddress : List UInt8) (nodePort : UInt32)

/-- The row holds what the node reported for the replica. -/
structure Records (entry : Daemon.ReplicaInventoryEntry)
    (row : Store.Replica) : Prop where
  artifactId : utf8 row.artifactId = entry.artifactId
  viewId : utf8 (row.byteSpaceId.getD "") = entry.viewId.getD []
  nodeId : row.nodeId.map utf8 = some nodeId
  nodeAddress : row.nodeAddress.map utf8 = some nodeAddress
  nodePort : row.nodePort = some nodePort.toNat
  device : (entry.memoryLocation = .gpu ∧ row.memoryType = .gpu ∧
      row.deviceId = entry.ordinal.toInt) ∨
    entry.memoryLocation = .cpu ∧ row.memoryType = .ram
  isAvailable : row.isAvailable = entry.isAvailable

variable {nodeId nodeAddress nodePort} {entry : Daemon.ReplicaInventoryEntry}
  {row : Store.Replica}

lemma Records.toEntry?_eq (h : Records nodeId nodeAddress nodePort entry row)
    (hgpu : entry.memoryLocation = .gpu → 0 ≤ entry.ordinal) :
    Daemon.toEntry? entry = some (encode (Store.toEntry row)) := by
  obtain ⟨hloc, htype, hdevice⟩ | ⟨hloc, htype⟩ := h.device
  · have hord : ¬entry.ordinal < 0 := Int32.not_lt.2 (hgpu hloc)
    simp [Daemon.toEntry?, Store.toEntry, encode, h.artifactId, h.viewId, h.isAvailable, hloc,
      htype, hdevice, hord]
  · simp [Daemon.toEntry?, Store.toEntry, encode, h.artifactId, h.viewId, h.isAvailable, hloc,
      htype]

lemma Records.utf8_format (h : Records nodeId nodeAddress nodePort entry row) :
    utf8 (Store.format (Store.toEntry row)) =
      Daemon.format nodeId nodeAddress nodePort (encode (Store.toEntry row)) := by
  obtain ⟨n, hn, rfl⟩ := Option.map_eq_some_iff.1 h.nodeId
  obtain ⟨a, ha, rfl⟩ := Option.map_eq_some_iff.1 h.nodeAddress
  simp [Store.format, Daemon.format, Store.toEntry, encode, h.nodePort, hn, ha]

lemma utf8_join (texts : List String) : utf8 (String.join texts) = texts.flatMap utf8 := by
  induction texts with
  | nil => rfl
  | cons t texts ih => simp [String.join_cons, ih]

variable {inventory : List Daemon.ReplicaInventoryEntry} {recorded rows : List Store.Replica}

lemma filterMap_toEntry?_eq
    (h : List.Forall₂ (Records nodeId nodeAddress nodePort) inventory recorded)
    (hgpu : ∀ e ∈ inventory, e.memoryLocation = .gpu → 0 ≤ e.ordinal) :
    inventory.filterMap Daemon.toEntry? = (recorded.map Store.toEntry).map encode := by
  induction h with
  | nil => rfl
  | @cons e row inventory recorded h _ ih =>
    rw [filterMap_cons_some (h.toEntry?_eq (hgpu e (by simp))),
      ih fun e he => hgpu e (mem_cons_of_mem _ he)]
    rfl

lemma flatMap_format_eq (h : List.Forall₂ (Records nodeId nodeAddress nodePort) inventory recorded)
    {entries : List Store.Entry} (hmem : entries ⊆ recorded.map Store.toEntry) :
    utf8 (String.join (entries.map Store.format)) =
      (entries.map encode).flatMap (Daemon.format nodeId nodeAddress nodePort) := by
  rw [utf8_join, flatMap_map, flatMap_map]
  refine flatMap_congr fun e he => ?_
  obtain ⟨row, hrow, rfl⟩ := mem_map.1 (hmem he)
  obtain ⟨entry, hrec⟩ : ∃ entry, Records nodeId nodeAddress nodePort entry row := by
    clear hmem he
    induction h <;> grind
  exact hrec.utf8_format

/-- **The daemon and the Global Store compute the same state checksum.** -/
theorem computeStateChecksum_eq
    (hkinds : ∀ e ∈ inventory, e.memoryLocation = .cpu ∨ e.memoryLocation = .gpu ∧ 0 ≤ e.ordinal)
    (hkeys : ((inventory.filterMap Daemon.toEntry?).map Daemon.Entry.key).Nodup)
    (hrec : List.Forall₂ (Records nodeId nodeAddress nodePort) inventory recorded)
    (hrows : recorded.Perm rows) :
    Daemon.computeStateChecksum nodeId nodeAddress nodePort inventory =
      Store.computeStateChecksum rows := by
  have hentries := filterMap_toEntry?_eq hrec fun e he hloc => by
    obtain h | h := hkinds e he
    · simp [h] at hloc
    · exact h.2
  have hsort := mergeSort_eq_of_perm (hrows.map Store.toEntry) (hentries ▸ hkeys)
  simp only [Daemon.computeStateChecksum, Store.computeStateChecksum, hentries, ← hsort,
    ← map_encode_mergeSort, foldl_fnv_toNat]
  rw [flatMap_format_eq hrec fun e he => ?_]
  · rfl
  · exact mem_mergeSort.1 he

end Records

/-- A GPU and a CPU replica whose identifiers sort by their second byte; the rows come back in the
other order. -/
theorem computeStateChecksum_eq_mixed :
    Daemon.computeStateChecksum (utf8 "n") (utf8 "h") 7
        [⟨utf8 "é", none, 1, .gpu, true⟩, ⟨utf8 "è", some (utf8 "v"), -1, .cpu, false⟩] =
      Store.computeStateChecksum
        [⟨"è", some "v", some "n", some "h", some 7, .ram, 0, false⟩,
          ⟨"é", none, some "n", some "h", some 7, .gpu, 1, true⟩] := by
  refine computeStateChecksum_eq (by decide) (by decide)
    (.cons ?_ (.cons ?_ .nil)) (List.Perm.swap _ _ _)
  · exact ⟨rfl, rfl, rfl, rfl, rfl, by decide, rfl⟩
  · exact ⟨rfl, rfl, rfl, rfl, rfl, by decide, rfl⟩

end TensorCast.GlobalStore.StateChecksum
