import TensorCast.Authority.Records
import TensorCast.Lib.Buckets

/-!
# The registry of replicas

`ReplicaRegistry` keeps its entries in a vector, with an index by key and buckets of positions by
artifact and by device.  An entry is taken out by moving the last entry to its position, and out of
its buckets in the same way.
-/

namespace TensorCast.Store

open Authority (ReplicaKey DeviceKey)
open Core Lib Function List Option

structure Entry (ρ : Type) where
  key : ReplicaKey
  replica : ρ
  artifactBucketPos : ℕ := 0
  deviceBucketPos : ℕ := 0

def Entry.artifactPlace {ρ : Type} (e : Entry ρ) : String × ℕ :=
  (e.key.artifactId, e.artifactBucketPos)

def Entry.pair {ρ : Type} (e : Entry ρ) : ReplicaKey × ρ := (e.key, e.replica)

def Entry.devicePlace {ρ : Type} (e : Entry ρ) : DeviceKey × ℕ := (e.key.device, e.deviceBucketPos)

structure ReplicaRegistry (ρ : Type) where
  entries : List (Entry ρ) := []
  byInstance : ReplicaKey → Option ℕ := fun _ => none
  byArtifact : String → Option (List ℕ) := fun _ => none
  byDevice : DeviceKey → Option (List ℕ) := fun _ => none

namespace ReplicaRegistry

variable {ρ : Type}

def appendToSecondaryIndicesLocked (r : ReplicaRegistry ρ) (idx : ℕ) : ReplicaRegistry ρ :=
  match r.entries[idx]? with
  | none => r
  | some entry =>
    let artifactBucket := (r.byArtifact entry.key.artifactId).getD []
    let deviceBucket := (r.byDevice entry.key.device).getD []
    { r with
      entries := r.entries.set idx { entry with
        artifactBucketPos := artifactBucket.length
        deviceBucketPos := deviceBucket.length }
      byArtifact := setBucket r.byArtifact entry.key.artifactId (artifactBucket ++ [idx])
      byDevice := setBucket r.byDevice entry.key.device (deviceBucket ++ [idx]) }

/-- The entry at `idx` leaves its bucket, and the last one of the bucket takes its place there. -/
def removeFromBucket {γ : Type} [DecidableEq γ] (place : Entry ρ → γ × ℕ)
    (setPos : ℕ → Entry ρ → Entry ρ) (entries : List (Entry ρ)) (buckets : γ → Option (List ℕ))
    (idx : ℕ) : List (Entry ρ) × (γ → Option (List ℕ)) :=
  match entries[idx]? with
  | none => (entries, buckets)
  | some entry =>
    let (g, pos) := place entry
    let bucket := (buckets g).getD []
    let rest := swapOut bucket pos
    (if pos < rest.length then entries.modify (bucket.getLastD 0) (setPos pos) else entries,
      setBucket buckets g rest)

def removeFromArtifactBucketLocked (r : ReplicaRegistry ρ) (idx : ℕ) : ReplicaRegistry ρ :=
  let (entries, byArtifact) := removeFromBucket Entry.artifactPlace
    (fun pos e => { e with artifactBucketPos := pos }) r.entries r.byArtifact idx
  { r with entries, byArtifact }

def removeFromDeviceBucketLocked (r : ReplicaRegistry ρ) (idx : ℕ) : ReplicaRegistry ρ :=
  let (entries, byDevice) := removeFromBucket Entry.devicePlace
    (fun pos e => { e with deviceBucketPos := pos }) r.entries r.byDevice idx
  { r with entries, byDevice }

def patchMovedEntryIndicesLocked (r : ReplicaRegistry ρ) (idx : ℕ) : ReplicaRegistry ρ :=
  match r.entries[idx]? with
  | none => r
  | some entry =>
    { r with
      byInstance := update r.byInstance entry.key (some idx)
      byArtifact := setBucket r.byArtifact entry.key.artifactId
        (((r.byArtifact entry.key.artifactId).getD []).set entry.artifactBucketPos idx)
      byDevice := setBucket r.byDevice entry.key.device
        (((r.byDevice entry.key.device).getD []).set entry.deviceBucketPos idx) }

def emplace (r : ReplicaRegistry ρ) (key : ReplicaKey) (replica : ρ) :
    StatusOr Unit × ReplicaRegistry ρ :=
  if (r.byInstance key).isSome then (.error (.alreadyExists "Instance already registered"), r)
  else
    let idx := r.entries.length
    (.ok (), appendToSecondaryIndicesLocked
      { r with
        entries := r.entries ++ [⟨key, replica, 0, 0⟩]
        byInstance := update r.byInstance key (some idx) } idx)

def erase (r : ReplicaRegistry ρ) (key : ReplicaKey) :
    Option (ReplicaKey × ρ) × ReplicaRegistry ρ :=
  match r.byInstance key with
  | none => (none, r)
  | some idx =>
    let removed := r.entries[idx]?.map Entry.pair
    let lastIdx := r.entries.length - 1
    let r := (r.removeFromArtifactBucketLocked idx).removeFromDeviceBucketLocked idx
    let r := { r with byInstance := update r.byInstance key none }
    let r := match r.entries[lastIdx]? with
      | none => r
      | some moved =>
        if idx ≠ lastIdx then
          patchMovedEntryIndicesLocked { r with entries := r.entries.set idx moved } idx
        else r
    (removed, { r with entries := r.entries.dropLast })

def clearAll (r : ReplicaRegistry ρ) : List (ReplicaKey × ρ) × ReplicaRegistry ρ :=
  (r.entries.map Entry.pair, {})

def find (r : ReplicaRegistry ρ) (key : ReplicaKey) : StatusOr ρ :=
  match (r.byInstance key).bind fun idx => r.entries[idx]? with
  | none => .error (.notFound "Replica not found")
  | some entry => .ok entry.replica

/-- The keys of the entries of a bucket. -/
def keysOf (r : ReplicaRegistry ρ) (bucket : Option (List ℕ)) : List ReplicaKey :=
  (bucket.getD []).filterMap fun idx => r.entries[idx]?.map (·.key)

def findByArtifact (r : ReplicaRegistry ρ) (artifactId : String) : List ReplicaKey :=
  r.keysOf (r.byArtifact artifactId)

def findByDevice (r : ReplicaRegistry ρ) (device : DeviceKey) : List ReplicaKey :=
  r.keysOf (r.byDevice device)

inductive Call (ρ : Type)
  | emplace (key : ReplicaKey) (replica : ρ)
  | erase (key : ReplicaKey)
  | clearAll

def step (r : ReplicaRegistry ρ) : Call ρ → ReplicaRegistry ρ
  | .emplace key replica => (r.emplace key replica).2
  | .erase key => (r.erase key).2
  | .clearAll => r.clearAll.2

/-- What is registered after a call: a key keeps its replica until it is erased. -/
def register (registered : ReplicaKey → Option ρ) : Call ρ → ReplicaKey → Option ρ
  | .emplace key replica => update registered key ((registered key).or (some replica))
  | .erase key => update registered key none
  | .clearAll => fun _ => none

/-! ## Coherence -/

/-- What `f` says of the entry at a position. -/
def itemOf {γ : Type} (f : Entry ρ → γ) (entries : List (Entry ρ)) (i : ℕ) : Option γ :=
  entries[i]?.map f

/-- The indexes agree with the entries, and these are the registered replicas. -/
structure Coherent (r : ReplicaRegistry ρ) (registered : ReplicaKey → Option ρ) : Prop where
  primary : Keyed (itemOf Entry.pair r.entries) r.byInstance registered
  artifact : Indexed (itemOf Entry.artifactPlace r.entries) r.byArtifact
  device : Indexed (itemOf Entry.devicePlace r.entries) r.byDevice

section Entries

variable {γ : Type} {f : Entry ρ → γ} {entries : List (Entry ρ)}

lemma itemOf_length : itemOf f entries entries.length = none := by simp [itemOf]

lemma itemOf_append (e : Entry ρ) :
    itemOf f (entries ++ [e]) = update (itemOf f entries) entries.length (some (f e)) := by
  funext i
  unfold itemOf
  grind

lemma itemOf_modify {u : Entry ρ → Entry ρ} (hu : ∀ e, f (u e) = f e) (j : ℕ) :
    itemOf f (entries.modify j u) = itemOf f entries := by
  funext i
  unfold itemOf
  rw [getElem?_modify]
  grind

lemma itemOf_modify_place {f : Entry ρ → γ × ℕ} {u : Entry ρ → Entry ρ} {p : ℕ}
    (hu : ∀ e, f (u e) = ((f e).1, p)) (j : ℕ) :
    itemOf f (entries.modify j u) =
      update (itemOf f entries) j ((itemOf f entries j).map fun x => (x.1, p)) := by
  funext i
  unfold itemOf
  rw [getElem?_modify]
  grind

/-- The last entry goes, to the place of another or for good. -/
lemma itemOf_dropLast {idx : ℕ} {moved : Entry ρ}
    (hmoved : entries[entries.length - 1]? = some moved) (hidx : idx < entries.length - 1) :
    itemOf f (entries.set idx moved).dropLast =
      update (update (update (itemOf f entries) idx none) (entries.length - 1) none) idx
        (some (f moved)) := by
  funext i
  unfold itemOf
  rw [dropLast_eq_take, getElem?_take]
  grind

end Entries

variable {r : ReplicaRegistry ρ} {registered : ReplicaKey → Option ρ} {key : ReplicaKey}
  {replica : ρ} {idx : ℕ}

lemma Coherent.emplace (h : Coherent r registered) (hnew : r.byInstance key = none) :
    Coherent (r.emplace key replica).2 (update registered key (some replica)) := by
  simp only [ReplicaRegistry.emplace, hnew, appendToSecondaryIndicesLocked, isSome_none,
    Bool.false_eq_true, if_false, getElem?_concat_length, set_append_right _ _ le_rfl,
    Nat.sub_self, set_cons_zero]
  refine ⟨?_, ?_, ?_⟩ <;> rw [itemOf_append]
  · exact h.primary.push itemOf_length hnew
  · exact h.artifact.push itemOf_length
  · exact h.device.push itemOf_length

lemma removeFromBucket_spec {γ : Type} [DecidableEq γ] (place : Entry ρ → γ × ℕ)
    (setPos : ℕ → Entry ρ → Entry ρ) (hplace : ∀ p e, place (setPos p e) = ((place e).1, p))
    {entries : List (Entry ρ)} {buckets : γ → Option (List ℕ)}
    (h : Indexed (itemOf place entries) buckets) (hidx : idx < entries.length) :
    let after := removeFromBucket place setPos entries buckets idx
    Indexed (update (itemOf place after.1) idx none) after.2 ∧ after.1.length = entries.length ∧
      ∀ {δ : Type} (f : Entry ρ → δ), (∀ p e, f (setPos p e) = f e) →
        itemOf f after.1 = itemOf f entries := by
  have hswap := h.swapOut (i := idx) (g := (place entries[idx]).1) (p := (place entries[idx]).2)
    (by simp [itemOf, hidx])
  simp only [removeFromBucket, getElem?_eq_getElem hidx] at hswap ⊢
  split_ifs at hswap ⊢
  · refine ⟨?_, by simp, fun f hf => itemOf_modify (hf _) _⟩
    rwa [itemOf_modify_place (hplace _)]
  · exact ⟨hswap, rfl, fun _ _ => rfl⟩

lemma Coherent.erase (h : Coherent r registered) (hkey : r.byInstance key = some idx)
    (hitem : itemOf Entry.pair r.entries idx = some (key, replica)) :
    Coherent (r.erase key).2 (update registered key none) := by
  obtain ⟨e, he, hek⟩ := map_eq_some_iff.mp hitem
  obtain ⟨hidx, -⟩ := List.getElem?_eq_some_iff.mp he
  have hart := removeFromBucket_spec Entry.artifactPlace
    (fun pos e => { e with artifactBucketPos := pos }) (fun _ _ => rfl) h.artifact hidx
  simp only [ReplicaRegistry.erase, hkey, removeFromArtifactBucketLocked,
    removeFromDeviceBucketLocked]
  generalize removeFromBucket Entry.artifactPlace (fun pos e => { e with artifactBucketPos := pos })
    r.entries r.byArtifact idx = first at hart ⊢
  obtain ⟨entries₁, byArtifact⟩ := first
  obtain ⟨hart, hlen₁, hframe₁⟩ := hart
  have hdev := removeFromBucket_spec Entry.devicePlace
    (fun pos e => { e with deviceBucketPos := pos }) (fun _ _ => rfl)
    (hframe₁ Entry.devicePlace (fun _ _ => rfl) ▸ h.device) (hlen₁ ▸ hidx)
  simp only
  generalize removeFromBucket Entry.devicePlace (fun pos e => { e with deviceBucketPos := pos })
    entries₁ r.byDevice idx = second at hdev ⊢
  obtain ⟨entries, byDevice⟩ := second
  obtain ⟨hdev, hlen, hframe⟩ := hdev
  simp only at hart hdev hlen hlen₁ hframe hframe₁ ⊢
  have hkeys := h.primary.erase hitem
  rw [← hframe₁ _ fun _ _ => rfl, ← hframe _ fun _ _ => rfl] at hkeys
  rw [← hframe Entry.artifactPlace fun _ _ => rfl] at hart
  rw [← hlen₁, ← hlen] at hidx ⊢
  obtain ⟨moved, hmoved⟩ : ∃ moved, entries[entries.length - 1]? = some moved :=
    ⟨_, getElem?_eq_getElem (by omega)⟩
  simp only [hmoved]
  split_ifs with hne
  · -- the last entry moves to the position
    have hself : (entries.set idx moved)[idx]? = some moved := by simp [hidx]
    have hlt : idx < entries.length - 1 := by omega
    have hat {γ : Type} (f : Entry ρ → γ) :
        update (itemOf f entries) idx none (entries.length - 1) = some (f moved) := by
      rw [update_of_ne hlt.ne', itemOf, hmoved]
      rfl
    simp only [patchMovedEntryIndicesLocked, hself]
    refine ⟨?_, ?_, ?_⟩
    · rw [itemOf_dropLast hmoved hlt]
      exact hkeys.move (update_self ..) (hat _)
    · rw [itemOf_dropLast hmoved hlt]
      exact hart.move (update_self ..) (hat Entry.artifactPlace)
    · rw [itemOf_dropLast hmoved hlt]
      exact hdev.move (update_self ..) (hat Entry.devicePlace)
  · -- it was the last entry itself
    have hdrop {γ : Type} (f : Entry ρ → γ) :
        itemOf f entries.dropLast = update (itemOf f entries) idx none := by
      funext i
      unfold itemOf
      rw [dropLast_eq_take, getElem?_take]
      grind
    exact ⟨by simpa only [hdrop] using hkeys, by simpa only [hdrop] using hart,
      by simpa only [hdrop] using hdev⟩

/-- A key has no entry and is not registered, or its entry has the replica. -/
lemma Coherent.cases (h : Coherent r registered) (key : ReplicaKey) :
    r.byInstance key = none ∧ registered key = none ∨
      ∃ idx e, r.byInstance key = some idx ∧ r.entries[idx]? = some e ∧ e.key = key ∧
        registered key = some e.replica := by
  have hsome := h.primary.isSome key
  cases hkey : r.byInstance key with
  | none => exact .inl ⟨rfl, by simpa [hkey] using hsome⟩
  | some idx =>
    obtain ⟨replica, hreg⟩ : ∃ replica, registered key = some replica := by
      simpa [hkey, isSome_iff_exists] using hsome.symm
    have hitem := (h.primary.iff idx key replica).mpr ⟨hkey, hreg⟩
    obtain ⟨e, he, hpair⟩ := map_eq_some_iff.mp hitem
    obtain ⟨rfl, rfl⟩ := Prod.mk.inj hpair
    exact .inr ⟨idx, e, rfl, he, rfl, hreg⟩

lemma Coherent.find_eq (h : Coherent r registered) (key : ReplicaKey) :
    (r.find key).toOption = registered key ∧
      (r.erase key).1 = (registered key).map fun replica => (key, replica) := by
  obtain ⟨hkey, hreg⟩ | ⟨idx, e, hkey, he, rfl, hreg⟩ := h.cases key
  · simp [find, ReplicaRegistry.erase, hkey, hreg, Except.toOption]
  · simp [find, ReplicaRegistry.erase, hkey, hreg, he, Entry.pair, Except.toOption]

/-- A lookup by a class of the keys. -/
lemma Coherent.keysOf {γ : Type} (h : Coherent r registered) {place : Entry ρ → γ × ℕ}
    {buckets : γ → Option (List ℕ)} (hplace : Indexed (itemOf place r.entries) buckets)
    {cls : ReplicaKey → γ} (hcls : ∀ e, (place e).1 = cls e.key) (g : γ) :
    (r.keysOf (buckets g)).Nodup ∧
      ∀ key, key ∈ r.keysOf (buckets g) ↔ (registered key).isSome ∧ cls key = g := by
  have hentry (i : ℕ) (e : Entry ρ) (he : r.entries[i]? = some e) :=
    (h.primary.iff i e.key e.replica).mp (by simp [itemOf, he, Entry.pair])
  constructor
  · refine (hplace.nodup g).filterMap fun i j k hi hj => ?_
    obtain ⟨e, he, rfl⟩ := map_eq_some_iff.mp hi
    obtain ⟨e', he', hkey⟩ := map_eq_some_iff.mp hj
    have hi := (hentry i e he).1
    rw [← hkey, (hentry j e' he').1] at hi
    exact (some.inj hi).symm
  · intro key
    simp only [ReplicaRegistry.keysOf, mem_filterMap, hplace.mem_iff, itemOf,
      map_eq_some_iff]
    constructor
    · rintro ⟨i, ⟨p, e, he, hp⟩, e', he', rfl⟩
      obtain rfl : e = e' := by simpa [he] using he'
      exact ⟨by simp [(hentry i e he).2], by rw [← hcls, hp]⟩
    · rintro ⟨hsome, rfl⟩
      obtain ⟨-, hreg⟩ | ⟨i, e, -, he, rfl, -⟩ := h.cases key
      · simp [hreg] at hsome
      · exact ⟨i, ⟨(place e).2, e, he, by rw [← hcls]⟩, e, he, rfl⟩

lemma coherent_empty : Coherent ({} : ReplicaRegistry ρ) fun _ => none :=
  ⟨⟨by simp [itemOf], by simp⟩, ⟨by simp, by simp [itemOf]⟩, by simp, by simp [itemOf]⟩

lemma Coherent.step (h : Coherent r registered) (call : Call ρ) :
    Coherent (r.step call) (register registered call) := by
  cases call with
  | emplace key replica =>
    obtain ⟨hkey, hreg⟩ | ⟨idx, e, hkey, -, -, hreg⟩ := h.cases key
    · rw [register, hreg, none_or]
      exact h.emplace hkey
    · have hsame : r.step (.emplace key replica) = r := by
        simp [ReplicaRegistry.step, ReplicaRegistry.emplace, hkey]
      rwa [hsame, register, hreg, some_or, ← hreg, update_eq_self]
  | erase key =>
    obtain ⟨hkey, hreg⟩ | ⟨idx, e, hkey, he, rfl, -⟩ := h.cases key
    · have hsame : r.step (.erase key) = r := by
        simp [ReplicaRegistry.step, ReplicaRegistry.erase, hkey]
      rwa [hsame, register, ← hreg, update_eq_self]
    · exact h.erase hkey (by rw [itemOf, he]; rfl)
  | clearAll => exact coherent_empty

lemma Coherent.run (h : Coherent r registered) (calls : List (Call ρ)) :
    Coherent (calls.foldl ReplicaRegistry.step r) (calls.foldl register registered) := by
  induction calls generalizing r registered with
  | nil => exact h
  | cons call calls ih => exact ih (h.step call)

/-- **The indexes stay coherent**, and every lookup agrees with what is registered. -/
theorem indexes_stay_coherent (calls : List (Call ρ)) :
    let r := calls.foldl ReplicaRegistry.step {}
    let registered := calls.foldl register fun _ => none
    Coherent r registered ∧
      (∀ key, (r.find key).toOption = registered key ∧
        (r.erase key).1 = (registered key).map fun replica => (key, replica)) ∧
      (∀ artifactId, (r.findByArtifact artifactId).Nodup ∧
        ∀ key, key ∈ r.findByArtifact artifactId ↔
          (registered key).isSome ∧ key.artifactId = artifactId) ∧
      ∀ device, (r.findByDevice device).Nodup ∧
        ∀ key, key ∈ r.findByDevice device ↔ (registered key).isSome ∧ key.device = device := by
  intro r registered
  have h : Coherent r registered := coherent_empty.run calls
  exact ⟨h, h.find_eq, h.keysOf h.artifact fun _ => rfl, h.keysOf h.device fun _ => rfl⟩

/-! ## Ownership -/

def held (r : ReplicaRegistry ρ) : Multiset (ReplicaKey × ρ) := (r.entries.map Entry.pair : List _)

/-- The replicas that a call gives to the registry. -/
def taken (r : ReplicaRegistry ρ) : Call ρ → List (ReplicaKey × ρ)
  | .emplace key replica =>
    match (r.emplace key replica).1 with
    | .ok () => [(key, replica)]
    | .error _ => []
  | _ => []

/-- The replicas that a call gets back. -/
def returned (r : ReplicaRegistry ρ) : Call ρ → List (ReplicaKey × ρ)
  | .emplace _ _ => []
  | .erase key => (r.erase key).1.toList
  | .clearAll => r.clearAll.1

/-- What the calls of a run pass on, all together. -/
def collect (pass : ReplicaRegistry ρ → Call ρ → List (ReplicaKey × ρ)) (r : ReplicaRegistry ρ) :
    List (Call ρ) → Multiset (ReplicaKey × ρ)
  | [] => 0
  | call :: calls => pass r call + collect pass (r.step call) calls

lemma Coherent.mem_held (h : Coherent r registered) (p : ReplicaKey × ρ) :
    p ∈ r.held ↔ registered p.1 = some p.2 := by
  simp only [held, Multiset.mem_coe, mem_iff_getElem?, getElem?_map]
  refine ⟨fun ⟨i, hi⟩ => ((h.primary.iff i _ _).mp hi).2, fun hreg => ?_⟩
  obtain ⟨-, hnone⟩ | ⟨i, e, -, he, hkey, hreg'⟩ := h.cases p.1
  · simp [hnone] at hreg
  · exact ⟨i, by rw [he, map_some, Entry.pair, hkey, some.inj (hreg'.symm.trans hreg)]⟩

lemma Coherent.nodup_held (h : Coherent r registered) : r.held.Nodup := by
  rw [held, Multiset.coe_nodup, nodup_iff_getElem?_ne_getElem?]
  intro i j hij hj heq
  have hj := getElem?_eq_getElem hj
  have hat {k} {p : ReplicaKey × ρ} (hk : (r.entries.map Entry.pair)[k]? = some p) :=
    ((h.primary.iff k p.1 p.2).mp (by rwa [itemOf, ← getElem?_map])).1
  exact hij.ne (some.inj ((hat (heq.trans hj)).symm.trans (hat hj)))

/-- The entries of two registries that differ in one key. -/
lemma Coherent.held_eq_cons {r' : ReplicaRegistry ρ} (h : Coherent r registered)
    (hnew : registered key = none) (h' : Coherent r' (update registered key (some replica))) :
    r'.held = (key, replica) ::ₘ r.held := by
  have hfresh : (key, replica) ∉ r.held := by simp [h.mem_held, hnew]
  refine (h'.nodup_held.ext (Multiset.nodup_cons.2 ⟨hfresh, h.nodup_held⟩)).2 fun p => ?_
  rw [h'.mem_held, Multiset.mem_cons, h.mem_held, update_apply]
  grind

lemma Coherent.held_step (h : Coherent r registered) (call : Call ρ) :
    r.taken call + r.held = r.returned call + (r.step call).held := by
  have hstep := h.step call
  cases call with
  | emplace key replica =>
    obtain ⟨hkey, hreg⟩ | ⟨idx, e, hkey, -, -, hreg⟩ := h.cases key
    · rw [register, hreg, none_or] at hstep
      simpa [taken, returned, ReplicaRegistry.emplace, hkey] using (h.held_eq_cons hreg hstep).symm
    · simp [taken, returned, ReplicaRegistry.step, ReplicaRegistry.emplace, hkey]
  | erase key =>
    obtain ⟨hkey, hreg⟩ | ⟨idx, e, hkey, he, rfl, hreg⟩ := h.cases key
    · simp [taken, returned, ReplicaRegistry.step, ReplicaRegistry.erase, hkey]
    · have hback := hstep.held_eq_cons (update_self ..)
        (by rwa [register, update_idem, ← hreg, update_eq_self])
      simpa [taken, returned, (h.find_eq e.key).2, hreg] using hback
  | clearAll => simp [taken, returned, clearAll, ReplicaRegistry.step, held]

lemma Coherent.held_run (h : Coherent r registered) (calls : List (Call ρ)) :
    collect taken r calls + r.held =
      collect returned r calls + (calls.foldl ReplicaRegistry.step r).held := by
  induction calls generalizing r registered with
  | nil => rfl
  | cons call calls ih =>
    rw [collect, add_right_comm, h.held_step, add_right_comm, add_assoc, ih (h.step call), collect,
      add_assoc, foldl_cons]

/-- **No replica is lost or handed out twice.**  The replicas that the registry has accepted, with their
keys, are those that it has returned and those of its entries, each as often. -/
theorem replicas_returned_once (calls : List (Call ρ)) :
    collect taken {} calls =
      collect returned {} calls + (calls.foldl ReplicaRegistry.step {}).held := by
  simpa [held] using coherent_empty.held_run calls

end ReplicaRegistry

end TensorCast.Store
