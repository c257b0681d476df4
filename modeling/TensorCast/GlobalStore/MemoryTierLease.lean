import TensorCast.Lib.Agenda

/-!
# Leases of memory tiers

The rows of `memory_tier_leases`, and the calls that write them.  Every statement is a transaction of
its own, and no update looks at the state of the row.  So a late acknowledgement revives a lease that
was revoked or released, and two copies of a request may get a lease each.  When the calls come in
order, `Orderly`, neither happens.
-/

namespace TensorCast.GlobalStore

open Lib List

-- the order that Mathlib finds first does not compute
local instance preorderInt : Preorder ℤ := Int.instLinearOrder.toPreorder

inductive LeaseState
  | pending
  | active
  | revoking
  | expired
deriving DecidableEq, Repr

structure ChunkRange where
  start : ℤ := 0
  count : ℤ := 0
deriving DecidableEq, Repr

structure MemoryTierLease where
  leaseId : String
  nodeId : String
  kind : String
  artifactId : String
  chunkRange : ChunkRange
  chunkIds : List ℤ
  ledgerVersion : ℤ
  bytes : ℤ
  workloadId : String
  state : LeaseState
  requestId : String
  issuedAtNs : ℤ
  ackEpochNs : Option ℤ := none
  expiresAtNs : Option ℤ := none
deriving DecidableEq, Repr

structure LeaseRequest where
  nodeId : String
  kind : String
  artifactId : String
  chunkRange : ChunkRange := {}
  chunkIds : List ℤ
  ledgerVersion : ℤ
  bytesCount : ℤ
  workloadId : String
  requestId : String
  issuedAtNs : Option ℤ := none

/-- What a daemon says about a lease; any other action is refused. -/
inductive AckAction
  | acquired
  | released
  | unknown (action : String)

structure Acknowledgement where
  leaseId : String
  action : AckAction
  artifactId : String
  chunkIds : List ℤ
  ledgerVersion : ℤ
  chunkRange : ChunkRange := {}
  bytesCount : ℤ
  requestId : String
  ackEpochNs : Option ℤ := none

/-- `t or time.time_ns()`. -/
def orNow (t : Option ℤ) (now : ℤ) : ℤ := (t.filter (· ≠ 0)).getD now

def LeaseRequest.lease (r : LeaseRequest) (leaseId : String) (now : ℤ) : MemoryTierLease :=
  { r with
    leaseId
    bytes := r.bytesCount
    state := .pending
    issuedAtNs := orNow r.issuedAtNs now }

namespace Acknowledgement

def hits (a : Acknowledgement) (row : MemoryTierLease) : Bool :=
  row.leaseId = a.leaseId ∧ row.artifactId = a.artifactId

def set (a : Acknowledgement) (state : LeaseState) (now : ℤ) (row : MemoryTierLease) :
    MemoryTierLease :=
  { row with
    state
    chunkIds := a.chunkIds
    chunkRange := a.chunkRange
    ledgerVersion := a.ledgerVersion
    bytes := a.bytesCount
    ackEpochNs := some (orNow a.ackEpochNs now)
    requestId := a.requestId }

end Acknowledgement

namespace MemoryTierLease

abbrev Rows := List MemoryTierLease

/-! ## The repository -/

/-- The lease id is the primary key. -/
def create (lease : MemoryTierLease) (rows : Rows) : Option Rows :=
  if rows.any (·.leaseId = lease.leaseId) then none else some (rows ++ [lease])

def findById (leaseId : String) (rows : Rows) : Option MemoryTierLease :=
  rows.find? (·.leaseId = leaseId)

def findByRequest (nodeId requestId : String) (rows : Rows) : Option MemoryTierLease :=
  (rows.filter fun row => row.nodeId = nodeId ∧ row.requestId = requestId).argmax issuedAtNs

def update (hits : MemoryTierLease → Bool) (set : MemoryTierLease → MemoryTierLease) (rows : Rows) :
    Option MemoryTierLease × Rows :=
  ((rows.find? hits).map set, rows.map fun row => if hits row then set row else row)

def acknowledgeAcquired (a : Acknowledgement) (now : ℤ) : Rows → Option MemoryTierLease × Rows :=
  update a.hits (a.set .active now)

def acknowledgeReleased (a : Acknowledgement) (now : ℤ) : Rows → Option MemoryTierLease × Rows :=
  update a.hits (a.set .expired now)

def markRevoking (leaseId : String) : Rows → Option MemoryTierLease × Rows :=
  update (·.leaseId = leaseId) fun row => { row with state := .revoking }

/-! ## The service -/

/-- The calls, with the lease id that is drawn and the time that is read. -/
inductive Call
  | requestLease (r : LeaseRequest) (leaseId : String) (now : ℤ)
  | acknowledge (a : Acknowledgement) (now : ℤ)
  | revoke (leaseId : String)

/-- The first statement of a call, and the second ones. -/
inductive Action
  | call (c : Call)
  | create (lease : MemoryTierLease)
  | acknowledgeAcquired (a : Acknowledgement) (now : ℤ)
  | acknowledgeReleased (a : Acknowledgement) (now : ℤ)

def act : Action → Rows → Option (Rows × List Action)
  | .call (.requestLease r leaseId now), rows =>
    some (rows, match findByRequest r.nodeId r.requestId rows with
      | some _ => []
      | none => [.create (r.lease leaseId now)])
  | .call (.acknowledge a now), rows =>
    some (rows, match findById a.leaseId rows with
      | none => []
      | some existing =>
        if a.artifactId ≠ "" ∧ existing.artifactId ≠ a.artifactId then []
        else match a.action with
          | .acquired => [.acknowledgeAcquired a now]
          | .released => [.acknowledgeReleased a now]
          | .unknown _ => [])
  | .call (.revoke leaseId), rows => some ((markRevoking leaseId rows).2, [])
  -- an insertion that is refused fails the call and changes nothing
  | .create lease, rows => some ((create lease rows).getD rows, [])
  | .acknowledgeAcquired a now, rows => some ((acknowledgeAcquired a now rows).2, [])
  | .acknowledgeReleased a now, rows => some ((acknowledgeReleased a now rows).2, [])

abbrev Calls := Agendas Rows Action

def step : Agendas.Move Call → Calls → Option Calls := Agendas.step (fun c => [.call c]) act

/-- A lease is not revoked after its release and not acquired after its revocation, an acknowledgement
has the request id of its lease, and no other copy of a request has got a lease between the two
statements of `request_lease`. -/
def Orderly (rows : Rows) (_ : Multiset Action) : Action → Prop
  | .call (.revoke leaseId) => ∀ row ∈ rows, row.leaseId = leaseId → row.state ≠ .expired
  | .call _ => True
  | .create lease => findByRequest lease.nodeId lease.requestId rows = none
  | .acknowledgeAcquired a _ => ∀ row ∈ rows, a.hits row →
    row.requestId = a.requestId ∧ (row.state = .pending ∨ row.state = .active)
  | .acknowledgeReleased a _ => ∀ row ∈ rows, a.hits row → row.requestId = a.requestId

abbrev Reached : Calls → Calls → Prop := Reaches step (Agendas.Allowed Orderly)

/-! ## What a statement does -/

/-- The row of a lease at a later time: an expired lease stays expired, and a revoked one is revoked
or has expired. -/
structure Later (row row' : MemoryTierLease) : Prop where
  leaseId : row'.leaseId = row.leaseId
  request : (row'.nodeId, row'.requestId) = (row.nodeId, row.requestId)
  expired : row.state = .expired → row'.state = .expired
  revoking : row.state = .revoking → row'.state = .revoking ∨ row'.state = .expired

/-- A lease id has one row, and a request of a node has one lease. -/
structure Distinct (rows : Rows) : Prop where
  ids : (rows.map leaseId).Nodup
  requests : (rows.map fun row => (row.nodeId, row.requestId)).Nodup

variable {rows rows' : Rows} {row row' row'' : MemoryTierLease} {a : Action} {more : List Action}
  {others : Multiset Action}

lemma Later.refl (row : MemoryTierLease) : Later row row := ⟨rfl, rfl, id, .inl⟩

lemma Later.trans (h : Later row row') (h' : Later row' row'') : Later row row'' where
  leaseId := h'.leaseId.trans h.leaseId
  request := h'.request.trans h.request
  expired hrow := h'.expired (h.expired hrow)
  revoking hrow := (h.revoking hrow).elim h'.revoking fun hexpired => .inr (h'.expired hexpired)

lemma findByRequest_eq_none {nodeId requestId : String} :
    findByRequest nodeId requestId rows = none ↔
      ∀ row ∈ rows, (row.nodeId, row.requestId) ≠ (nodeId, requestId) := by
  simp [findByRequest]

lemma act_cases (h : act a rows = some (rows', more)) (hok : Orderly rows others a) :
    (∃ f, rows' = rows.map f ∧ ∀ row ∈ rows, Later row (f row)) ∨
      ∃ lease, rows' = rows ++ [lease] ∧ (∀ row ∈ rows, row.leaseId ≠ lease.leaseId) ∧
        ∀ row ∈ rows, (row.nodeId, row.requestId) ≠ (lease.nodeId, lease.requestId) := by
  have hkept : ∃ f, rows = rows.map f ∧ ∀ row ∈ rows, Later row (f row) :=
    ⟨id, (map_id rows).symm, fun row _ => .refl row⟩
  have hupdate {hits : MemoryTierLease → Bool} {set : MemoryTierLease → MemoryTierLease}
      (hset : ∀ row ∈ rows, hits row → Later row (set row)) :
      ∃ f, (update hits set rows).2 = rows.map f ∧ ∀ row ∈ rows, Later row (f row) := by
    refine ⟨_, rfl, fun row hrow => ?_⟩
    split_ifs with hhit
    · exact hset row hrow hhit
    · exact .refl row
  cases a with
  | call c =>
    cases c with
    | requestLease | acknowledge =>
      cases h
      exact .inl hkept
    | revoke leaseId =>
      cases h
      refine .inl (hupdate fun row hrow hhit => ⟨rfl, rfl, ?_, fun _ => .inl rfl⟩)
      exact fun hexpired => absurd hexpired (hok row hrow (of_decide_eq_true hhit))
  | create lease =>
    cases h
    rw [create]
    split_ifs with hid
    · exact .inl hkept
    · exact .inr ⟨lease, rfl, by simpa using hid, findByRequest_eq_none.mp hok⟩
  | acknowledgeAcquired ack now =>
    cases h
    refine .inl (hupdate fun row hrow hhit => ?_)
    obtain ⟨hrequest, _⟩ := hok row hrow hhit
    refine ⟨rfl, by rw [hrequest]; rfl, ?_, ?_⟩ <;> grind
  | acknowledgeReleased ack now =>
    cases h
    refine .inl (hupdate fun row hrow hhit => ?_)
    exact ⟨rfl, by rw [hok row hrow hhit]; rfl, fun _ => rfl, fun _ => .inr rfl⟩

/-! ## Runs -/

lemma Distinct.act (h : Distinct rows) (hact : act a rows = some (rows', more))
    (hok : Orderly rows others a) : Distinct rows' := by
  obtain ⟨f, rfl, hlater⟩ | ⟨_, rfl, hid, hrequest⟩ := act_cases hact hok
  · have hids : (rows.map f).map leaseId = rows.map leaseId := by
      rw [map_map]
      exact map_congr_left fun row hrow => (hlater row hrow).leaseId
    have hrequests : (rows.map f).map (fun row => (row.nodeId, row.requestId)) =
        rows.map fun row => (row.nodeId, row.requestId) := by
      rw [map_map]
      exact map_congr_left fun row hrow => (hlater row hrow).request
    exact ⟨hids ▸ h.ids, hrequests ▸ h.requests⟩
  · constructor
    · rw [map_append]
      refine h.ids.append (nodup_singleton _) ?_
      simpa using hid
    · rw [map_append]
      refine h.requests.append (nodup_singleton _) ?_
      simpa using hrequest

lemma distinct_of_reached {p : Calls} (h : Reached ⟨[], []⟩ p) : Distinct p.shared :=
  Agendas.invariant (I := fun rows _ => Distinct rows) h ⟨.nil, .nil⟩ (fun _ _ _ hrows => hrows)
    fun _ _ _ _ _ hok hact hrows => hrows.act hact hok

lemma later_of_reached {p q : Calls} (h : Reached p q) :
    ∀ row ∈ p.shared, ∃ row' ∈ q.shared, Later row row' := by
  intro row hrow
  refine Agendas.invariant (I := fun rows _ => ∃ row' ∈ rows, Later row row') h
    ⟨row, hrow, .refl row⟩ (fun _ _ _ hrows => hrows) ?_
  rintro a rows rows' more others hok hact ⟨row', hrow', hlater⟩
  obtain ⟨f, rfl, hstep⟩ | ⟨-, rfl, -⟩ := act_cases hact hok
  · exact ⟨f row', mem_map_of_mem hrow', hlater.trans (hstep row' hrow')⟩
  · exact ⟨row', mem_append_left _ hrow', hlater⟩

/-- As long as the calls come in order: a lease stays in the table, for the same request; an expired
one stays so, a revoked one can only expire; and a request of a node has one lease at most. -/
theorem lease_states_are_final {p q : Calls} (hp : Reached ⟨[], []⟩ p) (hq : Reached p q) :
    (∀ row ∈ p.shared, ∃ row' ∈ q.shared, Later row row') ∧ Distinct q.shared :=
  ⟨later_of_reached hq, distinct_of_reached (hp.trans hq)⟩

/-- A node asks for two chunks of an artifact. -/
def twoChunks : LeaseRequest :=
  { nodeId := "node", kind := "stable", artifactId := "artifact", chunkIds := [0, 1]
    ledgerVersion := 1, bytesCount := 64, workloadId := "default", requestId := "request" }

/-- The daemon answers for the lease `"lease"`. -/
def answered (action : AckAction) : Call :=
  .acknowledge { leaseId := "lease", action, artifactId := "artifact", chunkIds := [0, 1]
                 ledgerVersion := 1, bytesCount := 64, requestId := "request" } 2

theorem lease_states_are_final_acquired :
    ∃ p q : Calls, p.shared.map (·.state) = [.pending] ∧ q.shared.map (·.state) = [.active] ∧
      (∀ row ∈ p.shared, ∃ row' ∈ q.shared, Later row row') ∧ Distinct q.shared := by
  have hp : Reached ⟨[], []⟩ ⟨[twoChunks.lease "lease" 1], [[]]⟩ := by
    refine .snoc (t := .resume 0) (.snoc (t := .resume 0)
      (.snoc (t := .call (.requestLease twoChunks "lease" 1)) .refl trivial rfl) ?_ rfl) ?_ rfl
    · exact Agendas.allowed_resume rfl fun _ _ => trivial
    · exact Agendas.allowed_resume rfl fun _ _ => rfl
  refine ⟨_, _, ?_, ?_, lease_states_are_final hp (.snoc (t := .resume 1) (.snoc (t := .resume 1)
    (.snoc (t := .call (answered .acquired)) .refl trivial rfl) ?_ rfl) ?_ rfl)⟩
  · rfl
  · rfl
  · exact Agendas.allowed_resume rfl fun _ _ => trivial
  · refine Agendas.allowed_resume rfl fun _ _ row hrow _ => ?_
    obtain rfl := mem_singleton.mp hrow
    exact ⟨rfl, .inl rfl⟩

/-- A lease is acquired, revoked and released, and acquisitions come again after either. -/
def lateAcquisitions : List (Agendas.Move Call) :=
  [.call (.requestLease twoChunks "lease" 1), .resume 0, .resume 0,
    .call (.revoke "lease"), .resume 1,
    .call (answered .acquired), .resume 2, .resume 2,
    .call (answered .released), .resume 3, .resume 3,
    .call (answered .acquired), .resume 4, .resume 4]

/-- A late acquisition makes a revoked lease active, and a released one; and two copies of a request
get a lease each. -/
theorem late_acquisition_revives_lease :
    (([5, 8, 11, 14].map fun n =>
        (run step (fun _ _ => true) (lateAcquisitions.take n) ⟨[], []⟩).map
          fun p => p.shared.map (·.state)) =
      [some [.revoking], some [.active], some [.expired], some [.active]]) ∧
    ∃ p : Calls, run step (fun _ _ => true)
        [.call (.requestLease twoChunks "first" 1), .resume 0,
          .call (.requestLease twoChunks "second" 1), .resume 1, .resume 0, .resume 1]
        ⟨[], []⟩ = some p ∧
      p.shared.map (fun row => (row.leaseId, row.nodeId, row.requestId)) =
        [("first", "node", "request"), ("second", "node", "request")] :=
  ⟨rfl, _, rfl, rfl⟩

end MemoryTierLease

end TensorCast.GlobalStore
