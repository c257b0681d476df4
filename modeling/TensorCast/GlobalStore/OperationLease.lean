import TensorCast.GlobalStore.ShardHomeLease

/-!
# Operation leases

The row of `operations` for one operation, with the lease of its coordinator.  A call of the handler is
one transaction: a call that fails changes nothing.
-/

namespace TensorCast.GlobalStore

open Lib Option Except

/-- The columns of a lease, which are set together and cleared together. -/
structure CoordinatorLease where
  owner : String
  token : String
  expiresAt : ℤ
deriving DecidableEq, Repr

structure Operation where
  kind : String
  targetArtifactId : String
  state : String
  statusProto : List UInt8
  snapshotProto : Option (List UInt8) := none
  lease : Option CoordinatorLease := none
  leaseGeneration : ℕ := 0
  updatedAt : ℤ
deriving DecidableEq, Repr

structure AcquireLease where
  kind : String
  targetArtifactId : String
  ownerId : String
  ttlMs : ℤ
  initialState : String
  initialStatusProto : List UInt8

structure UpdateOperation where
  leaseGeneration : ℤ
  state : String
  statusProto : List UInt8
  snapshotProto : Option (List UInt8)
  minStatusUpdateIntervalMs : ℤ

namespace Operation

def ensureRow (c : AcquireLease) (now : ℤ) : Option Operation → Except String Operation
  | none =>
    .ok { kind := c.kind, targetArtifactId := c.targetArtifactId, state := c.initialState
          statusProto := c.initialStatusProto, updatedAt := now }
  | some row =>
    if row.kind ≠ c.kind ∨ row.targetArtifactId ≠ c.targetArtifactId then
      .error "operation_id conflict with different kind/target"
    else .ok row

def active (now : ℤ) (lease : CoordinatorLease) : Bool := lease.token ≠ "" ∧ now < lease.expiresAt

def withLease (now : ℤ) (owner token : String) (ttlMs : ℤ) (row : Operation) : Operation :=
  { row with lease := some ⟨owner, token, deadline now ttlMs⟩, updatedAt := now }

def acquireLease (c : AcquireLease) (now : ℤ) (newToken : String) (row : Option Operation) :
    Except String (Bool × Operation) :=
  (ensureRow c now row).map fun row =>
    let fresh := { row with leaseGeneration := row.leaseGeneration + 1 }.withLease now c.ownerId
      newToken c.ttlMs
    match row.lease with
    | none => (true, fresh)
    | some lease =>
      if active now lease = true ∧ lease.owner ≠ "" ∧ lease.owner ≠ c.ownerId then (false, row)
      else if active now lease = true ∧ lease.owner = c.ownerId then
        (true, row.withLease now c.ownerId lease.token c.ttlMs)
      else (true, fresh)

def keepaliveLease (token : String) (ttlMs now : ℤ) : Option Operation → Except String Operation
  | none => .error "lease_token not found"
  | some row =>
    match row.lease with
    | none => .error "lease_token not found"
    | some lease =>
      if lease.token ≠ token then .error "lease_token not found"
      else .ok (row.withLease now lease.owner token ttlMs)

def releaseLease (token : String) (now : ℤ) : Option Operation → Bool × Option Operation
  | none => (false, none)
  | some row =>
    if row.lease.map (·.token) ≠ some token then (false, some row)
    else (true, some { row with lease := none, updatedAt := now })

/-- `update_operation`.  An update that comes too soon after another is accepted and not written. -/
def updateOperation (u : UpdateOperation) (now : ℤ) : Option Operation → Except String Operation
  | none => .error "operation not found"
  | some row =>
    if row.leaseGeneration ≠ u.leaseGeneration then .error "stale lease_generation"
    else if row.lease.any (active now) = false then .error "operation lease expired"
    else
      let settingSnapshot := u.snapshotProto ≠ none ∧ u.snapshotProto ≠ row.snapshotProto
      if 0 < u.minStatusUpdateIntervalMs ∧ row.state = u.state ∧ ¬ settingSnapshot ∧
          (now - row.updatedAt).tdiv 1000 < u.minStatusUpdateIntervalMs then .ok row
      else
        .ok { row with
          state := u.state, statusProto := u.statusProto
          snapshotProto := u.snapshotProto.or row.snapshotProto, updatedAt := now }

/-! ## Runs -/

/-- The calls of the handler, with the token that `acquire_lease` may draw. -/
inductive Call
  | acquire (c : AcquireLease) (newToken : String)
  | keepalive (token : String) (ttlMs : ℤ)
  | release (token : String)
  | update (u : UpdateOperation)

abbrev System := Leased (Option Operation) String String

def token? (row : Option Operation) : Option String := (row.bind lease).map (·.token)

/-- The clock does not go back.  A lease with a token that the row did not have is noted. -/
def step : ℤ × Call → System → Option System
  | (now, call), s =>
    if now < s.clock then none
    else
      match call with
      | .acquire c newToken => (acquireLease c now newToken s.row).toOption.map fun (acquired, row) =>
        ⟨some row, now, if acquired = true ∧ token? s.row ≠ token? (some row) then
          s.grants ++ [⟨newToken, row.leaseGeneration, c.ownerId⟩] else s.grants⟩
      | .keepalive token ttlMs => (keepaliveLease token ttlMs now s.row).toOption.map fun row =>
        { s with row := some row, clock := now }
      | .release token => some { s with row := (releaseLease token now s.row).2, clock := now }
      | .update u => (updateOperation u now s.row).toOption.map fun row =>
        { s with row := some row, clock := now }

/-- A token that is drawn was never given out. -/
def Fresh (s : System) : ℤ × Call → Prop
  | (_, .acquire _ newToken) => newToken ≠ "" ∧ ∀ grant ∈ s.grants, grant.token ≠ newToken
  | _ => True

/-- And a lease is kept alive only before it has ended. -/
def Timely (s : System) : ℤ × Call → Prop
  | (now, .keepalive token _) =>
    ∀ held, s.row.bind lease = some held → held.token = token → active now held = true
  | call => Fresh s call

/-- The fencing lease of a row. -/
def toLease : Option Operation → Lease String
  | none => {}
  | some row =>
    ⟨(row.lease.map (·.token)).filter (· ≠ ""), row.leaseGeneration, (row.lease.map (·.expiresAt)).getD 0⟩

variable {s s' : System} {row : Operation} {now : ℤ}

lemma active_iff : row.lease.any (active now) = true ↔
    (toLease (some row)).token ≠ none ∧ now < (toLease (some row)).expiresAt := by
  rw [toLease]
  cases row.lease <;> simp [active]

lemma ensureRow_eq_ok {c : AcquireLease} {old : Option Operation} (h : ensureRow c now old = .ok row) :
    toLease old = toLease (some row) ∧ token? old = token? (some row) := by
  cases old with
  | none =>
    cases h
    exact ⟨rfl, rfl⟩
  | some old =>
    obtain ⟨-, ⟨⟩⟩ | ⟨-, ⟨⟩⟩ := ite_eq_iff.mp h
    exact ⟨rfl, rfl⟩

lemma updateOperation_eq_ok {u : UpdateOperation} {old : Option Operation}
    (h : updateOperation u now old = .ok row) :
    ∃ r, old = some r ∧ r.leaseGeneration = u.leaseGeneration ∧ r.lease.any (active now) = true ∧
      toLease (some row) = toLease (some r) := by
  cases old with
  | none => cases h
  | some r =>
    obtain ⟨-, ⟨⟩⟩ | ⟨hgen, h⟩ := ite_eq_iff.mp h
    obtain ⟨-, ⟨⟩⟩ | ⟨hactive, h⟩ := ite_eq_iff.mp h
    refine ⟨r, rfl, not_not.mp hgen, Bool.not_eq_false _ ▸ hactive, ?_⟩
    obtain ⟨-, ⟨⟩⟩ | ⟨-, ⟨⟩⟩ := ite_eq_iff.mp h
    · rfl
    · rfl

section

variable {grants : List (Grant String String)} {held : CoordinatorLease} {owner : String} {ttlMs : ℤ}

lemma step_renew (hlease : row.lease = some held) (hactive : active now held = true) :
    Lease.Step now (toLease (some row)) grants
      (toLease (some (row.withLease now owner held.token ttlMs))) grants := by
  obtain ⟨-, hvalid⟩ := active_iff.mp (by rwa [hlease] : row.lease.any (active now) = true)
  have hrenew : Lease.Step now (toLease (some row)) grants _ _ := .renew (deadline now ttlMs) hvalid
  simpa [toLease, hlease, withLease] using hrenew

lemma step_fresh (h : Lease.Fenced (toLease (some row)) grants) {newToken : String} (hne : newToken ≠ "")
    (hnew : ∀ grant ∈ grants, grant.token ≠ newToken) :
    Lease.Step now (toLease (some row)) grants
      (toLease (some ({ row with leaseGeneration := row.leaseGeneration + 1 }.withLease now owner newToken
        ttlMs)))
      (if true = true ∧ token? (some row) ≠ some newToken then
        grants ++ [⟨newToken, row.leaseGeneration + 1, owner⟩] else grants) := by
  have hother : token? (some row) ≠ some newToken := by
    intro htoken
    obtain ⟨held, hlease, rfl⟩ := map_eq_some_iff.mp htoken
    replace hlease : row.lease = some held := hlease
    obtain ⟨grant, hgrant, hgt, -⟩ := h.current held.token (by simp [toLease, hlease, hne])
    exact hnew grant hgrant hgt
  have hgrant : Lease.Step now (toLease (some row)) grants _ _ :=
    .grant newToken owner (deadline now ttlMs) hnew
  rw [if_pos ⟨rfl, hother⟩]
  simpa [toLease, withLease, hne, Option.filter] using hgrant

end

lemma follows : Follows toLease step Timely := by
  rintro ⟨old, _, grants⟩ ⟨now, call⟩ s' h htimely hstep
  obtain ⟨-, ⟨⟩⟩ | ⟨hle, hs'⟩ := ite_eq_iff.mp hstep
  have hle := not_lt.mp hle
  cases call with
  | acquire c newToken =>
    obtain ⟨⟨_, row'⟩, hres, rfl⟩ := map_eq_some_iff.mp hs'
    refine ⟨hle, ?_⟩
    rw [acquireLease] at hres
    cases hensure : ensureRow c now old with
    | error => simp [hensure, Except.map, Except.toOption] at hres
    | ok row =>
      obtain ⟨hsame, htoken⟩ := ensureRow_eq_ok hensure
      simp only [hensure, Except.map, Except.toOption, some_inj] at hres
      rw [hsame] at h ⊢
      rw [htoken]
      split at hres
      · cases hres
        exact step_fresh h htimely.1 htimely.2
      rename_i held hlease
      obtain ⟨-, ⟨⟩⟩ | ⟨-, hres⟩ := ite_eq_iff.mp hres
      · simpa using Lease.Step.stay
      obtain ⟨hactive, ⟨⟩⟩ | ⟨-, ⟨⟩⟩ := ite_eq_iff.mp hres
      · simpa [token?, hlease, withLease] using step_renew hlease hactive.1
      · exact step_fresh h htimely.1 htimely.2
  | keepalive token ttlMs =>
    obtain ⟨row', hres, rfl⟩ := map_eq_some_iff.mp hs'
    refine ⟨hle, ?_⟩
    cases old with
    | none => cases hres
    | some row =>
      rw [keepaliveLease] at hres
      split at hres
      · cases hres
      rename_i held hlease
      split_ifs at hres with htoken
      · cases hres
      · cases hres
        obtain rfl := not_not.mp htoken
        exact step_renew hlease (htimely held hlease rfl)
  | release token =>
    cases hs'
    refine ⟨hle, ?_⟩
    cases old with
    | none => exact .stay
    | some row =>
      dsimp only [releaseLease]
      split_ifs
      · exact .stay
      · exact (.giveUp 0 : Lease.Step now (toLease (some row)) grants _ _)
  | update u =>
    obtain ⟨row', hres, rfl⟩ := map_eq_some_iff.mp hs'
    refine ⟨hle, ?_⟩
    cases hok : updateOperation u now old with
    | error => simp [hok, Except.toOption] at hres
    | ok row =>
      obtain ⟨r, rfl, -, -, hsame⟩ := updateOperation_eq_ok hok
      simp only [hok, Except.toOption] at hres
      rw [← hres, hsame]
      exact .stay

lemma granted (h : Lease.Fenced (toLease s.row) s.grants) (hrow : s.row = some row)
    (hactive : row.lease.any (active now) = true) : ∃ grant ∈ s.grants,
      grant.generation = row.leaseGeneration ∧ row.lease.map (·.token) = some grant.token := by
  obtain ⟨htoken, -⟩ := active_iff.mp hactive
  obtain ⟨token, htoken⟩ := ne_none_iff_exists'.mp htoken
  obtain ⟨grant, hgrant, rfl, hgen⟩ := h.current token (by rw [hrow, htoken])
  rw [hrow] at hgen
  exact ⟨grant, hgrant, hgen, (filter_eq_some_iff.mp htoken).1⟩

def acquireBy (owner : String) : AcquireLease := ⟨"kind", "artifact", owner, 0, "pending", []⟩

/-- A lease is acquired for no time. -/
def briefly : System :=
  ⟨some ⟨"kind", "artifact", "pending", [], none, some ⟨"owner", "t1", 0⟩, 1, 0⟩, 0, [⟨"t1", 1, "owner"⟩]⟩

lemma briefly_reached : Reaches step Timely ⟨none, 0, []⟩ briefly :=
  .snoc .refl (t := (0, .acquire (acquireBy "owner") "t1")) ⟨by decide, nofun⟩ rfl

end Operation

end TensorCast.GlobalStore
