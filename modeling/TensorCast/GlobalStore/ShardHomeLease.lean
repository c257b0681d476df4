import TensorCast.Lib.Fencing

/-!
# Shard-home leases

The row of `shard_home_leases` that says which daemon is the home of a shard.  A call of the service is
one transaction, and finds the row by the shard or by the token, which no other shard has.  Times are in
microseconds.
-/

namespace TensorCast.GlobalStore

open Lib

structure ShardHomeLease where
  holderDaemonId : String
  leaseToken : String
  leaseGeneration : ℕ
  expiresAt : ℤ
deriving DecidableEq, Repr

def deadline (now ttlMs : ℤ) : ℤ := now + 1000 * max 0 ttlMs

namespace ShardHomeLease

/-- `_is_active`, with the time of the call. -/
def isActive (now : ℤ) (lease : ShardHomeLease) : Bool :=
  now < lease.expiresAt ∧ lease.holderDaemonId ≠ "" ∧ lease.leaseToken ≠ "" ∧
    0 < lease.leaseGeneration

def renewable (holder : String) (now : ℤ) (row : ShardHomeLease) : Bool :=
  row.holderDaemonId = holder ∧ row.leaseToken ≠ "" ∧ 0 < row.leaseGeneration ∧ now < row.expiresAt

/-- `acquire` gives the lease to a new holder. -/
def free (now : ℤ) (row : ShardHomeLease) : Bool :=
  row.expiresAt ≤ now ∨ row.holderDaemonId = "" ∨ row.leaseToken = ""

def reissue (holder token : String) (expiresAt : ℤ) (row : ShardHomeLease) : ShardHomeLease :=
  ⟨holder, token, row.leaseGeneration + 1, expiresAt⟩

/-- `acquire`, with the three tokens that it may draw: whether the lease was acquired, and the lease,
which is the row from then on. -/
def acquire (holder : String) (ttlMs now : ℤ) (newToken insertToken finalToken : String) :
    Option ShardHomeLease → Bool × ShardHomeLease
  | none => (true, ⟨holder, insertToken, 1, deadline now ttlMs⟩)
  | some row =>
    if row.renewable holder now = true then (true, { row with expiresAt := deadline now ttlMs })
    else if row.free now = true then (true, row.reissue holder newToken (deadline now ttlMs))
    else if row.isActive now = true then (row.holderDaemonId = holder, row)
    else if row.free now = true then (true, row.reissue holder finalToken (deadline now ttlMs))
    else (false, row)

def keepalive (token : String) (ttlMs now : ℤ) : Option ShardHomeLease → Except String ShardHomeLease
  | none => .error "lease_token not found"
  | some row =>
    if row.leaseToken ≠ token then .error "lease_token not found"
    else if row.expiresAt ≤ now then .error "lease expired"
    else .ok { row with expiresAt := deadline now ttlMs }

def release (token : String) (now : ℤ) : Option ShardHomeLease → Bool × Option ShardHomeLease
  | none => (false, none)
  | some row =>
    if row.leaseToken ≠ token then (false, some row)
    else (true, some ⟨"", "", row.leaseGeneration, now⟩)

/-! ## Runs -/

/-- The calls of the service, with the tokens that `acquire` draws. -/
inductive Call
  | acquire (holder : String) (ttlMs : ℤ) (tokens : String × String × String)
  | keepalive (token : String) (ttlMs : ℤ)
  | release (token : String)
deriving DecidableEq, Repr

abbrev System := Leased (Option ShardHomeLease) String String

/-- The clock does not go back.  A lease with a token that the row did not have is noted. -/
def step : ℤ × Call → System → Option System
  | (now, call), s =>
    if now < s.clock then none
    else
      some <| match call with
        | .acquire holder ttlMs (newToken, insertToken, finalToken) =>
          let (acquired, lease) := acquire holder ttlMs now newToken insertToken finalToken s.row
          ⟨some lease, now, if acquired = true ∧ s.row.map leaseToken ≠ some lease.leaseToken then
            s.grants ++ [⟨lease.leaseToken, lease.leaseGeneration, holder⟩] else s.grants⟩
        | .keepalive token ttlMs =>
          { s with row := (keepalive token ttlMs now s.row).toOption.or s.row, clock := now }
        | .release token => { s with row := (release token now s.row).2, clock := now }

/-- A token that is drawn was never given out, and no call is made with the empty one. -/
def Fresh (s : System) : ℤ × Call → Prop
  | (_, .acquire _ _ (newToken, insertToken, finalToken)) =>
    ∀ token ∈ [newToken, insertToken, finalToken], token ≠ "" ∧ ∀ grant ∈ s.grants, grant.token ≠ token
  | (_, .keepalive token _) | (_, .release token) => token ≠ ""

/-- The fencing lease of a row. -/
def toLease : Option ShardHomeLease → Lease String
  | none => {}
  | some row =>
    ⟨if row.leaseToken = "" then none else some row.leaseToken, row.leaseGeneration, row.expiresAt⟩

variable {s s' : System} {row : ShardHomeLease} {now : ℤ} {token : String}

lemma toLease_token (htoken : token ≠ "") :
    (toLease (some row)).token = some token ↔ row.leaseToken = token := by
  by_cases hempty : row.leaseToken = "" <;> simp [toLease, hempty, htoken.symm]

/-- What `acquire` can do: it renews the lease, gives out a token, or leaves a lease that is held.  In one
transaction the last attempt finds what the first has found. -/
lemma acquire_cases (holder : String) (ttlMs now : ℤ) (newToken insertToken finalToken : String)
    (row : Option ShardHomeLease) :
    (∃ r, row = some r ∧ now < r.expiresAt ∧
      acquire holder ttlMs now newToken insertToken finalToken row =
        (true, { r with expiresAt := deadline now ttlMs })) ∨
    (∃ token ∈ [newToken, insertToken, finalToken],
      acquire holder ttlMs now newToken insertToken finalToken row =
        (true, ⟨holder, token, (toLease row).generation + 1, deadline now ttlMs⟩)) ∨
    ∃ r acquired, row = some r ∧ r.free now = false ∧ (acquired = false → r.isActive now = true →
      r.holderDaemonId ≠ holder) ∧
      acquire holder ttlMs now newToken insertToken finalToken row = (acquired, r) := by
  cases row with
  | none => exact .inr (.inl ⟨insertToken, by simp, rfl⟩)
  | some r =>
    rw [acquire]
    by_cases hrenew : r.renewable holder now = true
    · rw [if_pos hrenew]
      simp only [renewable, decide_eq_true_eq] at hrenew
      exact .inl ⟨r, rfl, hrenew.2.2.2, rfl⟩
    rw [if_neg hrenew]
    by_cases hfree : r.free now = true
    · exact .inr (.inl ⟨newToken, by simp, if_pos hfree⟩)
    have hheld := Bool.eq_false_iff.mpr hfree
    split_ifs with hactive
    · exact .inr (.inr ⟨r, _, rfl, hheld, fun hother _ => of_decide_eq_false hother, rfl⟩)
    · exact .inr (.inr ⟨r, _, rfl, hheld, fun _ h => absurd h hactive, rfl⟩)

lemma follows : Follows toLease step Fresh := by
  rintro ⟨row, _, grants⟩ ⟨now, call⟩ s' h hfresh hstep
  obtain ⟨-, ⟨⟩⟩ | ⟨hle, hs'⟩ := ite_eq_iff.mp hstep
  have hle := not_lt.mp hle
  cases call with
  | acquire holder ttlMs tokens =>
    obtain ⟨newToken, insertToken, finalToken⟩ := tokens
    cases hs'
    refine ⟨hle, ?_⟩
    obtain ⟨r, rfl, hvalid, heq⟩ | ⟨token, hdrawn, heq⟩ | ⟨r, _, rfl, -, -, heq⟩ :=
      acquire_cases holder ttlMs now newToken insertToken finalToken row
    · have hrenew : Lease.Step now (toLease (some r)) grants _ _ := .renew (deadline now ttlMs) hvalid
      simpa [heq, toLease] using hrenew
    · obtain ⟨hne, hnew⟩ := hfresh token hdrawn
      -- no row has a token that is drawn
      have hother : row.map leaseToken ≠ some token := by
        rintro hrow
        obtain ⟨r, rfl, rfl⟩ := Option.map_eq_some_iff.mp hrow
        obtain ⟨grant, hgrant, hgt, -⟩ := h.current r.leaseToken ((toLease_token hne).mpr rfl)
        exact hnew grant hgrant hgt
      simpa [heq, hother, toLease, hne] using Lease.Step.grant token holder (deadline now ttlMs) hnew
    · simpa [heq] using Lease.Step.stay
  | keepalive token ttlMs =>
    cases hs'
    refine ⟨hle, ?_⟩
    cases row with
    | none => exact .stay
    | some r =>
      dsimp only [keepalive]
      split_ifs with htoken hended
      · exact .stay
      · exact .stay
      · exact (.renew _ (not_le.mp hended) : Lease.Step now (toLease (some r)) grants _ _)
  | release token =>
    cases hs'
    refine ⟨hle, ?_⟩
    cases row with
    | none => exact .stay
    | some r =>
      dsimp only [release]
      split_ifs
      · exact .stay
      · exact (.giveUp now : Lease.Step now (toLease (some r)) grants _ _)

def Active (s : System) (now : ℤ) (holder token : String) : Prop :=
  ∃ row, s.row = some row ∧ row.isActive now = true ∧ row.holderDaemonId = holder ∧ row.leaseToken = token

/-- One holder and token is active; later tokens have larger generations; a token that has ended or was
given up is never kept alive and ends no active lease, and one that was given up is not found any more;
and `acquire` is refused only when another holder is active. -/
theorem shard_home_leases_fence (h : Reaches step Fresh ⟨none, 0, []⟩ s) :
    (∀ now holder token holder' token', Active s now holder token → Active s now holder' token' →
      holder = holder' ∧ token = token') ∧
    (s.grants.Pairwise fun grant later =>
      grant.token ≠ later.token ∧ grant.generation < later.generation) ∧
    (∀ grant ∈ s.grants, grant.token ≠ "" → ∀ now, s.clock ≤ now →
      (∀ row, s.row = some row → row.leaseToken = grant.token → row.expiresAt ≤ now) →
      ∀ s', Reaches step Fresh { s with clock := now } s' → ∀ later, s'.clock ≤ later →
        (∀ ttlMs lease, keepalive grant.token ttlMs later s'.row ≠ .ok lease) ∧
        (∀ holder token, Active s' later holder token →
          release grant.token later s'.row = (false, s'.row)) ∧
        ((∀ row, s.row = some row → row.leaseToken ≠ grant.token) →
          release grant.token later s'.row = (false, s'.row))) ∧
    ∀ holder ttlMs now newToken insertToken finalToken,
      (acquire holder ttlMs now newToken insertToken finalToken s.row).1 = false →
      ∃ other token, Active s now other token ∧ other ≠ holder := by
  obtain ⟨hfenced, -, -⟩ := follows.reaches h .empty
  refine ⟨?_, hfenced.ordered, ?_, ?_⟩
  · rintro now _ _ _ _ ⟨row, hrow, -, rfl, rfl⟩ ⟨row', hrow', -, rfl, rfl⟩
    cases hrow.symm.trans hrow'
    exact ⟨rfl, rfl⟩
  · intro grant hgrant htoken now hle hended s' hreach later hlater
    obtain ⟨hfenced', hsub, hlate⟩ := follows.reaches hreach hfenced
    -- the token is in the row still, and its lease has ended
    have hdead (row : ShardHomeLease) (hrow : s'.row = some row) (hrt : row.leaseToken = grant.token) :
        (∃ row, s.row = some row ∧ row.leaseToken = grant.token) ∧ row.expiresAt ≤ later := by
      have hnow : (toLease s'.row).token = some grant.token := by rw [hrow, toLease_token htoken, hrt]
      obtain ⟨hgen, hold⟩ := hfenced.same hfenced' hsub hlate hgrant hnow
      cases hs : s.row with
      | none => simp [hs, toLease] at hold
      | some old =>
        rw [hs, toLease_token htoken] at hold
        refine ⟨⟨old, rfl, hold⟩, not_lt.mp fun hvalid => ?_⟩
        have hbefore := hlate.valid hgen (by simp [hnow]) (by rw [hrow]; exact hlater.trans_lt hvalid)
        exact absurd (hended old hs hold) (by simpa [hs, toLease] using hbefore)
    cases hrow : s'.row with
    | none => exact ⟨nofun, fun _ _ ⟨_, hrow', _⟩ => rfl, fun _ => rfl⟩
    | some row =>
      by_cases hrt : row.leaseToken = grant.token
      · obtain ⟨⟨old, hs, hold⟩, hend⟩ := hdead row hrow hrt
        refine ⟨fun _ _ => ?_, ?_, fun hgone => absurd hold (hgone old hs)⟩
        · simp [keepalive, hrt, hend]
        · rintro holder token ⟨row', hrow', hactive, -⟩
          cases hrow.symm.trans hrow'
          simp only [isActive, decide_eq_true_eq] at hactive
          omega
      · exact ⟨by simp [keepalive, hrt], by simp [release, hrt], by simp [release, hrt]⟩
  · intro holder ttlMs now newToken insertToken finalToken hrefused
    obtain ⟨r, -, -, heq⟩ | ⟨token, -, heq⟩ | ⟨r, _, hrow, hheld, hother, heq⟩ :=
      acquire_cases holder ttlMs now newToken insertToken finalToken s.row
    · simp [heq] at hrefused
    · simp [heq] at hrefused
    · rw [heq] at hrefused
      simp only [free, decide_eq_false_iff_not, not_or] at hheld
      obtain ⟨grant, hgrant, -, hgen⟩ := hfenced.current r.leaseToken
        (by rw [hrow, toLease_token hheld.2.2])
      have hpos : 0 < r.leaseGeneration := by
        have := (hfenced.behind grant hgrant).1
        rwa [hgen, hrow] at this
      have hactive : r.isActive now = true := by simpa [isActive, hpos] using hheld
      exact ⟨_, _, ⟨r, hrow, hactive, rfl, rfl⟩, hother hrefused hactive⟩

/-- A daemon has acquired the shard at the start, for no time. -/
def briefly : System := ⟨some ⟨"daemon-a", "t1", 1, 0⟩, 0, [⟨"t1", 1, "daemon-a"⟩]⟩

lemma briefly_reached : Reaches step Fresh ⟨none, 0, []⟩ briefly :=
  .snoc .refl (t := (0, .acquire "daemon-a" 0 ("t1", "t1", "t1")))
    (fun token htoken => ⟨by rintro rfl; simp at htoken, by simp⟩) rfl

theorem shard_home_leases_fence_briefly :
    keepalive "t1" 5 1 briefly.row ≠ .ok ⟨"daemon-a", "t1", 1, 6⟩ :=
  ((shard_home_leases_fence briefly_reached).2.2.1 _ (.head _) (by decide) 1 (by decide)
    (by rintro _ ⟨⟩ -; decide) _ .refl 1 le_rfl).1 5 _

/-- `release` does not ask whether the lease has ended, as `keepalive` does: as long as the shard has no
new holder, a token that has ended is found and its row is cleared. -/
theorem ended_token_releases :
    ∃ s, Reaches step Fresh ⟨none, 0, []⟩ s ∧ (∃ grant ∈ s.grants, grant.token = "t1") ∧ s.clock ≤ 1 ∧
      (∀ row, s.row = some row → row.leaseToken = "t1" → row.expiresAt ≤ 1) ∧
      release "t1" 1 s.row = (true, some ⟨"", "", 1, 1⟩) :=
  ⟨briefly, briefly_reached, ⟨_, .head _, rfl⟩, by decide, by rintro _ ⟨⟩ -; decide, rfl⟩

end ShardHomeLease

end TensorCast.GlobalStore
