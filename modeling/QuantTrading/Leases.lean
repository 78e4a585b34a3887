import QuantTrading.Lib.Machine
import QuantTrading.Persistence

/-!
# Runtime leases

`qt.platform.leases`: one row for each resource, which says who owns it, until
when, and under which fencing token. An operation locks the row, reads the clock
and writes the row; only the first acquisition of a resource finds no row to
lock, and is an insert that may lose the race to another one.

The clock is part of the state and only moves forward. Clocks are counted in
microseconds, as `datetime` does.
-/

namespace Qt

open Except List Table Machine Option

/-! ## Rows and grants -/

/-- A row of `runtime_leases`. -/
structure RuntimeLease where
  resourceType : String
  resourceId : String
  ownerId : String
  fencingToken : ℕ
  expiresAt : ℤ
  version : ℕ
  createdAt : ℤ
  updatedAt : ℤ
deriving DecidableEq, Repr

variable (r : RuntimeLease)

/-- `uq_runtime_lease_resource`. -/
def RuntimeLease.resource : String × String := (r.resourceType, r.resourceId)

/-- `LeaseGrant`: what an owner is told. -/
structure LeaseGrant where
  resourceType : String
  resourceId : String
  ownerId : String
  fencingToken : ℕ
  expiresAt : ℤ
deriving DecidableEq, Repr

def LeaseGrant.resource (g : LeaseGrant) : String × String := (g.resourceType, g.resourceId)

/-- The rows. -/
abbrev RuntimeLeases := Table RuntimeLease.resource

def toGrant : LeaseGrant where
  resourceType := r.resourceType
  resourceId := r.resourceId
  ownerId := r.ownerId
  fencingToken := r.fencingToken
  expiresAt := r.expiresAt

/-- `timedelta(seconds=…)`. -/
def seconds (n : ℤ) : ℤ := n * 1000000

/-! ## Operations -/

/-- The arguments of `acquire`. -/
structure LeaseAcquire where
  resourceType : String
  resourceId : String
  ownerId : String
  ttlSeconds : ℤ
deriving DecidableEq, Repr

def LeaseAcquire.resource (c : LeaseAcquire) : String × String := (c.resourceType, c.resourceId)

/-- The row that the first acquisition of a resource inserts. -/
def LeaseAcquire.row (c : LeaseAcquire) (lockedAt : ℤ) : RuntimeLease where
  resourceType := c.resourceType
  resourceId := c.resourceId
  ownerId := c.ownerId
  fencingToken := 1
  expiresAt := lockedAt + seconds c.ttlSeconds
  version := 1
  createdAt := lockedAt
  updatedAt := lockedAt

/-- The row of a lease that its owner takes again while it runs. -/
def RuntimeLease.extended (ttlSeconds lockedAt : ℤ) : RuntimeLease :=
  { r with
    expiresAt := lockedAt + seconds ttlSeconds
    version := r.version + 1
    updatedAt := lockedAt }

/-- The row of a lease that has ended and that someone takes over. -/
def RuntimeLease.taken (ownerId : String) (ttlSeconds lockedAt : ℤ) : RuntimeLease :=
  { r with
    ownerId := ownerId
    fencingToken := r.fencingToken + 1
    expiresAt := lockedAt + seconds ttlSeconds
    version := r.version + 1
    updatedAt := lockedAt }

/-- The row of a lease that its owner gives back. -/
def RuntimeLease.ended (lockedAt : ℤ) : RuntimeLease :=
  { r with expiresAt := lockedAt, version := r.version + 1, updatedAt := lockedAt }

/-- `acquire` of a resource that has a row. -/
def acquireFound (c : LeaseAcquire) (lease : RuntimeLease) (lockedAt : ℤ) : Option RuntimeLease :=
  if lockedAt < lease.expiresAt then
    if lease.ownerId ≠ c.ownerId then none else some (lease.extended c.ttlSeconds lockedAt)
  else some (lease.taken c.ownerId c.ttlSeconds lockedAt)

/-- The arguments that `renew` and `release` share. -/
structure LeaseRef where
  resourceType : String
  resourceId : String
  ownerId : String
  fencingToken : ℕ
deriving DecidableEq, Repr

variable (c : LeaseRef)

def LeaseRef.resource : String × String := (c.resourceType, c.resourceId)

/-- `_active_owner`: the lease, if the caller is its owner and it runs. -/
def activeOwner (now : ℤ) (lease : Option RuntimeLease) : Option RuntimeLease :=
  lease.filter fun r => r.ownerId = c.ownerId ∧ r.fencingToken = c.fencingToken ∧ now < r.expiresAt

/-- `renew`. -/
def renewLease (ttlSeconds now : ℤ) (leases : RuntimeLeases) :
    Except Exc (Option LeaseGrant × RuntimeLeases) := do
  raiseIf (ttlSeconds ≤ 0) (.valueError "ttl_seconds must be positive")
  match activeOwner c now (leases.find? c.resource) with
  | none => return (none, leases)
  | some r =>
    let row := r.extended ttlSeconds now
    return (some (toGrant row), leases.replace row)

/-- `release`. -/
def releaseLease (now : ℤ) (leases : RuntimeLeases) : Bool × RuntimeLeases :=
  match activeOwner c now (leases.find? c.resource) with
  | none => (false, leases)
  | some r => (true, leases.replace (r.ended now))

/-! ## The system -/

/-- What owners were told, and what they gave back. -/
inductive LeaseEvent
  | granted (grant : LeaseGrant)
  | released (lease : LeaseRef)
deriving DecidableEq, Repr

def LeaseEvent.about (resource : String × String) (ownerId : String) : LeaseEvent → Prop
  | granted g => g.resource = resource ∧ g.ownerId = ownerId
  | released c => c.resource = resource ∧ c.ownerId = ownerId

instance (resource : String × String) (ownerId : String) :
    (e : LeaseEvent) → Decidable (e.about resource ownerId)
  | .granted _ => inferInstanceAs (Decidable (_ ∧ _))
  | .released _ => inferInstanceAs (Decidable (_ ∧ _))

/-- **The table and its users**: the clock, the rows, the acquisitions that
found no row and are about to insert one, with the clock that they read, and
what happened so far. -/
structure Leasing where
  now : ℤ
  leases : RuntimeLeases
  inserting : List (LeaseAcquire × ℤ)
  log : List LeaseEvent

namespace Leasing

/-- What happens next. -/
inductive Label
  /-- Time passes. -/
  | tick (d : ℕ)
  /-- `acquire`, up to the insert if there is no row. -/
  | acquire (c : LeaseAcquire)
  /-- The insert of an acquisition; if it violates the constraint, the
  acquisition starts again and finds the row. -/
  | insert (p : LeaseAcquire × ℤ)
  | renew (c : LeaseRef) (ttlSeconds : ℤ)
  | release (c : LeaseRef)
deriving DecidableEq, Repr

variable (s : Leasing)

/-- A row is written and its owner told. -/
def grant (row : RuntimeLease) : Leasing :=
  { s with leases := s.leases.replace row, log := s.log ++ [.granted (toGrant row)] }

/-- `acquire` of a row that was found. -/
def acquireRow (c : LeaseAcquire) (lease : RuntimeLease) : Leasing :=
  match acquireFound c lease s.now with
  | none => s
  | some row => s.grant row

/-- **A step of the system.** -/
def step : Label → Leasing
  | .tick d => { s with now := s.now + d }
  | .acquire c =>
    if c.ttlSeconds ≤ 0 then s
    else match s.leases.find? c.resource with
      | none => { s with inserting := s.inserting ++ [(c, s.now)] }
      | some lease => s.acquireRow c lease
  | .insert p =>
    if p ∈ s.inserting then
      let s := { s with inserting := s.inserting.erase p }
      match s.leases.find? p.1.resource with
      | none =>
        { s with
          leases := s.leases.insertOnce (p.1.row p.2)
          log := s.log ++ [.granted (toGrant (p.1.row p.2))] }
      | some lease => s.acquireRow p.1 lease
    else s
  | .renew c ttlSeconds =>
    match renewLease c ttlSeconds s.now s.leases with
    | .ok (some g, leases) => { s with leases := leases, log := s.log ++ [.granted g] }
    | _ => s
  | .release c =>
    match releaseLease c s.now s.leases with
    | (true, leases) => { s with leases := leases, log := s.log ++ [.released c] }
    | (false, _) => s

variable (now : ℤ)

/-- No resource was ever leased. -/
def init : Leasing := ⟨now, .empty, [], []⟩

/-- The system after a run. -/
def after (ls : List Label) : Leasing := Machine.run step (init now) ls

/-- **The grant that an owner holds on a resource**: the last one it was told,
unless it has given that back, as long as it has not expired. A grant takes the
place of the one before it. -/
def Holds (resource : String × String) (ownerId : String) (g : LeaseGrant) : Prop :=
  (s.log.filter (LeaseEvent.about resource ownerId ·)).getLast? = some (.granted g)
    ∧ s.now < g.expiresAt

/-! ## What a step can do -/

/-- **The writes of a step**: none, the row of a resource without one, or the
row of a lease that runs and that its owner extends or gives back, or of one
that has ended and that anyone takes. -/
inductive Writes (s s' : Leasing) : Prop
  | quiet (hleases : s'.leases = s.leases) (hlog : s'.log = s.log) (hnow : s.now ≤ s'.now)
  | fresh (c : LeaseAcquire) (lockedAt : ℤ) (unleased : s.leases.find? c.resource = none)
      (hleases : s'.leases = s.leases.insertOnce (c.row lockedAt))
      (hlog : s'.log = s.log ++ [.granted (toGrant (c.row lockedAt))]) (hnow : s'.now = s.now)
  | extend (r : RuntimeLease) (ttlSeconds : ℤ) (found : s.leases.find? r.resource = some r)
      (running : s.now < r.expiresAt)
      (hleases : s'.leases = s.leases.replace (r.extended ttlSeconds s.now))
      (hlog : s'.log = s.log ++ [.granted (toGrant (r.extended ttlSeconds s.now))])
      (hnow : s'.now = s.now)
  | take (r : RuntimeLease) (ownerId : String) (ttlSeconds : ℤ)
      (found : s.leases.find? r.resource = some r) (lapsed : r.expiresAt ≤ s.now)
      (hleases : s'.leases = s.leases.replace (r.taken ownerId ttlSeconds s.now))
      (hlog : s'.log = s.log ++ [.granted (toGrant (r.taken ownerId ttlSeconds s.now))])
      (hnow : s'.now = s.now)
  | release (r : RuntimeLease) (c : LeaseRef) (found : s.leases.find? r.resource = some r)
      (resource : c.resource = r.resource) (owner : c.ownerId = r.ownerId)
      (hleases : s'.leases = s.leases.replace (r.ended s.now))
      (hlog : s'.log = s.log ++ [.released c]) (hnow : s'.now = s.now)

variable {now} {r : RuntimeLease}

/-- The lease that an operation finds active is the row, runs, and is the
caller's. -/
theorem activeOwner_eq_some {c : LeaseRef} {leases : RuntimeLeases}
    (h : activeOwner c now (leases.find? c.resource) = some r) :
    r.resource = c.resource ∧ leases.find? r.resource = some r ∧ r.ownerId = c.ownerId
      ∧ r.fencingToken = c.fencingToken ∧ now < r.expiresAt := by
  obtain ⟨hfound, hactive⟩ := Option.filter_eq_some_iff.mp h
  have hres : r.resource = c.resource := key_of_find? hfound
  obtain ⟨howner, htoken, hrunning⟩ := of_decide_eq_true hactive
  exact ⟨hres, hres.symm ▸ hfound, howner, htoken, hrunning⟩

theorem writes_acquireRow (c : LeaseAcquire) {lease : RuntimeLease}
    (h : s.leases.find? c.resource = some lease) : Writes s (s.acquireRow c lease) := by
  have hres : lease.resource = c.resource := key_of_find? h
  have hfound : s.leases.find? lease.resource = some lease := hres.symm ▸ h
  unfold acquireRow acquireFound
  by_cases hrunning : s.now < lease.expiresAt
  · rw [if_pos hrunning]
    by_cases howner : lease.ownerId = c.ownerId
    · rw [if_neg (not_not.mpr howner)]
      exact .extend lease c.ttlSeconds hfound hrunning rfl rfl rfl
    · rw [if_pos howner]
      exact .quiet rfl rfl le_rfl
  · rw [if_neg hrunning]
    exact .take lease c.ownerId c.ttlSeconds hfound (not_lt.mp hrunning) rfl rfl rfl

/-- **What a step can do.** -/
theorem writes_step (l : Label) : Writes s (s.step l) := by
  cases l with
  | tick d => exact .quiet rfl rfl (le_add_of_nonneg_right (Int.natCast_nonneg d))
  | acquire c =>
    unfold step
    dsimp only
    split_ifs
    · exact .quiet rfl rfl le_rfl
    · cases h : s.leases.find? c.resource with
      | none => exact .quiet rfl rfl le_rfl
      | some lease => exact writes_acquireRow s c h
  | insert p =>
    unfold step
    dsimp only
    split_ifs
    · cases h : s.leases.find? p.1.resource with
      | none => exact .fresh p.1 p.2 h rfl rfl rfl
      | some lease =>
        have hw := writes_acquireRow { s with inserting := s.inserting.erase p } p.1 h
        cases hw with
        | quiet hl hg hn => exact .quiet hl hg hn
        | fresh c t hu hl hg hn => exact .fresh c t hu hl hg hn
        | extend r t hf hr hl hg hn => exact .extend r t hf hr hl hg hn
        | take r o t hf hv hl hg hn => exact .take r o t hf hv hl hg hn
        | release r c hf hr ho hl hg hn => exact .release r c hf hr ho hl hg hn
    · exact .quiet rfl rfl le_rfl
  | renew c ttlSeconds =>
    unfold step renewLease
    dsimp only
    by_cases httl : ttlSeconds ≤ 0
    · rw [raiseIf, if_pos httl]
      exact .quiet rfl rfl le_rfl
    rw [raiseIf, if_neg httl]
    cases h : activeOwner c s.now (s.leases.find? c.resource) with
    | none => exact .quiet rfl rfl le_rfl
    | some r =>
      obtain ⟨_, hfound, _, _, hrunning⟩ := activeOwner_eq_some h
      exact .extend r ttlSeconds hfound hrunning rfl rfl rfl
  | release c =>
    unfold step releaseLease
    dsimp only
    cases h : activeOwner c s.now (s.leases.find? c.resource) with
    | none => exact .quiet rfl rfl le_rfl
    | some r =>
      obtain ⟨hres, hfound, howner, _, _⟩ := activeOwner_eq_some h
      exact .release r c hfound hres.symm howner.symm rfl rfl rfl

variable {s} {s' : Leasing}

/-! ## One lease over time -/

/-- **How a row came from another**, between two readings of the clock: its
token did not decrease, and it did increase if the owner changed, or if the
lease had ended and runs again. -/
structure Later (now : ℤ) (r : RuntimeLease) (now' : ℤ) (r' : RuntimeLease) : Prop where
  token : r.fencingToken ≤ r'.fencingToken
  passed : r'.ownerId ≠ r.ownerId → r.fencingToken < r'.fencingToken
  ended : r.expiresAt ≤ now → now' < r'.expiresAt → r.fencingToken < r'.fencingToken

/-- **A grant that comes after a row** of its resource: the token is higher if
the grant is to another owner, or if the lease had ended. -/
structure GrantedAfter (now : ℤ) (r : RuntimeLease) (g : LeaseGrant) : Prop where
  token : r.fencingToken ≤ g.fencingToken
  passed : g.ownerId ≠ r.ownerId → r.fencingToken < g.fencingToken
  ended : r.expiresAt ≤ now → r.fencingToken < g.fencingToken

/-- **What is so of a later state**: no lease is gone, and every grant in
between comes after the row that was there. -/
structure Since (s s' : Leasing) : Prop where
  clock : s.now ≤ s'.now
  row : ∀ resource r, s.leases.find? resource = some r →
    ∃ r', s'.leases.find? resource = some r' ∧ Later s.now r s'.now r'
  log : ∃ later, s'.log = s.log ++ later ∧ ∀ g, .granted g ∈ later →
    ∀ r, s.leases.find? g.resource = some r → GrantedAfter s.now r g

variable {now' : ℤ}

theorem Later.refl (h : now ≤ now') (r : RuntimeLease) : Later now r now' r where
  token := le_rfl
  passed hne := absurd rfl hne
  ended hover hrunning := absurd (hover.trans h) (not_le.mpr hrunning)

theorem Later.trans {n₁ n₂ n₃ : ℤ} {r₁ r₂ r₃ : RuntimeLease} (h : Later n₁ r₁ n₂ r₂)
    (h' : Later n₂ r₂ n₃ r₃) : Later n₁ r₁ n₃ r₃ where
  token := h.token.trans h'.token
  passed hne := by
    by_cases howner : r₂.ownerId = r₁.ownerId
    · exact h.token.trans_lt (h'.passed (howner ▸ hne))
    · exact (h.passed howner).trans_le h'.token
  ended hover hrunning := by
    rcases lt_or_ge n₂ r₂.expiresAt with hrun | hend
    · exact (h.ended hover hrun).trans_le h'.token
    · exact h.token.trans_lt (h'.ended hend hrunning)

variable {g : LeaseGrant}

/-- A grant after the row that a row became comes after the row. -/
theorem Later.grantedAfter {r' : RuntimeLease} (h : Later now r now' r')
    (hg : GrantedAfter now' r' g) : GrantedAfter now r g where
  token := h.token.trans hg.token
  passed hne := by
    by_cases howner : r'.ownerId = r.ownerId
    · exact h.token.trans_lt (hg.passed (howner ▸ hne))
    · exact (h.passed howner).trans_le hg.token
  ended hover := by
    rcases lt_or_ge now' r'.expiresAt with hrun | hend
    · exact (h.ended hover hrun).trans_le hg.token
    · exact h.token.trans_lt (hg.ended hend)

theorem Since.refl (s : Leasing) : Since s s where
  clock := le_rfl
  row _ r h := ⟨r, h, .refl le_rfl r⟩
  log := ⟨[], (append_nil _).symm, fun _ h => by cases h⟩

theorem Since.trans {s₁ s₂ s₃ : Leasing} (h : Since s₁ s₂) (h' : Since s₂ s₃) : Since s₁ s₃ where
  clock := h.clock.trans h'.clock
  row resource r hr := by
    obtain ⟨r₂, hr₂, hl⟩ := h.row resource r hr
    obtain ⟨r₃, hr₃, hl'⟩ := h'.row resource r₂ hr₂
    exact ⟨r₃, hr₃, hl.trans hl'⟩
  log := by
    obtain ⟨later, hlog, hlater⟩ := h.log
    obtain ⟨later', hlog', hlater'⟩ := h'.log
    refine ⟨later ++ later', by rw [hlog', hlog, append_assoc], fun g hg r hr => ?_⟩
    rcases mem_append.mp hg with hg | hg
    · exact hlater g hg r hr
    · obtain ⟨r₂, hr₂, hl⟩ := h.row g.resource r hr
      exact hl.grantedAfter (hlater' g hg r₂ hr₂)

/-- A row that is replaced, and the grant that may come with it. -/
theorem Since.of_replace {row : RuntimeLease} {later : List LeaseEvent}
    (found : s.leases.find? r.resource = some r) (hleases : s'.leases = s.leases.replace row)
    (hres : row.resource = r.resource) (hlog : s'.log = s.log ++ later) (hnow : s'.now = s.now)
    (hlater : Later s.now r s.now row)
    (hgrant : ∀ g, .granted g ∈ later → g.resource = r.resource ∧ GrantedAfter s.now r g) :
    Since s s' where
  clock := hnow.ge
  row resource p hp := by
    rw [hleases, find?_replace (hres.symm ▸ found), hres, hnow]
    by_cases hk : resource = r.resource
    · subst hk
      obtain rfl : r = p := some.inj (found.symm.trans hp)
      exact ⟨row, if_pos rfl, hlater⟩
    · exact ⟨p, (if_neg hk).trans hp, .refl le_rfl p⟩
  log := by
    refine ⟨later, hlog, fun g hg p hp => ?_⟩
    obtain ⟨hk, hafter⟩ := hgrant g hg
    obtain rfl : r = p := some.inj (found.symm.trans (hk ▸ hp))
    exact hafter

/-- **A step keeps the leases and their order.** -/
theorem Writes.since (h : Writes s s') : Since s s' := by
  cases h with
  | quiet hleases hlog hnow =>
    refine ⟨hnow, fun resource r hr => ⟨r, hleases ▸ hr, .refl hnow r⟩, [], ?_, ?_⟩
    · rw [hlog, append_nil]
    · exact fun _ h => by cases h
  | fresh c lockedAt unleased hleases hlog hnow =>
    refine ⟨hnow.ge, fun resource r hr => ⟨r, ?_, .refl hnow.ge r⟩, _, hlog, fun g hg r hr => ?_⟩
    · rw [hleases]
      exact find?_insertOnce_of_find? hr
    · -- the grant is of the resource that had no row
      cases mem_singleton.mp hg
      cases unleased.symm.trans hr
  | extend r ttlSeconds found running hleases hlog hnow =>
    refine .of_replace found hleases rfl hlog hnow ⟨le_rfl, fun hne => absurd rfl hne, ?_⟩ ?_
    · exact fun hover => absurd hover (not_le.mpr running)
    · intro g hg
      cases mem_singleton.mp hg
      refine ⟨rfl, le_rfl, fun hne => absurd rfl hne, ?_⟩
      exact fun hover => absurd hover (not_le.mpr running)
  | take r ownerId ttlSeconds found lapsed hleases hlog hnow =>
    have hlt : r.fencingToken < r.fencingToken + 1 := Nat.lt_succ_self _
    refine .of_replace found hleases rfl hlog hnow ⟨hlt.le, fun _ => hlt, fun _ _ => hlt⟩ ?_
    intro g hg
    cases mem_singleton.mp hg
    exact ⟨rfl, hlt.le, fun _ => hlt, fun _ => hlt⟩
  | release r c found resource owner hleases hlog hnow =>
    refine .of_replace found hleases rfl hlog hnow ⟨le_rfl, fun hne => absurd rfl hne, ?_⟩ ?_
    · exact fun _ hrunning => absurd hrunning (lt_irrefl _)
    · exact fun g hg => by cases mem_singleton.mp hg

/-! ## The holders -/

/-- **What every system satisfies**: a grant's token is never above that of the
row, and a grant that is held is what the row says. -/
structure Inv (s : Leasing) : Prop where
  leased : ∀ g, .granted g ∈ s.log →
    ∃ r, s.leases.find? g.resource = some r ∧ g.fencingToken ≤ r.fencingToken
  held : ∀ resource ownerId g, s.Holds resource ownerId g →
    ∃ r, s.leases.find? resource = some r ∧ toGrant r = g ∧ r.ownerId = ownerId

theorem getLast?_filter_concat {α : Type} (p : α → Prop) [DecidablePred p] (l : List α) (e : α) :
    ((l ++ [e]).filter (p ·)).getLast? = if p e then some e else (l.filter (p ·)).getLast? := by
  rw [filter_append]
  split_ifs with h
  · rw [filter_cons_of_pos (by simpa using h), filter_nil, getLast?_concat]
  · rw [filter_cons_of_neg (by simpa using h), filter_nil, append_nil]

/-- Who holds a grant after an event: whom it was told, or, with no event of its
own, who held it before. -/
theorem holds_concat {e : LeaseEvent} {resource : String × String} {ownerId : String}
    (hlog : s'.log = s.log ++ [e]) (hnow : s'.now = s.now) (h : s'.Holds resource ownerId g) :
    (e.about resource ownerId ∧ e = .granted g)
      ∨ (¬ e.about resource ownerId ∧ s.Holds resource ownerId g) := by
  obtain ⟨hlast, hrunning⟩ := h
  rw [hlog, getLast?_filter_concat] at hlast
  rw [hnow] at hrunning
  split_ifs at hlast with habout
  · exact .inl ⟨habout, some.inj hlast⟩
  · exact .inr ⟨habout, hlast, hrunning⟩

/-- **A step keeps the invariant.** -/
theorem Inv.writes (h : Inv s) (hw : Writes s s') : Inv s' := by
  have hsince := hw.since
  -- a token that was granted before is below that of the row, which only grew
  have hbefore : ∀ g, .granted g ∈ s.log →
      ∃ r, s'.leases.find? g.resource = some r ∧ g.fencingToken ≤ r.fencingToken := by
    intro g hg
    obtain ⟨r, hr, hle⟩ := h.leased g hg
    obtain ⟨r', hr', hlater⟩ := hsince.row _ r hr
    exact ⟨r', hr', hle.trans hlater.token⟩
  -- a row that is written is found, and is the only one
  have hwritten : ∀ {r row : RuntimeLease}, s.leases.find? r.resource = some r →
      s'.leases = s.leases.replace row → row.resource = r.resource → ∀ resource,
      s'.leases.find? resource = if resource = r.resource then some row else s.leases.find? resource := by
    intro r row found hleases hres resource
    rw [hleases, find?_replace (hres.symm ▸ found), hres]
  cases hw with
  | quiet hleases hlog hnow =>
    refine ⟨fun g hg => hbefore g (hlog ▸ hg), fun resource ownerId g hg => ?_⟩
    obtain ⟨hlast, hrunning⟩ := hg
    rw [hleases]
    exact h.held resource ownerId g ⟨hlog ▸ hlast, hnow.trans_lt hrunning⟩
  | fresh c lockedAt unleased hleases hlog hnow =>
    have hfound : s'.leases.find? c.resource = some (c.row lockedAt) := by
      rw [hleases]
      exact find?_insertOnce_self (r := c.row lockedAt) unleased
    refine ⟨fun g hg => ?_, fun resource ownerId g hg => ?_⟩
    · rcases mem_append.mp (hlog ▸ hg) with hg | hg
      · exact hbefore g hg
      · cases mem_singleton.mp hg
        exact ⟨_, hfound, le_rfl⟩
    · rcases holds_concat hlog hnow hg with ⟨⟨hres, howner⟩, he⟩ | ⟨_, hg⟩
      · cases he
        exact ⟨_, hres ▸ hfound, rfl, howner⟩
      · obtain ⟨r, hr, hgrant, howner⟩ := h.held resource ownerId g hg
        refine ⟨r, ?_, hgrant, howner⟩
        rw [hleases]
        exact find?_insertOnce_of_find? hr
  | extend r ttlSeconds found running hleases hlog hnow =>
    have hfind := hwritten found hleases rfl
    refine ⟨fun g hg => ?_, fun resource ownerId g hg => ?_⟩
    · rcases mem_append.mp (hlog ▸ hg) with hg | hg
      · exact hbefore g hg
      · cases mem_singleton.mp hg
        exact ⟨_, (hfind _).trans (if_pos rfl), le_rfl⟩
    · rcases holds_concat hlog hnow hg with ⟨⟨hres, howner⟩, he⟩ | ⟨hother, hg⟩
      · cases he
        exact ⟨_, (hfind _).trans (if_pos hres.symm), rfl, howner⟩
      · obtain ⟨p, hp, hgrant, howner⟩ := h.held resource ownerId g hg
        refine ⟨p, (hfind _).trans ((if_neg (fun hk => hother ?_)).trans hp), hgrant, howner⟩
        -- the holder of a lease that runs is its owner
        subst hk
        obtain rfl : r = p := some.inj (found.symm.trans hp)
        exact ⟨rfl, howner⟩
  | take r taker ttlSeconds found lapsed hleases hlog hnow =>
    have hfind := hwritten found hleases rfl
    refine ⟨fun g hg => ?_, fun resource ownerId g hg => ?_⟩
    · rcases mem_append.mp (hlog ▸ hg) with hg | hg
      · exact hbefore g hg
      · cases mem_singleton.mp hg
        exact ⟨_, (hfind _).trans (if_pos rfl), le_rfl⟩
    · rcases holds_concat hlog hnow hg with ⟨⟨hres, howner⟩, he⟩ | ⟨_, hg⟩
      · cases he
        exact ⟨_, (hfind _).trans (if_pos hres.symm), rfl, howner⟩
      · obtain ⟨p, hp, hgrant, howner⟩ := h.held resource ownerId g hg
        refine ⟨p, (hfind _).trans ((if_neg (fun hk => ?_)).trans hp), hgrant, howner⟩
        -- nobody holds a grant on a lease that has ended
        subst hk
        obtain rfl : r = p := some.inj (found.symm.trans hp)
        have hexpires : r.expiresAt = g.expiresAt := congrArg LeaseGrant.expiresAt hgrant
        exact absurd (lapsed.trans_lt hg.2) (hexpires ▸ lt_irrefl _)
  | release r c found resource owner hleases hlog hnow =>
    have hfind := hwritten found hleases rfl
    refine ⟨fun g hg => ?_, fun resource' ownerId g hg => ?_⟩
    · rcases mem_append.mp (hlog ▸ hg) with hg | hg
      · exact hbefore g hg
      · cases mem_singleton.mp hg
    · rcases holds_concat hlog hnow hg with ⟨_, he⟩ | ⟨hother, hg⟩
      · cases he
      · obtain ⟨p, hp, hgrant, howner⟩ := h.held resource' ownerId g hg
        refine ⟨p, (hfind _).trans ((if_neg (fun hk => hother ?_)).trans hp), hgrant, howner⟩
        subst hk
        obtain rfl : r = p := some.inj (found.symm.trans hp)
        exact ⟨resource, owner.trans howner⟩

variable (now)

theorem inv_init : Inv (init now) where
  leased _ h := by cases h
  held _ _ _ h := by cases h.1

theorem inv_after (ls : List Label) : Inv (after now ls) :=
  inv_run Inv (fun s l h => h.writes (writes_step s l)) (inv_init now) ls

theorem since_after (ls ls' : List Label) : Since (after now ls) (after now (ls ++ ls')) := by
  unfold after
  rw [run_append]
  exact rel_run (fun _ => True) Since (fun _ _ _ => trivial) Since.refl
    (fun _ _ _ => Since.trans) (fun s l _ => (writes_step s l).since) trivial ls'

/-- **The lease is fenced.** In every run: the tokens of a resource follow its
owners and ends; at most one owner holds a grant; and once a token was granted,
whoever shows an older one neither renews nor releases, and changes nothing. -/
theorem lease_fencing (now : ℤ) (ls ls' : List Label) : Since (after now ls) (after now (ls ++ ls'))
    ∧ (∀ resource o o' g g', (after now ls).Holds resource o g →
      (after now ls).Holds resource o' g' → o = o')
    ∧ ∀ g, .granted g ∈ (after now ls).log → ∀ c : LeaseRef, c.resource = g.resource →
      c.fencingToken < g.fencingToken →
      (∀ ttlSeconds t out, renewLease c ttlSeconds t (after now (ls ++ ls')).leases = .ok out →
        out = (none, (after now (ls ++ ls')).leases))
      ∧ ∀ t, releaseLease c t (after now (ls ++ ls')).leases
        = (false, (after now (ls ++ ls')).leases) := by
  have hinv := inv_after now ls
  have hsince := since_after now ls ls'
  refine ⟨hsince, fun resource o o' g g' hg hg' => ?_, fun g hg c hres hold => ?_⟩
  · obtain ⟨r, hr, _, howner⟩ := hinv.held resource o g hg
    obtain ⟨r', hr', _, howner'⟩ := hinv.held resource o' g' hg'
    obtain rfl : r = r' := some.inj (hr.symm.trans hr')
    exact howner.symm.trans howner'
  · -- the token of the row is not the old one
    have hactive : ∀ t, activeOwner c t ((after now (ls ++ ls')).leases.find? c.resource) = none := by
      intro t
      obtain ⟨r, hr, hle⟩ := hinv.leased g hg
      obtain ⟨r', hr', hlater⟩ := hsince.row _ r hr
      have hlt : c.fencingToken < r'.fencingToken := hold.trans_le (hle.trans hlater.token)
      rw [hres, hr']
      exact Option.filter_eq_none_iff.mpr (fun p hp hactive => by
        cases hp
        exact absurd (of_decide_eq_true hactive).2.1 hlt.ne')
    constructor
    · intro ttlSeconds t out hout
      obtain ⟨_, hout⟩ := of_raiseIf hout
      rw [hactive t] at hout
      exact (ok.inj hout).symm
    · intro t
      unfold releaseLease
      rw [hactive t]

end Leasing

end Qt
