import QuantTrading.Sends

/-!
# The daily entry budget

What an account may enter in a UTC day is bounded by a fraction of its
capital. The account keeps one counter and the day it is of: a reservation on
a later day starts it again, and the release of a shadow intent takes its
notional back out.

The release asks whether the counter is of today, and not whether the intent
was counted today. An intent of yesterday that is released today takes its
notional out of a counter it was never in, and the day admits as much again
(`budget_exceeded`). On runs on which no release comes on a later day, every
day stays within its budget (`daily_entry_budget`).
-/

namespace Qt

open Except List Table Option
open Machine

variable {env : Env} {time : ℕ} {db db' : DB} {tx : Transaction}

/-! ## What an account enters in a day -/

/-- What an order enters: its quantity at its limit. -/
def Order.entry (o : Order) : ℚ := o.quantity * o.payload.intent.limitPrice

/-- The intent of the order was released as a shadow. -/
def DB.released (db : DB) (o : Order) : Prop :=
  ∃ e ∈ db.events, e.tenantId = o.tenantId ∧ e.entityId = o.intentId
    ∧ e.eventType = .shadowIntentEvaluated
deriving Decidable

/-- The order is a buy that the account entered on the day, and holds to. -/
def DB.enters (db : DB) (accountId : String) (day : ℕ) (o : Order) : Prop :=
  o.accountId = accountId ∧ o.side = .buy ∧ dayOf o.createdNs = day ∧ ¬ db.released o
deriving Decidable

/-- **The entry risk of a day**, summed over the orders. -/
def DB.dayRisk (db : DB) (accountId : String) (day : ℕ) : ℚ :=
  db.orders.sumOf (db.enters accountId day) Order.entry

variable {o : Order}

theorem Order.Valid.entry_nonneg (h : o.Valid) : 0 ≤ o.entry :=
  mul_nonneg h.2.2.2.2.1.le o.payload.intent.limitPrice.pos.le

variable {o' : Order}

theorem Order.entry_of_frozen (h : o'.frozen = o.frozen) : o'.entry = o.entry := by
  have hquantity : o'.quantity = o.quantity := (congrArg Order.quantity h :)
  have hpayload : o'.payload = o.payload := (congrArg Order.payload h :)
  unfold Order.entry
  rw [hquantity, hpayload]

theorem Order.Faithful.ctxMul_eq (h : o.Faithful) :
    ctxMul o.payload.intent.quantity o.payload.intent.limitPrice = o.entry := by
  rw [o.payload.intent.quantity.fits.ctxMul_eq o.payload.intent.limitPrice.fits, h.quantity]
  rfl

variable {es : List Event}

/-- Events that release no shadow change what no order enters. -/
theorem released_append (h : ∀ e ∈ es, ¬ (e.tenantId = o.tenantId ∧ e.entityId = o.intentId
      ∧ e.eventType = .shadowIntentEvaluated))
    (hes : db'.events = db.events ++ es) : db'.released o ↔ db.released o := by
  unfold DB.released
  rw [hes]
  constructor
  · rintro ⟨e, he, hevent⟩
    rcases mem_append.mp he with he | he
    · exact ⟨e, he, hevent⟩
    · exact absurd hevent (h e he)
  · rintro ⟨e, he, hevent⟩
    exact ⟨e, mem_append_left _ he, hevent⟩

theorem enters_congr (hfrozen : o'.frozen = o.frozen) (hreleased : db'.released o' ↔ db.released o)
    (accountId : String) (day : ℕ) : db'.enters accountId day o' ↔ db.enters accountId day o := by
  have haccount : o'.accountId = o.accountId := (congrArg Order.accountId hfrozen :)
  have hside : o'.side = o.side := (congrArg Order.side hfrozen :)
  have hcreated : o'.createdNs = o.createdNs := (congrArg Order.createdNs hfrozen :)
  unfold DB.enters
  rw [haccount, hside, hcreated, hreleased]

theorem released_of_frozen (hfrozen : o'.frozen = o.frozen) : db.released o' ↔ db.released o := by
  have htenant : o'.tenantId = o.tenantId := (congrArg Order.tenantId hfrozen :)
  unfold DB.released
  rw [htenant, Order.intentId_of_frozen hfrozen]

variable {a a' : Account}

/-- **The day after one order moved**: only what that order enters differs. -/
theorem dayRisk_moved (located : Located db a o) (hfrozen : o'.frozen = o.frozen)
    (ks : List EventType) (accountId : String) (day : ℕ) :
    (db.moved a' o' (o.eventsOf ks time)).dayRisk accountId day
      = db.dayRisk accountId day - (if db.enters accountId day o then o.entry else 0)
        + if (db.moved a' o' (o.eventsOf ks time)).enters accountId day o' then o.entry else 0 := by
  have hid : o'.intentId = o.intentId := Order.intentId_of_frozen hfrozen
  have hothers : ∀ p ∈ db.orders.rows, p.intentId ≠ o.intentId → (db.enters accountId day p
        ↔ (db.moved a' o' (o.eventsOf ks time)).enters accountId day p) := by
    intro p _ hne
    refine (enters_congr rfl (released_append (fun e he hevent => hne ?_) rfl) _ _).symm
    obtain ⟨k, _, rfl⟩ := mem_map.mp he
    exact hevent.2.1.symm
  show (db.orders.replace o').sumOf _ Order.entry = _
  rw [sumOf_replace (hid.symm ▸ located.order), sumOf_of_ne located.order hothers,
    Order.entry_of_frozen hfrozen]
  unfold DB.dayRisk
  ring

variable {ks : List EventType}

/-- A move that releases no shadow leaves every day as it is. -/
theorem dayRisk_moved_of_kept (located : Located db a o) (hfrozen : o'.frozen = o.frozen)
    (hks : .shadowIntentEvaluated ∉ ks) (accountId : String) (day : ℕ) :
    (db.moved a' o' (o.eventsOf ks time)).dayRisk accountId day = db.dayRisk accountId day := by
  have hreleased : (db.moved a' o' (o.eventsOf ks time)).released o' ↔ db.released o := by
    refine (released_append (fun e he hevent => hks ?_) rfl).trans (released_of_frozen hfrozen)
    obtain ⟨k, hk, rfl⟩ := mem_map.mp he
    exact hevent.2.2 ▸ hk
  rw [dayRisk_moved located hfrozen,
    if_congr (enters_congr hfrozen hreleased accountId day) rfl rfl]
  ring

/-! ## The counter of an account -/

/-- **The counter counts what its day enters**, and every day stays within the
budget that an instance of the OMS allows. -/
structure DB.Budgeted (oms : OMS) (db : DB) : Prop where
  within : ∀ a ∈ db.accounts.rows, ∀ day,
    db.dayRisk a.accountId day ≤ a.capital * oms.dailyEntryFraction
  counted : ∀ a ∈ db.accounts.rows, db.dayRisk a.accountId a.dayUtc ≤ a.dailyNewRisk
  /-- The counter is of the last day on which a buy was reserved. -/
  last : ∀ a ∈ db.accounts.rows, ∀ o ∈ db.orders.rows, o.accountId = a.accountId → o.side = .buy →
    dayOf o.createdNs ≤ a.dayUtc
      ∧ ∃ p ∈ db.orders.rows, p.accountId = a.accountId ∧ dayOf p.createdNs = a.dayUtc

variable {oms : OMS}

/-- **A commit that enters nothing** keeps the budget, if the counters still
count what their days enter. -/
theorem DB.Budgeted.of_le (h : db.Budgeted oms)
    (hrisk : ∀ id day, db'.dayRisk id day ≤ db.dayRisk id day)
    (horders : ∀ o' ∈ db'.orders.rows, ∃ o ∈ db.orders.rows, o'.frozen = o.frozen)
    (hkept : ∀ o ∈ db.orders.rows, ∃ o' ∈ db'.orders.rows, o'.frozen = o.frozen)
    (haccounts : ∀ a' ∈ db'.accounts.rows, ∃ a ∈ db.accounts.rows, a'.frozen = a.frozen ∧
      a'.dayUtc = a.dayUtc ∧ db'.dayRisk a.accountId a.dayUtc ≤ a'.dailyNewRisk)
    : db'.Budgeted oms where
  within a' ha' day := by
    obtain ⟨a, ha, hfrozen, _⟩ := haccounts a' ha'
    rw [Account.accountId_of_frozen hfrozen,
      show a'.capital = a.capital from (congrArg Account.capital hfrozen :)]
    exact (hrisk _ _).trans (h.within a ha day)
  counted a' ha' := by
    obtain ⟨a, ha, hfrozen, hday, hcounted⟩ := haccounts a' ha'
    rwa [Account.accountId_of_frozen hfrozen, hday]
  last a' ha' o' ho' haid hside := by
    obtain ⟨a, ha, hfrozen, hday, _⟩ := haccounts a' ha'
    obtain ⟨o, ho, ho'⟩ := horders o' ho'
    have haccount : o'.accountId = o.accountId := (congrArg Order.accountId ho' :)
    have hside' : o'.side = o.side := (congrArg Order.side ho' :)
    have hcreated : o'.createdNs = o.createdNs := (congrArg Order.createdNs ho' :)
    rw [Account.accountId_of_frozen hfrozen, haccount] at haid
    obtain ⟨hle, p, hp, hpid, hpday⟩ := h.last a ha o ho haid (hside' ▸ hside)
    obtain ⟨p', hp', hpfrozen⟩ := hkept p hp
    rw [hcreated, hday, Account.accountId_of_frozen hfrozen]
    refine ⟨hle, p', hp', ?_, ?_⟩
    · rw [show p'.accountId = p.accountId from (congrArg Order.accountId hpfrozen :), hpid]
    · rw [show p'.createdNs = p.createdNs from (congrArg Order.createdNs hpfrozen :), hpday]

theorem DB.Budgeted.opened (h : db.Budgeted oms) (hb : db.Balanced) {b : Account}
    (hpos : 0 < b.capital) (hdaily : b.dailyNewRisk = 0) : (db.opened b).Budgeted oms := by
  have hnew : ∀ a ∈ (db.opened b).accounts.rows, a ∈ db.accounts.rows
      ∨ (a = b ∧ ∀ o ∈ db.orders.rows, o.accountId ≠ a.accountId) := by
    intro a ha
    cases hfind : db.accounts.find? b.accountId with
    | some _ =>
      rw [show (db.opened b).accounts = db.accounts from insertOnce_of_find? hfind] at ha
      exact .inl ha
    | none =>
      rcases (mem_rows_insertOnce hfind).mp ha with ha | rfl
      · exact .inl ha
      · refine .inr ⟨rfl, fun o ho haid => ?_⟩
        obtain ⟨a', ha', _⟩ := hb.owned o ho
        rw [haid, hfind] at ha'
        cases ha'
  have hzero : ∀ a : Account, (∀ o ∈ db.orders.rows, o.accountId ≠ a.accountId) → ∀ day,
      (db.opened b).dayRisk a.accountId day = 0 := by
    intro a hnone day
    exact sumOf_eq_zero (fun o ho henters => hnone o ho henters.1) _
  constructor
  · intro a ha day
    rcases hnew a ha with ha | ⟨rfl, hnone⟩
    · exact h.within a ha day
    · rw [hzero a hnone day]
      exact mul_nonneg hpos.le oms.fraction_pos.le
  · intro a ha
    rcases hnew a ha with ha | ⟨rfl, hnone⟩
    · exact h.counted a ha
    · rw [hzero a hnone, hdaily]
  · intro a ha o ho haid hside
    rcases hnew a ha with ha | ⟨rfl, hnone⟩
    · exact h.last a ha o ho haid hside
    · exact absurd haid (hnone o ho)

/-- A move keeps the budget, if the counter still counts what its day enters. -/
theorem DB.Budgeted.moved (h : db.Budgeted oms) (located : Located db a o)
    (hafrozen : a'.frozen = a.frozen) (hfrozen : o'.frozen = o.frozen) (hday : a'.dayUtc = a.dayUtc)
    (hrisk : ∀ id day, (db.moved a' o' (o.eventsOf ks time)).dayRisk id day ≤ db.dayRisk id day)
    (hcounted :
      (db.moved a' o' (o.eventsOf ks time)).dayRisk a.accountId a.dayUtc ≤ a'.dailyNewRisk)
    : (db.moved a' o' (o.eventsOf ks time)).Budgeted oms := by
  have hid : o'.intentId = o.intentId := Order.intentId_of_frozen hfrozen
  have haid : a'.accountId = a.accountId := Account.accountId_of_frozen hafrozen
  have hmem := @mem_rows_replace _ _ _ Order.intentId db.orders o o' (hid.symm ▸ located.order)
  refine h.of_le hrisk (fun p hp => ?_) (fun p hp => ?_) (fun b hb => ?_)
  · rcases hmem.mp hp with rfl | ⟨hp, _⟩
    · exact ⟨o, mem_of_find? located.order, hfrozen⟩
    · exact ⟨p, hp, rfl⟩
  · by_cases hk : p.intentId = o.intentId
    · have hpo : p = o := by
        have hfind := find?_of_mem hp
        rw [hk, located.order] at hfind
        exact (some.inj hfind).symm
      exact ⟨o', hmem.mpr (.inl rfl), hpo ▸ hfrozen⟩
    · exact ⟨p, hmem.mpr (.inr ⟨hp, hid.symm ▸ hk⟩), rfl⟩
  · rcases (mem_rows_replace (haid.symm ▸ located.account)).mp hb with rfl | ⟨hb, _⟩
    · exact ⟨a, mem_of_find? located.account, hafrozen, hday, hcounted⟩
    · exact ⟨b, hb, rfl, rfl, (hrisk _ _).trans (h.counted b hb)⟩

/-! ## What a commit does to the counter -/

/-- The reservation a transaction makes. -/
def Transaction.reservation : Transaction → Option ReserveCall
  | .reserve c => some c
  | _ => none

/-- **A shadow intent is released late**: on a day it was not reserved on,
which the counter is of. -/
def Transaction.releasesLate (tx : Transaction) (time : ℕ) (db : DB) : Prop :=
  match tx with
  | .submitClaim c _ => ∃ o ∈ db.orders.find? c.intentId, ∃ a ∈ db.accounts.find? o.accountId,
    o.status = .reserved ∧ o.side = .buy ∧ o.payload.deployment.mode = .shadow
      ∧ nowOf c.nowNs time < o.payload.intent.validUntilNs
      ∧ a.dayUtc = dayOf (nowOf c.nowNs time) ∧ dayOf o.createdNs ≠ dayOf (nowOf c.nowNs time)
      ∧ 0 < a.dailyNewRisk
  | _ => False

instance (tx : Transaction) (time : ℕ) (db : DB) : Decidable (tx.releasesLate time db) := by
  unfold Transaction.releasesLate
  split <;> infer_instance

/-- A move other than the release of a shadow leaves the counter alone. -/
theorem Move.counter (h : Move time tx a o a' o' ks) :
    (.shadowIntentEvaluated ∉ ks ∧ a'.dailyNewRisk = a.dailyNewRisk ∧ a'.dayUtc = a.dayUtc)
      ∨ ∃ c market, tx = .submitClaim c market ∧ o.status = .reserved
        ∧ o.payload.deployment.mode = .shadow
        ∧ nowOf c.nowNs time < o.payload.intent.validUntilNs
        ∧ ks = [.shadowIntentEvaluated] ∧ a'.dayUtc = a.dayUtc
        ∧ a'.dailyNewRisk = if o.payload.intent.side = .buy ∧ a.dayUtc = dayOf (nowOf c.nowNs time)
          then max 0 (a.dailyNewRisk - ctxMul o.payload.intent.quantity o.payload.intent.limitPrice)
          else a.dailyNewRisk := by
  have hnot : ∀ {ks : List EventType}, (∀ k ∈ ks, k.neverSent = false) →
      .shadowIntentEvaluated ∉ ks := fun hks hmem => by
    have hnever := hks _ hmem
    cases hnever
  cases h with
  | @shadow c market _ _ now daily hnow unsent observes current hdaily =>
    subst hnow
    exact .inr ⟨c, market, rfl, unsent, observes, current, rfl, rfl, hdaily⟩
  | settle _ hks | observe _ _ hks | finish _ _ hks => exact .inl ⟨hnot hks, rfl, rfl⟩
  | _ => exact .inl ⟨by simp, rfl, rfl⟩

/-- **A move keeps the budget**, unless it releases a shadow intent late. -/
theorem DB.Budgeted.move (h : db.Budgeted oms) (located : Located db a o)
    (hid : tx.intentId = some o.intentId) (hm : Move time tx a o a' o' ks) (hvalid : o.Valid)
    (hfaithful : o.Faithful) (hunreleased : o.status = .reserved → ¬ db.released o)
    (hlate : ¬ tx.releasesLate time db) : (db.moved a' o' (o.eventsOf ks time)).Budgeted oms := by
  have hmem := mem_of_find? located.account
  obtain ⟨hkept, hdaily, hday⟩ | ⟨c, market, rfl, unsent, observes, current, rfl, hday, hdaily⟩ :=
    hm.counter
  · have hrisk : ∀ id day, (db.moved a' o' (o.eventsOf ks time)).dayRisk id day
        ≤ db.dayRisk id day :=
      fun id day => (dayRisk_moved_of_kept located hm.frozen hkept id day).le
    refine h.moved located hm.account_frozen hm.frozen hday hrisk ?_
    rw [hdaily]
    exact (hrisk _ _).trans (h.counted a hmem)
  · -- the order leaves the day it was reserved on
    have hrisk : ∀ id day, (db.moved a' o' (o.eventsOf [.shadowIntentEvaluated] time)).dayRisk id day
        = db.dayRisk id day - if db.enters id day o then o.entry else 0 := by
      intro id day
      have hgone : ¬ (db.moved a' o' (o.eventsOf [.shadowIntentEvaluated] time)).enters id day o' := by
        intro henters
        refine henters.2.2.2 ((released_of_frozen hm.frozen).mpr ?_)
        exact ⟨_, mem_append_right _ (mem_singleton_self _), rfl, rfl, rfl⟩
      rw [dayRisk_moved located hm.frozen, if_neg hgone, add_zero]
    have hle : ∀ id day, (db.moved a' o' (o.eventsOf [.shadowIntentEvaluated] time)).dayRisk id day
        ≤ db.dayRisk id day := by
      intro id day
      rw [hrisk]
      split_ifs
      · exact sub_le_self _ hvalid.entry_nonneg
      · exact (sub_zero _).le
    refine h.moved located hm.account_frozen hm.frozen hday hle ?_
    rw [hdaily, hfaithful.ctxMul_eq, hfaithful.side]
    by_cases hcount : o.side = .buy ∧ a.dayUtc = dayOf (nowOf c.nowNs time)
    · rw [if_pos hcount]
      obtain ⟨hside, htoday⟩ := hcount
      by_cases hcreated : dayOf o.createdNs = a.dayUtc
      · have henters : db.enters a.accountId a.dayUtc o :=
          ⟨located.accountId.symm, hside, hcreated, hunreleased unsent⟩
        rw [hrisk, if_pos henters]
        exact (sub_le_sub_right (h.counted a hmem) _).trans (le_max_right _ _)
      · -- the order is of another day, and so the counter is empty
        have hempty : a.dailyNewRisk ≤ 0 := by
          by_contra hpos
          refine hlate ⟨o, ?_, a, located.accountId ▸ located.account, unsent, hside, observes,
            current, htoday, fun he => hcreated (he.trans htoday.symm), not_le.mp hpos⟩
          exact (some.inj hid) ▸ located.order
        exact ((hle _ _).trans (h.counted a hmem)).trans (hempty.trans (le_max_left _ _))
    · rw [if_neg hcount]
      exact (hle _ _).trans (h.counted a hmem)

/-! ## What a reservation does to the counter -/

variable {now : ℕ}

/-- **The counter a reservation reads** is no less than what its day entered,
when the clock does not run back. -/
theorem DB.Budgeted.dayRisk_le_dailyRisk (h : db.Budgeted oms) (ha : a ∈ db.accounts.rows)
    (hclock : ∀ o ∈ db.orders.rows, o.accountId = a.accountId → o.createdNs ≤ now) :
    db.dayRisk a.accountId (dayOf now) ≤ dailyRisk a now := by
  unfold dailyRisk
  split_ifs with hday
  · rw [← hday]
    exact h.counted a ha
  · -- a buy of today would have made the counter one of today
    refine (sumOf_eq_zero (fun o ho henters => hday ?_) _).le
    obtain ⟨haid, hside, hcreated, _⟩ := henters
    obtain ⟨hle, p, hp, hpid, hpday⟩ := h.last a ha o ho haid hside
    refine le_antisymm ?_ (hcreated ▸ hle)
    rw [← hpday]
    exact dayOf_mono (hclock p hp hpid)

/-- The gross of a reservation is computed without rounding. -/
theorem ReserveCall.gross_eq (c : ReserveCall) (env : Env) (now : ℕ) :
    c.gross = (c.row env now).entry := c.intent.quantity.fits.ctxMul_eq c.intent.limitPrice.fits

variable {c : ReserveCall}

/-- **A buy stays within the daily budget**, and its counter is exact. -/
theorem reserveBuy_daily (env : Env) {db₀ : DB} (h : reserveBuy c db a now = .ok db₀)
    (hvalid : a.Valid) : ctxAdd (dailyRisk a now) c.gross = dailyRisk a now + (c.row env now).entry
      ∧ dailyRisk a now + (c.row env now).entry ≤ a.capital * c.self.dailyEntryFraction := by
  unfold reserveBuy at h
  obtain ⟨_, h⟩ := of_raiseIf h
  obtain ⟨_, h⟩ := of_raiseIf h
  obtain ⟨hbudget, _⟩ := of_raiseIf h
  have hfits : Fits (dailyRisk a now) := by
    unfold dailyRisk
    split_ifs
    · exact hvalid.2.2.1
    · decide +kernel
  have hsum : ctxAdd (dailyRisk a now) c.gross = dailyRisk a now + (c.row env now).entry := by
    rw [c.gross_eq env now]
    exact hfits.ctxAdd_mul_eq c.intent.quantity.fits c.intent.limitPrice.fits
  rw [hsum, hvalid.1.ctxMul_eq c.self.fraction_fits, not_lt] at hbudget
  exact ⟨hsum, hbudget⟩

/-- The database after a reservation. -/
def DB.reserving (env : Env) (db : DB) (c : ReserveCall) (a : Account) (now time : ℕ) : DB :=
  { db with
    accounts := db.accounts.replace (a.reserving c now)
    orders := db.orders.insertOnce (c.row env now)
    events := db.events ++ [⟨c.tenant, c.intent.intentId, .orderReserved, time⟩] }

/-- **The day after a reservation**: it enters the account, if it is a buy and
the day today. -/
theorem dayRisk_reserving (hfresh : db.orders.find? c.intent.intentId = none)
    (hvalid : (c.row env now).Valid) (accountId : String) (day : ℕ) :
    (db.reserving env c a now time).dayRisk accountId day ≤ db.dayRisk accountId day
      + if c.intent.accountId = accountId ∧ c.intent.side = .buy ∧ dayOf now = day then
          (c.row env now).entry else 0 := by
  have hsame : ∀ o ∈ db.orders.rows, (db.reserving env c a now time).enters accountId day o
      ↔ db.enters accountId day o := by
    intro o _
    refine enters_congr rfl (released_append (fun e he hevent => ?_) rfl) _ _
    rw [mem_singleton.mp he] at hevent
    cases hevent.2.2
  have hfresh' : db.orders.find? (c.row env now).intentId = none := hfresh
  show (db.orders.insertOnce (c.row env now)).sumOf _ Order.entry ≤ _
  rw [sumOf_insertOnce hfresh', sumOf_congr hsame]
  refine add_le_add_right ?_ _
  split_ifs with henters hcount
  · exact le_rfl
  · exact absurd ⟨henters.1, henters.2.1, henters.2.2.1⟩ hcount
  · exact hvalid.entry_nonneg
  · exact le_rfl

/-- **A reservation keeps the budget**, when its instance allows no more and
the clock does not run back. -/
theorem DB.Budgeted.reserve (h : db.Budgeted oms)
    (ha : db.accounts.find? c.intent.accountId = some a)
    (hfresh : db.orders.find? c.intent.intentId = none) (havalid : a.Valid)
    (hvalid : (c.row env now).Valid)
    (hbuy : c.intent.side = .buy → ∃ db₀, reserveBuy c db a now = .ok db₀)
    (hfraction : c.self.dailyEntryFraction ≤ oms.dailyEntryFraction)
    (hclock : ∀ o ∈ db.orders.rows, o.accountId = c.intent.accountId → o.createdNs ≤ now) :
    (db.reserving env c a now time).Budgeted oms := by
  have haid : a.accountId = c.intent.accountId := key_of_find? ha
  have hmem : a ∈ db.accounts.rows := mem_of_find? ha
  have hfresh' : db.orders.find? (c.row env now).intentId = none := hfresh
  have hkept : db.accounts.find? (a.reserving c now).accountId = some a := haid.symm ▸ ha
  have hclock' : ∀ o ∈ db.orders.rows, o.accountId = a.accountId → o.createdNs ≤ now :=
    fun o ho ho' => hclock o ho (ho'.trans haid)
  have hrisk : ∀ id day, (db.reserving env c a now time).dayRisk id day ≤ db.dayRisk id day
      + if c.intent.accountId = id ∧ c.intent.side = .buy ∧ dayOf now = day then
          (c.row env now).entry else 0 := dayRisk_reserving hfresh hvalid
  -- another account, or another day, is left as it was
  have hother : ∀ id day, ¬ (c.intent.accountId = id ∧ c.intent.side = .buy ∧ dayOf now = day) →
      (db.reserving env c a now time).dayRisk id day ≤ db.dayRisk id day := by
    intro id day hne
    refine (hrisk id day).trans ?_
    rw [if_neg hne, add_zero]
  -- what a buy adds to today is what it adds to the counter
  have htoday : c.intent.side = .buy →
      (db.reserving env c a now time).dayRisk a.accountId (dayOf now)
        ≤ (a.reserving c now).dailyNewRisk
      ∧ (a.reserving c now).dailyNewRisk ≤ a.capital * oms.dailyEntryFraction := by
    intro hside
    obtain ⟨_, hdb₀⟩ := hbuy hside
    obtain ⟨hsum, hbudget⟩ := reserveBuy_daily env hdb₀ havalid
    have hdaily : (a.reserving c now).dailyNewRisk = dailyRisk a now + (c.row env now).entry :=
      (if_pos hside).trans hsum
    rw [hdaily]
    constructor
    · refine (hrisk _ _).trans ?_
      rw [if_pos ⟨haid.symm, hside, rfl⟩]
      exact add_le_add_left (h.dayRisk_le_dailyRisk hmem hclock') _
    · exact hbudget.trans (mul_le_mul_of_nonneg_left hfraction havalid.2.2.2.1.le)
  constructor
  · intro b hb day
    rcases (mem_rows_replace hkept).mp hb with rfl | ⟨hb, hneq⟩
    · by_cases hcount : c.intent.side = .buy ∧ dayOf now = day
      · obtain ⟨hside, rfl⟩ := hcount
        exact (htoday hside).1.trans (htoday hside).2
      · exact (hother _ _ (fun hc => hcount hc.2)).trans (h.within a hmem day)
    · refine (hother _ _ (fun hc => hneq ?_)).trans (h.within b hb day)
      exact hc.1.symm.trans haid.symm
  · intro b hb
    rcases (mem_rows_replace hkept).mp hb with rfl | ⟨hb, hneq⟩
    · by_cases hside : c.intent.side = .buy
      · have hday : (a.reserving c now).dayUtc = dayOf now := if_pos hside
        rw [hday]
        exact (htoday hside).1
      · have hday : (a.reserving c now).dayUtc = a.dayUtc := if_neg hside
        have hdaily : (a.reserving c now).dailyNewRisk = a.dailyNewRisk := if_neg hside
        rw [hday, hdaily]
        exact (hother _ _ (fun hc => hside hc.2.1)).trans (h.counted a hmem)
    · refine (hother _ _ (fun hc => hneq ?_)).trans (h.counted b hb)
      exact hc.1.symm.trans haid.symm
  · intro b hb o ho hoid hside
    have hrows := @mem_rows_insertOnce _ _ _ Order.intentId db.orders (c.row env now)
    rcases (mem_rows_replace hkept).mp hb with rfl | ⟨hb, hneq⟩
    · by_cases hbuys : c.intent.side = .buy
      · have hday : (a.reserving c now).dayUtc = dayOf now := if_pos hbuys
        rw [hday]
        refine ⟨?_, c.row env now, (hrows hfresh').mpr (.inr rfl), haid.symm, rfl⟩
        rcases (hrows hfresh').mp ho with ho | rfl
        · exact dayOf_mono (hclock' o ho hoid)
        · exact le_rfl
      · have hday : (a.reserving c now).dayUtc = a.dayUtc := if_neg hbuys
        rw [hday]
        rcases (hrows hfresh').mp ho with ho | rfl
        · obtain ⟨hle, p, hp, hpid, hpday⟩ := h.last a hmem o ho hoid hside
          exact ⟨hle, p, (hrows hfresh').mpr (.inl hp), hpid, hpday⟩
        · exact absurd hside hbuys
    · rcases (hrows hfresh').mp ho with ho | rfl
      · obtain ⟨hle, p, hp, hpid, hpday⟩ := h.last b hb o ho hoid hside
        exact ⟨hle, p, (hrows hfresh').mpr (.inl hp), hpid, hpday⟩
      · exact absurd (hoid.symm.trans haid.symm) hneq

/-! ## Commits and runs -/

/-- Records that release nothing leave every day as it is. -/
theorem dayRisk_recorded (horders : db'.orders = db.orders) (hes : db'.events = db.events ++ es)
    (hnever : ∀ e ∈ es, e.eventType.neverSent = false) (accountId : String) (day : ℕ) :
    db'.dayRisk accountId day = db.dayRisk accountId day := by
  unfold DB.dayRisk
  rw [horders]
  refine sumOf_congr (fun o _ => ?_) _
  refine enters_congr rfl (released_append (fun e he hevent => ?_) hes) _ _
  have hk := hnever e he
  rw [hevent.2.2] at hk
  cases hk

theorem DB.Budgeted.recorded (h : db.Budgeted oms) (horders : db'.orders = db.orders)
    (haccounts : db'.accounts = db.accounts) (hes : db'.events = db.events ++ es)
    (hnever : ∀ e ∈ es, e.eventType.neverSent = false) : db'.Budgeted oms := by
  have hrisk := dayRisk_recorded horders hes hnever
  exact h.of_le (fun id day => (hrisk id day).le) (fun o ho => ⟨o, horders ▸ ho, rfl⟩)
    (fun o ho => ⟨o, horders ▸ ho, rfl⟩)
    (fun b hb => ⟨b, haccounts ▸ hb, rfl, rfl, (hrisk _ _).trans_le (h.counted b (haccounts ▸ hb))⟩)

/-- A transaction off the trading path keeps the budget. -/
theorem DB.Budgeted.aside (h : db.Budgeted oms) (ha : Aside tx db db') : db'.Budgeted oms := by
  obtain ⟨es, hes, hnever⟩ := ha.events
  obtain haccounts | ⟨a, a', hfind, haccounts, hbooks, _⟩ := ha.accounts
  · exact h.recorded ha.orders haccounts hes hnever
  · have hrisk := dayRisk_recorded ha.orders hes hnever
    have hfrozen : a'.frozen = a.frozen := Account.frozen_of_books hbooks
    have hday : a'.dayUtc = a.dayUtc := (congrArg Account.dayUtc hbooks :)
    have hdaily : a'.dailyNewRisk = a.dailyNewRisk := (congrArg Account.dailyNewRisk hbooks :)
    have hkept : db.accounts.find? a'.accountId = some a :=
      (Account.accountId_of_frozen hfrozen).symm ▸ hfind
    refine h.of_le (fun id day => (hrisk id day).le) (fun o ho => ⟨o, ha.orders ▸ ho, rfl⟩)
      (fun o ho => ⟨o, ha.orders ▸ ho, rfl⟩) (fun b hb => ?_)
    rw [haccounts] at hb
    rcases (mem_rows_replace hkept).mp hb with rfl | ⟨hb, _⟩
    · have hmem := mem_of_find? hfind
      exact ⟨a, hmem, hfrozen, hday, (hrisk _ _).trans_le (hdaily.symm ▸ h.counted a hmem)⟩
    · exact ⟨b, hb, rfl, rfl, (hrisk _ _).trans_le (h.counted b hb)⟩

/-- **Commits keep the budget**, when reservations are of instances that allow
no more, the clock does not run back, and no shadow intent is released late. -/
theorem Commit.budgeted (h : Commit env time db tx db') (hb : db.Balanced)
    (hadmitted : ∀ o ∈ db.orders.rows, o.Admitted env)
    (hunreleased : ∀ o ∈ db.orders.rows, o.status = .reserved → ¬ db.released o)
    (hfraction : ∀ c ∈ tx.reservation, c.self.dailyEntryFraction ≤ oms.dailyEntryFraction)
    (hclock : ∀ c ∈ tx.reservation, ∀ o ∈ db.orders.rows, o.accountId = c.intent.accountId →
      o.createdNs ≤ nowOf c.nowNs time)
    (hlate : ¬ tx.releasesLate time db) (hd : db.Budgeted oms) : db'.Budgeted oms := by
  cases h with
  | aside h => exact hd.aside h
  | fund hpos =>
    exact (hd.opened hb hpos rfl).recorded rfl rfl rfl (by simp [EventType.neverSent])
  | reopen hpos => exact hd.opened hb hpos rfl
  | reserve hnow ha _ hfresh _ _ _ hbuy _ _ _ hvalid =>
    subst hnow
    exact hd.reserve ha hfresh (hb.account _ (mem_of_find? ha)).1 hvalid hbuy
      (hfraction _ rfl) (hclock _ rfl)
  | @move _ a a' o o' ks located hid hm =>
    have hmem := mem_of_find? located.order
    exact hd.move located hid hm (hb.order o hmem).1 (hadmitted o hmem).faithful
      (hunreleased o hmem) hlate
  | @fill _ a o f ks located _ _ _ _ _ _ _ _ _ _ hks =>
    have hposted : (db.posted env o f time).Budgeted oms :=
      hd.of_le (fun _ _ => le_rfl) (fun o ho => ⟨o, ho, rfl⟩) (fun o ho => ⟨o, ho, rfl⟩)
        (fun a ha => ⟨a, ha, rfl, rfl, hd.counted a ha⟩)
    have hlocated : Located (db.posted env o f time) a o :=
      ⟨located.account, located.order, located.accountId, located.tenantId⟩
    have hkept : .shadowIntentEvaluated ∉ ks := fun hmem => by
      have hnever := hks _ hmem
      cases hnever
    unfold DB.filled
    generalize fillMode env db a o f time = mode
    have hafrozen : Account.frozen { a.filling o f with mode := mode } = a.frozen := rfl
    have hfrozen : (o.filling f time).frozen = o.frozen := rfl
    have hrisk : ∀ id day, ((db.posted env o f time).moved { a.filling o f with mode := mode }
        (o.filling f time) (o.eventsOf ks time)).dayRisk id day
        ≤ (db.posted env o f time).dayRisk id day :=
      fun id day => (dayRisk_moved_of_kept hlocated hfrozen hkept id day).le
    refine hposted.moved hlocated hafrozen hfrozen rfl hrisk ?_
    exact (hrisk _ _).trans (hposted.counted a (mem_of_find? located.account))

namespace System

/-- The step makes no reservation of an instance that allows more than this
one. -/
def Allows (env : Env) (oms : OMS) (s : System) (l : Label) : Prop :=
  ∀ p ∈ commits env s l, ∀ c ∈ p.1.reservation, c.self.dailyEntryFraction ≤ oms.dailyEntryFraction
deriving Decidable

/-- **The clock does not run back**: the step makes no reservation before an
order of the account was made. -/
def Ticks (env : Env) (s : System) (l : Label) : Prop :=
  ∀ p ∈ commits env s l, ∀ c ∈ p.1.reservation, ∀ o ∈ s.db.orders.rows,
    o.accountId = c.intent.accountId → o.createdNs ≤ nowOf c.nowNs p.2
deriving Decidable

/-- The step releases no shadow intent late. -/
def Timely (env : Env) (s : System) (l : Label) : Prop :=
  ∀ p ∈ commits env s l, ¬ p.1.releasesLate p.2 s.db
deriving Decidable

theorem Fenced.unreleased {s : System} (h : s.Fenced env) :
    ∀ o ∈ s.db.orders.rows, o.status = .reserved → ¬ s.db.released o := by
  rintro o ho hs ⟨e, he, htenant, hid, hk⟩
  obtain ⟨_, _, p, hp, _, hterminal, _⟩ := h.proven o.tenantId o.intentId
    ⟨e, he, htenant, hid, by rw [hk]; rfl⟩
  rw [find?_of_mem ho] at hp
  rw [← some.inj hp, hs] at hterminal
  cases hterminal

/-- **The daily entry budget.** In every run in which the clock does not run
back and no shadow intent is released late, what the buys of an account that
were reserved on a day enter, but for those released as shadows, is at most
the fraction of its capital that the instances of the OMS allow. -/
theorem daily_entry_budget (env : Env) (oms : OMS) (ls : List Label)
    (hallows : Meets (step env) (Allows env oms) init ls)
    (hticks : Meets (step env) (Ticks env) init ls)
    (htimely : Meets (step env) (Timely env) init ls) :
    ∀ a ∈ (after env ls).db.accounts.rows, ∀ day,
      (after env ls).db.dayRisk a.accountId day ≤ a.capital * oms.dailyEntryFraction := by
  have hempty : DB.empty.Budgeted oms := by
    constructor <;> intro _ h <;> cases h
  have hstep : ∀ (s : System) (l : Label), (s.Fenced env ∧ s.db.Balanced ∧ s.db.Budgeted oms) →
      (Allows env oms s l ∧ Ticks env s l ∧ Timely env s l) →
      (step env s l).Fenced env ∧ (step env s l).db.Balanced ∧ (step env s l).db.Budgeted oms := by
    rintro s l ⟨hs, hb, hd⟩ ⟨hallows, hticks, htimely⟩
    refine ⟨hs.step l, ?_⟩
    cases h : commits env s l with
    | none =>
      rw [db_of_commits_none h]
      exact ⟨hb, hd⟩
    | some p =>
      have hcommit := commit_of_commits hs.held h
      exact ⟨hcommit.balanced hb, hcommit.budgeted hb hs.admitted hs.unreleased (hallows p h)
        (hticks p h) (htimely p h) hd⟩
  have hmeets := meets_and.mpr ⟨hallows, meets_and.mpr ⟨hticks, htimely⟩⟩
  exact (inv_run_of_meets _ hstep ⟨fenced_init, balanced_empty, hempty⟩ hmeets).2.2.within

/-- A later day. -/
def nextDay : ℕ := 86400 * 10 ^ 9

/-- Two buys of a shadow deployment, one of them released; and one more on the
next day. -/
def shadowEntered : List Label :=
  Sample.opening 0 ++ Sample.reserving (Sample.intent "old" "shadow" .buy Sample.ten Sample.ten)
      (Sample.deployment "shadow" .shadow Sample.capital) 5
    ++ Sample.reserving (Sample.intent "seen" "shadow" .buy (Sample.positive 5) Sample.ten)
      (Sample.deployment "shadow" .shadow Sample.capital) 6
    ++ Sample.submitting "seen" 7
    ++ [.call 0 (.claimAccount "tenant" "account" "worker" 300 none none "lease"), .run 0 nextDay]
    ++ Sample.reserving (Sample.intent "new" "shadow" .buy Sample.ten Sample.ten)
      (Sample.deployment "shadow" .shadow Sample.capital) nextDay

/-- The other buy of the first day is released on the next day, and the budget
of that day spent. -/
def releasedLate : List Label :=
  Sample.submitting "old" (nextDay + 1)
    ++ Sample.reserving (Sample.intent "last" "shadow" .buy (Sample.positive 20) Sample.ten)
      (Sample.deployment "shadow" .shadow Sample.capital) (nextDay + 2)

theorem daily_entry_budget_shadowEntered :
    ∃ a ∈ (after Sample.digests shadowEntered).db.accounts.rows, a.accountId = "account"
      ∧ ∀ day, (after Sample.digests shadowEntered).db.dayRisk a.accountId day
        ≤ a.capital * Sample.oms.dailyEntryFraction := by
  obtain ⟨a, ha, hid⟩ : ∃ a ∈ (after Sample.digests shadowEntered).db.accounts.rows,
      a.accountId = "account" := by decide +kernel
  exact ⟨a, ha, hid, daily_entry_budget Sample.digests Sample.oms shadowEntered (by decide +kernel)
    (by decide +kernel) (by decide +kernel) a ha⟩

/-- **The budget is exceeded**, after a late release: of a budget of 200 the
day enters 300. -/
theorem budget_exceeded : Meets (step Sample.digests) (Allows Sample.digests Sample.oms) init
      (shadowEntered ++ releasedLate)
    ∧ Meets (step Sample.digests) (Ticks Sample.digests) init (shadowEntered ++ releasedLate)
    ∧ ∃ a ∈ (after Sample.digests (shadowEntered ++ releasedLate)).db.accounts.rows,
      a.capital * Sample.oms.dailyEntryFraction = 200
        ∧ (after Sample.digests (shadowEntered ++ releasedLate)).db.dayRisk a.accountId 1 = 300 := by
  decide +kernel

end System

end Qt
