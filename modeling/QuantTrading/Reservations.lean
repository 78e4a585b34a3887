import QuantTrading.Runs

/-!
# Reservations

What an active order holds back is a function of its row: the cash for the
quantity still to be bought, or the inventory still to be sold
(`Order.Reserved`). The account keeps the total of its orders' cash in a
column of its own, and the fills of an order add up to what it says is
filled (`DB.Balanced`). Reservations are taken in one place and released in
six, so the books are an invariant of commits, not of the operations.
-/

namespace Qt

open Except Table
open Machine
open SigDigits

variable {env : Env} {time : ℕ} {db db' : DB} {tx : Transaction}

/-! ## What remains of a reservation -/

theorem FeeSchedule.rate_nonneg (fees : FeeSchedule) : 0 ≤ fees.rate :=
  (le_max_left _ _).trans (le_max_left _ _)

theorem FeeSchedule.factor_nonneg (fees : FeeSchedule) (asset : String) :
    0 ≤ fees.factor asset := by
  unfold factor
  split_ifs
  · exact add_nonneg zero_le_one fees.rate_nonneg
  · exact zero_le_one

variable {x : ℚ}

theorem ceil_nonneg (hx : 0 ≤ x) : 0 ≤ ceil x := ceilTo_nonneg 18 hx

variable {o : Order}

variable {filled : ℚ}

theorem remainingQuote_nonneg (h : filled ≤ o.quantity) : 0 ≤ remainingQuote o filled := by
  unfold remainingQuote
  split_ifs
  · exact ceil_nonneg (ctxMul_nonneg (ctxMul_nonneg (sub_nonneg.mpr h)
      o.payload.intent.limitPrice.pos.le) (FeeSchedule.factor_nonneg _ _))
  · exact le_rfl

theorem remainingBase_nonneg (hq : 0 < o.quantity) (h : filled ≤ o.quantity) :
    0 ≤ remainingBase o filled := by
  unfold remainingBase
  split_ifs
  · exact ceil_nonneg (ctxMul_nonneg (ctxMul_nonneg hq.le
      (roundSig_nonneg _ (div_nonneg (sub_nonneg.mpr h) hq.le))) (FeeSchedule.factor_nonneg _ _))
  · exact le_rfl

theorem remaining_of_terminal (h : o.status.terminal = true) (filled : ℚ) :
    remainingQuote o filled = 0 ∧ remainingBase o filled = 0 := by
  unfold remainingQuote remainingBase
  rw [h]
  exact ⟨if_neg (by simp), if_neg (by simp)⟩

/-- Nothing remains reserved of an order that is filled. -/
theorem remaining_of_filled (o : Order) :
    remainingQuote o o.quantity = 0 ∧ remainingBase o o.quantity = 0 := by
  unfold remainingQuote remainingBase ctxDiv
  simp [ceil]

variable {y : ℚ}

/-- The more is filled, the less cash remains reserved. -/
theorem remainingQuote_anti (o : Order) (hxy : x ≤ y) (hy : y ≤ o.quantity) :
    remainingQuote o y ≤ remainingQuote o x := by
  have hprecision : 0 < precision := by norm_num [precision]
  unfold remainingQuote
  split_ifs
  · have hlimit := o.payload.intent.limitPrice.pos.le
    have hrest : 0 ≤ o.quantity - y := sub_nonneg.mpr hy
    have hgross : ctxMul (o.quantity - y) o.payload.intent.limitPrice
        ≤ ctxMul (o.quantity - x) o.payload.intent.limitPrice :=
      roundSig_mono hprecision (mul_nonneg hrest hlimit)
        (mul_le_mul_of_nonneg_right (sub_le_sub_left hxy _) hlimit)
    refine ceilTo_mono 18 (roundSig_mono hprecision ?_ ?_)
    · exact mul_nonneg (ctxMul_nonneg hrest hlimit) (FeeSchedule.factor_nonneg _ _)
    · exact mul_le_mul_of_nonneg_right hgross (FeeSchedule.factor_nonneg _ _)
  · exact le_rfl

/-- The more is filled, the less inventory remains reserved. -/
theorem remainingBase_anti (hq : 0 < o.quantity) (hxy : x ≤ y) (hy : y ≤ o.quantity) :
    remainingBase o y ≤ remainingBase o x := by
  have hprecision : 0 < precision := by norm_num [precision]
  unfold remainingBase
  split_ifs
  · have hrest : 0 ≤ (o.quantity - y) / o.quantity := div_nonneg (sub_nonneg.mpr hy) hq.le
    have hfraction : ctxDiv (o.quantity - y) o.quantity ≤ ctxDiv (o.quantity - x) o.quantity :=
      roundSig_mono hprecision hrest (div_le_div_of_nonneg_right (sub_le_sub_left hxy _) hq.le)
    have hmul : ctxMul o.quantity (ctxDiv (o.quantity - y) o.quantity)
        ≤ ctxMul o.quantity (ctxDiv (o.quantity - x) o.quantity) :=
      roundSig_mono hprecision (mul_nonneg hq.le (roundSig_nonneg _ hrest))
        (mul_le_mul_of_nonneg_left hfraction hq.le)
    refine ceilTo_mono 18 (roundSig_mono hprecision ?_ ?_)
    · exact mul_nonneg (ctxMul_nonneg hq.le (roundSig_nonneg _ hrest))
        (FeeSchedule.factor_nonneg _ _)
    · exact mul_le_mul_of_nonneg_right hmul (FeeSchedule.factor_nonneg _ _)
  · exact le_rfl

theorem onGrid_remaining (o : Order) (filled : ℚ) :
    OnGrid 18 (remainingQuote o filled) ∧ OnGrid 18 (remainingBase o filled) := by
  have hzero : OnGrid 18 0 := by decide +kernel
  unfold remainingQuote remainingBase
  constructor <;> split_ifs
  · exact onGrid_ceilTo _ _
  · exact hzero
  · exact onGrid_ceilTo _ _
  · exact hzero

variable {o' : Order}

/-- What remains reserved depends on what an order never changes, and on
whether it is at its end. -/
theorem remaining_congr (hfrozen : o'.frozen = o.frozen)
    (hterminal : o'.status.terminal = o.status.terminal) (filled : ℚ) :
    remainingQuote o' filled = remainingQuote o filled
      ∧ remainingBase o' filled = remainingBase o filled := by
  have hside : o'.side = o.side := (congrArg Order.side hfrozen :)
  have hquantity : o'.quantity = o.quantity := (congrArg Order.quantity hfrozen :)
  have hpayload : o'.payload = o.payload := (congrArg Order.payload hfrozen :)
  unfold remainingQuote remainingBase
  rw [hside, hquantity, hpayload, hterminal]
  exact ⟨rfl, rfl⟩

/-! ## The reservation columns of an order -/

/-- **The reservation columns say what remains to be done** – nothing, for an
order at its end. -/
def Order.Reserved (o : Order) : Prop :=
  o.reservedQuote = remainingQuote o o.filledQuantity
    ∧ o.reservedBase = remainingBase o o.filledQuantity

/-- A step that keeps the reservation, the filled quantity and whether the
order is at its end keeps the columns right. -/
theorem Order.Reserved.of_frozen (h : o.Reserved) (hfrozen : o'.frozen = o.frozen)
    (hterminal : o'.status.terminal = o.status.terminal)
    (hfilled : o'.filledQuantity = o.filledQuantity) (hquote : o'.reservedQuote = o.reservedQuote)
    (hbase : o'.reservedBase = o.reservedBase) : o'.Reserved := by
  obtain ⟨hq, hb⟩ := remaining_congr hfrozen hterminal o.filledQuantity
  unfold Reserved
  rw [hquote, hbase, hfilled, hq, hb]
  exact h

/-- An order at its end without reservations has the columns right. -/
theorem Order.Reserved.of_terminal (hterminal : o.status.terminal = true)
    (hquote : o.reservedQuote = 0) (hbase : o.reservedBase = 0) : o.Reserved := by
  obtain ⟨hq, hb⟩ := remaining_of_terminal hterminal o.filledQuantity
  exact ⟨hquote.trans hq.symm, hbase.trans hb.symm⟩

variable {a a' : Account} {ks : List EventType}

theorem Move.filledQuantity (h : Move time tx a o a' o' ks) :
    o'.filledQuantity = o.filledQuantity := by
  cases h <;> rfl

theorem Move.reserved (h : Move time tx a o a' o' ks) (hr : o.Reserved) : o'.Reserved := by
  have hfrozen := h.frozen
  cases h with
  | expire | cancelUnsent | shadow | abort | reject | confirmCancel =>
    exact .of_terminal rfl rfl rfl
  | finish _ _ _ _ _ _ _ _ _ reported => exact .of_terminal reported rfl rfl
  | claim _ unsent => exact hr.of_frozen hfrozen (by rw [unsent]; rfl) rfl rfl rfl
  | answer _ _ _ _ _ hstatus =>
    refine hr.of_frozen hfrozen ?_ rfl rfl rfl
    rcases hstatus with rfl | ⟨hs, rfl | rfl⟩
    · rfl
    · rw [hs]
      rfl
    · rw [hs]
      rfl
  | dispatchCancel unended => exact hr.of_frozen hfrozen unended.symm rfl rfl rfl
  | rejectCancel pending =>
    refine hr.of_frozen hfrozen ?_ rfl rfl rfl
    rw [pending]
    show (ite _ _ _ : OrderStatus).terminal = _
    split_ifs <;> rfl
  | doubt unended => exact hr.of_frozen hfrozen unended.symm rfl rfl rfl
  | settle => exact hr.of_frozen hfrozen rfl rfl rfl rfl
  | observe _ _ _ _ _ _ unended _ _ _ reported =>
    refine hr.of_frozen hfrozen ?_ rfl rfl rfl
    rw [unended]
    rcases reported with hs | hs | hs <;> exact hs ▸ rfl

theorem Order.reserved_filling (o : Order) (f : FillReport) (now : ℕ) :
    (o.filling f now).Reserved := by
  have hfrozen : (o.filling f now).frozen = o.frozen := rfl
  by_cases hfull : o.filledQuantity + f.quantity = o.quantity
  · -- a complete fill leaves nothing to reserve, whatever the status was
    have hstatus : (o.filling f now).status = .filled := if_pos hfull
    obtain ⟨hq, hb⟩ := remaining_of_filled o
    refine .of_terminal (by rw [hstatus]; rfl) ?_ ?_
    · show remainingQuote o (o.filledQuantity + f.quantity) = 0
      rw [hfull, hq]
    · show remainingBase o (o.filledQuantity + f.quantity) = 0
      rw [hfull, hb]
  · have hterminal : (o.filling f now).status.terminal = o.status.terminal := by
      show (filledStatus o (o.filledQuantity + f.quantity)).terminal = _
      unfold filledStatus
      rw [if_neg hfull]
      split_ifs with h
      · rfl
      · rw [not_or, Bool.not_eq_true] at h
        exact h.1.symm
    obtain ⟨hq, hb⟩ := remaining_congr hfrozen hterminal (o.filledQuantity + f.quantity)
    exact ⟨hq.symm, hb.symm⟩

theorem Evolves.reserved (h : Evolves time db tx o o') (hr : o.Reserved) : o'.Reserved := by
  cases h with
  | same => exact hr
  | move _ _ hm => exact hm.reserved hr
  | fill => exact o.reserved_filling _ _

theorem ReserveCall.row_reserved (env : Env) (c : ReserveCall) (now : ℕ) :
    (c.row env now).Reserved := by
  constructor
  · show c.reservedQuote = remainingQuote (c.row env now) 0
    unfold ReserveCall.reservedQuote ReserveCall.gross remainingQuote
    by_cases hside : c.intent.side = .buy
    · rw [if_pos hside, if_pos ⟨rfl, hside⟩, sub_zero]
      rfl
    · rw [if_neg hside, if_neg (fun h => hside h.2)]
  · show c.reservedBase = remainingBase (c.row env now) 0
    unfold ReserveCall.reservedBase remainingBase
    by_cases hside : c.intent.side = .sell
    · have hone : ctxDiv ((c.row env now).quantity - 0) (c.row env now).quantity = 1 := by
        have hpos : (c.row env now).quantity ≠ 0 := c.intent.quantity.pos.ne'
        unfold ctxDiv
        rw [sub_zero, div_self hpos]
        exact roundSig_zpow (by norm_num [precision]) 0
      rw [if_pos hside, if_pos ⟨rfl, hside⟩, hone]
      unfold ctxMul
      rw [mul_one]
      conv_rhs => arg 1; arg 2; arg 1; rw [show (c.row env now).quantity = c.intent.quantity.val
        from rfl, c.intent.quantity.fits.roundSig_eq]
      rfl
    · rw [if_neg hside, if_neg (fun h => hside h.2)]

/-! ## The books of an account -/

/-- **The books agree**: an account reserves what its orders reserve, and an
order is filled as far as its fills say. -/
structure DB.Balanced (db : DB) : Prop where
  order : ∀ o ∈ db.orders.rows, o.Valid ∧ o.Reserved
  owned : ∀ o ∈ db.orders.rows, ∃ a, db.accounts.find? o.accountId = some a
    ∧ a.tenantId = o.tenantId
  account : ∀ a ∈ db.accounts.rows, a.Valid ∧ a.reservedQuote
    = db.orders.sumOf (fun o => o.accountId = a.accountId) (·.reservedQuote)
  fill : ∀ f ∈ db.fills.rows, 0 < f.quantity ∧ ∃ o, db.orders.find? f.intentId = some o
  filled : ∀ o ∈ db.orders.rows, o.filledQuantity
    = db.fills.sumOf (fun f => f.intentId = o.intentId) (·.quantity)

theorem Move.reservedQuote (h : Move time tx a o a' o' ks) :
    a'.reservedQuote = a.reservedQuote - o.reservedQuote + o'.reservedQuote := by
  cases h <;> simp [Account.freed, Order.ended, Account.settled]

section Replace

variable {a a' : Account} {o o' : Order}

/-- The cash reserved by the orders of an account, after one of them changed. -/
theorem sumOf_reservedQuote_replace (ho : db.orders.find? o.intentId = some o)
    (hfrozen : o'.frozen = o.frozen) (id : String) :
    (db.orders.replace o').sumOf (fun p => p.accountId = id) (·.reservedQuote)
      = db.orders.sumOf (fun p => p.accountId = id) (·.reservedQuote)
        + if o.accountId = id then o'.reservedQuote - o.reservedQuote else 0 := by
  have hid : o'.intentId = o.intentId := Order.intentId_of_frozen hfrozen
  have haid : o'.accountId = o.accountId := (congrArg Order.accountId hfrozen :)
  rw [sumOf_replace (hid.symm ▸ ho), haid]
  split_ifs <;> ring

/-- **One order and its account change together**, and the account reserves
what its orders reserve. -/
theorem DB.Balanced.account_of_replace (h : db.Balanced) (located : Located db a o)
    (hafrozen : a'.frozen = a.frozen) (hfrozen : o'.frozen = o.frozen) (hvalid : a'.Valid)
    (hreserved : a'.reservedQuote = a.reservedQuote - o.reservedQuote + o'.reservedQuote) :
    ∀ b ∈ (db.accounts.replace a').rows, b.Valid ∧ b.reservedQuote
      = (db.orders.replace o').sumOf (fun p => p.accountId = b.accountId) (·.reservedQuote) := by
  have hid : a'.accountId = a.accountId := Account.accountId_of_frozen hafrozen
  intro b hb
  rw [sumOf_reservedQuote_replace located.order hfrozen]
  rcases (mem_rows_replace (hid.symm ▸ located.account)).mp hb with rfl | ⟨hb, hne⟩
  · refine ⟨hvalid, ?_⟩
    rw [if_pos (located.accountId.symm.trans hid.symm), hreserved,
      (h.account a (mem_of_find? located.account)).2, hid]
    ring
  · refine ⟨(h.account b hb).1, ?_⟩
    rw [if_neg (fun he => hne ?_), add_zero]
    · exact (h.account b hb).2
    · rw [hid, located.accountId, he]

end Replace

theorem Commit.owned (h : Commit env time db tx db') (hb : db.Balanced) :
    ∀ o ∈ db'.orders.rows, ∃ a, db'.accounts.find? o.accountId = some a
      ∧ a.tenantId = o.tenantId := by
  intro o' ho'
  obtain ⟨o, ho, he⟩ | ⟨c, a, _, _, rfl, hr⟩ := h.origin (find?_of_mem ho')
  · have haid : o'.accountId = o.accountId := (congrArg Order.accountId he.frozen :)
    have htenant : o'.tenantId = o.tenantId := (congrArg Order.tenantId he.frozen :)
    obtain ⟨a, ha, hta⟩ := hb.owned o (mem_of_find? ho)
    obtain ⟨a', ha', hfrozen, _⟩ := h.account ha
    rw [haid, htenant, ← hta]
    exact ⟨a', ha', (congrArg Account.tenantId hfrozen :)⟩
  · obtain ⟨a', ha', hfrozen, _⟩ := h.account hr.account
    refine ⟨a', ha', ?_⟩
    rw [show a'.tenantId = a.tenantId from (congrArg Account.tenantId hfrozen :)]
    exact hr.tenantId

theorem DB.Balanced.account_insertOnce (hb : db.Balanced) {b : Account} (hvalid : b.Valid)
    (hzero : b.reservedQuote = 0) : ∀ a ∈ (db.accounts.insertOnce b).rows, a.Valid ∧ a.reservedQuote
      = db.orders.sumOf (fun o => o.accountId = a.accountId) (·.reservedQuote) := by
  intro a ha
  cases hfind : db.accounts.find? b.accountId with
  | some _ =>
    rw [insertOnce_of_find? hfind] at ha
    exact hb.account a ha
  | none =>
    rcases (mem_rows_insertOnce hfind).mp ha with ha | rfl
    · exact hb.account a ha
    · refine ⟨hvalid, hzero.trans (sumOf_eq_zero (fun o ho haid => ?_) _).symm⟩
      obtain ⟨a', ha', _⟩ := hb.owned o ho
      rw [haid, hfind] at ha'
      cases ha'

theorem newAccount_valid {tenant accountId quoteAsset : String} {capital : ℚ} (hpos : 0 < capital)
    (hfits : Fits capital) (now : ℕ) : (newAccount tenant accountId capital quoteAsset now).Valid :=
    by
  have hzero : Fits 0 := by decide +kernel
  exact ⟨hfits, hzero, hzero, hpos, le_rfl⟩

/-- An account that changes off the trading path keeps its books. -/
theorem DB.Balanced.account_books (hb : db.Balanced) (ha : db.accounts.find? a.accountId = some a)
    (hbooks : a'.books = a.books) : ∀ b ∈ (db.accounts.replace a').rows, b.Valid ∧ b.reservedQuote
      = db.orders.sumOf (fun o => o.accountId = b.accountId) (·.reservedQuote) := by
  have hid : a'.accountId = a.accountId :=
    Account.accountId_of_frozen (Account.frozen_of_books hbooks)
  intro b hmem
  rcases (mem_rows_replace (hid.symm ▸ ha)).mp hmem with rfl | ⟨hmem, _⟩
  · obtain ⟨hvalid, hsum⟩ := hb.account a (mem_of_find? ha)
    have hcapital : b.capital = a.capital := (congrArg Account.capital hbooks :)
    have hreserved : b.reservedQuote = a.reservedQuote := (congrArg Account.reservedQuote hbooks :)
    have hdaily : b.dailyNewRisk = a.dailyNewRisk := (congrArg Account.dailyNewRisk hbooks :)
    unfold Account.Valid at hvalid ⊢
    rw [hcapital, hreserved, hdaily, hid]
    exact ⟨hvalid, hsum⟩
  · exact hb.account b hmem

/-- **Every account reserves what its orders reserve**, after a commit. -/
theorem Commit.account_balanced (h : Commit env time db tx db') (hb : db.Balanced) :
    ∀ b ∈ db'.accounts.rows, b.Valid ∧ b.reservedQuote
      = db'.orders.sumOf (fun o => o.accountId = b.accountId) (·.reservedQuote) := by
  cases h with
  | aside h =>
    rw [h.orders]
    obtain haccounts | ⟨a, a', ha, haccounts, hbooks, _⟩ := h.accounts
    · rw [haccounts]
      exact hb.account
    · rw [haccounts]
      exact hb.account_books ha hbooks
  | fund hpos hfits => exact hb.account_insertOnce (newAccount_valid hpos hfits _) rfl
  | reopen hpos hfits => exact hb.account_insertOnce (newAccount_valid hpos hfits _) rfl
  | @reserve c a now hnow ha htenant hfresh _ _ _ _ _ _ hvalid hrow =>
    have haid : a.accountId = c.intent.accountId := key_of_find? ha
    have hfresh' : db.orders.find? (c.row env now).intentId = none := hfresh
    have hkept : db.accounts.find? (a.reserving c now).accountId = some a := haid.symm ▸ ha
    intro b hmem
    have hsum : (db.orders.insertOnce (c.row env now)).sumOf (fun o => o.accountId = b.accountId)
          (·.reservedQuote)
        = db.orders.sumOf (fun o => o.accountId = b.accountId) (·.reservedQuote)
          + if c.intent.accountId = b.accountId then c.reservedQuote else 0 :=
      sumOf_insertOnce hfresh' _ _
    show b.Valid ∧ b.reservedQuote = (db.orders.insertOnce (c.row env now)).sumOf _ _
    rw [hsum]
    rcases (mem_rows_replace hkept).mp hmem with rfl | ⟨hmem, hne⟩
    · refine ⟨hvalid, ?_⟩
      rw [if_pos (by exact haid.symm)]
      show a.reservedQuote + c.reservedQuote = _
      rw [(hb.account a (mem_of_find? ha)).2]
      rfl
    · rw [if_neg (fun he => hne (he.symm.trans haid.symm)), add_zero]
      exact hb.account b hmem
  | @move _ a a' o o' ks located htx hm hav hov =>
    exact hb.account_of_replace located hm.account_frozen hm.frozen
      (hav (hb.account a (mem_of_find? located.account)).1) hm.reservedQuote
  | @fill _ a o f ks located htx hcheck _ _ hnew _ _ _ hbound _ hks hav hov =>
    exact hb.account_of_replace located (by rfl) (by rfl) (by exact hav) (by rfl)

variable {f : FillReport}

/-- **A fill that an order has room for keeps its row valid.** -/
theorem Order.Valid.filling (hv : o.Valid) (hr : o.Reserved) (hpos : 0 ≤ f.quantity)
    (hgrid : OnGrid 18 f.quantity) (hbound : o.filledQuantity + f.quantity ≤ o.quantity)
    (time : ℕ) :
    (o.filling f time).Valid := by
  obtain ⟨hquantity, hfilled, hquote, hbase, hq, hnonneg, hle⟩ := hv
  have hmore : o.filledQuantity ≤ o.filledQuantity + f.quantity := le_add_of_nonneg_right hpos
  have hfilled' : 0 ≤ o.filledQuantity + f.quantity := hnonneg.trans hmore
  refine ⟨hquantity, ?_, ?_, ?_, hq, hfilled', hbound⟩
  · exact .of_le (hfilled.1.add hgrid) hfilled' hbound hquantity
  · refine .of_le (onGrid_remaining o _).1 (remainingQuote_nonneg hbound) ?_ hquote
    rw [hr.1]
    exact remainingQuote_anti o hmore hbound
  · refine .of_le (onGrid_remaining o _).2 (remainingBase_nonneg hq hbound) ?_ hbase
    rw [hr.2]
    exact remainingBase_anti hq hmore hbound

/-- **A fill that an order has room for keeps the row of its account valid.** -/
theorem DB.Balanced.account_filling (hb : db.Balanced) (located : Located db a o)
    (hpos : 0 ≤ f.quantity) (hbound : o.filledQuantity + f.quantity ≤ o.quantity) :
    (a.filling o f).Valid := by
  obtain ⟨⟨hcapital, hreserved, hdaily, hpositive, _⟩, hsum⟩ :=
    hb.account a (mem_of_find? located.account)
  have hmem := mem_of_find? located.order
  obtain ⟨⟨_, _, hquote, _⟩, hr, _⟩ := hb.order o hmem
  have hmore : o.filledQuantity ≤ o.filledQuantity + f.quantity := le_add_of_nonneg_right hpos
  have hless : remainingQuote o (o.filledQuantity + f.quantity) ≤ o.reservedQuote := by
    rw [hr]
    exact remainingQuote_anti o hmore hbound
  have hpart : o.reservedQuote ≤ a.reservedQuote := by
    rw [hsum]
    refine le_sumOf (fun p hp _ => ?_) hmem located.accountId.symm
    obtain ⟨⟨_, _, _, _, _, _, hle⟩, hquote, _⟩ := hb.order p hp
    rw [hquote]
    exact remainingQuote_nonneg hle
  have hnonneg : 0 ≤ a.reservedQuote - o.reservedQuote
      + remainingQuote o (o.filledQuantity + f.quantity) :=
    add_nonneg (sub_nonneg.mpr hpart) (remainingQuote_nonneg hbound)
  refine ⟨hcapital, ?_, hdaily, hpositive, hnonneg⟩
  refine .of_le ((hreserved.1.sub hquote.1).add (onGrid_remaining o _).1) hnonneg ?_ hreserved
  show a.reservedQuote - o.reservedQuote + remainingQuote o _ ≤ a.reservedQuote
  linarith

theorem checkFill_eq_ok {u : Unit} (h : checkFill f = .ok u) :
    (0 < f.quantity ∧ Fits f.quantity) ∧ (0 < f.price ∧ Fits f.price) ∧ 0 ≤ f.fee ∧ Fits f.fee := by
  unfold checkFill at h
  obtain ⟨_, _, h⟩ := of_bind h
  obtain ⟨_, _, h⟩ := of_bind h
  obtain ⟨_, _, h⟩ := of_bind h
  obtain ⟨_, _, h⟩ := of_bind h
  obtain ⟨_, hq, h⟩ := of_bind h
  obtain ⟨_, hp, hfee⟩ := of_bind h
  obtain ⟨_, hqpos, hqfits⟩ := checkAmount_eq_ok hq
  obtain ⟨_, hppos, hpfits⟩ := checkAmount_eq_ok hp
  obtain ⟨hfnonneg, _, hffits⟩ := checkAmount_eq_ok hfee
  exact ⟨⟨hqpos rfl, hqfits⟩, ⟨hppos rfl, hpfits⟩, hfnonneg, hffits⟩

/-- A fill of the database after is one of the database before, or was posted
by the commit. -/
theorem Commit.fill_origin (h : Commit env time db tx db') {g : Fill} (hg : g ∈ db'.fills.rows) :
    g ∈ db.fills.rows ∨ ∃ o f, db.orders.find? o.intentId = some o
      ∧ tx.fill = some (o.intentId, f) ∧ checkFill f = .ok () ∧ g = fillRow env o f time := by
  cases h with
  | aside h =>
    rw [h.fills] at hg
    exact .inl hg
  | fund | reopen | reserve | move => exact .inl hg
  | @fill _ a o f ks located htx hcheck _ _ hnew =>
    have hfresh : db.fills.find? (fillRow env o f time).tradeKey = none := hnew
    rcases (mem_rows_insertOnce hfresh).mp hg with hg | rfl
    · exact .inl hg
    · exact .inr ⟨o, f, located.order, htx, hcheck, rfl⟩

theorem Commit.fill_known (h : Commit env time db tx db') (hb : db.Balanced) :
    ∀ g ∈ db'.fills.rows, 0 < g.quantity ∧ ∃ o, db'.orders.find? g.intentId = some o := by
  intro g hg
  obtain ⟨hpos, o, ho⟩ : 0 < g.quantity ∧ ∃ o, db.orders.find? g.intentId = some o := by
    rcases h.fill_origin hg with hg | ⟨o, f, ho, _, hcheck, rfl⟩
    · exact hb.fill g hg
    · exact ⟨(checkFill_eq_ok hcheck).1.1, o, ho⟩
  obtain ⟨o', ho', _⟩ := h.evolves ho
  exact ⟨hpos, o', ho'⟩

/-- **Every order is filled as far as its fills say**, after a commit. -/
theorem Commit.filled_balanced (h : Commit env time db tx db') (hb : db.Balanced) :
    ∀ o ∈ db'.orders.rows, o.filledQuantity
      = db'.fills.sumOf (fun f => f.intentId = o.intentId) (·.quantity) := by
  cases h with
  | aside h =>
    rw [h.fills, h.orders]
    exact hb.filled
  | fund => exact hb.filled
  | reopen => exact hb.filled
  | @reserve c a now hnow ha htenant hfresh =>
    have hfresh' : db.orders.find? (c.row env now).intentId = none := hfresh
    intro o hmem
    rcases (mem_rows_insertOnce hfresh').mp hmem with ho | rfl
    · exact hb.filled o ho
    · refine (sumOf_eq_zero (fun f hf hid => ?_) _).symm
      obtain ⟨_, o, ho⟩ := hb.fill f hf
      rw [hid, hfresh'] at ho
      cases ho
  | @move _ a a' o o' ks located htx hm =>
    have hid : o'.intentId = o.intentId := Order.intentId_of_frozen hm.frozen
    intro p hmem
    rcases (mem_rows_replace (hid.symm ▸ located.order)).mp hmem with rfl | ⟨hmem, _⟩
    · rw [hm.filledQuantity, hid]
      exact hb.filled o (mem_of_find? located.order)
    · exact hb.filled p hmem
  | @fill _ a o f ks located htx hcheck _ _ hnew =>
    have hfresh : db.fills.find? (fillRow env o f time).tradeKey = none := hnew
    have hkept : db.orders.find? (o.filling f time).intentId = some o := located.order
    intro p hmem
    have hsum : (db.fills.insertOnce (fillRow env o f time)).sumOf
          (fun g => g.intentId = p.intentId) (·.quantity)
        = db.fills.sumOf (fun g => g.intentId = p.intentId) (·.quantity)
          + if o.intentId = p.intentId then f.quantity else 0 := sumOf_insertOnce hfresh _ _
    show p.filledQuantity = (db.fills.insertOnce (fillRow env o f time)).sumOf _ _
    rw [hsum]
    rcases (mem_rows_replace hkept).mp hmem with rfl | ⟨hmem, hne⟩
    · rw [if_pos (by rfl)]
      show o.filledQuantity + f.quantity = _
      rw [hb.filled o (mem_of_find? located.order)]
      rfl
    · rw [if_neg (fun he => hne he.symm), add_zero]
      exact hb.filled p hmem

/-- **Commits keep the books.** -/
theorem Commit.balanced (h : Commit env time db tx db') (hb : db.Balanced) : db'.Balanced where
  order := h.forall_orders (fun c _ now hr => ⟨hr.valid, c.row_reserved env now⟩)
    (fun _ _ he ho => ⟨he.valid ho.1, he.reserved ho.2⟩) hb.order
  owned := h.owned hb
  account := h.account_balanced hb
  fill := h.fill_known hb
  filled := h.filled_balanced hb

theorem balanced_empty : DB.empty.Balanced := by
  constructor <;> intro _ h <;> cases h

/-- **The books agree after every run.** -/
theorem System.balanced_after (env : Env) (ls : List Label) : (after env ls).db.Balanced :=
  inv_after DB.Balanced balanced_empty (fun h => h.balanced) ls

/-- **Reservations in every reachable state**: an account reserves the sum of
what its orders reserve; no order reserves a negative amount, or anything at
its end; and an order is filled by its fills, never beyond its quantity. -/
theorem System.reservations_after (env : Env) (ls : List Label) :
    (∀ a ∈ (after env ls).db.accounts.rows, a.reservedQuote
      = (after env ls).db.orders.sumOf (fun o => o.accountId = a.accountId) (·.reservedQuote))
    ∧ ∀ o ∈ (after env ls).db.orders.rows, (0 ≤ o.reservedQuote ∧ 0 ≤ o.reservedBase)
      ∧ (o.status.terminal = true → o.reservedQuote = 0 ∧ o.reservedBase = 0)
      ∧ o.filledQuantity
        = (after env ls).db.fills.sumOf (fun f => f.intentId = o.intentId) (·.quantity)
      ∧ o.filledQuantity ≤ o.quantity := by
  have hb := balanced_after env ls
  refine ⟨fun a ha => (hb.account a ha).2, fun o ho => ?_⟩
  obtain ⟨⟨_, _, _, _, hpos, _, hle⟩, hquote, hbase⟩ := hb.order o ho
  refine ⟨⟨?_, ?_⟩, fun hterminal => ?_, hb.filled o ho, hle⟩
  · rw [hquote]
    exact remainingQuote_nonneg hle
  · rw [hbase]
    exact remainingBase_nonneg hpos hle
  · rw [hquote, hbase]
    exact remaining_of_terminal hterminal _

end Qt
