import QuantTrading.Ledger

/-!
# What a fill leaves reserved

A fill within the terms of its order should never halt the account: the order
had reserved what the fill takes. But the reservation of the whole is rounded up
once, and a fill replaces it by what it takes and by the reservation of the
rest, each of them rounded up for itself. And for a sale the rest is computed
from the fraction of the quantity that remains, which eighty digits do not hold,
so that it may come out above the quantity that remains.

`apply_fill` keeps an account covered exactly when neither matters (`Fitting`).
-/

namespace Qt

open Except Table
open SigDigits

variable {env : Env} {time : ℕ} {db db' : DB} {a : Account} {o : Order} {f : FillReport}
  {tenant intentId : String}

/-! ## Amounts -/

variable (o) (filled : ℚ)

/-- The cash that an order with `filled` of it done still owes, rounded up. -/
def Order.owedQuote : ℚ :=
  if o.side = .buy then
    ceil ((o.quantity - filled) * o.payload.intent.limitPrice
      * o.payload.fees.factor o.payload.instrument.quoteAsset)
  else 0

/-- The inventory that an order with `filled` of it done still owes, rounded
up. -/
def Order.owedBase : ℚ :=
  if o.side = .sell then
    ceil ((o.quantity - filled) * o.payload.fees.factor o.payload.instrument.baseAsset)
  else 0

/-- What a fill takes from the wallet: a sale its quantity, a buy its cash,
rounded up, and both the fee. -/
def fillCost (f : FillReport) (asset : String) : ℚ :=
  (if o.payload.instrument.baseAsset = asset then
      match o.side with
      | .buy => -f.quantity
      | .sell => f.quantity
    else 0)
  + (if o.payload.instrument.quoteAsset = asset then
      match o.side with
      | .buy => ceil (f.quantity * f.price)
      | .sell => -floorTo 18 (f.quantity * f.price)
    else 0)
  + if f.feeAsset = asset then f.fee else 0

/-- The fee at the scheduled rate. -/
def Order.feeAt (f : FillReport) : ℚ :=
  if f.feeAsset = f.quoteAsset then fillGross o.side f.quantity f.price * o.payload.fees.rate
  else f.quantity * o.payload.fees.rate

/-- **A fill within the terms of its order.** -/
@[mk_iff]
structure Compliant (o : Order) (f : FillReport) : Prop where
  quantity : f.quantity ≤ o.quantity - o.filledQuantity
  price : ¬ worsePrice o f.price
  feeAsset : f.feeAsset = o.payload.fees.feeAsset
  fee : f.fee ≤ ceil (o.feeAt f)
  settlement : f.settlementStatus.broken = false

/-- **The account covers its orders** in the assets of one of them. -/
structure DB.Covered (db : DB) (a : Account) (o : Order) : Prop where
  nonneg : ∀ asset, 0 ≤ db.balance a.accountId asset
  quote : a.reservedQuote ≤ db.balance a.accountId o.payload.instrument.quoteAsset
  base : baseReserved db a.accountId o.payload.instrument.baseAsset
    ≤ db.balance a.accountId o.payload.instrument.baseAsset

/-- **The account is as it should be after a fill**: its mode is what it was, it
covers its orders, and the order reserves what it still owes. -/
def DB.Filled (db' : DB) (a : Account) (o : Order) : Prop :=
  ∃ a' o', db'.accounts.find? a.accountId = some a' ∧ db'.orders.find? o.intentId = some o'
    ∧ a'.mode = a.mode ∧ db'.Covered a' o
    ∧ o'.reservedQuote = o'.owedQuote o'.filledQuantity
    ∧ o'.reservedBase = o'.owedBase o'.filledQuantity

/-- The trade of a report is known. -/
def DB.Known (db : DB) (o : Order) (f : FillReport) : Prop :=
  db.fills.find? (o.venue, o.accountId, f.venueTradeId) ≠ none
deriving Decidable

/-- What is filled of an order when the report is applied. -/
def DB.filledBy (db : DB) (o : Order) (f : FillReport) : ℚ :=
  if db.Known o f then o.filledQuantity else o.filledQuantity + f.quantity

/-- The inventory a sale reserves for what remains, before it is rounded up:
the quantity, times the fraction of it that remains, times the factor of the
fee, to eighty digits each. -/
def Order.fractionOwed : ℚ :=
  ctxMul (ctxMul o.quantity (ctxDiv (o.quantity - filled) o.quantity))
    (o.payload.fees.factor o.payload.instrument.baseAsset)

/-- The fraction that remains of an order does not come out above what remains,
where that needs no rounding up. -/
def Order.FractionFits : Prop :=
  o.side = .sell →
    OnGrid 18 ((o.quantity - filled) * o.payload.fees.factor o.payload.instrument.baseAsset) →
      o.fractionOwed filled
        ≤ (o.quantity - filled) * o.payload.fees.factor o.payload.instrument.baseAsset
deriving Decidable

/-- **The roundings fit**: what a new trade takes, and what its order then owes,
exceed what the order had reserved by no more than is unreserved; and the
fraction that remains of a sale is not rounded up. -/
@[mk_iff]
structure Fitting (db : DB) (a : Account) (o : Order) (f : FillReport) : Prop where
  fraction : o.FractionFits (db.filledBy o f)
  quote : ¬ db.Known o f →
    fillCost o f o.payload.instrument.quoteAsset + o.owedQuote (o.filledQuantity + f.quantity)
      - o.reservedQuote
    ≤ db.balance a.accountId o.payload.instrument.quoteAsset - a.reservedQuote
  base : ¬ db.Known o f →
    fillCost o f o.payload.instrument.baseAsset + o.owedBase (o.filledQuantity + f.quantity)
      - o.reservedBase
    ≤ db.balance a.accountId o.payload.instrument.baseAsset
      - baseReserved db a.accountId o.payload.instrument.baseAsset

instance (o : Order) (f : FillReport) : Decidable (Compliant o f) :=
  decidable_of_iff' _ (compliant_iff o f)

instance (db : DB) (a : Account) (o : Order) (f : FillReport) : Decidable (Fitting db a o f) :=
  decidable_of_iff' _ (fitting_iff db a o f)

/-! ## The digits of a reservation -/

variable (fees : FeeSchedule)

theorem FeeSchedule.fits_rate : Fits fees.rate := by
  have hzero : Fits 0 := by decide +kernel
  unfold FeeSchedule.rate
  rcases max_choice (max 0 fees.makerRate.val) fees.takerRate.val with h | h <;> rw [h]
  · rcases max_choice 0 fees.makerRate.val with h | h <;> rw [h]
    · exact hzero
    · exact fees.makerRate.fits
  · exact fees.takerRate.fits

theorem FeeSchedule.onGrid_factor (asset : String) : OnGrid 18 (fees.factor asset) := by
  have hone : OnGrid 18 1 := by decide +kernel
  unfold FeeSchedule.factor
  split_ifs
  · exact hone.add fees.fits_rate.1
  · exact hone

theorem FeeSchedule.factor_le (asset : String) : fees.factor asset ≤ 2 * 10 ^ 20 := by
  have hrate := (le_abs_self fees.rate).trans_lt fees.fits_rate.2
  unfold FeeSchedule.factor
  split_ifs
  · linarith
  · norm_num

variable {filled} {o}

theorem Order.Valid.fits_rest (hv : o.Valid) (hgrid : OnGrid 18 filled) (hpos : 0 ≤ filled)
    (hle : filled ≤ o.quantity) : Fits (o.quantity - filled) :=
  .of_le (hv.1.1.sub hgrid) (sub_nonneg.mpr hle) (sub_le_self _ hpos) hv.1

/-- **The cash that a buy reserves is exact**: what is reserved of it now is
money, so the products have few enough digits. -/
theorem Order.remainingQuote_eq (hv : o.Valid) (hr : o.Reserved) (hopen : o.status.terminal = false)
    (hgrid : OnGrid 18 filled) (hmore : o.filledQuantity ≤ filled) (hle : filled ≤ o.quantity) :
    remainingQuote o filled = o.owedQuote filled := by
  unfold remainingQuote Order.owedQuote
  by_cases hside : o.side = .buy
  swap
  · rw [if_neg (fun h => hside h.2), if_neg hside]
  rw [if_pos ⟨hopen, hside⟩, if_pos hside]
  set φ := o.payload.fees.factor o.payload.instrument.quoteAsset with hφ
  have hfactor : 0 ≤ φ := FeeSchedule.factor_nonneg _ _
  obtain ⟨hquantity, hfilled, hreserved, -, hpos, hnonneg, hfilledle⟩ := id hv
  have hlimit := o.payload.intent.limitPrice
  have hnow := hv.fits_rest hfilled.1 hnonneg hfilledle
  have hthen := hv.fits_rest hgrid (hnonneg.trans hmore) hle
  rw [hthen.ctxMul_eq o.payload.intent.limitPrice.fits]
  -- the reservation of the moment bounds what is left of it
  have hbound : (o.quantity - o.filledQuantity) * o.payload.intent.limitPrice * φ < 10 ^ 20 := by
    by_contra hlarge
    have hcolumn : o.reservedQuote = ceil (ctxMul ((o.quantity - o.filledQuantity)
        * o.payload.intent.limitPrice) φ) := by
      rw [hr.1, remainingQuote, if_pos ⟨hopen, hside⟩, hnow.ctxMul_eq o.payload.intent.limitPrice.fits]
    have hround : (10 : ℚ) ^ 20
        ≤ ctxMul ((o.quantity - o.filledQuantity) * o.payload.intent.limitPrice) φ := by
      have hpower : roundSig precision ((10 : ℚ) ^ (20 : ℤ)) = (10 : ℚ) ^ (20 : ℤ) :=
        roundSig_zpow (by norm_num [precision]) 20
      have hmono := roundSig_mono (p := precision) (by norm_num [precision])
        (by positivity : (0 : ℚ) ≤ (10 : ℚ) ^ (20 : ℤ)) (by exact_mod_cast not_lt.mp hlarge)
      rw [hpower] at hmono
      exact_mod_cast hmono
    have hceil := hround.trans (le_ceilTo 18 _)
    have hsmall := (le_abs_self o.reservedQuote).trans_lt hreserved.2
    rw [hcolumn] at hsmall
    exact absurd (hceil.trans_lt hsmall) (lt_irrefl _)
  have hgross : OnGrid (18 + 18 + 18) ((o.quantity - filled) * o.payload.intent.limitPrice * φ) :=
    (hthen.1.mul o.payload.intent.limitPrice.fits.1).mul (FeeSchedule.onGrid_factor _ _)
  have hrest : (0 : ℚ) ≤ (o.quantity - filled) * o.payload.intent.limitPrice :=
    mul_nonneg (sub_nonneg.mpr hle) o.payload.intent.limitPrice.pos.le
  congr 1
  refine hgross.roundSig_eq ?_
  rw [abs_of_nonneg (mul_nonneg hrest hfactor)]
  calc (o.quantity - filled) * o.payload.intent.limitPrice * φ
      ≤ (o.quantity - o.filledQuantity) * o.payload.intent.limitPrice * φ := by
        refine mul_le_mul_of_nonneg_right ?_ hfactor
        exact mul_le_mul_of_nonneg_right (sub_le_sub_left hmore _) o.payload.intent.limitPrice.pos.le
    _ < 10 ^ 20 := hbound
    _ < 10 ^ precision / 10 ^ (18 + 18 + 18) := by norm_num [precision]

/-- **Three relative errors** in a row: of a number, of a multiple of it, and of
a multiple of that. -/
theorem abs_sub_le_of_relative {t q φ d y z ε : ℚ} (ht : 0 ≤ t) (hq : 0 ≤ q) (hφ : 0 ≤ φ)
    (hε : 0 ≤ ε) (hsmall : ε ≤ 1 / 10) (hd : t * (1 - ε) ≤ d ∧ d ≤ t * (1 + ε))
    (hy : q * d * (1 - ε) ≤ y ∧ y ≤ q * d * (1 + ε))
    (hz : y * φ * (1 - ε) ≤ z ∧ z ≤ y * φ * (1 + ε)) : |z - q * t * φ| ≤ q * t * φ * (4 * ε) := by
  have hless : 0 ≤ 1 - ε := by linarith
  have hmore : 0 ≤ 1 + ε := by linarith
  have hx : 0 ≤ q * t * φ := mul_nonneg (mul_nonneg hq ht) hφ
  have hlow : q * t * φ * (1 - 4 * ε) ≤ z := by
    calc q * t * φ * (1 - 4 * ε) ≤ q * t * φ * ((1 - ε) * (1 - ε) * (1 - ε)) := by
          refine mul_le_mul_of_nonneg_left ?_ hx
          nlinarith [mul_nonneg hε hε, mul_nonneg (mul_nonneg hε hε) (sub_nonneg.mpr hsmall)]
      _ = q * (t * (1 - ε)) * (1 - ε) * φ * (1 - ε) := by ring
      _ ≤ q * d * (1 - ε) * φ * (1 - ε) := by gcongr; exact hd.1
      _ ≤ y * φ * (1 - ε) := by gcongr; exact hy.1
      _ ≤ z := hz.1
  have hhigh : z ≤ q * t * φ * (1 + 4 * ε) := by
    calc z ≤ y * φ * (1 + ε) := hz.2
      _ ≤ q * d * (1 + ε) * φ * (1 + ε) := by gcongr; exact hy.2
      _ ≤ q * (t * (1 + ε)) * (1 + ε) * φ * (1 + ε) := by gcongr; exact hd.2
      _ = q * t * φ * ((1 + ε) * (1 + ε) * (1 + ε)) := by ring
      _ ≤ q * t * φ * (1 + 4 * ε) := by
          refine mul_le_mul_of_nonneg_left ?_ hx
          nlinarith [mul_nonneg hε (sub_nonneg.mpr hsmall),
            mul_nonneg (mul_nonneg hε hε) (sub_nonneg.mpr hsmall)]
  rw [abs_le]
  constructor <;> linarith

/-- Three roundings to eighty digits keep what remains of a sale within a unit
of the thirty-sixth decimal. -/
theorem Order.abs_fractionOwed_sub_lt (hv : o.Valid) (hpos : 0 ≤ filled)
    (hle : filled ≤ o.quantity) :
    |o.fractionOwed filled
      - (o.quantity - filled) * o.payload.fees.factor o.payload.instrument.baseAsset|
      < 1 / 10 ^ 36 := by
  obtain ⟨hquantity, -, -, -, hq, -, -⟩ := hv
  have hφ₀ := FeeSchedule.factor_nonneg o.payload.fees o.payload.instrument.baseAsset
  have hφ₁ := FeeSchedule.factor_le o.payload.fees o.payload.instrument.baseAsset
  have hrest₀ : 0 ≤ o.quantity - filled := sub_nonneg.mpr hle
  have hrest₁ : o.quantity - filled ≤ 10 ^ 20 :=
    (sub_le_self _ hpos).trans ((le_abs_self _).trans hquantity.2.le)
  have hd₀ : 0 ≤ ctxDiv (o.quantity - filled) o.quantity :=
    roundSig_nonneg _ (div_nonneg hrest₀ hq.le)
  have hy₀ := ctxMul_nonneg hq.le hd₀
  have hcancel : o.quantity * ((o.quantity - filled) / o.quantity) = o.quantity - filled :=
    mul_div_cancel₀ _ hq.ne'
  have hclose := abs_sub_le_of_relative (div_nonneg hrest₀ hq.le) hq.le hφ₀
    (by norm_num [precision] : (0 : ℚ) ≤ (10 : ℚ) ^ (1 - (precision : ℤ)) / 2)
    (by norm_num [precision])
    (roundSig_between precision (div_nonneg hrest₀ hq.le))
    (roundSig_between precision (mul_nonneg hq.le hd₀))
    (roundSig_between precision (mul_nonneg hy₀ hφ₀))
  rw [hcancel] at hclose
  refine hclose.trans_lt ?_
  calc (o.quantity - filled) * o.payload.fees.factor o.payload.instrument.baseAsset
        * (4 * ((10 : ℚ) ^ (1 - (precision : ℤ)) / 2))
      ≤ 10 ^ 20 * (2 * 10 ^ 20) * (4 * ((10 : ℚ) ^ (1 - (precision : ℤ)) / 2)) := by
        refine mul_le_mul_of_nonneg_right ?_ (by norm_num [precision])
        exact mul_le_mul hrest₁ hφ₁ hφ₀ (by norm_num)
    _ < 1 / 10 ^ 36 := by norm_num [precision]

/-- **The inventory that a sale reserves is exact** just when the fraction that
remains does not come out above what remains. -/
theorem Order.remainingBase_eq_iff (hv : o.Valid) (hopen : o.status.terminal = false)
    (hgrid : OnGrid 18 filled) (hpos : 0 ≤ filled) (hle : filled ≤ o.quantity) :
    remainingBase o filled = o.owedBase filled ↔ o.FractionFits filled := by
  unfold remainingBase Order.owedBase Order.FractionFits
  by_cases hside : o.side = .sell
  · rw [if_pos ⟨hopen, hside⟩, if_pos hside]
    have hgross : OnGrid 36 ((o.quantity - filled)
        * o.payload.fees.factor o.payload.instrument.baseAsset) :=
      (hv.1.1.sub hgrid).mul (FeeSchedule.onGrid_factor _ _)
    refine (ceilTo_eq_iff_of_close (by norm_num) hgross (o.abs_fractionOwed_sub_lt hv hpos hle)).trans ?_
    exact ⟨fun h _ => h, fun h => h hside⟩
  · rw [if_neg (fun h => hside h.2), if_neg hside]
    exact iff_of_true rfl (fun h => absurd h hside)

/-! ## The account after the fill -/

/-- A wallet shows a debt just when an asset is in debt: an asset without
entries is at zero. -/
theorem anyValue_neg_iff (id : String) :
    (db.wallet id).anyValue (· < 0) ↔ ∃ asset, db.balance id asset < 0 := by
  constructor
  · rintro ⟨asset, _, hneg⟩
    exact ⟨asset, hneg⟩
  · rintro ⟨asset, hneg⟩
    refine ⟨asset, ?_, hneg⟩
    show asset ∈ ((db.walletEntries id).map (·.asset)).eraseDups
    rw [List.mem_eraseDups]
    by_contra hnone
    have hnil : (db.walletEntries id).filter (fun e => e.asset = asset) = [] := by
      refine List.filter_eq_nil_iff.mpr (fun e he hasset => hnone ?_)
      exact List.mem_map.mpr ⟨e, he, of_decide_eq_true hasset⟩
    unfold DB.balance at hneg
    rw [hnil] at hneg
    exact absurd hneg (lt_irrefl 0)

instance (db : DB) (a : Account) (o : Order) : Decidable (db.Covered a o) :=
  decidable_of_iff (¬ (db.wallet a.accountId).anyValue (· < 0)
      ∧ a.reservedQuote ≤ db.balance a.accountId o.payload.instrument.quoteAsset
      ∧ baseReserved db a.accountId o.payload.instrument.baseAsset
        ≤ db.balance a.accountId o.payload.instrument.baseAsset) (by
    rw [anyValue_neg_iff]
    push Not
    exact ⟨fun h => ⟨h.1, h.2.1, h.2.2⟩, fun h => ⟨h.nonneg, h.quote, h.base⟩⟩)

instance (db' : DB) (a : Account) (o : Order) : Decidable (db'.Filled a o) :=
  decidable_of_iff (∃ a' ∈ db'.accounts.find? a.accountId, ∃ o' ∈ db'.orders.find? o.intentId,
      a'.mode = a.mode ∧ db'.Covered a' o
      ∧ o'.reservedQuote = o'.owedQuote o'.filledQuantity
      ∧ o'.reservedBase = o'.owedBase o'.filledQuantity) (by
    constructor
    · rintro ⟨a', ha, o', ho, h⟩
      exact ⟨a', o', ha, ho, h⟩
    · rintro ⟨a', o', ha, ho, h⟩
      exact ⟨a', ha, o', ho, h⟩)

/-- The inventory reserved by the orders of an account, after one of them
changed. -/
theorem sumOf_reservedBase_replace (o' : Order) (ho : db.orders.find? o.intentId = some o)
    (hfrozen : o'.frozen = o.frozen) :
    (db.orders.replace o').sumOf (fun p => p.accountId = o.accountId
        ∧ p.payload.instrument.baseAsset = o.payload.instrument.baseAsset) (·.reservedBase)
      = baseReserved db o.accountId o.payload.instrument.baseAsset
        + (o'.reservedBase - o.reservedBase) := by
  have hid : o'.intentId = o.intentId := Order.intentId_of_frozen hfrozen
  have haid : o'.accountId = o.accountId := (congrArg Order.accountId hfrozen :)
  have hpayload : o'.payload = o.payload := (congrArg Order.payload hfrozen :)
  unfold baseReserved
  rw [sumOf_replace (hid.symm ▸ ho), haid, hpayload, if_pos ⟨rfl, rfl⟩, if_pos ⟨rfl, rfl⟩]
  ring

/-- The entries of a fill take its cost from the wallet. -/
theorem walletTotal_eq_neg_fillCost (env : Env) (time : ℕ) (hcheck : checkFill f = .ok ())
    (hassets : f.baseAsset = o.payload.instrument.baseAsset
      ∧ f.quoteAsset = o.payload.instrument.quoteAsset) (asset : String) :
    walletTotal (fillEntries o.side f) asset = -fillCost o f asset := by
  rw [walletTotal_fillEntries env time hcheck hassets]
  unfold Fill.delta Fill.gross fillCost fillRow ceil
  cases o.side <;> dsimp only <;> split_ifs <;> ring

theorem fillCost_eq_zero {asset : String} (hbase : o.payload.instrument.baseAsset ≠ asset)
    (hquote : o.payload.instrument.quoteAsset ≠ asset) (hfee : f.feeAsset ≠ asset) :
    fillCost o f asset = 0 := by
  unfold fillCost
  rw [if_neg hbase, if_neg hquote, if_neg hfee]
  norm_num

variable {fees}

/-- What is verified of a fee schedule: it is charged in one of the assets,
and takes less than the whole. -/
theorem verify_fees {intent : OrderIntent} {instrument : InstrumentSpec}
    {deployment : DeploymentManifest} {market : ExecutableMarketSnapshot} {now : ℕ} {u : Unit}
    (h : verify env intent instrument fees deployment market now = .ok u) :
    (fees.feeAsset = instrument.baseAsset ∨ fees.feeAsset = instrument.quoteAsset)
      ∧ max fees.makerRate.val fees.takerRate.val < 1 := by
  unfold verify at h
  simp only [raiseIf_bind_eq_ok] at h
  obtain ⟨_, _, _, _, _, _, _, _, _, _, _, _, _, hasset, hrate, _⟩ := h
  exact ⟨by tauto, not_le.mp hrate⟩

/-- An order was verified to pay its fee in one of its assets. -/
theorem Order.Admitted.feeAsset (h : o.Admitted env) :
    o.payload.fees.feeAsset = o.payload.instrument.baseAsset
      ∨ o.payload.fees.feeAsset = o.payload.instrument.quoteAsset := by
  obtain ⟨c, now, hfrozen, hverify⟩ := h
  have hpayload : o.payload = c.envelope := (congrArg Order.payload hfrozen :)
  rw [hpayload]
  exact (verify_fees hverify).1

/-- The fee that the code allows is the one at the scheduled rate, rounded
up. -/
theorem scheduledFee_eq (hquantity : Fits f.quantity)
    (hgross : Fits (fillGross o.side f.quantity f.price)) :
    scheduledFee o f = ceil (o.feeAt f) := by
  unfold scheduledFee Order.feeAt
  rw [hgross.ctxMul_eq (FeeSchedule.fits_rate _), hquantity.ctxMul_eq (FeeSchedule.fits_rate _)]

/-- **A fill within its terms breaches just what it uncovers.** -/
theorem Compliant.not_fillBreach_iff (h : Compliant o f) (hcheck : checkFill f = .ok ())
    (hassets : f.baseAsset = o.payload.instrument.baseAsset
      ∧ f.quoteAsset = o.payload.instrument.quoteAsset)
    (hgross : checkAmount (fillGross o.side f.quantity f.price) true = .ok ())
    (haid : a.accountId = o.accountId) :
    ¬ fillBreach db o f a.reservedQuote ↔ db.Covered a o := by
  obtain ⟨⟨_, hquantity⟩, _⟩ := checkFill_eq_ok hcheck
  have hfee := scheduledFee_eq (o := o) hquantity (checkAmount_eq_ok hgross).2.2
  unfold fillBreach
  rw [anyValue_neg_iff, hassets.1, hassets.2, hfee, ← haid]
  push Not
  constructor
  · rintro ⟨hnonneg, hquote, hbase, -⟩
    exact ⟨hnonneg, hquote, hbase⟩
  · intro hcovered
    exact ⟨hcovered.nonneg, hcovered.quote, hcovered.base, h.feeAsset, h.fee, h.price⟩

theorem balance_filled (ks : List EventType) (hcheck : checkFill f = .ok ())
    (hassets : f.baseAsset = o.payload.instrument.baseAsset
      ∧ f.quoteAsset = o.payload.instrument.quoteAsset) (asset : String) :
    (db.filled env a o f ks time).balance o.accountId asset
      = db.balance o.accountId asset - fillCost o f asset := by
  show (DB.journaled env _ o.accountId .trade _ (fillEntries o.side f) time).balance o.accountId asset
    = _
  rw [balance_journaled, if_pos rfl, walletTotal_eq_neg_fillCost env time hcheck hassets,
    ← sub_eq_add_neg]
  rfl

theorem baseReserved_filled (located : Located db a o) (ks : List EventType) :
    baseReserved (db.filled env a o f ks time) o.accountId o.payload.instrument.baseAsset
      = baseReserved db o.accountId o.payload.instrument.baseAsset
        + (remainingBase o (o.filledQuantity + f.quantity) - o.reservedBase) :=
  sumOf_reservedBase_replace (o.filling f time) located.order rfl

/-- An order reserves no more of the inventory than its account. -/
theorem DB.Balanced.reservedBase_le (hb : db.Balanced) (located : Located db a o) :
    o.reservedBase ≤ baseReserved db o.accountId o.payload.instrument.baseAsset := by
  refine le_sumOf (fun p hp _ => ?_) (mem_of_find? located.order) ⟨rfl, rfl⟩
  obtain ⟨⟨_, _, _, _, hpos, _, hle⟩, _, hbase⟩ := hb.order p hp
  rw [hbase]
  exact remainingBase_nonneg hpos hle

/-- **The account is covered after a fill** when what the fill takes, and what
is then reserved, fit into what was there: the rest of the wallet is not
touched. -/
theorem covered_filled_iff (hb : db.Balanced) (located : Located db a o) (hcovered : db.Covered a o)
    (hcompliant : Compliant o f) (hadmitted : o.Admitted env)
    (happlicable : Applicable env db tenant intentId f a o)
    (hpost : Postable env db a o f time) (ks : List EventType) (mode : RiskMode) :
    (db.filled env a o f ks time).Covered { a.filling o f with mode := mode } o
      ↔ fillCost o f o.payload.instrument.quoteAsset
          + remainingQuote o (o.filledQuantity + f.quantity) - o.reservedQuote
        ≤ db.balance a.accountId o.payload.instrument.quoteAsset - a.reservedQuote
        ∧ fillCost o f o.payload.instrument.baseAsset
          + remainingBase o (o.filledQuantity + f.quantity) - o.reservedBase
        ≤ db.balance a.accountId o.payload.instrument.baseAsset
          - baseReserved db a.accountId o.payload.instrument.baseAsset := by
  have hbalance : ∀ asset, (db.filled env a o f ks time).balance a.accountId asset
      = db.balance a.accountId asset - fillCost o f asset := by
    rw [located.accountId]
    exact balance_filled ks happlicable.check happlicable.assets
  have hbase : baseReserved (db.filled env a o f ks time) a.accountId o.payload.instrument.baseAsset
      = baseReserved db a.accountId o.payload.instrument.baseAsset
        + (remainingBase o (o.filledQuantity + f.quantity) - o.reservedBase) := by
    rw [located.accountId]
    exact baseReserved_filled located ks
  have hquote : (a.filling o f).reservedQuote
      = a.reservedQuote - o.reservedQuote + remainingQuote o (o.filledQuantity + f.quantity) := rfl
  constructor
  · intro h
    have hq : (a.filling o f).reservedQuote
        ≤ (db.filled env a o f ks time).balance a.accountId o.payload.instrument.quoteAsset := h.quote
    have hs : baseReserved (db.filled env a o f ks time) a.accountId o.payload.instrument.baseAsset
        ≤ (db.filled env a o f ks time).balance a.accountId o.payload.instrument.baseAsset := h.base
    rw [hbalance, hquote] at hq
    rw [hbalance, hbase] at hs
    constructor <;> linarith
  · rintro ⟨hq, hs⟩
    have hqpos : 0 ≤ (a.filling o f).reservedQuote := hpost.account.2.2.2.2
    have hspos : 0 ≤ baseReserved db a.accountId o.payload.instrument.baseAsset
        + (remainingBase o (o.filledQuantity + f.quantity) - o.reservedBase) := by
      have hpart := hb.reservedBase_le located
      have hrest := remainingBase_nonneg (hb.order o (mem_of_find? located.order)).1.2.2.2.2.1
        hpost.bound
      rw [located.accountId]
      linarith
    rw [hquote] at hqpos
    refine ⟨fun asset => ?_, ?_, ?_⟩
    · show 0 ≤ (db.filled env a o f ks time).balance a.accountId asset
      rw [hbalance]
      by_cases hasset : o.payload.instrument.quoteAsset = asset
      · subst hasset
        linarith
      by_cases hasset' : o.payload.instrument.baseAsset = asset
      · subst hasset'
        linarith
      -- the fee is in one of the assets of the order
      have hfee : f.feeAsset ≠ asset := by
        rw [hcompliant.feeAsset]
        rcases hadmitted.feeAsset with he | he <;> rw [he] <;> assumption
      rw [fillCost_eq_zero hasset' hasset hfee, sub_zero]
      exact hcovered.nonneg asset
    · show (a.filling o f).reservedQuote ≤ (db.filled env a o f ks time).balance a.accountId _
      rw [hbalance, hquote]
      linarith
    · show baseReserved (db.filled env a o f ks time) a.accountId _
        ≤ (db.filled env a o f ks time).balance a.accountId _
      rw [hbalance, hbase]
      linarith

/-- A fill that leaves the account covered leaves its mode. -/
theorem fillMode_of_covered (located : Located db a o) (hcompliant : Compliant o f)
    (happlicable : Applicable env db tenant intentId f a o) {ks : List EventType} {mode : RiskMode}
    (h : (db.filled env a o f ks time).Covered { a.filling o f with mode := mode } o) :
    fillMode env db a o f time = a.mode := by
  have haid : (a.filling o f).accountId = o.accountId := located.accountId
  refine if_neg (not_or.mpr ⟨?_, ?_⟩)
  · exact (hcompliant.not_fillBreach_iff happlicable.check happlicable.assets happlicable.gross
      haid).mpr ⟨h.nonneg, h.quote, h.base⟩
  · rw [hcompliant.settlement]
    exact Bool.false_ne_true

/-- **What a fill leaves is as it should be** when the roundings fit. -/
theorem filled_iff_of_new (hb : db.Balanced) (located : Located db a o) (hcovered : db.Covered a o)
    (hopen : o.status.terminal = false) (hcompliant : Compliant o f) (hadmitted : o.Admitted env)
    (happlicable : Applicable env db tenant intentId f a o) (hpost : Postable env db a o f time)
    (hnew : ¬ db.Known o f) (ks : List EventType) :
    (db.filled env a o f ks time).Filled a o ↔ Fitting db a o f := by
  have hv : o.Valid := (hb.order o (mem_of_find? located.order)).1
  have hr : o.Reserved := (hb.order o (mem_of_find? located.order)).2
  have hqty := (checkFill_eq_ok happlicable.check).1
  have hgrid : SigDigits.OnGrid 18 (o.filledQuantity + f.quantity) := hv.2.1.1.add hqty.2.1
  have hmore : o.filledQuantity ≤ o.filledQuantity + f.quantity := le_add_of_nonneg_right hqty.1.le
  have hpos : 0 ≤ o.filledQuantity + f.quantity := hv.2.2.2.2.2.1.trans hmore
  have hquote := o.remainingQuote_eq hv hr hopen hgrid hmore hpost.bound
  have hbase := o.remainingBase_eq_iff hv hopen hgrid hpos hpost.bound
  have hby : db.filledBy o f = o.filledQuantity + f.quantity := if_neg hnew
  have haccount : (db.filled env a o f ks time).accounts.find? a.accountId
      = some { a.filling o f with mode := fillMode env db a o f time } :=
    moved_account (located.posted f time) rfl
  have horder : (db.filled env a o f ks time).orders.find? o.intentId = some (o.filling f time) :=
    moved_order (located.posted f time) rfl
  have hiff := covered_filled_iff hb located hcovered hcompliant hadmitted happlicable hpost ks
    (fillMode env db a o f time)
  constructor
  · rintro ⟨a', o', ha', ho', -, hcover, -, hexact⟩
    cases haccount.symm.trans ha'
    cases horder.symm.trans ho'
    have hfraction : o.FractionFits (o.filledQuantity + f.quantity) := hbase.mp hexact
    obtain ⟨hq, hs⟩ := hiff.mp hcover
    rw [hquote] at hq
    rw [hbase.mpr hfraction] at hs
    exact ⟨hby.symm ▸ hfraction, fun _ => hq, fun _ => hs⟩
  · intro hfits
    have hexact := hbase.mpr (hby ▸ hfits.fraction)
    have hcover := hiff.mpr ⟨hquote.symm ▸ hfits.quote hnew, hexact.symm ▸ hfits.base hnew⟩
    refine ⟨_, _, haccount, horder, ?_, hcover, hquote, hexact⟩
    exact fillMode_of_covered located hcompliant happlicable hcover

/-- A report of a known trade moves the settlement only, and its order is as it
should be when it was. -/
theorem filled_iff_of_known (hb : db.Balanced) (located : Located db a o) (hcovered : db.Covered a o)
    (hopen : o.status.terminal = false) (hcompliant : Compliant o f) (hknown : db.Known o f)
    (status : SettlementStatus) (es : List Event) :
    (db.moved (a.settled status f.settlementStatus) { o with settlementStatus := status } es).Filled
      a o ↔ Fitting db a o f := by
  have hv : o.Valid := (hb.order o (mem_of_find? located.order)).1
  have hr : o.Reserved := (hb.order o (mem_of_find? located.order)).2
  have hquote := o.remainingQuote_eq hv hr hopen hv.2.1.1 le_rfl hv.2.2.2.2.2.2
  have hbase := o.remainingBase_eq_iff hv hopen hv.2.1.1 hv.2.2.2.2.2.1 hv.2.2.2.2.2.2
  have hby : db.filledBy o f = o.filledQuantity := if_pos hknown
  have haccount : (db.moved (a.settled status f.settlementStatus)
      { o with settlementStatus := status } es).accounts.find? a.accountId
      = some (a.settled status f.settlementStatus) := moved_account located rfl
  have horder : (db.moved (a.settled status f.settlementStatus)
      { o with settlementStatus := status } es).orders.find? o.intentId
      = some { o with settlementStatus := status } := moved_order located rfl
  constructor
  · rintro ⟨a', o', ha', ho', -, -, -, hexact⟩
    cases horder.symm.trans ho'
    refine ⟨hby.symm ▸ hbase.mp (hr.2.symm.trans hexact), ?_, ?_⟩ <;>
      exact fun hnew => absurd hknown hnew
  · intro hfits
    refine ⟨_, _, haccount, horder, if_neg ?_, ⟨hcovered.nonneg, hcovered.quote, ?_⟩,
      hr.1.trans hquote, hr.2.trans (hbase.mpr (hby ▸ hfits.fraction))⟩
    · rw [hcompliant.settlement]
      exact fun h => Bool.false_ne_true h.2
    · show baseReserved (db.moved _ _ es) a.accountId _ ≤ db.balance a.accountId _
      have hsame : baseReserved (db.moved (a.settled status f.settlementStatus)
            { o with settlementStatus := status } es) o.accountId o.payload.instrument.baseAsset
          = baseReserved db o.accountId o.payload.instrument.baseAsset
            + (o.reservedBase - o.reservedBase) :=
        sumOf_reservedBase_replace { o with settlementStatus := status } located.order rfl
      rw [located.accountId, hsame, sub_self, add_zero, ← located.accountId]
      exact hcovered.base

/-! ## A sale that pays its fee in cash -/

namespace System

/-- **What a fill within its terms leaves.** After every run, such a fill of an
open order of a covered account leaves the mode of the account, leaves it
covered and leaves the order with what it owes, exactly when the roundings
fit. -/
theorem compliant_fill (env : Env) (ls : List Label) {tenant intentId : String} {f : FillReport}
    {time : ℕ} {fill : Fill} {db' : DB} {a : Account} {o : Order}
    (happly : applyFill env tenant intentId f time (after env ls).db = .ok (fill, db'))
    (ho : (after env ls).db.orders.find? intentId = some o)
    (ha : (after env ls).db.accounts.find? o.accountId = some a)
    (hcovered : (after env ls).db.Covered a o) (hopen : o.status.terminal = false)
    (hcompliant : Compliant o f) : db'.Filled a o ↔ Fitting (after env ls).db a o f := by
  have hb := balanced_after env ls
  obtain ⟨b, p, happlicable, hcase⟩ := applyFill_eq_ok.mp happly
  obtain ⟨located, hid, htenant⟩ := Located.of_read happlicable.order happlicable.account
  obtain rfl : p = o := Option.some.inj ((hid ▸ located.order).symm.trans ho)
  obtain rfl : b = a := Option.some.inj ((located.accountId ▸ located.account).symm.trans ha)
  rcases hcase with ⟨g, hg, _, hr⟩ | ⟨hnew, hpost⟩
  · cases hr
    rw [← htenant, settlement_self_eq located]
    have hknown : (after env ls).db.Known p f := by
      unfold DB.Known
      rw [hg]
      exact Option.some_ne_none _
    exact filled_iff_of_known hb located hcovered hopen hcompliant hknown _ _
  · rw [← htenant] at hpost
    obtain ⟨hpostable, hr⟩ := (postFill_eq_ok located).mp hpost
    cases hr
    exact filled_iff_of_new hb located hcovered hopen hcompliant
      (admitted_after env ls p (mem_of_find? located.order)) happlicable hpostable
      (not_not.mpr hnew) _

/-- An order to buy seven coins at ten. -/
def buyingAll : List Label :=
  Sample.opening 0 ++ Sample.reserving (Sample.intent "entry" "paper" .buy Sample.seven Sample.ten)
      (Sample.deployment "paper" .paper Sample.capital) 5
    ++ Sample.submitted "entry" 6

/-- All that was bought is offered for sale. -/
def sellingAll : List Label :=
  buyingAll ++ Sample.filling "entry" (Sample.fill "t1" 7 10 (7 / 100) .notRequired) 7
    ++ Sample.reserving (Sample.intent "exit" "paper" .sell Sample.seven Sample.ten)
      (Sample.deployment "paper" .paper Sample.capital) 8
    ++ Sample.submitted "exit" 9

theorem compliant_fill_buyingAll : ∃ r ∈ (applyFill Sample.digests "tenant" "entry"
      (Sample.fill "t1" 3 10 (3 / 100) .notRequired) 7 (after Sample.digests buyingAll).db).toOption,
    ∃ o ∈ (after Sample.digests buyingAll).db.orders.find? "entry",
      ∃ a ∈ (after Sample.digests buyingAll).db.accounts.find? o.accountId, r.2.Filled a o := by
  obtain ⟨r, hr, o, ho, a, ha, hcovered, hopen, hcompliant, hfits⟩ :
      ∃ r ∈ (applyFill Sample.digests "tenant" "entry"
          (Sample.fill "t1" 3 10 (3 / 100) .notRequired) 7
          (after Sample.digests buyingAll).db).toOption,
        ∃ o ∈ (after Sample.digests buyingAll).db.orders.find? "entry",
          ∃ a ∈ (after Sample.digests buyingAll).db.accounts.find? o.accountId,
            (after Sample.digests buyingAll).db.Covered a o ∧ o.status.terminal = false
            ∧ Compliant o (Sample.fill "t1" 3 10 (3 / 100) .notRequired)
            ∧ Fitting (after Sample.digests buyingAll).db a o
              (Sample.fill "t1" 3 10 (3 / 100) .notRequired) := by
    decide +kernel
  have happly := toOption_eq_some.mp hr
  exact ⟨r, hr, o, ho, a, ha,
    (compliant_fill Sample.digests buyingAll happly ho ha hcovered hopen hcompliant).mpr hfits⟩

/-- **A partial fill of the sale halts the account**, which was active and
covered: seven coins, of which six and a tenth are sold, leave
`0.900000000000000001` reserved and `0.9` in the wallet. -/
theorem sale_halted : ∃ r ∈ (applyFill Sample.digests "tenant" "exit"
      (Sample.fill "t2" (61 / 10) 10 (61 / 1000) .notRequired) 10
      (after Sample.digests sellingAll).db).toOption,
    ∃ o ∈ (after Sample.digests sellingAll).db.orders.find? "exit",
      ∃ a ∈ (after Sample.digests sellingAll).db.accounts.find? o.accountId,
        a.mode = .active ∧ (after Sample.digests sellingAll).db.Covered a o
        ∧ o.status.terminal = false
        ∧ Compliant o (Sample.fill "t2" (61 / 10) 10 (61 / 1000) .notRequired)
        ∧ ¬ r.2.Filled a o
        ∧ (r.2.accounts.find? a.accountId).map Account.mode = some .halted
        ∧ (r.2.orders.find? "exit").map Order.reservedBase = some (9 / 10 + 1 / 10 ^ 18)
        ∧ r.2.balance a.accountId "BTC" = 9 / 10 := by
  decide +kernel

end System

end Qt
