import QuantTrading.Accounting
import QuantTrading.Lib.SigDigits

/-!
# Bar fills

`BarFillModel` of `btc_backtest.engine.fills`: at what price an order is filled in a bar, if it is.

What is said of prices is said once for both sides: `NoBetter side x y` is that `y` is no better than
`x` to the one who buys or sells. Prices are computed in a context of 28 digits, so that a price of
more digits is filled at its rounding: what holds of the prices of a bar and an order holds of them
in the context, and of themselves when they have no more digits.
-/

namespace Qt.Backtest

open Except SigDigits Option

/-! ## Sides -/

namespace OrderSide

/-- What is paid or received at `y` is no better than at `x`. -/
def NoBetter : OrderSide → ℚ → ℚ → Prop
  | buy, x, y => x ≤ y
  | sell, x, y => y ≤ x

instance (side : OrderSide) (x y : ℚ) : Decidable (side.NoBetter x y) := by
  cases side <;> unfold NoBetter <;> infer_instance

def better : OrderSide → ℚ → ℚ → ℚ
  | buy, x, y => min x y
  | sell, x, y => max x y

/-- The worse of two prices. -/
def worse : OrderSide → ℚ → ℚ → ℚ
  | buy, x, y => max x y
  | sell, x, y => min x y

variable {side : OrderSide} {x y z : ℚ}

theorem NoBetter.refl (side : OrderSide) (x : ℚ) : side.NoBetter x x := by
  cases side <;> exact le_rfl

theorem NoBetter.trans (h : side.NoBetter x y) (h' : side.NoBetter y z) : side.NoBetter x z := by
  cases side with
  | buy => exact le_trans h h'
  | sell => exact le_trans h' h

variable (side)

theorem noBetter_better_left (x y : ℚ) : side.NoBetter (side.better x y) x := by
  cases side with
  | buy => exact min_le_left x y
  | sell => exact le_max_left x y

theorem noBetter_better_right (x y : ℚ) : side.NoBetter (side.better x y) y := by
  cases side with
  | buy => exact min_le_right x y
  | sell => exact le_max_right x y

variable {side}

theorem NoBetter.better (hx : side.NoBetter z x) (hy : side.NoBetter z y) :
    side.NoBetter z (side.better x y) := by
  cases side with
  | buy => exact le_min hx hy
  | sell => exact max_le hx hy

variable (side)

theorem noBetter_worse_left (x y : ℚ) : side.NoBetter x (side.worse x y) := by
  cases side with
  | buy => exact le_max_left x y
  | sell => exact min_le_left x y

theorem noBetter_worse_right (x y : ℚ) : side.NoBetter y (side.worse x y) := by
  cases side with
  | buy => exact le_max_right x y
  | sell => exact min_le_right x y

theorem better_eq (x y : ℚ) : side.better x y = x ∨ side.better x y = y := by
  cases side with
  | buy => exact min_choice x y
  | sell => exact max_choice x y

end OrderSide

namespace Fills

/-! ## Bars -/

/-- What is raised: `DataValidationError`, `ExecutionError`, `ValueError`, or what a model raises. -/
inductive FillError
  | dataValidation (message : String)
  | execution (message : String)
  | valueError (message : String)
  | validation (message : String)
deriving DecidableEq, Repr

/-- A value of a bar, as `Decimal(str(…))` takes it. -/
inductive Cell
  | number (x : ℚ)
  | notFinite
  | notNumeric

def decimalCell (value : Cell) (field : String) : Except FillError ℚ :=
  match value with
  | .number x => .ok x
  | .notFinite => .error (.dataValidation ("bar " ++ field ++ " must be finite"))
  | .notNumeric => .error (.dataValidation ("bar " ++ field ++ " must be numeric"))

/-- A bar that was validated. -/
@[ext]
structure ValidBar where
  openPrice : ℚ
  high : ℚ
  low : ℚ
  close : ℚ
  volume : ℚ
  pos : 0 < openPrice ∧ 0 < high ∧ 0 < low ∧ 0 < close
  volume_nonneg : 0 ≤ volume
  le_high : max openPrice close ≤ high
  low_le : low ≤ min openPrice close

instance : DecidableEq ValidBar := fun _ _ => decidable_of_iff' _ ValidBar.ext_iff

/-- The fields that a bar has to have. -/
def requiredFields : List String := ["open", "high", "low", "close", "volume"]

/-- The value of a field that is there. -/
def cell (bar : List (String × Cell)) (field : String) : Except FillError ℚ :=
  decimalCell ((bar.lookup field).getD .notNumeric) field

def validatedBar (bar : List (String × Cell)) : Except FillError ValidBar := do
  let missing := requiredFields.filter fun f => (bar.lookup f).isNone
  raiseIf (missing ≠ [])
    (.dataValidation ("bar is missing required fields: " ++ ", ".intercalate missing))
  let openPrice ← cell bar "open"
  let high ← cell bar "high"
  let low ← cell bar "low"
  let close ← cell bar "close"
  let volume ← cell bar "volume"
  if hpos : 0 < openPrice ∧ 0 < high ∧ 0 < low ∧ 0 < close then
    if hvolume : 0 ≤ volume then
      if hhigh : max openPrice close ≤ high then
        if hlow : low ≤ min openPrice close then
          return { openPrice, high, low, close, volume, pos := hpos, volume_nonneg := hvolume
                   le_high := hhigh, low_le := hlow }
        else throw (.dataValidation "bar low is above open or close")
      else throw (.dataValidation "bar high is below open or close")
    else throw (.dataValidation "bar volume must be non-negative")
  else throw (.dataValidation "bar prices must be positive")

/-- The best price of a bar to the one who buys or sells. -/
def ValidBar.best (bar : ValidBar) : OrderSide → ℚ
  | .buy => bar.low
  | .sell => bar.high

theorem ValidBar.best_open (bar : ValidBar) (side : OrderSide) :
    side.NoBetter (bar.best side) bar.openPrice := by
  cases side with
  | buy => exact bar.low_le.trans (min_le_left _ _)
  | sell => exact (le_max_left _ _).trans bar.le_high

/-! ## Orders -/

inductive OrderType | market | limit | stop | stopLimit
deriving DecidableEq, Repr

inductive OrderStatus | open | partiallyFilled | filled | cancelled | rejected
deriving DecidableEq, Repr

/-- `Order`, with what its validator asks. -/
structure Order (ω : Type) where
  id : ω
  createdAt : ℤ
  instrument : InstrumentKind
  side : OrderSide
  orderType : OrderType
  quantity : ℚ
  remainingQuantity : ℚ
  limitPrice : Option ℚ
  stopPrice : Option ℚ
  takeProfitPrice : Option ℚ
  status : OrderStatus
  expiresAt : Option ℤ
  quantity_pos : 0 < quantity
  remaining_mem : 0 ≤ remainingQuantity ∧ remainingQuantity ≤ quantity
  limit_pos : ∀ x ∈ limitPrice, 0 < x
  stop_pos : ∀ x ∈ stopPrice, 0 < x
  target_pos : ∀ x ∈ takeProfitPrice, 0 < x
  limit_isSome : orderType = .limit ∨ orderType = .stopLimit → limitPrice.isSome
  stop_isSome : orderType = .stop ∨ orderType = .stopLimit → stopPrice.isSome
  created_le : ∀ t ∈ expiresAt, createdAt ≤ t

structure FillPolicy where
  feeBps : ℚ
  slippageBps : ℚ
  fee_nonneg : 0 ≤ feeBps
  slippage_mem : 0 ≤ slippageBps ∧ slippageBps < 10000

/-! ## Prices -/

/-- A number in the context of 28 digits. -/
def ctx (x : ℚ) : ℚ := roundSig 28 x

section Prices

variable (p : FillPolicy) (side : OrderSide)

/-- What `_with_slippage` multiplies by. -/
def FillPolicy.multiplier : ℚ :=
  let rate := ctx (p.slippageBps / 10000)
  ctx (1 + match side with
    | .buy => rate
    | .sell => -rate)

def withSlippage (price : ℚ) (side : OrderSide) : ℚ := ctx (price * p.multiplier side)

def stopPrice (stop openPrice : ℚ) : ℚ :=
  withSlippage p (side.worse openPrice stop) side

def boundedLimitPrice (limit openPrice : ℚ) : ℚ :=
  side.better (withSlippage p (side.better openPrice limit) side) limit

/-- The bar comes to a price that the order waits for: below it to buy, above it to sell. -/
def reaches (bar : ValidBar) (limit : ℚ) : Prop :=
  side.NoBetter (bar.best side) limit
deriving Decidable

/-- The bar comes to a stop: above it to buy, below it to sell. -/
def touches (bar : ValidBar) (stop : ℚ) : Prop :=
  match side with
  | .buy => stop ≤ bar.high
  | .sell => bar.low ≤ stop

instance (side : OrderSide) (bar : ValidBar) (stop : ℚ) : Decidable (touches side bar stop) := by
  cases side <;> unfold touches <;> infer_instance

variable {ω : Type} (order : Order ω)

def limitFill (bar : ValidBar) : Except FillError (Option ℚ) :=
  match order.limitPrice with
  | none => .error (.execution "limit order is missing limit_price")
  | some limit =>
    if reaches order.side bar limit then
      .ok (some (boundedLimitPrice p order.side limit bar.openPrice))
    else .ok none

def stopFill (bar : ValidBar) : Except FillError (Option ℚ) :=
  match order.stopPrice with
  | none => .error (.execution "stop order is missing stop_price")
  | some stop =>
    if touches order.side bar stop then .ok (some (stopPrice p order.side stop bar.openPrice))
    else .ok none

def stopLimitFill (bar : ValidBar) : Except FillError (Option ℚ) :=
  match order.stopPrice, order.limitPrice with
  | some stop, some limit =>
    if touches order.side bar stop ∧ reaches order.side bar limit then
      .ok (some (boundedLimitPrice p order.side limit limit))
    else .ok none
  | _, _ => .error (.execution "stop-limit order requires stop_price and limit_price")

end Prices

/-! ## Fills -/

section Evaluate

variable {ω ι : Type} (fillId : ω → ℤ → String → ι) (p : FillPolicy) (order : Order ω)

def eligible (timestamp : DateTime) : Except FillError Bool := do
  raiseIf (timestamp.aware = false) (.valueError "fill timestamp must be timezone-aware")
  raiseIf (timestamp.instant < order.createdAt) (.execution "order cannot fill before creation")
  return ¬ (∃ t ∈ order.expiresAt, t ≤ timestamp.instant) ∧
    (order.status = .open ∨ order.status = .partiallyFilled)

/-- **`_fill`**, with what `Fill` asks. -/
def fillAt (timestamp : DateTime) (quantity price : ℚ) (reason : String) :
    Except FillError (Fill ω ι) :=
  let fee := ctx (ctx (ctx (price * quantity) * p.feeBps) / 10000)
  if h : 0 < quantity ∧ 0 < price ∧ 0 ≤ fee ∧ order.createdAt ≤ timestamp.instant then
    .ok
      { id := fillId order.id timestamp.instant reason, orderId := order.id
        orderCreatedAt := order.createdAt, timestamp := timestamp.instant
        instrument := order.instrument, side := order.side, quantity, price, fee, reason
        quantity_pos := h.1, price_pos := h.2.1, fee_nonneg := h.2.2.1, created_le := h.2.2.2 }
  else .error (.validation "fill")

/-- The price of an order in a bar, if it is filled there. -/
def price (bar : ValidBar) : Except FillError (Option ℚ) :=
  match order.orderType with
  | .market => .ok (some (withSlippage p bar.openPrice order.side))
  | .limit => limitFill p order bar
  | .stop => stopFill p order bar
  | .stopLimit => stopLimitFill p order bar

/-- The reason of a fill. -/
def OrderType.reason : OrderType → String
  | market => "market"
  | limit => "limit"
  | stop => "stop"
  | stopLimit => "stop_limit"

def evaluate (bar : List (String × Cell)) (timestamp : DateTime) :
    Except FillError (Option (Fill ω ι)) := do
  let values ← validatedBar bar
  let eligible ← eligible order timestamp
  if eligible = false ∨ order.remainingQuantity ≤ 0 then return none
  else match ← price p order values with
    | none => return none
    | some price =>
      some <$> fillAt fillId p order timestamp order.remainingQuantity price order.orderType.reason

def evaluateBracket (bar : List (String × Cell)) (timestamp : DateTime) :
    Except FillError (List (Fill ω ι)) := do
  let values ← validatedBar bar
  let eligible ← eligible order timestamp
  if eligible = false then return []
  else match order.stopPrice, order.takeProfitPrice with
    | some stop, some target =>
      if order.remainingQuantity ≤ 0 then return []
      else if touches order.side values stop then do
        let fill ← fillAt fillId p order timestamp order.remainingQuantity
          (stopPrice p order.side stop values.openPrice) "stop"
        return [fill]
      else if reaches order.side values target then do
        let fill ← fillAt fillId p order timestamp order.remainingQuantity
          (boundedLimitPrice p order.side target values.openPrice) "target"
        return [fill]
      else return []
    | _, _ =>
      throw (.execution "bracket evaluation requires stop_price and take_profit_price")

end Evaluate

/-! ## The context -/

variable {x : ℚ} {y : ℚ}

theorem ctx_mono (hx : 0 ≤ x) (h : x ≤ y) : ctx x ≤ ctx y :=
  roundSig_mono (by decide) hx h

theorem ctx_one : ctx 1 = 1 := by decide +kernel

theorem ctx_nonneg (h : 0 ≤ x) : 0 ≤ ctx x := roundSig_nonneg 28 h

theorem ctx_ctx (x : ℚ) : ctx (ctx x) = ctx x := roundSig_roundSig (by decide) x

theorem noBetter_ctx {side : OrderSide} (hx : 0 ≤ x) (hy : 0 ≤ y) (h : side.NoBetter x y) :
    side.NoBetter (ctx x) (ctx y) := by
  cases side with
  | buy => exact ctx_mono hx h
  | sell => exact ctx_mono hy h

section Prices

variable (p : FillPolicy) {side : OrderSide}

theorem rate_mem : 0 ≤ ctx (p.slippageBps / 10000) ∧ ctx (p.slippageBps / 10000) ≤ 1 := by
  have hnonneg : 0 ≤ p.slippageBps / 10000 := div_nonneg p.slippage_mem.1 (by norm_num)
  refine ⟨ctx_nonneg hnonneg, ?_⟩
  rw [← ctx_one]
  refine ctx_mono hnonneg ?_
  rw [div_le_one (by norm_num)]
  exact p.slippage_mem.2.le

/-- Slippage is no better, and keeps a price from being negative. -/
theorem multiplier_noBetter (side : OrderSide) :
    side.NoBetter 1 (p.multiplier side) ∧ 0 ≤ p.multiplier side := by
  obtain ⟨hnonneg, hle⟩ := rate_mem p
  cases side with
  | buy =>
    have hone : (1 : ℚ) ≤ p.multiplier .buy := by
      exact ctx_one.ge.trans (ctx_mono zero_le_one (by linarith))
    exact ⟨hone, zero_le_one.trans hone⟩
  | sell =>
    have hpos : 0 ≤ 1 + -ctx (p.slippageBps / 10000) := by linarith
    refine ⟨?_, ctx_nonneg hpos⟩
    show ctx (1 + -ctx (p.slippageBps / 10000)) ≤ 1
    exact (ctx_mono hpos (by linarith)).trans ctx_one.le

variable {x : ℚ}

/-- **With slippage a price is no better**, in the context. -/
theorem noBetter_withSlippage (hx : 0 ≤ x) (side : OrderSide) :
    side.NoBetter (ctx x) (withSlippage p x side) := by
  obtain ⟨hside, hnonneg⟩ := multiplier_noBetter p side
  have hprod : 0 ≤ x * p.multiplier side := mul_nonneg hx hnonneg
  refine noBetter_ctx hx hprod ?_
  cases side with
  | buy => exact le_mul_of_one_le_right hx hside
  | sell => exact mul_le_of_le_one_right hx hside

/-- Of two prices, the worse one is the worse one with slippage. -/
theorem withSlippage_noBetter {y : ℚ} (hx : 0 ≤ x) (hy : 0 ≤ y) (h : side.NoBetter x y) :
    side.NoBetter (withSlippage p x side) (withSlippage p y side) := by
  have hnonneg := (multiplier_noBetter p side).2
  refine noBetter_ctx (mul_nonneg hx hnonneg) (mul_nonneg hy hnonneg) ?_
  cases side with
  | buy => exact mul_le_mul_of_nonneg_right h hnonneg
  | sell => exact mul_le_mul_of_nonneg_right h hnonneg

end Prices

/-! ## Conservative prices -/

section Conservative

variable {ω ι : Type} (fillId : ω → ℤ → String → ι) {p : FillPolicy} {side : OrderSide}

theorem ctx_withSlippage (x : ℚ) (side : OrderSide) :
    ctx (withSlippage p x side) = withSlippage p x side := ctx_ctx _

variable {openPrice : ℚ}

/-- What is no better than both prices is no better than the better one. -/
theorem noBetter_boundedLimit {x limit : ℚ} (hx : 0 ≤ x) (hopen : 0 < openPrice)
    (hlimit : 0 < limit) (hxopen : side.NoBetter x openPrice) (hxlimit : side.NoBetter x limit) :
    side.NoBetter (ctx x) (ctx (boundedLimitPrice p side limit openPrice)) := by
  have hbase : 0 ≤ side.better openPrice limit := by
    rcases side.better_eq openPrice limit with h | h <;> rw [h] <;> exact le_of_lt ‹_›
  unfold boundedLimitPrice
  rcases side.better_eq (withSlippage p (side.better openPrice limit) side) limit with h | h
  · rw [h, ctx_withSlippage]
    exact (noBetter_ctx hx hbase (hxopen.better hxlimit)).trans (noBetter_withSlippage p hbase side)
  · rw [h]
    exact noBetter_ctx hx hlimit.le hxlimit

variable {stop : ℚ}

/-- A stop is filled no better than at the stop and at the open. -/
theorem noBetter_stopPrice (side : OrderSide) (hopen : 0 < openPrice) (hstop : 0 < stop) :
    side.NoBetter (ctx stop) (stopPrice p side stop openPrice)
      ∧ side.NoBetter (ctx openPrice) (stopPrice p side stop openPrice) := by
  have hworse : 0 ≤ side.worse openPrice stop := by
    cases side with
    | buy => exact hopen.le.trans (le_max_left _ _)
    | sell => exact le_min hopen.le hstop.le
  have hslippage := noBetter_withSlippage p hworse side
  exact ⟨(noBetter_ctx hstop.le hworse (side.noBetter_worse_right openPrice stop)).trans hslippage,
    (noBetter_ctx hopen.le hworse (side.noBetter_worse_left openPrice stop)).trans hslippage⟩

variable {target : ℚ}

/-- **The stop of a bracket is no better than its target.** -/
theorem boundedLimit_noBetter_stop (hopen : 0 < openPrice) (hstop : 0 < stop) (htarget : 0 < target) :
    side.NoBetter (boundedLimitPrice p side target openPrice)
      (stopPrice p side stop openPrice) := by
  have hbetter : 0 ≤ side.better openPrice target := by
    rcases side.better_eq openPrice target with h | h <;> rw [h] <;> exact le_of_lt ‹_›
  have hworse : 0 ≤ side.worse openPrice stop := by
    cases side with
    | buy => exact hopen.le.trans (le_max_left _ _)
    | sell => exact le_min hopen.le hstop.le
  have hbounded := side.noBetter_better_left
    (withSlippage p (side.better openPrice target) side) target
  have hbases := (side.noBetter_better_left openPrice target).trans
    (side.noBetter_worse_left openPrice stop)
  exact hbounded.trans (withSlippage_noBetter p hbetter hworse hbases)

/-- **A price that is conservative**, as `f` shows prices: it is no better than the bar allows, a
limit is kept, and a stop is filled no better than at the stop and at the open. -/
structure Conservative (f : ℚ → ℚ) (order : Order ω) (bar : ValidBar) (price : ℚ) : Prop where
  range : order.side.NoBetter (f (bar.best order.side)) (f price)
  limit : order.orderType = .limit ∨ order.orderType = .stopLimit →
    ∀ limit ∈ order.limitPrice, order.side.NoBetter price limit
  stop : order.orderType = .stop → ∀ stop ∈ order.stopPrice,
    order.side.NoBetter (f stop) (f price) ∧ order.side.NoBetter (f bar.openPrice) (f price)

/-- The prices of the bar and of the order have no more than 28 digits. -/
structure Exact (order : Order ω) (bar : ValidBar) : Prop where
  best : ctx (bar.best order.side) = bar.best order.side
  openPrice : ctx bar.openPrice = bar.openPrice
  limit : ∀ x ∈ order.limitPrice, ctx x = x
  stop : ∀ x ∈ order.stopPrice, ctx x = x
  target : ∀ x ∈ order.takeProfitPrice, ctx x = x

theorem ValidBar.best_nonneg (bar : ValidBar) (side : OrderSide) : 0 ≤ bar.best side := by
  cases side with
  | buy => exact bar.pos.2.2.1.le
  | sell => exact bar.pos.2.1.le

variable {order : Order ω} {bar : ValidBar} {x : ℚ}

/-- **Every price is conservative**, in the context. -/
theorem price_conservative (h : price p order bar = .ok (some x)) :
    Conservative ctx order bar x := by
  have hopen := bar.pos.1
  have hbest := bar.best_nonneg order.side
  have hbestOpen := bar.best_open order.side
  unfold price at h
  split at h
  · -- a market order has neither a limit nor a stop
    rename_i htype
    obtain rfl := some.inj (Except.ok.inj h)
    refine ⟨?_, by simp [htype], by simp [htype]⟩
    rw [ctx_withSlippage]
    exact (noBetter_ctx hbest hopen.le hbestOpen).trans (noBetter_withSlippage p hopen.le order.side)
  · rename_i htype
    unfold limitFill at h
    split at h
    · cases h
    · rename_i limit hlimit
      split at h
      · rename_i hreaches
        obtain rfl := some.inj (Except.ok.inj h)
        refine ⟨noBetter_boundedLimit hbest hopen (order.limit_pos limit hlimit) hbestOpen hreaches,
          fun _ l hl => ?_, by simp [htype]⟩
        obtain rfl : limit = l := some.inj (hlimit.symm.trans hl)
        exact order.side.noBetter_better_right _ _
      · cases h
  · rename_i htype
    unfold stopFill at h
    split at h
    · cases h
    · rename_i stop hstop
      split at h
      · obtain rfl := some.inj (Except.ok.inj h)
        obtain ⟨hnostop, hnoopen⟩ :=
          noBetter_stopPrice (p := p) order.side hopen (order.stop_pos stop hstop)
        refine ⟨?_, by simp [htype], fun _ s hs => ?_⟩
        · rw [stopPrice, ctx_withSlippage]
          exact (noBetter_ctx hbest hopen.le hbestOpen).trans hnoopen
        · obtain rfl : stop = s := some.inj (hstop.symm.trans hs)
          rw [stopPrice, ctx_withSlippage]
          exact ⟨hnostop, hnoopen⟩
      · cases h
  · rename_i htype
    unfold stopLimitFill at h
    split at h
    · rename_i stop limit hstop hlimit
      split at h
      · rename_i hreaches
        obtain rfl := some.inj (Except.ok.inj h)
        have hpos := order.limit_pos limit hlimit
        refine ⟨noBetter_boundedLimit hbest hpos hpos hreaches.2 hreaches.2,
          fun _ l hl => ?_, by simp [htype]⟩
        obtain rfl : limit = l := some.inj (hlimit.symm.trans hl)
        exact order.side.noBetter_better_right _ _
      · cases h
    · cases h

/-- A price is a number of the context, or the limit of the order. -/
theorem price_eq (h : price p order bar = .ok (some x)) :
    ctx x = x ∨ ∃ limit ∈ order.limitPrice, x = limit := by
  have hbounded : ∀ limit openPrice, boundedLimitPrice p order.side limit openPrice = x →
      ctx x = x ∨ x = limit := by
    rintro limit openPrice rfl
    unfold boundedLimitPrice
    rcases order.side.better_eq (withSlippage p (order.side.better openPrice limit) order.side)
      limit with heq | heq
    · rw [heq]
      exact .inl (ctx_withSlippage _ _)
    · exact .inr heq
  unfold price at h
  split at h
  · obtain rfl := some.inj (Except.ok.inj h)
    exact .inl (ctx_withSlippage _ _)
  · unfold limitFill at h
    split at h
    · cases h
    · rename_i limit hlimit
      split at h
      · exact (hbounded _ _ (some.inj (Except.ok.inj h))).imp_right
          fun heq => ⟨limit, hlimit, heq⟩
      · cases h
  · unfold stopFill at h
    split at h
    · cases h
    · split at h
      · obtain rfl := some.inj (Except.ok.inj h)
        exact .inl (ctx_withSlippage _ _)
      · cases h
  · unfold stopLimitFill at h
    split at h
    · rename_i stop limit hstop hlimit
      split at h
      · exact (hbounded _ _ (some.inj (Except.ok.inj h))).imp_right
          fun heq => ⟨limit, hlimit, heq⟩
      · cases h
    · cases h

/-- Prices that have no more digits than the context are conservative as they are. -/
theorem Conservative.exact (h : Conservative ctx order bar x) (hexact : Exact order bar)
    (hx : ctx x = x) : Conservative id order bar x where
  range := by simpa [hexact.best, hx] using h.range
  limit := h.limit
  stop htype s hs := by
    have hstop := h.stop htype s hs
    rwa [hexact.stop s hs, hexact.openPrice, hx] at hstop

/-! ### Fills -/

variable {fill : Fill ω ι}

theorem fillAt_eq_ok {timestamp : DateTime} {quantity price : ℚ} {reason : String}
    (h : fillAt fillId p order timestamp quantity price reason = .ok fill) :
    fill.side = order.side ∧ fill.price = price ∧ fill.quantity = quantity
      ∧ fill.reason = reason := by
  unfold fillAt at h
  dsimp only at h
  split at h
  · obtain rfl := Except.ok.inj h
    exact ⟨rfl, rfl, rfl, rfl⟩
  · cases h

variable {cells : List (String × Cell)} {timestamp : DateTime}

theorem evaluate_eq_ok (hbar : validatedBar cells = .ok bar)
    (h : evaluate fillId p order cells timestamp = .ok (some fill)) :
    fill.side = order.side ∧ price p order bar = .ok (some fill.price) := by
  unfold evaluate at h
  rw [hbar, ok_bind] at h
  obtain ⟨ok, -, h⟩ := of_bind h
  split at h
  · cases h
  · obtain ⟨found, hfound, h⟩ := of_bind h
    split at h
    · cases h
    · obtain ⟨fill', hfill, heq⟩ := map_eq_ok.mp h
      obtain rfl := some.inj heq
      obtain ⟨hside, hprice, -⟩ := fillAt_eq_ok fillId hfill
      exact ⟨hside, hprice ▸ hfound⟩

/-- **A bracket whose stop is touched takes the stop.** -/
theorem evaluateBracket_of_touches (hbar : validatedBar cells = .ok bar)
    (heligible : eligible order timestamp = .ok true) (hquantity : 0 < order.remainingQuantity)
    (hstop : order.stopPrice = some stop) (htarget : order.takeProfitPrice = some target)
    (htouches : touches order.side bar stop) : evaluateBracket fillId p order cells timestamp
      = (fillAt fillId p order timestamp order.remainingQuantity
          (stopPrice p order.side stop bar.openPrice) "stop").map fun fill => [fill] := by
  unfold evaluateBracket
  rw [hbar, ok_bind, heligible, ok_bind, if_neg (by simp), hstop, htarget]
  dsimp only
  rw [if_neg (not_le.mpr hquantity), if_pos htouches]
  rfl

variable {fills : List (Fill ω ι)}

/-- A fill of a bracket is that of its stop, or that of its target. -/
theorem evaluateBracket_eq_ok (hbar : validatedBar cells = .ok bar)
    (h : evaluateBracket fillId p order cells timestamp = .ok fills) (hfill : fill ∈ fills) :
    fill.side = order.side ∧
      ((∃ stop ∈ order.stopPrice, fill.reason = "stop" ∧ touches order.side bar stop
          ∧ fill.price = stopPrice p order.side stop bar.openPrice)
        ∨ ∃ target ∈ order.takeProfitPrice, fill.reason = "target" ∧ reaches order.side bar target
          ∧ fill.price = boundedLimitPrice p order.side target bar.openPrice) := by
  unfold evaluateBracket at h
  rw [hbar, ok_bind] at h
  obtain ⟨ok, -, h⟩ := of_bind h
  split at h
  · obtain rfl := Except.ok.inj h
    cases hfill
  · split at h
    · rename_i stop target hstop htarget
      split at h
      · obtain rfl := Except.ok.inj h
        cases hfill
      · split at h
        · rename_i htouches
          obtain ⟨fill', hfill', h⟩ := of_bind h
          obtain rfl := Except.ok.inj h
          obtain rfl := List.mem_singleton.mp hfill
          obtain ⟨hside, hprice, -, hreason⟩ := fillAt_eq_ok fillId hfill'
          exact ⟨hside, .inl ⟨stop, hstop, hreason, htouches, hprice⟩⟩
        · split at h
          · rename_i hreaches
            obtain ⟨fill', hfill', h⟩ := of_bind h
            obtain rfl := Except.ok.inj h
            obtain rfl := List.mem_singleton.mp hfill
            obtain ⟨hside, hprice, -, hreason⟩ := fillAt_eq_ok fillId hfill'
            exact ⟨hside, .inr ⟨target, htarget, hreason, hreaches, hprice⟩⟩
          · obtain rfl := Except.ok.inj h
            cases hfill
    · cases h

/-- **A fill of a bracket is conservative**, as `f` shows prices. -/
structure BracketConservative (f : ℚ → ℚ) (order : Order ω) (bar : ValidBar) (fill : Fill ω ι) :
    Prop where
  range : order.side.NoBetter (f (bar.best order.side)) (f fill.price)
  stop : fill.reason = "stop" → ∀ stop ∈ order.stopPrice,
    order.side.NoBetter (f stop) (f fill.price)
      ∧ order.side.NoBetter (f bar.openPrice) (f fill.price)
  target : fill.reason = "target" → ∀ target ∈ order.takeProfitPrice,
    order.side.NoBetter fill.price target

theorem bracket_conservative (hbar : validatedBar cells = .ok bar)
    (h : evaluateBracket fillId p order cells timestamp = .ok fills) (hfill : fill ∈ fills) :
    fill.side = order.side ∧ BracketConservative ctx order bar fill
      ∧ (Exact order bar → BracketConservative id order bar fill) := by
  obtain ⟨hside, hcases⟩ := evaluateBracket_eq_ok fillId hbar h hfill
  have hopen := bar.pos.1
  have hbest := bar.best_nonneg order.side
  have hbestOpen := bar.best_open order.side
  refine ⟨hside, ?_⟩
  rcases hcases with ⟨stop, hstop, hreason, -, hprice⟩ | ⟨target, htarget, hreason, hreaches, hprice⟩
  · have hctx : ctx fill.price = fill.price := hprice ▸ ctx_withSlippage _ _
    obtain ⟨hnostop, hnoopen⟩ :=
      noBetter_stopPrice (p := p) order.side hopen (order.stop_pos stop hstop)
    rw [← hprice] at hnostop hnoopen
    have hrange := (noBetter_ctx hbest hopen.le hbestOpen).trans hnoopen
    have hsame : ∀ s ∈ order.stopPrice, s = stop := fun s hs =>
      some.inj (hs.symm.trans hstop)
    have htargets : fill.reason = "target" → False := fun htype => by
      rw [hreason] at htype
      exact absurd htype (by decide)
    refine ⟨⟨hctx.symm ▸ hrange, fun _ s hs => ?_, fun htype => (htargets htype).elim⟩,
      fun hexact => ⟨?_, fun _ s hs => ?_, fun htype => (htargets htype).elim⟩⟩
    · rw [hsame s hs, hctx]
      exact ⟨hnostop, hnoopen⟩
    · rwa [hexact.best] at hrange
    · rw [hsame s hs]
      rw [hexact.stop stop hstop] at hnostop
      rw [hexact.openPrice] at hnoopen
      exact ⟨hnostop, hnoopen⟩
  · have hpos := order.target_pos target htarget
    have hrange := noBetter_boundedLimit (p := p) hbest hopen hpos hbestOpen hreaches
    rw [← hprice] at hrange
    have hstops : fill.reason = "stop" → False := fun htype => by
      rw [hreason] at htype
      exact absurd htype (by decide)
    have hkept : ∀ t ∈ order.takeProfitPrice, order.side.NoBetter fill.price t := by
      intro t ht
      obtain rfl : target = t := some.inj (htarget.symm.trans ht)
      rw [hprice]
      exact order.side.noBetter_better_right _ _
    refine ⟨⟨hrange, fun htype => (hstops htype).elim, fun _ => hkept⟩,
      fun hexact => ⟨?_, fun htype => (hstops htype).elim, fun _ => hkept⟩⟩
    have hctx : ctx fill.price = fill.price := by
      rw [hprice]
      unfold boundedLimitPrice
      rcases order.side.better_eq (withSlippage p (order.side.better bar.openPrice target) order.side)
        target with heq | heq
      · rw [heq]
        exact ctx_withSlippage _ _
      · rw [heq]
        exact hexact.target target htarget
    rwa [hexact.best, hctx] at hrange

/-- **Fills are conservative.** For every valid bar and order, of all types and on both sides: a fill
is no better than the bar allows, a limit is kept, and a stop is filled no better than at the stop
and at the open – in the context of 28 digits, and as they are for prices of no more digits. A
bracket of which the stop is touched takes the stop, which is no better than its target. -/
theorem fills_conservative (p : FillPolicy) (order : Order ω) (cells : List (String × Cell))
    (timestamp : DateTime) (bar : ValidBar) (hbar : validatedBar cells = .ok bar) :
    (∀ fill, evaluate fillId p order cells timestamp = .ok (some fill) →
        fill.side = order.side ∧ Conservative ctx order bar fill.price
          ∧ (Exact order bar → Conservative id order bar fill.price))
    ∧ (∀ fills, evaluateBracket fillId p order cells timestamp = .ok fills → ∀ fill ∈ fills,
        fill.side = order.side ∧ BracketConservative ctx order bar fill
          ∧ (Exact order bar → BracketConservative id order bar fill))
    ∧ ∀ stop target, order.stopPrice = some stop → order.takeProfitPrice = some target →
        order.side.NoBetter (boundedLimitPrice p order.side target bar.openPrice)
            (stopPrice p order.side stop bar.openPrice)
          ∧ (eligible order timestamp = .ok true → 0 < order.remainingQuantity →
              touches order.side bar stop → evaluateBracket fillId p order cells timestamp
                = (fillAt fillId p order timestamp order.remainingQuantity
                    (stopPrice p order.side stop bar.openPrice) "stop").map fun fill => [fill]) := by
  refine ⟨fun fill h => ?_, fun fills h fill hfill => bracket_conservative fillId hbar h hfill,
    fun stop target hstop htarget => ⟨boundedLimit_noBetter_stop bar.pos.1
      (order.stop_pos stop hstop) (order.target_pos target htarget),
      fun heligible hquantity htouches =>
        evaluateBracket_of_touches fillId hbar heligible hquantity hstop htarget htouches⟩⟩
  obtain ⟨hside, hprice⟩ := evaluate_eq_ok fillId hbar h
  have hconservative := price_conservative hprice
  refine ⟨hside, hconservative, fun hexact => hconservative.exact hexact ?_⟩
  rcases price_eq hprice with hctx | ⟨limit, hlimit, heq⟩
  · exact hctx
  · rw [heq]
    exact hexact.limit limit hlimit

end Conservative

section Sample

private theorem one_quantity_pos : (0 : ℚ) < 1 := one_pos

private theorem no_fee_nonneg : (0 : ℚ) ≤ 0 := le_rfl

/-- No fees and no slippage. -/
def free : FillPolicy := ⟨0, 0, no_fee_nonneg, no_fee_nonneg, by norm_num⟩

def buyOne (orderType : OrderType) (limit : Option ℚ) (hlimit : ∀ x ∈ limit, 0 < x)
    (hsome : orderType = .limit → limit.isSome) (htype : orderType ≠ .stop ∧ orderType ≠ .stopLimit)
    : Order Unit :=
  { id := (), createdAt := 0, instrument := .spot, side := .buy, orderType, quantity := 1
    remainingQuantity := 1, limitPrice := limit, stopPrice := none, takeProfitPrice := none
    status := .open, expiresAt := none, quantity_pos := one_quantity_pos
    remaining_mem := ⟨zero_le_one, le_rfl⟩
    limit_pos := hlimit, stop_pos := by simp, target_pos := by simp
    limit_isSome := fun h => hsome (h.resolve_right htype.2)
    stop_isSome := fun h => absurd h (not_or.mpr htype), created_le := by simp }

/-- A bar at one price. -/
def flatBar (x : ℚ) : List (String × Cell) :=
  ["open", "high", "low", "close", "volume"].map fun field => (field, .number x)

private theorem limit_101_pos : ∀ x ∈ some (101 : ℚ), 0 < x := by simp

/-- A market order in a bar at a price of 30 digits is filled below the low of the bar. -/
theorem market_buy_below_low :
    ¬ ∀ (p : FillPolicy) (order : Order Unit) (cells : List (String × Cell)) (timestamp : DateTime)
      (bar : ValidBar) (fill : Fill Unit Unit), validatedBar cells = .ok bar →
      evaluate (fun _ _ _ => ()) p order cells timestamp = .ok (some fill) →
      order.side.NoBetter (bar.best order.side) fill.price := by
  intro h
  let order := buyOne .market none (by simp) (by simp) (by simp)
  have hbar : (validatedBar (flatBar (1 + 4 / 10 ^ 29))).map ValidBar.low = .ok (1 + 4 / 10 ^ 29) := by
    decide +kernel
  have hfill : (evaluate (fun _ _ _ => ()) free order (flatBar (1 + 4 / 10 ^ 29)) ⟨0, true⟩).map
      (Option.map Fill.price) = .ok (some 1) := by
    decide +kernel
  obtain ⟨bar, hbar, hlow⟩ := map_eq_ok.mp hbar
  obtain ⟨found, hfound, hprice⟩ := map_eq_ok.mp hfill
  obtain ⟨fill, rfl, hone⟩ := Option.map_eq_some_iff.mp hprice
  have hbelow : bar.low ≤ fill.price := h free order _ _ bar fill hbar hfound
  rw [hlow, hone] at hbelow
  norm_num at hbelow

/-- A limit order in a bar is filled at the open, which is better than its limit. -/
theorem limit_buy_conservative : ∃ bar fill, validatedBar (flatBar 100) = .ok bar
      ∧ evaluate (fun _ _ _ => ()) free (buyOne .limit (some 101) limit_101_pos (by simp) (by simp))
          (flatBar 100) ⟨0, true⟩ = .ok (some fill)
      ∧ Conservative ctx (buyOne .limit (some 101) limit_101_pos (by simp) (by simp)) bar fill.price
      ∧ fill.price = 100 := by
  have hbar : (validatedBar (flatBar 100)).map ValidBar.low = .ok 100 := by decide +kernel
  have hfill : (evaluate (fun _ _ _ => ()) free
      (buyOne .limit (some 101) limit_101_pos (by simp) (by simp)) (flatBar 100) ⟨0, true⟩).map
      (Option.map Fill.price) = .ok (some 100) := by
    decide +kernel
  obtain ⟨bar, hbar, -⟩ := map_eq_ok.mp hbar
  obtain ⟨found, hfound, hprice⟩ := map_eq_ok.mp hfill
  obtain ⟨fill, rfl, hone⟩ := Option.map_eq_some_iff.mp hprice
  exact ⟨bar, fill, hbar, hfound,
    ((fills_conservative _ free _ _ _ bar hbar).1 fill hfound).2.1, hone⟩

end Sample

end Fills

end Qt.Backtest
