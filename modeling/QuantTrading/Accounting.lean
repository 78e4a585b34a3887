import Mathlib.Data.Finset.Insert
import Mathlib.Tactic.FieldSimp
import Mathlib.Tactic.Linarith
import Mathlib.Tactic.Ring
import QuantTrading.Lib.Machine
import QuantTrading.Lib.Raise

/-!
# Backtest accounting

`btc_backtest.engine.accounting`: a portfolio of cash, a spot position that is
never short and a perpetual position that is never long, to which fills and
funding payments are applied and whose equity is marked.

An operation changes the portfolio in place and may raise on the way, so it is
an `EStateM` program: what it returns or raises comes with the portfolio that it
leaves behind. Amounts are exact rationals. The timestamps of a fill and of a
funding event carry a time zone (their models require it), the one of a mark
need not.
-/

namespace Qt.Backtest

open Option EStateM

/-! ## Fills, funding and snapshots -/

inductive InstrumentKind | spot | perpetual
deriving DecidableEq, Repr

/-- The value of an `InstrumentKind`. -/
def InstrumentKind.value : InstrumentKind → String
  | .spot => "spot"
  | .perpetual => "perpetual"

/-- `InstrumentKind(…)`. -/
def InstrumentKind.ofString? (s : String) : Option InstrumentKind :=
  if s = "spot" then some .spot else if s = "perpetual" then some .perpetual else none

inductive OrderSide | buy | sell
deriving DecidableEq, Repr

/-- `Fill`, with what its validator asks. Orders are known by an `ω`, fills and
funding events by an `ι`. -/
structure Fill (ω ι : Type) where
  id : ι
  orderId : ω
  orderCreatedAt : ℤ
  timestamp : ℤ
  instrument : InstrumentKind
  side : OrderSide
  quantity : ℚ
  price : ℚ
  fee : ℚ
  reason : String
  quantity_pos : 0 < quantity
  price_pos : 0 < price
  fee_nonneg : 0 ≤ fee
  created_le : orderCreatedAt ≤ timestamp

variable {ω ι : Type} (fill : Fill ω ι)

def Fill.notional : ℚ := fill.quantity * fill.price

theorem Fill.notional_pos : 0 < fill.notional :=
  mul_pos fill.quantity_pos fill.price_pos

structure FundingEvent (ι : Type) where
  id : ι
  timestamp : ℤ
  amount : ℚ
  rate : ℚ
deriving DecidableEq

structure Position where
  instrument : InstrumentKind
  quantity : ℚ
  averagePrice : ℚ
  realizedPnl : ℚ
  feesPaid : ℚ
  fundingPnl : ℚ
deriving DecidableEq

structure PortfolioSnapshot where
  timestamp : ℤ
  cash : ℚ
  equity : ℚ
  realizedPnl : ℚ
  unrealizedPnl : ℚ
  positions : List Position
deriving DecidableEq

/-- What an operation raises: `ExecutionError`, `ValueError`, or the
`ValidationError` of a model. -/
inductive AccountingError
  | executionError (message : String)
  | valueError (message : String)
  | validationError (message : String)
deriving DecidableEq, Repr

/-! ## The portfolio -/

structure PositionState where
  quantity : ℚ
  averagePrice : ℚ
  realizedPnl : ℚ
  feesPaid : ℚ
  fundingPnl : ℚ
deriving DecidableEq

/-- The state of a flat position that was never traded. -/
def PositionState.untraded : PositionState := ⟨0, 0, 0, 0, 0⟩

/-- **`Portfolio`**, with its two positions and the marks of their instruments. -/
structure Portfolio (ι : Type) where
  cash : ℚ
  spot : PositionState
  perpetual : PositionState
  fillIds : Finset ι
  fundingIds : Finset ι
  lastTimestamp : Option ℤ
  spotMark : Option ℚ
  perpetualMark : Option ℚ
deriving DecidableEq

/-- A program on a portfolio. -/
abbrev Accounting (ι α : Type) := EStateM AccountingError (Portfolio ι) α

namespace Portfolio

/-- `Portfolio.__init__`; a decimal that is not finite is `none`. -/
def create (initialCash : Option ℚ) : Except AccountingError (Portfolio ι) :=
  match initialCash with
  | none => .error (.valueError "initial_cash must be finite and positive")
  | some cash =>
    if cash ≤ 0 then .error (.valueError "initial_cash must be finite and positive")
    else .ok ⟨cash, .untraded, .untraded, ∅, ∅, none, none, none⟩

/-- The realized profit of both positions. -/
def realizedPnl (p : Portfolio ι) : ℚ := p.spot.realizedPnl + p.perpetual.realizedPnl

variable (p : Portfolio ι)

/-- The price at which a position is valued: its mark, or its average price. -/
def spotPrice : ℚ := p.spotMark.getD p.spot.averagePrice

def perpetualPrice : ℚ := p.perpetualMark.getD p.perpetual.averagePrice

def spotUnrealized : ℚ := (p.spotPrice - p.spot.averagePrice) * p.spot.quantity

def perpetualUnrealized : ℚ :=
  (p.perpetualPrice - p.perpetual.averagePrice) * p.perpetual.quantity

/-- The profit that is not realized. -/
def unrealizedPnl : ℚ := p.spotUnrealized + p.perpetualUnrealized

/-- The marked equity. -/
def equity : ℚ := p.cash + p.spot.quantity * p.spotPrice + p.perpetualUnrealized

def positionModel (instrument : InstrumentKind) (state : PositionState) : Position where
  instrument := instrument
  quantity := state.quantity
  averagePrice := state.averagePrice
  realizedPnl := state.realizedPnl
  feesPaid := state.feesPaid
  fundingPnl := state.fundingPnl

def snapshotAt (timestamp : ℤ) : PortfolioSnapshot where
  timestamp := timestamp
  cash := p.cash
  equity := p.equity
  realizedPnl := p.realizedPnl
  unrealizedPnl := p.unrealizedPnl
  positions := [positionModel .spot p.spot, positionModel .perpetual p.perpetual]

/-- A price is marked. -/
def withMark (instrument : InstrumentKind) (value : ℚ) : Portfolio ι :=
  match instrument with
  | .spot => { p with spotMark := some value }
  | .perpetual => { p with perpetualMark := some value }

variable (fill : Fill ω ι)

def spotBought : Portfolio ι :=
  let priorCost := p.spot.averagePrice * p.spot.quantity
  let nextQuantity := p.spot.quantity + fill.quantity
  { p with
    cash := p.cash - (fill.notional + fill.fee)
    spot := { p.spot with
      averagePrice := (priorCost + fill.notional) / nextQuantity
      quantity := nextQuantity
      realizedPnl := p.spot.realizedPnl - fill.fee
      feesPaid := p.spot.feesPaid + fill.fee } }

def spotSold : Portfolio ι :=
  let realized := (fill.price - p.spot.averagePrice) * fill.quantity - fill.fee
  let quantity := p.spot.quantity - fill.quantity
  { p with
    cash := p.cash + (fill.notional - fill.fee)
    spot := { p.spot with
      quantity := quantity
      realizedPnl := p.spot.realizedPnl + realized
      feesPaid := p.spot.feesPaid + fill.fee
      averagePrice := if quantity = 0 then 0 else p.spot.averagePrice } }

/-- A perpetual is sold short. -/
def perpetualSold : Portfolio ι :=
  let priorQuantity := |p.perpetual.quantity|
  let nextQuantity := priorQuantity + fill.quantity
  { p with
    cash := p.cash - fill.fee
    perpetual := { p.perpetual with
      averagePrice := (p.perpetual.averagePrice * priorQuantity + fill.notional) / nextQuantity
      quantity := -nextQuantity
      realizedPnl := p.perpetual.realizedPnl - fill.fee
      feesPaid := p.perpetual.feesPaid + fill.fee } }

/-- The profit of a perpetual that is bought back. -/
def closeGross : ℚ :=
  (p.perpetual.averagePrice - fill.price) * fill.quantity

/-- A perpetual is bought back. -/
def perpetualBought : Portfolio ι :=
  let quantity := p.perpetual.quantity + fill.quantity
  { p with
    cash := p.cash + p.closeGross fill - fill.fee
    perpetual := { p.perpetual with
      quantity := quantity
      realizedPnl := p.perpetual.realizedPnl + (p.closeGross fill - fill.fee)
      feesPaid := p.perpetual.feesPaid + fill.fee
      averagePrice := if quantity = 0 then 0 else p.perpetual.averagePrice } }

/-- The clock of the portfolio is set. -/
def seen (timestamp : ℤ) : Portfolio ι :=
  { p with lastTimestamp := some timestamp }

/-- A funding payment. -/
def funded (event : FundingEvent ι) : Portfolio ι :=
  { p with
    cash := p.cash + event.amount
    perpetual := { p.perpetual with
      realizedPnl := p.perpetual.realizedPnl + event.amount
      fundingPnl := p.perpetual.fundingPnl + event.amount } }

end Portfolio

/-! ## Operations -/

def requireChronological (timestamp : ℤ) : Accounting ι Unit := do
  let p ← get
  if ∃ t ∈ p.lastTimestamp, timestamp < t then
    throw (.executionError "portfolio event timestamp moved backwards")
  else pure ()

/-- The validator of `Position`. -/
def checkPosition (position : Position) : Accounting ι Unit :=
  if position.instrument = .spot ∧ position.quantity < 0 then
    throw (.validationError "spot quantity cannot be negative")
  else if position.averagePrice < 0 then
    throw (.validationError "average_price must be non-negative")
  else if position.feesPaid < 0 then
    throw (.validationError "fees_paid must be non-negative")
  else pure ()

/-- `_snapshot`, with the validators of its models. -/
def snapshot (timestamp : ℤ) : Accounting ι PortfolioSnapshot := do
  let p ← get
  checkPosition (Portfolio.positionModel .spot p.spot)
  checkPosition (Portfolio.positionModel .perpetual p.perpetual)
  if p.cash < 0 then throw (.validationError "cash cannot be negative")
  else pure (p.snapshotAt timestamp)

def applySpotFill : Accounting ι Unit := do
  let p ← get
  match fill.side with
  | .buy =>
    if p.cash < fill.notional + fill.fee then
      throw (.executionError "spot buy exceeds available cash")
    else set (p.spotBought fill)
  | .sell =>
    if p.spot.quantity < fill.quantity then
      throw (.executionError "spot sell exceeds current holdings")
    else set (p.spotSold fill)

def applyPerpetualFill : Accounting ι Unit := do
  let p ← get
  match fill.side with
  | .sell =>
    if p.cash < fill.fee then
      throw (.executionError "perpetual fee exceeds available cash")
    else set (p.perpetualSold fill)
  | .buy =>
    if |p.perpetual.quantity| = 0 then
      throw (.executionError "directional long perpetual positions are unsupported")
    else if |p.perpetual.quantity| < fill.quantity then
      throw (.executionError "perpetual buy would create an unsupported long perpetual position")
    else if p.cash + p.closeGross fill - fill.fee < 0 then
      throw (.executionError "perpetual close exceeds available cash")
    else set (p.perpetualBought fill)

def applyInstrumentFill : Accounting ι Unit :=
  match fill.instrument with
  | .spot => applySpotFill fill
  | .perpetual => applyPerpetualFill fill

def applyFill [DecidableEq ι] [ToString ι] : Accounting ι PortfolioSnapshot := do
  let p ← get
  if fill.id ∈ p.fillIds then throw (.executionError s!"duplicate fill id: {fill.id}")
  else do
    requireChronological fill.timestamp
    applyInstrumentFill fill
    modify fun p => { p with fillIds := insert fill.id p.fillIds }
    modify fun p => p.withMark fill.instrument fill.price
    modify fun p => p.seen fill.timestamp
    snapshot fill.timestamp

def applyFunding [DecidableEq ι] [ToString ι] (event : FundingEvent ι) :
    Accounting ι PortfolioSnapshot := do
  let p ← get
  if event.id ∈ p.fundingIds then throw (.executionError s!"duplicate funding id: {event.id}")
  else do
    requireChronological event.timestamp
    if p.perpetual.quantity = 0 then
      throw (.executionError "cannot apply perpetual funding without a position")
    else if p.cash + event.amount < 0 then
      throw (.executionError "funding payment exceeds available cash")
    else do
      set (p.funded event)
      modify fun p => { p with fundingIds := insert event.id p.fundingIds }
      modify fun p => p.seen event.timestamp
      snapshot event.timestamp

/-- `_set_mark`; a decimal that is not finite is `none`. -/
def setMark (instrument : InstrumentKind) (value : Option ℚ) : Accounting ι Unit :=
  match value with
  | none => throw (.valueError s!"{instrument.value} mark must be finite and positive")
  | some value =>
    if value ≤ 0 then
      throw (.valueError s!"{instrument.value} mark must be finite and positive")
    else modify fun p => p.withMark instrument value

/-- An item of the mapping that `mark` is given. -/
def setItem (item : String × Option ℚ) : Accounting ι Unit :=
  match InstrumentKind.ofString? item.1 with
  | none => throw (.valueError s!"'{item.1}' is not a valid InstrumentKind")
  | some instrument => setMark instrument item.2

/-- What `mark` is given: one price, or the items of a mapping. -/
inductive Marks
  | price (value : Option ℚ)
  | mapping (items : List (String × Option ℚ))
deriving DecidableEq

/-- What `mark` is given, as items: one price is the one of spot. -/
def Marks.items : Marks → List (String × Option ℚ)
  | .price value => [("spot", value)]
  | .mapping items => items

/-- The marks are set, one item after the other. -/
def setMarks : Marks → Accounting ι Unit
  | .price value => setMark .spot value
  | .mapping items => items.forM setItem

/-- A `datetime`, with or without a time zone. -/
structure DateTime where
  instant : ℤ
  aware : Bool
deriving DecidableEq, Repr

def mark (timestamp : DateTime) (marks : Marks) : Accounting ι PortfolioSnapshot := do
  if timestamp.aware = false then
    throw (.valueError "mark timestamp must be timezone-aware")
  else do
    requireChronological timestamp.instant
    setMarks marks
    modify fun p => p.seen timestamp.instant
    snapshot timestamp.instant

/-- The operations of a portfolio. -/
inductive Operation (ω ι : Type)
  | fill (fill : Fill ω ι)
  | funding (event : FundingEvent ι)
  | mark (timestamp : DateTime) (marks : Marks)

/-- An operation is applied. -/
def Operation.apply [DecidableEq ι] [ToString ι] : Operation ω ι → Accounting ι PortfolioSnapshot
  | .fill f => applyFill f
  | .funding event => applyFunding event
  | .mark timestamp marks => Backtest.mark timestamp marks

/-- The portfolio that a program leaves behind, returned or raised. -/
def left {α : Type} (out : EStateM.Result AccountingError (Portfolio ι) α) : Portfolio ι :=
  match out with
  | .ok _ p => p
  | .error _ p => p

namespace Portfolio

/-- **A step**: an operation is tried, and whoever called it goes on if it raises. -/
def step [DecidableEq ι] [ToString ι] (p : Portfolio ι) (op : Operation ω ι) : Portfolio ι :=
  left (op.apply.run p)

/-! ## What an operation can do -/

variable (p : Portfolio ι)

/-- The event does not move the clock of the portfolio backwards. -/
def Chronological (timestamp : ℤ) : Prop :=
  ¬ ∃ t ∈ p.lastTimestamp, timestamp < t
deriving Decidable

def Checks (fill : Fill ω ι) : InstrumentKind → OrderSide → Prop
  | .spot, .buy => fill.notional + fill.fee ≤ p.cash
  | .spot, .sell => fill.quantity ≤ p.spot.quantity
  | .perpetual, .sell => fill.fee ≤ p.cash
  | .perpetual, .buy => |p.perpetual.quantity| ≠ 0 ∧ fill.quantity ≤ |p.perpetual.quantity|
      ∧ 0 ≤ p.cash + p.closeGross fill - fill.fee

instance (p : Portfolio ι) (fill : Fill ω ι) :
    (k : InstrumentKind) → (s : OrderSide) → Decidable (p.Checks fill k s)
  | .spot, .buy | .spot, .sell | .perpetual, .sell => inferInstanceAs (Decidable (_ ≤ _))
  | .perpetual, .buy => inferInstanceAs (Decidable (_ ∧ _))

/-- A fill that no check turns down. -/
def Accepts (p : Portfolio ι) (fill : Fill ω ι) : Prop :=
  fill.id ∉ p.fillIds ∧ p.Chronological fill.timestamp ∧ p.Checks fill fill.instrument fill.side

instance [DecidableEq ι] (p : Portfolio ι) (fill : Fill ω ι) : Decidable (p.Accepts fill) :=
  inferInstanceAs (Decidable (_ ∧ _))

/-- What a fill does to the cash and the positions. -/
def filled (p : Portfolio ι) (fill : Fill ω ι) : Portfolio ι :=
  match fill.instrument, fill.side with
  | .spot, .buy => p.spotBought fill
  | .spot, .sell => p.spotSold fill
  | .perpetual, .sell => p.perpetualSold fill
  | .perpetual, .buy => p.perpetualBought fill

/-- A fill is remembered, and its price marked. -/
def booked [DecidableEq ι] (p : Portfolio ι) (fill : Fill ω ι) : Portfolio ι :=
  ({ p with fillIds := insert fill.id p.fillIds }.withMark fill.instrument fill.price).seen
    fill.timestamp

/-- A funding payment is remembered. -/
def paid [DecidableEq ι] (event : FundingEvent ι) : Portfolio ι :=
  { p.funded event with fundingIds := insert event.id p.fundingIds }.seen event.timestamp

variable (k : InstrumentKind)

@[simp] theorem cash_withMark (v : ℚ) : (p.withMark k v).cash = p.cash := by cases k <;> rfl

@[simp] theorem spot_withMark (v : ℚ) : (p.withMark k v).spot = p.spot := by cases k <;> rfl

@[simp] theorem perpetual_withMark (v : ℚ) :
    (p.withMark k v).perpetual = p.perpetual := by cases k <;> rfl

@[simp] theorem cash_booked [DecidableEq ι] (fill : Fill ω ι) : (p.booked fill).cash = p.cash :=
  cash_withMark _ _ _

@[simp] theorem spot_booked [DecidableEq ι] (fill : Fill ω ι) : (p.booked fill).spot = p.spot :=
  spot_withMark _ _ _

@[simp] theorem perpetual_booked [DecidableEq ι] (fill : Fill ω ι) :
    (p.booked fill).perpetual = p.perpetual :=
  perpetual_withMark _ _ _

variable {p} {timestamp : ℤ}

theorem requireChronological_of (h : p.Chronological timestamp) :
    requireChronological timestamp p = .ok () p :=
  show (if _ then _ else _ : Accounting ι Unit) p = _ by rw [if_neg h]; rfl

theorem requireChronological_of_not (h : ¬ p.Chronological timestamp) :
    ∃ e, requireChronological timestamp p = .error e p := by
  refine ⟨.executionError "portfolio event timestamp moved backwards", ?_⟩
  show (if _ then _ else _ : Accounting ι Unit) p = _
  rw [if_pos (not_not.mp h)]
  rfl

variable {fill : Fill ω ι}

theorem applyInstrumentFill_of_accepts (h : p.Accepts fill) :
    applyInstrumentFill fill p = .ok () (p.filled fill) := by
  obtain ⟨_, _, hchecks⟩ := h
  unfold applyInstrumentFill filled
  cases hk : fill.instrument <;> cases hs : fill.side <;> rw [hk, hs] at hchecks <;> dsimp only
  · unfold applySpotFill
    rw [hs]
    show (if p.cash < fill.notional + fill.fee then _ else _ : Accounting ι Unit) p = _
    rw [if_neg (not_lt.mpr hchecks)]
    rfl
  · unfold applySpotFill
    rw [hs]
    show (if p.spot.quantity < fill.quantity then _ else _ : Accounting ι Unit) p = _
    rw [if_neg (not_lt.mpr hchecks)]
    rfl
  · unfold applyPerpetualFill
    rw [hs]
    show (if |p.perpetual.quantity| = 0 then _ else _ : Accounting ι Unit) p = _
    rw [if_neg hchecks.1, if_neg (not_lt.mpr hchecks.2.1), if_neg (not_lt.mpr hchecks.2.2)]
    rfl
  · unfold applyPerpetualFill
    rw [hs]
    show (if p.cash < fill.fee then _ else _ : Accounting ι Unit) p = _
    rw [if_neg (not_lt.mpr hchecks)]
    rfl

/-- A check of a fill of its instrument, failed: nothing is changed. -/
theorem applyInstrumentFill_of_not_accepts (hnew : fill.id ∉ p.fillIds)
    (htime : p.Chronological fill.timestamp) (h : ¬ p.Accepts fill) :
    ∃ e, applyInstrumentFill fill p = .error e p := by
  have hchecks := fun hc => h ⟨hnew, htime, hc⟩
  unfold applyInstrumentFill
  cases hk : fill.instrument <;> cases hs : fill.side <;> rw [hk, hs] at hchecks <;> dsimp only
  · unfold applySpotFill
    rw [hs]
    show ∃ e, (if p.cash < fill.notional + fill.fee then _ else _ : Accounting ι Unit) p = _
    rw [if_pos (not_le.mp hchecks)]
    exact ⟨_, rfl⟩
  · unfold applySpotFill
    rw [hs]
    show ∃ e, (if p.spot.quantity < fill.quantity then _ else _ : Accounting ι Unit) p = _
    rw [if_pos (not_le.mp hchecks)]
    exact ⟨_, rfl⟩
  · unfold applyPerpetualFill
    rw [hs]
    show ∃ e, (if |p.perpetual.quantity| = 0 then _ else if |p.perpetual.quantity| < fill.quantity
      then _ else if p.cash + p.closeGross fill - fill.fee < 0 then _ else _ :
        Accounting ι Unit) p = _
    split_ifs with hflat hlong hcash
    · exact ⟨_, rfl⟩
    · exact ⟨_, rfl⟩
    · exact ⟨_, rfl⟩
    · exact (hchecks ⟨hflat, not_lt.mp hlong, not_lt.mp hcash⟩).elim
  · unfold applyPerpetualFill
    rw [hs]
    show ∃ e, (if p.cash < fill.fee then _ else _ : Accounting ι Unit) p = _
    rw [if_pos (not_le.mp hchecks)]
    exact ⟨_, rfl⟩

/-- A fill that is accepted is booked, and the portfolio valued. -/
theorem applyFill_of_accepts [DecidableEq ι] [ToString ι] (h : p.Accepts fill) :
    applyFill fill p = snapshot fill.timestamp ((p.filled fill).booked fill) := by
  show (if fill.id ∈ p.fillIds then _ else _ : Accounting ι PortfolioSnapshot) p = _
  rw [if_neg h.1]
  refine (bind_of_ok (requireChronological_of h.2.1)).trans ?_
  exact bind_of_ok (applyInstrumentFill_of_accepts h)

/-- **A fill that is not accepted** changes nothing. -/
theorem applyFill_of_not_accepts [DecidableEq ι] [ToString ι] (h : ¬ p.Accepts fill) :
    ∃ e, applyFill fill p = .error e p := by
  show ∃ e, (if fill.id ∈ p.fillIds then _ else _ : Accounting ι PortfolioSnapshot) p = _
  by_cases hnew : fill.id ∈ p.fillIds
  · rw [if_pos hnew]
    exact ⟨_, rfl⟩
  rw [if_neg hnew]
  by_cases htime : p.Chronological fill.timestamp
  · obtain ⟨e, he⟩ := applyInstrumentFill_of_not_accepts hnew htime h
    exact ⟨e, (bind_of_ok (requireChronological_of htime)).trans (bind_of_error he)⟩
  · obtain ⟨e, he⟩ := requireChronological_of_not htime
    exact ⟨e, bind_of_error he⟩

/-! ## What every portfolio satisfies -/

/-- **A sound portfolio**: spot is never short and a perpetual never long, a flat
position has no average price, and cash and the cost of the spot position add up
to the initial cash and the realized profit. -/
structure Sound (initialCash : ℚ) (p : Portfolio ι) : Prop where
  cost : p.cash + p.spot.averagePrice * p.spot.quantity = initialCash + p.realizedPnl
  spotQuantity : 0 ≤ p.spot.quantity
  perpetualQuantity : p.perpetual.quantity ≤ 0
  spotAverage : 0 ≤ p.spot.averagePrice
  perpetualAverage : 0 ≤ p.perpetual.averagePrice
  spotFees : 0 ≤ p.spot.feesPaid
  perpetualFees : 0 ≤ p.perpetual.feesPaid
  spotFlat : p.spot.quantity = 0 → p.spot.averagePrice = 0
  perpetualFlat : p.perpetual.quantity = 0 → p.perpetual.averagePrice = 0

variable {initialCash : ℚ} {q : Portfolio ι}

theorem Sound.congr (h : p.Sound initialCash) (hcash : q.cash = p.cash) (hspot : q.spot = p.spot)
    (hperpetual : q.perpetual = p.perpetual) : q.Sound initialCash where
  cost := by
    unfold realizedPnl
    rw [hcash, hspot, hperpetual]
    exact h.cost
  spotQuantity := hspot ▸ h.spotQuantity
  perpetualQuantity := hperpetual ▸ h.perpetualQuantity
  spotAverage := hspot ▸ h.spotAverage
  perpetualAverage := hperpetual ▸ h.perpetualAverage
  spotFees := hspot ▸ h.spotFees
  perpetualFees := hperpetual ▸ h.perpetualFees
  spotFlat := hspot ▸ h.spotFlat
  perpetualFlat := hperpetual ▸ h.perpetualFlat

/-- **The marked equity** is the initial cash and the profit, realized or not. -/
theorem Sound.equity_eq (h : p.Sound initialCash) :
    p.equity = initialCash + p.realizedPnl + p.unrealizedPnl := by
  have hcost := h.cost
  unfold equity unrealizedPnl spotUnrealized
  linarith

theorem sound_create (h : create (some initialCash) = .ok p) :
    p.Sound initialCash ∧ 0 ≤ p.cash := by
  unfold create at h
  dsimp only at h
  split_ifs at h with hcash
  cases h
  refine ⟨⟨?_, le_rfl, le_rfl, le_rfl, le_rfl, le_rfl, le_rfl, fun _ => rfl, fun _ => rfl⟩,
    (not_le.mp hcash).le⟩
  show initialCash + 0 * 0 = initialCash + (0 + 0)
  ring

section

variable (h : p.Sound initialCash)
include h

theorem Sound.spotBought (fill : Fill ω ι) :
    (p.spotBought fill).Sound initialCash := by
  have hquantity : 0 < p.spot.quantity + fill.quantity :=
    add_pos_of_nonneg_of_pos h.spotQuantity fill.quantity_pos
  have hprior : 0 ≤ p.spot.averagePrice * p.spot.quantity := mul_nonneg h.spotAverage h.spotQuantity
  refine ⟨?_, hquantity.le, h.perpetualQuantity, ?_, h.perpetualAverage,
    add_nonneg h.spotFees fill.fee_nonneg, h.perpetualFees, fun hflat => absurd hflat hquantity.ne',
    h.perpetualFlat⟩
  · have hcost := h.cost
    unfold realizedPnl at hcost ⊢
    show p.cash - (fill.notional + fill.fee)
        + (p.spot.averagePrice * p.spot.quantity + fill.notional)
          / (p.spot.quantity + fill.quantity) * (p.spot.quantity + fill.quantity)
      = initialCash + (p.spot.realizedPnl - fill.fee + p.perpetual.realizedPnl)
    rw [div_mul_cancel₀ _ hquantity.ne']
    linarith
  · exact div_nonneg (add_nonneg hprior fill.notional_pos.le) hquantity.le

theorem Sound.spotSold (hheld : fill.quantity ≤ p.spot.quantity) :
    (p.spotSold fill).Sound initialCash := by
  refine ⟨?_, sub_nonneg.mpr hheld, h.perpetualQuantity, ?_, h.perpetualAverage,
    add_nonneg h.spotFees fill.fee_nonneg, h.perpetualFees, fun hflat => if_pos hflat,
    h.perpetualFlat⟩
  · have hcost := h.cost
    unfold realizedPnl at hcost ⊢
    show p.cash + (fill.notional - fill.fee)
        + (if p.spot.quantity - fill.quantity = 0 then 0 else p.spot.averagePrice)
          * (p.spot.quantity - fill.quantity)
      = initialCash + (p.spot.realizedPnl
        + ((fill.price - p.spot.averagePrice) * fill.quantity - fill.fee) + p.perpetual.realizedPnl)
    unfold Fill.notional
    split_ifs with hflat
    · have hquantity : fill.quantity = p.spot.quantity := (sub_eq_zero.mp hflat).symm
      rw [hquantity]
      linarith
    · linarith
  · show 0 ≤ if p.spot.quantity - fill.quantity = 0 then 0 else p.spot.averagePrice
    split_ifs
    · exact le_rfl
    · exact h.spotAverage

theorem Sound.perpetualSold (fill : Fill ω ι) :
    (p.perpetualSold fill).Sound initialCash := by
  have hquantity : 0 < |p.perpetual.quantity| + fill.quantity :=
    add_pos_of_nonneg_of_pos (abs_nonneg _) fill.quantity_pos
  have hprior : 0 ≤ p.perpetual.averagePrice * |p.perpetual.quantity| :=
    mul_nonneg h.perpetualAverage (abs_nonneg _)
  refine ⟨?_, h.spotQuantity, neg_nonpos.mpr hquantity.le, h.spotAverage, ?_, h.spotFees,
    add_nonneg h.perpetualFees fill.fee_nonneg, h.spotFlat,
    fun hflat => absurd (neg_eq_zero.mp hflat) hquantity.ne'⟩
  · have hcost := h.cost
    unfold realizedPnl at hcost ⊢
    show p.cash - fill.fee + p.spot.averagePrice * p.spot.quantity
      = initialCash + (p.spot.realizedPnl + (p.perpetual.realizedPnl - fill.fee))
    linarith
  · exact div_nonneg (add_nonneg hprior fill.notional_pos.le) hquantity.le

/-- A perpetual that is bought back keeps the cost, and does not become long. -/
theorem Sound.perpetualBought (hopen : fill.quantity ≤ |p.perpetual.quantity|) :
    (p.perpetualBought fill).Sound initialCash := by
  rw [abs_of_nonpos h.perpetualQuantity] at hopen
  refine ⟨?_, h.spotQuantity, ?_, h.spotAverage, ?_, h.spotFees,
    add_nonneg h.perpetualFees fill.fee_nonneg, h.spotFlat, fun hflat => if_pos hflat⟩
  · have hcost := h.cost
    unfold realizedPnl at hcost ⊢
    show p.cash + p.closeGross fill - fill.fee + p.spot.averagePrice * p.spot.quantity
      = initialCash + (p.spot.realizedPnl
        + (p.perpetual.realizedPnl + (p.closeGross fill - fill.fee)))
    linarith
  · show p.perpetual.quantity + fill.quantity ≤ 0
    linarith
  · show 0 ≤ if p.perpetual.quantity + fill.quantity = 0 then 0 else p.perpetual.averagePrice
    split_ifs
    · exact le_rfl
    · exact h.perpetualAverage

/-- **An accepted fill keeps the portfolio sound.** -/
theorem Sound.filled (haccepts : p.Accepts fill) :
    (p.filled fill).Sound initialCash := by
  obtain ⟨_, _, hchecks⟩ := haccepts
  unfold Portfolio.filled
  cases hk : fill.instrument <;> cases hs : fill.side <;> rw [hk, hs] at hchecks <;> dsimp only
  · exact h.spotBought fill
  · exact h.spotSold hchecks
  · exact h.perpetualBought hchecks.2.1
  · exact h.perpetualSold fill

end

/-- **An accepted fill leaves some cash**, but for a sale of spot whose fee is
more than the cash and the proceeds. -/
theorem filled_cash_nonneg_iff (haccepts : p.Accepts fill) : 0 ≤ (p.filled fill).cash ↔
      ¬ (fill.instrument = .spot ∧ fill.side = .sell ∧ p.cash + fill.notional < fill.fee) := by
  obtain ⟨_, _, hchecks⟩ := haccepts
  unfold Portfolio.filled
  cases hk : fill.instrument <;> cases hs : fill.side <;> rw [hk, hs] at hchecks <;> dsimp only
  · refine iff_of_true (sub_nonneg.mpr hchecks) (fun h => ?_)
    cases h.2.1
  · show 0 ≤ p.cash + (fill.notional - fill.fee) ↔ _
    rw [← add_sub_assoc, sub_nonneg, ← not_lt]
    simp
  · refine iff_of_true hchecks.2.2 (fun h => ?_)
    cases h.1
  · refine iff_of_true (sub_nonneg.mpr hchecks) (fun h => ?_)
    cases h.1

theorem Sound.seen (h : p.Sound initialCash) (timestamp : ℤ) :
    (p.seen timestamp).Sound initialCash :=
  h.congr rfl rfl rfl

theorem Sound.booked [DecidableEq ι] (h : p.Sound initialCash) (fill : Fill ω ι) :
    (p.booked fill).Sound initialCash :=
  h.congr (cash_booked p fill) (spot_booked p fill) (perpetual_booked p fill)

theorem checkPosition_of {position : Position} (p : Portfolio ι)
    (hquantity : position.instrument = .spot → 0 ≤ position.quantity)
    (haverage : 0 ≤ position.averagePrice) (hfees : 0 ≤ position.feesPaid) :
    checkPosition position p = .ok () p := by
  unfold checkPosition
  rw [if_neg (fun hneg => absurd hneg.2 (not_lt.mpr (hquantity hneg.1))),
    if_neg (not_lt.mpr haverage), if_neg (not_lt.mpr hfees)]
  rfl

/-- **A sound portfolio is valued**, unless its cash is negative. -/
theorem Sound.snapshot_eq (h : p.Sound initialCash) (timestamp : ℤ) :
    snapshot timestamp p = if p.cash < 0 then .error (.validationError "cash cannot be negative") p
      else .ok (p.snapshotAt timestamp) p := by
  have hspot : checkPosition (positionModel .spot p.spot) p = .ok () p :=
    checkPosition_of p (fun _ => h.spotQuantity) h.spotAverage h.spotFees
  have hperpetual : checkPosition (positionModel .perpetual p.perpetual) p = .ok () p :=
    checkPosition_of p (fun hk => by cases hk) h.perpetualAverage h.perpetualFees
  refine (bind_of_ok hspot).trans ((bind_of_ok hperpetual).trans ?_)
  show (if p.cash < 0 then _ else _ : Accounting ι PortfolioSnapshot) p = _
  split_ifs <;> rfl

/-! ## Marks -/

/-- The price that an item of the mapping sets, if it is a valid one. -/
def markOf (item : String × Option ℚ) : Option (InstrumentKind × ℚ) := do
  let instrument ← InstrumentKind.ofString? item.1
  let value ← item.2
  if 0 < value then return (instrument, value) else none

/-- The marks that the items set until one is not valid. -/
def marked (p : Portfolio ι) : List (String × Option ℚ) → Portfolio ι
  | [] => p
  | item :: items =>
    match markOf item with
    | none => p
    | some (instrument, value) => marked (p.withMark instrument value) items

variable {item : String × Option ℚ}

theorem setItem_of_some {instrument : InstrumentKind} {value : ℚ}
    (h : markOf item = some (instrument, value)) (p : Portfolio ι) :
    setItem item p = .ok () (p.withMark instrument value) := by
  obtain ⟨k, hk, h⟩ := bind_eq_some_iff.mp h
  obtain ⟨v, hv, h⟩ := bind_eq_some_iff.mp h
  split_ifs at h with hpos
  cases h
  unfold setItem
  rw [hk, hv]
  show (if value ≤ 0 then _ else _ : Accounting ι Unit) p = _
  rw [if_neg (not_le.mpr hpos)]
  rfl

theorem setItem_of_none (h : markOf item = none) (p : Portfolio ι) :
    ∃ e, setItem item p = .error e p := by
  unfold setItem
  unfold markOf at h
  cases hk : InstrumentKind.ofString? item.1 with
  | none => exact ⟨_, rfl⟩
  | some k =>
    rw [hk] at h
    cases hv : item.2 with
    | none => exact ⟨_, rfl⟩
    | some v =>
      rw [hv] at h
      have hpos : ¬ 0 < v := fun hpos => by
        change (if 0 < v then _ else _) = none at h
        rw [if_pos hpos] at h
        cases h
      show ∃ e, (if v ≤ 0 then _ else _ : Accounting ι Unit) p = _
      rw [if_pos (not_lt.mp hpos)]
      exact ⟨_, rfl⟩

variable {items : List (String × Option ℚ)}

theorem forM_setItem_of_valid (h : ∀ item ∈ items, (markOf item).isSome) (p : Portfolio ι) :
    items.forM setItem p = .ok () (p.marked items) := by
  induction items generalizing p with
  | nil => rfl
  | cons item items ih =>
    obtain ⟨⟨instrument, value⟩, hitem⟩ := isSome_iff_exists.mp (h item List.mem_cons_self)
    unfold marked
    rw [hitem]
    exact (bind_of_ok (setItem_of_some hitem p)).trans
      (ih (fun i hi => h i (List.mem_cons_of_mem _ hi)) _)

/-- The loop raises at the first item that is not valid, and keeps what it set
before. -/
theorem forM_setItem_of_invalid (h : ¬ ∀ item ∈ items, (markOf item).isSome) (p : Portfolio ι) :
    ∃ e, items.forM setItem p = .error e (p.marked items) := by
  induction items generalizing p with
  | nil => exact absurd (fun _ hi => by cases hi) h
  | cons item items ih =>
    unfold marked
    cases hitem : markOf item with
    | none =>
      obtain ⟨e, he⟩ := setItem_of_none hitem p
      exact ⟨e, bind_of_error he⟩
    | some m =>
      have hrest : ¬ ∀ i ∈ items, (markOf i).isSome := fun hrest => h (fun i hi => by
        rcases List.mem_cons.mp hi with rfl | hi
        · rw [hitem]
          rfl
        · exact hrest i hi)
      obtain ⟨e, he⟩ := ih hrest (p.withMark m.1 m.2)
      exact ⟨e, (bind_of_ok (setItem_of_some hitem p)).trans he⟩

theorem marked_unchanged (items : List (String × Option ℚ)) (p : Portfolio ι) :
    (p.marked items).cash = p.cash ∧ (p.marked items).spot = p.spot
      ∧ (p.marked items).perpetual = p.perpetual := by
  induction items generalizing p with
  | nil => exact ⟨rfl, rfl, rfl⟩
  | cons item items ih =>
    unfold marked
    cases markOf item with
    | none => exact ⟨rfl, rfl, rfl⟩
    | some m =>
      obtain ⟨hcash, hspot, hperpetual⟩ := ih (p.withMark m.1 m.2)
      exact ⟨hcash.trans (cash_withMark p _ _), hspot.trans (spot_withMark p _ _),
        hperpetual.trans (perpetual_withMark p _ _)⟩

theorem setMarks_eq (marks : Marks) (p : Portfolio ι) :
    setMarks marks p = marks.items.forM setItem p := by
  cases marks with
  | mapping items => rfl
  | price value =>
    show setMark .spot value p = (setItem ("spot", value) >>= fun _ => pure ()) p
    exact (congrFun (bind_pure (setMark .spot value)).symm p)

/-! ## One operation -/

variable [DecidableEq ι] [ToString ι]

/-- **What an operation must not be**: a sale of spot that is accepted although
its fee is more than the cash and the proceeds; or marks of which one is not
valid, after others that change something. -/
def Fits (p : Portfolio ι) : Operation ω ι → Prop
  | .fill f => ¬ (p.Accepts f ∧ f.instrument = .spot ∧ f.side = .sell ∧ p.cash + f.notional < f.fee)
  | .funding _ => True
  | .mark timestamp marks => timestamp.aware = true → p.Chronological timestamp.instant →
      (∀ item ∈ marks.items, (markOf item).isSome) ∨ p.marked marks.items = p

instance (p : Portfolio ι) : (op : Operation ω ι) → Decidable (p.Fits op)
  | .fill _ => inferInstanceAs (Decidable (¬ _))
  | .funding _ => inferInstanceAs (Decidable True)
  | .mark _ _ => inferInstanceAs (Decidable (_ → _))

/-- **What an operation keeps**: cash that is not negative, and the whole
portfolio if it raises. -/
def Keeps (p : Portfolio ι) (op : Operation ω ι) : Prop :=
  0 ≤ (p.step op).cash ∧ ∀ e q, op.apply.run p = .error e q → q = p

variable (op : Operation ω ι) {e : AccountingError}

theorem keeps_of_error (hcash : 0 ≤ p.cash) (h : op.apply.run p = .error e p) : p.Keeps op := by
  constructor
  · unfold step
    rw [h]
    exact hcash
  · intro e' q hq
    cases h.symm.trans hq
    rfl

/-- **An operation that ends with a snapshot** keeps everything exactly when it
leaves cash that is not negative. -/
theorem keeps_iff_of_snapshot (hsound : q.Sound initialCash)
    (h : op.apply.run p = snapshot timestamp q) : p.Keeps op ↔ 0 ≤ q.cash := by
  unfold Keeps step
  rw [h, hsound.snapshot_eq]
  constructor
  · rintro ⟨hleft, _⟩
    split_ifs at hleft <;> exact hleft
  · intro hq
    rw [if_neg (not_lt.mpr hq)]
    exact ⟨hq, fun e q he => by cases he⟩

/-- The portfolio after an operation that ends with a snapshot. -/
theorem sound_step_of_snapshot (hsound : q.Sound initialCash)
    (h : op.apply.run p = snapshot timestamp q) : (p.step op).Sound initialCash := by
  unfold step
  rw [h, hsound.snapshot_eq]
  split_ifs <;> exact hsound

/-- The portfolio after an operation that raises at once. -/
theorem step_of_error (h : op.apply.run p = .error e q) : p.step op = q := by
  unfold step
  rw [h]
  rfl

/-- A funding payment raises and changes nothing, or is booked. -/
theorem applyFunding_cases (p : Portfolio ι) (event : FundingEvent ι) :
    (∃ e, applyFunding event p = .error e p) ∨ (0 ≤ p.cash + event.amount ∧ p.perpetual.quantity ≠ 0
      ∧ applyFunding event p = snapshot event.timestamp (p.paid event)) := by
  have hrun : applyFunding event p = (if event.id ∈ p.fundingIds
    then throw (.executionError s!"duplicate funding id: {event.id}")
    else do
      requireChronological event.timestamp
      if p.perpetual.quantity = 0 then
        throw (.executionError "cannot apply perpetual funding without a position")
      else if p.cash + event.amount < 0 then
        throw (.executionError "funding payment exceeds available cash")
      else do
        set (p.funded event)
        modify fun p => { p with fundingIds := insert event.id p.fundingIds }
        modify fun p => p.seen event.timestamp
        snapshot event.timestamp : Accounting ι PortfolioSnapshot) p := rfl
  rw [hrun]
  by_cases hnew : event.id ∈ p.fundingIds
  · rw [if_pos hnew]
    exact .inl ⟨_, rfl⟩
  rw [if_neg hnew]
  by_cases htime : p.Chronological event.timestamp
  · rw [bind_of_ok (requireChronological_of htime)]
    by_cases hflat : p.perpetual.quantity = 0
    · rw [if_pos hflat]
      exact .inl ⟨_, rfl⟩
    rw [if_neg hflat]
    by_cases hcash : p.cash + event.amount < 0
    · rw [if_pos hcash]
      exact .inl ⟨_, rfl⟩
    · rw [if_neg hcash]
      exact .inr ⟨not_lt.mp hcash, hflat, rfl⟩
  · obtain ⟨e, he⟩ := requireChronological_of_not htime
    exact .inl ⟨e, bind_of_error he⟩

omit [ToString ι] in
theorem Sound.paid (h : p.Sound initialCash) (event : FundingEvent ι) :
    (p.paid event).Sound initialCash := by
  refine { h with cost := ?_ }
  have hcost := h.cost
  unfold realizedPnl at hcost ⊢
  show p.cash + event.amount + p.spot.averagePrice * p.spot.quantity
    = initialCash + (p.spot.realizedPnl + (p.perpetual.realizedPnl + event.amount))
  linarith

omit [DecidableEq ι] [ToString ι] in
/-- **What `mark` does**: it raises and changes nothing; or all marks are valid and
set; or it raises at one that is not, and keeps those before it. -/
theorem mark_cases (p : Portfolio ι) (timestamp : DateTime) (marks : Marks) :
    (¬ (timestamp.aware = true ∧ p.Chronological timestamp.instant)
      ∧ ∃ e, Backtest.mark timestamp marks p = .error e p)
    ∨ (timestamp.aware = true ∧ p.Chronological timestamp.instant ∧
      (((∀ item ∈ marks.items, (markOf item).isSome) ∧ Backtest.mark timestamp marks p
        = snapshot timestamp.instant ((p.marked marks.items).seen timestamp.instant))
      ∨ ((¬ ∀ item ∈ marks.items, (markOf item).isSome)
        ∧ ∃ e, Backtest.mark timestamp marks p = .error e (p.marked marks.items)))) := by
  unfold Backtest.mark
  by_cases haware : timestamp.aware = false
  · rw [if_pos haware]
    exact .inl ⟨fun h => Bool.false_ne_true (haware.symm.trans h.1), _, rfl⟩
  rw [if_neg haware]
  rw [Bool.not_eq_false] at haware
  by_cases htime : p.Chronological timestamp.instant
  · refine .inr ⟨haware, htime, ?_⟩
    rw [bind_of_ok (requireChronological_of htime)]
    by_cases hvalid : ∀ item ∈ marks.items, (markOf item).isSome
    · refine .inl ⟨hvalid, ?_⟩
      exact bind_of_ok ((setMarks_eq marks p).trans (forM_setItem_of_valid hvalid p))
    · refine .inr ⟨hvalid, ?_⟩
      obtain ⟨e, he⟩ := forM_setItem_of_invalid hvalid p
      exact ⟨e, bind_of_error ((setMarks_eq marks p).trans he)⟩
  · obtain ⟨e, he⟩ := requireChronological_of_not htime
    exact .inl ⟨fun h => htime h.2, e, bind_of_error he⟩

/-- **An operation keeps the portfolio sound**, whether it returns or raises. -/
theorem Sound.step (h : p.Sound initialCash) (op : Operation ω ι) :
    (p.step op).Sound initialCash := by
  cases op with
  | fill f =>
    by_cases haccepts : p.Accepts f
    · exact sound_step_of_snapshot (.fill f) ((h.filled haccepts).booked f)
        (applyFill_of_accepts haccepts)
    · obtain ⟨e, he⟩ := applyFill_of_not_accepts haccepts
      rw [step_of_error (.fill f) he]
      exact h
  | funding event =>
    rcases applyFunding_cases p event with ⟨e, he⟩ | ⟨_, _, he⟩
    · rw [step_of_error (.funding event) he]
      exact h
    · exact sound_step_of_snapshot (.funding event) (h.paid event) he
  | mark timestamp marks =>
    obtain ⟨hcash, hspot, hperpetual⟩ := marked_unchanged marks.items p
    have hmarked : (p.marked marks.items).Sound initialCash := h.congr hcash hspot hperpetual
    rcases mark_cases p timestamp marks with ⟨_, e, he⟩ | ⟨_, _, ⟨_, he⟩ | ⟨_, e, he⟩⟩
    · rw [step_of_error (.mark timestamp marks) he]
      exact h
    · exact sound_step_of_snapshot (.mark timestamp marks) (hmarked.seen _) he
    · rw [step_of_error (.mark timestamp marks) he]
      exact hmarked

/-- **When an operation keeps what it should.** -/
theorem Sound.keeps_iff (h : p.Sound initialCash) (hcash : 0 ≤ p.cash) (op : Operation ω ι) :
    p.Keeps op ↔ p.Fits op := by
  cases op with
  | fill f =>
    by_cases haccepts : p.Accepts f
    · refine (keeps_iff_of_snapshot (.fill f) ((h.filled haccepts).booked f)
        (applyFill_of_accepts haccepts)).trans ?_
      rw [cash_booked, filled_cash_nonneg_iff haccepts]
      exact ⟨fun hf hfits => hf hfits.2, fun hf hfits => hf ⟨haccepts, hfits⟩⟩
    · obtain ⟨e, he⟩ := applyFill_of_not_accepts haccepts
      exact iff_of_true (keeps_of_error (.fill f) hcash he) (fun hfits => haccepts hfits.1)
  | funding event =>
    refine iff_of_true ?_ trivial
    rcases applyFunding_cases p event with ⟨e, he⟩ | ⟨hleft, _, he⟩
    · exact keeps_of_error (.funding event) hcash he
    · exact (keeps_iff_of_snapshot (.funding event) (h.paid event) he).mpr hleft
  | mark timestamp marks =>
    obtain ⟨hsame, hspot, hperpetual⟩ := marked_unchanged marks.items p
    have hmarked : (p.marked marks.items).Sound initialCash := h.congr hsame hspot hperpetual
    rcases mark_cases p timestamp marks with
      ⟨hnot, e, he⟩ | ⟨haware, htime, ⟨hvalid, he⟩ | ⟨hinvalid, e, he⟩⟩
    · exact iff_of_true (keeps_of_error (.mark timestamp marks) hcash he)
        (fun haware htime => absurd ⟨haware, htime⟩ hnot)
    · refine iff_of_true ?_ (fun _ _ => .inl hvalid)
      exact (keeps_iff_of_snapshot (.mark timestamp marks) (hmarked.seen _) he).mpr
        (hsame.symm ▸ hcash)
    · constructor
      · exact fun hkeeps _ _ => .inr (hkeeps.2 e _ he)
      · intro hfits
        have hsame := (hfits haware htime).resolve_left hinvalid
        exact keeps_of_error (.mark timestamp marks) hcash (he.trans (congrArg _ hsame))

/-! ## Runs -/

theorem sound_run {p₀ : Portfolio ι} (start : create (some initialCash) = .ok p₀)
    (ops : List (Operation ω ι)) : (Machine.run step p₀ ops).Sound initialCash :=
  Machine.inv_run (Sound initialCash) (fun _ op h => h.step op) (sound_create start).1 ops

/-- **Backtest accounting.** In every run of operations that fit, the portfolio is
sound, its equity is the initial cash and the profit, and its cash is not
negative; and then an operation leaves it without negative cash, and unchanged
if it raises, exactly if it fits. -/
theorem accounting {initialCash : ℚ} {p₀ : Portfolio ι} (start : create (some initialCash) = .ok p₀)
    (ops : List (Operation ω ι)) (fits : Machine.Meets step Fits p₀ ops) :
    (Machine.run step p₀ ops).Sound initialCash
    ∧ (Machine.run step p₀ ops).equity = initialCash + (Machine.run step p₀ ops).realizedPnl
      + (Machine.run step p₀ ops).unrealizedPnl
    ∧ 0 ≤ (Machine.run step p₀ ops).cash
    ∧ ∀ op : Operation ω ι,
      (Machine.run step p₀ ops).Keeps op ↔ (Machine.run step p₀ ops).Fits op := by
  have hsound := sound_run start ops
  have hcash : (Machine.run step p₀ ops).Sound initialCash
      ∧ 0 ≤ (Machine.run step p₀ ops).cash := by
    refine Machine.inv_run_of_meets (fun p => p.Sound initialCash ∧ 0 ≤ p.cash)
      (fun p op h hfits => ?_) (sound_create start) fits
    exact ⟨h.1.step op, ((h.1.keeps_iff h.2 op).mpr hfits).1⟩
  exact ⟨hsound, hsound.equity_eq, hcash.2, hsound.keeps_iff hcash.2⟩

end Portfolio

/-! ## Some operations -/

namespace Sample

def unitFill (id : String) (timestamp : ℤ) (instrument : InstrumentKind) (side : OrderSide)
    (fee : ℕ) : Fill String String where
  id := id
  orderId := "order"
  orderCreatedAt := timestamp
  timestamp := timestamp
  instrument := instrument
  side := side
  quantity := 1
  price := 90
  fee := fee
  reason := "market"
  quantity_pos := one_pos
  price_pos := by norm_num
  fee_nonneg := Nat.cast_nonneg _
  created_le := le_rfl

/-- A portfolio with nothing but cash. -/
def cashOnly (cash : ℚ) : Portfolio String := ⟨cash, .untraded, .untraded, ∅, ∅, none, none, none⟩

/-- A day of trading. -/
def day : List (Operation String String) :=
  [.fill (unitFill "fill-1" 1 .spot .buy 1), .fill (unitFill "fill-2" 1 .perpetual .sell 1),
    .mark ⟨2, true⟩ (.mapping [("spot", some 110), ("perpetual", some 80)]),
    .funding ⟨"funding-1", 3, 2, 1 / 50⟩, .fill (unitFill "fill-3" 4 .spot .sell 1),
    .fill (unitFill "fill-4" 4 .perpetual .buy 1)]

/-- What is left of 300 after a purchase with a fee of more than twice its notional. -/
def overcharged : Portfolio String :=
  Machine.run Portfolio.step (cashOnly 300) [.fill (unitFill "fill-1" 1 .spot .buy 200)]

/-- The sale of what was bought, at the same fee. -/
def overcharge : Fill String String := unitFill "fill-2" 2 .spot .sell 200

end Sample

/-- The theorem on a day of trading, after which everything is sold. -/
theorem accounting_day : 0 ≤ (Machine.run Portfolio.step (Sample.cashOnly 10000) Sample.day).cash
    ∧ (Machine.run Portfolio.step (Sample.cashOnly 10000) Sample.day).equity = 9998 := by
  have start : Portfolio.create (some 10000) = .ok (Sample.cashOnly 10000) := rfl
  have h := Portfolio.accounting start Sample.day (by decide +kernel)
  exact ⟨h.2.2.1, by decide +kernel⟩

/-- With a fee of twice the proceeds, a sale makes the cash negative, and raises
only after that. -/
theorem sale_overdraws : ¬ 0 ≤ (Sample.overcharged.step (.fill Sample.overcharge)).cash
    ∧ ¬ ∀ e q, (Operation.fill Sample.overcharge).apply.run Sample.overcharged = .error e q →
      q = Sample.overcharged := by
  refine ⟨by decide +kernel, fun h => ?_⟩
  have start : Portfolio.create (some 300) = .ok (Sample.cashOnly 300) := rfl
  have hsound : Sample.overcharged.Sound 300 := Portfolio.sound_run start _
  have haccepts : Sample.overcharged.Accepts Sample.overcharge := by decide +kernel
  have hraises := (Portfolio.applyFill_of_accepts haccepts).trans
    (((hsound.filled haccepts).booked Sample.overcharge).snapshot_eq _)
  rw [if_pos (by decide +kernel)] at hraises
  exact absurd (h _ _ hraises) (by decide +kernel)

end Qt.Backtest
