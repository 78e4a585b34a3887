import Mathlib.Tactic.FieldSimp
import Mathlib.Tactic.Linarith
import Mathlib.Tactic.Positivity
import QuantTrading.NativeFills

/-!
# The native router of Freqtrade orders

`FreqtradeNativeIntentRouter` of `qt.nautilus.adapter` and `FreqtradeResearchPort` of
`qt.strategy_ports.freqtrade`: orders of a decision go to the venue, every fill of an
entry or an exit is applied to the state of the trade, and a stop of the trade is kept at
the venue, which is replaced by a cancellation and a new order.

What the venue does with the stop reaches the trade in one way only: when a stop is
accepted, its price becomes the active stop. A stop that is filled is handed to the port
like any other order, and `on_fill` raises for it, so that the trade goes on as if
nothing had been sold. An acceptance raises too, if the trade has been closed meanwhile,
or if a later entry fill has moved the active stop past the price of the stop.

As in the router of source intents the methods are cut where they call the venue, and
venue events can come in between.
-/

namespace Qt.Nautilus.Freqtrade

open Venue Except List

/-! ## Orders and trades -/

inductive OrderAction | enterLong | exitLong | replaceStop
deriving DecidableEq, Repr

def OrderAction.name : OrderAction → String
  | enterLong => "enter_long"
  | exitLong => "exit_long"
  | replaceStop => "replace_stop"

structure FreqtradeOrder where
  action : OrderAction
  quantity : ℚ
  price : Option ℚ
  reason : String
  stopDistance : Option ℚ
  orderId : String

/-- `FreqtradeTradeState`; an order without fills has filled zero. -/
structure TradeState where
  entryPrice : ℚ
  stakeAmount : ℚ
  initialStop : ℚ
  activeStop : ℚ
  remainingQuantity : ℚ
  openedAt : ℕ
  totalFees : ℚ
  filledQuantities : String → ℚ

namespace TradeState

def IsClosed (t : TradeState) : Prop := t.remainingQuantity = 0
deriving Decidable

def postInit (t : TradeState) : Except Exc TradeState := do
  raiseIf (t.entryPrice ≤ 0) (.valueError "trade entry_price must be finite and positive")
  raiseIf (¬ (0 ≤ t.stakeAmount ∧ 0 ≤ t.remainingQuantity))
    (.valueError "trade stake_amount and remaining_quantity must be finite and non-negative")
  raiseIf (¬ (t.remainingQuantity = 0 ↔ t.stakeAmount = 0))
    (.valueError "flat trades must have zero stake_amount and quantity")
  raiseIf (¬ (0 < t.initialStop ∧ t.initialStop < t.entryPrice))
    (.valueError "initial_stop must be finite and between zero and entry_price")
  raiseIf (t.activeStop ≤ 0) (.valueError "active_stop must be finite and positive")
  raiseIf (t.totalFees < 0) (.valueError "total_fees must be finite and non-negative")
  .ok t

/-- What a trade that was built satisfies. -/
structure WellFormed (t : TradeState) : Prop where
  entryPrice : 0 < t.entryPrice
  stakeAmount : 0 ≤ t.stakeAmount
  remainingQuantity : 0 ≤ t.remainingQuantity
  flat : t.remainingQuantity = 0 ↔ t.stakeAmount = 0
  initialStop : 0 < t.initialStop ∧ t.initialStop < t.entryPrice
  activeStop : 0 < t.activeStop
  totalFees : 0 ≤ t.totalFees

/-- **The checks of a trade** are its being well formed. -/
theorem postInit_eq_ok_iff {t t' : TradeState} : t.postInit = .ok t' ↔ t' = t ∧ t.WellFormed := by
  unfold postInit
  simp only [raiseIf_bind_eq_ok, not_le, not_lt, not_not]
  constructor
  · rintro ⟨h₁, ⟨h₂, h₃⟩, h₄, h₅, h₆, h₇, h⟩
    exact ⟨(ok.inj h).symm, h₁, h₂, h₃, h₄, h₅, h₆, h₇⟩
  · rintro ⟨rfl, h⟩
    exact ⟨h.entryPrice, ⟨h.stakeAmount, h.remainingQuantity⟩, h.flat, h.initialStop, h.activeStop,
      h.totalFees, rfl⟩

end TradeState

/-- `EquityPoint`: when a trade was closed, and the equity after it. -/
structure EquityPoint where
  closedAt : ℕ
  equityAfter : ℚ

/-- `FreqtradeProtectionState`, with what its `__post_init__` checks. -/
structure ProtectionState where
  cooldownUntil : Option ℕ
  drawdownUntil : Option ℕ
  equityPoints : List EquityPoint
  ordered : equityPoints.Pairwise (fun p q => p.closedAt ≤ q.closedAt)

/-- What router and port are built with. The times of the port are those that
`fromTimestamp` makes of nanoseconds. -/
structure Setup extends Nautilus.Setup where
  fingerprint : String
  hardStoploss : ℚ
  cooldown : ℕ
  lookback : ℕ
  tradeLimit : ℕ
  stopDuration : ℕ
  maxAllowedDrawdown : ℚ
  fromTimestamp : ℕ → ℕ

/-! ## The port -/

/-- The tolerance of quantities, `1e-12`. -/
def tolerance : ℚ := 1 / 1000000000000

def remainingOf : Option TradeState → ℚ
  | none => 0
  | some t => t.remainingQuantity

def stakeOf : Option TradeState → ℚ
  | none => 0
  | some t => t.stakeAmount

/-- What the order has filled before. -/
def priorFill (orderId : String) : Option TradeState → ℚ
  | none => 0
  | some t => t.filledQuantities orderId

/-- The fills of a trade after one more. -/
def addFill (orderId : String) (qty : ℚ) (trade : Option TradeState) : String → ℚ :=
  Function.update (fun id => priorFill id trade) orderId (priorFill orderId trade + qty)

variable (cfg : Setup) (order : FreqtradeOrder)

def applyEntryFill (price qty : ℚ) (filledAt : ℕ) (fees : ℚ) (trade : Option TradeState) :
    Except Exc TradeState :=
  match order.stopDistance with
  | none => .error (.valueError "entry order requires a source-calculated ATR stop distance")
  | some stopDistance => do
    raiseIf (∃ t ∈ trade, filledAt < t.openedAt)
      (.valueError "entry fill timestamp precedes the existing position")
    let quantity := remainingOf trade + qty
    let notional := stakeOf trade + price * qty
    let entryPrice := notional / quantity
    raiseIf (entryPrice - stopDistance ≤ 0 ∨ entryPrice ≤ entryPrice - stopDistance)
      (.valueError "entry fill cannot produce a valid source ATR stop")
    TradeState.postInit
      { entryPrice := entryPrice
        stakeAmount := notional
        initialStop := entryPrice - stopDistance
        activeStop := max (max (entryPrice - stopDistance) (entryPrice * (1 + cfg.hardStoploss)))
          ((trade.map TradeState.activeStop).getD 0)
        remainingQuantity := quantity
        openedAt := (trade.map TradeState.openedAt).getD filledAt
        totalFees := fees + (trade.map TradeState.totalFees).getD 0
        filledQuantities := addFill order.orderId qty trade }

def applyExitFill (qty fees : ℚ) (trade : Option TradeState) : Except Exc TradeState :=
  match trade with
  | none => .error (.valueError "exit fill requires an open position")
  | some t => do
    let remaining := t.remainingQuantity - qty
    raiseIf (remaining < -tolerance)
      (.valueError "exit fill exceeds the remaining position quantity")
    TradeState.postInit
      { t with
        stakeAmount := if remaining ≤ tolerance then 0 else t.entryPrice * remaining
        remainingQuantity := if remaining ≤ tolerance then 0 else remaining
        totalFees := t.totalFees + fees
        filledQuantities := addFill order.orderId qty (some t) }

/-- **`on_fill`**, for the order that the fill is reported of. -/
def onFill (price qty : ℚ) (filledAt : ℕ) (fees : ℚ) (trade : Option TradeState) :
    Except Exc TradeState := do
  raiseIf (order.orderId = "")
    (.valueError "fill order_id does not match the submitted native order")
  raiseIf (price ≤ 0) (.valueError "fill_price must be finite and positive")
  raiseIf (qty ≤ 0) (.valueError "fill_quantity must be finite and positive")
  raiseIf (fees < 0) (.valueError "fees must be finite and non-negative")
  raiseIf (order.quantity + tolerance < priorFill order.orderId trade + qty)
    (.valueError "fills exceed submitted order quantity")
  match order.action with
  | .enterLong => applyEntryFill cfg order price qty filledAt fees trade
  | .exitLong => applyExitFill order qty fees trade
  | .replaceStop => .error (.valueError
      "replace_stop is acknowledged through on_stop_accepted, not a fill")

def onStopAccepted (t : TradeState) (order : FreqtradeOrder) : Except Exc TradeState :=
  match order.action, order.price with
  | .replaceStop, some price => do
    raiseIf t.IsClosed (.valueError "cannot replace a stop for a closed position")
    raiseIf (price < t.activeStop) (.valueError "native stop must not loosen an accepted stop")
    TradeState.postInit { t with activeStop := price }
  | _, _ => .error (.valueError "only a priced replace_stop order can update an active stop")

def orderId (timestamp : ℕ) (action : OrderAction) (ordinal : ℕ) : String :=
  cfg.fingerprint ++ ":" ++ cfg.isoformat timestamp ++ ":" ++ action.name ++ ":" ++ toString ordinal

def initialStopOrder (t : TradeState) (submittedAt : ℕ) : Except Exc FreqtradeOrder :=
  if t.IsClosed then .error (.valueError "cannot create a stop for a closed position")
  else .ok ⟨.replaceStop, t.remainingQuantity, some t.activeStop, "initial_stoploss", none,
    orderId cfg submittedAt .replaceStop 0⟩

/-- The points of the lookback period stay in order with one more at the end. -/
theorem pairwise_concat_filter {points : List EquityPoint} {p : EquityPoint}
    {keep : EquityPoint → Bool} (hpoints : points.Pairwise fun p q => p.closedAt ≤ q.closedAt)
    (hlast : ∀ q ∈ points.getLast?, q.closedAt ≤ p.closedAt) :
    (points.filter keep ++ [p]).Pairwise fun p q => p.closedAt ≤ q.closedAt := by
  refine pairwise_append.mpr ⟨hpoints.filter keep, pairwise_singleton _ _, ?_⟩
  intro q hq r hr
  rw [mem_singleton.mp hr]
  have hq := mem_of_mem_filter hq
  cases hl : points.getLast? with
  | none => exact absurd (getLast?_eq_none_iff.mp hl ▸ hq) (by simp)
  | some l =>
    refine le_trans ?_ (hlast l hl)
    obtain ⟨init, rfl⟩ := getLast?_eq_some_iff.mp hl
    rcases mem_append.mp hq with hq | hq
    · exact (pairwise_append.mp hpoints).2.2 q hq l (mem_singleton_self l)
    · rw [mem_singleton.mp hq]

def onTradeClosed (state : ProtectionState) (closedAt : ℕ) (equityAfter : ℚ) :
    Except Exc ProtectionState :=
  if equityAfter ≤ 0 then .error (.valueError "equity_after must be finite and positive")
  else if h : ∀ p ∈ state.equityPoints.getLast?, p.closedAt ≤ closedAt then
    let points := state.equityPoints.filter (fun p => closedAt ≤ p.closedAt + cfg.lookback) ++
      [⟨closedAt, equityAfter⟩]
    let peak := points.foldl (fun m p => max m p.equityAfter) equityAfter
    .ok
      { cooldownUntil := some (closedAt + cfg.cooldown)
        drawdownUntil :=
          if cfg.tradeLimit ≤ points.length ∧ cfg.maxAllowedDrawdown ≤ (peak - equityAfter) / peak
          then some (closedAt + cfg.stopDuration) else state.drawdownUntil
        equityPoints := points
        ordered := pairwise_concat_filter state.ordered h }
  else .error (.valueError "trade close timestamps must be monotonic")

/-! ## The router and what surrounds it -/

/-- `_FreqtradeSubmittedOrder`. -/
structure SubmittedOrder where
  sourceOrder : FreqtradeOrder
  fillIds : List String

/-- **`FreqtradeNativeIntentRouter`.** -/
structure Router where
  trade : Option TradeState
  protectionState : ProtectionState
  submitted : ℕ → Option SubmittedOrder
  activeStopId : Option ℕ
  pendingStop : Option FreqtradeOrder

/-- What is left of a method after a call of the venue. -/
inductive Task
  /-- one round of `submit_decision` -/
  | order (order : FreqtradeOrder)
  /-- `_submit_stop`, after the call -/
  | activate (clientOrderId : ℕ)
  /-- `_discard_if_closed` -/
  | discard (clientOrderId : ℕ)

structure Frame where
  inHandler : Bool
  task : Task

/-- **The host**: the router, the venue, and what is left to run. `executed` are the
trades of the venue, by side and quantity, and `raised` is what has left a handler. -/
structure Host where
  router : Router
  book : Book NativeOrder String
  stack : List Frame
  raised : List Exc
  executed : List (Side × ℚ)

def Host.start : Host where
  router := ⟨none, ⟨none, none, [], .nil⟩, fun _ => none, none, none⟩
  book := .empty
  stack := []
  raised := []
  executed := []

variable (inHandler : Bool)

def Host.raise (e : Exc) (h : Host) : Host :=
  { h with stack := [], raised := if inHandler then h.raised ++ [e] else h.raised }

def Host.push (task : Task) (h : Host) : Host :=
  { h with stack := ⟨inHandler, task⟩ :: h.stack }

def Host.rememberAndSubmit (native : NativeOrder) (order : FreqtradeOrder) (h : Host) : Host :=
  { h with
    router := { h.router with
      submitted := Function.update h.router.submitted h.book.next (some ⟨order, []⟩) }
    book := h.book.submit native }

def Host.submitMarket (reduceOnly : Bool) (h : Host) : Host :=
  h.rememberAndSubmit
    ⟨.market, if reduceOnly then .sell else .buy, cfg.makeQty order.quantity, none, none, none,
      false, reduceOnly, [cfg.strategyName, order.reason, order.action.name], none⟩ order

/-- `_submit_stop`: the stop becomes the active one after the call. -/
def Host.submitStop (order : FreqtradeOrder) (h : Host) : Host :=
  match order.price with
  | none => h.raise inHandler (.valueError "Freqtrade replace_stop requires a source price")
  | some price =>
    (h.push inHandler (.activate h.book.next)).rememberAndSubmit
      ⟨.stopMarket, .sell, cfg.makeQty order.quantity, none, some (cfg.makePrice price), none, false,
        true, [cfg.strategyName, order.reason, "stop"], none⟩ order

def Host.requestStop (order : FreqtradeOrder) (h : Host) : Host :=
  match order.price with
  | none => h.raise inHandler (.valueError "Freqtrade replace_stop requires a source price")
  | some _ =>
    match h.router.activeStopId with
    | none => h.submitStop cfg inHandler order
    | some activeId =>
      match h.router.submitted activeId with
      | none =>
        { h with router := { h.router with
            activeStopId := none
            pendingStop := none } }.submitStop cfg inHandler order
      | some _ =>
        { h with
          router := { h.router with pendingStop := some order }
          book := h.book.amend activeId Order.askCancel }

/-- A round of `submit_decision`. -/
def Host.obey (order : FreqtradeOrder) (h : Host) : Host :=
  match order.action with
  | .enterLong => h.submitMarket cfg order false
  | .exitLong => h.submitMarket cfg order true
  | .replaceStop => h.requestStop cfg inHandler order

variable (clientOrderId : ℕ)

def Host.drop (h : Host) : Host :=
  { h with router := { h.router with
      submitted := Function.update h.router.submitted clientOrderId none } }

def Host.discardIfClosed (h : Host) : Host :=
  match h.book.order? clientOrderId with
  | none => h
  | some o => if cfg.cached ∧ ¬ o.status.IsOpen then h.drop clientOrderId else h

/-- **One piece of a method.** -/
def Host.perform (h : Host) : Task → Host
  | .order order => h.obey cfg inHandler order
  | .activate clientOrderId =>
    { h with router := { h.router with activeStopId := some clientOrderId } }
  | .discard clientOrderId => h.discardIfClosed cfg clientOrderId

/-- The trade id is kept. -/
def Host.noteFill (submitted : SubmittedOrder) (tradeId : String) (h : Host) : Host :=
  { h with router := { h.router with
      submitted := Function.update h.router.submitted clientOrderId
        (some { submitted with fillIds := submitted.fillIds ++ [tradeId] }) } }

def Host.setTrade (t : TradeState) (h : Host) : Host :=
  { h with router := { h.router with trade := some t } }

/-- The fee, and the call of `port.on_fill`. -/
def FillEvent.apply (trade : Option TradeState) (event : FillEvent) : Except Exc TradeState := do
  let fee ← nativeFee cfg.toSetup event.lastPx event.commission
  onFill cfg order event.lastPx event.lastQty (cfg.fromTimestamp event.tsEvent) fee trade

/-- What follows a fill: the initial stop after an entry, and the protections after the
exit that closes the trade. -/
def Host.followUp (action : OrderAction) (filledAt : ℕ) (equityAfter : ℚ) (t : TradeState)
    (h : Host) : Host :=
  match action with
  | .enterLong =>
    if t.IsClosed then h.discardIfClosed cfg clientOrderId
    else
      match initialStopOrder cfg t filledAt with
      | .error e => h.raise true e
      | .ok order => (h.push true (.discard clientOrderId)).requestStop cfg true order
  | .exitLong =>
    if t.IsClosed then
      match onTradeClosed cfg h.router.protectionState filledAt equityAfter with
      | .error e => h.raise true e
      | .ok state =>
        { h with router := { h.router with protectionState := state } }.discardIfClosed cfg
          clientOrderId
    else h.discardIfClosed cfg clientOrderId
  | .replaceStop => h.discardIfClosed cfg clientOrderId

variable (event : FillEvent)

def Host.onOrderFilled (equityAfter : ℚ) (h : Host) : Host :=
  match h.router.submitted clientOrderId with
  | none => h
  | some submitted =>
    if event.tradeId ∈ submitted.fillIds then h
    else
      match FillEvent.apply cfg submitted.sourceOrder h.router.trade event with
      | .error e => (h.noteFill clientOrderId submitted event.tradeId).raise true e
      | .ok t =>
        ((h.noteFill clientOrderId submitted event.tradeId).setTrade t).followUp cfg clientOrderId
          submitted.sourceOrder.action (cfg.fromTimestamp event.tsEvent) equityAfter t

def Host.onOrderAccepted (h : Host) : Host :=
  if h.router.activeStopId = some clientOrderId then
    match h.router.trade, h.router.submitted clientOrderId with
    | some t, some submitted =>
      match onStopAccepted t submitted.sourceOrder with
      | .error e => h.raise true e
      | .ok t' => h.setTrade t'
    | _, _ => h
  else h

/-- **`on_order_canceled`**, and `on_order_rejected`. -/
def Host.onOrderCanceled (h : Host) : Host :=
  if h.router.activeStopId = some clientOrderId then
    match h.router.pendingStop with
    | none =>
      { h.drop clientOrderId with router := { (h.drop clientOrderId).router with
          activeStopId := none } }
    | some pending =>
      { h.drop clientOrderId with router := { (h.drop clientOrderId).router with
          activeStopId := none
          pendingStop := none } }.submitStop cfg true pending
  else h.drop clientOrderId

/-! ## Steps -/

/-- What can happen next. -/
inductive Event
  | decide (protectionState : ProtectionState) (orders : List FreqtradeOrder)
  | resume
  | accepted (clientOrderId : ℕ)
  | filled (clientOrderId : ℕ) (event : FillEvent) (closes : Bool) (equityAfter : ℚ)
  | redelivered (clientOrderId : ℕ) (event : FillEvent) (equityAfter : ℚ)
  | canceled (clientOrderId : ℕ)
  | rejected (clientOrderId : ℕ)

/-- **`submit_decision`**, up to its first order. -/
def Host.submitDecision (protectionState : ProtectionState) (orders : List FreqtradeOrder)
    (h : Host) : Host :=
  { h with
    router := { h.router with protectionState := protectionState }
    stack := orders.map (fun o => ⟨false, .order o⟩) ++ h.stack }

/-- The venue accepts an order that was submitted, and reports it. -/
def Host.accepted (h : Host) : Host :=
  match h.book.order? clientOrderId with
  | none => h
  | some o =>
    if o.status = .submitted then
      { h with book := h.book.amend clientOrderId Order.accept }.onOrderAccepted clientOrderId
    else h

/-- The venue executes a trade. -/
def Host.execute (side : Side) (event : FillEvent) (closes : Bool) (h : Host) : Host :=
  { h with
    book := h.book.amend clientOrderId (Order.trade event.tradeId closes)
    executed := h.executed ++ [(side, event.lastQty)] }

/-- A trade is executed for an open order, and reported. -/
def Host.filled (closes : Bool) (equityAfter : ℚ) (h : Host) : Host :=
  match h.book.order? clientOrderId with
  | none => h
  | some o =>
    if o.status.IsOpen ∧ event.tradeId ∉ o.trades then
      (h.execute clientOrderId o.info.side event closes).onOrderFilled cfg clientOrderId event
        equityAfter
    else h

/-- A trade is reported again. -/
def Host.redelivered (equityAfter : ℚ) (h : Host) : Host :=
  match h.book.order? clientOrderId with
  | none => h
  | some o =>
    if event.tradeId ∈ o.trades then h.onOrderFilled cfg clientOrderId event equityAfter else h

/-- The venue ends an open order without a trade, and reports it. -/
def Host.ended (status : Status) (h : Host) : Host :=
  match h.book.order? clientOrderId with
  | none => h
  | some o =>
    if o.status.IsOpen then
      { h with book := h.book.amend clientOrderId (Order.finish status) }.onOrderCanceled cfg
        clientOrderId
    else h

/-- The running method goes on to its next call of the venue. -/
def Host.resume (h : Host) : Host :=
  match h.stack with
  | [] => h
  | f :: rest => { h with stack := rest }.perform cfg f.inHandler f.task

def step (h : Host) : Event → Host
  | .decide state orders => if h.stack = [] then h.submitDecision state orders else h
  | .resume => h.resume cfg
  | .accepted clientOrderId => h.accepted clientOrderId
  | .filled clientOrderId event closes equityAfter =>
    h.filled cfg clientOrderId event closes equityAfter
  | .redelivered clientOrderId event equityAfter =>
    h.redelivered cfg clientOrderId event equityAfter
  | .canceled clientOrderId => h.ended cfg clientOrderId .canceled
  | .rejected clientOrderId => h.ended cfg clientOrderId .rejected

end Qt.Nautilus.Freqtrade
