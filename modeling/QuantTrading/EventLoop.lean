import QuantTrading.BarFills
import QuantTrading.Lib.RelativeRounding
import QuantTrading.TargetWeight

/-!
# The event loop

`EventRunner.run` of `btc_backtest.engine.runner`: for each bar of the primary frame the funding
that has become due is applied, the open orders are tried on the bar, the portfolio is marked, and
the strategy – from its warm-up on – answers with intents that become open orders.

Orders, fills and fundings are known by their numbers, which the source writes behind the run's id.
Signals are left out: they come from a store that no strategy here depends on. What the loop and
its strategies compute is rounded to 28 digits; the portfolio's own amounts are exact. The frames
are normalized: a bar has numbers, and the rows of an auxiliary frame have a cell for each column.
-/

namespace Qt.Backtest

open Except Fills List Option EStateM

namespace Engine

/-- What a run raises: an `ExecutionError`, what its parts raise, or a strategy that failed. -/
inductive RunError
  | execution (message : String)
  | keyError (key : String)
  | fill (e : FillError)
  | accounting (e : AccountingError)
  | strategy (phase : String) (timestamp : ℤ)
deriving DecidableEq, Repr

/-! ## Data -/

structure Row where
  timestamp : ℤ
  cells : List (String × Fills.Cell)

structure Frame where
  columns : List String
  rows : List Row

structure MarketBundle where
  primary : List Bar
  auxiliary : List (String × Frame)

variable (frame : Frame)

/-- `row.get(column, default)`. -/
def Frame.get (row : Row) (column : String) (default : Fills.Cell) : Fills.Cell :=
  if column ∈ frame.columns then (row.cells.lookup column).getD .notNumeric else default

/-- **`_decimal`** of the runner. -/
def decimal (value : Fills.Cell) (field : String) : Except RunError ℚ :=
  match value with
  | .number x => .ok x
  | .notFinite => .error (.execution (field ++ " must be finite"))
  | .notNumeric => .error (.execution (field ++ " must be numeric"))

/-- `_bar_mapping`, of a primary bar. -/
def barMapping (bar : Bar) : List (String × Fills.Cell) :=
  [("open", .number bar.openPrice), ("high", .number bar.high), ("low", .number bar.low),
    ("close", .number bar.close), ("volume", .number bar.volume)]

variable (bundle : MarketBundle)

def perpetualRow (timestamp : ℤ) : Option Row :=
  (bundle.auxiliary.lookup "perpetual").bind fun frame =>
    frame.rows.find? fun row => row.timestamp = timestamp

def instrumentBars (bar : Bar) : InstrumentKind → Option (List (String × Fills.Cell))
  | .spot => some (barMapping bar)
  | .perpetual => (perpetualRow bundle bar.timestamp).map Row.cells

variable (timestamp : ℤ)

def historyUntil : Frame :=
  { frame with rows := frame.rows.take (frame.rows.countP fun row => row.timestamp ≤ timestamp) }

def strategyAuxiliaryHistory (warmupBars barsSeen : ℕ) (requiresFullHistory : Bool) : Frame :=
  let history := historyUntil frame timestamp
  if requiresFullHistory ∨ barsSeen ≤ warmupBars ∨ history.rows = [] then history
  else { history with rows := history.rows.drop (history.rows.length - 1) }

/-- Whether timestamps are unique and ascending. -/
def ascending (timestamps : List ℤ) : Prop := timestamps.Pairwise (· < ·)
deriving Decidable

/-- **`_validate_run_contract`**, of the data. -/
def validateRunContract : Except RunError Unit := do
  raiseIf (bundle.primary = []) (.execution "primary market data is empty")
  raiseIf (¬ ascending (bundle.primary.map Bar.timestamp))
    (.execution "primary market data timestamps must be unique and ascending")
  bundle.auxiliary.forM fun entry =>
    raiseIf (¬ ascending (entry.2.rows.map Row.timestamp))
      (.execution ("auxiliary data " ++ entry.1 ++ " timestamps must be unique and ascending"))

/-! ## Orders -/

structure OrderIntent where
  instrument : InstrumentKind := .spot
  side : OrderSide
  orderType : Fills.OrderType
  quoteAmount : Option ℚ := none
  baseQuantity : Option ℚ := none
  limitPrice : Option ℚ := none
  stopPrice : Option ℚ := none
  takeProfitPrice : Option ℚ := none
  groupId : Option String := none
  atomicGroup : Bool := false
  reason : String
deriving DecidableEq

/-- `_require_positive`, of a number that may be left out. -/
def requirePositive (value : Option ℚ) (field : String) : Except String Unit :=
  raiseIf (∃ x ∈ value, x ≤ 0) (field ++ " must be positive")

def OrderIntent.validated (i : OrderIntent) : Except String OrderIntent := do
  raiseIf (i.quoteAmount.isSome = i.baseQuantity.isSome)
    "exactly one of quote_amount or base_quantity must be provided"
  requirePositive i.quoteAmount "quote_amount"
  requirePositive i.baseQuantity "base_quantity"
  requirePositive i.limitPrice "limit_price"
  requirePositive i.stopPrice "stop_price"
  requirePositive i.takeProfitPrice "take_profit_price"
  raiseIf ((i.orderType = .limit ∨ i.orderType = .stopLimit) ∧ i.limitPrice = none)
    "limit_price is required for limit orders"
  raiseIf ((i.orderType = .stop ∨ i.orderType = .stopLimit) ∧ i.stopPrice = none)
    "stop_price is required for stop orders"
  raiseIf (i.atomicGroup = true ∧ i.groupId = none) "group_id is required for an atomic_group"
  return i

/-- `Order`, with its group and its reason. -/
structure Order extends Fills.Order ℕ where
  groupId : Option String
  atomicGroup : Bool
  reason : String

variable (order : Order)

/-- The group that an order is processed with. -/
def Order.group : Option String := if order.atomicGroup then order.groupId else none

def isExpired (timestamp : ℤ) : Prop := ∃ t ∈ order.expiresAt, t ≤ timestamp
deriving Decidable

theorem closed_remaining_mem (status : Fills.OrderStatus) :
    0 ≤ (if status = .filled then 0 else order.remainingQuantity)
      ∧ (if status = .filled then 0 else order.remainingQuantity) ≤ order.quantity := by
  split_ifs
  · exact ⟨le_rfl, order.quantity_pos.le⟩
  · exact order.remaining_mem

def closedOrder (status : Fills.OrderStatus) : Order :=
  { order with
    status := status
    remainingQuantity := if status = .filled then 0 else order.remainingQuantity
    remaining_mem := closed_remaining_mem order status }

inductive Warning
  | order (id : ℕ) (message : String)
  | group (id : String) (message : String)
deriving DecidableEq, Repr

/-- What the orders are tried on, and what comes of it. -/
structure Book where
  portfolio : Portfolio ℕ
  orders : List Order
  openOrders : List Order
  fills : List (Fill ℕ ℕ)
  warnings : List Warning
  fillCounter : ℕ

/-- **`_replace_order`**, by an order that is closed. -/
def Book.replace (book : Book) (order : Order) : Book :=
  { book with
    orders := book.orders.map fun o => if o.id = order.id then order else o
    openOrders := book.openOrders.eraseP fun o => o.id = order.id }

/-- All members of a group are closed. -/
def Book.close (book : Book) (members : List Order) (status : Fills.OrderStatus) : Book :=
  members.foldl (fun book order => book.replace (closedOrder order status)) book

section Processing

variable (policy : FillPolicy) (bars : InstrumentKind → Option (List (String × Fills.Cell)))
  (timestamp : ℤ)

/-- A program on the portfolio, as a step of the run. -/
def perform {α : Type} (program : Accounting ℕ α) (portfolio : Portfolio ℕ) :
    Except RunError (α × Portfolio ℕ) :=
  match program portfolio with
  | .ok a portfolio => .ok (a, portfolio)
  | .error e _ => .error (.accounting e)

/-- The fill model, in the run; the id of a candidate is replaced later. -/
def tried {α : Type} (x : Except FillError α) : Except RunError α :=
  match x with
  | .ok a => .ok a
  | .error e => .error (.fill e)

def evaluateOrder (order : Order) : Except RunError (Option (Fill ℕ ℕ)) :=
  match bars order.instrument with
  | none => .ok none
  | some bar =>
    if order.stopPrice.isSome ∧ order.takeProfitPrice.isSome then
      tried ((evaluateBracket (fun _ _ _ => 0) policy order.toOrder bar ⟨timestamp, true⟩).map
        List.head?)
    else tried (evaluate (fun _ _ _ => 0) policy order.toOrder bar ⟨timestamp, true⟩)

variable (book : Book)

/-- The fill of an order of its own is applied. -/
def applyOrdinary (order : Order) (fill : Fill ℕ ℕ) : Except RunError Book :=
  match applyFill fill book.portfolio with
  | .ok _ portfolio =>
    .ok ({ book with
      portfolio := portfolio
      fills := book.fills ++ [fill]
      fillCounter := fill.id }.replace (closedOrder order .filled))
  | .error (.executionError message) portfolio =>
    .ok ({ book with
      portfolio := portfolio
      warnings := book.warnings ++ [Warning.order order.id message]
      fillCounter := fill.id }.replace (closedOrder order .rejected))
  | .error e _ => .error (.accounting e)

/-- An order of its own is tried on its bar. -/
def processOrdinary (order : Order) : Except RunError Book :=
  if isExpired order timestamp then .ok (book.replace (closedOrder order .cancelled))
  else do
    let candidate ← evaluateOrder policy bars timestamp order
    candidate.elim (.ok book) fun candidate =>
      applyOrdinary book order { candidate with id := book.fillCounter + 1 }

def numbered (counter : ℕ) (candidates : List (Fill ℕ ℕ)) : List (Fill ℕ ℕ) :=
  candidates.zipIdx.map fun x => { x.1 with id := counter + (x.2 + 1) }

/-- Fills are applied one after the other. -/
def applyFills : List (Fill ℕ ℕ) → Accounting ℕ Unit
  | [] => pure ()
  | fill :: fills => do
    let _ ← applyFill fill
    applyFills fills

/-- The fills of a group are applied, to a copy first: what holds of the copy holds of the
portfolio. -/
def applyGroup (group : String) (members : List Order) (fills : List (Fill ℕ ℕ)) :
    Except RunError Book :=
  match applyFills fills book.portfolio with
  | .ok _ portfolio =>
    .ok ({ book with
      portfolio := portfolio
      fills := book.fills ++ fills
      fillCounter := book.fillCounter + fills.length }.close members .filled)
  | .error (.executionError message) _ =>
    .ok ({ book.close members .rejected with
      warnings := book.warnings ++ [Warning.group group message] })
  | .error e _ => .error (.accounting e)

/-- A group is tried on the bars: as a whole, or not at all. -/
def processGroup (group : String × List Order) : Except RunError Book :=
  if ∃ order ∈ group.2, isExpired order timestamp then .ok (book.close group.2 .cancelled)
  else do
    let candidates ← group.2.mapM (evaluateOrder policy bars timestamp)
    (candidates.mapM id).elim (.ok book) fun candidates =>
      applyGroup book group.1 group.2 (numbered book.fillCounter candidates)

/-- The groups of open orders, by their names. -/
def atomicGroups (openOrders : List Order) : List (String × List Order) :=
  ((openOrders.filterMap Order.group).dedup.orderBy id).map fun g =>
    (g, openOrders.filter fun order => order.group = some g)

def processOpenOrders : Except RunError Book := do
  let ordinary := book.openOrders.filter fun order => order.group = none
  let groups := atomicGroups book.openOrders
  let book ← ordinary.foldlM (processOrdinary policy bars timestamp) book
  groups.foldlM (processGroup policy bars timestamp) book

end Processing

/-! ## Funding -/

/-- A settlement of the funding frame. -/
def applySettlement (fallbackPrice : ℚ) (s : Portfolio ℕ × ℕ) (row : Row) :
    Except RunError (Portfolio ℕ × ℕ) := do
  let price ← decimal (frame.get row "mark_price" (frame.get row "close" (.number fallbackPrice)))
    "funding mark price"
  let rate ← decimal (frame.get row "rate" .notNumeric) "funding rate"
  let (current, portfolio) ← perform
    (mark ⟨row.timestamp, true⟩ (.mapping [("perpetual", some price)])) s.1
  let quantity := ((current.positions.find? fun p => p.instrument = .perpetual).map
    Position.quantity).getD 0
  if quantity = 0 then return (portfolio, s.2)
  else do
    let (_, portfolio) ← perform (applyFunding
      { id := s.2 + 1, timestamp := row.timestamp, amount := -ctx (ctx (quantity * price) * rate)
        rate }) portfolio
    return (portfolio, s.2 + 1)

/-- The rows after a timestamp, if there is one, and up to another. -/
def due (previous : Option ℤ) (timestamp : ℤ) : List Row :=
  frame.rows.filter fun row => (∀ t ∈ previous, t < row.timestamp) ∧ row.timestamp ≤ timestamp

def applyAvailableFunding (portfolio : Portfolio ℕ) (timestamp : ℤ) (previous : Option ℤ)
    (fallbackPrice : ℚ) (counter : ℕ) : Except RunError (Portfolio ℕ × ℕ) :=
  match bundle.auxiliary.lookup "funding" with
  | none => .ok (portfolio, counter)
  | some frame =>
    if "rate" ∈ frame.columns then
      (due frame previous timestamp).foldlM (applySettlement frame fallbackPrice)
        (portfolio, counter)
    else .ok (portfolio, counter)

/-! ## Strategies -/

structure StrategyContext where
  timestamp : ℤ
  bars : List Bar
  auxiliary : List (String × Frame)
  portfolio : PortfolioSnapshot
  openOrders : List Order

def StrategyContext.quantity (context : StrategyContext) (instrument : InstrumentKind) : ℚ :=
  ((context.portfolio.positions.find? fun p => p.instrument = instrument).map
    Position.quantity).getD 0

/-- A strategy: what its metadata declare, its attributes, and its methods. -/
structure Strategy where
  State : Type
  warmupBars : ℕ
  requiresFullHistory : Bool
  supportedInstruments : List InstrumentKind
  onInitialize : FillPolicy → State → State
  onBar : State → StrategyContext → Except String (State × List OrderIntent)

/-- A group of the intents that is not atomic as a whole. -/
def badGroup (intents : List OrderIntent) (group : String) : Prop :=
  let members := intents.filter fun i => i.groupId = some group
  (∃ i ∈ members, i.atomicGroup = true)
    ∧ ((∃ i ∈ members, i.atomicGroup = false) ∨ members.length < 2)
deriving Decidable

def validateAtomicIntents (intents : List OrderIntent) : Except RunError Unit :=
  ((intents.filterMap OrderIntent.groupId).find? fun g => badGroup intents g).elim (.ok ())
    fun g => .error (.execution ("atomic group " ++ g
      ++ " must contain at least two consistently atomic intents"))

def orderQuantity (intent : OrderIntent) (close : Option ℚ) : Except RunError ℚ :=
  match intent.baseQuantity, intent.quoteAmount, close with
  | some quantity, _, _ => .ok quantity
  | none, none, _ => .error (.execution "validated intent has no order size")
  | none, some _, none => .error (.execution ("no current " ++ intent.instrument.value
      ++ " price for quote-sized order"))
  | none, some quoteAmount, some close => .ok (ctx (quoteAmount / close))

/-- `Order`, with its validator. -/
def Order.make (intent : OrderIntent) (quantity : ℚ) (timestamp : ℤ) (counter : ℕ) :
    Except RunError Order :=
  if h : 0 < quantity ∧ (∀ x ∈ intent.limitPrice, 0 < x) ∧ (∀ x ∈ intent.stopPrice, 0 < x)
      ∧ (∀ x ∈ intent.takeProfitPrice, 0 < x)
      ∧ (intent.orderType = .limit ∨ intent.orderType = .stopLimit → intent.limitPrice.isSome)
      ∧ (intent.orderType = .stop ∨ intent.orderType = .stopLimit → intent.stopPrice.isSome) then
    .ok
      { id := counter, createdAt := timestamp, instrument := intent.instrument, side := intent.side
        orderType := intent.orderType, quantity, remainingQuantity := quantity
        limitPrice := intent.limitPrice, stopPrice := intent.stopPrice
        takeProfitPrice := intent.takeProfitPrice, status := .open, expiresAt := none
        groupId := intent.groupId, atomicGroup := intent.atomicGroup, reason := intent.reason
        quantity_pos := h.1, remaining_mem := ⟨h.1.le, le_rfl⟩, limit_pos := h.2.1
        stop_pos := h.2.2.1, target_pos := h.2.2.2.1, limit_isSome := h.2.2.2.2.1
        stop_isSome := h.2.2.2.2.2, created_le := nofun }
  else .error (.execution "order is not valid")

def intentToOrder (supported : List InstrumentKind) (intent : OrderIntent) (timestamp : ℤ)
    (close : Option ℚ) (counter : ℕ) : Except RunError Order := do
  raiseIf (intent.instrument ∉ supported)
    (.execution ("strategy does not support instrument " ++ intent.instrument.value))
  let quantity ← orderQuantity intent close
  Order.make intent quantity timestamp counter

/-! ## The loop -/

/-- The arguments of a run: the cash at its start and the costs of its fills. -/
structure BacktestSpec where
  initialCash : ℚ
  policy : FillPolicy

/-- What the loop carries. -/
structure Run (σ : Type) extends Book where
  snapshots : List PortfolioSnapshot
  orderCounter : ℕ
  fundingCounter : ℕ
  previousTimestamp : Option ℤ
  strategy : σ

/-- The marks of a bar. -/
structure Closes where
  spot : ℚ
  perpetual : Option ℚ

def closesOf (bars : InstrumentKind → Option (List (String × Fills.Cell))) (bar : Bar) :
    Except RunError Closes :=
  match bars .perpetual with
  | none => .ok ⟨bar.close, none⟩
  | some cells =>
    match cells.lookup "close" with
    | none => .error (.keyError "close")
    | some cell => do
      let close ← decimal cell "perpetual close"
      return ⟨bar.close, some close⟩

def Closes.of (closes : Closes) : InstrumentKind → Option ℚ
  | .spot => some closes.spot
  | .perpetual => closes.perpetual

/-- The items that `mark` is given. -/
def Closes.marks (closes : Closes) : Marks :=
  .mapping (("spot", some closes.spot)
    :: closes.perpetual.toList.map fun close => ("perpetual", some close))

section Loop

variable (s : Strategy) (spec : BacktestSpec) (bundle : MarketBundle)

/-- What the strategy is shown at a bar. -/
def contextAt (position : ℕ) (bar : Bar) (snapshot : PortfolioSnapshot) (openOrders : List Order) :
    StrategyContext :=
  { timestamp := bar.timestamp
    bars := EventRunner.strategyHistory bundle.primary position s.warmupBars s.requiresFullHistory
    auxiliary := bundle.auxiliary.map fun entry => (entry.1, strategyAuxiliaryHistory entry.2
      bar.timestamp s.warmupBars (position + 1) s.requiresFullHistory)
    portfolio := snapshot
    openOrders := openOrders }

/-- An intent becomes an open order. -/
def place {σ : Type} (timestamp : ℤ) (closes : Closes) (r : Run σ) (intent : OrderIntent) :
    Except RunError (Run σ) := do
  let order ← intentToOrder s.supportedInstruments intent timestamp (closes.of intent.instrument)
    (r.orderCounter + 1)
  return { r with
    orders := r.orders ++ [order]
    openOrders := r.openOrders ++ [order]
    orderCounter := r.orderCounter + 1 }

/-- **`_on_bar`.** -/
def callStrategy (state : s.State) (context : StrategyContext) :
    Except RunError (s.State × List OrderIntent) :=
  match s.onBar state context with
  | .ok out => .ok out
  | .error _ => .error (.strategy "on_bar" context.timestamp)

/-- The strategy is called at a bar, and its intents become open orders. -/
def askStrategy (position : ℕ) (bar : Bar) (closes : Closes) (snapshot : PortfolioSnapshot)
    (r : Run s.State) : Except RunError (Run s.State) :=
  if s.warmupBars ≤ position + 1 then do
    let (state, intents) ← callStrategy s r.strategy
      (contextAt s bundle position bar snapshot r.openOrders)
    validateAtomicIntents intents
    intents.foldlM (place s bar.timestamp closes) { r with strategy := state }
  else .ok r

/-- A bar as far as the strategy is asked: what is carried, the closes and the snapshot. -/
def prepare (r : Run s.State) (bar : Bar) :
    Except RunError (Run s.State × Closes × PortfolioSnapshot) := do
  let bars := instrumentBars bundle bar
  let (portfolio, fundingCounter) ← applyAvailableFunding bundle r.portfolio bar.timestamp
    r.previousTimestamp bar.openPrice r.fundingCounter
  let book ← processOpenOrders spec.policy bars bar.timestamp { r.toBook with portfolio }
  let closes ← closesOf bars bar
  let (snapshot, portfolio) ← perform (mark ⟨bar.timestamp, true⟩ closes.marks) book.portfolio
  return ({ r with
    toBook := { book with portfolio }
    fundingCounter
    snapshots := r.snapshots ++ [snapshot]
    previousTimestamp := some bar.timestamp }, closes, snapshot)

/-- **A bar**: the body of the loop of `EventRunner.run`. -/
def step (r : Run s.State) (item : Bar × ℕ) : Except RunError (Run s.State) := do
  let (prepared, closes, snapshot) ← prepare s spec bundle r item.1
  askStrategy s bundle item.2 item.1 closes snapshot prepared

/-- Before the first bar. -/
def initialRun (portfolio : Portfolio ℕ) (instance_ : s.State) : Run s.State :=
  { portfolio, orders := [], openOrders := [], fills := [], warnings := [], fillCounter := 0
    snapshots := [], orderCounter := 0, fundingCounter := 0, previousTimestamp := none
    strategy := s.onInitialize spec.policy instance_ }

variable (instance_ : s.State)

/-- The first bars of a run. -/
def runBars (bars : ℕ) : Except RunError (Run s.State) := do
  validateRunContract bundle
  match Portfolio.create (some spec.initialCash) with
  | .error e => .error (.accounting e)
  | .ok portfolio =>
    (bundle.primary.zipIdx.take bars).foldlM (step s spec bundle)
      (initialRun s spec portfolio instance_)

/-- **`EventRunner.run`.** -/
def run : Except RunError (Run s.State) :=
  runBars s spec bundle instance_ bundle.primary.length

/-- What a strategy is shown at a bar, and what it answers, with its attributes before and after. -/
structure Decision (σ : Type) where
  context : StrategyContext
  before : σ
  after : σ
  intents : List OrderIntent

/-- The decision of a run at a bar, if the run comes to it. -/
def decisionAt (position : ℕ) : Option (Decision s.State) := do
  let bar ← bundle.primary[position]?
  let r ← (runBars s spec bundle instance_ position).toOption
  let (prepared, _, snapshot) ← (prepare s spec bundle r bar).toOption
  if s.warmupBars ≤ position + 1 then
    let context := contextAt s bundle position bar snapshot prepared.openOrders
    let (after, intents) ← (callStrategy s prepared.strategy context).toOption
    return ⟨context, prepared.strategy, after, intents⟩
  else none

end Loop

/-- The arithmetic of the engine rounds to half a unit in the last of 28 digits. -/
theorem rounding_ctx : Rounding ctx (5 / 10 ^ 28) := by
  have h := Rounding.roundSig (p := 28) (by norm_num)
  norm_num at h ⊢
  exact h

/-! ## Accounting, read backwards -/

section Portfolio

variable {p q : Portfolio ℕ} {snap : PortfolioSnapshot}

theorem perform_eq_ok {α : Type} {program : Accounting ℕ α} {a : α} :
    perform program p = .ok (a, q) ↔ program p = .ok a q := by
  unfold perform
  split
  · rename_i b portfolio h
    rw [h]
    exact ⟨fun heq => by cases heq; rfl, fun heq => by cases heq; rfl⟩
  · rename_i e portfolio h
    rw [h]
    exact ⟨fun heq => (nomatch heq), fun heq => (nomatch heq)⟩

/-- A valuation changes nothing, and spot and cash are not negative. -/
theorem snapshot_eq_ok {timestamp : ℤ} (h : snapshot timestamp p = .ok snap q) :
    q = p ∧ snap = p.snapshotAt timestamp ∧ 0 ≤ p.spot.quantity ∧ 0 ≤ p.cash := by
  have hcheck : ∀ position : Position, (checkPosition position p = .ok () p
      ∧ ¬ (position.instrument = .spot ∧ position.quantity < 0))
      ∨ ∃ e, checkPosition position p = .error e p := by
    intro position
    unfold checkPosition
    split_ifs with hspot
    · exact .inr ⟨_, rfl⟩
    · exact .inr ⟨_, rfl⟩
    · exact .inr ⟨_, rfl⟩
    · exact .inl ⟨rfl, hspot⟩
  change (checkPosition (Portfolio.positionModel .spot p.spot) >>= fun _ => _) p = _ at h
  rcases hcheck (Portfolio.positionModel .spot p.spot) with ⟨hspot, hlong⟩ | ⟨e, hspot⟩
  · rw [bind_of_ok hspot] at h
    rcases hcheck (Portfolio.positionModel .perpetual p.perpetual) with ⟨hperp, -⟩ | ⟨e, hperp⟩
    · rw [bind_of_ok hperp] at h
      change (if p.cash < 0 then _ else _ : Accounting ℕ PortfolioSnapshot) p = _ at h
      split_ifs at h with hcash
      · cases h
      · cases h
        exact ⟨rfl, rfl, not_lt.mp fun hlt => hlong ⟨rfl, hlt⟩, not_lt.mp hcash⟩
    · rw [bind_of_error hperp] at h
      cases h
  · rw [bind_of_error hspot] at h
    cases h

/-- **A mark** changes nothing but the marks and the clock. -/
theorem mark_eq_ok {timestamp : DateTime} {marks : Marks}
    (h : mark timestamp marks p = .ok snap q) :
    q = (p.marked marks.items).seen timestamp.instant ∧ snap = q.snapshotAt timestamp.instant
      ∧ (∀ item ∈ marks.items, (Portfolio.markOf item).isSome)
      ∧ 0 ≤ q.spot.quantity ∧ 0 ≤ q.cash := by
  rcases Portfolio.mark_cases p timestamp marks with ⟨-, e, he⟩ | ⟨-, -, ⟨hvalid, he⟩ | ⟨-, e, he⟩⟩
  · cases h.symm.trans he
  · obtain ⟨rfl, rfl, hspot, hcash⟩ := snapshot_eq_ok (he.symm.trans h)
    exact ⟨rfl, rfl, hvalid, hspot, hcash⟩
  · cases h.symm.trans he

theorem applyFunding_eq_ok {event : FundingEvent ℕ} (h : applyFunding event p = .ok snap q) :
    q = p.paid event := by
  rcases Portfolio.applyFunding_cases p event with ⟨e, he⟩ | ⟨-, -, he⟩
  · cases h.symm.trans he
  · exact (snapshot_eq_ok (he.symm.trans h)).1

theorem applyFill_eq_ok {fill : Fill ℕ ℕ} (h : applyFill fill p = .ok snap q) :
    p.Accepts fill ∧ q = (p.filled fill).booked fill := by
  by_cases haccepts : p.Accepts fill
  · rw [Portfolio.applyFill_of_accepts haccepts] at h
    exact ⟨haccepts, (snapshot_eq_ok h).1⟩
  · obtain ⟨e, he⟩ := Portfolio.applyFill_of_not_accepts haccepts
    cases h.symm.trans he

end Portfolio

/-! ## Processing -/

section Processing

variable {policy : FillPolicy} {bars : InstrumentKind → Option (List (String × Fills.Cell))}
  {timestamp : ℤ} {book book' : Book}

theorem tried_eq_ok {α : Type} {x : Except FillError α} {a : α} : tried x = .ok a ↔ x = .ok a := by
  cases x with
  | ok b => exact ⟨fun h => congrArg _ (ok.inj h), fun h => congrArg _ (ok.inj h)⟩
  | error e => exact ⟨nofun, nofun⟩

structure FillOf (order : Order) (fill : Fill ℕ ℕ) : Prop where
  instrument : fill.instrument = order.instrument
  side : fill.side = order.side
  quantity : fill.quantity = order.remainingQuantity

variable {at_ : DateTime} {fill : Fill ℕ ℕ} {order : Order}

theorem fillAt_of {price : ℚ} {reason : String}
    (h : fillAt (fun _ _ _ => 0) policy order.toOrder at_ order.remainingQuantity price reason =
      .ok fill) :
    FillOf order fill := by
  unfold fillAt at h
  dsimp only at h
  split at h
  · obtain rfl := ok.inj h
    exact ⟨rfl, rfl, rfl⟩
  · cases h

variable {bar : List (String × Fills.Cell)}

theorem evaluateBracket_of {fills : List (Fill ℕ ℕ)}
    (h : evaluateBracket (fun _ _ _ => 0) policy order.toOrder bar at_ = .ok fills)
    (hfill : fill ∈ fills) : FillOf order fill := by
  have hone : ∀ {price reason}, (do
      let fill ← fillAt (fun _ _ _ => 0) policy order.toOrder at_ order.remainingQuantity price
        reason
      return [fill] : Except FillError (List (Fill ℕ ℕ))) = .ok fills → FillOf order fill := by
    intro price reason h
    obtain ⟨fill', hfill', h⟩ := of_bind h
    obtain rfl := ok.inj h
    obtain rfl := mem_singleton.mp hfill
    exact fillAt_of hfill'
  have hnone : (.ok [] : Except FillError (List (Fill ℕ ℕ))) = .ok fills → FillOf order fill := by
    intro h
    obtain rfl := ok.inj h
    cases hfill
  unfold evaluateBracket at h
  obtain ⟨values, -, h⟩ := of_bind h
  obtain ⟨ok, -, h⟩ := of_bind h
  split at h
  · exact hnone h
  · split at h
    · split at h
      · exact hnone h
      · split at h
        · exact hone h
        · split at h
          · exact hone h
          · exact hnone h
    · cases h

theorem evaluate_of (h : evaluate (fun _ _ _ => 0) policy order.toOrder bar at_ = .ok (some fill)) :
    FillOf order fill := by
  unfold evaluate at h
  obtain ⟨values, -, h⟩ := of_bind h
  obtain ⟨ok, -, h⟩ := of_bind h
  split at h
  · cases h
  · obtain ⟨found, -, h⟩ := of_bind h
    split at h
    · cases h
    · obtain ⟨fill', hfill, heq⟩ := map_eq_ok.mp h
      obtain rfl := some.inj heq
      exact fillAt_of hfill

theorem evaluateOrder_eq_ok (h : evaluateOrder policy bars timestamp order = .ok (some fill)) :
    FillOf order fill := by
  unfold evaluateOrder at h
  split at h
  · cases h
  · split at h
    · obtain ⟨fills, hfills, hhead⟩ := map_eq_ok.mp (tried_eq_ok.mp h)
      exact evaluateBracket_of hfills (mem_of_head? hhead)
    · exact evaluate_of (tried_eq_ok.mp h)

theorem openOrders_replace (book : Book) (order : Order) :
    (book.replace order).openOrders.Sublist book.openOrders :=
  eraseP_sublist

@[simp] theorem portfolio_close (book : Book) (members : List Order) (status : Fills.OrderStatus) :
    (book.close members status).portfolio = book.portfolio := by
  unfold Book.close
  induction members generalizing book with
  | nil => rfl
  | cons order members ih => exact ih _

theorem openOrders_close (book : Book) (members : List Order) (status : Fills.OrderStatus) :
    (book.close members status).openOrders.Sublist book.openOrders := by
  unfold Book.close
  induction members generalizing book with
  | nil => exact List.Sublist.refl _
  | cons order members ih => exact (ih _).trans (openOrders_replace _ _)

theorem processOrdinary_sublist (h : processOrdinary policy bars timestamp book order = .ok book') :
    book'.openOrders.Sublist book.openOrders := by
  unfold processOrdinary at h
  split at h
  · obtain rfl := ok.inj h
    exact openOrders_replace _ _
  · obtain ⟨candidate, -, h⟩ := of_bind h
    cases candidate with
    | none =>
      obtain rfl := ok.inj h
      exact List.Sublist.refl _
    | some candidate =>
      change applyOrdinary _ _ _ = _ at h
      unfold applyOrdinary at h
      split at h
      · obtain rfl := ok.inj h
        exact openOrders_replace _ _
      · obtain rfl := ok.inj h
        exact openOrders_replace _ _
      · cases h

theorem processGroup_sublist {group : String × List Order}
    (h : processGroup policy bars timestamp book group = .ok book') :
    book'.openOrders.Sublist book.openOrders := by
  unfold processGroup at h
  split at h
  · obtain rfl := ok.inj h
    exact openOrders_close _ _ _
  · obtain ⟨candidates, -, h⟩ := of_bind h
    cases hall : candidates.mapM id with
    | none =>
      rw [hall] at h
      obtain rfl := ok.inj h
      exact List.Sublist.refl _
    | some fills =>
      rw [hall] at h
      change applyGroup _ _ _ _ = _ at h
      unfold applyGroup at h
      split at h
      · obtain rfl := ok.inj h
        exact openOrders_close _ _ _
      · obtain rfl := ok.inj h
        exact openOrders_close _ _ _
      · cases h

/-- **Processing closes orders** and opens none. -/
theorem processOpenOrders_sublist (h : processOpenOrders policy bars timestamp book = .ok book') :
    book'.openOrders.Sublist book.openOrders := by
  obtain ⟨between, hordinary, hgroups⟩ := of_bind h
  refine (foldlM_inv (P := fun b : Book => b.openOrders.Sublist between.openOrders) ?_
    (List.Sublist.refl _) hgroups).trans (foldlM_inv
      (P := fun b : Book => b.openOrders.Sublist book.openOrders) ?_ (List.Sublist.refl _)
      hordinary)
  · intro b g _ b' hb hstep
    exact (processGroup_sublist hstep).trans hb
  · intro b o _ b' hb hstep
    exact (processOrdinary_sublist hstep).trans hb

theorem processOpenOrders_nil (hopen : book.openOrders = []) :
    processOpenOrders policy bars timestamp book = .ok book := by
  unfold processOpenOrders atomicGroups
  rw [hopen]
  rfl

theorem applyFills_pair {f f' : Fill ℕ ℕ} {p q : Portfolio ℕ}
    (h : applyFills [f, f'] p = .ok () q) :
    ∃ between snap snap',
      applyFill f p = .ok snap between ∧ applyFill f' between = .ok snap' q := by
  change (applyFill f >>= fun _ => applyFill f' >>= fun _ => pure ()) p = _ at h
  cases hf : applyFill f p with
  | error e p' =>
    rw [bind_of_error hf] at h
    cases h
  | ok snap between =>
    rw [bind_of_ok hf] at h
    cases hf' : applyFill f' between with
    | error e p' =>
      rw [bind_of_error hf'] at h
      cases h
    | ok snap' q' =>
      rw [bind_of_ok hf'] at h
      cases h
      exact ⟨between, snap, snap', rfl, hf'⟩

/-- What is filled of two orders: both, or neither. -/
def BothFilled (a b : Order) (p q : Portfolio ℕ) : Prop :=
  ∃ fa fb between snap snap', FillOf a fa ∧ FillOf b fb
    ∧ applyFill fa p = .ok snap between ∧ applyFill fb between = .ok snap' q

variable {a b : Order}

theorem openOrders_close_pair (hopen : book.openOrders = [a, b]) (status : Fills.OrderStatus) :
    (book.close [a, b] status).openOrders = [] := by
  show (book.openOrders.eraseP fun o => o.id = a.id).eraseP (fun o => o.id = b.id) = []
  rw [hopen, eraseP_cons_of_pos (by simp), eraseP_cons_of_pos (by simp)]

variable {g : String}

theorem processGroup_pair (hopen : book.openOrders = [a, b]) (ha : a.expiresAt = none)
    (hb : b.expiresAt = none) (h : processGroup policy bars timestamp book (g, [a, b]) = .ok book')
    : book' = book ∨ book'.openOrders = []
      ∧ (book'.portfolio = book.portfolio ∨ BothFilled a b book.portfolio book'.portfolio) := by
  have hfresh : ¬ ∃ order ∈ [a, b], isExpired order timestamp := by
    rintro ⟨order, horder, t, ht, -⟩
    rcases mem_pair.mp horder with rfl | rfl
    · cases ha.symm.trans ht
    · cases hb.symm.trans ht
  unfold processGroup at h
  rw [if_neg hfresh] at h
  obtain ⟨candidates, hcandidates, h⟩ := of_bind h
  rw [mapM_cons] at hcandidates
  obtain ⟨x, hx, hcandidates⟩ := of_bind hcandidates
  rw [mapM_cons] at hcandidates
  obtain ⟨rest, hrest, hcandidates⟩ := of_bind hcandidates
  obtain ⟨y, hy, hrest⟩ := of_bind hrest
  obtain rfl := ok.inj hrest
  obtain rfl := ok.inj hcandidates
  -- a leg without a fill leaves the group as it is
  cases x with
  | none => exact .inl (ok.inj h).symm
  | some fa =>
    cases y with
    | none => exact .inl (ok.inj h).symm
    | some fb =>
      change applyGroup book g [a, b] (numbered book.fillCounter [fa, fb]) = _ at h
      unfold applyGroup at h
      have hfa := evaluateOrder_eq_ok hx
      have hfb := evaluateOrder_eq_ok hy
      split at h
      · rename_i portfolio hfills
        obtain rfl := ok.inj h
        obtain ⟨between, snap, snap', hfirst, hsecond⟩ := applyFills_pair hfills
        refine .inr ⟨openOrders_close_pair hopen _, .inr ⟨{ fa with id := book.fillCounter + 1 },
          { fb with id := book.fillCounter + 2 }, between, snap, snap', ?_, ?_, hfirst, ?_⟩⟩
        · exact ⟨hfa.instrument, hfa.side, hfa.quantity⟩
        · exact ⟨hfb.instrument, hfb.side, hfb.quantity⟩
        · rw [portfolio_close]
          exact hsecond
      · obtain rfl := ok.inj h
        exact .inr ⟨openOrders_close_pair hopen _, .inl (portfolio_close _ _ _)⟩
      · cases h

/-- **A group of two** waits, or it is closed, and then both are filled or neither is. -/
theorem processOpenOrders_pair (hopen : book.openOrders = [a, b]) (ha : a.group = some g)
    (hb : b.group = some g) (hexpires : a.expiresAt = none) (hexpires' : b.expiresAt = none)
    (h : processOpenOrders policy bars timestamp book = .ok book') :
    book' = book ∨ book'.openOrders = []
      ∧ (book'.portfolio = book.portfolio ∨ BothFilled a b book.portfolio book'.portfolio) := by
  have hordinary : book.openOrders.filter (fun order => order.group = none) = [] := by
    simp [hopen, ha, hb]
  have hgroups : atomicGroups book.openOrders = [(g, [a, b])] := by
    simp [atomicGroups, hopen, ha, hb, List.orderBy]
  unfold processOpenOrders at h
  rw [hordinary, hgroups] at h
  dsimp only at h
  rw [foldlM_nil, pure_bind, foldlM_cons] at h
  obtain ⟨closed, hgroup, h⟩ := of_bind h
  obtain rfl := ok.inj h
  exact processGroup_pair hopen hexpires hexpires' hgroup

end Processing

/-! ## A bar -/

section Bars

variable {s : Strategy} {spec : BacktestSpec} {bundle : MarketBundle} {r r' : Run s.State}

/-- The positions are as large as before. -/
structure SameQuantities (p q : Portfolio ℕ) : Prop where
  spot : q.spot.quantity = p.spot.quantity
  perpetual : q.perpetual.quantity = p.perpetual.quantity

theorem SameQuantities.refl (p : Portfolio ℕ) : SameQuantities p p := ⟨rfl, rfl⟩

variable {p q : Portfolio ℕ}

theorem SameQuantities.trans {t : Portfolio ℕ} (h : SameQuantities p q) (h' : SameQuantities q t) :
    SameQuantities p t :=
  ⟨h'.spot.trans h.spot, h'.perpetual.trans h.perpetual⟩

variable {closes : Closes}

theorem spotMark_marked (p : Portfolio ℕ)
    (h : ∀ item ∈ closes.marks.items, (Portfolio.markOf item).isSome) :
    (p.marked closes.marks.items).spotMark = some closes.spot ∧ 0 < closes.spot := by
  have hspot : Portfolio.markOf ("spot", some closes.spot)
      = if 0 < closes.spot then some (.spot, closes.spot) else none := rfl
  have hfirst := h _ mem_cons_self
  rw [hspot] at hfirst
  split_ifs at hfirst with hpos
  · refine ⟨?_, hpos⟩
    rw [if_pos hpos] at hspot
    have hmarked : p.marked closes.marks.items = (p.withMark .spot closes.spot).marked
        (closes.perpetual.toList.map fun close => ("perpetual", some close)) := by
      show Portfolio.marked p (_ :: _) = _
      rw [Portfolio.marked, hspot]
    rw [hmarked]
    cases closes.perpetual with
    | none => rfl
    | some close =>
      have hperpetual : Portfolio.markOf ("perpetual", some close)
          = if 0 < close then some (.perpetual, close) else none := rfl
      show (Portfolio.marked _ [("perpetual", some close)]).spotMark = _
      rw [Portfolio.marked, hperpetual]
      split_ifs <;> rfl
  · cases hfirst

variable {bar : Bar}

theorem closesOf_spot {bars : InstrumentKind → Option (List (String × Fills.Cell))}
    (h : closesOf bars bar = .ok closes) : closes.spot = bar.close := by
  unfold closesOf at h
  split at h
  · cases h
    rfl
  · split at h
    · cases h
    · obtain ⟨close, -, h⟩ := of_bind h
      cases h
      rfl

theorem sameQuantities_marked (p : Portfolio ℕ) (items : List (String × Option ℚ)) (timestamp : ℤ) :
    SameQuantities p ((p.marked items).seen timestamp) := by
  obtain ⟨-, hspot, hperpetual⟩ := p.marked_unchanged items
  exact ⟨congrArg PositionState.quantity hspot, congrArg PositionState.quantity hperpetual⟩

variable {fallback : ℚ}

theorem applySettlement_same {frame : Frame} {row : Row} {a b : Portfolio ℕ × ℕ}
    (h : applySettlement frame fallback a row = .ok b) : SameQuantities a.1 b.1 := by
  obtain ⟨price, -, h⟩ := of_bind h
  obtain ⟨rate, -, h⟩ := of_bind h
  obtain ⟨⟨current, marked⟩, hmark, h⟩ := of_bind h
  obtain ⟨rfl, -⟩ := mark_eq_ok (perform_eq_ok.mp hmark)
  have hsame := sameQuantities_marked a.1 [("perpetual", some price)] row.timestamp
  dsimp only at h
  split at h
  · obtain rfl := ok.inj h
    exact hsame
  · obtain ⟨⟨snap, paid⟩, hpaid, h⟩ := of_bind h
    obtain rfl := ok.inj h
    obtain rfl := applyFunding_eq_ok (perform_eq_ok.mp hpaid)
    exact hsame.trans ⟨rfl, rfl⟩

variable {m n : ℕ} {timestamp : ℤ}

/-- **Funding** changes no position. -/
theorem applyAvailableFunding_same {previous : Option ℤ}
    (h : applyAvailableFunding bundle p timestamp previous fallback n = .ok (q, m)) :
    SameQuantities p q := by
  unfold applyAvailableFunding at h
  split at h
  · cases h
    exact .refl p
  · split at h
    · exact foldlM_inv (P := fun x : Portfolio ℕ × ℕ => SameQuantities p x.1)
        (fun b row _ b' hb hstep => hb.trans (applySettlement_same hstep)) (.refl p) h
    · cases h
      exact .refl p

/-- **What is carried to the strategy.** -/
structure Prepared (s : Strategy) (spec : BacktestSpec) (bundle : MarketBundle) (r : Run s.State)
    (bar : Bar) (r' : Run s.State) (closes : Closes) (snapshot : PortfolioSnapshot) : Prop where
  processed : ∃ (funded : Portfolio ℕ) (book : Book), SameQuantities r.portfolio funded
    ∧ processOpenOrders spec.policy (instrumentBars bundle bar) bar.timestamp
        { r.toBook with portfolio := funded } = .ok book
    ∧ SameQuantities book.portfolio r'.portfolio ∧ r'.openOrders = book.openOrders
  closes_eq : closesOf (instrumentBars bundle bar) bar = .ok closes
  spotMark_eq : r'.portfolio.spotMark = some bar.close
  close_pos : 0 < bar.close
  snapshot_eq : snapshot = r'.portfolio.snapshotAt bar.timestamp
  snapshots_eq : r'.snapshots = r.snapshots ++ [snapshot]
  strategy_eq : r'.strategy = r.strategy
  spot_nonneg : 0 ≤ r'.portfolio.spot.quantity
  cash_nonneg : 0 ≤ r'.portfolio.cash

variable {snapshot : PortfolioSnapshot}

theorem prepare_eq_ok (h : prepare s spec bundle r bar = .ok (r', closes, snapshot)) :
    Prepared s spec bundle r bar r' closes snapshot := by
  obtain ⟨⟨funded, counter⟩, hfunded, h⟩ := of_bind h
  obtain ⟨book, hbook, h⟩ := of_bind h
  obtain ⟨closes', hcloses, h⟩ := of_bind h
  obtain ⟨⟨snap, marked⟩, hmark, h⟩ := of_bind h
  cases h
  obtain ⟨rfl, rfl, hvalid, hlong, hcash⟩ := mark_eq_ok (perform_eq_ok.mp hmark)
  have hmarked := sameQuantities_marked book.portfolio closes.marks.items bar.timestamp
  obtain ⟨hspot, hpos⟩ := spotMark_marked book.portfolio hvalid
  rw [closesOf_spot hcloses] at hspot hpos
  exact ⟨⟨funded, book, applyAvailableFunding_same hfunded, hbook, hmarked, rfl⟩, hcloses, hspot,
    hpos, rfl, rfl, rfl, hlong, hcash⟩

/-- Until the strategy is asked, orders are closed, and none is opened. -/
theorem Prepared.openOrders_sublist (h : Prepared s spec bundle r bar r' closes snapshot) :
    r'.openOrders.Sublist r.openOrders := by
  obtain ⟨funded, book, -, hprocessed, -, hopen⟩ := h.processed
  rw [hopen]
  exact (processOpenOrders_sublist hprocessed :)

theorem validated_eq_ok {i j : OrderIntent} (h : i.validated = .ok j) : j = i := by
  obtain ⟨-, h⟩ := of_raiseIf h
  obtain ⟨_, -, h⟩ := of_bind h
  obtain ⟨_, -, h⟩ := of_bind h
  obtain ⟨_, -, h⟩ := of_bind h
  obtain ⟨_, -, h⟩ := of_bind h
  obtain ⟨_, -, h⟩ := of_bind h
  obtain ⟨-, h⟩ := of_raiseIf h
  obtain ⟨-, h⟩ := of_raiseIf h
  obtain ⟨-, h⟩ := of_raiseIf h
  exact (ok.inj h).symm

/-- **What becomes of an intent.** -/
structure OrderOf (closes : Closes) (intent : OrderIntent) (order : Order) : Prop where
  instrument : order.instrument = intent.instrument
  side : order.side = intent.side
  orderType : order.orderType = intent.orderType
  quantity : orderQuantity intent (closes.of intent.instrument) = .ok order.quantity
  remaining : order.remainingQuantity = order.quantity
  limitPrice : order.limitPrice = intent.limitPrice
  stopPrice : order.stopPrice = intent.stopPrice
  takeProfitPrice : order.takeProfitPrice = intent.takeProfitPrice
  expiresAt : order.expiresAt = none
  groupId : order.groupId = intent.groupId
  atomicGroup : order.atomicGroup = intent.atomicGroup

theorem intentToOrder_eq_ok {supported : List InstrumentKind} {intent : OrderIntent} {counter : ℕ}
    {order : Order}
    (h : intentToOrder supported intent timestamp (closes.of intent.instrument) counter =
      .ok order) :
    OrderOf closes intent order := by
  obtain ⟨-, h⟩ := of_raiseIf h
  obtain ⟨quantity, hquantity, h⟩ := of_bind h
  unfold Order.make at h
  split at h
  · cases h
    exact ⟨rfl, rfl, rfl, hquantity, rfl, rfl, rfl, rfl, rfl, rfl, rfl⟩
  · cases h

/-- **The intents become open orders**, in their order, and nothing else changes. -/
structure Placed (closes : Closes) (intents : List OrderIntent) (r r' : Run s.State) : Prop where
  openOrders : ∃ added, r'.openOrders = r.openOrders ++ added
    ∧ List.Forall₂ (OrderOf closes) intents added
  portfolio : r'.portfolio = r.portfolio
  snapshots : r'.snapshots = r.snapshots
  strategy : r'.strategy = r.strategy

theorem placed_of_foldlM {intents : List OrderIntent}
    (h : intents.foldlM (place s timestamp closes) r = .ok r') : Placed closes intents r r' := by
  induction intents generalizing r with
  | nil =>
    cases h
    exact ⟨⟨[], (append_nil _).symm, .nil⟩, rfl, rfl, rfl⟩
  | cons intent intents ih =>
    rw [foldlM_cons] at h
    obtain ⟨next, hnext, h⟩ := of_bind h
    obtain ⟨order, horder, hnext⟩ := of_bind hnext
    cases hnext
    obtain ⟨⟨added, hopen, hadded⟩, hportfolio, hsnapshots, hstrategy⟩ := ih h
    refine ⟨⟨order :: added, ?_, .cons (intentToOrder_eq_ok horder) hadded⟩, hportfolio, hsnapshots,
      hstrategy⟩
    rw [hopen, append_assoc, singleton_append]

variable {position : ℕ}

/-- **What the strategy answers** at a bar, if it is asked. -/
theorem askStrategy_eq_ok (h : askStrategy s bundle position bar closes snapshot r = .ok r') :
    position + 1 < s.warmupBars ∧ r' = r
    ∨ s.warmupBars ≤ position + 1 ∧ ∃ intents,
      s.onBar r.strategy (contextAt s bundle position bar snapshot r.openOrders)
        = .ok (r'.strategy, intents)
      ∧ Placed closes intents { r with strategy := r'.strategy } r' := by
  unfold askStrategy at h
  split at h
  · rename_i hwarm
    obtain ⟨⟨state, intents⟩, hcall, h⟩ := of_bind h
    obtain ⟨-, -, h⟩ := of_bind h
    have hplaced := placed_of_foldlM h
    have hstate : r'.strategy = state := hplaced.strategy
    refine .inr ⟨hwarm, intents, ?_, hstate ▸ hplaced⟩
    unfold callStrategy at hcall
    split at hcall
    · rename_i out hout
      cases hcall
      rw [hout, hstate]
    · cases hcall
  · rename_i hwarm
    cases h
    exact .inl ⟨not_le.mp hwarm, rfl⟩

/-! ## Runs -/

theorem step_eq_ok {item : Bar × ℕ} (h : step s spec bundle r item = .ok r') :
    ∃ prepared closes snapshot, prepare s spec bundle r item.1 = .ok (prepared, closes, snapshot)
      ∧ askStrategy s bundle item.2 item.1 closes snapshot prepared = .ok r' := by
  obtain ⟨⟨prepared, closes, snapshot⟩, hprepared, h⟩ := of_bind h
  exact ⟨prepared, closes, snapshot, hprepared, h⟩

variable {e : s.State}

theorem runBars_zero (h : runBars s spec bundle e 0 = .ok r) :
    validateRunContract bundle = .ok () ∧ ∃ portfolio,
      Portfolio.create (some spec.initialCash) = .ok portfolio
        ∧ r = initialRun s spec portfolio e := by
  obtain ⟨_, hvalid, h⟩ := of_bind h
  refine ⟨hvalid, ?_⟩
  split at h
  · cases h
  · rename_i portfolio hportfolio
    cases h
    exact ⟨portfolio, hportfolio, rfl⟩

/-- **One bar more.** -/
theorem runBars_succ (hbar : bundle.primary[n]? = some bar) : runBars s spec bundle e (n + 1)
      = runBars s spec bundle e n >>= fun r => step s spec bundle r (bar, n) := by
  have htake : bundle.primary.zipIdx.take (n + 1) = bundle.primary.zipIdx.take n ++ [(bar, n)] := by
    rw [take_add_one, getElem?_zipIdx, hbar, Nat.zero_add]
    rfl
  unfold runBars
  rw [htake]
  cases validateRunContract bundle with
  | error e => rfl
  | ok u =>
    rw [ok_bind, ok_bind]
    cases Portfolio.create (some spec.initialCash) with
    | error e => rfl
    | ok portfolio =>
      dsimp only
      rw [foldlM_append]
      exact congrArg _ (funext fun r => foldlM_cons.trans (bind_pure _))

theorem runBars_succ_of_none (hbar : bundle.primary[n]? = none) :
    runBars s spec bundle e (n + 1) = runBars s spec bundle e n := by
  have hlength : bundle.primary.zipIdx.length ≤ n := by
    rw [length_zipIdx]
    exact List.getElem?_eq_none_iff.mp hbar
  unfold runBars
  rw [take_of_length_le (hlength.trans n.le_succ), take_of_length_le hlength]

theorem runBars_of_le (hle : m ≤ n) (h : runBars s spec bundle e n = .ok r) :
    ∃ r', runBars s spec bundle e m = .ok r' := by
  induction n, hle using Nat.le_induction generalizing r with
  | base => exact ⟨r, h⟩
  | succ n _ ih =>
    cases hbar : bundle.primary[n]? with
    | none => exact ih ((runBars_succ_of_none hbar).symm.trans h)
    | some bar =>
      rw [runBars_succ hbar] at h
      obtain ⟨between, hbetween, -⟩ := of_bind h
      exact ih hbetween

variable {P : Run s.State → Prop}

/-- **From a bar on**: what holds after it and is kept by each later one holds in the end. -/
theorem runBars_from (hstart : ∀ r, runBars s spec bundle e m = .ok r → P r)
    (hstep : ∀ k bar r r', m ≤ k → bundle.primary[k]? = some bar → P r →
      step s spec bundle r (bar, k) = .ok r' → P r')
    (hle : m ≤ n) (h : runBars s spec bundle e n = .ok r) : P r := by
  induction n, hle using Nat.le_induction generalizing r with
  | base => exact hstart r h
  | succ n hle ih =>
    cases hbar : bundle.primary[n]? with
    | none => exact ih ((runBars_succ_of_none hbar).symm.trans h)
    | some bar =>
      rw [runBars_succ hbar] at h
      obtain ⟨between, hbetween, hlast⟩ := of_bind h
      exact hstep n bar between r hle hbar (ih hbetween) hlast

/-- **An invariant of the loop** holds after every bar. -/
theorem runBars_inv
    (hstart : ∀ portfolio, Portfolio.create (some spec.initialCash) = .ok portfolio →
      P (initialRun s spec portfolio e))
    (hstep : ∀ r item r', P r → step s spec bundle r item = .ok r' → P r')
    (h : runBars s spec bundle e n = .ok r) : P r := by
  obtain ⟨-, -, h⟩ := of_bind h
  split at h
  · cases h
  · rename_i portfolio hportfolio
    exact foldlM_inv (fun b item _ b' hb hb' => hstep b item b' hb hb')
      (hstart portfolio hportfolio) h

/-- The last bar that a strategy is shown is the bar it is asked at. -/
theorem contextAt_last {openOrders : List Order} (hbar : bundle.primary[position]? = some bar) :
    (contextAt s bundle position bar snapshot openOrders).bars.getLast? = some bar := by
  have htake : bundle.primary.take (position + 1) = bundle.primary.take position ++ [bar] := by
    rw [take_add_one, hbar]
    rfl
  have hlength : (bundle.primary.take position).length = position :=
    length_take_of_le (List.getElem?_eq_some_iff.mp hbar).1.le
  show (EventRunner.strategyHistory _ _ _ _).getLast? = some bar
  unfold EventRunner.strategyHistory
  rw [htake]
  split
  · exact getLast?_concat
  · rw [drop_append_of_le_length hlength.ge, getLast?_concat]

structure Decided (s : Strategy) (spec : BacktestSpec) (bundle : MarketBundle) (e : s.State)
    (position : ℕ) (bar : Bar) (r prepared : Run s.State) (closes : Closes)
    (d : Decision s.State) : Prop where
  bar_eq : bundle.primary[position]? = some bar
  run_eq : runBars s spec bundle e position = .ok r
  prepare_eq : Prepared s spec bundle r bar prepared closes
    (prepared.portfolio.snapshotAt bar.timestamp)
  warmed : s.warmupBars ≤ position + 1
  context_eq : d.context = contextAt s bundle position bar
    (prepared.portfolio.snapshotAt bar.timestamp) prepared.openOrders
  before_eq : d.before = r.strategy
  answer : s.onBar d.before d.context = .ok (d.after, d.intents)

theorem callStrategy_eq_ok {state : s.State} {context : StrategyContext}
    {out : s.State × List OrderIntent} (h : callStrategy s state context = .ok out) :
    s.onBar state context = .ok out := by
  unfold callStrategy at h
  split at h
  · rename_i out' hout
    exact hout.trans (congrArg _ (ok.inj h))
  · cases h

theorem decisionAt_eq_some {d : Decision s.State}
    (h : decisionAt s spec bundle e position = some d) :
    ∃ bar r prepared closes, Decided s spec bundle e position bar r prepared closes d := by
  obtain ⟨bar, hbar, h⟩ := bind_eq_some_iff.mp h
  obtain ⟨r, hr, h⟩ := bind_eq_some_iff.mp h
  obtain ⟨⟨prepared, closes, snapshot⟩, hprepare, h⟩ := bind_eq_some_iff.mp h
  have hprepared := prepare_eq_ok (toOption_eq_some.mp hprepare)
  obtain rfl := hprepared.snapshot_eq
  dsimp only at h
  split at h
  · rename_i hwarm
    obtain ⟨⟨after, intents⟩, hcall, h⟩ := bind_eq_some_iff.mp h
    obtain rfl := some.inj h
    exact ⟨bar, r, prepared, closes, hbar, toOption_eq_some.mp hr, hprepared, hwarm, rfl,
      hprepared.strategy_eq, callStrategy_eq_ok (toOption_eq_some.mp hcall)⟩
  · cases h

/-- **One bar more** is a preparation, and then a decision that is placed, or a bar before the
warm-up. -/
theorem runBars_succ_eq_ok (hbar : bundle.primary[n]? = some bar)
    (h : runBars s spec bundle e (n + 1) = .ok r') :
    ∃ r prepared closes, runBars s spec bundle e n = .ok r
      ∧ Prepared s spec bundle r bar prepared closes (prepared.portfolio.snapshotAt bar.timestamp)
      ∧ (n + 1 < s.warmupBars ∧ r' = prepared ∨ ∃ d, decisionAt s spec bundle e n = some d
          ∧ Decided s spec bundle e n bar r prepared closes d ∧ d.after = r'.strategy
          ∧ Placed closes d.intents { prepared with strategy := r'.strategy } r') := by
  rw [runBars_succ hbar] at h
  obtain ⟨r, hr, hstep⟩ := of_bind h
  obtain ⟨prepared, closes, snapshot, hprepare, hanswer⟩ := step_eq_ok hstep
  have hprepared := prepare_eq_ok hprepare
  obtain rfl := hprepared.snapshot_eq
  refine ⟨r, prepared, closes, hr, hprepared, ?_⟩
  rcases askStrategy_eq_ok hanswer with ⟨hwarm, rfl⟩ | ⟨hwarm, intents, hcall, hplaced⟩
  · exact .inl ⟨hwarm, rfl⟩
  · refine .inr ⟨⟨contextAt s bundle n bar (prepared.portfolio.snapshotAt bar.timestamp)
      prepared.openOrders, prepared.strategy, r'.strategy, intents⟩, ?_,
      ⟨hbar, hr, hprepared, hwarm, rfl, hprepared.strategy_eq, hcall⟩, rfl, hplaced⟩
    refine bind_eq_some_iff.mpr ⟨bar, hbar, bind_eq_some_iff.mpr
      ⟨r, toOption_eq_some.mpr hr, bind_eq_some_iff.mpr
        ⟨(prepared, closes, _), toOption_eq_some.mpr hprepare, ?_⟩⟩⟩
    dsimp only
    rw [if_pos hwarm]
    refine bind_eq_some_iff.mpr ⟨(r'.strategy, intents), toOption_eq_some.mpr ?_, rfl⟩
    unfold callStrategy
    rw [hcall]

end Bars

/-! ## Sample runs -/

def hour : ℤ := 3600000000

def flatBar (price : ℚ) : Bar := ⟨timestamp, price, price, price, price, 1⟩

theorem freePolicy_fee : (0 : ℚ) ≤ 0 := le_rfl

theorem freePolicy_slippage : (0 : ℚ) ≤ 0 ∧ (0 : ℚ) < 10000 := by norm_num

/-- No costs. -/
def freePolicy : FillPolicy := ⟨0, 0, freePolicy_fee, freePolicy_slippage⟩

/-- 10000 of cash, and no costs. -/
def sampleSpec : BacktestSpec := ⟨10000, freePolicy⟩

end Engine

end Qt.Backtest
