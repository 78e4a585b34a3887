import QuantTrading.UsageBudgets

/-!
# The trading ledger of the hub

`qt.agent_hub.trading`: a tenant's orders, cash and positions, in one SQLite
database. An order is reserved in a transaction, sent outside of any, and
accounted in another one – by the call that sent it, when it hears from the
venue, or by `reconcile`, which asks the venue. On paper the order is filled
against the quote in the transaction that reserves it.

Every statement is scoped to a tenant and a mode, so the model is of the rows
of one such scope. The checks that write nothing and whose values nothing reads
later – the age, the identity and the spread of the quote, the texts of the
identifiers, the balances read before the reservation – are left out: a call
that they stop is a call that is not made. The arithmetic is that of the
default decimal context.
-/

namespace Qt

open Except
open SigDigits

/-! ## Rows -/

/-- A product in the default context. -/
def defaultMul (x y : ℚ) : ℚ := roundSig 28 (x * y)

/-- A quotient in the default context. -/
def defaultDiv (x y : ℚ) : ℚ := roundSig 28 (x / y)

/-- The keys of `_CURRENCIES`. -/
inductive TradeVenue | binance | polymarket
deriving DecidableEq, Repr

/-- The keys of `_RISK_MODES`. -/
inductive TradeRiskMode | active | frozen | reduceOnly
deriving DecidableEq, Repr

/-- The members of `_OPEN` and of `_TERMINAL`. -/
inductive TradeStatus
  | preparing | submitting | unknown | new | partiallyFilled | settlementPending
  | filled | expired | canceled | rejected
deriving DecidableEq, Repr

def TradeStatus.Open (s : TradeStatus) : Prop :=
  s ∈ [.preparing, .submitting, .unknown, .new, .partiallyFilled, .settlementPending]
deriving Decidable

/-- What `_decimal` admits, next to zero. -/
def InRange (x : ℚ) : Prop := 1 / 10 ^ 18 ≤ x ∧ x ≤ 10 ^ 18
deriving Decidable

/-- **A normalized intent**: what `_intent` returns. -/
structure TradeIntent where
  idempotencyKey : String
  venue : TradeVenue
  instrument : String
  side : Side
  quantity : ℚ
  limitPrice : ℚ
  quoteTimestamp : ℚ
  expectedProbability : Option ℚ
  quantity_range : InRange quantity
  limitPrice_range : InRange limitPrice
  polymarket_range : venue = .polymarket → limitPrice < 1
deriving DecidableEq

/-- The record of an order, as it is stored and as a call holds it. -/
structure TradeRecord where
  intent : TradeIntent
  status : TradeStatus
  filledQty : ℚ
  quoteQty : ℚ
  feeQuote : ℚ
  feeBase : ℚ
  exchangeId : String
  accounted : Bool
deriving DecidableEq

/-- A row of `hub_trade_orders`. -/
structure TradeOrder where
  idem : String
  fingerprint : Sha256
  day : Date
  reserved : ℚ
  record : TradeRecord
deriving DecidableEq

/-- A row of `hub_trade_accounts`. What it was inserted with, `start`, no code
reads. -/
structure TradeAccount where
  venue : TradeVenue
  cash : ℚ
  start : ℚ
deriving DecidableEq

/-- A row of `hub_trade_positions`. -/
structure TradePosition where
  venue : TradeVenue
  instrument : String
  quantity : ℚ
  cost : ℚ
  realized : ℚ
deriving DecidableEq

def TradePosition.key (p : TradePosition) : TradeVenue × String := (p.venue, p.instrument)

/-- What happened to an order: no code reads it. -/
inductive TradeEvent
  | sent (key : String)
  | accounted (key : String)
deriving DecidableEq

/-- **The ledger** of a tenant in a mode. -/
structure TradeLedger where
  orders : Table TradeOrder.idem
  accounts : Table TradeAccount.venue
  positions : Table TradePosition.key
  riskMode : TradeRiskMode
  log : List TradeEvent

/-- **The service**, as it is configured: `paper` is the mode, and the two
functions are the digests of an intent and of its key. -/
structure TradingService where
  paper : Bool
  maxOrderQuote : ℚ
  maxPositionQuote : ℚ
  maxDailyQuote : ℚ
  frozenAllowsProtectiveExit : Bool
  sha256 : TradeIntent → Sha256
  orderId : String → String
  maxDailyQuote_pos : 0 < maxDailyQuote

/-- What a venue says of an order. A status that is not known is `none`. -/
structure TradeResult where
  status : Option TradeStatus
  side : Option Side
  filledQty : ℚ
  quoteQty : ℚ
  feeBase : ℚ
  feeQuote : ℚ
  exchangeId : String
deriving DecidableEq

/-- The part of a quote that a fill on paper reads. -/
structure TradeQuote where
  bid : ℚ
  ask : ℚ
  bidSize : ℚ
  askSize : ℚ
deriving DecidableEq

/-- The balances of the account at the venue. -/
structure TradeBalances where
  cash : ℚ
  quantity : ℚ
deriving DecidableEq

/-- A call of `submit`, with what it reads before its first transaction. -/
structure TradeCall where
  intent : TradeIntent
  quote : TradeQuote
  balances : Option TradeBalances
  day : Date

/-! ## Accounting -/

def tradingError (code : String) : Exc := .valueError code

/-- `_decimal`. -/
def tradeDecimal (x : ℚ) : Except Exc ℚ := do
  raiseIf (x < 0) (tradingError "invalid_number")
  raiseIf (10 ^ 18 < x ∨ x ≠ 0 ∧ x < 1 / 10 ^ 18) (tradingError "number_out_of_range")
  return x

/-- The row of a position, or what stands for one that is not there. -/
def TradeLedger.position (l : TradeLedger) (venue : TradeVenue) (instrument : String) :
    TradePosition :=
  (l.positions.find? (venue, instrument)).getD ⟨venue, instrument, 0, 0, 0⟩

def TradeLedger.save (l : TradeLedger) (record : TradeRecord) : TradeLedger :=
  { l with
    orders := l.orders.update record.intent.idempotencyKey (fun o => { o with record := record })
      (fun _ => rfl) }

/-- The checks of an execution result, before anything is read. -/
def TradeRecord.check (record : TradeRecord) (result : TradeResult) : Except Exc TradeStatus := do
  raiseIf (∃ side ∈ result.side, side ≠ record.intent.side) (tradingError "execution_side_mismatch")
  match result.status with
  | none => .error (tradingError "unknown_execution_status")
  | some status => do
    let qty ← tradeDecimal result.filledQty
    let gross ← tradeDecimal result.quoteQty
    let feeBase ← tradeDecimal result.feeBase
    let feeQuote ← tradeDecimal result.feeQuote
    let limit := record.intent.limitPrice
    raiseIf (record.intent.quantity < qty ∨ ¬ (qty = 0 ↔ gross = 0) ∨ status = .filled ∧ qty = 0)
      (tradingError "invalid_execution_quantities")
    raiseIf (status = .rejected ∧ qty ≠ 0 ∨ qty = 0 ∧ (feeBase ≠ 0 ∨ feeQuote ≠ 0))
      (tradingError "invalid_execution_fee_or_rejection")
    raiseIf (qty ≠ 0 ∧ (record.intent.side = .buy ∧ defaultMul qty limit < gross
        ∨ record.intent.side = .sell ∧ gross < defaultMul qty limit))
      (tradingError "execution_violated_limit")
    return status

/-- Cash, quantity, cost and realized profit after an execution. -/
def TradeRecord.settle (record : TradeRecord) (result : TradeResult) (cash : ℚ)
    (position : TradePosition) : Except Exc (ℚ × TradePosition) :=
  match record.intent.side with
  | .buy =>
    let paid := defaultAdd result.quoteQty result.feeQuote
    .ok (defaultSub cash paid,
      { position with
        quantity := defaultAdd position.quantity (defaultSub result.filledQty result.feeBase)
        cost := defaultAdd position.cost paid })
  | .sell => do
    let removed := defaultAdd result.filledQty result.feeBase
    raiseIf (position.quantity < removed) (tradingError "execution_position_drift")
    let basis := if position.quantity = 0 then 0
      else defaultDiv (defaultMul position.cost removed) position.quantity
    let received := defaultSub result.quoteQty result.feeQuote
    return (defaultAdd cash received,
      { position with
        quantity := defaultSub position.quantity removed
        cost := defaultSub position.cost basis
        realized := defaultAdd position.realized (defaultSub received basis) })

/-- The record of an order that is accounted. -/
def TradeRecord.account (record : TradeRecord) (status : TradeStatus) (result : TradeResult) :
    TradeRecord :=
  { record with
    status := status
    filledQty := result.filledQty
    quoteQty := result.quoteQty
    feeBase := result.feeBase
    feeQuote := result.feeQuote
    exchangeId := result.exchangeId
    accounted := true }

/-- What an accounted order keeps reserved. -/
def TradeRecord.spent (record : TradeRecord) (result : TradeResult) : ℚ :=
  defaultAdd (defaultAdd result.quoteQty result.feeQuote)
    (defaultMul result.feeBase record.intent.limitPrice)

namespace TradeLedger

/-- `INSERT OR REPLACE INTO hub_trade_positions`. -/
def putPosition (l : TradeLedger) (p : TradePosition) : TradeLedger :=
  { l with positions := (l.positions.insertOnce p).replace p }

/-- The second half of `_finish`: the statements of a terminal result. -/
def account (l : TradeLedger) (record : TradeRecord) (status : TradeStatus)
    (result : TradeResult) : Except Exc (TradeRecord × TradeLedger) :=
  match l.accounts.find? record.intent.venue with
  | none => .error (.keyError "NoneType")
  | some account => do
    let (cash, position) ← record.settle result account.cash
      (l.position record.intent.venue record.intent.instrument)
    raiseIf (cash < 0 ∨ position.quantity < 0 ∨ result.filledQty < result.feeBase)
      (tradingError "execution_budget_or_fee_drift")
    let record' := record.account status result
    return (record',
      { l.putPosition position with
        accounts := l.accounts.update record.intent.venue (fun a => { a with cash := cash })
          (fun _ => rfl)
        -- `_save`, and the statement that sets what stays reserved
        orders := l.orders.update record.intent.idempotencyKey
          (fun o => { o with record := record', reserved := record.spent result }) (fun _ => rfl)
        log := l.log ++ [.accounted record.intent.idempotencyKey] })

def finish (l : TradeLedger) (record : TradeRecord) (result : TradeResult) :
    Except Exc (TradeRecord × TradeLedger) := do
  let status ← record.check result
  match (l.orders.find? record.intent.idempotencyKey).filter (·.record.accounted) with
  | some current => return (current.record, l)
  | none =>
    if status.Open then
      let record' := { record with status := status, exchangeId := result.exchangeId }
      return (record', l.save record')
    else l.account record status result

end TradeLedger

/-- What `submit` and `reconcile` finish an order with that was not sent. -/
def TradeResult.rejected : TradeResult := ⟨some .rejected, none, 0, 0, 0, 0, ""⟩

/-! ## Reserving -/

/-- `_fee`: what a fee is estimated to be. -/
def TradeVenue.fee (venue : TradeVenue) (quantity price : ℚ) : ℚ :=
  match venue with
  | .binance => defaultMul (defaultMul quantity price) (1 / 1000)
  | .polymarket =>
    defaultMul (defaultMul (defaultMul quantity (7 / 100)) price) (defaultSub 1 price)

/-- What is reserved for an order. -/
def TradeIntent.reserve (i : TradeIntent) : ℚ :=
  defaultAdd (defaultMul i.quantity i.limitPrice) (i.venue.fee i.quantity i.limitPrice)

/-- The record of a new order. -/
def TradeIntent.record (i : TradeIntent) : TradeRecord where
  intent := i
  status := .preparing
  filledQty := 0
  quoteQty := 0
  feeQuote := 0
  feeBase := 0
  exchangeId := ""
  accounted := false

/-- `sum(..., Decimal(0))`. -/
def defaultSum (xs : List ℚ) : ℚ := xs.foldl defaultAdd 0

namespace TradeLedger

/-- What the orders to buy of a day reserve, one after the other. -/
def bought (l : TradeLedger) (day : Date) : List ℚ :=
  (l.orders.rows.filter (fun o => o.day = day ∧ o.record.intent.side = .buy)).map (·.reserved)

/-- The exposure that an order to buy is checked against. -/
def exposure (l : TradeLedger) (i : TradeIntent) : ℚ :=
  defaultSum (l.positions.rows.map (fun p =>
    if p.key = (i.venue, i.instrument) then max p.cost (defaultMul p.quantity i.limitPrice)
    else p.cost))

end TradeLedger

namespace TradingService

variable (c : TradingService)

def checkRiskMode (l : TradeLedger) (side : Side) : Except Exc Unit :=
  match l.riskMode with
  | .active => .ok ()
  | .frozen =>
    raiseIf (¬ (c.frozenAllowsProtectiveExit = true ∧ side = .sell))
      (tradingError "kill_switch_enabled")
  | .reduceOnly =>
    raiseIf (side ≠ .sell) (tradingError "reduce_only_mode_new_risk_blocked")

/-- The account that the ledger on paper starts with. -/
def openAccount (venue : TradeVenue) (l : TradeLedger) : TradeLedger :=
  if c.paper then { l with accounts := l.accounts.insertOnce ⟨venue, 1000, 1000⟩ } else l

variable (q : TradeCall)

def risk (l : TradeLedger) : Except Exc TradeLedger := do
  let i := q.intent
  checkRiskMode c l i.side
  raiseIf (∃ o ∈ l.orders.rows, o.record.status.Open)
    (tradingError "unresolved_order_reconcile_required")
  raiseIf (c.maxOrderQuote < i.reserve)
    (tradingError "max_order_quote_exceeded_including_fee_reserve")
  raiseIf (i.side = .buy ∧ c.maxDailyQuote < defaultAdd (defaultSum (l.bought q.day)) i.reserve)
    (tradingError "max_daily_quote_exceeded")
  let l' := c.openAccount i.venue l
  match l'.accounts.find? i.venue with
  | none => .error (tradingError "execution_budget_not_allocated")
  | some account => do
    raiseIf (i.side = .buy ∧ (account.cash < i.reserve ∨ ∃ b ∈ q.balances, b.cash < i.reserve))
      (tradingError "insufficient_cash")
    raiseIf (i.side = .buy ∧ c.maxPositionQuote < defaultAdd (l'.exposure i) i.reserve)
      (tradingError "max_position_quote_exceeded")
    raiseIf (i.side = .sell ∧ ((∀ p ∈ l'.positions.find? (i.venue, i.instrument), p.quantity < i.quantity)
        ∨ ∃ b ∈ q.balances, b.quantity < i.quantity))
      (tradingError "insufficient_position_no_short_selling")
    return l'

/-- The row of a new order. -/
def order : TradeOrder where
  idem := q.intent.idempotencyKey
  fingerprint := c.sha256 q.intent
  day := q.day
  reserved := q.intent.reserve
  record := q.intent.record

/-- The result of a fill on paper: the size displayed at the best price, if the
limit crosses it. -/
def paperResult : Except Exc TradeResult := do
  let i := q.intent
  let execution := if i.side = .buy then q.quote.ask else q.quote.bid
  let crossed := if i.side = .buy then execution ≤ i.limitPrice else i.limitPrice ≤ execution
  let available ← tradeDecimal (if i.side = .buy then q.quote.askSize else q.quote.bidSize)
  let filled := if crossed then min i.quantity available else 0
  return {
    status := some (if filled = i.quantity then .filled else .expired)
    side := none
    filledQty := filled
    quoteQty := defaultMul filled execution
    feeBase := 0
    feeQuote := i.venue.fee filled execution
    exchangeId := "paper-" ++ c.orderId i.idempotencyKey }

/-- What the first transaction of `submit` leaves its caller with. -/
inductive Reservation
  /-- The record of an order that is done with. -/
  | recorded (record : TradeRecord)
  /-- The record of an order to be sent. -/
  | prepared (record : TradeRecord)

/-- **The first transaction of `submit`.** -/
def reserve (l : TradeLedger) : Except Exc (Reservation × TradeLedger) :=
  match l.orders.find? q.intent.idempotencyKey with
  | some old => do
    raiseIf (old.fingerprint ≠ c.sha256 q.intent) (tradingError "idempotency_key_conflict")
    return (.recorded old.record, l)
  | none => do
    let l ← c.risk q l
    let l := { l with orders := l.orders.insertOnce (c.order q) }
    if c.paper then do
      let result ← c.paperResult q
      -- the fill is all there is of a send
      let (record, l) ← ({ l with
        log := l.log ++ [TradeEvent.sent q.intent.idempotencyKey] } : TradeLedger).finish
        q.intent.record result
      return (.recorded record, l)
    else return (.prepared q.intent.record, l)

/-- The second transaction of `submit`: the record that is to be sent, or the
one that is rejected. -/
def confirm (record : TradeRecord) (l : TradeLedger) : Except Exc (Reservation × TradeLedger) :=
  match checkRiskMode c l record.intent.side with
  | .error _ => do
    let (record, l) ← l.finish record .rejected
    return (.recorded record, l)
  | .ok () =>
    let record' := { record with status := .submitting }
    .ok (.prepared record', l.save record')

end TradingService

namespace TradeLedger

variable (l : TradeLedger)

/-- The transaction of `submit` when a guard stopped the send. -/
def reject (key : String) : Except Exc TradeLedger :=
  match l.orders.find? key with
  | none => .error (.keyError "NoneType")
  | some saved =>
    if saved.record.accounted = true ∨ ¬ saved.record.status.Open then .ok l
    else do
      let (_, l) ← l.finish saved.record .rejected
      return l

/-- The transaction of `submit` when anything else was raised. -/
def lose (key : String) : Except Exc TradeLedger :=
  match l.orders.find? key with
  | none => .error (.keyError "NoneType")
  | some saved =>
    if saved.record.accounted = true ∨ ¬ saved.record.status.Open then .ok l
    else .ok (l.save { saved.record with status := .unknown })

/-- The transaction of `reconcile` for an order, with what the venue said of
it. -/
def reconcile (key : String) (answer : Option TradeResult) : Except Exc TradeLedger :=
  match l.orders.find? key with
  | none => .error (.keyError "NoneType")
  | some current =>
    if current.record.accounted = true then .ok l
    else match answer with
      | none => .ok (l.save { current.record with status := .unknown })
      | some result =>
        match l.finish current.record result with
        | .ok (_, l) => .ok l
        | .error (.valueError _) => .ok (l.save { current.record with status := .unknown })
        | .error e => .error e

def bindExecution (c : TradingService) (venue : TradeVenue) (funding : ℚ) :
    Except Exc TradeLedger := do
  raiseIf (c.paper = true) (tradingError "explicit_matching_execution_configuration_required")
  raiseIf (funding ≤ 0) (tradingError "finite_positive_number_required")
  raiseIf (10 ^ 18 < funding ∨ funding < 1 / 10 ^ 18) (tradingError "number_out_of_range")
  let cash := min funding c.maxDailyQuote
  return { l with accounts := l.accounts.insertOnce ⟨venue, cash, cash⟩ }

end TradeLedger

/-! ## The system -/

/-- Where a call of `submit` stands after its first transaction. -/
inductive TradePhase
  /-- Before the second transaction. -/
  | prepared
  /-- Before the guard of the send. -/
  | submitting
  /-- Behind the guard. -/
  | guarded
  /-- The guard raised. -/
  | blocked
  /-- The order was sent. -/
  | sent
  /-- Something else raised. -/
  | failed
  | done
deriving DecidableEq, Repr

/-- A call of `submit`, with the record that it holds. -/
structure TradeTask where
  record : TradeRecord
  phase : TradePhase
deriving DecidableEq

def TradeTask.key (t : TradeTask) : String := t.record.intent.idempotencyKey

/-- **The system**: the ledger, the calls of `submit` that run, the orders that
`reconcile` has listed, and what the venue told it. -/
structure Trading where
  ledger : TradeLedger
  tasks : Table TradeTask.key
  listed : List String
  answers : List (String × Option TradeResult)

namespace Trading

/-- The steps of the system. -/
inductive Label
  | bindExecution (venue : TradeVenue) (funding : ℚ)
  | setRiskMode (mode : TradeRiskMode)
  /-- The first transaction of a `submit`. -/
  | reserve (q : TradeCall)
  /-- The second one. -/
  | confirm (key : String)
  /-- The guard of the send, and whether the lease is held. -/
  | guard (key : String) (held : Bool)
  /-- The order goes to the venue. -/
  | send (key : String)
  /-- The venue answers. -/
  | answer (key : String) (result : TradeResult)
  /-- The call fails, before the send or after it. -/
  | fail (key : String)
  /-- The last transaction of a call that was blocked or has failed. -/
  | recover (key : String)
  /-- `reconcile` lists the open orders. -/
  | list
  /-- `reconcile` asks the venue. -/
  | lookup (key : String) (answer : Option TradeResult)
  /-- `reconcile` takes the answer. -/
  | settle (key : String) (answer : Option TradeResult)
  | crash

/-- The call goes on to another phase. -/
def goto (w : Trading) (key : String) (phase : TradePhase) : Trading :=
  { w with tasks := w.tasks.update key (fun t => { t with phase := phase }) (fun _ => rfl) }

/-- A transaction on the ledger: one that raises changes nothing. -/
def commit (w : Trading) (x : Except Exc TradeLedger) : Trading :=
  match x with
  | .ok l => { w with ledger := l }
  | .error _ => w

variable (c : TradingService)

/-- **The first transaction of a call.** -/
def reserve (w : Trading) (q : TradeCall) : Trading :=
  match c.reserve q w.ledger with
  | .error _ => w
  | .ok (.recorded _, l) => { w with ledger := l }
  | .ok (.prepared record, l) =>
    { w with ledger := l, tasks := w.tasks.insertOnce ⟨record, .prepared⟩ }

/-- **The second transaction of a call.** -/
def confirm (w : Trading) (t : TradeTask) : Trading :=
  match c.confirm t.record w.ledger with
  | .error _ => w.goto t.key .done
  | .ok (.recorded _, l) => { w with ledger := l }.goto t.key .done
  | .ok (.prepared _, l) =>
    { w with
      ledger := l
      tasks := w.tasks.update t.key
        (fun t => { t with record := { t.record with status := .submitting }, phase := .submitting })
        (fun _ => rfl) }

/-- The step of the call of a key, if it is in one of some phases. -/
def withTask (w : Trading) (key : String) (phases : List TradePhase) (f : TradeTask → Trading) :
    Trading :=
  match w.tasks.find? key with
  | none => w
  | some t => if t.phase ∈ phases then f t else w

/-- What the venue can say to `reconcile`: nothing of an order that it was not
sent. On paper there is no venue. -/
def heard (w : Trading) (key : String) (answer : Option TradeResult) : Option TradeResult :=
  if c.paper = false ∧ TradeEvent.sent key ∈ w.ledger.log then answer else none

instance (w : Trading) (answer : String × Option TradeResult) : Decidable (answer ∈ w.answers) :=
  inferInstance

/-- **A step of the system.** -/
def step (w : Trading) : Label → Trading
  | .bindExecution venue funding => w.commit (w.ledger.bindExecution c venue funding)
  | .setRiskMode mode => { w with ledger := { w.ledger with riskMode := mode } }
  | .reserve q => w.reserve c q
  | .confirm key => w.withTask key [.prepared] (w.confirm c)
  | .guard key held => w.withTask key [.submitting, .guarded] (fun t =>
      match held, c.checkRiskMode w.ledger t.record.intent.side with
      | true, .ok () => w.goto key .guarded
      | _, _ => w.goto key .blocked)
  | .send key => w.withTask key [.guarded] (fun _ =>
      { w with ledger := { w.ledger with log := w.ledger.log ++ [TradeEvent.sent key] } }.goto key .sent)
  | .answer key result => w.withTask key [.sent] (fun t =>
      match w.ledger.finish t.record result with
      | .ok (_, l) => { w with ledger := l }.goto key .done
      | .error _ => w.goto key .failed)
  | .fail key => w.withTask key [.submitting, .guarded, .sent] (fun _ => w.goto key .failed)
  | .recover key => w.withTask key [.blocked, .failed] (fun t =>
      (w.commit (if t.phase = .blocked then w.ledger.reject key else w.ledger.lose key)).goto
        key .done)
  | .list =>
    { w with
      listed := w.listed
        ++ (w.ledger.orders.rows.filter (fun o => o.record.status.Open)).map (·.idem) }
  | .lookup key answer =>
    if key ∈ w.listed then { w with answers := w.answers ++ [(key, heard c w key answer)] } else w
  | .settle key answer =>
    if (key, answer) ∈ w.answers then
      { w with answers := w.answers.erase (key, answer) }.commit (w.ledger.reconcile key answer)
    else w
  | .crash => { w with tasks := .empty, listed := [], answers := [] }

/-- A ledger without rows, and no call. -/
def init : Trading := ⟨⟨.empty, .empty, .empty, .active, []⟩, .empty, [], []⟩

/-- The system after a run from its start. -/
def after (ls : List Label) : Trading := Machine.run (step c) init ls

end Trading

end Qt
