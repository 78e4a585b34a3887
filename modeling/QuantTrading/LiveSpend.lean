import QuantTrading.Lib.Machine
import QuantTrading.Persistence

/-!
# The daily spend of the live broker

`qt.execution.live`: a market order that passes every gate is sent, and the quote that
its response reports is added to the spend of the day.

The counter is advanced where the response has been read, so that an order that was
accepted and whose response is lost, reports no fill or reports a part of it is spent on
the exchange and is not, or not wholly, in the counter: the next order is let through
against a counter that is too low (`daily_spend_exceeded`). Where every buy that is
filled is answered by a response that reports as much as was spent, what is spent on a
day stays within the limit (`daily_spend`).

What the exchange does with an order is in the call that sends it, beside the response,
and `LiveBroker.sent` keeps it; nothing that the broker does reads it.
-/

namespace Qt.Live

open Except List Option

/-! ## Values of a response -/

inductive OrderSide | buy | sell
deriving DecidableEq, Repr

inductive OrderType | market | limit
deriving DecidableEq, Repr

/-- The exceptions of the broker, and those of its client. -/
inductive LiveError
  | liveTradingDisabled (message : String)
  | guardrailBlocked (message : String)
  | liveOrderRejected (message : String)
  | client (message : String)
deriving DecidableEq, Repr

/-- What `float` makes of a value. -/
inductive Reading
  | finite (q : ℚ)
  | nonFinite
deriving DecidableEq

/-- A value in an answer of the client. -/
inductive Value
  | none
  | bool (b : Bool)
  | float (x : Reading)
  | text (s : String)
  /-- Any other object, with its truth value. -/
  | other (truthy : Bool)
deriving DecidableEq

/-- What Python makes of texts and numbers. -/
structure Python where
  /-- `float` of a text, if it raises nothing. -/
  readFloat : String → Option Reading
  /-- The format `.2f`. -/
  fixed : ℚ → String
  /-- The format `.12g`. -/
  general : ℚ → String

/-- The truth value. -/
def Value.truthy : Value → Bool
  | .none => false
  | .bool b => b
  | .float (.finite q) => q ≠ 0
  | .float .nonFinite => true
  | .text s => s ≠ ""
  | .other truthy => truthy

/-- `a or b`. -/
def Value.or (a b : Value) : Value := if a.truthy then a else b

variable (py : Python)

/-- `float`, if it raises nothing. -/
def Value.toFloat : Value → Option Reading
  | .bool b => some (.finite (if b then 1 else 0))
  | .float x => some x
  | .text s => py.readFloat s
  | .none | .other _ => Option.none

def positiveFloat (value : Value) : Option ℚ :=
  match value with
  | .none | .bool _ => none
  | value =>
    match value.toFloat py with
    | some (.finite q) => if q ≤ 0 then none else some q
    | _ => none

variable {py}

theorem positiveFloat_pos {value : Value} {q : ℚ} (h : positiveFloat py value = some q) :
    0 < q := by
  unfold positiveFloat at h
  split at h
  · cases h
  · cases h
  · split at h
    · split_ifs at h with hq
      rw [← some.inj h]
      exact not_le.mp hq
    · cases h

/-! ## The spend of a day -/

/-- **`_DailySpend`**: the day is the empty text before the first spend. -/
structure DailySpend where
  day : Option ℕ
  spentQuote : ℚ
deriving DecidableEq

/-- What counts for the day of a time. -/
def DailySpend.base (d : DailySpend) (now : ℕ) : ℚ :=
  if some (dayOf now) = d.day then d.spentQuote else 0

def DailySpend.add (d : DailySpend) (quote : ℚ) (now : ℕ) : DailySpend :=
  ⟨some (dayOf now), d.base now + quote⟩

def DailySpend.WouldExceed (d : DailySpend) (quote cap : ℚ) (now : ℕ) : Prop :=
  cap < d.base now + quote
deriving Decidable

/-! ## Gates -/

/-- What `ExecutionConfig` says of live orders. -/
structure ExecutionConfig where
  liveEnabled : Bool
  dryRun : Bool
  feeBps : ℚ
  venue : String
  maxOrderQuote : ℚ
  maxDailySpendQuote : ℚ
  maxTotalExposureQuote : ℚ
  killFile : String
  symbol : String

structure Order where
  symbol : String
  side : OrderSide
  type : OrderType
  qty : ℚ
  clientId : String
  note : String

/-- The value of an order. -/
def Order.notional (order : Order) (markPrice : ℚ) : ℚ := |order.qty| * markPrice

/-- The market of a symbol, as the client lists it. -/
structure Market where
  /-- `raw_market.get("spot") is False`. -/
  notSpot : Bool
  /-- The minimum of the amounts, where there are such limits. -/
  amountMin : Value
  /-- The minimum of the costs, where there are such limits. -/
  costMin : Value

/-- What `load_markets` gives. -/
inductive Markets
  /-- The client has no such call, or its answer is no dictionary. -/
  | unknown
  | raises (message : String)
  /-- The dictionary, with what it has for the symbol if that is a dictionary. -/
  | loaded (market : Option Market)

/-- What a call finds on the host and at the venue before it sends. -/
structure Host where
  /-- The kill file exists. -/
  killed : Bool
  markets : Markets
  /-- `float(free.get("USDT", 0.0))` of the balance. -/
  freeQuote : Except LiveError ℚ
  /-- `float(total.get(base, 0.0))` of the balance. -/
  totalBase : Except LiveError ℚ

variable (py) (cfg : ExecutionConfig) (host : Host)

/-- `_market_limits`: the smallest amount and the smallest cost. -/
def marketLimits (symbol : String) : Except LiveError (Option ℚ × Option ℚ) :=
  match host.markets with
  | .unknown => .ok (none, none)
  | .raises message => .error (.client message)
  | .loaded none =>
    .error (.guardrailBlocked ("symbol " ++ symbol ++ " is not listed on venue " ++ cfg.venue))
  | .loaded (some market) => do
    raiseIf market.notSpot
      (LiveError.guardrailBlocked ("symbol " ++ symbol ++ " is not a spot market"))
    return (positiveFloat py market.amountMin, positiveFloat py market.costMin)

def cash (cfg : ExecutionConfig) (host : Host) : Except LiveError ℚ := do
  raiseIf (cfg.dryRun ∨ ¬ cfg.liveEnabled)
    (.liveTradingDisabled "cash() requires a live (non-dry-run) client")
  host.freeQuote

def positionQty : Except LiveError ℚ :=
  if cfg.dryRun ∨ ¬ cfg.liveEnabled then .ok 0 else host.totalBase

/-- A check that is made of real orders. -/
def ifReal (check : Except LiveError Unit) : Except LiveError Unit :=
  if cfg.dryRun then .ok () else check

/-- The check of a value against a minimum of the market, if it has one. -/
def checkMinimum (minimum : Option ℚ) (value : ℚ) (message : ℚ → String) : Except LiveError Unit :=
  match minimum with
  | some minimum => raiseIf (value < minimum) (.guardrailBlocked (message minimum))
  | none => .ok ()

/-- The checks of a real order against the limits of its market. -/
def checkLimits (order : Order) (notional : ℚ) : Except LiveError Unit := do
  let limits ← marketLimits py cfg host order.symbol
  checkMinimum limits.1 |order.qty| fun amountMin =>
    "order quantity " ++ py.general |order.qty| ++ " is below exchange minimum "
      ++ py.general amountMin
  checkMinimum limits.2 notional fun costMin =>
    "order notional " ++ py.fixed notional ++ " is below exchange minimum notional "
      ++ py.fixed costMin

/-- The check of the cash for a real buy. -/
def checkCash (notional : ℚ) : Except LiveError Unit := do
  let availableCash ← cash cfg host
  let estimatedFee := notional * (cfg.feeBps / 10000)
  let requiredCash := notional + estimatedFee
  raiseIf (availableCash + 1 / 1000000000 < requiredCash) (.guardrailBlocked
    ("available USDT " ++ py.fixed availableCash ++ " is below required " ++ py.fixed requiredCash))

/-- The check of the total exposure: a position that cannot be read counts as none. -/
def checkExposure (markPrice notional : ℚ) : Except LiveError Unit :=
  let current := match positionQty cfg host with
    | .ok qty => qty * markPrice
    | .error _ => 0
  raiseIf (cfg.maxTotalExposureQuote < current + notional) (.guardrailBlocked
    ("buy would exceed total exposure cap " ++ py.fixed cfg.maxTotalExposureQuote
      ++ " (current " ++ py.fixed current ++ ")"))

/-- The check of the holdings for a real sell. -/
def checkHoldings (order : Order) : Except LiveError Unit := do
  let availableQty ← positionQty cfg host
  raiseIf (availableQty + 1 / 1000000000000 < |order.qty|) (.guardrailBlocked
    ("available " ++ (order.symbol.splitOn "/").headD "" ++ " " ++ py.general availableQty
      ++ " is below sell quantity " ++ py.general |order.qty|))

def checkBuy (daily : DailySpend) (markPrice notional : ℚ) (now : ℕ) : Except LiveError Unit := do
  ifReal cfg (checkCash py cfg host notional)
  raiseIf (daily.WouldExceed notional cfg.maxDailySpendQuote now)
    (.guardrailBlocked ("buy would exceed daily spend cap " ++ py.fixed cfg.maxDailySpendQuote
      ++ " (already spent " ++ py.fixed daily.spentQuote ++ " today)"))
  checkExposure py cfg host markPrice notional

/-- **`_check_gates`**: every gate, the first that fails raises. -/
def checkGates (daily : DailySpend) (order : Order) (markPrice : ℚ) (now : ℕ) :
    Except LiveError Unit := do
  raiseIf (¬ cfg.liveEnabled)
    (.liveTradingDisabled "live trading is disabled (execution.live_enabled=false)")
  raiseIf (order.qty ≤ 0) (.guardrailBlocked "order must have a positive finite quantity")
  raiseIf (markPrice ≤ 0) (.guardrailBlocked "order must have a positive finite mark_price")
  raiseIf (cfg.killFile ≠ "" ∧ host.killed)
    (.guardrailBlocked ("KILL file present at " ++ cfg.killFile ++ "; all orders blocked"))
  raiseIf (order.symbol ≠ cfg.symbol)
    (.guardrailBlocked ("symbol " ++ order.symbol ++ " not allowed; only " ++ cfg.symbol
      ++ " is enabled"))
  raiseIf (order.type ≠ .market) (.guardrailBlocked "only MARKET orders are allowed in live mode")
  let notional := order.notional markPrice
  raiseIf (cfg.maxOrderQuote < notional)
    (.guardrailBlocked ("order notional " ++ py.fixed notional ++ " exceeds max_order_quote "
      ++ py.fixed cfg.maxOrderQuote))
  ifReal cfg (checkLimits py cfg host order notional)
  match order.side with
  | .buy => checkBuy py cfg host daily markPrice notional now
  | .sell => ifReal cfg (checkHoldings py cfg host order)

variable {py}

/-- **A buy that passes** keeps the spend of its day within the limit. -/
theorem le_of_checkGates {cfg : ExecutionConfig} {host : Host} {daily : DailySpend} {order : Order}
    {markPrice : ℚ} {now : ℕ} (h : checkGates py cfg host daily order markPrice now = .ok ())
    (hbuy : order.side = .buy) :
    daily.base now + order.notional markPrice ≤ cfg.maxDailySpendQuote := by
  simp only [checkGates, raiseIf_bind_eq_ok, hbuy] at h
  obtain ⟨_, _, _, _, _, _, _, h⟩ := h
  obtain ⟨_, _, h⟩ := of_bind h
  obtain ⟨_, _, h⟩ := of_bind h
  exact not_lt.mp (of_raiseIf h).1

/-! ## Orders -/

/-- **An order that was sent**, with what the exchange fills of it. -/
structure Sent where
  sentAt : ℕ
  symbol : String
  side : OrderSide
  amount : ℚ
  params : String × String
  /-- The quantity that is filled, and its price. -/
  qty : ℚ
  price : ℚ
deriving DecidableEq

/-- The quote that is spent on an order, or taken in by it. -/
def Sent.quote (o : Sent) : ℚ := o.qty * o.price

/-- **`LiveBroker`**: the spend of the day, and the orders that it has sent. -/
structure LiveBroker where
  daily : DailySpend
  sent : List Sent

/-- A broker that has sent nothing. -/
def LiveBroker.init : LiveBroker := ⟨⟨none, 0⟩, []⟩

/-- **The quote spent on a day** by the buys that were sent on it. -/
def spentOn (sent : List Sent) (day : ℕ) : ℚ :=
  ((sent.filter fun o => o.side = .buy ∧ dayOf o.sentAt = day).map Sent.quote).sum

/-- The fields of a response that are read. -/
structure Response where
  /-- `str(resp.get("status") or "")`. -/
  status : String
  filled : Value
  average : Value
  price : Value
  cost : Value
  /-- The cost of the fee, if there is a dictionary of the fee. -/
  feeCost : Value

/-- What `create_order` gives. -/
inductive Answer
  | raises (message : String)
  /-- A response that is no dictionary. -/
  | malformed
  | response (r : Response)

/-- A call of `submit`: the order, the host and the exchange at it, and the clock. -/
structure Call where
  order : Order
  markPrice : ℚ
  now : ℕ
  host : Host
  /-- What the exchange fills of the order if it is sent, and at which price. -/
  fillQty : ℚ
  fillPrice : ℚ
  answer : Answer

/-- `Trade`. -/
structure Trade where
  ts : ℕ
  symbol : String
  side : OrderSide
  qty : ℚ
  price : ℚ
  fee : Reading
  feeCcy : String
  venue : String
  note : String

def clientOrderIdParams (venue clientOrderId : String) : String × String :=
  if venue = "binance" then ("newClientOrderId", clientOrderId)
  else if venue = "okx" then ("clOrdId", clientOrderId)
  else if venue = "bybit" then ("orderLinkId", clientOrderId)
  else if venue = "coinbase" then ("client_order_id", clientOrderId)
  else ("clientOrderId", clientOrderId)

/-- The client id of an order. -/
def clientOid (order : Order) (now : ℕ) : String :=
  if order.clientId ≠ "" then order.clientId else "qt-" ++ toString (now / 1000000)

/-- The order that a call sends. -/
def Call.sent (c : Call) : Sent where
  sentAt := c.now
  symbol := c.order.symbol
  side := c.order.side
  amount := |c.order.qty|
  params := clientOrderIdParams cfg.venue (clientOid c.order c.now)
  qty := c.fillQty
  price := c.fillPrice

variable (py)

/-- The price of a fill: the average or the price, or else the cost over the quantity. -/
def Response.fillPrice (r : Response) (filled : ℚ) : Option ℚ :=
  (positiveFloat py (r.average.or r.price)).or ((positiveFloat py r.cost).map (· / filled))

/-- The statuses that end an order without a fill. -/
def endedStatuses : List String := ["canceled", "cancelled", "rejected", "expired"]

/-- What is read of a fee; a text that is no number raises. -/
def Response.fee (py : Python) (r : Response) : Except LiveError Reading :=
  if r.feeCost = .none then .ok (.finite 0)
  else match r.feeCost.toFloat py with
    | some fee => .ok fee
    | none => .error (.client "could not convert to float")

/-- A fill, as it was reported. -/
structure Fill where
  qty : ℚ
  price : ℚ
  fee : Reading

/-- A value, or the exception of a response that does not have it. -/
def required (value : Option ℚ) (message : String) : Except LiveError ℚ :=
  match value with
  | some q => .ok q
  | none => .error (.liveOrderRejected message)

/-- **The reading of an answer.** -/
def readAnswer : Answer → Except LiveError Fill
  | .raises message => .error (.client message)
  | .malformed => .error (.liveOrderRejected "exchange returned a non-object order response")
  | .response r => do
    raiseIf (r.status.toLower ∈ endedStatuses)
      (.liveOrderRejected ("exchange order " ++ r.status.toLower ++ " with no fill"))
    let filled ← required (positiveFloat py r.filled) "exchange response contains no fill quantity"
    let price ← required (r.fillPrice py filled) "exchange response contains no fill price"
    let fee ← r.fee py
    return ⟨filled, price, fee⟩

/-- The spend is advanced by a buy. -/
def LiveBroker.charge (s : LiveBroker) (side : OrderSide) (fill : Fill) (now : ℕ) : LiveBroker :=
  match side with
  | .buy => { s with daily := s.daily.add (fill.qty * fill.price) now }
  | .sell => s

/-- **`submit`**: the trade, or the exception, and what it leaves. -/
def submit (s : LiveBroker) (c : Call) : Except LiveError Trade × LiveBroker :=
  match checkGates py cfg c.host s.daily c.order c.markPrice c.now with
  | .error e => (.error e, s)
  | .ok () =>
    if cfg.dryRun then
      (.ok ⟨c.now, c.order.symbol, c.order.side, c.order.qty, c.markPrice, .finite 0, "USDT",
        "paper", "DRY_RUN " ++ c.order.note⟩, s)
    else
      let s := { s with sent := s.sent ++ [c.sent cfg] }
      match readAnswer py c.answer with
      | .error e => (.error e, s)
      | .ok fill =>
        (.ok ⟨c.now, c.order.symbol, c.order.side, fill.qty, fill.price, fill.fee, "USDT",
          cfg.venue, c.order.note⟩, s.charge c.order.side fill c.now)

/-- The broker after a call. -/
def step (s : LiveBroker) (c : Call) : LiveBroker :=
  (submit py cfg s c).2

/-! ## What a call does -/

section Calls

variable {py : Python} {cfg : ExecutionConfig} {s : LiveBroker} {c : Call} {day : ℕ}

theorem spentOn_append (sent : List Sent) (o : Sent) (day : ℕ) : spentOn (sent ++ [o]) day
      = spentOn sent day + if o.side = .buy ∧ dayOf o.sentAt = day then o.quote else 0 := by
  unfold spentOn
  rw [filter_append, map_append, sum_append]
  congr 1
  by_cases h : o.side = .buy ∧ dayOf o.sentAt = day <;> simp [h]

variable {sent : List Sent}

/-- An order that spends nothing changes the spend of no day. -/
theorem spentOn_append_of_idle {o : Sent} (h : o.side = .buy → o.quote = 0) (day : ℕ) :
    spentOn (sent ++ [o]) day = spentOn sent day := by
  rw [spentOn_append]
  split_ifs with hbuy
  · rw [h hbuy.1, add_zero]
  · exact add_zero _

/-- **What a call does**: nothing; or it sends the order, past the gates, and advances the
spend where the answer is read. -/
theorem step_cases (py : Python) (cfg : ExecutionConfig) (s : LiveBroker) (c : Call) :
    step py cfg s c = s ∨ checkGates py cfg c.host s.daily c.order c.markPrice c.now = .ok () ∧
        ((∃ e, readAnswer py c.answer = .error e) ∧
            step py cfg s c = { s with sent := s.sent ++ [c.sent cfg] } ∨
          ∃ fill, readAnswer py c.answer = .ok fill ∧ step py cfg s c
              = ({ s with sent := s.sent ++ [c.sent cfg] }).charge c.order.side fill c.now) := by
  unfold step submit
  cases hgates : checkGates py cfg c.host s.daily c.order c.markPrice c.now with
  | error e => exact .inl rfl
  | ok u =>
    by_cases hdry : cfg.dryRun
    · exact .inl (by simp [hdry])
    · refine .inr ⟨rfl, ?_⟩
      cases hanswer : readAnswer py c.answer with
      | error e => exact .inl ⟨⟨e, rfl⟩, by simp [hdry]⟩
      | ok fill => exact .inr ⟨fill, rfl, by simp [hdry]⟩

/-! ## Honest answers -/

/-- **The exchange fills a market order** by at most its quantity, at no more than the mark
price. -/
structure Call.WithinMarket (c : Call) : Prop where
  qty_nonneg : 0 ≤ c.fillQty
  qty_le : c.fillQty ≤ |c.order.qty|
  price_nonneg : 0 ≤ c.fillPrice
  price_le : c.fillPrice ≤ c.markPrice

/-- The quote that is spent if the order of the call is sent, and is a buy. -/
def Call.quote (c : Call) : ℚ := c.fillQty * c.fillPrice

theorem Call.WithinMarket.quote_nonneg (h : c.WithinMarket) : 0 ≤ c.quote :=
  mul_nonneg h.qty_nonneg h.price_nonneg

theorem Call.WithinMarket.quote_le (h : c.WithinMarket) : c.quote ≤ c.order.notional c.markPrice :=
  mul_le_mul h.qty_le h.price_le h.price_nonneg (abs_nonneg _)

/-- **The response reports a spend**: it names no end without a fill, its fee can be read,
and its quantity at its price comes to as much. -/
structure Response.Reports (py : Python) (r : Response) (quote : ℚ) : Prop where
  status : r.status.toLower ∉ endedStatuses
  fill : ∃ filled ∈ positiveFloat py r.filled, ∃ price ∈ r.fillPrice py filled,
    quote ≤ filled * price
  fee : r.feeCost = .none ∨ (r.feeCost.toFloat py).isSome

/-- **A buy that is filled is reported.** -/
def Call.Reported (py : Python) (c : Call) : Prop :=
  c.order.side = .buy → 0 < c.quote → ∃ r, c.answer = .response r ∧ r.Reports py c.quote

variable {r : Response}

theorem Response.fee_ok (h : r.feeCost = .none ∨ (r.feeCost.toFloat py).isSome) :
    ∃ fee, r.fee py = .ok fee := by
  unfold Response.fee
  by_cases hnone : r.feeCost = .none
  · exact ⟨.finite 0, if_pos hnone⟩
  · rw [if_neg hnone]
    cases hfloat : r.feeCost.toFloat py with
    | some fee => exact ⟨fee, rfl⟩
    | none =>
      rw [hfloat] at h
      exact absurd h (by simp [hnone])

theorem readAnswer_of_reports {quote : ℚ} (h : r.Reports py quote) :
    ∃ fill, readAnswer py (.response r) = .ok fill ∧ quote ≤ fill.qty * fill.price := by
  obtain ⟨filled, hfilled, price, hprice, hquote⟩ := h.fill
  obtain ⟨fee, hfee⟩ := Response.fee_ok h.fee
  refine ⟨⟨filled, price, fee⟩, ?_, hquote⟩
  show (raiseIf _ _ >>= _) = _
  rw [raiseIf_bind_of_not h.status, mem_def.mp hfilled]
  show (required (r.fillPrice py filled) _ >>= _) = _
  rw [mem_def.mp hprice]
  show (r.fee py >>= _) = _
  rw [hfee]
  rfl

variable {fill : Fill}

theorem fill_pos {answer : Answer} (h : readAnswer py answer = .ok fill) :
    0 < fill.qty * fill.price := by
  have hrequired : ∀ {value : Option ℚ} {message : String} {q : ℚ},
      required value message = .ok q → value = some q := by
    intro value message q h
    cases value with
    | none => cases h
    | some q' => exact congrArg some (ok.inj h)
  cases answer with
  | raises | malformed => cases h
  | response r =>
    obtain ⟨filled, hfilled, h⟩ := of_bind (of_raiseIf h).2
    obtain ⟨price, hprice, h⟩ := of_bind h
    obtain ⟨fee, _, h⟩ := of_bind h
    obtain rfl := ok.inj h
    have hqty : 0 < filled := positiveFloat_pos (hrequired hfilled)
    refine mul_pos hqty ?_
    rcases or_eq_some_iff.mp (hrequired hprice) with hread | ⟨_, hcost⟩
    · exact positiveFloat_pos hread
    · obtain ⟨cost, hread, rfl⟩ := map_eq_some_iff.mp hcost
      exact div_pos (positiveFloat_pos hread) hqty

/-! ## The counter -/

/-- **The counter is not below what was spent**: no day has spent more than the limit, the
day of the counter has spent no more than it says, and a later day has spent nothing. -/
structure Kept (cap : ℚ) (now : ℕ) (s : LiveBroker) : Prop where
  within : ∀ day, spentOn s.sent day ≤ cap
  counted : ∀ day, s.daily.day = some day → spentOn s.sent day ≤ s.daily.spentQuote
  later : ∀ day, (∀ d, s.daily.day = some d → d < day) → spentOn s.sent day = 0
  past : ∀ d, s.daily.day = some d → d ≤ dayOf now

variable {cap : ℚ} {now : ℕ}

section

variable (h : Kept cap now s) (hnow : now ≤ c.now)
include h hnow

/-- What today has spent is no more than what counts for today. -/
theorem Kept.spentOn_le :
    spentOn s.sent (dayOf c.now) ≤ s.daily.base c.now := by
  unfold DailySpend.base
  split_ifs with htoday
  · exact h.counted _ htoday.symm
  · refine (h.later _ fun d hd => ?_).le
    refine lt_of_le_of_ne ((h.past d hd).trans (dayOf_mono hnow)) ?_
    rintro rfl
    exact htoday hd.symm

/-- Time passes, and orders are sent that spend nothing. -/
theorem Kept.idle
    (hsent : ∀ day, spentOn sent day = spentOn s.sent day) : Kept cap c.now { s with sent } where
  within day := (hsent day).le.trans (h.within day)
  counted day hday := (hsent day).le.trans (h.counted day hday)
  later day hday := (hsent day).trans (h.later day hday)
  past d hd := (h.past d hd).trans (dayOf_mono hnow)

/-- **A buy that is charged** with as much as it spends. -/
theorem Kept.charge (hbuy : c.order.side = .buy)
    (hle : s.daily.base c.now + c.quote ≤ cap) (hfill : c.quote ≤ fill.qty * fill.price) :
    Kept cap c.now
      (({ s with sent := s.sent ++ [c.sent cfg] }).charge c.order.side fill c.now) := by
  have hspent : ∀ day, spentOn (s.sent ++ [c.sent cfg]) day
      = spentOn s.sent day + if dayOf c.now = day then c.quote else 0 := by
    intro day
    rw [spentOn_append]
    simp [Call.sent, Sent.quote, Call.quote, hbuy]
  have htoday := h.spentOn_le hnow
  rw [hbuy]
  refine ⟨fun day => ?_, fun day hday => ?_, fun day hday => ?_, fun d hd => ?_⟩
  · show spentOn (s.sent ++ [c.sent cfg]) day ≤ cap
    rw [hspent]
    split_ifs with hd
    · subst hd
      linarith
    · rw [add_zero]
      exact h.within day
  · obtain rfl : dayOf c.now = day := some.inj hday
    show spentOn (s.sent ++ [c.sent cfg]) (dayOf c.now) ≤ s.daily.base c.now + _
    rw [hspent, if_pos rfl]
    linarith
  · have hlt : dayOf c.now < day := hday _ rfl
    show spentOn (s.sent ++ [c.sent cfg]) day = 0
    rw [hspent, if_neg hlt.ne, add_zero]
    exact h.later day fun d hd => ((h.past d hd).trans (dayOf_mono hnow)).trans_lt hlt
  · obtain rfl : dayOf c.now = d := some.inj hd
    exact le_rfl

end

theorem charge_of_not_buy (h : c.order.side ≠ .buy) : s.charge c.order.side fill c.now = s := by
  unfold LiveBroker.charge
  cases hside : c.order.side with
  | buy => exact absurd hside h
  | sell => rfl

/-- **A call keeps the counter**, if what it fills is reported. -/
theorem Kept.step (h : Kept cfg.maxDailySpendQuote now s) (hnow : now ≤ c.now)
    (hmarket : c.WithinMarket) (hreported : c.Reported py) :
    Kept cfg.maxDailySpendQuote c.now (step py cfg s c) := by
  have hidle : (c.order.side = .buy → c.quote = 0) →
      Kept cfg.maxDailySpendQuote c.now { s with sent := s.sent ++ [c.sent cfg] } :=
    fun hzero => h.idle hnow (spentOn_append_of_idle hzero)
  rcases step_cases py cfg s c with hstep | ⟨hgates, ⟨⟨e, he⟩, hstep⟩ | ⟨fill, hfill, hstep⟩⟩
  · rw [hstep]
    exact h.idle hnow fun _ => rfl
  · rw [hstep]
    refine hidle fun hbuy => ?_
    by_contra hne
    obtain ⟨r, hr, hreports⟩ := hreported hbuy (lt_of_le_of_ne hmarket.quote_nonneg (Ne.symm hne))
    obtain ⟨fill, hfill, _⟩ := readAnswer_of_reports hreports
    rw [hr, hfill] at he
    cases he
  · rw [hstep]
    by_cases hbuy : c.order.side = .buy
    · have hquote : c.quote ≤ fill.qty * fill.price := by
        rcases hmarket.quote_nonneg.eq_or_lt with hzero | hpos
        · exact hzero ▸ (fill_pos hfill).le
        · obtain ⟨r, hr, hreports⟩ := hreported hbuy hpos
          obtain ⟨fill', hfill', hle⟩ := readAnswer_of_reports hreports
          rw [hr, hfill'] at hfill
          exact ok.inj hfill ▸ hle
      have hgate := le_of_checkGates hgates hbuy
      exact h.charge hnow hbuy (by linarith [hmarket.quote_le]) hquote
    · rw [charge_of_not_buy hbuy]
      exact hidle fun h => absurd h hbuy

end Calls

/-- **The daily spend**, over every sequence of calls whose clock does not go back, at an
exchange that fills market orders within the market: where every buy that is filled is
reported, the quote spent on a day is within the limit. -/
theorem daily_spend (py : Python) (cfg : ExecutionConfig) (calls : List Call)
    (hcap : 0 ≤ cfg.maxDailySpendQuote) (hclock : calls.Pairwise fun c c' => c.now ≤ c'.now)
    (hmarket : ∀ c ∈ calls, c.WithinMarket) (hreported : ∀ c ∈ calls, c.Reported py) (day : ℕ) :
    spentOn (Machine.run (step py cfg) .init calls).sent day ≤ cfg.maxDailySpendQuote := by
  have hrun : ∀ (calls : List Call) (s : LiveBroker) (now : ℕ),
      Kept cfg.maxDailySpendQuote now s → (∀ c ∈ calls, now ≤ c.now) →
      (calls.Pairwise fun c c' => c.now ≤ c'.now) → (∀ c ∈ calls, c.WithinMarket) →
      (∀ c ∈ calls, c.Reported py) →
        ∃ now', Kept cfg.maxDailySpendQuote now' (Machine.run (step py cfg) s calls) := by
    intro calls
    induction calls with
    | nil => exact fun s now h _ _ _ _ => ⟨now, h⟩
    | cons c calls ih =>
      intro s now h hnow hclock hmarket hreported
      obtain ⟨hfirst, hclock⟩ := pairwise_cons.mp hclock
      simp only [forall_mem_cons] at hnow hmarket hreported
      exact ih _ c.now (h.step hnow.1 hmarket.1 hreported.1) hfirst hclock hmarket.2 hreported.2
  have hinit : Kept cfg.maxDailySpendQuote 0 .init :=
    ⟨fun _ => hcap, fun _ h => (by cases h), fun _ _ => rfl, fun _ h => (by cases h)⟩
  obtain ⟨now', hkept⟩ := hrun calls .init 0 hinit (fun c _ => Nat.zero_le c.now) hclock hmarket
    hreported
  exact hkept.within day

/-- A Python that reads no number in a text. -/
def barePython : Python := ⟨fun _ => none, fun _ => "", fun _ => ""⟩

/-- A broker that may spend 100 a day. -/
def sampleConfig : ExecutionConfig where
  liveEnabled := true
  dryRun := false
  feeBps := 5
  venue := "binance"
  maxOrderQuote := 1000
  maxDailySpendQuote := 100
  maxTotalExposureQuote := 1000
  killFile := ""
  symbol := "BTC/USDT"

/-- A buy for 60 that is filled, with the answer to it. -/
def sampleCall (answer : Answer) : Call where
  order := ⟨"BTC/USDT", .buy, .market, 1, "", ""⟩
  markPrice := 60
  now := 0
  host := ⟨false, .unknown, .ok 1000, .ok 0⟩
  fillQty := 1
  fillPrice := 60
  answer := answer

/-- The response that reports the fill. -/
def sampleResponse : Response :=
  ⟨"closed", .float (.finite 1), .float (.finite 60), .none, .none, .none⟩

theorem sampleCall_withinMarket (answer : Answer) : (sampleCall answer).WithinMarket where
  qty_nonneg := by norm_num [sampleCall]
  qty_le := by norm_num [sampleCall]
  price_nonneg := by norm_num [sampleCall]
  price_le := by norm_num [sampleCall]

theorem daily_spend_sample : spentOn (Machine.run (step barePython sampleConfig) .init
      [sampleCall (.response sampleResponse)]).sent 0 ≤ sampleConfig.maxDailySpendQuote := by
  refine daily_spend barePython sampleConfig [sampleCall (.response sampleResponse)]
    (by decide +kernel) (pairwise_singleton _ _) ?_ ?_ 0
  · simp only [forall_mem_singleton]
    exact sampleCall_withinMarket _
  · simp only [forall_mem_singleton]
    intro _ _
    exact ⟨sampleResponse, rfl, by decide +kernel, ⟨1, by decide +kernel, 60, by decide +kernel,
      by decide +kernel⟩, .inl rfl⟩

/-- **The response to a buy is lost** after the order was accepted, and the next buy goes
through: 120 are spent on the day. -/
theorem daily_spend_exceeded :
    (∀ c ∈ [sampleCall (.raises "timeout"), sampleCall (.response sampleResponse)],
        c.WithinMarket) ∧
      ([sampleCall (.raises "timeout"), sampleCall (.response sampleResponse)].Pairwise
        fun c c' => c.now ≤ c'.now) ∧
      ¬ spentOn (Machine.run (step barePython sampleConfig) .init
        [sampleCall (.raises "timeout"), sampleCall (.response sampleResponse)]).sent 0
          ≤ sampleConfig.maxDailySpendQuote := by
  refine ⟨?_, by decide, by decide +kernel⟩
  simp only [forall_mem_cons, not_mem_nil, IsEmpty.forall_iff, implies_true, and_true]
  exact ⟨sampleCall_withinMarket _, sampleCall_withinMarket _⟩

end Qt.Live
