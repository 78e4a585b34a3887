import QuantTrading.EntryGate
import QuantTrading.PaperLedger

/-!
# The strategy runner

`run_strategy_forever` of `qt.strategies.runner`, in paper mode: a cycle fetches and evaluates,
and an opportunity is routed through the risk engine to the broker and from there to the ledger.

The position is kept twice. Within a process the two agree after every cycle, whatever raises
(`Runner.runCycle_keeps`), since a trade is booked in the memory of both before anything is written. A
process that starts has a new broker and the ledger of the file, and the two agree where the file
records nothing that a new broker does not have: `runner_and_ledger_agree` makes that the exact
condition. A cycle that ends the thread – an alert may – is one that no cycle follows before the
next start. The heartbeat of a cycle is left out, as nothing in the loop reads it.
-/

namespace Qt.Paper

open List Machine Option

open Live (OrderSide OrderType Value Python positiveFloat positiveFloat_pos)

/-! ## Opportunities -/

/-- The actions of an opportunity. -/
inductive Action | buy | sell | open | close | watch
deriving DecidableEq, Repr

/-- `ENTRY_ACTIONS`. -/
def Action.IsEntry (a : Action) : Prop := a = .buy ∨ a = .open
deriving Decidable

/-- `EXIT_ACTIONS`. -/
def Action.IsExit (a : Action) : Prop := a = .sell ∨ a = .close
deriving Decidable

/-- A mapping from texts to objects; `none` is what `get` gives for a key that is not there. -/
abbrev Mapping : Type := String → Value

structure Opportunity where
  ts : ℚ
  action : Action
  confidence : ℚ
  reason : String
  details : Mapping

/-- What `fetch_data` gives, with the last close of its `"ohlcv"`, where that is a frame that is
not empty and has closes. -/
structure Data where
  values : Mapping
  ohlcvClose : Value

/-- The part of an `EvaluationResult` that the loop reads. -/
structure EvaluationResult where
  opportunity : Option Opportunity
  metrics : Mapping

/-- The settings of a runner. -/
structure Settings where
  /-- `execution.symbol`. -/
  symbol : String
  risk : RiskConfig
  /-- `strategy.name`. -/
  strategyName : String

/-- `PRICE_KEYS`. -/
def priceKeys : List String :=
  ["mark_price", "close", "price", "spot_price", "last_price", "weekly_close"]

def quoteKeys : List String := ["amount_quote", "rung_quote", "target_quote", "quote"]

/-- The first of the keys whose value is a positive number. -/
def firstPositive (py : Python) (keys : List String) (values : Mapping) : Option ℚ :=
  keys.findSome? (fun key => positiveFloat py (values key))

theorem firstPositive_pos {py : Python} {keys : List String} {values : Mapping} {q : ℚ}
    (h : firstPositive py keys values = some q) : 0 < q := by
  obtain ⟨key, -, hkey⟩ := exists_of_findSome?_eq_some h
  exact positiveFloat_pos hkey

def extractMarkPrice (py : Python) (data : Data) (result : EvaluationResult) (fallback : ℚ) : ℚ :=
  ((((firstPositive py priceKeys data.values).or (positiveFloat py data.ohlcvClose)).or
    (firstPositive py priceKeys result.metrics)).or
    (result.opportunity.bind fun opp => firstPositive py priceKeys opp.details)).getD fallback

theorem extractMarkPrice_pos {py : Python} {data : Data} {result : EvaluationResult}
    {fallback : ℚ} (h : 0 < fallback) : 0 < extractMarkPrice py data result fallback := by
  unfold extractMarkPrice
  cases hx : ((((firstPositive py priceKeys data.values).or (positiveFloat py data.ohlcvClose)).or
      (firstPositive py priceKeys result.metrics)).or
      (result.opportunity.bind fun opp => firstPositive py priceKeys opp.details)) with
  | none => exact h
  | some q =>
    simp only [Option.or_eq_some_iff, Option.bind_eq_some_iff] at hx
    show 0 < q
    rcases hx with ((hq | ⟨-, hq⟩) | ⟨-, hq⟩) | ⟨-, opp, -, hq⟩
    · exact firstPositive_pos hq
    · exact positiveFloat_pos hq
    · exact firstPositive_pos hq
    · exact firstPositive_pos hq

def strip (s : String) : String :=
  String.ofList ((s.toList.dropWhile isSpace).reverse.dropWhile isSpace).reverse

def opportunitySymbol (opp : Opportunity) (settings : Settings) : String :=
  match opp.details "symbol" with
  | .text s => if strip s ≠ "" then strip s else settings.symbol
  | _ => settings.symbol

/-- `_target_quote_alloc`, with its default. -/
def targetQuoteAlloc (py : Python) (opp : Opportunity) (equity : ℚ) : ℚ :=
  if equity ≤ 0 then 5 / 100
  else
    match firstPositive py quoteKeys opp.details with
    | some amountQuote => min 1 (amountQuote / equity)
    | none => 5 / 100

/-- A share that an opportunity asks for is not negative. -/
theorem targetQuoteAlloc_nonneg (py : Python) (opp : Opportunity) (equity : ℚ) :
    0 ≤ targetQuoteAlloc py opp equity := by
  unfold targetQuoteAlloc
  split_ifs with h
  · norm_num
  · split
    · next amountQuote hq =>
      exact le_min zero_le_one (div_nonneg (firstPositive_pos hq).le (not_le.mp h).le)
    · norm_num

def oppToSignal (opp : Opportunity) (score targetQuoteAlloc : ℚ) : Signal where
  ts := opp.ts
  kind := if opp.action.IsEntry then .entryLong else .exit
  score := score
  targetQuoteAlloc := targetQuoteAlloc

/-! ## Cycles -/

/-- **What a cycle meets**: the time, what `fetch_data` and `evaluate` give or raise, what
`submit` raises, and which write of `record_trade` fails. -/
structure Cycle where
  now : ℚ
  evaluated : Except String (Data × EvaluationResult)
  submitRaises : Option String
  recordFault : Option RecordFault

/-- The variables of the loop. -/
structure Runner where
  broker : PaperBroker
  portfolio : PortfolioLedger
  riskEngine : RiskEngine
  cycle : ℕ
  consecutiveFailures : ℕ
  lastMarkPrice : ℚ

/-- **What a cycle leaves**: the variables and the file; of an opportunity its symbol and the
equity read, of an order the order; and what was caught. -/
structure Outcome where
  runner : Runner
  file : StateFile
  opportunity : Option (String × ℚ) := none
  order : Option Order := none
  error : Option String := none

namespace Runner

/-- The start of `run_strategy_forever`, with the ledger that it opens. -/
def start (settings : Settings) (initialCash : ℚ) (portfolio : PortfolioLedger) : Runner where
  broker := .new initialCash
  portfolio := portfolio
  riskEngine := { cfg := settings.risk }
  cycle := 0
  consecutiveFailures := 0
  lastMarkPrice := 50000

/-- Submit an order and record its trade. -/
def execute (r : Runner) (file : StateFile) (order : Order) (symbol : String) (price : ℚ)
    (c : Cycle) : Outcome :=
  match c.submitRaises with
  | some e => { runner := r, file, order := some order, error := some e }
  | none =>
    match r.broker.submit order price c.now with
    | .error e => { runner := r, file, order := some order, error := some e }
    | .ok (broker, trade) =>
      let (portfolio, file, error) :=
        r.portfolio.recordTrade trade symbol price file c.recordFault
      { runner := { r with broker, portfolio }, file, order := some order, error }

/-- The order of an entry. -/
def buyOrder (settings : Settings) (opp : Opportunity) (symbol : String) (qty : ℚ) : Order where
  symbol := symbol
  side := .buy
  type := .market
  qty := qty
  clientId := ""
  note := s!"[{settings.strategyName}] {opp.reason}"

/-- The order of an exit. -/
def sellOrder (settings : Settings) (opp : Opportunity) (symbol : String) (qty : ℚ) : Order where
  symbol := symbol
  side := .sell
  type := .market
  qty := qty
  clientId := ""
  note := s!"[{settings.strategyName}] {opp.reason}"

/-- What the risk engine makes of an entry opportunity. -/
def evaluateEntry (r : Runner) (py : Python) (opp : Opportunity) (symbol : String)
    (equity price : ℚ) : RiskEngine × RiskDecision :=
  r.riskEngine.evaluateEntry (oppToSignal opp opp.confidence (targetQuoteAlloc py opp equity))
    equity price (price * (2 / 100)) (8 / 10)
    { symbol, qty := r.broker.positionQty symbol, avgPrice := r.portfolio.avgPrice.get symbol }

/-- **An opportunity** is routed through the risk engine, the broker and the ledger. -/
def route (r : Runner) (settings : Settings) (py : Python) (file : StateFile) (opp : Opportunity)
    (symbol : String) (price : ℚ) (c : Cycle) : Outcome :=
  let posQty := r.broker.positionQty symbol
  let equity := r.portfolio.computeEquity symbol price
  if opp.action.IsEntry then
    let evaluated := r.evaluateEntry py opp symbol equity price
    let r := { r with riskEngine := evaluated.1 }
    let decision := evaluated.2
    if decision.action = .open ∧ 10 < decision.sizeQuote then
      r.execute file (buyOrder settings opp symbol (decision.sizeQuote / price)) symbol price c
    else { runner := r, file }
  else if opp.action.IsExit ∧ posQty ≠ 0 then
    if 1 / 10 ^ 8 < posQty then
      r.execute file (sellOrder settings opp symbol posQty) symbol price c
    else { runner := r, file }
  else { runner := r, file }

/-- **A cycle of the loop.** -/
def runCycle (r : Runner) (settings : Settings) (py : Python) (file : StateFile) (c : Cycle) :
    Outcome :=
  match c.evaluated with
  | .error e =>
    { runner := { r with cycle := r.cycle + 1, consecutiveFailures := r.consecutiveFailures + 1 }
      file, error := some e }
  | .ok (data, result) =>
    let price := extractMarkPrice py data result r.lastMarkPrice
    let r := { r with cycle := r.cycle + 1, lastMarkPrice := price }
    match result.opportunity with
    | none => { runner := { r with consecutiveFailures := 0 }, file }
    | some opp =>
      let symbol := opportunitySymbol opp settings
      let o := r.route settings py file opp symbol price c
      let failures := if o.error.isSome then r.consecutiveFailures + 1 else 0
      { o with
        runner := { o.runner with consecutiveFailures := failures }
        opportunity := some (symbol, r.portfolio.computeEquity symbol price) }

end Runner

/-! ## Runs -/

/-- What happens to a runtime directory: a process starts, or the one that runs does a cycle. -/
inductive RunnerEvent
  | start (initialCash : ℚ)
  | cycle (c : Cycle)

/-- **A runtime directory and its process**, with two histories: the orders submitted, each with
what the ledger held of its symbol, and the log of the gate of this process. -/
structure World where
  file : StateFile
  runner : Option Runner
  orders : List (Order × ℚ)
  log : GateLog

/-- What a cycle adds to the log of the gate: the order, or the trade that it closed, and then the
opportunity that they came of. -/
def gateEvents (before after : Runner) (c : Cycle) (o : Outcome) : GateLog :=
  match o.opportunity with
  | none => []
  | some (_, equity) =>
    .opportunity equity ::
      match o.order with
      | none => []
      | some order =>
        match order.side with
        | .buy =>
          [.entry c.now (order.qty * after.lastMarkPrice) equity
            (before.portfolio.positionQty order.symbol)]
        | .sell =>
          -- `record_realized` is not called
          [.closed c.now (after.portfolio.realizedPnl - before.portfolio.realizedPnl) none]

def World.step (settings : Settings) (py : Python) (w : World) : RunnerEvent → World
  | .start initialCash =>
    let opened := (PortfolioLedger.load w.file).setInitialCash initialCash w.file
    { w with
      file := opened.2
      runner := some (.start settings initialCash opened.1)
      log := [] }
  | .cycle c =>
    match w.runner with
    | none => w
    | some r =>
      let o := r.runCycle settings py w.file c
      { file := o.file
        runner := some o.runner
        orders := w.orders ++
          o.order.toList.map (fun order => (order, r.portfolio.positionQty order.symbol))
        log := gateEvents r o.runner c o ++ w.log }


/-! ## Orders -/

namespace Runner

section Cycle

variable {r : Runner} {settings : Settings} {py : Python} {file : StateFile} {order : Order}
  {opp : Opportunity} {symbol : String} {price : ℚ} {c : Cycle}

theorem order_execute (r : Runner) (file : StateFile) (order : Order) (symbol : String) (price : ℚ)
    (c : Cycle) : (r.execute file order symbol price c).order = some order := by
  unfold execute
  split
  · rfl
  · split <;> rfl

theorem lastMarkPrice_execute (r : Runner) (file : StateFile) (order : Order) (symbol : String)
    (price : ℚ) (c : Cycle) :
    (r.execute file order symbol price c).runner.lastMarkPrice = r.lastMarkPrice := by
  unfold execute
  split
  · rfl
  · split <;> rfl

theorem lastMarkPrice_route (r : Runner) (settings : Settings) (py : Python) (file : StateFile)
    (opp : Opportunity) (symbol : String) (price : ℚ) (c : Cycle) :
    (r.route settings py file opp symbol price c).runner.lastMarkPrice = r.lastMarkPrice := by
  unfold route
  dsimp only
  split_ifs
  · exact lastMarkPrice_execute _ _ _ _ _ _
  · rfl
  · exact lastMarkPrice_execute _ _ _ _ _ _
  · rfl
  · rfl

/-- What a cycle orders, given what the broker holds: to buy for more than 10 where it holds
nothing long, or to sell all that it holds. -/
def Orders (r : Runner) (price : ℚ) (order : Order) : Prop :=
  (order.side = .buy ∧ 10 < order.qty * price ∧ r.broker.positionQty order.symbol ≤ 0) ∨
    (order.side = .sell ∧ order.qty = r.broker.positionQty order.symbol)

/-- **What an opportunity can do**: nothing to the broker and the ledger, or the execution of one
order, which is `Orders`. -/
theorem route_cases (r : Runner) (settings : Settings) (py : Python) (file : StateFile)
    (opp : Opportunity) (symbol : String) {price : ℚ} (hprice : 0 < price) (c : Cycle) :
    ((r.route settings py file opp symbol price c).order = none ∧
      (r.route settings py file opp symbol price c).runner.broker = r.broker ∧
      (r.route settings py file opp symbol price c).runner.portfolio = r.portfolio ∧
      (r.route settings py file opp symbol price c).file = file) ∨
    ∃ engine order, r.route settings py file opp symbol price c =
        ({ r with riskEngine := engine } : Runner).execute file order symbol price c ∧
      r.Orders price order := by
  unfold route
  by_cases hentry : opp.action.IsEntry
  · rw [if_pos hentry]
    by_cases hopen : (r.evaluateEntry py opp symbol (r.portfolio.computeEquity symbol price)
        price).2.action = .open ∧ 10 < (r.evaluateEntry py opp symbol
        (r.portfolio.computeEquity symbol price) price).2.sizeQuote
    · right
      obtain ⟨-, -, -, hflat, -⟩ := RiskEngine.evaluate_open hopen.1
      refine ⟨_, _, if_pos hopen, .inl ⟨rfl, ?_, hflat⟩⟩
      exact hopen.2.trans_eq (div_mul_cancel₀ _ hprice.ne').symm
    · left
      rw [show (_ : Outcome) = _ from if_neg hopen]
      exact ⟨rfl, rfl, rfl, rfl⟩
  · rw [if_neg hentry]
    by_cases hexit : opp.action.IsExit ∧ r.broker.positionQty symbol ≠ 0
    · rw [if_pos hexit]
      by_cases hqty : 1 / 10 ^ 8 < r.broker.positionQty symbol
      · right
        rw [if_pos hqty]
        exact ⟨r.riskEngine, _, rfl, .inr ⟨rfl, rfl⟩⟩
      · rw [if_neg hqty]
        exact .inl ⟨rfl, rfl, rfl, rfl⟩
    · rw [if_neg hexit]
      exact .inl ⟨rfl, rfl, rfl, rfl⟩

def mark (r : Runner) (py : Python) (c : Cycle) : ℚ :=
  match c.evaluated with
  | .error _ => r.lastMarkPrice
  | .ok (data, result) => extractMarkPrice py data result r.lastMarkPrice

theorem mark_pos (h : 0 < r.lastMarkPrice) (py : Python) (c : Cycle) : 0 < r.mark py c := by
  unfold mark
  split
  · exact h
  · exact extractMarkPrice_pos h

/-- **What a cycle can do**, likewise. -/
theorem runCycle_cases (r : Runner) (settings : Settings) (py : Python) (file : StateFile)
    (hprice : 0 < r.lastMarkPrice) (c : Cycle) :
    (r.runCycle settings py file c).runner.lastMarkPrice = r.mark py c ∧
    (((r.runCycle settings py file c).order = none ∧
        (r.runCycle settings py file c).runner.broker = r.broker ∧
        (r.runCycle settings py file c).runner.portfolio = r.portfolio ∧
        (r.runCycle settings py file c).file = file) ∨
      ∃ before order symbol, before.broker = r.broker ∧ before.portfolio = r.portfolio ∧
        r.Orders (r.mark py c) order ∧ (r.runCycle settings py file c).order = some order ∧
        (r.runCycle settings py file c).runner.broker =
          (execute before file order symbol (r.mark py c) c).runner.broker ∧
        (r.runCycle settings py file c).runner.portfolio =
          (execute before file order symbol (r.mark py c) c).runner.portfolio ∧
        (r.runCycle settings py file c).file =
          (execute before file order symbol (r.mark py c) c).file) := by
  have hmark := mark_pos hprice py c
  unfold runCycle
  cases hev : c.evaluated with
  | error e => exact ⟨by simp only [mark, hev], .inl ⟨rfl, rfl, rfl, rfl⟩⟩
  | ok fetched =>
    obtain ⟨data, result⟩ := fetched
    rw [show r.mark py c = extractMarkPrice py data result r.lastMarkPrice by
      simp only [mark, hev]] at hmark ⊢
    cases hopp : result.opportunity with
    | none => exact ⟨by simp only [hopp], .inl (by simp only [hopp, and_self])⟩
    | some opp =>
      simp only [hopp]
      refine ⟨lastMarkPrice_route _ settings py file opp _ _ c, ?_⟩
      rcases route_cases { r with
          cycle := r.cycle + 1
          lastMarkPrice := extractMarkPrice py data result r.lastMarkPrice } settings py file opp
        (opportunitySymbol opp settings) hmark c with h | ⟨engine, order, heq, horder⟩
      · exact .inl h
      · refine .inr ⟨_, order, _, ?_, ?_, horder, ?_, congrArg (fun o => o.runner.broker) heq,
          congrArg (fun o => o.runner.portfolio) heq, congrArg Outcome.file heq⟩
        · rfl
        · rfl
        · rw [heq, order_execute]

/-- **What recording a fill keeps between broker and ledger**, whichever write fails. -/
def KeptByTrades (R : PaperBroker → PortfolioLedger → Prop) : Prop :=
  ∀ {b b' : PaperBroker} {l : PortfolioLedger}, R b l →
    ∀ {order : Order} {markPrice now : ℚ} {trade : Trade},
      b.submit order markPrice now = .ok (b', trade) →
        ∀ (symbol : String) (price : ℚ) (file : StateFile) (fault : Option RecordFault),
          R b' (l.recordTrade trade symbol price file fault).1

/-- **An execution keeps it.** -/
theorem execute_keeps {R : PaperBroker → PortfolioLedger → Prop} (hR : KeptByTrades R)
    (h : R r.broker r.portfolio) : R (r.execute file order symbol price c).runner.broker
      (r.execute file order symbol price c).runner.portfolio := by
  unfold execute
  split
  · exact h
  · split
    · exact h
    · next heq => exact hR h heq _ _ _ _

/-- An execution of such an order leaves no short position. -/
theorem nonneg_execute (h : ∀ s, 0 ≤ r.broker.positionQty s)
    (horder : order.side = .buy → 0 ≤ order.qty) (s : String) :
    0 ≤ (r.execute file order symbol price c).runner.broker.positionQty s := by
  unfold execute
  split
  · exact h s
  · split
    · exact h s
    · next broker trade heq =>
      obtain ⟨-, hside, hqty, -, -, -, -, -, hpos⟩ := submit_eq_ok heq
      show 0 ≤ broker.positions.get s
      rw [hpos]
      refine PaperBroker.forall_book le_rfl (fun q hq => le_trans (by norm_num) hq.le) h
        (fun hbuy => add_nonneg (h _) ?_) s
      rw [hqty]
      exact horder (hside ▸ hbuy)

/-- **An execution that no write fails in is in the file.** -/
theorem durable_execute (h : Agrees r.broker r.portfolio) (hfile : Agrees r.broker (.load file))
    (hkept : ∀ s, Kept (r.broker.positionQty s)) (hfault : c.recordFault = none)
    (hbuy : order.side = .buy →
      order.qty ≠ 0 ∧ Kept (r.broker.positionQty order.symbol + order.qty)) :
    Agrees (r.execute file order symbol price c).runner.broker
        (.load (r.execute file order symbol price c).file) ∧
      ∀ s, Kept ((r.execute file order symbol price c).runner.broker.positionQty s) := by
  unfold execute
  split
  · exact ⟨hfile, hkept⟩
  · split
    · exact ⟨hfile, hkept⟩
    · next broker trade heq =>
      obtain ⟨hsymbol, hside, hqty, -, -, -, -, -, hpos⟩ := submit_eq_ok heq
      have hkept' : ∀ s, Kept (broker.positionQty s) := by
        intro s
        show Kept (broker.positions.get s)
        rw [hpos]
        refine PaperBroker.forall_book (.inl rfl) (fun q hq => .inr hq) hkept (fun hs => ?_) s
        rw [hsymbol, hqty]
        exact (hbuy (hside ▸ hs)).2
      rw [hfault]
      exact ⟨h.recorded heq (fun hs => (hbuy hs).1) hkept' _ _ _, hkept'⟩

end Cycle

end Runner

/-! ## Agreement over a run -/

/-- The loop holds no short position and has a positive mark. -/
def Runner.Sane (r : Runner) : Prop := 0 < r.lastMarkPrice ∧ ∀ s, 0 ≤ r.broker.positionQty s

variable {order : Order} {price : ℚ} {r : Runner}

theorem Runner.Orders.qty_pos (h : r.Orders price order) (hprice : 0 < price)
    (hbuy : order.side = .buy) : 0 < order.qty := by
  rcases h with ⟨-, hsize, -⟩ | ⟨hsell, -⟩
  · exact (pos_iff_pos_of_mul_pos (by linarith)).mpr hprice
  · rw [hsell] at hbuy
    cases hbuy

theorem Runner.Sane.runCycle (h : r.Sane) (settings : Settings) (py : Python) (file : StateFile)
    (c : Cycle) : (r.runCycle settings py file c).runner.Sane := by
  have hmark := mark_pos h.1 py c
  obtain ⟨hlast, hcases⟩ := runCycle_cases r settings py file h.1 c
  refine ⟨hlast ▸ hmark, fun s => ?_⟩
  rcases hcases with ⟨-, hbroker, -⟩ | ⟨before, order, symbol, hb, -, horder, -, hbroker, -⟩
  · rw [hbroker]
    exact h.2 s
  · rw [hbroker]
    exact nonneg_execute (hb.symm ▸ h.2) (fun hbuy => (horder.qty_pos hmark hbuy).le) s

/-- **A cycle keeps what recording a fill keeps**, whatever raises in it. -/
theorem Runner.runCycle_keeps {R : PaperBroker → PortfolioLedger → Prop} (hR : KeptByTrades R)
    (hmark : 0 < r.lastMarkPrice) (h : R r.broker r.portfolio) (settings : Settings) (py : Python)
    (file : StateFile) (c : Cycle) : R (r.runCycle settings py file c).runner.broker
      (r.runCycle settings py file c).runner.portfolio := by
  obtain ⟨-, ⟨-, hb, hp, -⟩ | ⟨before, order, symbol, hb, hp, -, -, hb', hp', -⟩⟩ :=
    runCycle_cases r settings py file hmark c
  · rw [hb, hp]
    exact h
  · rw [hb', hp']
    exact execute_keeps hR (hb.symm ▸ hp.symm ▸ h)

/-- **A cycle that no write fails in is in the file**, at a mark at which 10 buys more than the
remainder that the file drops. -/
theorem Runner.durable_runCycle (hsane : r.Sane) (h : Agrees r.broker r.portfolio)
    {file : StateFile} (hfile : Agrees r.broker (.load file))
    (hkept : ∀ s, Kept (r.broker.positionQty s)) (settings : Settings) (py : Python) {c : Cycle}
    (hfault : c.recordFault = none) (hlimit : r.mark py c ≤ 10 ^ 13) :
    Agrees (r.runCycle settings py file c).runner.broker
        (.load (r.runCycle settings py file c).file) ∧
      ∀ s, Kept ((r.runCycle settings py file c).runner.broker.positionQty s) := by
  have hmark := mark_pos hsane.1 py c
  obtain ⟨-, ⟨-, hb, -, hf⟩ | ⟨before, order, symbol, hb, hp, horder, -, hb', -, hf⟩⟩ :=
    runCycle_cases r settings py file hsane.1 c
  · rw [hb, hf]
    exact ⟨hfile, hkept⟩
  · rw [hb', hf]
    refine durable_execute (hb.symm ▸ hp.symm ▸ h) (hb.symm ▸ hfile) (hb.symm ▸ hkept) hfault
      (fun hbuy => ?_)
    have hqty := horder.qty_pos hmark hbuy
    rcases horder with ⟨-, hsize, hflat⟩ | ⟨hsell, -⟩
    · refine ⟨hqty.ne', .inr ?_⟩
      rw [hb, le_antisymm hflat (hsane.2 _), zero_add, div_lt_iff₀ (by positivity)]
      nlinarith [mul_le_mul_of_nonneg_left hlimit hqty.le]
    · rw [hsell] at hbuy
      cases hbuy

/-- **What is asked of an order**, given what the ledger held of its symbol: no entry on top of a
position, and an exit of all of it. -/
def OrderLaw (o : Order × ℚ) : Prop :=
  (o.1.side = .buy → o.2 = 0) ∧ (o.1.side = .sell → o.1.qty = o.2)

/-- **The runner and the ledger agree**: in a process the broker reports the cash and the
quantities of the ledger, and every order so far was as asked. -/
def World.Agreed (w : World) : Prop :=
  (∀ r, w.runner = some r → Agrees r.broker r.portfolio) ∧ ∀ o ∈ w.orders, OrderLaw o

/-- **The file records what a new broker has**: it is missing, unreadable or was never funded, or
it books the cash that the process starts with; and it holds no position. -/
def OpensFresh (initialCash : ℚ) : StateFile → Prop
  | .missing => True
  | .unreadable => True
  | .saved l =>
    (l.cash = initialCash ∨ (l.cash = 0 ∧ l.equityPeak = 0)) ∧ ∀ symbol, l.positionQty symbol = 0

/-- **The condition**: a process starts on a file that records what a new broker has. -/
def StartsFresh (w : World) : RunnerEvent → Prop
  | .start initialCash => OpensFresh initialCash w.file
  | .cycle _ => True

/-- **A start**: the new broker agrees with the ledger opened exactly where the file records
nothing else. -/
theorem agrees_start (settings : Settings) (initialCash : ℚ) (file : StateFile) :
    Agrees (Runner.start settings initialCash
        ((PortfolioLedger.load file).setInitialCash initialCash file).1).broker
      (Runner.start settings initialCash
        ((PortfolioLedger.load file).setInitialCash initialCash file).1).portfolio ↔
      OpensFresh initialCash file := by
  cases file with
  | missing => exact ⟨fun _ => trivial, fun _ => ⟨rfl, fun _ => rfl⟩⟩
  | unreadable => exact ⟨fun _ => trivial, fun _ => ⟨rfl, fun _ => rfl⟩⟩
  | saved l =>
    show Agrees (.new initialCash) (l.setInitialCash initialCash _).1 ↔
      (l.cash = initialCash ∨ (l.cash = 0 ∧ l.equityPeak = 0)) ∧ ∀ symbol, l.positionQty symbol = 0
    unfold PortfolioLedger.setInitialCash Agrees
    by_cases hfresh : l.cash = 0 ∧ l.equityPeak = 0
    · rw [if_pos hfresh]
      exact ⟨fun h => ⟨.inr hfresh, fun s => (h.2 s).symm⟩, fun h => ⟨rfl, fun s => (h.2 s).symm⟩⟩
    · rw [if_neg hfresh]
      refine ⟨fun h => ⟨.inl h.1.symm, fun s => (h.2 s).symm⟩, fun h => ?_⟩
      exact ⟨(h.1.resolve_right hfresh).symm, fun s => (h.2 s).symm⟩

/-- **An order of a cycle is as asked** where the broker and the ledger agree. -/
theorem Runner.Sane.orderLaw (h : r.Sane) (hagree : Agrees r.broker r.portfolio)
    (horder : r.Orders price order) : OrderLaw (order, r.portfolio.positionQty order.symbol) := by
  rw [← hagree.2 order.symbol]
  rcases horder with ⟨hbuy, -, hflat⟩ | ⟨hsell, hqty⟩
  · refine ⟨fun _ => le_antisymm hflat (h.2 _), fun hsell => ?_⟩
    rw [hbuy] at hsell
    cases hsell
  · refine ⟨fun hbuy => ?_, fun _ => hqty⟩
    rw [hsell] at hbuy
    cases hbuy

/-- What every step keeps. -/
def World.Sane (w : World) : Prop := ∀ r, w.runner = some r → r.Sane

variable {w : World}

theorem World.Sane.step (h : w.Sane) (settings : Settings) (py : Python) (e : RunnerEvent) :
    (w.step settings py e).Sane := by
  intro r hr
  cases e with
  | start initialCash =>
    rw [← some.inj hr]
    exact ⟨by norm_num [Runner.start], fun s => le_rfl⟩
  | cycle c =>
    cases hrun : w.runner with
    | none =>
      rw [World.step, hrun] at hr
      exact h r (hrun ▸ hr)
    | some r₀ =>
      rw [World.step, hrun] at hr
      rw [← some.inj hr]
      exact (h r₀ hrun).runCycle settings py w.file c

/-- **One event**: agreement is kept by every cycle, and by a start exactly where it is fresh. -/
theorem World.agreed_step (h : w.Sane) (hagreed : w.Agreed) (settings : Settings) (py : Python)
    (e : RunnerEvent) : (w.step settings py e).Agreed ↔ StartsFresh w e := by
  cases e with
  | start initialCash =>
    rw [show StartsFresh w (.start initialCash) = OpensFresh initialCash w.file from rfl,
      ← agrees_start settings]
    exact ⟨fun h => h.1 _ rfl, fun h => ⟨fun r hr => some.inj hr ▸ h, hagreed.2⟩⟩
  | cycle c =>
    refine ⟨fun _ => trivial, fun _ => ?_⟩
    cases hrun : w.runner with
    | none =>
      rw [show w.step settings py (.cycle c) = w by rw [World.step, hrun]]
      exact hagreed
    | some r =>
      have hsane := h r hrun
      have hagrees := hagreed.1 r hrun
      refine ⟨fun r' hr' => ?_, fun o ho => ?_⟩
      · rw [World.step, hrun] at hr'
        rw [← some.inj hr']
        exact Runner.runCycle_keeps (fun h _ _ _ _ => h.recordTrade) hsane.1 hagrees settings py
          w.file c
      · rw [World.step, hrun] at ho
        rcases mem_append.mp ho with ho | ho
        · exact hagreed.2 o ho
        · obtain ⟨order, horder, rfl⟩ := mem_map.mp ho
          obtain ⟨-, ⟨hnone, -⟩ | ⟨before, order', symbol, -, -, hlaw, hsome, -⟩⟩ :=
            Runner.runCycle_cases r settings py w.file hsane.1 c
          · rw [hnone] at horder
            cases horder
          · rw [hsome] at horder
            obtain rfl := mem_singleton.mp horder
            exact hsane.orderLaw hagrees hlaw

/-- **The file agrees too**: a process that started from it now would open what the broker
reports. -/
def World.Durable (w : World) : Prop :=
  ∀ r, w.runner = some r → Agrees r.broker (.load w.file)

/-- **The writes succeed** and the mark is one at which 10 buys more than the remainder that the
file drops. -/
def WritesSucceed (py : Python) (w : World) : RunnerEvent → Prop
  | .start _ => True
  | .cycle c => c.recordFault = none ∧ ∀ r, w.runner = some r → r.mark py c ≤ 10 ^ 13

/-- What a run keeps whose starts are fresh and whose writes succeed. -/
structure World.Recorded (w : World) : Prop where
  sane : w.Sane
  agreed : w.Agreed
  durable : w.Durable
  kept : ∀ r, w.runner = some r → ∀ s, Kept (r.broker.positionQty s)

theorem World.Recorded.step (h : w.Recorded) {settings : Settings} {py : Python} {e : RunnerEvent}
    (hfresh : StartsFresh w e) (hwrites : WritesSucceed py w e) :
    (w.step settings py e).Recorded := by
  have hagreed := (World.agreed_step h.sane h.agreed settings py e).mpr hfresh
  refine ⟨h.sane.step settings py e, hagreed, ?_, ?_⟩
  · intro r hr
    cases e with
    | start initialCash =>
      rw [← some.inj hr]
      show Agrees (.new initialCash)
        (.load ((PortfolioLedger.load w.file).setInitialCash initialCash w.file).2)
      have hstart := (agrees_start settings initialCash w.file).mpr hfresh
      by_cases hinit : (PortfolioLedger.load w.file).cash = 0 ∧
          (PortfolioLedger.load w.file).equityPeak = 0
      · rw [PortfolioLedger.setInitialCash, if_pos hinit] at hstart ⊢
        exact hstart.load_save (fun s => .inl (hstart.2 s).symm)
      · rw [PortfolioLedger.setInitialCash, if_neg hinit] at hstart ⊢
        exact hstart
    | cycle c =>
      cases hrun : w.runner with
      | none =>
        rw [World.step, hrun] at hr ⊢
        exact h.durable r (hrun ▸ hr)
      | some r₀ =>
        rw [World.step, hrun] at hr ⊢
        rw [← some.inj hr]
        exact (Runner.durable_runCycle (h.sane r₀ hrun) (h.agreed.1 r₀ hrun) (h.durable r₀ hrun)
          (h.kept r₀ hrun) settings py hwrites.1 (hwrites.2 r₀ hrun)).1
  · intro r hr
    cases e with
    | start initialCash =>
      rw [← some.inj hr]
      exact fun s => .inl rfl
    | cycle c =>
      cases hrun : w.runner with
      | none =>
        rw [World.step, hrun] at hr
        exact h.kept r (hrun ▸ hr)
      | some r₀ =>
        rw [World.step, hrun] at hr
        rw [← some.inj hr]
        exact (Runner.durable_runCycle (h.sane r₀ hrun) (h.agreed.1 r₀ hrun) (h.durable r₀ hrun)
          (h.kept r₀ hrun) settings py hwrites.1 (hwrites.2 r₀ hrun)).2

/-- A runtime directory without a process. -/
def World.new (file : StateFile) : World := { file, runner := none, orders := [], log := [] }

/-- **Strategy runner and ledger**: at the start of every cycle of every run the broker reports
the cash and the positions of the ledger, no entry is taken on top of a position of the ledger and
every exit sells all of it – exactly where every process starts on a file that records what a new
broker has. Where in addition the writes of the ledger succeed, the file agrees as well. -/
theorem runner_and_ledger_agree (settings : Settings) (py : Python) (file : StateFile)
    (events : List RunnerEvent) : ((∀ before, before <+: events →
        (Machine.run (World.step settings py) (.new file) before).Agreed) ↔
      Machine.Meets (World.step settings py) StartsFresh (.new file) events) ∧
    (Machine.Meets (World.step settings py) (fun w e => StartsFresh w e ∧ WritesSucceed py w e)
        (.new file) events →
      ∀ before, before <+: events →
        (Machine.run (World.step settings py) (.new file) before).Durable) := by
  constructor
  · exact always_iff_meets World.Sane (fun w e hw => hw.step settings py e)
      (fun w e hw hagreed => World.agreed_step hw hagreed settings py e) (fun r hr => by cases hr)
      ⟨fun r hr => (by cases hr), fun o ho => (by cases ho)⟩ events
  · rintro hmeets before ⟨after, rfl⟩
    refine (inv_run_of_meets World.Recorded (fun w e hw he => hw.step he.1 he.2) ?_
      (meets_append.mp hmeets).1).durable
    exact ⟨fun r hr => (by cases hr), ⟨fun r hr => (by cases hr), fun o ho => (by cases ho)⟩,
      fun r hr => (by cases hr), fun r hr => (by cases hr)⟩

/-! ### A restart -/

namespace Sample

/-- A runner of Bitcoin, with the limits of the defaults. -/
def settings : Settings := { symbol := "BTC/USDT", risk := {}, strategyName := "dca" }

/-- Texts are no numbers here. -/
def py : Python where
  readFloat _ := none
  fixed _ := ""
  general _ := ""

/-- A cycle with an opportunity at a price. -/
def cycleAt (now price : ℚ) (action : Action) : Cycle where
  now := now
  evaluated := .ok (
    { values := fun key => if key = "price" then .float (.finite price) else .none
      ohlcvClose := .none },
    { opportunity := some
        { ts := now, action, confidence := 1, reason := "", details := fun _ => .none }
      metrics := fun _ => .none })
  submitRaises := none
  recordFault := none

/-- A process buys, stops, is started again and buys. -/
def restarted : List RunnerEvent :=
  [.start 100000, .cycle (cycleAt 0 100 .buy), .start 100000, .cycle (cycleAt 60 100 .buy)]

/-- The sides of the orders, and whether the ledger held anything. -/
theorem orders_restarted :
    (Machine.run (World.step settings py) (.new .missing) restarted).orders.map
        (fun o => (o.1.side, decide (o.2 = 0))) =
      [(.buy, true), (.buy, false)] := by
  decide +kernel

end Sample

/-- **A restart buys twice**: the ledger that the second process opens holds what the first one
bought, and its broker holds nothing. -/
theorem restart_buys_twice : ¬ ∀ before, before <+: Sample.restarted →
      (Machine.run (World.step Sample.settings Sample.py) (.new .missing) before).Agreed := by
  intro h
  have hlaw := (h Sample.restarted prefix_rfl).2
  have horders := Sample.orders_restarted
  have hmem : (OrderSide.buy, false) ∈
      (Machine.run (World.step Sample.settings Sample.py) (.new .missing)
        Sample.restarted).orders.map (fun o => (o.1.side, decide (o.2 = 0))) := by
    rw [horders]
    decide
  obtain ⟨o, ho, heq⟩ := mem_map.mp hmem
  obtain ⟨hside, hheld⟩ := Prod.mk.inj heq
  exact of_decide_eq_false hheld ((hlaw o ho).1 hside)

end Qt.Paper
