import QuantTrading.StrategyRunner

/-!
# Runs behind the entry gate

The two drivers of a `RiskEngine`: the loop of `qt.strategies.runner` and the bar loop of
`qt.backtest.engine`. Both open a position only where the engine says so, and neither feeds it all
that happens: the runner tells it of no closed trade and shows it the equity at entry
opportunities only; the backtester tells it of every exit, before the fee of the entry, and shows
it the equity where it holds nothing. `Fed` is what this leaves to ask of a run, and `risk_gate`
says that every run of which it holds is lawful.

What a run of the backtester computes after its loop – the curve, the metrics – is left out.
-/

namespace Qt.Paper

open List

open Live (OrderSide OrderType Python)

/-! ## The runner -/

namespace Runner

variable {r : Runner} {settings : Settings} {py : Python} {file : StateFile} {opp : Opportunity}
  {symbol : String} {price : ℚ} {c : Cycle}

theorem riskEngine_execute (r : Runner) (file : StateFile) (order : Order) (symbol : String)
    (price : ℚ) (c : Cycle) :
    (r.execute file order symbol price c).runner.riskEngine = r.riskEngine := by
  unfold execute
  split
  · rfl
  · split <;> rfl

/-- An opportunity is shown to the engine where it is one of entry. -/
theorem riskEngine_route (r : Runner) (settings : Settings) (py : Python) (file : StateFile)
    (opp : Opportunity) (symbol : String) (price : ℚ) (c : Cycle) :
    (r.route settings py file opp symbol price c).runner.riskEngine =
      if opp.action.IsEntry then
        (r.evaluateEntry py opp symbol (r.portfolio.computeEquity symbol price) price).1
      else r.riskEngine := by
  unfold route
  dsimp only
  split_ifs
  · exact riskEngine_execute _ _ _ _ _ _
  · rfl
  · exact riskEngine_execute _ _ _ _ _ _
  · rfl
  · rfl

/-- **The order of an opportunity**: a purchase is one that the engine opens, of the size that it
decides. -/
theorem order_route (hprice : price ≠ 0) {order : Order}
    (h : (r.route settings py file opp symbol price c).order = some order) :
    (order.side = .buy ∧ order.symbol = symbol ∧ opp.action.IsEntry ∧
      (r.evaluateEntry py opp symbol (r.portfolio.computeEquity symbol price) price).2.action =
        .open ∧
      order.qty * price =
        (r.evaluateEntry py opp symbol (r.portfolio.computeEquity symbol price) price).2.sizeQuote) ∨
    (order.side = .sell ∧ ¬ opp.action.IsEntry) := by
  unfold route at h
  by_cases hentry : opp.action.IsEntry
  · rw [if_pos hentry] at h
    by_cases hopen : (r.evaluateEntry py opp symbol (r.portfolio.computeEquity symbol price)
        price).2.action = .open ∧ 10 < (r.evaluateEntry py opp symbol
        (r.portfolio.computeEquity symbol price) price).2.sizeQuote
    · rw [show (_ : Outcome) = _ from if_pos hopen, order_execute] at h
      obtain rfl := Option.some.inj h
      exact .inl ⟨rfl, rfl, hentry, hopen.1, div_mul_cancel₀ _ hprice⟩
    · rw [show (_ : Outcome) = _ from if_neg hopen] at h
      cases h
  · rw [if_neg hentry] at h
    by_cases hexit : opp.action.IsExit ∧ r.broker.positionQty symbol ≠ 0
    · rw [if_pos hexit] at h
      by_cases hqty : 1 / 10 ^ 8 < r.broker.positionQty symbol
      · rw [if_pos hqty, order_execute] at h
        obtain rfl := Option.some.inj h
        exact .inr ⟨rfl, hentry⟩
      · rw [if_neg hqty] at h
        cases h
    · rw [if_neg hexit] at h
      cases h

/-- **What a cycle asks of the feeding so far**: an opportunity is shown to the engine where it is
one of entry. -/
def Fed (r : Runner) (settings : Settings) (py : Python) (log : GateLog) (c : Cycle) : Prop :=
  ∀ data result opp, c.evaluated = .ok (data, result) → result.opportunity = some opp →
    r.riskEngine.Fed log opp.action.IsEntry c.now
      (r.portfolio.computeEquity (opportunitySymbol opp settings) (r.mark py c))

/-- **What the runner has of the log**: it holds what the ledger holds, the engine minds the log
and has been told of no loss, and the log is lawful. -/
structure Gated (r : Runner) (settings : Settings) (log : GateLog) : Prop where
  sane : r.Sane
  same : SameQuantities r.broker r.portfolio
  cfg : r.riskEngine.cfg = settings.risk
  barSeconds : r.riskEngine.barSeconds = 3600
  quiet : r.riskEngine.state.lastLossTs = none
  minds : r.riskEngine.Minds 0 False log
  lawful : Lawful settings.risk (settings.risk.cooldownBars * 3600) log

variable {log : GateLog}

/-- **The cycle of an opportunity**: the engine it leaves minds the log with what the cycle adds,
and the log stays lawful. -/
theorem Gated.route (h : r.Gated settings log)
    (hfed : r.riskEngine.Fed log opp.action.IsEntry c.now (r.portfolio.computeEquity symbol price))
    (hprice : 0 < price) {before after : Runner} {o : Outcome}
    (hbefore : before.portfolio = r.portfolio) (hlast : after.lastMarkPrice = price)
    (hengine : after.riskEngine = (r.route settings py file opp symbol price c).runner.riskEngine)
    (hopp : o.opportunity = some (symbol, r.portfolio.computeEquity symbol price))
    (horder : o.order = (r.route settings py file opp symbol price c).order) :
    after.riskEngine.cfg = settings.risk ∧ after.riskEngine.barSeconds = 3600 ∧
      after.riskEngine.state.lastLossTs = none ∧
      after.riskEngine.Minds 0 False (gateEvents before after c o ++ log) ∧
      Lawful settings.risk (settings.risk.cooldownBars * 3600) (gateEvents before after c o ++ log) := by
  rw [riskEngine_route] at hengine
  have hcool : r.riskEngine.cooldown = settings.risk.cooldownBars * 3600 := by
    rw [RiskEngine.cooldown, h.cfg, h.barSeconds]
    norm_num
  by_cases hentry : opp.action.IsEntry
  · rw [if_pos hentry] at hengine
    obtain ⟨hcfg, hbars, hquiet⟩ := RiskEngine.evaluateEntry_keeps r.riskEngine
      (oppToSignal opp opp.confidence
        (targetQuoteAlloc py opp (r.portfolio.computeEquity symbol price)))
      (r.portfolio.computeEquity symbol price) price (price * (2 / 100)) (8 / 10) (3 / 5) (3 / 2)
      { symbol, qty := r.broker.positionQty symbol, avgPrice := r.portfolio.avgPrice.get symbol }
    have hkind : (oppToSignal opp opp.confidence
        (targetQuoteAlloc py opp (r.portfolio.computeEquity symbol price))).kind = .entryLong :=
      if_pos hentry
    rw [hengine]
    refine ⟨hcfg.trans h.cfg, hbars.trans h.barSeconds, hquiet.trans h.quiet, ?_⟩
    unfold gateEvents
    rw [hopp]
    cases hor : o.order with
    | none =>
      exact ⟨h.minds.evaluateEntry hkind (fun _ _ hpos => absurd hpos (lt_irrefl 0)) _ _ _ _ _ _,
        lawful_opportunity.mpr h.lawful⟩
    | some order =>
      rcases order_route hprice.ne' (horder.symm.trans hor) with
        ⟨hbuy, hsymbol, -, hopen, hsize⟩ | ⟨-, hno⟩
      · have hlong : r.broker.positionQty symbol ≤ 0 := (RiskEngine.evaluate_open hopen).2.2.2.1
        have hflat : r.portfolio.positionQty order.symbol = 0 := by
          rw [hsymbol, ← h.same symbol]
          exact le_antisymm hlong (h.sane.2 symbol)
        simp only [hbuy, hlast, hsize, hbefore]
        refine ⟨(h.minds.entry _ _ _ _).evaluateEntry hkind
          (fun _ _ hpos => absurd hpos (lt_irrefl 0)) _ _ _ _ _ _, ?_⟩
        refine lawful_opportunity.mpr (lawful_entry.mpr ⟨h.lawful, ?_⟩)
        have hlaw := h.minds.entryLaw hfed hentry hopen
          (fun t ht => by rw [h.quiet] at ht; cases ht) (targetQuoteAlloc_nonneg _ _ _)
          (fun _ => not_false) hflat
        rw [h.cfg, hcool] at hlaw
        exact hlaw
      · exact absurd hentry hno
  · rw [if_neg hentry] at hengine
    rw [hengine]
    refine ⟨h.cfg, h.barSeconds, h.quiet, ?_⟩
    unfold gateEvents
    rw [hopp]
    cases hor : o.order with
    | none => exact ⟨h.minds.unseen (hfed.unseen hentry), lawful_opportunity.mpr h.lawful⟩
    | some order =>
      rcases order_route hprice.ne' (horder.symm.trans hor) with ⟨-, -, hyes, -⟩ | ⟨hsell, -⟩
      · exact absurd hyes hentry
      · simp only [hsell]
        exact ⟨(h.minds.closed _ _).unseen (hfed.unseen hentry),
          lawful_opportunity.mpr (lawful_closed.mpr h.lawful)⟩

theorem runCycle_opportunity {data : Data} {result : EvaluationResult}
    (hev : c.evaluated = .ok (data, result)) (hopp : result.opportunity = some opp) :
    (r.runCycle settings py file c).runner.lastMarkPrice =
        extractMarkPrice py data result r.lastMarkPrice ∧
      (r.runCycle settings py file c).runner.riskEngine = (route { r with
          cycle := r.cycle + 1
          lastMarkPrice := extractMarkPrice py data result r.lastMarkPrice } settings py file opp
          (opportunitySymbol opp settings) (extractMarkPrice py data result r.lastMarkPrice)
          c).runner.riskEngine ∧
      (r.runCycle settings py file c).opportunity = some (opportunitySymbol opp settings,
        r.portfolio.computeEquity (opportunitySymbol opp settings)
          (extractMarkPrice py data result r.lastMarkPrice)) ∧
      (r.runCycle settings py file c).order = (route { r with
          cycle := r.cycle + 1
          lastMarkPrice := extractMarkPrice py data result r.lastMarkPrice } settings py file opp
          (opportunitySymbol opp settings) (extractMarkPrice py data result r.lastMarkPrice)
          c).order := by
  unfold Runner.runCycle
  simp only [hev, hopp]
  exact ⟨lastMarkPrice_route _ settings py file opp _ _ c, trivial, trivial, trivial⟩

theorem Gated.runCycle (h : r.Gated settings log) (hfed : r.Fed settings py log c) :
    (r.runCycle settings py file c).runner.Gated settings
      (gateEvents r (r.runCycle settings py file c).runner c (r.runCycle settings py file c) ++
        log) := by
  have hsane := h.sane.runCycle settings py file c
  have hsame := runCycle_keeps (fun h _ _ _ _ => h.recordTrade) h.sane.1 h.same settings py file c
  suffices hgate : (r.runCycle settings py file c).runner.riskEngine.cfg = settings.risk ∧
      (r.runCycle settings py file c).runner.riskEngine.barSeconds = 3600 ∧
      (r.runCycle settings py file c).runner.riskEngine.state.lastLossTs = none ∧
      (r.runCycle settings py file c).runner.riskEngine.Minds 0 False (gateEvents r
        (r.runCycle settings py file c).runner c (r.runCycle settings py file c) ++ log) ∧
      Lawful settings.risk (settings.risk.cooldownBars * 3600) (gateEvents r
        (r.runCycle settings py file c).runner c (r.runCycle settings py file c) ++ log) from
    ⟨hsane, hsame, hgate.1, hgate.2.1, hgate.2.2.1, hgate.2.2.2.1, hgate.2.2.2.2⟩
  have hmark := mark_pos h.sane.1 py c
  cases hev : c.evaluated with
  | error e =>
    unfold Runner.runCycle
    simp only [hev]
    exact ⟨h.cfg, h.barSeconds, h.quiet, h.minds, h.lawful⟩
  | ok fetched =>
    obtain ⟨data, result⟩ := fetched
    have hprice : r.mark py c = extractMarkPrice py data result r.lastMarkPrice := by
      simp only [mark, hev]
    rw [hprice] at hmark
    cases hopp : result.opportunity with
    | none =>
      unfold Runner.runCycle
      simp only [hev, hopp]
      exact ⟨h.cfg, h.barSeconds, h.quiet, h.minds, h.lawful⟩
    | some opp =>
      have hf := hfed data result opp hev hopp
      rw [hprice] at hf
      have hr : Gated { r with
          cycle := r.cycle + 1
          lastMarkPrice := extractMarkPrice py data result r.lastMarkPrice } settings log :=
        ⟨⟨hmark, h.sane.2⟩, h.same, h.cfg, h.barSeconds, h.quiet, h.minds, h.lawful⟩
      obtain ⟨hlast, hengine, ho, horder⟩ := runCycle_opportunity hev hopp
      exact hr.route hf hmark rfl hlast hengine ho horder

end Runner


/-! ## The backtester -/

/-- The thresholds of `ThresholdConfig` that `to_signals` reads. -/
structure ThresholdConfig where
  entryScoreMin : ℚ := 65 / 100
  minFactorGroups : ℕ := 4

/-- **A bar**, with what is computed for it before the loop: the score, the groups that fired, the
macro filter, the average true range and the realized volatility; `none` is no number. -/
structure Bar where
  ts : ℚ
  close : ℚ
  score : Option ℚ
  groupsFired : ℕ
  macroOk : Bool
  atr : Option ℚ
  realizedVol : Option ℚ

def scoreToAlloc (score : ℚ) : ℚ := max (1 / 10) (min 1 ((score - 5 / 10) * 2))

/-- **`to_signals`**, of one bar. -/
def ThresholdConfig.toSignal (t : ThresholdConfig) (bar : Bar) : Option Signal :=
  match bar.score with
  | none => none
  | some s =>
    if t.entryScoreMin ≤ s ∧ t.minFactorGroups ≤ bar.groupsFired ∧ bar.macroOk = true then
      some { ts := bar.ts, kind := .entryLong, score := s, targetQuoteAlloc := scoreToAlloc s }
    else none

/-- A signal is one of entry, of its bar, and asks for a share that is not negative. -/
theorem ThresholdConfig.toSignal_spec {t : ThresholdConfig} {bar : Bar} {s : Signal}
    (h : t.toSignal bar = some s) :
    s.kind = .entryLong ∧ s.ts = bar.ts ∧ 0 ≤ s.targetQuoteAlloc := by
  unfold toSignal at h
  split at h
  · cases h
  · split_ifs at h
    cases h
    exact ⟨rfl, rfl, le_trans (by norm_num) (le_max_left _ _)⟩

structure Backtester where
  thresholds : ThresholdConfig
  riskCfg : RiskConfig
  fills : FillModel := {}
  initialCash : ℚ := 100000
  barSeconds : ℤ := 3600

structure TradeRow where
  entryTs : Option ℚ
  exitTs : ℚ
  entryPrice : ℚ
  exitPrice : ℚ
  qty : ℚ
  pnl : ℚ
  returnPct : ℚ
  reason : Reason
  holdingBars : ℚ

/-- **The variables of the bar loop**, with the log of the gate. -/
structure Replay where
  cash : ℚ
  position : Position
  riskEngine : RiskEngine
  equityRecords : List (ℚ × ℚ)
  tradeRecords : List TradeRow
  entryTs : Option ℚ
  entryPrice : ℚ
  log : GateLog

/-- `Position(symbol="BTC/USDT")`. -/
def flatPosition : Position := { symbol := "BTC/USDT" }

namespace Backtester

variable (b : Backtester)

/-- The variables before the loop. -/
def start : Replay where
  cash := b.initialCash
  position := flatPosition
  riskEngine :=
    { cfg := b.riskCfg, barSeconds := b.barSeconds, state := { equityPeak := b.initialCash } }
  equityRecords := []
  tradeRecords := []
  entryTs := none
  entryPrice := 0
  log := []

variable (s : Replay) (bar : Bar)

/-- **The exit check** of a bar. The engine is told of the profit without the fee of the entry; the
log has it with that fee, as the portfolio ledger would book it. -/
def exitCheck : Replay :=
  if s.position.qty = 0 then s
  else
    let exitDec := s.riskEngine.evaluateExit s.position bar.close bar.ts
    if exitDec.action = .close then
      let fillPx := b.fills.fillPrice bar.close .sell
      let notional := s.position.qty * fillPx
      let fee := b.fills.fee notional
      let pnl := (fillPx - s.position.avgPrice) * s.position.qty - fee
      { s with
        cash := s.cash + (notional - fee)
        position := flatPosition
        riskEngine := s.riskEngine.recordRealized pnl bar.ts
        tradeRecords := s.tradeRecords ++ [{
             entryTs := s.entryTs
             exitTs := bar.ts
             entryPrice := s.entryPrice
             exitPrice := fillPx
             qty := s.position.qty
             pnl
             returnPct := fillPx / s.position.avgPrice - 1
             reason := exitDec.reason
             holdingBars := s.entryTs.elim 0 (fun t => (bar.ts - t) / b.barSeconds) }]
        entryTs := none
        entryPrice := 0
        log := .closed bar.ts (pnl - b.fills.fee (s.position.qty * s.position.avgPrice))
          (some pnl) :: s.log }
    else s

/-- What the engine makes of a signal. -/
def evaluateEntry (sig : Signal) (bar : Bar) : RiskEngine × RiskDecision :=
  s.riskEngine.evaluateEntry sig (s.cash + s.position.qty * bar.close) bar.close
    (bar.atr.getD (bar.close * (2 / 100))) (bar.realizedVol.getD (6 / 10)) s.position

def entryCheck : Replay :=
  match b.thresholds.toSignal bar with
  | none => s
  | some sig =>
    let equity := s.cash + s.position.qty * bar.close
    if s.position.qty = 0 then
      let evaluated := evaluateEntry s sig bar
      let dec := evaluated.2
      if dec.action = .open ∧ 0 < dec.sizeQuote then
        let fillPx := b.fills.fillPrice bar.close .buy
        let fee := b.fills.fee dec.sizeQuote
        { s with
          riskEngine := evaluated.1
          cash := s.cash - (dec.sizeQuote + fee)
          position :=
            { symbol := "BTC/USDT"
              qty := dec.sizeQuote / fillPx
              avgPrice := fillPx
              openedTs := some bar.ts
              stopPrice := dec.stopPrice
              takeProfitPrice := dec.takeProfitPrice
              timeStopTs := dec.timeStopTs }
          entryTs := some bar.ts
          entryPrice := fillPx
          log := .opportunity equity :: .entry bar.ts dec.sizeQuote equity s.position.qty :: s.log }
      else { s with riskEngine := evaluated.1, log := .opportunity equity :: s.log }
    else { s with log := .opportunity equity :: s.log }

def barStep : Replay :=
  let s := b.entryCheck (b.exitCheck s bar) bar
  { s with
    equityRecords := s.equityRecords ++ [(bar.ts, s.cash + s.position.qty * bar.close)] }

/-- **What a bar asks of the feeding so far**: a signal is shown to the engine where nothing is
held after the exit check. -/
def Fed : Prop :=
  b.thresholds.toSignal bar ≠ none → (b.exitCheck s bar).riskEngine.Fed (b.exitCheck s bar).log
      ((b.exitCheck s bar).position.qty = 0) bar.ts
      ((b.exitCheck s bar).cash + (b.exitCheck s bar).position.qty * bar.close)

/-- **No entry is left to come**: nothing is held and the cash has the sign that the limit for a
position does not have. -/
def Over : Prop :=
  s.position.qty = 0 ∧ ((0 ≤ b.riskCfg.maxPositionPct ∧ s.cash < 0) ∨
    (b.riskCfg.maxPositionPct < 0 ∧ 0 < s.cash))

/-- **What the loop has of the log**, at a time. With a negative limit for a position nothing is
bought with money: from the first positive peak on the loop holds cash. -/
structure Gated (b : Backtester) (now : ℚ) (s : Replay) : Prop where
  cfg : s.riskEngine.cfg = b.riskCfg
  barSeconds : s.riskEngine.barSeconds = b.barSeconds
  clock : ∀ t realized told, .closed t realized told ∈ s.log → t ≤ now
  minds : s.riskEngine.Minds b.initialCash (b.Over s) s.log
  held : b.riskCfg.maxPositionPct < 0 → s.riskEngine.state.killSwitchArmed = false →
    0 < s.riskEngine.state.equityPeak → s.position.qty = 0 ∧ 0 < s.cash
  lawful : Lawful b.riskCfg (b.riskCfg.cooldownBars * b.barSeconds) s.log

variable {b} {s} {bar} {now : ℚ}

theorem gated_start (b : Backtester) (now : ℚ) : b.Gated now b.start where
  cfg := rfl
  barSeconds := rfl
  clock := fun _ _ _ h => by cases h
  minds := .new _ _ _ _
  held := fun _ _ hpeak => ⟨rfl, hpeak⟩
  lawful := lawful_nil

/-- **The exit check keeps it**: what is closed was held, and the engine is told of it. -/
theorem Gated.exitCheck (h : b.Gated now s) (hnow : now ≤ bar.ts) :
    b.Gated bar.ts (b.exitCheck s bar) := by
  have hlater : b.Gated bar.ts s :=
    ⟨h.cfg, h.barSeconds, fun t r told hmem => (h.clock t r told hmem).trans hnow, h.minds, h.held,
      h.lawful⟩
  unfold Backtester.exitCheck
  by_cases hflat : s.position.qty = 0
  · rw [if_pos hflat]
    exact hlater
  rw [if_neg hflat]
  by_cases hclose : (s.riskEngine.evaluateExit s.position bar.close bar.ts).action = .close
  swap
  · rw [show (_ : Replay) = _ from if_neg hclose]
    exact hlater
  rw [show (_ : Replay) = _ from if_pos hclose]
  refine ⟨h.cfg, h.barSeconds, fun t r told hmem => ?_, ?_, fun hneg harmed hpeak => ?_, ?_⟩
  · rcases mem_cons.mp hmem with heq | hmem
    · cases heq
      exact le_rfl
    · exact hlater.clock t r told hmem
  · exact (h.minds.mono (fun hover => absurd hover.1 hflat)).recordRealized hlater.clock _ _
  · exact absurd (h.held hneg harmed hpeak).1 hflat
  · exact lawful_closed.mpr h.lawful

/-- A negative equity without a position leaves no entry to come. -/
theorem Gated.ended (h : b.Gated now s) (harmed : s.riskEngine.state.killSwitchArmed = false)
    (hflat : s.position.qty = 0) (hneg : s.cash < 0) (hstart : 0 < b.initialCash) : b.Over s := by
  refine ⟨hflat, ?_⟩
  by_cases hcap : 0 ≤ b.riskCfg.maxPositionPct
  · exact .inl ⟨hcap, hneg⟩
  · have hpeak := lt_of_lt_of_le hstart (h.minds.peaks harmed).start_le
    exact absurd (h.held (not_le.mp hcap) harmed hpeak).2 (not_lt.mpr hneg.le)

theorem not_over_of_pos (h : 0 < b.riskCfg.maxPositionPct * s.cash) : ¬ b.Over s := by
  rintro ⟨-, ⟨hcap, hcash⟩ | ⟨hcap, hcash⟩⟩
  · exact not_lt.mpr (mul_nonpos_of_nonneg_of_nonpos hcap hcash.le) h
  · exact not_lt.mpr (mul_neg_of_neg_of_pos hcap hcash).le h

/-- A look at the cash makes the peak positive only where the cash is. -/
theorem Gated.held_evaluate (h : b.Gated bar.ts s) (hflat : s.position.qty = 0) (sig : Signal)
    (hlimit : b.riskCfg.maxPositionPct < 0)
    (harmed : (evaluateEntry s sig bar).1.state.killSwitchArmed = false)
    (hpeak : 0 < (evaluateEntry s sig bar).1.state.equityPeak) : 0 < s.cash := by
  unfold Backtester.evaluateEntry at harmed hpeak
  rw [RiskEngine.evaluateEntry_fst] at harmed hpeak
  by_cases hno : sig.kind ≠ .entryLong ∨ s.riskEngine.state.killSwitchArmed = true
  · rw [if_pos hno] at harmed hpeak
    exact (h.held hlimit harmed hpeak).2
  · rw [if_neg hno] at hpeak
    have hbefore : s.riskEngine.state.killSwitchArmed = false := by
      simpa using (not_or.mp hno).2
    rcases lt_max_iff.mp (show 0 < max s.riskEngine.state.equityPeak
      (s.cash + s.position.qty * bar.close) from hpeak) with hold | hnew
    · exact (h.held hlimit hbefore hold).2
    · rwa [hflat, zero_mul, add_zero] at hnew

/-- **The entry check keeps it.** -/
theorem Gated.entryCheck (h : b.Gated bar.ts s) (hfed : b.thresholds.toSignal bar ≠ none →
      s.riskEngine.Fed s.log (s.position.qty = 0) bar.ts (s.cash + s.position.qty * bar.close)) :
    b.Gated bar.ts (b.entryCheck s bar) := by
  unfold Backtester.entryCheck
  cases hsig : b.thresholds.toSignal bar with
  | none => exact h
  | some sig =>
    have hf := hfed (by rw [hsig]; exact Option.some_ne_none _)
    obtain ⟨hkind, hts, halloc⟩ := ThresholdConfig.toSignal_spec hsig
    show b.Gated bar.ts (if s.position.qty = 0 then _ else _)
    by_cases hflat : s.position.qty = 0
    swap
    · rw [if_neg hflat]
      exact ⟨h.cfg, h.barSeconds, fun t r told hmem => h.clock t r told (by simpa using hmem),
        h.minds.unseen (hf.unseen hflat), h.held, lawful_opportunity.mpr h.lawful⟩
    rw [if_pos hflat]
    have hequity : s.cash + s.position.qty * bar.close = s.cash := by rw [hflat, zero_mul, add_zero]
    obtain ⟨hcfg, hbars, -⟩ := RiskEngine.evaluateEntry_keeps s.riskEngine sig
      (s.cash + s.position.qty * bar.close) bar.close (bar.atr.getD (bar.close * (2 / 100)))
      (bar.realizedVol.getD (6 / 10)) (3 / 5) (3 / 2) s.position
    have hheld := h.held_evaluate hflat sig
    have hneg : s.riskEngine.state.killSwitchArmed = false →
        s.cash + s.position.qty * bar.close < 0 → 0 < b.initialCash → b.Over s :=
      fun harmed hlt hstart => h.ended harmed hflat (hequity ▸ hlt) hstart
    by_cases hopen : (evaluateEntry s sig bar).2.action = .open ∧
        0 < (evaluateEntry s sig bar).2.sizeQuote
    · rw [show (_ : Replay) = _ from if_pos hopen]
      obtain ⟨-, -, -, -, hpos, hsize⟩ := RiskEngine.evaluate_open hopen.1
      rw [hsize] at hpos
      have hsign := RiskEngine.equity_of_open halloc hpos
      rw [h.cfg, hequity] at hsign
      have hnot := not_over_of_pos hsign
      refine ⟨hcfg.trans h.cfg, hbars.trans h.barSeconds, fun t r told hmem =>
        h.clock t r told (by simpa using hmem), ?_, fun hlimit harmed hpeak => ?_, ?_⟩
      · exact ((h.minds.entry _ _ _ _).evaluateEntry hkind hneg _ _ _ _ _ _).mono
          (fun hover => absurd hover hnot)
      · exact absurd (mul_neg_of_neg_of_pos hlimit (hheld hlimit harmed hpeak))
          (not_lt.mpr hsign.le)
      · refine lawful_opportunity.mpr (lawful_entry.mpr ⟨h.lawful, ?_⟩)
        have hlaw := h.minds.entryLaw hf hflat hopen.1 (fun _ _ => hts) halloc (fun _ => hnot) hflat
        rw [RiskEngine.cooldown, h.cfg, h.barSeconds] at hlaw
        exact hlaw
    · rw [show (_ : Replay) = _ from if_neg hopen]
      exact ⟨hcfg.trans h.cfg, hbars.trans h.barSeconds, fun t r told hmem =>
        h.clock t r told (by simpa using hmem), h.minds.evaluateEntry hkind hneg _ _ _ _ _ _,
        fun hlimit harmed hpeak => ⟨hflat, hheld hlimit harmed hpeak⟩,
        lawful_opportunity.mpr h.lawful⟩

/-- **A bar keeps it.** -/
theorem Gated.barStep (h : b.Gated now s) (hnow : now ≤ bar.ts) (hfed : b.Fed s bar) :
    b.Gated bar.ts (b.barStep s bar) := by
  have hbar := (h.exitCheck hnow).entryCheck hfed
  exact ⟨hbar.cfg, hbar.barSeconds, hbar.clock, hbar.minds, hbar.held, hbar.lawful⟩

/-- **A run keeps the log lawful**, on bars in the order of their time. -/
theorem lawful_run (h : b.Gated now s) {bars : List Bar} (hnow : ∀ bar ∈ bars, now ≤ bar.ts)
    (hsorted : bars.Pairwise fun x y => x.ts < y.ts) (hfed : Machine.Meets b.barStep b.Fed s bars) :
    Lawful b.riskCfg (b.riskCfg.cooldownBars * b.barSeconds)
      (Machine.run b.barStep s bars).log := by
  induction bars generalizing s now with
  | nil => exact h.lawful
  | cons bar bars ih =>
    obtain ⟨hhead, htail⟩ := pairwise_cons.mp hsorted
    exact ih (h.barStep (hnow bar mem_cons_self) hfed.1) (fun x hx => (hhead x hx).le) htail hfed.2

end Backtester

/-! ## Both -/

/-- One cycle of a process. -/
def World.cycle (settings : Settings) (py : Python) (w : World) (c : Cycle) : World :=
  w.step settings py (.cycle c)

/-- What a cycle asks of the feeding so far. -/
def World.Fed (settings : Settings) (py : Python) (w : World) (c : Cycle) : Prop :=
  ∀ r, w.runner = some r → r.Fed settings py w.log c

/-- **A process starts** on a runtime directory. -/
def World.started (settings : Settings) (py : Python) (file : StateFile) (initialCash : ℚ) :
    World :=
  (World.new file).step settings py (.start initialCash)

/-- The variables of a loop that starts on a ledger without positions. -/
theorem gated_started (settings : Settings) (initialCash : ℚ) {file : StateFile}
    (hflat : ∀ s, (PortfolioLedger.load file).positionQty s = 0) :
    (Runner.start settings initialCash
      ((PortfolioLedger.load file).setInitialCash initialCash file).1).Gated settings [] where
  sane := ⟨by norm_num [Runner.start], fun _ => le_rfl⟩
  same s := by
    show (0 : ℚ) = ((PortfolioLedger.load file).setInitialCash initialCash file).1.positionQty s
    unfold PortfolioLedger.setInitialCash
    split_ifs
    · exact (hflat s).symm
    · exact (hflat s).symm
  cfg := rfl
  barSeconds := rfl
  quiet := rfl
  minds := .new _ _ _ _
  lawful := lawful_nil

namespace Sample

/-- A bar whose score asks for an entry. -/
def bar : Bar :=
  { ts := 0, close := 100, score := some 1, groupsFired := 4, macroOk := true, atr := none,
    realizedVol := none }

/-- Nothing is wrong with the first opportunity of a process. -/
theorem fed_first {e : RiskEngine} {shown : Prop} {now equity : ℚ} (h : shown) :
    e.Fed [] shown now equity where
  cool _ _ _ _ _ hclosed := absurd hclosed not_mem_nil
  unseen h' := absurd h h'

end Sample

namespace Sample

/-- A process buys, sells at half the price a minute later, and buys another minute later. -/
def reentered : List Cycle :=
  [cycleAt 0 100 .buy, cycleAt 60 50 .sell, cycleAt 120 50 .buy]

theorem log_reentered :
    (Machine.run (World.cycle settings py) (.started settings py .missing 100000) reentered).log =
      [.opportunity (97490249 / 1000), .entry 120 (97490249 / 20000) (97490249 / 1000) 0,
        .opportunity (48746749 / 500), .closed 60 (-2509751 / 1000) none,
        .opportunity 100000, .entry 0 5000 100000 0] := by
  decide +kernel

end Sample

end Qt.Paper
