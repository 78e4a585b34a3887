import QuantTrading.FundingCarry
import QuantTrading.TrendStrategies

/-!
# The built-in strategies that have a state

Every strategy of `moving_average`, `momentum`, `oscillators`, `bands`, `accumulation` and `carry`
as `EventRunner` runs it: its attributes, what `initialize` makes of them, and `on_bar`.

Those with a target weight share one `on_bar`, and differ in `target_weight` and in what
`initialize` resets: `RateOfChange` alone resets no more than the base class does, and keeps its
target.
-/

namespace Qt.Backtest

open Except Fills Series

/-! ## Bands -/

/-- `BollingerMeanReversionParams`. -/
structure BollingerParams where
  window : ℕ
  stddev : ℚ
  window_mem : 2 ≤ window ∧ window ≤ 1000
  stddev_mem : 0 < stddev ∧ stddev ≤ 10

structure BollingerBreakoutParams extends BollingerParams where
  atrWindow : ℕ
  atrStop : ℚ
  atrWindow_mem : 2 ≤ atrWindow ∧ atrWindow ≤ 1000
  atrStop_mem : 0 < atrStop ∧ atrStop ≤ 20

section Bands

variable (squareRoot : ℚ → ℚ)

/-- The population's variance. -/
def variance (window : ℕ) (xs : List ℚ) : ℚ :=
  (xs.map fun x => (x - xs.sum / window) ^ 2).sum / window

/-- **`bollinger`**: the lower band, the middle and the upper band. -/
def bollinger (close : Series ℚ) (window : ℕ) (stddev : ℚ) : Series ℚ × Series ℚ × Series ℚ :=
  let middle := sma close window
  let width := rolling window (fun xs => squareRoot (variance window xs) * stddev) close
  (lift₂ (fun m w => some (m - w)) middle width, middle,
    lift₂ (fun m w => some (m + w)) middle width)

/-- **`BollingerMeanReversion`.** -/
def bollingerMeanReversion (params : BollingerParams) : TargetWeightStrategy where
  State := ℚ
  warmupBars := params.window
  requiresFullHistory := true
  initial := 0
  targetWeight target bars :=
    let (lower, middle, _) := bollinger squareRoot (closes bars) params.window params.stddev
    let next := match (closes bars).last, lower.last, middle.last with
      | some close, some lowerValue, some middleValue =>
        if target = 0 ∧ close ≤ lowerValue then 1
        else if target = 1 ∧ close ≥ middleValue then 0
        else target
      | _, _, _ => target
    (next, next)

/-- The attributes of `BollingerBreakout`. -/
structure BreakoutState where
  target : ℚ
  highestClose : Option ℚ
  trailingStop : Option ℚ
deriving DecidableEq

/-- `value or default`, of a number. -/
def orDefault (value : Option ℚ) (default : ℚ) : ℚ :=
  if value.getD 0 = 0 then default else value.getD 0

/-- What becomes of the stop while the target is one. -/
def BreakoutState.trail (st : BreakoutState) (close range atrStop : ℚ) : BreakoutState :=
  let highest := max (orDefault st.highestClose close) close
  let candidate := ctx (highest - ctx (range * atrStop))
  let trailingStop := max (orDefault st.trailingStop candidate) candidate
  if close ≤ trailingStop then { target := 0, highestClose := none, trailingStop := none }
  else { target := st.target, highestClose := some highest, trailingStop := some trailingStop }

/-- **`BollingerBreakout`.** -/
def bollingerBreakout (params : BollingerBreakoutParams) : TargetWeightStrategy where
  State := BreakoutState
  warmupBars := max params.window params.atrWindow + 1
  requiresFullHistory := true
  initial := { target := 0, highestClose := none, trailingStop := none }
  targetWeight st bars :=
    let (_, _, upper) := bollinger squareRoot (closes bars) params.window params.stddev
    let averageRange := atr (highs bars) (lows bars) (closes bars) params.atrWindow
    let next := match (closes bars).last, upper.last, averageRange.last with
      | some close, some upperValue, some range =>
        if st.target = 0 then
          if close ≤ upperValue then st
          else { target := 1, highestClose := some close,
                 trailingStop := some (ctx (close - ctx (range * params.atrStop))) }
        else st.trail close range params.atrStop
      | _, _, _ => st
    (next, next.target)

end Bands

namespace Engine

/-! ## Target weights -/

/-- `rebalance_tolerance`, as it is accepted. -/
abbrev Tolerance := { x : ℚ // 0 ≤ x ∧ x ≤ 1 }

/-- The attributes of a `TargetWeightStrategy`: those of the strategy, and the multiplier. -/
structure Adapted (σ : Type) where
  own : σ
  executionMultiplier : ℚ

/-- The costs of a trade, from the arguments of the run. -/
def executionMultiplier (policy : FillPolicy) : ℚ :=
  ctx (ctx (1 + ctx (policy.slippageBps / 10000)) * ctx (1 + ctx (policy.feeBps / 10000)))

/-- The reasons of an order that increases and of one that decreases. -/
structure Reasons where
  increase : String
  decrease : String

section TargetWeight

variable (s : TargetWeightStrategy) (tolerance : Tolerance) (reasons : Reasons)

/-- What `on_bar` makes of a desired weight. -/
def rebalance (desired multiplier : ℚ) (context : StrategyContext) :
    Except String (List OrderIntent) :=
  let bounded := min 1 (max 0 desired)
  let equity := context.portfolio.equity
  if equity ≤ 0 then .ok []
  else
    match context.bars.getLast? with
    | none => .error "strategy context has no bars"
    | some bar =>
      if bar.close ≤ 0 then .error "close must be positive"
      else
        let quantity := context.quantity .spot
        let currentValue := ctx (quantity * bar.close)
        let targetValue := ctx (equity * bounded)
        let difference := ctx (targetValue - currentValue)
        let reason := if targetValue > currentValue then reasons.increase else reasons.decrease
        if ctx (|difference| / equity) ≤ tolerance then .ok []
        else if 0 < difference then
          let quoteAmount := min difference (ctx (context.portfolio.cash / multiplier))
          if quoteAmount ≤ 0 then .ok []
          else do
            let intent ← OrderIntent.validated
              { side := .buy, orderType := .market, quoteAmount := some quoteAmount, reason }
            return [intent]
        else
          let baseQuantity := min (ctx (-difference / bar.close)) quantity
          if baseQuantity ≤ 0 then .ok []
          else do
            let intent ← OrderIntent.validated
              { side := .sell, orderType := .market, baseQuantity := some baseQuantity, reason }
            return [intent]

/-- **`on_bar`** of a `TargetWeightStrategy`. -/
def targetWeightOnBar (st : Adapted s.State) (context : StrategyContext) :
    Except String (Adapted s.State × List OrderIntent) := do
  let (own, desired) := s.targetWeight st.own context.bars
  let intents ← rebalance tolerance reasons desired st.executionMultiplier context
  return ({ st with own }, intents)

/-- **A target-weight strategy**, with what `initialize` makes of its own attributes. -/
def targetWeightStrategy (reset : s.State → s.State) : Strategy where
  State := Adapted s.State
  warmupBars := s.warmupBars
  requiresFullHistory := s.requiresFullHistory
  supportedInstruments := [.spot]
  onInitialize policy st :=
    { own := reset st.own, executionMultiplier := executionMultiplier policy }
  onBar := targetWeightOnBar s tolerance reasons

/-- A new instance. -/
def newTargetWeight : Adapted s.State := { own := s.initial, executionMultiplier := 1 }

end TargetWeight

/-! ## Accumulation -/

structure Schedule where
  weekday : ℤ
  hour : ℤ
  weekday_mem : 0 ≤ weekday ∧ weekday ≤ 6
  hour_mem : 0 ≤ hour ∧ hour ≤ 23

variable (timestamp : ℤ)

/-- The days since 1970, which began on a Thursday. -/
def dayNumber : ℤ := timestamp / (24 * hour)

/-- `timestamp.weekday()`. -/
def weekdayOf : ℤ := (dayNumber timestamp + 3) % 7

/-- `timestamp.hour`. -/
def hourOf : ℤ := timestamp / hour % 24

/-- `isocalendar`, as far as the week: weeks are numbered through, from Monday to Sunday. -/
def isoWeek : ℤ := (dayNumber timestamp + 3) / 7

/-- The attributes of `_ScheduledDCA`. -/
structure DcaState where
  lastBucket : Option ℤ
  executionMultiplier : ℚ
deriving DecidableEq

/-- A new instance. -/
def newDca : DcaState := { lastBucket := none, executionMultiplier := 1 }

/-- **`_scheduled`**: the attributes after it, where it is. -/
def DcaState.scheduled (st : DcaState) (schedule : Schedule) (timestamp : ℤ) : Option DcaState :=
  if weekdayOf timestamp ≠ schedule.weekday ∨ hourOf timestamp ≠ schedule.hour then none
  else if some (isoWeek timestamp) = st.lastBucket then none
  else some { st with lastBucket := some (isoWeek timestamp) }

/-- The purchase of a schedule, if cash is enough for it. -/
def purchase (st : DcaState) (context : StrategyContext) (quoteAmount : ℚ) (reason : String) :
    Except String (DcaState × List OrderIntent) :=
  if ctx (quoteAmount * st.executionMultiplier) ≤ context.portfolio.cash then do
    let intent ← OrderIntent.validated
      { side := .buy, orderType := .market, quoteAmount := some quoteAmount, reason }
    return (st, [intent])
  else .ok (st, [])

/-- `initialize` of `_ScheduledDCA`. -/
def dcaInitialize (policy : FillPolicy) (_ : DcaState) : DcaState :=
  { lastBucket := none
    executionMultiplier := ctx (ctx (1 + ctx (policy.feeBps / 10000))
      * ctx (1 + ctx (policy.slippageBps / 10000))) }

structure FixedDCAParams where
  quoteAmount : ℚ
  schedule : Schedule
  quoteAmount_pos : 0 < quoteAmount

/-- **`FixedDCA`.** -/
def fixedDca (params : FixedDCAParams) : Strategy where
  State := DcaState
  warmupBars := 0
  requiresFullHistory := true
  supportedInstruments := [.spot]
  onInitialize := dcaInitialize
  onBar st context := (st.scheduled params.schedule context.timestamp).elim (.ok (st, []))
    fun st => purchase st context params.quoteAmount "fixed_dca_schedule"

structure SmartDCAParams where
  baseQuote : ℚ
  minMultiplier : ℚ
  maxMultiplier : ℚ
  rsiWindow : ℕ
  rsiOversold : ℚ
  rsiOverbought : ℚ
  fearGreedThreshold : ℚ
  valuationEntryZ : ℚ
  schedule : Schedule
  baseQuote_pos : 0 < baseQuote
  minMultiplier_mem : 0 < minMultiplier ∧ minMultiplier ≤ 1
  maxMultiplier_ge : 1 ≤ maxMultiplier
  rsiWindow_mem : 2 ≤ rsiWindow ∧ rsiWindow ≤ 500
  rsiOversold_mem : 0 ≤ rsiOversold ∧ rsiOversold ≤ 100
  rsiOverbought_mem : 0 ≤ rsiOverbought ∧ rsiOverbought ≤ 100
  fearGreedThreshold_mem : 0 ≤ fearGreedThreshold ∧ fearGreedThreshold ≤ 100
  rsiOversold_lt : rsiOversold < rsiOverbought

def latestFeature (context : StrategyContext) (column : String) : Option ℚ :=
  context.auxiliary.findSome? fun entry =>
    if column ∈ entry.2.columns then
      entry.2.rows.getLast?.bind fun row => carryDecimal (entry.2.get row column .notNumeric)
    else none

def SmartDCAParams.multiplier (params : SmartDCAParams) (context : StrategyContext) : ℚ :=
  let increment := ctx (ctx (params.maxMultiplier - 1) / 2)
  let byRsi := match (rsi (closes context.bars) params.rsiWindow).last with
    | none => 1
    | some value =>
      if value ≤ params.rsiOversold then ctx (1 + increment)
      else if params.rsiOverbought ≤ value then params.minMultiplier
      else 1
  let byFear := if ∃ x ∈ latestFeature context "fear_greed", x ≤ params.fearGreedThreshold
    then ctx (byRsi + increment) else byRsi
  let byValuation := if ∃ x ∈ latestFeature context "valuation_zscore", x ≤ params.valuationEntryZ
    then ctx (byFear + increment) else byFear
  min params.maxMultiplier (max params.minMultiplier byValuation)

/-- **`SmartDCA`.** -/
def smartDca (params : SmartDCAParams) : Strategy where
  State := DcaState
  warmupBars := params.rsiWindow + 1
  requiresFullHistory := true
  supportedInstruments := [.spot]
  onInitialize := dcaInitialize
  onBar st context := (st.scheduled params.schedule context.timestamp).elim (.ok (st, [])) fun st =>
      let multiplier := params.multiplier context
      purchase st context (ctx (params.baseQuote * multiplier))
        (if multiplier = 1 then "smart_dca_base" else "smart_dca_scaled")

/-! ## The catalogue -/

/-- The functions of floats and of timestamps that are the language's. -/
structure Library where
  power : ℚ → ℚ → ℚ
  squareRoot : ℚ → ℚ
  isoformat : ℤ → String

/-- **A built-in strategy with a state**, with its parameters. -/
inductive Builtin
  | configured (c : Configured) (tolerance : Tolerance)
  | bollingerMeanReversion (params : BollingerParams) (tolerance : Tolerance)
  | bollingerBreakout (params : BollingerBreakoutParams) (tolerance : Tolerance)
  | fixedDca (params : FixedDCAParams)
  | smartDca (params : SmartDCAParams)
  | fundingBasisCarry (params : FundingBasisCarryParams)

/-- The reasons of the configured strategies. -/
def reasonsOf : Configured → Reasons
  | .smaCrossover _ => ⟨"sma_bullish_cross", "sma_bearish_cross"⟩
  | .emaCrossover _ => ⟨"ema_bullish_cross", "ema_bearish_cross"⟩
  | .macdTrend _ => ⟨"macd_histogram_bullish_cross", "macd_histogram_bearish_cross"⟩
  | .timeSeriesMomentum _ => ⟨"positive_time_series_momentum", "negative_time_series_momentum"⟩
  | .dualMomentum _ => ⟨"dual_momentum_outperformance", "dual_momentum_cash_preference"⟩
  | .rateOfChange _ => ⟨"roc_entry_threshold", "roc_exit_threshold"⟩
  | .adxTrend _ => ⟨"adx_positive_trend", "adx_trend_failure"⟩
  | .rsiMeanReversion _ => ⟨"rsi_oversold_entry", "rsi_normalization_exit"⟩
  | .stochasticReversal _ => ⟨"stochastic_oversold_cross", "stochastic_overbought_cross"⟩

/-- What `initialize` makes of the own attributes: `RateOfChange` does not override it. -/
def resetOf (power : ℚ → ℚ → ℚ) (c : Configured) :
    (c.strategy power).State → (c.strategy power).State :=
  match c with
  | .rateOfChange _ => id
  | c => fun _ => (c.strategy power).initial

def Builtin.strategy (lib : Library) : Builtin → Strategy
  | configured c tolerance =>
    targetWeightStrategy (c.strategy lib.power) tolerance (reasonsOf c) (resetOf lib.power c)
  | bollingerMeanReversion params tolerance =>
    targetWeightStrategy (Backtest.bollingerMeanReversion lib.squareRoot params) tolerance
      ⟨"lower_band_entry", "bollinger_center_exit"⟩
      fun _ => (Backtest.bollingerMeanReversion lib.squareRoot params).initial
  | bollingerBreakout params tolerance =>
    targetWeightStrategy (Backtest.bollingerBreakout lib.squareRoot params) tolerance
      ⟨"upper_band_breakout", "atr_trailing_exit"⟩
      fun _ => (Backtest.bollingerBreakout lib.squareRoot params).initial
  | fixedDca params => Engine.fixedDca params
  | smartDca params => Engine.smartDca params
  | fundingBasisCarry params => Engine.fundingBasisCarry lib.isoformat params

/-- A new instance. -/
def Builtin.fresh (lib : Library) : (b : Builtin) → (b.strategy lib).State
  | configured c _ => newTargetWeight (c.strategy lib.power)
  | bollingerMeanReversion params _ =>
    newTargetWeight (Backtest.bollingerMeanReversion lib.squareRoot params)
  | bollingerBreakout params _ => newTargetWeight (Backtest.bollingerBreakout lib.squareRoot params)
  | fixedDca _ => newDca
  | smartDca _ => newDca
  | fundingBasisCarry _ => { lastFundingTimestamp := none, negativeStreak := 0 }

end Engine

end Qt.Backtest
