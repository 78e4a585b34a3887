import Mathlib.Algebra.Order.BigOperators.GroupWithZero.List
import Mathlib.Data.Int.ConditionallyCompleteOrder
import Mathlib.Data.Rat.Floor
import QuantTrading.Lib.Drawdown
import QuantTrading.Lib.Firsts
import QuantTrading.Lib.Raise
import QuantTrading.Lib.Samples
import QuantTrading.Lib.Table
import QuantTrading.Lib.Turns

/-!
# Metrics of an equity curve

`net_equity_metrics` of `qt.experiments.metrics`, over exact rationals: the returns of the intervals
between the marks, net of the flows at their ends, are multiplied up to a curve, and day by day in
UTC. `net_equity_metrics` says what the numbers of the curve are in terms of its levels.

The logarithm, the exponential, roots and powers are parameters, and no number is infinite.
Timestamps are integers, as they are below `2 ^ 63`, where the differences of numpy do not wrap.
-/

namespace Qt.Experiments

open Except List

def dayNs : ℤ := 86400000000000

/-- The functions of `math` and of numpy that a report is computed with. -/
structure MathFns where
  log : ℚ → ℚ
  expm1 : ℚ → ℚ
  sqrt : ℚ → ℚ
  pow : ℚ → ℚ → ℚ

/-- What `net_equity_metrics` is called with. -/
structure EquitySeries where
  equity : List ℚ
  timestampNs : List ℤ
  externalFlows : Option (List ℚ)
  benchmarkDailyReturns : Option (List ℚ)
  annualRiskFreeRate : ℚ
  tradeNetPnl : Option (List ℚ)
  minTailSamples : ℤ
  effectiveObservations : Option ℤ
deriving DecidableEq

/-- The metadata of the metrics of a tail. -/
structure TailMetadata where
  confidenceLevel : ℚ
  tailSamples : ℕ
  expectedTailSamples : ℚ
  effectiveTailSamples : Option ℚ
  reliableTailSample : Bool
  insufficientReason : Option String
deriving DecidableEq

/-- What a metric says beyond its value. -/
inductive Metadata
  | none
  | unstable (b : Bool)
  | unrecovered (b : Bool)
  | tail (t : TailMetadata)
  | method (text : String)
deriving DecidableEq

/-- `_metric`: a value, or the reason why there is none. -/
structure Metric where
  value : Option ℚ
  reason : Option String
  metadata : Metadata
deriving DecidableEq

/-- A metric that has a value, without more. -/
def Metric.of (value : ℚ) : Metric := ⟨some value, none, .none⟩

/-- A metric that has a value where there is no reason against it. -/
def Metric.unless (reason : Option String) (value : ℚ) : Metric :=
  match reason with
  | some text => ⟨none, some text, .none⟩
  | none => .of value

/-- The metrics against a benchmark. -/
structure BenchmarkMetrics where
  beta : Metric
  alpha : Metric
  benchmarkExcessReturn : Metric
deriving DecidableEq

structure TradeMetrics where
  profitFactor : Metric
  expectancy : Metric
  winRate : Metric
  averageNetTradeReturn : Metric
  payoffRatio : Metric
  maxTradeLoss : Metric
  maxConsecutiveLosses : Metric
deriving DecidableEq

/-- The value at risk of a level, and the mean beyond it. -/
structure TailMetrics where
  var : Metric
  cvar : Metric
deriving DecidableEq

/-- The metrics of a report, under their keys. -/
structure EquityMetrics where
  cumulativeReturn : Metric
  cagr : Metric
  annualizedArithmeticReturn : Metric
  sharpe : Metric
  sortino : Metric
  volatility : Metric
  maxDrawdown : Metric
  drawdownDurationDays : Metric
  calmar : Metric
  tail95 : TailMetrics
  tail99 : TailMetrics
  benchmark : Option BenchmarkMetrics
  trades : Option TradeMetrics
deriving DecidableEq

/-- **What `net_equity_metrics` returns**, less its constant texts. -/
structure EquityReport where
  observations : ℕ
  effectiveObservations : Option ℤ
  effectiveObservationsReason : Option String
  windowStartNs : ℤ
  windowEndNs : ℤ
  dailyReturnDays : List ℤ
  dailyReturns : List ℚ
  coverageGaps : ℕ
  metrics : EquityMetrics
deriving DecidableEq

/-! ## The curve -/

variable (q : EquitySeries)

/-- The flows: none if they are not given. -/
def EquitySeries.flows : List ℚ :=
  q.externalFlows.getD (List.replicate q.equity.length 0)

/-- **The returns of the intervals**, net of the flows at their ends. -/
def EquitySeries.intervalReturns : List ℚ :=
  List.zipWith (fun after before => after / before - 1)
    (List.zipWith (· - ·) q.equity.tail q.flows.tail) q.equity.dropLast

/-- The ends of the intervals, with their returns. -/
def EquitySeries.intervals : List (ℤ × ℚ) :=
  q.timestampNs.tail.zip q.intervalReturns

/-- `unit_equity`: the curve that starts at one. -/
def unitEquity (returns : List ℚ) : List ℚ := (returns.map (1 + ·)).scanl (· * ·) 1

/-- A UTC day, and what one unit is worth after it. -/
structure DayGrowth where
  day : ℤ
  growth : ℚ
deriving DecidableEq

/-- The day of an interval is that of its end. -/
def addInterval (daily : Table DayGrowth.day) (x : ℤ × ℚ) : Table DayGrowth.day :=
  daily.put ⟨x.1 / dayNs, (daily.find? (x.1 / dayNs)).elim 1 (·.growth) * (1 + x.2)⟩

/-- **`daily`**, in the order of the days. -/
def dailyGrowth (intervals : List (ℤ × ℚ)) : List DayGrowth :=
  (intervals.foldl addInterval .empty).rows.orderBy DayGrowth.day

/-- The days between two times. -/
def daysBetween (s t : ℤ) : ℚ := ((t - s : ℤ) : ℚ) / dayNs

/-- The loop of the drawdowns. -/
def drawdownStep (c : Drawdown.Clock ℚ ℤ) (x : ℤ × ℚ × ℚ) : Drawdown.Clock ℚ ℤ :=
  let (timestamp, level, peak) := x
  if peak ≤ level then
    ⟨if c.under then max c.duration (daysBetween c.peakTime timestamp) else c.duration, timestamp,
      false⟩
  else ⟨max c.duration (daysBetween c.peakTime timestamp), c.peakTime, true⟩

/-- The duration of the longest drawdown, in days. -/
def drawdownDuration (times : List ℤ) (levels : List ℚ) : ℚ :=
  ((times.zip (levels.zip (Drawdown.peaks levels))).foldl drawdownStep
    ⟨0, times.head?.getD 0, false⟩).duration

/-! ## The report -/

/-- `np.cov` of two samples, and the variance of one, with one degree of freedom less. -/
def covariance (xs ys : List ℚ) : ℚ :=
  (List.zipWith (fun x y => (x - Samples.mean xs) * (y - Samples.mean ys)) xs ys).sum
    / (xs.length - 1)

def tailMetrics (dailyReturns : List ℚ) (gaps : ℕ) (level : ℚ) : TailMetrics :=
  let losses := dailyReturns.map (- ·)
  let threshold := Samples.quantile losses level
  let tail := losses.filter (threshold ≤ ·)
  let effectiveTail := q.effectiveObservations.map fun n => (n : ℚ) * (1 - level)
  let reliable : Bool := (∃ x ∈ effectiveTail, (q.minTailSamples : ℚ) ≤ x) ∧ gaps = 0
  let metadata : Metadata := .tail {
    confidenceLevel := level
    tailSamples := tail.length
    expectedTailSamples := dailyReturns.length * (1 - level)
    effectiveTailSamples := effectiveTail
    reliableTailSample := reliable
    insufficientReason :=
      if reliable then none else some "insufficient_effective_tail_samples_or_coverage" }
  ⟨⟨some threshold, none, metadata⟩, ⟨some (Samples.mean tail), none, metadata⟩⟩

/-- The metrics against a benchmark. -/
def benchmarkMetrics (dailyReturns : List ℚ) (dailyRf total : ℚ) (sufficient : Prop)
    [Decidable sufficient] (baseline : List ℚ) : Except String BenchmarkMetrics := do
  raiseIf (baseline.length ≠ dailyReturns.length ∨ ∃ x ∈ baseline, x ≤ -1)
    "benchmark_must_be_finite_aligned_daily_returns"
  let excess := dailyReturns.map (· - dailyRf)
  let benchmarkVariance := if sufficient then covariance baseline baseline else 0
  let beta := covariance dailyReturns baseline / benchmarkVariance
  let alpha :=
    (Samples.mean excess - beta * Samples.mean (baseline.map (· - dailyRf))) * 365
  let reason :=
    if benchmarkVariance = 0 then some "insufficient_or_zero_variance_benchmark" else none
  return {
    beta := .unless reason beta
    alpha := { Metric.unless reason alpha with
      metadata := .method "point_estimate_no_hac_interval" }
    benchmarkExcessReturn := .of (total - ((baseline.map (1 + ·)).prod - 1)) }

/-- The longest streak of losses, and the one that lasts. -/
def lossStreak (s : ℕ × ℕ) (value : ℚ) : ℕ × ℕ :=
  let streak := if value < 0 then s.2 + 1 else 0
  (max s.1 streak, streak)

def tradeMetrics (pnl : List ℚ) : TradeMetrics :=
  let wins := pnl.filter (0 < ·)
  let losses := pnl.filter (· < 0)
  let noTrades := if pnl = [] then some "no_completed_trades" else none
  { profitFactor := .unless (if losses = [] then some "no_losing_trades" else none)
      (wins.sum / -losses.sum)
    expectancy := .unless noTrades (Samples.mean pnl)
    winRate := .unless noTrades (wins.length / pnl.length)
    averageNetTradeReturn := ⟨none, some "requires_per_trade_capital_denominator", .none⟩
    payoffRatio := .unless
      (if wins = [] ∨ losses = [] then some "requires_winning_and_losing_trades" else none)
      (Samples.mean wins / -Samples.mean losses)
    maxTradeLoss := .unless noTrades (-(min 0 (pnl.min?.getD 0)))
    maxConsecutiveLosses := .unless noTrades (pnl.foldl lossStreak (0, 0)).1 }

/-- **The report on a curve**, from the returns of its intervals. -/
def report (m : MathFns) (q : EquitySeries) : Except String EquityReport := do
  let times := q.timestampNs
  let curve := unitEquity q.intervalReturns
  let daily := dailyGrowth q.intervals
  let dailyReturns := daily.map (·.growth - 1)
  let sampleCount := dailyReturns.length
  raiseIf (∃ n ∈ q.effectiveObservations, ¬ (1 ≤ n ∧ n ≤ sampleCount))
    "invalid_effective_observations"
  let gaps := ((List.adjacent times).filter fun x => dayNs < x.2 - x.1).length
  let dailyRf := m.pow (1 + q.annualRiskFreeRate) (1 / 365) - 1
  let excess := dailyReturns.map (· - dailyRf)
  let first := times.head?.getD 0
  let last := times.getLast?.getD 0
  let final := curve.getLast?.getD 1
  let total := final - 1
  let years := ((last - first : ℤ) : ℚ) / (365 * dayNs)
  let logGrowth := m.log final / years
  let cagr := if logGrowth < 700 then some (m.expm1 logGrowth) else none
  let mdd := Drawdown.maxDrawdown curve
  let sufficient : Bool := 2 ≤ sampleCount ∧ gaps = 0
  let varianceReason :=
    if sampleCount < 2 then "insufficient_daily_samples" else "missing_daily_coverage"
  let std := if sufficient then m.sqrt (covariance excess excess) else 0
  let downside := m.sqrt (Samples.mean (excess.map fun x => min x 0 ^ 2))
  let benchmark ← q.benchmarkDailyReturns.mapM
    (benchmarkMetrics dailyReturns dailyRf total sufficient)
  return {
    observations := sampleCount
    effectiveObservations := q.effectiveObservations
    effectiveObservationsReason :=
      if q.effectiveObservations = none then some "requires_dependence_estimate" else none
    windowStartNs := first
    windowEndNs := last
    dailyReturnDays := daily.map (·.day)
    dailyReturns := dailyReturns
    coverageGaps := gaps
    metrics := {
      cumulativeReturn := .of total
      cagr := ⟨cagr, if cagr = none then some "overflow" else none, .unstable (years < 1)⟩
      annualizedArithmeticReturn := .unless
        (if gaps = 0 then none else some "missing_daily_coverage") (Samples.mean dailyReturns * 365)
      sharpe := .unless
        (if std ≠ 0 then none
          else some (if sufficient then "zero_return_variance" else varianceReason))
        (Samples.mean excess / std * m.sqrt 365)
      sortino := .unless
        (if sufficient ∧ downside ≠ 0 then none
          else some (if sufficient then "no_downside_observations" else varianceReason))
        (Samples.mean excess / downside * m.sqrt 365)
      volatility := .unless (if sufficient then none else some varianceReason) (std * m.sqrt 365)
      maxDrawdown := .of mdd
      drawdownDurationDays := ⟨some (drawdownDuration times curve), none,
          .unrecovered ((Drawdown.drawdowns curve).getLast?.any (0 < ·))⟩
      calmar := match cagr with
        | some x =>
          .unless (if mdd = 0 then some "zero_drawdown_or_invalid_cagr" else none) (x / mdd)
        | none => ⟨none, some "zero_drawdown_or_invalid_cagr", .none⟩
      tail95 := tailMetrics q dailyReturns gaps (95 / 100)
      tail99 := tailMetrics q dailyReturns gaps (99 / 100)
      benchmark := benchmark
      trades := q.tradeNetPnl.map tradeMetrics } }

def netEquityMetrics (m : MathFns) (q : EquitySeries) : Except String EquityReport := do
  raiseIf (q.equity.length < 2 ∨ q.timestampNs.length ≠ q.equity.length
      ∨ q.flows.length ≠ q.equity.length) "insufficient_or_misaligned_equity"
  raiseIf ((∃ t ∈ q.timestampNs, t < 0) ∨ ∃ x ∈ List.adjacent q.timestampNs, x.2 - x.1 ≤ 0)
    "timestamps_must_be_strictly_increasing_integer_nanoseconds"
  raiseIf (∃ v ∈ q.equity, v ≤ 0) "equity_must_be_positive_finite"
  raiseIf (q.annualRiskFreeRate ≤ -1 ∨ q.minTailSamples < 1) "invalid_metric_configuration"
  raiseIf (∃ r ∈ q.intervalReturns, r ≤ -1) "non_positive_flow_adjusted_equity"
  report m q

/-! ## Days -/

section Days

variable {intervals : List (ℤ × ℚ)} {d : ℤ}

/-- What the intervals of a day come to. -/
def growthOn (intervals : List (ℤ × ℚ)) (d : ℤ) : ℚ :=
  ((intervals.filter (·.1 / dayNs = d)).map (1 + ·.2)).prod

variable (intervals)

theorem growthOn_concat (x : ℤ × ℚ) (d : ℤ) : growthOn (intervals ++ [x]) d
      = if x.1 / dayNs = d then growthOn intervals d * (1 + x.2) else growthOn intervals d := by
  unfold growthOn
  by_cases hd : x.1 / dayNs = d
  · simp [filter_append, hd]
  · simp [filter_append, hd]

/-- **What is found of a day** after some intervals. -/
theorem find?_addIntervals (d : ℤ) : (intervals.foldl addInterval .empty).find? d
      = if ∃ x ∈ intervals, x.1 / dayNs = d then some ⟨d, growthOn intervals d⟩ else none := by
  induction intervals using List.reverseRecOn with
  | nil => simp
  | append_singleton intervals x ih =>
    rw [foldl_concat, addInterval, Table.find?_put, growthOn_concat]
    by_cases hd : d = x.1 / dayNs
    · subst hd
      rw [if_pos rfl, if_pos ⟨x, by simp, rfl⟩, if_pos rfl, ih]
      split_ifs with hold
      · rfl
      · -- the first interval of its day
        have hnone : growthOn intervals (x.1 / dayNs) = 1 := by
          rw [growthOn, filter_eq_nil_iff.mpr fun y hy => by
            simpa using fun heq => hold ⟨y, hy, heq⟩]
          rfl
        rw [hnone]
        rfl
    · rw [if_neg hd, ih, if_neg (Ne.symm hd)]
      congr 1
      simp [Ne.symm hd]

variable {intervals}

/-- **The days of the intervals**, in order, each with what its intervals come to. -/
theorem mem_dailyGrowth {g : DayGrowth} : g ∈ dailyGrowth intervals ↔
    (∃ x ∈ intervals, x.1 / dayNs = g.day) ∧ g.growth = growthOn intervals g.day := by
  rw [dailyGrowth, mem_orderBy, Table.mem_rows_iff, find?_addIntervals]
  split_ifs with hday
  · rw [Option.some_inj]
    exact ⟨fun h => ⟨hday, by rw [← h]⟩, fun h => by rw [← h.2]⟩
  · exact ⟨fun h => (nomatch h), fun h => absurd h.1 hday⟩

variable (intervals)

theorem pairwise_dailyGrowth : ((dailyGrowth intervals).map DayGrowth.day).Pairwise (· < ·) :=
  pairwise_map.mpr
    (pairwise_lt_orderBy DayGrowth.day (intervals.foldl addInterval Table.empty).nodup)

theorem map_growth : (dailyGrowth intervals).map (·.growth)
      = ((dailyGrowth intervals).map (·.day)).map (growthOn intervals) := by
  rw [map_map]
  exact map_congr_left fun g hg => (mem_dailyGrowth.mp hg).2

variable {intervals}

theorem mem_days (h : ∃ x ∈ intervals, x.1 / dayNs = d) : d ∈ (dailyGrowth intervals).map (·.day) :=
  mem_map.mpr ⟨⟨d, growthOn intervals d⟩, mem_dailyGrowth.mpr ⟨h, rfl⟩, rfl⟩

variable (intervals)

/-- **Day by day all intervals are multiplied.** -/
theorem prod_dailyGrowth :
    ((dailyGrowth intervals).map (·.growth)).prod = (intervals.map (1 + ·.2)).prod := by
  have hgroups := Samples.prod_groups ((pairwise_dailyGrowth intervals).imp ne_of_lt)
    (intervals.map fun x => (x.1 / dayNs, 1 + x.2)) fun y hy => by
      obtain ⟨x, hx, rfl⟩ := mem_map.mp hy
      exact mem_days ⟨x, hx, rfl⟩
  have hall : (intervals.map fun x => (x.1 / dayNs, 1 + x.2)).map Prod.snd
      = intervals.map (1 + ·.2) := by
    rw [map_map]
    rfl
  rw [hall] at hgroups
  rw [map_growth]
  refine Eq.trans ?_ hgroups
  congr 1
  refine map_congr_left fun d _ => ?_
  rw [growthOn, filter_map, map_map]
  rfl

end Days

/-! ## The curve of an accepted series -/

section Curve

variable {returns : List ℚ}

theorem length_unitEquity (returns : List ℚ) :
    (unitEquity returns).length = returns.length + 1 := by
  simp [unitEquity]

theorem getElem?_unitEquity {k : ℕ} (hk : k ≤ returns.length) :
    (unitEquity returns)[k]? = some ((returns.take k).map (1 + ·)).prod := by
  rw [unitEquity, getElem?_scanl, if_pos (by simpa using hk), map_take, prod_eq_foldl]

theorem getLast?_unitEquity (returns : List ℚ) :
    (unitEquity returns).getLast? = some (returns.map (1 + ·)).prod := by
  rw [getLast?_eq_getElem?, length_unitEquity, Nat.add_sub_cancel,
    getElem?_unitEquity le_rfl, take_length]

theorem unitEquity_pos (h : ∀ r ∈ returns, -1 < r) : ∀ e ∈ unitEquity returns, 0 < e := by
  intro e he
  obtain ⟨k, hk⟩ := mem_iff_getElem?.mp he
  have hle : k ≤ returns.length := by
    have := (List.getElem?_eq_some_iff.mp hk).1
    rw [length_unitEquity] at this
    omega
  rw [getElem?_unitEquity hle] at hk
  rw [← Option.some.inj hk]
  refine prod_pos fun x hx => ?_
  obtain ⟨r, hr, rfl⟩ := mem_map.mp hx
  linarith [h r (mem_of_mem_take hr)]

theorem drawdownStep_eq (c : Drawdown.Clock ℚ ℤ) (x : ℤ × ℚ × ℚ) :
    drawdownStep c x = c.step daysBetween (x.1, decide (x.2.1 < x.2.2)) := by
  obtain ⟨timestamp, level, peak⟩ := x
  unfold drawdownStep Drawdown.Clock.step
  by_cases hle : peak ≤ level
  · simp [hle, not_lt.mpr hle]
  · simp [hle, not_le.mp hle]

theorem daysBetween_mono (s : ℤ) : Monotone (daysBetween s) := by
  intro t t' h
  have hcast : ((t - s : ℤ) : ℚ) ≤ ((t' - s : ℤ) : ℚ) := by exact_mod_cast Int.sub_le_sub_right h s
  exact div_le_div_of_nonneg_right hcast (by norm_num [dayNs])

/-- **The longest drawdown** is the longest span from a maximum to where the curve is back, or to
its end. -/
theorem isGreatest_drawdownDuration {times : List ℤ} {levels : List ℚ}
    (hlength : times.length = levels.length) (hordered : times.Pairwise (· < ·)) (hne : times ≠ [])
    : IsGreatest ({0} ∪ {g | ∃ i j s t, Drawdown.Below times levels i j s t ∧ g = daysBetween s t})
      (drawdownDuration times levels) := by
  obtain ⟨start, hstart⟩ : ∃ start, times.head? = some start := ⟨_, head?_eq_some_head hne⟩
  have hrun := Drawdown.isGreatest_duration daysBetween_mono hlength (hordered.imp le_of_lt) hstart
  have heq : drawdownDuration times levels
      = ((Drawdown.points times levels).foldl (Drawdown.Clock.step daysBetween)
        ⟨0, start, false⟩).duration := by
    rw [drawdownDuration, hstart, Drawdown.points, ← map_uncurry_zip_eq_zipWith, foldl_map]
    congr 2
    funext c x
    exact drawdownStep_eq c x
  rw [heq]
  exact hrun

end Curve

/-! ## Reports -/

section Report

variable {m : MathFns} {q : EquitySeries} {r : EquityReport}

structure EquitySeries.Accepted (q : EquitySeries) : Prop where
  two : 2 ≤ q.equity.length
  times : q.timestampNs.length = q.equity.length
  flows : q.flows.length = q.equity.length
  ordered : q.timestampNs.Pairwise (· < ·)
  positive : ∀ v ∈ q.equity, 0 < v
  returns : ∀ x ∈ q.intervalReturns, -1 < x

theorem netEquityMetrics_eq_ok (h : netEquityMetrics m q = .ok r) :
    q.Accepted ∧ report m q = .ok r := by
  obtain ⟨hlengths, h⟩ := of_raiseIf h
  obtain ⟨htimes, h⟩ := of_raiseIf h
  obtain ⟨hpositive, h⟩ := of_raiseIf h
  obtain ⟨_, h⟩ := of_raiseIf h
  obtain ⟨hreturns, h⟩ := of_raiseIf h
  simp only [not_or, not_lt, not_exists, not_and, not_not, not_le]
    at hlengths htimes hpositive hreturns
  refine ⟨⟨hlengths.1, hlengths.2.1, hlengths.2.2, ?_, hpositive, hreturns⟩, h⟩
  exact isChain_iff_pairwise.mp (isChain_iff_adjacent.mpr fun x hx => sub_pos.mp (htimes.2 x hx))

theorem EquitySeries.Accepted.length_intervalReturns (h : q.Accepted) :
    q.intervalReturns.length + 1 = q.equity.length := by
  have := h.two
  have := h.flows
  simp only [EquitySeries.intervalReturns, length_zipWith, length_tail, length_dropLast]
  omega

theorem EquitySeries.Accepted.map_intervals (h : q.Accepted) :
    q.intervals.map (1 + ·.2) = q.intervalReturns.map (1 + ·) := by
  have hlength := h.length_intervalReturns
  have htimes := h.times
  have hsnd : q.intervals.map Prod.snd = q.intervalReturns := by
    rw [EquitySeries.intervals, map_snd_zip]
    rw [length_tail]
    omega
  rw [← hsnd, map_map]
  rfl

theorem EquitySeries.Accepted.days_ne_nil (h : q.Accepted) : dailyGrowth q.intervals ≠ [] := by
  have hlength := h.length_intervalReturns
  have htimes := h.times
  have htwo := h.two
  have hne : q.intervals ≠ [] := by
    rw [← length_pos_iff, EquitySeries.intervals, length_zip, length_tail]
    omega
  obtain ⟨x, hx⟩ := exists_mem_of_ne_nil _ hne
  exact fun hnil => by
    have hday := mem_days ⟨x, hx, rfl⟩
    rw [hnil] at hday
    cases hday

/-- **What a report says** of the curve. -/
theorem report_eq_ok (h : report m q = .ok r) :
    r.dailyReturnDays = (dailyGrowth q.intervals).map (·.day)
    ∧ r.dailyReturns = (dailyGrowth q.intervals).map (·.growth - 1)
    ∧ r.metrics.cumulativeReturn = .of ((unitEquity q.intervalReturns).getLast?.getD 1 - 1)
    ∧ r.metrics.maxDrawdown = .of (Drawdown.maxDrawdown (unitEquity q.intervalReturns))
    ∧ r.metrics.drawdownDurationDays.value
      = some (drawdownDuration q.timestampNs (unitEquity q.intervalReturns))
    ∧ r.metrics.tail95 = tailMetrics q r.dailyReturns r.coverageGaps (95 / 100)
    ∧ r.metrics.tail99 = tailMetrics q r.dailyReturns r.coverageGaps (99 / 100) := by
  obtain ⟨_, h⟩ := of_raiseIf h
  obtain ⟨benchmark, _, h⟩ := of_bind h
  cases h
  exact ⟨rfl, rfl, rfl, rfl, rfl, rfl, rfl⟩

/-- **The mean beyond a value at risk** is not below it. -/
theorem var_le_cvar (q : EquitySeries) {dailyReturns : List ℚ} (gaps : ℕ) {level : ℚ}
    (hne : dailyReturns ≠ []) (h0 : 0 ≤ level) (h1 : level ≤ 1) :
    ∃ var cvar, (tailMetrics q dailyReturns gaps level).var.value = some var
      ∧ (tailMetrics q dailyReturns gaps level).cvar.value = some cvar ∧ var ≤ cvar :=
  ⟨_, _, rfl, rfl, Samples.quantile_le_mean_tail (by simpa using hne) h0 h1⟩

/-- Equities and flows in another unit. -/
def EquitySeries.scale (c : ℚ) (q : EquitySeries) : EquitySeries :=
  { q with
    equity := q.equity.map (c * ·)
    externalFlows := q.externalFlows.map (·.map (c * ·)) }

theorem flows_scale (c : ℚ) (q : EquitySeries) : (q.scale c).flows = q.flows.map (c * ·) := by
  unfold EquitySeries.flows EquitySeries.scale
  cases q.externalFlows with
  | none => simp
  | some flows => rfl

variable {c : ℚ}

/-- **The returns of the intervals do not depend on the unit.** -/
theorem intervalReturns_scale (hc : 0 < c) (q : EquitySeries) :
    (q.scale c).intervalReturns = q.intervalReturns := by
  unfold EquitySeries.intervalReturns
  rw [flows_scale]
  show List.zipWith (fun after before => after / before - 1)
    (List.zipWith (· - ·) (q.equity.map (c * ·)).tail (q.flows.map (c * ·)).tail)
    (q.equity.map (c * ·)).dropLast = _
  rw [← map_tail, ← map_tail, ← map_dropLast, zipWith_map, zipWith_map_right]
  have hafter : List.zipWith (fun v f => c * v - c * f) q.equity.tail q.flows.tail
      = (List.zipWith (· - ·) q.equity.tail q.flows.tail).map (c * ·) := by
    rw [map_zipWith]
    congr 1
    funext v f
    exact (mul_sub c v f).symm
  rw [hafter, zipWith_map_left]
  congr 1
  funext after before
  rw [mul_div_mul_left _ _ hc.ne']

/-- **The unit does not matter**, not to what is raised either. -/
theorem netEquityMetrics_scale (hc : 0 < c) (m : MathFns) (q : EquitySeries) :
    netEquityMetrics m (q.scale c) = netEquityMetrics m q := by
  have hreturns := intervalReturns_scale hc q
  have hreport : report m (q.scale c) = report m q := by
    unfold report EquitySeries.intervals
    rw [hreturns]
    rfl
  have hlengths : ((q.scale c).equity.length < 2
      ∨ (q.scale c).timestampNs.length ≠ (q.scale c).equity.length
      ∨ (q.scale c).flows.length ≠ (q.scale c).equity.length)
      = (q.equity.length < 2 ∨ q.timestampNs.length ≠ q.equity.length
        ∨ q.flows.length ≠ q.equity.length) := by
    rw [flows_scale]
    simp [EquitySeries.scale]
  have hpositive : (∃ v ∈ (q.scale c).equity, v ≤ 0) = ∃ v ∈ q.equity, v ≤ 0 := by
    simp [EquitySeries.scale, mul_nonpos_iff_neg_imp_nonneg, hc.le, not_le.mpr hc]
  unfold netEquityMetrics
  simp only [hreturns, hreport, hlengths, hpositive]
  rfl

/-- **The metrics of an accepted series.** The daily returns multiply up to the cumulative one, and
each interval is in one day. The greatest drawdown is the greatest loss from a level of the curve to
a later one, and its duration the longest span from a maximum to where the curve is back or to its
end. The mean beyond a value at risk is not below it, and the unit does not matter. -/
theorem net_equity_metrics (h : netEquityMetrics m q = .ok r) :
    (∃ total, r.metrics.cumulativeReturn.value = some total
      ∧ 1 + total = (q.intervalReturns.map (1 + ·)).prod
      ∧ (r.dailyReturns.map (1 + ·)).prod = 1 + total)
    ∧ ((∀ x ∈ q.intervals, r.dailyReturnDays.count (x.1 / dayNs) = 1)
      ∧ r.dailyReturnDays.Pairwise (· < ·)
      ∧ r.dailyReturns = r.dailyReturnDays.map fun d =>
        ((q.intervals.filter fun x => x.1 / dayNs = d).map (1 + ·.2)).prod - 1)
    ∧ (∃ mdd, r.metrics.maxDrawdown.value = some mdd ∧ IsGreatest {d | ∃ (i j : ℕ) (e e' : ℚ), i ≤ j
        ∧ (unitEquity q.intervalReturns)[i]? = some e
        ∧ (unitEquity q.intervalReturns)[j]? = some e' ∧ d = 1 - e' / e} mdd)
    ∧ (∃ duration, r.metrics.drawdownDurationDays.value = some duration
      ∧ IsGreatest ({0} ∪ {g | ∃ i j s t,
        Drawdown.Below q.timestampNs (unitEquity q.intervalReturns) i j s t ∧ g = daysBetween s t})
        duration)
    ∧ (∀ tail ∈ [r.metrics.tail95, r.metrics.tail99], ∃ var cvar,
      tail.var.value = some var ∧ tail.cvar.value = some cvar ∧ var ≤ cvar)
    ∧ ∀ c : ℚ, 0 < c → netEquityMetrics m (q.scale c) = .ok r := by
  obtain ⟨haccepted, hreport⟩ := netEquityMetrics_eq_ok h
  obtain ⟨hdays, hreturns, htotal, hmdd, hduration, h95, h99⟩ := report_eq_ok hreport
  have hgrowth : r.dailyReturns.map (1 + ·) = (dailyGrowth q.intervals).map (·.growth) := by
    rw [hreturns, map_map]
    exact map_congr_left fun g _ => add_sub_cancel 1 g.growth
  have hlength : q.timestampNs.length = (unitEquity q.intervalReturns).length := by
    rw [length_unitEquity, haccepted.length_intervalReturns, haccepted.times]
  have hcurve : unitEquity q.intervalReturns ≠ [] := by
    rw [← length_pos_iff, length_unitEquity]
    exact Nat.succ_pos _
  have hne : r.dailyReturns ≠ [] := by
    rw [hreturns]
    exact fun hnil => haccepted.days_ne_nil (map_eq_nil_iff.mp hnil)
  refine ⟨⟨_, by rw [htotal]; rfl, ?_, ?_⟩, ⟨fun x hx => ?_, ?_, ?_⟩,
    ⟨_, by rw [hmdd]; rfl, ?_⟩, ⟨_, hduration, ?_⟩, fun tail htail => ?_, fun c hc => ?_⟩
  · rw [getLast?_unitEquity, Option.getD_some, add_sub_cancel]
  · rw [getLast?_unitEquity, Option.getD_some, add_sub_cancel, hgrowth, prod_dailyGrowth,
      haccepted.map_intervals]
  · rw [hdays]
    exact count_eq_one_of_mem ((pairwise_dailyGrowth q.intervals).imp ne_of_lt)
      (mem_days ⟨x, hx, rfl⟩)
  · rw [hdays]
    exact pairwise_dailyGrowth q.intervals
  · rw [hdays, hreturns, map_map]
    refine map_congr_left fun g hg => ?_
    rw [(mem_dailyGrowth.mp hg).2]
    rfl
  · exact Drawdown.isGreatest_maxDrawdown hcurve (unitEquity_pos haccepted.returns)
  · refine isGreatest_drawdownDuration hlength haccepted.ordered fun hnil => ?_
    rw [hnil, length_unitEquity] at hlength
    cases hlength
  · rw [h95, h99] at htail
    rcases mem_cons.mp htail with rfl | htail
    · exact var_le_cvar q _ hne (by norm_num) (by norm_num)
    · obtain rfl := mem_singleton.mp htail
      exact var_le_cvar q _ hne (by norm_num) (by norm_num)
  · rw [netEquityMetrics_scale hc, h]

/-- Half of what is there is lost within an hour, and won back in the next one. -/
def halved : EquitySeries :=
  ⟨[100, 50, 100], [0, 3600000000000, 7200000000000], none, none, 0, none, 30, none⟩

/-- Functions that are what they should be at one and at zero. -/
def atOne : MathFns := ⟨(· - 1), id, id, fun x _ => x⟩

theorem net_equity_metrics_halved : ∃ r total, netEquityMetrics atOne halved = .ok r
    ∧ r.metrics.cumulativeReturn.value = some total
    ∧ (r.dailyReturns.map (1 + ·)).prod = 1 + total := by
  have hok : (netEquityMetrics atOne halved).toOption.isSome = true := by decide +kernel
  obtain ⟨r, hr⟩ := Option.isSome_iff_exists.mp hok
  have h : netEquityMetrics atOne halved = .ok r := by
    cases hrun : netEquityMetrics atOne halved with
    | error e =>
      rw [hrun] at hr
      cases hr
    | ok r' =>
      rw [hrun] at hr
      exact congrArg Except.ok (Option.some.inj hr)
  obtain ⟨total, htotal, -, hprod⟩ := (net_equity_metrics h).1
  exact ⟨r, total, h, htotal, hprod⟩

end Report

end Qt.Experiments
