import QuantTrading.Lib.Series
import QuantTrading.TargetWeight

/-!
# Moving averages, momentum, oscillators

The indicators of `btc_backtest.strategies.indicators` and the strategies of `moving_average`,
`momentum` and `oscillators`. What is not finite – a gap, a quotient by zero – is a missing entry.

An indicator is computed anew from all that is shown, so that a strategy built on it differs
between the engines only by its target before the warm-up; there the indicator is blank.
`SMACrossover` keeps its windows and their sums instead, and is shown one bar at a time from the
warm-up on.
-/

namespace Qt.Backtest

open Series List

/-! ## Indicators -/

variable (values : Series ℚ)

def sma (window : ℕ) : Series ℚ :=
  rolling window (fun xs => xs.sum / window) values

/-- **`ema`**, with the span convention. -/
def ema (window : ℕ) : Series ℚ := ewm (2 / (window + 1)) window values

def wilder (window : ℕ) : Series ℚ := ewm (1 / window) window values

def diff : Series ℚ :=
  lift₂ (fun now before => some (now - before)) values (shift 1 values)

/-- `Series.clip(lower=0, upper=100)`, at one value. -/
def clip (x : ℚ) : ℚ := min 100 (max 0 x)

/-- A quotient, where it is finite. -/
def quotient (x y : ℚ) : Option ℚ := if y = 0 then none else some (x / y)

/-- What `rsi` makes of the average gain and the average loss of a bar. -/
def relativeStrength (gain loss : ℚ) : Option ℚ :=
  if loss = 0 then
    if gain > 0 then some (clip 100) else if gain = 0 then some (clip 50) else none
  else (quotient 100 (1 + gain / loss)).map fun x => clip (100 - x)

variable (close : Series ℚ)

def rsi (window : ℕ) : Series ℚ :=
  let delta := diff close
  let gain := lift (fun x => some (max x 0)) delta
  let loss := lift (fun x => some (-min x 0)) delta
  lift₂ relativeStrength (wilder gain window) (wilder loss window)

/-- The least of the values of a window. -/
def lowest (xs : List ℚ) : ℚ := xs.tail.foldl min (xs.headD 0)

/-- The greatest of the values of a window. -/
def highest (xs : List ℚ) : ℚ := xs.tail.foldl max (xs.headD 0)

/-- `%K` of **`stochastic`**. -/
def percentK (high low close : Series ℚ) (kWindow : ℕ) : Series ℚ :=
  let low := rolling kWindow lowest low
  let high := rolling kWindow highest high
  let spread := lift₂ (fun h l => some (h - l)) high low
  lift₂ (fun x s => (quotient (100 * x) s).map clip) (lift₂ (fun c l => some (c - l)) close low)
    spread

def macdHistogram (fast slow signal : ℕ) : Series ℚ :=
  let line := lift₂ (fun f s => some (f - s)) (ema close fast) (ema close slow)
  lift₂ (fun l s => some (l - s)) line (ema line signal)

def roc (lookback : ℕ) : Series ℚ :=
  lift₂ (fun now before => (quotient now before).map (· - 1)) close (shift lookback close)

/-- **`atr`.** The first bar has no close before it, and its range is from high to low. -/
def atr (high low close : Series ℚ) (window : ℕ) : Series ℚ :=
  let previousClose := shift 1 close
  let between := lift₂ fun x y : ℚ => some |x - y|
  let ranges := (lift₂ (fun h l => some (h - l)) high low).zip
    ((between high previousClose).zip (between low previousClose))
  wilder (ranges.map fun r => ([r.1, r.2.1, r.2.2].filterMap id).max?) window

/-- A movement, where it is the greater of the two and upwards, and zero elsewhere. -/
def movement (this other : Series ℚ) : Series ℚ :=
  (lift₂ (fun x y => if x > y ∧ x > 0 then some x else none) this other).map
    fun x => some (x.getD 0)

/-- **`adx`**: the strength, and the two directional indices. -/
def adx (high low close : Series ℚ) (window : ℕ) : Series ℚ × Series ℚ × Series ℚ :=
  let upward := diff high
  let downward := lift (fun x => some (-x)) (diff low)
  let averageRange := atr high low close window
  let index := lift₂ fun x range => quotient (100 * x) range
  let plusDi := index (wilder (movement upward downward) window) averageRange
  let minusDi := index (wilder (movement downward upward) window) averageRange
  let strength := lift₂ (fun p m => quotient (100 * |p - m|) (p + m)) plusDi minusDi
  (wilder strength window, plusDi, minusDi)

/-! ## Their blank starts -/

variable {window : ℕ} {k : ℕ}

theorem blank_wilder {values : Series ℚ} (h : Blank k values) (hw : 0 < window) :
    Blank (k + window - 1) (wilder values window) :=
  h.ewm _ hw

theorem blank_ema {values : Series ℚ} (h : Blank k values) (hw : 0 < window) :
    Blank (k + window - 1) (ema values window) :=
  h.ewm _ hw

theorem blank_roc (lookback : ℕ) : Blank lookback (roc close lookback) :=
  (blank_shift lookback close).lift₂_right _ close

theorem blank_diff : Blank 1 (diff values) :=
  (blank_shift 1 values).lift₂_right _ values

theorem blank_rsi (hw : 0 < window) : Blank window (rsi close window) := by
  have hgain := blank_wilder ((blank_diff close).lift fun x => some (max x 0)) hw
  exact (hgain.lift₂_left relativeStrength _).mono (by omega)

theorem blank_percentK (high low close : Series ℚ) {kWindow : ℕ} (hk : 0 < kWindow) :
    Blank (kWindow - 1) (percentK high low close kWindow) := by
  have hlow := (blank_zero low).rolling hk lowest
  exact ((hlow.lift₂_right _ close).lift₂_left _ _).mono (by omega)

theorem blank_macdHistogram (fast : ℕ) {slow signal : ℕ} (hslow : 0 < slow) (hsignal : 0 < signal) :
    Blank (slow + signal - 2) (macdHistogram close fast slow signal) := by
  have hline := (blank_ema (blank_zero close) hslow).lift₂_right
    (fun f s => some (f - s)) (ema close fast)
  exact ((blank_ema hline hsignal).lift₂_right _ _).mono (by omega)

/-! ## Strategies -/

section Crosses

/-- **`_crossed_above`** of `moving_average`. -/
def crossedAbove (left right : Series ℚ) : Bool :=
  match left.lastTwo, right.lastTwo with
  | some (previousLeft, currentLeft), some (previousRight, currentRight) =>
    previousLeft ≤ previousRight ∧ currentLeft > currentRight
  | _, _ => false

/-- **`_crossed_below`** of `moving_average`. -/
def crossedBelow (left right : Series ℚ) : Bool :=
  match left.lastTwo, right.lastTwo with
  | some (previousLeft, currentLeft), some (previousRight, currentRight) =>
    previousLeft ≥ previousRight ∧ currentLeft < currentRight
  | _, _ => false

variable {left : Series ℚ}

theorem crossedAbove_of_blank (h : left.lastTwo = none) (right : Series ℚ) :
    crossedAbove left right = false := by
  simp [crossedAbove, h]

theorem crossedBelow_of_blank (h : left.lastTwo = none) (right : Series ℚ) :
    crossedBelow left right = false := by
  simp [crossedBelow, h]

variable {right : Series ℚ}

theorem crossedAbove_of_blank_right (h : right.lastTwo = none) (left : Series ℚ) :
    crossedAbove left right = false := by
  cases hl : left.lastTwo <;> simp [crossedAbove, h, hl]

theorem crossedBelow_of_blank_right (h : right.lastTwo = none) (left : Series ℚ) :
    crossedBelow left right = false := by
  cases hl : left.lastTwo <;> simp [crossedBelow, h, hl]

/-- In on a cross above, out on a cross below. -/
def followCross (left right : Series ℚ) (target : ℚ) : ℚ :=
  if crossedAbove left right then 1 else if crossedBelow left right then 0 else target

theorem followCross_of_blank (h : left.lastTwo = none) (right : Series ℚ) (target : ℚ) :
    followCross left right target = target := by
  simp [followCross, crossedAbove_of_blank h, crossedBelow_of_blank h]

theorem followCross_of_blank_right (h : right.lastTwo = none) (left : Series ℚ) (target : ℚ) :
    followCross left right target = target := by
  simp [followCross, crossedAbove_of_blank_right h, crossedBelow_of_blank_right h]

end Crosses

variable (bars : List Bar)

/-- The closes of a history. -/
def closes : Series ℚ := ofValues (bars.map Bar.close)

@[simp]
theorem length_closes : (closes bars).length = bars.length := by
  simp [closes]

/-- The highs of a history. -/
def highs : Series ℚ := ofValues (bars.map Bar.high)

@[simp]
theorem length_highs : (highs bars).length = bars.length := by
  simp [highs]

/-- The lows of a history. -/
def lows : Series ℚ := ofValues (bars.map Bar.low)

@[simp]
theorem length_lows : (lows bars).length = bars.length := by
  simp [lows]

/-! ### Moving averages -/

structure CrossoverParams where
  fastWindow : ℕ
  slowWindow : ℕ
  fast_mem : 2 ≤ fastWindow ∧ fastWindow ≤ 1000
  slow_mem : 3 ≤ slowWindow ∧ slowWindow ≤ 2000
  fast_lt : fastWindow < slowWindow

variable (params : CrossoverParams)

/-- **`EMACrossover`.** -/
def emaCrossover : TargetWeightStrategy where
  State := ℚ
  warmupBars := params.slowWindow + 1
  requiresFullHistory := true
  initial := 0
  targetWeight target bars :=
    let next := followCross (ema (closes bars) params.fastWindow)
      (ema (closes bars) params.slowWindow) target
    (next, next)

structure MACDTrendParams where
  fast : ℕ
  slow : ℕ
  signal : ℕ
  fast_mem : 2 ≤ fast ∧ fast ≤ 500
  slow_mem : 3 ≤ slow ∧ slow ≤ 1000
  signal_mem : 2 ≤ signal ∧ signal ≤ 500
  fast_lt : fast < slow

/-- **`MACDTrend`.** -/
def macdTrend (params : MACDTrendParams) : TargetWeightStrategy where
  State := ℚ
  warmupBars := params.slow + params.signal
  requiresFullHistory := true
  initial := 0
  targetWeight target bars :=
    let histogram := macdHistogram (closes bars) params.fast params.slow params.signal
    let next := followCross histogram (lift (fun x => some (x * 0)) histogram) target
    (next, next)

/-- The attributes of `SMACrossover`. -/
structure SMAState where
  fastValues : List ℚ
  slowValues : List ℚ
  fastSum : ℚ
  slowSum : ℚ
  previousFast : Option ℚ
  previousSlow : Option ℚ
  currentFast : Option ℚ
  currentSlow : Option ℚ
  target : ℚ

/-- `deque.append`, with a `maxlen`. -/
def pushBounded (maxlen : ℕ) (values : List ℚ) (x : ℚ) : List ℚ :=
  if values.length = maxlen then values.tail ++ [x] else values ++ [x]

namespace SMAState

/-- After `initialize`. -/
def initial : SMAState :=
  { fastValues := [], slowValues := [], fastSum := 0, slowSum := 0, previousFast := none,
    previousSlow := none, currentFast := none, currentSlow := none, target := 0 }

def appendClose (params : CrossoverParams) (st : SMAState) (close : ℚ) : SMAState :=
  let fastSum := if st.fastValues.length = params.fastWindow
    then st.fastSum - st.fastValues.headD 0 else st.fastSum
  let slowSum := if st.slowValues.length = params.slowWindow
    then st.slowSum - st.slowValues.headD 0 else st.slowSum
  let fastValues := pushBounded params.fastWindow st.fastValues close
  let slowValues := pushBounded params.slowWindow st.slowValues close
  { fastValues, slowValues
    fastSum := fastSum + close
    slowSum := slowSum + close
    previousFast := st.currentFast
    previousSlow := st.currentSlow
    currentFast := if fastValues.length = params.fastWindow
      then some ((fastSum + close) / params.fastWindow) else none
    currentSlow := if slowValues.length = params.slowWindow
      then some ((slowSum + close) / params.slowWindow) else none
    target := st.target }

/-- What is appended of the closes it is shown: all to an empty window, else the last. -/
def feed (params : CrossoverParams) (st : SMAState) (closes : List ℚ) : SMAState :=
  if st.slowValues = [] then closes.foldl (appendClose params) st
  else closes.getLast?.elim st (appendClose params st)

/-- The target, by the last two values of the averages. -/
def followed (st : SMAState) : ℚ :=
  match st.previousFast, st.previousSlow, st.currentFast, st.currentSlow with
  | some previousFast, some previousSlow, some currentFast, some currentSlow =>
    if previousFast ≤ previousSlow ∧ currentFast > currentSlow then 1
    else if previousFast ≥ previousSlow ∧ currentFast < currentSlow then 0
    else st.target
  | _, _, _, _ => st.target

/-- `_target` becomes the target that follows. -/
def follow (st : SMAState) : SMAState := { st with target := st.followed }

end SMAState

/-- **`SMACrossover`.** -/
def smaCrossover : TargetWeightStrategy where
  State := SMAState
  warmupBars := params.slowWindow + 1
  requiresFullHistory := false
  initial := .initial
  targetWeight st bars :=
    let fed := st.feed params (bars.map Bar.close)
    (fed.follow, fed.followed)

/-! ### Momentum -/

/-- `TimeSeriesMomentumParams`. -/
structure MomentumParams where
  lookback : ℕ
  lookback_mem : 2 ≤ lookback ∧ lookback ≤ 2000

/-- **`TimeSeriesMomentum`.** -/
def timeSeriesMomentum (params : MomentumParams) : TargetWeightStrategy where
  State := Unit
  warmupBars := params.lookback + 1
  requiresFullHistory := true
  initial := ()
  targetWeight _ bars :=
    ((), match (roc (closes bars) params.lookback).last with
      | none => 0
      | some value => if value > 0 then 1 else 0)

structure DualMomentumParams extends MomentumParams where
  cashAnnualRate : ℚ
  rate_mem : 0 ≤ cashAnnualRate ∧ cashAnnualRate ≤ 1

/-- The years from one bar to another. -/
def yearsBetween (start stop : ℤ) : ℚ := (stop - start) / 1000000 / (3652425 / 10000 * 86400)

/-- **`DualMomentum`**; `power` is the `**` of floats. -/
def dualMomentum (power : ℚ → ℚ → ℚ) (params : DualMomentumParams) : TargetWeightStrategy where
  State := Unit
  warmupBars := params.lookback + 1
  requiresFullHistory := true
  initial := ()
  targetWeight _ bars :=
    ((), match (roc (closes bars) params.lookback).last, bars.getLast?,
        bars[bars.length - 1 - params.lookback]? with
      | some value, some stop, some start =>
        let hurdle := power (1 + params.cashAnnualRate)
          (yearsBetween start.timestamp stop.timestamp) - 1
        if value > max 0 hurdle then 1 else 0
      | _, _, _ => 0)

structure RateOfChangeParams extends MomentumParams where
  entry : ℚ
  exit : ℚ
  entry_mem : 0 ≤ entry ∧ entry ≤ 10
  exit_mem : -1 ≤ exit ∧ exit ≤ 10
  exit_lt : exit < entry

/-- **`RateOfChange`.** -/
def rateOfChange (params : RateOfChangeParams) : TargetWeightStrategy where
  State := ℚ
  warmupBars := params.lookback + 1
  requiresFullHistory := true
  initial := 0
  targetWeight target bars :=
    let next := match (roc (closes bars) params.lookback).last with
      | none => target
      | some current =>
        if target = 0 ∧ current ≥ params.entry then 1
        else if target = 1 ∧ current ≤ params.exit then 0
        else target
    (next, next)

structure ADXTrendParams where
  window : ℕ
  threshold : ℚ
  window_mem : 2 ≤ window ∧ window ≤ 500
  threshold_mem : 0 ≤ threshold ∧ threshold ≤ 100

/-- **`ADXTrend`.** -/
def adxTrend (params : ADXTrendParams) : TargetWeightStrategy where
  State := Unit
  warmupBars := params.window * 2
  requiresFullHistory := true
  initial := ()
  targetWeight _ bars :=
    let (strength, plusDi, minusDi) := adx (highs bars) (lows bars) (closes bars) params.window
    ((), match strength.last, plusDi.last, minusDi.last with
      | some strong, some positive, some negative =>
        if strong ≥ params.threshold ∧ positive > negative then 1 else 0
      | _, _, _ => 0)

/-! ### Oscillators -/

structure RSIMeanReversionParams where
  window : ℕ
  entry : ℚ
  exit : ℚ
  window_mem : 2 ≤ window ∧ window ≤ 500
  entry_mem : 0 ≤ entry ∧ entry ≤ 100
  exit_mem : 0 ≤ exit ∧ exit ≤ 100
  entry_lt : entry < exit

/-- **`RSIMeanReversion`.** -/
def rsiMeanReversion (params : RSIMeanReversionParams) : TargetWeightStrategy where
  State := ℚ
  warmupBars := params.window + 1
  requiresFullHistory := true
  initial := 0
  targetWeight target bars :=
    let next := match (rsi (closes bars) params.window).last with
      | none => target
      | some current =>
        if target = 0 ∧ current ≤ params.entry then 1
        else if target = 1 ∧ current ≥ params.exit then 0
        else target
    (next, next)

structure StochasticReversalParams where
  kWindow : ℕ
  dWindow : ℕ
  entry : ℚ
  exit : ℚ
  k_mem : 2 ≤ kWindow ∧ kWindow ≤ 500
  d_mem : 2 ≤ dWindow ∧ dWindow ≤ 100
  entry_mem : 0 ≤ entry ∧ entry ≤ 100
  exit_mem : 0 ≤ exit ∧ exit ≤ 100
  entry_lt : entry < exit

/-- **`_crossed_above`** of `oscillators`, with its upper bound. -/
def crossedAboveWithin (left right : Series ℚ) (upperBound : ℚ) : Bool :=
  match left.lastTwo, right.lastTwo with
  | some (previousLeft, currentLeft), some (previousRight, currentRight) =>
    previousLeft ≤ previousRight ∧ currentLeft > currentRight ∧ currentLeft ≤ upperBound
      ∧ currentRight ≤ upperBound
  | _, _ => false

/-- **`_crossed_below`** of `oscillators`, with its lower bound. -/
def crossedBelowWithin (left right : Series ℚ) (lowerBound : ℚ) : Bool :=
  match left.lastTwo, right.lastTwo with
  | some (previousLeft, currentLeft), some (previousRight, currentRight) =>
    previousLeft ≥ previousRight ∧ currentLeft < currentRight ∧ currentLeft ≥ lowerBound
      ∧ currentRight ≥ lowerBound
  | _, _ => false

/-- **`StochasticReversal`.** -/
def stochasticReversal (params : StochasticReversalParams) : TargetWeightStrategy where
  State := ℚ
  warmupBars := params.kWindow + params.dWindow
  requiresFullHistory := true
  initial := 0
  targetWeight target bars :=
    let k := percentK (highs bars) (lows bars) (closes bars) params.kWindow
    let d := sma k params.dWindow
    let next := if target = 0 ∧ crossedAboveWithin k d params.entry then 1
      else if target = 1 ∧ crossedBelowWithin k d params.exit then 0
      else target
    (next, next)

/-! ## Nothing before the warm-up

Each strategy with a target is built on an indicator whose last value, or whose last two, are blank
on a history shorter than the warm-up. -/

theorem emaCrossover_quiet (bars : List Bar) (h : bars.length < params.slowWindow + 1) :
    ((emaCrossover params).targetWeight (0 : ℚ) bars).1 = (0 : ℚ) := by
  have hblank := blank_ema (blank_zero (closes bars))
    (show 0 < params.slowWindow by have := params.slow_mem; omega)
  refine followCross_of_blank_right (hblank.lastTwo ?_) _ _
  rw [ema, length_ewm, length_closes]
  omega

theorem macdTrend_quiet (params : MACDTrendParams) (bars : List Bar)
    (h : bars.length < params.slow + params.signal) :
    ((macdTrend params).targetWeight (0 : ℚ) bars).1 = (0 : ℚ) := by
  have hslow := params.slow_mem
  have hsignal := params.signal_mem
  have hblank := blank_macdHistogram (closes bars) params.fast
    (show 0 < params.slow by omega) (show 0 < params.signal by omega)
  refine followCross_of_blank (hblank.lastTwo ?_) _ _
  simp only [macdHistogram, ema, length_lift₂, length_ewm, length_closes, min_self]
  omega

theorem rateOfChange_quiet (params : RateOfChangeParams) (bars : List Bar)
    (h : bars.length < params.lookback + 1) :
    ((rateOfChange params).targetWeight (0 : ℚ) bars).1 = (0 : ℚ) := by
  have hlast : (roc (closes bars) params.lookback).last = none := by
    refine (blank_roc (closes bars) params.lookback).last ?_
    rw [roc, length_lift₂, length_shift, length_closes, min_self]
    omega
  simp only [rateOfChange, hlast]

theorem rsiMeanReversion_quiet (params : RSIMeanReversionParams) (bars : List Bar)
    (h : bars.length < params.window + 1) :
    ((rsiMeanReversion params).targetWeight (0 : ℚ) bars).1 = (0 : ℚ) := by
  have hlast : (rsi (closes bars) params.window).last = none := by
    refine (blank_rsi (closes bars) (by have := params.window_mem; omega)).last ?_
    simp only [rsi, wilder, diff, length_lift₂, length_ewm, length_lift, length_shift,
      length_closes, min_self]
    omega
  simp only [rsiMeanReversion, hlast]

theorem length_percentK (high low close : Series ℚ) (kWindow : ℕ)
    (hhigh : high.length = close.length) (hlow : low.length = close.length) :
    (percentK high low close kWindow).length = close.length := by
  simp [percentK, hhigh, hlow]

theorem stochasticReversal_quiet (params : StochasticReversalParams) (bars : List Bar)
    (h : bars.length < params.kWindow + params.dWindow) :
    ((stochasticReversal params).targetWeight (0 : ℚ) bars).1 = (0 : ℚ) := by
  have hk := params.k_mem
  have hd := params.d_mem
  have hblank := blank_percentK (highs bars) (lows bars) (closes bars)
    (show 0 < params.kWindow by omega)
  have hsma := hblank.rolling (show 0 < params.dWindow by omega)
    (fun xs => xs.sum / (params.dWindow : ℚ))
  have hlast : (sma (percentK (highs bars) (lows bars) (closes bars) params.kWindow)
      params.dWindow).lastTwo = none := by
    refine hsma.lastTwo ?_
    rw [length_rolling, length_percentK _ _ _ _ (by simp) (by simp), length_closes]
    omega
  have hno : ∀ k : Series ℚ, crossedAboveWithin k (sma (percentK (highs bars) (lows bars)
      (closes bars) params.kWindow) params.dWindow) params.entry = false := by
    intro k
    cases hkk : k.lastTwo <;> simp [crossedAboveWithin, hlast, hkk]
  simp [stochasticReversal, hno]

/-! ## The windows of `SMACrossover` -/

namespace SMAState

variable {params : CrossoverParams}

/-- What `n` closes leave, as long as they are no more than fill the window and one. -/
structure Filled (params : CrossoverParams) (n : ℕ) (st : SMAState) : Prop where
  length : st.slowValues.length = min n params.slowWindow
  current : n < params.slowWindow → st.currentSlow = none
  previous : n ≤ params.slowWindow → st.previousSlow = none
  target : st.target = 0

theorem filled_initial (params : CrossoverParams) : initial.Filled params 0 :=
  ⟨(Nat.zero_min _).symm, fun _ => rfl, fun _ => rfl, rfl⟩

variable {n : ℕ}

theorem length_pushBounded {maxlen : ℕ} (hpos : 0 < maxlen) {values : List ℚ}
    (h : values.length = min n maxlen) (x : ℚ) :
    (pushBounded maxlen values x).length = min (n + 1) maxlen := by
  unfold pushBounded
  split <;> simp <;> omega

variable {st : SMAState}

theorem Filled.appendClose (h : st.Filled params n) (close : ℚ) :
    (st.appendClose params close).Filled params (n + 1) := by
  have hpos : 0 < params.slowWindow := by have := params.slow_mem; omega
  have hlength := length_pushBounded hpos h.length close
  refine ⟨hlength, fun hn => if_neg ?_, fun hn => h.current (by omega), h.target⟩
  rw [hlength]
  omega

theorem Filled.foldl (h : st.Filled params n) (closes : List ℚ) :
    (closes.foldl (SMAState.appendClose params) st).Filled params (n + closes.length) := by
  induction closes generalizing n st with
  | nil => exact h
  | cons close closes ih =>
    have hnext := ih (h.appendClose close)
    rw [foldl_cons, length_cons]
    rwa [show n + (closes.length + 1) = n + 1 + closes.length by omega]

theorem Filled.followed (h : st.Filled params n) (hn : n ≤ params.slowWindow) :
    st.followed = 0 := by
  unfold SMAState.followed
  rw [h.previous hn]
  cases st.previousFast <;> exact h.target

/-- All that was appended of the first `n` bars. -/
def appended (params : CrossoverParams) (bars : List Bar) (n : ℕ) : SMAState :=
  ((bars.take n).map Bar.close).foldl (SMAState.appendClose params) initial

variable {bars : List Bar}

theorem filled_appended (params : CrossoverParams) (hn : n ≤ bars.length) :
    (appended params bars n).Filled params n := by
  have h := (filled_initial params).foldl ((bars.take n).map Bar.close)
  rwa [length_map, length_take_of_le hn, Nat.zero_add] at h

theorem slowValues_ne_nil (h : st.Filled params n) (hn : 0 < n) : st.slowValues ≠ [] := by
  intro hnil
  have hlength := h.length
  have hpos := params.slow_mem
  rw [hnil, length_nil] at hlength
  omega

theorem appended_succ (h : n < bars.length) :
    appended params bars (n + 1) = (appended params bars n).appendClose params bars[n].close := by
  rw [appended, ← take_append_getElem h, map_append, foldl_append]
  rfl

/-- Shown one bar alone, a window that is not empty takes its close, as it does of a history. -/
theorem feed_of_ne_nil (params : CrossoverParams) (hst : st.slowValues ≠ []) (h : n < bars.length) :
    st.feed params (((bars.take (n + 1)).drop n).map Bar.close)
        = st.appendClose params bars[n].close
      ∧ st.feed params ((bars.take (n + 1)).map Bar.close)
        = st.appendClose params bars[n].close := by
  have hlast : (bars.take (n + 1)).drop n = [bars[n]] := by
    rw [← take_append_getElem h, drop_append_of_le_length (by simp; omega),
      drop_eq_nil_of_le (by simp), nil_append]
  constructor
  · rw [feed, if_neg hst, hlast]
    rfl
  · rw [feed, if_neg hst, ← take_append_getElem h, map_append]
    simp

theorem feed_appended (h : n < bars.length) :
    (appended params bars n).feed params ((bars.take (n + 1)).map Bar.close)
      = appended params bars (n + 1) := by
  rcases Nat.eq_zero_or_pos n with rfl | hpos
  · exact if_pos rfl
  · rw [appended_succ h]
    exact (feed_of_ne_nil params (slowValues_ne_nil (filled_appended params h.le) hpos) h).2

theorem appendClose_ne_nil (st : SMAState) (close : ℚ) :
    (st.appendClose params close).slowValues ≠ [] := by
  show pushBounded params.slowWindow st.slowValues close ≠ []
  unfold pushBounded
  split <;> simp

theorem follow_eq_self (h : st.followed = st.target) : st.follow = st := by
  rw [follow, h]

end SMAState

variable {bars}

theorem smaCrossover_targetWeight {params : CrossoverParams} {st fed : SMAState}
    (h : st.feed params (bars.map Bar.close) = fed) :
    (smaCrossover params).targetWeight st bars = (fed.follow, fed.followed) := by
  rw [← h]
  rfl

open SMAState in
/-- **`SMACrossover`**: before the warm-up the bridge fills the windows, at the warm-up the other
engine fills them at once, and from then on each gives the one close. -/
theorem smaCrossover_agrees (frame : OhlcvFrame) :
    ∃ weights, CausalStrategyBridge.targets (smaCrossover params) frame.bars = .ok weights
      ∧ weights.length = frame.bars.length
      ∧ (EventRunner.targets (smaCrossover params) frame.bars).drop
          ((smaCrossover params).warmupBars - 1)
        = (weights.drop ((smaCrossover params).warmupBars - 1)).map some := by
  refine engines_agree_of_simulation frame (s := smaCrossover params) (fun n (e b : SMAState) =>
    (n < params.slowWindow + 1 → e = initial ∧ b = appended params frame.bars n) ∧
      (params.slowWindow + 1 ≤ n → e = b ∧ b.slowValues ≠ [])) ?_ ?_ ?_
  · exact ⟨fun _ => ⟨rfl, rfl⟩, fun h => absurd h (by omega)⟩
  · rintro p e b hp (hwarm : p + 1 < params.slowWindow + 1) ⟨hbefore, -⟩
    obtain ⟨rfl, rfl⟩ := hbefore (by omega)
    refine ⟨fun _ => ⟨rfl, ?_⟩, fun h => absurd h (by omega)⟩
    have hfilled := filled_appended params hp
    rw [smaCrossover_targetWeight (feed_appended hp)]
    exact follow_eq_self ((hfilled.followed (by omega)).trans hfilled.target.symm)
  · rintro p e b hp (hwarm : params.slowWindow + 1 ≤ p + 1) ⟨hbefore, hafter⟩
    -- what the two engines feed is the same
    have hfeed : ∃ st : SMAState, st.slowValues ≠ [] ∧
        SMAState.feed params e ((EventRunner.strategyHistory frame.bars p (params.slowWindow + 1)
          false).map Bar.close) = st ∧
        SMAState.feed params b ((frame.bars.take (p + 1)).map Bar.close) = st := by
      by_cases hfirst : p < params.slowWindow + 1
      · obtain ⟨rfl, rfl⟩ := hbefore hfirst
        refine ⟨appended params frame.bars (p + 1),
          slowValues_ne_nil (filled_appended params hp) (Nat.succ_pos p), ?_, feed_appended hp⟩
        rw [EventRunner.strategyHistory, if_pos (Or.inr (by omega))]
        exact if_pos rfl
      · obtain ⟨rfl, hne⟩ := hafter (by omega)
        have hone := feed_of_ne_nil params hne hp
        refine ⟨_, appendClose_ne_nil e _, ?_, hone.2⟩
        rw [EventRunner.strategyHistory, if_neg (by simp; omega)]
        exact hone.1
    obtain ⟨st, hne, he, hb⟩ := hfeed
    have heq := smaCrossover_targetWeight he
    rw [smaCrossover_targetWeight hb]
    refine ⟨congrArg Prod.snd heq, fun h => absurd h (by omega), fun _ => ⟨?_, hne⟩⟩
    exact congrArg Prod.fst heq

/-! ## The engines agree -/

/-- A target-weight strategy of the three modules, with its parameters. -/
inductive Configured
  | smaCrossover (params : CrossoverParams)
  | emaCrossover (params : CrossoverParams)
  | macdTrend (params : MACDTrendParams)
  | timeSeriesMomentum (params : MomentumParams)
  | dualMomentum (params : DualMomentumParams)
  | rateOfChange (params : RateOfChangeParams)
  | adxTrend (params : ADXTrendParams)
  | rsiMeanReversion (params : RSIMeanReversionParams)
  | stochasticReversal (params : StochasticReversalParams)

def Configured.strategy (power : ℚ → ℚ → ℚ) : Configured → TargetWeightStrategy
  | smaCrossover params => Backtest.smaCrossover params
  | emaCrossover params => Backtest.emaCrossover params
  | macdTrend params => Backtest.macdTrend params
  | timeSeriesMomentum params => Backtest.timeSeriesMomentum params
  | dualMomentum params => Backtest.dualMomentum power params
  | rateOfChange params => Backtest.rateOfChange params
  | adxTrend params => Backtest.adxTrend params
  | rsiMeanReversion params => Backtest.rsiMeanReversion params
  | stochasticReversal params => Backtest.stochasticReversal params

/-- **The two engines take the same decisions**: on every frame the bridge decides at every bar,
and from the bar on at which the warm-up is complete the weights of the two engines are equal. -/
theorem engines_agree (power : ℚ → ℚ → ℚ) (c : Configured) (frame : OhlcvFrame) :
    ∃ weights, CausalStrategyBridge.targets (c.strategy power) frame.bars = .ok weights
      ∧ weights.length = frame.bars.length
      ∧ (EventRunner.targets (c.strategy power) frame.bars).drop ((c.strategy power).warmupBars - 1)
        = (weights.drop ((c.strategy power).warmupBars - 1)).map some := by
  cases c with
  | smaCrossover params => exact smaCrossover_agrees params frame
  | emaCrossover params => exact engines_agree_of_quiet rfl (emaCrossover_quiet params) frame
  | macdTrend params => exact engines_agree_of_quiet rfl (macdTrend_quiet params) frame
  | timeSeriesMomentum params => exact engines_agree_of_quiet rfl (fun _ _ => rfl) frame
  | dualMomentum params => exact engines_agree_of_quiet rfl (fun _ _ => rfl) frame
  | rateOfChange params => exact engines_agree_of_quiet rfl (rateOfChange_quiet params) frame
  | adxTrend params => exact engines_agree_of_quiet rfl (fun _ _ => rfl) frame
  | rsiMeanReversion params =>
    exact engines_agree_of_quiet rfl (rsiMeanReversion_quiet params) frame
  | stochasticReversal params =>
    exact engines_agree_of_quiet rfl (stochasticReversal_quiet params) frame

end Qt.Backtest
