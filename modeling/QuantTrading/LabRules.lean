import QuantTrading.Lib.Trace
import QuantTrading.TrendStrategies

/-!
# Rules of the lab

The typed rules of `qt.lab.schemas` and their evaluation in `qt.workbench.strategy_factory`: an
`ImmutableRuleStrategy` evaluates its entry rule while its target is zero and its exit rule
otherwise, over three values, and turns the target when the rule is true.

It declares a warm-up, and that it does not need the full history. `EventRunner` then shows it the
whole history once, at the warm-up, and from there on one bar at a time, of which no cross, no
`sustained_for` and no average knows anything. `lab_rules_decide` says when its decisions are those
of the rules on the whole history.

A content is one whose parameters are bound: a binding puts values for the tokens of a content, so
that what is said of every content is said of every binding. TA-Lib, the resampling of pandas, the
catalogue of signals, and logarithms are a parameter.
-/

namespace Qt.Workbench

open Backtest Except Series

/-! ## Rules -/

/-- A value of a parameter. -/
inductive Scalar
  | int (n : ℤ)
  | float (x : ℚ)
  | str (text : String)
  | bool (b : Bool)
deriving DecidableEq

inductive TimeUnit
  | m | h | d | w
deriving DecidableEq

inductive Timeframe
  | current
  | every (n : ℕ) (unit : TimeUnit)
deriving DecidableEq

structure IndicatorRef where
  indicator : String
  timeframe : Timeframe := .current
  parameters : List (String × Scalar) := []
deriving DecidableEq

/-- A side of a comparison: an indicator, or a value. -/
inductive Operand
  | indicator (ref : IndicatorRef)
  | value (v : Scalar)
deriving DecidableEq

inductive Comparator
  | gt | ge | lt | le | eq
deriving DecidableEq

inductive Direction
  | above | below
deriving DecidableEq

inductive GroupKind
  | and | or | not
deriving DecidableEq

/-- `RuleNode`. -/
inductive Rule
  | comparison (left : Operand) (comparator : Comparator) (right : Operand)
  | cross (left right : IndicatorRef) (direction : Direction)
  | sustainedFor (child : Rule) (bars : ℕ)
  | group (kind : GroupKind) (children : List Rule)

/-- `_timeframe_seconds`. -/
def TimeUnit.seconds : TimeUnit → ℕ
  | m => 60
  | h => 3600
  | d => 86400
  | w => 604800

/-! ## Indicators -/

/-- What is not in the repository, and what of it is not arithmetic: `int` of a text; the bars of
a coarser timeframe, resampled; the indicators of TA-Lib, of the catalogue, and the volatility.
`none` stands for the errors that the evaluation catches. -/
structure Library where
  readInt : String → Option ℤ
  resample : ℕ → TimeUnit → List Bar → Except Exc (Option (List Bar))
  native : String → List (String × Scalar) → List Bar → Except Exc (Option (Series ℚ))

variable (lib : Library)

/-- **`_positive_int`**, `none` where it raises. -/
def positiveInt (value : Scalar) : Option ℕ :=
  let read := match value with
    | .int n => some n
    | .str text => lib.readInt text
    | .float _ | .bool _ => none
  read.bind fun n => if n ≤ 0 then none else some n.toNat

variable (parameters : List (String × Scalar))

/-- `_positive_int(parameters.get(key, default), …)`. -/
def positiveParameter (key : String) (default : ℤ) : Option ℕ :=
  positiveInt lib ((parameters.lookup key).getD (.int default))

def column (field : Bar → ℚ) (bars : List Bar) : Series ℚ := ofValues (bars.map field)

/-- `Series.rolling(window, min_periods=1).max()` of a series without gaps. -/
def rollingMax (window : ℕ) : Series ℚ → Series ℚ :=
  ofPrefixes fun s => ((s.drop (s.length - window)).filterMap id).max?

def priceRsi (close : Series ℚ) (period : ℕ) : Series ℚ :=
  let delta := diff close
  let gain := lift (fun x => some (max x 0)) delta
  let loss := lift (fun x => some (-min x 0)) delta
  lift₂ (fun gain loss =>
      if loss = 0 ∧ gain > 0 then some 100
      else if gain = 0 ∧ loss > 0 then some 0
      else (quotient gain loss).bind fun rs => (quotient 100 (1 + rs)).map fun x => clip (100 - x))
    (wilder gain period) (wilder loss period)

def priceAtr (high low close : Series ℚ) (period : ℕ) : Series ℚ :=
  let previousClose := shift 1 close
  let between := lift₂ fun x y : ℚ => some |x - y|
  let ranges := (between high low).zip ((between high previousClose).zip (between low previousClose))
  wilder (ranges.map fun r => ([r.1, r.2.1, r.2.2].filterMap id).max?) period

/-- **`price.drawdown_from_high`.** -/
def drawdownFromHigh (close : Series ℚ) (window : ℕ) : Series ℚ :=
  lift₂ (fun c top => quotient (c - top) top) close (rollingMax window close)

/-- **`price.wick_ratio`**, of a bar. -/
def wickRatio (b : Bar) : Option ℚ :=
  let body := |b.close - b.openPrice|
  let eps := max |b.high - b.low| (1 / 1000000000) * (1 / 1000)
  quotient (max (min b.openPrice b.close - b.low) 0) (if body > 0 then body else eps)

/-- **`_indicator`**, `none` where it raises what is caught. -/
def indicator (name : String) (parameters : List (String × Scalar)) (frame : List Bar) :
    Except Exc (Option (Series ℚ)) :=
  let close := column Bar.close frame
  let high := column Bar.high frame
  let low := column Bar.low frame
  let parameter := positiveParameter lib parameters
  match name with
  | "close" => .ok (some close)
  | "sma" => .ok ((parameter "window" 20).map (sma close))
  | "ema" => .ok ((parameter "window" 20).map fun w => ewm (2 / (w + 1)) 0 close)
  | "price.rsi" => .ok ((parameter "period" 14).map (priceRsi close))
  | "price.atr" => .ok ((parameter "period" 14).map (priceAtr high low close))
  | "price.drawdown_from_high" => .ok ((parameter "window" 720).map (drawdownFromHigh close))
  | "price.wick_ratio" => .ok (some (frame.map wickRatio))
  | "rsi" | "talib_standard.rsi" | "atr" | "talib_standard.atr" | "adx" | "talib_standard.adx" =>
    if (parameter "period" 14).isSome then lib.native name parameters frame else .ok none
  | "volatility.realized_vol" =>
    if (parameter "window" 24).isSome then lib.native name parameters frame else .ok none
  | "catalog_signal" => lib.native name parameters frame
  | _ => .ok none

variable (primarySeconds : ℕ)

/-- **`_frame_for_indicator`**, `none` where it raises. -/
def frameForIndicator (timeframe : Timeframe) (bars : List Bar) : Except Exc (Option (List Bar)) :=
  match timeframe with
  | .current => .ok (some bars)
  | .every n unit =>
    if n * unit.seconds ≤ primarySeconds then .ok none
    else if bars = [] then .ok (some [])
    else lib.resample n unit bars

def strip (s : String) : String :=
  String.ofList ((s.toList.dropWhile isSpace).reverse.dropWhile isSpace).reverse

def indicatorSeries (ref : IndicatorRef) (bars : List Bar) : Except Exc (Option (Series ℚ)) := do
  let name := strip ref.indicator
  raiseIf (name = "") (Exc.valueError "rule indicator is required")
  match ← frameForIndicator lib primarySeconds ref.timeframe bars with
  | none => return none
  | some frame => indicator lib name ref.parameters frame

def operand (o : Operand) (bars : List Bar) : Except Exc (Option ℚ) :=
  match o with
  | .value (.int n) => .ok (some n)
  | .value (.float x) => .ok (some x)
  | .value (.str _) | .value (.bool _) => .ok none
  | .indicator ref => do
    let series ← indicatorSeries lib primarySeconds ref bars
    return series.bind Series.last

/-! ## Evaluation -/

/-- An outcome: true, false, or unknown. -/
abbrev Outcome := Option Bool

def triAnd (values : List Outcome) : Outcome :=
  if some false ∈ values then some false
  else if none ∈ values then none
  else some true

def triOr (values : List Outcome) : Outcome :=
  if some true ∈ values then some true
  else if none ∈ values then none
  else some false

/-- The outcome of a comparison of two values. -/
def Comparator.holds (c : Comparator) (x y : ℚ) : Bool :=
  match c with
  | gt => x > y
  | ge => x ≥ y
  | lt => x < y
  | le => x ≤ y
  | eq => x = y

/-- The outcome of a cross of two series. -/
def crossOutcome (direction : Direction) (left right : Series ℚ) : Outcome :=
  match left.lastTwo, right.lastTwo with
  | some (previousLeft, currentLeft), some (previousRight, currentRight) =>
    match direction with
    | .above => some (previousLeft ≤ previousRight ∧ currentLeft > currentRight)
    | .below => some (previousLeft ≥ previousRight ∧ currentLeft < currentRight)
  | _, _ => none

/-- The outcome of a group, by those of its children. -/
def groupOutcome (kind : GroupKind) (outcomes : List Outcome) : Outcome :=
  match kind, outcomes with
  | _, [] => none
  | .and, outcomes => triAnd outcomes
  | .or, outcomes => triOr outcomes
  | .not, [outcome] => outcome.map not
  | .not, _ => none

mutual

/-- **`_evaluate_rule`**: its outcome. -/
def evaluateRule (primarySeconds : ℕ) : Rule → List Bar → Except Exc Outcome
  | .comparison left comparator right, bars => do
    let x ← operand lib primarySeconds left bars
    let y ← operand lib primarySeconds right bars
    return x.bind fun x => y.map (comparator.holds x)
  | .cross left right direction, bars => do
    let left ← indicatorSeries lib primarySeconds left bars
    let right ← indicatorSeries lib primarySeconds right bars
    return left.bind fun left => right.bind (crossOutcome direction left)
  | .sustainedFor child n, bars =>
    if n = 0 then .error (.valueError "sustained_for bars must be a positive integer")
    else if bars.length < n then .ok none
    else do
      let outcomes ← (List.range n).mapM fun i =>
        evaluateRule primarySeconds child (bars.take (bars.length - n + 1 + i))
      return triAnd outcomes
  | .group kind children, bars => do
    let outcomes ← evaluateRules primarySeconds children bars
    return groupOutcome kind outcomes

/-- The outcomes of children, one after the other. -/
def evaluateRules (primarySeconds : ℕ) : List Rule → List Bar → Except Exc (List Outcome)
  | [], _ => .ok []
  | rule :: rules, bars => do
    let outcome ← evaluateRule primarySeconds rule bars
    let outcomes ← evaluateRules primarySeconds rules bars
    return outcome :: outcomes

end

/-! ## The strategy -/

def Operand.refs : Operand → List IndicatorRef
  | indicator ref => [ref]
  | value _ => []

mutual

def Rule.refs : Rule → List IndicatorRef
  | .comparison left _ right => left.refs ++ right.refs
  | .cross left right _ => [left, right]
  | .sustainedFor child _ => child.refs
  | .group _ children => refsOfRules children

def refsOfRules : List Rule → List IndicatorRef
  | [] => []
  | rule :: rules => rule.refs ++ refsOfRules rules

end

/-- A bound content of mode `rules`: its two rules, and those of its regimes, which only the
warm-up reads. -/
structure Content where
  entryRule : Rule
  exitRule : Rule
  regimes : List Rule := []

/-- The integers of `parameters` that are a window, a period or a lookback. -/
def windowsOf : List ℤ :=
  ["window", "period", "lookback"].filterMap fun key =>
    match parameters.lookup key with
    | some (.int n) => some n
    | _ => none

def ruleWarmup (content : Content) : ℤ :=
  let refs := content.entryRule.refs ++ content.exitRule.refs ++ refsOfRules content.regimes
  ((refs.flatMap fun ref => windowsOf ref.parameters).max?.getD 1) + 1

/-- **`ImmutableRuleStrategy`**: its metadata refuse a warm-up that is negative. -/
structure ImmutableRuleStrategy where
  content : Content
  primarySeconds : ℕ
  warmup_nonneg : 0 ≤ ruleWarmup content

namespace ImmutableRuleStrategy

variable (s : ImmutableRuleStrategy)

/-- The warm-up it declares. -/
def warmupBars : ℕ := (ruleWarmup s.content).toNat

variable (target : ℚ)

/-- The rule of the phase it is in. -/
def pendingRule : Rule :=
  if target = 0 then s.content.entryRule else s.content.exitRule

variable (bars : List Bar)

def targetWeight : Except Exc ℚ := do
  let outcome ← evaluateRule lib s.primarySeconds (s.pendingRule target) bars
  if outcome = some true then
    return if target = 0 then 1 else 0
  return target

/-! ### Its decisions -/

variable (frame : List Bar)

/-- The decision of `EventRunner` at a position, with the history and the warm-up the strategy
declares: before the warm-up it is not called. -/
def eventStep (target : ℚ) (position : ℕ) : Except Exc ℚ :=
  if s.warmupBars ≤ position + 1 then
    s.targetWeight lib target (EventRunner.strategyHistory frame position s.warmupBars false)
  else .ok target

/-- The decision on the whole history. -/
def fullStep (target : ℚ) (position : ℕ) : Except Exc ℚ :=
  s.targetWeight lib target (frame.take (position + 1))

/-- **The decisions under `EventRunner`**, bar for bar, up to one that raises. -/
def eventDecisions : List (Except Exc ℚ) :=
  Trace.trace (s.eventStep lib frame) 0 (List.range frame.length)

/-- **The decisions of the rules** on the full prefix at every bar. -/
def fullDecisions : List (Except Exc ℚ) :=
  Trace.trace (s.fullStep lib frame) 0 (List.range frame.length)

/-! ### When they are the same -/

/-- Whether the pending rule is true of a history. -/
def met : Except Exc Bool :=
  (evaluateRule lib s.primarySeconds (s.pendingRule target) bars).map fun o => o = some true

/-- **What a bar asks** of the target before it. Before the warm-up, where the strategy is not
called, that the pending rule is not true of the history. After it, that the rule is true of the
history exactly when it is of the bar alone. At the warm-up itself, nothing. -/
def Enough (target : ℚ) (position : ℕ) : Prop :=
  (position + 1 < s.warmupBars → s.met lib target (frame.take (position + 1)) = .ok false) ∧
    (s.warmupBars ≤ position →
      s.met lib target frame[position]?.toList = s.met lib target (frame.take (position + 1)))

theorem targetWeight_eq : s.targetWeight lib target bars
      = (s.met lib target bars).map fun b => if b then if target = 0 then 1 else 0 else target := by
  unfold targetWeight met
  cases evaluateRule lib s.primarySeconds (s.pendingRule target) bars with
  | error e => rfl
  | ok outcome =>
    show (if outcome = some true then _ else _) = Except.ok _
    by_cases h : outcome = some true
    · simp [h]
      rfl
    · simp [h]
      rfl

theorem turned_ne : (if target = 0 then 1 else 0 : ℚ) ≠ target := by
  by_cases h : target = 0
  · simp [h]
  · simpa [h] using Ne.symm h

variable {target} {bars}

theorem targetWeight_inj {bars' : List Bar} :
    s.targetWeight lib target bars = s.targetWeight lib target bars'
      ↔ s.met lib target bars = s.met lib target bars' := by
  rw [targetWeight_eq, targetWeight_eq]
  have hne := turned_ne target
  cases s.met lib target bars with
  | error e => cases s.met lib target bars' <;> simp [Except.map]
  | ok b =>
    cases s.met lib target bars' with
    | error e => simp [Except.map]
    | ok b' => cases b <;> cases b' <;> simp [Except.map, hne, hne.symm]

theorem targetWeight_eq_ok_iff :
    s.targetWeight lib target bars = .ok target ↔ s.met lib target bars = .ok false := by
  rw [targetWeight_eq]
  have hne := turned_ne target
  cases s.met lib target bars with
  | error e => simp [Except.map]
  | ok b => cases b <;> simp [Except.map, hne]

/-- **A bar**: the two ways decide the same exactly when it is enough. -/
theorem eventStep_eq_iff {frame : List Bar} {position : ℕ} (h : position < frame.length) :
    s.eventStep lib frame target position = s.fullStep lib frame target position
      ↔ s.Enough lib frame target position := by
  have hone : (frame.take (position + 1)).drop position = frame[position]?.toList := by
    rw [List.getElem?_eq_getElem h, ← List.take_append_getElem h,
      List.drop_append_of_le_length (by simp; omega), List.drop_eq_nil_of_le (by simp)]
    rfl
  unfold eventStep fullStep Enough
  by_cases hwarm : s.warmupBars ≤ position + 1
  · rw [if_pos hwarm, targetWeight_inj, EventRunner.strategyHistory, hone]
    by_cases hafter : s.warmupBars ≤ position
    · rw [if_neg (by simp; omega)]
      exact ⟨fun hmet => ⟨fun hlt => absurd hlt (by omega), fun _ => hmet⟩,
        fun hmet => hmet.2 hafter⟩
    · rw [if_pos (Or.inr (by omega))]
      exact ⟨fun _ => ⟨fun hlt => absurd hlt (by omega), fun hle => absurd hle hafter⟩,
        fun _ => rfl⟩
  · rw [if_neg hwarm, eq_comm, targetWeight_eq_ok_iff]
    exact ⟨fun hmet => ⟨fun _ => hmet, fun hle => absurd hle (by omega)⟩,
      fun hmet => hmet.1 (by omega)⟩

end ImmutableRuleStrategy

namespace Sample

/-- Nothing is read, resampled, or computed elsewhere. -/
def library : Library where
  readInt _ := none
  resample _ _ _ := .ok none
  native _ _ _ := .ok none

/-- In when the average of two closes is above a level, out on a negative close. -/
def strategy : ImmutableRuleStrategy where
  content :=
    { entryRule := .comparison
        (.indicator { indicator := "sma", parameters := [("window", .int 2)] })
        .gt (.value (.float (9 / 4)))
      exitRule := .comparison (.indicator { indicator := "close" }) .lt (.value (.int (-1))) }
  primarySeconds := 3600
  warmup_nonneg := by decide

/-- Three hours at one, and then a rise. -/
def frame : List Bar :=
  [1, 1, 1, 5].zipIdx.map fun c =>
    { timestamp := 3600000000 * c.2, openPrice := c.1, high := c.1, low := c.1, close := c.1,
      volume := 1 }

theorem decisions_frame : strategy.fullDecisions library frame = [.ok 0, .ok 0, .ok 0, .ok 1]
    ∧ strategy.eventDecisions library frame = [.ok 0, .ok 0, .ok 0, .ok 0] := by
  decide +kernel

end Sample

end Qt.Workbench
