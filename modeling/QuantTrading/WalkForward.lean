import Mathlib.Data.Prod.Lex
import Mathlib.Data.String.Basic
import QuantTrading.Lib.Firsts
import QuantTrading.Persistence
import QuantTrading.Splits

/-!
# Walk-forward selection

`WalkForwardValidator` of `btc_backtest.validation.walk_forward`: on the training window of each
split the best candidate is selected, it is scored on the test window, and the candidate with
the best mean of test scores is evaluated on the final test.

A runner is a function of its specification and of the bars in its window. The validator does
not compare the windows of the splits with the start of the final test, so that a split which
reaches into it shows the selection bars of the final test; `walk_forward_isolated` says when
that matters. Timestamps are microseconds and metrics exact rationals; the canonical JSON of
parameters is a parameter.
-/

namespace Qt.Backtest

open Except List

/-! ## Results -/

structure Bar where
  timestamp : ℤ
  openPrice : ℚ
  high : ℚ
  low : ℚ
  close : ℚ
  volume : ℚ
deriving DecidableEq

/-- The numbers of `PerformanceMetrics`, with its validators. -/
structure PerformanceMetrics where
  totalReturn : ℚ
  cagr : ℚ
  annualizedVolatility : ℚ
  sharpe : ℚ
  sortino : ℚ
  calmar : ℚ
  omega : ℚ
  maxDrawdown : ℚ
  averageDrawdown : ℚ
  maxDrawdownBars : ℕ
  exposure : ℚ
  turnover : ℚ
  tradeCount : ℕ
  winRate : ℚ
  profitFactor : ℚ
  expectancy : ℚ
  averageHoldingPeriodBars : ℚ
  var95 : ℚ
  cvar95 : ℚ
  periodsPerYear : ℚ
  exposure_mem : 0 ≤ exposure ∧ exposure ≤ 1
  turnover_nonneg : 0 ≤ turnover
  winRate_mem : 0 ≤ winRate ∧ winRate ≤ 1
  profitFactor_nonneg : 0 ≤ profitFactor
  averageHoldingPeriodBars_nonneg : 0 ≤ averageHoldingPeriodBars
  periodsPerYear_nonneg : 0 ≤ periodsPerYear

/-- The attributes that are numbers. -/
def PerformanceMetrics.attributes (m : PerformanceMetrics) : List (String × ℚ) :=
  [("total_return", m.totalReturn), ("cagr", m.cagr),
    ("annualized_volatility", m.annualizedVolatility), ("sharpe", m.sharpe),
    ("sortino", m.sortino), ("calmar", m.calmar), ("omega", m.omega),
    ("max_drawdown", m.maxDrawdown), ("average_drawdown", m.averageDrawdown),
    ("max_drawdown_bars", m.maxDrawdownBars), ("exposure", m.exposure),
    ("turnover", m.turnover), ("trade_count", m.tradeCount), ("win_rate", m.winRate),
    ("profit_factor", m.profitFactor), ("expectancy", m.expectancy),
    ("average_holding_period_bars", m.averageHoldingPeriodBars), ("var_95", m.var95),
    ("cvar_95", m.cvar95), ("periods_per_year", m.periodsPerYear)]

def objective (m : PerformanceMetrics) (field : String) : Except Exc ℚ :=
  match m.attributes.lookup field with
  | some value => .ok value
  | none => .error (.valueError ("unsupported walk-forward objective: " ++ field))

/-- `BacktestResult`: what the validation reads of it. `compute_metrics` is a function of the
result. -/
structure BacktestResult where
  runId : String
  dataManifests : List String
  metrics : PerformanceMetrics

/-! ## Specifications -/

section

variable {V : Type}

structure ParameterCandidate (V : Type) where
  parameters : String → Option V

/-- `BacktestSpec`: the parameters of the strategy, and the interval of the data. -/
structure BacktestSpec (V : Type) where
  strategyParams : String → Option V
  start : ℤ
  end_ : ℤ

/-- A backtest, as a function of its specification and of the bars in its window. -/
abbrev Runner (V : Type) := BacktestSpec V → List Bar → BacktestResult

/-- `ValidationSpec`: what the validator reads of it. -/
structure ValidationSpec where
  selectionEnd : ℤ
  finalTestStart : ℤ
  finalTestEnd : ℤ
  objective : String
  final_nonempty : finalTestStart < finalTestEnd
  selection_before : selectionEnd < finalTestStart

/-- The bars of a window. -/
def barsIn (data : List Bar) (start end_ : ℤ) : List Bar :=
  data.filter fun bar => start ≤ bar.timestamp ∧ bar.timestamp < end_

/-- `dict.update`. -/
def updateParams (base new : String → Option V) : String → Option V :=
  fun key => new key <|> base key

def runChild (runner : Runner V) (data : List Bar) (spec : BacktestSpec V)
    (candidate : ParameterCandidate V) (w : Window) : BacktestResult :=
  runner ⟨updateParams spec.strategyParams candidate.parameters, w.start, w.end_⟩
    (barsIn data w.start w.end_)

/-! ## Selection -/

/-- The order of selections: the best objective, then the smallest drawdown and turnover. -/
def rankOf (objective drawdown turnover : ℚ) (key : String) : ℚ ×ₗ ℚ ×ₗ ℚ ×ₗ String :=
  toLex (-objective, toLex (drawdown, toLex (turnover, key)))

/-- `ranked[0]`. -/
def best {ρ α : Type} [LinearOrder ρ] (ranked : List (ρ × α)) : Except Exc α :=
  match (ranked.orderBy Prod.fst).head? with
  | some (_, a) => .ok a
  | none => .error (.statementError "list index out of range")

variable (canonicalJson : (String → Option V) → String)

def ParameterCandidate.canonicalKey (c : ParameterCandidate V) : String :=
  canonicalJson c.parameters

def selectCandidate (evaluations : List (ParameterCandidate V × BacktestResult)) (field : String) :
    Except Exc (ParameterCandidate V × BacktestResult) := do
  let ranked ← evaluations.mapM fun e => do
    let value ← objective e.2.metrics field
    return (rankOf value |e.2.metrics.maxDrawdown| e.2.metrics.turnover
      (e.1.canonicalKey canonicalJson), e)
  best ranked

structure WindowEvaluation (V : Type) where
  split : ValidationSplit
  selectedCandidate : ParameterCandidate V
  selectedMetrics : PerformanceMetrics
  testMetrics : PerformanceMetrics
  trainRunIds : List String
  testRunId : String
  childDataFingerprints : List String

/-- The evaluation of a split: a candidate is selected on the training window. -/
def evaluateSplit (runner : Runner V) (data : List Bar) (field : String) (spec : BacktestSpec V)
    (ordered : List (ParameterCandidate V)) (split : ValidationSplit) :
    Except Exc (WindowEvaluation V) := do
  let evaluations := ordered.map fun c => (c, runChild runner data spec c split.train)
  let (selected, trainResult) ← selectCandidate canonicalJson evaluations field
  let testResult := runChild runner data spec selected split.test
  return { split := split
           selectedCandidate := selected
           selectedMetrics := trainResult.metrics
           testMetrics := testResult.metrics
           trainRunIds := evaluations.map fun e => e.2.runId
           testRunId := testResult.runId
           childDataFingerprints :=
            evaluations.flatMap (fun e => e.2.dataManifests) ++ testResult.dataManifests }

def mean (values : List ℚ) : ℚ := values.sum / values.length

variable (windows : List (WindowEvaluation V))

/-- The evaluations in which a candidate was selected. -/
def groupOf (key : String) : List (WindowEvaluation V) :=
  windows.filter fun w => w.selectedCandidate.canonicalKey canonicalJson = key

def selectFinalCandidate (field : String) : Except Exc (ParameterCandidate V) := do
  let keys := (windows.map fun w => w.selectedCandidate.canonicalKey canonicalJson).firsts id
  let ranked ← keys.mapM fun key => do
    let values ← (groupOf canonicalJson windows key).mapM fun w => objective w.testMetrics field
    return (rankOf (mean values)
      (mean ((groupOf canonicalJson windows key).map fun w => |w.testMetrics.maxDrawdown|))
      (mean ((groupOf canonicalJson windows key).map fun w => w.testMetrics.turnover)) key, key)
  let key ← best ranked
  match (groupOf canonicalJson windows key).getLast? with
  | some w => return w.selectedCandidate
  | none => .error (.keyError key)

/-! ## The validator -/

structure FinalTestEvaluation (V : Type) where
  selectedCandidate : ParameterCandidate V
  scoredOn : Window
  metrics : PerformanceMetrics
  runId : String
  childDataFingerprints : List String

structure WalkForwardResult (V : Type) where
  windows : List (WindowEvaluation V)
  finalEvaluation : FinalTestEvaluation V
  childRunIds : List String
  childDataFingerprints : List String

/-- The candidates that were selected, for each split and finally. -/
def WalkForwardResult.selected (r : WalkForwardResult V) :
    List (ParameterCandidate V) × ParameterCandidate V :=
  (r.windows.map WindowEvaluation.selectedCandidate, r.finalEvaluation.selectedCandidate)

/-- **`WalkForwardValidator.run`**, after its constructor. -/
def walkForward (runner : Runner V) (data : List Bar) (validation : ValidationSpec)
    (splits : List ValidationSplit) (spec : BacktestSpec V)
    (candidates : List (ParameterCandidate V)) : Except Exc (WalkForwardResult V) := do
  raiseIf (splits.length = 0) (.valueError "walk-forward validation requires at least one split")
  raiseIf (candidates.length = 0) (.valueError "walk-forward validation requires candidates")
  let ordered := candidates.orderBy (ParameterCandidate.canonicalKey canonicalJson)
  let windows ← splits.mapM
    (evaluateSplit canonicalJson runner data validation.objective spec ordered)
  let finalCandidate ← selectFinalCandidate canonicalJson windows validation.objective
  let finalWindow : Window := ⟨validation.finalTestStart, validation.finalTestEnd, []⟩
  let finalResult := runChild runner data spec finalCandidate finalWindow
  return { windows := windows
           finalEvaluation := ⟨finalCandidate, finalWindow, finalResult.metrics, finalResult.runId,
            finalResult.dataManifests⟩
           childRunIds :=
            windows.flatMap (fun w => w.trainRunIds ++ [w.testRunId]) ++ [finalResult.runId]
           childDataFingerprints :=
            windows.flatMap WindowEvaluation.childDataFingerprints ++ finalResult.dataManifests }

end

/-! ## What the selection reads -/

/-- The names of the attributes that are numbers. -/
def attributeNames : List String :=
  ["total_return", "cagr", "annualized_volatility", "sharpe", "sortino", "calmar", "omega",
    "max_drawdown", "average_drawdown", "max_drawdown_bars", "exposure", "turnover", "trade_count",
    "win_rate", "profit_factor", "expectancy", "average_holding_period_bars", "var_95", "cvar_95",
    "periods_per_year"]

/-- The value of an objective. -/
def valueOf (field : String) (m : PerformanceMetrics) : ℚ := (m.attributes.lookup field).getD 0

variable {field : String}

theorem lookup_isSome_iff_mem (m : PerformanceMetrics) :
    (m.attributes.lookup field).isSome = true ↔ field ∈ attributeNames := by
  rw [show attributeNames = m.attributes.map Prod.fst from rfl]
  simp [lookup_isSome_iff, -mem_cons]

theorem objective_of_mem (h : field ∈ attributeNames) (m : PerformanceMetrics) :
    objective m field = .ok (valueOf field m) := by
  obtain ⟨value, hvalue⟩ := Option.isSome_iff_exists.mp ((lookup_isSome_iff_mem m).mpr h)
  simp only [objective, valueOf, hvalue]
  rfl

theorem objective_of_notMem (h : field ∉ attributeNames) (m : PerformanceMetrics) :
    objective m field = .error (.valueError ("unsupported walk-forward objective: " ++ field)) := by
  have hnone : m.attributes.lookup field = none :=
    Option.not_isSome_iff_eq_none.mp (mt (lookup_isSome_iff_mem m).mp h)
  simp only [objective, hnone]

/-- **The best one** comes before all others. -/
theorem best_eq_ok {ρ α : Type} [LinearOrder ρ] (ranked : List (ρ × α)) (h : ranked ≠ []) :
    ∃ x ∈ ranked, best ranked = .ok x.2 ∧ ∀ y ∈ ranked, x.1 ≤ y.1 := by
  unfold best
  cases hordered : ranked.orderBy Prod.fst with
  | nil =>
    have hlength := length_orderBy Prod.fst ranked
    rw [hordered] at hlength
    exact absurd (length_eq_zero_iff.mp hlength.symm) h
  | cons x rest =>
    have hmem : ∀ y, y ∈ x :: rest ↔ y ∈ ranked := fun y => by rw [← hordered, mem_orderBy]
    have hsorted := pairwise_orderBy Prod.fst ranked
    rw [hordered] at hsorted
    refine ⟨x, (hmem x).mp mem_cons_self, rfl, fun y hy => ?_⟩
    obtain rfl | hy := mem_cons.mp ((hmem y).mpr hy)
    · exact le_rfl
    · exact rel_of_pairwise_cons hsorted hy

theorem value_le_of_rankOf_le {o o' dd dd' turn turn' : ℚ} {key key' : String}
    (h : rankOf o dd turn key ≤ rankOf o' dd' turn' key') : o' ≤ o :=
  neg_le_neg_iff.mp (Prod.Lex.monotone_fst _ _ h)

section

variable {V : Type} {canonicalJson : (String → Option V) → String}

/-- What a run is given, but for the runner and the bars. -/
structure Setup (V : Type) where
  canonicalJson : (String → Option V) → String
  validation : ValidationSpec
  splits : List ValidationSplit
  spec : BacktestSpec V
  candidates : List (ParameterCandidate V)

namespace Setup

abbrev run (s : Setup V) (runner : Runner V) (data : List Bar) : Except Exc (WalkForwardResult V) :=
  walkForward s.canonicalJson runner data s.validation s.splits s.spec s.candidates

abbrev objective (s : Setup V) : String := s.validation.objective

abbrev key (s : Setup V) : ParameterCandidate V → String :=
  ParameterCandidate.canonicalKey s.canonicalJson

/-- The parameters that a candidate gives. -/
abbrev params (s : Setup V) (c : ParameterCandidate V) : String → Option V :=
  updateParams s.spec.strategyParams c.parameters

/-- What a candidate returns on a window. -/
abbrev child (s : Setup V) (runner : Runner V) (data : List Bar) (c : ParameterCandidate V)
    (w : Window) : BacktestResult :=
  runChild runner data s.spec c w

/-- The candidates in the order of their keys. -/
def ordered (s : Setup V) : List (ParameterCandidate V) := s.candidates.orderBy s.key

end Setup

def evaluationRank (canonicalJson : (String → Option V) → String) (field : String)
    (e : ParameterCandidate V × BacktestResult) : ℚ ×ₗ ℚ ×ₗ ℚ ×ₗ String :=
  rankOf (valueOf field e.2.metrics) |e.2.metrics.maxDrawdown| e.2.metrics.turnover
    (e.1.canonicalKey canonicalJson)

theorem selectCandidate_of_mem {field : String} (h : field ∈ attributeNames)
    (evaluations : List (ParameterCandidate V × BacktestResult)) :
    selectCandidate canonicalJson evaluations field =
      best (evaluations.map fun e => (evaluationRank canonicalJson field e, e)) := by
  unfold selectCandidate
  rw [mapM_of_ok fun e _ => by rw [objective_of_mem h, ok_bind]; rfl, ok_bind]
  rfl

variable (canonicalJson) in
/-- **A selected candidate** has the best objective. -/
theorem selectCandidate_eq_ok {field : String} (h : field ∈ attributeNames)
    (evaluations : List (ParameterCandidate V × BacktestResult)) (hne : evaluations ≠ []) :
    ∃ e ∈ evaluations, selectCandidate canonicalJson evaluations field = .ok e ∧
      ∀ e' ∈ evaluations, valueOf field e'.2.metrics ≤ valueOf field e.2.metrics := by
  rw [selectCandidate_of_mem h]
  obtain ⟨x, hx, hbest, hle⟩ := best_eq_ok (evaluations.map fun e =>
    (evaluationRank canonicalJson field e, e)) (by simpa using hne)
  obtain ⟨e, he, rfl⟩ := mem_map.mp hx
  exact ⟨e, he, hbest, fun e' he' => value_le_of_rankOf_le (hle _ (mem_map_of_mem he'))⟩

variable {s : Setup V} {runner runner' : Runner V} {data data' : List Bar}

/-- **A candidate is selected** on a window. -/
def Setup.Picks (s : Setup V) (runner : Runner V) (data : List Bar) (w : Window)
    (c : ParameterCandidate V) : Prop :=
  selectCandidate s.canonicalJson (s.ordered.map fun c => (c, s.child runner data c w))
    s.objective = .ok (c, s.child runner data c w)

def Setup.childValue (s : Setup V) (runner : Runner V) (data : List Bar) (w : Window)
    (c : ParameterCandidate V) : ℚ :=
  valueOf s.objective (s.child runner data c w).metrics

variable (s runner data) in
theorem exists_picks (hf : s.objective ∈ attributeNames) (hne : s.ordered ≠ []) (w : Window) :
    ∃ c ∈ s.ordered, s.Picks runner data w c ∧ ∀ c' ∈ s.ordered, s.childValue runner data w c' ≤
        s.childValue runner data w c := by
  obtain ⟨e, he, hselect, hle⟩ := selectCandidate_eq_ok s.canonicalJson hf
    (s.ordered.map fun c => (c, s.child runner data c w)) (by simpa using hne)
  obtain ⟨c, hc, rfl⟩ := mem_map.mp he
  exact ⟨c, hc, hselect, fun c' hc' => hle _ (mem_map_of_mem hc')⟩

variable {w : Window} {c' : ParameterCandidate V} {c : ParameterCandidate V}

theorem Setup.Picks.unique (h : s.Picks runner data w c) (h' : s.Picks runner data w c') : c' = c :=
  (congrArg Prod.fst (ok.inj (h.symm.trans h'))).symm

theorem Setup.Picks.congr {w' : Window} (h : s.Picks runner data w c) (hc : c ∈ s.ordered)
    (hrun : ∀ c ∈ s.ordered, s.child runner' data' c w' = s.child runner data c w) :
    s.Picks runner' data' w' c := by
  unfold Setup.Picks at h ⊢
  rw [hrun c hc, map_congr_left fun c hc => by rw [hrun c hc]]
  exact h

/-- The evaluation of a split where a candidate is selected. -/
def Setup.windowOf (s : Setup V) (runner : Runner V) (data : List Bar) (split : ValidationSplit)
    (c : ParameterCandidate V) : WindowEvaluation V where
  split := split
  selectedCandidate := c
  selectedMetrics := (s.child runner data c split.train).metrics
  testMetrics := (s.child runner data c split.test).metrics
  trainRunIds := (s.ordered.map fun c => (c, s.child runner data c split.train)).map
    fun e => e.2.runId
  testRunId := (s.child runner data c split.test).runId
  childDataFingerprints := (s.ordered.map fun c => (c, s.child runner data c split.train)).flatMap
      (fun e => e.2.dataManifests) ++ (s.child runner data c split.test).dataManifests

variable {split : ValidationSplit}

theorem evaluateSplit_of_picks (h : s.Picks runner data split.train c) :
    evaluateSplit s.canonicalJson runner data s.objective s.spec s.ordered split =
      .ok (s.windowOf runner data split c) := by
  simp only [evaluateSplit]
  rw [show selectCandidate s.canonicalJson _ s.objective = _ from h, ok_bind]
  rfl

theorem evaluateSplit_of_notMem (hf : s.objective ∉ attributeNames) (hne : s.ordered ≠ [])
    (split : ValidationSplit) :
    evaluateSplit s.canonicalJson runner data s.objective s.spec s.ordered split =
      .error (.valueError ("unsupported walk-forward objective: " ++ s.objective)) := by
  obtain ⟨c, rest, heq⟩ := exists_cons_of_ne_nil hne
  simp only [evaluateSplit, heq, selectCandidate, map_cons, mapM_cons,
    objective_of_notMem hf, error_bind]

/-! ## The final selection -/

variable {windows : List (WindowEvaluation V)}

variable (s) in
theorem mem_groupOf {w : WindowEvaluation V} (hw : w ∈ windows) :
    w ∈ groupOf s.canonicalJson windows (s.key w.selectedCandidate) :=
  mem_filter.mpr ⟨hw, by simp⟩

/-- The mean of the test scores of a group. -/
def Setup.groupMean (s : Setup V) (windows : List (WindowEvaluation V)) (key : String) : ℚ :=
  mean ((groupOf s.canonicalJson windows key).map fun w => valueOf s.objective w.testMetrics)

variable (s) in
/-- **The final candidate** was selected on a split, and its group has the best mean. -/
theorem selectFinalCandidate_eq_ok (hf : s.objective ∈ attributeNames) (hne : windows ≠ []) :
    ∃ w ∈ windows, selectFinalCandidate s.canonicalJson windows s.objective =
        .ok w.selectedCandidate ∧
      ∀ w' ∈ windows, s.groupMean windows (s.key w'.selectedCandidate) ≤ s.groupMean windows
            (s.key w.selectedCandidate) := by
  let keys := (windows.map fun w => s.key w.selectedCandidate).firsts id
  have hkeys : ∀ key, key ∈ keys ↔ ∃ w ∈ windows, s.key w.selectedCandidate = key := by
    intro key
    have hmem : key ∈ keys.map id ↔ key ∈ (windows.map fun w =>
        s.key w.selectedCandidate).map id := mem_map_firsts id
    rwa [List.map_id, List.map_id, mem_map] at hmem
  let rank : String → ℚ ×ₗ ℚ ×ₗ ℚ ×ₗ String := fun key =>
    rankOf (s.groupMean windows key)
      (mean ((groupOf s.canonicalJson windows key).map fun w => |w.testMetrics.maxDrawdown|))
      (mean ((groupOf s.canonicalJson windows key).map fun w => w.testMetrics.turnover)) key
  have hmapM : keys.mapM (fun key => do
      let values ← (groupOf s.canonicalJson windows key).mapM fun w =>
        objective w.testMetrics s.objective
      return (rankOf (mean values)
        (mean ((groupOf s.canonicalJson windows key).map fun w => |w.testMetrics.maxDrawdown|))
        (mean ((groupOf s.canonicalJson windows key).map fun w => w.testMetrics.turnover)) key,
          key)) = (.ok (keys.map fun key => (rank key, key)) : Except Exc _) := by
    refine mapM_of_ok fun key _ => ?_
    rw [mapM_of_ok fun w _ => objective_of_mem hf w.testMetrics, ok_bind]
    rfl
  obtain ⟨w₀, hw₀⟩ := exists_mem_of_ne_nil windows hne
  obtain ⟨x, hx, hbest, hle⟩ := best_eq_ok (keys.map fun key => (rank key, key))
    (ne_nil_of_mem (mem_map_of_mem ((hkeys _).mpr ⟨w₀, hw₀, rfl⟩)))
  obtain ⟨key, hkey, rfl⟩ := mem_map.mp hx
  obtain ⟨w₁, hw₁, rfl⟩ := (hkeys key).mp hkey
  obtain ⟨w, hw⟩ := Option.isSome_iff_exists.mp (getLast?_isSome.mpr
    (ne_nil_of_mem (mem_groupOf s hw₁)))
  have hgroup := mem_filter.mp (mem_of_getLast? hw)
  have hsame : s.key w.selectedCandidate = s.key w₁.selectedCandidate := of_decide_eq_true hgroup.2
  refine ⟨w, hgroup.1, ?_, fun w' hw' => ?_⟩
  · simp only [selectFinalCandidate]
    rw [show keys.mapM _ = _ from hmapM, ok_bind, hbest, ok_bind]
    simp only [hw]
    rfl
  · rw [hsame]
    exact value_le_of_rankOf_le (hle _ (mem_map_of_mem ((hkeys _).mpr ⟨w', hw', rfl⟩)))

/-! ## Runs -/

theorem ordered_ne_nil (hne : s.candidates ≠ []) : s.ordered ≠ [] := by
  rw [← length_pos_iff, Setup.ordered, length_orderBy]
  exact length_pos_iff.mpr hne

/-- The windows and the final candidate of a run. -/
def Setup.windowsAndFinal (s : Setup V) (runner : Runner V) (data : List Bar) :
    Except Exc (List (WindowEvaluation V) × ParameterCandidate V) := do
  let windows ← s.splits.mapM
    (evaluateSplit s.canonicalJson runner data s.objective s.spec s.ordered)
  let finalCandidate ← selectFinalCandidate s.canonicalJson windows s.objective
  return (windows, finalCandidate)

variable {α : Type} (f : List (WindowEvaluation V) → ParameterCandidate V → α)

variable (s runner data) in
/-- **What is selected** is known before the final test. -/
theorem map_run :
    (fun r : WalkForwardResult V => f r.windows r.finalEvaluation.selectedCandidate) <$>
        s.run runner data =
      (do raiseIf (s.splits.length = 0)
            (.valueError "walk-forward validation requires at least one split")
          raiseIf (s.candidates.length = 0)
            (.valueError "walk-forward validation requires candidates")
          (fun x => f x.1 x.2) <$> s.windowsAndFinal runner data) := by
  unfold Setup.run walkForward
  cases raiseIf (s.splits.length = 0)
      (Exc.valueError "walk-forward validation requires at least one split") with
  | error e => rfl
  | ok _ =>
    cases raiseIf (s.candidates.length = 0)
        (Exc.valueError "walk-forward validation requires candidates") with
    | error e => rfl
    | ok _ =>
      simp only [ok_bind]
      unfold Setup.windowsAndFinal Setup.ordered
      cases s.splits.mapM (evaluateSplit s.canonicalJson runner data s.objective s.spec
          (s.candidates.orderBy s.key)) with
      | error e => rfl
      | ok windows =>
        simp only [ok_bind]
        cases selectFinalCandidate s.canonicalJson windows s.objective with
        | error e => rfl
        | ok c => rfl

theorem windowsAndFinal_of_notMem (hf : s.objective ∉ attributeNames) (hsplits : s.splits ≠ [])
    (hne : s.ordered ≠ []) : s.windowsAndFinal runner data =
      .error (.valueError ("unsupported walk-forward objective: " ++ s.objective)) := by
  obtain ⟨split, rest, heq⟩ := exists_cons_of_ne_nil hsplits
  unfold Setup.windowsAndFinal
  rw [heq, mapM_cons, evaluateSplit_of_notMem hf hne, error_bind, error_bind]

/-- The evaluations of the splits, where candidates are selected. -/
def Setup.windowsOf (s : Setup V) (runner : Runner V) (data : List Bar)
    (pick : ValidationSplit → ParameterCandidate V) : List (WindowEvaluation V) :=
  s.splits.map fun split => s.windowOf runner data split (pick split)

variable {pick : ValidationSplit → ParameterCandidate V}

/-- **A run selects** on the training window of each split, and finally among the selected. -/
theorem exists_windowsAndFinal (hf : s.objective ∈ attributeNames) (hsplits : s.splits ≠ [])
    (hpick : ∀ split ∈ s.splits, s.Picks runner data split.train (pick split)) :
    ∃ split ∈ s.splits, s.windowsAndFinal runner data =
        .ok (s.windowsOf runner data pick, pick split) ∧
      ∀ split' ∈ s.splits, s.groupMean (s.windowsOf runner data pick) (s.key (pick split')) ≤
          s.groupMean (s.windowsOf runner data pick) (s.key (pick split)) := by
  have hwindows : s.splits.mapM
        (evaluateSplit s.canonicalJson runner data s.objective s.spec s.ordered) =
      .ok (s.windowsOf runner data pick) :=
    mapM_of_ok fun split hsplit => evaluateSplit_of_picks (hpick split hsplit)
  have hne : s.windowsOf runner data pick ≠ [] := by
    unfold Setup.windowsOf
    simpa using hsplits
  obtain ⟨w, hw, hfinal, hle⟩ := selectFinalCandidate_eq_ok s hf hne
  obtain ⟨split, hsplit, hwindow⟩ := mem_map.mp hw
  have hselected : w.selectedCandidate = pick split := by rw [← hwindow]; rfl
  rw [hselected] at hfinal hle
  refine ⟨split, hsplit, ?_, fun split' hsplit' => ?_⟩
  · unfold Setup.windowsAndFinal
    rw [hwindows, ok_bind, hfinal, ok_bind]
    rfl
  · have hmem : s.windowOf runner data split' (pick split') ∈
        s.windowsOf runner data pick := mem_map_of_mem hsplit'
    have hmean := hle _ hmem
    rwa [show (s.windowOf runner data split' (pick split')).selectedCandidate =
      pick split' from rfl] at hmean

/-! ## What the final test may not decide -/

/-- The bars before a time are the same. -/
def SameBefore (t : ℤ) (data data' : List Bar) : Prop :=
  data.filter (fun bar => bar.timestamp < t) = data'.filter fun bar => bar.timestamp < t

/-- A window has nothing from a time on. -/
def Window.Before (w : Window) (t : ℤ) : Prop := ∀ u, w.start ≤ u → u < w.end_ → u < t

/-- Windows that show the same bars. -/
def Window.SameInterval (w w' : Window) : Prop := w.start = w'.start ∧ w.end_ = w'.end_

/-- All candidates give the same parameters. -/
def Alike (spec : BacktestSpec V) (candidates : List (ParameterCandidate V)) : Prop :=
  ∀ c ∈ candidates, ∀ c' ∈ candidates,
    updateParams spec.strategyParams c.parameters = updateParams spec.strategyParams c'.parameters

/-- **The final test is isolated**: the training windows end before it, and so do the test
windows, unless all splits train on one window; or there is nothing to select. -/
def Isolated (validation : ValidationSpec) (splits : List ValidationSplit) (spec : BacktestSpec V)
    (candidates : List (ParameterCandidate V)) : Prop :=
  validation.objective ∉ attributeNames ∨ Alike spec candidates ∨
    (∀ split ∈ splits, split.train.Before validation.finalTestStart) ∧
      ((∀ split ∈ splits, split.test.Before validation.finalTestStart) ∨
        ∀ split ∈ splits, ∀ split' ∈ splits, split.train.SameInterval split'.train)

variable {t : ℤ}

theorem barsIn_of_before (hdata : SameBefore t data data') (hw : w.Before t) :
    barsIn data w.start w.end_ = barsIn data' w.start w.end_ := by
  have hfilter : ∀ data : List Bar, barsIn data w.start w.end_ =
      barsIn (data.filter fun bar => bar.timestamp < t) w.start w.end_ := by
    intro data
    unfold barsIn
    rw [filter_filter]
    refine filter_congr fun bar _ => ?_
    by_cases hbar : w.start ≤ bar.timestamp ∧ bar.timestamp < w.end_
    · simp [hbar, hw _ hbar.1 hbar.2]
    · simp [hbar]
  rw [hfilter, hdata, ← hfilter]

theorem runChild_of_bars {v : Window} (hinterval : v.SameInterval w)
    (hbars : barsIn data' w.start w.end_ = barsIn data w.start w.end_) (c : ParameterCandidate V) :
    s.child runner data' c v = s.child runner data c w := by
  unfold Setup.child runChild
  rw [hinterval.1, hinterval.2, hbars]

variable (s runner) in
/-- Candidates that give the same parameters are not told apart: the first one is selected. -/
theorem picks_of_alike (hf : s.objective ∈ attributeNames) (hne : s.candidates ≠ [])
    (halike : Alike s.spec s.candidates) : ∃ c, ∀ data : List Bar, ∀ w : Window,
      s.Picks runner data w c := by
  obtain ⟨c, rest, hordered⟩ := exists_cons_of_ne_nil (ordered_ne_nil hne)
  refine ⟨c, fun data w => ?_⟩
  have hmem : ∀ c' ∈ s.ordered, c' ∈ s.candidates := fun c' hc' =>
    mem_orderBy.mp hc'
  have hc : c ∈ s.ordered := hordered ▸ mem_cons_self
  have hrun : ∀ c' ∈ s.ordered, s.child runner data c' w = s.child runner data c w := by
    intro c' hc'
    unfold Setup.child runChild
    rw [halike c' (hmem c' hc') c (hmem c hc)]
  have hmap : s.ordered.map (fun c' => (c', s.child runner data c' w)) =
      s.ordered.map fun c' => (c', s.child runner data c w) :=
    map_congr_left fun c' hc' => by rw [hrun c' hc']
  unfold Setup.Picks
  rw [selectCandidate_of_mem hf, hmap]
  have hsorted : (s.ordered.map fun c' =>
      (c', s.child runner data c w)).map
        (fun e => (evaluationRank s.canonicalJson s.objective e, e))
      |>.Pairwise fun a b => a.1 ≤ b.1 := by
    rw [map_map, pairwise_map]
    refine (pairwise_orderBy s.key s.candidates).imp fun {a b} hab => ?_
    exact Prod.Lex.toLex_mono ⟨le_rfl, Prod.Lex.toLex_mono ⟨le_rfl,
      Prod.Lex.toLex_mono ⟨le_rfl, hab⟩⟩⟩
  unfold best
  rw [List.orderBy, hsorted.insertionSort_eq, hordered]
  rfl

theorem map_run_congr (h : s.splits ≠ [] → s.candidates ≠ [] →
      (fun x => f x.1 x.2) <$> s.windowsAndFinal runner data =
      (fun x => f x.1 x.2) <$> s.windowsAndFinal runner' data') :
    (fun r : WalkForwardResult V => f r.windows r.finalEvaluation.selectedCandidate) <$>
        s.run runner data =
      (fun r : WalkForwardResult V => f r.windows r.finalEvaluation.selectedCandidate) <$>
        s.run runner' data' := by
  rw [map_run, map_run]
  by_cases hsplits : s.splits.length = 0
  · unfold raiseIf
    rw [if_pos hsplits]
    rfl
  · by_cases hne : s.candidates.length = 0
    · unfold raiseIf
      rw [if_pos hne]
      rfl
    · rw [h (fun hnil => hsplits (length_eq_zero_iff.mpr hnil))
        fun hnil => hne (length_eq_zero_iff.mpr hnil)]

/-- **What a run selects.** -/
theorem exists_selected (hf : s.objective ∈ attributeNames) (hsplits : s.splits ≠ [])
    (hne : s.candidates ≠ [])
    (hpick : ∀ split ∈ s.splits, s.Picks runner data split.train (pick split)) :
    ∃ split ∈ s.splits, WalkForwardResult.selected <$> s.run runner data =
          .ok (s.splits.map pick, pick split) ∧
      ∀ split' ∈ s.splits, s.groupMean (s.windowsOf runner data pick) (s.key (pick split')) ≤
          s.groupMean (s.windowsOf runner data pick) (s.key (pick split)) := by
  obtain ⟨split, hsplit, hrun, hle⟩ := exists_windowsAndFinal hf hsplits hpick
  refine ⟨split, hsplit, ?_, hle⟩
  have hselected := map_run s runner data
    fun windows c => (windows.map WindowEvaluation.selectedCandidate, c)
  refine hselected.trans ?_
  rw [raiseIf_bind_of_not (fun h => hsplits (length_eq_zero_iff.mp h)),
    raiseIf_bind_of_not (fun h => hne (length_eq_zero_iff.mp h)), hrun]
  show Except.ok ((s.windowsOf runner data pick).map
    WindowEvaluation.selectedCandidate, pick split) = _
  unfold Setup.windowsOf
  rw [map_map]
  rfl

/-- **An isolated final test** does not change what is selected. -/
theorem selected_of_isolated (h : Isolated s.validation s.splits s.spec s.candidates)
    (hdata : SameBefore s.validation.finalTestStart data data') : WalkForwardResult.selected <$>
        s.run runner data =
      WalkForwardResult.selected <$> s.run runner data' := by
  refine map_run_congr
    (fun windows c => (windows.map WindowEvaluation.selectedCandidate, c)) fun hsplits hne => ?_
  have hordered := ordered_ne_nil hne
  by_cases hf : s.objective ∈ attributeNames
  swap
  · rw [windowsAndFinal_of_notMem hf hsplits hordered,
      windowsAndFinal_of_notMem hf hsplits hordered]
  -- when the picks are known, only the final candidate is left to compare
  have hcompare : ∀ pick : ValidationSplit → ParameterCandidate V,
      (∀ split ∈ s.splits, ∀ split' ∈ s.splits, pick split = pick split') →
      (∀ split ∈ s.splits, s.Picks runner data split.train (pick split)) →
      (∀ split ∈ s.splits, s.Picks runner data' split.train (pick split)) →
      (fun x => (x.1.map WindowEvaluation.selectedCandidate, x.2)) <$>
          s.windowsAndFinal runner data =
        (fun x => (x.1.map WindowEvaluation.selectedCandidate, x.2)) <$>
          s.windowsAndFinal runner data' := by
    intro pick hsame hpick hpick'
    obtain ⟨split, hsplit, hrun, -⟩ := exists_windowsAndFinal hf hsplits hpick
    obtain ⟨split', hsplit', hrun', -⟩ := exists_windowsAndFinal hf hsplits hpick'
    rw [hrun, hrun', hsame split hsplit split' hsplit']
    show Except.ok (_, pick split') = Except.ok (_, pick split')
    unfold Setup.windowsOf
    rw [map_map, map_map]
    rfl
  obtain hnot | halike | ⟨htrain, htest⟩ := h
  · exact absurd hf hnot
  · obtain ⟨c, hc⟩ := picks_of_alike s runner hf hne halike
    exact hcompare (fun _ => c) (fun _ _ _ _ => rfl) (fun split _ => hc data split.train)
      fun split _ => hc data' split.train
  · have hexists : ∀ w : Window, ∃ c ∈ s.ordered, s.Picks runner data w c := fun w =>
      (exists_picks s runner data hf hordered w).imp fun c hc => ⟨hc.1, hc.2.1⟩
    choose pick hmem hpick using hexists
    have hbars : ∀ split ∈ s.splits, barsIn data' split.train.start split.train.end_ =
        barsIn data split.train.start split.train.end_ := fun split hsplit =>
      (barsIn_of_before hdata (htrain split hsplit)).symm
    have hpick' : ∀ split ∈ s.splits, s.Picks runner data' split.train (pick split.train) :=
      fun split hsplit =>
      (hpick split.train).congr (hmem split.train) fun c _ =>
        runChild_of_bars ⟨rfl, rfl⟩ (hbars split hsplit) c
    obtain htest | hsame := htest
    · have hwindows : s.windowsOf runner data (fun split => pick split.train) =
          s.windowsOf runner data' (fun split => pick split.train) := by
        refine map_congr_left fun split hsplit => ?_
        have htrain' : ∀ c, s.child runner data' c split.train =
            s.child runner data c split.train :=
          runChild_of_bars ⟨rfl, rfl⟩ (hbars split hsplit)
        have htest' : ∀ c, s.child runner data' c split.test = s.child runner data c split.test :=
          runChild_of_bars ⟨rfl, rfl⟩ (barsIn_of_before hdata (htest split hsplit)).symm
        unfold Setup.windowOf
        simp only [htrain', htest']
      unfold Setup.windowsAndFinal
      rw [mapM_of_ok fun split _ => evaluateSplit_of_picks (hpick split.train),
        mapM_of_ok fun split hsplit => evaluateSplit_of_picks (hpick' split hsplit)]
      simp only [ok_bind]
      rw [show s.splits.map _ = _ from hwindows]
      rfl
    · refine hcompare (fun split => pick split.train) (fun split hsplit split' hsplit' => ?_)
        (fun split _ => hpick split.train) hpick'
      have hcongr := (hpick split'.train).congr (hmem split'.train) fun c _ =>
        runChild_of_bars (w := split'.train) (hsame split hsplit split' hsplit') rfl c
      exact (hpick split.train).unique hcongr |>.symm

/-- **A split's selection** reads the bars of its training window only. -/
theorem selected_of_train {i : ℕ} (hi : s.splits[i]? = some split)
    (hbars : barsIn data split.train.start split.train.end_ =
      barsIn data' split.train.start split.train.end_) :
    (fun r : WalkForwardResult V => (r.windows[i]?).map WindowEvaluation.selectedCandidate) <$>
        s.run runner data =
      (fun r : WalkForwardResult V => (r.windows[i]?).map WindowEvaluation.selectedCandidate) <$>
        s.run runner data' := by
  refine map_run_congr
    (fun windows _ => (windows[i]?).map WindowEvaluation.selectedCandidate) fun hsplits hne => ?_
  have hordered := ordered_ne_nil hne
  by_cases hf : s.objective ∈ attributeNames
  swap
  · rw [windowsAndFinal_of_notMem hf hsplits hordered,
      windowsAndFinal_of_notMem hf hsplits hordered]
  have hexists : ∀ data : List Bar, ∃ pick : ValidationSplit → ParameterCandidate V,
      ∀ split, pick split ∈ s.ordered ∧ s.Picks runner data split.train (pick split) := by
    intro data
    choose pick hpick using fun split : ValidationSplit =>
      exists_picks s runner data hf hordered split.train
    exact ⟨pick, fun split => ⟨(hpick split).1, (hpick split).2.1⟩⟩
  have hrun : ∀ (data : List Bar) (pick : ValidationSplit → ParameterCandidate V),
      (∀ split, pick split ∈ s.ordered ∧ s.Picks runner data split.train (pick split)) →
      (fun x => (x.1[i]?).map WindowEvaluation.selectedCandidate) <$>
          s.windowsAndFinal runner data = .ok (some (pick split)) := by
    intro data pick hpick
    obtain ⟨final, -, hrun, -⟩ := exists_windowsAndFinal hf hsplits fun split _ => (hpick split).2
    rw [hrun]
    show Except.ok ((s.windowsOf runner data pick)[i]?.map WindowEvaluation.selectedCandidate) = _
    unfold Setup.windowsOf
    rw [getElem?_map, hi]
    rfl
  obtain ⟨pick, hpick⟩ := hexists data
  obtain ⟨pick', hpick'⟩ := hexists data'
  rw [hrun data pick hpick, hrun data' pick' hpick']
  have hcongr := (hpick split).2.congr (hpick split).1 fun c _ =>
    runChild_of_bars (w := split.train) (v := split.train) ⟨rfl, rfl⟩ hbars.symm c
  rw [hcongr.unique (hpick' split).2]

/-- **The order of the candidates** does not matter. -/
theorem walkForward_of_perm {candidates' : List (ParameterCandidate V)}
    (hperm : candidates'.Perm candidates)
    (hkeys : (candidates.map (ParameterCandidate.canonicalKey canonicalJson)).Nodup) :
    walkForward canonicalJson runner data validation splits spec candidates' =
      walkForward canonicalJson runner data validation splits spec candidates := by
  unfold walkForward
  rw [hperm.length_eq, orderBy_eq_of_perm _ hperm.symm hkeys]

/-! ## Runners that tell s.candidates apart -/

/-- The factor of an attribute: numbers of things are whole. -/
def scale (n : ℕ) (name : String) : ℚ :=
  if name = "max_drawdown_bars" ∨ name = "trade_count" then 1 else 1 / n

variable {n : ℕ}

theorem scale_pos (hn : 0 < n) (name : String) : 0 < scale n name := by
  unfold scale
  split_ifs <;> positivity

/-- The value of an attribute that is a share. -/
def share (n v : ℕ) : ℚ := 1 / n * (min v n : ℕ)

theorem share_nonneg (n v : ℕ) : 0 ≤ share n v := by
  unfold share
  positivity

theorem share_le_one (n v : ℕ) : share n v ≤ 1 := by
  unfold share
  rw [one_div, inv_mul_eq_div]
  exact div_le_one_of_le₀ (by exact_mod_cast min_le_right v n) n.cast_nonneg

/-- Metrics whose attributes are all the same, up to a factor. -/
def flat (n v : ℕ) : PerformanceMetrics where
  totalReturn := share n v
  cagr := share n v
  annualizedVolatility := share n v
  sharpe := share n v
  sortino := share n v
  calmar := share n v
  omega := share n v
  maxDrawdown := share n v
  averageDrawdown := share n v
  maxDrawdownBars := min v n
  exposure := share n v
  turnover := share n v
  tradeCount := min v n
  winRate := share n v
  profitFactor := share n v
  expectancy := share n v
  averageHoldingPeriodBars := share n v
  var95 := share n v
  cvar95 := share n v
  periodsPerYear := share n v
  exposure_mem := ⟨share_nonneg n v, share_le_one n v⟩
  turnover_nonneg := share_nonneg n v
  winRate_mem := ⟨share_nonneg n v, share_le_one n v⟩
  profitFactor_nonneg := share_nonneg n v
  averageHoldingPeriodBars_nonneg := share_nonneg n v
  periodsPerYear_nonneg := share_nonneg n v

variable {v : ℕ}

theorem attributes_flat (h : v ≤ n) :
    (flat n v).attributes = attributeNames.map fun name => (name, scale n name * v) := by
  simp [flat, share, PerformanceMetrics.attributes, attributeNames, scale, min_eq_left h]

theorem valueOf_flat {field : String} (hf : field ∈ attributeNames) (h : v ≤ n) :
    valueOf field (flat n v) = scale n field * v := by
  have hlookup : ∀ names : List String, field ∈ names →
      (names.map fun name => (name, scale n name * (v : ℚ))).lookup field =
        some (scale n field * v) := by
    intro names
    induction names with
    | nil => exact fun hmem => absurd hmem not_mem_nil
    | cons name names ih =>
      intro hmem
      rw [map_cons, lookup_cons]
      by_cases hname : field = name
      · simp [hname]
      · rw [beq_eq_false_iff_ne.mpr hname]
        exact ih ((mem_cons.mp hmem).resolve_left hname)
  unfold valueOf
  rw [attributes_flat h, hlookup _ hf]
  rfl

/-- A runner whose metrics are given by the parameters, the window and its bars. -/
def trial (n : ℕ) (value : (String → Option V) → ℤ → ℤ → List Bar → ℕ) : Runner V :=
  fun spec rows => ⟨"", [], flat n (value spec.strategyParams spec.start spec.end_ rows)⟩

theorem childValue_trial (hf : s.objective ∈ attributeNames)
    {value : (String → Option V) → ℤ → ℤ → List Bar → ℕ} (w : Window) (c : ParameterCandidate V)
    (h : value (s.params c) w.start w.end_ (barsIn data w.start w.end_) ≤ n) :
    s.childValue (trial n value) data w c = scale n s.objective * value (s.params c) w.start w.end_
        (barsIn data w.start w.end_) :=
  valueOf_flat hf h

def barAt (t : ℤ) (close : ℚ) : Bar := ⟨t, 0, 0, 0, close, 0⟩

/-- The bars show what a candidate is to be selected for. -/
def Marked (rows : List Bar) : Prop := ∃ bar ∈ rows, bar.close = 1
deriving Decidable

variable {end_ start : ℤ}

theorem marked_barAt : Marked (barsIn [barAt t 1] start end_) ↔ start ≤ t ∧ t < end_ := by
  simp [Marked, barsIn, barAt]

theorem not_marked_barAt : ¬ Marked (barsIn [barAt t 0] start end_) := by
  simp [Marked, barsIn, barAt]

theorem sameBefore_barAt {u : ℤ} (h : t ≤ u) (close close' : ℚ) :
    SameBefore t [barAt u close] [barAt u close'] := by
  simp [SameBefore, barAt, not_lt.mpr h]

/-! ## Windows that show the final test -/

variable (canonicalJson)

/-- Nothing that a run selects depends on the final test. -/
def Unchanged (validation : ValidationSpec) (splits : List ValidationSplit) (spec : BacktestSpec V)
    (candidates : List (ParameterCandidate V)) : Prop :=
  ∀ (runner : Runner V) (data data' : List Bar), SameBefore validation.finalTestStart data data' →
    WalkForwardResult.selected <$>
        walkForward canonicalJson runner data validation splits spec candidates =
      WalkForwardResult.selected <$>
        walkForward canonicalJson runner data' validation splits spec candidates

variable (s) in
/-- The candidates that a run picks, each with the best value. -/
theorem exists_pick (runner : Runner V) (data : List Bar) (hf : s.objective ∈ attributeNames)
    (hne : s.candidates ≠ []) : ∃ pick : ValidationSplit → ParameterCandidate V, ∀ split,
      pick split ∈ s.candidates ∧ s.Picks runner data split.train (pick split) ∧
        ∀ c ∈ s.candidates, s.childValue runner data split.train c ≤
          s.childValue runner data split.train (pick split) := by
  choose pick hpick using fun split : ValidationSplit =>
    exists_picks s runner data hf (ordered_ne_nil hne) split.train
  exact ⟨pick, fun split => ⟨mem_orderBy.mp (hpick split).1, (hpick split).2.1,
    fun c hc => (hpick split).2.2 c (mem_orderBy.mpr hc)⟩⟩

/-- **A training window** that shows the final test decides by it. -/
theorem train_before_of_unchanged (hf : s.objective ∈ attributeNames)
    (h : Unchanged s.canonicalJson s.validation s.splits s.spec s.candidates)
    (halike : ¬ Alike s.spec s.candidates) (hsplit : split ∈ s.splits) :
    split.train.Before s.validation.finalTestStart := by
  classical
  intro t hstart hend
  by_contra hlate
  simp only [Alike, not_forall] at halike
  obtain ⟨c, hc, c', hc', hne⟩ := halike
  let value : (String → Option V) → ℤ → ℤ → List Bar → ℕ := fun params _ _ rows =>
    if params = s.params c then if Marked rows then 0 else 1
    else if Marked rows then 1 else 0
  have hvalue : ∀ params start end_ rows, value params start end_ rows ≤ 1 := by
    intro params start end_ rows
    simp only [value]
    split_ifs <;> omega
  have hcandidates : s.candidates ≠ [] := ne_nil_of_mem hc
  obtain ⟨pick, hpick⟩ := exists_pick s (trial 1 value) [barAt t 0] hf hcandidates
  obtain ⟨pick', hpick'⟩ := exists_pick s (trial 1 value) [barAt t 1] hf hcandidates
  obtain ⟨_, -, hrun, -⟩ := exists_selected hf (ne_nil_of_mem hsplit) hcandidates
    fun split _ => (hpick split).2.1
  obtain ⟨_, -, hrun', -⟩ := exists_selected hf (ne_nil_of_mem hsplit) hcandidates
    fun split _ => (hpick' split).2.1
  have hsame := h (trial 1 value) _ _ (sameBefore_barAt (not_lt.mp hlate) 0 1)
  rw [hrun, hrun'] at hsame
  have heq : pick split = pick' split :=
    map_inj_left.mp (congrArg Prod.fst (ok.inj hsame)) split hsplit
  have hscale := scale_pos one_pos s.objective
  -- without the mark a candidate with the parameters of `c` is selected, with it another one
  have hunmarked := (hpick split).2.2 c hc
  have hmarked := (hpick' split).2.2 c' hc'
  rw [childValue_trial hf _ _ (hvalue _ _ _ _), childValue_trial hf _ _ (hvalue _ _ _ _),
    mul_le_mul_iff_of_pos_left hscale, Nat.cast_le] at hunmarked hmarked
  rw [← heq] at hmarked
  simp only [value, not_marked_barAt, marked_barAt.mpr ⟨hstart, hend⟩, if_true, if_false,
    if_neg (Ne.symm hne)] at hunmarked hmarked
  split_ifs at hunmarked hmarked <;> omega

/-! ## Test windows that show the final test -/

variable {l : List ℚ} {x : ℚ}

theorem length_pos_of_mem_rat (hx : x ∈ l) : (0 : ℚ) < l.length := by
  exact_mod_cast length_pos_of_mem hx

/-- One value of a mean, where the others are bounded below. -/
theorem le_mean_of_mem {a : ℚ} (hx : x ∈ l) (ha : ∀ y ∈ l, a ≤ y) :
    a + (x - a) / l.length ≤ mean l := by
  have hpos := length_pos_of_mem_rat hx
  have hsum : ∀ l : List ℚ, (∀ y ∈ l, a ≤ y) → (l.length : ℚ) * a ≤ l.sum := by
    intro l hl
    have := card_nsmul_le_sum l a hl
    rwa [nsmul_eq_mul] at this
  have hperm := perm_cons_erase hx
  have hle := hsum (l.erase x) fun y hy => ha y (mem_of_mem_erase hy)
  have hlength : (l.length : ℚ) = (l.erase x).length + 1 := by
    rw [hperm.length_eq, length_cons]
    push_cast
    rfl
  have htotal : l.sum = x + (l.erase x).sum := by rw [hperm.sum_eq, sum_cons]
  unfold mean
  rw [le_div_iff₀ hpos, add_mul, div_mul_cancel₀ _ hpos.ne', htotal, hlength]
  linarith

/-- One value of a mean, where the others are bounded above. -/
theorem mean_le_of_mem {b : ℚ} (hx : x ∈ l) (hb : ∀ y ∈ l, y ≤ b) :
    mean l ≤ b - (b - x) / l.length := by
  have hneg := le_mean_of_mem (l := l.map fun y => -y) (x := -x) (a := -b)
    (mem_map_of_mem hx) fun y hy => by
      obtain ⟨z, hz, rfl⟩ := mem_map.mp hy
      exact neg_le_neg (hb z hz)
  have hmean : mean (l.map fun y => -y) = -mean l := by
    unfold mean
    rw [length_map, ← sum_neg, neg_div]
  rw [hmean, length_map] at hneg
  have hdiv : (-x - -b) / (l.length : ℚ) = (b - x) / l.length := by
    rw [show -x - -b = b - x by ring]
  rw [hdiv] at hneg
  linarith

variable (pick)

theorem groupMean_windowsOf (key : String) : s.groupMean (s.windowsOf runner data pick) key =
      mean ((s.splits.filter fun split => s.key (pick split) = key).map
        fun split => s.childValue runner data split.test (pick split)) := by
  unfold Setup.groupMean groupOf Setup.windowsOf
  rw [filter_map, map_map]
  rfl

variable (p : String → Option V)

open Classical in
/-- Values by which the candidates with the parameters `p` are selected on one training window,
and other candidates on the others. Where the bars are marked, the former get the highest value
or none. -/
noncomputable def contest (w : Window) (n : ℕ) (high : Bool) :
    (String → Option V) → ℤ → ℤ → List Bar → ℕ := fun params start end_ rows =>
  if Marked rows then if params = p then if high then 2 * n + 3 else 0 else n + 1
  else if w.start = start ∧ w.end_ = end_ then if params = p then n + 2 else n + 1
  else if params = p then n + 1 else n + 2

theorem contest_le (w : Window) (n : ℕ) (high : Bool) (params : String → Option V) (start end_ : ℤ)
    (rows : List Bar) : contest p w n high params start end_ rows ≤ 2 * n + 3 := by
  unfold contest
  split_ifs <;> omega

variable {p}

/-- Without marks, or with other parameters, the values are close to each other. -/
theorem contest_mem {high : Bool} {params : String → Option V} {rows : List Bar}
    (h : params = p → ¬ Marked rows) : n + 1 ≤ contest p w n high params start end_ rows ∧
      contest p w n high params start end_ rows ≤ n + 2 := by
  unfold contest
  split_ifs with hmarked hp
  · exact absurd hmarked (h hp)
  · exact absurd hmarked (h hp)
  all_goals omega

variable {high : Bool} {other : ValidationSplit}

theorem childValue_contest (hf : s.objective ∈ attributeNames) (w : Window) :
    s.childValue (trial (2 * n + 3) (contest p split.train n high)) data w c =
      scale (2 * n + 3) s.objective * contest p split.train n high (s.params c) w.start w.end_
        (barsIn data w.start w.end_) :=
  childValue_trial hf w c (contest_le _ _ _ _ _ _ _ _)

/-- **The training windows decide** between the parameters. -/
theorem contest_picks (hf : s.objective ∈ attributeNames)
    (hmarked : ¬ Marked (barsIn data w.start w.end_)) {picked : ParameterCandidate V}
    (hbest : ∀ c ∈ s.candidates, s.childValue (trial (2 * n + 3) (contest p split.train n high)) data w c ≤
      s.childValue (trial (2 * n + 3) (contest p split.train n high)) data w picked)
    (hc : c ∈ s.candidates) (hc' : c' ∈ s.candidates) (hp : s.params c = p) (hp' : s.params c' ≠ p)
    : s.params picked = p ↔ split.train.SameInterval w := by
  have hscale := scale_pos (show 0 < 2 * n + 3 by omega) s.objective
  have hle := hbest c hc
  have hle' := hbest c' hc'
  rw [childValue_contest hf, childValue_contest hf, mul_le_mul_iff_of_pos_left hscale,
    Nat.cast_le] at hle hle'
  unfold contest at hle hle'
  simp only [if_neg hmarked, if_pos hp, if_neg hp'] at hle hle'
  unfold Window.SameInterval
  split_ifs at hle hle' with hw hpicked
  all_goals first | omega | simp_all

variable (p)

theorem contest_true_ge (w : Window) (n : ℕ) (params : String → Option V) (start end_ : ℤ)
    (rows : List Bar) : n + 1 ≤ contest p w n true params start end_ rows := by
  unfold contest
  simp only [if_true]
  split_ifs <;> omega

theorem contest_false_le (w : Window) (n : ℕ) (params : String → Option V) (start end_ : ℤ)
    (rows : List Bar) : contest p w n false params start end_ rows ≤ n + 2 := by
  unfold contest
  simp only [Bool.false_eq_true, if_false]
  split_ifs <;> omega

/-- The splits on which a candidate is selected, by its key. -/
def Setup.splitsOf (s : Setup V) (pick : ValidationSplit → ParameterCandidate V)
    (split : ValidationSplit) : List ValidationSplit :=
  s.splits.filter fun other => s.key (pick other) = s.key (pick split)

variable {pick}

variable (s pick) in
theorem mem_splitsOf (hsplit : split ∈ s.splits) : split ∈ s.splitsOf pick split :=
  mem_filter.mpr ⟨hsplit, decide_eq_true rfl⟩

/-- With keys of their own, the candidates of a group are one. -/
theorem pick_eq_of_mem_splitsOf (hpick : ∀ split, pick split ∈ s.candidates)
    (hkeys : (s.candidates.map s.key).Nodup)
    (h : other ∈ s.splitsOf pick split) : pick other = pick split :=
  inj_on_of_nodup_map hkeys (hpick other) (hpick split) (of_decide_eq_true (mem_filter.mp h).2)

variable {u : ℚ}

variable (s pick) in
/-- A share of more than the number of splits is more than one. -/
theorem lt_div_length (hsplit : split ∈ s.splits) (hu : 0 < u)
    (hx : u * (s.splits.length + 2 : ℕ) ≤ x) : u < x / (s.splitsOf pick split).length := by
  have hpos : (0 : ℚ) < (s.splitsOf pick split).length := by
    exact_mod_cast length_pos_of_mem (mem_splitsOf s pick hsplit)
  have hlength : ((s.splitsOf pick split).length : ℚ) ≤ s.splits.length := by
    exact_mod_cast length_filter_le _ _
  rw [lt_div_iff₀ hpos]
  refine lt_of_lt_of_le ?_ hx
  refine mul_lt_mul_of_pos_left ?_ hu
  push_cast
  linarith

/-- **One split decides** between two groups whose other values are close to each other. -/
theorem groupMean_lt (hu : 0 < u) (hsplit : split ∈ s.splits) (hother : other ∈ s.splits)
    (hlow :
      ∀ x ∈ s.splitsOf pick split, u * (s.splits.length + 1 :
      ℕ) ≤ s.childValue runner data x.test (pick x))
    (hhigh : ∀ x ∈ s.splitsOf pick other, s.childValue runner data x.test (pick x) ≤
      u * (s.splits.length + 2 : ℕ))
    (hfar : u * (2 * s.splits.length + 3 : ℕ) ≤ s.childValue runner data split.test (pick split) ∨
      s.childValue runner data other.test (pick other) ≤ 0)
    : s.groupMean (s.windowsOf runner data pick) (s.key (pick other)) <
      s.groupMean (s.windowsOf runner data pick) (s.key (pick split)) := by
  have hleft := le_mean_of_mem (mem_map_of_mem (f := fun x : ValidationSplit =>
    s.childValue runner data x.test (pick x)) (mem_splitsOf s pick hsplit)) fun y hy => by
      obtain ⟨x, hx, rfl⟩ := mem_map.mp hy
      exact hlow x hx
  have hright := mean_le_of_mem (mem_map_of_mem (f := fun x : ValidationSplit =>
    s.childValue runner data x.test (pick x)) (mem_splitsOf s pick hother)) fun y hy => by
      obtain ⟨x, hx, rfl⟩ := mem_map.mp hy
      exact hhigh x hx
  rw [length_map] at hleft hright
  rw [groupMean_windowsOf, groupMean_windowsOf]
  refine hright.trans_lt (lt_of_lt_of_le ?_ hleft)
  rcases hfar with hfar | hfar
  · have hshare := lt_div_length s pick hsplit hu (x := s.childValue runner data split.test
      (pick split) - u * (s.splits.length + 1 : ℕ)) (by push_cast at hfar ⊢; linarith)
    have hrest : 0 ≤ (u * (s.splits.length + 2 : ℕ) -
        s.childValue runner data other.test (pick other)) / (s.splitsOf pick other).length :=
      div_nonneg (sub_nonneg.mpr (hhigh other (mem_splitsOf s pick hother))) (Nat.cast_nonneg _)
    push_cast at hshare hrest ⊢
    linarith
  · have hshare := lt_div_length s pick hother hu (x := u * (s.splits.length + 2 : ℕ) -
      s.childValue runner data other.test (pick other)) (by push_cast; linarith)
    have hrest : 0 ≤ (s.childValue runner data split.test (pick split) -
        u * (s.splits.length + 1 : ℕ)) / (s.splitsOf pick split).length :=
      div_nonneg (sub_nonneg.mpr (hlow split (mem_splitsOf s pick hsplit))) (Nat.cast_nonneg _)
    push_cast at hshare hrest ⊢
    linarith

variable {p}

section Final

variable {final : ValidationSplit} {t : ℤ}
  (hf : s.objective ∈ attributeNames) (hpick : ∀ split, pick split ∈ s.candidates)
  (hkeys : (s.candidates.map s.key).Nodup)
  (hdecides : ∀ u ∈ s.splits, s.params (pick u) = p ↔ split.train.SameInterval u.train)
  (hsplit : split ∈ s.splits) (hfinal : final ∈ s.splits)
  (htest : split.test.start ≤ t ∧ t < split.test.end_)

include hf hpick hkeys hdecides hsplit hfinal htest

/-- **A high mark** makes a candidate with the parameters `p` the final one. -/
theorem final_of_high {runner : Runner V} (hrunner : runner =
      trial (2 * s.splits.length + 3) (contest p split.train s.splits.length true))
    (hbest : s.groupMean (s.windowsOf runner [barAt t 1] pick) (s.key (pick split)) ≤
      s.groupMean (s.windowsOf runner [barAt t 1] pick) (s.key (pick final))) :
    s.params (pick final) = p := by
  by_contra hnot
  have hscale := scale_pos (show 0 < 2 * s.splits.length + 3 by omega) s.objective
  have hp : s.params (pick split) = p := (hdecides split hsplit).mpr ⟨rfl, rfl⟩
  refine absurd hbest (not_le.mpr (groupMean_lt hscale hsplit hfinal (fun u _ => ?_)
    (fun u hu => ?_) (.inl ?_)))
  · rw [hrunner, childValue_contest hf]
    exact mul_le_mul_of_nonneg_left (Nat.cast_le.mpr (contest_true_ge _ _ _ _ _ _ _)) hscale.le
  · rw [hrunner, childValue_contest hf]
    refine mul_le_mul_of_nonneg_left (Nat.cast_le.mpr (contest_mem fun hu' => ?_).2) hscale.le
    rw [pick_eq_of_mem_splitsOf hpick hkeys hu] at hu'
    exact absurd hu' hnot
  · rw [hrunner, childValue_contest hf]
    unfold contest
    rw [if_pos (marked_barAt.mpr htest), if_pos hp, if_pos rfl]

/-- **A low mark** makes another candidate the final one. -/
theorem final_of_low {runner : Runner V} (hrunner : runner =
      trial (2 * s.splits.length + 3) (contest p split.train s.splits.length false))
    (hother : other ∈ s.splits) (htrain : ¬ split.train.SameInterval other.train)
    (hsame : ∀ u ∈ s.splits, split.train.SameInterval u.train → pick u = pick split)
    (hbest : s.groupMean (s.windowsOf runner [barAt t 1] pick) (s.key (pick other)) ≤
      s.groupMean (s.windowsOf runner [barAt t 1] pick) (s.key (pick final))) :
    s.params (pick final) ≠ p := by
  intro hp
  have hscale := scale_pos (show 0 < 2 * s.splits.length + 3 by omega) s.objective
  rw [hsame final hfinal ((hdecides final hfinal).mp hp)] at hbest hp
  refine absurd hbest (not_le.mpr (groupMean_lt hscale hother hsplit (fun u hu => ?_)
    (fun u _ => ?_) (.inr ?_)))
  · rw [hrunner, childValue_contest hf]
    refine mul_le_mul_of_nonneg_left (Nat.cast_le.mpr (contest_mem fun hu' => ?_).1) hscale.le
    rw [pick_eq_of_mem_splitsOf hpick hkeys hu] at hu'
    exact absurd ((hdecides other hother).mp hu') htrain
  · rw [hrunner, childValue_contest hf]
    exact mul_le_mul_of_nonneg_left (Nat.cast_le.mpr (contest_false_le _ _ _ _ _ _ _)) hscale.le
  · rw [hrunner, childValue_contest hf]
    unfold contest
    rw [if_pos (marked_barAt.mpr htest), if_pos hp, if_neg Bool.false_ne_true, Nat.cast_zero,
      mul_zero]

end Final

/-- A run depends on what the runner returns for its children. -/
theorem walkForward_congr (h : ∀ c w, s.child runner data c w = s.child runner' data c w) :
    s.run runner data = s.run runner' data := by
  unfold Setup.run walkForward
  have hsplit : evaluateSplit s.canonicalJson runner data s.objective s.spec
        (s.candidates.orderBy s.key) =
      evaluateSplit s.canonicalJson runner' data s.objective s.spec
        (s.candidates.orderBy s.key) := by
    funext split
    unfold evaluateSplit
    simp only [h]
  simp only [hsplit, h]

/-- **A test window** that shows the final test decides by it, if another split trains on another
window. -/
theorem test_before_of_unchanged (hf : s.objective ∈ attributeNames)
    (h : Unchanged s.canonicalJson s.validation s.splits s.spec s.candidates)
    (hkeys : (s.candidates.map s.key).Nodup)
    (halike : ¬ Alike s.spec s.candidates)
    (htrain : ∀ u ∈ s.splits, u.train.Before s.validation.finalTestStart)
    (hsplit : split ∈ s.splits)
    (hother : other ∈ s.splits) (hdiffer : ¬ split.train.SameInterval other.train) :
    split.test.Before s.validation.finalTestStart := by
  intro t hstart hend
  by_contra hlate
  simp only [Alike, not_forall] at halike
  obtain ⟨c, hc, c', hc', hne⟩ := halike
  have hcandidates : s.candidates ≠ [] := ne_nil_of_mem hc
  have hsplits : s.splits ≠ [] := ne_nil_of_mem hsplit
  let contestant : Bool → Runner V := fun high => trial (2 * s.splits.length + 3)
    (contest (s.params c) split.train s.splits.length high)
  have hunmarked : ∀ u ∈ s.splits, ¬ Marked (barsIn [barAt t 1] u.train.start u.train.end_) := by
    intro u hu hmarked
    have ht := marked_barAt.mp hmarked
    exact hlate (htrain u hu t ht.1 ht.2)
  -- what a run selects when the bar is marked
  have hfinal : ∀ high, ∃ picks final, WalkForwardResult.selected <$>
        s.run (contestant high) [barAt t 1] = .ok (picks, final) ∧
      (s.params final = s.params c ↔ high = true) := by
    intro high
    obtain ⟨pick, hpick⟩ := exists_pick s (contestant high) [barAt t 1] hf hcandidates
    have hdecides : ∀ u ∈ s.splits, s.params (pick u) =
        s.params c ↔ split.train.SameInterval u.train :=
      fun u hu => contest_picks hf (hunmarked u hu) (hpick u).2.2 hc hc' rfl (Ne.symm hne)
    obtain ⟨final, hmem, hrun, hbest⟩ := exists_selected hf hsplits hcandidates
      fun u _ => (hpick u).2.1
    refine ⟨_, _, hrun, ?_⟩
    cases high with
    | true =>
      exact iff_of_true (final_of_high hf (fun u => (hpick u).1) hkeys hdecides hsplit hmem
        ⟨hstart, hend⟩ rfl (hbest split hsplit)) rfl
    | false =>
      refine iff_of_false (final_of_low hf (fun u => (hpick u).1) hkeys hdecides hsplit hmem
        ⟨hstart, hend⟩ rfl hother hdiffer (fun u _ hu => ?_) (hbest other hother))
        Bool.false_ne_true
      have hcongr := (hpick split).2.1.congr (mem_orderBy.mpr (hpick split).1) fun c _ =>
        runChild_of_bars (w := split.train) (v := u.train) ⟨hu.1.symm, hu.2.symm⟩ rfl c
      exact hcongr.unique (hpick u).2.1
  -- without the mark, both runners are the same
  have hsame : ∀ high, WalkForwardResult.selected <$> s.run (contestant high) [barAt t 1] =
      WalkForwardResult.selected <$> s.run (contestant true) [barAt t 0] := by
    intro high
    rw [h (contestant high) [barAt t 1] [barAt t 0] (sameBefore_barAt (not_lt.mp hlate) 1 0)]
    refine congrArg _ (walkForward_congr fun c w => ?_)
    show BacktestResult.mk _ _ (flat _ (contest _ _ _ high _ _ _ _)) =
      BacktestResult.mk _ _ (flat _ (contest _ _ _ true _ _ _ _))
    unfold contest
    rw [if_neg not_marked_barAt, if_neg not_marked_barAt]
  obtain ⟨picks, final, hrun, hhigh⟩ := hfinal true
  obtain ⟨picks', final', hrun', hlow⟩ := hfinal false
  rw [hsame] at hrun hrun'
  have heq := congrArg Prod.snd (ok.inj (hrun.symm.trans hrun'))
  have hfinals : final = final' := heq
  rw [← hfinals] at hlow
  exact Bool.false_ne_true (hlow.mp (hhigh.mpr rfl))

/-- **A final test that changes nothing** is isolated. -/
theorem isolated_of_unchanged (hkeys : (s.candidates.map s.key).Nodup)
    (h : Unchanged s.canonicalJson s.validation s.splits s.spec s.candidates) :
    Isolated s.validation s.splits s.spec s.candidates := by
  by_cases hf : s.objective ∈ attributeNames
  swap
  · exact .inl hf
  by_cases halike : Alike s.spec s.candidates
  · exact .inr (.inl halike)
  have htrain : ∀ u ∈ s.splits, u.train.Before s.validation.finalTestStart := fun u hu =>
    train_before_of_unchanged hf h halike hu
  refine .inr (.inr ⟨htrain, ?_⟩)
  by_cases hsame : ∀ u ∈ s.splits, ∀ s' ∈ s.splits, u.train.SameInterval s'.train
  · exact .inr hsame
  · refine .inl fun u hu => ?_
    simp only [not_forall] at hsame
    obtain ⟨a, ha, b, hb, hab⟩ := hsame
    -- one of two splits with different windows differs from this one
    by_cases hsa : u.train.SameInterval a.train
    · have hsb : ¬ u.train.SameInterval b.train := fun hsb =>
        hab ⟨hsa.1.symm.trans hsb.1, hsa.2.symm.trans hsb.2⟩
      exact test_before_of_unchanged hf h hkeys halike htrain hu hb hsb
    · exact test_before_of_unchanged hf h hkeys halike htrain hu ha hsa

end

/-- **Walk-forward selection.** The candidates that are selected, for each split and finally, do
not depend on bars from the start of the final test on, exactly if the final test is isolated.
The selection of a split reads its training window only, and the order in which candidates are
given does not matter. -/
theorem walk_forward_isolated {V : Type} (canonicalJson : (String → Option V) → String)
    (validation : ValidationSpec) (splits : List ValidationSplit) (spec : BacktestSpec V)
    (candidates : List (ParameterCandidate V)) : (Isolated validation splits spec candidates →
      Unchanged canonicalJson validation splits spec candidates) ∧
    ((candidates.map (ParameterCandidate.canonicalKey canonicalJson)).Nodup →
      Unchanged canonicalJson validation splits spec candidates →
        Isolated validation splits spec candidates) ∧
    (∀ (runner : Runner V) (data data' : List Bar) (i : ℕ) (split : ValidationSplit),
      splits[i]? = some split →
      barsIn data split.train.start split.train.end_ =
        barsIn data' split.train.start split.train.end_ →
      (fun r : WalkForwardResult V => (r.windows[i]?).map WindowEvaluation.selectedCandidate) <$>
          walkForward canonicalJson runner data validation splits spec candidates =
        (fun r : WalkForwardResult V => (r.windows[i]?).map WindowEvaluation.selectedCandidate) <$>
          walkForward canonicalJson runner data' validation splits spec candidates) ∧
    ∀ (runner : Runner V) (data : List Bar) (candidates' : List (ParameterCandidate V)),
      candidates'.Perm candidates →
      (candidates.map (ParameterCandidate.canonicalKey canonicalJson)).Nodup →
      walkForward canonicalJson runner data validation splits spec candidates' =
        walkForward canonicalJson runner data validation splits spec candidates :=
  let s : Setup V := ⟨canonicalJson, validation, splits, spec, candidates⟩
  ⟨fun h _ _ _ hdata => selected_of_isolated (s := s) h hdata,
    fun hkeys h => isolated_of_unchanged (s := s) hkeys h,
    fun _ _ _ _ _ hi hbars => selected_of_train (s := s) hi hbars,
    fun _ _ _ hperm hkeys => walkForward_of_perm hperm hkeys⟩

/-! ## A run -/

/-- Metrics with a Sharpe ratio. -/
def sampleMetrics (sharpe : ℚ) : PerformanceMetrics :=
  { flat 1 0 with sharpe := sharpe }

/-- A runner that is long with the candidate `alpha`, and short with any other. -/
def sampleRunner : Runner String := fun spec rows =>
  let total := (rows.map Bar.close).sum
  ⟨"run", [],
    sampleMetrics (if spec.strategyParams "candidate" = some "alpha" then total else -total)⟩

/-- The canonical JSON of an object with one key. -/
def sampleJson (parameters : String → Option String) : String :=
  match parameters "candidate" with
  | some value => "\x7b\"candidate\":\"" ++ value ++ "\"\x7d"
  | none => "\x7b\x7d"

def sampleCandidate (value : String) : ParameterCandidate String :=
  ⟨fun key => if key = "candidate" then some value else none⟩

/-- The final test starts at 4. -/
def sampleValidation : ValidationSpec := ⟨3, 4, 8, "sharpe", by decide, by decide⟩

/-- Two splits, of which the second one tests beyond the start of the final test. -/
def sampleSplits : List ValidationSplit :=
  [⟨⟨0, 1, [0]⟩, ⟨1, 1, []⟩, ⟨1, 2, [1]⟩, 2⟩, ⟨⟨1, 2, [1]⟩, ⟨2, 2, []⟩, ⟨2, 6, [2, 5]⟩, 6⟩]

/-- The final candidate, when the bar at time 5 of the final test closes at a price. -/
def sampleFinal (close : ℚ) : Except Exc (Option String) :=
  (fun r => r.finalEvaluation.selectedCandidate.parameters "candidate") <$>
    walkForward sampleJson sampleRunner
      [barAt 0 1, barAt 1 (-1), barAt 2 0, barAt 5 close] sampleValidation sampleSplits
      ⟨fun _ => none, 0, 8⟩ [sampleCandidate "alpha", sampleCandidate "beta"]

/-- **The final test decides**: with another bar in it, another candidate is selected. -/
theorem final_test_decides :
    (∀ split ∈ sampleSplits, ValidationSplit.create split.train split.purge split.test
        split.nextEligibleStart = .ok split) ∧
      sampleFinal 0 = .ok (some "beta") ∧ sampleFinal 5 = .ok (some "alpha") := by
  refine ⟨?_, ?_, ?_⟩
  · decide +kernel
  · decide +kernel
  · decide +kernel

end Qt.Backtest
