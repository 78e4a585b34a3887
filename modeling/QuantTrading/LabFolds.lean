import Mathlib.Data.List.GetD
import QuantTrading.Lib.Lookup
import QuantTrading.Lib.Slice
import QuantTrading.SignalArchive

/-!
# Folds of the lab

`build_validation_folds` of `qt.lab.service` cuts a timeline into folds, each with a window to train
on, one to validate on and one to test on, and writes their first and last bars down as texts.
`_windowed_native_spec` puts the texts of a window into the specification of a run, from which
`_execution_window` of `qt.nautilus.executor` and the loop of the adapter read which bars to decide
on.

The folds are positions, the specification is texts, and the run compares timestamps:
`lab_windows` says that the run decides on the bars between the positions. It refuses a window of
one bar, because a run has to begin before it ends.

Timestamps are nanoseconds, and a frame is its index. What pandas makes of a text is a parameter,
and so is the hydration of the strategy's version.
-/

namespace Qt.Lab

open Except List

/-! ## Payloads -/

/-- What is raised. -/
inductive Exc
  | valueError (message : String)
  | keyError (key : String)
  | indexError
deriving DecidableEq, Repr

/-- A value of a payload. -/
inductive Value
  | null
  | bool (b : Bool)
  | number (x : ℚ)
  | text (s : String)
  | list (items : List Value)
  | mapping (entries : List (String × Value))

abbrev JsonDict := List (String × Value)

def asMapping (value : Option Value) (field : String) : Except Exc JsonDict :=
  match value with
  | some (.mapping entries) => .ok entries
  | _ => .error (.valueError (field ++ " must be an object"))

/-! ## Folds -/

/-- The sizes of `build_validation_folds`: the schemas ask for 20 bars to train on and for 10 of the
others. -/
structure FoldSizes where
  trainBars : ℕ
  validationBars : ℕ
  testBars : ℕ
  folds : ℕ
  purgeBars : ℕ
  embargoBars : ℕ
  trainBars_pos : 0 < trainBars
  validationBars_pos : 0 < validationBars
  testBars_pos : 0 < testBars
  folds_pos : 0 < folds

structure ValidationFold where
  number : ℕ
  trainStart : String
  trainEnd : String
  validationStart : String
  validationEnd : String
  testStart : String
  testEnd : String
  purgeBars : ℕ
  embargoBars : ℕ
deriving DecidableEq, Repr

/-- What `pd.Timestamp` makes of a value. -/
inductive Reading
  | invalid
  | naive
  | aware (t : ℤ)
deriving DecidableEq, Repr

/-- The part of pandas that writes timestamps down and reads them. -/
structure Pandas where
  isoformat : ℤ → String
  timestamp : Value → Reading

section Build

variable (pandas : Pandas) (timestamps : List ℤ)

/-- `timestamps[i].isoformat()`. -/
def stampAt (i : ℕ) : Except Exc String :=
  (timestamps[i]?).elim (.error .indexError) fun t => .ok (pandas.isoformat t)

variable (sizes : FoldSizes)

def buildFold (number : ℕ) : Except Exc ValidationFold := do
  let start := number * sizes.testBars
  let trainEnd := start + sizes.trainBars
  let validationStart := trainEnd + sizes.purgeBars
  let validationEnd := validationStart + sizes.validationBars
  let testStart := validationEnd + sizes.embargoBars
  let testEnd := testStart + sizes.testBars
  let trainFirst ← stampAt pandas timestamps start
  let trainLast ← stampAt pandas timestamps (trainEnd - 1)
  let validationFirst ← stampAt pandas timestamps validationStart
  let validationLast ← stampAt pandas timestamps (validationEnd - 1)
  let testFirst ← stampAt pandas timestamps testStart
  let testLast ← stampAt pandas timestamps (testEnd - 1)
  return {
    number := number + 1
    trainStart := trainFirst
    trainEnd := trainLast
    validationStart := validationFirst
    validationEnd := validationLast
    testStart := testFirst
    testEnd := testLast
    purgeBars := sizes.purgeBars
    embargoBars := sizes.embargoBars }

/-- The bars of a fold. -/
def FoldSizes.required : ℕ :=
  sizes.trainBars + sizes.purgeBars + sizes.validationBars + sizes.embargoBars + sizes.testBars

def buildValidationFolds : Except Exc (List ValidationFold) := do
  raiseIf (timestamps.length < sizes.required + (sizes.folds - 1) * sizes.testBars)
    (.valueError "dataset is too short for the requested train/validation/test folds")
  (List.range sizes.folds).mapM (buildFold pandas timestamps sizes)

end Build

/-! ## Specifications -/

/-- A window of a fold. -/
inductive Phase
  | train | validation | test
deriving DecidableEq, Repr

/-- The name of a phase. -/
def Phase.value : Phase → String
  | train => "train"
  | validation => "validation"
  | test => "test"

/-- `starts[phase]`. -/
def ValidationFold.start (fold : ValidationFold) : Phase → String
  | .train => fold.trainStart
  | .validation => fold.validationStart
  | .test => fold.testStart

/-- `ends[phase]`. -/
def ValidationFold.end_ (fold : ValidationFold) : Phase → String
  | .train => fold.trainEnd
  | .validation => fold.validationEnd
  | .test => fold.testEnd

section Specifications

variable (hydrate : JsonDict → Except Exc JsonDict)

def nativeSpec (payload : JsonDict) (executionKind : String) (parameterOverrides : JsonDict) :
    Except Exc JsonDict := do
  let experiment ← asMapping (payload.lookup "experiment") "experiment"
  let datasetId ← match experiment.lookup "dataset_id" with
    | some (.text datasetId) =>
      if Backtest.strip Backtest.isSpace datasetId = "" then
        .error (.valueError "experiment.dataset_id is required")
      else .ok datasetId
    | _ => .error (.valueError "experiment.dataset_id is required")
  let strategyVersion ← asMapping (payload.lookup "strategy_version") "strategy_version"
  let executionVersion ← hydrate strategyVersion
  let seed ← (payload.lookup "seed").elim (.error (.keyError "seed")) .ok
  return experiment.update
    [("dataset_id", .text datasetId), ("seed", seed), ("mode", .text "lab_strategy_version"),
      ("lab_execution_kind", .text executionKind),
      ("parameter_overrides", .mapping parameterOverrides),
      ("lab_parameter_bindings", .mapping parameterOverrides),
      ("lab_strategy_version",
        .mapping (executionVersion.put "parameter_overrides" (.mapping parameterOverrides)))]

def windowedNativeSpec (payload : JsonDict) (fold : ValidationFold) (phase : Phase)
    (parameterOverrides : JsonDict) : Except Exc JsonDict := do
  let spec ← nativeSpec hydrate payload "walk_forward" parameterOverrides
  return spec.update [("from", .text (fold.start phase)), ("to", .text (fold.end_ phase)),
      ("lab_phase", .text phase.value), ("lab_fold", .number fold.number)]

end Specifications

/-! ## Runs -/

section Execution

variable (pandas : Pandas)

def timestamp (value : Option Value) (name : String) : Except Exc (Option ℤ) :=
  match value with
  | none => .ok none
  | some .null => .ok none
  | some value =>
    match pandas.timestamp value with
    | .invalid => .error (.valueError (name ++ " must be an ISO-8601 timestamp"))
    | .naive => .error (.valueError (name ++ " must be timezone-aware"))
    | .aware t => .ok (some t)

variable (frame : List ℤ)

/-- `frame.loc[:end]`, if there is an end. -/
def upTo (end_ : Option ℤ) : List ℤ := frame.filter fun t => ∀ e ∈ end_, t ≤ e

def executionWindow (spec : JsonDict) : Except Exc (List ℤ × Option ℤ) := do
  let start ← timestamp pandas (spec.lookup "from") "from"
  let end_ ← timestamp pandas (spec.lookup "to") "to"
  raiseIf (∃ s ∈ start, ∃ e ∈ end_, e ≤ s) (.valueError "from must be earlier than to")
  let selected := upTo frame end_
  raiseIf (selected = []) (.valueError "requested execution window contains no bars")
  raiseIf (∃ s ∈ start, ∃ last ∈ selected.getLast?, last < s)
    (.valueError "requested execution window starts after available data")
  return (selected, start)

/-- The steps from each bar to the next. -/
def steps (index : List ℤ) : List ℤ := (index.tail.zip index).map fun x => x.1 - x.2

def intervalSeconds (index : List ℤ) : Except Exc ℤ :=
  match steps index with
  | [] => .ok 60
  | step :: others => do
    raiseIf (∃ other ∈ others, other ≠ step)
      (.valueError "OHLCV timestamps contain gaps or inconsistent intervals")
    raiseIf (step ≤ 0) (.valueError "OHLCV timestamps must have a positive interval")
    raiseIf (step % 1000000000 ≠ 0) (.valueError
      "native OHLCV bars require whole-second intervals; fractional intervals cannot be truncated")
    return step / 1000000000

/-- `DecisionTrace`: the bar that a decision is taken on, when, and how many bars it is of. -/
structure DecisionTrace where
  bar : ℤ
  timestamp : ℤ
  observedRows : ℕ
deriving DecidableEq, Repr

/-- **`decide`** of the bridge, as far as the bars go. -/
def decideOn (timestamp historyEnd : ℤ) : Except Exc DecisionTrace := do
  let visible := upTo frame (some historyEnd)
  match visible.getLast? with
  | none => .error (.valueError "strategy cannot decide without an active bar")
  | some last =>
    if timestamp < last then .error (.valueError "strategy context would contain future data")
    else return ⟨historyEnd, timestamp, visible.length⟩

/-- **`on_bar`** of the adapter: a bar before the start is passed over. -/
def onBar (interval : ℤ) (decisionStart : Option ℤ) (traces : List DecisionTrace) (bar : ℤ) :
    Except Exc (List DecisionTrace) :=
  if ∃ s ∈ decisionStart, bar < s then .ok traces
  else do
    let trace ← decideOn frame (bar + interval * 1000000000) bar
    return traces ++ [trace]

/-- **A run**: the engine calls `on_bar` with the bars of the frame, one after the other. -/
def decisions (spec : JsonDict) : Except Exc (List DecisionTrace) := do
  let (selected, decisionStart) ← executionWindow pandas frame spec
  let interval ← intervalSeconds selected
  selected.foldlM (onBar selected interval decisionStart) []

end Execution

/-! ## Where the windows are -/

section Windows

variable {pandas : Pandas} {timestamps : List ℤ} {sizes : FoldSizes} {number : ℕ}

/-- The position of the first bar of a window. -/
def FoldSizes.first (sizes : FoldSizes) (number : ℕ) : Phase → ℕ
  | .train => number * sizes.testBars
  | .validation => number * sizes.testBars + sizes.trainBars + sizes.purgeBars
  | .test => number * sizes.testBars + sizes.trainBars + sizes.purgeBars + sizes.validationBars
      + sizes.embargoBars

/-- The number of bars of a window. -/
def FoldSizes.size (sizes : FoldSizes) : Phase → ℕ
  | .train => sizes.trainBars
  | .validation => sizes.validationBars
  | .test => sizes.testBars

/-- **The bars of a window.** -/
def FoldSizes.window (sizes : FoldSizes) (timestamps : List ℤ) (number : ℕ) (phase : Phase) :
    List ℤ :=
  timestamps.slice (sizes.first number phase) (sizes.first number phase + sizes.size phase)

/-- The timeline is long enough. -/
def FoldSizes.Accepts (sizes : FoldSizes) (timestamps : List ℤ) : Prop :=
  sizes.required + (sizes.folds - 1) * sizes.testBars ≤ timestamps.length
deriving Decidable

theorem FoldSizes.size_pos (sizes : FoldSizes) (phase : Phase) : 0 < sizes.size phase := by
  cases phase with
  | train => exact sizes.trainBars_pos
  | validation => exact sizes.validationBars_pos
  | test => exact sizes.testBars_pos

theorem FoldSizes.Accepts.window_le (h : sizes.Accepts timestamps) (hnumber : number < sizes.folds)
    (phase : Phase) : sizes.first number phase + sizes.size phase ≤ timestamps.length := by
  have hfold : number * sizes.testBars ≤ (sizes.folds - 1) * sizes.testBars :=
    Nat.mul_le_mul_right _ (Nat.le_sub_one_of_lt hnumber)
  unfold FoldSizes.Accepts FoldSizes.required at h
  cases phase <;> simp only [FoldSizes.first, FoldSizes.size] <;> omega

/-- What is written down of a window. -/
structure Written (pandas : Pandas) (timestamps : List ℤ) (sizes : FoldSizes) (number : ℕ)
    (fold : ValidationFold) (phase : Phase) (a z : ℤ) : Prop where
  first : timestamps[sizes.first number phase]? = some a
  last : timestamps[sizes.first number phase + sizes.size phase - 1]? = some z
  start : fold.start phase = pandas.isoformat a
  end_ : fold.end_ phase = pandas.isoformat z

/-- The text of a bar of the timeline. -/
def stampOf (pandas : Pandas) (timestamps : List ℤ) (i : ℕ) : String :=
  pandas.isoformat (timestamps.getD i 0)

/-- The fold of a number, when no index is out of range. -/
def FoldSizes.fold (sizes : FoldSizes) (pandas : Pandas) (timestamps : List ℤ) (number : ℕ) :
    ValidationFold :=
  let first := fun phase => stampOf pandas timestamps (sizes.first number phase)
  let last := fun phase =>
    stampOf pandas timestamps (sizes.first number phase + sizes.size phase - 1)
  ⟨number + 1, first .train, last .train, first .validation, last .validation, first .test,
    last .test, sizes.purgeBars, sizes.embargoBars⟩

theorem stampAt_of_lt {i : ℕ} (h : i < timestamps.length) :
    stampAt pandas timestamps i = .ok (stampOf pandas timestamps i) := by
  unfold stampAt stampOf
  rw [getD_eq_getElem?_getD, getElem?_eq_getElem h]
  rfl

section Accepts

variable (h : sizes.Accepts timestamps) (hnumber : number < sizes.folds)

include h hnumber in
/-- The first and the last position of a window are in the timeline. -/
theorem FoldSizes.Accepts.ends_lt (phase : Phase) : sizes.first number phase < timestamps.length
      ∧ sizes.first number phase + sizes.size phase - 1 < timestamps.length := by
  have hle := h.window_le hnumber phase
  have hpos := sizes.size_pos phase
  exact ⟨(Nat.lt_add_of_pos_right hpos).trans_le hle,
    (Nat.sub_lt (Nat.add_pos_right _ hpos) one_pos).trans_le hle⟩

include h hnumber in
/-- **No index is out of range.** -/
theorem buildFold_eq_ok :
    buildFold pandas timestamps sizes number = .ok (sizes.fold pandas timestamps number) := by
  have hends := h.ends_lt hnumber
  refine bind_eq_ok.mpr ⟨_, stampAt_of_lt (hends .train).1, bind_eq_ok.mpr
    ⟨_, stampAt_of_lt (hends .train).2, bind_eq_ok.mpr
      ⟨_, stampAt_of_lt (hends .validation).1, bind_eq_ok.mpr
        ⟨_, stampAt_of_lt (hends .validation).2, bind_eq_ok.mpr
          ⟨_, stampAt_of_lt (hends .test).1, bind_eq_ok.mpr
            ⟨_, stampAt_of_lt (hends .test).2, rfl⟩⟩⟩⟩⟩⟩

variable (pandas) in
include h hnumber in
/-- The texts of a fold are those of the first and the last bars of its windows. -/
theorem written_fold (phase : Phase) :
    ∃ a z, Written pandas timestamps sizes number (sizes.fold pandas timestamps number) phase a
      z := by
  obtain ⟨hfirst, hlast⟩ := h.ends_lt hnumber phase
  refine ⟨_, _, getElem?_eq_getElem hfirst, getElem?_eq_getElem hlast, ?_, ?_⟩
  · rw [← getD_eq_getElem timestamps 0 hfirst]
    cases phase <;> rfl
  · rw [← getD_eq_getElem timestamps 0 hlast]
    cases phase <;> rfl

include h in
/-- **All folds are built.** -/
theorem buildValidationFolds_eq_ok : buildValidationFolds pandas timestamps sizes
    = .ok ((List.range sizes.folds).map (sizes.fold pandas timestamps)) := by
  unfold buildValidationFolds
  rw [raiseIf_bind_of_not (not_lt.mpr h)]
  exact mapM_of_ok fun number hnumber => buildFold_eq_ok h (mem_range.mp hnumber)

include h hnumber in
theorem length_window (phase : Phase) :
    (sizes.window timestamps number phase).length = sizes.size phase := by
  unfold FoldSizes.window
  rw [length_slice (h.window_le hnumber phase), Nat.add_sub_cancel_left]

/-- **The windows of a fold**, in their order, with what is purged and what is under embargo. -/
structure Cut (timestamps : List ℤ) (sizes : FoldSizes) (number : ℕ) : Prop where
  layout : ∃ before purged embargoed after, timestamps = before
    ++ sizes.window timestamps number .train ++ purged
    ++ sizes.window timestamps number .validation ++ embargoed
    ++ sizes.window timestamps number .test ++ after
    ∧ purged.length = sizes.purgeBars ∧ embargoed.length = sizes.embargoBars
  lengths : ∀ phase, (sizes.window timestamps number phase).length = sizes.size phase
  disjoint : ∀ p q, p ≠ q →
    (sizes.window timestamps number p).Disjoint (sizes.window timestamps number q)

theorem FoldSizes.first_validation (sizes : FoldSizes) (number : ℕ) : sizes.first number .validation
      = sizes.first number .train + sizes.size .train + sizes.purgeBars := rfl

theorem FoldSizes.first_test (sizes : FoldSizes) (number : ℕ) : sizes.first number .test
      = sizes.first number .validation + sizes.size .validation + sizes.embargoBars := rfl

variable {m n : ℕ}

variable (hsorted : timestamps.Pairwise (· < ·))
include hsorted

/-- A window that ends before another begins has no bar of it. -/
theorem FoldSizes.window_disjoint {p q : Phase}
    (hle : sizes.first m p + sizes.size p ≤ sizes.first n q) :
    (sizes.window timestamps m p).Disjoint (sizes.window timestamps n q) :=
  slice_disjoint (hsorted.imp ne_of_lt) hle

include h hnumber in
theorem cut : Cut timestamps sizes number := by
  have htrain : sizes.first number .train + sizes.size .train ≤ sizes.first number .validation :=
    sizes.first_validation number ▸ Nat.le_add_right _ _
  have hvalidation : sizes.first number .validation + sizes.size .validation
      ≤ sizes.first number .test := sizes.first_test number ▸ Nat.le_add_right _ _
  have hacross : sizes.first number .train + sizes.size .train ≤ sizes.first number .test :=
    htrain.trans ((Nat.le_add_right _ _).trans hvalidation)
  refine ⟨⟨timestamps.take (sizes.first number .train),
    timestamps.slice (sizes.first number .train + sizes.size .train)
      (sizes.first number .validation),
    timestamps.slice (sizes.first number .validation + sizes.size .validation)
      (sizes.first number .test),
    timestamps.drop (sizes.first number .test + sizes.size .test), ?_, ?_, ?_⟩,
    length_window h hnumber, fun p q hpq => ?_⟩
  · unfold FoldSizes.window
    rw [take_append_slice _ (Nat.le_add_right _ _), take_append_slice _ htrain,
      take_append_slice _ (Nat.le_add_right _ _), take_append_slice _ hvalidation,
      take_append_slice _ (Nat.le_add_right _ _), take_append_drop]
  · rw [length_slice (h.ends_lt hnumber .validation).1.le, sizes.first_validation,
      Nat.add_sub_cancel_left]
  · rw [length_slice (h.ends_lt hnumber .test).1.le, sizes.first_test, Nat.add_sub_cancel_left]
  · cases p <;> cases q
    · exact absurd rfl hpq
    · exact FoldSizes.window_disjoint hsorted htrain
    · exact FoldSizes.window_disjoint hsorted hacross
    · exact fun _ hp hq => FoldSizes.window_disjoint hsorted htrain hq hp
    · exact absurd rfl hpq
    · exact FoldSizes.window_disjoint hsorted hvalidation
    · exact fun _ hp hq => FoldSizes.window_disjoint hsorted hacross hq hp
    · exact fun _ hp hq => FoldSizes.window_disjoint hsorted hvalidation hq hp
    · exact absurd rfl hpq

/-- **The test windows of different folds** follow each other. -/
theorem tests_disjoint (hmn : m < n) :
    (sizes.window timestamps m .test).Disjoint (sizes.window timestamps n .test) := by
  refine FoldSizes.window_disjoint hsorted ?_
  have hfold : (m + 1) * sizes.testBars ≤ n * sizes.testBars := Nat.mul_le_mul_right _ hmn
  rw [Nat.succ_mul] at hfold
  simp only [FoldSizes.first, FoldSizes.size]
  omega

end Accepts

/-! ## What a run decides on -/

theorem windowedNativeSpec_eq_ok {hydrate : JsonDict → Except Exc JsonDict}
    {payload parameterOverrides spec : JsonDict} {fold : ValidationFold} {phase : Phase}
    (h : windowedNativeSpec hydrate payload fold phase parameterOverrides = .ok spec) :
    spec.lookup "from" = some (.text (fold.start phase))
      ∧ spec.lookup "to" = some (.text (fold.end_ phase)) := by
  obtain ⟨native, -, h⟩ := of_bind h
  obtain rfl := ok.inj h
  simp [List.update]

/-- What a decision on a bar leaves behind. -/
def traceOf (frame : List ℤ) (interval t : ℤ) : DecisionTrace :=
  ⟨t, t + interval * 1000000000, (upTo frame (some t)).length⟩

theorem upTo_some (frame : List ℤ) (e : ℤ) : upTo frame (some e) = frame.filter fun t => t ≤ e := by
  unfold upTo
  simp

variable {frame : List ℤ} {t : ℤ}

/-- Up to a bar that is not after the end, the end does not matter. -/
theorem upTo_upTo {z : ℤ} (h : t ≤ z) :
    upTo (upTo frame (some z)) (some t) = upTo frame (some t) := by
  rw [upTo_some, upTo_some, upTo_some, filter_filter]
  refine filter_congr fun x _ => ?_
  simp only [Bool.and_eq_left_iff_imp, decide_eq_true_eq]
  exact fun hx => hx.trans h

variable {interval : ℤ}

/-- A decision on a bar of the frame sees the bars up to it, and raises nothing. -/
theorem decideOn_eq_ok (hsorted : frame.Pairwise (· < ·)) (hinterval : 0 ≤ interval)
    (ht : t ∈ frame) :
    decideOn frame (t + interval * 1000000000) t = .ok (traceOf frame interval t) := by
  have hlast : (upTo frame (some t)).getLast? = some t := by
    rw [upTo_some]
    exact hsorted.getLast?_filter_le ht
  unfold decideOn
  dsimp only
  rw [hlast]
  dsimp only
  rw [if_neg (by omega)]
  rfl

theorem intervalSeconds_nonneg {index : List ℤ} (h : intervalSeconds index = .ok interval) :
    0 ≤ interval := by
  unfold intervalSeconds at h
  split at h
  · obtain rfl := ok.inj h
    norm_num
  · obtain ⟨-, h⟩ := of_raiseIf h
    obtain ⟨hpos, h⟩ := of_raiseIf h
    obtain ⟨-, h⟩ := of_raiseIf h
    obtain rfl := ok.inj h
    omega

variable {a : ℤ}

/-- A bar of the frame is decided on, from the start on. -/
theorem onBar_eq_ok (hsorted : frame.Pairwise (· < ·)) (hinterval : 0 ≤ interval) (ht : t ∈ frame)
    (traces : List DecisionTrace) : onBar frame interval (some a) traces t
      = .ok (if a ≤ t then traces ++ [traceOf frame interval t] else traces) := by
  unfold onBar
  by_cases hbefore : t < a
  · rw [if_pos ⟨a, rfl, hbefore⟩, if_neg (not_le.mpr hbefore)]
  · rw [if_neg (fun ⟨_, ha, hlt⟩ => hbefore (Option.some.inj ha ▸ hlt)), if_pos (not_lt.mp hbefore),
      decideOn_eq_ok hsorted hinterval ht]
    rfl

/-- **The loop of the adapter** decides on the bars from the start on. -/
theorem foldlM_onBar (hsorted : frame.Pairwise (· < ·)) (hinterval : 0 ≤ interval) {bars : List ℤ}
    (hbars : ∀ t ∈ bars, t ∈ frame) (traces : List DecisionTrace) :
    bars.foldlM (onBar frame interval (some a)) traces
      = .ok (traces ++ (bars.filter fun t => a ≤ t).map (traceOf frame interval)) := by
  induction bars generalizing traces with
  | nil =>
    rw [filter_nil, map_nil, append_nil]
    rfl
  | cons t bars ih =>
    rw [forall_mem_cons] at hbars
    rw [foldlM_cons, onBar_eq_ok hsorted hinterval hbars.1, ok_bind, ih hbars.2]
    by_cases hle : a ≤ t
    · rw [if_pos hle, filter_cons_of_pos (by simpa using hle), map_cons,
        append_assoc, singleton_append]
    · rw [if_neg hle, filter_cons_of_neg (by simpa using hle)]

section Run

variable {fold : ValidationFold} {phase : Phase} {a z : ℤ} {spec : JsonDict}

/-- A specification with the texts of a window. -/
structure Windowed (pandas : Pandas) (spec : JsonDict) (a z : ℤ) : Prop where
  from_eq : timestamp pandas (spec.lookup "from") "from" = .ok (some a)
  to_eq : timestamp pandas (spec.lookup "to") "to" = .ok (some z)

theorem windowed_of_written (hread : ∀ t ∈ timestamps, pandas.timestamp (.text (pandas.isoformat t))
      = .aware t) (hwritten : Written pandas timestamps sizes number fold phase a z)
    {hydrate : JsonDict → Except Exc JsonDict} {payload parameterOverrides : JsonDict}
    (h : windowedNativeSpec hydrate payload fold phase parameterOverrides = .ok spec) :
    Windowed pandas spec a z := by
  obtain ⟨hfrom, hto⟩ := windowedNativeSpec_eq_ok h
  have ha := hread a (mem_of_getElem? hwritten.first)
  have hz := hread z (mem_of_getElem? hwritten.last)
  refine ⟨?_, ?_⟩
  · rw [hfrom, hwritten.start]
    show (match pandas.timestamp (.text (pandas.isoformat a)) with
      | .invalid => _ | .naive => _ | .aware t => _) = _
    rw [ha]
  · rw [hto, hwritten.end_]
    show (match pandas.timestamp (.text (pandas.isoformat z)) with
      | .invalid => _ | .naive => _ | .aware t => _) = _
    rw [hz]

section

variable (hwindowed : Windowed pandas spec a z)
include hwindowed

/-- **A window of one bar is refused.** -/
theorem executionWindow_of_le (hle : z ≤ a) (frame : List ℤ) : executionWindow pandas frame spec
      = .error (.valueError "from must be earlier than to") := by
  unfold executionWindow
  rw [hwindowed.from_eq, ok_bind, hwindowed.to_eq, ok_bind]
  exact raiseIf_bind_of ⟨a, rfl, z, rfl, hle⟩

/-- **The frame of a window** has the bars up to its end. -/
theorem executionWindow_of_lt (hlt : a < z)
    {frame : List ℤ} (hsorted : frame.Pairwise (· < ·)) (hz : z ∈ frame) :
    executionWindow pandas frame spec = .ok (upTo frame (some z), some a) := by
  have hlast : (upTo frame (some z)).getLast? = some z := by
    rw [upTo_some]
    exact hsorted.getLast?_filter_le hz
  have hne : upTo frame (some z) ≠ [] := fun hnil => by
    rw [hnil] at hlast
    cases hlast
  unfold executionWindow
  rw [hwindowed.from_eq, ok_bind, hwindowed.to_eq, ok_bind, raiseIf_bind_of_not, raiseIf_bind_of_not
    hne, raiseIf_bind_of_not]
  · rfl
  · rintro ⟨s, hs, last, hlast', hbefore⟩
    obtain rfl := Option.some.inj hs
    obtain rfl := Option.some.inj (hlast.symm.trans hlast')
    exact absurd hbefore (not_lt.mpr hlt.le)
  · rintro ⟨s, hs, e, he, hle⟩
    obtain rfl := Option.some.inj hs
    obtain rfl := Option.some.inj he
    exact absurd hlt (not_lt.mpr hle)

/-- **A run decides on the bars of its window**, where the frame has one interval. -/
theorem decisions_of_lt (hlt : a < z) {frame : List ℤ}
    (hsorted : frame.Pairwise (· < ·)) {i j : ℕ} (ha : frame[i]? = some a)
    (hz : frame[j]? = some z) :
    decisions pandas frame spec = (intervalSeconds (frame.take (j + 1))).map fun interval =>
      (frame.slice i (j + 1)).map (traceOf frame interval) := by
  have hmem : z ∈ frame := mem_of_getElem? hz
  have hselected : upTo frame (some z) = frame.take (j + 1) := by
    rw [upTo_some]
    exact hsorted.filter_le_eq_take hz
  have hsorted' : (frame.take (j + 1)).Pairwise (· < ·) := hsorted.sublist (take_sublist _ _)
  have hij : i < j + 1 := Nat.lt_succ_of_lt ((hsorted.getElem?_lt_iff ha hz).mp hlt)
  unfold decisions
  rw [executionWindow_of_lt hwindowed hlt hsorted hmem, ok_bind, hselected]
  show (intervalSeconds _ >>= fun interval => _) = _
  cases hinterval : intervalSeconds (frame.take (j + 1)) with
  | error e => rfl
  | ok interval =>
    rw [ok_bind, foldlM_onBar hsorted' (intervalSeconds_nonneg hinterval) (fun _ ht => ht),
      nil_append]
    have hwindow : (frame.take (j + 1)).filter (fun t => a ≤ t) = frame.slice i (j + 1) := by
      rw [hsorted'.filter_ge_eq_drop (i := i), drop_take_eq_slice]
      rw [getElem?_take_of_lt hij]
      exact ha
    rw [hwindow]
    refine congrArg Except.ok (map_congr_left fun t ht => ?_)
    obtain ⟨k, -, hk, ht⟩ := mem_slice.mp ht
    have hle : t ≤ z := hsorted.getElem?_le ht hz (Nat.le_of_lt_succ hk)
    unfold traceOf
    rw [← hselected, upTo_upTo hle]

end

/-- What becomes of the run of a window. -/
structure RunOf (pandas : Pandas) (timestamps : List ℤ) (sizes : FoldSizes) (number : ℕ)
    (phase : Phase) (spec : JsonDict) : Prop where
  refused : sizes.size phase = 1 → decisions pandas timestamps spec
    = .error (.valueError "from must be earlier than to")
  decided : 1 < sizes.size phase → decisions pandas timestamps spec
    = (intervalSeconds (timestamps.take (sizes.first number phase + sizes.size phase))).map
      fun interval => (sizes.window timestamps number phase).map (traceOf timestamps interval)

/-- **A run that is not refused decides on the bars of its window**, and on no others. -/
theorem RunOf.bars (h : RunOf pandas timestamps sizes number phase spec)
    {traces : List DecisionTrace} (hrun : decisions pandas timestamps spec = .ok traces) :
    traces.map DecisionTrace.bar = sizes.window timestamps number phase := by
  rcases (Nat.succ_le_of_lt (sizes.size_pos phase)).eq_or_lt with hone | hmany
  · cases (h.refused hone.symm).symm.trans hrun
  · rw [h.decided hmany] at hrun
    cases hinterval : intervalSeconds (timestamps.take (sizes.first number phase
        + sizes.size phase)) with
    | error e =>
      rw [hinterval] at hrun
      cases hrun
    | ok interval =>
      rw [hinterval] at hrun
      obtain rfl := ok.inj hrun
      rw [map_map]
      exact List.map_id _

theorem runOf_of_written (hsorted : timestamps.Pairwise (· < ·))
    (hwritten : Written pandas timestamps sizes number fold phase a z)
    (hwindowed : Windowed pandas spec a z) : RunOf pandas timestamps sizes number phase spec := by
  obtain ⟨hfirst, hlast, -, -⟩ := hwritten
  refine ⟨fun hone => ?_, fun hmany => ?_⟩
  · rw [hone, Nat.add_sub_cancel] at hlast
    have hle : z ≤ a := (Option.some.inj (hlast.symm.trans hfirst)).le
    unfold decisions
    rw [executionWindow_of_le hwindowed hle]
    rfl
  · have hend : sizes.first number phase + sizes.size phase - 1 + 1
        = sizes.first number phase + sizes.size phase := by omega
    have hlt : a < z := hsorted.getElem?_lt hfirst hlast (by omega)
    have hrun := decisions_of_lt hwindowed hlt hsorted hfirst hlast
    rw [hend] at hrun
    exact hrun

end Run

end Windows

/-! ## A sample timeline -/

def hour : ℤ := 3600000000000

/-- The hours of a sample, as pandas writes them down and reads them. -/
def samplePandas : Pandas where
  isoformat t :=
    if t = 0 then "1970-01-01T00:00:00+00:00"
    else if t = hour then "1970-01-01T01:00:00+00:00"
    else "1970-01-01T02:00:00+00:00"
  timestamp
    | .text s =>
      if s = "1970-01-01T00:00:00+00:00" then .aware 0
      else if s = "1970-01-01T01:00:00+00:00" then .aware hour
      else if s = "1970-01-01T02:00:00+00:00" then .aware (2 * hour)
      else .invalid
    | _ => .invalid

def threeHours : List ℤ := [0, hour, 2 * hour]

/-- One bar in each window. -/
def oneBarEach : FoldSizes := ⟨1, 1, 1, 1, 0, 0, one_pos, one_pos, one_pos, one_pos⟩

def samplePayload : JsonDict :=
  [("experiment", .mapping [("dataset_id", .text "d")]), ("strategy_version", .mapping []),
    ("seed", .number 7)]

theorem threeHours_sorted : threeHours.Pairwise (· < ·) := by decide

theorem threeHours_read : ∀ t ∈ threeHours,
    samplePandas.timestamp (.text (samplePandas.isoformat t)) = .aware t := by
  decide

theorem oneBarEach_accepts : oneBarEach.Accepts threeHours := by decide

theorem samplePayload_spec (fold : ValidationFold) :
    ∃ spec, windowedNativeSpec .ok samplePayload fold .train [] = .ok spec := ⟨_, rfl⟩

end Qt.Lab
