import Mathlib.Data.List.Chain
import QuantTrading.Lib.Raise
import QuantTrading.Lib.Slice

/-!
# Validation splits

`btc_backtest.validation.splits`: the bars of an index are cut into training,
purge and test windows, one split after the other, by counting bars. A window is
given by its timestamps and by an interval around them, and while the interval
starts at a bar, its end is a guess: the last bar and the last spacing inside the
window, or a day if the window has a single bar.

Timestamps are microseconds, all in one time zone. The loops are written as the
positions that they visit; a split is then built at each of them.
-/

namespace Qt.Backtest

open Except List

/-! ## Windows and splits -/

/-- What a validator or a split function raises. -/
inductive SplitError
  | valueError (message : String)
  | validationError (message : String)
deriving DecidableEq, Repr

structure Window where
  start : ℤ
  end_ : ℤ
  timestamps : List ℤ
deriving DecidableEq, Repr

/-- `Window(…)`, with its validators. -/
def Window.create (start end_ : ℤ) (timestamps : List ℤ) : Except SplitError Window := do
  raiseIf (¬ timestamps.Pairwise (· ≤ ·)) (.validationError "window timestamps must be sorted")
  raiseIf (¬ timestamps.Nodup) (.validationError "window timestamps must be unique")
  raiseIf (end_ < start) (.validationError "window end must be after or equal to start")
  raiseIf (∃ value ∈ timestamps, value < start ∨ end_ ≤ value)
    (.validationError "window timestamps must be inside interval")
  return ⟨start, end_, timestamps⟩

structure ValidationSplit where
  train : Window
  purge : Window
  test : Window
  nextEligibleStart : ℤ
deriving DecidableEq, Repr

/-- `ValidationSplit(…)`, with its validators. -/
def ValidationSplit.create (train purge test : Window) (nextEligibleStart : ℤ) :
    Except SplitError ValidationSplit := do
  raiseIf (purge.start < train.end_) (.validationError "train window cannot overlap purge window")
  raiseIf (test.start < purge.end_) (.validationError "purge window cannot overlap test window")
  raiseIf (nextEligibleStart < test.end_)
    (.validationError "next eligible start cannot precede test window end")
  return ⟨train, purge, test, nextEligibleStart⟩

/-- `pd.Timedelta(days=1)`. -/
def oneDay : ℤ := 86400000000

variable (values : List ℤ)

/-- The last spacing inside a window. -/
def lastSpacing : ℤ :=
  match values.reverse with
  | last :: previous :: _ => last - previous
  | _ => oneDay

/-- `_step_end`, and `_end` of a window without bars. -/
def stepEnd : Option ℤ := values.getLast?.map (· + lastSpacing values)

def window (values : List ℤ) (fallbackStart : Option ℤ) : Except SplitError Window :=
  match values.head?, stepEnd values with
  | some start, some end_ => Window.create start end_ values
  | _, _ =>
    match fallbackStart with
    | some start => Window.create start start []
    | none => .error (.valueError "non-empty train/test window required")

def nextTime (position : ℕ) : Except SplitError ℤ :=
  match values[position]? with
  | some time => .ok time
  | none =>
    match stepEnd values with
    | some time => .ok time
    | none => .error (.valueError "validation index cannot be empty")

def split (train purge test embargo : List ℤ) (fallbackNext : ℤ) :
    Except SplitError ValidationSplit := do
  let nextEligible := (stepEnd embargo).getD fallbackNext
  let trainWindow ← window train none
  let purgeWindow ← window purge (stepEnd train)
  let testWindow ← window test ((stepEnd purge).or (stepEnd train))
  ValidationSplit.create trainWindow purgeWindow testWindow nextEligible

/-! ## The loops -/

/-- Where the windows of a split begin and end in the index. -/
structure SplitPositions where
  trainStart : ℕ
  trainEnd : ℕ
  purgeEnd : ℕ
  testEnd : ℕ
  embargoEnd : ℕ
deriving DecidableEq, Repr

variable (index : List ℤ)

/-- The split at some positions of the index. -/
def splitAt (p : SplitPositions) : Except SplitError ValidationSplit := do
  let fallbackNext ← nextTime index p.embargoEnd
  split (index.slice p.trainStart p.trainEnd) (index.slice p.trainEnd p.purgeEnd)
    (index.slice p.purgeEnd p.testEnd) (index.slice p.testEnd p.embargoEnd) fallbackNext

/-- The loop of `expanding_splits`, over an index of `n` bars. -/
def expandingPositions (n testBars : ℕ) (htest : 0 < testBars) (testStart : ℕ) :
    List SplitPositions :=
  if testStart + testBars ≤ n then
    ⟨0, testStart, testStart, testStart + testBars, testStart + testBars⟩
      :: expandingPositions n testBars htest (testStart + testBars)
  else []
termination_by n - testStart

/-- The loop of `rolling_splits`. -/
def rollingPositions (n trainBars testBars : ℕ) (htest : 0 < testBars) (trainStart : ℕ) :
    List SplitPositions :=
  if trainStart + trainBars + testBars ≤ n then
    let trainEnd := trainStart + trainBars
    let testEnd := trainEnd + testBars
    ⟨trainStart, trainEnd, trainEnd, testEnd, testEnd⟩
      :: rollingPositions n trainBars testBars htest (trainStart + testBars)
  else []
termination_by n - trainStart

/-- The loop of `purged_splits`. -/
def purgedPositions (n trainBars testBars purgeBars embargoBars : ℕ) (htest : 0 < testBars)
    (trainStart : ℕ) : List SplitPositions :=
  if trainStart + (trainBars + purgeBars + testBars) ≤ n then
    let trainEnd := trainStart + trainBars
    let purgeEnd := trainEnd + purgeBars
    let testEnd := purgeEnd + testBars
    let embargoEnd := min (testEnd + embargoBars) n
    ⟨trainStart, trainEnd, purgeEnd, testEnd, embargoEnd⟩
      :: purgedPositions n trainBars testBars purgeBars embargoBars htest embargoEnd
  else []
termination_by n - trainStart

/-- `_validate_index`, of an index with a time zone. -/
def validateIndex : Except SplitError Unit := do
  raiseIf (¬ index.Pairwise (· ≤ ·)) (.valueError "validation index must be sorted")
  raiseIf (¬ index.Nodup) (.valueError "validation index must be unique")

/-- The message of `_validate_positive`. -/
def notPositive : SplitError := .valueError "train_bars and test_bars must be positive"

def expandingSplits (trainBars testBars : ℤ) : Except SplitError (List ValidationSplit) := do
  validateIndex index
  if h : 0 < trainBars ∧ 0 < testBars then
    (expandingPositions index.length testBars.toNat (by omega) trainBars.toNat).mapM (splitAt index)
  else .error notPositive

def rollingSplits (trainBars testBars : ℤ) : Except SplitError (List ValidationSplit) := do
  validateIndex index
  if h : 0 < trainBars ∧ 0 < testBars then
    (rollingPositions index.length trainBars.toNat testBars.toNat (by omega) 0).mapM (splitAt index)
  else .error notPositive

def purgedSplits (trainBars testBars purgeBars embargoBars : ℤ) :
    Except SplitError (List ValidationSplit) := do
  validateIndex index
  if h : 0 < trainBars ∧ 0 < testBars then do
    raiseIf (purgeBars < 0 ∨ embargoBars < 0)
      (.valueError "purge_bars and embargo_bars must be non-negative")
    (purgedPositions index.length trainBars.toNat testBars.toNat purgeBars.toNat embargoBars.toNat
      (by omega) 0).mapM (splitAt index)
  else .error notPositive

/-! ## What a split should be -/

/-- The window lists exactly the bars of the index in its interval. -/
def Window.Lists (w : Window) (index : List ℤ) : Prop :=
  w.timestamps = index.filter fun t => w.start ≤ t ∧ t < w.end_

/-- **A sound split**: each window lists its bars, and the windows follow one
another. -/
structure ValidationSplit.Sound (index : List ℤ) (s : ValidationSplit) : Prop where
  train : s.train.Lists index
  purge : s.purge.Lists index
  test : s.test.Lists index
  trainPurge : s.train.end_ ≤ s.purge.start
  purgeOrder : s.purge.start ≤ s.purge.end_
  purgeTest : s.purge.end_ ≤ s.test.start
  testOrder : s.test.start ≤ s.test.end_
  testNext : s.test.end_ ≤ s.nextEligibleStart

/-- The last spacing of a window, from position `i` to `j`, is no more than the
spacing between it and the bar that follows. -/
def SpacingFits (i j : ℕ) : Prop :=
  i < j → ∀ next ∈ index[j]?, ∀ last ∈ index[j - 1]?, lastSpacing (index.slice i j) ≤ next - last
deriving Decidable

/-- **The spacings of the windows fit**, and that of a test window at the end of
the index is no more than the last one of the index. -/
@[mk_iff]
structure SplitPositions.Fits (index : List ℤ) (p : SplitPositions) : Prop where
  train : SpacingFits index p.trainStart p.trainEnd
  purge : SpacingFits index p.trainEnd p.purgeEnd
  test : SpacingFits index p.purgeEnd p.testEnd
  last : p.testEnd = index.length →
    lastSpacing (index.slice p.purgeEnd p.testEnd) ≤ lastSpacing index

instance (index : List ℤ) (p : SplitPositions) : Decidable (p.Fits index) :=
  decidable_of_iff' _ (SplitPositions.fits_iff index p)

/-- The windows of a split in an index of `n` bars, of which training and test
are not empty. -/
structure SplitPositions.Within (n : ℕ) (p : SplitPositions) : Prop where
  train : p.trainStart < p.trainEnd
  purge : p.trainEnd ≤ p.purgeEnd
  test : p.purgeEnd < p.testEnd
  embargo : p.testEnd ≤ p.embargoEnd
  length : p.embargoEnd ≤ n

/-! ## One window -/

variable {index}

/-- The last spacing of a strictly sorted window is positive. -/
theorem lastSpacing_pos (h : index.Pairwise (· < ·)) : 0 < lastSpacing index := by
  unfold lastSpacing
  cases hrev : index.reverse with
  | nil => exact (by decide : 0 < oneDay)
  | cons last rest =>
    cases rest with
    | nil => exact (by decide : 0 < oneDay)
    | cons previous rest =>
      have hsorted : (last :: previous :: rest).Pairwise (· > ·) := by
        rw [← hrev]
        exact pairwise_reverse.mpr h
      exact Int.sub_pos_of_lt ((pairwise_cons.mp hsorted).1 previous mem_cons_self)

/-- A window with sorted bars inside its interval is valid. -/
theorem create_eq_ok {start end_ : ℤ} {timestamps : List ℤ} (h : timestamps.Pairwise (· < ·))
    (hle : start ≤ end_) (hinside : ∀ t ∈ timestamps, start ≤ t ∧ t < end_) :
    Window.create start end_ timestamps = .ok ⟨start, end_, timestamps⟩ := by
  have hnodup : timestamps.Nodup := h.imp ne_of_lt
  unfold Window.create
  rw [raiseIf_bind_of_not (not_not.mpr (h.imp le_of_lt)), raiseIf_bind_of_not (not_not.mpr hnodup),
    raiseIf_bind_of_not (not_lt.mpr hle)]
  refine raiseIf_bind_of_not ?_
  rintro ⟨t, ht, hlt | hge⟩
  · exact absurd hlt (not_lt.mpr (hinside t ht).1)
  · exact absurd hge (not_le.mpr (hinside t ht).2)

variable {i j : ℕ}

/-- **A window of bars**: it starts at its first bar and ends its last spacing
after the last one. -/
theorem window_slice (h : index.Pairwise (· < ·)) (hij : i < j) (hj : j ≤ index.length) :
    ∃ first last, index[i]? = some first ∧ index[j - 1]? = some last ∧ first ≤ last
      ∧ stepEnd (index.slice i j) = some (last + lastSpacing (index.slice i j))
      ∧ ∀ fallback, window (index.slice i j) fallback
        = .ok ⟨first, last + lastSpacing (index.slice i j), index.slice i j⟩ := by
  have hi : i < index.length := by omega
  have hlast : j - 1 < index.length := by omega
  have hlength : (index.slice i j).length = j - i := length_slice hj
  have hfirst? : index[i]? = some index[i] := getElem?_eq_getElem hi
  have hlast? : index[j - 1]? = some index[j - 1] := getElem?_eq_getElem hlast
  have hhead : (index.slice i j).head? = some index[i] := by
    rw [head?_eq_getElem?, getElem?_slice (by omega)]
    exact hfirst?
  have hget : (index.slice i j).getLast? = some index[j - 1] := by
    rw [getLast?_eq_getElem?, hlength, getElem?_slice (by omega),
      show i + (j - i - 1) = j - 1 by omega]
    exact hlast?
  have hsorted : (index.slice i j).Pairwise (· < ·) := h.sublist (slice_sublist index i j)
  have hpos := lastSpacing_pos hsorted
  have hend : stepEnd (index.slice i j) = some (index[j - 1] + lastSpacing (index.slice i j)) := by
    unfold stepEnd
    rw [hget]
    rfl
  have hle : index[i] ≤ index[j - 1] := h.getElem?_le hfirst? hlast? (by omega)
  refine ⟨index[i], index[j - 1], hfirst?, hlast?, hle, hend, fun fallback => ?_⟩
  unfold window
  rw [hhead, hend]
  refine create_eq_ok hsorted (by omega) (fun t ht => ?_)
  obtain ⟨k, hik, hkj, hk⟩ := mem_slice.mp ht
  have hbelow : t ≤ index[j - 1] := h.getElem?_le hk hlast? (by omega)
  exact ⟨h.getElem?_le hfirst? hk hik, by omega⟩

theorem window_nil (start : ℤ) : window [] (some start) = .ok ⟨start, start, []⟩ :=
  create_eq_ok List.Pairwise.nil le_rfl (fun _ ht => by cases ht)

variable {last : ℤ}

/-- A window of bars lists them exactly if its last spacing fits. -/
theorem lists_slice_iff (h : index.Pairwise (· < ·)) (hij : i < j) {first : ℤ}
    (hfirst : index[i]? = some first) (hlast : index[j - 1]? = some last) :
    Window.Lists ⟨first, last + lastSpacing (index.slice i j), index.slice i j⟩ index
      ↔ SpacingFits index i j := by
  have hpos := lastSpacing_pos (h.sublist (slice_sublist index i j))
  have hbound : last < last + lastSpacing (index.slice i j) := by omega
  refine Iff.trans eq_comm ((h.filter_eq_slice_iff hij hfirst hlast hbound).trans ?_)
  unfold SpacingFits
  constructor
  · intro hnext _ next hn l hl
    obtain rfl : last = l := Option.some.inj (hlast.symm.trans hl)
    have hle := hnext next hn
    omega
  · intro hfits next hn
    have hle := hfits hij next hn last hlast
    omega

theorem lists_nil (start : ℤ) : Window.Lists ⟨start, start, []⟩ index := by
  refine (filter_eq_nil_iff.mpr (fun t _ ht => ?_)).symm
  obtain ⟨hge, hlt⟩ := of_decide_eq_true ht
  exact absurd hlt (not_lt.mpr hge)

/-! ## One split -/

variable {purge test train : Window}

/-- A split whose windows follow one another is valid, and no other is. -/
theorem create_split_eq_ok {next : ℤ} {s : ValidationSplit} :
    ValidationSplit.create train purge test next = .ok s ↔
      s = ⟨train, purge, test, next⟩ ∧ train.end_ ≤ purge.start ∧ purge.end_ ≤ test.start
        ∧ test.end_ ≤ next := by
  unfold ValidationSplit.create
  rw [raiseIf_bind_eq_ok, raiseIf_bind_eq_ok, raiseIf_bind_eq_ok, not_lt, not_lt, not_lt]
  constructor
  · rintro ⟨h₁, h₂, h₃, h⟩
    exact ⟨(ok.inj h).symm, h₁, h₂, h₃⟩
  · rintro ⟨rfl, h₁, h₂, h₃⟩
    exact ⟨h₁, h₂, h₃, rfl⟩

/-- The bar at which the next split may start, of a split without embargo and
with one. -/
theorem splitAt_eq (p : SplitPositions) {fallbackNext : ℤ}
    (hnext : nextTime index p.embargoEnd = .ok fallbackNext)
    (htrain : window (index.slice p.trainStart p.trainEnd) none = .ok train)
    (hpurge :
      window (index.slice p.trainEnd p.purgeEnd) (stepEnd (index.slice p.trainStart p.trainEnd)) =
      .ok purge)
    (htest : ∀ fallback, window (index.slice p.purgeEnd p.testEnd) fallback = .ok test) :
    splitAt index p = ValidationSplit.create train purge test
      ((stepEnd (index.slice p.testEnd p.embargoEnd)).getD fallbackNext) := by
  unfold splitAt
  rw [hnext, ok_bind]
  unfold split
  rw [htrain, ok_bind, hpurge, ok_bind, htest, ok_bind]

/-- **What a split is**: it starts at its first bar, tests its test bars, and lets
the next split start at the bar after the embargo, or after the end of the
embargo if there is one; and it is built, and sound, exactly if its spacings
fit. -/
structure IsSplit (index : List ℤ) (p : SplitPositions) (s : ValidationSplit) : Prop where
  trainStart : index[p.trainStart]? = some s.train.start
  test : s.test.timestamps = index.slice p.purgeEnd p.testEnd
  next : ∀ t ∈ index[p.embargoEnd]?,
    s.nextEligibleStart ≤ t ↔ SpacingFits index p.testEnd p.embargoEnd
  built : ∀ s', splitAt index p = .ok s' → s' = s
  sound : s.Sound index ↔ p.Fits index
  builds : p.Fits index → splitAt index p = .ok s

/-- The spacing fits if the window ends before the bar that follows. -/
theorem spacingFits_iff (hij : i < j) (hlast : index[j - 1]? = some last) :
    SpacingFits index i j ↔ ∀ t ∈ index[j]?, last + lastSpacing (index.slice i j) ≤ t := by
  unfold SpacingFits
  constructor
  · intro hfits t ht
    have hle := hfits hij t ht last hlast
    omega
  · intro hends _ t ht l hl
    obtain rfl : last = l := Option.some.inj (hlast.symm.trans hl)
    have hle := hends t ht
    omega

theorem spacingFits_self (i : ℕ) : SpacingFits index i i := fun h => absurd h (lt_irrefl i)

section

variable (h : index.Pairwise (· < ·))
include h

/-- **The purge window** keeps between the end of the training window and the
first test bar, if the spacings fit. -/
theorem purge_window (hij : i ≤ j) (hj : j < index.length) (trainEnd : ℤ) :
    ∃ purge, window (index.slice i j) (some trainEnd) = .ok purge ∧ purge.start ≤ purge.end_
      ∧ (purge.Lists index ↔ SpacingFits index i j)
      ∧ ((∀ t ∈ index[i]?, trainEnd ≤ t) → SpacingFits index i j →
        trainEnd ≤ purge.start ∧ ∀ t ∈ index[j]?, purge.end_ ≤ t) := by
  rcases hij.eq_or_lt with rfl | hlt
  · refine ⟨⟨trainEnd, trainEnd, []⟩, ?_, le_rfl, ?_, fun hends _ => ⟨le_rfl, hends⟩⟩
    · rw [slice_self]
      exact window_nil trainEnd
    · exact iff_of_true (lists_nil trainEnd) (spacingFits_self i)
  · obtain ⟨first, last, hfirst, hlast, hle, _, hwindow⟩ := window_slice h hlt hj.le
    have hpos := lastSpacing_pos (h.sublist (slice_sublist index i j))
    refine ⟨_, hwindow _, ?_, lists_slice_iff h hlt hfirst hlast, fun hends hfits => ?_⟩
    · show first ≤ last + lastSpacing (index.slice i j)
      omega
    · exact ⟨hends first hfirst, (spacingFits_iff hlt hlast).mp hfits⟩

/-- **The next start** is not after the bar that follows the embargo if the
spacing of the embargo fits, and not before the end of the test window if that
of the test window does. -/
theorem next_start {d e : ℕ} (hd : 0 < d) (hde : d ≤ e)
    (he : e ≤ index.length) (hlast : index[d - 1]? = some last) :
    ∃ fallbackNext, nextTime index e = .ok fallbackNext
      ∧ (∀ t ∈ index[e]?, (stepEnd (index.slice d e)).getD fallbackNext ≤ t ↔ SpacingFits index d e)
      ∧ (d < index.length → ∀ b, (∀ t ∈ index[d]?, b ≤ t) →
        b ≤ (stepEnd (index.slice d e)).getD fallbackNext)
      ∧ (d = index.length →
        (stepEnd (index.slice d e)).getD fallbackNext = last + lastSpacing index) := by
  -- the end of the whole index, which is a slice of itself
  have hwhole : index.slice 0 index.length = index := by
    unfold List.slice
    rw [drop_zero, Nat.sub_zero, take_length]
  obtain ⟨_, final, _, hfinal, _, hend, _⟩ := window_slice h (i := 0) (j := index.length)
    (by omega) le_rfl
  rw [hwhole] at hend
  have hfallback : ∃ fallbackNext, nextTime index e = .ok fallbackNext
      ∧ (∀ t ∈ index[e]?, fallbackNext = t)
      ∧ (e = index.length → fallbackNext = final + lastSpacing index) := by
    unfold nextTime
    cases ht : index[e]? with
    | some t =>
      refine ⟨t, rfl, fun t' ht' => Option.some.inj ht', fun hlen => ?_⟩
      have hlt := (List.getElem?_eq_some_iff.mp ht).1
      omega
    | none =>
      refine ⟨final + lastSpacing index, ?_, (fun _ ht => by cases ht), fun _ => rfl⟩
      rw [hend]
  obtain ⟨fallbackNext, hnext, hbar, hover⟩ := hfallback
  refine ⟨fallbackNext, hnext, ?_⟩
  rcases hde.eq_or_lt with rfl | hlt
  · rw [slice_self, show stepEnd ([] : List ℤ) = none from rfl, Option.getD_none]
    refine ⟨fun t ht => ?_, fun hlen b hb => ?_, fun hlen => ?_⟩
    · exact iff_of_true (hbar t ht).le (spacingFits_self d)
    · have hget : index[d]? = some index[d] := getElem?_eq_getElem hlen
      exact (hb _ hget).trans_eq (hbar _ hget).symm
    · have hsame : final = last := by
        rw [hlen] at hlast
        exact Option.some.inj (hfinal.symm.trans hlast)
      rw [hover hlen, hsame]
  · obtain ⟨first, final', hfirst, hfinal', hle, hstep, _⟩ := window_slice h hlt he
    have hpos := lastSpacing_pos (h.sublist (slice_sublist index d e))
    rw [hstep, Option.getD_some]
    refine ⟨fun t ht => ?_, fun _ b hb => ?_, fun hlen => by omega⟩
    · rw [spacingFits_iff hlt hfinal']
      constructor
      · intro hle t' ht'
        obtain rfl : t = t' := Option.some.inj (ht.symm.trans ht')
        exact hle
      · exact fun hends => hends t ht
    · have hbound := hb first hfirst
      omega

theorem exists_isSplit {p : SplitPositions}
    (hp : p.Within index.length) : ∃ s, IsSplit index p s := by
  have hpurge := hp.purge
  have htest := hp.test
  have hembargo := hp.embargo
  have hlength := hp.length
  obtain ⟨a, z₁, ha, hz₁, _, hend₁, hwindow₁⟩ := window_slice h hp.train (by omega)
  obtain ⟨c, z₃, hc, hz₃, hle₃, _, hwindow₃⟩ := window_slice h hp.test (by omega)
  have hpos₃ := lastSpacing_pos (h.sublist (slice_sublist index p.purgeEnd p.testEnd))
  obtain ⟨purge, hwindow₂, hle₂, hlists₂, hkeeps⟩ := purge_window h hp.purge (by omega)
    (z₁ + lastSpacing (index.slice p.trainStart p.trainEnd))
  obtain ⟨fallbackNext, hfallback, hnext, hafter, hover⟩ := next_start h
    (by omega) hp.embargo hp.length hz₃
  have hsplit := splitAt_eq p hfallback (hwindow₁ none) (hend₁ ▸ hwindow₂) hwindow₃
  -- a sound split has the order that its validator asks for
  have hsound : p.Fits index → ValidationSplit.Sound index
      ⟨⟨a, z₁ + lastSpacing (index.slice p.trainStart p.trainEnd),
          index.slice p.trainStart p.trainEnd⟩, purge,
        ⟨c, z₃ + lastSpacing (index.slice p.purgeEnd p.testEnd), index.slice p.purgeEnd p.testEnd⟩,
        (stepEnd (index.slice p.testEnd p.embargoEnd)).getD fallbackNext⟩ := by
    intro hfits
    obtain ⟨hstart, hstop⟩ := hkeeps ((spacingFits_iff hp.train hz₁).mp hfits.train) hfits.purge
    refine ⟨(lists_slice_iff h hp.train ha hz₁).mpr hfits.train, hlists₂.mpr hfits.purge,
      (lists_slice_iff h hp.test hc hz₃).mpr hfits.test, hstart, hle₂, hstop c hc, ?_, ?_⟩
    · show c ≤ z₃ + lastSpacing (index.slice p.purgeEnd p.testEnd)
      omega
    · rcases (show p.testEnd ≤ index.length by omega).eq_or_lt with hlast | hlt
      · rw [hover hlast]
        exact Int.add_le_add_left (hfits.last hlast) z₃
      · exact hafter hlt _ ((spacingFits_iff hp.test hz₃).mp hfits.test)
  refine ⟨_, ha, rfl, hnext, fun s' hs' => (create_split_eq_ok.mp (hsplit ▸ hs')).1,
    ⟨fun hs => ⟨?_, ?_, ?_, fun hlast => ?_⟩, hsound⟩, fun hfits => ?_⟩
  · exact (lists_slice_iff h hp.train ha hz₁).mp hs.train
  · exact hlists₂.mp hs.purge
  · exact (lists_slice_iff h hp.test hc hz₃).mp hs.test
  · have hle := hs.testNext
    rw [hover hlast] at hle
    exact Int.le_of_add_le_add_left hle
  · have hs := hsound hfits
    exact hsplit.trans (create_split_eq_ok.mpr ⟨rfl, hs.trainPurge, hs.purgeTest, hs.testNext⟩)

end

/-! ## All splits -/

/-- **The function returns**, with sound splits that test no bar twice. -/
def Returns (index : List ℤ) (out : Except SplitError (List ValidationSplit)) : Prop :=
  ∃ splits, out = .ok splits ∧ (∀ s ∈ splits, s.Sound index)
    ∧ splits.Pairwise fun s s' => s.test.timestamps.Disjoint s'.test.timestamps

/-- The function returns splits that start where the one before lets them. -/
def Eligible (out : Except SplitError (List ValidationSplit)) : Prop :=
  ∃ splits, out = .ok splits ∧ splits.IsChain fun s s' => s.nextEligibleStart ≤ s'.train.start

/-- Positions that a loop may visit: the windows are within the index, and the
test windows follow one another. -/
structure Visits (n : ℕ) (ps : List SplitPositions) : Prop where
  within : ∀ p ∈ ps, p.Within n
  apart : ps.Pairwise fun p p' => p.testEnd ≤ p'.purgeEnd

theorem exists_splitOf (h : index.Pairwise (· < ·)) : ∃ splitOf : SplitPositions → ValidationSplit,
      ∀ p, p.Within index.length → IsSplit index p (splitOf p) := by
  refine Classical.axiomOfChoice (r := fun p s => p.Within index.length → IsSplit index p s)
    (fun p => ?_)
  by_cases hp : p.Within index.length
  · obtain ⟨s, hs⟩ := exists_isSplit h hp
    exact ⟨s, fun _ => hs⟩
  · exact ⟨⟨⟨0, 0, []⟩, ⟨0, 0, []⟩, ⟨0, 0, []⟩, 0⟩, fun hp' => absurd hp' hp⟩

variable {ps : List SplitPositions}

/-- **The splits at some positions** are built, and sound, exactly if their
spacings fit. -/
theorem returns_iff (h : index.Pairwise (· < ·)) (hps : Visits index.length ps) :
    Returns index (ps.mapM (splitAt index)) ↔ ∀ p ∈ ps, p.Fits index := by
  obtain ⟨splitOf, hsplitOf⟩ := exists_splitOf h
  have hbuilt : ∀ p ∈ ps, ∀ s, splitAt index p = .ok s → s = splitOf p :=
    fun p hp => (hsplitOf p (hps.within p hp)).built
  constructor
  · rintro ⟨splits, hok, hsound, _⟩ p hp
    obtain ⟨rfl, _⟩ := (mapM_eq_ok hbuilt).mp hok
    exact (hsplitOf p (hps.within p hp)).sound.mp (hsound _ (mem_map_of_mem hp))
  · intro hfits
    refine ⟨ps.map splitOf, (mapM_eq_ok hbuilt).mpr ⟨rfl, fun p hp => ?_⟩, ?_, ?_⟩
    · exact (hsplitOf p (hps.within p hp)).builds (hfits p hp)
    · rw [forall_mem_map]
      exact fun p hp => (hsplitOf p (hps.within p hp)).sound.mpr (hfits p hp)
    · rw [pairwise_map]
      refine hps.apart.imp_of_mem (fun {p p'} hp hp' hle => ?_)
      rw [(hsplitOf p (hps.within p hp)).test, (hsplitOf p' (hps.within p' hp')).test]
      exact slice_disjoint (h.imp ne_of_lt) hle

/-- **The splits are eligible** exactly if the spacings of the embargoes that
another split follows fit. -/
theorem eligible_iff (h : index.Pairwise (· < ·)) (hps : Visits index.length ps)
    (hnext : ps.IsChain fun p p' => p'.trainStart = p.embargoEnd) (hfits : ∀ p ∈ ps, p.Fits index) :
    Eligible (ps.mapM (splitAt index))
      ↔ ps.IsChain fun p _ => SpacingFits index p.testEnd p.embargoEnd := by
  obtain ⟨splitOf, hsplitOf⟩ := exists_splitOf h
  have hbuilt : ∀ p ∈ ps, ∀ s, splitAt index p = .ok s → s = splitOf p :=
    fun p hp => (hsplitOf p (hps.within p hp)).built
  have hok : ps.mapM (splitAt index) = .ok (ps.map splitOf) :=
    (mapM_eq_ok hbuilt).mpr ⟨rfl, fun p hp => (hsplitOf p (hps.within p hp)).builds (hfits p hp)⟩
  have hchain : Eligible (ps.mapM (splitAt index)) ↔
      ps.IsChain fun p p' => (splitOf p).nextEligibleStart ≤ (splitOf p').train.start := by
    unfold Eligible
    rw [hok]
    constructor
    · rintro ⟨splits, heq, hc⟩
      cases heq
      exact (isChain_map splitOf).mp hc
    · exact fun hc => ⟨_, rfl, (isChain_map splitOf).mpr hc⟩
  rw [hchain]
  clear hchain hok hbuilt hfits
  -- two splits in a row, and the rest
  induction ps with
  | nil => exact iff_of_true .nil .nil
  | cons p ps ih =>
    cases ps with
    | nil => exact iff_of_true (.singleton _) (.singleton _)
    | cons p' ps =>
      rw [isChain_cons_cons] at hnext
      have hrest : Visits index.length (p' :: ps) :=
        ⟨fun q hq => hps.within q (mem_cons_of_mem _ hq), (pairwise_cons.mp hps.apart).2⟩
      rw [isChain_cons_cons, isChain_cons_cons]
      have hstart := (hsplitOf p' (hrest.within p' mem_cons_self)).trainStart
      rw [hnext.1] at hstart
      exact and_congr ((hsplitOf p (hps.within p mem_cons_self)).next _ hstart) (ih hrest hnext.2)

/-! ## The positions that the loops visit -/

theorem visits_nil (n : ℕ) : Visits n [] := ⟨forall_mem_nil _, .nil⟩

variable {n testBars : ℕ}

/-- The loop of `expanding_splits` tests one window after the other. -/
theorem visits_expanding (htest : 0 < testBars) (testStart : ℕ) (htrain : 0 < testStart) :
    Visits n (expandingPositions n testBars htest testStart)
      ∧ ∀ p ∈ expandingPositions n testBars htest testStart, testStart ≤ p.purgeEnd := by
  induction testStart using expandingPositions.induct n testBars htest with
  | case1 testStart hle ih =>
    obtain ⟨⟨hwithin, hapart⟩, hfrom⟩ := ih (by omega)
    rw [expandingPositions, if_pos hle]
    refine ⟨⟨?_, pairwise_cons.mpr ⟨hfrom, hapart⟩⟩, ?_⟩
    · exact forall_mem_cons.mpr
        ⟨⟨htrain, le_rfl, Nat.lt_add_of_pos_right htest, le_rfl, hle⟩, hwithin⟩
    · exact forall_mem_cons.mpr ⟨le_rfl, fun p hp => (Nat.le_add_right _ _).trans (hfrom p hp)⟩
  | case2 testStart hlt =>
    rw [expandingPositions, if_neg hlt]
    exact ⟨visits_nil n, forall_mem_nil _⟩

variable {trainBars : ℕ}

/-- The loop of `rolling_splits` tests one window after the other. -/
theorem visits_rolling (htrain : 0 < trainBars) (htest : 0 < testBars) (trainStart : ℕ) :
    Visits n (rollingPositions n trainBars testBars htest trainStart)
      ∧ ∀ p ∈ rollingPositions n trainBars testBars htest trainStart,
        trainStart + trainBars ≤ p.purgeEnd := by
  induction trainStart using rollingPositions.induct n trainBars testBars htest with
  | case1 trainStart hle ih =>
    obtain ⟨⟨hwithin, hapart⟩, hfrom⟩ := ih
    rw [rollingPositions, if_pos hle]
    refine ⟨⟨?_, pairwise_cons.mpr ⟨fun p hp => ?_, hapart⟩⟩, ?_⟩
    · exact forall_mem_cons.mpr ⟨⟨Nat.lt_add_of_pos_right htrain, le_rfl,
        Nat.lt_add_of_pos_right htest, le_rfl, hle⟩, hwithin⟩
    · have hbound := hfrom p hp
      show trainStart + trainBars + testBars ≤ p.purgeEnd
      omega
    · refine forall_mem_cons.mpr ⟨le_rfl, fun p hp => ?_⟩
      have hbound := hfrom p hp
      omega
  | case2 trainStart hlt =>
    rw [rollingPositions, if_neg hlt]
    exact ⟨visits_nil n, forall_mem_nil _⟩

/-- The loop of `purged_splits` tests one window after the other, and trains from
the end of each embargo. -/
theorem visits_purged {purgeBars embargoBars : ℕ} (htrain : 0 < trainBars) (htest : 0 < testBars)
    (trainStart : ℕ) :
    Visits n (purgedPositions n trainBars testBars purgeBars embargoBars htest trainStart)
      ∧ (∀ p ∈ purgedPositions n trainBars testBars purgeBars embargoBars htest trainStart,
        trainStart ≤ p.purgeEnd)
      ∧ (∀ p ∈ (purgedPositions n trainBars testBars purgeBars embargoBars htest trainStart).head?,
        p.trainStart = trainStart)
      ∧ (purgedPositions n trainBars testBars purgeBars embargoBars htest trainStart).IsChain
        fun p p' => p'.trainStart = p.embargoEnd := by
  induction trainStart using
    purgedPositions.induct n trainBars testBars purgeBars embargoBars htest with
  | case1 trainStart hle trainEnd purgeEnd testEnd embargoEnd ih =>
    obtain ⟨⟨hwithin, hapart⟩, hfrom, hhead, hchain⟩ := ih
    rw [purgedPositions, if_pos hle]
    have htestEnd : testEnd ≤ embargoEnd := le_min (Nat.le_add_right _ _) (by omega)
    refine ⟨⟨?_, pairwise_cons.mpr ⟨fun p hp => ?_, hapart⟩⟩, ?_, ?_, ?_⟩
    · exact forall_mem_cons.mpr ⟨⟨Nat.lt_add_of_pos_right htrain, Nat.le_add_right _ _,
        Nat.lt_add_of_pos_right htest, htestEnd, min_le_right _ _⟩, hwithin⟩
    · exact htestEnd.trans (hfrom p hp)
    · refine forall_mem_cons.mpr ⟨?_, fun p hp => ?_⟩
      · show trainStart ≤ trainStart + trainBars + purgeBars
        omega
      · exact (show trainStart ≤ testEnd by omega).trans (htestEnd.trans (hfrom p hp))
    · intro p hp
      cases hp
      rfl
    · exact isChain_cons.mpr ⟨hhead, hchain⟩
  | case2 trainStart hlt =>
    rw [purgedPositions, if_neg hlt]
    exact ⟨visits_nil n, forall_mem_nil _, (fun _ hp => by cases hp), .nil⟩

/-- **Validation splits.** On every strictly sorted index, each function returns
sound splits, and no bar is tested twice, exactly if the spacings of the windows
fit at every position that its loop visits; and then the splits of
`purged_splits` start where the one before lets them exactly if those of the
embargoes between them do. -/
theorem validation_splits {index : List ℤ} (h : index.Pairwise (· < ·))
    {trainBars testBars purgeBars embargoBars : ℤ} (htrain : 0 < trainBars) (htest : 0 < testBars)
    (hpurge : 0 ≤ purgeBars) (hembargo : 0 ≤ embargoBars) :
    (Returns index (expandingSplits index trainBars testBars) ↔
      ∀ p ∈ expandingPositions index.length testBars.toNat (by omega) trainBars.toNat,
        p.Fits index)
    ∧ (Returns index (rollingSplits index trainBars testBars) ↔
      ∀ p ∈ rollingPositions index.length trainBars.toNat testBars.toNat (by omega) 0, p.Fits index)
    ∧ (Returns index (purgedSplits index trainBars testBars purgeBars embargoBars)
        ∧ Eligible (purgedSplits index trainBars testBars purgeBars embargoBars) ↔
      (∀ p ∈ purgedPositions index.length trainBars.toNat testBars.toNat purgeBars.toNat
        embargoBars.toNat (by omega) 0, p.Fits index)
      ∧ (purgedPositions index.length trainBars.toNat testBars.toNat purgeBars.toNat
        embargoBars.toNat (by omega) 0).IsChain
        fun p _ => SpacingFits index p.testEnd p.embargoEnd) := by
  have hnodup : index.Nodup := h.imp ne_of_lt
  have hvalid : validateIndex index = .ok () := by
    unfold validateIndex
    rw [raiseIf_bind_of_not (not_not.mpr (h.imp le_of_lt))]
    exact raiseIf_eq_ok.mpr (not_not.mpr hnodup)
  have htrain' : 0 < trainBars.toNat := by omega
  have htest' : 0 < testBars.toNat := by omega
  refine ⟨?_, ?_, ?_⟩
  · unfold expandingSplits
    rw [hvalid, ok_bind, dif_pos ⟨htrain, htest⟩]
    exact returns_iff h (visits_expanding _ _ htrain').1
  · unfold rollingSplits
    rw [hvalid, ok_bind, dif_pos ⟨htrain, htest⟩]
    exact returns_iff h (visits_rolling htrain' _ 0).1
  · unfold purgedSplits
    rw [hvalid, ok_bind, dif_pos ⟨htrain, htest⟩, raiseIf_bind_of_not (by omega)]
    obtain ⟨hvisits, _, _, hnext⟩ := visits_purged (n := index.length) htrain' htest' 0
    rw [returns_iff h hvisits]
    exact and_congr_right (fun hfits => eligible_iff h hvisits hnext hfits)

namespace Sample

def bars (spacing : ℤ) (n : ℕ) : List ℤ := (List.range n).map fun i => spacing * (i : ℤ)

def hour : ℤ := 3600000000

end Sample

/-- The theorem on daily bars, with a purge bar and an embargo bar. -/
theorem validation_splits_daily :
    Returns (Sample.bars oneDay 14) (purgedSplits (Sample.bars oneDay 14) 3 2 1 1)
    ∧ Eligible (purgedSplits (Sample.bars oneDay 14) 3 2 1 1) :=
  (validation_splits (by decide +kernel) (by decide) (by decide) (by decide) (by decide)).2.2.mpr
    ⟨by decide +kernel, by decide +kernel⟩

/-- On hourly bars the windows of one bar overlap, and raise; and the embargo of
one bar is a day long, of which the next split knows nothing. -/
theorem hourly_splits :
    ¬ Returns (Sample.bars Sample.hour 3) (rollingSplits (Sample.bars Sample.hour 3) 1 1)
    ∧ ¬ Eligible (purgedSplits (Sample.bars Sample.hour 9) 2 2 0 1) := by
  constructor
  · rintro ⟨splits, hok, _⟩
    have hraises : (rollingSplits (Sample.bars Sample.hour 3) 1 1).toOption = none := by
      decide +kernel
    rw [hok] at hraises
    cases hraises
  · rintro ⟨splits, hok, hchain⟩
    have hearly : ((purgedSplits (Sample.bars Sample.hour 9) 2 2 0 1).toOption.map fun splits =>
        decide (splits.IsChain fun s s' => s.nextEligibleStart ≤ s'.train.start)) = some false := by
      decide +kernel
    rw [hok] at hearly
    exact absurd hchain (of_decide_eq_false (Option.some.inj hearly))

end Qt.Backtest
