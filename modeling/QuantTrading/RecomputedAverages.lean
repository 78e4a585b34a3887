import Mathlib.Data.List.DropRight
import QuantTrading.TrendStrategies

/-!
# Incremental moving averages

`SMACrossover` of `btc_backtest.strategies.moving_average` keeps the closes of its two windows,
their sums and the averages of the last two bars, and is shown the whole history once, then one bar
at a time. `_CrossoverStrategy.target_weight`, which it overrides, computes both averages anew from
the whole history at each bar.

`Windows` says what is kept: of all closes so far, whoever has shown them, the last ones, their sum,
and the averages with and without the last close. So `smaCrossover_recomputed` follows bar by bar.
-/

namespace Qt.Backtest

open Series List

/-! ## Averages of the last values -/

variable {w : ℕ}

/-- **The last values, with one more.** A full window loses its first. -/
theorem rtake_concat {α : Type} (hw : 0 < w) (xs : List α) (x : α) : (xs ++ [x]).rtake w
      = if (xs.rtake w).length = w then (xs.rtake w).tail ++ [x] else xs.rtake w ++ [x] := by
  obtain ⟨w, rfl⟩ := Nat.exists_eq_add_one.mpr hw
  rw [rtake_concat_succ, List.rtake, List.rtake, tail_drop, length_drop]
  split_ifs with hfull
  · congr 2
    omega
  · rw [show xs.length - w = 0 by omega, show xs.length - (w + 1) = 0 by omega]

/-- The average of the last `w` values, when there are as many. -/
def average (w : ℕ) (xs : List ℚ) : Option ℚ :=
  if xs.length < w then none else some ((xs.rtake w).sum / w)

theorem average_nil (hw : 0 < w) : average w [] = none := if_pos hw

/-- **The last two values of `sma`.** -/
theorem lastTwo_sma (hw : 0 < w) (xs : List ℚ) : (sma (ofValues xs) w).lastTwo
      = (average w xs.dropLast).bind fun previous => (average w xs).map (previous, ·) := by
  have hentry : ∀ i, i < xs.length →
      entry (sma (ofValues xs) w) i = average w (xs.take (i + 1)) := by
    intro i hi
    have hlen : (xs.take (i + 1)).length = i + 1 := length_take_of_le hi
    rw [sma, entry_rolling_ofValues w _ hi, average, List.rtake, hlen]
  unfold lastTwo last
  rw [sma, length_rolling, length_ofValues, ← sma]
  by_cases hshort : xs.length < 2
  · have hnil : xs.dropLast = [] := eq_nil_of_length_eq_zero (by simp; omega)
    rw [if_pos hshort, hnil, average_nil hw, Option.bind_none]
  · rw [if_neg hshort, hentry _ (by omega), hentry _ (by omega),
      show xs.length - 2 + 1 = xs.length - 1 by omega,
      show xs.length - 1 + 1 = xs.length by omega, take_length, ← dropLast_eq_take]

/-! ## What is kept -/

namespace SMAState

variable {params : CrossoverParams} {xs : List ℚ} {st : SMAState}

/-- **What is kept** of the closes so far. -/
structure Windows (params : CrossoverParams) (xs : List ℚ) (st : SMAState) : Prop where
  fastValues : st.fastValues = xs.rtake params.fastWindow
  slowValues : st.slowValues = xs.rtake params.slowWindow
  fastSum : st.fastSum = st.fastValues.sum
  slowSum : st.slowSum = st.slowValues.sum
  currentFast : st.currentFast = average params.fastWindow xs
  currentSlow : st.currentSlow = average params.slowWindow xs
  previousFast : st.previousFast = average params.fastWindow xs.dropLast
  previousSlow : st.previousSlow = average params.slowWindow xs.dropLast

theorem fastWindow_pos (params : CrossoverParams) : 0 < params.fastWindow :=
  lt_of_lt_of_le two_pos params.fast_mem.1

theorem slowWindow_pos (params : CrossoverParams) : 0 < params.slowWindow :=
  lt_of_lt_of_le three_pos params.slow_mem.1

theorem windows_initial (params : CrossoverParams) : initial.Windows params [] where
  fastValues := (rtake_nil _).symm
  slowValues := (rtake_nil _).symm
  fastSum := rfl
  slowSum := rfl
  currentFast := (average_nil (fastWindow_pos params)).symm
  currentSlow := (average_nil (slowWindow_pos params)).symm
  previousFast := (average_nil (fastWindow_pos params)).symm
  previousSlow := (average_nil (slowWindow_pos params)).symm

variable {w : ℕ}

theorem pushBounded_rtake (hw : 0 < w) (xs : List ℚ) (x : ℚ) :
    pushBounded w (xs.rtake w) x = (xs ++ [x]).rtake w := by
  rw [rtake_concat hw]
  rfl

theorem sum_pushBounded (hw : 0 < w) (values : List ℚ) (x : ℚ) :
    (if values.length = w then values.sum - values.headD 0 else values.sum) + x
      = (pushBounded w values x).sum := by
  unfold pushBounded
  split_ifs with hfull
  · cases values with
    | nil => exact absurd hfull hw.ne
    | cons y values => simp
  · simp

theorem average_concat (xs : List ℚ) :
    (if (xs.rtake w).length = w then some ((xs.rtake w).sum / (w : ℚ)) else none)
      = average w xs := by
  rw [average, List.rtake, length_drop]
  split_ifs with hfull hshort hshort
  · omega
  · rfl
  · rfl
  · omega

variable (h : st.Windows params xs)
include h

/-- **One close more.** -/
theorem Windows.appendClose (close : ℚ) :
    (st.appendClose params close).Windows params (xs ++ [close]) := by
  have hfast := pushBounded_rtake (fastWindow_pos params) xs close
  have hslow := pushBounded_rtake (slowWindow_pos params) xs close
  have hfastSum := sum_pushBounded (fastWindow_pos params) st.fastValues close
  have hslowSum := sum_pushBounded (slowWindow_pos params) st.slowValues close
  rw [← h.fastSum] at hfastSum
  rw [← h.slowSum] at hslowSum
  rw [← h.fastValues] at hfast
  rw [← h.slowValues] at hslow
  have hlast : (xs ++ [close]).dropLast = xs := dropLast_concat
  refine ⟨hfast, hslow, hfastSum, hslowSum, ?_, ?_, h.currentFast.trans (by rw [hlast]),
    h.currentSlow.trans (by rw [hlast])⟩
  · show (if _ then some (_ / _) else none) = _
    rw [hfastSum, hfast, average_concat]
  · show (if _ then some (_ / _) else none) = _
    rw [hslowSum, hslow, average_concat]

/-- **Any number of closes more.** -/
theorem Windows.foldl (closes : List ℚ) :
    (closes.foldl (SMAState.appendClose params) st).Windows params (xs ++ closes)
      ∧ (closes.foldl (SMAState.appendClose params) st).target = st.target := by
  induction closes generalizing xs st with
  | nil => exact ⟨by simpa using h, rfl⟩
  | cons close closes ih =>
    have hnext := ih (h.appendClose close)
    rw [append_assoc] at hnext
    exact hnext

theorem Windows.follow : st.follow.Windows params xs :=
  ⟨h.fastValues, h.slowValues, h.fastSum, h.slowSum, h.currentFast, h.currentSlow, h.previousFast,
    h.previousSlow⟩

/-- **What follows is the rule over the averages computed anew.** -/
theorem Windows.followed :
    st.followed = followCross (sma (ofValues xs) params.fastWindow)
      (sma (ofValues xs) params.slowWindow) st.target := by
  unfold SMAState.followed followCross crossedAbove crossedBelow
  rw [lastTwo_sma (fastWindow_pos params), lastTwo_sma (slowWindow_pos params), h.previousFast,
    h.previousSlow, h.currentFast, h.currentSlow]
  cases average params.fastWindow xs.dropLast <;> cases average params.slowWindow xs.dropLast <;>
    cases average params.fastWindow xs <;> cases average params.slowWindow xs <;> simp

/-- What a call feeds: all that is shown at first, and one close after that. -/
theorem Windows.feed_single (hxs : xs ≠ []) (close : ℚ) :
    st.feed params [close] = st.appendClose params close := by
  have hne : st.slowValues ≠ [] := by
    have hpos := slowWindow_pos params
    have hlength := length_pos_iff.mpr hxs
    rw [h.slowValues, List.rtake, ne_eq, drop_eq_nil_iff]
    omega
  exact if_neg hne

end SMAState

/-! ## The rule at each bar -/

variable (params : CrossoverParams)

/-- `_CrossoverStrategy.target_weight` with the averages of `SMACrossover`, which `SMACrossover`
overrides. -/
def smaRecomputed : TargetWeightStrategy where
  State := ℚ
  warmupBars := params.slowWindow + 1
  requiresFullHistory := true
  initial := 0
  targetWeight target bars :=
    let next := followCross (sma (closes bars) params.fastWindow)
      (sma (closes bars) params.slowWindow) target
    (next, next)

/-- The target of the rule after `n` bars, each with the whole history up to it. -/
def recomputed (params : CrossoverParams) (bars : List Bar) : ℕ → ℚ
  | 0 => 0
  | n + 1 => followCross (sma (closes (bars.take (n + 1))) params.fastWindow)
      (sma (closes (bars.take (n + 1))) params.slowWindow) (recomputed params bars n)

variable (bars : List Bar)

/-- Before the warm-up the rule has nothing to compare. -/
theorem recomputed_of_le {n : ℕ} (h : n ≤ params.slowWindow) : recomputed params bars n = 0 := by
  induction n with
  | zero => rfl
  | succ n ih =>
    have hshort : average params.slowWindow ((bars.take (n + 1)).map Bar.close).dropLast = none :=
      if_pos (by simp; omega)
    have hblank : (sma (closes (bars.take (n + 1))) params.slowWindow).lastTwo = none := by
      rw [closes, lastTwo_sma (SMAState.slowWindow_pos params), hshort, Option.bind_none]
    rw [recomputed, followCross_of_blank_right hblank, ih (Nat.le_of_succ_le h)]

/-- **The rule, as `EventRunner` runs it.** -/
theorem targets_smaRecomputed :
    EventRunner.targets (smaRecomputed params) bars = (List.range bars.length).map fun p =>
      if params.slowWindow + 1 ≤ p + 1 then some (recomputed params bars (p + 1)) else none := by
  have hhistory : ∀ p, EventRunner.strategyHistory bars p (params.slowWindow + 1) true
      = bars.take (p + 1) := fun p => if_pos (Or.inl rfl)
  refine EventRunner.targets_eq_of_follow (s := smaRecomputed params) bars
    (fun n (e : ℚ) => e = recomputed params bars n) _ rfl ?_ ?_
  · rintro p e - (hp : p + 1 < params.slowWindow + 1) rfl
    show recomputed params bars p = recomputed params bars (p + 1)
    rw [recomputed_of_le params bars (by omega), recomputed_of_le params bars (by omega)]
  · rintro p e - - rfl
    have hcall : (smaRecomputed params).targetWeight (recomputed params bars p)
        (EventRunner.strategyHistory bars p (params.slowWindow + 1) true)
        = (recomputed params bars (p + 1), recomputed params bars (p + 1)) := by
      rw [hhistory]
      rfl
    exact ⟨congrArg Prod.snd hcall, congrArg Prod.fst hcall⟩

open SMAState in
/-- **`SMACrossover`, as `EventRunner` runs it.** -/
theorem targets_smaCrossover :
    EventRunner.targets (smaCrossover params) bars = (List.range bars.length).map fun p =>
      if params.slowWindow + 1 ≤ p + 1 then some (recomputed params bars (p + 1)) else none := by
  refine EventRunner.targets_eq_of_follow (s := smaCrossover params) bars (fun n (e : SMAState) =>
    (n < params.slowWindow + 1 → e = initial) ∧
      (params.slowWindow + 1 ≤ n → e.Windows params ((bars.take n).map Bar.close)
        ∧ e.target = recomputed params bars n)) _ ?_ ?_ ?_
  · exact ⟨fun _ => rfl, fun h => absurd h (by omega)⟩
  · rintro p e - (hwarm : p + 1 < params.slowWindow + 1) ⟨hbefore, -⟩
    exact ⟨fun _ => hbefore (by omega), fun h => absurd h (by omega)⟩
  · rintro p e hp (hwarm : params.slowWindow + 1 ≤ p + 1) ⟨hbefore, hafter⟩
    -- what is fed at the first call is the whole history, and after it the last bar
    obtain ⟨st, hfed, hwindows, htarget⟩ : ∃ st : SMAState,
        SMAState.feed params e ((EventRunner.strategyHistory bars p (params.slowWindow + 1)
          false).map Bar.close) = st
        ∧ st.Windows params ((bars.take (p + 1)).map Bar.close)
        ∧ st.target = recomputed params bars p := by
      by_cases hfirst : p < params.slowWindow + 1
      · obtain rfl := hbefore hfirst
        obtain ⟨hwindows, htarget⟩ :=
          (windows_initial params).foldl ((bars.take (p + 1)).map Bar.close)
        refine ⟨_, ?_, hwindows, ?_⟩
        · rw [EventRunner.strategyHistory, if_pos (Or.inr (by omega))]
          exact if_pos rfl
        · rw [htarget, recomputed_of_le params bars (by omega)]
          rfl
      · obtain ⟨hwindows, htarget⟩ := hafter (by omega)
        have hsplit : (bars.take (p + 1)).map Bar.close
            = (bars.take p).map Bar.close ++ [bars[p].close] := by
          rw [← take_append_getElem hp, map_append]
          rfl
        have hlast : (bars.take (p + 1)).drop p = [bars[p]] := by
          rw [← take_append_getElem hp, drop_append_of_le_length (by simp; omega),
            drop_eq_nil_of_le (by simp), nil_append]
        refine ⟨e.appendClose params bars[p].close, ?_, ?_, htarget⟩
        · rw [EventRunner.strategyHistory, if_neg (by simp; omega), hlast]
          refine hwindows.feed_single (ne_nil_of_length_pos ?_) _
          rw [length_map, length_take_of_le hp.le]
          omega
        · rw [hsplit]
          exact hwindows.appendClose _
    have hfollowed : st.followed = recomputed params bars (p + 1) := by
      rw [hwindows.followed, htarget]
      rfl
    have hcall := smaCrossover_targetWeight hfed
    have hnext : ((smaCrossover params).targetWeight e (EventRunner.strategyHistory bars p
        (params.slowWindow + 1) false)).1 = st.follow := congrArg Prod.fst hcall
    refine ⟨(congrArg Prod.snd hcall).trans hfollowed, fun h => absurd h (by omega), fun _ => ?_⟩
    exact hnext ▸ ⟨hwindows.follow, hfollowed⟩

/-- **Nothing is lost by keeping the sums.** On any closes, and for any pair of windows,
`SMACrossover` as `EventRunner` runs it has at every bar the target of the rule that computes both
averages anew from the whole history. -/
theorem smaCrossover_recomputed (params : CrossoverParams) (bars : List Bar) :
    EventRunner.targets (smaCrossover params) bars = EventRunner.targets (smaRecomputed params) bars
      ∧ EventRunner.targets (smaCrossover params) bars = (List.range bars.length).map fun p =>
        if params.slowWindow ≤ p then some (recomputed params bars (p + 1)) else none := by
  have htargets := targets_smaCrossover params bars
  simp only [Nat.add_le_add_iff_right] at htargets
  exact ⟨(targets_smaCrossover params bars).trans (targets_smaRecomputed params bars).symm,
    htargets⟩

end Qt.Backtest
