import QuantTrading.WalkForward

/-!
# Two engines, one strategy

A target-weight strategy of `btc_backtest.strategies` is called with the bars of a frame up to the
active one, keeps a state, and answers with the fraction of equity it wants. Two engines call it:
`EventRunner` from the declared warm-up on, with the whole history or – for a strategy that does not
ask for it – with the last bar alone, and `CausalStrategyBridge.decide` of `qt.nautilus.adapter` at
every bar, with all that is visible.

`engines_agree_of_simulation` is the rule by which they take the same decisions: a relation between
the states of the two that no call before the warm-up and no call from it on breaks. Weights and
prices are exact rationals; what `on_bar` makes of a weight – the orders – is not part of it. The
prices of a validated frame are positive, so that nothing in it raises after the weight is taken.
-/

namespace Qt.Backtest

open List

/-- A bar frame, as `_normalize_structure` leaves it. -/
structure OhlcvFrame where
  bars : List Bar
  ascending : bars.Pairwise fun a b => a.timestamp < b.timestamp
  positive : ∀ b ∈ bars, 0 < b.openPrice ∧ 0 < b.high ∧ 0 < b.low ∧ 0 < b.close
  volume_nonneg : ∀ b ∈ bars, 0 ≤ b.volume
  high_ge : ∀ b ∈ bars, max b.openPrice b.close ≤ b.high
  low_le : ∀ b ∈ bars, b.low ≤ min b.openPrice b.close

/-- `TargetWeightStrategy`: what its metadata declare, its state when it is initialized, and
`target_weight`. -/
structure TargetWeightStrategy where
  State : Type
  warmupBars : ℕ
  requiresFullHistory : Bool
  initial : State
  targetWeight : State → List Bar → State × ℚ

variable (s : TargetWeightStrategy)

/-! ## The engines -/

namespace EventRunner

variable (frame : List Bar)

def strategyHistory (position warmupBars : ℕ) (requiresFullHistory : Bool) : List Bar :=
  if requiresFullHistory ∨ position + 1 ≤ warmupBars then frame.take (position + 1)
  else (frame.take (position + 1)).drop position

/-- One pass of the loop of `EventRunner.run`: the weight, where the strategy is called. -/
def step (r : s.State × List (Option ℚ)) (position : ℕ) : s.State × List (Option ℚ) :=
  let history := strategyHistory frame position s.warmupBars s.requiresFullHistory
  if s.warmupBars ≤ position + 1 then
    ((s.targetWeight r.1 history).1, r.2 ++ [some (s.targetWeight r.1 history).2])
  else (r.1, r.2 ++ [none])

/-- The loop, up to a position. -/
def run (positions : ℕ) : s.State × List (Option ℚ) :=
  (List.range positions).foldl (step s frame) (s.initial, [])

/-- The weights, bar for bar. -/
def targets : List (Option ℚ) := (run s frame frame.length).2

end EventRunner

namespace CausalStrategyBridge

/-- `bars.iloc[: bars.index.searchsorted(cutoff, side="right")]`. -/
def visible (bars : List Bar) (cutoff : ℤ) : List Bar :=
  bars.take (bars.countP fun b => b.timestamp ≤ cutoff)

/-- **`CausalStrategyBridge.decide`**, as far as the call of the strategy. -/
def decide (timestamp : ℤ) (bars : List Bar) (state : s.State) : Except Exc (s.State × ℚ) :=
  match (visible bars timestamp).getLast? with
  | none => .error (.valueError "strategy cannot decide without an active bar")
  | some last =>
    if timestamp < last.timestamp then
      .error (.valueError "strategy context would contain future data")
    else .ok (s.targetWeight state (visible bars timestamp))

/-- A decision at each of the bars, one after the other, on the whole frame. -/
def run (frame : List Bar) (bars : List Bar) : Except Exc (s.State × List ℚ) :=
  bars.foldlM (fun r bar => do
    let called ← decide s bar.timestamp frame r.1
    return (called.1, r.2 ++ [called.2])) (s.initial, [])

/-- The weights, bar for bar. -/
def targets (frame : List Bar) : Except Exc (List ℚ) := (run s frame frame).map Prod.snd

end CausalStrategyBridge

/-! ## What the bridge does on a frame -/

/-- Calls at the first positions, each with the history up to it. -/
def called (frame : List Bar) : ℕ → s.State × List ℚ
  | 0 => (s.initial, [])
  | position + 1 =>
    let next := s.targetWeight (called frame position).1 (frame.take (position + 1))
    (next.1, (called frame position).2 ++ [next.2])

@[simp]
theorem length_called (frame : List Bar) (n : ℕ) : (called s frame n).2.length = n := by
  induction n with
  | zero => rfl
  | succ n ih => simp [called, ih]

namespace CausalStrategyBridge

variable {position : ℕ}

/-- On a frame in order, what is visible at a bar is the history up to it. -/
theorem visible_eq {frame : List Bar} (hasc : frame.Pairwise fun a b => a.timestamp < b.timestamp)
    (h : position < frame.length) :
    visible frame frame[position].timestamp = frame.take (position + 1) := by
  have horder := pairwise_iff_getElem.mp hasc
  generalize hcutoff : frame[position].timestamp = cutoff
  have hseen : ∀ b ∈ frame.take (position + 1), b.timestamp ≤ cutoff := by
    intro b hb
    obtain ⟨i, hi, rfl⟩ := mem_take_iff_getElem.mp hb
    rcases Nat.lt_or_ge i position with hlt | hge
    · exact hcutoff ▸ (horder i position _ h hlt).le
    · have hi' : i = position := by omega
      subst hi'
      exact hcutoff.le
  have hlater : ∀ b ∈ frame.drop (position + 1), ¬ b.timestamp ≤ cutoff := by
    intro b hb
    obtain ⟨i, hi, rfl⟩ := mem_drop_iff_getElem.mp hb
    exact not_le.mpr (hcutoff ▸ horder position _ h (by omega) (by omega))
  have hcount : frame.countP (fun b => b.timestamp ≤ cutoff) = position + 1 := by
    rw [← take_append_drop (position + 1) frame, countP_append,
      countP_eq_length.mpr (by simpa using hseen),
      countP_eq_zero.mpr (by simpa using hlater), length_take, Nat.add_zero]
    exact min_eq_left h
  rw [visible, hcount]

variable (frame : OhlcvFrame)

theorem decide_eq (h : position < frame.bars.length) (state : s.State) :
    decide s frame.bars[position].timestamp frame.bars state
      = .ok (s.targetWeight state (frame.bars.take (position + 1))) := by
  have hlast : (frame.bars.take (position + 1)).getLast? = some frame.bars[position] := by
    rw [getLast?_take, if_neg (Nat.succ_ne_zero _)]
    simp [h]
  rw [decide, visible_eq frame.ascending h, hlast]
  exact if_neg (lt_irrefl _)

theorem run_take {n : ℕ} (hn : n ≤ frame.bars.length) :
    run s frame.bars (frame.bars.take n) = .ok (called s frame.bars n) := by
  induction n with
  | zero => rfl
  | succ n ih =>
    have hlt : n < frame.bars.length := hn
    have hsplit : frame.bars.take (n + 1) = frame.bars.take n ++ [frame.bars[n]] :=
      (take_append_getElem hlt).symm
    rw [hsplit, run, foldlM_append, ← run, ih (by omega)]
    simp only [foldlM_cons, foldlM_nil, bind, Except.bind, decide_eq s frame hlt]
    rfl

/-- **The bridge raises nowhere on a frame.** -/
theorem targets_eq : targets s frame.bars = .ok (called s frame.bars frame.bars.length).2 := by
  have h := run_take s frame (le_refl frame.bars.length)
  rw [take_length] at h
  rw [targets, h]
  rfl

end CausalStrategyBridge

/-! ## The rule -/

namespace EventRunner

variable (frame : List Bar)

theorem run_succ (n : ℕ) : run s frame (n + 1) = step s frame (run s frame n) n := by
  rw [run, range_succ, foldl_append]
  rfl

theorem length_run (n : ℕ) : (run s frame n).2.length = n := by
  induction n with
  | zero => rfl
  | succ n ih =>
    rw [run_succ, step]
    split <;> simp [ih]

variable {s} in
/-- **What the loop answers**, by what each call does to the state. -/
theorem targets_eq_of_follow (R : ℕ → s.State → Prop) (weight : ℕ → ℚ) (start : R 0 s.initial)
    (quiet : ∀ p e, p < frame.length → p + 1 < s.warmupBars → R p e → R (p + 1) e)
    (call : ∀ p e, p < frame.length → s.warmupBars ≤ p + 1 → R p e →
      (s.targetWeight e (strategyHistory frame p s.warmupBars s.requiresFullHistory)).2 = weight p
        ∧ R (p + 1)
          (s.targetWeight e (strategyHistory frame p s.warmupBars s.requiresFullHistory)).1) :
    targets s frame = (List.range frame.length).map fun p =>
      if s.warmupBars ≤ p + 1 then some (weight p) else none := by
  have hrun : ∀ n, n ≤ frame.length → R n (run s frame n).1
      ∧ (run s frame n).2 = (List.range n).map fun p =>
        if s.warmupBars ≤ p + 1 then some (weight p) else none := by
    intro n
    induction n with
    | zero => exact fun _ => ⟨start, rfl⟩
    | succ n ih =>
      intro hn
      obtain ⟨hR, hweights⟩ := ih (Nat.le_of_succ_le hn)
      rw [run_succ, step, range_succ, map_append, ← hweights]
      by_cases hwarm : s.warmupBars ≤ n + 1
      · obtain ⟨hweight, hnext⟩ := call n _ hn hwarm hR
        rw [if_pos hwarm]
        refine ⟨hnext, ?_⟩
        rw [hweight, map_singleton, if_pos hwarm]
      · rw [if_neg hwarm, map_singleton, if_neg hwarm]
        exact ⟨quiet n _ hn (not_le.mp hwarm) hR, rfl⟩
  exact (hrun frame.length le_rfl).2

end EventRunner

variable {s}

/-- **The rule.** A relation between the states of the two engines, that holds at the start, that
the calls of the bridge before the warm-up keep, and that the calls of both keep from it on with
the same weights. -/
theorem engines_agree_of_simulation (frame : OhlcvFrame) (R : ℕ → s.State → s.State → Prop)
    (start : R 0 s.initial s.initial)
    (quiet : ∀ p e b, p < frame.bars.length → p + 1 < s.warmupBars → R p e b →
      R (p + 1) e (s.targetWeight b (frame.bars.take (p + 1))).1)
    (call : ∀ p e b, p < frame.bars.length → s.warmupBars ≤ p + 1 → R p e b →
      (s.targetWeight e (EventRunner.strategyHistory frame.bars p s.warmupBars
          s.requiresFullHistory)).2 = (s.targetWeight b (frame.bars.take (p + 1))).2
        ∧ R (p + 1) (s.targetWeight e (EventRunner.strategyHistory frame.bars p s.warmupBars
            s.requiresFullHistory)).1
          (s.targetWeight b (frame.bars.take (p + 1))).1) :
    ∃ weights, CausalStrategyBridge.targets s frame.bars = .ok weights
      ∧ weights.length = frame.bars.length
      ∧ (EventRunner.targets s frame.bars).drop (s.warmupBars - 1)
        = (weights.drop (s.warmupBars - 1)).map some := by
  have hrun : ∀ n, n ≤ frame.bars.length →
      R n (EventRunner.run s frame.bars n).1 (called s frame.bars n).1
        ∧ (EventRunner.run s frame.bars n).2.drop (s.warmupBars - 1)
          = ((called s frame.bars n).2.drop (s.warmupBars - 1)).map some := by
    intro n
    induction n with
    | zero => exact fun _ => ⟨start, by simp [EventRunner.run, called]⟩
    | succ n ih =>
      intro hn
      obtain ⟨hR, hdrop⟩ := ih (by omega)
      have hlenE := EventRunner.length_run s frame.bars n
      have hlenB := length_called s frame.bars n
      by_cases hwarm : s.warmupBars ≤ n + 1
      · obtain ⟨hweight, hnext⟩ := call n _ _ hn hwarm hR
        rw [EventRunner.run_succ, EventRunner.step, if_pos hwarm]
        refine ⟨hnext, ?_⟩
        rw [called, drop_append_of_le_length (by omega),
          drop_append_of_le_length (by omega), hdrop, hweight, map_append]
        rfl
      · rw [EventRunner.run_succ, EventRunner.step, if_neg hwarm]
        refine ⟨quiet n _ _ hn (by omega) hR, ?_⟩
        rw [drop_eq_nil_of_le (by simp [hlenE]; omega),
          drop_eq_nil_of_le (by simp [called, hlenB]; omega)]
        rfl
  exact ⟨_, CausalStrategyBridge.targets_eq s frame, length_called s _ _, (hrun _ le_rfl).2⟩

/-- **A strategy with the full history** needs only that its state does not move before the
warm-up. -/
theorem engines_agree_of_quiet (hfull : s.requiresFullHistory = true)
    (quiet : ∀ bars : List Bar, bars.length < s.warmupBars →
      (s.targetWeight s.initial bars).1 = s.initial) (frame : OhlcvFrame) :
    ∃ weights, CausalStrategyBridge.targets s frame.bars = .ok weights
      ∧ weights.length = frame.bars.length
      ∧ (EventRunner.targets s frame.bars).drop (s.warmupBars - 1)
        = (weights.drop (s.warmupBars - 1)).map some := by
  have hhistory : ∀ p, EventRunner.strategyHistory frame.bars p s.warmupBars
      s.requiresFullHistory = frame.bars.take (p + 1) := fun p => if_pos (Or.inl hfull)
  refine engines_agree_of_simulation frame
    (fun n e b => e = b ∧ (n < s.warmupBars → e = s.initial)) ⟨rfl, fun _ => rfl⟩ ?_ ?_
  · intro p e b _ hp hR
    obtain ⟨rfl, hinit⟩ := hR
    have he : e = s.initial := hinit (by omega)
    have hsame : (s.targetWeight e (frame.bars.take (p + 1))).1 = e := by
      rw [he]
      exact quiet _ (by simp; omega)
    exact ⟨hsame.symm, fun _ => he⟩
  · intro p e b _ hp hR
    obtain ⟨rfl, -⟩ := hR
    rw [hhistory]
    exact ⟨rfl, rfl, fun h => absurd h (by omega)⟩

end Qt.Backtest
