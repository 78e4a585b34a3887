import QuantTrading.GatedRuns

/-!
# The books of the bar loop

`Backtester.run` of `qt.backtest.engine`, over exact rationals. A purchase takes its size and the
fee of it from the cash; the profit of the trade is told from the fill prices and the fee of the
sale. What the cash and the cost of what is held come to is the initial cash and all profits
exactly where no fee of a purchase has gone into a trade.
-/

namespace Qt.Paper.Backtester

open List

variable {b : Backtester} {s : Replay} {bar : Bar}

def purchases (log : GateLog) : ℕ :=
  log.countP fun
    | .entry .. => true
    | _ => false

/-- **The books are right** after a bar: at most one position is open, the cash is not negative,
the equity is recorded as what is there, and with nothing held it is what the trades made of the
initial cash. -/
structure Reconciled (b : Backtester) (s : Replay) (bar : Bar) : Prop where
  one : purchases s.log = s.tradeRecords.length + if s.position.qty = 0 then 0 else 1
  cash : 0 ≤ s.cash
  equity : s.equityRecords.getLast? = some (bar.ts, s.cash + s.position.qty * bar.close)
  flat : s.position.qty = 0 →
    s.cash + s.position.qty * bar.close = b.initialCash + (s.tradeRecords.map (·.pnl)).sum

/-- What is held is sold at a bar. -/
def Closes (s : Replay) (bar : Bar) : Prop :=
  s.position.qty ≠ 0 ∧ (s.riskEngine.evaluateExit s.position bar.close bar.ts).action = .close
deriving Decidable

/-- A signal opens a position. -/
def Opens (s : Replay) (sig : Signal) (bar : Bar) : Prop :=
  s.position.qty = 0 ∧ (evaluateEntry s sig bar).2.action = .open

/-- The share of the cash that a signal takes. -/
def share (b : Backtester) (sig : Signal) (bar : Bar) : ℚ :=
  RiskEngine.targetAlloc { cfg := b.riskCfg } sig (bar.realizedVol.getD (6 / 10)) (3 / 5) (3 / 2)

/-- **What a bar asks**: a sale is free of fees and takes no more than the cash, and a purchase
has a price and its fee left to it. -/
structure Sound (b : Backtester) (s : Replay) (bar : Bar) : Prop where
  sale : Closes s bar → b.fills.feeBps = 0 ∧
    0 ≤ s.cash + s.position.qty * b.fills.fillPrice bar.close .sell
  purchase : ∀ sig, b.thresholds.toSignal bar = some sig → Opens (b.exitCheck s bar) sig bar →
    b.fills.fillPrice bar.close .buy ≠ 0 ∧ b.share sig bar * (1 + b.fills.feeBps / 10000) ≤ 1

/-- A signal takes no more than all of the cash. -/
theorem share_le_one {sig : Signal} (h : b.thresholds.toSignal bar = some sig) :
    b.share sig bar ≤ 1 := by
  have hscore : sig.targetQuoteAlloc ≤ 1 := by
    unfold ThresholdConfig.toSignal at h
    split at h
    · cases h
    · split_ifs at h
      cases h
      exact max_le (by norm_num) (min_le_left _ _)
  exact (((min_le_left _ _).trans (min_le_left _ _)).trans (min_le_left _ _)).trans hscore

/-- **What the loop keeps**: cash and cost, with the fee of the purchase, are the initial cash
and the profits. -/
structure Booked (b : Backtester) (s : Replay) : Prop where
  cfg : s.riskEngine.cfg = b.riskCfg
  one : purchases s.log = s.tradeRecords.length + if s.position.qty = 0 then 0 else 1
  cash : 0 ≤ s.cash
  cost : s.cash + s.position.qty * s.position.avgPrice * (1 + b.fills.feeBps / 10000) =
    b.initialCash + (s.tradeRecords.map (·.pnl)).sum

theorem booked_start (h : 0 ≤ b.initialCash) : b.Booked b.start where
  cfg := rfl
  one := rfl
  cash := h
  cost := by simp [start, flatPosition]

/-- **The exit check**: where nothing is sold it does nothing. -/
theorem exitCheck_of_not (h : ¬ Closes s bar) : b.exitCheck s bar = s := by
  unfold exitCheck
  by_cases hflat : s.position.qty = 0
  · rw [if_pos hflat]
  · rw [if_neg hflat]
    exact if_neg fun hclose => h ⟨hflat, hclose⟩

/-- A sale without a fee moves the profit from the cost to the cash. -/
theorem Booked.exitCheck (h : b.Booked s) (hsale : Closes s bar → b.fills.feeBps = 0 ∧
    0 ≤ s.cash + s.position.qty * b.fills.fillPrice bar.close .sell) :
    b.Booked (b.exitCheck s bar) := by
  by_cases hclose : Closes s bar
  · obtain ⟨hfree, hproceeds⟩ := hsale hclose
    have hfee : ∀ notional, b.fills.fee notional = 0 := fun notional => by
      simp [FillModel.fee, hfree]
    have hcost := h.cost
    rw [hfree, zero_div, add_zero, mul_one] at hcost
    unfold Backtester.exitCheck
    rw [if_neg hclose.1, show (_ : Replay) = _ from if_pos hclose.2]
    refine ⟨h.cfg, ?_, ?_, ?_⟩
    · have hone := h.one
      rw [if_neg hclose.1] at hone
      simpa [purchases, flatPosition] using hone
    · simp only [hfee, sub_zero]
      exact hproceeds
    · simp only [hfee, map_append, sum_append, flatPosition]
      simp only [sub_zero, map_cons, map_nil, sum_cons, sum_nil]
      linarith
  · rw [exitCheck_of_not hclose]
    exact h

/-- A purchase moves its size from the cash to the cost. -/
theorem Booked.entryCheck (h : b.Booked s)
    (hpurchase : ∀ sig, b.thresholds.toSignal bar = some sig → Opens s sig bar →
      b.fills.fillPrice bar.close .buy ≠ 0 ∧ b.share sig bar * (1 + b.fills.feeBps / 10000) ≤ 1) :
    b.Booked (b.entryCheck s bar) := by
  unfold Backtester.entryCheck
  cases hsig : b.thresholds.toSignal bar with
  | none => exact h
  | some sig =>
    show b.Booked (if s.position.qty = 0 then _ else _)
    by_cases hflat : s.position.qty = 0
    swap
    · rw [if_neg hflat]
      exact ⟨h.cfg, h.one, h.cash, h.cost⟩
    rw [if_pos hflat]
    have hcfg := (RiskEngine.evaluateEntry_keeps s.riskEngine sig
      (s.cash + s.position.qty * bar.close) bar.close (bar.atr.getD (bar.close * (2 / 100)))
      (bar.realizedVol.getD (6 / 10)) (3 / 5) (3 / 2) s.position).1.trans h.cfg
    by_cases hopen : (evaluateEntry s sig bar).2.action = .open ∧
        0 < (evaluateEntry s sig bar).2.sizeQuote
    swap
    · rw [show (_ : Replay) = _ from if_neg hopen]
      exact ⟨hcfg, h.one, h.cash, h.cost⟩
    rw [show (_ : Replay) = _ from if_pos hopen]
    obtain ⟨hprice, hshare⟩ := hpurchase sig hsig ⟨hflat, hopen.1⟩
    have hsize : (evaluateEntry s sig bar).2.sizeQuote = s.cash * b.share sig bar := by
      have hsized := (RiskEngine.evaluate_open hopen.1).2.2.2.2.2
      unfold Backtester.evaluateEntry share
      rw [hsized, hflat, zero_mul, add_zero, RiskEngine.targetAlloc, h.cfg]
      rfl
    have hfee : b.fills.fee (evaluateEntry s sig bar).2.sizeQuote =
        (evaluateEntry s sig bar).2.sizeQuote * (b.fills.feeBps / 10000) := by
      rw [FillModel.fee, abs_of_pos hopen.2]
    have hheld : (evaluateEntry s sig bar).2.sizeQuote / b.fills.fillPrice bar.close .buy ≠ 0 :=
      div_ne_zero hopen.2.ne' hprice
    refine ⟨hcfg, ?_, ?_, ?_⟩
    · have hone : purchases s.log = s.tradeRecords.length := by simpa [hflat] using h.one
      rw [if_neg hheld]
      simpa [purchases] using hone
    · have htaken := mul_le_mul_of_nonneg_left hshare h.cash
      rw [hfee, hsize]
      linarith
    · have hcost := h.cost
      rw [hflat, zero_mul, zero_mul, add_zero] at hcost
      show _ - _ + _ / _ * _ * _ = _
      rw [hfee, div_mul_cancel₀ _ hprice, ← hcost]
      ring

theorem Booked.barStep (h : b.Booked s) (hsound : b.Sound s bar) : b.Booked (b.barStep s bar) := by
  have hbar := (h.exitCheck hsound.sale).entryCheck hsound.purchase
  exact ⟨hbar.cfg, hbar.one, hbar.cash, hbar.cost⟩

/-- **The books are right in every run** whose bars ask for nothing else, after each of them. -/
theorem books_reconcile (b : Backtester) (bars : List Bar) (hcash : 0 ≤ b.initialCash)
    (hsound : Machine.Meets b.barStep b.Sound b.start bars) (seen : List Bar) (bar : Bar)
    (hseen : seen ++ [bar] <+: bars) :
    b.Reconciled (Machine.run b.barStep b.start (seen ++ [bar])) bar := by
  obtain ⟨rest, rfl⟩ := hseen
  have hbooked := Machine.inv_run_of_meets b.Booked (fun _ _ => Booked.barStep) (booked_start hcash)
    (Machine.meets_append.mp hsound).1
  refine ⟨hbooked.one, hbooked.cash, ?_, fun hflat => ?_⟩
  · rw [Machine.run_concat]
    exact getLast?_concat
  · rw [← hbooked.cost, hflat, zero_mul, zero_mul, zero_mul]

namespace Sample

/-- Two bars: the first asks for an entry and the second reaches its target. -/
def risen : List Bar :=
  [Paper.Sample.bar, { Paper.Sample.bar with ts := 3600, close := 110, score := none }]

/-- With the default fees, and with none. -/
def charged : Backtester := { thresholds := {}, riskCfg := {} }

def free : Backtester := { charged with fills := ⟨0, 0⟩ }

end Sample

theorem books_reconcile_free : Sample.free.Reconciled
    (Machine.run Sample.free.barStep Sample.free.start [Paper.Sample.bar]) Paper.Sample.bar := by
  refine books_reconcile Sample.free [Paper.Sample.bar] (by decide)
    ⟨⟨fun hclose => ?_, ?_⟩, trivial⟩ [] _ (prefix_refl _)
  · exact absurd rfl hclose.1
  · intro sig hsig _
    refine ⟨by decide +kernel, ?_⟩
    rw [show Sample.free.fills.feeBps = 0 from rfl, zero_div, add_zero, mul_one]
    exact share_le_one hsig

/-- **The fee of a purchase is in no profit.** -/
theorem entry_fee_missing : ¬ ∀ (b : Backtester) (bars seen : List Bar) (bar : Bar),
    0 ≤ b.initialCash → (∀ x ∈ bars, 0 < x.close) → seen ++ [bar] <+: bars →
      b.Reconciled (Machine.run b.barStep b.start (seen ++ [bar])) bar := by
  intro h
  have hbooks := h Sample.charged Sample.risen [Paper.Sample.bar] _ (by decide) (by decide)
    (prefix_refl _)
  exact absurd (hbooks.flat (by decide +kernel)) (by decide +kernel)

end Qt.Paper.Backtester
