import Mathlib.Algebra.Order.Field.Basic
import Mathlib.Algebra.Order.Field.Rat
import Mathlib.Tactic.Linarith
import Mathlib.Tactic.Ring

/-!
# The target-position simulator

`simulate_target_positions` of `qt.strategies.sim.base`, over exact rationals: at each bar a spot
leg and a short perpetual leg are brought to weights of the equity. The short leg is sized on what
the fee of the long leg leaves of the equity. Where that is negative, the short quantity gets
negative, and more profit is realised than that of the position; `ShortCovered` says when not.
-/

namespace Qt.Strategies.Sim

open List

/-- The parameters of a simulation. -/
structure Simulation where
  initialCash : ℚ := 10000
  feeBps : ℚ := 15 / 2
  slippageBps : ℚ := 5
  fundingPeriodsPerBar : ℚ := 0
  rebalanceTolerance : ℚ := 1 / 20

/-- A bar, with what the other series have at it. -/
structure SimBar where
  ts : ℤ
  close : ℚ
  targetWeight : Option ℚ
  shortWeight : Option ℚ := none
  funding : Option ℚ := none

/-- `.fillna(0.0).clip(lower=0.0)`. -/
def weight (value : Option ℚ) : ℚ := max 0 (value.getD 0)

structure Legs where
  cash : ℚ
  qtyLong : ℚ
  qtyShort : ℚ
  shortAvg : ℚ

structure TradeRow where
  ts : ℤ
  side : String
  qty : ℚ
  price : ℚ
  fee : ℚ
  leg : String

def Simulation.cost (p : Simulation) : ℚ := (p.feeBps + p.slippageBps) / 10000

/-- The side of a trade. -/
def sideOf (delta : ℚ) (up down : String) : String := if 0 < delta then up else down

namespace Legs

/-- `_equity`. -/
def equity (s : Legs) (px : ℚ) : ℚ :=
  s.cash + s.qtyLong * px + if 0 < s.qtyShort then (s.shortAvg - px) * s.qtyShort else 0

variable (p : Simulation) (s : Legs) (b : SimBar)

/-- The funding of the short leg at a bar. -/
def accrual : ℚ :=
  if 0 < s.qtyShort ∧ 0 < p.fundingPeriodsPerBar then
    s.qtyShort * b.close * b.funding.getD 0 * p.fundingPeriodsPerBar
  else 0

def accrued : Legs := { s with cash := s.cash + s.accrual p b }

/-- Whether a leg is brought to its weight. -/
def moves (target current qty : ℚ) : Prop :=
  p.rebalanceTolerance ≤ |target - current| ∨ target = 0 ∧ 0 < qty
deriving Decidable

/-- The fee of a trade. -/
def feeOf (delta px : ℚ) : ℚ := |delta| * px * p.cost

/-- What the long leg has to change. -/
def deltaLong : ℚ := weight b.targetWeight * s.equity b.close / b.close - s.qtyLong

/-- Whether the long leg is rebalanced. -/
def movesLong : Prop :=
  moves p (weight b.targetWeight) (s.qtyLong * b.close / s.equity b.close) s.qtyLong
deriving Decidable

/-- The spot leg. -/
def rebalanceLong : Legs × List TradeRow :=
  if s.movesLong p b then
    ({ s with
        cash := s.cash - (s.deltaLong b * b.close + feeOf p (s.deltaLong b) b.close)
        qtyLong := s.qtyLong + s.deltaLong b },
      [⟨b.ts, sideOf (s.deltaLong b) "buy" "sell", s.deltaLong b, b.close,
        feeOf p (s.deltaLong b) b.close, "spot"⟩])
  else (s, [])

/-- Whether the short leg is rebalanced. -/
def movesShort : Prop :=
  moves p (weight b.shortWeight)
    (s.qtyShort * b.close / max (s.equity b.close) (1 / 10 ^ 9)) s.qtyShort
deriving Decidable

/-- The short quantity of the weight. -/
def targetShort : ℚ := weight b.shortWeight * s.equity b.close / b.close

/-- What the short leg has to change. -/
def deltaShort : ℚ := s.targetShort b - s.qtyShort

/-- The legs with less cash. -/
def charged (fee : ℚ) : Legs := { s with cash := s.cash - fee }

/-- The average entry and what is realised, when the short leg gets another quantity. -/
def shortTo (target px : ℚ) : Legs :=
  let delta := target - s.qtyShort
  let avg :=
    if 0 < delta then
      if 0 < target then (s.shortAvg * s.qtyShort + px * delta) / target else 0
    else s.shortAvg
  let realized := if 0 < delta then 0 else if 0 < s.qtyShort then (s.shortAvg - px) * -delta else 0
  { s with
    cash := s.cash + realized
    qtyShort := target
    shortAvg := if target = 0 then 0 else avg }

/-- The short perpetual leg. -/
def rebalanceShort : Legs × List TradeRow :=
  if s.movesShort p b then
    ((s.charged (feeOf p (s.deltaShort b) b.close)).shortTo (s.targetShort b) b.close,
      [⟨b.ts, sideOf (s.deltaShort b) "short_open" "short_close", s.deltaShort b, b.close,
        feeOf p (s.deltaShort b) b.close, "perp"⟩])
  else (s, [])

/-- **A bar** of `simulate_target_positions`: the legs after it and the trades. -/
def step : Legs × List TradeRow :=
  if (s.accrued p b).equity b.close ≤ 0 then (s.accrued p b, [])
  else
    let long := (s.accrued p b).rebalanceLong p b
    let short := long.1.rebalanceShort p b
    (short.1, long.2 ++ short.2)

def fees (rows : List TradeRow) : ℚ := (rows.map TradeRow.fee).sum

/-- What is left of the equity when the long leg has paid its fee. -/
def leftOver : ℚ :=
  (s.accrued p b).equity b.close -
    if (s.accrued p b).movesLong p b then feeOf p ((s.accrued p b).deltaLong b) b.close else 0

/-- **The short leg is covered**: where the fee of the long leg takes more than the equity, the
short weight is zero, or in the tolerance. -/
def ShortCovered : Prop :=
  0 < (s.accrued p b).equity b.close → s.leftOver p b < 0 → weight b.shortWeight = 0 ∨
    |weight b.shortWeight - s.qtyShort * b.close * 10 ^ 9| < p.rebalanceTolerance

/-- **A bar is accounted for**: the quantities are not negative, and the equity changes by what was
held, the funding and the fees, from whatever price it had before. -/
structure Accounted : Prop where
  long_nonneg : 0 ≤ (s.step p b).1.qtyLong
  short_nonneg : 0 ≤ (s.step p b).1.qtyShort
  change : ∀ price, (s.step p b).1.equity b.close - s.equity price =
    (s.qtyLong - s.qtyShort) * (b.close - price) + s.accrual p b - fees (s.step p b).2

/-- **At every bar** of a run something holds of the legs before it. -/
def Always (p : Simulation) (holds : Legs → SimBar → Prop) : Legs → List SimBar → Prop
  | _, [] => True
  | s, b :: bars => holds s b ∧ Always p holds (s.step p b).1 bars

variable {p s b}

theorem weight_nonneg (value : Option ℚ) : 0 ≤ weight value := le_max_left _ _

theorem equity_eq (h : 0 ≤ s.qtyShort) (px : ℚ) :
    s.equity px = s.cash + s.qtyLong * px + (s.shortAvg - px) * s.qtyShort := by
  unfold equity
  split_ifs with hpos
  · rfl
  · rw [le_antisymm (not_lt.mp hpos) h, mul_zero]

theorem equity_accrued (px : ℚ) : (s.accrued p b).equity px = s.equity px + s.accrual p b := by
  rw [equity, equity, accrued, add_right_comm s.cash, add_right_comm (s.cash + s.qtyLong * px)]

theorem equity_rebalanceLong :
    (s.rebalanceLong p b).1.equity b.close = s.equity b.close - fees (s.rebalanceLong p b).2 := by
  unfold rebalanceLong
  split_ifs with hmoves
  · simp only [equity, fees, map_cons, map_nil, sum_cons, sum_nil]
    ring
  · simp [fees]

theorem qtyLong_rebalanceLong (hlong : 0 ≤ s.qtyLong) (hpx : 0 < b.close)
    (hequity : 0 ≤ s.equity b.close) : 0 ≤ (s.rebalanceLong p b).1.qtyLong := by
  unfold rebalanceLong
  split_ifs
  · show 0 ≤ s.qtyLong + s.deltaLong b
    rw [deltaLong, add_sub_cancel]
    exact div_nonneg (mul_nonneg (weight_nonneg _) hequity) hpx.le
  · exact hlong

theorem short_rebalanceLong : (s.rebalanceLong p b).1.qtyShort = s.qtyShort := by
  unfold rebalanceLong
  split_ifs <;> rfl

/-- A short position of another size is worth the same. -/
theorem equity_shortTo (s : Legs) (px : ℚ) {target : ℚ} (hshort : 0 ≤ s.qtyShort)
    (htarget : 0 ≤ target) :
    (s.shortTo target px).equity px = s.equity px := by
  have hto : 0 ≤ (s.shortTo target px).qtyShort := htarget
  rw [equity_eq hto, equity_eq hshort]
  unfold shortTo
  rcases htarget.eq_or_lt with rfl | hpos
  · have hdelta : ¬ 0 < 0 - s.qtyShort := by simpa using hshort
    simp only [if_neg hdelta, if_true]
    split_ifs with hopen
    · ring
    · rw [le_antisymm (not_lt.mp hopen) hshort]
      ring
  · simp only [if_pos hpos, if_neg hpos.ne']
    split_ifs with hdelta hopen
    · rw [sub_mul, div_mul_cancel₀ _ hpos.ne']
      ring
    · ring
    · exact absurd (not_lt.mp hdelta) (not_le.mpr (by
        rwa [le_antisymm (not_lt.mp hopen) hshort, sub_zero]))

theorem equity_rebalanceShort (hshort : 0 ≤ s.qtyShort)
    (hmoves : s.movesShort p b → 0 ≤ s.targetShort b) :
    (s.rebalanceShort p b).1.equity b.close =
      s.equity b.close - fees (s.rebalanceShort p b).2 := by
  unfold rebalanceShort
  split_ifs with h
  · rw [equity_shortTo (s.charged _) b.close hshort (hmoves h), charged]
    simp only [equity, fees, map_cons, map_nil, sum_cons, sum_nil]
    ring
  · simp [fees]

theorem qtyLong_rebalanceShort : (s.rebalanceShort p b).1.qtyLong = s.qtyLong := by
  unfold rebalanceShort
  split_ifs <;> rfl

theorem qtyShort_rebalanceShort : (s.rebalanceShort p b).1.qtyShort =
    if s.movesShort p b then s.targetShort b else s.qtyShort := by
  unfold rebalanceShort
  split_ifs <;> rfl

theorem leftOver_eq :
    s.leftOver p b = ((s.accrued p b).rebalanceLong p b).1.equity b.close := by
  rw [equity_rebalanceLong, leftOver, rebalanceLong]
  split_ifs <;> simp [fees]

/-- The short target is negative exactly where the leg is not covered. -/
theorem targetShort_neg_iff (hpx : 0 < b.close) (hneg : s.equity b.close < 0) :
    s.movesShort p b ∧ s.targetShort b < 0 ↔ weight b.shortWeight ≠ 0 ∧
      p.rebalanceTolerance ≤ |weight b.shortWeight - s.qtyShort * b.close * 10 ^ 9| := by
  have hcurrent : s.qtyShort * b.close / max (s.equity b.close) (1 / 10 ^ 9) =
      s.qtyShort * b.close * 10 ^ 9 := by
    rw [max_eq_right (hneg.le.trans (by positivity)), div_div_eq_mul_div, div_one]
  have htarget : s.targetShort b < 0 ↔ weight b.shortWeight ≠ 0 := by
    have hle : s.targetShort b = weight b.shortWeight * (s.equity b.close / b.close) :=
      mul_div_assoc _ _ _
    have hratio : s.equity b.close / b.close < 0 := div_neg_of_neg_of_pos hneg hpx
    rw [hle]
    refine ⟨fun h hzero => by simp [hzero] at h, fun hne => ?_⟩
    exact mul_neg_of_pos_of_neg ((weight_nonneg _).lt_of_ne' hne) hratio
  rw [movesShort, moves, hcurrent, htarget]
  constructor
  · rintro ⟨h | ⟨hzero, -⟩, hne⟩
    · exact ⟨hne, h⟩
    · exact absurd hzero hne
  · exact fun ⟨hne, h⟩ => ⟨.inl h, hne⟩

/-- The legs when the long one is at its weight. -/
def long (p : Simulation) (s : Legs) (b : SimBar) : Legs := ((s.accrued p b).rebalanceLong p b).1

theorem covered_iff (hpx : 0 < b.close) (hpos : 0 < (s.accrued p b).equity b.close) :
    ShortCovered p s b ↔ ((s.long p b).movesShort p b → 0 ≤ (s.long p b).targetShort b) := by
  have hshort : (s.long p b).qtyShort = s.qtyShort := short_rebalanceLong
  have hleft : s.leftOver p b = (s.long p b).equity b.close := leftOver_eq
  unfold ShortCovered
  rw [hleft]
  rcases lt_or_ge ((s.long p b).equity b.close) 0 with hneg | hnonneg
  · have hiff := targetShort_neg_iff (p := p) hpx hneg
    rw [hshort] at hiff
    constructor
    · intro hcovered hmoves
      by_contra hlt
      obtain ⟨hne, htolerance⟩ := hiff.mp ⟨hmoves, not_le.mp hlt⟩
      exact (hcovered hpos hneg).elim hne (not_lt.mpr htolerance)
    · intro htarget _ _
      by_contra hcovered
      obtain ⟨hne, htolerance⟩ := not_or.mp hcovered
      obtain ⟨hmoves, hlt⟩ := hiff.mpr ⟨hne, not_lt.mp htolerance⟩
      exact absurd (htarget hmoves) (not_le.mpr hlt)
  · exact ⟨fun _ _ => div_nonneg (mul_nonneg (weight_nonneg _) hnonneg) hpx.le,
      fun _ _ hlt => absurd hnonneg (not_le.mpr hlt)⟩

/-- **One bar** of legs that are not negative is accounted for exactly if the short leg is
covered. -/
theorem accounted_iff (hpx : 0 < b.close) (hlong : 0 ≤ s.qtyLong) (hshort : 0 ≤ s.qtyShort) :
    Accounted p s b ↔ ShortCovered p s b := by
  have hfunded : ∀ price, (s.accrued p b).equity b.close - s.equity price =
      (s.qtyLong - s.qtyShort) * (b.close - price) + s.accrual p b := by
    intro price
    rw [equity_accrued, equity_eq hshort, equity_eq hshort]
    ring
  by_cases hequity : (s.accrued p b).equity b.close ≤ 0
  · have hstep : s.step p b = (s.accrued p b, []) := if_pos hequity
    refine ⟨fun _ hpos => absurd hequity (not_le.mpr hpos), fun _ => ⟨?_, ?_, fun price => ?_⟩⟩
    · rwa [hstep]
    · rwa [hstep]
    · rw [hstep, hfunded, fees, map_nil, sum_nil, sub_zero]
  · have hpos := not_le.mp hequity
    have hstep : s.step p b = (((s.long p b).rebalanceShort p b).1,
        ((s.accrued p b).rebalanceLong p b).2 ++ ((s.long p b).rebalanceShort p b).2) :=
      if_neg hequity
    have hsame : (s.long p b).qtyShort = s.qtyShort := short_rebalanceLong
    rw [covered_iff hpx hpos]
    constructor
    · intro h hmoves
      have hnonneg := h.short_nonneg
      rwa [hstep, qtyShort_rebalanceShort, if_pos hmoves] at hnonneg
    · intro htarget
      refine ⟨?_, ?_, fun price => ?_⟩
      · rw [hstep, qtyLong_rebalanceShort]
        exact qtyLong_rebalanceLong hlong hpx hpos.le
      · rw [hstep, qtyShort_rebalanceShort]
        split_ifs with hmoves
        · exact htarget hmoves
        · exact hshort.trans hsame.ge
      · have hfirst : (s.long p b).equity b.close = (s.accrued p b).equity b.close -
            fees ((s.accrued p b).rebalanceLong p b).2 := equity_rebalanceLong
        rw [hstep, equity_rebalanceShort (hshort.trans hsame.ge) htarget, hfirst, fees, fees, fees,
          map_append, sum_append]
        linarith [hfunded price]

theorem always_iff {bars : List SimBar} (hpx : ∀ b ∈ bars, 0 < b.close) (hlong : 0 ≤ s.qtyLong)
    (hshort : 0 ≤ s.qtyShort) :
    Always p (Accounted p) s bars ↔ Always p (ShortCovered p) s bars := by
  induction bars generalizing s with
  | nil => exact Iff.rfl
  | cons b bars ih =>
    obtain ⟨hb, hpx⟩ := forall_mem_cons.mp hpx
    have hiff := accounted_iff (p := p) hb hlong hshort
    constructor
    · rintro ⟨h, hrest⟩
      exact ⟨hiff.mp h, (ih hpx h.long_nonneg h.short_nonneg).mp hrest⟩
    · rintro ⟨h, hrest⟩
      have h := hiff.mpr h
      exact ⟨h, (ih hpx h.long_nonneg h.short_nonneg).mpr hrest⟩

end Legs

open Legs

/-- The legs before the first bar. -/
def Simulation.start (p : Simulation) : Legs := ⟨p.initialCash, 0, 0, 0⟩

/-- **The target-position simulator.** Every bar of a run is accounted for, exactly if at every bar
the short leg is covered. -/
theorem target_positions (p : Simulation) (bars : List SimBar) (hpx : ∀ b ∈ bars, 0 < b.close) :
    Always p (Accounted p) p.start bars ↔ Always p (ShortCovered p) p.start bars :=
  always_iff hpx le_rfl le_rfl

namespace Sample

/-- Half long and all short, and then only short. -/
def hedge : List SimBar :=
  [⟨1, 100, some (1 / 2), some 1, none⟩, ⟨2, 2997 / 10, some 0, some 1, none⟩]

end Sample

theorem target_positions_hedge :
    Always {} (Accounted {}) (Simulation.start {}) Sample.hedge ↔
      Always {} (ShortCovered {}) (Simulation.start {}) Sample.hedge :=
  target_positions {} Sample.hedge (by decide +kernel)

/-- **The short quantity gets negative**: the fee of the long leg takes more than the equity. -/
theorem short_negative : ¬ ∀ (p : Simulation) (bars : List SimBar), (∀ b ∈ bars, 0 < b.close) →
    Always p (Accounted p) p.start bars := by
  intro h
  obtain ⟨-, haccounted, -⟩ := h {} Sample.hedge (by decide +kernel)
  exact absurd haccounted.short_nonneg (by decide +kernel)

end Qt.Strategies.Sim
