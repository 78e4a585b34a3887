import Mathlib.Algebra.BigOperators.Ring.List
import Mathlib.Tactic.FieldSimp
import Mathlib.Tactic.Linarith
import Mathlib.Tactic.Positivity
import Mathlib.Tactic.Ring

/-!
# Buying from a ladder

Levels of prices and quantities, in the order of the prices, and a budget that is spent on them from
the first on (`walk`), the last one in part. What is bought for an amount does not depend on the
budget (`bought`), and each unit costs no less than the one before: so of a greater amount a unit
costs no less on average (`bought_mul_le`).

The walk stops where less than a tolerance is left of the budget.
-/

namespace Ladder

open List

variable {K : Type} [Field K] [LinearOrder K] [IsStrictOrderedRing K]

/-- What the levels cost altogether. -/
def total (levels : List (K × K)) : K := (levels.map fun x => x.1 * x.2).sum

def bought : List (K × K) → K → K
  | [], _ => 0
  | x :: levels, amount =>
    min x.2 (amount / x.1) + bought levels (max 0 (amount - x.1 * x.2))

/-- **The walk**: what is spent and what is bought. -/
def walk (tolerance budget : K) : List (K × K) → K × K → K × K
  | [], s => s
  | x :: levels, s =>
    let take := min x.2 (max 0 (budget - s.1) / x.1)
    if budget - tolerance ≤ s.1 + take * x.1 then (s.1 + take * x.1, s.2 + take)
    else walk tolerance budget levels (s.1 + take * x.1, s.2 + take)

/-- **What the walk takes**, with the prices: from each level that it comes to. -/
def used (tolerance budget : K) : List (K × K) → K → List (K × K)
  | [], _ => []
  | x :: levels, spent =>
    let take := min x.2 (max 0 (budget - spent) / x.1)
    (x.1, take) :: if budget - tolerance ≤ spent + take * x.1 then []
      else used tolerance budget levels (spent + take * x.1)

/-- **A ladder**: prices in order, and nothing that costs or is nothing. -/
structure Ascending (levels : List (K × K)) : Prop where
  ordered : levels.Pairwise fun x y => x.1 ≤ y.1
  price_pos : ∀ x ∈ levels, 0 < x.1
  quantity_pos : ∀ x ∈ levels, 0 < x.2

section Bought

variable {x : K × K} {levels : List (K × K)} {p amount amount' : K}

omit [IsStrictOrderedRing K] in
theorem Ascending.tail (h : Ascending (x :: levels)) : Ascending levels :=
  ⟨h.ordered.tail, fun y hy => h.price_pos y (mem_cons_of_mem x hy),
    fun y hy => h.quantity_pos y (mem_cons_of_mem x hy)⟩

theorem Ascending.cost_pos (h : Ascending (x :: levels)) : 0 < x.1 * x.2 :=
  mul_pos (h.price_pos x mem_cons_self) (h.quantity_pos x mem_cons_self)

omit [LinearOrder K] [IsStrictOrderedRing K] in
@[simp] theorem total_cons (x : K × K) (levels : List (K × K)) :
    total (x :: levels) = x.1 * x.2 + total levels := rfl

theorem Ascending.total_nonneg (h : Ascending levels) : 0 ≤ total levels :=
  sum_nonneg fun c hc => by
    obtain ⟨x, hx, rfl⟩ := mem_map.mp hc
    exact mul_nonneg (h.price_pos x hx).le (h.quantity_pos x hx).le

theorem bought_zero (h : Ascending levels) : bought levels 0 = 0 := by
  induction levels with
  | nil => rfl
  | cons x levels ih =>
    have hcost := h.cost_pos
    rw [bought, zero_div, min_eq_right (h.quantity_pos x mem_cons_self).le,
      max_eq_left (by linarith), ih h.tail, add_zero]

theorem bought_of_le (h : Ascending (x :: levels)) (hle : amount ≤ x.1 * x.2) :
    bought (x :: levels) amount = amount / x.1 := by
  have hshare : amount / x.1 ≤ x.2 := by
    rw [div_le_iff₀ (h.price_pos x mem_cons_self), mul_comm]
    exact hle
  rw [bought, min_eq_right hshare, max_eq_left (by linarith), bought_zero h.tail, add_zero]

/-- An amount that the first level does not take alone. -/
theorem bought_of_ge (h : Ascending (x :: levels)) (hge : x.1 * x.2 ≤ amount) :
    bought (x :: levels) amount = x.2 + bought levels (amount - x.1 * x.2) := by
  have hshare : x.2 ≤ amount / x.1 := by
    rw [le_div_iff₀ (h.price_pos x mem_cons_self), mul_comm]
    exact hge
  rw [bought, min_eq_left hshare, max_eq_right (by linarith)]

/-- **What more is bought for more** costs no less than the first unit. -/
theorem mul_bought_sub_le (h : Ascending levels) (hprices : ∀ x ∈ levels, p ≤ x.1)
    (h0 : 0 ≤ amount) (hle : amount ≤ amount') :
    p * (bought levels amount' - bought levels amount) ≤ amount' - amount := by
  induction levels generalizing amount amount' with
  | nil => simpa [bought] using hle
  | cons x levels ih =>
    have hx := h.price_pos x mem_cons_self
    have hpx := hprices x mem_cons_self
    have hrest : ∀ y ∈ levels, p ≤ y.1 := fun y hy => hprices y (mem_cons_of_mem x hy)
    have hunit : ∀ d : K, 0 ≤ d → p * (d / x.1) ≤ d := fun d hd => by
      rw [mul_div_assoc', div_le_iff₀ hx, mul_comm]
      exact mul_le_mul_of_nonneg_left hpx hd
    rcases le_total amount' (x.1 * x.2) with hfirst' | hfirst'
    · rw [bought_of_le h hfirst', bought_of_le h (hle.trans hfirst'), ← sub_div]
      exact hunit _ (sub_nonneg.mpr hle)
    · rcases le_total amount (x.1 * x.2) with hfirst | hfirst
      · rw [bought_of_ge h hfirst', bought_of_le h hfirst]
        have hmore := ih h.tail hrest le_rfl (sub_nonneg.mpr hfirst')
        rw [bought_zero h.tail] at hmore
        have hlast := hunit (x.1 * x.2 - amount) (sub_nonneg.mpr hfirst)
        have hpart : (x.1 * x.2 - amount) / x.1 = x.2 - amount / x.1 := by
          rw [sub_div, mul_div_cancel_left₀ _ hx.ne']
        calc p * (x.2 + bought levels (amount' - x.1 * x.2) - amount / x.1)
            = p * ((x.1 * x.2 - amount) / x.1) + p * (bought levels (amount' - x.1 * x.2) - 0) := by
              rw [hpart]
              ring
          _ ≤ amount' - amount := by linarith
      · rw [bought_of_ge h hfirst', bought_of_ge h hfirst]
        have hmore := ih h.tail hrest (sub_nonneg.mpr hfirst) (sub_le_sub_right hle _)
        calc p * (x.2 + bought levels (amount' - x.1 * x.2)
              - (x.2 + bought levels (amount - x.1 * x.2)))
            = p * (bought levels (amount' - x.1 * x.2) - bought levels (amount - x.1 * x.2)) := by
              ring
          _ ≤ amount' - amount := by linarith

theorem mul_bought_le (h : Ascending levels) (hprices : ∀ x ∈ levels, p ≤ x.1)
    (h0 : 0 ≤ amount) : p * bought levels amount ≤ amount := by
  have hdiff := mul_bought_sub_le h hprices le_rfl h0
  rwa [bought_zero h, sub_zero, sub_zero] at hdiff

/-- **Of a greater amount a unit costs no less** on average. -/
theorem bought_mul_le (h : Ascending levels) (h0 : 0 ≤ amount) (hle : amount ≤ amount') :
    bought levels amount' * amount ≤ bought levels amount * amount' := by
  induction levels generalizing amount amount' with
  | nil => simp [bought]
  | cons x levels ih =>
    have hx := h.price_pos x mem_cons_self
    have hprices : ∀ y ∈ x :: levels, x.1 ≤ y.1 := by
      rintro y (_ | ⟨_, hy⟩)
      · exact le_rfl
      · exact (pairwise_cons.mp h.ordered).1 y hy
    rcases le_total amount (x.1 * x.2) with hfirst | hfirst
    · -- all of the smaller amount is spent at the first price
      have hmore := mul_bought_le h hprices (h0.trans hle)
      rw [bought_of_le h hfirst]
      calc bought (x :: levels) amount' * amount
          = x.1 * bought (x :: levels) amount' * (amount / x.1) := by field_simp
        _ ≤ amount' * (amount / x.1) := mul_le_mul_of_nonneg_right hmore (div_nonneg h0 hx.le)
        _ = amount / x.1 * amount' := mul_comm _ _
    · have hrest : ∀ y ∈ levels, x.1 ≤ y.1 := fun y hy => hprices y (mem_cons_of_mem x hy)
      have hless : 0 ≤ amount - x.1 * x.2 := sub_nonneg.mpr hfirst
      have hsub : amount - x.1 * x.2 ≤ amount' - x.1 * x.2 := sub_le_sub_right hle _
      have hih := ih h.tail hless hsub
      have hmore := mul_bought_sub_le h.tail hrest hless hsub
      have hscaled := mul_le_mul_of_nonneg_left hmore (h.quantity_pos x mem_cons_self).le
      rw [bought_of_ge h (hfirst.trans hle), bought_of_ge h hfirst]
      linarith

end Bought

section Walk

variable {tolerance budget budget' : K} {x : K × K} {levels : List (K × K)} {s : K × K}

/-- What the walk pays for a level. -/
def paid (budget spent : K) (x : K × K) : K := min (x.1 * x.2) (budget - spent)

variable {spent : K}

theorem take_eq (h : Ascending (x :: levels)) (hs : spent ≤ budget) :
    min x.2 (max 0 (budget - spent) / x.1) = paid budget spent x / x.1 := by
  have hx := h.price_pos x mem_cons_self
  rw [paid, max_eq_right (sub_nonneg.mpr hs), ← min_div_div_right hx.le,
    mul_div_cancel_left₀ _ hx.ne']

theorem paid_nonneg (h : Ascending (x :: levels)) (hs : spent ≤ budget) :
    0 ≤ paid budget spent x := le_min h.cost_pos.le (sub_nonneg.mpr hs)

omit [IsStrictOrderedRing K] in
theorem take_mul_price (h : Ascending (x :: levels)) (spent : K) :
    paid budget spent x / x.1 * x.1 = paid budget spent x :=
  div_mul_cancel₀ _ (h.price_pos x mem_cons_self).ne'

/-- A level after which the walk goes on is bought as a whole. -/
theorem paid_eq_of_lt (htolerance : 0 ≤ tolerance)
    (h : ¬ budget - tolerance ≤ spent + paid budget spent x) : paid budget spent x = x.1 * x.2 := by
  refine min_eq_left (not_lt.mp fun hlt => h ?_)
  rw [paid, min_eq_right hlt.le]
  linarith

theorem walk_cons (h : Ascending (x :: levels)) (htolerance : 0 ≤ tolerance) (hs : s.1 ≤ budget) :
    walk tolerance budget (x :: levels) s
      = if budget - tolerance ≤ s.1 + paid budget s.1 x then
          (s.1 + paid budget s.1 x, s.2 + paid budget s.1 x / x.1)
        else walk tolerance budget levels (s.1 + x.1 * x.2, s.2 + x.2) := by
  rw [walk, take_eq h hs, take_mul_price h]
  split_ifs with hstop
  · rfl
  · rw [paid_eq_of_lt htolerance hstop, mul_div_cancel_left₀ _ (h.price_pos x mem_cons_self).ne']

theorem used_cons (h : Ascending (x :: levels)) (htolerance : 0 ≤ tolerance) (hs : s.1 ≤ budget) :
    used tolerance budget (x :: levels) s.1 = (x.1, paid budget s.1 x / x.1)
        :: if budget - tolerance ≤ s.1 + paid budget s.1 x then []
          else used tolerance budget levels (s.1 + x.1 * x.2) := by
  rw [used, take_eq h hs, take_mul_price h]
  split_ifs with hstop
  · rfl
  · rw [paid_eq_of_lt htolerance hstop]

theorem le_budget_of_lt (htolerance : 0 ≤ tolerance)
    (h : ¬ budget - tolerance ≤ s.1 + paid budget s.1 x) : s.1 + x.1 * x.2 ≤ budget := by
  have heq := paid_eq_of_lt htolerance h
  rw [heq] at h
  linarith

section

variable (h : Ascending levels)
include h

variable (htolerance : 0 ≤ tolerance)
include htolerance

section

variable (hs : s.1 ≤ budget)
include hs

/-- **What the walk comes to**: it spends no more than there is to spend, and it buys what is bought
for what it spends. -/
theorem walk_spec :
    s.1 ≤ (walk tolerance budget levels s).1
    ∧ (walk tolerance budget levels s).1 ≤ s.1 + total levels
    ∧ (walk tolerance budget levels s).2
      = s.2 + bought levels ((walk tolerance budget levels s).1 - s.1) := by
  induction levels generalizing s with
  | nil => exact ⟨le_rfl, by simp [walk, total], by simp [walk, bought]⟩
  | cons x levels ih =>
    have hpaid := paid_nonneg h hs
    have hcost : paid budget s.1 x ≤ x.1 * x.2 := min_le_left _ _
    have hrest := h.tail.total_nonneg
    rw [walk_cons h htolerance hs, total_cons]
    split_ifs with hstop
    · dsimp only
      refine ⟨by linarith, by linarith, ?_⟩
      rw [add_sub_cancel_left, bought_of_le h hcost]
    · obtain ⟨hmore, hless, hbought⟩ := ih h.tail (s := (s.1 + x.1 * x.2, s.2 + x.2))
        (le_budget_of_lt htolerance hstop)
      dsimp only at hmore hless hbought
      have hpos := h.cost_pos
      refine ⟨by linarith, by linarith, ?_⟩
      rw [hbought, bought_of_ge h (by linarith), ← sub_sub, add_assoc]

/-- **The budget is spent**, up to the tolerance, exactly when the levels are worth it. -/
theorem spent_iff :
    budget - tolerance ≤ (walk tolerance budget levels s).1
      ↔ budget - tolerance ≤ s.1 + total levels := by
  induction levels generalizing s with
  | nil => simp [walk, total]
  | cons x levels ih =>
    have hcost : paid budget s.1 x ≤ x.1 * x.2 := min_le_left _ _
    have hrest := h.tail.total_nonneg
    rw [walk_cons h htolerance hs, total_cons]
    split_ifs with hstop
    · exact ⟨fun _ => by linarith, fun _ => hstop⟩
    · rw [ih h.tail (le_budget_of_lt htolerance hstop), add_assoc]

/-- **Of a greater budget no less is spent.** -/
theorem walk_mono (hle : budget ≤ budget') :
    (walk tolerance budget levels s).1 ≤ (walk tolerance budget' levels s).1 := by
  induction levels generalizing s with
  | nil => exact le_rfl
  | cons x levels ih =>
    have hpaid : paid budget s.1 x ≤ paid budget' s.1 x := min_le_min_left _ (by linarith)
    rw [walk_cons h htolerance hs, walk_cons h htolerance (hs.trans hle)]
    by_cases hstop : budget - tolerance ≤ s.1 + paid budget s.1 x
    · rw [if_pos hstop]
      split_ifs with hstop'
      · dsimp only
        linarith
      · have hlater := (walk_spec h.tail htolerance (s := (s.1 + x.1 * x.2, s.2 + x.2))
          (le_budget_of_lt htolerance hstop')).1
        have hcost : paid budget s.1 x ≤ x.1 * x.2 := min_le_left _ _
        dsimp only at hlater ⊢
        linarith
    · have heq := paid_eq_of_lt htolerance hstop
      have hstop' : ¬ budget' - tolerance ≤ s.1 + paid budget' s.1 x := by
        have hcost : paid budget' s.1 x ≤ x.1 * x.2 := min_le_left _ _
        rw [heq] at hstop
        linarith
      rw [if_neg hstop, if_neg hstop']
      exact ih h.tail (le_budget_of_lt htolerance hstop)

/-- **What the walk takes** is what it spends and what it buys. -/
theorem walk_eq_used :
    walk tolerance budget levels s = (s.1 + total (used tolerance budget levels s.1),
        s.2 + ((used tolerance budget levels s.1).map Prod.snd).sum) := by
  induction levels generalizing s with
  | nil => simp [walk, used, total]
  | cons x levels ih =>
    have hx := h.price_pos x mem_cons_self
    rw [walk_cons h htolerance hs, used_cons h htolerance hs]
    split_ifs with hstop
    · simp [total, mul_div_cancel₀, hx.ne']
    · rw [ih h.tail (le_budget_of_lt htolerance hstop), total_cons, map_cons, sum_cons]
      rw [paid_eq_of_lt htolerance hstop, mul_div_cancel_left₀ _ hx.ne', add_assoc, add_assoc]

end

/-- The walk takes from the levels in their order, and something from each. -/
theorem used_spec (hs : s.1 < budget) :
    (used tolerance budget levels s.1).map Prod.fst <+: levels.map Prod.fst
    ∧ (∀ x ∈ used tolerance budget levels s.1, 0 < x.2)
    ∧ (levels ≠ [] → used tolerance budget levels s.1 ≠ []) := by
  induction levels generalizing s with
  | nil => exact ⟨prefix_rfl, fun _ hx => (nomatch hx), fun hne => absurd rfl hne⟩
  | cons x levels ih =>
    have hx := h.price_pos x mem_cons_self
    have hpos : 0 < paid budget s.1 x / x.1 := div_pos (lt_min h.cost_pos (sub_pos.mpr hs)) hx
    rw [used_cons h htolerance hs.le]
    split_ifs with hstop
    · refine ⟨by simp, ?_, fun _ => by simp⟩
      rintro y (_ | ⟨_, hy⟩)
      · exact hpos
      · cases hy
    · have hless : s.1 + x.1 * x.2 < budget := by
        have heq := paid_eq_of_lt htolerance hstop
        rw [heq] at hstop
        linarith
      obtain ⟨hstart, htakes, -⟩ := ih h.tail (s := (s.1 + x.1 * x.2, s.2 + x.2)) hless
      refine ⟨?_, ?_, fun _ => by simp⟩
      · rw [map_cons, map_cons, prefix_cons_inj]
        exact hstart
      · rintro y (_ | ⟨_, hy⟩)
        · exact hpos
        · exact htakes y hy

end

/-- **No unit costs more than the last one.** -/
theorem total_le_last {used : List (K × K)} (hordered : used.Pairwise fun x y => x.1 ≤ y.1)
    (htakes : ∀ x ∈ used, 0 < x.2) {last : K × K} (hlast : used.getLast? = some last) :
    total used ≤ last.1 * (used.map Prod.snd).sum := by
  have hle : ∀ x ∈ used, x.1 ≤ last.1 := by
    obtain ⟨front, rfl⟩ := getLast?_eq_some_iff.mp hlast
    intro x hx
    rcases mem_append.mp hx with hfront | hx
    · exact (pairwise_append.mp hordered).2.2 x hfront last (mem_singleton_self last)
    · rw [mem_singleton.mp hx]
  rw [← sum_map_mul_left]
  exact sum_le_sum fun x hx => mul_le_mul_of_nonneg_right (hle x hx) (htakes x hx).le

end Walk

end Ladder
