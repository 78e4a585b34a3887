import QuantTrading.Lib.SigDigits

/-!
# Sums of costs with rounded arithmetic

A rounding `r` with a relative error of at most `u`. A cost is paid into a sum, rounded twice, and a
share `m / h` of the sum is taken out, through a product, a quotient and a difference that are each
rounded. After `n` of these the sum is what was paid in at most, and not negative, up to a factor of
`(1 + u) ^ (3 * n)` (`Bounded`); and when all is taken out, what is left is within that error
(`Bounded.takeOut_all`).
-/

theorem pow_three_mul_succ {M : Type} [Monoid M] (w : M) (n : ℕ) :
    w ^ (3 * (n + 1)) = w ^ (3 * n) * w ^ 3 := by
  rw [mul_add, pow_add, mul_one]

variable {K : Type} [Field K] [LinearOrder K] [IsStrictOrderedRing K]

/-- A rounding with a relative error of at most `u`. -/
structure Rounding (r : K → K) (u : K) : Prop where
  nonneg : 0 ≤ u
  small : (1 + u) ^ 2 ≤ 2
  error : ∀ x, |r x - x| ≤ u * |x|

/-- A sum that was rounded `n` times, into which `paid` was paid. -/
structure Bounded (u : K) (n : ℕ) (paid cost : K) : Prop where
  paid_nonneg : 0 ≤ paid
  abs_cost_le : |cost| ≤ (1 + u) ^ (3 * n) * paid
  neg_cost_le : -cost ≤ ((1 + u) ^ (3 * n) - 1) * paid

namespace Rounding

variable {r : K → K} {u : K}

/-- **A decimal context** of two digits or more is such a rounding. -/
theorem roundSig {p : ℕ} (hp : 2 ≤ p) :
    Rounding (SigDigits.roundSig p) ((10 : ℚ) ^ (1 - (p : ℤ)) / 2) where
  nonneg := (half_pos (SigDigits.ten_zpow_pos _)).le
  small := by
    have hle : (10 : ℚ) ^ (1 - (p : ℤ)) ≤ 10 ^ (-1 : ℤ) :=
      zpow_le_zpow_right₀ (by norm_num) (by omega)
    have hpos : (0 : ℚ) < 10 ^ (1 - (p : ℤ)) := SigDigits.ten_zpow_pos _
    norm_num at hle
    nlinarith
  error x := by
    rw [mul_comm]
    exact SigDigits.abs_roundSig_sub_le_mul p x

theorem one_le (h : Rounding r u) : 1 ≤ 1 + u := le_add_of_nonneg_right h.nonneg

theorem lt_one (h : Rounding r u) : u < 1 := by
  by_contra hu
  have hsq : (2 : K) ^ 2 ≤ (1 + u) ^ 2 := pow_le_pow_left₀ two_pos.le (by linarith) 2
  linarith [h.small]

theorem exists_factor (h : Rounding r u) (x : K) : ∃ δ, |δ| ≤ u ∧ r x = x * (1 + δ) := by
  by_cases hx : x = 0
  · have hzero := h.error 0
    rw [abs_zero, mul_zero, sub_zero] at hzero
    exact ⟨0, by rw [abs_zero]; exact h.nonneg,
      by rw [hx, abs_eq_zero.mp (le_antisymm hzero (abs_nonneg _)), zero_mul]⟩
  · refine ⟨(r x - x) / x, ?_, by field_simp; ring⟩
    rw [abs_div, div_le_iff₀ (abs_pos.mpr hx)]
    exact h.error x

theorem abs_round_le (h : Rounding r u) (x : K) : |r x| ≤ (1 + u) * |x| := by
  obtain ⟨δ, hδ, hr⟩ := h.exists_factor x
  have hfactor : |1 + δ| ≤ 1 + u := by
    have htriangle := abs_add_le 1 δ
    rw [abs_one] at htriangle
    linarith
  rw [hr, abs_mul, mul_comm]
  exact mul_le_mul_of_nonneg_right hfactor (abs_nonneg x)

variable {x : K}

variable (h : Rounding r u)
include h

theorem round_pos (hx : 0 < x) : 0 < r x := by
  obtain ⟨δ, hδ, hr⟩ := h.exists_factor x
  rw [hr]
  exact mul_pos hx (by linarith [(abs_le.mp hδ).1, h.lt_one])

theorem round_nonneg (hx : 0 ≤ x) : 0 ≤ r x := by
  obtain ⟨δ, hδ, hr⟩ := h.exists_factor x
  rw [hr]
  exact mul_nonneg hx (by linarith [(abs_le.mp hδ).1, h.lt_one])

theorem eq_zero_of_round (hx : r x = 0) : x = 0 := by
  obtain ⟨δ, hδ, hr⟩ := h.exists_factor x
  rw [hr] at hx
  refine (mul_eq_zero.mp hx).resolve_right fun hfactor => ?_
  linarith [(abs_le.mp hδ).1, h.lt_one]

theorem neg_round_le (x : K) : -r x ≤ (1 + u) * max (-x) 0 := by
  rcases le_total 0 x with hx | hx
  · rw [max_eq_right (neg_nonpos.mpr hx), mul_zero]
    exact neg_nonpos.mpr (h.round_nonneg hx)
  · rw [max_eq_left (neg_nonneg.mpr hx), ← abs_of_nonpos hx]
    exact (neg_le_abs _).trans (h.abs_round_le x)

/-- **Taking a share out** of a cost multiplies it by a factor that is at most `1 + u`, and negative
by rounding errors at most; taking all out leaves such an error. -/
theorem exists_takeOut (cost : K) {m held : K} (hm : 0 ≤ m) (hle : m ≤ held)
    (hheld : 0 < held) : ∃ k, r (cost - r (r (cost * m) / held)) = cost * k
      ∧ -((1 + u) ^ 3 - (1 + u)) ≤ k ∧ k ≤ 1 + u ∧ (m = held → |k| ≤ (1 + u) ^ 3 - (1 + u)) := by
  obtain ⟨δ₁, h₁, hr₁⟩ := h.exists_factor (cost * m)
  obtain ⟨δ₂, h₂, hr₂⟩ := h.exists_factor (r (cost * m) / held)
  obtain ⟨δ₃, h₃, hr₃⟩ := h.exists_factor (cost - r (r (cost * m) / held))
  set share := m / held with hshare
  have hshare0 : 0 ≤ share := div_nonneg hm hheld.le
  have hshare1 : share ≤ 1 := (div_le_one hheld).mpr hle
  set e := (1 + u) ^ 2 - 1 with he
  have he0 : 0 ≤ e := by nlinarith [h.nonneg]
  have he1 : e ≤ 1 := by linarith [h.small]
  -- the share that is taken, with both of its errors
  set θ := (1 + δ₁) * (1 + δ₂) - 1 with hθ
  have hθle : |θ| ≤ e := by
    have hexpand : θ = δ₁ + δ₂ + δ₁ * δ₂ := by rw [hθ]; ring
    have hprod : |δ₁ * δ₂| ≤ u * u := by
      rw [abs_mul]
      exact mul_le_mul h₁ h₂ (abs_nonneg _) h.nonneg
    have htriangle := (abs_add_le (δ₁ + δ₂) (δ₁ * δ₂)).trans (add_le_add_left (abs_add_le δ₁ δ₂) _)
    rw [hexpand, he]
    nlinarith
  have hleft : cost - r (r (cost * m) / held) = cost * (1 - share * (1 + θ)) := by
    rw [hr₂, hr₁, hshare, hθ]
    field_simp
    ring
  have hθ' := abs_le.mp hθle
  have hf1 : 1 - share * (1 + θ) ≤ 1 := by nlinarith
  have hf0 : -e ≤ 1 - share * (1 + θ) := by nlinarith
  have h₃' := abs_le.mp h₃
  have hpow : (1 + u) ^ 3 - (1 + u) = e * (1 + u) := by rw [he]; ring
  refine ⟨(1 - share * (1 + θ)) * (1 + δ₃), by rw [hr₃, hleft, mul_assoc], ?_, ?_, fun hall => ?_⟩
  · rw [hpow]
    nlinarith [h.lt_one]
  · nlinarith [h.lt_one]
  · have hone : share = 1 := by rw [hshare, hall, div_self hheld.ne']
    rw [hone, one_mul, sub_add_cancel_left, abs_mul, abs_neg, hpow]
    refine mul_le_mul hθle ?_ (abs_nonneg _) he0
    rw [abs_of_nonneg (by linarith [h.lt_one])]
    linarith

/-- **What is taken out is accounted for** up to the errors of four roundings: what is received is
the gain and what the cost gets less. -/
theorem abs_received_le (received basis cost realized : K) :
    |received - ((r (realized + r (r received - basis)) - realized) + (cost - r (cost - basis)))|
      ≤ u * (|received| + |r received - basis| + |realized + r (r received - basis)|
        + |cost - basis|) := by
  have hsplit : received
      - ((r (realized + r (r received - basis)) - realized) + (cost - r (cost - basis)))
      = (r (cost - basis) - (cost - basis)) - (r received - received)
        - (r (r received - basis) - (r received - basis))
        - (r (realized + r (r received - basis)) - (realized + r (r received - basis))) := by
    ring
  have h₁ := abs_le.mp (h.error (cost - basis))
  have h₂ := abs_le.mp (h.error received)
  have h₃ := abs_le.mp (h.error (r received - basis))
  have h₄ := abs_le.mp (h.error (realized + r (r received - basis)))
  rw [hsplit]
  exact abs_le.mpr ⟨by linarith, by linarith⟩

end Rounding

namespace Bounded

variable {r : K → K} {u : K} {n : ℕ} {paid cost : K}

theorem zero (u : K) : Bounded u 0 0 0 := ⟨le_rfl, by simp, by simp⟩

section

variable (h : Bounded u n paid cost)
include h

variable (hr : Rounding r u)
include hr

theorem small_succ {x : K} (hle : x ≤ ((1 + u) ^ (3 * n) - 1) * paid) :
    (1 + u) * x ≤ ((1 + u) ^ (3 * (n + 1)) - 1) * paid := by
  have hw := hr.one_le
  have hbase : 1 ≤ (1 + u) ^ (3 * n) := one_le_pow₀ hw
  have hcube : 1 + u ≤ (1 + u) ^ 3 := le_self_pow₀ hw (by norm_num)
  rw [pow_three_mul_succ]
  calc (1 + u) * x ≤ (1 + u) * (((1 + u) ^ (3 * n) - 1) * paid) :=
        mul_le_mul_of_nonneg_left hle (by linarith)
    _ = ((1 + u) ^ (3 * n) * (1 + u) - (1 + u)) * paid := by ring
    _ ≤ ((1 + u) ^ (3 * n) * (1 + u) ^ 3 - 1) * paid := by
        refine mul_le_mul_of_nonneg_right ?_ h.paid_nonneg
        nlinarith

theorem abs_succ :
    (1 + u) * |cost| ≤ (1 + u) ^ (3 * (n + 1)) * paid := by
  have hw := hr.one_le
  have hcube : 1 + u ≤ (1 + u) ^ 3 := le_self_pow₀ hw (by norm_num)
  rw [pow_three_mul_succ]
  calc (1 + u) * |cost| ≤ (1 + u) * ((1 + u) ^ (3 * n) * paid) :=
        mul_le_mul_of_nonneg_left h.abs_cost_le (by linarith)
    _ = (1 + u) ^ (3 * n) * (1 + u) * paid := by ring
    _ ≤ (1 + u) ^ (3 * n) * (1 + u) ^ 3 * paid := by
        refine mul_le_mul_of_nonneg_right ?_ h.paid_nonneg
        exact mul_le_mul_of_nonneg_left hcube (by positivity)

theorem error_succ :
    ((1 + u) ^ 3 - (1 + u)) * |cost| ≤ ((1 + u) ^ (3 * (n + 1)) - 1) * paid := by
  have hw := hr.one_le
  have hbase : 1 ≤ (1 + u) ^ (3 * n) := one_le_pow₀ hw
  have hcube : 1 + u ≤ (1 + u) ^ 3 := le_self_pow₀ hw (by norm_num)
  rw [pow_three_mul_succ]
  calc ((1 + u) ^ 3 - (1 + u)) * |cost|
      ≤ ((1 + u) ^ 3 - (1 + u)) * ((1 + u) ^ (3 * n) * paid) :=
        mul_le_mul_of_nonneg_left h.abs_cost_le (by linarith)
    _ = ((1 + u) ^ (3 * n) * (1 + u) ^ 3 - (1 + u) ^ (3 * n) * (1 + u)) * paid := by ring
    _ ≤ ((1 + u) ^ (3 * n) * (1 + u) ^ 3 - 1) * paid := by
        refine mul_le_mul_of_nonneg_right ?_ h.paid_nonneg
        nlinarith

/-- The bound below zero, for a cost that may be positive. -/
theorem max_neg_le :
    max (-cost) 0 ≤ ((1 + u) ^ (3 * n) - 1) * paid :=
  max_le h.neg_cost_le (mul_nonneg (sub_nonneg.mpr (one_le_pow₀ hr.one_le)) h.paid_nonneg)

/-- **After a payment.** -/
theorem pay {amount : K} (hamount : 0 ≤ amount) :
    Bounded u (n + 1) (paid + amount) (r (cost + r amount)) where
  paid_nonneg := add_nonneg h.paid_nonneg hamount
  abs_cost_le := by
    have hw := hr.one_le
    have hround := hr.abs_round_le amount
    rw [abs_of_nonneg hamount] at hround
    have hsquare : (1 + u) * (1 + u) ≤ (1 + u) ^ (3 * (n + 1)) := by
      rw [← sq]
      exact pow_le_pow_right₀ hw (by omega)
    calc |r (cost + r amount)| ≤ (1 + u) * |cost + r amount| := hr.abs_round_le _
      _ ≤ (1 + u) * |cost| + (1 + u) * ((1 + u) * amount) := by
          rw [← mul_add]
          refine mul_le_mul_of_nonneg_left ?_ (by linarith)
          exact (abs_add_le _ _).trans (add_le_add_right hround _)
      _ ≤ (1 + u) ^ (3 * (n + 1)) * paid + (1 + u) ^ (3 * (n + 1)) * amount := by
          refine add_le_add (h.abs_succ hr) ?_
          rw [← mul_assoc]
          exact mul_le_mul_of_nonneg_right hsquare hamount
      _ = (1 + u) ^ (3 * (n + 1)) * (paid + amount) := by ring
  neg_cost_le := by
    have hbase : 1 ≤ (1 + u) ^ (3 * (n + 1)) := one_le_pow₀ hr.one_le
    have hpaid := hr.round_nonneg hamount
    calc -r (cost + r amount) ≤ (1 + u) * max (-(cost + r amount)) 0 := hr.neg_round_le _
      _ ≤ (1 + u) * max (-cost) 0 := by
          refine mul_le_mul_of_nonneg_left ?_ (by linarith [hr.one_le])
          exact max_le_max_right 0 (by linarith)
      _ ≤ ((1 + u) ^ (3 * (n + 1)) - 1) * paid := h.small_succ hr (h.max_neg_le hr)
      _ ≤ ((1 + u) ^ (3 * (n + 1)) - 1) * (paid + amount) :=
          mul_le_mul_of_nonneg_left (by linarith) (by linarith)

end

variable {held : K}

/-- **After a share is taken out.** -/
theorem takeOut (h : Bounded u n paid cost) (hr : Rounding r u) {m : K} (hm : 0 ≤ m)
    (hle : m ≤ held) (hheld : 0 < held) :
    Bounded u (n + 1) paid (r (cost - r (r (cost * m) / held))) := by
  obtain ⟨k, hk, hbelow, habove, -⟩ := hr.exists_takeOut cost hm hle hheld
  have hw := hr.one_le
  rw [hk]
  refine ⟨h.paid_nonneg, ?_, ?_⟩
  · have habs : |k| ≤ 1 + u := abs_le.mpr ⟨by nlinarith [hr.small], habove⟩
    rw [abs_mul, mul_comm]
    exact (mul_le_mul_of_nonneg_right habs (abs_nonneg cost)).trans (h.abs_succ hr)
  · rcases le_total 0 cost with hcost | hcost
    · have herror := h.error_succ hr
      rw [abs_of_nonneg hcost] at herror
      nlinarith
    · have hsmall := h.small_succ hr (h.max_neg_le hr)
      rw [max_eq_left (neg_nonneg.mpr hcost)] at hsmall
      nlinarith

/-- **When all is taken out**, an error is left. -/
theorem takeOut_all (h : Bounded u n paid cost) (hr : Rounding r u) (hheld : 0 < held) :
    |r (cost - r (r (cost * held) / held))| ≤ ((1 + u) ^ (3 * (n + 1)) - 1) * paid := by
  obtain ⟨k, hk, -, -, hall⟩ := hr.exists_takeOut cost hheld.le le_rfl hheld
  rw [hk, abs_mul, mul_comm]
  exact (mul_le_mul_of_nonneg_right (hall rfl) (abs_nonneg cost)).trans (h.error_succ hr)

end Bounded
