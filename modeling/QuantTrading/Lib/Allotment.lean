import QuantTrading.Lib.RelativeRounding

/-!
# Allotments

A budget is given out, one after the other: to each what it asks for, or what is left. What is left
is rounded. The sum is what was asked for at most, and the budget at most up to the rounding; where
nothing is rounded it is the budget at most.
-/

namespace Allotment

open List

variable {K : Type} [Field K] [LinearOrder K] [IsStrictOrderedRing K]

/-- What each is given. -/
def allot (r : K → K) : List K → K → List K
  | [], _ => []
  | cap :: caps, left =>
    if 0 < min cap left then min cap left :: allot r caps (r (left - min cap left))
    else 0 :: allot r caps left

variable {r : K → K} {u : K} {caps : List K} {left : K}

omit [IsStrictOrderedRing K] in
theorem sum_allot_cons (cap : K) (caps : List K) (left : K) : (allot r (cap :: caps) left).sum
      = if 0 < min cap left then min cap left + (allot r caps (r (left - min cap left))).sum
        else (allot r caps left).sum := by
  rw [allot]
  split_ifs <;> simp

variable (r left) in
/-- **At most what is asked for.** -/
theorem sum_allot_le_sum (caps : List K) (hcaps : ∀ cap ∈ caps, 0 ≤ cap) :
    (allot r caps left).sum ≤ caps.sum := by
  induction caps generalizing left with
  | nil => exact le_rfl
  | cons cap caps ih =>
    have hrest := fun left => ih left fun c hc => hcaps c (mem_cons_of_mem _ hc)
    rw [sum_allot_cons, sum_cons]
    split_ifs
    · exact add_le_add (min_le_left _ _) (hrest _)
    · exact (hrest left).trans (le_add_of_nonneg_left (hcaps cap mem_cons_self))

omit [IsStrictOrderedRing K] in
theorem sum_allot_of_nonpos (h : left ≤ 0) : (allot r caps left).sum = 0 := by
  induction caps with
  | nil => rfl
  | cons cap caps ih =>
    rw [sum_allot_cons, if_neg (not_lt.mpr ((min_le_right _ _).trans h)), ih]

/-- **At most the budget**, up to one rounding for each. -/
theorem sum_allot_le (hr : Rounding r u) (hleft : 0 ≤ left) (caps : List K) :
    (allot r caps left).sum ≤ (1 + u) ^ caps.length * left := by
  induction caps generalizing left with
  | nil =>
    rw [length_nil, pow_zero, one_mul]
    exact hleft
  | cons cap caps ih =>
    have hone : 1 ≤ (1 + u) ^ caps.length := one_le_pow₀ hr.one_le
    rw [sum_allot_cons, length_cons, pow_succ]
    split_ifs with hpos
    · have hrest : 0 ≤ left - min cap left := sub_nonneg.mpr (min_le_right _ _)
      have hround := hr.abs_round_le (left - min cap left)
      rw [abs_of_nonneg hrest, abs_of_nonneg (hr.round_nonneg hrest)] at hround
      have hfirst : min cap left ≤ (1 + u) ^ caps.length * (1 + u) * min cap left :=
        le_mul_of_one_le_left hpos.le (one_le_mul_of_one_le_of_one_le hone hr.one_le)
      calc min cap left + (allot r caps (r (left - min cap left))).sum
          ≤ min cap left + (1 + u) ^ caps.length * r (left - min cap left) :=
            add_le_add_right (ih (hr.round_nonneg hrest)) _
        _ ≤ min cap left + (1 + u) ^ caps.length * ((1 + u) * (left - min cap left)) :=
            add_le_add_right (mul_le_mul_of_nonneg_left hround (zero_le_one.trans hone)) _
        _ ≤ (1 + u) ^ caps.length * (1 + u) * min cap left
            + (1 + u) ^ caps.length * ((1 + u) * (left - min cap left)) :=
            add_le_add_left hfirst _
        _ = (1 + u) ^ caps.length * (1 + u) * left := by ring
    · refine (ih hleft).trans (mul_le_mul_of_nonneg_right ?_ hleft)
      exact le_mul_of_one_le_right (zero_le_one.trans hone) hr.one_le

/-- **At most the budget**, where differences of what is asked for and what is left stay as they
are. -/
theorem sum_allot_le_of_exact {G : K → Prop} (hsub : ∀ x y, G x → G y → G (x - y))
    (hexact : ∀ x, G x → 0 ≤ x → x ≤ left → r x = x) (hcaps : ∀ cap ∈ caps, G cap) (hG : G left)
    (hleft : 0 ≤ left) : (allot r caps left).sum ≤ left := by
  induction caps generalizing left with
  | nil => exact hleft
  | cons cap caps ih =>
    have hrestcaps := fun c hc => hcaps c (mem_cons_of_mem _ hc)
    rw [sum_allot_cons]
    split_ifs with hpos
    · have hrest : 0 ≤ left - min cap left := sub_nonneg.mpr (min_le_right _ _)
      have hGmin : G (min cap left) := by
        rcases min_choice cap left with h | h
        · rw [h]
          exact hcaps cap mem_cons_self
        · rw [h]
          exact hG
      have hGrest := hsub left (min cap left) hG hGmin
      have hle : left - min cap left ≤ left := sub_le_self _ hpos.le
      rw [hexact _ hGrest hrest hle]
      have hsum := ih (fun x hx hx0 hxle => hexact x hx hx0 (hxle.trans hle)) hrestcaps hGrest hrest
      linarith
    · exact ih hexact hrestcaps hG hleft

end Allotment
