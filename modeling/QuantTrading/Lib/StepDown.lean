import Mathlib.Data.Finset.Max
import Mathlib.Data.Nat.Cast.Order.Ring
import Mathlib.Order.Interval.Finset.Fin

/-!
# The step-down maximum

The adjustment of a family of values by how many of them are at least as large: the adjusted value
at a place is the greatest, over the values up to the one there, of the value times that count,
bounded by one. It is stated without an order of the places, so that a permutation of the family
permutes the adjusted values (`adjusted_comp`). Along any order of the places in which the values
do not decrease, it is the running maximum that counts positions (`isGreatest_adjusted`).
-/

namespace StepDown

open Finset

variable {α : Type} [LinearOrder α] {n : ℕ}

/-! ## Counts -/

/-- How many values are at least `u`. -/
def atLeast (p : Fin n → α) (u : α) : ℕ := #{i | u ≤ p i}

variable {p : Fin n → α}

theorem atLeast_comp (σ : Equiv.Perm (Fin n)) (u : α) : atLeast (p ∘ σ) u = atLeast p u :=
  card_equiv σ fun i => by simp

theorem atLeast_pos (i : Fin n) : 0 < atLeast p (p i) :=
  card_pos.mpr ⟨i, by simp⟩

/-- Along values that do not decrease, at least as large are those from some place on. -/
theorem exists_first (hp : Monotone p) (j : Fin n) :
    ∃ first ≤ j, p first = p j ∧ atLeast p (p j) = n - first ∧ ∀ k, p j ≤ p k → first ≤ k := by
  have hj : j ∈ ({i | p j ≤ p i} : Finset (Fin n)) := by simp
  let first := Finset.min' {i | p j ≤ p i} ⟨j, hj⟩
  have hleast : ∀ k, p j ≤ p k → first ≤ k := fun k hk => min'_le _ k (by simpa using hk)
  have hmem : p j ≤ p first := by
    simpa using min'_mem ({i | p j ≤ p i} : Finset (Fin n)) ⟨j, hj⟩
  have hset : ({i | p j ≤ p i} : Finset (Fin n)) = Ici first := by
    ext k
    simp only [mem_filter, mem_univ, true_and, mem_Ici]
    exact ⟨hleast k, fun hk => hmem.trans (hp hk)⟩
  refine ⟨first, hleast j le_rfl, le_antisymm (hp (hleast j le_rfl)) hmem, ?_, hleast⟩
  rw [atLeast, hset, Fin.card_Ici]

/-- From a place on, values that do not decrease are at least the value there. -/
theorem le_atLeast (hp : Monotone p) (j : Fin n) : n - j ≤ atLeast p (p j) := by
  rw [← Fin.card_Ici]
  refine card_le_card fun k hk => ?_
  simpa using hp (mem_Ici.mp hk)

/-! ## The adjusted values -/

section Adjusted

variable [Semiring α] (p)

/-- **The step-down maximum** of a family. -/
def adjusted (p : Fin n → α) (i : Fin n) : α :=
  Finset.sup' {j | p j ≤ p i} ⟨i, by simp⟩ fun j => min 1 (atLeast p (p j) * p j)

variable {p}

variable {i : Fin n}

variable {j : Fin n}

theorem le_adjusted_of_le (h : p j ≤ p i) : min 1 (atLeast p (p j) * p j) ≤ adjusted p i :=
  le_sup' (fun j => min 1 (atLeast p (p j) * p j)) (by simpa using h)

theorem exists_adjusted (p : Fin n → α) (i : Fin n) :
    ∃ j, p j ≤ p i ∧ adjusted p i = min 1 (atLeast p (p j) * p j) := by
  have hne : (Finset.univ.filter fun j => p j ≤ p i).Nonempty := ⟨i, by simp⟩
  obtain ⟨j, hj, heq⟩ := exists_mem_eq_sup' hne fun j => min 1 (atLeast p (p j) * p j)
  exact ⟨j, by simpa using hj, heq⟩

/-- **A permutation of the family permutes the adjusted values.** -/
theorem adjusted_comp (σ : Equiv.Perm (Fin n)) (i : Fin n) :
    adjusted (p ∘ σ) i = adjusted p (σ i) := by
  apply le_antisymm
  · obtain ⟨j, hj, heq⟩ := exists_adjusted (p ∘ σ) i
    rw [heq, atLeast_comp]
    exact le_adjusted_of_le hj
  · obtain ⟨j, hj, heq⟩ := exists_adjusted p (σ i)
    have hle : (p ∘ σ) (σ.symm j) ≤ (p ∘ σ) i := by simpa using hj
    have hterm := le_adjusted_of_le hle
    rw [atLeast_comp, Function.comp_apply, σ.apply_symm_apply] at hterm
    rw [heq]
    exact hterm

theorem adjusted_le_one (p : Fin n → α) (i : Fin n) : adjusted p i ≤ 1 :=
  sup'_le _ _ fun _ _ => min_le_left _ _

theorem adjusted_mono (h : p i ≤ p j) : adjusted p i ≤ adjusted p j := by
  obtain ⟨k, hk, heq⟩ := exists_adjusted p i
  rw [heq]
  exact le_adjusted_of_le (hk.trans h)

variable [IsStrictOrderedRing α]

theorem le_adjusted (h0 : 0 ≤ p i) (h1 : p i ≤ 1) : p i ≤ adjusted p i := by
  have hcount : (1 : α) ≤ atLeast p (p i) := by exact_mod_cast atLeast_pos i
  have hterm : p i ≤ atLeast p (p i) * p i := le_mul_of_one_le_left h0 hcount
  exact (le_min h1 hterm).trans (le_adjusted_of_le le_rfl)

theorem isGreatest_of_monotone (hp : Monotone p) (h0 : ∀ i, 0 ≤ p i) (k : Fin n) :
    IsGreatest ((fun j : Fin n => min 1 ((n - j : ℕ) * p j)) '' Set.Iic k) (adjusted p k) := by
  constructor
  · obtain ⟨j, hj, heq⟩ := exists_adjusted p k
    obtain ⟨first, -, hvalue, hcount, hleast⟩ := exists_first hp j
    refine ⟨first, hleast k hj, ?_⟩
    show min 1 (((n - first : ℕ) : α) * p first) = _
    rw [heq, hcount, hvalue]
  · rintro x ⟨j, hj, rfl⟩
    have hcount : ((n - j : ℕ) : α) ≤ atLeast p (p j) := by exact_mod_cast le_atLeast hp j
    exact (min_le_min le_rfl (mul_le_mul_of_nonneg_right hcount (h0 j))).trans
      (le_adjusted_of_le (hp hj))

/-- **The step-down definition**: along any order in which the values do not decrease, the adjusted
value is the greatest so far of the value times the number of places left. -/
theorem isGreatest_adjusted {σ : Equiv.Perm (Fin n)} (hσ : Monotone (p ∘ σ)) (h0 : ∀ i, 0 ≤ p i)
    (k : Fin n) : IsGreatest ((fun j : Fin n => min 1 ((n - j : ℕ) * p (σ j))) '' Set.Iic k)
      (adjusted p (σ k)) := by
  rw [← adjusted_comp]
  exact isGreatest_of_monotone hσ (fun i => h0 (σ i)) k

end Adjusted

end StepDown
