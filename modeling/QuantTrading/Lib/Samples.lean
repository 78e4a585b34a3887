import Mathlib.Algebra.BigOperators.Group.List.Lemmas
import Mathlib.Algebra.Order.BigOperators.Group.List
import Mathlib.Algebra.Order.Field.Basic
import Mathlib.Algebra.Order.Floor.Semiring
import Mathlib.Data.List.Sort
import Mathlib.Tactic.FieldSimp
import Mathlib.Tactic.Linarith

/-!
# Samples

Lists of numbers, with their mean and their quantiles. A quantile lies between two of the numbers in
order, so that the numbers from it on are some, and their mean is not below it
(`quantile_le_mean_tail`).

Numbers that are multiplied in groups are all multiplied (`prod_groups`).
-/

namespace Samples

open List

section Tail

variable {K : Type} [Field K] [LinearOrder K]

def mean (xs : List K) : K := xs.sum / xs.length

/-- **A quantile**, on the line between the two numbers next to it. -/
def quantile [FloorSemiring K] (xs : List K) (q : K) : K :=
  let sorted := xs.insertionSort (· ≤ ·)
  let place := (xs.length - 1) * q
  let below := sorted.getD ⌊place⌋₊ 0
  let above := sorted.getD (min (⌊place⌋₊ + 1) (xs.length - 1)) 0
  below + (above - below) * (place - ⌊place⌋₊)

variable [IsStrictOrderedRing K] {xs : List K} {q : K}

theorem le_mean (hne : xs ≠ []) {a : K} (h : ∀ x ∈ xs, a ≤ x) : a ≤ mean xs := by
  have hpos : (0 : K) < xs.length := by
    rw [Nat.cast_pos]
    exact length_pos_iff.mpr hne
  rw [mean, le_div_iff₀ hpos, mul_comm, ← nsmul_eq_mul]
  exact card_nsmul_le_sum xs a h

variable [FloorSemiring K]

theorem exists_quantile_le (hne : xs ≠ []) (hq0 : 0 ≤ q) (hq1 : q ≤ 1) :
    ∃ x ∈ xs, quantile xs q ≤ x := by
  have hlength : 0 < xs.length := length_pos_iff.mpr hne
  set sorted := xs.insertionSort (· ≤ ·) with hsorted
  have hsame : sorted.length = xs.length := length_insertionSort _ _
  set place := ((xs.length : K) - 1) * q with hplace
  have hcast : (1 : K) ≤ xs.length := by exact_mod_cast hlength
  have hplace0 : 0 ≤ place := mul_nonneg (by linarith) hq0
  have hfloor : ⌊place⌋₊ ≤ xs.length - 1 := by
    refine Nat.floor_le_of_le ?_
    rw [Nat.cast_sub hlength, Nat.cast_one]
    exact mul_le_of_le_one_right (by linarith) hq1
  have hbelow : ⌊place⌋₊ < sorted.length := by omega
  have habove : min (⌊place⌋₊ + 1) (xs.length - 1) < sorted.length := by omega
  refine ⟨sorted.get ⟨_, habove⟩, ?_, ?_⟩
  · exact (mem_insertionSort _).mp (get_mem sorted ⟨_, habove⟩)
  · have hle : sorted.get ⟨_, hbelow⟩ ≤ sorted.get ⟨_, habove⟩ :=
      (pairwise_insertionSort (· ≤ ·) xs).rel_get_of_le (by
        rw [Fin.mk_le_mk]
        omega)
    have hfrac : place - ⌊place⌋₊ ≤ 1 := by linarith [Nat.lt_floor_add_one place]
    have hquantile : quantile xs q = sorted.get ⟨_, hbelow⟩
        + (sorted.get ⟨_, habove⟩ - sorted.get ⟨_, hbelow⟩) * (place - ⌊place⌋₊) := by
      rw [quantile, ← hsorted, ← hplace, getD_eq_getElem?_getD, getD_eq_getElem?_getD,
        getElem?_eq_getElem hbelow, getElem?_eq_getElem habove]
      rfl
    rw [hquantile]
    have := mul_le_of_le_one_right (sub_nonneg.mpr hle) hfrac
    linarith

/-- **The mean of a tail** is not below its quantile. -/
theorem quantile_le_mean_tail (hne : xs ≠ []) (hq0 : 0 ≤ q) (hq1 : q ≤ 1) :
    quantile xs q ≤ mean (xs.filter (quantile xs q ≤ ·)) := by
  obtain ⟨x, hx, hle⟩ := exists_quantile_le hne hq0 hq1
  refine le_mean (ne_nil_of_mem (mem_filter.mpr ⟨hx, decide_eq_true hle⟩)) ?_
  exact fun y hy => of_decide_eq_true (mem_filter.mp hy).2

end Tail

section Groups

variable {κ M : Type} [DecidableEq κ] [CommMonoid M]

variable {keys : List κ}

theorem prod_map_mul_single (hnodup : keys.Nodup) {k : κ} (hk : k ∈ keys) (a : M) (f : κ → M) :
    (keys.map fun x => if k = x then a * f x else f x).prod = a * (keys.map f).prod := by
  induction keys with
  | nil => cases hk
  | cons x keys ih =>
    rw [nodup_cons] at hnodup
    rw [map_cons, prod_cons, map_cons, prod_cons]
    rcases mem_cons.mp hk with rfl | hmem
    · have hrest : (keys.map fun x => if k = x then a * f x else f x) = keys.map f :=
        map_congr_left fun y hy => if_neg fun heq : k = y => hnodup.1 (heq ▸ hy)
      rw [if_pos rfl, hrest, mul_assoc]
    · have hne : ¬ k = x := fun heq => hnodup.1 (heq ▸ hmem)
      rw [if_neg hne, ih hnodup.2 hmem, mul_left_comm]

/-- **Factors that are multiplied in groups are all multiplied.** -/
theorem prod_groups (hnodup : keys.Nodup) (l : List (κ × M)) (hcover : ∀ x ∈ l, x.1 ∈ keys) :
    (keys.map fun k => ((l.filter (·.1 = k)).map Prod.snd).prod).prod = (l.map Prod.snd).prod := by
  induction l with
  | nil => simp
  | cons x l ih =>
    rw [map_cons, prod_cons, ← ih fun y hy => hcover y (mem_cons_of_mem _ hy),
      ← prod_map_mul_single hnodup (hcover x mem_cons_self)]
    congr 1
    refine map_congr_left fun k _ => ?_
    by_cases hk : x.1 = k
    · rw [if_pos hk, filter_cons_of_pos (by simpa using hk), map_cons, prod_cons]
    · rw [if_neg hk, filter_cons_of_neg (by simpa using hk)]

end Groups

end Samples
