import Mathlib.Algebra.Order.Floor.Ring
import Mathlib.Algebra.Order.BigOperators.Group.List

/-!
# Taking displayed depth in increments

A side of a book is a list of levels, the best price first, each with the
quantity displayed there. An order walks along it and takes from each level
what it still wants, rounded down to a multiple of the increment, until nothing
is left to want. What it takes is a multiple of the increment at every level,
never more than the level displays, and it reaches a level only when the levels
before it are taken whole.
-/

namespace Depth

open List

variable {K : Type} [Field K] [LinearOrder K] [IsStrictOrderedRing K] [FloorRing K]

/-- The value is a multiple of the increment. -/
def IsMultiple (inc x : K) : Prop := ∃ n : ℤ, x = n * inc

/-- The largest multiple of the increment that the value reaches. -/
def multiple (inc x : K) : K := ⌊x / inc⌋ * inc

variable {inc x : K}

omit [LinearOrder K] [IsStrictOrderedRing K] [FloorRing K] in
theorem IsMultiple.sub {y : K} (hx : IsMultiple inc x) (hy : IsMultiple inc y) :
    IsMultiple inc (x - y) := by
  obtain ⟨m, rfl⟩ := hx
  obtain ⟨n, rfl⟩ := hy
  exact ⟨m - n, by rw [Int.cast_sub, sub_mul]⟩

omit [IsStrictOrderedRing K] in
theorem isMultiple_multiple (inc x : K) : IsMultiple inc (multiple inc x) := ⟨⌊x / inc⌋, rfl⟩

theorem multiple_le (h : 0 < inc) (x : K) : multiple inc x ≤ x :=
  (le_div_iff₀ h).mp (Int.floor_le (x / inc))

theorem lt_multiple_add (h : 0 < inc) (x : K) : x < multiple inc x + inc := by
  have hfloor := (div_lt_iff₀ h).mp (Int.lt_floor_add_one (x / inc))
  calc x < (⌊x / inc⌋ + 1) * inc := hfloor
    _ = multiple inc x + inc := by rw [add_mul, one_mul]; rfl

theorem multiple_nonneg (h : 0 < inc) (hx : 0 ≤ x) : 0 ≤ multiple inc x :=
  mul_nonneg (by exact_mod_cast Int.floor_nonneg.mpr (div_nonneg hx h.le)) h.le

theorem IsMultiple.multiple_eq (h : 0 < inc) (hx : IsMultiple inc x) : multiple inc x = x := by
  obtain ⟨n, rfl⟩ := hx
  unfold multiple
  rw [mul_div_assoc, div_self h.ne', mul_one, Int.floor_intCast]

theorem IsMultiple.le_of_pos (h : 0 < inc) (hx : IsMultiple inc x) (hpos : 0 < x) : inc ≤ x := by
  obtain ⟨n, rfl⟩ := hx
  have hn : (0 : K) < n := pos_of_mul_pos_left hpos h.le
  have hone : (1 : K) ≤ n := by exact_mod_cast (show (0 : ℤ) < n by exact_mod_cast hn)
  calc inc = 1 * inc := (one_mul inc).symm
    _ ≤ n * inc := mul_le_mul_of_nonneg_right hone h.le

variable {P : Type}

/-- **The walk along the levels**: what is taken at each price, and what the
order still wants at the end. -/
def walk (inc : K) : K → List (P × K) → List (P × K) × K
  | r, [] => ([], r)
  | r, (p, q) :: levels =>
    if multiple inc (min r q) = 0 then walk inc r levels
    else if r - multiple inc (min r q) = 0 then ([(p, multiple inc (min r q))], 0)
    else
      ((p, multiple inc (min r q)) :: (walk inc (r - multiple inc (min r q)) levels).1,
        (walk inc (r - multiple inc (min r q)) levels).2)

/-- The quantities of some levels together. -/
def total (levels : List (P × K)) : K := (levels.map Prod.snd).sum

omit [LinearOrder K] [IsStrictOrderedRing K] [FloorRing K] in
@[simp] theorem total_nil : total ([] : List (P × K)) = 0 := rfl

omit [LinearOrder K] [IsStrictOrderedRing K] [FloorRing K] in
@[simp] theorem total_cons (l : P × K) (levels : List (P × K)) :
    total (l :: levels) = l.2 + total levels := sum_cons

omit [IsStrictOrderedRing K] in
/-- **What is taken and what is still wanted** make up the order. -/
theorem walk_total (inc r : K) (levels : List (P × K)) :
    total (walk inc r levels).1 + (walk inc r levels).2 = r := by
  induction levels generalizing r with
  | nil => exact zero_add r
  | cons l levels ih =>
    obtain ⟨p, q⟩ := l
    unfold walk
    split_ifs with h0 hdone
    · exact ih r
    · rw [total_cons, total_nil, add_zero, add_zero]
      exact (sub_eq_zero.mp hdone).symm
    · rw [total_cons, add_assoc, ih]
      exact add_sub_cancel _ _

variable {r : K}

omit [IsStrictOrderedRing K] in
/-- The levels that are reached are levels of the side, in their order. -/
theorem walk_sublist (inc r : K) (levels : List (P × K)) :
    ((walk inc r levels).1.map Prod.fst).Sublist (levels.map Prod.fst) := by
  induction levels generalizing r with
  | nil => exact List.Sublist.refl _
  | cons l levels ih =>
    obtain ⟨p, q⟩ := l
    unfold walk
    split_ifs
    · exact (ih r).cons p
    · exact (nil_sublist _).cons_cons p
    · exact (ih _).cons_cons p

variable {levels : List (P × K)}

variable {e : K} {p : P}

/-- **What is taken at a level** is a positive multiple of the increment, and
not more than the level displays. -/
theorem walk_mem (h : 0 < inc) (hr : 0 ≤ r) (hq : ∀ l ∈ levels, 0 ≤ l.2)
    (he : (p, e) ∈ (walk inc r levels).1) :
    IsMultiple inc e ∧ 0 < e ∧ ∃ q, (p, q) ∈ levels ∧ e ≤ q := by
  induction levels generalizing r with
  | nil => exact nomatch he
  | cons l levels ih =>
    obtain ⟨p₀, q₀⟩ := l
    have hq₀ : 0 ≤ q₀ := hq _ mem_cons_self
    have htail : ∀ l ∈ levels, 0 ≤ l.2 := fun l hl => hq l (mem_cons_of_mem _ hl)
    have hhead : multiple inc (min r q₀) ≠ 0 → IsMultiple inc (multiple inc (min r q₀)) ∧
        0 < multiple inc (min r q₀) ∧
          ∃ q, (p₀, q) ∈ (p₀, q₀) :: levels ∧ multiple inc (min r q₀) ≤ q := by
      intro hne
      refine ⟨isMultiple_multiple _ _, (multiple_nonneg h (le_min hr hq₀)).lt_of_ne' hne, q₀,
        mem_cons_self, (multiple_le h _).trans (min_le_right r q₀)⟩
    have hlater : ∀ r', 0 ≤ r' → (p, e) ∈ (walk inc r' levels).1 →
        IsMultiple inc e ∧ 0 < e ∧ ∃ q, (p, q) ∈ (p₀, q₀) :: levels ∧ e ≤ q := by
      intro r' hr' hmem
      obtain ⟨hm, hpos, q, hmemq, hle⟩ := ih hr' htail hmem
      exact ⟨hm, hpos, q, mem_cons_of_mem _ hmemq, hle⟩
    unfold walk at he
    split_ifs at he with h0 hdone
    · exact hlater r hr he
    · obtain ⟨rfl, rfl⟩ := Prod.mk.inj (mem_singleton.mp he)
      exact hhead h0
    · obtain hfirst | hrest := mem_cons.mp he
      · obtain ⟨rfl, rfl⟩ := Prod.mk.inj hfirst
        exact hhead h0
      · exact hlater _ (sub_nonneg.mpr ((multiple_le h _).trans (min_le_left r q₀))) hrest

/-- An order for less than the increment takes nothing. -/
theorem walk_of_lt (h : 0 < inc) (hr : 0 ≤ r) (hlt : r < inc) (hq : ∀ l ∈ levels, 0 ≤ l.2) :
    walk inc r levels = ([], r) := by
  induction levels with
  | nil => rfl
  | cons l levels ih =>
    obtain ⟨p, q⟩ := l
    have hzero : multiple inc (min r q) = 0 := by
      by_contra hne
      have hpos : 0 < multiple inc (min r q) :=
        (multiple_nonneg h (le_min hr (hq _ mem_cons_self))).lt_of_ne' hne
      have hle := (isMultiple_multiple inc (min r q)).le_of_pos h hpos
      exact absurd (hle.trans ((multiple_le h _).trans (min_le_left r q))) (not_le.mpr hlt)
    unfold walk
    rw [if_pos hzero]
    exact ih (fun l hl => hq l (mem_cons_of_mem _ hl))

variable {q : K}

/-- A level that is not taken whole leaves the order wanting less than the
increment. -/
theorem rest_lt_of_not_whole (h : 0 < inc) (hq : IsMultiple inc q)
    (hne : multiple inc (min r q) ≠ q) : r - multiple inc (min r q) < inc := by
  rcases le_total r q with hle | hle
  · rw [min_eq_left hle]
    exact sub_lt_iff_lt_add'.mpr (lt_multiple_add h r)
  · rw [min_eq_right hle] at hne
    exact absurd (hq.multiple_eq h) hne

/-- **The best price first**: when something is taken at a level, every level
before it is taken whole. -/
theorem walk_best_first (h : 0 < inc) (hr : 0 ≤ r) {before : List (P × K)} {p' : P} {q' : K}
    (hq : ∀ l ∈ before ++ (p, q) :: levels, 0 < l.2 ∧ IsMultiple inc l.2)
    (hnodup : ((before ++ (p, q) :: levels).map Prod.fst).Nodup) (hp : (p', q') ∈ levels)
    (he : (p', e) ∈ (walk inc r (before ++ (p, q) :: levels)).1) :
    (p, q) ∈ (walk inc r (before ++ (p, q) :: levels)).1 := by
  induction before generalizing r with
  | nil =>
    have hnonneg : ∀ l ∈ levels, 0 ≤ l.2 := fun l hl => (hq l (mem_cons_of_mem _ hl)).1.le
    have hqm := (hq (p, q) mem_cons_self).2
    have hmem : p' ∈ levels.map Prod.fst := mem_map_of_mem hp
    have hpne : p ≠ p' := fun hpp => (nodup_cons.mp hnodup).1 (hpp ▸ hmem)
    have hrest : 0 ≤ r - multiple inc (min r q) :=
      sub_nonneg.mpr ((multiple_le h _).trans (min_le_left r q))
    by_cases hwhole : multiple inc (min r q) = q
    · have hne : multiple inc (min r q) ≠ 0 := by
        rw [hwhole]
        exact (hq (p, q) mem_cons_self).1.ne'
      rw [nil_append]
      unfold walk
      rw [if_neg hne]
      split_ifs
      · exact mem_singleton.mpr (by rw [hwhole])
      · exact mem_cons.mpr (.inl (by rw [hwhole]))
    · have hlt := rest_lt_of_not_whole h hqm hwhole
      rw [nil_append] at he
      unfold walk at he
      split_ifs at he with h0 hdone
      · rw [h0, sub_zero] at hlt
        rw [walk_of_lt h hr hlt hnonneg] at he
        exact nomatch he
      · exact absurd (congrArg Prod.fst (mem_singleton.mp he)) hpne.symm
      · obtain hfirst | hlater := mem_cons.mp he
        · exact absurd (congrArg Prod.fst hfirst) hpne.symm
        · rw [walk_of_lt h hrest hlt hnonneg] at hlater
          exact nomatch hlater
  | cons l before ih =>
    obtain ⟨p₀, q₀⟩ := l
    rw [cons_append] at hq hnodup he ⊢
    have hq' : ∀ l ∈ before ++ (p, q) :: levels, 0 < l.2 ∧ IsMultiple inc l.2 :=
      fun l hl => hq l (mem_cons_of_mem _ hl)
    have hnodup' := (nodup_cons.mp hnodup).2
    have hne : p₀ ≠ p' := by
      rintro rfl
      have hmem : (p₀, q') ∈ before ++ (p, q) :: levels := mem_append_right _ (mem_cons_of_mem _ hp)
      exact (nodup_cons.mp hnodup).1 (mem_map.mpr ⟨_, hmem, rfl⟩)
    unfold walk at he ⊢
    split_ifs at he ⊢ with h0 hdone
    · exact ih hr hq' hnodup' he
    · exact absurd (congrArg Prod.fst (mem_singleton.mp he)) hne.symm
    · obtain hfirst | hlater := mem_cons.mp he
      · exact absurd (congrArg Prod.fst hfirst) hne.symm
      · exact mem_cons_of_mem _ (ih
          (sub_nonneg.mpr ((multiple_le h _).trans (min_le_left r q₀))) hq' hnodup' hlater)

/-- **Enough depth fills the order**: an order for a multiple of the increment
that the levels can meet together wants nothing at the end. -/
theorem walk_complete (h : 0 < inc) (hr : 0 ≤ r) (hm : IsMultiple inc r)
    (hq : ∀ l ∈ levels, 0 ≤ l.2 ∧ IsMultiple inc l.2) (henough : r ≤ total levels) :
    (walk inc r levels).2 = 0 := by
  induction levels generalizing r with
  | nil => exact le_antisymm henough hr
  | cons l levels ih =>
    obtain ⟨p, q⟩ := l
    have hq' : ∀ l ∈ levels, 0 ≤ l.2 ∧ IsMultiple inc l.2 := fun l hl => hq l (mem_cons_of_mem _ hl)
    have hmin : multiple inc (min r q) = min r q := by
      rcases min_choice r q with hmin | hmin <;> rw [hmin]
      · exact hm.multiple_eq h
      · exact (hq (p, q) mem_cons_self).2.multiple_eq h
    have hle : r - min r q ≤ total levels := by
      rw [total_cons] at henough
      rcases le_total r q with hrq | hrq
      · rw [min_eq_left hrq, sub_self]
        exact sum_nonneg fun x hx => by
          obtain ⟨l, hl, rfl⟩ := mem_map.mp hx
          exact (hq' l hl).1
      · rw [min_eq_right hrq]
        exact sub_le_iff_le_add'.mpr henough
    unfold walk
    rw [hmin]
    split_ifs with h0 hdone
    · rw [h0, sub_zero] at hle
      exact ih hr hm hq' hle
    · rfl
    · exact ih (sub_nonneg.mpr (min_le_left r q))
        (hm.sub (hmin ▸ isMultiple_multiple inc (min r q))) hq' hle

end Depth
