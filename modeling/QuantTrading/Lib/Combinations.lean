import Mathlib.Data.List.Sublists

/-!
# Combinations

The sublists of a given length of a list, in the order in which a program
enumerates them: those with the first item before those without it. They are
the lists of `List.sublistsLen` in another order, and what is said of those is
taken over. What is added is how many of them have a given item.
-/

namespace List

variable {α : Type}

/-- **The combinations** of `k` items of a list, in lexicographic order of
their places. -/
def combinations : List α → ℕ → List (List α)
  | _, 0 => [[]]
  | [], _ + 1 => []
  | a :: l, k + 1 => (combinations l k).map (a :: ·) ++ combinations l (k + 1)

@[simp] theorem combinations_zero (l : List α) : combinations l 0 = [[]] := by
  unfold combinations
  rfl

@[simp] theorem combinations_nil_succ (k : ℕ) : combinations ([] : List α) (k + 1) = [] := rfl

theorem combinations_cons_succ (a : α) (l : List α) (k : ℕ) : combinations (a :: l) (k + 1)
      = (combinations l k).map (a :: ·) ++ combinations l (k + 1) := rfl

/-- The same lists as those of `sublistsLen`. -/
theorem combinations_perm (l : List α) (k : ℕ) : (combinations l k).Perm (sublistsLen k l) := by
  induction l generalizing k with
  | nil =>
    cases k with
    | zero => simp
    | succ k => simp
  | cons a l ih =>
    cases k with
    | zero => simp
    | succ k =>
      rw [combinations_cons_succ, sublistsLen_succ_cons]
      exact (((ih k).map _).append (ih (k + 1))).trans perm_append_comm

variable {l : List α}

theorem mem_combinations {s : List α} {k : ℕ} :
    s ∈ combinations l k ↔ s.Sublist l ∧ s.length = k := by
  rw [(combinations_perm l k).mem_iff, mem_sublistsLen]

theorem length_combinations (l : List α) (k : ℕ) :
    (combinations l k).length = l.length.choose k := by
  rw [(combinations_perm l k).length_eq, length_sublistsLen]

variable [DecidableEq α]

variable {a : α}

theorem countP_mem_combinations_of_notMem (h : a ∉ l) (k : ℕ) :
    (combinations l k).countP (a ∈ ·) = 0 := by
  rw [countP_eq_zero]
  intro s hs hmem
  exact h ((mem_combinations.mp hs).1.subset (of_decide_eq_true hmem))

/-- **Combinations with a given item**: as many as there are combinations of
one item less of the other items. -/
theorem countP_mem_combinations (hl : l.Nodup) (ha : a ∈ l) (k : ℕ) :
    (combinations l (k + 1)).countP (a ∈ ·) = (l.length - 1).choose k := by
  induction l generalizing k with
  | nil => cases ha
  | cons b l ih =>
    obtain ⟨hb, hl⟩ := nodup_cons.mp hl
    rw [combinations_cons_succ, countP_append, countP_map, length_cons, Nat.add_sub_cancel]
    by_cases hab : a = b
    · subst hab
      have hall : (combinations l k).countP ((fun s => decide (a ∈ s)) ∘ (a :: ·)) =
          (combinations l k).length := by
        rw [countP_eq_length]
        intro s _
        simp
      rw [hall, countP_mem_combinations_of_notMem hb, length_combinations, Nat.add_zero]
    · have hal : a ∈ l := (mem_cons.mp ha).resolve_left hab
      have hcons : ((fun s => decide (a ∈ s)) ∘ (b :: ·)) = fun s => decide (a ∈ s) := by
        funext s
        simp [hab]
      rw [hcons, ih hl hal]
      obtain ⟨n, hn⟩ : ∃ n, l.length = n + 1 := Nat.exists_eq_add_one.mpr (length_pos_of_mem hal)
      cases k with
      | zero => simp
      | succ k =>
        rw [ih hl hal, hn, Nat.add_sub_cancel, Nat.choose_succ_succ]

end List
