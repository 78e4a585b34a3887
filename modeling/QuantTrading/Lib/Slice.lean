import Mathlib.Data.List.Flatten
import Mathlib.Data.List.Sort

/-!
# First elements, parts and slices of lists

`slice l i j` is the part of a list from position `i` up to position `j`. In a
strictly sorted list a slice can also be told by its values: it is what lies
between its first element and any bound that is above its last element and not
above the one that follows.
-/

namespace List

variable {α : Type}

variable {l : List α}

variable {p : α → Bool}

/-- What holds of an element as it does of the later ones holds of the first elements. -/
theorem filter_prefix (h : l.Pairwise fun a b => p b = true → p a = true) : l.filter p <+: l := by
  induction l with
  | nil => exact prefix_rfl
  | cons a l ih =>
    by_cases ha : p a = true
    · rw [filter_cons_of_pos ha]
      exact (prefix_cons_inj a).mpr (ih h.of_cons)
    · have hnil : (a :: l).filter p = [] := filter_eq_nil_iff.mpr <|
        forall_mem_cons.mpr ⟨ha, fun b hb hpb => ha (rel_of_pairwise_cons h hb hpb)⟩
      rw [hnil]
      exact nil_prefix

variable {β : Type}

/-- A concatenation is the same without some of the parts exactly if these are empty. -/
theorem flatMap_filter_eq_iff {f : α → List β} :
    (l.filter p).flatMap f = l.flatMap f ↔ ∀ a ∈ l, ¬ p a = true → f a = [] := by
  induction l with
  | nil => simp
  | cons a l ih =>
    rw [forall_mem_cons, ← ih]
    by_cases ha : p a = true
    · simp [ha]
    · rw [filter_cons_of_neg ha, flatMap_cons]
      have hle : ((l.filter p).flatMap f).length ≤ (l.flatMap f).length :=
        ((filter_sublist).flatMap f).length_le
      constructor
      · intro h
        have hnil : f a = [] := by
          rw [h, length_append] at hle
          exact length_eq_zero_iff.mp (by omega)
        exact ⟨fun _ => hnil, by rw [h, hnil, nil_append]⟩
      · rintro ⟨hnil, h⟩
        rw [hnil ha, h, nil_append]

/-- The names of what is found for some elements are names of some of these. -/
theorem map_filterMap_sublist {κ : Type} {f : α → Option β} {key : β → κ} {name : α → κ}
    (h : ∀ a b, f a = some b → key b = name a) (l : List α) :
    (l.filterMap f).map key <+ l.map name := by
  induction l with
  | nil => exact Sublist.slnil
  | cons a l ih =>
    rw [map_cons]
    cases ha : f a with
    | none =>
      rw [filterMap_cons_none ha]
      exact ih.cons _
    | some b =>
      rw [filterMap_cons_some ha, map_cons, h a b ha]
      exact ih.cons_cons _

/-- The elements of a list from position `i` up to, but without, position `j`. -/
def slice (l : List α) (i j : ℕ) : List α := (l.drop i).take (j - i)

variable {i j : ℕ} {x : α}

theorem mem_slice : x ∈ l.slice i j ↔ ∃ k, i ≤ k ∧ k < j ∧ l[k]? = some x := by
  unfold slice
  rw [mem_iff_getElem?]
  constructor
  · rintro ⟨k, hk⟩
    rw [getElem?_take] at hk
    split_ifs at hk with hlt
    rw [getElem?_drop] at hk
    exact ⟨i + k, by omega, by omega, hk⟩
  · rintro ⟨k, hik, hkj, hk⟩
    refine ⟨k - i, ?_⟩
    rw [getElem?_take, if_pos (by omega), getElem?_drop, show i + (k - i) = k by omega]
    exact hk

theorem slice_sublist (l : List α) (i j : ℕ) : l.slice i j <+ l :=
  (take_sublist _ _).trans (drop_sublist _ _)

@[simp] theorem slice_self (l : List α) (i : ℕ) : l.slice i i = [] := by
  unfold slice
  rw [Nat.sub_self, take_zero]

theorem length_slice (hj : j ≤ l.length) : (l.slice i j).length = j - i := by
  unfold slice
  rw [length_take, length_drop]
  omega

variable {k : ℕ}

theorem getElem?_slice (hk : k < j - i) : (l.slice i j)[k]? = l[i + k]? := by
  unfold slice
  rw [getElem?_take, if_pos hk, getElem?_drop]

theorem slice_disjoint (h : l.Nodup) {i' j' : ℕ} (hle : j ≤ i') :
    (l.slice i j).Disjoint (l.slice i' j') := by
  intro x hx hx'
  obtain ⟨k, _, hkj, hk⟩ := mem_slice.mp hx
  obtain ⟨k', hik', _, hk'⟩ := mem_slice.mp hx'
  obtain ⟨hlt, hget⟩ := getElem?_eq_some_iff.mp hk
  obtain ⟨hlt', hget'⟩ := getElem?_eq_some_iff.mp hk'
  have hsame : k = k' := (h.getElem_inj_iff).mp (hget.trans hget'.symm)
  omega

theorem take_append_slice (l : List α) (hij : i ≤ j) : l.take i ++ l.slice i j = l.take j := by
  unfold slice
  rw [← take_add, Nat.add_sub_cancel' hij]

theorem drop_take_eq_slice (l : List α) (i j : ℕ) : (l.take j).drop i = l.slice i j := drop_take

variable [LinearOrder α]

variable {y : α}

section

variable (h : l.Pairwise (· < ·)) (hx : l[i]? = some x) (hy : l[j]? = some y)
include h hx hy

/-- The order of two elements is the order of their positions. -/
theorem Pairwise.getElem?_lt (hij : i < j) : x < y := by
  obtain ⟨hi, rfl⟩ := getElem?_eq_some_iff.mp hx
  obtain ⟨hj, rfl⟩ := getElem?_eq_some_iff.mp hy
  exact pairwise_iff_getElem.mp h i j hi hj hij

theorem Pairwise.getElem?_le (hij : i ≤ j) : x ≤ y := by
  rcases hij.eq_or_lt with rfl | hlt
  · exact (Option.some.inj (hx.symm.trans hy)).le
  · exact (h.getElem?_lt hx hy hlt).le

theorem Pairwise.getElem?_lt_iff : x < y ↔ i < j := by
  refine ⟨fun hlt => not_le.mp (fun hle => ?_), h.getElem?_lt hx hy⟩
  exact absurd hlt (not_lt.mpr (h.getElem?_le hy hx hle))

end

variable {z : α}

/-- What is not above an element is what comes up to it. -/
theorem Pairwise.filter_le_eq_take (h : l.Pairwise (· < ·)) (hz : l[k]? = some z) :
    l.filter (fun x => x ≤ z) = l.take (k + 1) := by
  refine Pairwise.eq_of_mem_iff (h.filter _) (h.sublist (take_sublist _ _)) fun x => ?_
  have htake : x ∈ l.take (k + 1) ↔ ∃ i, 0 ≤ i ∧ i < k + 1 ∧ l[i]? = some x :=
    mem_slice (i := 0) (j := k + 1)
  rw [mem_filter, decide_eq_true_eq, htake, mem_iff_getElem?]
  refine ⟨fun ⟨⟨i, hi⟩, hle⟩ => ⟨i, Nat.zero_le i, ?_, hi⟩, fun ⟨i, _, hi, hx⟩ =>
    ⟨⟨i, hx⟩, h.getElem?_le hx hz (Nat.le_of_lt_succ hi)⟩⟩
  by_contra hlt
  exact absurd (h.getElem?_lt hz hi (Nat.lt_of_succ_le (not_lt.mp hlt))) (not_lt.mpr hle)

/-- The last element that is not above a given one is that one. -/
theorem Pairwise.getLast?_filter_le (h : l.Pairwise (· < ·)) (hz : z ∈ l) :
    (l.filter fun x => x ≤ z).getLast? = some z := by
  obtain ⟨k, hk⟩ := mem_iff_getElem?.mp hz
  obtain ⟨hlt, -⟩ := getElem?_eq_some_iff.mp hk
  rw [h.filter_le_eq_take hk, getLast?_eq_getElem?, length_take_of_le hlt, Nat.succ_sub_one,
    getElem?_take_of_lt (Nat.lt_succ_self k)]
  exact hk

variable {a : α}

/-- What is not below an element is what comes from it on. -/
theorem Pairwise.filter_ge_eq_drop (h : l.Pairwise (· < ·)) (ha : l[i]? = some a) :
    l.filter (fun x => a ≤ x) = l.drop i := by
  refine Pairwise.eq_of_mem_iff (h.filter _) (h.sublist (drop_sublist _ _)) fun x => ?_
  rw [mem_filter, decide_eq_true_eq, mem_iff_getElem?, mem_iff_getElem?]
  constructor
  · rintro ⟨⟨k, hk⟩, hle⟩
    have hik : i ≤ k := by
      by_contra hlt
      exact absurd (h.getElem?_lt hk ha (not_le.mp hlt)) (not_lt.mpr hle)
    refine ⟨k - i, ?_⟩
    rw [getElem?_drop, Nat.add_sub_cancel' hik]
    exact hk
  · rintro ⟨k, hk⟩
    rw [getElem?_drop] at hk
    exact ⟨⟨i + k, hk⟩, h.getElem?_le ha hk (Nat.le_add_right i k)⟩

/-- **A slice by its values.** With a first element `a` at `i`, and a bound `b`
above the last element at `j - 1`, what lies between is the slice exactly if the
element at `j`, if there is one, is not below the bound. -/
theorem Pairwise.filter_eq_slice_iff (h : l.Pairwise (· < ·)) {b : α} (hij : i < j)
    (ha : l[i]? = some a) (hz : l[j - 1]? = some z) (hzb : z < b) :
    l.filter (fun x => a ≤ x ∧ x < b) = l.slice i j ↔ ∀ y ∈ l[j]?, b ≤ y := by
  constructor
  · intro heq y hy
    by_contra hlt
    have hy' : l[j]? = some y := hy
    have hmem : y ∈ l.filter (fun x => a ≤ x ∧ x < b) := by
      refine mem_filter.mpr ⟨mem_of_getElem? hy', ?_⟩
      simpa using ⟨h.getElem?_le ha hy' hij.le, not_le.mp hlt⟩
    obtain ⟨k, _, hkj, hk⟩ := mem_slice.mp (heq ▸ hmem)
    exact absurd (h.getElem?_lt hk hy' hkj) (lt_irrefl y)
  · intro hnext
    refine Pairwise.eq_of_mem_iff (h.filter _) (h.sublist (slice_sublist l i j)) (fun x => ?_)
    rw [mem_filter, mem_slice, mem_iff_getElem?]
    simp only [decide_eq_true_eq]
    constructor
    · rintro ⟨⟨k, hk⟩, hax, hxb⟩
      refine ⟨k, ?_, ?_, hk⟩
      · by_contra hlt
        exact absurd (h.getElem?_lt hk ha (not_le.mp hlt)) (not_lt.mpr hax)
      · by_contra hle
        obtain ⟨hlen, _⟩ := getElem?_eq_some_iff.mp hk
        have hjlen : j < l.length := (not_lt.mp hle).trans_lt hlen
        have hbound := hnext _ (getElem?_eq_getElem hjlen)
        exact absurd (hxb.trans_le hbound)
          (not_lt.mpr (h.getElem?_le (getElem?_eq_getElem hjlen) hk (not_lt.mp hle)))
    · rintro ⟨k, hik, hkj, hk⟩
      exact ⟨⟨k, hk⟩, h.getElem?_le ha hk hik, (h.getElem?_le hk hz (by omega)).trans_lt hzb⟩

end List
