import Mathlib.Data.List.Flatten
import Mathlib.Data.List.Infix

/-!
# Texts that are written out

When every element of a list is written as some others, a position in what is written comes from a
position in the list: `origin f l p` is where. No element comes from further back than it stands,
since each is written as one or more; how much further depends on what stands before it.

`firstAt l part` is the first position where a part stands.
-/

namespace List

variable {α β : Type}

/-- The position of the element that what stands at `p` was written for. -/
def origin (f : α → List β) : List α → ℕ → ℕ
  | [], _ => 0
  | a :: l, p => if p < (f a).length then 0 else origin f l (p - (f a).length) + 1

section Origin

variable {f : α → List β} {l : List α} {p : ℕ}

/-- **What is written comes from an element.** -/
theorem origin_lt (h : p < (l.flatMap f).length) : origin f l p < l.length := by
  induction l generalizing p with
  | nil => cases h
  | cons a l ih =>
    unfold origin
    split
    · exact Nat.succ_pos _
    · rename_i hle
      rw [flatMap_cons, length_append] at h
      exact Nat.succ_lt_succ (ih (by omega))

/-- **It does not stand before it.** -/
theorem origin_le (hf : ∀ a, f a ≠ []) (l : List α) (p : ℕ) : origin f l p ≤ p := by
  induction l generalizing p with
  | nil => exact Nat.zero_le p
  | cons a l ih =>
    unfold origin
    split
    · exact Nat.zero_le p
    · rename_i hle
      have hpos : 0 < (f a).length := length_pos_iff.mpr (hf a)
      have hrest := ih (p - (f a).length)
      omega

end Origin

section First

variable [BEq α]

/-- **The first position** where a part stands. -/
def firstAt (l part : List α) : Option ℕ := l.tails.findIdx? fun rest => part.isPrefixOf rest

theorem firstAt_lt {l part : List α} {p : ℕ} (hpart : part ≠ []) (h : firstAt l part = some p) :
    p < l.length := by
  obtain ⟨hlt, hp, -⟩ := findIdx?_eq_some_iff_getElem.mp h
  rw [getElem_tails] at hp
  by_contra hle
  rw [drop_eq_nil_iff.mpr (not_lt.mp hle)] at hp
  cases part with
  | nil => exact hpart rfl
  | cons a part => cases hp

end First

end List
