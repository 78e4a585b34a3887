import Mathlib.Data.List.Basic
import Mathlib.Order.Lattice

/-!
# Streaks

How many elements at the end of a list satisfy a predicate without a break, and the part of an
ascending list up to a key: it ends in the element with that key, if there is one, behind the part
before it.
-/

namespace Streak

open List

variable {α κ : Type*}

/-- The length of the unbroken end of a list. -/
def streak (p : α → Prop) [DecidablePred p] (l : List α) : ℕ := (l.reverse.takeWhile p).length

section Streak

variable (p : α → Prop) [DecidablePred p]

@[simp] theorem streak_nil : streak p [] = 0 := rfl

/-- **One element more** prolongs the streak, or ends it. -/
theorem streak_concat (l : List α) (a : α) :
    streak p (l ++ [a]) = if p a then streak p l + 1 else 0 := by
  unfold streak
  rw [reverse_append, reverse_singleton, singleton_append, takeWhile_cons]
  split_ifs <;> simp_all

end Streak

section Keys

variable [LinearOrder κ] (key : α → κ) (l : List α)

/-- Keys that ascend strictly. -/
def Ascending : Prop := l.Pairwise fun a b => key a < key b

/-- The elements up to a key. -/
def upTo (x : κ) : List α := l.filter fun a => key a ≤ x

/-- The elements before a key. -/
def before (x : κ) : List α := l.filter fun a => key a < x

variable {key} {l}

theorem take_countP (h : Ascending key l) (x : κ) :
    l.take (l.countP fun a => key a ≤ x) = upTo key l x := by
  unfold upTo
  induction l with
  | nil => rfl
  | cons a l ih =>
    obtain ⟨hfirst, hrest⟩ := pairwise_cons.mp h
    by_cases hle : key a ≤ x
    · rw [countP_cons_of_pos (by simpa using hle), filter_cons_of_pos (by simpa using hle),
        take_succ_cons, ih hrest]
    · have hnone : ∀ b ∈ l, ¬ key b ≤ x := fun b hb hb' => hle ((hfirst b hb).le.trans hb')
      rw [countP_cons_of_neg (by simpa using hle), filter_cons_of_neg (by simpa using hle),
        countP_eq_zero.mpr (by simpa using hnone), filter_eq_nil_iff.mpr (by simpa using hnone),
        take_zero]

variable {a : α}

/-- **Up to the key of an element** is what is before it, and the element. -/
theorem upTo_of_mem (h : Ascending key l) (ha : a ∈ l) :
    upTo key l (key a) = before key l (key a) ++ [a] := by
  unfold upTo before
  induction l with
  | nil => cases ha
  | cons b l ih =>
    obtain ⟨hfirst, hrest⟩ := pairwise_cons.mp h
    rcases mem_cons.mp ha with rfl | hmem
    · have hle : ∀ c ∈ l, ¬ key c ≤ key a := fun c hc => not_le.mpr (hfirst c hc)
      have hlt : ∀ c ∈ l, ¬ key c < key a := fun c hc => (hfirst c hc).not_gt
      rw [filter_cons_of_pos (by simp), filter_cons_of_neg (by simp),
        filter_eq_nil_iff.mpr (by simpa using hle), filter_eq_nil_iff.mpr (by simpa using hlt),
        nil_append]
    · have hlt := hfirst a hmem
      rw [filter_cons_of_pos (by simpa using hlt.le), filter_cons_of_pos (by simpa using hlt),
        ih hrest hmem, cons_append]

theorem upTo_getLast? (h : Ascending key l) {x : κ} (ha : (upTo key l x).getLast? = some a) :
    a ∈ l ∧ key a ≤ x ∧ upTo key l x = upTo key l (key a) := by
  obtain ⟨init, hinit⟩ := getLast?_eq_some_iff.mp ha
  have hmem : a ∈ upTo key l x := hinit ▸ mem_concat_self
  obtain ⟨hl, hle⟩ := mem_filter.mp hmem
  have hle : key a ≤ x := by simpa using hle
  refine ⟨hl, hle, filter_congr fun b hb => ?_⟩
  have hlast : key b ≤ x → key b ≤ key a := fun hbx => by
    have hb' : b ∈ upTo key l x := mem_filter.mpr ⟨hb, by simpa using hbx⟩
    have hsorted : Ascending key (init ++ [a]) := hinit ▸ Pairwise.filter _ h
    rcases mem_append.mp (hinit ▸ hb') with hb' | hb'
    · exact ((pairwise_append.mp hsorted).2.2 b hb' a (mem_singleton_self a)).le
    · exact (congrArg key (mem_singleton.mp hb')).le
  simpa using ⟨hlast, fun hba => hba.trans hle⟩

end Keys

end Streak
