import Mathlib.Order.Lattice

/-!
# Sweeps

Half-open intervals `[x.1, x.2)` of a line, in the order of their starts, and a cursor that moves to
their ends as long as it meets no gap (`sweep`).

Where the cursor comes to, all is covered and nothing is beyond (`covers_iff_of_sweep`). It meets a
gap exactly when what lies before the start of some interval is not covered, whether that start is
of interest or not (`sweep_isSome_iff`).
-/

namespace Sweep

variable {T : Type} [LinearOrder T] {l : List (T × T)} {a b c : T}

/-- The intervals cover what lies from `a` to `b`. -/
def Covers (l : List (T × T)) (a b : T) : Prop := ∀ t, a ≤ t → t < b → ∃ x ∈ l, x.1 ≤ t ∧ t < x.2

/-- **The sweep**: where the cursor comes to, if it meets no gap. -/
def sweep (cursor : T) : List (T × T) → Option T
  | [] => some cursor
  | x :: l => if cursor < x.1 then none else sweep (if cursor < x.2 then x.2 else cursor) l

theorem covers_of_le (h : b ≤ a) (l : List (T × T)) : Covers l a b :=
  fun _ hat htb => absurd (hat.trans_lt htb) (not_lt.mpr h)

theorem Covers.cons (h : Covers l a b) (x : T × T) : Covers (x :: l) a b := fun t hat htb => by
  obtain ⟨y, hy, ht⟩ := h t hat htb
  exact ⟨y, List.mem_cons_of_mem x hy, ht⟩

theorem Covers.mono (h : Covers l a b) (hc : c ≤ b) : Covers l a c :=
  fun t hat htc => h t hat (htc.trans_le hc)

theorem covers_congr {l' : List (T × T)} (h : ∀ x, x ∈ l ↔ x ∈ l') : Covers l a b ↔ Covers l' a b :=
  forall_congr' fun _ => imp_congr_right fun _ => imp_congr_right fun _ =>
    exists_congr fun x => and_congr_left fun _ => h x

/-- **Where the cursor comes to**: it covers all up to there, and no interval ends later. -/
theorem covers_of_sweep (h : sweep a l = some c) :
    a ≤ c ∧ Covers l a c ∧ ∀ x ∈ l, x.1 ≤ c ∧ x.2 ≤ c := by
  induction l generalizing a with
  | nil =>
    obtain rfl : a = c := Option.some.inj h
    exact ⟨le_rfl, covers_of_le le_rfl _, fun x hx => by cases hx⟩
  | cons x l ih =>
    rw [sweep] at h
    split_ifs at h with hgap hlater
    · obtain ⟨hle, hcovers, hends⟩ := ih h
      refine ⟨hlater.le.trans hle, fun t hat htc => ?_, ?_⟩
      · rcases lt_or_ge t x.2 with hin | hout
        · exact ⟨x, List.mem_cons_self, (not_lt.mp hgap).trans hat, hin⟩
        · exact hcovers.cons x t hout htc
      · rintro y (_ | ⟨_, hy⟩)
        · exact ⟨(not_lt.mp hgap).trans (hlater.le.trans hle), hle⟩
        · exact hends y hy
    · obtain ⟨hle, hcovers, hends⟩ := ih h
      refine ⟨hle, hcovers.cons x, ?_⟩
      rintro y (_ | ⟨_, hy⟩)
      · exact ⟨(not_lt.mp hgap).trans hle, (not_lt.mp hlater).trans hle⟩
      · exact hends y hy

/-- **What is covered** is what lies up to where the cursor comes to. -/
theorem covers_iff_of_sweep (h : sweep a l = some c) : Covers l a b ↔ b ≤ c := by
  obtain ⟨hac, hcovers, hends⟩ := covers_of_sweep h
  refine ⟨fun hb => not_lt.mp fun hlt => ?_, hcovers.mono⟩
  obtain ⟨x, hx, -, hcx⟩ := hb c hac hlt
  exact absurd hcx (not_lt.mpr (hends x hx).2)

theorem exists_gap_of_sweep (hsorted : l.Pairwise fun x y => x.1 ≤ y.1) (h : sweep a l = none) :
    ∃ x ∈ l, ∃ t, a ≤ t ∧ t < x.1 ∧ ∀ y ∈ l, ¬ (y.1 ≤ t ∧ t < y.2) := by
  induction l generalizing a with
  | nil => cases h
  | cons x l ih =>
    obtain ⟨hfirst, hrest⟩ := List.pairwise_cons.mp hsorted
    rw [sweep] at h
    by_cases hgap : a < x.1
    · refine ⟨x, List.mem_cons_self, a, le_rfl, hgap, ?_⟩
      rintro y (_ | ⟨_, hy⟩) ⟨hstart, -⟩
      · exact absurd hgap (not_lt.mpr hstart)
      · exact absurd (hgap.trans_le (hfirst y hy)) (not_lt.mpr hstart)
    · rw [if_neg hgap] at h
      obtain ⟨y, hy, t, hat, hty, hnone⟩ := ih hrest h
      have hend : x.2 ≤ t := by
        split_ifs at hat with hlater
        · exact hat
        · exact (not_lt.mp hlater).trans hat
      have hstart : a ≤ t := by
        split_ifs at hat with hlater
        · exact hlater.le.trans hat
        · exact hat
      refine ⟨y, List.mem_cons_of_mem x hy, t, hstart, hty, ?_⟩
      rintro z (_ | ⟨_, hz⟩)
      · exact fun hz => absurd hz.2 (not_lt.mpr hend)
      · exact hnone z hz

/-- **The sweep meets no gap** exactly when what lies before each start is covered. -/
theorem sweep_isSome_iff (hsorted : l.Pairwise fun x y => x.1 ≤ y.1) (a : T) :
    (sweep a l).isSome ↔ ∀ x ∈ l, Covers l a x.1 := by
  cases h : sweep a l with
  | none =>
    obtain ⟨x, hx, t, hat, htx, hnone⟩ := exists_gap_of_sweep hsorted h
    refine ⟨fun habsurd => absurd habsurd (by simp), fun hcovers => ?_⟩
    obtain ⟨y, hy, hty⟩ := hcovers x hx t hat htx
    exact absurd hty (hnone y hy)
  | some c =>
    obtain ⟨-, hcovers, hends⟩ := covers_of_sweep h
    exact ⟨fun _ x hx => hcovers.mono (hends x hx).1, fun _ => rfl⟩

end Sweep
