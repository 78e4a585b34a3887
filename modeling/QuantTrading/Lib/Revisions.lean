import Mathlib.Data.List.Basic
import Mathlib.Order.Lattice

/-!
# The current revisions at a cutoff

Rows are revisions of subjects, and a cutoff makes some rows eligible. The current rows are
the eligible ones without a later eligible revision of their subject. They are determined by
the eligible rows alone, so that rows which are not eligible can come and go. A row that is
superseded does not come back as long as the later revision is eligible.
-/

namespace List

variable {ρ κ β : Type} [DecidableEq κ] [LinearOrder β] (subject : ρ → κ) (revision : ρ → β)

/-- **The current rows**: they are eligible, and no later revision of their subject is. -/
def current (p : ρ → Prop) [DecidablePred p] (rows : List ρ) : List ρ :=
  rows.filter fun r => p r ∧ ∀ n ∈ rows, subject n = subject r → revision r < revision n → ¬ p n

variable {subject : ρ → κ} {revision : ρ → β} {p : ρ → Prop} [DecidablePred p]

variable {r : ρ} {rows : List ρ}

theorem mem_current : r ∈ current subject revision p rows ↔
    r ∈ rows ∧ p r ∧ ∀ n ∈ rows, subject n = subject r → revision r < revision n → ¬ p n := by
  simp [current]

theorem current_filter (rows : List ρ) :
    current subject revision p (rows.filter p) = current subject revision p rows := by
  unfold current
  rw [filter_filter]
  refine filter_congr fun r _ => ?_
  simp only [mem_filter, decide_eq_true_eq, and_imp, Bool.decide_and]
  by_cases hr : p r
  · have hiff : (∀ n ∈ rows, p n → subject n = subject r → revision r < revision n → ¬ p n) ↔
        ∀ n ∈ rows, subject n = subject r → revision r < revision n → ¬ p n :=
      ⟨fun h n hn hs hlt hp => h n hn hp hs hlt hp, fun h n hn _ => h n hn⟩
    simp [hr, hiff]
  · simp [hr]

/-- **Rows that are not eligible can come and go.** -/
theorem current_congr {rows' : List ρ} (h : rows.filter p = rows'.filter p) :
    current subject revision p rows = current subject revision p rows' := by
  rw [← current_filter rows, h, current_filter]

variable {n : ρ}

/-- A current row is the highest eligible revision of its subject. -/
theorem revision_le_of_mem_current (h : r ∈ current subject revision p rows) (hn : n ∈ rows)
    (hs : subject n = subject r) (hp : p n) : revision n ≤ revision r :=
  not_lt.mp fun hlt => (mem_current.mp h).2.2 n hn hs hlt hp

/-- **One row of a subject is current**, if no two rows of a subject have one revision. -/
theorem eq_of_mem_current
    (hrows : ∀ r ∈ rows, ∀ n ∈ rows, subject n = subject r → revision n = revision r → n = r)
    (hr : r ∈ current subject revision p rows) (hn : n ∈ current subject revision p rows)
    (hs : subject n = subject r) : n = r := by
  have hr' := mem_current.mp hr
  have hn' := mem_current.mp hn
  have hle := revision_le_of_mem_current hr hn'.1 hs hn'.2.1
  have hge := revision_le_of_mem_current hn hr'.1 hs.symm hr'.2.1
  exact hrows r hr'.1 n hn'.1 hs (le_antisymm hle hge)

/-- **A row is superseded** by any eligible later revision of its subject. -/
theorem not_mem_current_of_lt (hn : n ∈ rows) (hs : subject n = subject r)
    (hlt : revision r < revision n) (hp : p n) : r ∉ current subject revision p rows :=
  fun hr => (mem_current.mp hr).2.2 n hn hs hlt hp

theorem filter_current {t : ρ → Prop} [DecidablePred t]
    (ht : ∀ r n, subject n = subject r → t r → t n) (rows : List ρ) :
    (current subject revision p rows).filter t = current subject revision p (rows.filter t) := by
  unfold current
  rw [filter_filter, filter_filter]
  refine filter_congr fun r _ => ?_
  by_cases hr : t r
  · have hiff : (∀ n ∈ rows.filter t, subject n = subject r → revision r < revision n → ¬ p n) ↔
        ∀ n ∈ rows, subject n = subject r → revision r < revision n → ¬ p n :=
      ⟨fun h n hn hs => h n (mem_filter.mpr ⟨hn, by simpa using ht r n hs hr⟩) hs,
        fun h n hn => h n (mem_of_mem_filter hn)⟩
    simp only [hiff, hr, decide_true, Bool.true_and, Bool.and_true]
  · simp [hr]

end List
