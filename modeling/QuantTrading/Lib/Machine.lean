import Mathlib.Order.Basic

/-!
# Runs of a deterministic labelled machine

A machine is a function `step : σ → ι → σ`: everything a step depends on
besides the state – which party moves, what the environment answers, what
the clock shows – is in its label. A run is then a list of labels, and
quantifying over all runs is quantifying over all lists.

Four induction rules serve the proofs over runs. `inv_run` carries a
predicate that every step keeps; `Meets` restricts it to the runs whose
steps all satisfy a condition on the state before the step and its label;
`always_iff_meets` makes such a condition exact for a property of every state
along the run; `rel_run` carries a preorder between the states before and after.
-/

namespace Machine

open List

variable {σ ι : Type} (step : σ → ι → σ) (s : σ)

/-- **A run**: the labels taken one after the other. -/
def run (ls : List ι) : σ := ls.foldl step s

@[simp] theorem run_nil : run step s [] = s := rfl

@[simp] theorem run_cons (l : ι) (ls : List ι) :
    run step s (l :: ls) = run step (step s l) ls := rfl

theorem run_append (ls ls' : List ι) :
    run step s (ls ++ ls') = run step (run step s ls) ls' := foldl_append

theorem run_concat (ls : List ι) (l : ι) : run step s (ls ++ [l]) = step (run step s ls) l := by
  rw [run_append, run_cons, run_nil]

/-- **Every step of the run meets the condition** `C`, in the state before
the step. -/
def Meets (C : σ → ι → Prop) : σ → List ι → Prop
  | _, [] => True
  | s, l :: ls => C s l ∧ Meets C (step s l) ls

instance decidableMeets (C : σ → ι → Prop) [∀ s l, Decidable (C s l)] :
    (s : σ) → (ls : List ι) → Decidable (Meets step C s ls)
  | _, [] => inferInstanceAs (Decidable True)
  | s, l :: ls =>
    haveI := decidableMeets C (step s l) ls
    inferInstanceAs (Decidable (C s l ∧ Meets step C (step s l) ls))

variable {step}

@[simp] theorem meets_nil (C : σ → ι → Prop) (s : σ) : Meets step C s [] := trivial

variable {C : σ → ι → Prop} {ls : List ι} {s}

theorem meets_append {ls' : List ι} :
    Meets step C s (ls ++ ls') ↔ Meets step C s ls ∧ Meets step C (run step s ls) ls' := by
  induction ls generalizing s with
  | nil => simp
  | cons l ls ih => simp only [cons_append, Meets, ih, run_cons, and_assoc]

theorem meets_and {D : σ → ι → Prop} :
    Meets step (fun s l => C s l ∧ D s l) s ls ↔ Meets step C s ls ∧ Meets step D s ls := by
  induction ls generalizing s with
  | nil => simp
  | cons l ls ih =>
    simp only [Meets, ih]
    exact and_and_and_comm

theorem meets_of_forall (h : ∀ s l, C s l) (s : σ) (ls : List ι) : Meets step C s ls := by
  induction ls generalizing s with
  | nil => trivial
  | cons l ls ih => exact ⟨h s l, ih _⟩

theorem meets_of_forall_mem {C : ι → Prop} (h : ∀ l ∈ ls, C l) (s : σ) :
    Meets step (fun _ l => C l) s ls := by
  induction ls generalizing s with
  | nil => trivial
  | cons l ls ih =>
    exact ⟨h l mem_cons_self, ih (fun l' hl' => h l' (mem_cons_of_mem l hl')) _⟩

variable (Inv : σ → Prop)

/-- **The invariant rule**, for runs whose steps meet a condition. -/
theorem inv_run_of_meets (hstep : ∀ s l, Inv s → C s l → Inv (step s l)) (h : Inv s)
    (hC : Meets step C s ls) : Inv (run step s ls) := by
  induction ls generalizing s with
  | nil => exact h
  | cons l ls ih => exact ih (hstep s l h hC.1) hC.2

/-- **The invariant rule.** -/
theorem inv_run (hstep : ∀ s l, Inv s → Inv (step s l)) (h : Inv s) (ls : List ι) :
    Inv (run step s ls) :=
  inv_run_of_meets (C := fun _ _ => True) Inv (fun s l hs _ => hstep s l hs) h
    (meets_of_forall (fun _ _ => trivial) s ls)

variable {P : σ → Prop}

/-- **The rule for an exact condition**: what a step ends in exactly when it held before
and the step meets the condition, a run ends in exactly when all of its steps do. -/
theorem run_iff_meets (hinv : ∀ s l, Inv s → Inv (step s l))
    (hstep : ∀ s l, Inv s → (P (step s l) ↔ P s ∧ C s l)) (h : Inv s) (ls : List ι) :
    P (run step s ls) ↔ P s ∧ Meets step C s ls := by
  induction ls generalizing s with
  | nil => exact ⟨fun hP => ⟨hP, trivial⟩, And.left⟩
  | cons l ls ih =>
    rw [run_cons, ih (hinv s l h), hstep s l h, and_assoc]
    rfl

/-- **The rule for an exact condition on a whole history**: where a step from a state that has
a property ends in one that has it exactly when it meets the condition, every state along a run
has it exactly when all the steps meet it. -/
theorem always_iff_meets (hinv : ∀ s l, Inv s → Inv (step s l))
    (hstep : ∀ s l, Inv s → P s → (P (step s l) ↔ C s l)) (h : Inv s) (hP : P s) (ls : List ι) :
    (∀ ls', ls' <+: ls → P (run step s ls')) ↔ Meets step C s ls := by
  induction ls generalizing s with
  | nil =>
    refine ⟨fun _ => trivial, fun _ ls' hls' => ?_⟩
    rw [prefix_nil.mp hls']
    exact hP
  | cons l ls ih =>
    constructor
    · intro hall
      have hl : P (step s l) := hall [l] ⟨ls, rfl⟩
      refine ⟨(hstep s l h hP).mp hl, (ih (hinv s l h) hl).mp (fun ls' hls' => ?_)⟩
      exact hall (l :: ls') (cons_prefix_cons.mpr ⟨rfl, hls'⟩)
    · intro hm ls' hls'
      cases ls' with
      | nil => exact hP
      | cons l' ls' =>
        obtain ⟨rfl, hpre⟩ := cons_prefix_cons.mp hls'
        exact (ih (hinv s l' h) ((hstep s l' h hP).mpr hm.1)).mpr hm.2 ls' hpre

/-- **The rule for a relation between the two ends of a run**, under an
invariant: what every step relates reflexively and transitively, a run
relates. -/
theorem rel_run (R : σ → σ → Prop) (hinv : ∀ s l, Inv s → Inv (step s l)) (hrefl : ∀ s, R s s)
    (htrans : ∀ s t u, R s t → R t u → R s u) (hstep : ∀ s l, Inv s → R s (step s l)) (h : Inv s)
    (ls : List ι) : R s (run step s ls) := by
  induction ls generalizing s with
  | nil => exact hrefl s
  | cons l ls ih => exact htrans _ _ _ (hstep s l h) (ih (hinv s l h))

end Machine
