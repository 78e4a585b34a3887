import Mathlib.Order.Basic

/-!
# Traces

What a machine shows of a run. `trace` is for a machine whose steps may raise: the states one after
the other, up to the first step that raises, which ends it. Two machines have one trace exactly when
they agree on the steps of one of them – `trace_eq_iff` – so that a difference between two ways of
deciding is found where the states are still the same.

`answers` is for a machine that answers every input. Such a machine may be interrupted between two
inputs: its state is written down, and another one reads it. Where reading either gives the state
back or fails, an interrupted run answers as one that was not exactly when what is written can be
read at every interruption (`resumed_eq_iff`).
-/

namespace Trace

variable {σ ι ε : Type}

/-- The states after the steps, up to the first that raises. -/
def trace (step : σ → ι → Except ε σ) : σ → List ι → List (Except ε σ)
  | _, [] => []
  | s, i :: is =>
    match step s i with
    | .ok s' => .ok s' :: trace step s' is
    | .error e => [.error e]

/-- Every step of the run meets the condition, in the state before it. -/
def Along (step : σ → ι → Except ε σ) (C : σ → ι → Prop) : σ → List ι → Prop
  | _, [] => True
  | s, i :: is => C s i ∧ ∀ s', step s i = .ok s' → Along step C s' is

variable {is : List ι} {s : σ} {step : σ → ι → Except ε σ}

theorem along_congr {C D : σ → ι → Prop} (h : ∀ s, ∀ i ∈ is, (C s i ↔ D s i)) :
    Along step C s is ↔ Along step D s is := by
  induction is generalizing s with
  | nil => exact Iff.rfl
  | cons i is ih =>
    have htail : ∀ s', Along step C s' is ↔ Along step D s' is :=
      fun s' => ih fun s j hj => h s j (List.mem_cons_of_mem i hj)
    simp only [Along, h s i List.mem_cons_self, htail]

/-- **Two ways of deciding have one trace exactly when they agree along it.** -/
theorem trace_eq_iff {step' : σ → ι → Except ε σ} :
    trace step' s is = trace step s is ↔ Along step (fun s i => step' s i = step s i) s is := by
  induction is generalizing s with
  | nil => exact ⟨fun _ => trivial, fun _ => rfl⟩
  | cons i is ih =>
    cases hstep : step s i with
    | error e =>
      cases hstep' : step' s i with
      | error e' => simp [trace, Along, hstep, hstep']
      | ok t => simp [trace, Along, hstep, hstep']
    | ok t =>
      cases hstep' : step' s i with
      | error e' => simp [trace, Along, hstep, hstep']
      | ok t' =>
        simp only [trace, Along, hstep, hstep', List.cons.injEq, Except.ok.injEq]
        refine and_congr_right fun heq => ?_
        subst heq
        exact ih.trans ⟨fun h s' hs' => hs' ▸ h, fun h => h t' rfl⟩

/-! ## Answers -/

section Answers

variable {ο : Type} (onEvent : σ → ι → σ × ο)

/-- The answers to inputs, one after the other. -/
def answers : σ → List ι → List ο
  | _, [] => []
  | s, i :: is => (onEvent s i).2 :: answers (onEvent s i).1 is

/-- **An answer depends on the inputs up to it.** -/
theorem answers_take (s : σ) (is : List ι) (n : ℕ) :
    (answers onEvent s is).take n = answers onEvent s (is.take n) := by
  induction is generalizing s n with
  | nil => simp [answers]
  | cons i is ih =>
    cases n with
    | zero => rfl
    | succ n => simp [answers, ih]

/-- What happens to a machine: an input, or an interruption. -/
inductive Step (ι : Type)
  | event (i : ι)
  | restart

/-- The inputs. -/
def events : List (Step ι) → List ι
  | [] => []
  | .event i :: steps => i :: events steps
  | .restart :: steps => events steps

/-- The answers of a machine that is interrupted: its state is reloaded each time. -/
def resumed (reload : σ → Except ε σ) : σ → List (Step ι) → Except ε (List ο)
  | _, [] => .ok []
  | s, .event i :: steps => (resumed reload (onEvent s i).1 steps).map ((onEvent s i).2 :: ·)
  | s, .restart :: steps => (reload s).bind fun s' => resumed reload s' steps

/-- The state has a property at every interruption. -/
def AtRestarts (C : σ → Prop) : σ → List (Step ι) → Prop
  | _, [] => True
  | s, .event i :: steps => AtRestarts C (onEvent s i).1 steps
  | s, .restart :: steps => C s ∧ AtRestarts C s steps

variable {onEvent}

variable {C : σ → Prop}

/-- **The rule for checkpoints.** Where a state of the machine that can be read is reloaded as it
was, and one that cannot is not reloaded at all, the answers of an interrupted run are those of one
without interruptions exactly when every state can be read at its interruption. -/
theorem resumed_eq_iff {reload : σ → Except ε σ} (Inv : σ → Prop)
    (hinv : ∀ s i, Inv s → Inv (onEvent s i).1) (hread : ∀ s, Inv s → C s → reload s = .ok s)
    (hfail : ∀ s, Inv s → ¬ C s → ∃ e, reload s = .error e) {s : σ} (h : Inv s)
    (steps : List (Step ι)) :
    resumed onEvent reload s steps = .ok (answers onEvent s (events steps))
      ↔ AtRestarts onEvent C s steps := by
  induction steps generalizing s with
  | nil => exact ⟨fun _ => trivial, fun _ => rfl⟩
  | cons step steps ih =>
    cases step with
    | event i =>
      rw [AtRestarts, ← ih (hinv s i h), resumed, events, answers]
      cases resumed onEvent reload (onEvent s i).1 steps with
      | error e => simp [Except.map]
      | ok os => simp [Except.map]
    | restart =>
      rw [AtRestarts, ← ih h, resumed, events]
      by_cases hC : C s
      · rw [hread s h hC]
        exact ⟨fun heq => ⟨hC, heq⟩, And.right⟩
      · obtain ⟨e, he⟩ := hfail s h hC
        rw [he]
        exact ⟨fun heq => by simp [Except.bind] at heq, fun heq => absurd heq.1 hC⟩

/-- A condition that always holds is met at every interruption. -/
theorem atRestarts_of_forall (h : ∀ s, C s) (s : σ) (steps : List (Step ι)) :
    AtRestarts onEvent C s steps := by
  induction steps generalizing s with
  | nil => trivial
  | cons step steps ih =>
    cases step with
    | event i => exact ih _
    | restart => exact ⟨h s, ih s⟩

end Answers

end Trace
