import Mathlib.Data.List.Basic
import Mathlib.Tactic.SplitIfs

/-!
# Loops

`whileDo p f` goes on as long as a condition holds: `inv_whileDo` carries what a round keeps, and
`not_whileDo` is the exit, for a fuel that bounds a measure which every round lowers.

A fold that packs items raises a flag on each item which it cannot take as it is. It has raised
none exactly if each item could be taken, in the state where all before it were
(`flag_foldl_iff`); then it took them all (`foldl_eq_of_flag`).
-/

namespace Loops

open List

variable {σ α : Type}

/-! ## While -/

section While

/-- `while p s: s = f s`, for so many rounds at most. -/
def whileDo (p : σ → Prop) [DecidablePred p] (f : σ → σ) : ℕ → σ → σ
  | 0, s => s
  | fuel + 1, s => if p s then whileDo p f fuel (f s) else s

variable {p : σ → Prop} [DecidablePred p] {f : σ → σ}

variable {s : σ}

theorem whileDo_of_not (h : ¬ p s) (fuel : ℕ) : whileDo p f fuel s = s := by
  cases fuel with
  | zero => rfl
  | succ fuel => exact if_neg h

/-- **The invariant.** -/
theorem inv_whileDo (I : σ → Prop) (hstep : ∀ s, p s → I s → I (f s)) (hs : I s) (fuel : ℕ) :
    I (whileDo p f fuel s) := by
  induction fuel generalizing s with
  | zero => exact hs
  | succ fuel ih =>
    unfold whileDo
    split_ifs with h
    · exact ih (hstep s h hs)
    · exact hs

/-- **The exit.** -/
theorem not_whileDo (μ : σ → ℕ) (hμ : ∀ s, p s → μ (f s) < μ s) {fuel : ℕ} (h : μ s < fuel) :
    ¬ p (whileDo p f fuel s) := by
  induction fuel generalizing s with
  | zero => exact absurd h (Nat.not_lt_zero _)
  | succ fuel ih =>
    unfold whileDo
    split_ifs with hp
    · exact ih (Nat.lt_of_lt_of_le (hμ s hp) (Nat.lt_succ_iff.mp h))
    · exact hp

end While

/-! ## Flags -/

section Flags

variable (flag : σ → Bool) {f g : σ → α → σ} {P : σ → α → Prop} {l : List α}

/-- **No flag was raised** exactly if each item could be taken after those before it. -/
theorem flag_foldl_iff (h : ∀ s, ∀ a ∈ l, flag (f s a) = false ↔ flag s = false ∧ P s a)
    (hg : ∀ s, ∀ a ∈ l, P s a → f s a = g s a) (s : σ) : flag (l.foldl f s) = false ↔
      flag s = false ∧ ∀ before a, before ++ [a] <+: l → P (before.foldl g s) a := by
  induction l generalizing s with
  | nil =>
    refine (and_iff_left fun before a hb => ?_).symm
    exact absurd (prefix_nil.mp hb) (append_ne_nil_of_right_ne_nil before (cons_ne_nil a []))
  | cons x l ih =>
    rw [foldl_cons, ih (fun s a ha => h s a (mem_cons_of_mem x ha))
      (fun s a ha => hg s a (mem_cons_of_mem x ha)), h s x mem_cons_self, and_assoc]
    refine and_congr_right fun _ => ⟨fun ⟨hx, hl⟩ before a hb => ?_, fun hall => ?_⟩
    · cases before with
      | nil =>
        obtain ⟨rfl, -⟩ := cons_prefix_cons.mp hb
        exact hx
      | cons y before =>
        obtain ⟨rfl, hrest⟩ := cons_prefix_cons.mp hb
        rw [foldl_cons, ← hg s y mem_cons_self hx]
        exact hl before a hrest
    · have hx : P s x := hall [] x ⟨l, rfl⟩
      refine ⟨hx, fun before a hb => ?_⟩
      rw [hg s x mem_cons_self hx]
      exact hall (x :: before) a (cons_prefix_cons.mpr ⟨rfl, hb⟩)

/-- **Then every item was taken.** -/
theorem foldl_eq_of_flag (h : ∀ s, ∀ a ∈ l, flag (f s a) = false ↔ flag s = false ∧ P s a)
    (hg : ∀ s, ∀ a ∈ l, P s a → f s a = g s a) {s : σ} (hflag : flag (l.foldl f s) = false) :
    l.foldl f s = l.foldl g s := by
  induction l generalizing s with
  | nil => rfl
  | cons x l ih =>
    have hall := ((flag_foldl_iff flag h hg s).mp hflag).2
    have hx : P s x := hall [] x ⟨l, rfl⟩
    rw [foldl_cons] at hflag ⊢
    rw [ih (fun s a ha => h s a (mem_cons_of_mem x ha))
      (fun s a ha => hg s a (mem_cons_of_mem x ha)) hflag, hg s x mem_cons_self hx, foldl_cons]

end Flags

end Loops
