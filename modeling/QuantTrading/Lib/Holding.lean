import QuantTrading.Lib.Firsts

/-!
# Elements held until a gate lets them through

A run brings elements, `Sum.inl a`, and gates, `Sum.inr c`. An element is held from when it comes
until the first gate after it that it is eligible at, where it goes through. `passed l` is what goes
through in a run: before each gate the elements that it lets through, by increasing rank, and those
of one rank in the order they came in; then the gate. Nothing is lost and nothing goes through twice
(`arrivals_passed_perm`), and what goes through does not depend on the elements that no gate of the
run has let through (`passed_seen`).
-/

namespace Holding

open List

variable {α γ β : Type}

/-- The elements that a run brings, or that go through in it. -/
def arrivals (l : List (α ⊕ γ)) : List α := l.filterMap Sum.getLeft?

/-- The gates of a run. -/
def gates (l : List (α ⊕ γ)) : List γ := l.filterMap Sum.getRight?

@[simp] theorem arrivals_nil : arrivals ([] : List (α ⊕ γ)) = [] := rfl

@[simp] theorem arrivals_inl (a : α) (l : List (α ⊕ γ)) :
    arrivals (.inl a :: l) = a :: arrivals l := rfl

@[simp] theorem arrivals_inr (c : γ) (l : List (α ⊕ γ)) : arrivals (.inr c :: l) = arrivals l := rfl

@[simp] theorem arrivals_append (l m : List (α ⊕ γ)) :
    arrivals (l ++ m) = arrivals l ++ arrivals m := filterMap_append

@[simp] theorem arrivals_map_inl (l : List α) : arrivals (l.map Sum.inl : List (α ⊕ γ)) = l := by
  induction l with
  | nil => rfl
  | cons a l ih => rw [map_cons, arrivals_inl, ih]

@[simp] theorem gates_nil : gates ([] : List (α ⊕ γ)) = [] := rfl

@[simp] theorem gates_inl (a : α) (l : List (α ⊕ γ)) : gates (.inl a :: l) = gates l := rfl

@[simp] theorem gates_inr (c : γ) (l : List (α ⊕ γ)) : gates (.inr c :: l) = c :: gates l := rfl

variable (eligible : γ → α → Prop) [∀ c a, Decidable (eligible c a)]

/-- One of the gates lets the element through. -/
def Admitted (l : List (α ⊕ γ)) (a : α) : Prop := ∃ c ∈ gates l, eligible c a

instance (l : List (α ⊕ γ)) : DecidablePred (Admitted eligible l) := fun _ =>
  inferInstanceAs (Decidable (∃ _ ∈ _, _))

/-- **The elements held after a run**: those that no gate after them lets through. -/
def held : List (α ⊕ γ) → List α
  | [] => []
  | .inl a :: l => if Admitted eligible l a then held l else a :: held l
  | .inr _ :: l => held l

/-- **What a run shows by its end**: its gates, and of its elements those that went through. -/
def seen : List (α ⊕ γ) → List (α ⊕ γ)
  | [] => []
  | .inl a :: l => if Admitted eligible l a then .inl a :: seen l else seen l
  | .inr c :: l => .inr c :: seen l

variable [LinearOrder β] (rank : α → β)

/-- What a gate lets through of the elements that are held. -/
def release (c : γ) (w : List α) : List α := (w.filter (eligible c ·)).orderBy rank

/-- What a gate does not let through. -/
def keep (c : γ) (w : List α) : List α := w.filter (¬ eligible c ·)

/-- What goes through in a run that starts with elements held. -/
def through : List α → List (α ⊕ γ) → List (α ⊕ γ)
  | _, [] => []
  | w, .inl a :: l => through (w ++ [a]) l
  | w, .inr c :: l => (release eligible rank c w).map .inl ++ .inr c :: through (keep eligible c w) l

/-- **What goes through in a run.** -/
def passed (l : List (α ⊕ γ)) : List (α ⊕ γ) := through eligible rank [] l

section Held

variable {eligible}

omit [∀ c a, Decidable (eligible c a)] in
@[simp] theorem not_admitted_nil (a : α) : ¬ Admitted eligible ([] : List (α ⊕ γ)) a :=
  fun ⟨_, hc, _⟩ => absurd hc not_mem_nil

variable {a : α} {l : List (α ⊕ γ)}

omit [∀ c a, Decidable (eligible c a)] in
@[simp] theorem admitted_inr {c : γ} :
    Admitted eligible (.inr c :: l) a ↔ eligible c a ∨ Admitted eligible l a := by
  simp [Admitted]

omit [∀ c a, Decidable (eligible c a)] in
theorem admitted_append {m : List (α ⊕ γ)} :
    Admitted eligible (l ++ m) a ↔ Admitted eligible l a ∨ Admitted eligible m a := by
  simp [Admitted, gates, or_and_right, exists_or]

@[simp] theorem held_nil : held eligible ([] : List (α ⊕ γ)) = [] := rfl

theorem held_inl (a : α) (l : List (α ⊕ γ)) : held eligible (.inl a :: l)
      = if Admitted eligible l a then held eligible l else a :: held eligible l := rfl

@[simp] theorem held_inr (c : γ) (l : List (α ⊕ γ)) :
    held eligible (.inr c :: l) = held eligible l := rfl

/-- The elements held after a run that goes on: of those held before, the ones that no gate of the
rest lets through, and those of the rest. -/
theorem held_append (l m : List (α ⊕ γ)) : held eligible (l ++ m)
      = (held eligible l).filter (¬ Admitted eligible m ·) ++ held eligible m := by
  induction l with
  | nil => rfl
  | cons x l ih =>
    cases x with
    | inr c => exact ih
    | inl a =>
      rw [cons_append, held_inl, held_inl, ih, if_congr admitted_append rfl rfl]
      by_cases hl : Admitted eligible l a
      · rw [if_pos (.inl hl), if_pos hl]
      by_cases hm : Admitted eligible m a
      · rw [if_pos (.inr hm), if_neg hl, filter_cons_of_neg (by simpa using hm)]
      · rw [if_neg (not_or.mpr ⟨hl, hm⟩), if_neg hl, filter_cons_of_pos (by simpa using hm),
          cons_append]

variable (l)

theorem held_concat_inl (a : α) : held eligible (l ++ [.inl a]) = held eligible l ++ [a] := by
  rw [held_append, held_inl, if_neg (not_admitted_nil a), held_nil]
  congr 1
  exact filter_eq_self.mpr fun b _ => decide_eq_true (not_admitted_nil b)

theorem held_concat_inr (c : γ) :
    held eligible (l ++ [.inr c]) = keep eligible c (held eligible l) := by
  rw [held_append, held_inr, held_nil, append_nil]
  exact filter_congr fun a _ => decide_eq_decide.mpr (by simp)

end Held

section Passed

variable {eligible} {rank}

/-- What is let through and what is kept is what was held. -/
theorem release_append_keep_perm (c : γ) (w : List α) :
    release eligible rank c w ++ keep eligible c w ~ w := by
  have hkeep : keep eligible c w = w.filter fun a => !decide (eligible c a) :=
    filter_congr fun a _ => decide_not
  rw [hkeep]
  exact ((orderBy_perm rank _).append_right _).trans (filter_append_perm _ w)

theorem through_append (w : List α) (l m : List (α ⊕ γ)) : through eligible rank w (l ++ m)
      = through eligible rank w l
        ++ through eligible rank (w.filter (¬ Admitted eligible l ·) ++ held eligible l) m := by
  induction l generalizing w with
  | nil =>
    have hw : w.filter (¬ Admitted eligible ([] : List (α ⊕ γ)) ·) = w :=
      filter_eq_self.mpr fun a _ => decide_eq_true (not_admitted_nil a)
    rw [hw, held_nil, append_nil]
    rfl
  | cons x l ih =>
    cases x with
    | inl a =>
      show through eligible rank (w ++ [a]) (l ++ m) = through eligible rank (w ++ [a]) l ++ _
      rw [ih (w ++ [a]), filter_append, append_assoc, held_inl]
      congr 3
      by_cases ha : Admitted eligible l a
      · rw [if_pos ha, filter_cons_of_neg (by simpa using ha), filter_nil, nil_append]
      · rw [if_neg ha, filter_cons_of_pos (by simpa using ha), filter_nil]
        rfl
    | inr c =>
      show _ ++ .inr c :: through eligible rank (keep eligible c w) (l ++ m) = _
      have hfilter : (keep eligible c w).filter (¬ Admitted eligible l ·)
          = w.filter (¬ Admitted eligible (.inr c :: l) ·) := by
        rw [keep, filter_filter]
        refine filter_congr fun a _ => ?_
        rw [← Bool.decide_and, decide_eq_decide, admitted_inr, not_or, and_comm]
      show _ = (map Sum.inl _ ++ Sum.inr c :: _) ++ _
      rw [ih, hfilter, append_assoc, cons_append, held_inr]

theorem passed_append (l m : List (α ⊕ γ)) : passed eligible rank (l ++ m)
      = passed eligible rank l ++ through eligible rank (held eligible l) m :=
  through_append [] l m

variable (l : List (α ⊕ γ))

theorem passed_concat_inl (a : α) :
    passed eligible rank (l ++ [.inl a]) = passed eligible rank l := by
  rw [passed_append]
  exact append_nil _

/-- At a gate goes through what it lets through of the elements held. -/
theorem passed_concat_inr (c : γ) : passed eligible rank (l ++ [.inr c]) = passed eligible rank l
        ++ ((release eligible rank c (held eligible l)).map .inl ++ [.inr c]) :=
  passed_append l [.inr c]

/-- **Each element goes through once or is held.** -/
theorem arrivals_passed_perm :
    arrivals (passed eligible rank l) ++ held eligible l ~ arrivals l := by
  induction l using List.reverseRecOn with
  | nil => exact Perm.refl _
  | append_singleton l x ih =>
    cases x with
    | inl a =>
      rw [passed_concat_inl, held_concat_inl, ← append_assoc, arrivals_append]
      exact ih.append_right [a]
    | inr c =>
      rw [passed_concat_inr, held_concat_inr, arrivals_append, arrivals_append, arrivals_append,
        arrivals_map_inl, append_assoc]
      show _ ++ ((release eligible rank c (held eligible l) ++ []) ++ _) ~ arrivals l ++ []
      rw [append_nil, append_nil]
      exact ((release_append_keep_perm c (held eligible l)).append_left _).trans ih

/-- Of the elements held at first, those that no gate lets through make no difference. -/
theorem through_seen (w : List α) (l : List (α ⊕ γ)) :
    through eligible rank (w.filter (Admitted eligible l ·)) (seen eligible l)
      = through eligible rank w l := by
  induction l generalizing w with
  | nil => rfl
  | cons x l ih =>
    cases x with
    | inl a =>
      have hright : through eligible rank w (.inl a :: l) = through eligible rank (w ++ [a]) l := rfl
      rw [hright, ← ih (w ++ [a]), filter_append]
      show through eligible rank _ (if Admitted eligible l a then _ else _) = _
      by_cases ha : Admitted eligible l a
      · rw [if_pos ha, filter_cons_of_pos (by simpa using ha)]
        rfl
      · rw [if_neg ha, filter_cons_of_neg (by simpa using ha), filter_nil, append_nil]
        rfl
    | inr c =>
      have hrelease : (w.filter (Admitted eligible (.inr c :: l) ·)).filter (eligible c ·)
          = w.filter (eligible c ·) := by
        rw [filter_filter]
        refine filter_congr fun a _ => ?_
        rw [← Bool.decide_and, decide_eq_decide, admitted_inr]
        exact ⟨And.left, fun h => ⟨h, .inl h⟩⟩
      have hkeep : keep eligible c (w.filter (Admitted eligible (.inr c :: l) ·))
          = (keep eligible c w).filter (Admitted eligible l ·) := by
        rw [keep, keep, filter_filter, filter_filter]
        refine filter_congr fun a _ => ?_
        rw [← Bool.decide_and, ← Bool.decide_and, decide_eq_decide, admitted_inr]
        exact ⟨fun h => ⟨h.2.resolve_left h.1, h.1⟩, fun h => ⟨h.2, .inr h.1⟩⟩
      show map Sum.inl (orderBy rank _) ++ Sum.inr c :: through eligible rank _ _ = _
      rw [hrelease, hkeep, ih]
      rfl

/-- **What goes through does not depend on elements that nothing has let through.** -/
theorem passed_seen :
    passed eligible rank (seen eligible l) = passed eligible rank l := through_seen [] l

theorem passed_congr {l l' : List (α ⊕ γ)} (h : seen eligible l = seen eligible l') :
    passed eligible rank l = passed eligible rank l' := by
  rw [← passed_seen l, h, passed_seen]

end Passed

end Holding
