import Mathlib.Data.Sign.Basic

/-!
# Paths and turns

A sequence of numbers moves by the changes between its neighbours. Its path is
the sum of their absolute values; its direction is the sign of the last change
that is not zero, and it turns where two changes of different signs have only
zero changes between them.

All of it is said of pairs of neighbours, and a sequence that is put together
from two has one pair more than they have (`adjacent_append`). So paths, signs and
turns are computed from parts, with no more of a part than its ends and its first
and last sign.
-/

namespace List

variable {α : Type} (l : List α)

/-- **Pairs of neighbours.** -/
def adjacent : List (α × α) := l.zip l.tail

@[simp] theorem adjacent_nil : adjacent ([] : List α) = [] := rfl

@[simp] theorem adjacent_singleton (a : α) : adjacent [a] = [] := rfl

@[simp] theorem adjacent_cons_cons (a b : α) (l : List α) :
    adjacent (a :: b :: l) = (a, b) :: adjacent (b :: l) := rfl

/-- **Where two sequences meet** there is one pair more. -/
theorem adjacent_append (a b : α) (m : List α) :
    adjacent ((l ++ [a]) ++ b :: m) = adjacent (l ++ [a]) ++ (a, b) :: adjacent (b :: m) := by
  induction l with
  | nil => rfl
  | cons c l ih =>
    cases l with
    | nil => rfl
    | cons d l =>
      show (c, d) :: adjacent ((d :: l ++ [a]) ++ b :: m) = _
      rw [ih]
      rfl

theorem isChain_iff_adjacent {r : α → α → Prop} {l : List α} :
    l.IsChain r ↔ ∀ x ∈ adjacent l, r x.1 x.2 := by
  induction l with
  | nil => simp
  | cons a l ih =>
    cases l with
    | nil => simp
    | cons b l => rw [isChain_cons_cons, ih, adjacent_cons_cons, forall_mem_cons]

/-! ## Turns of signs -/

/-- Two signs that are not the same, `0` standing for none. -/
def turn (a b : SignType) : ℕ := if a ≠ 0 ∧ b ≠ 0 ∧ a ≠ b then 1 else 0

variable (s : List SignType)

/-- The first sign, `0` if there is none. -/
def firstSign : SignType := s.head?.getD 0

/-- The last sign, `0` if there is none. -/
def lastSign : SignType := s.getLast?.getD 0

/-- **The turns of a sequence of signs**: the neighbours that differ. -/
def turns : ℕ := (adjacent s).countP fun p => p.1 ≠ p.2

variable (a : SignType)

@[simp] theorem turn_zero_left : turn 0 a = 0 := by simp [turn]

@[simp] theorem turn_zero_right : turn a 0 = 0 := by simp [turn]

@[simp] theorem firstSign_nil : firstSign [] = 0 := rfl

@[simp] theorem lastSign_nil : lastSign [] = 0 := rfl

@[simp] theorem turns_nil : turns [] = 0 := rfl

@[simp] theorem firstSign_cons : firstSign (a :: s) = a := rfl

@[simp] theorem lastSign_concat : lastSign (s ++ [a]) = a := by
  simp [lastSign]

variable {t : List SignType} {s}

/-- **Turns add up**, with one more where the signs at the seam differ. -/
theorem turns_append (hs : 0 ∉ s) (ht : 0 ∉ t) :
    turns (s ++ t) = turns s + turn (lastSign s) (firstSign t) + turns t := by
  rcases List.eq_nil_or_concat s with rfl | ⟨s, a, rfl⟩
  · simp
  cases t with
  | nil => simp
  | cons b t =>
    rw [concat_eq_append] at hs ⊢
    have ha : a ≠ 0 := fun h => hs (h ▸ by simp)
    have hb : b ≠ 0 := fun h => ht (h ▸ by simp)
    rw [turns, adjacent_append, countP_append, countP_cons, lastSign_concat, firstSign_cons]
    simp only [turn, ha, hb, ne_eq, not_false_eq_true, true_and, decide_not, turns]
    by_cases hab : a = b
    · simp [hab]
    · simp [hab]
      omega

theorem firstSign_append (hs : 0 ∉ s) (t : List SignType) :
    firstSign (s ++ t) = if firstSign s = 0 then firstSign t else firstSign s := by
  cases s with
  | nil => simp
  | cons a s =>
    have ha : a ≠ 0 := fun h => hs (h ▸ by simp)
    simp [ha]

variable (s)

theorem lastSign_append (ht : 0 ∉ t) :
    lastSign (s ++ t) = if firstSign t = 0 then lastSign s else lastSign t := by
  cases t with
  | nil => simp
  | cons b t =>
    have hb : b ≠ 0 := fun h => ht (h ▸ by simp)
    rw [firstSign_cons, if_neg hb, lastSign, getLast?_append_of_ne_nil _ (cons_ne_nil b t)]
    rfl

/-! ## Sequences of numbers -/

variable [AddCommGroup α] [LinearOrder α]

/-- The changes between neighbours. -/
def changes : List α := (adjacent l).map fun p => p.2 - p.1

/-- **The path**: the sum of the absolute changes. -/
def pathLength : α := ((changes l).map fun x => |x|).sum

/-- **The signs of the changes** that are not zero. -/
def signs : List SignType := ((changes l).map SignType.sign).filter (· ≠ 0)

variable (x : α)

/-- A change is a sign or none. -/
def signOf : List SignType := [SignType.sign x].filter (· ≠ 0)

theorem zero_notMem_signs : 0 ∉ signs l := by
  simp [signs]

theorem zero_notMem_signOf : 0 ∉ signOf x := by
  simp [signOf]

theorem firstSign_signOf : firstSign (signOf x) = SignType.sign x := by
  by_cases h : SignType.sign x = 0
  · simp [signOf, h]
  · simp [signOf, h]

theorem lastSign_signOf : lastSign (signOf x) = SignType.sign x := by
  by_cases h : SignType.sign x = 0
  · simp [signOf, h]
  · simp [signOf, h, lastSign]

theorem turns_signOf : turns (signOf x) = 0 := by
  by_cases h : SignType.sign x = 0
  · simp [signOf, h]
  · simp [signOf, h, turns]

omit [LinearOrder α] in
theorem changes_append (a b : α) (m : List α) :
    changes ((l ++ [a]) ++ b :: m) = changes (l ++ [a]) ++ (b - a) :: changes (b :: m) := by
  unfold changes
  rw [adjacent_append, map_append, map_cons]

theorem pathLength_cons_self [IsOrderedAddMonoid α] (a : α) (l : List α) :
    pathLength (a :: a :: l) = pathLength (a :: l) := by
  unfold pathLength changes
  rw [adjacent_cons_cons, map_cons, map_cons, sum_cons, sub_self, abs_zero, zero_add]

theorem signs_cons_self (a : α) (l : List α) : signs (a :: a :: l) = signs (a :: l) := by
  unfold signs changes
  rw [adjacent_cons_cons, map_cons, map_cons, sub_self, sign_zero, filter_cons]
  simp

theorem pathLength_append (a b : α) (m : List α) : pathLength ((l ++ [a]) ++ b :: m)
      = pathLength (l ++ [a]) + (|b - a| + pathLength (b :: m)) := by
  unfold pathLength
  rw [changes_append, map_append, map_cons, sum_append, sum_cons]

theorem signs_append (a b : α) (m : List α) :
    signs ((l ++ [a]) ++ b :: m) = signs (l ++ [a]) ++ (signOf (b - a) ++ signs (b :: m)) := by
  unfold signs signOf
  rw [changes_append, map_append, map_cons, filter_append,
    ← singleton_append (x := SignType.sign (b - a)), filter_append]

/-- **The turns of two sequences**, one behind the other: they turn where the second one
starts, and again where it goes another way than it started. -/
theorem turns_signs_append (a b : α) (m : List α) :
    turns (signs ((l ++ [a]) ++ b :: m)) = turns (signs (l ++ [a]))
      + turn (lastSign (signs (l ++ [a]))) (SignType.sign (b - a))
      + turn (lastSign (signs (l ++ [a]) ++ signOf (b - a))) (firstSign (signs (b :: m)))
      + turns (signs (b :: m)) := by
  have hl := zero_notMem_signs (l ++ [a])
  have hx := zero_notMem_signOf (b - a)
  have hm := zero_notMem_signs (b :: m)
  have hlx : 0 ∉ signs (l ++ [a]) ++ signOf (b - a) := by
    rw [mem_append]
    exact not_or.mpr ⟨hl, hx⟩
  rw [signs_append, ← append_assoc, turns_append hlx hm, turns_append hl hx, turns_signOf,
    firstSign_signOf, Nat.add_zero]

theorem lastSign_append_signOf :
    lastSign (s ++ signOf x) = if SignType.sign x = 0 then lastSign s else SignType.sign x := by
  rw [lastSign_append _ (zero_notMem_signOf x), firstSign_signOf, lastSign_signOf]

theorem lastSign_signs_append (a b : α) (m : List α) :
    lastSign (signs ((l ++ [a]) ++ b :: m)) = if firstSign (signs (b :: m)) = 0
      then lastSign (signs (l ++ [a]) ++ signOf (b - a)) else lastSign (signs (b :: m)) := by
  rw [signs_append, ← append_assoc, lastSign_append _ (zero_notMem_signs _)]

end List
