import Mathlib.Data.Int.ModEq
import Mathlib.Tactic.Linarith
import Mathlib.Tactic.Ring
import QuantTrading.Lib.Turns

/-!
# Steps and holes of a grid

A sequence of integers goes up a grid of mesh `d` in steps: each step is a positive
multiple of `d`. Where a step is longer than `d` it leaves a hole, the points of
the grid strictly between its ends. So the holes of a sequence are told by its
pairs of neighbours alone (`holes`), and where two sequences are put together, what
comes to the holes of the two is the hole of the step from one to the other
(`holes_append`).

The holes are in order and apart, they are made of the points of the grid that
the sequence leaves out (`exists_mem_holes_iff`), and with the points that it has
they are all points from the first to the last (`length_add_sum_points`).

What lies between two holes is a run: `runs` gathers the points of a sequence into its longest
stretches without a hole, which are in order and apart as well.
-/

namespace Grid

open List Int

variable (d : ℤ)

/-- A step up the grid of mesh `d`. -/
def Step (p : ℤ × ℤ) : Prop := p.1 < p.2 ∧ d ∣ p.2 - p.1

/-- **A sequence that goes up a grid in steps.** -/
def Steps (l : List ℤ) : Prop := ∀ p ∈ adjacent l, Step d p

/-- The hole that a step leaves, as its first and its last point. -/
def hole (p : ℤ × ℤ) : List (ℤ × ℤ) := if d < p.2 - p.1 then [(p.1 + d, p.2 - d)] else []

/-- **The holes of a sequence.** -/
def holes (l : List ℤ) : List (ℤ × ℤ) := (adjacent l).flatMap (hole d)

/-- How many points of the grid a hole has. -/
def points (h : ℤ × ℤ) : ℤ := (h.2 - h.1) / d + 1

/-- A point of the grid in a hole. -/
def In (d t : ℤ) (h : ℤ × ℤ) : Prop := h.1 ≤ t ∧ t ≤ h.2 ∧ d ∣ t - h.1

variable {d}

theorem steps_singleton (a : ℤ) : Steps d [a] := fun _ hp => by cases hp

variable {a b : ℤ} {l : List ℤ}

theorem steps_cons_cons : Steps d (a :: b :: l) ↔ Step d (a, b) ∧ Steps d (b :: l) := by
  show (∀ p ∈ (a, b) :: adjacent (b :: l), Step d p) ↔ _
  exact forall_mem_cons

@[simp] theorem holes_singleton (a : ℤ) : holes d [a] = [] := rfl

@[simp] theorem holes_cons_cons (a b : ℤ) (l : List ℤ) :
    holes d (a :: b :: l) = hole d (a, b) ++ holes d (b :: l) := rfl

/-- **Where two sequences meet** there is one step more. -/
theorem steps_append {m : List ℤ} :
    Steps d ((l ++ [a]) ++ b :: m) ↔ Steps d (l ++ [a]) ∧ Step d (a, b) ∧ Steps d (b :: m) := by
  show (∀ p ∈ adjacent ((l ++ [a]) ++ b :: m), Step d p) ↔ _
  rw [adjacent_append, forall_mem_append, forall_mem_cons]
  rfl

/-- **The holes of two sequences that meet** are those of the two, and of the step between. -/
theorem holes_append (l m : List ℤ) (a b : ℤ) :
    holes d ((l ++ [a]) ++ b :: m) = holes d (l ++ [a]) ++ (hole d (a, b) ++ holes d (b :: m)) := by
  show (adjacent ((l ++ [a]) ++ b :: m)).flatMap (hole d) = _
  rw [adjacent_append, flatMap_append, flatMap_cons]
  rfl

/-- A sequence that goes up in steps is strictly increasing. -/
theorem Steps.pairwise_lt (hl : Steps d l) : l.Pairwise (· < ·) := by
  induction l with
  | nil => exact .nil
  | cons a l ih =>
    cases l with
    | nil => exact pairwise_singleton _ a
    | cons b l =>
      obtain ⟨hab, hl⟩ := steps_cons_cons.mp hl
      have htail := ih hl
      refine pairwise_cons.mpr ⟨fun x hx => ?_, htail⟩
      rcases mem_cons.mp hx with rfl | hx
      · exact hab.1
      · exact hab.1.trans (rel_of_pairwise_cons htail hx)

/-- The last point of a sequence that goes up is not below its first. -/
theorem Steps.le_getLast (hl : Steps d (a :: l)) : a ≤ (a :: l).getLast (cons_ne_nil a l) := by
  rcases mem_cons.mp (getLast_mem (cons_ne_nil a l)) with h | h
  · exact h.ge
  · exact (rel_of_pairwise_cons hl.pairwise_lt h).le

variable {t : ℤ}

theorem steps_of_pairwise (hl : l.Pairwise (· < ·)) {c : ℤ} (hgrid : ∀ t ∈ l, d ∣ t - c) :
    Steps d l := by
  induction l with
  | nil => exact fun _ hp => absurd hp not_mem_nil
  | cons a l ih =>
    cases l with
    | nil => exact steps_singleton a
    | cons b l =>
      have hsplit := pairwise_cons.mp hl
      have heq : b - a = (b - c) - (a - c) := by ring
      refine steps_cons_cons.mpr ⟨⟨hsplit.1 b mem_cons_self, ?_⟩,
        ih hsplit.2 fun t ht => hgrid t (mem_cons_of_mem a ht)⟩
      show d ∣ b - a
      exact heq ▸ Int.dvd_sub (hgrid b (mem_cons_of_mem a mem_cons_self)) (hgrid a mem_cons_self)

/-! ## One hole -/

/-- A step longer than the mesh is at least two meshes long. -/
theorem Step.two_mul_le (h : Step d (a, b)) (hlong : d < b - a) (hd : 0 < d) : 2 * d ≤ b - a := by
  obtain ⟨k, hk⟩ := h.2
  show 2 * d ≤ b - a
  have hk' : b - a = d * k := hk
  have : 1 < k := by
    by_contra hle
    have : d * k ≤ d * 1 := Int.mul_le_mul_of_nonneg_left (by omega) hd.le
    omega
  have : d * 2 ≤ d * k := Int.mul_le_mul_of_nonneg_left (by omega) hd.le
  omega

variable {h : ℤ × ℤ}

/-- **A hole is not empty** and lies strictly between the ends of its step. -/
theorem Step.hole_bounds (hs : Step d (a, b)) (hd : 0 < d) (hh : h ∈ hole d (a, b)) :
    a < h.1 ∧ h.1 ≤ h.2 ∧ h.2 < b := by
  unfold hole at hh
  split_ifs at hh with hlong
  · obtain rfl := mem_singleton.mp hh
    have := hs.two_mul_le hlong hd
    refine ⟨?_, ?_, ?_⟩
    · show a < a + d
      omega
    · show a + d ≤ b - d
      omega
    · show b - d < b
      omega
  · cases hh

/-- **The points of the grid strictly between the ends of a step** are those in its hole. -/
theorem Step.exists_mem_hole_iff (hs : Step d (a, b)) (hd : 0 < d) :
    (∃ h ∈ hole d (a, b), In d t h) ↔ a < t ∧ t < b ∧ d ∣ t - a := by
  have hshift : t - (a + d) = (t - a) - d := by ring
  constructor
  · rintro ⟨h, hh, hin⟩
    obtain ⟨hlow, -, hup⟩ := hs.hole_bounds hd hh
    refine ⟨hlow.trans_le hin.1, hin.2.1.trans_lt hup, ?_⟩
    unfold hole at hh
    split_ifs at hh with hlong
    · obtain rfl := mem_singleton.mp hh
      have hdvd : d ∣ t - (a + d) := hin.2.2
      rw [hshift] at hdvd
      exact (Int.dvd_iff_dvd_of_dvd_sub (by rw [sub_sub_cancel])).mpr hdvd
    · cases hh
  · rintro ⟨hlow, hup, hdvd⟩
    -- On the grid, a point above `a` is a mesh above it, and one below `b` a mesh below.
    have hge : a + d ≤ t := by
      have := le_of_dvd (by omega) hdvd
      omega
    have hle : t ≤ b - d := by
      have hb : d ∣ b - t := by
        have hsub : b - t = (b - a) - (t - a) := by ring
        rw [hsub]
        exact Int.dvd_sub hs.2 hdvd
      have := le_of_dvd (by omega) hb
      omega
    refine ⟨(a + d, b - d), ?_, hge, hle, ?_⟩
    · rw [hole, if_pos (by show d < b - a; omega)]
      exact mem_singleton_self _
    · show d ∣ t - (a + d)
      rw [hshift]
      exact Int.dvd_sub hdvd (Int.dvd_refl d)

theorem Step.one_add_sum_points (hs : Step d (a, b)) (hd : 0 < d) :
    1 + ((hole d (a, b)).map (points d)).sum = (b - a) / d := by
  obtain ⟨k, hk⟩ := hs.2
  have hk : b - a = d * k := hk
  have hpos : 0 < k := by
    have hba : 0 < d * k := by
      have : a < b := hs.1
      omega
    exact pos_of_mul_pos_right hba hd.le
  rw [hk, mul_ediv_cancel_left k hd.ne']
  unfold hole
  by_cases hlong : d < b - a
  · rw [if_pos (by exact hlong), map_singleton, sum_singleton]
    show 1 + ((b - d - (a + d)) / d + 1) = k
    have hlen : b - d - (a + d) = d * (k - 2) := by linarith
    rw [hlen, mul_ediv_cancel_left _ hd.ne']
    ring
  · rw [if_neg (by exact hlong), map_nil, sum_nil]
    have : d * k ≤ d * 1 := by omega
    have := Int.le_of_mul_le_mul_left this hd
    omega

/-! ## All holes -/

section

variable (hl : Steps d (a :: l))
include hl

/-- Every hole of a sequence lies strictly between its first and its last point. -/
theorem Steps.holes_bounds (hd : 0 < d) (hh : h ∈ holes d (a :: l)) :
    a < h.1 ∧ h.1 ≤ h.2 ∧ h.2 < (a :: l).getLast (cons_ne_nil a l) := by
  induction l generalizing a with
  | nil => cases hh
  | cons b l ih =>
    obtain ⟨hab, hl⟩ := steps_cons_cons.mp hl
    rw [getLast_cons_cons]
    rw [holes_cons_cons, mem_append] at hh
    rcases hh with hh | hh
    · obtain ⟨hlow, hne, hup⟩ := hab.hole_bounds hd hh
      exact ⟨hlow, hne, hup.trans_le hl.le_getLast⟩
    · obtain ⟨hlow, hne, hup⟩ := ih hl hh
      exact ⟨hab.1.trans hlow, hne, hup⟩

/-- **The holes are in order and apart.** -/
theorem Steps.pairwise_holes (hd : 0 < d) :
    (holes d (a :: l)).Pairwise fun g h => g.2 < h.1 := by
  induction l generalizing a with
  | nil => exact .nil
  | cons b l ih =>
    obtain ⟨hab, hl⟩ := steps_cons_cons.mp hl
    rw [holes_cons_cons, pairwise_append]
    refine ⟨?_, ih hl, fun g hg h hh => ?_⟩
    · unfold hole
      split_ifs
      · exact pairwise_singleton _ _
      · exact .nil
    · exact (hab.hole_bounds hd hg).2.2.trans (hl.holes_bounds hd hh).1

/-- **The holes are made of what the sequence leaves out**: the points of the grid from
its first to its last point that it does not have. -/
theorem Steps.exists_mem_holes_iff (hd : 0 < d) :
    (∃ h ∈ holes d (a :: l), In d t h) ↔
      (a ≤ t ∧ t ≤ (a :: l).getLast (cons_ne_nil a l) ∧ d ∣ t - a) ∧ t ∉ a :: l := by
  induction l generalizing a with
  | nil =>
    rw [holes_singleton, mem_singleton]
    constructor
    · rintro ⟨_, hh, _⟩
      cases hh
    · rintro ⟨⟨hlow, hup, -⟩, hne⟩
      exact absurd (le_antisymm hup hlow) hne
  | cons b l ih =>
    obtain ⟨hab, hl⟩ := steps_cons_cons.mp hl
    have hlast := hl.le_getLast
    have hgrid : d ∣ t - a ↔ d ∣ t - b := by
      refine Int.dvd_iff_dvd_of_dvd_sub ?_
      rw [sub_sub_sub_cancel_left]
      exact hab.2
    have hab' : a < b := hab.1
    simp only [holes_cons_cons, mem_append, or_and_right, exists_or, hab.exists_mem_hole_iff hd,
      ih hl, getLast_cons_cons, mem_cons (a := t) (b := a)]
    rw [hgrid]
    constructor
    · rintro (⟨hlow, hup, hdvd⟩ | ⟨⟨hlow, hup, hdvd⟩, hne⟩)
      · refine ⟨⟨hlow.le, hup.le.trans hlast, hdvd⟩, ?_⟩
        rintro (rfl | hmem)
        · exact lt_irrefl _ hlow
        · rcases mem_cons.mp hmem with rfl | hmem
          · exact lt_irrefl _ hup
          · exact lt_asymm hup (rel_of_pairwise_cons hl.pairwise_lt hmem)
      · refine ⟨⟨hab'.le.trans hlow, hup, hdvd⟩, ?_⟩
        rintro (rfl | hmem)
        · exact absurd hab' hlow.not_gt
        · exact hne hmem
    · rintro ⟨⟨hlow, hup, hdvd⟩, hne⟩
      rcases lt_or_ge t b with hlt | hge
      · exact .inl ⟨hlow.lt_of_ne fun h => hne (.inl h.symm), hlt, hdvd⟩
      · exact .inr ⟨⟨hge, hup, hdvd⟩, fun hmem => hne (.inr hmem)⟩

/-- **The points of a sequence and of its holes** are all points of the grid from its
first to its last. -/
theorem Steps.length_add_sum_points (hd : 0 < d) :
    ((a :: l).length : ℤ) + ((holes d (a :: l)).map (points d)).sum
      = ((a :: l).getLast (cons_ne_nil a l) - a) / d + 1 := by
  induction l generalizing a with
  | nil => simp
  | cons b l ih =>
    obtain ⟨hab, hl⟩ := steps_cons_cons.mp hl
    have hstep := hab.one_add_sum_points hd
    have htail := ih hl
    rw [holes_cons_cons, map_append, sum_append, getLast_cons_cons, length_cons, Nat.cast_add_one]
    set last := (b :: l).getLast (cons_ne_nil b l)
    have hsplit : (last - a) / d = (last - b) / d + (b - a) / d := by
      have hsum : last - a = (last - b) + (b - a) := by ring
      rw [hsum, add_ediv_of_dvd_right hab.2]
    rw [hsplit, ← hstep]
    linarith

end

/-! ## Runs -/

/-- **The runs of a sequence** that has come from `first` to `last` without a hole: each as its first
and its last point. -/
def runs (d first last : ℤ) : List ℤ → List (ℤ × ℤ)
  | [] => [(first, last)]
  | t :: l => if t - last = d then runs d first t l else (first, last) :: runs d t t l

variable {first last : ℤ}

theorem in_self : In d t (a, a) ↔ t = a := by
  show a ≤ t ∧ t ≤ a ∧ d ∣ t - a ↔ t = a
  refine ⟨fun h => le_antisymm h.2.1 h.1, fun h => ?_⟩
  rw [h, sub_self]
  exact ⟨le_rfl, le_rfl, dvd_zero d⟩

variable (hle : first ≤ last)
include hle

variable (hdvd : d ∣ last - first)
include hdvd

/-- A point one mesh after the last point of a run makes it longer by one point. -/
theorem in_extend (hd : 0 < d) :
    In d t (first, last + d) ↔ In d t (first, last) ∨ t = last + d := by
  show first ≤ t ∧ t ≤ last + d ∧ d ∣ t - first
    ↔ (first ≤ t ∧ t ≤ last ∧ d ∣ t - first) ∨ t = last + d
  constructor
  · intro h
    by_cases hlast : t ≤ last
    · exact .inl ⟨h.1, hlast, h.2.2⟩
    · have hdiff : d ∣ t - last := by
        have heq : t - last = (t - first) - (last - first) := by ring
        exact heq ▸ Int.dvd_sub h.2.2 hdvd
      have hge := le_of_dvd (by omega) hdiff
      exact .inr (by omega)
  · intro h
    rcases h with h | rfl
    · exact ⟨h.1, by omega, h.2.2⟩
    · have heq : last + d - first = (last - first) + d := by ring
      exact ⟨by omega, le_rfl, heq ▸ Int.dvd_add hdvd (Int.dvd_refl d)⟩

/-- **The runs are made of what the sequence has.** -/
theorem exists_mem_runs_iff (hd : 0 < d) :
    (∃ h ∈ runs d first last l, In d t h) ↔ In d t (first, last) ∨ t ∈ l := by
  induction l generalizing first last with
  | nil => simp [runs]
  | cons a l ih =>
    unfold runs
    split_ifs with hstep
    · obtain rfl : a = last + d := by omega
      have heq : last + d - first = (last - first) + d := by ring
      rw [ih (by omega) (heq ▸ Int.dvd_add hdvd (Int.dvd_refl d)), in_extend hle hdvd hd, mem_cons,
        or_assoc]
    · rw [exists_mem_cons_iff, ih le_rfl (by simp), in_self, mem_cons]

theorem bounds_of_mem_runs (hsteps : Steps d (last :: l)) (hh : h ∈ runs d first last l) :
    first ≤ h.1 ∧ h.1 ≤ h.2 ∧ d ∣ h.2 - h.1 ∧ d ∣ h.1 - first := by
  induction l generalizing first last with
  | nil =>
    obtain rfl := mem_singleton.mp hh
    exact ⟨le_rfl, hle, hdvd, by simp⟩
  | cons a l ih =>
    have hsplit := steps_cons_cons.mp hsteps
    have hstep := hsplit.1
    have hlt : last < a := hstep.1
    have hdiff : d ∣ a - last := hstep.2
    have heq : a - first = (a - last) + (last - first) := by ring
    unfold runs at hh
    split_ifs at hh with hmesh
    · exact ih (hle.trans hlt.le) (heq ▸ Int.dvd_add hdiff hdvd) hsplit.2 hh
    · rcases mem_cons.mp hh with rfl | hh
      · exact ⟨le_rfl, hle, hdvd, by simp⟩
      · have hrun := ih le_rfl (by simp) hsplit.2 hh
        have heq' : h.1 - first = (h.1 - a) + (a - first) := by ring
        exact ⟨(hle.trans hlt.le).trans hrun.1, hrun.2.1, hrun.2.2.1,
          heq' ▸ Int.dvd_add hrun.2.2.2 (heq ▸ Int.dvd_add hdiff hdvd)⟩

/-- **The runs are in order, with a hole between each and the next.** -/
theorem pairwise_runs (hsteps : Steps d (last :: l)) :
    (runs d first last l).Pairwise fun g h => g.2 + d < h.1 := by
  induction l generalizing first last with
  | nil => exact pairwise_singleton _ _
  | cons a l ih =>
    have hsplit := steps_cons_cons.mp hsteps
    have hstep := hsplit.1
    have hlt : last < a := hstep.1
    have hdiff : d ∣ a - last := hstep.2
    have heq : a - first = (a - last) + (last - first) := by ring
    unfold runs
    split_ifs with hmesh
    · exact ih (hle.trans hlt.le) (heq ▸ Int.dvd_add hdiff hdvd) hsplit.2
    · refine pairwise_cons.mpr ⟨fun h hh => ?_, ih le_rfl (by simp) hsplit.2⟩
      have hrun := (bounds_of_mem_runs le_rfl (by simp) hsplit.2 hh).1
      have hge := le_of_dvd (by omega) hdiff
      show last + d < h.1
      omega

end Grid
