import Mathlib.Algebra.Order.Field.Basic
import Mathlib.Data.List.Basic

/-!
# Drawdowns of a curve

A list of levels, its running maxima (`peaks`), and how far it lies below them: the greatest
drawdown is the greatest loss from a level to a later one (`maxDrawdown_isGreatest`).

How long it lies below them is measured by a loop over the points (`Clock`), which keeps the time of
the last maximum. What it has measured in the end is the longest span from a maximum to where the
curve is back, or to its end (`Clock.isGreatest_run`).
-/

namespace Drawdown

open List Option

/-! ## Running maxima -/

section Peaks

variable {K : Type} [LinearOrder K] {levels : List K} {i j : ℕ} {e e' p : K}

/-- The running maxima. -/
def peaks : List K → List K
  | [] => []
  | level :: levels => levels.scanl max level

@[simp] theorem length_peaks (levels : List K) : (peaks levels).length = levels.length := by
  cases levels with
  | nil => rfl
  | cons level levels => simp [peaks]

theorem getElem?_peaks (hj : j < levels.length) :
    (peaks levels)[j]? = (levels.take (j + 1)).max? := by
  cases levels with
  | nil => simp at hj
  | cons level levels =>
    rw [take_succ_cons, max?_cons', peaks, getElem?_scanl, if_pos (Nat.le_of_lt_succ hj)]

theorem exists_peak (he : levels[j]? = some e) : ∃ p, (peaks levels)[j]? = some p := by
  have hj := (List.getElem?_eq_some_iff.mp he).1
  exact ⟨_, getElem?_eq_getElem (by simpa using hj)⟩

/-- **A running maximum** is the greatest level so far. -/
theorem isGreatest_peak (hp : (peaks levels)[j]? = some p) :
    IsGreatest {e | ∃ i ≤ j, levels[i]? = some e} p := by
  have hj : j < levels.length := by simpa using (List.getElem?_eq_some_iff.mp hp).1
  rw [getElem?_peaks hj, max?_eq_some_iff] at hp
  refine ⟨?_, ?_⟩
  · obtain ⟨i, hi⟩ := mem_iff_getElem?.mp hp.1
    rw [getElem?_take] at hi
    split_ifs at hi with hlt
    exact ⟨i, Nat.le_of_lt_succ hlt, hi⟩
  · rintro e ⟨i, hle, he⟩
    refine hp.2 e (mem_iff_getElem?.mpr ⟨i, ?_⟩)
    rw [getElem?_take, if_pos (Nat.lt_succ_of_le hle), he]

end Peaks

/-! ## The greatest drawdown -/

section Depth

variable {K : Type} [Field K] [LinearOrder K] {levels : List K}

/-- How far each level lies below the maximum so far. -/
def drawdowns (levels : List K) : List K :=
  List.zipWith (fun level peak => 1 - level / peak) levels (peaks levels)

theorem mem_drawdowns {d : K} : d ∈ drawdowns levels ↔
    ∃ (j : ℕ) (e p : K), levels[j]? = some e ∧ (peaks levels)[j]? = some p ∧ 1 - e / p = d := by
  rw [drawdowns, mem_iff_getElem?]
  exact exists_congr fun j => getElem?_zipWith_eq_some

/-- The greatest drawdown. -/
def maxDrawdown (levels : List K) : K := (drawdowns levels).max?.getD 0

/-- **The greatest drawdown** is the greatest loss from a level to a later one. -/
theorem isGreatest_maxDrawdown [IsStrictOrderedRing K] (hne : levels ≠ [])
    (hpos : ∀ e ∈ levels, 0 < e) :
    IsGreatest {d | ∃ (i j : ℕ) (e e' : K), i ≤ j ∧ levels[i]? = some e ∧ levels[j]? = some e'
      ∧ d = 1 - e' / e} (maxDrawdown levels) := by
  obtain ⟨d, hd⟩ : ∃ d, (drawdowns levels).max? = some d := by
    refine Option.isSome_iff_exists.mp (isSome_max?_of_ne_nil fun hnil => hne ?_)
    rw [← length_eq_zero_iff] at hnil ⊢
    simpa [drawdowns] using hnil
  rw [maxDrawdown, hd, Option.getD_some]
  rw [max?_eq_some_iff] at hd
  refine ⟨?_, ?_⟩
  · obtain ⟨j, e', p, he', hp, rfl⟩ := mem_drawdowns.mp hd.1
    obtain ⟨i, hle, hi⟩ := (isGreatest_peak hp).1
    exact ⟨i, j, p, e', hle, hi, he', rfl⟩
  · rintro d ⟨i, j, e, e', hle, he, he', rfl⟩
    obtain ⟨p, hp⟩ := exists_peak he'
    refine le_trans ?_ (hd.2 _ (mem_drawdowns.mpr ⟨j, e', p, he', hp, rfl⟩))
    have hpeak : e ≤ p := (isGreatest_peak hp).2 ⟨i, hle, he⟩
    exact sub_le_sub_left (div_le_div_of_nonneg_left
      (hpos e' (mem_of_getElem? he')).le (hpos e (mem_of_getElem? he)) hpeak) 1

end Depth

/-! ## The longest span below a maximum -/

section Clock

variable {K T : Type} [LinearOrder K] [Zero K]

/-- What the loop keeps: what it has measured, the time of the last maximum, and whether the curve
lies below it. -/
structure Clock (K T : Type) where
  duration : K
  peakTime : T
  under : Bool

variable (gap : T → T → K)

/-- **A point**: its time, and whether the curve lies below its maximum. -/
def Clock.step (c : Clock K T) (x : T × Bool) : Clock K T :=
  if x.2 then ⟨max c.duration (gap c.peakTime x.1), c.peakTime, true⟩
  else ⟨if c.under then max c.duration (gap c.peakTime x.1) else c.duration, x.1, false⟩

/-- **A span below a maximum**, to where the curve is back or to its end. -/
structure Span (points : List (T × Bool)) (i j : ℕ) (s t : T) : Prop where
  lt : i < j
  peak : points[i]? = some (s, false)
  under : ∀ k, i < k → k < j → ∃ x, points[k]? = some (x, true)
  stop : points[j]? = some (t, false) ∧ i + 1 < j
    ∨ points[j]? = some (t, true) ∧ j + 1 = points.length

/-- What there is to measure. -/
def lengths (points : List (T × Bool)) : Set K :=
  {0} ∪ {g | ∃ i j s t, Span points i j s t ∧ g = gap s t}

/-- What the loop has measured of some points. -/
structure Clock.Good (gap : T → T → K) (points : List (T × Bool)) (c : Clock K T) : Prop where
  peak : ∃ i, points[i]? = some (c.peakTime, false)
    ∧ (∀ k, i < k → k < points.length → ∃ x, points[k]? = some (x, true))
    ∧ (c.under = true ↔ i + 1 < points.length)
  nonneg : 0 ≤ c.duration
  upper : ∀ i j s t, Span points i j s t → gap s t ≤ c.duration
  attained : c.duration = 0 ∨ ∃ i j s t, Span points i j s t ∧ c.duration = gap s t

variable {gap} {points : List (T × Bool)} {c : Clock K T} {i j : ℕ} {s t : T} {x : T × Bool}

/-- A maximum is the last if the curve lies below one from it on. -/
theorem eq_of_under {i' : ℕ} {s' : T} (hi : points[i]? = some (s, false))
    (hi' : points[i']? = some (s', false))
    (hunder : ∀ k, i < k → k < points.length → ∃ x, points[k]? = some (x, true))
    (hunder' : ∀ k, i' < k → k < points.length → ∃ x, points[k]? = some (x, true)) : i = i' := by
  rcases lt_trichotomy i i' with hlt | heq | hlt
  · obtain ⟨x, hx⟩ := hunder i' hlt (List.getElem?_eq_some_iff.mp hi').1
    rw [hi'] at hx
    simp at hx
  · exact heq
  · obtain ⟨x, hx⟩ := hunder' i hlt (List.getElem?_eq_some_iff.mp hi).1
    rw [hi] at hx
    simp at hx

/-- **The spans with one more point** are those where the curve was back, and the one to the new
point. -/
theorem span_concat : Span (points ++ [x]) i j s t ↔
    (Span points i j s t ∧ points[j]? = some (t, false))
    ∨ (j = points.length ∧ t = x.1 ∧ points[i]? = some (s, false)
      ∧ (∀ k, i < k → k < points.length → ∃ y, points[k]? = some (y, true))
      ∧ (x.2 = true ∨ i + 1 < points.length)) := by
  constructor
  · rintro ⟨hlt, hpeak, hunder, hstop⟩
    have hj : j < points.length + 1 := by
      have hsome : ∃ y, (points ++ [x])[j]? = some y := by
        rcases hstop with h | h
        · exact ⟨_, h.1⟩
        · exact ⟨_, h.1⟩
      simpa using (List.getElem?_eq_some_iff.mp hsome.choose_spec).1
    have hold : ∀ k, k < j → (points ++ [x])[k]? = points[k]? := fun k hk =>
      getElem?_append_left (by omega)
    rw [hold i hlt] at hpeak
    have hunder' : ∀ k, i < k → k < j → ∃ y, points[k]? = some (y, true) := fun k hk hkj =>
      hold k hkj ▸ hunder k hk hkj
    rcases Nat.lt_or_ge j points.length with hlast | hlast
    · rw [getElem?_append_left hlast] at hstop
      rcases hstop with ⟨hback, hnext⟩ | ⟨-, hend⟩
      · exact .inl ⟨⟨hlt, hpeak, hunder', .inl ⟨hback, hnext⟩⟩, hback⟩
      · rw [length_append, length_singleton] at hend
        omega
    · obtain rfl : j = points.length := by omega
      rw [getElem?_concat_length] at hstop
      refine .inr ⟨rfl, ?_, hpeak, hunder', ?_⟩
      · rcases hstop with ⟨hx, -⟩ | ⟨hx, -⟩
        · rw [some.inj hx]
        · rw [some.inj hx]
      · rcases hstop with ⟨-, hnext⟩ | ⟨hx, -⟩
        · exact .inr hnext
        · exact .inl (by rw [some.inj hx])
  · rintro (⟨⟨hlt, hpeak, hunder, hstop⟩, hback⟩ | ⟨rfl, rfl, hpeak, hunder, hx⟩)
    · have hj := (List.getElem?_eq_some_iff.mp hback).1
      have hnew : ∀ k, k ≤ j → (points ++ [x])[k]? = points[k]? := fun k hk =>
        getElem?_append_left (by omega)
      refine ⟨hlt, by rw [hnew i hlt.le, hpeak], fun k hk hkj => ?_, .inl ?_⟩
      · rw [hnew k hkj.le]
        exact hunder k hk hkj
      · rw [hnew j le_rfl]
        rcases hstop with ⟨_, hnext⟩ | ⟨hother, -⟩
        · exact ⟨hback, hnext⟩
        · rw [hback] at hother
          simp at hother
    · have hi := (List.getElem?_eq_some_iff.mp hpeak).1
      refine ⟨hi, by rw [getElem?_append_left hi, hpeak], fun k hk hkj => ?_, ?_⟩
      · rw [getElem?_append_left hkj]
        exact hunder k hk hkj
      · rw [getElem?_concat_length, length_append, length_singleton]
        obtain ⟨y, b⟩ := x
        cases b with
        | true => exact .inr ⟨rfl, rfl⟩
        | false => exact .inl ⟨rfl, hx.resolve_left (by simp)⟩

/-- The span to the end, of points whose last lies below its maximum. -/
theorem Span.gap_le (h : Span points i j s t) (hend : points[j]? ≠ some (t, false))
    (hc : c.Good gap points) (hgap : ∀ s, ∀ y ∈ points, gap s y.1 ≤ gap s x.1) :
    c.under = true ∧ gap s t ≤ gap c.peakTime x.1 := by
  obtain ⟨hlt, hpeak, hunder, hstop⟩ := h
  obtain ⟨hstop, hlast⟩ := hstop.resolve_left fun h => hend h.1
  obtain ⟨i', hpeak', hunder', hiff⟩ := hc.peak
  have hall : ∀ k, i < k → k < points.length → ∃ y, points[k]? = some (y, true) := by
    intro k hk hkl
    rcases Nat.lt_or_ge k j with hkj | hkj
    · exact hunder k hk hkj
    · obtain rfl : k = j := by omega
      exact ⟨t, hstop⟩
  obtain rfl := eq_of_under hpeak hpeak' hall hunder'
  obtain rfl : s = c.peakTime := by
    rw [hpeak'] at hpeak
    exact (Prod.ext_iff.mp (some.inj hpeak)).1.symm
  exact ⟨hiff.mpr (by omega), hgap _ _ (mem_of_getElem? hstop)⟩

theorem Clock.Good.measured (hc : c.Good gap points)
    (hgap : ∀ s, ∀ y ∈ points, gap s y.1 ≤ gap s x.1) (hx : x.2 = true ∨ c.under = true) :
    IsGreatest (lengths gap (points ++ [x])) (max c.duration (gap c.peakTime x.1)) := by
  obtain ⟨i, hpeak, hunder, hiff⟩ := hc.peak
  have hnew : Span (points ++ [x]) i points.length c.peakTime x.1 :=
    span_concat.mpr (.inr ⟨rfl, rfl, hpeak, hunder, hx.imp_right hiff.mp⟩)
  refine ⟨?_, ?_⟩
  · rcases le_total c.duration (gap c.peakTime x.1) with hle | hle
    · rw [max_eq_right hle]
      exact .inr ⟨_, _, _, _, hnew, rfl⟩
    · rw [max_eq_left hle]
      rcases hc.attained with hzero | ⟨i', j', s, t, hspan, heq⟩
      · exact .inl hzero
      · by_cases hend : points[j']? = some (t, false)
        · exact .inr ⟨i', j', s, t, span_concat.mpr (.inl ⟨hspan, hend⟩), heq⟩
        · have hlonger := (hspan.gap_le hend hc hgap).2
          exact .inr ⟨_, _, _, _, hnew, le_antisymm (heq ▸ hlonger) hle⟩
  · rintro g (rfl | ⟨i', j', s, t, hspan, rfl⟩)
    · exact hc.nonneg.trans (le_max_left _ _)
    · rcases span_concat.mp hspan with ⟨hold, -⟩ | ⟨rfl, rfl, hpeak', hunder', -⟩
      · exact (hc.upper _ _ _ _ hold).trans (le_max_left _ _)
      · obtain rfl := eq_of_under hpeak hpeak' hunder hunder'
        rw [hpeak] at hpeak'
        obtain rfl : c.peakTime = s := (Prod.ext_iff.mp (some.inj hpeak')).1
        exact le_max_right _ _

/-- There is no span to a new maximum right after another. -/
theorem Clock.Good.skipped (hc : c.Good gap points)
    (hgap : ∀ s, ∀ y ∈ points, gap s y.1 ≤ gap s x.1) (hx : x.2 = false)
    (hunder : c.under = false) :
    IsGreatest (lengths gap (points ++ [x])) c.duration := by
  refine ⟨?_, ?_⟩
  · rcases hc.attained with hzero | ⟨i', j', s, t, hspan, heq⟩
    · exact .inl hzero
    · by_cases hend : points[j']? = some (t, false)
      · exact .inr ⟨i', j', s, t, span_concat.mpr (.inl ⟨hspan, hend⟩), heq⟩
      · have habsurd := (hspan.gap_le hend hc hgap).1
        rw [hunder] at habsurd
        exact absurd habsurd (by simp)
  · rintro g (rfl | ⟨i', j', s, t, hspan, rfl⟩)
    · exact hc.nonneg
    · rcases span_concat.mp hspan with ⟨hold, -⟩ | ⟨rfl, rfl, hpeak', hunder', hnext⟩
      · exact hc.upper _ _ _ _ hold
      · obtain ⟨i, hpeak, hunder'', hiff⟩ := hc.peak
        obtain rfl := eq_of_under hpeak hpeak' hunder'' hunder'
        have habsurd := hiff.mpr (hnext.resolve_left (by simp [hx]))
        rw [hunder] at habsurd
        exact absurd habsurd (by simp)

theorem Clock.good_of_isGreatest (hpeak : ∃ i, points[i]? = some (c.peakTime, false)
      ∧ (∀ k, i < k → k < points.length → ∃ x, points[k]? = some (x, true))
      ∧ (c.under = true ↔ i + 1 < points.length))
    (h : IsGreatest (lengths gap points) c.duration) :
    c.Good gap points :=
  ⟨hpeak, h.2 (.inl rfl), fun i j s t hspan => h.2 (.inr ⟨i, j, s, t, hspan, rfl⟩), h.1⟩

/-- **One more point.** -/
theorem Clock.Good.step (hc : c.Good gap points) (hgap : ∀ s, ∀ y ∈ points, gap s y.1 ≤ gap s x.1) :
    (c.step gap x).Good gap (points ++ [x]) := by
  obtain ⟨y, b⟩ := x
  cases b with
  | true =>
    refine Clock.good_of_isGreatest ?_ (hc.measured hgap (.inl rfl))
    -- the last maximum stays
    obtain ⟨i, hpeak, hunder, -⟩ := hc.peak
    have hi := (List.getElem?_eq_some_iff.mp hpeak).1
    refine ⟨i, by rw [getElem?_append_left hi]; exact hpeak, fun k hk hkl => ?_, ?_⟩
    · rw [length_append, length_singleton] at hkl
      rcases Nat.lt_or_ge k points.length with hold | hlast
      · rw [getElem?_append_left hold]
        exact hunder k hk hold
      · obtain rfl : k = points.length := by omega
        exact ⟨y, getElem?_concat_length⟩
    · rw [length_append, length_singleton]
      exact ⟨fun _ => by omega, fun _ => rfl⟩
  | false =>
    refine Clock.good_of_isGreatest ?_ ?_
    · refine ⟨points.length, getElem?_concat_length, fun k hk hkl => ?_, ?_⟩
      · rw [length_append, length_singleton] at hkl
        omega
      · rw [length_append, length_singleton]
        exact ⟨fun h => absurd h Bool.false_ne_true, fun h => absurd h (lt_irrefl _)⟩
    · cases hunder : c.under with
      | true =>
        have hmeasured := hc.measured hgap (.inr hunder)
        rwa [Clock.step, if_neg (by simp), hunder, if_pos rfl]
      | false =>
        have hskipped := hc.skipped hgap rfl hunder
        rwa [Clock.step, if_neg (by simp), hunder, if_neg (by simp)]

/-- **What the loop has measured in the end**: the longest span from a maximum to where the curve is
back or to its end, or nothing. -/
theorem Clock.isGreatest_run [LinearOrder T] (hgap : ∀ s, Monotone (gap s)) {start : T}
    (points : List (T × Bool))
    (hordered : ((start, false) :: points).Pairwise fun x y => x.1 ≤ y.1) :
    IsGreatest (lengths gap ((start, false) :: points))
      (((start, false) :: points).foldl (Clock.step gap) ⟨0, start, false⟩).duration := by
  have hfirst : (Clock.mk (K := K) 0 start false).Good gap [(start, false)] := by
    refine Clock.good_of_isGreatest ⟨0, rfl, fun k hk hkl => ?_, ?_⟩ ⟨.inl rfl, ?_⟩
    · rw [length_singleton] at hkl
      omega
    · simp
    · rintro g (rfl | ⟨i, j, s, t, hspan, rfl⟩)
      · exact le_rfl
      · have hlt := hspan.lt
        have hj : j < 1 := by
          rcases hspan.stop with h | h
          · exact (List.getElem?_eq_some_iff.mp h.1).1
          · exact (List.getElem?_eq_some_iff.mp h.1).1
        omega
  have hrun : ∀ rest done : List (T × Bool), ∀ c : Clock K T,
      (done ++ rest).Pairwise (fun x y => x.1 ≤ y.1) → c.Good gap done →
      (rest.foldl (Clock.step gap) c).Good gap (done ++ rest) := by
    intro rest
    induction rest with
    | nil =>
      intro done c _ hc
      rwa [append_nil]
    | cons x rest ih =>
      intro done c hpairwise hc
      rw [append_cons] at hpairwise ⊢
      refine ih _ _ hpairwise (hc.step fun s y hy => hgap s ?_)
      rw [append_assoc] at hpairwise
      exact (pairwise_append.mp hpairwise).2.2 y hy x mem_cons_self
  have hgood := hrun points [(start, false)] _ hordered hfirst
  have hsame : ((start, false) :: points).foldl (Clock.step gap) (Clock.mk (K := K) 0 start false)
      = points.foldl (Clock.step gap) ⟨0, start, false⟩ := rfl
  rw [hsame]
  refine ⟨hgood.attained, ?_⟩
  rintro g (rfl | ⟨i, j, s, t, hspan, rfl⟩)
  · exact hgood.nonneg
  · exact hgood.upper i j s t hspan

end Clock

/-! ## Spans of a curve -/

section Levels

variable {K T : Type} [LinearOrder K] {times : List T} {levels : List K} {i j : ℕ} {s t : T}

/-- **A span below a maximum of a curve**, from its time to the one where the level is back or to the
last. -/
structure Below (times : List T) (levels : List K) (i j : ℕ) (s t : T) : Prop where
  lt : i < j
  start : times[i]? = some s
  finish : times[j]? = some t
  levels : ∃ e e', levels[i]? = some e ∧ levels[j]? = some e'
    ∧ (∀ k ≤ i, ∀ x, levels[k]? = some x → x ≤ e)
    ∧ (∀ k, i < k → k < j → ∀ x, levels[k]? = some x → x < e)
    ∧ (e ≤ e' ∧ i + 1 < j ∨ e' < e ∧ j + 1 = levels.length)

/-- The points of the loop. -/
def points (times : List T) (levels : List K) : List (T × Bool) :=
  List.zipWith (fun t x => (t, decide (x.1 < x.2))) times (levels.zip (peaks levels))

variable {k : ℕ}

theorem getElem?_points {b : Bool} : (points times levels)[k]? = some (t, b) ↔ times[k]? = some t
      ∧ ∃ e p, levels[k]? = some e ∧ (peaks levels)[k]? = some p ∧ decide (e < p) = b := by
  rw [points, getElem?_zipWith_eq_some]
  constructor
  · rintro ⟨t', ⟨e, p⟩, htime, hzip, heq⟩
    obtain ⟨he, hp⟩ := getElem?_zip_eq_some.mp hzip
    obtain ⟨rfl, hb⟩ := Prod.ext_iff.mp heq
    exact ⟨htime, e, p, he, hp, hb⟩
  · rintro ⟨htime, e, p, he, hp, rfl⟩
    exact ⟨t, (e, p), htime, getElem?_zip_eq_some.mpr ⟨he, hp⟩, rfl⟩

theorem getElem?_points_false : (points times levels)[k]? = some (t, false) ↔
    times[k]? = some t ∧ ∃ e, levels[k]? = some e ∧ ∀ m ≤ k, ∀ x, levels[m]? = some x → x ≤ e := by
  rw [getElem?_points]
  refine and_congr_right fun _ => ?_
  constructor
  · rintro ⟨e, p, he, hp, hb⟩
    have hle : p ≤ e := not_lt.mp (of_decide_eq_false hb)
    exact ⟨e, he, fun m hm x hx => ((isGreatest_peak hp).2 ⟨m, hm, hx⟩).trans hle⟩
  · rintro ⟨e, he, hmax⟩
    obtain ⟨p, hp⟩ := exists_peak he
    obtain ⟨m, hm, hx⟩ := (isGreatest_peak hp).1
    exact ⟨e, p, he, hp, decide_eq_false (not_lt.mpr (hmax m hm p hx))⟩

theorem getElem?_points_true : (points times levels)[k]? = some (t, true) ↔
    times[k]? = some t ∧ ∃ e, levels[k]? = some e ∧ ∃ m ≤ k, ∃ x, levels[m]? = some x ∧ e < x := by
  rw [getElem?_points]
  refine and_congr_right fun _ => ?_
  constructor
  · rintro ⟨e, p, he, hp, hb⟩
    obtain ⟨m, hm, hx⟩ := (isGreatest_peak hp).1
    exact ⟨e, he, m, hm, p, hx, of_decide_eq_true hb⟩
  · rintro ⟨e, he, m, hm, x, hx, hlt⟩
    obtain ⟨p, hp⟩ := exists_peak he
    exact ⟨e, p, he, hp, decide_eq_true (hlt.trans_le ((isGreatest_peak hp).2 ⟨m, hm, hx⟩))⟩

theorem length_points (h : times.length = levels.length) :
    (points times levels).length = levels.length := by
  simp [points, h]

/-- **The spans of the points are those of the curve.** -/
theorem span_points_iff (h : times.length = levels.length) :
    Span (points times levels) i j s t ↔ Below times levels i j s t := by
  constructor
  · rintro ⟨hlt, hpeak, hunder, hstop⟩
    obtain ⟨hs, e, he, hmax⟩ := getElem?_points_false.mp hpeak
    -- in between the maximum is the level at the start
    have hbetween : ∀ k, i < k → k < j → ∀ x, levels[k]? = some x → x < e := by
      intro k
      induction k using Nat.strong_induction_on with
      | _ k ih =>
        intro hik hkj x hx
        obtain ⟨u, hu⟩ := hunder k hik hkj
        obtain ⟨-, x', hx', m, hm, y, hy, hxy⟩ := getElem?_points_true.mp hu
        obtain rfl : x = x' := some.inj (hx.symm.trans hx')
        rcases Nat.lt_or_ge i m with him | hmi
        · have hmk : m ≠ k := by
            rintro rfl
            rw [hx] at hy
            exact absurd hxy (some.inj hy ▸ lt_irrefl _)
          exact hxy.trans (ih m (by omega) him (by omega) y hy)
        · exact hxy.trans_le (hmax m hmi y hy)
    rcases hstop with ⟨hback, hnext⟩ | ⟨hend, hlast⟩
    · obtain ⟨ht, e', he', hmax'⟩ := getElem?_points_false.mp hback
      exact ⟨hlt, hs, ht, e, e', he, he', hmax, hbetween, .inl ⟨hmax' i hlt.le e he, hnext⟩⟩
    · obtain ⟨ht, e', he', m, hm, y, hy, hxy⟩ := getElem?_points_true.mp hend
      rw [length_points h] at hlast
      refine ⟨hlt, hs, ht, e, e', he, he', hmax, hbetween, .inr ⟨?_, hlast⟩⟩
      rcases Nat.lt_or_ge i m with him | hmi
      · have hmj : m ≠ j := by
          rintro rfl
          rw [he'] at hy
          exact absurd hxy (some.inj hy ▸ lt_irrefl _)
        exact hxy.trans (hbetween m him (by omega) y hy)
      · exact hxy.trans_le (hmax m hmi y hy)
  · rintro ⟨hlt, hs, ht, e, e', he, he', hmax, hbetween, hstop⟩
    refine ⟨hlt, getElem?_points_false.mpr ⟨hs, e, he, hmax⟩, fun k hik hkj => ?_, ?_⟩
    · have hk : k < levels.length := hkj.trans (List.getElem?_eq_some_iff.mp he').1
      refine ⟨times.get ⟨k, h ▸ hk⟩, getElem?_points_true.mpr ⟨getElem?_eq_getElem _, _,
        getElem?_eq_getElem hk, i, hik.le, e, he, ?_⟩⟩
      exact hbetween k hik hkj _ (getElem?_eq_getElem hk)
    · rcases hstop with ⟨hle, hnext⟩ | ⟨hless, hlast⟩
      · refine .inl ⟨getElem?_points_false.mpr ⟨ht, e', he', fun m hm x hx => ?_⟩, hnext⟩
        rcases Nat.lt_or_ge i m with him | hmi
        · rcases hm.lt_or_eq with hmj | rfl
          · exact (hbetween m him hmj x hx).le.trans hle
          · rw [he'] at hx
            exact (some.inj hx).ge
        · exact (hmax m hmi x hx).trans hle
      · refine .inr ⟨getElem?_points_true.mpr ⟨ht, e', he', i, hlt.le, e, he, hless⟩, ?_⟩
        rw [length_points h, hlast]

/-- **What the loop measures of a curve.** -/
theorem isGreatest_duration {D : Type} [LinearOrder D] [Zero D] [LinearOrder T] {gap : T → T → D}
    (hgap : ∀ s, Monotone (gap s)) (h : times.length = levels.length)
    (hordered : times.Pairwise (· ≤ ·)) {start : T} (hstart : times.head? = some start) :
    IsGreatest ({0} ∪ {g | ∃ i j s t, Below times levels i j s t ∧ g = gap s t})
      ((points times levels).foldl (Clock.step gap) ⟨0, start, false⟩).duration := by
  have hfirst : ∃ rest, points times levels = (start, false) :: rest := by
    cases times with
    | nil => simp at hstart
    | cons t ts =>
      cases levels with
      | nil => simp at h
      | cons x xs =>
        obtain rfl : t = start := some.inj hstart
        have hhead : (points (t :: ts) (x :: xs))[0]? = some (t, false) :=
          getElem?_points_false.mpr ⟨rfl, x, rfl, fun m hm y hy => by
            obtain rfl : m = 0 := Nat.le_zero.mp hm
            exact (some.inj hy).ge⟩
        rw [← head?_eq_getElem?] at hhead
        exact head?_eq_some_iff.mp hhead
  obtain ⟨rest, hpoints⟩ := hfirst
  have hpairwise : (points times levels).Pairwise fun x y => x.1 ≤ y.1 := by
    refine pairwise_iff_getElem.mpr fun a b ha hb hab => ?_
    obtain ⟨hta, -⟩ := getElem?_points.mp (getElem?_eq_getElem ha)
    obtain ⟨htb, -⟩ := getElem?_points.mp (getElem?_eq_getElem hb)
    obtain ⟨ha', heqa⟩ := List.getElem?_eq_some_iff.mp hta
    obtain ⟨hb', heqb⟩ := List.getElem?_eq_some_iff.mp htb
    have hle := pairwise_iff_getElem.mp hordered a b ha' hb' hab
    rwa [heqa, heqb] at hle
  have hrun := Clock.isGreatest_run hgap rest (hpoints ▸ hpairwise)
  rw [← hpoints] at hrun
  simp only [lengths, span_points_iff h] at hrun
  exact hrun

end Levels

end Drawdown
