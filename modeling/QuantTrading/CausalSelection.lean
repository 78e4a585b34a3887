import QuantTrading.EventStrategies

/-!
# Selection as of a decision

`qt.marketdata.causal`: the closed bars and the observation that are available at a decision. The
records come in the order in which they become available, and reading stops at the first one that is
not available yet. So what comes after it, in whatever order, does not matter (`loop_takeWhile`);
but an available record that comes after it is not read either.
-/

namespace Qt.Marketdata

open Except List Strategies

/-- When a bar is known. -/
def knownAt (useReceivedTime : Bool) (bar : ClosedBar) : ℕ :=
  if useReceivedTime then bar.receivedAtNs else bar.availableAtNs

variable (decisionAtNs : ℕ) (useReceivedTime : Bool)

/-- The loop of `closed_bars_asof`, over what is left of the bars. -/
def loop : List ClosedBar → List ClosedBar → Option ℕ → Except Exc (List ClosedBar)
  | [], selected, _ => .ok selected
  | bar :: bars, selected, previousAvailability =>
    if decisionAtNs < knownAt useReceivedTime bar then .ok selected
    else if ∃ p ∈ previousAvailability, knownAt useReceivedTime bar < p then
      .error (.valueError "bars are out of availability order")
    else if ∃ last ∈ selected.getLast?, bar.openTsNs < last.closeTsNs then
      .error (.valueError
        "bars overlap or revise an earlier bar; use an explicit revision stream")
    else
      loop bars (if bar.closeTsNs ≤ decisionAtNs then selected ++ [bar] else selected)
        (some (knownAt useReceivedTime bar))

def closedBarsAsof (bars : List ClosedBar) (decisionAtNs : ℤ) (useReceivedTime : Bool) :
    Except Exc (List ClosedBar) :=
  if decisionAtNs < 0 then
    .error (.valueError "decision time must be nonnegative integer nanoseconds")
  else loop decisionAtNs.toNat useReceivedTime bars [] none

def latestClosedBar (bars : List ClosedBar) (decisionAtNs : ℤ) (useReceivedTime : Bool)
    (maximumAgeNs : Option ℤ) : Except Exc (Option ClosedBar) :=
  if ∃ age ∈ maximumAgeNs, age < 0 then
    .error (.valueError "maximum age must be nonnegative integer nanoseconds")
  else do
    let available ← closedBarsAsof bars decisionAtNs useReceivedTime
    return available.getLast?.filter fun latest =>
      ∀ age ∈ maximumAgeNs, decisionAtNs - latest.closeTsNs ≤ age

section Observations

variable {T : Type} (decisionAtNs : ℤ)

/-- The loop of `asof_available`. -/
def latestLoop : List (ℤ × T) → Option (ℤ × T) → Except Exc (Option (ℤ × T))
  | [], latest => .ok latest
  | (availableAtNs, value) :: observations, latest =>
    if availableAtNs < 0 then
      .error (.valueError "observation availability must be nonnegative integer nanoseconds")
    else if decisionAtNs < availableAtNs then .ok latest
    else if ∃ last ∈ latest, availableAtNs < last.1 then
      .error (.valueError "observations are out of availability order")
    else latestLoop observations (some (availableAtNs, value))

def asofAvailable (observations : List (ℤ × T)) (maximumAgeNs : Option ℤ) :
    Except Exc (Option T) :=
  if decisionAtNs < 0 then
    .error (.valueError "decision time must be nonnegative integer nanoseconds")
  else if ∃ age ∈ maximumAgeNs, age < 0 then
    .error (.valueError "maximum age must be nonnegative integer nanoseconds")
  else do
    let latest ← latestLoop decisionAtNs observations none
    return (latest.filter fun last =>
      ∀ age ∈ maximumAgeNs, decisionAtNs - last.1 ≤ age).map Prod.snd

variable {decisionAtNs}

/-- **Reading stops at the first observation that is not available.** -/
theorem latestLoop_takeWhile (hdecision : 0 ≤ decisionAtNs) (observations : List (ℤ × T))
    (latest : Option (ℤ × T)) :
    latestLoop decisionAtNs (observations.takeWhile (·.1 ≤ decisionAtNs)) latest =
      latestLoop decisionAtNs observations latest := by
  induction observations generalizing latest with
  | nil => rfl
  | cons observation observations ih =>
    by_cases hknown : observation.1 ≤ decisionAtNs
    · rw [takeWhile_cons_of_pos (by simpa using hknown)]
      simp only [latestLoop, ih]
    · have hlate := not_le.mp hknown
      rw [takeWhile_cons_of_neg (by simpa using hlate), latestLoop, latestLoop,
        if_neg (hdecision.trans hlate.le).not_gt, if_pos hlate]

end Observations

variable {decisionAtNs useReceivedTime} {bars selected r : List ClosedBar} {previous : Option ℕ}

/-- **Reading stops at the first bar that is not known.** -/
theorem loop_takeWhile (bars : List ClosedBar) (selected : List ClosedBar) (previous : Option ℕ) :
    loop decisionAtNs useReceivedTime
        (bars.takeWhile (knownAt useReceivedTime · ≤ decisionAtNs)) selected previous =
      loop decisionAtNs useReceivedTime bars selected previous := by
  induction bars generalizing selected previous with
  | nil => rfl
  | cons bar bars ih =>
    by_cases hknown : knownAt useReceivedTime bar ≤ decisionAtNs
    · rw [takeWhile_cons_of_pos (by simpa using hknown)]
      simp only [loop, ih]
    · have hlate := not_le.mp hknown
      rw [takeWhile_cons_of_neg (by simpa using hlate), loop, loop, if_pos hlate]

/-- The order in which records become available. -/
def Ordered {α κ : Type} [LE κ] (known : α → κ) (l : List α) : Prop :=
  l.Pairwise fun a b => known a ≤ known b

/-- In this order, reading stops where nothing available is left. -/
theorem takeWhile_eq_filter {α κ : Type} [LinearOrder κ] {known : α → κ} {t : κ} {l : List α}
    (h : Ordered known l) : l.takeWhile (known · ≤ t) = l.filter (known · ≤ t) := by
  induction l with
  | nil => rfl
  | cons a l ih =>
    by_cases ha : known a ≤ t
    · rw [takeWhile_cons_of_pos (by simpa using ha), filter_cons_of_pos (by simpa using ha),
        ih h.of_cons]
    · have hnone : (a :: l).filter (known · ≤ t) = [] := filter_eq_nil_iff.mpr fun b hb => by
        rcases mem_cons.mp hb with rfl | hb
        · simpa using ha
        · simpa using (not_le.mp ha).trans_le (rel_of_pairwise_cons h hb)
      rw [takeWhile_cons_of_neg (by simpa using ha), hnone]

theorem closeTsNs_le_knownAt (bar : ClosedBar) : bar.closeTsNs ≤ knownAt useReceivedTime bar := by
  unfold knownAt
  split_ifs
  · exact bar.close_le_available.trans bar.available_le_received
  · exact bar.close_le_available

/-- What was selected stays. -/
theorem selected_prefix (h : loop decisionAtNs useReceivedTime bars selected previous = .ok r) :
    selected <+: r := by
  induction bars generalizing selected previous with
  | nil =>
    cases h
    exact prefix_rfl
  | cons bar bars ih =>
    unfold loop at h
    split_ifs at h
    · cases h
      exact prefix_rfl
    · exact (prefix_append _ _).trans (ih h)
    · exact ih h

/-- **A later decision selects more.** -/
theorem loop_of_later {later : ℕ} (hle : decisionAtNs ≤ later)
    (h : loop later useReceivedTime bars selected previous = .ok r) :
    ∃ r', loop decisionAtNs useReceivedTime bars selected previous = .ok r' ∧ r' <+: r := by
  induction bars generalizing selected previous with
  | nil => exact ⟨selected, rfl, selected_prefix h⟩
  | cons bar bars ih =>
    by_cases hknown : decisionAtNs < knownAt useReceivedTime bar
    · exact ⟨selected, by rw [loop, if_pos hknown], selected_prefix h⟩
    · have hclose : bar.closeTsNs ≤ decisionAtNs :=
        (closeTsNs_le_knownAt bar).trans (not_lt.mp hknown)
      unfold loop at h ⊢
      rw [if_neg fun hlt => hknown (hle.trans_lt hlt), if_pos (hclose.trans hle)] at h
      rw [if_neg hknown, if_pos hclose]
      split_ifs at h ⊢
      exact ih h

end Qt.Marketdata
