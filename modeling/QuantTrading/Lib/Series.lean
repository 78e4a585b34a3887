import Mathlib.Data.List.Basic
import Mathlib.Tactic.Linarith

/-!
# Series with gaps

A column of a data frame: a list whose entries may be missing. The operations are the usual ones –
entry by entry, a shift, a function of a moving window, an exponentially weighted average – and each
of them leaves entries missing at the start.

`Blank k s` says that the first `k` entries of `s` are surely missing. There is one rule for it for
each operation, so that what a formula needs before it has its first value is read off the formula.
-/

/-- A list of values and gaps. -/
abbrev Series (α : Type*) := List (Option α)

namespace Series

open List

variable {α β γ : Type*}

/-- The value at a place, if there is one. -/
def entry (s : Series α) (i : ℕ) : Option α := s[i]?.join

@[simp]
theorem entry_nil (i : ℕ) : entry ([] : Series α) i = none := rfl

@[simp]
theorem entry_cons_zero (x : Option α) (s : Series α) : entry (x :: s) 0 = x := by
  simp [entry]

@[simp]
theorem entry_cons_succ (x : Option α) (s : Series α) (i : ℕ) :
    entry (x :: s) (i + 1) = entry s i := by
  simp [entry]

variable {i : ℕ} {s : Series α}

theorem entry_of_length_le (h : s.length ≤ i) : entry s i = none := by
  simp [entry, getElem?_eq_none h]

/-- The values without gaps. -/
def ofValues (xs : List α) : Series α := xs.map some

@[simp]
theorem length_ofValues (xs : List α) : (ofValues xs).length = xs.length :=
  length_map _

/-! ## The operations -/

/-- Entry by entry, on one series. -/
def lift (f : α → Option β) (s : Series α) : Series β := s.map (·.bind f)

variable (f : α → β → Option γ)

/-- Entry by entry, on two. -/
def lift₂ (s : Series α) (t : Series β) : Series γ :=
  List.zipWith (fun x y => x.bind fun a => y.bind (f a)) s t

/-- Later by `n` places. -/
def shift (n : ℕ) (s : Series α) : Series α := (List.replicate n none ++ s).take s.length

variable (g : Series α → Option β)

/-- At each place a function of the series up to it. -/
def ofPrefixes (s : Series α) : Series β :=
  (List.range s.length).map fun i => g (s.take (i + 1))

/-- The values of a series without gaps. -/
def values : Series α → Option (List α)
  | [] => some []
  | none :: _ => none
  | some x :: s => (values s).map (x :: ·)

/-- At each place a function of the last `w` values, when none of them is missing. -/
def rolling (w : ℕ) (f : List α → β) : Series α → Series β :=
  ofPrefixes fun s => if s.length < w then none else (values (s.drop (s.length - w))).map f

@[simp]
theorem length_lift (f : α → Option β) (s : Series α) : (lift f s).length = s.length :=
  length_map _

@[simp]
theorem length_lift₂ (s : Series α) (t : Series β) : (lift₂ f s t).length = min s.length t.length :=
  length_zipWith

@[simp]
theorem length_shift (n : ℕ) (s : Series α) : (shift n s).length = s.length := by
  simp [shift]

@[simp]
theorem length_ofPrefixes (s : Series α) : (ofPrefixes g s).length = s.length := by
  simp [ofPrefixes]

@[simp]
theorem length_rolling (w : ℕ) (f : List α → β) (s : Series α) :
    (rolling w f s).length = s.length :=
  length_ofPrefixes _ s

theorem entry_lift (f : α → Option β) (s : Series α) (i : ℕ) :
    entry (lift f s) i = (entry s i).bind f := by
  cases h : s[i]? <;> simp [entry, lift, h]

theorem entry_lift₂ (s : Series α) (t : Series β) (i : ℕ) :
    entry (lift₂ f s t) i = (entry s i).bind fun a => (entry t i).bind (f a) := by
  cases hs : s[i]? with
  | none => simp [entry, lift₂, getElem?_zipWith, hs]
  | some x =>
    cases ht : t[i]? with
    | none => cases x <;> simp [entry, lift₂, getElem?_zipWith, hs, ht]
    | some y => simp [entry, lift₂, getElem?_zipWith, hs, ht]

theorem entry_ofPrefixes (hi : i < s.length) : entry (ofPrefixes g s) i = g (s.take (i + 1)) := by
  simp [entry, ofPrefixes, hi]

theorem take_lift (f : α → Option β) (s : Series α) (n : ℕ) :
    (lift f s).take n = lift f (s.take n) :=
  (map_take ..).symm

theorem take_lift₂ (s : Series α) (t : Series β) (n : ℕ) :
    (lift₂ f s t).take n = lift₂ f (s.take n) (t.take n) :=
  take_zipWith

theorem take_shift (k : ℕ) (s : Series α) (n : ℕ) : (shift k s).take n = shift k (s.take n) := by
  rw [shift, shift, take_take, length_take, take_append, take_append, take_take]
  congr 2
  omega

theorem take_ofPrefixes (s : Series α) (n : ℕ) :
    (ofPrefixes g s).take n = ofPrefixes g (s.take n) := by
  simp only [ofPrefixes, ← map_take, take_range, length_take]
  refine map_congr_left fun i hi => ?_
  rw [take_take, min_eq_left (Nat.succ_le_of_lt ((mem_range.mp hi).trans_le (min_le_left _ _)))]

/-! ## Blank starts -/

/-- The first `k` entries are missing. -/
def Blank (k : ℕ) (s : Series α) : Prop := ∀ i, i < k → entry s i = none

theorem blank_zero (s : Series α) : Blank 0 s :=
  fun _ h => absurd h (Nat.not_lt_zero _)

variable {k : ℕ}

theorem Blank.mono {l : ℕ} (h : Blank k s) (hl : l ≤ k) : Blank l s :=
  fun i hi => h i (lt_of_lt_of_le hi hl)

theorem Blank.lift (h : Blank k s) (f : α → Option β) : Blank k (lift f s) := by
  intro i hi
  rw [entry_lift, h i hi]
  rfl

theorem Blank.lift₂_left (h : Blank k s) (f : α → β → Option γ) (t : Series β) :
    Blank k (lift₂ f s t) := by
  intro i hi
  rw [entry_lift₂, h i hi]
  rfl

theorem Blank.lift₂_right {t : Series β} (h : Blank k t) (f : α → β → Option γ) (s : Series α) :
    Blank k (lift₂ f s t) := by
  intro i hi
  rw [entry_lift₂, h i hi]
  cases entry s i <;> rfl

theorem blank_shift (n : ℕ) (s : Series α) : Blank n (shift n s) := by
  intro i hi
  by_cases h : i < s.length
  · simp [entry, shift, h, hi]
  · exact entry_of_length_le (by simpa using h)

/-- What is read of a series up to a place says what it is up to there. -/
theorem blank_ofPrefixes {g : Series α → Option β}
    (h : ∀ i, i < k → i < s.length → g (s.take (i + 1)) = none) : Blank k (ofPrefixes g s) := by
  intro i hi
  by_cases hlt : i < s.length
  · rw [entry_ofPrefixes g hlt]
    exact h i hi hlt
  · exact entry_of_length_le (by simpa using hlt)

theorem values_eq_none (h : none ∈ s) : values s = none := by
  induction s with
  | nil => simp at h
  | cons x s ih =>
    cases x with
    | none => rfl
    | some x =>
      have hs : none ∈ s := by simpa using h
      simp [values, ih hs]

theorem values_ofValues (xs : List α) : values (ofValues xs) = some xs := by
  induction xs with
  | nil => rfl
  | cons x xs ih =>
    show (values (ofValues xs)).map (x :: ·) = _
    rw [ih]
    rfl

/-- **A value of a moving window**, over values without gaps. -/
theorem entry_rolling_ofValues (w : ℕ) (f : List α → β) {xs : List α} (hi : i < xs.length) :
    entry (rolling w f (ofValues xs)) i = if i + 1 < w then none else
      some (f ((xs.take (i + 1)).drop (i + 1 - w))) := by
  have htake : (ofValues xs).take (i + 1) = ofValues (xs.take (i + 1)) := (map_take ..).symm
  have hdrop : (ofValues (xs.take (i + 1))).drop (i + 1 - w)
      = ofValues ((xs.take (i + 1)).drop (i + 1 - w)) := (map_drop ..).symm
  have hlen : (xs.take (i + 1)).length = i + 1 := length_take_of_le hi
  rw [rolling, entry_ofPrefixes _ (by simpa using hi), htake, length_ofValues, hlen, hdrop,
    values_ofValues]
  rfl

/-- **A window has its first value when it holds none of the blank start.** -/
theorem Blank.rolling (h : Blank k s) {w : ℕ} (hw : 0 < w) (f : List α → β) :
    Blank (k + w - 1) (rolling w f s) := by
  refine blank_ofPrefixes fun i hi hlt => ?_
  have hlen : (s.take (i + 1)).length = i + 1 := length_take_of_le hlt
  rw [hlen]
  by_cases hshort : i + 1 < w
  · rw [if_pos hshort]
  · -- the window begins at a place before `k`
    rw [if_neg hshort, values_eq_none, Option.map_none]
    have hin : i + 1 - w < s.length := by omega
    have hget : s[i + 1 - w] = none := by
      simpa [entry, getElem?_eq_getElem hin] using h (i + 1 - w) (by omega)
    have hfirst : ((s.take (i + 1)).drop (i + 1 - w))[0]? = some none := by
      rw [getElem?_drop, getElem?_take_of_lt (by omega), Nat.add_zero,
        getElem?_eq_getElem hin, hget]
    exact mem_of_getElem? hfirst

/-! ## The weighted average -/

section Ewm

variable {K : Type*} [Field K]

/-- What the average carries: the average so far, the weight it has kept, the values seen. -/
structure Ewm (K : Type*) where
  weighted : Option K
  oldWt : K
  nobs : ℕ

/-- Before the first entry. -/
def Ewm.start : Ewm K := { weighted := none, oldWt := 1, nobs := 0 }

variable (alpha : K)

/-- One entry more. A gap leaves the average and lets its weight decay. -/
def Ewm.step (e : Ewm K) : Option K → Ewm K
  | none => { e with oldWt := (1 - alpha) * e.oldWt }
  | some cur =>
    match e.weighted with
    | none => { weighted := some cur, oldWt := 1, nobs := e.nobs + 1 }
    | some weighted =>
      let oldWt := (1 - alpha) * e.oldWt
      { weighted := some ((oldWt * weighted + alpha * cur) / (oldWt + alpha)), oldWt := 1,
        nobs := e.nobs + 1 }

variable (minPeriods : ℕ)

/-- The average, once `minPeriods` values were seen. -/
def Ewm.mean (e : Ewm K) : Option K :=
  if e.nobs < minPeriods then none else e.weighted

/-- The exponentially weighted average with smoothing factor `alpha`: recursive, by absolute
places, missing until `minPeriods` values were seen. -/
def ewm : Series K → Series K :=
  ofPrefixes fun s => (s.foldl (Ewm.step alpha) Ewm.start).mean minPeriods

@[simp]
theorem length_ewm (s : Series K) : (ewm alpha minPeriods s).length = s.length :=
  length_ofPrefixes _ s

theorem Ewm.nobs_step (e : Ewm K) (x : Option K) :
    (e.step alpha x).nobs = e.nobs + if x.isSome then 1 else 0 := by
  cases x with
  | none => rfl
  | some cur => cases h : e.weighted <;> simp [Ewm.step, h]

theorem Ewm.nobs_foldl (s : Series K) (e : Ewm K) :
    (s.foldl (Ewm.step alpha) e).nobs = e.nobs + s.countP Option.isSome := by
  induction s generalizing e with
  | nil => rfl
  | cons x s ih =>
    rw [foldl_cons, ih, Ewm.nobs_step, countP_cons]
    omega

/-- Of a prefix, what lies in the blank start does not count. -/
theorem Blank.countP_take_le {k : ℕ} {s : Series α} (h : Blank k s) (n : ℕ) :
    (s.take n).countP Option.isSome ≤ n - k := by
  induction n with
  | zero => simp
  | succ n ih =>
    rw [take_add_one, countP_append]
    by_cases hn : n < k
    · have hentry := h n hn
      cases hs : s[n]? with
      | none => simp; omega
      | some x =>
        have hx : x = none := by simpa [entry, hs] using hentry
        simp [hx]; omega
    · have hone : s[n]?.toList.countP Option.isSome ≤ 1 := by
        refine countP_le_length.trans ?_
        cases s[n]? <;> simp
      omega

/-- **An average has its first value `minPeriods` after the blank start.** -/
theorem Blank.ewm {k : ℕ} {s : Series K} (h : Blank k s) (alpha : K) {minPeriods : ℕ}
    (hmin : 0 < minPeriods) : Blank (k + minPeriods - 1) (ewm alpha minPeriods s) := by
  refine blank_ofPrefixes fun i hi _ => ?_
  have hseen := h.countP_take_le (i + 1)
  refine if_pos ?_
  rw [Ewm.nobs_foldl, Ewm.start, Nat.zero_add]
  omega

end Ewm

/-! ## The end of a series -/

/-- The last value. -/
def last (s : Series α) : Option α := entry s (s.length - 1)

/-- The last two values, when there are two. -/
def lastTwo (s : Series α) : Option (α × α) :=
  if s.length < 2 then none else
    (entry s (s.length - 2)).bind fun previous => (last s).map fun current => (previous, current)

theorem Blank.last (h : Blank k s) (hlen : s.length ≤ k) : s.last = none := by
  rcases Nat.eq_zero_or_pos s.length with hnil | hpos
  · exact entry_of_length_le (by omega)
  · exact h _ (by omega)

theorem Blank.lastTwo (h : Blank k s) (hlen : s.length ≤ k + 1) : s.lastTwo = none := by
  by_cases hshort : s.length < 2
  · exact if_pos hshort
  · refine (if_neg hshort).trans ?_
    rw [h _ (by omega), Option.bind_none]

end Series
