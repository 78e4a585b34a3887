import Mathlib.Algebra.Order.Field.Basic
import QuantTrading.DatasetRegistry
import QuantTrading.Lib.Firsts

/-!
# Market data

The models of `btc_backtest.data.models` and the checks of `btc_backtest.data.validation`: what a
frame of bars has to be, which bars of the requested interval it lacks and how these are put into
gaps.

Times are integers of nanoseconds. A frame is what `validate_ohlcv` looks at: the columns, whether
the index is one of times with a timezone, and the rows, with a value for each column that is a
finite number. A frame that passes is a list of `Bar`s.
-/

namespace Qt.Backtest

open List

inductive Timeframe
  | m1 | m5 | m15 | h1 | h4 | d1
deriving DecidableEq

namespace Timeframe

def text : Timeframe → String
  | m1 => "1m"
  | m5 => "5m"
  | m15 => "15m"
  | h1 => "1h"
  | h4 => "4h"
  | d1 => "1d"

/-- The microseconds of a bar. -/
def width : Timeframe → ℕ
  | m1 => 60000000
  | m5 => 300000000
  | m15 => 900000000
  | h1 => 3600000000
  | h4 => 14400000000
  | d1 => 86400000000

/-- `_TIMEFRAME_DELTA`, in nanoseconds. -/
def delta (timeframe : Timeframe) : ℤ := 1000 * timeframe.width

theorem delta_pos (timeframe : Timeframe) : 0 < timeframe.delta := by
  cases timeframe <;> decide

end Timeframe

namespace Data

open Except

/-! ## Models -/

/-- What is raised: `DataValidationError`, `DataCoverageError` with the bar it names,
`ProviderError` or the `ValueError` of a model. -/
inductive DataError
  | validation (message : String)
  | outside (bar start stop : ℤ)
  | missing (bar : ℤ) (missing expected : ℕ)
  | overlap (bar : ℤ)
  | provider (message : String)
  | valueError (message : String)
deriving DecidableEq

/-- `DataRequest`; its `end` is `stop`. -/
structure DataRequest where
  provider : String
  symbol : String
  timeframe : Timeframe
  start : ℤ
  stop : ℤ
  market : String
  requireReal : Bool
  requireComplete : Bool
  maxMissingRatio : ℚ
  start_lt : start < stop
  start_aligned : timeframe.delta ∣ start
  stop_aligned : timeframe.delta ∣ stop
  symbol_ne : symbol ≠ ""
  market_ne : market ≠ ""

@[ext]
structure DataGap where
  start : ℤ
  stop : ℤ
  missingBars : ℤ
  missing_pos : 0 < missingBars
  start_lt : start < stop

instance : DecidableEq DataGap := fun _ _ => decidable_of_iff' _ DataGap.ext_iff

/-- `DataGap(…)`. -/
def DataGap.validate (start stop missingBars : ℤ) : Except DataError DataGap :=
  if hpos : 0 < missingBars then
    if hlt : start < stop then .ok ⟨start, stop, missingBars, hpos, hlt⟩
    else .error (.valueError "gap end must be after start")
  else .error (.valueError "Input should be greater than 0")

/-- The texts of a segment and of a manifest are not empty. -/
def Named (provider market symbol : String) (source : Option String) : Prop :=
  provider ≠ "" ∧ market ≠ "" ∧ symbol ≠ "" ∧ source ≠ some ""
deriving Decidable

structure DataSegment where
  provider : String
  market : String
  symbol : String
  timeframe : Timeframe
  start : ℤ
  stop : ℤ
  realData : Bool
  normalizedSha256 : Datasets.Sha256
  source : Option String
  named : Named provider market symbol source
  start_lt : start < stop

/-- The fields of `DataManifest`, without the time of retrieval and the note on the licence. -/
structure ManifestFields where
  provider : String
  market : String
  symbol : String
  timeframe : Timeframe
  requestedStart : ℤ
  requestedStop : ℤ
  deliveredStart : ℤ
  deliveredStop : ℤ
  realData : Bool
  rawSha256 : List Datasets.Sha256
  normalizedSha256 : Datasets.Sha256
  source : Option String
  gaps : List DataGap
  segments : List DataSegment

/-- What the fields of a manifest are checked for. -/
def ManifestFields.Valid (m : ManifestFields) : Prop :=
  Named m.provider m.market m.symbol m.source ∧ m.rawSha256 ≠ []
    ∧ m.requestedStart < m.requestedStop ∧ m.deliveredStart < m.deliveredStop
    ∧ m.requestedStart ≤ m.deliveredStart ∧ m.deliveredStop ≤ m.requestedStop
deriving Decidable

/-- The text of the first check that fails. -/
def ManifestFields.complaint (m : ManifestFields) : String :=
  if ¬ Named m.provider m.market m.symbol m.source then
    "String should have at least 1 character"
  else if m.rawSha256 = [] then "Tuple should have at least 1 item after validation, not 0"
  else if m.requestedStop ≤ m.requestedStart then "requested end must be after start"
  else if m.deliveredStop ≤ m.deliveredStart then "delivered end must be after start"
  else "delivered interval must be inside requested interval"

structure DataManifest extends ManifestFields where
  valid : toManifestFields.Valid

/-- `DataManifest(…)`. -/
def DataManifest.validate (fields : ManifestFields) : Except DataError DataManifest :=
  if h : fields.Valid then .ok ⟨fields, h⟩ else .error (.valueError fields.complaint)

def DataManifest.segment (m : DataManifest) : DataSegment :=
  { provider := m.provider, market := m.market, symbol := m.symbol, timeframe := m.timeframe
    start := m.deliveredStart, stop := m.deliveredStop, realData := m.realData
    normalizedSha256 := m.normalizedSha256, source := m.source, named := m.valid.1
    start_lt := m.valid.2.2.2.1 }

/-! ## Frames -/

@[ext]
structure Bar where
  time : ℤ
  openPrice : ℚ
  high : ℚ
  low : ℚ
  close : ℚ
  volume : ℚ
deriving DecidableEq

/-- What `_normalize_structure` asks of the values of a bar. -/
def Bar.Valid (b : Bar) : Prop :=
  (0 < b.openPrice ∧ 0 < b.high ∧ 0 < b.low ∧ 0 < b.close) ∧ 0 ≤ b.volume
    ∧ max b.openPrice b.close ≤ b.high ∧ b.low ≤ min b.openPrice b.close
deriving Decidable

structure Frame where
  columns : List String
  datetimeIndex : Bool
  aware : Bool
  rows : List (ℤ × (String → Option ℚ))

structure MarketDataset where
  frame : Frame
  manifest : DataManifest

/-- `REQUIRED_OHLCV_COLUMNS`. -/
def requiredColumns : List String := ["open", "high", "low", "close", "volume"]

/-- The values of a bar, by column. -/
def Bar.cell (b : Bar) (column : String) : Option ℚ :=
  [("open", b.openPrice), ("high", b.high), ("low", b.low), ("close", b.close),
    ("volume", b.volume)].lookup column

/-- The frame of some bars. -/
def Frame.ofBars (bars : List Bar) : Frame where
  columns := requiredColumns
  datetimeIndex := true
  aware := true
  rows := bars.map fun b => (b.time, b.cell)

/-- A row whose values are numbers. -/
def toBar (row : ℤ × (String → Option ℚ)) : Except DataError Bar :=
  match row.2 "open", row.2 "high", row.2 "low", row.2 "close", row.2 "volume" with
  | some o, some h, some l, some c, some v => .ok ⟨row.1, o, h, l, c, v⟩
  | _, _, _, _, _ => .error (.validation "OHLCV values must be finite")

def normalizeStructure (frame : Frame) : Except DataError (List Bar) := do
  raiseIf (frame.rows = [] ∨ frame.columns = []) (.validation "OHLCV data is empty")
  let missingColumns := requiredColumns.filter (· ∉ frame.columns)
  raiseIf (missingColumns ≠ []) (.validation
    ("OHLCV data is missing required columns: " ++ ", ".intercalate missingColumns))
  raiseIf (frame.datetimeIndex = false) (.validation "OHLCV index must be a DatetimeIndex")
  raiseIf (frame.aware = false) (.validation "OHLCV index must be timezone-aware")
  raiseIf (¬ (frame.rows.map Prod.fst).Pairwise (· ≤ ·))
    (.validation "OHLCV timestamps must be sorted ascending")
  raiseIf (¬ (frame.rows.map Prod.fst).Nodup)
    (.validation "OHLCV data contains duplicate timestamps")
  let bars ← frame.rows.mapM toBar
  raiseIf (∃ b ∈ bars, ¬ (0 < b.openPrice ∧ 0 < b.high ∧ 0 < b.low ∧ 0 < b.close))
    (.validation "OHLCV prices must be positive")
  raiseIf (∃ b ∈ bars, b.volume < 0) (.validation "OHLCV volume must be non-negative")
  raiseIf (∃ b ∈ bars, b.high < max b.openPrice b.close)
    (.validation "OHLCV high must be at least max(open, close)")
  raiseIf (∃ b ∈ bars, min b.openPrice b.close < b.low)
    (.validation "OHLCV low must be at most min(open, close)")
  return bars

/-! ## Coverage -/

/-- `pd.date_range(start, end, freq, inclusive="left")`. -/
def dateRange (start stop delta : ℤ) : List ℤ :=
  (List.range ((stop - start + delta - 1) / delta).toNat).map fun k : ℕ => start + delta * (k : ℤ)

/-- The loop of `_find_gaps`: a gap has come from `gapStart` to `previous`. -/
def findGapsFrom (delta gapStart previous count : ℤ) : List ℤ → Except DataError (List DataGap)
  | [] => do
    let gap ← DataGap.validate gapStart (previous + delta) count
    return [gap]
  | current :: rest =>
    if current - previous = delta then findGapsFrom delta gapStart current (count + 1) rest
    else do
      let gap ← DataGap.validate gapStart (previous + delta) count
      let gaps ← findGapsFrom delta current current 1 rest
      return gap :: gaps

def findGaps (missing : List ℤ) (delta : ℤ) : Except DataError (List DataGap) :=
  match missing with
  | [] => .ok []
  | first :: rest => findGapsFrom delta first first 1 rest

variable (request : DataRequest) (times : List ℤ)

/-- The bars of the request that are not there. -/
def absent : List ℤ :=
  (dateRange request.start request.stop request.timeframe.delta).filter (· ∉ times)

/-- The share of the bars of the request that are not there. -/
def missingRatio : ℚ :=
  let expected := dateRange request.start request.stop request.timeframe.delta
  if expected.length = 0 then 0 else (absent request times).length / expected.length

/-- What is raised for gaps that the request does not tolerate. -/
def refuseGaps (gaps : List DataGap) : Except DataError Unit :=
  match gaps with
  | [] => .ok ()
  | first :: _ =>
    raiseIf (request.requireComplete = true ∨ request.maxMissingRatio < missingRatio request times)
      (.missing first.start (absent request times).length
        (dateRange request.start request.stop request.timeframe.delta).length)

/-- What is raised for the first bar outside the requested interval. -/
def refuseOutside (bars : List Bar) : Except DataError Unit :=
  match bars.find? fun b => decide (b.time < request.start ∨ request.stop ≤ b.time) with
  | none => .ok ()
  | some b => .error (.outside b.time request.start request.stop)

def validateOhlcv (frame : Frame) (request : DataRequest) :
    Except DataError (List Bar × List DataGap) := do
  let normalized ← normalizeStructure frame
  refuseOutside request normalized
  raiseIf (∃ b ∈ normalized, ¬ request.timeframe.delta ∣ b.time)
    (.validation ("OHLCV timestamps must be aligned to " ++ request.timeframe.text))
  let gaps ← findGaps (absent request (normalized.map (·.time))) request.timeframe.delta
  refuseGaps request (normalized.map (·.time)) gaps
  return (normalized, gaps)

/-! ## Gaps -/

open Grid

variable {delta t : ℤ} {start stop : ℤ}

theorem mem_dateRange (hd : 0 < delta) :
    t ∈ dateRange start stop delta ↔ start ≤ t ∧ t < stop ∧ delta ∣ t - start := by
  have hlast : ∀ k : ℕ, (k : ℤ) < (stop - start + delta - 1) / delta ↔ start + delta * k < stop :=
    fun k => by
      rw [← Int.add_one_le_iff, Int.le_ediv_iff_mul_le hd]
      have hmul : ((k : ℤ) + 1) * delta = delta * k + delta := by ring
      rw [hmul]
      omega
  unfold dateRange
  rw [mem_map]
  constructor
  · intro h
    obtain ⟨k, hk, rfl⟩ := h
    have hk := (hlast k).mp (by
      have hrange := mem_range.mp hk
      omega)
    have hnonneg : 0 ≤ delta * (k : ℤ) := mul_nonneg hd.le (Int.natCast_nonneg k)
    exact ⟨by omega, hk, k, by ring⟩
  · intro h
    obtain ⟨k, hk⟩ := h.2.2
    have hnonneg : 0 ≤ k := by
      by_contra hneg
      have hmul := mul_neg_of_pos_of_neg hd (not_le.mp hneg)
      omega
    have heq : start + delta * ((k.toNat : ℕ) : ℤ) = t := by
      rw [Int.toNat_of_nonneg hnonneg]
      omega
    have hlt := (hlast k.toNat).mpr (by omega)
    exact ⟨k.toNat, mem_range.mpr (by omega), heq⟩

theorem pairwise_dateRange (hd : 0 < delta) : (dateRange start stop delta).Pairwise (· < ·) := by
  unfold dateRange
  rw [pairwise_map]
  refine pairwise_lt_range.imp fun {a b} h => ?_
  have hlt : delta * (a : ℤ) < delta * b := mul_lt_mul_of_pos_left (by exact_mod_cast h) hd
  omega

/-- The first and the last missing bar of a gap. -/
def DataGap.ends (delta : ℤ) (g : DataGap) : ℤ × ℤ := (g.start, g.stop - delta)

/-- The gaps are the runs of what is missing, and count it. -/
structure GapsOf (delta : ℤ) (ends : List (ℤ × ℤ)) (gaps : List DataGap) : Prop where
  ends_eq : gaps.map (DataGap.ends delta) = ends
  count : ∀ g ∈ gaps, g.missingBars = points delta (g.ends delta)

variable {first last : ℤ}

theorem validate_gap (hd : 0 < delta) (hle : first ≤ last) :
    ∃ gap, DataGap.validate first (last + delta) (points delta (first, last)) = .ok gap
      ∧ gap.ends delta = (first, last) ∧ gap.missingBars = points delta (first, last) := by
  have hpos : 0 < points delta (first, last) := by
    have hdiv := Int.ediv_nonneg (sub_nonneg.mpr hle) hd.le
    show 0 < (last - first) / delta + 1
    omega
  have hlt : first < last + delta := by omega
  refine ⟨⟨first, last + delta, points delta (first, last), hpos, hlt⟩, ?_, ?_, rfl⟩
  · unfold DataGap.validate
    rw [dif_pos hpos, dif_pos hlt]
  · show (first, last + delta - delta) = (first, last)
    rw [add_sub_cancel_right]

/-- **The loop finds the runs**, whatever is counted so far. -/
theorem findGapsFrom_eq {l : List ℤ} (hd : 0 < delta) (hle : first ≤ last)
    (hdvd : delta ∣ last - first) (hsteps : Steps delta (last :: l)) :
    ∃ gaps, findGapsFrom delta first last (points delta (first, last)) l = .ok gaps
      ∧ GapsOf delta (runs delta first last l) gaps := by
  induction l generalizing first last with
  | nil =>
    obtain ⟨gap, hgap, hends, hcount⟩ := validate_gap hd hle
    refine ⟨[gap], ?_, ?_, fun g hg => ?_⟩
    · unfold findGapsFrom
      rw [hgap]
      rfl
    · rw [map_singleton, hends]
      rfl
    · obtain rfl := mem_singleton.mp hg
      rw [hcount, hends]
  | cons current l ih =>
    have hsplit := steps_cons_cons.mp hsteps
    have hlt : last < current := hsplit.1.1
    unfold findGapsFrom runs
    split_ifs with hmesh
    · obtain rfl : current = last + delta := by omega
      have hshift : last + delta - first = last - first + delta := by ring
      have hpoints : points delta (first, last) + 1 = points delta (first, last + delta) := by
        show (last - first) / delta + 1 + 1 = (last + delta - first) / delta + 1
        rw [hshift, Int.add_ediv_of_dvd_left hdvd, Int.ediv_self hd.ne']
      rw [hpoints]
      exact ih (by omega) (hshift ▸ Int.dvd_add hdvd (Int.dvd_refl delta)) hsplit.2
    · obtain ⟨gap, hgap, hends, hcount⟩ := validate_gap hd hle
      have hone : points delta (current, current) = 1 := by
        show (current - current) / delta + 1 = 1
        simp
      obtain ⟨gaps, hgaps, hof⟩ := ih le_rfl (by simp) hsplit.2
      rw [hone] at hgaps
      refine ⟨gap :: gaps, ?_, ?_, fun g hg => ?_⟩
      · rw [hgap, ok_bind, hgaps]
        rfl
      · rw [map_cons, hends, hof.ends_eq]
      · rcases mem_cons.mp hg with rfl | hg
        · rw [hcount, hends]
        · exact hof.count g hg

/-- What the gaps of a request are: in order and apart, each as long as it says, and made of the
bars that are missing. -/
structure Gaps (delta : ℤ) (missing : List ℤ) (gaps : List DataGap) : Prop where
  apart : gaps.Pairwise fun g h => g.stop < h.start
  count : ∀ g ∈ gaps, delta * g.missingBars = g.stop - g.start
  mem_iff : ∀ t, (∃ g ∈ gaps, g.start ≤ t ∧ t < g.stop ∧ delta ∣ t - g.start) ↔ t ∈ missing

/-- A bar before the end of a gap is not after its last missing bar. -/
theorem in_ends_iff {g : DataGap} (hd : 0 < delta) (hdvd : delta ∣ g.stop - delta - g.start) :
    (g.start ≤ t ∧ t < g.stop ∧ delta ∣ t - g.start) ↔ In delta t (g.ends delta) := by
  show _ ↔ g.start ≤ t ∧ t ≤ g.stop - delta ∧ delta ∣ t - g.start
  refine and_congr_right fun _ => and_congr_left fun ht => ⟨fun hlt => ?_, fun hle => by omega⟩
  have heq : g.stop - t = (g.stop - delta - g.start) - (t - g.start) + delta := by ring
  have hdvd' : delta ∣ g.stop - t := heq ▸ (hdvd.sub ht).add (Int.dvd_refl delta)
  have hle := Int.le_of_dvd (by omega) hdvd'
  omega

/-- **What `_find_gaps` finds.** -/
theorem findGaps_eq {missing : List ℤ} (hd : 0 < delta) (hsteps : Steps delta missing) :
    ∃ gaps, findGaps missing delta = .ok gaps ∧ Gaps delta missing gaps := by
  cases missing with
  | nil => exact ⟨[], rfl, .nil, by simp, by simp⟩
  | cons first rest =>
    have hself : delta ∣ first - first := by simp
    have hone : points delta (first, first) = 1 := by
      show (first - first) / delta + 1 = 1
      simp
    obtain ⟨gaps, hgaps, hof⟩ := findGapsFrom_eq hd le_rfl hself hsteps
    rw [hone] at hgaps
    have hends : ∀ g ∈ gaps, g.ends delta ∈ runs delta first first rest := fun g hg =>
      hof.ends_eq ▸ mem_map_of_mem hg
    refine ⟨gaps, hgaps, ?_, fun g hg => ?_, fun t => ?_⟩
    · have hpairs := pairwise_runs le_rfl hself hsteps
      rw [← hof.ends_eq, pairwise_map] at hpairs
      refine hpairs.imp fun {g h} hlt => ?_
      have hlt : g.stop - delta + delta < h.start := hlt
      omega
    · have hbounds := bounds_of_mem_runs le_rfl hself hsteps (hends g hg)
      have hdvd : delta ∣ g.stop - delta - g.start := hbounds.2.2.1
      rw [hof.count g hg]
      show delta * ((g.stop - delta - g.start) / delta + 1) = _
      rw [mul_add, Int.mul_ediv_cancel' hdvd]
      ring
    · rw [mem_cons, ← in_self, ← exists_mem_runs_iff le_rfl hself hd, ← hof.ends_eq]
      have hin : ∀ g ∈ gaps, (g.start ≤ t ∧ t < g.stop ∧ delta ∣ t - g.start)
          ↔ In delta t (g.ends delta) := fun g hg =>
        in_ends_iff hd (bounds_of_mem_runs le_rfl hself hsteps (hends g hg)).2.2.1
      constructor
      · intro h
        obtain ⟨g, hg, hmem⟩ := h
        exact ⟨_, mem_map_of_mem hg, (hin g hg).mp hmem⟩
      · intro h
        obtain ⟨_, hrun, hmem⟩ := h
        obtain ⟨g, hg, rfl⟩ := mem_map.mp hrun
        exact ⟨g, hg, (hin g hg).mpr hmem⟩

/-! ## Frames that pass -/

/-- What `_normalize_structure` makes of a frame. -/
structure Normalized (bars : List Bar) : Prop where
  ne_nil : bars ≠ []
  sorted : bars.Pairwise fun a b => a.time < b.time
  valid : ∀ b ∈ bars, b.Valid

theorem time_toBar {row : ℤ × (String → Option ℚ)} {b : Bar} (h : toBar row = .ok b) :
    b.time = row.1 := by
  unfold toBar at h
  split at h
  · obtain rfl := ok.inj h
    rfl
  · exact absurd h (by simp)

theorem toBar_cell (b : Bar) : toBar (b.time, b.cell) = .ok b := rfl

variable {bars : List Bar} {frame : Frame}

theorem normalized_of_ok (h : normalizeStructure frame = .ok bars) : Normalized bars := by
  obtain ⟨hne, h⟩ := of_raiseIf h
  obtain ⟨-, h⟩ := of_raiseIf h
  obtain ⟨-, h⟩ := of_raiseIf h
  obtain ⟨-, h⟩ := of_raiseIf h
  obtain ⟨hsorted, h⟩ := of_raiseIf h
  obtain ⟨hnodup, h⟩ := of_raiseIf h
  obtain ⟨bars', hbars, h⟩ := of_bind h
  obtain ⟨hprices, h⟩ := of_raiseIf h
  obtain ⟨hvolume, h⟩ := of_raiseIf h
  obtain ⟨hhigh, h⟩ := of_raiseIf h
  obtain ⟨hlow, h⟩ := of_raiseIf h
  obtain rfl := ok.inj h
  have htimes := map_of_mapM_eq_ok Prod.fst Bar.time (fun _ _ => time_toBar) hbars
  refine ⟨?_, ?_, fun b hb => ⟨?_, ?_, ?_, ?_⟩⟩
  · rintro rfl
    exact hne (.inl (map_eq_nil_iff.mp htimes.symm))
  · have hlt : (bars'.map Bar.time).Pairwise (· < ·) := by
      rw [htimes]
      exact ((not_not.mp hsorted).and (not_not.mp hnodup)).imp fun h => h.1.lt_of_ne h.2
    exact pairwise_map.mp hlt
  · exact not_not.mp fun h => hprices ⟨b, hb, h⟩
  · exact not_lt.mp fun h => hvolume ⟨b, hb, h⟩
  · exact not_lt.mp fun h => hhigh ⟨b, hb, h⟩
  · exact not_lt.mp fun h => hlow ⟨b, hb, h⟩

theorem normalizeStructure_ofBars (h : Normalized bars) :
    normalizeStructure (.ofBars bars) = .ok bars := by
  have htimes : (bars.map fun b => (b.time, b.cell)).map Prod.fst = bars.map Bar.time := by
    rw [map_map]
    rfl
  have hsorted : (bars.map Bar.time).Pairwise (· < ·) := pairwise_map.mpr h.sorted
  refine raiseIf_bind_eq_ok.mpr ⟨?_, raiseIf_bind_eq_ok.mpr ⟨?_, raiseIf_bind_eq_ok.mpr ⟨?_,
    raiseIf_bind_eq_ok.mpr ⟨?_, raiseIf_bind_eq_ok.mpr ⟨?_, raiseIf_bind_eq_ok.mpr ⟨?_,
    bind_eq_ok.mpr ⟨bars, mapM_map_of_ok fun b _ => toBar_cell b, ?_⟩⟩⟩⟩⟩⟩⟩
  · rw [not_or]
    exact ⟨fun hnil => h.ne_nil (map_eq_nil_iff.mp hnil),
      by simp [Frame.ofBars, requiredColumns]⟩
  · show ¬ requiredColumns.filter (· ∉ requiredColumns) ≠ []
    decide
  · simp [Frame.ofBars]
  · simp [Frame.ofBars]
  · show ¬ ¬ ((bars.map fun b => (b.time, b.cell)).map Prod.fst).Pairwise (· ≤ ·)
    rw [htimes, not_not]
    exact hsorted.imp le_of_lt
  · show ¬ ¬ ((bars.map fun b => (b.time, b.cell)).map Prod.fst).Nodup
    rw [htimes, not_not]
    exact hsorted.nodup
  refine raiseIf_bind_eq_ok.mpr ⟨?_, raiseIf_bind_eq_ok.mpr ⟨?_, raiseIf_bind_eq_ok.mpr ⟨?_,
    raiseIf_bind_eq_ok.mpr ⟨?_, rfl⟩⟩⟩⟩
  · rintro ⟨b, hb, hnot⟩
    exact hnot (h.valid b hb).1
  · rintro ⟨b, hb, hlt⟩
    exact absurd (h.valid b hb).2.1 (not_le.mpr hlt)
  · rintro ⟨b, hb, hlt⟩
    exact absurd (h.valid b hb).2.2.1 (not_le.mpr hlt)
  · rintro ⟨b, hb, hlt⟩
    exact absurd (h.valid b hb).2.2.2 (not_le.mpr hlt)

/-- The bars lie in the requested interval, on the grid of the timeframe. -/
structure Placed (request : DataRequest) (bars : List Bar) : Prop where
  inside : ∀ b ∈ bars, request.start ≤ b.time ∧ b.time < request.stop
  aligned : ∀ b ∈ bars, request.timeframe.delta ∣ b.time

variable {request}

theorem refuseOutside_eq_ok {u : Unit} : refuseOutside request bars = .ok u
      ↔ ∀ b ∈ bars, request.start ≤ b.time ∧ b.time < request.stop := by
  have hnone : (bars.find? fun b => decide (b.time < request.start ∨ request.stop ≤ b.time)) = none
      ↔ ∀ b ∈ bars, request.start ≤ b.time ∧ b.time < request.stop := by
    rw [List.find?_eq_none]
    refine forall₂_congr fun b _ => ?_
    rw [decide_eq_true_iff, not_or, not_lt, not_le]
  unfold refuseOutside
  rw [← hnone]
  split
  · rename_i h
    exact iff_of_true rfl h
  · rename_i h
    exact iff_of_false (by simp) (by rw [h]; simp)

/-- **What passes is normalised and placed.** -/
theorem of_validateOhlcv {gaps : List DataGap} (h : validateOhlcv frame request = .ok (bars, gaps)) :
    Normalized bars ∧ Placed request bars := by
  obtain ⟨normalized, hnormalized, h⟩ := of_bind h
  obtain ⟨_, hinside, h⟩ := of_bind h
  obtain ⟨haligned, h⟩ := of_raiseIf h
  obtain ⟨_, -, h⟩ := of_bind h
  obtain ⟨_, -, h⟩ := of_bind h
  obtain ⟨rfl, -⟩ := Prod.mk.inj (ok.inj h)
  exact ⟨normalized_of_ok hnormalized, refuseOutside_eq_ok.mp hinside,
    fun b hb => not_not.mp fun hnot => haligned ⟨b, hb, hnot⟩⟩

/-- The request tolerates that only the bars at some times are there. -/
def Tolerates (request : DataRequest) (times : List ℤ) : Prop :=
  request.requireComplete = false ∧ missingRatio request times ≤ request.maxMissingRatio

/-- A request whose share may be one tolerates everything. -/
theorem tolerates_all (hcomplete : request.requireComplete = false)
    (hmax : request.maxMissingRatio = 1) (times : List ℤ) : Tolerates request times := by
  refine ⟨hcomplete, ?_⟩
  rw [hmax]
  unfold missingRatio
  dsimp only
  split_ifs
  · exact zero_le_one
  · exact div_le_one_of_le₀ (by exact_mod_cast length_filter_le _ _) (Nat.cast_nonneg _)

variable {times}

theorem refuseGaps_eq_ok (h : Tolerates request times) (gaps : List DataGap) :
    refuseGaps request times gaps = .ok () := by
  unfold refuseGaps
  split
  · rfl
  · rw [raiseIf_eq_ok, not_or, not_lt]
    exact ⟨by simp [h.1], h.2⟩

theorem mem_absent :
    t ∈ absent request times ↔ (request.start ≤ t ∧ t < request.stop ∧ request.timeframe.delta ∣ t)
      ∧ t ∉ times := by
  have hdvd : request.timeframe.delta ∣ t - request.start ↔ request.timeframe.delta ∣ t :=
    (dvd_sub_left request.start_aligned)
  unfold absent
  rw [mem_filter, mem_dateRange request.timeframe.delta_pos, hdvd, decide_eq_true_iff]

theorem steps_absent (request : DataRequest) (times : List ℤ) :
    Steps request.timeframe.delta (absent request times) := by
  refine steps_of_pairwise (c := 0) ?_ fun t ht => ?_
  · exact (pairwise_dateRange request.timeframe.delta_pos).filter _
  · rw [sub_zero]
    exact (mem_absent.mp ht).1.2.2

/-- **Bars that are normalised and placed pass** a request that tolerates what is missing. -/
theorem validateOhlcv_ofBars (hn : Normalized bars) (hp : Placed request bars)
    (ht : Tolerates request (bars.map (·.time))) :
    ∃ gaps, validateOhlcv (.ofBars bars) request = .ok (bars, gaps)
      ∧ Gaps request.timeframe.delta (absent request (bars.map (·.time))) gaps := by
  obtain ⟨gaps, hgaps, hof⟩ := findGaps_eq request.timeframe.delta_pos
    (steps_absent request (bars.map (·.time)))
  refine ⟨gaps, ?_, hof⟩
  unfold validateOhlcv
  rw [normalizeStructure_ofBars hn, ok_bind, (refuseOutside_eq_ok (u := ())).mpr hp.inside, ok_bind,
    raiseIf_bind_of_not fun h => h.elim fun b h => h.2 (hp.aligned b h.1), hgaps, ok_bind,
    refuseGaps_eq_ok ht, ok_bind]
  rfl

end Data

end Qt.Backtest
