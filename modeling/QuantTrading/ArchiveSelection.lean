import QuantTrading.Lib.Calendar
import QuantTrading.Lib.Walk
import QuantTrading.MarketData

/-!
# Archive selection

Which archives `BinanceArchiveProvider` of `btc_backtest.data.providers.binance_archive` fetches for
a request: whole months that are over, and the days of the month that is not. Times are in UTC and
in microseconds.

The months are walked from `start.replace(day=1)`, which keeps the time of the day of the start, up
to the first of the last month at the time of the day of the last microsecond. Where the first is
later in the day than the second, the walk ends a month early; where it is not midnight, the current
month is none that the walk compares equal to. `selectArchives_iff` says for which requests the
selection covers the bars.
-/

namespace Qt.Backtest.Archives

open Calendar Except Walk List

/-! ## Requests -/

variable (value : Moment)

def microsecond : ℕ := value.unit % 1000000

def second : ℕ := value.unit / 1000000 % 60

def minute : ℕ := value.unit / 60000000 % 60

def hour : ℕ := value.unit / 3600000000

variable (timeframe : Timeframe)

def isAligned : Bool :=
  if second value ≠ 0 ∨ microsecond value ≠ 0 then false
  else match timeframe with
  | .m1 => true
  | .m5 => minute value % 5 == 0
  | .m15 => minute value % 15 == 0
  | .h1 => minute value == 0
  | .h4 => minute value == 0 && hour value % 4 == 0
  | .d1 => minute value == 0 && hour value == 0

theorem isAligned_iff {value : Moment} {timeframe : Timeframe} :
    isAligned value timeframe = true ↔ value.unit % timeframe.width = 0 := by
  have hlt := value.unit_lt
  unfold unitsPerDay at hlt
  unfold isAligned second microsecond minute hour
  cases timeframe <;> simp [Timeframe.width] <;> omega

/-- `DataRequest`, as far as the selection reads it; its `end` is `stop`. -/
structure DataRequest where
  timeframe : Timeframe
  start : Moment
  stop : Moment
  start_lt : start < stop
  start_aligned : isAligned start timeframe = true
  stop_aligned : isAligned stop timeframe = true

/-- A bar of the request begins at the time. -/
def DataRequest.IsBar (request : DataRequest) (t : Moment) : Prop :=
  request.start ≤ t ∧ t < request.stop ∧ isAligned t request.timeframe = true

/-! ## Selection -/

/-- What is raised. -/
inductive ArchiveError
  | valueError (message : String)
  | overflowError (message : String)
  | providerError (message : String)
deriving DecidableEq

structure ArchiveSpec where
  frequency : String
  timeframe : String
  period : String
  url : String
  filename : String
deriving DecidableEq

def binanceSpotRoot : String := "https://data.binance.vision/data/" ++ "spot"

def archiveSpec (frequency : String) (timeframe : Timeframe) (period : String) : ArchiveSpec :=
  let filename := "BTCUSDT-" ++ timeframe.text ++ "-" ++ period ++ ".zip"
  let url := binanceSpotRoot ++ "/" ++ frequency ++ "/klines/BTCUSDT/" ++ timeframe.text ++ "/"
    ++ filename
  { frequency, timeframe := timeframe.text, period, url, filename }

/-- `value.replace(year=…, month=…)`. -/
def replaceMonth (month : Option Month) : Except ArchiveError Moment :=
  match month with
  | none => .error (.valueError "year 10000 is out of range")
  | some m =>
    if h : value.day ≤ m.days then
      .ok ⟨⟨m, value.day, value.day_mem.1, h⟩, value.unit, value.unit_lt⟩
    else .error (.valueError "day is out of range for month")

def nextMonth : Except ArchiveError Moment :=
  if value.month = 12 then replaceMonth value (Month.of (value.year + 1) 1)
  else replaceMonth value (Month.of value.year (value.month + 1))

/-- What a day or a moment beside another is, where the calendar has one. -/
def inRange {α : Type} : Option α → Except ArchiveError α
  | some a => .ok a
  | none => .error (.overflowError "date value out of range")

def dailySpecs (firstDay finalDay : Date) : Except ArchiveError (List ArchiveSpec) :=
  walk (fun day => inRange day.next) (fun day => decide (day ≤ finalDay))
    (fun day => .ok [archiveSpec "daily" timeframe day.isoformat])
    (finalDay.number + 1 - firstDay.number) firstDay []

/-- What the loop of `_select_archives` appends for a month. -/
def monthSpecs (request : DataRequest) (now lastInclusive month : Moment) :
    Except ArchiveError (List ArchiveSpec) :=
  let currentMonth := Moment.midnight (.first now.toMonth)
  if month < currentMonth then
    .ok [archiveSpec "monthly" request.timeframe month.toMonth.text]
  else if month = currentMonth then
    dailySpecs request.timeframe (max request.start.toDate month.toDate)
      (min lastInclusive.toDate now.toDate)
  else .error (.providerError "Binance archive request extends into the future")

/-- **`_select_archives`.** A `now` without a timezone is none. -/
def selectArchives (now : Option Moment) (request : DataRequest) :
    Except ArchiveError (List ArchiveSpec) :=
  match now with
  | none => .error (.valueError "now() must return a timezone-aware datetime")
  | some now => do
    let month := Moment.atTime (.first request.start.toMonth) request.start
    let lastInclusive ← inRange request.stop.prev
    walk nextMonth
      (fun month => decide (month ≤ Moment.atTime (.first lastInclusive.toMonth) lastInclusive))
      (monthSpecs request now lastInclusive)
      (lastInclusive.toMonth.index + 1 - month.toMonth.index) month []

/-- The archive has the bars at the time. -/
def ArchiveSpec.Covers (spec : ArchiveSpec) (t : Moment) : Prop :=
  (spec.frequency = "monthly" ∧ spec.period = t.toMonth.text)
    ∨ (spec.frequency = "daily" ∧ spec.period = t.toDate.isoformat)
deriving Decidable

/-- **The selection covers the request**: no period is selected twice, and every bar is in one. -/
structure Selection (request : DataRequest) (specs : List ArchiveSpec) : Prop where
  distinct : (specs.map ArchiveSpec.period).Nodup
  covers : ∀ t, request.IsBar t → ∃ spec ∈ specs, spec.Covers t

/-! ## Days -/

theorem inRange_eq_ok {α : Type} {a : Option α} {b : α} : inRange a = .ok b ↔ a = some b := by
  cases a <;> simp [inRange]

theorem days_ordered (finalDay : Date) :
    Ordered (fun day => inRange (Date.next day)) (fun day => decide (day ≤ finalDay)) Date.number
      (finalDay.number + 1) where
  lt_iff h := (Date.lt_iff_of_next (inRange_eq_ok.mp h)).2
  rank_lt h := h
  go_of_le h hle := decide_eq_true (h.trans (of_decide_eq_true hle))
  rank_lt_bound h := Nat.lt_succ_of_le (of_decide_eq_true h)

/-- **The days** from the first to the final one are selected, each once, unless the calendar ends
with them. -/
theorem dailySpecs_eq (firstDay : Date) {finalDay : Date} (hlast : finalDay.toMonth ≠ .last) :
    ∃ days : List Date, days.Pairwise (· < ·)
      ∧ (∀ d, d ∈ days ↔ firstDay ≤ d ∧ d ≤ finalDay)
      ∧ dailySpecs timeframe firstDay finalDay
        = .ok (days.map fun d => archiveSpec "daily" timeframe d.isoformat) := by
  have hfuel : finalDay.number + 1 ≤ finalDay.number + 1 - firstDay.number + firstDay.number := by
    omega
  have hnext : ∀ z, firstDay ≤ z → decide (z ≤ finalDay) = true →
      ∃ y, inRange (Date.next z) = .ok y := fun z _ hz => by
    have hne : z.toMonth ≠ .last := fun h =>
      hlast (le_antisymm (Month.le_last _) (h ▸ Date.toMonth_mono (of_decide_eq_true hz)))
    obtain ⟨y, hy⟩ := Option.isSome_iff_exists.mp (Date.next_isSome hne)
    exact ⟨y, inRange_eq_ok.mpr hy⟩
  obtain ⟨days, hsorted, hmem, hwalk⟩ := (days_ordered finalDay).walk_of_ok
    (fun d => [archiveSpec "daily" timeframe d.isoformat]) hfuel (fun _ _ _ => rfl) hnext []
  refine ⟨days, hsorted, fun d => ?_, ?_⟩
  · rw [hmem, decide_eq_true_iff]
  · unfold dailySpecs
    rw [hwalk, nil_append, ← map_eq_flatMap]

/-! ## Months -/

/-- The month after. -/
def stepMonth (m : Month) : Except ArchiveError Month :=
  match m.next with
  | some n => .ok n
  | none => .error (.valueError "year 10000 is out of range")

theorem stepMonth_eq_ok {m n : Month} : stepMonth m = .ok n ↔ m.next = some n := by
  unfold stepMonth
  cases m.next <;> simp

/-- **`_next_month` of the first of a month** is the first of the next at the same time. -/
theorem nextMonth_atTime (start : Moment) (m : Month) : nextMonth (.atTime (.first m) start)
      = (stepMonth m).map fun n => .atTime (.first n) start := by
  have hnext : nextMonth (.atTime (.first m) start)
      = replaceMonth (.atTime (.first m) start) m.next :=
    (apply_ite (replaceMonth (.atTime (.first m) start)) (m.month = 12) _ _).symm
  rw [hnext]
  unfold stepMonth
  cases m.next with
  | none => rfl
  | some n => exact dif_pos n.days_pos

section Selecting

variable {request : DataRequest} {now li : Moment}

/-- The walk is at a month. -/
def goMonth (request : DataRequest) (li : Moment) (m : Month) : Bool :=
  decide (Moment.atTime (.first m) request.start ≤ Moment.atTime (.first li.toMonth) li)

variable {m : Month}

theorem goMonth_iff : goMonth request li m = true
    ↔ m < li.toMonth ∨ m = li.toMonth ∧ request.start.unit ≤ li.unit := by
  rw [goMonth, decide_eq_true_iff, Moment.atTime_first_le_iff]

theorem months_ordered (request : DataRequest) (li : Moment) :
    Ordered stepMonth (goMonth request li) Month.index (li.toMonth.index + 1) where
  lt_iff h := Month.lt_iff_of_next (stepMonth_eq_ok.mp h)
  rank_lt h := h
  go_of_le h hgo := by
    rw [goMonth_iff] at hgo ⊢
    rcases hgo with hlt | heq
    · exact .inl (h.trans_lt hlt)
    · exact (h.lt_or_eq).imp (fun hlt => heq.1 ▸ hlt) fun hxy => ⟨hxy.trans heq.1, heq.2⟩
  rank_lt_bound h := by
    rcases goMonth_iff.mp h with hlt | heq
    · exact Nat.lt_succ_of_lt hlt
    · exact Nat.lt_succ_of_le (heq.1 ▸ le_rfl)

/-- What is appended for a month of the walk. -/
def found (request : DataRequest) (now li : Moment) (m : Month) :
    Except ArchiveError (List ArchiveSpec) :=
  monthSpecs request now li (.atTime (.first m) request.start)

/-- More fuel than `selectArchives` has changes nothing. -/
theorem selectArchives_fuel (hli : request.stop.prev = some li) {fuel : ℕ}
    (hfuel : li.toMonth.index + 1 - request.start.toMonth.index ≤ fuel) :
    selectArchives (some now) request
      = walk stepMonth (goMonth request li) (found request now li) fuel request.start.toMonth
        [] := by
  have hsame : walk stepMonth (goMonth request li) (found request now li)
      (li.toMonth.index + 1 - request.start.toMonth.index) request.start.toMonth []
      = walk stepMonth (goMonth request li) (found request now li) fuel request.start.toMonth [] :=
    (months_ordered request li).walk_fuel (by omega) (by omega) []
  rw [← hsame]
  unfold selectArchives
  rw [hli]
  exact walk_map (nextMonth_atTime request.start) _ _ _

/-! ### One month -/

variable {t : Moment} {n : Month}

theorem atTime_lt_midnight : Moment.atTime (.first m) t < Moment.midnight (.first n) ↔ m < n := by
  have h := @Moment.atTime_first_le_iff (Moment.midnight (.first n)) t n m
  have hzero : (Moment.midnight (.first n)).unit ≤ t.unit := Nat.zero_le _
  rw [← not_le]
  show ¬ Moment.atTime (.first n) (Moment.midnight (.first n)) ≤ _ ↔ _
  rw [h]
  simp only [hzero, and_true, ← le_iff_lt_or_eq, not_le]

theorem atTime_eq_midnight :
    Moment.atTime (.first m) t = Moment.midnight (.first n) ↔ m = n ∧ t.unit = 0 := by
  refine ⟨fun h => ⟨?_, congrArg Moment.unit h⟩, fun h => Moment.eq_of_toDate ?_ h.2⟩
  · exact congrArg (fun t : Moment => t.toMonth) h
  · exact congrArg Date.first h.1

theorem found_monthly (h : m < now.toMonth) :
    found request now li m = .ok [archiveSpec "monthly" request.timeframe m.text] :=
  if_pos (atTime_lt_midnight.mpr h)

theorem found_current (hunit : request.start.unit = 0) :
    found request now li now.toMonth = dailySpecs request.timeframe
      (max request.start.toDate (.first now.toMonth)) (min li.toDate now.toDate) :=
  (if_neg fun h => lt_irrefl _ (atTime_lt_midnight.mp h)).trans
    (if_pos (atTime_eq_midnight.mpr ⟨rfl, hunit⟩))

/-- A month that is neither over nor found to be the current one is taken for a later one. -/
theorem found_future (hlt : ¬ m < now.toMonth)
    (hcurrent : ¬ (m = now.toMonth ∧ request.start.unit = 0)) : found request now li m
      = .error (.providerError "Binance archive request extends into the future") :=
  (if_neg fun h => hlt (atTime_lt_midnight.mp h)).trans
    (if_neg fun h => hcurrent (atTime_eq_midnight.mp h))

def OfMonth (m : Month) (spec : ArchiveSpec) : Prop := leadingDigits spec.period = m.digits

variable {spec : ArchiveSpec}

theorem OfMonth.toMonth_eq (h : OfMonth m spec) (hcovers : spec.Covers t) : t.toMonth = m := by
  refine Month.digits_injective (Eq.trans ?_ h)
  rcases hcovers with hmonth | hday
  · rw [hmonth.2, leadingDigits_text]
  · rw [hday.2, leadingDigits_isoformat]

theorem min_ne_last (now : Moment) (hli : li.toMonth ≠ .last) :
    (min li.toDate now.toDate).toMonth ≠ .last := fun h =>
  hli (le_antisymm (Month.le_last _) (h ▸ Date.toMonth_mono (min_le_left _ _)))

variable {specs : List ArchiveSpec}

/-- **What is appended for a month** where nothing is raised: the archive of the month, or those of
its days up to the last microsecond and the current day. -/
theorem found_cases (hli : li.toMonth ≠ .last) (h : found request now li m = .ok specs) :
    (m < now.toMonth ∧ specs = [archiveSpec "monthly" request.timeframe m.text])
      ∨ m = now.toMonth ∧ request.start.unit = 0 ∧ ∃ days : List Date, days.Pairwise (· < ·)
        ∧ (∀ d, d ∈ days ↔ max request.start.toDate (.first m) ≤ d ∧ d ≤ min li.toDate now.toDate)
        ∧ specs = days.map fun d => archiveSpec "daily" request.timeframe d.isoformat := by
  by_cases hlt : m < now.toMonth
  · rw [found_monthly hlt] at h
    exact .inl ⟨hlt, (ok.inj h).symm⟩
  · by_cases hcurrent : m = now.toMonth ∧ request.start.unit = 0
    · obtain ⟨rfl, hunit⟩ := hcurrent
      obtain ⟨days, hsorted, hmem, heq⟩ := dailySpecs_eq request.timeframe
        (max request.start.toDate (.first now.toMonth)) (min_ne_last now hli)
      rw [found_current hunit, heq] at h
      exact .inr ⟨rfl, hunit, days, hsorted, hmem, (ok.inj h).symm⟩
    · rw [found_future hlt hcurrent] at h
      exact absurd h (by simp)

theorem ofMonth_of_found (hli : li.toMonth ≠ .last) (h : found request now li m = .ok specs)
    (hmem : spec ∈ specs) : OfMonth m spec := by
  rcases found_cases hli h with hmonth | hdays
  · obtain ⟨-, rfl⟩ := hmonth
    obtain rfl := mem_singleton.mp hmem
    exact leadingDigits_text m
  · obtain ⟨rfl, -, days, -, hdays, rfl⟩ := hdays
    obtain ⟨d, hd, rfl⟩ := mem_map.mp hmem
    have hbounds := (hdays d).mp hd
    have hmonth : d.toMonth = now.toMonth := le_antisymm
      (Date.toMonth_mono (hbounds.2.trans (min_le_right _ _)))
      (Date.first_le_iff.mp ((le_max_right _ _).trans hbounds.1))
    exact (leadingDigits_isoformat d).trans (congrArg Month.digits hmonth)

/-! ### All months -/

theorem start_le (hli : request.stop.prev = some li) : request.start ≤ li :=
  (Moment.lt_iff_of_prev hli).mp request.start_lt

theorem toMonth_le {a b : Moment} (h : a ≤ b) : a.toMonth ≤ b.toMonth :=
  Date.toMonth_mono (Moment.toDate_mono h)

/-- The selection is right: the walk gets to the month of the last microsecond, and this month is
over or is found to be the current one. -/
def Right (request : DataRequest) (now li : Moment) : Prop :=
  li.toMonth ≠ .last ∧ (request.start.unit = 0
    ∨ request.start.unit ≤ li.unit ∧ li.toMonth < now.toMonth)
deriving Decidable

theorem Right.found_ok (h : Right request now li) (hnow : li < now) (hm : m ≤ li.toMonth) :
    ∃ specs, found request now li m = .ok specs := by
  by_cases hlt : m < now.toMonth
  · exact ⟨_, found_monthly hlt⟩
  · have hle : li.toMonth ≤ now.toMonth := toMonth_le hnow.le
    have hcurrent : m = now.toMonth := le_antisymm (hm.trans hle) (not_lt.mp hlt)
    have hnot : ¬ li.toMonth < now.toMonth := fun h => hlt (hm.trans_lt h)
    have hunit := h.2.resolve_right fun h => hnot h.2
    obtain ⟨days, -, -, heq⟩ := dailySpecs_eq request.timeframe
      (max request.start.toDate (.first now.toMonth)) (min_ne_last now h.1)
    exact ⟨_, by rw [hcurrent, found_current hunit, heq]⟩

theorem Right.goMonth (h : Right request now li) (hm : m ≤ li.toMonth) :
    goMonth request li m = true := by
  have hunit : request.start.unit ≤ li.unit := h.2.elim (fun h => h ▸ Nat.zero_le _) fun h => h.1
  exact goMonth_iff.mpr ((lt_or_eq_of_le hm).imp_right fun heq => ⟨heq, hunit⟩)

theorem le_of_goMonth (h : Archives.goMonth request li m = true) : m ≤ li.toMonth :=
  (goMonth_iff.mp h).elim le_of_lt fun h => h.1.le

/-- **The months that are walked**, and what is selected for them. -/
theorem Right.selectArchives_eq (h : Right request now li) (hli : request.stop.prev = some li)
    (hnow : li < now) : ∃ months : List Month, months.Pairwise (· < ·)
      ∧ (∀ m, m ∈ months ↔ request.start.toMonth ≤ m ∧ m ≤ li.toMonth)
      ∧ selectArchives (some now) request
        = .ok (months.flatMap fun m => (found request now li m).toOption.getD []) := by
  have hfuel : li.toMonth.index + 1 ≤ li.toMonth.index + 1 - request.start.toMonth.index
      + request.start.toMonth.index := by omega
  have hbody : ∀ m, request.start.toMonth ≤ m → Archives.goMonth request li m = true →
      found request now li m = .ok ((found request now li m).toOption.getD []) := fun m _ hgo => by
    obtain ⟨specs, hspecs⟩ := h.found_ok hnow (le_of_goMonth hgo)
    rw [hspecs]
    rfl
  have hnext : ∀ m, request.start.toMonth ≤ m → Archives.goMonth request li m = true →
      ∃ n, stepMonth m = .ok n := fun m _ hgo => by
    have hne : m ≠ .last := fun heq =>
      h.1 (le_antisymm (Month.le_last _) (heq ▸ le_of_goMonth hgo))
    obtain ⟨n, hn⟩ := Option.isSome_iff_exists.mp (Month.next_isSome_iff.mpr hne)
    exact ⟨n, stepMonth_eq_ok.mpr hn⟩
  obtain ⟨months, hsorted, hmem, hwalk⟩ := (months_ordered request li).walk_of_ok
    (fun m => (found request now li m).toOption.getD []) hfuel hbody hnext []
  refine ⟨months, hsorted, fun m => ?_, ?_⟩
  · rw [hmem]
    exact and_congr_right fun _ => ⟨le_of_goMonth, h.goMonth⟩
  · rw [selectArchives_fuel hli le_rfl, hwalk, nil_append]

/-- **A right selection covers the request.** -/
theorem Right.selection (h : Right request now li) (hli : request.stop.prev = some li)
    (hnow : li < now) :
    ∃ specs, selectArchives (some now) request = .ok specs ∧ Selection request specs := by
  obtain ⟨months, hsorted, hmem, heq⟩ := h.selectArchives_eq hli hnow
  have hfound : ∀ m ∈ months, ∃ specs, found request now li m = .ok specs
      ∧ (found request now li m).toOption.getD [] = specs := fun m hm => by
    obtain ⟨specs, hspecs⟩ := h.found_ok hnow ((hmem m).mp hm).2
    exact ⟨specs, hspecs, by rw [hspecs]; rfl⟩
  refine ⟨_, heq, ?_, fun t ht => ?_⟩
  · rw [map_flatMap, nodup_flatMap]
    refine ⟨fun m hm => ?_, hsorted.imp_of_mem fun hm hn hlt => ?_⟩
    · obtain ⟨specs, hspecs, hget⟩ := hfound m hm
      rw [hget]
      rcases found_cases h.1 hspecs with hmonth | hdays
      · rw [hmonth.2]
        exact nodup_singleton _
      · obtain ⟨-, -, days, hdays, -, rfl⟩ := hdays
        rw [map_map]
        exact hdays.nodup.map Date.isoformat_injective
    · obtain ⟨specs, hspecs, hget⟩ := hfound _ hm
      obtain ⟨specs', hspecs', hget'⟩ := hfound _ hn
      show List.Disjoint (((found request now li _).toOption.getD []).map ArchiveSpec.period)
        (((found request now li _).toOption.getD []).map ArchiveSpec.period)
      rw [hget, hget']
      intro p hp hp'
      obtain ⟨spec, hspec, rfl⟩ := mem_map.mp hp
      obtain ⟨spec', hspec', hperiod⟩ := mem_map.mp hp'
      have hmonth := ofMonth_of_found h.1 hspecs hspec
      have hmonth' := ofMonth_of_found h.1 hspecs' hspec'
      unfold OfMonth at hmonth hmonth'
      rw [hperiod, hmonth] at hmonth'
      exact hlt.ne (Month.digits_injective hmonth')
  · have hle : t ≤ li := (Moment.lt_iff_of_prev hli).mp ht.2.1
    have hm : t.toMonth ∈ months := (hmem _).mpr ⟨toMonth_le ht.1, toMonth_le hle⟩
    obtain ⟨specs, hspecs, hget⟩ := hfound _ hm
    have hsub : ∀ spec ∈ specs, spec ∈ months.flatMap fun m =>
        (found request now li m).toOption.getD [] := fun spec hspec =>
      mem_flatMap.mpr ⟨_, hm, hget.symm ▸ hspec⟩
    rcases found_cases h.1 hspecs with hmonth | hdays
    · obtain ⟨-, rfl⟩ := hmonth
      exact ⟨_, hsub _ mem_cons_self, .inl ⟨rfl, rfl⟩⟩
    · obtain ⟨hcurrent, -, days, -, hdays, rfl⟩ := hdays
      have hday : t.toDate ∈ days := (hdays _).mpr
        ⟨max_le (Moment.toDate_mono ht.1) (Date.first_le_iff.mpr le_rfl),
          le_min (Moment.toDate_mono hle) (Moment.toDate_mono (hle.trans hnow.le))⟩
      exact ⟨_, hsub _ (mem_map.mpr ⟨_, hday, rfl⟩), .inr ⟨rfl, rfl⟩⟩

/-- The bar that has the last microsecond. -/
def lastBar (request : DataRequest) (li : Moment) : Moment :=
  ⟨li.toDate, li.unit - li.unit % request.timeframe.width, (Nat.sub_le _ _).trans_lt li.unit_lt⟩

theorem lastBar_isBar (hli : request.stop.prev = some li)
    (hday : request.start.toDate < li.toDate) : request.IsBar (lastBar request li) := by
  refine ⟨Moment.le_iff.mpr (.inl hday), ?_, ?_⟩
  · exact (Moment.lt_iff_of_prev hli).mpr (Moment.le_iff.mpr (.inr ⟨rfl, Nat.sub_le _ _⟩))
  · rw [isAligned_iff]
    exact Nat.sub_mod_eq_zero_of_mod_eq (Nat.mod_mod _ _).symm

/-- **A selection that covers the request is right**: where the walk ends a month early, the last
bar is in no archive; and where it does not, what it does at the month of the last microsecond does
not raise. -/
theorem right_of_selection (hli : request.stop.prev = some li)
    (hok : selectArchives (some now) request = .ok specs) (hspecs : Selection request specs) :
    Right request now li := by
  rw [selectArchives_fuel hli le_rfl] at hok
  have hordered := months_ordered request li
  have hfuel : li.toMonth.index + 1 ≤ li.toMonth.index + 1 - request.start.toMonth.index
      + request.start.toMonth.index := by omega
  have hle := start_le hli
  have hunit : request.start.unit ≤ li.unit := by
    by_contra hlate
    have hday : request.start.toDate < li.toDate :=
      (Moment.le_iff.mp hle).resolve_right fun h => hlate h.2
    obtain ⟨spec, hspec, hcovers⟩ := hspecs.covers _ (lastBar_isBar hli hday)
    obtain ⟨m, selected, hgo, hfound, hmem⟩ :=
      (exists_of_mem_walk hok hspec).resolve_left not_mem_nil
    -- the walk ends before the month of the last bar, and so do its archives
    have hlt : m < li.toMonth := (goMonth_iff.mp hgo).resolve_right fun h => hlate h.2
    have hmonth : OfMonth m spec := by
      by_cases hover : m < now.toMonth
      · rw [found_monthly hover] at hfound
        obtain rfl := ok.inj hfound
        obtain rfl := mem_singleton.mp hmem
        exact leadingDigits_text m
      · rw [found_future hover fun h => hlate (h.2 ▸ Nat.zero_le _)] at hfound
        exact absurd hfound (by simp)
    exact hlt.ne' (hmonth.toMonth_eq hcovers)
  have hgo : goMonth request li li.toMonth = true := goMonth_iff.mpr (.inr ⟨rfl, hunit⟩)
  obtain ⟨⟨last, hlast⟩, after, hafter⟩ := hordered.ok_of_walk hfuel hok (toMonth_le hle) hgo
  have hne : li.toMonth ≠ .last := Month.next_isSome_iff.mp (by
    rw [stepMonth_eq_ok.mp hafter]
    rfl)
  refine ⟨hne, ?_⟩
  rcases found_cases hne hlast with hmonth | hdays
  · exact .inr ⟨hunit, hmonth.1⟩
  · exact .inl hdays.2.1

end Selecting

/-- **The selection covers the request exactly when it is right.** -/
theorem selectArchives_iff (request : DataRequest) (now : Moment) (hnow : request.stop ≤ now) :
    (∃ specs, selectArchives (some now) request = .ok specs ∧ Selection request specs)
      ↔ ∃ li, request.stop.prev = some li ∧ Right request now li := by
  obtain ⟨li, hli⟩ := Option.isSome_iff_exists.mp (Moment.prev_isSome request.start_lt)
  have hlt : li < now := ((Moment.lt_iff_of_prev hli).mpr le_rfl).trans_le hnow
  constructor
  · intro h
    obtain ⟨specs, hok, hspecs⟩ := h
    exact ⟨li, hli, right_of_selection hli hok hspecs⟩
  · intro h
    obtain ⟨li', hli', hright⟩ := h
    exact hright.selection hli' (Option.some.inj (hli'.symm.trans hli) ▸ hlt)

section Sample

def in2020 (month day hour : ℕ) (hmonth : 1 ≤ month ∧ month ≤ 12) (hday : 1 ≤ day ∧ day ≤ 28)
    (hhour : hour < 24) : Moment where
  year := 2020
  month := month
  year_mem := ⟨by norm_num, by norm_num⟩
  month_mem := hmonth
  day := day
  day_mem := ⟨hday.1, hday.2.trans (Month.le_days _)⟩
  unit := hour * 3600000000
  unit_lt := by
    unfold unitsPerDay
    omega

/-- Hours from noon on the 15th of January to six in the morning on the 2nd of February. -/
def fromNoon : DataRequest where
  timeframe := .h1
  start := in2020 1 15 12 (by decide) (by decide) (by decide)
  stop := in2020 2 2 6 (by decide) (by decide) (by decide)
  start_lt := by decide +kernel
  start_aligned := by decide +kernel
  stop_aligned := by decide +kernel

/-- Hours from midnight on the 15th of January to six in the morning on the 2nd of February. -/
def fromMidnight : DataRequest :=
  { fromNoon with
    start := in2020 1 15 0 (by decide) (by decide) (by decide)
    start_lt := by decide +kernel
    start_aligned := by decide +kernel }

/-- The first of March. -/
def march : Moment := in2020 3 1 0 (by decide) (by decide) (by decide)

/-- The first of February is in no archive that is selected for the request from noon. -/
theorem february_left_out : ¬ ∀ (request : DataRequest) (now : Moment), request.stop ≤ now →
    ∃ specs, selectArchives (some now) request = .ok specs ∧ Selection request specs := by
  intro h
  obtain ⟨specs, hok, hspecs⟩ := h fromNoon march (by decide +kernel)
  have hbar : fromNoon.IsBar (in2020 2 1 0 (by decide) (by decide) (by decide)) :=
    ⟨by decide +kernel, by decide +kernel, by decide +kernel⟩
  have hselected : (selectArchives (some march) fromNoon).toOption.any
      (fun specs => specs.all fun spec =>
        ! decide (spec.Covers (in2020 2 1 0 (by decide) (by decide) (by decide)))) = true := by
    decide +kernel
  rw [hok] at hselected
  obtain ⟨spec, hspec, hcovers⟩ := hspecs.covers _ hbar
  have hnot := all_eq_true.mp hselected spec hspec
  simp [hcovers] at hnot

theorem fromMidnight_covered : ∃ specs, selectArchives (some march) fromMidnight = .ok specs
      ∧ Selection fromMidnight specs := by
  refine (selectArchives_iff fromMidnight march (by decide +kernel)).mpr ?_
  obtain ⟨li, hli⟩ := Option.isSome_iff_exists.mp (Moment.prev_isSome fromMidnight.start_lt)
  have hright : fromMidnight.stop.prev.any
      (fun li => decide (Right fromMidnight march li)) = true := by
    decide +kernel
  rw [hli] at hright
  exact ⟨li, hli, of_decide_eq_true hright⟩

end Sample

end Qt.Backtest.Archives
