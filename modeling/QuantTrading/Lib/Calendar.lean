import Mathlib.Data.Nat.Digits.Defs
import QuantTrading.Lib.DecimalText

/-!
# The calendar

Months, days and moments of the proleptic Gregorian calendar, from the year `1` to the year `9999`.
Each is what its fields say, and a value that exists is valid. All are in order by a number: a month
by `Month.index`, a day by its month and its day of the month, a moment by its day and its time of
the day, which is counted in units of which a day has `unitsPerDay`.

The next month, the next day and the moment before carry into the month, the year or the day beside
them and end with the calendar: each is the neighbour in the order (`Month.lt_iff_of_next`,
`Date.lt_iff_of_next`, `Moment.lt_iff_of_prev`).
-/

namespace Calendar

open List Option Nat

/-! ## Months -/

@[ext]
structure Month where
  year : ℕ
  month : ℕ
  year_mem : 1 ≤ year ∧ year ≤ 9999
  month_mem : 1 ≤ month ∧ month ≤ 12

namespace Month

instance : DecidableEq Month := fun _ _ => decidable_of_iff' _ Month.ext_iff

variable (m : Month)

/-- The number of the month. -/
def index : ℕ := 12 * m.year + (m.month - 1)

theorem index_injective : Function.Injective index := by
  intro a b h
  have ha := a.month_mem
  have hb := b.month_mem
  unfold index at h
  ext
  · omega
  · omega

instance : LinearOrder Month := LinearOrder.lift' index index_injective

variable {a b : Month}

theorem le_iff : a ≤ b ↔ a.index ≤ b.index := Iff.rfl

theorem lt_iff : a < b ↔ a.index < b.index := Iff.rfl

/-- The month of a year and a number, where there is one. -/
def of (year month : ℕ) : Option Month :=
  if h : (1 ≤ year ∧ year ≤ 9999) ∧ 1 ≤ month ∧ month ≤ 12 then some ⟨year, month, h.1, h.2⟩
  else none

/-- The month after, unless the calendar ends. -/
def next : Option Month :=
  if m.month = 12 then of (m.year + 1) 1 else of m.year (m.month + 1)

/-- The last month of the calendar. -/
def last : Month := ⟨9999, 12, by decide, by decide⟩

theorem le_last : m ≤ last := by
  have hy := m.year_mem
  have hm := m.month_mem
  rw [le_iff]
  show 12 * m.year + (m.month - 1) ≤ 12 * 9999 + (12 - 1)
  omega

variable {m} {n : Month}

theorem index_of_next (h : m.next = some n) : n.index = m.index + 1 := by
  have hm := m.month_mem
  unfold next of at h
  split_ifs at h with h12 hof
  · obtain rfl := some.inj h
    show 12 * (m.year + 1) + (1 - 1) = 12 * m.year + (m.month - 1) + 1
    omega
  · obtain rfl := some.inj h
    show 12 * m.year + (m.month + 1 - 1) = 12 * m.year + (m.month - 1) + 1
    omega

/-- **The month after is the first one after.** -/
theorem lt_iff_of_next {x : Month} (h : m.next = some n) : m < x ↔ n ≤ x := by
  rw [lt_iff, le_iff, index_of_next h]
  exact Iff.rfl

theorem next_isSome_iff : m.next.isSome ↔ m ≠ last := by
  have hy := m.year_mem
  have hm := m.month_mem
  have heq : m = last ↔ m.year = 9999 ∧ m.month = 12 := Month.ext_iff
  rw [ne_eq, heq]
  unfold next of
  split_ifs with h12 hof hof
  · simp
    omega
  · simp
    omega
  · simp
    omega
  · omega

/-- The year has a 29th of February. -/
def Leap (year : ℕ) : Prop := year % 4 = 0 ∧ (year % 100 ≠ 0 ∨ year % 400 = 0)
deriving Decidable

variable (m)

/-- How many days the month has. -/
def days : ℕ :=
  if m.month = 2 then if Leap m.year then 29 else 28
  else if m.month = 4 ∨ m.month = 6 ∨ m.month = 9 ∨ m.month = 11 then 30 else 31

theorem le_days : 28 ≤ m.days := by
  unfold days
  split_ifs <;> simp

theorem days_pos : 1 ≤ m.days := le_trans (by simp) m.le_days

theorem days_le : m.days ≤ 31 := by
  unfold days
  split_ifs <;> simp

end Month

/-! ## Days -/

@[ext]
structure Date extends Month where
  day : ℕ
  day_mem : 1 ≤ day ∧ day ≤ toMonth.days

namespace Date

instance : DecidableEq Date := fun _ _ => decidable_of_iff' _ Date.ext_iff

/-- The place of the day in the order. -/
def number (d : Date) : ℕ := 32 * d.toMonth.index + d.day

theorem day_lt (d : Date) : d.day < 32 := by
  have hday := d.day_mem
  have hle := d.toMonth.days_le
  omega

variable {a b : Date}

theorem eq_of_index (hindex : a.toMonth.index = b.toMonth.index) (hday : a.day = b.day) :
    a = b := by
  have hmonth := Month.index_injective hindex
  cases a
  cases b
  simp_all

theorem number_injective : Function.Injective number := by
  intro a b h
  have ha := a.day_lt
  have hb := b.day_lt
  unfold number at h
  exact eq_of_index (by omega) (by omega)

instance : LinearOrder Date := LinearOrder.lift' number number_injective

theorem le_iff : a ≤ b ↔ 32 * a.toMonth.index + a.day ≤ 32 * b.toMonth.index + b.day := Iff.rfl

theorem lt_iff : a < b ↔ 32 * a.toMonth.index + a.day < 32 * b.toMonth.index + b.day := Iff.rfl

theorem toMonth_mono (h : a ≤ b) : a.toMonth ≤ b.toMonth := by
  have ha := a.day_mem
  have hb := b.day_lt
  rw [le_iff] at h
  rw [Month.le_iff]
  omega

variable (m : Month)

/-- The first day of a month. -/
def first : Date := ⟨m, 1, le_rfl, m.days_pos⟩

/-- The last day of a month. -/
def final : Date := ⟨m, m.days, m.days_pos, le_rfl⟩

@[simp] theorem toMonth_first : (first m).toMonth = m := rfl

@[simp] theorem toMonth_final : (final m).toMonth = m := rfl

variable {d : Date} {m}

theorem first_le_iff : first m ≤ d ↔ m ≤ d.toMonth := by
  have hd := d.day_mem
  have hlt := d.day_lt
  rw [le_iff, Month.le_iff]
  show 32 * m.index + 1 ≤ _ ↔ _
  omega

theorem le_final_iff : d ≤ final m ↔ d.toMonth ≤ m := by
  have hd := d.day_mem
  have hlt := d.day_lt
  have hm := m.days_pos
  rw [le_iff, Month.le_iff]
  show _ ≤ 32 * m.index + m.days ↔ _
  constructor
  · intro h
    have hdays := m.days_le
    omega
  · intro h
    rcases h.lt_or_eq with h | h
    · omega
    · have heq : d.toMonth = m := Month.index_injective h
      have hdays : d.day ≤ m.days := heq ▸ hd.2
      omega

/-- The day after, unless the calendar ends. -/
def next (d : Date) : Option Date :=
  if h : d.day < d.toMonth.days then some ⟨d.toMonth, d.day + 1, Nat.le_add_left 1 d.day, h⟩
  else d.toMonth.next.map first

variable {x : Date}

/-- **The day after is the first one after.** -/
theorem lt_iff_of_next {n : Date} (h : d.next = some n) : d < n ∧ (d < x ↔ n ≤ x) := by
  have hd := d.day_lt
  have hx := x.day_mem
  have hxlt := x.day_lt
  unfold next at h
  split_ifs at h with hday
  · obtain rfl := some.inj h
    rw [lt_iff, lt_iff, le_iff]
    exact ⟨lt_succ_self _, Iff.rfl⟩
  · obtain ⟨m, hm, rfl⟩ := map_eq_some_iff.mp h
    have hindex := Month.index_of_next hm
    rw [lt_iff, lt_iff, first_le_iff, Month.le_iff]
    refine ⟨?_, ?_⟩
    · show _ < 32 * m.index + 1
      omega
    · by_cases heq : d.toMonth.index = x.toMonth.index
      · have hdays : x.day ≤ d.toMonth.days := Month.index_injective heq ▸ hx.2
        omega
      · omega

theorem next_isSome (h : d.toMonth ≠ .last) : d.next.isSome := by
  unfold next
  split_ifs with hday
  · rfl
  · rw [isSome_map]
    exact Month.next_isSome_iff.mpr h

/-- The month before, unless the calendar begins. -/
def monthBefore (m : Month) : Option Month :=
  if m.month = 1 then Month.of (m.year - 1) 12 else Month.of m.year (m.month - 1)

theorem index_of_monthBefore {p : Month} (h : monthBefore m = some p) : p.index + 1 = m.index := by
  have hm := m.month_mem
  have hy := m.year_mem
  unfold monthBefore Month.of at h
  split_ifs at h with h1 hof hof
  · obtain rfl := some.inj h
    show 12 * (m.year - 1) + (12 - 1) + 1 = 12 * m.year + (m.month - 1)
    omega
  · obtain rfl := some.inj h
    show 12 * m.year + (m.month - 1 - 1) + 1 = 12 * m.year + (m.month - 1)
    omega

theorem monthBefore_isSome {x : Month} (h : x < m) : (monthBefore m).isSome := by
  have hm := m.month_mem
  have hy := m.year_mem
  have hx := x.year_mem
  rw [Month.lt_iff] at h
  unfold Month.index at h
  unfold monthBefore Month.of
  split_ifs with h1 hof hof
  · rfl
  · omega
  · rfl
  · omega

/-- The day before, unless the calendar begins. -/
def prev (d : Date) : Option Date :=
  if h : 1 < d.day then
    some ⟨d.toMonth, d.day - 1, le_sub_one_of_lt h, (sub_le _ _).trans d.day_mem.2⟩
  else (monthBefore d.toMonth).map final

/-- **The day before is the last one before.** -/
theorem lt_iff_of_prev {p : Date} (h : d.prev = some p) : x < d ↔ x ≤ p := by
  have hd := d.day_mem
  have hx := x.day_mem
  have hxlt := x.day_lt
  unfold prev at h
  split_ifs at h with hday
  · obtain rfl := some.inj h
    rw [lt_iff, le_iff]
    show _ ↔ _ ≤ 32 * d.toMonth.index + (d.day - 1)
    omega
  · obtain ⟨m, hm, rfl⟩ := map_eq_some_iff.mp h
    have hindex := index_of_monthBefore hm
    rw [lt_iff, le_final_iff, Month.le_iff]
    omega

theorem prev_isSome (h : x < d) : d.prev.isSome := by
  have hx := x.day_mem
  unfold prev
  split_ifs with hday
  · rfl
  · rw [isSome_map]
    refine monthBefore_isSome (x := x.toMonth) ?_
    rw [lt_iff] at h
    rw [Month.lt_iff]
    omega

end Date

/-! ## Moments -/

def unitsPerDay : ℕ := 86400000000

@[ext]
structure Moment extends Date where
  unit : ℕ
  unit_lt : unit < unitsPerDay

namespace Moment

instance : DecidableEq Moment := fun _ _ => decidable_of_iff' _ Moment.ext_iff

/-- The place of the moment in the order. -/
def number (t : Moment) : ℕ := unitsPerDay * t.toDate.number + t.unit

theorem eq_of_toDate {a b : Moment} (hdate : a.toDate = b.toDate) (hunit : a.unit = b.unit) :
    a = b := by
  cases a
  cases b
  simp_all

theorem number_injective : Function.Injective number := by
  intro a b h
  have ha := a.unit_lt
  have hb := b.unit_lt
  unfold number at h
  unfold unitsPerDay at h ha hb
  exact eq_of_toDate (Date.number_injective (by omega)) (by omega)

instance : LinearOrder Moment := LinearOrder.lift' number number_injective

variable {a b t p x : Moment}

theorem lt_iff : a < b ↔ a.toDate < b.toDate ∨ a.toDate = b.toDate ∧ a.unit < b.unit := by
  have ha := a.unit_lt
  have hb := b.unit_lt
  have heq : a.toDate = b.toDate ↔ a.toDate.number = b.toDate.number :=
    Date.number_injective.eq_iff.symm
  have hlt : a.toDate < b.toDate ↔ a.toDate.number < b.toDate.number := Iff.rfl
  have hmoment : a < b ↔ a.number < b.number := Iff.rfl
  rw [hmoment, heq, hlt]
  unfold number
  unfold unitsPerDay at ha hb ⊢
  omega

theorem le_iff : a ≤ b ↔ a.toDate < b.toDate ∨ a.toDate = b.toDate ∧ a.unit ≤ b.unit := by
  rw [← not_lt, lt_iff, not_or, not_lt, not_and, not_lt]
  constructor
  · intro h
    rcases h.1.lt_or_eq with hlt | heq
    · exact .inl hlt
    · exact .inr ⟨heq, h.2 heq.symm⟩
  · intro h
    rcases h with hlt | heq
    · exact ⟨hlt.le, fun h' => absurd h'.symm hlt.ne⟩
    · exact ⟨heq.1.le, fun _ => heq.2⟩

/-- The days of moments are in the order of the moments. -/
theorem toDate_mono (h : a ≤ b) : a.toDate ≤ b.toDate :=
  (le_iff.mp h).elim le_of_lt fun h => h.1.le

/-- A moment with the time of the day of another. -/
def atTime (d : Date) (t : Moment) : Moment := ⟨d, t.unit, t.unit_lt⟩

/-- The first moment of a day. -/
def midnight (d : Date) : Moment := ⟨d, 0, by decide⟩

/-- **First days at times of the day** are in the order of their months, and then of the times. -/
theorem atTime_first_le_iff {m n : Month} :
    atTime (.first m) t ≤ atTime (.first n) x ↔ m < n ∨ m = n ∧ t.unit ≤ x.unit := by
  have hlt : Date.first m < Date.first n ↔ m < n := by
    rw [Date.lt_iff, Month.lt_iff]
    show 32 * m.index + 1 < 32 * n.index + 1 ↔ _
    omega
  have heq : Date.first m = Date.first n ↔ m = n :=
    ⟨fun h => congrArg Date.toMonth h, fun h => congrArg Date.first h⟩
  rw [le_iff]
  show Date.first m < Date.first n ∨ Date.first m = Date.first n ∧ t.unit ≤ x.unit ↔ _
  rw [hlt, heq]

/-- The moment before, unless the calendar begins. -/
def prev (t : Moment) : Option Moment :=
  if 0 < t.unit then some ⟨t.toDate, t.unit - 1, (sub_le _ _).trans_lt t.unit_lt⟩
  else t.toDate.prev.map fun d => ⟨d, unitsPerDay - 1, by decide⟩

/-- **The moment before is the last one before.** -/
theorem lt_iff_of_prev (h : t.prev = some p) : x < t ↔ x ≤ p := by
  have hx := x.unit_lt
  unfold prev at h
  split_ifs at h with hunit
  · obtain rfl := some.inj h
    rw [lt_iff, le_iff]
    refine or_congr Iff.rfl (and_congr Iff.rfl ?_)
    show x.unit < t.unit ↔ x.unit ≤ t.unit - 1
    omega
  · obtain ⟨d, hd, rfl⟩ := map_eq_some_iff.mp h
    have hlast : x.unit ≤ unitsPerDay - 1 := le_sub_one_of_lt hx
    have hzero : ¬ x.unit < t.unit := by omega
    rw [lt_iff, le_iff, Date.lt_iff_of_prev hd, le_iff_lt_or_eq]
    refine ⟨fun h => h.elim (fun h => ?_) fun h => absurd h.2 hzero, fun h => .inl ?_⟩
    · exact h.imp_right fun h => ⟨h, hlast⟩
    · exact h.imp_right fun h => h.1

theorem prev_isSome (h : x < t) : t.prev.isSome := by
  unfold prev
  split_ifs with hunit
  · rfl
  · rw [isSome_map]
    exact Date.prev_isSome ((lt_iff.mp h).resolve_right fun h => hunit (zero_lt_of_lt h.2))

end Moment

/-! ## Texts -/

/-- A number, with zeros in front of it up to a width. -/
def padded (width n : ℕ) : List Char :=
  List.replicate (width - (Nat.toDigits 10 n).length) '0' ++ Nat.toDigits 10 n

theorem isDigit_of_mem_padded {width n : ℕ} {c : Char} (h : c ∈ padded width n) :
    c.isDigit = true := by
  rcases mem_append.mp h with h | h
  · obtain rfl := eq_of_mem_replicate h
    rfl
  · exact isDigit_of_mem_toDigits (by decide) (by decide) h

theorem ofDigitChars_padded (width n : ℕ) : Nat.ofDigitChars 10 (padded width n) 0 = n := by
  unfold padded
  rw [ofDigitChars_append, ofDigitChars_replicate_zero]
  show Nat.ofDigitChars 10 (Nat.toDigits 10 n) (10 ^ _ * 0) = n
  rw [mul_zero, ofDigitChars_ten_toDigits]

theorem padded_injective (width : ℕ) : Function.Injective (padded width) := by
  intro a b h
  rw [← ofDigitChars_padded width a, h, ofDigitChars_padded]

variable {a b rest : List Char}

theorem eq_of_dash {rest' : List Char} (ha : ∀ c ∈ a, c.isDigit = true)
    (hb : ∀ c ∈ b, c.isDigit = true) (h : a ++ '-' :: rest = b ++ '-' :: rest') :
    a = b ∧ rest = rest' := by
  have hstops : ∀ l : List Char, Decimal.Stops ('-' :: l) := fun l c hc => by
    obtain rfl := mem_some_iff.mp hc
    rfl
  have htake := congrArg (List.takeWhile Char.isDigit) h
  rw [(Decimal.takeWhile_digits ha (hstops rest)).1,
    (Decimal.takeWhile_digits hb (hstops rest')).1] at htake
  subst htake
  exact ⟨rfl, (List.cons.inj (append_cancel_left h)).2⟩

/-- `2020-01`. -/
def Month.text (m : Month) : String :=
  String.ofList (padded 4 m.year ++ '-' :: padded 2 m.month)

/-- `2020-01-01`. -/
def Date.isoformat (d : Date) : String :=
  String.ofList (padded 4 d.year ++ '-' :: (padded 2 d.month ++ '-' :: padded 2 d.day))

/-- The digits of a year and a month. -/
def Month.digits (m : Month) : List Char × List Char := (padded 4 m.year, padded 2 m.month)

theorem Month.digits_injective : Function.Injective Month.digits := by
  intro a b h
  ext
  · exact padded_injective 4 (congrArg Prod.fst h)
  · exact padded_injective 2 (congrArg Prod.snd h)

/-- The digits in front of a text, and those after the next character. -/
def leadingDigits (s : String) : List Char × List Char :=
  (s.toList.takeWhile Char.isDigit,
    ((s.toList.dropWhile Char.isDigit).drop 1).takeWhile Char.isDigit)

theorem leadingDigits_of (ha : ∀ c ∈ a, c.isDigit = true) (hb : ∀ c ∈ b, c.isDigit = true)
    (hrest : Decimal.Stops rest) :
    leadingDigits (String.ofList (a ++ '-' :: (b ++ rest))) = (a, b) := by
  have hdash : Decimal.Stops ('-' :: (b ++ rest)) := fun c hc => by
    obtain rfl := mem_some_iff.mp hc
    rfl
  have houter := Decimal.takeWhile_digits ha hdash
  unfold leadingDigits
  rw [String.toList_ofList, houter.1, houter.2, drop_one, tail_cons,
    (Decimal.takeWhile_digits hb hrest).1]

/-- **The month is read off its text**, and off the text of each of its days. -/
theorem leadingDigits_text (m : Month) : leadingDigits m.text = m.digits := by
  have h := @leadingDigits_of (padded 4 m.year) (padded 2 m.month) []
    (fun _ => isDigit_of_mem_padded) (fun _ => isDigit_of_mem_padded) (by simp [Decimal.Stops])
  rwa [append_nil] at h

theorem leadingDigits_isoformat (d : Date) : leadingDigits d.isoformat = d.toMonth.digits :=
  leadingDigits_of (fun _ => isDigit_of_mem_padded) (fun _ => isDigit_of_mem_padded) (fun c hc => by
      obtain rfl := mem_some_iff.mp hc
      rfl)

theorem Date.isoformat_injective : Function.Injective Date.isoformat := by
  intro a b h
  have hyear := eq_of_dash (fun _ => isDigit_of_mem_padded) (fun _ => isDigit_of_mem_padded)
    (String.ofList_injective h)
  have hmonth := eq_of_dash (fun _ => isDigit_of_mem_padded) (fun _ => isDigit_of_mem_padded)
    hyear.2
  ext
  · exact padded_injective 4 hyear.1
  · exact padded_injective 2 hmonth.1
  · exact padded_injective 2 hmonth.2

end Calendar
