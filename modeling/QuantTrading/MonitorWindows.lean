import Mathlib.Data.List.TakeWhile
import QuantTrading.Lib.Turns
import QuantTrading.MonitorEngine

/-!
# Windows of trades

`MicroState` of `qt.btc_monitor.engine`, with all that a window reads: trades go
into one bucket for each second that has any, a bucket keeps what its trades add
up to, and a window puts the buckets of its seconds together. The ring holds a
bounded number of buckets and no second that is more than an hour older than the
last.

A window gives what its trades give when they are looked at one by one (`direct`),
as long as no second of it has left the ring. It is a window of whole seconds: a
trade is in it with the second that it falls into, which is after `cutoff - seconds`
and not after `cutoff`.
-/

namespace Qt.BtcMonitor.Micro

open List

open List (signs turns pathLength turn)

/-! ## Buckets -/

/-- What `MicroState.add` reads of an accepted trade. -/
structure Trade where
  eventTime : ℚ
  price : ℚ
  quantity : ℚ
deriving DecidableEq

def Trade.second (t : Trade) : ℤ := truncate t.eventTime

structure Bucket where
  second : ℤ
  opened : ℚ
  high : ℚ
  low : ℚ
  close : ℚ
  path : ℚ := 0
  reversals : ℕ := 0
  firstSign : SignType := 0
  lastSign : SignType := 0
  count : ℕ := 1
  volume : ℚ := 0
deriving DecidableEq

def Bucket.add (price quantity : ℚ) (b : Bucket) : Bucket :=
  let delta := price - b.close
  let direction := SignType.sign delta
  { b with
    path := b.path + |delta|
    reversals := b.reversals
      + if direction ≠ 0 ∧ b.lastSign ≠ 0 ∧ direction ≠ b.lastSign then 1 else 0
    firstSign := if direction ≠ 0 ∧ b.firstSign = 0 then direction else b.firstSign
    lastSign := if direction ≠ 0 then direction else b.lastSign
    high := max b.high price
    low := min b.low price
    close := price
    count := b.count + 1
    volume := b.volume + quantity }

/-- The bucket of a first trade. -/
def Bucket.open (t : Trade) : Bucket :=
  { second := t.second, opened := t.price, high := t.price, low := t.price, close := t.price
    volume := t.quantity }

variable (maxSeconds : ℕ)

/-- `MicroState.add`, on the buckets of a ring of a size. -/
def add (buckets : List Bucket) (t : Trade) : List Bucket :=
  let added :=
    match buckets.getLast? with
    | some last =>
      if last.second = t.second then buckets.dropLast ++ [last.add t.price t.quantity]
      else pushBounded maxSeconds (Bucket.open t) buckets
    | none => pushBounded maxSeconds (Bucket.open t) buckets
  added.dropWhile fun b => b.second < t.second - 3600

/-- The buckets after trades. -/
def run (trades : List Trade) : List Bucket := trades.foldl (add maxSeconds) []

/-! ## Windows -/

@[ext]
structure WindowMetrics where
  buckets : ℕ
  high : Option ℚ
  low : Option ℚ
  opened : ℚ
  close : ℚ
  path : ℚ
  efficiency : ℚ
  reversals : ℕ
  volume : ℚ
  count : ℕ
deriving DecidableEq

/-- What the loop of `window` carries from bucket to bucket. -/
structure Stitch where
  path : ℚ
  reversals : ℕ
  lastSign : SignType
  previous : ℚ

/-- One round of the loop of `window`. -/
def Stitch.step (s : Stitch) (bucket : Bucket) : Stitch :=
  let transition := bucket.opened - s.previous
  let direction := SignType.sign transition
  let reversals := s.reversals
    + if direction ≠ 0 ∧ s.lastSign ≠ 0 ∧ direction ≠ s.lastSign then 1 else 0
  let lastSign := if direction ≠ 0 then direction else s.lastSign
  { path := s.path + (|transition| + bucket.path)
    reversals := reversals
      + (if bucket.firstSign ≠ 0 ∧ lastSign ≠ 0 ∧ lastSign ≠ bucket.firstSign then 1 else 0)
      + bucket.reversals
    lastSign := if bucket.firstSign ≠ 0 then bucket.lastSign else lastSign
    previous := bucket.close }

variable (seconds : ℕ) (cutoff : ℚ)

/-- The buckets that a window takes, walking back from the last one. -/
def inside (buckets : List Bucket) : List Bucket :=
  ((buckets.reverse.takeWhile fun b => cutoff - seconds < b.second).filter
    fun b => b.second ≤ cutoff).reverse

/-- The metrics of the buckets that are taken. -/
def metrics : List Bucket → WindowMetrics
  | [] => ⟨0, none, none, 0, 0, 0, 1, 0, 0, 0⟩
  | first :: rest =>
    let buckets := first :: rest
    let stitch := buckets.foldl Stitch.step ⟨0, 0, 0, first.opened⟩
    let close := (buckets.getLast (cons_ne_nil first rest)).close
    { buckets := buckets.length
      high := (buckets.map Bucket.high).max?
      low := (buckets.map Bucket.low).min?
      opened := first.opened
      close := close
      path := stitch.path
      efficiency := if stitch.path ≠ 0 then |close - first.opened| / stitch.path else 1
      reversals := stitch.reversals
      volume := (buckets.map Bucket.volume).sum
      count := (buckets.map Bucket.count).sum }

/-- **`MicroState.window`.** -/
def window (buckets : List Bucket) : WindowMetrics :=
  metrics (inside seconds cutoff buckets)

/-! ## Trade by trade -/

def InWindow (second : ℤ) : Prop :=
  cutoff - seconds < second ∧ second ≤ cutoff
deriving Decidable

/-- **The metrics of trades, one by one**: the first and the last price, the highest and the
lowest, the path as the sum of the absolute price changes, the reversals as the turns of
the signs of the price changes that are not zero, the volume and the count. -/
def direct (trades : List Trade) : WindowMetrics :=
  let prices := trades.map Trade.price
  let opened := prices.head?.getD 0
  let close := prices.getLast?.getD 0
  let path := pathLength prices
  { buckets := (trades.map Trade.second).dedup.length
    high := prices.max?
    low := prices.min?
    opened := opened
    close := close
    path := path
    efficiency := if path ≠ 0 then |close - opened| / path else 1
    reversals := turns (signs prices)
    volume := (trades.map Trade.quantity).sum
    count := trades.length }

/-- No second of the window has left the ring, when the last trade falls into `last`. -/
def Covered (last : ℤ) (seconds : ℕ) (cutoff : ℚ) : Prop :=
  (last - min maxSeconds 3601 : ℚ) ≤ cutoff - seconds

/-! ## What a bucket keeps -/

section Buckets

variable {b : Bucket} {l : List Trade} {xs : List ℚ} {t : Trade}

abbrev prices (l : List Trade) : List ℚ := l.map Trade.price

/-- **A bucket of trades**: what it keeps is what they add up to. -/
structure Bucket.Of (b : Bucket) (l : List Trade) : Prop where
  second : ∀ t ∈ l, t.second = b.second
  opened : (prices l).head? = some b.opened
  close : (prices l).getLast? = some b.close
  high : (prices l).max? = some b.high
  low : (prices l).min? = some b.low
  path : b.path = pathLength (prices l)
  reversals : b.reversals = turns (signs (prices l))
  firstSign : b.firstSign = List.firstSign (signs (prices l))
  lastSign : b.lastSign = List.lastSign (signs (prices l))
  count : b.count = l.length
  volume : b.volume = (l.map Trade.quantity).sum

theorem Bucket.of_open (t : Trade) : (Bucket.open t).Of [t] where
  second := by simp [Bucket.open]
  opened := rfl
  close := rfl
  high := rfl
  low := rfl
  path := rfl
  reversals := rfl
  firstSign := rfl
  lastSign := rfl
  count := rfl
  volume := (add_zero t.quantity).symm

variable {x : ℚ}

theorem max?_concat (h : xs.max? = some x) (y : ℚ) : (xs ++ [y]).max? = some (max x y) := by
  cases xs with
  | nil => cases h
  | cons z zs =>
    rw [max?_cons'] at h
    obtain rfl := Option.some.inj h
    rw [cons_append, max?_cons', foldl_append]
    rfl

theorem min?_concat (h : xs.min? = some x) (y : ℚ) : (xs ++ [y]).min? = some (min x y) := by
  cases xs with
  | nil => cases h
  | cons z zs =>
    rw [min?_cons'] at h
    obtain rfl := Option.some.inj h
    rw [cons_append, min?_cons', foldl_append]
    rfl

theorem turn_eq (a c : SignType) : (if c ≠ 0 ∧ a ≠ 0 ∧ a ≠ c then 1 else 0) = turn a c := by
  unfold turn
  congr 1
  exact propext and_left_comm

theorem turn_eq' (a c : SignType) : (if c ≠ 0 ∧ a ≠ 0 ∧ c ≠ a then 1 else 0) = turn a c := by
  rw [← turn_eq]
  congr 1
  exact propext (and_congr_right' (and_congr_right' ne_comm))

/-- **A bucket takes another trade** of its second. -/
theorem Bucket.Of.add (h : b.Of l) (ht : t.second = b.second) :
    (b.add t.price t.quantity).Of (l ++ [t]) := by
  obtain ⟨ys, hys⟩ := getLast?_eq_some_iff.mp h.close
  have hprices : prices (l ++ [t]) = prices l ++ [t.price] := map_append
  have hseam : prices (l ++ [t]) = (ys ++ [b.close]) ++ t.price :: [] := by
    rw [hprices, hys]
  have hsigns : signs (prices (l ++ [t]))
      = signs (prices l) ++ List.signOf (t.price - b.close) := by
    rw [hseam, signs_append, ← hys]
    show _ ++ (_ ++ []) = _
    rw [append_nil]
  refine ⟨?_, ?_, ?_, ?_, ?_, ?_, ?_, ?_, ?_, ?_, ?_⟩
  · intro u hu
    rcases mem_append.mp hu with hu | hu
    · exact h.second u hu
    · rw [mem_singleton.mp hu]
      exact ht
  · rw [hprices, head?_append, h.opened]
    rfl
  · rw [hprices, getLast?_concat]
    rfl
  · rw [hprices]
    exact max?_concat h.high t.price
  · rw [hprices]
    exact min?_concat h.low t.price
  · rw [hseam, pathLength_append, ← hys, ← h.path]
    show b.path + |t.price - b.close| = b.path + (|t.price - b.close| + 0)
    rw [add_zero]
  · rw [hsigns, turns_append (zero_notMem_signs _) (zero_notMem_signOf _),
      turns_signOf, firstSign_signOf, ← h.reversals, ← h.lastSign, ← turn_eq']
    rfl
  · rw [hsigns, firstSign_append (zero_notMem_signs _), firstSign_signOf, ← h.firstSign]
    show (if _ ∧ _ then _ else _) = _
    by_cases hfirst : b.firstSign = 0
    · by_cases hdirection : SignType.sign (t.price - b.close) = 0
      · simp [hfirst, hdirection]
      · simp [hfirst, hdirection]
    · simp [hfirst]
  · rw [hsigns, lastSign_append_signOf, ← h.lastSign]
    exact ite_not _ _ _
  · rw [length_append, ← h.count]
    rfl
  · rw [map_append, sum_append, ← h.volume]
    show b.volume + t.quantity = b.volume + (t.quantity + 0)
    rw [add_zero]

/-! ## Buckets behind one another -/

/-- **What the loop of `window` has put together**: the numbers so far, with the price that
the window opened at in front. -/
structure Stitch.Of (s : Stitch) (xs : List ℚ) : Prop where
  path : s.path = pathLength xs
  reversals : s.reversals = turns (signs xs)
  lastSign : s.lastSign = List.lastSign (signs xs)
  previous : xs.getLast? = some s.previous

/-- **A round of the loop** puts the prices of a bucket behind those so far. -/
theorem Stitch.Of.step {s : Stitch} (h : s.Of xs) (hb : b.Of l) :
    (s.step b).Of (xs ++ prices l) := by
  obtain ⟨ys, hys⟩ := getLast?_eq_some_iff.mp h.previous
  obtain ⟨zs, hzs⟩ := head?_eq_some_iff.mp hb.opened
  have hseam : xs ++ prices l = (ys ++ [s.previous]) ++ b.opened :: zs := by rw [hys, hzs]
  have hdirection : (if SignType.sign (b.opened - s.previous) ≠ 0
      then SignType.sign (b.opened - s.previous) else s.lastSign)
        = List.lastSign (signs xs ++ List.signOf (b.opened - s.previous)) := by
    rw [lastSign_append_signOf, ← h.lastSign]
    exact ite_not _ _ _
  refine ⟨?_, ?_, ?_, ?_⟩
  · rw [hseam, pathLength_append, ← hys, ← hzs, ← h.path, ← hb.path]
    rfl
  · rw [hseam, turns_signs_append, ← hys, ← hzs, ← h.reversals, ← hb.reversals, ← hdirection,
      ← h.lastSign, ← hb.firstSign, ← turn_eq', ← turn_eq]
    rfl
  · rw [hseam, lastSign_signs_append, ← hys, ← hzs, ← hb.firstSign, ← hb.lastSign, ← hdirection]
    exact ite_not _ _ _
  · rw [getLast?_append, hb.close]
    rfl

end Buckets

/-! ## Windows over buckets -/

section Windows

/-- Buckets with their trades, second after second. -/
structure Parts (parts : List (Bucket × List Trade)) : Prop where
  of : ∀ p ∈ parts, p.1.Of p.2
  increasing : parts.Pairwise fun p q => p.1.second < q.1.second

variable {parts : List (Bucket × List Trade)}

/-- The trades of buckets, in order. -/
def tradesOf (parts : List (Bucket × List Trade)) : List Trade := parts.flatMap Prod.snd

theorem Bucket.Of.ne_nil {b : Bucket} {l : List Trade} (h : b.Of l) : l ≠ [] := by
  rintro rfl
  cases h.opened

theorem prices_tradesOf (parts : List (Bucket × List Trade)) :
    prices (tradesOf parts) = parts.flatMap fun p => prices p.2 :=
  map_flatMap

/-- **The loop of `window`** puts the prices of all buckets together. -/
theorem Stitch.Of.foldl {s : Stitch} {xs : List ℚ} (h : s.Of xs) (hof : ∀ p ∈ parts, p.1.Of p.2) :
    ((parts.map Prod.fst).foldl Stitch.step s).Of (xs ++ prices (tradesOf parts)) := by
  induction parts generalizing s xs with
  | nil => simpa [tradesOf] using h
  | cons p parts ih =>
    obtain ⟨hp, hrest⟩ := forall_mem_cons.mp hof
    have hstep := ih (h.step hp) hrest
    rw [append_assoc] at hstep
    rw [prices_tradesOf, flatMap_cons, ← prices_tradesOf]
    exact hstep

/-- The highest price of the buckets is that of their trades. -/
theorem max?_high (hof : ∀ p ∈ parts, p.1.Of p.2) :
    ((parts.map Prod.fst).map Bucket.high).max? = (prices (tradesOf parts)).max? := by
  cases hmax : ((parts.map Prod.fst).map Bucket.high).max? with
  | none =>
    rw [max?_eq_none_iff, map_map, map_eq_nil_iff] at hmax
    rw [hmax]
    rfl
  | some high =>
    rw [max?_eq_some_iff] at hmax
    obtain ⟨hmem, hle⟩ := hmax
    rw [map_map] at hmem hle
    symm
    rw [max?_eq_some_iff, prices_tradesOf]
    simp only [mem_flatMap]
    constructor
    · obtain ⟨p, hp, rfl⟩ := mem_map.mp hmem
      exact ⟨p, hp, (max?_eq_some_iff.mp (hof p hp).high).1⟩
    · rintro price ⟨p, hp, hprice⟩
      exact ((max?_eq_some_iff.mp (hof p hp).high).2 price hprice).trans (hle _ (mem_map_of_mem hp))

theorem min?_low (hof : ∀ p ∈ parts, p.1.Of p.2) :
    ((parts.map Prod.fst).map Bucket.low).min? = (prices (tradesOf parts)).min? := by
  cases hmin : ((parts.map Prod.fst).map Bucket.low).min? with
  | none =>
    rw [min?_eq_none_iff, map_map, map_eq_nil_iff] at hmin
    rw [hmin]
    rfl
  | some low =>
    rw [min?_eq_some_iff] at hmin
    obtain ⟨hmem, hle⟩ := hmin
    rw [map_map] at hmem hle
    symm
    rw [min?_eq_some_iff, prices_tradesOf]
    simp only [mem_flatMap]
    constructor
    · obtain ⟨p, hp, rfl⟩ := mem_map.mp hmem
      exact ⟨p, hp, (min?_eq_some_iff.mp (hof p hp).low).1⟩
    · rintro price ⟨p, hp, hprice⟩
      exact (hle _ (mem_map_of_mem hp)).trans ((min?_eq_some_iff.mp (hof p hp).low).2 price hprice)

theorem length_dedup_second (h : Parts parts) :
    ((tradesOf parts).map Trade.second).dedup.length = parts.length := by
  have hnodup : (parts.map fun p => p.1.second).Nodup :=
    pairwise_map.mpr (h.increasing.imp ne_of_lt)
  have hsame : ((tradesOf parts).map Trade.second).toFinset
      = (parts.map fun p => p.1.second).toFinset := by
    ext second
    simp only [mem_toFinset, mem_map, tradesOf, mem_flatMap]
    constructor
    · rintro ⟨t, ⟨p, hp, ht⟩, rfl⟩
      exact ⟨p, hp, ((h.of p hp).second t ht).symm⟩
    · rintro ⟨p, hp, rfl⟩
      obtain ⟨t, ht⟩ := exists_mem_of_ne_nil _ (h.of p hp).ne_nil
      exact ⟨t, ⟨p, hp, ht⟩, (h.of p hp).second t ht⟩
  rw [← card_toFinset, hsame, toFinset_card_of_nodup hnodup, length_map]

theorem sum_volume (hof : ∀ p ∈ parts, p.1.Of p.2) :
    ((parts.map Prod.fst).map Bucket.volume).sum = ((tradesOf parts).map Trade.quantity).sum := by
  induction parts with
  | nil => rfl
  | cons p parts ih =>
    obtain ⟨hp, hrest⟩ := forall_mem_cons.mp hof
    show p.1.volume + _ = ((p.2 ++ tradesOf parts).map Trade.quantity).sum
    rw [map_append, sum_append, ← hp.volume, ← ih hrest]
    rfl

theorem sum_count (hof : ∀ p ∈ parts, p.1.Of p.2) :
    ((parts.map Prod.fst).map Bucket.count).sum = (tradesOf parts).length := by
  induction parts with
  | nil => rfl
  | cons p parts ih =>
    obtain ⟨hp, hrest⟩ := forall_mem_cons.mp hof
    show p.1.count + _ = (p.2 ++ tradesOf parts).length
    rw [length_append, ← hp.count, ← ih hrest]
    rfl

theorem head?_prices {p : Bucket × List Trade} (parts : List (Bucket × List Trade))
    (hp : p.1.Of p.2) : (prices (tradesOf (p :: parts))).head? = some p.1.opened := by
  rw [prices_tradesOf, flatMap_cons, head?_append, hp.opened]
  rfl

theorem getLast?_prices (hof : ∀ p ∈ parts, p.1.Of p.2) (hne : parts.map Prod.fst ≠ []) :
    (prices (tradesOf parts)).getLast? = some ((parts.map Prod.fst).getLast hne).close := by
  rcases eq_nil_or_concat parts with rfl | ⟨init, last, rfl⟩
  · exact absurd rfl hne
  have hlast := hof last (by simp)
  have hprices : prices (tradesOf (init ++ [last])) = prices (tradesOf init) ++ prices last.2 := by
    rw [prices_tradesOf, prices_tradesOf, flatMap_append, flatMap_singleton]
  simp only [concat_eq_append, hprices, getLast?_append, hlast.close, map_append,
    map_cons, map_nil, getLast_concat]
  rfl

/-- **The metrics of buckets** are those of their trades, one by one. -/
theorem metrics_eq_direct (h : Parts parts) :
    metrics (parts.map Prod.fst) = direct (tradesOf parts) := by
  cases parts with
  | nil => rfl
  | cons first rest =>
    have hfirst := h.of first mem_cons_self
    have hopened := head?_prices rest hfirst
    have hclose := getLast?_prices h.of (cons_ne_nil first.1 (rest.map Prod.fst))
    obtain ⟨ys, hys⟩ := head?_eq_some_iff.mp hopened
    have hstart : (⟨0, 0, 0, first.1.opened⟩ : Stitch).Of [first.1.opened] := ⟨rfl, rfl, rfl, rfl⟩
    have hstitch := hstart.foldl h.of
    have hpath := hstitch.path
    have hreversals := hstitch.reversals
    rw [hys] at hpath hreversals
    rw [singleton_append, pathLength_cons_self, ← hys] at hpath
    rw [singleton_append, signs_cons_self, ← hys] at hreversals
    have hopenedD : (direct (tradesOf (first :: rest))).opened = first.1.opened :=
      congrArg (Option.getD · 0) hopened
    have hcloseD : (direct (tradesOf (first :: rest))).close
        = (((first :: rest).map Prod.fst).getLast (cons_ne_nil _ _)).close :=
      congrArg (Option.getD · 0) hclose
    refine WindowMetrics.ext ?_ (max?_high h.of) (min?_low h.of) hopenedD.symm hcloseD.symm hpath
      ?_ hreversals (sum_volume h.of) (sum_count h.of)
    · exact (length_map _).trans (length_dedup_second h).symm
    · show _ = if pathLength (prices (tradesOf (first :: rest))) ≠ 0
        then |(direct (tradesOf (first :: rest))).close
            - (direct (tradesOf (first :: rest))).opened|
          / pathLength (prices (tradesOf (first :: rest)))
        else 1
      rw [hopenedD, hcloseD, ← hpath]
      rfl

/-- Walking back along a list takes what a filter takes, if nothing comes again once it
has stopped. -/
theorem takeWhile_eq_filter {α : Type} {p : α → Bool} {l : List α}
    (h : l.Pairwise fun a b => p b → p a) : l.takeWhile p = l.filter p := by
  induction l with
  | nil => rfl
  | cons a l ih =>
    obtain ⟨ha, hl⟩ := pairwise_cons.mp h
    cases hpa : p a with
    | true => rw [takeWhile_cons_of_pos hpa, filter_cons_of_pos hpa, ih hl]
    | false =>
      have hnone : l.filter p = [] := filter_eq_nil_iff.mpr fun b hb hpb => by
        rw [ha b hb hpb] at hpa
        cases hpa
      rw [takeWhile_cons_of_neg (by simp [hpa]), filter_cons_of_neg (by simp [hpa]),
        hnone]

/-- **The buckets that a window takes** are those of its seconds. -/
theorem inside_eq_filter {buckets : List Bucket}
    (h : buckets.Pairwise fun a b => a.second < b.second) (seconds : ℕ) (cutoff : ℚ) :
    inside seconds cutoff buckets = buckets.filter fun b => InWindow seconds cutoff b.second := by
  have hback : buckets.reverse.Pairwise fun a b =>
      decide (cutoff - seconds < b.second) → decide (cutoff - seconds < a.second) := by
    refine pairwise_reverse.mpr (h.imp fun {a b} hab => ?_)
    have hcast : (a.second : ℚ) < b.second := by exact_mod_cast hab
    simp only [decide_eq_true_iff]
    exact fun ha => ha.trans hcast
  rw [inside, takeWhile_eq_filter hback, filter_filter, filter_reverse, reverse_reverse]
  refine filter_congr fun b _ => ?_
  rw [← Bool.decide_and]
  exact decide_eq_decide.mpr and_comm

theorem Parts.filter (h : Parts parts) (q : Bucket × List Trade → Bool) : Parts (parts.filter q) :=
  ⟨fun p hp => h.of p (mem_filter.mp hp).1, h.increasing.filter q⟩

/-- The trades of the buckets of some seconds are the trades of those seconds. -/
theorem tradesOf_filter (hof : ∀ p ∈ parts, p.1.Of p.2) (q : ℤ → Bool) :
    tradesOf (parts.filter fun p => q p.1.second)
      = (tradesOf parts).filter fun t => q t.second := by
  induction parts with
  | nil => rfl
  | cons p parts ih =>
    obtain ⟨hp, hrest⟩ := forall_mem_cons.mp hof
    have hcons : tradesOf (p :: parts) = p.2 ++ tradesOf parts := flatMap_cons
    rw [hcons, filter_append, ← ih hrest]
    cases hq : q p.1.second with
    | true =>
      have hall : p.2.filter (fun t => q t.second) = p.2 := filter_eq_self.mpr fun t ht => by
        rw [hp.second t ht, hq]
      rw [filter_cons_of_pos (by simpa using hq), hall]
      exact flatMap_cons
    | false =>
      have hnone : p.2.filter (fun t => q t.second) = [] := filter_eq_nil_iff.mpr
        fun t ht => by rw [hp.second t ht, hq]; simp
      rw [filter_cons_of_neg (by simp [hq]), hnone, nil_append]

end Windows

/-! ## The ring -/

section Ring

variable {maxSeconds : ℕ} {last : ℤ} {trades dropped : List Trade}
  {parts : List (Bucket × List Trade)}

/-- **What the ring holds** when the last trade fell into `last`: all trades but those that
are older than it covers. -/
structure Kept (maxSeconds : ℕ) (last : ℤ) (trades dropped : List Trade)
    (parts : List (Bucket × List Trade)) : Prop where
  sound : Parts parts
  trades_eq : trades = dropped ++ tradesOf parts
  le_last : ∀ p ∈ parts, p.1.second ≤ last
  old : ∀ t ∈ dropped, t.second ≤ last - min (maxSeconds : ℤ) 3601

theorem Kept.advance {last' : ℤ} (h : Kept maxSeconds last trades dropped parts)
    (hle : last ≤ last') : Kept maxSeconds last' trades dropped parts where
  sound := h.sound
  trades_eq := h.trades_eq
  le_last p hp := (h.le_last p hp).trans hle
  old t ht := (h.old t ht).trans (Int.sub_le_sub_right hle _)

/-- **Buckets leave the ring** at its front, when they are older than it covers. -/
theorem Kept.drop {older : List (Bucket × List Trade)}
    (h : Kept maxSeconds last trades dropped (older ++ parts))
    (hold : ∀ p ∈ older, p.1.second ≤ last - min (maxSeconds : ℤ) 3601) :
    Kept maxSeconds last trades (dropped ++ tradesOf older) parts where
  sound := ⟨fun p hp => h.sound.of p (mem_append_right _ hp),
    (pairwise_append.mp h.sound.increasing).2.1⟩
  trades_eq := by
    rw [h.trades_eq, append_assoc, tradesOf, tradesOf, tradesOf, ← flatMap_append]
  le_last p hp := h.le_last p (mem_append_right _ hp)
  old t ht := by
    rcases mem_append.mp ht with ht | ht
    · exact h.old t ht
    · obtain ⟨p, hp, ht⟩ := mem_flatMap.mp ht
      rw [(h.sound.of p (mem_append_left _ hp)).second t ht]
      exact hold p hp

variable {t : Trade}

theorem Kept.push (h : Kept maxSeconds last trades dropped parts) (hlast : last ≤ t.second)
    (hnew : ∀ p ∈ parts, p.1.second < t.second) :
    Kept maxSeconds t.second (trades ++ [t]) dropped (parts ++ [(Bucket.open t, [t])]) where
  sound := by
    refine ⟨fun p hp => ?_, pairwise_append.mpr ⟨h.sound.increasing, pairwise_singleton .., ?_⟩⟩
    · rcases mem_append.mp hp with hp | hp
      · exact h.sound.of p hp
      · rw [mem_singleton.mp hp]
        exact Bucket.of_open t
    · intro p hp q hq
      rw [mem_singleton.mp hq]
      exact hnew p hp
  trades_eq := by
    rw [h.trades_eq, tradesOf, tradesOf, flatMap_append, flatMap_singleton, append_assoc]
  le_last p hp := by
    rcases mem_append.mp hp with hp | hp
    · exact (hnew p hp).le
    · rw [mem_singleton.mp hp]
      exact le_rfl
  old u hu := (h.old u hu).trans (Int.sub_le_sub_right hlast _)

/-- A trade of the last second goes into the last bucket. -/
theorem Kept.extend {p : Bucket × List Trade}
    (h : Kept maxSeconds last trades dropped (parts ++ [p])) (hlast : last ≤ t.second)
    (hsame : p.1.second = t.second) : Kept maxSeconds t.second (trades ++ [t]) dropped
      (parts ++ [(p.1.add t.price t.quantity, p.2 ++ [t])]) where
  sound := by
    obtain ⟨hparts, -, hlt⟩ := pairwise_append.mp h.sound.increasing
    refine ⟨fun q hq => ?_, pairwise_append.mpr ⟨hparts, pairwise_singleton .., ?_⟩⟩
    · rcases mem_append.mp hq with hq | hq
      · exact h.sound.of q (mem_append_left _ hq)
      · rw [mem_singleton.mp hq]
        exact (h.sound.of p (by simp)).add hsame.symm
    · intro q hq r hr
      rw [mem_singleton.mp hr]
      exact hlt q hq p (by simp)
  trades_eq := by
    rw [h.trades_eq, tradesOf, tradesOf, flatMap_append, flatMap_append,
      flatMap_singleton, flatMap_singleton]
    simp only [append_assoc]
  le_last q hq := by
    rcases mem_append.mp hq with hq | hq
    · exact (h.le_last q (mem_append_left _ hq)).trans hlast
    · rw [mem_singleton.mp hq]
      exact hsame.le
  old u hu := (h.old u hu).trans (Int.sub_le_sub_right hlast _)

/-- What stands before others in an increasing list is below its bound by as many. -/
theorem add_length_le {a bound : ℤ} {l : List ℤ} (h : (a :: l).Pairwise (· < ·))
    (hle : ∀ b ∈ a :: l, b ≤ bound) : a + l.length ≤ bound := by
  induction l generalizing a with
  | nil => simpa using hle a mem_cons_self
  | cons b l ih =>
    obtain ⟨ha, hl⟩ := pairwise_cons.mp h
    have hb := ih hl fun c hc => hle c (mem_cons_of_mem a hc)
    have hab := ha b mem_cons_self
    rw [length_cons]
    push_cast
    omega

section

variable (h : Kept maxSeconds last trades dropped parts)
include h

/-- **A ring that is full** loses what is older than it covers. -/
theorem Kept.bounded :
    ∃ dropped', Kept maxSeconds last trades dropped' (parts.drop (parts.length - maxSeconds)) := by
  rw [← take_append_drop (parts.length - maxSeconds) parts] at h
  refine ⟨_, h.drop fun p hp => ?_⟩
  rw [take_append_drop] at h
  obtain ⟨i, hi, rfl⟩ := mem_take_iff_getElem.mp hp
  have hsuffix : parts.drop i = parts[i] :: parts.drop (i + 1) := drop_eq_getElem_cons _
  have hincreasing : ((parts.drop i).map fun p => p.1.second).Pairwise (· < ·) :=
    pairwise_map.mpr h.sound.increasing.drop
  have hle : ∀ b ∈ (parts.drop i).map fun p => p.1.second, b ≤ last := by
    intro b hb
    obtain ⟨p, hp, rfl⟩ := mem_map.mp hb
    exact h.le_last p (mem_of_mem_drop hp)
  rw [hsuffix, map_cons] at hincreasing hle
  have hbound := add_length_le hincreasing hle
  rw [length_map, length_drop] at hbound
  omega

/-- **What is more than an hour old** leaves the ring. -/
theorem Kept.recent :
    ∃ dropped', Kept maxSeconds last trades dropped'
      (parts.dropWhile fun p => p.1.second < last - 3600) := by
  rw [← takeWhile_append_dropWhile (p := fun p => decide (p.1.second < last - 3600))
    (l := parts)] at h
  refine ⟨_, h.drop fun p hp => ?_⟩
  have hold : p.1.second < last - 3600 := by simpa using mem_takeWhile_imp hp
  omega

/-- **One trade more** in the ring. -/
theorem Kept.add (hlast : last ≤ t.second) :
    ∃ dropped' parts', Kept maxSeconds t.second (trades ++ [t]) dropped' parts'
        ∧ Micro.add maxSeconds (parts.map Prod.fst) t = parts'.map Prod.fst := by
  have hpushed : (∀ p ∈ parts, p.1.second < t.second) → ∃ dropped' parts',
      Kept maxSeconds t.second (trades ++ [t]) dropped' parts'
        ∧ pushBounded maxSeconds (Bucket.open t) (parts.map Prod.fst) = parts'.map Prod.fst := by
    intro hnew
    obtain ⟨dropped', hbounded⟩ := (h.push hlast hnew).bounded
    refine ⟨dropped', _, hbounded, ?_⟩
    rw [pushBounded, map_drop, map_append, length_append, length_map]
    rfl
  have hadded : ∃ dropped' parts', Kept maxSeconds t.second (trades ++ [t]) dropped' parts'
      ∧ (match (parts.map Prod.fst).getLast? with
        | some last =>
          if last.second = t.second then
            (parts.map Prod.fst).dropLast ++ [last.add t.price t.quantity]
          else pushBounded maxSeconds (Bucket.open t) (parts.map Prod.fst)
        | none => pushBounded maxSeconds (Bucket.open t) (parts.map Prod.fst))
          = parts'.map Prod.fst := by
    rcases eq_nil_or_concat parts with rfl | ⟨init, p, rfl⟩
    · exact hpushed (by simp)
    rw [concat_eq_append] at h hpushed ⊢
    have hgetLast : ((init ++ [p]).map Prod.fst).getLast? = some p.1 := by simp
    rw [hgetLast]
    dsimp only
    split_ifs with hsame
    · exact ⟨_, _, h.extend hlast hsame, by simp⟩
    · refine hpushed fun q hq => ?_
      have hp : p.1.second < t.second := lt_of_le_of_ne ((h.le_last p (by simp)).trans hlast) hsame
      rcases mem_append.mp hq with hq | hq
      · exact ((pairwise_append.mp h.sound.increasing).2.2 q hq p (by simp)).trans hp
      · rw [mem_singleton.mp hq]
        exact hp
  obtain ⟨dropped', parts', hkept, heq⟩ := hadded
  obtain ⟨dropped'', hrecent⟩ := hkept.recent
  refine ⟨dropped'', _, hrecent, ?_⟩
  show List.dropWhile (fun b : Bucket => decide (b.second < t.second - 3600)) _ = _
  rw [heq, dropWhile_map]
  rfl

end

theorem truncate_mono {a b : ℚ} (h : a ≤ b) : truncate a ≤ truncate b := by
  unfold truncate
  split_ifs with ha hb hb
  · exact Int.floor_le_floor h
  · exact absurd (ha.trans h) hb
  · exact (Int.ceil_le.mpr (by exact_mod_cast (not_le.mp ha).le)).trans (Int.floor_nonneg.mpr hb)
  · exact Int.ceil_le_ceil h

/-- **A run of trades in the order of their times** leaves in the ring what it covers. -/
theorem kept_run (maxSeconds : ℕ) {trades : List Trade}
    (hordered : trades.Pairwise fun a b => a.eventTime ≤ b.eventTime) :
    ∃ dropped parts, run maxSeconds trades = parts.map Prod.fst
      ∧ ∀ last : ℤ, (∀ t ∈ trades, t.second ≤ last) →
        Kept maxSeconds last trades dropped parts := by
  induction trades using List.reverseRecOn with
  | nil => exact ⟨[], [], rfl, fun last _ => ⟨⟨by simp, .nil⟩, rfl, by simp, by simp⟩⟩
  | append_singleton trades t ih =>
    obtain ⟨hbefore, -, hlt⟩ := pairwise_append.mp hordered
    obtain ⟨dropped, parts, hrun, hkept⟩ := ih hbefore
    have hle : ∀ u ∈ trades, u.second ≤ t.second := fun u hu =>
      truncate_mono (hlt u hu t (by simp))
    obtain ⟨dropped', parts', hkept', hadd⟩ := (hkept t.second hle).add le_rfl
    refine ⟨dropped', parts', ?_, fun last hlast => hkept'.advance (hlast t (by simp))⟩
    rw [run, foldl_append, ← run, hrun]
    exact hadd

end Ring

/-- **Windows of trades.** For trades in the order of their times, a window whose seconds the
ring covers gives what its trades give, one by one. -/
theorem window_eq_direct (maxSeconds : ℕ) (trades : List Trade)
    (hordered : trades.Pairwise fun a b => a.eventTime ≤ b.eventTime) (seconds : ℕ) (cutoff : ℚ)
    (hcovered : ∀ last ∈ trades.getLast?, Covered maxSeconds last.second seconds cutoff) :
    window seconds cutoff (run maxSeconds trades)
      = direct (trades.filter fun t => InWindow seconds cutoff t.second) := by
  obtain ⟨dropped, parts, hrun, hkept⟩ := kept_run maxSeconds hordered
  rcases eq_nil_or_concat trades with rfl | ⟨before, last, rfl⟩
  · rfl
  rw [concat_eq_append] at hordered hcovered hrun hkept ⊢
  have hle : ∀ t ∈ before ++ [last], t.second ≤ last.second := by
    intro t ht
    rcases mem_append.mp ht with ht | ht
    · exact truncate_mono ((pairwise_append.mp hordered).2.2 t ht last (by simp))
    · rw [mem_singleton.mp ht]
  have hkept := hkept last.second hle
  have hnone : dropped.filter (fun t => InWindow seconds cutoff t.second) = [] := by
    refine filter_eq_nil_iff.mpr fun t ht => ?_
    rw [decide_eq_true_iff]
    rintro ⟨hlow, -⟩
    have hold : (t.second : ℚ) ≤ last.second - min (maxSeconds : ℚ) 3601 := by
      exact_mod_cast hkept.old t ht
    have hcover : (last.second - min (maxSeconds : ℚ) 3601 : ℚ) ≤ cutoff - seconds := by
      have hcovered := hcovered last (by simp)
      unfold Covered at hcovered
      exact_mod_cast hcovered
    exact absurd (hold.trans hcover) (not_le.mpr hlow)
  have hincreasing : (parts.map Prod.fst).Pairwise fun a b => a.second < b.second :=
    pairwise_map.mpr hkept.sound.increasing
  rw [window, hrun, inside_eq_filter hincreasing, hkept.trades_eq, filter_append, hnone,
    nil_append, ← tradesOf_filter hkept.sound.of fun second => InWindow seconds cutoff second,
    ← metrics_eq_direct (hkept.sound.filter _), filter_map]
  rfl

/-- Three trades in two seconds that are not next to each other. -/
def threeTrades : List Trade :=
  [⟨51 / 5, 100, 1⟩, ⟨107 / 10, 101, 2⟩, ⟨121 / 10, 199 / 2, 1⟩]

/-- Their window of five seconds: up by one, then down by one and a half. -/
theorem window_threeTrades : window 5 (121 / 10) (run 3601 threeTrades)
        = direct (threeTrades.filter fun t => InWindow 5 (121 / 10) t.second)
      ∧ (window 5 (121 / 10) (run 3601 threeTrades)).path = 5 / 2
      ∧ (window 5 (121 / 10) (run 3601 threeTrades)).reversals = 1 := by
  refine ⟨window_eq_direct 3601 threeTrades (by decide +kernel) 5 (121 / 10) ?_, ?_, ?_⟩
  · intro last hlast
    obtain rfl : last = ⟨121 / 10, 199 / 2, 1⟩ := (Option.some.inj hlast).symm
    unfold Covered
    decide +kernel
  · decide +kernel
  · decide +kernel

/-! ## The windows of the engine -/

/-- What the window of an anomaly reads of a bucket. -/
def Bucket.anomaly (b : Bucket) : BtcMonitor.Bucket := ⟨b.second, b.opened, b.high, b.low⟩

/-- The engine's ring is this one, as far as an anomaly reads it. -/
theorem addTrade_map_anomaly (cfg : MonitorConfig) (buckets : List Bucket) (t : Trade) :
    addTrade cfg t.eventTime t.price (buckets.map Bucket.anomaly)
      = (add cfg.ringSize buckets t).map Bucket.anomaly := by
  have hpush : pushBounded cfg.ringSize ⟨t.second, t.price, t.price, t.price⟩
      (buckets.map Bucket.anomaly)
        = (pushBounded cfg.ringSize (Bucket.open t) buckets).map Bucket.anomaly := by
    rw [pushBounded, pushBounded, map_drop, map_append, length_map]
    rfl
  have hdrop : ∀ xs : List Bucket,
      (xs.map Bucket.anomaly).dropWhile (fun b => b.second < t.second - 3600)
        = (xs.dropWhile fun b => b.second < t.second - 3600).map Bucket.anomaly := by
    intro xs
    rw [dropWhile_map]
    rfl
  rcases eq_nil_or_concat buckets with rfl | ⟨init, last, rfl⟩
  · exact (congrArg (List.dropWhile _) hpush).trans (hdrop _)
  · rw [concat_eq_append] at hpush ⊢
    unfold addTrade add
    simp only [map_append, map_cons, map_nil, getLast?_concat, dropLast_concat] at hpush ⊢
    rw [← hdrop]
    refine congrArg (List.dropWhile _) ?_
    show (if last.second = t.second then _ else _) = _
    split_ifs with hsame
    · rw [map_append]
      rfl
    · exact hpush

/-- A window of the engine is one of these, as far as an anomaly reads it. -/
theorem window_map_anomaly (buckets : List Bucket) :
    BtcMonitor.window seconds cutoff (buckets.map Bucket.anomaly)
      = ⟨(window seconds cutoff buckets).buckets, (window seconds cutoff buckets).opened,
          (window seconds cutoff buckets).high, (window seconds cutoff buckets).low⟩ := by
  have hinside : (((buckets.map Bucket.anomaly).reverse.takeWhile fun b =>
      cutoff - seconds < b.second).filter fun b => b.second ≤ cutoff).reverse
        = (inside seconds cutoff buckets).map Bucket.anomaly := by
    rw [inside, ← map_reverse, takeWhile_map, filter_map, map_reverse]
    rfl
  unfold BtcMonitor.window window
  rw [hinside]
  cases inside seconds cutoff buckets with
  | nil => rfl
  | cons first rest => simp [metrics, Bucket.anomaly, Function.comp_def]

end Qt.BtcMonitor.Micro
