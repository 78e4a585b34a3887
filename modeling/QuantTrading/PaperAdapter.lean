import QuantTrading.Lib.Depth
import QuantTrading.Oms
import QuantTrading.OrderBook

/-!
# The paper adapter

Simulated execution, `PaperAdapter` of `qt.execution.simulated`: an order takes
the depth displayed in the book that the adapter was given, level by level, and
the depth that earlier orders took of the same book is gone. With a repository
the results are durable, and an adapter that is started again has them.

A submission is one transaction under the lock of the row of its book. The rows
that only carry locks are left out, and so is the check of stored digests. The
levels of a book are those of a `BookView`, which is what `update_book` is
given.
-/

namespace Qt

open Except List Machine

/-! ## Books and records -/

/-- The content of the book that the adapter was given, the best levels
first. -/
structure PaperBook where
  market : ExecutableMarketSnapshot
  instrument : InstrumentSpec
  fees : FeeSchedule
  bids : List (ℚ × ℚ)
  asks : List (ℚ × ℚ)
deriving DecidableEq

/-- The side of the book that an order takes depth from. -/
def PaperBook.side (book : PaperBook) : Side → List (ℚ × ℚ)
  | .buy => book.asks
  | .sell => book.bids

/-- A fill as the adapter reports it. -/
structure PaperFill where
  intentId : String
  venueTradeId : String
  quantity : ℚ
  price : ℚ
  fee : ℚ
  feeAsset : String
  baseAsset : String
  quoteAsset : String
deriving DecidableEq

/-- A `SubmitResult`, with what the adapter puts in it. -/
structure PaperSubmit where
  status : SubmitStatus
  identity : OrderIdentity
  receivedAtNs : ℕ
  reason : String
deriving DecidableEq

/-- The durable result of a submission. -/
structure PaperRecord where
  intent : OrderIntent
  intentHash : Sha256
  bookHash : Sha256
  fills : List PaperFill
  snapshot : OrderSnapshot
  submit : PaperSubmit
  accountSequence : ℕ

/-- The digests that the adapter takes of intents and books. -/
structure PaperHash where
  intentHash : OrderIntent → Sha256
  bookHash : PaperBook → Sha256

/-- The adapter: the book it was given, the results in order of their creation,
the orders that were canceled, and whether there is a repository. -/
structure PaperAdapter where
  durable : Bool
  book : Option PaperBook
  records : List PaperRecord
  canceled : List String

namespace PaperAdapter

/-- `_levels`: the levels sorted, the best price first. -/
def levels (ls : List PriceLevel) (reverse : Bool) : Except Exc (List (ℚ × ℚ)) := do
  raiseIf (∃ l ∈ ls, l.quantity.val = 0) (.valueError "paper_depth_must_be_positive_and_finite")
  raiseIf (ls = [] ∨ ¬ (ls.map fun l => l.price.val).Nodup)
    (.valueError "paper_depth_must_be_nonempty_and_unique")
  return (OrderBook.items ls).mergeSort fun a b => if reverse then b.1 ≤ a.1 else a.1 ≤ b.1

variable (env : Env)

/-- `set_book`, with the levels of `update_book`: the book, if it is of one
quote and one version. -/
def setBook (market : ExecutableMarketSnapshot) (instrument : InstrumentSpec) (fees : FeeSchedule)
    (bids asks : List PriceLevel) : Except Exc PaperBook := do
  let bids ← levels bids true
  let asks ← levels asks false
  raiseIf (market.bookValid = false ∨ bids.head?.map Prod.fst ≠ some market.bid.val
      ∨ asks.head?.map Prod.fst ≠ some market.ask.val
      ∨ (∃ b ∈ bids.head?, ∃ a ∈ asks.head?, a.1 ≤ b.1)
      ∨ market.venue ≠ instrument.venue ∨ market.instrument ≠ instrument.instrument
      ∨ market.instrumentSpecHash ≠ env.contentHash (.instrument instrument)
      ∨ market.feeScheduleHash ≠ env.contentHash (.fees fees))
    (.valueError "paper_book_quote_or_version_mismatch")
  return { market := market, instrument := instrument, fees := fees, bids := bids, asks := asks }

/-- The quantity that records say was taken at a price of one side of a
book. -/
def used (records : List PaperRecord) (bookHash : Sha256) (side : Side) (price : ℚ) : ℚ :=
  ((((records.filter fun r => r.bookHash = bookHash ∧ r.intent.side = side).flatMap
    PaperRecord.fills).filter fun f => f.price = price).map PaperFill.quantity).sum

/-- `(x // increment) * increment`. -/
def roundDown (increment x : ℚ) : ℚ := ctxMul ⌊x / increment⌋ increment

variable (intent : OrderIntent)

/-- The limit of the order admits the price. -/
def Within (price : ℚ) : Prop :=
  match intent.side with
  | .buy => price ≤ intent.limitPrice
  | .sell => intent.limitPrice ≤ price

instance (intent : OrderIntent) (price : ℚ) : Decidable (Within intent price) := by
  unfold Within
  cases intent.side <;> exact inferInstance

/-- What is left of the levels that the order may take. -/
def available (book : PaperBook) (intent : OrderIntent) (taken : ℚ → ℚ) : List (ℚ × ℚ) :=
  (((book.side intent.side).filter fun l => Within intent l.1).map fun l =>
    (l.1, roundDown book.instrument.quantityIncrement (max 0 (l.2 - taken l.1)))).filter
      fun l => l.2 ≠ 0

def fillFee (book : PaperBook) (executed price : ℚ) : ℚ :=
  ceil (ctxMul
    (ctxMul executed (if book.fees.feeAsset = book.instrument.baseAsset then 1 else price))
    (max 0 book.fees.takerRate.val))

/-- The fill of one level. -/
def fillAt (book : PaperBook) (intent : OrderIntent) (index : ℕ) (price executed : ℚ) :
    PaperFill where
  intentId := intent.intentId
  venueTradeId := "paper:" ++ intent.intentId ++ ":" ++ toString index
  quantity := executed
  price := price
  fee := fillFee book executed price
  feeAsset := book.fees.feeAsset
  baseAsset := book.instrument.baseAsset
  quoteAsset := book.instrument.quoteAsset

/-- The matching loop: the fills, and what remains of the order. -/
def fillLevels (book : PaperBook) (intent : OrderIntent) :
    ℕ → ℚ → List (ℚ × ℚ) → Except Exc (List PaperFill × ℚ)
  | _, remaining, [] => .ok ([], remaining)
  | index, remaining, (price, quantity) :: levels =>
    if roundDown book.instrument.quantityIncrement (min remaining quantity) = 0 then
      fillLevels book intent (index + 1) remaining levels
    else do
      let executed := roundDown book.instrument.quantityIncrement (min remaining quantity)
      raiseIf (book.fees.feeAsset ≠ book.instrument.quoteAsset
        ∧ book.fees.feeAsset ≠ book.instrument.baseAsset)
        (.valueError "paper_fee_asset_unavailable")
      if remaining - executed = 0 then
        return ([fillAt book intent index price executed], 0)
      else
        let (fills, rest) ← fillLevels book intent (index + 1) (remaining - executed) levels
        return (fillAt book intent index price executed :: fills, rest)

/-- `OrderSnapshot(...)`, which validates. -/
def snapshotOf (identity : OrderIdentity) (status : OrderStatus) (quantity : PositiveDecimal)
    (filled : ℚ) (asofNs : ℕ) : Except Exc OrderSnapshot :=
  if h : (Fits filled ∧ 0 ≤ filled) ∧ filled ≤ quantity.val
      ∧ (status = .filled → filled = quantity.val)
      ∧ (status = .partiallyFilled → 0 < filled ∧ filled < quantity.val) then
    .ok {
      identity := identity
      status := status
      settlementStatus := .notRequired
      quantity := quantity
      filledQuantity := ⟨filled, h.1.1, h.1.2⟩
      asofNs := asofNs
      filled_le := h.2.1
      filled_complete := h.2.2.1
      incomplete_of_partiallyFilled := h.2.2.2 }
  else .error (.valueError "bounded_fill")

variable (hash : PaperHash)

/-- The identity of the order at the adapter. -/
def identityOf (intent : OrderIntent) : OrderIdentity where
  venue := intent.venue
  accountId := intent.accountId
  intentId := intent.intentId
  venueOrderId := some ("paper-" ++ String.ofList ((hash.intentHash intent).toList.take 32))

/-- The order is expired, or it is to be filled at once and the depth is not
there. -/
def Rejected (available : List (ℚ × ℚ)) (now : ℕ) : Prop :=
  intent.validUntilNs ≤ now
    ∨ (intent.timeInForce = .fok ∧ (available.map Prod.snd).sum < intent.quantity)

instance (intent : OrderIntent) (available : List (ℚ × ℚ)) (now : ℕ) :
    Decidable (Rejected intent available now) := inferInstanceAs (Decidable (_ ∨ _))

/-- The status of an order after its fills. -/
def statusOf (rejected : Bool) (fills : List PaperFill) (remaining : ℚ) : OrderStatus :=
  if rejected then .rejected
  else if remaining = 0 then .filled
  else if intent.timeInForce = .ioc then .canceled
  else if fills ≠ [] then .partiallyFilled
  else .acknowledged

/-- The fills of an order that is not rejected, and what remains of it. -/
def matchLevels (book : PaperBook) (intent : OrderIntent) (levels : List (ℚ × ℚ)) (now : ℕ) :
    Except Exc (List PaperFill × ℚ) :=
  if Rejected intent levels now then .ok ([], intent.quantity)
  else fillLevels book intent 0 intent.quantity levels

/-- `_match`, against a book; `sequence` is the place among the results of the
account. -/
def match_ (intent : OrderIntent) (book : PaperBook) (previous : List PaperRecord)
    (now sequence : ℕ) : Except Exc PaperRecord := do
  raiseIf (now < book.market.asofNs ∨ 1000000000 < now - book.market.asofNs)
    (.valueError "paper_book_stale")
  raiseIf (intent.venue ≠ book.market.venue ∨ intent.instrument ≠ book.market.instrument
      ∨ intent.feeScheduleHash ≠ env.contentHash (.fees book.fees)
      ∨ intent.instrumentSpecHash ≠ env.contentHash (.instrument book.instrument))
    (.valueError "paper_intent_version_mismatch")
  raiseIf (book.fees.feeBasis ≠ .notional ∨ book.instrument.instrumentType ≠ .spot)
    (.valueError "paper_fee_or_instrument_model_unavailable")
  let levels := available book intent (used previous (hash.bookHash book) intent.side)
  let rejected := Rejected intent levels now
  let (fills, remaining) ← matchLevels book intent levels now
  let snapshot ← snapshotOf (identityOf hash intent)
    (statusOf intent rejected fills remaining) intent.quantity (intent.quantity - remaining) now
  return {
    intent := intent
    intentHash := hash.intentHash intent
    bookHash := hash.bookHash book
    fills := fills
    snapshot := snapshot
    submit :=
      { status := if rejected then .rejected else .accepted
        identity := identityOf hash intent
        receivedAtNs := now
        reason := "paper_depth_only" }
    accountSequence := sequence }

variable (s : PaperAdapter)

def lookup (intentId : String) : Option PaperRecord :=
  s.records.find? fun r => r.intent.intentId = intentId

/-- The place of the next result of an account. -/
def nextSequence (accountId : String) : ℕ :=
  1 + ((s.records.filter fun r => r.intent.accountId = accountId).map
    PaperRecord.accountSequence).foldl max 0

def submit (intent : OrderIntent) (now : ℕ) : Except Exc (PaperSubmit × PaperAdapter) :=
  match s.lookup intent.intentId with
  | some existing => do
    raiseIf (existing.intentHash ≠ hash.intentHash intent)
      (.conflict "paper_intent_identity_conflict")
    return (existing.submit, s)
  | none =>
    match s.book with
    | none => .error (.valueError "paper_requires_supplied_depth")
    | some book => do
      let record ← match_ env hash intent book s.records now (s.nextSequence intent.accountId)
      return (record.submit, { s with records := s.records ++ [record] })

/-! ## Runs -/

/-- The calls that may change what depth is left. -/
inductive Label
  | updateBook (bids asks : List PriceLevel) (market : ExecutableMarketSnapshot)
      (instrument : InstrumentSpec) (fees : FeeSchedule)
  | submit (intent : OrderIntent) (now : ℕ)
  | restart

/-- The adapter is started again from its repository. Without one there is no
durable state to start from. -/
def restart : PaperAdapter :=
  if s.durable then { s with book := none } else s

def step : Label → PaperAdapter
  | .updateBook bids asks market instrument fees =>
    match setBook env market instrument fees bids asks with
    | .ok book => { s with book := some book }
    | .error _ => s
  | .submit intent now =>
    match s.submit env hash intent now with
    | .ok (_, s') => s'
    | .error _ => s
  | .restart => s.restart

/-- A new adapter, over an empty repository or over none. -/
def new (durable : Bool) : PaperAdapter where
  durable := durable
  book := none
  records := []
  canceled := []

/-- **The adapter after some calls.** -/
def after (durable : Bool) (ls : List Label) : PaperAdapter :=
  Machine.run (step env hash) (new durable) ls

/-! ## Rounding -/

open SigDigits in
/-- **Rounding a quantity down to the increment is exact.** -/
theorem roundDown_eq (increment : PositiveDecimal) {x : ℚ} (hx : 0 ≤ x) (hlt : x < 10 ^ 20) :
    roundDown increment x = Depth.multiple increment.val x := by
  have hle : Depth.multiple increment.val x ≤ x := Depth.multiple_le increment.pos x
  have hnonneg : 0 ≤ Depth.multiple increment.val x := Depth.multiple_nonneg increment.pos hx
  have hgrid : OnGrid 18 (Depth.multiple increment.val x) := by
    have hint : OnGrid 0 ((⌊x / increment.val⌋ : ℤ) : ℚ) :=
      onGrid_iff.mpr ⟨⌊x / increment.val⌋, by simp⟩
    have hmul := hint.mul increment.fits.1
    rwa [zero_add] at hmul
  have hfits : Fits (Depth.multiple increment.val x) := by
    refine ⟨hgrid, ?_⟩
    rw [abs_of_nonneg hnonneg]
    exact hle.trans_lt hlt
  exact hfits.roundSig_eq

/-- What is left to take is a positive multiple of the increment, and no more
than what is displayed less what was taken. -/
theorem mem_available {book : PaperBook} {intent : OrderIntent} {taken : ℚ → ℚ} {p q : ℚ}
    (hlevel : ∀ l ∈ book.side intent.side, 0 < l.2 ∧ l.2 < 10 ^ 20) (htaken : ∀ p, 0 ≤ taken p) :
    (p, q) ∈ available book intent taken ↔ Within intent p ∧ ∃ d, (p, d) ∈ book.side intent.side ∧
      q = Depth.multiple book.instrument.quantityIncrement.val (max 0 (d - taken p)) ∧ q ≠ 0 := by
  have hround : ∀ d, (p, d) ∈ book.side intent.side →
      roundDown book.instrument.quantityIncrement (max 0 (d - taken p))
        = Depth.multiple book.instrument.quantityIncrement.val (max 0 (d - taken p)) := by
    intro d hd
    refine roundDown_eq _ (le_max_left _ _) (max_lt (by norm_num) ?_)
    exact (sub_le_self d (htaken p)).trans_lt (hlevel _ hd).2
  unfold available
  simp only [mem_filter, mem_map, decide_eq_true_eq, Prod.mk.injEq]
  constructor
  · rintro ⟨⟨⟨p', d⟩, ⟨hmem, hwithin⟩, rfl, rfl⟩, hne⟩
    rw [hround d hmem] at hne ⊢
    exact ⟨hwithin, d, hmem, rfl, hne⟩
  · rintro ⟨hwithin, d, hmem, rfl, hne⟩
    exact ⟨⟨(p, d), ⟨hmem, hwithin⟩, rfl, hround d hmem⟩, hne⟩

variable {fills : List PaperFill}

theorem fillLevels_ok {book : PaperBook} {intent : OrderIntent} {index : ℕ} {remaining rest : ℚ}
    {levels : List (ℚ × ℚ)} (hr : 0 ≤ remaining) (hlt : remaining < 10 ^ 20)
    (hq : ∀ l ∈ levels, 0 ≤ l.2)
    (h : fillLevels book intent index remaining levels = .ok (fills, rest)) :
    Depth.walk book.instrument.quantityIncrement.val remaining levels
      = (fills.map fun f => (f.price, f.quantity), rest) := by
  induction levels generalizing index remaining fills rest with
  | nil =>
    cases h
    rfl
  | cons l levels ih =>
    obtain ⟨p, q⟩ := l
    have hmin : 0 ≤ min remaining q := le_min hr (hq _ mem_cons_self)
    have htail : ∀ l ∈ levels, 0 ≤ l.2 := fun l hl => hq l (mem_cons_of_mem _ hl)
    have hround := roundDown_eq book.instrument.quantityIncrement hmin
      ((min_le_left remaining q).trans_lt hlt)
    unfold fillLevels at h
    unfold Depth.walk
    rw [hround] at h
    split at h
    next h0 =>
      rw [if_pos h0]
      exact ih hr hlt htail h
    next h0 =>
      rw [if_neg h0]
      obtain ⟨-, h⟩ := of_raiseIf h
      split at h
      next hdone =>
        rw [if_pos hdone]
        cases h
        rfl
      next hdone =>
        rw [if_neg hdone]
        obtain ⟨⟨fills', rest'⟩, htailfills, h⟩ := of_bind h
        cases h
        have hle : Depth.multiple book.instrument.quantityIncrement.val (min remaining q) ≤ remaining :=
          (Depth.multiple_le book.instrument.quantityIncrement.pos _).trans (min_le_left remaining q)
        have hwalk := ih (sub_nonneg.mpr hle) ((sub_le_self _ (Depth.multiple_nonneg
          book.instrument.quantityIncrement.pos hmin)).trans_lt hlt) htail htailfills
        rw [hwalk]
        rfl

/-! ## Books -/

/-- The first price is better than the second, for an order on the side. -/
def Better (side : Side) (p p' : ℚ) : Prop :=
  match side with
  | .buy => p < p'
  | .sell => p' < p

/-- **A book as `set_book` makes it**: its prices differ and are sorted, the
best one first, and its quantities are positive amounts of money. -/
structure WellFormed (book : PaperBook) : Prop where
  nodup : ∀ side, ((book.side side).map Prod.fst).Nodup
  sorted : ∀ side, (book.side side).Pairwise fun l l' => Better side l.1 l'.1
  level : ∀ side, ∀ l ∈ book.side side, 0 < l.2 ∧ l.2 < 10 ^ 20

theorem levels_ok {ls : List PriceLevel} {reverse : Bool} {levels' : List (ℚ × ℚ)}
    (h : levels ls reverse = .ok levels') :
    (levels'.map Prod.fst).Nodup ∧ (∀ l ∈ levels', 0 < l.2 ∧ l.2 < 10 ^ 20) ∧
      levels'.Pairwise fun l l' => if reverse then l'.1 ≤ l.1 else l.1 ≤ l'.1 := by
  unfold levels at h
  obtain ⟨hzero, h⟩ := of_raiseIf h
  obtain ⟨hunique, h⟩ := of_raiseIf h
  rw [not_or, not_not] at hunique
  obtain rfl := ok.inj h
  refine ⟨?_, ?_, ?_⟩
  · refine ((mergeSort_perm _ _).map Prod.fst).nodup_iff.mpr ?_
    rw [OrderBook.items, map_map]
    exact hunique.2
  · intro l hl
    obtain ⟨level, hlevel, rfl⟩ := mem_map.mp ((mergeSort_perm _ _).mem_iff.mp hl)
    refine ⟨level.quantity.nonneg.lt_of_ne fun h0 => hzero ⟨level, hlevel, h0.symm⟩, ?_⟩
    exact (le_abs_self _).trans_lt level.quantity.fits.2
  · have htrans : ∀ a b c : ℚ × ℚ, decide (if reverse then b.1 ≤ a.1 else a.1 ≤ b.1) →
        decide (if reverse then c.1 ≤ b.1 else b.1 ≤ c.1) →
          decide (if reverse then c.1 ≤ a.1 else a.1 ≤ c.1) := by
      intro a b c h h'
      cases reverse
      · exact decide_eq_true ((of_decide_eq_true h : a.1 ≤ b.1).trans (of_decide_eq_true h'))
      · exact decide_eq_true ((of_decide_eq_true h' : c.1 ≤ b.1).trans (of_decide_eq_true h))
    have htotal : ∀ a b : ℚ × ℚ, decide (if reverse then b.1 ≤ a.1 else a.1 ≤ b.1) ||
        decide (if reverse then a.1 ≤ b.1 else b.1 ≤ a.1) := by
      intro a b
      rw [Bool.or_eq_true, decide_eq_true_eq, decide_eq_true_eq]
      cases reverse
      · exact le_total a.1 b.1
      · exact le_total b.1 a.1
    have hle : (fun a b : ℚ × ℚ => if reverse then decide (b.1 ≤ a.1) else decide (a.1 ≤ b.1))
        = fun a b => decide (if reverse then b.1 ≤ a.1 else a.1 ≤ b.1) := by
      funext a b
      cases reverse <;> rfl
    rw [hle]
    exact (pairwise_mergeSort htrans htotal (OrderBook.items ls)).imp of_decide_eq_true

variable {env}

/-- **What `set_book` makes is well formed.** -/
theorem setBook_ok {market : ExecutableMarketSnapshot} {instrument : InstrumentSpec}
    {fees : FeeSchedule} {bids asks : List PriceLevel} {book : PaperBook}
    (h : setBook env market instrument fees bids asks = .ok book) : WellFormed book := by
  obtain ⟨bids', hbids, h⟩ := of_bind h
  obtain ⟨asks', hasks, h⟩ := of_bind h
  obtain ⟨-, h⟩ := of_raiseIf h
  obtain rfl := ok.inj h
  obtain ⟨hbn, hbl, hbs⟩ := levels_ok hbids
  obtain ⟨han, hal, has⟩ := levels_ok hasks
  refine ⟨?_, ?_, ?_⟩
  · rintro (_ | _)
    · exact han
    · exact hbn
  · rintro (_ | _)
    · refine (has.and (pairwise_map.mp han)).imp fun hpair => ?_
      exact lt_of_le_of_ne (by simpa using hpair.1) hpair.2
    · refine (hbs.and (pairwise_map.mp hbn)).imp fun hpair => ?_
      exact lt_of_le_of_ne (by simpa using hpair.1) hpair.2.symm
  · rintro (_ | _)
    · exact hal
    · exact hbl

/-! ## What was taken -/

/-- The quantity that fills took at a price. -/
def takenAt (fills : List PaperFill) (price : ℚ) : ℚ :=
  ((fills.filter fun f => f.price = price).map PaperFill.quantity).sum

/-- **A result adds its fills** to what was taken of its side of its book. -/
theorem used_append (records : List PaperRecord) (r : PaperRecord) (bookHash : Sha256) (side : Side)
    (price : ℚ) : used (records ++ [r]) bookHash side price = used records bookHash side price +
      if r.bookHash = bookHash ∧ r.intent.side = side then takenAt r.fills price else 0 := by
  unfold used takenAt
  rw [filter_append, flatMap_append, filter_append, map_append, sum_append]
  congr 1
  by_cases h : r.bookHash = bookHash ∧ r.intent.side = side <;> simp [h]

/-- At prices that differ, what was taken at one is the quantity of its fill. -/
theorem takenAt_of_mem (hnodup : (fills.map PaperFill.price).Nodup) {f : PaperFill} (hf : f ∈ fills)
    : takenAt fills f.price = f.quantity := by
  have hfilter : fills.filter (fun g => g.price = f.price) = [f] := by
    induction fills with
    | nil => exact nomatch hf
    | cons g fills ih =>
      obtain ⟨hnotin, hnodup'⟩ := nodup_cons.mp hnodup
      obtain rfl | hmem := mem_cons.mp hf
      · have hrest : fills.filter (fun g => g.price = f.price) = [] := by
          refine filter_eq_nil_iff.mpr fun g hg hprice => hnotin ?_
          rw [← of_decide_eq_true hprice]
          exact mem_map_of_mem hg
        simp [hrest]
      · have hne : g.price ≠ f.price := fun he => hnotin (he ▸ mem_map_of_mem hmem)
        rw [filter_cons_of_neg (by simpa using hne)]
        exact ih hnodup' hmem
  rw [takenAt, hfilter, map_singleton, sum_singleton]

theorem takenAt_of_notMem {price : ℚ} (h : price ∉ fills.map PaperFill.price) :
    takenAt fills price = 0 := by
  unfold takenAt
  rw [filter_eq_nil_iff.mpr]
  · rfl
  · intro f hf hprice
    exact h (of_decide_eq_true hprice ▸ mem_map_of_mem hf)

theorem takenAt_nonneg (h : ∀ f ∈ fills, 0 < f.quantity) (price : ℚ) : 0 ≤ takenAt fills price := by
  refine sum_nonneg fun x hx => ?_
  obtain ⟨f, hf, rfl⟩ := mem_map.mp hx
  exact (h f (mem_filter.mp hf).1).le

/-! ## A submission -/

/-- **A result that was matched** against a book, where earlier results had
taken their part of it. -/
structure Matched (hash : PaperHash) (before : List PaperRecord) (r : PaperRecord)
    (book : PaperBook) : Prop where
  bookHash : r.bookHash = hash.bookHash book
  intentHash : r.intentHash = hash.intentHash r.intent
  walked : r.snapshot.status ≠ .rejected → ∃ rest,
    Depth.walk book.instrument.quantityIncrement.val r.intent.quantity.val
      (available book r.intent (used before (hash.bookHash book) r.intent.side))
        = (r.fills.map fun f => (f.price, f.quantity), rest) ∧
    r.snapshot.filledQuantity.val = r.intent.quantity.val - rest ∧
    (rest = 0 → r.snapshot.status = .filled)
  enough : r.snapshot.status ≠ .rejected → r.intent.timeInForce = .fok → r.intent.quantity.val
    ≤ Depth.total (available book r.intent (used before (hash.bookHash book) r.intent.side))
  rejected : r.snapshot.status = .rejected → r.fills = [] ∧ r.snapshot.filledQuantity.val = 0
  quantity : r.snapshot.quantity = r.intent.quantity

theorem snapshotOf_ok {identity : OrderIdentity} {status : OrderStatus} {quantity : PositiveDecimal}
    {filled : ℚ} {asofNs : ℕ} {snapshot : OrderSnapshot}
    (h : snapshotOf identity status quantity filled asofNs = .ok snapshot) :
    snapshot.status = status ∧ snapshot.quantity = quantity ∧
      snapshot.filledQuantity.val = filled ∧ snapshot.identity = identity := by
  unfold snapshotOf at h
  split at h
  · cases h
    exact ⟨rfl, rfl, rfl, rfl⟩
  · cases h

variable (fills)

theorem statusOf_ne_rejected (remaining : ℚ) :
    statusOf intent false fills remaining ≠ .rejected := by
  unfold statusOf
  simp only [Bool.false_eq_true, if_false]
  split_ifs <;> simp

theorem available_nonneg {book : PaperBook} (hb : WellFormed book) {intent : OrderIntent}
    {taken : ℚ → ℚ} (htaken : ∀ p, 0 ≤ taken p) : ∀ l ∈ available book intent taken, 0 < l.2 ∧
      Depth.IsMultiple book.instrument.quantityIncrement.val l.2 := by
  rintro ⟨p, q⟩ hl
  obtain ⟨-, d, -, rfl, hne⟩ := (mem_available (hb.level intent.side) htaken).mp hl
  exact ⟨(Depth.multiple_nonneg book.instrument.quantityIncrement.pos (le_max_left _ _)).lt_of_ne'
    hne, Depth.isMultiple_multiple _ _⟩

variable {hash}

/-- **What `_match` returns** is matched. -/
theorem match_ok {intent : OrderIntent} {book : PaperBook} {previous : List PaperRecord}
    {now sequence : ℕ} {r : PaperRecord} (hb : WellFormed book)
    (hused : ∀ p, 0 ≤ used previous (hash.bookHash book) intent.side p)
    (h : match_ env hash intent book previous now sequence = .ok r) :
    r.intent = intent ∧ Matched hash previous r book := by
  unfold match_ at h
  obtain ⟨-, h⟩ := of_raiseIf h
  obtain ⟨-, h⟩ := of_raiseIf h
  obtain ⟨-, h⟩ := of_raiseIf h
  dsimp only at h
  obtain ⟨⟨fills, remaining⟩, hfills, h⟩ := of_bind h
  obtain ⟨snapshot, hsnapshot, h⟩ := of_bind h
  unfold matchLevels at hfills
  obtain ⟨hstatus, hquantity, hfilled, -⟩ := snapshotOf_ok hsnapshot
  cases h
  refine ⟨rfl, rfl, rfl, ?_, ?_, ?_, hquantity⟩
  · intro hlive
    by_cases hrejected : Rejected intent
        (available book intent (used previous (hash.bookHash book) intent.side)) now
    · refine absurd ?_ hlive
      rw [show snapshot.status = _ from hstatus, decide_eq_true hrejected]
      rfl
    · rw [if_neg hrejected] at hfills
      refine ⟨remaining, ?_, hfilled, fun hzero => ?_⟩
      · exact fillLevels_ok intent.quantity.pos.le ((le_abs_self _).trans_lt intent.quantity.fits.2)
          (fun l hl => (available_nonneg hb hused l hl).1.le) hfills
      · rw [show snapshot.status = _ from hstatus, decide_eq_false hrejected]
        simp only [statusOf, Bool.false_eq_true, if_false, if_pos hzero]
  · intro hlive hfok
    by_contra hshort
    have hrejected : Rejected intent
        (available book intent (used previous (hash.bookHash book) intent.side)) now :=
      .inr ⟨hfok, not_le.mp hshort⟩
    refine hlive ?_
    rw [show snapshot.status = _ from hstatus, decide_eq_true hrejected]
    rfl
  · intro hstat
    by_cases hrejected : Rejected intent
        (available book intent (used previous (hash.bookHash book) intent.side)) now
    · rw [if_pos hrejected] at hfills
      cases hfills
      exact ⟨rfl, hfilled.trans (sub_self _)⟩
    · rw [show snapshot.status = _ from hstatus, decide_eq_false hrejected] at hstat
      exact absurd hstat (statusOf_ne_rejected intent fills remaining)

section Matched

variable {hash : PaperHash} {before : List PaperRecord} {r : PaperRecord} {book : PaperBook}

/-- The prices that are available are prices of the side, in their order. -/
theorem available_sublist (book : PaperBook) (intent : OrderIntent) (taken : ℚ → ℚ) :
    ((available book intent taken).map Prod.fst).Sublist
      ((book.side intent.side).map Prod.fst) := by
  have hfilter := (filter_sublist (p := fun l : ℚ × ℚ => decide (Within intent l.1))
    (l := book.side intent.side)).map Prod.fst
  refine List.Sublist.trans (List.Sublist.map Prod.fst filter_sublist) ?_
  rw [map_map]
  exact hfilter

variable (h : Matched hash before r book)
include h

/-- **A fill** is within the limit, a positive multiple of the increment, and at
a level that displays as much beyond what was taken before. -/
theorem Matched.fill (hb : WellFormed book)
    (hused : ∀ p, 0 ≤ used before (hash.bookHash book) r.intent.side p) {f : PaperFill}
    (hf : f ∈ r.fills) : Within r.intent f.price ∧ 0 < f.quantity ∧
      Depth.IsMultiple book.instrument.quantityIncrement.val f.quantity ∧
      ∃ d, (f.price, d) ∈ book.side r.intent.side ∧
        f.quantity ≤ d - used before (hash.bookHash book) r.intent.side f.price := by
  have hlive : r.snapshot.status ≠ .rejected := by
    intro hrejected
    rw [(h.rejected hrejected).1] at hf
    exact nomatch hf
  obtain ⟨rest, hwalk, -⟩ := h.walked hlive
  have hmem : (f.price, f.quantity) ∈ (Depth.walk book.instrument.quantityIncrement.val
      r.intent.quantity.val (available book r.intent
        (used before (hash.bookHash book) r.intent.side))).1 := by
    rw [hwalk]
    exact mem_map.mpr ⟨f, hf, rfl⟩
  obtain ⟨hmultiple, hpos, q, hq, hle⟩ := Depth.walk_mem book.instrument.quantityIncrement.pos
    r.intent.quantity.pos.le (fun l hl => (available_nonneg hb hused l hl).1.le) hmem
  obtain ⟨hwithin, d, hd, rfl, -⟩ := (mem_available (hb.level r.intent.side) hused).mp hq
  refine ⟨hwithin, hpos, hmultiple, d, hd, ?_⟩
  have hmax := hle.trans (Depth.multiple_le book.instrument.quantityIncrement.pos _)
  exact (le_max_iff.mp hmax).resolve_left (not_le.mpr hpos)

theorem Matched.nodup (hb : WellFormed book) :
    (r.fills.map PaperFill.price).Nodup := by
  by_cases hrejected : r.snapshot.status = .rejected
  · rw [(h.rejected hrejected).1]
    exact nodup_nil
  · obtain ⟨rest, hwalk, -⟩ := h.walked hrejected
    have hsub := (Depth.walk_sublist book.instrument.quantityIncrement.val r.intent.quantity.val
      (available book r.intent (used before (hash.bookHash book) r.intent.side))).trans
        (available_sublist _ _ _)
    rw [hwalk, map_map] at hsub
    exact (hb.nodup r.intent.side).sublist hsub

/-- **The fills make up the filled quantity.** -/
theorem Matched.total :
    (r.fills.map PaperFill.quantity).sum = r.snapshot.filledQuantity.val := by
  by_cases hrejected : r.snapshot.status = .rejected
  · rw [(h.rejected hrejected).1, (h.rejected hrejected).2]
    rfl
  · obtain ⟨rest, hwalk, hfilled, -⟩ := h.walked hrejected
    have htotal := Depth.walk_total book.instrument.quantityIncrement.val r.intent.quantity.val
      (available book r.intent (used before (hash.bookHash book) r.intent.side))
    rw [hwalk] at htotal
    rw [hfilled, ← htotal, add_sub_cancel_right, Depth.total, map_map]
    rfl

/-- **The best price first**: below a level that was filled, less than the
increment is left of every better one. -/
theorem Matched.best_first (hb : WellFormed book)
    (hused : ∀ p, 0 ≤ used before (hash.bookHash book) r.intent.side p) {f : PaperFill}
    (hf : f ∈ r.fills) {l : ℚ × ℚ} (hl : l ∈ book.side r.intent.side)
    (hbetter : Better r.intent.side l.1 f.price) :
    l.2 - (used before (hash.bookHash book) r.intent.side l.1 + takenAt r.fills l.1)
      < book.instrument.quantityIncrement.val := by
  have hinc := book.instrument.quantityIncrement.pos
  have hfills : ∀ g ∈ r.fills, 0 < g.quantity := fun g hg => (h.fill hb hused hg).2.1
  have hlive : r.snapshot.status ≠ .rejected := by
    intro hrejected
    rw [(h.rejected hrejected).1] at hf
    exact nomatch hf
  set taken := used before (hash.bookHash book) r.intent.side with htaken
  have hlt := (le_max_right 0 (l.2 - taken l.1)).trans_lt (Depth.lt_multiple_add hinc _)
  by_cases hzero : Depth.multiple book.instrument.quantityIncrement.val (max 0 (l.2 - taken l.1)) = 0
  · -- nothing was left of the better level
    rw [hzero, zero_add] at hlt
    calc l.2 - (taken l.1 + takenAt r.fills l.1) ≤ l.2 - taken l.1 :=
          sub_le_sub_left (le_add_of_nonneg_right (takenAt_nonneg hfills l.1)) l.2
      _ < _ := hlt
  · -- the better level comes before the one that was filled, and is taken whole
    obtain ⟨rest, hwalk, -⟩ := h.walked hlive
    obtain ⟨hwithin, -⟩ := h.fill hb hused hf
    have hwithin' : Within r.intent l.1 := by
      revert hwithin hbetter
      unfold Within Better
      cases r.intent.side
      · exact fun hbetter hwithin => hbetter.le.trans hwithin
      · exact fun hbetter hwithin => hwithin.trans hbetter.le
    have hmem : (l.1, Depth.multiple book.instrument.quantityIncrement.val
        (max 0 (l.2 - taken l.1))) ∈ available book r.intent taken :=
      (mem_available (hb.level r.intent.side) hused).mpr ⟨hwithin', l.2, hl, rfl, hzero⟩
    have hfwalk : (f.price, f.quantity) ∈ (Depth.walk book.instrument.quantityIncrement.val
        r.intent.quantity.val (available book r.intent taken)).1 := by
      rw [hwalk]
      exact mem_map.mpr ⟨f, hf, rfl⟩
    obtain ⟨-, -, q, hq, -⟩ := Depth.walk_mem hinc r.intent.quantity.pos.le
      (fun l hl => (available_nonneg hb hused l hl).1.le) hfwalk
    have hsorted : (available book r.intent taken).Pairwise
        fun l l' => Better r.intent.side l.1 l'.1 := by
      refine pairwise_map.mp (List.Pairwise.sublist (available_sublist _ _ _) ?_)
      exact pairwise_map.mpr (hb.sorted r.intent.side)
    have hnodup := (hb.nodup r.intent.side).sublist (available_sublist book r.intent taken)
    obtain ⟨front, back, hsplit⟩ := append_of_mem hmem
    have hirrefl : ∀ p p', Better r.intent.side p p' → ¬ Better r.intent.side p' p := by
      unfold Better
      cases r.intent.side
      · exact fun p p' h h' => lt_asymm h h'
      · exact fun p p' h h' => lt_asymm h h'
    have hback : (f.price, q) ∈ back := by
      rw [hsplit] at hq hsorted
      obtain hfront | hrest := mem_append.mp hq
      · have hworse := (pairwise_append.mp hsorted).2.2 _ hfront _ mem_cons_self
        exact absurd hworse (hirrefl _ _ hbetter)
      · obtain hhead | hback := mem_cons.mp hrest
        · have hsame : f.price = l.1 := congrArg Prod.fst hhead
          rw [hsame] at hbetter
          exact absurd hbetter (hirrefl _ _ hbetter)
        · exact hback
    have hwhole := Depth.walk_best_first hinc r.intent.quantity.pos.le
      (hsplit ▸ available_nonneg hb hused) (hsplit ▸ hnodup) hback (hsplit ▸ hfwalk)
    rw [← hsplit, hwalk] at hwhole
    obtain ⟨g, hg, hgl⟩ := mem_map.mp hwhole
    obtain ⟨hprice, hquantity⟩ := Prod.mk.inj hgl
    have htake := takenAt_of_mem (h.nodup hb) hg
    rw [hprice, hquantity] at htake
    rw [htake, ← sub_sub]
    exact sub_lt_iff_lt_add'.mpr hlt

/-- **An order to be filled at once** is filled completely, or rejected without
a fill. -/
theorem Matched.fok (hb : WellFormed book)
    (hused : ∀ p, 0 ≤ used before (hash.bookHash book) r.intent.side p)
    (hmultiple : Depth.IsMultiple book.instrument.quantityIncrement.val r.intent.quantity.val)
    (hfok : r.intent.timeInForce = .fok) :
    (r.snapshot.status = .filled ∧ (r.fills.map PaperFill.quantity).sum = r.intent.quantity.val) ∨
      (r.snapshot.status = .rejected ∧ r.fills = []) := by
  by_cases hrejected : r.snapshot.status = .rejected
  · exact .inr ⟨hrejected, (h.rejected hrejected).1⟩
  · obtain ⟨rest, hwalk, hfilled, hstatus⟩ := h.walked hrejected
    have hrest : rest = 0 := by
      have hcomplete := Depth.walk_complete book.instrument.quantityIncrement.pos
        r.intent.quantity.pos.le hmultiple (fun l hl => (available_nonneg hb hused l hl).imp_left le_of_lt)
        (h.enough hrejected hfok)
      rwa [hwalk] at hcomplete
    refine .inl ⟨hstatus hrest, ?_⟩
    rw [h.total, hfilled, hrest, sub_zero]

end Matched

/-! ## Runs of the adapter -/

section Runs

variable (env : Env) (hash : PaperHash)

/-- The book that a call gives the adapter. -/
def Label.book : Label → Option PaperBook
  | .updateBook bids asks market instrument fees =>
    (setBook env market instrument fees bids asks).toOption
  | .submit _ _ | .restart => none

/-- The books that a run gives the adapter. -/
def books (ls : List Label) : List PaperBook := ls.filterMap (Label.book env)

/-- **What the adapter keeps**, of books that were given to it. -/
structure Sound (s : PaperAdapter) (bs : List PaperBook) : Prop where
  book : ∀ b ∈ s.book, b ∈ bs
  wellFormed : ∀ b ∈ bs, WellFormed b
  matched : ∀ before r later, s.records = before ++ r :: later → ∃ b ∈ bs, Matched hash before r b
  positive : ∀ r ∈ s.records, ∀ f ∈ r.fills, 0 < f.quantity
  unique : (s.records.map fun r => r.intent.intentId).Nodup

variable {env hash}

theorem used_nonneg {records : List PaperRecord} (h : ∀ r ∈ records, ∀ f ∈ r.fills, 0 < f.quantity)
    (bookHash : Sha256) (side : Side) (price : ℚ) : 0 ≤ used records bookHash side price := by
  refine sum_nonneg fun x hx => ?_
  obtain ⟨f, hf, rfl⟩ := mem_map.mp hx
  obtain ⟨r, hr, hfr⟩ := mem_flatMap.mp (mem_filter.mp hf).1
  exact (h r (mem_filter.mp hr).1 f hfr).le

variable {s : PaperAdapter}

/-- What `submit` does, where it returns. -/
theorem submit_ok {s' : PaperAdapter} {intent : OrderIntent} {now : ℕ} {result : PaperSubmit}
    (h : s.submit env hash intent now = .ok (result, s')) :
    (∃ r, s.lookup intent.intentId = some r ∧ r.intentHash = hash.intentHash intent ∧
      result = r.submit ∧ s' = s) ∨
    (∃ b r, s.lookup intent.intentId = none ∧ s.book = some b ∧
      match_ env hash intent b s.records now (s.nextSequence intent.accountId) = .ok r ∧
      result = r.submit ∧ s' = { s with records := s.records ++ [r] }) := by
  unfold submit at h
  split at h
  next r hr =>
    obtain ⟨hsame, h⟩ := of_raiseIf h
    cases h
    exact .inl ⟨r, hr, not_not.mp hsame, rfl, rfl⟩
  next hnone =>
    split at h
    · cases h
    next b hb =>
      obtain ⟨r, hr, h⟩ := of_bind h
      cases h
      exact .inr ⟨b, r, hnone, hb, hr, rfl, rfl⟩

variable {bs : List PaperBook}

theorem Sound.mono (h : Sound hash s bs) (bs' : List PaperBook) (hbs : ∀ b ∈ bs', WellFormed b) :
    Sound hash s (bs ++ bs') where
  book := fun b hb => mem_append_left _ (h.book b hb)
  wellFormed := fun b hb => (mem_append.mp hb).elim (h.wellFormed b) (hbs b)
  matched := fun before r later hsplit =>
    have ⟨b, hb, hm⟩ := h.matched before r later hsplit
    ⟨b, mem_append_left _ hb, hm⟩
  positive := h.positive
  unique := h.unique

variable {r : PaperRecord}

/-- **A matched result joins the records.** -/
theorem Sound.record (h : Sound hash s bs) {intent : OrderIntent} {b : PaperBook} {now sequence : ℕ}
    (hfresh : s.lookup intent.intentId = none) (hb : s.book = some b)
    (hmatch : match_ env hash intent b s.records now sequence = .ok r) :
    Sound hash { s with records := s.records ++ [r] } bs := by
  have hbmem : b ∈ bs := h.book b hb
  have hused := used_nonneg h.positive (hash.bookHash b)
  obtain ⟨rfl, hm⟩ := match_ok (h.wellFormed b hbmem) (hused _) hmatch
  refine ⟨h.book, h.wellFormed, ?_, ?_, ?_⟩
  · intro before r' later hsplit
    obtain ⟨rfl, rfl, rfl⟩ | ⟨later', hlater, hold⟩ : (before = s.records ∧ r' = r ∧ later = []) ∨
          ∃ later', later = later' ++ [r] ∧ s.records = before ++ r' :: later' := by
      have hsplit : s.records ++ [r] = before ++ r' :: later := hsplit
      rcases eq_nil_or_concat later with rfl | ⟨later', last, rfl⟩
      · obtain ⟨hbefore, hlast⟩ := append_inj' hsplit rfl
        exact .inl ⟨hbefore.symm, (singleton_inj.mp hlast).symm, rfl⟩
      · rw [concat_eq_append, ← cons_append, ← append_assoc] at hsplit
        obtain ⟨hbefore, hlast⟩ := append_inj' hsplit rfl
        exact .inr ⟨later', by rw [concat_eq_append, singleton_inj.mp hlast], hbefore⟩
    · exact ⟨b, hbmem, hm⟩
    · exact h.matched before r' later' hold
  · intro r' hr' f hf
    obtain hold | hnew := mem_append.mp hr'
    · exact h.positive r' hold f hf
    · obtain rfl := mem_singleton.mp hnew
      exact (hm.fill (h.wellFormed b hbmem) (hused _) hf).2.1
  · rw [map_append, map_singleton]
    refine nodup_append.mpr ⟨h.unique, nodup_singleton _, ?_⟩
    rintro _ hid _ hid' rfl
    obtain ⟨r', hr', hsame⟩ := mem_map.mp hid
    have hnone := List.find?_eq_none.mp hfresh r' hr'
    exact hnone (decide_eq_true (hsame.trans (mem_singleton.mp hid')))

/-- **Every call keeps the invariant**, with the book that it brings. -/
theorem Sound.step (h : Sound hash s bs) (l : Label) :
    Sound hash (step env hash s l) (bs ++ (l.book env).toList) := by
  cases l with
  | updateBook bids asks market instrument fees =>
    simp only [PaperAdapter.step, Label.book]
    cases hset : setBook env market instrument fees bids asks with
    | error e => exact h.mono _ fun b hb => nomatch hb
    | ok b =>
      have hmono := h.mono [b] fun b' hb' => mem_singleton.mp hb' ▸ setBook_ok hset
      refine ⟨?_, hmono.wellFormed, hmono.matched, hmono.positive, hmono.unique⟩
      rintro _ ⟨rfl⟩
      exact mem_append_right _ (mem_singleton_self b)
  | submit intent now =>
    refine Sound.mono ?_ _ (fun b hb => nomatch hb)
    simp only [PaperAdapter.step]
    split
    next result s' hsubmit =>
      obtain ⟨r, -, -, -, rfl⟩ | ⟨b, r, hfresh, hb, hmatch, -, rfl⟩ := submit_ok hsubmit
      · exact h
      · exact h.record hfresh hb hmatch
    next => exact h
  | restart =>
    refine Sound.mono ?_ _ (fun b hb => nomatch hb)
    show Sound hash (if s.durable then _ else _) bs
    split
    · exact ⟨(fun b hb => nomatch hb), h.wellFormed, h.matched, h.positive, h.unique⟩
    · exact h

variable (env hash) in
theorem sound_after (durable : Bool) (ls : List Label) :
    Sound hash (after env hash durable ls) (books env ls) := by
  induction ls using List.reverseRecOn with
  | nil =>
    refine ⟨(fun b hb => nomatch hb), (fun b hb => nomatch hb), ?_, (fun r hr => nomatch hr),
      nodup_nil⟩
    intro before r later hsplit
    exact absurd (congrArg List.length hsplit) (by simp [after, new])
  | append_singleton ls l ih =>
    have hbooks : books env (ls ++ [l]) = books env ls ++ (l.book env).toList := by
      unfold books
      rw [filterMap_append]
      cases hl : l.book env <;> simp [hl]
    rw [hbooks, show after env hash durable (ls ++ [l])
      = step env hash (after env hash durable ls) l from run_concat _ _ _ _]
    exact ih.step l

/-- **The depth of a book is not overdrawn** by any of its results. -/
theorem Sound.used_le (h : Sound hash s bs) {b : PaperBook} (hb : b ∈ bs)
    (hone : ∀ b' ∈ bs, hash.bookHash b' = hash.bookHash b → b' = b) {side : Side} {l : ℚ × ℚ}
    (hl : l ∈ b.side side) : used s.records (hash.bookHash b) side l.1 ≤ l.2 := by
  suffices hprefix : ∀ records later, s.records = records ++ later →
      used records (hash.bookHash b) side l.1 ≤ l.2 from hprefix s.records [] (append_nil _).symm
  intro records
  induction records using List.reverseRecOn with
  | nil => exact fun _ _ => ((h.wellFormed b hb).level side l hl).1.le
  | append_singleton records r ih =>
    intro later hsplit
    rw [append_assoc] at hsplit
    have hbefore := ih _ hsplit
    rw [used_append]
    split_ifs with hsame
    · obtain ⟨b', hb', hm⟩ := h.matched records r later hsplit
      obtain rfl : b' = b := hone b' hb' (hm.bookHash.symm.trans hsame.1)
      obtain ⟨-, rfl⟩ := hsame
      by_cases hmem : l.1 ∈ r.fills.map PaperFill.price
      · obtain ⟨f, hf, hprice⟩ := mem_map.mp hmem
        have hpositive : ∀ r' ∈ records, ∀ f ∈ r'.fills, 0 < f.quantity := fun r' hr' =>
          h.positive r' (hsplit ▸ mem_append_left _ hr')
        obtain ⟨-, -, -, d, hd, hle⟩ := hm.fill (h.wellFormed b' hb') (used_nonneg hpositive _ _) hf
        have hlevel : (f.price, d) = l := by
          have hnodup := (h.wellFormed b' hb').nodup r.intent.side
          exact inj_on_of_nodup_map hnodup hd hl hprice
        rw [← hlevel, takenAt_of_mem (hm.nodup (h.wellFormed b' hb')) hf]
        exact le_sub_iff_add_le'.mp hle
      · rw [takenAt_of_notMem hmem, add_zero]
        exact hbefore
    · rw [add_zero]
      exact hbefore

theorem lookup_eq_some {intentId : String} (h : s.lookup intentId = some r) :
    r ∈ s.records ∧ r.intent.intentId = intentId := by
  have hid := find?_some h
  exact ⟨mem_of_find?_eq_some h, of_decide_eq_true hid⟩

/-- **A result is found again** under its intent. -/
theorem Sound.lookup (h : Sound hash s bs) (hr : r ∈ s.records) :
    s.lookup r.intent.intentId = some r := by
  have hunique := h.unique
  unfold PaperAdapter.lookup
  revert hr hunique
  generalize s.records = records
  intro hr hunique
  induction records with
  | nil => exact nomatch hr
  | cons r' records ih =>
    obtain ⟨hnotin, hunique'⟩ := nodup_cons.mp hunique
    obtain rfl | hmem := mem_cons.mp hr
    · exact find?_cons_of_pos (decide_eq_true rfl)
    · have hne : r'.intent.intentId ≠ r.intent.intentId :=
        fun he => hnotin (mem_map.mpr ⟨r, hmem, he.symm⟩)
      rw [find?_cons_of_neg (by simpa using hne)]
      exact ih hmem hunique'

variable (env hash) in
theorem records_step (s : PaperAdapter) (l : Label) :
    ∃ new, (step env hash s l).records = s.records ++ new := by
  cases l with
  | updateBook bids asks market instrument fees =>
    refine ⟨[], ?_⟩
    rw [append_nil]
    simp only [PaperAdapter.step]
    split <;> rfl
  | submit intent now =>
    simp only [PaperAdapter.step]
    split
    next result s' hsubmit =>
      obtain ⟨r, -, -, -, rfl⟩ | ⟨b, r, -, -, -, -, rfl⟩ := submit_ok hsubmit
      · exact ⟨[], (append_nil _).symm⟩
      · exact ⟨[r], rfl⟩
    next => exact ⟨[], (append_nil _).symm⟩
  | restart =>
    refine ⟨[], ?_⟩
    rw [append_nil]
    show PaperAdapter.records (if s.durable then _ else _) = _
    split <;> rfl

variable (env hash) in
theorem mem_records_run (hr : r ∈ s.records) (ls : List Label) :
    r ∈ (Machine.run (step env hash) s ls).records :=
  inv_run (fun s : PaperAdapter => r ∈ s.records) (fun s l hmem => by
    obtain ⟨new, hnew⟩ := records_step env hash s l
    rw [hnew]
    exact mem_append_left _ hmem) hr ls

end Runs

/-- **Paper depth.** Over any calls and restarts from its durable state: what is
taken at a level of a book is never more than the book displays there. Every
fill respects the limit of its order and is a multiple of the increment; the
levels are taken best price first; an order to be filled at once is filled
completely or rejected without a fill; what is filled is what the fills sum to,
and not more than the order. And whoever submits an intent again is returned
the same result, and no depth is taken. -/
theorem depth (env : Env) (hash : PaperHash) (durable : Bool) (ls : List Label) :
    (∀ b ∈ books env ls, (∀ b' ∈ books env ls, hash.bookHash b' = hash.bookHash b → b' = b) →
      ∀ side, ∀ l ∈ b.side side,
        used (after env hash durable ls).records (hash.bookHash b) side l.1 ≤ l.2) ∧
    (∀ before r later, (after env hash durable ls).records = before ++ r :: later →
      ∃ b ∈ books env ls, r.bookHash = hash.bookHash b ∧
        (∀ f ∈ r.fills, Within r.intent f.price ∧ 0 < f.quantity ∧
          Depth.IsMultiple b.instrument.quantityIncrement.val f.quantity ∧
          f.price ∈ (b.side r.intent.side).map Prod.fst) ∧
        (∀ f ∈ r.fills, ∀ l ∈ b.side r.intent.side, Better r.intent.side l.1 f.price →
          l.2 - used (before ++ [r]) (hash.bookHash b) r.intent.side l.1
            < b.instrument.quantityIncrement.val) ∧
        (Depth.IsMultiple b.instrument.quantityIncrement.val r.intent.quantity.val →
          r.intent.timeInForce = .fok →
          (r.snapshot.status = .filled ∧
            (r.fills.map PaperFill.quantity).sum = r.intent.quantity.val) ∨
          (r.snapshot.status = .rejected ∧ r.fills = [])) ∧
        (∃ remaining, 0 ≤ remaining ∧
          r.snapshot.filledQuantity.val + remaining = r.intent.quantity.val ∧
          (r.fills.map PaperFill.quantity).sum + remaining = r.intent.quantity.val)) ∧
    (∀ intent now result s', (after env hash durable ls).submit env hash intent now =
      .ok (result, s') →
      ∀ ls' now', (after env hash durable (ls ++ .submit intent now :: ls')).submit env hash intent now'
        = .ok (result, after env hash durable (ls ++ .submit intent now :: ls'))) := by
  have hsound := sound_after env hash durable ls
  refine ⟨fun b hb hone side l hl => hsound.used_le hb hone hl, ?_, ?_⟩
  · intro before r later hsplit
    obtain ⟨b, hb, hm⟩ := hsound.matched before r later hsplit
    have hpositive : ∀ r' ∈ before, ∀ f ∈ r'.fills, 0 < f.quantity := fun r' hr' =>
      hsound.positive r' (hsplit ▸ mem_append_left _ hr')
    have hused := used_nonneg hpositive (hash.bookHash b) r.intent.side
    have hwf := hsound.wellFormed b hb
    refine ⟨b, hb, hm.bookHash, ?_, ?_, hm.fok hwf hused, ?_⟩
    · intro f hf
      obtain ⟨hwithin, hpos, hmultiple, d, hd, -⟩ := hm.fill hwf hused hf
      exact ⟨hwithin, hpos, hmultiple, mem_map.mpr ⟨_, hd, rfl⟩⟩
    · intro f hf l hl hbetter
      rw [used_append, if_pos ⟨hm.bookHash, rfl⟩]
      exact hm.best_first hwf hused hf hl hbetter
    · have hle := r.snapshot.filled_le
      rw [hm.quantity] at hle
      refine ⟨r.intent.quantity.val - r.snapshot.filledQuantity.val, sub_nonneg.mpr hle,
        add_sub_cancel _ _, ?_⟩
      rw [hm.total]
      exact add_sub_cancel _ _
  · intro intent now result s' hsubmit ls' now'
    have hstep : step env hash (after env hash durable ls) (.submit intent now) = s' := by
      simp only [step, hsubmit]
    have hrun : after env hash durable (ls ++ .submit intent now :: ls')
        = Machine.run (step env hash) s' ls' := by
      unfold after
      rw [run_append, run_cons]
      exact congrArg (fun s => Machine.run (step env hash) s ls') hstep
    obtain ⟨r, hr, hid, hintent, rfl⟩ : ∃ r ∈ s'.records, r.intent.intentId = intent.intentId ∧
        r.intentHash = hash.intentHash intent ∧ result = r.submit := by
      obtain ⟨r, hfound, hsame, hresult, rfl⟩ | ⟨b, r, -, hb, hmatch, hresult, rfl⟩ :=
        submit_ok hsubmit
      · obtain ⟨hmem, hid⟩ := lookup_eq_some hfound
        exact ⟨r, hmem, hid, hsame, hresult⟩
      · obtain ⟨rfl, hm⟩ := match_ok (hsound.wellFormed b (hsound.book b hb))
          (used_nonneg hsound.positive _ _) hmatch
        exact ⟨r, mem_append_right _ (mem_singleton_self r), rfl, hm.intentHash, hresult⟩
    have hmem := mem_records_run env hash hr ls'
    rw [← hrun] at hmem
    have hfound := (sound_after env hash durable _).lookup hmem
    unfold submit
    rw [← hid, hfound]
    show (raiseIf _ _ >>= _) = _
    exact raiseIf_bind_eq_ok.mpr ⟨not_not.mpr hintent, rfl⟩

end PaperAdapter

end Qt
