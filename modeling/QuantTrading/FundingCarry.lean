import QuantTrading.EventLoop

/-!
# Funding carry

`FundingBasisCarry` of `btc_backtest.strategies.carry`: spot is bought and the perpetual sold short
in one atomic group when funding pays, and both are closed in one when it does not.

`carry_paired` follows the two legs through every run: whatever becomes of a group, both of its
fills are applied or neither is.
-/

namespace Qt.Backtest

open Except Fills List

namespace Engine

/-! ## The strategy -/

structure FundingBasisCarryParams where
  entryApr : ℚ
  exitApr : ℚ
  weight : ℚ
  fundingIntervalHours : ℚ
  negativeIntervals : ℕ
  maxBasisPct : ℚ
  entryApr_mem : 0 ≤ entryApr ∧ entryApr ≤ 10
  exitApr_mem : -10 ≤ exitApr ∧ exitApr ≤ 10
  weight_mem : 0 < weight ∧ weight ≤ 1
  fundingIntervalHours_mem : 0 < fundingIntervalHours ∧ fundingIntervalHours ≤ 168
  negativeIntervals_mem : 1 ≤ negativeIntervals ∧ negativeIntervals ≤ 100
  maxBasisPct_mem : 0 ≤ maxBasisPct ∧ maxBasisPct ≤ 1
  exitApr_lt : exitApr < entryApr

/-- The attributes of `FundingBasisCarry`. -/
structure CarryState where
  lastFundingTimestamp : Option ℤ
  negativeStreak : ℕ
deriving DecidableEq

/-- `_decimal` of the strategy. -/
def carryDecimal : Fills.Cell → Option ℚ
  | .number x => some x
  | .notFinite => none
  | .notNumeric => none

def hasPendingCarryOrder (context : StrategyContext) : Prop :=
  ∃ order ∈ context.openOrders, ∃ g ∈ order.groupId, "carry:".toList <+: g.toList
deriving Decidable

def currentPerpetualPrice (context : StrategyContext) : Option ℚ :=
  ((context.auxiliary.lookup "perpetual").bind fun frame =>
    (frame.rows.find? fun row => row.timestamp = context.timestamp).bind fun row =>
      row.cells.lookup "close").bind carryDecimal

def rateColumn (frame : Frame) : Option String :=
  if "rate" ∈ frame.columns then some "rate"
  else if "funding_rate" ∈ frame.columns then some "funding_rate" else none

/-- `timedelta(hours=…)`, in microseconds. -/
def hours (x : ℚ) : ℤ := SigDigits.roundHalfEven (x * 3600000000)

def latestValidFunding (params : FundingBasisCarryParams) (context : StrategyContext) :
    Option (ℤ × ℚ) := do
  let funding ← context.auxiliary.lookup "funding"
  let last ← funding.rows.getLast?
  let perpetual ← context.auxiliary.lookup "perpetual"
  let column ← rateColumn funding
  if last.timestamp ∉ perpetual.rows.map Row.timestamp then none
  else if context.timestamp - last.timestamp > hours params.fundingIntervalHours then none
  else
    let rate ← carryDecimal (funding.get last column .notNumeric)
    return (last.timestamp, rate)

section Intents

variable (isoformat : ℤ → String)

def leg (group reason : String) (instrument : InstrumentKind) (side : OrderSide)
    (quoteAmount baseQuantity : Option ℚ) : Except String OrderIntent :=
  OrderIntent.validated
    { instrument, side, orderType := .market, quoteAmount, baseQuantity, groupId := some group
      atomicGroup := true, reason }

def carryEntry (timestamp : ℤ) (quoteAmount : ℚ) : Except String (List OrderIntent) := do
  let group := "carry:entry:" ++ isoformat timestamp
  let spot ← leg group "carry_entry" .spot .buy (some quoteAmount) none
  let perpetual ← leg group "carry_entry" .perpetual .sell (some quoteAmount) none
  return [spot, perpetual]

def pairedExit (timestamp : ℤ) (spotQuantity perpetualQuantity : ℚ) :
    Except String (List OrderIntent) := do
  let group := "carry:exit:" ++ isoformat timestamp
  let spot ← leg group "carry_exit" .spot .sell none (some spotQuantity)
  let perpetual ← leg group "carry_exit" .perpetual .buy none (some |perpetualQuantity|)
  return [spot, perpetual]

/-- An order of its own that closes a leg, if the leg is open. -/
def unpairedLeg (isOpen : Prop) [Decidable isOpen] (instrument : InstrumentKind) (side : OrderSide)
    (quantity : ℚ) : Except String (List OrderIntent) :=
  if isOpen then do
    let intent ← OrderIntent.validated
      { instrument, side, orderType := .market, baseQuantity := some quantity
        reason := "carry_unpaired_exit" }
    return [intent]
  else return []

def unpairedExit (spotQuantity perpetualQuantity : ℚ) : Except String (List OrderIntent) := do
  let spot ← unpairedLeg (0 < spotQuantity) .spot .sell spotQuantity
  let perpetual ← unpairedLeg (perpetualQuantity < 0) .perpetual .buy |perpetualQuantity|
  return spot ++ perpetual

def hoursPerYear : ℚ := 24 * 365

/-- The streak after a settlement was looked at. -/
def CarryState.looked (st : CarryState) (timestamp : ℤ) (rate : ℚ) : CarryState :=
  if some timestamp ≠ st.lastFundingTimestamp then
    { lastFundingTimestamp := some timestamp
      negativeStreak := if rate < 0 then st.negativeStreak + 1 else 0 }
  else st

/-- Both legs are open. -/
def pairedIn (context : StrategyContext) : Prop :=
  0 < context.quantity .spot ∧ context.quantity .perpetual < 0
deriving Decidable

/-- The exit, where both legs are open. -/
def exitIfPaired (context : StrategyContext) : Except String (List OrderIntent) :=
  if pairedIn context then
    pairedExit isoformat context.timestamp (context.quantity .spot) (context.quantity .perpetual)
  else .ok []

variable (params : FundingBasisCarryParams)

/-- The rate of a year. -/
def FundingBasisCarryParams.annualized (rate : ℚ) : ℚ :=
  ctx (ctx (rate * hoursPerYear) / params.fundingIntervalHours)

/-- Whether the carry has to end, with the attributes after the settlement was looked at. -/
def shouldExit (st : CarryState) (spotPrice perpetualPrice rate : ℚ) : Prop :=
  params.maxBasisPct < |ctx (ctx (perpetualPrice / spotPrice) - 1)|
    ∨ params.annualized rate ≤ params.exitApr
    ∨ params.negativeIntervals ≤ st.negativeStreak
deriving Decidable

/-- The answer to a valid settlement. -/
def carryDecision (context : StrategyContext) (st : CarryState) (perpetualPrice : ℚ) (isNew : Bool)
    (rate : ℚ) : Except String (List OrderIntent) :=
  match context.bars.getLast? with
  | none => .error "strategy context has no bars"
  | some bar =>
    if bar.close ≤ 0 then exitIfPaired isoformat context
    else if pairedIn context then
      if shouldExit params st bar.close perpetualPrice rate then exitIfPaired isoformat context
      else .ok []
    else if shouldExit params st bar.close perpetualPrice rate
        ∨ params.annualized rate < params.entryApr ∨ isNew = false then
      .ok []
    else carryEntry isoformat context.timestamp (ctx (context.portfolio.equity * params.weight))

def carryOnBar (st : CarryState) (context : StrategyContext) :
    Except String (CarryState × List OrderIntent) :=
  let spot := context.quantity .spot
  let perpetual := context.quantity .perpetual
  if hasPendingCarryOrder context then .ok (st, [])
  else if ¬ (spot = 0 ∧ perpetual = 0) ∧ ¬ pairedIn context then do
    let intents ← unpairedExit spot perpetual
    return (st, intents)
  else
    match currentPerpetualPrice context, latestValidFunding params context with
    | some perpetualPrice, some (timestamp, rate) => do
      let isNew := some timestamp ≠ st.lastFundingTimestamp
      let st := st.looked timestamp rate
      let intents ← carryDecision isoformat params context st perpetualPrice isNew rate
      return (st, intents)
    | _, _ => do
      let intents ← exitIfPaired isoformat context
      return (st, intents)

/-- **`FundingBasisCarry`.** -/
def fundingBasisCarry : Strategy where
  State := CarryState
  warmupBars := 0
  requiresFullHistory := true
  supportedInstruments := [.spot, .perpetual]
  onInitialize _ _ := { lastFundingTimestamp := none, negativeStreak := 0 }
  onBar := carryOnBar isoformat params

end Intents

/-! ## The legs -/

variable (p : Portfolio ℕ)

/-- Nothing is held. -/
def Flat : Prop := p.spot.quantity = 0 ∧ p.perpetual.quantity = 0

/-- Spot is held, and the perpetual is short. -/
def Paired : Prop := 0 < p.spot.quantity ∧ p.perpetual.quantity < 0

/-- An open order for a leg. -/
structure LegOrder (order : Order) (group : String) (instrument : InstrumentKind)
    (side : OrderSide) : Prop where
  instrument : order.instrument = instrument
  side : order.side = side
  groupId : order.groupId = some group
  atomicGroup : order.atomicGroup = true
  expiresAt : order.expiresAt = none
  remaining : order.remainingQuantity = order.quantity
  carry : "carry:".toList <+: group.toList

theorem LegOrder.group_eq {order : Order} {group : String} {instrument : InstrumentKind}
    {side : OrderSide} (h : LegOrder order group instrument side) : order.group = some group := by
  unfold Order.group
  rw [if_pos h.atomicGroup, h.groupId]

/-- The orders that open the legs are pending. -/
def EntryPending (openOrders : List Order) : Prop :=
  ∃ a b g, openOrders = [a, b] ∧ LegOrder a g .spot .buy ∧ LegOrder b g .perpetual .sell

/-- The orders that close the legs of a portfolio are pending. -/
def ExitPending (openOrders : List Order) : Prop :=
  ∃ a b g, openOrders = [a, b] ∧ LegOrder a g .spot .sell ∧ LegOrder b g .perpetual .buy
    ∧ a.quantity = p.spot.quantity ∧ b.quantity = |p.perpetual.quantity|

/-- **The legs**: both closed, and at most their entry pending, or both open, and at most their exit
pending. -/
inductive Legs (p : Portfolio ℕ) (openOrders : List Order) : Prop
  | flat (h : Flat p) (pending : openOrders = [] ∨ EntryPending openOrders)
  | paired (h : Paired p) (pending : openOrders = [] ∨ ExitPending p openOrders)

section Legs

variable {p q : Portfolio ℕ} {fill : Fill ℕ ℕ}

theorem Flat.same (h : Flat p) (hsame : SameQuantities p q) : Flat q :=
  ⟨hsame.spot.trans h.1, hsame.perpetual.trans h.2⟩

theorem Paired.same (h : Paired p) (hsame : SameQuantities p q) : Paired q :=
  ⟨hsame.spot.symm ▸ h.1, hsame.perpetual.symm ▸ h.2⟩

variable {openOrders : List Order}

theorem ExitPending.same (h : ExitPending p openOrders) (hsame : SameQuantities p q) :
    ExitPending q openOrders := by
  obtain ⟨a, b, g, hopen, ha, hb, hqa, hqb⟩ := h
  exact ⟨a, b, g, hopen, ha, hb, hqa.trans hsame.spot.symm, hsame.perpetual.symm ▸ hqb⟩

theorem Legs.same (h : Legs p openOrders) (hsame : SameQuantities p q) : Legs q openOrders := by
  cases h with
  | flat hflat hpending => exact .flat (hflat.same hsame) hpending
  | paired hpaired hpending =>
    exact .paired (hpaired.same hsame) (hpending.imp_right fun h => h.same hsame)

variable {snap : PortfolioSnapshot}

theorem spot_of_applyFill (hinstrument : fill.instrument = .spot)
    (h : applyFill fill p = .ok snap q) : q.spot.quantity = (match fill.side with
      | .buy => p.spot.quantity + fill.quantity
      | .sell => p.spot.quantity - fill.quantity)
    ∧ q.perpetual.quantity = p.perpetual.quantity := by
  obtain ⟨-, rfl⟩ := applyFill_eq_ok h
  rw [Portfolio.spot_booked, Portfolio.perpetual_booked, Portfolio.filled, hinstrument]
  cases fill.side with
  | buy => exact ⟨rfl, rfl⟩
  | sell => exact ⟨rfl, rfl⟩

theorem perpetual_of_applyFill (hinstrument : fill.instrument = .perpetual)
    (h : applyFill fill p = .ok snap q) : q.perpetual.quantity = (match fill.side with
      | .buy => p.perpetual.quantity + fill.quantity
      | .sell => -(|p.perpetual.quantity| + fill.quantity))
    ∧ q.spot.quantity = p.spot.quantity := by
  obtain ⟨-, rfl⟩ := applyFill_eq_ok h
  rw [Portfolio.spot_booked, Portfolio.perpetual_booked, Portfolio.filled, hinstrument]
  cases fill.side with
  | buy => exact ⟨rfl, rfl⟩
  | sell => exact ⟨rfl, rfl⟩

variable {a b : Order} {g : String}

theorem paired_of_entry (ha : LegOrder a g .spot .buy) (hb : LegOrder b g .perpetual .sell)
    (hflat : Flat p) (h : BothFilled a b p q) : Paired q := by
  obtain ⟨fa, fb, between, snap, snap', hfa, hfb, hfirst, hsecond⟩ := h
  obtain ⟨hspot, hsame⟩ := spot_of_applyFill (hfa.instrument.trans ha.instrument) hfirst
  obtain ⟨hperpetual, hkept⟩ := perpetual_of_applyFill (hfb.instrument.trans hb.instrument) hsecond
  rw [hfa.side, ha.side] at hspot
  rw [hfb.side, hb.side] at hperpetual
  have hqa := fa.quantity_pos
  have hqb := fb.quantity_pos
  dsimp only at hspot hperpetual
  rw [hflat.1, zero_add] at hspot
  rw [hsame, hflat.2, abs_zero, zero_add] at hperpetual
  exact ⟨by rw [hkept, hspot]; exact hqa, by rw [hperpetual]; exact neg_neg_of_pos hqb⟩

theorem flat_of_exit (ha : LegOrder a g .spot .sell) (hb : LegOrder b g .perpetual .buy)
    (hqa : a.quantity = p.spot.quantity) (hqb : b.quantity = |p.perpetual.quantity|)
    (hpaired : Paired p) (h : BothFilled a b p q) : Flat q := by
  obtain ⟨fa, fb, between, snap, snap', hfa, hfb, hfirst, hsecond⟩ := h
  obtain ⟨hspot, hsame⟩ := spot_of_applyFill (hfa.instrument.trans ha.instrument) hfirst
  obtain ⟨hperpetual, hkept⟩ := perpetual_of_applyFill (hfb.instrument.trans hb.instrument) hsecond
  rw [hfa.side, ha.side] at hspot
  rw [hfb.side, hb.side] at hperpetual
  dsimp only at hspot hperpetual
  rw [hfa.quantity, ha.remaining, hqa, sub_self] at hspot
  rw [hfb.quantity, hb.remaining, hqb, hsame, abs_of_neg hpaired.2, add_neg_cancel] at hperpetual
  exact ⟨hkept.trans hspot, hperpetual⟩

end Legs

/-! ## Answers -/

section Answers

variable {isoformat : ℤ → String} {params : FundingBasisCarryParams} {st st' : CarryState}
  {context : StrategyContext} {intents : List OrderIntent} {closes : Closes}

theorem legOrder_of {group reason : String} {instrument : InstrumentKind} {side : OrderSide}
    {quote base : Option ℚ} {i : OrderIntent} {order : Order}
    (h : leg group reason instrument side quote base = .ok i) (horder : OrderOf closes i order)
    (hcarry : "carry:".toList <+: group.toList) :
    LegOrder order group instrument side ∧ ∀ x ∈ base, order.quantity = x := by
  obtain rfl := validated_eq_ok h
  refine ⟨⟨horder.instrument, horder.side, horder.groupId, horder.atomicGroup, horder.expiresAt,
    horder.remaining, hcarry⟩, ?_⟩
  rintro x hx
  obtain rfl : base = some x := hx
  exact (ok.inj horder.quantity).symm

theorem carry_starts (rest text : String) : "carry:".toList <+: ("carry:" ++ rest ++ text).toList :=
  ⟨rest.toList ++ text.toList, by simp⟩

variable {added : List Order} {timestamp : ℤ}

theorem entryPending_of {quote : ℚ} (h : carryEntry isoformat timestamp quote = .ok intents)
    (hadded : List.Forall₂ (OrderOf closes) intents added) : EntryPending added := by
  obtain ⟨spot, hspot, h⟩ := of_bind h
  obtain ⟨perpetual, hperpetual, h⟩ := of_bind h
  cases h
  obtain ⟨a, rest, ha, hrest, rfl⟩ := forall₂_cons_left_iff.mp hadded
  obtain ⟨b, rest', hb, hrest', rfl⟩ := forall₂_cons_left_iff.mp hrest
  obtain rfl := forall₂_nil_left_iff.mp hrest'
  have hcarry := carry_starts "entry:" (isoformat timestamp)
  exact ⟨a, b, _, rfl, (legOrder_of hspot ha hcarry).1, (legOrder_of hperpetual hb hcarry).1⟩

theorem exitPending_of {p : Portfolio ℕ}
    (h : pairedExit isoformat timestamp p.spot.quantity p.perpetual.quantity = .ok intents)
    (hadded : List.Forall₂ (OrderOf closes) intents added) : ExitPending p added := by
  obtain ⟨spot, hspot, h⟩ := of_bind h
  obtain ⟨perpetual, hperpetual, h⟩ := of_bind h
  cases h
  obtain ⟨a, rest, ha, hrest, rfl⟩ := forall₂_cons_left_iff.mp hadded
  obtain ⟨b, rest', hb, hrest', rfl⟩ := forall₂_cons_left_iff.mp hrest
  obtain rfl := forall₂_nil_left_iff.mp hrest'
  have hcarry := carry_starts "exit:" (isoformat timestamp)
  obtain ⟨hleg, hquantity⟩ := legOrder_of hspot ha hcarry
  obtain ⟨hleg', hquantity'⟩ := legOrder_of hperpetual hb hcarry
  exact ⟨a, b, _, rfl, hleg, hleg', hquantity _ rfl, hquantity' _ rfl⟩

theorem carryOnBar_of_pending (hpending : hasPendingCarryOrder context) :
    carryOnBar isoformat params st context = .ok (st, []) :=
  if_pos hpending

theorem exitIfPaired_of_flat (h : ¬ pairedIn context) : exitIfPaired isoformat context = .ok [] :=
  if_neg h

variable {isNew : Bool} {price rate : ℚ}

theorem carryDecision_of_flat (hflat : ¬ pairedIn context)
    (h : carryDecision isoformat params context st price isNew rate = .ok intents) :
    intents = [] ∨ ∃ quote, carryEntry isoformat context.timestamp quote = .ok intents := by
  unfold carryDecision at h
  split at h
  · cases h
  · split_ifs at h
    · rw [exitIfPaired_of_flat hflat] at h
      exact .inl (ok.inj h).symm
    · exact .inl (ok.inj h).symm
    · exact .inr ⟨_, h⟩

theorem carryDecision_of_paired (hpaired : pairedIn context)
    (h : carryDecision isoformat params context st price isNew rate = .ok intents) :
    intents = [] ∨ exitIfPaired isoformat context = .ok intents := by
  unfold carryDecision at h
  split at h
  · cases h
  · split_ifs at h
    · exact .inr h
    · exact .inr h
    · exact .inl (ok.inj h).symm

/-- **With both legs closed** the answer is nothing, or an entry. -/
theorem carryOnBar_of_flat (hflat : context.quantity .spot = 0 ∧ context.quantity .perpetual = 0)
    (h : carryOnBar isoformat params st context = .ok (st', intents)) :
    intents = [] ∨ ∃ quote, carryEntry isoformat context.timestamp quote = .ok intents := by
  have hnot : ¬ pairedIn context := fun h => h.1.ne' hflat.1
  unfold carryOnBar at h
  dsimp only at h
  split at h
  · cases h
    exact .inl rfl
  · rw [if_neg fun h => h.1 hflat] at h
    split at h
    · obtain ⟨decided, hdecided, h⟩ := of_bind h
      cases h
      exact carryDecision_of_flat hnot hdecided
    · rw [exitIfPaired_of_flat hnot] at h
      cases h
      exact .inl rfl

/-- **With both legs open** the answer is nothing, or their exit. -/
theorem carryOnBar_of_paired (hpaired : pairedIn context)
    (h : carryOnBar isoformat params st context = .ok (st', intents)) :
    intents = [] ∨ pairedExit isoformat context.timestamp (context.quantity .spot)
      (context.quantity .perpetual) = .ok intents := by
  have hexit : ∀ out, exitIfPaired isoformat context = .ok out → pairedExit isoformat
      context.timestamp (context.quantity .spot) (context.quantity .perpetual) = .ok out :=
    fun out hout => (if_pos hpaired).symm.trans hout
  unfold carryOnBar at h
  dsimp only at h
  split at h
  · cases h
    exact .inl rfl
  · rw [if_neg fun h => h.2 hpaired] at h
    split at h
    · obtain ⟨decided, hdecided, h⟩ := of_bind h
      cases h
      exact (carryDecision_of_paired hpaired hdecided).imp_right (hexit _)
    · obtain ⟨out, hout, h⟩ := of_bind h
      cases h
      exact .inr (hexit _ hout)

end Answers

/-! ## Runs -/

section Runs

variable {isoformat : ℤ → String} {params : FundingBasisCarryParams} {spec : BacktestSpec}
  {bundle : MarketBundle} {r r' : Run CarryState}

/-- **Processing** keeps the legs. -/
theorem Legs.processed {policy : FillPolicy}
    {bars : InstrumentKind → Option (List (String × Fills.Cell))} {timestamp : ℤ}
    {book book' : Book} (h : Legs book.portfolio book.openOrders)
    (hprocessed : processOpenOrders policy bars timestamp book = .ok book') :
    Legs book'.portfolio book'.openOrders := by
  have hnil : book.openOrders = [] → book' = book := fun hopen =>
    (ok.inj ((processOpenOrders_nil hopen).symm.trans hprocessed)).symm
  cases h with
  | flat hflat hpending =>
    rcases hpending with hopen | ⟨a, b, g, hopen, ha, hb⟩
    · rw [hnil hopen]
      exact .flat hflat (.inl hopen)
    · rcases processOpenOrders_pair hopen ha.group_eq hb.group_eq ha.expiresAt hb.expiresAt
        hprocessed with rfl | ⟨hclosed, hsame | hfilled⟩
      · exact .flat hflat (.inr ⟨a, b, g, hopen, ha, hb⟩)
      · rw [hsame]
        exact .flat hflat (.inl hclosed)
      · exact .paired (paired_of_entry ha hb hflat hfilled) (.inl hclosed)
  | paired hpaired hpending =>
    rcases hpending with hopen | ⟨a, b, g, hopen, ha, hb, hqa, hqb⟩
    · rw [hnil hopen]
      exact .paired hpaired (.inl hopen)
    · rcases processOpenOrders_pair hopen ha.group_eq hb.group_eq ha.expiresAt hb.expiresAt
        hprocessed with rfl | ⟨hclosed, hsame | hfilled⟩
      · exact .paired hpaired (.inr ⟨a, b, g, hopen, ha, hb, hqa, hqb⟩)
      · rw [hsame]
        exact .paired hpaired (.inl hclosed)
      · exact .flat (flat_of_exit ha hb hqa hqb hpaired hfilled) (.inl hclosed)

theorem hasPending_of {context : StrategyContext} {a b : Order} {g : String}
    {side : OrderSide} (hopen : context.openOrders = [a, b]) (ha : LegOrder a g .spot side) :
    hasPendingCarryOrder context :=
  ⟨a, hopen ▸ mem_cons_self, g, ha.groupId, ha.carry⟩

/-- **The answer** keeps the legs. -/
theorem Legs.answered {position : ℕ} {bar : Bar} {closes : Closes}
    (h : Legs r.portfolio r.openOrders)
    (hanswer : askStrategy (fundingBasisCarry isoformat params) bundle position bar closes
      (r.portfolio.snapshotAt bar.timestamp) r = .ok r') :
    Legs r'.portfolio r'.openOrders := by
  rcases askStrategy_eq_ok hanswer with ⟨-, rfl⟩ | ⟨-, intents, hcall, hplaced⟩
  · exact h
  obtain ⟨⟨added, hopen', hadded⟩, hportfolio, -, -⟩ := hplaced
  rw [hportfolio, hopen']
  have hquiet : intents = [] → added = [] := by
    rintro rfl
    exact forall₂_nil_left_iff.mp hadded
  change carryOnBar isoformat params r.strategy _ = _ at hcall
  have hpending : ∀ {a b : Order} {g : String} {side : OrderSide}, r.openOrders = [a, b] →
      LegOrder a g .spot side → added = [] := fun hopen ha => by
    rw [carryOnBar_of_pending (hasPending_of hopen ha)] at hcall
    exact hquiet (congrArg Prod.snd (ok.inj hcall)).symm
  cases h with
  | flat hflat hopen =>
    rcases hopen with hopen | ⟨a, b, g, hopen, ha, hb⟩
    · refine .flat hflat ?_
      rw [hopen, nil_append]
      rcases carryOnBar_of_flat (by exact ⟨hflat.1, hflat.2⟩) hcall with hnone | ⟨quote, hentry⟩
      · exact .inl (hquiet hnone)
      · exact .inr (entryPending_of hentry hadded)
    · rw [hpending hopen ha, append_nil]
      exact .flat hflat (.inr ⟨a, b, g, hopen, ha, hb⟩)
  | paired hpaired hopen =>
    rcases hopen with hopen | ⟨a, b, g, hopen, ha, hb, hqa, hqb⟩
    · refine .paired hpaired ?_
      rw [hopen, nil_append]
      rcases carryOnBar_of_paired (by exact ⟨hpaired.1, hpaired.2⟩) hcall with hnone | hexit
      · exact .inl (hquiet hnone)
      · exact .inr (exitPending_of hexit hadded)
    · rw [hpending hopen ha, append_nil]
      exact .paired hpaired (.inr ⟨a, b, g, hopen, ha, hb, hqa, hqb⟩)

theorem Legs.flat_or_paired {p : Portfolio ℕ} {openOrders : List Order} (h : Legs p openOrders) :
    Flat p ∨ Paired p := by
  cases h with
  | flat hflat _ => exact .inl hflat
  | paired hpaired _ => exact .inr hpaired

def quantityIn (snapshot : PortfolioSnapshot) (instrument : InstrumentKind) : ℚ :=
  ((snapshot.positions.find? fun p => p.instrument = instrument).map Position.quantity).getD 0

/-- **What a bar keeps**: the legs, and that every snapshot shows both closed or both open. -/
structure Kept (r : Run CarryState) : Prop where
  legs : Legs r.portfolio r.openOrders
  snapshots : ∀ snapshot ∈ r.snapshots,
    (quantityIn snapshot .spot = 0 ∧ quantityIn snapshot .perpetual = 0)
      ∨ (0 < quantityIn snapshot .spot ∧ quantityIn snapshot .perpetual < 0)

theorem Kept.step {item : Bar × ℕ} (h : Kept r)
    (hstep : step (fundingBasisCarry isoformat params) spec bundle r item = .ok r') : Kept r' := by
  obtain ⟨prepared, closes, snapshot, hprepare, hanswer⟩ := step_eq_ok hstep
  obtain ⟨⟨funded, book, hfunded, hbook, hmarked, hopen⟩, -, -, -, rfl, hsnapshots, -⟩ :=
    prepare_eq_ok hprepare
  have hlegs : Legs prepared.portfolio prepared.openOrders := by
    rw [hopen]
    refine (Legs.processed ?_ hbook).same hmarked
    exact h.legs.same hfunded
  refine ⟨hlegs.answered hanswer, fun snapshot hsnapshot => ?_⟩
  have hkept : r'.snapshots = prepared.snapshots := by
    rcases askStrategy_eq_ok hanswer with ⟨-, rfl⟩ | ⟨-, intents, -, hplaced⟩
    · rfl
    · exact hplaced.snapshots
  rw [hkept, hsnapshots] at hsnapshot
  rcases mem_append.mp hsnapshot with hsnapshot | hsnapshot
  · exact h.snapshots snapshot hsnapshot
  · obtain rfl := mem_singleton.mp hsnapshot
    exact hlegs.flat_or_paired

/-- **Carry is never unpaired.** In every run, over any spot, perpetual and funding data, the
portfolio after each bar – and each snapshot – is flat in both legs, or long spot and short the
perpetual. -/
theorem carry_paired {instance_ : CarryState} {bars : ℕ}
    (h : runBars (fundingBasisCarry isoformat params) spec bundle instance_ bars = .ok r) :
    (Flat r.portfolio ∨ Paired r.portfolio) ∧ ∀ snapshot ∈ r.snapshots,
      (quantityIn snapshot .spot = 0 ∧ quantityIn snapshot .perpetual = 0)
        ∨ (0 < quantityIn snapshot .spot ∧ quantityIn snapshot .perpetual < 0) := by
  have hkept : Kept r := by
    refine runBars_inv (P := Kept) (fun portfolio hportfolio => ?_)
      (fun r item r' hr hstep => hr.step hstep) h
    have hflat : Flat portfolio := by
      unfold Portfolio.create at hportfolio
      dsimp only at hportfolio
      split at hportfolio
      · cases hportfolio
      · cases hportfolio
        exact ⟨rfl, rfl⟩
    exact ⟨.flat hflat (.inl rfl), fun _ h => (nomatch h)⟩
  exact ⟨hkept.legs.flat_or_paired, hkept.snapshots⟩

end Runs

/-! ## A carry that is opened and closed -/

variable (timestamp : ℤ)

def perpetualAt (price : ℚ) : Row :=
  ⟨timestamp, barMapping (flatBar timestamp price)⟩

/-- A settlement. -/
def rateAt (rate : ℚ) : Row := ⟨timestamp, [("rate", .number rate)]⟩

/-- The columns of a perpetual frame. -/
def perpetualColumns : List String := ["open", "high", "low", "close", "volume"]

/-- Spot and the perpetual at 100 at these times, with these settlements. -/
def carryBundle (bars perpetual : List ℤ) (settlements : List Row) : MarketBundle where
  primary := bars.map (flatBar · 100)
  auxiliary := [("perpetual", ⟨perpetualColumns, perpetual.map (perpetualAt · 100)⟩),
    ("funding", ⟨["rate"], settlements⟩)]

theorem sampleCarry_bounds : (0 : ℚ) ≤ 15 / 100 ∧ (15 / 100 : ℚ) ≤ 10 := by norm_num

theorem sampleCarry_exit : (-10 : ℚ) ≤ 5 / 100 ∧ (5 / 100 : ℚ) ≤ 10 := by norm_num

theorem sampleCarry_weight : (0 : ℚ) < 4 / 10 ∧ (4 / 10 : ℚ) ≤ 1 := by norm_num

theorem sampleCarry_interval : (0 : ℚ) < 8 ∧ (8 : ℚ) ≤ 168 := by norm_num

theorem sampleCarry_streak : 1 ≤ 3 ∧ 3 ≤ 100 := by norm_num

theorem sampleCarry_basis : (0 : ℚ) ≤ 5 / 100 ∧ (5 / 100 : ℚ) ≤ 1 := by norm_num

theorem sampleCarry_lt : (5 / 100 : ℚ) < 15 / 100 := by norm_num

/-- The defaults of `FundingBasisCarryParams`. -/
def sampleCarryParams : FundingBasisCarryParams :=
  ⟨15 / 100, 5 / 100, 4 / 10, 8, 3, 5 / 100, sampleCarry_bounds, sampleCarry_exit,
    sampleCarry_weight, sampleCarry_interval, sampleCarry_streak, sampleCarry_basis, sampleCarry_lt⟩

/-- `isoformat`, in the first day. -/
def firstDayIsoformat : String :=
  "1970-01-01T0" ++ toString (timestamp / hour) ++ ":00:00+00:00"

/-- Funding pays at first, and costs from the third bar on. -/
def sampleCarryBundle : MarketBundle :=
  carryBundle [0, hour, 2 * hour, 3 * hour] [0, hour, 2 * hour, 3 * hour]
    [rateAt 0 (1 / 1000), rateAt (2 * hour) (-1 / 1000)]

/-- A run of the default carry over the sample. -/
def sampleCarryRun (bars : ℕ) : Except RunError (Run CarryState) :=
  runBars (fundingBasisCarry firstDayIsoformat sampleCarryParams) sampleSpec sampleCarryBundle
    ⟨none, 0⟩ bars

/-- What is held after some bars of the sample. -/
def sampleCarryLegs (bars : ℕ) : Option (ℚ × ℚ) :=
  (sampleCarryRun bars).toOption.map fun r =>
    (r.portfolio.spot.quantity, r.portfolio.perpetual.quantity)

theorem sampleCarryLegs_open : sampleCarryLegs 2 = some (40, -40) := by decide +kernel

theorem sampleCarryRun_ok : ∃ r, sampleCarryRun 2 = .ok r := by
  have h := sampleCarryLegs_open
  unfold sampleCarryLegs at h
  cases hrun : sampleCarryRun 2 with
  | ok r => exact ⟨r, rfl⟩
  | error e =>
    rw [hrun] at h
    cases h

theorem carry_paired_sample : ∃ r, sampleCarryRun 2 = .ok r
    ∧ (Flat r.portfolio ∨ Paired r.portfolio) ∧ ∀ snapshot ∈ r.snapshots,
      (quantityIn snapshot .spot = 0 ∧ quantityIn snapshot .perpetual = 0)
        ∨ (0 < quantityIn snapshot .spot ∧ quantityIn snapshot .perpetual < 0) := by
  obtain ⟨r, hr⟩ := sampleCarryRun_ok
  exact ⟨r, hr, carry_paired hr⟩

end Engine

end Qt.Backtest
