import QuantTrading.EventLoop
import QuantTrading.Lib.Allotment
import QuantTrading.Lib.FixedText

/-!
# A grid of orders

`GridRebalance` of `btc_backtest.strategies.grid`: at every bar a limit order is placed at each
level that has none, buys below the close and sells above it, out of what cash, the inventory cap
and the position allow.

What the orders of earlier bars take is not counted. `grid_bounded` is what keeps the open orders
within cash, the cap and the position all the same: that at each decision the older orders leave
room for the new ones.
-/

namespace Qt.Backtest

open Except Fills SigDigits Allotment List Option

namespace Engine

/-! ## The strategy -/

structure GridParams where
  lower : ℚ
  upper : ℚ
  levels : ℕ
  quotePerLevel : ℚ
  maxInventoryWeight : ℚ
  lower_pos : 0 < lower
  upper_pos : 0 < upper
  levels_mem : 2 ≤ levels ∧ levels ≤ 100
  quotePerLevel_pos : 0 < quotePerLevel
  maxInventoryWeight_mem : 0 < maxInventoryWeight ∧ maxInventoryWeight ≤ 1
  lower_lt : lower < upper

variable (params : GridParams)

/-- **`_levels`.** -/
def GridParams.prices : List ℚ :=
  let step := ctx (ctx (params.upper - params.lower) / (params.levels - 1))
  (List.range params.levels).map fun index : ℕ => ctx (params.lower + ctx (step * (index : ℚ)))

def levelText (level : ℚ) : String :=
  String.ofList (Decimal.plain ⟨decide (level < 0),
    (roundHalfEven (level / 10 ^ ulpExp 28 level)).natAbs, ulpExp 28 level⟩)

/-- The group of the order at a level. -/
def gridGroup (level : ℚ) : String := "grid:" ++ levelText level

def gridBuy (level quote : ℚ) : OrderIntent :=
  { side := .buy, orderType := .limit, quoteAmount := some quote, limitPrice := some level
    groupId := some (gridGroup level), reason := "grid_buy_level" }

def gridSell (level base : ℚ) : OrderIntent :=
  { side := .sell, orderType := .limit, baseQuantity := some base, limitPrice := some level
    groupId := some (gridGroup level), reason := "grid_sell_level" }

/-- **The loop over the levels**, with what remains to be bought and sold for. -/
def gridIntents (params : GridParams) (close : ℚ) (existing : List String) :
    List ℚ → ℚ → ℚ → Except String (List OrderIntent)
  | [], _, _ => .ok []
  | level :: levels, remainingBuy, remainingSell =>
    if level = close ∨ gridGroup level ∈ existing then
      gridIntents params close existing levels remainingBuy remainingSell
    else if level < close then
      let quote := min params.quotePerLevel remainingBuy
      if quote ≤ 0 then gridIntents params close existing levels remainingBuy remainingSell
      else do
        let intent ← (gridBuy level quote).validated
        let intents ← gridIntents params close existing levels (ctx (remainingBuy - quote))
          remainingSell
        return intent :: intents
    else
      let base := min (ctx (params.quotePerLevel / level)) remainingSell
      if base ≤ 0 then gridIntents params close existing levels remainingBuy remainingSell
      else do
        let intent ← (gridSell level base).validated
        let intents ← gridIntents params close existing levels remainingBuy
          (ctx (remainingSell - base))
        return intent :: intents

/-- The groups that have an open order. -/
def StrategyContext.existing (context : StrategyContext) : List String :=
  context.openOrders.filterMap Order.groupId

/-- What may be bought for. -/
def GridParams.remainingBuy (context : StrategyContext) (close : ℚ) : ℚ :=
  min context.portfolio.cash (max 0 (ctx (ctx (context.portfolio.equity * params.maxInventoryWeight)
      - ctx (context.quantity .spot * close))))

def gridOnBar (st : Unit) (context : StrategyContext) : Except String (Unit × List OrderIntent) :=
  match context.bars.getLast? with
  | none => .error "strategy context has no bars"
  | some bar =>
    if bar.close ≤ 0 then .ok (st, [])
    else do
      let intents ← gridIntents params bar.close context.existing params.prices
        (params.remainingBuy context bar.close) (context.quantity .spot)
      return (st, intents)

/-- **`GridRebalance`.** -/
def gridRebalance : Strategy where
  State := Unit
  warmupBars := 0
  requiresFullHistory := true
  supportedInstruments := [.spot]
  onInitialize _ st := st
  onBar := gridOnBar params

/-! ## What is bounded -/

/-- The quote value of the open buys. -/
def openBuyValue (openOrders : List Order) : ℚ :=
  (openOrders.map fun o =>
    if o.side = .buy then o.remainingQuantity * o.limitPrice.getD 0 else 0).sum

def openSellQuantity (openOrders : List Order) : ℚ :=
  (openOrders.map fun o => if o.side = .sell then o.remainingQuantity else 0).sum

/-- **The grid is bounded** at a bar: by cash, by the cap of the inventory, by the position, and by
one order for each level. -/
structure GridBounded (params : GridParams) (bar : Bar) (p : Portfolio ℕ)
    (openOrders : List Order) : Prop where
  cash : openBuyValue openOrders ≤ p.cash
  inventory : p.spot.quantity * bar.close + openBuyValue openOrders
    ≤ p.equity * params.maxInventoryWeight
  position : openSellQuantity openOrders ≤ p.spot.quantity
  levels : ∀ level, (openOrders.filter fun o => o.limitPrice = some level).length ≤ 1

section Room

variable (params : GridParams) (context : StrategyContext)

/-- `current_bar["close"]`. -/
def StrategyContext.close : ℚ := (context.bars.getLast?.map Bar.close).getD 0

/-- The levels below the close without an order. -/
def GridParams.below : List ℚ :=
  params.prices.filter fun level => gridGroup level ∉ context.existing ∧ level < context.close

/-- The levels above the close without an order. -/
def GridParams.above : List ℚ :=
  params.prices.filter fun level => gridGroup level ∉ context.existing ∧ context.close < level

/-- What the new buys are worth at most: what may be bought for, but not more than is asked for at
the free levels, at the price of the highest of them. The last factor is for the roundings. -/
def GridParams.newBuys : ℚ :=
  max 0 (min (params.remainingBuy context context.close)
      ((params.below context).length * params.quotePerLevel))
    * ((params.below context).foldr max 0 / context.close) * (1 + 1 / 10 ^ 25)

/-- What the new sells ask for. -/
def GridParams.newSells : ℚ :=
  ((params.above context).map fun level => ctx (params.quotePerLevel / level)).sum

/-- **The older orders leave room** for the new ones: for the buys within cash and the cap, and for
the sells within the position, or there are no older sells and nothing of them is rounded. -/
structure GridRoom : Prop where
  cash : openBuyValue context.openOrders + params.newBuys context ≤ context.portfolio.cash
  inventory : context.quantity .spot * context.close + openBuyValue context.openOrders
    + params.newBuys context ≤ context.portfolio.equity * params.maxInventoryWeight
  position : openSellQuantity context.openOrders + params.newSells context ≤ context.quantity .spot
    ∨ openSellQuantity context.openOrders = 0 ∧ ∃ digits : ℕ, OnGrid digits (context.quantity .spot)
      ∧ context.quantity .spot < 10 ^ 28 / 10 ^ digits
      ∧ ∀ level ∈ params.above context, OnGrid digits (ctx (params.quotePerLevel / level))

end Room

/-! ## One decision -/

section Answers

variable {params : GridParams} {close : ℚ} {existing : List String} {levels : List ℚ}
  {remainingBuy remainingSell : ℚ} {intents : List OrderIntent}

/-- A level below the close, without an order. -/
def FreeBelow (close : ℚ) (existing : List String) (level : ℚ) : Prop :=
  gridGroup level ∉ existing ∧ level < close
deriving Decidable

/-- A level above the close, without an order. -/
def FreeAbove (close : ℚ) (existing : List String) (level : ℚ) : Prop :=
  gridGroup level ∉ existing ∧ close < level
deriving Decidable

/-- **What the loop answers**: buys below and sells above, one for a level, and in sum what is
allotted. -/
structure GridAnswer (params : GridParams) (close : ℚ) (existing : List String) (levels : List ℚ)
    (remainingBuy remainingSell : ℚ) (intents : List OrderIntent) : Prop where
  quotes : (intents.map fun i => i.quoteAmount.getD 0).sum
    = (allot ctx ((levels.filter (FreeBelow close existing)).map fun _ => params.quotePerLevel)
      remainingBuy).sum
  bases : (intents.map fun i => i.baseQuantity.getD 0).sum
    = (allot ctx ((levels.filter (FreeAbove close existing)).map fun level =>
      ctx (params.quotePerLevel / level)) remainingSell).sum
  each : ∀ i ∈ intents, (∃ level ∈ levels.filter (FreeBelow close existing), ∃ quote, 0 < quote
      ∧ i = gridBuy level quote)
    ∨ ∃ level ∈ levels.filter (FreeAbove close existing), ∃ base, i = gridSell level base
  limits : (intents.map OrderIntent.limitPrice).Sublist (levels.map some)

section GridAnswer

variable {level quote base : ℚ}

section

variable (h : GridAnswer params close existing levels remainingBuy remainingSell intents)
include h

/-- What is answered at the other levels is answered at these. -/
theorem GridAnswer.each_cons {i : OrderIntent} (hi : i ∈ intents) (level : ℚ) :
    (∃ l ∈ (level :: levels).filter (FreeBelow close existing), ∃ quote, 0 < quote
      ∧ i = gridBuy l quote)
    ∨ ∃ l ∈ (level :: levels).filter (FreeAbove close existing), ∃ base, i = gridSell l base := by
  have hsub : levels.Sublist (level :: levels) := sublist_cons_self _ _
  rcases h.each i hi with ⟨l, hl, hbuy⟩ | ⟨l, hl, hsell⟩
  · exact .inl ⟨l, (hsub.filter _).subset hl, hbuy⟩
  · exact .inr ⟨l, (hsub.filter _).subset hl, hsell⟩

/-- A level is passed over where nothing is to be bought or sold at it. -/
theorem GridAnswer.pass
    (hbelow : FreeBelow close existing level → min params.quotePerLevel remainingBuy ≤ 0)
    (habove : FreeAbove close existing level →
      min (ctx (params.quotePerLevel / level)) remainingSell ≤ 0) :
    GridAnswer params close existing (level :: levels) remainingBuy remainingSell intents := by
  refine ⟨?_, ?_, fun i hi => h.each_cons hi level, h.limits.cons _⟩
  · by_cases hfree : FreeBelow close existing level
    · rw [filter_cons_of_pos (by simpa using hfree), map_cons, sum_allot_cons,
        if_neg (not_lt.mpr (hbelow hfree))]
      exact h.quotes
    · rw [filter_cons_of_neg (by simpa using hfree)]
      exact h.quotes
  · by_cases hfree : FreeAbove close existing level
    · rw [filter_cons_of_pos (by simpa using hfree), map_cons, sum_allot_cons,
        if_neg (not_lt.mpr (habove hfree))]
      exact h.bases
    · rw [filter_cons_of_neg (by simpa using hfree)]
      exact h.bases

end

theorem GridAnswer.buy (hquote : quote = min params.quotePerLevel remainingBuy) (hpos : 0 < quote)
    (h : GridAnswer params close existing levels (ctx (remainingBuy - quote)) remainingSell intents)
    (hfree : FreeBelow close existing level) :
    GridAnswer params close existing (level :: levels) remainingBuy remainingSell
      (gridBuy level quote :: intents) := by
  have habove : ¬ FreeAbove close existing level := fun h => hfree.2.not_gt h.2
  have hfilter : (level :: levels).filter (FreeBelow close existing)
      = level :: levels.filter (FreeBelow close existing) :=
    filter_cons_of_pos (by simpa using hfree)
  refine ⟨?_, ?_, fun i hi => ?_, ?_⟩
  · rw [hfilter, map_cons, map_cons, sum_cons, sum_allot_cons,
      if_pos (hquote ▸ hpos), ← hquote, h.quotes]
    rfl
  · rw [filter_cons_of_neg (by simpa using habove), map_cons, sum_cons, h.bases]
    exact zero_add _
  · rcases mem_cons.mp hi with rfl | hi
    · exact .inl ⟨level, hfilter ▸ mem_cons_self, quote, hpos, rfl⟩
    · exact h.each_cons hi level
  · exact h.limits.cons_cons _

theorem GridAnswer.sell (hbase : base = min (ctx (params.quotePerLevel / level)) remainingSell)
    (hpos : 0 < base)
    (h : GridAnswer params close existing levels remainingBuy (ctx (remainingSell - base)) intents)
    (hfree : FreeAbove close existing level) :
    GridAnswer params close existing (level :: levels) remainingBuy remainingSell
      (gridSell level base :: intents) := by
  have hbelow : ¬ FreeBelow close existing level := fun h => hfree.2.not_gt h.2
  have hfilter : (level :: levels).filter (FreeAbove close existing)
      = level :: levels.filter (FreeAbove close existing) :=
    filter_cons_of_pos (by simpa using hfree)
  refine ⟨?_, ?_, fun i hi => ?_, ?_⟩
  · rw [filter_cons_of_neg (by simpa using hbelow), map_cons, sum_cons, h.quotes]
    exact zero_add _
  · rw [hfilter, map_cons, map_cons, sum_cons, sum_allot_cons,
      if_pos (hbase ▸ hpos), ← hbase, h.bases]
    rfl
  · rcases mem_cons.mp hi with rfl | hi
    · exact .inr ⟨level, hfilter ▸ mem_cons_self, base, rfl⟩
    · exact h.each_cons hi level
  · exact h.limits.cons_cons _

end GridAnswer

theorem gridIntents_eq_ok
    (h : gridIntents params close existing levels remainingBuy remainingSell = .ok intents) :
    GridAnswer params close existing levels remainingBuy remainingSell intents := by
  induction levels generalizing remainingBuy remainingSell intents with
  | nil =>
    obtain rfl := ok.inj h
    exact ⟨rfl, rfl, fun _ hi => (nomatch hi), .slnil⟩
  | cons level levels ih =>
    unfold gridIntents at h
    split at h
    · rename_i hlevel
      exact (ih h).pass (fun hfree => absurd hlevel (not_or.mpr ⟨hfree.2.ne, hfree.1⟩))
        fun hfree => absurd hlevel (not_or.mpr ⟨hfree.2.ne', hfree.1⟩)
    rename_i hfree
    rw [not_or] at hfree
    split at h
    · rename_i hbelow
      dsimp only at h
      split at h
      · rename_i hnone
        exact (ih h).pass (fun _ => hnone) fun hfree => absurd hbelow hfree.2.not_gt
      · rename_i hpos
        obtain ⟨intent, hintent, h⟩ := of_bind h
        obtain ⟨rest, hrest, h⟩ := of_bind h
        obtain rfl := ok.inj h
        obtain rfl := validated_eq_ok hintent
        exact (ih hrest).buy rfl (not_le.mp hpos) ⟨hfree.2, hbelow⟩
    · rename_i hbelow
      have habove : close < level := lt_of_le_of_ne (not_lt.mp hbelow) (Ne.symm hfree.1)
      dsimp only at h
      split at h
      · rename_i hnone
        exact (ih h).pass (fun hfree => absurd hfree.2 hbelow) fun _ => hnone
      · rename_i hpos
        obtain ⟨intent, hintent, h⟩ := of_bind h
        obtain ⟨rest, hrest, h⟩ := of_bind h
        obtain rfl := ok.inj h
        obtain rfl := validated_eq_ok hintent
        exact (ih hrest).sell rfl (not_le.mp hpos) ⟨hfree.2, habove⟩

end Answers

/-! ## The new orders -/

section Orders

variable {params : GridParams} {closes : Closes} {existing : List String} {levels : List ℚ}
  {remainingBuy remainingSell top : ℚ} {intents : List OrderIntent} {added older : List Order}

theorem openBuyValue_append (older added : List Order) :
    openBuyValue (older ++ added) = openBuyValue older + openBuyValue added := by
  unfold openBuyValue
  rw [map_append, sum_append]

theorem openSellQuantity_append (older added : List Order) :
    openSellQuantity (older ++ added) = openSellQuantity older + openSellQuantity added := by
  unfold openSellQuantity
  rw [map_append, sum_append]

theorem value_of_buy {level quote : ℚ} {order : Order}
    (h : OrderOf closes (gridBuy level quote) order) (hclose : 0 < closes.spot) (hquote : 0 < quote)
    (htop : level ≤ top) : order.remainingQuantity * order.limitPrice.getD 0
      ≤ (1 + 5 / 10 ^ 28) * (top / closes.spot) * quote := by
  have hquantity : order.remainingQuantity = ctx (quote / closes.spot) :=
    h.remaining.trans (ok.inj h.quantity).symm
  have hlimit : order.limitPrice = some level := h.limitPrice
  have hpos := div_pos hquote hclose
  have hround := rounding_ctx.abs_round_le (quote / closes.spot)
  rw [abs_of_pos hpos, abs_of_nonneg (ctx_nonneg hpos.le)] at hround
  have hlevel : 0 < level := order.limit_pos level (hlimit ▸ rfl)
  rw [hquantity, hlimit, getD_some]
  calc ctx (quote / closes.spot) * level
      ≤ (1 + 5 / 10 ^ 28) * (quote / closes.spot) * top :=
        mul_le_mul hround htop hlevel.le (by positivity)
    _ = (1 + 5 / 10 ^ 28) * (top / closes.spot) * quote := by ring

/-- **What the new orders are worth**: the buys what they are to cost, at the price of the highest
level at most, and the sells what they are of. -/
theorem values_of_placed (hadded : List.Forall₂ (OrderOf closes) intents added)
    (hclose : 0 < closes.spot)
    (heach : ∀ i ∈ intents, (∃ level, level ≤ top ∧ ∃ quote, 0 < quote ∧ i = gridBuy level quote)
      ∨ ∃ level base, i = gridSell level base) :
    openBuyValue added ≤ (1 + 5 / 10 ^ 28) * (top / closes.spot)
        * (intents.map fun i => i.quoteAmount.getD 0).sum
      ∧ openSellQuantity added = (intents.map fun i => i.baseQuantity.getD 0).sum := by
  induction hadded with
  | nil => exact ⟨(mul_zero _).ge, rfl⟩
  | @cons i order intents added horder _ ih =>
    obtain ⟨hbuys, hsells⟩ := ih fun i hi => heach i (mem_cons_of_mem _ hi)
    rw [← singleton_append, openBuyValue_append, openSellQuantity_append, map_cons,
      map_cons, sum_cons, sum_cons, mul_add, hsells]
    rcases heach i mem_cons_self with ⟨level, hlevel, quote, hquote, rfl⟩ | ⟨level, base, rfl⟩
    · have hside : order.side = .buy := horder.side
      have hvalue := value_of_buy horder hclose hquote hlevel
      refine ⟨add_le_add ?_ hbuys, congrArg (· + _) ?_⟩
      · simpa [openBuyValue, hside, gridBuy] using hvalue
      · simp [openSellQuantity, hside, gridBuy]
    · have hside : order.side = .sell := horder.side
      have hquantity : order.remainingQuantity = base :=
        horder.remaining.trans (ok.inj horder.quantity).symm
      refine ⟨add_le_add ?_ hbuys, congrArg (· + _) ?_⟩
      · simp [openBuyValue, hside, gridSell]
      · simp [openSellQuantity, hside, hquantity, gridSell]

theorem roundings_le {k : ℕ} (hk : k ≤ 100) :
    (1 + 5 / 10 ^ 28 : ℚ) * (1 + 5 / 10 ^ 28) ^ k ≤ 1 + 1 / 10 ^ 25 := by
  have hone : (1 : ℚ) ≤ 1 + 5 / 10 ^ 28 := by norm_num
  calc (1 + 5 / 10 ^ 28 : ℚ) * (1 + 5 / 10 ^ 28) ^ k
      ≤ (1 + 5 / 10 ^ 28) * (1 + 5 / 10 ^ 28) ^ 100 :=
        mul_le_mul_of_nonneg_left (pow_le_pow_right₀ hone hk) (by norm_num)
    _ ≤ 1 + 1 / 10 ^ 25 := by norm_num

end Orders

/-! ## Room -/

section Room

variable {params : GridParams} {context : StrategyContext} {intents : List OrderIntent}
  {closes : Closes} {added : List Order}

theorem length_prices (params : GridParams) : params.prices.length ≤ 100 := by
  unfold GridParams.prices
  rw [length_map, length_range]
  exact params.levels_mem.2

theorem le_top {level : ℚ} (h : level ∈ params.below context) :
    level ≤ (params.below context).foldr max 0 := by
  generalize params.below context = levels at h
  induction levels with
  | nil => cases h
  | cons l levels ih =>
    rcases mem_cons.mp h with rfl | h
    · exact le_max_left _ _
    · exact (ih h).trans (le_max_right _ _)

theorem top_nonneg (levels : List ℚ) : 0 ≤ levels.foldr max 0 := by
  induction levels with
  | nil => exact le_rfl
  | cons l levels ih => exact ih.trans (le_max_right _ _)

/-- The answer of a decision. -/
abbrev Answered (params : GridParams) (context : StrategyContext) (intents : List OrderIntent) :
    Prop :=
  GridAnswer params context.close context.existing params.prices
    (params.remainingBuy context context.close) (context.quantity .spot) intents

variable (h : Answered params context intents)
include h

theorem Answered.quotes_le :
    (intents.map fun i => i.quoteAmount.getD 0).sum
      ≤ (1 + 5 / 10 ^ 28) ^ (params.below context).length
        * max 0 (min (params.remainingBuy context context.close)
          ((params.below context).length * params.quotePerLevel)) := by
  have hbelow : params.prices.filter (FreeBelow context.close context.existing)
      = params.below context := rfl
  have hone : (1 : ℚ) ≤ (1 + 5 / 10 ^ 28) ^ (params.below context).length :=
    one_le_pow₀ (by norm_num)
  have hasked := sum_allot_le_sum ctx (params.remainingBuy context context.close)
    ((params.below context).map fun _ => params.quotePerLevel) fun cap hcap => by
      obtain ⟨_, -, rfl⟩ := mem_map.mp hcap
      exact params.quotePerLevel_pos.le
  rw [map_const', sum_replicate, nsmul_eq_mul] at hasked
  rw [h.quotes, hbelow, map_const']
  rcases le_total (params.remainingBuy context context.close) 0 with hnone | hsome
  · rw [sum_allot_of_nonpos hnone]
    exact mul_nonneg (zero_le_one.trans hone) (le_max_left _ _)
  · have hbudget := sum_allot_le rounding_ctx hsome
      (List.replicate (params.below context).length params.quotePerLevel)
    rw [length_replicate] at hbudget
    rcases min_choice (params.remainingBuy context context.close)
      ((params.below context).length * params.quotePerLevel) with hmin | hmin
    · rw [hmin, max_eq_right hsome]
      exact hbudget
    · rw [hmin]
      refine hasked.trans ((le_max_right 0 _).trans ?_)
      exact le_mul_of_one_le_left (le_max_left _ _) hone

/-- **What the new buys are worth.** -/
theorem Answered.openBuyValue_le
    (hadded : List.Forall₂ (OrderOf closes) intents added) (hspot : closes.spot = context.close)
    (hclose : 0 < context.close) : openBuyValue added ≤ params.newBuys context
      ∧ openSellQuantity added = (intents.map fun i => i.baseQuantity.getD 0).sum := by
  have heach : ∀ i ∈ intents,
      (∃ level, level ≤ (params.below context).foldr max 0 ∧ ∃ quote, 0 < quote
        ∧ i = gridBuy level quote) ∨ ∃ level base, i = gridSell level base := fun i hi =>
    (h.each i hi).imp (fun ⟨level, hlevel, hbuy⟩ => ⟨level, le_top hlevel, hbuy⟩)
      fun ⟨level, _, base, hsell⟩ => ⟨level, base, hsell⟩
  obtain ⟨hbuys, hsells⟩ := values_of_placed hadded (hspot ▸ hclose) heach
  refine ⟨hbuys.trans ?_, hsells⟩
  rw [hspot]
  have hfactor : 0 ≤ (params.below context).foldr max 0 / context.close :=
    div_nonneg (top_nonneg _) hclose.le
  have hlength : (params.below context).length ≤ 100 :=
    (length_filter_le _ _).trans (length_prices params)
  have hspend : (0 : ℚ) ≤ max 0 (min (params.remainingBuy context context.close)
      ((params.below context).length * params.quotePerLevel)) := le_max_left _ _
  calc _ ≤ (1 + 5 / 10 ^ 28) * ((params.below context).foldr max 0 / context.close)
        * ((1 + 5 / 10 ^ 28) ^ (params.below context).length
          * max 0 (min (params.remainingBuy context context.close)
            ((params.below context).length * params.quotePerLevel))) :=
        mul_le_mul_of_nonneg_left h.quotes_le (mul_nonneg (by norm_num) hfactor)
    _ = max 0 (min (params.remainingBuy context context.close)
          ((params.below context).length * params.quotePerLevel))
        * ((params.below context).foldr max 0 / context.close)
        * ((1 + 5 / 10 ^ 28) * (1 + 5 / 10 ^ 28) ^ (params.below context).length) := by ring
    _ ≤ _ := mul_le_mul_of_nonneg_left (roundings_le hlength) (mul_nonneg hspend hfactor)

/-- **What is sold** fits beside the older sells. -/
theorem Answered.sells_le (hroom : GridRoom params context)
    (hclose : 0 < context.close) (hlong : 0 ≤ context.quantity .spot) :
    openSellQuantity context.openOrders + (intents.map fun i => i.baseQuantity.getD 0).sum
      ≤ context.quantity .spot := by
  have habove : params.prices.filter (FreeAbove context.close context.existing)
      = params.above context := rfl
  rw [h.bases, habove]
  rcases hroom.position with hasked | ⟨hnone, digits, hgrid, hsmall, hlevels⟩
  · refine le_trans (add_le_add_right (sum_allot_le_sum _ _ _ fun cap hcap => ?_) _) hasked
    obtain ⟨level, hlevel, rfl⟩ := mem_map.mp hcap
    have hfree := of_decide_eq_true (mem_filter.mp hlevel).2
    exact ctx_nonneg (div_nonneg params.quotePerLevel_pos.le (hclose.trans hfree.2).le)
  · rw [hnone, zero_add]
    refine sum_allot_le_of_exact (G := OnGrid digits) (fun x y hx hy => hx.sub hy) ?_ ?_ hgrid hlong
    · intro x hx hpos hle
      exact hx.roundSig_eq (by rw [abs_of_nonneg hpos]; exact hle.trans_lt hsmall)
    · intro cap hcap
      obtain ⟨level, hlevel, rfl⟩ := mem_map.mp hcap
      exact hlevels level hlevel

end Room

/-! ## Runs -/

section Runs

variable {params : GridParams} {spec : BacktestSpec} {bundle : MarketBundle} {r : Run Unit}
  {n : ℕ}

/-- **One order for each level**: no two have one limit price, and each is in the group of its
level. -/
structure OnLevels (openOrders : List Order) : Prop where
  nodup : (openOrders.map fun o : Order => o.limitPrice).Nodup
  group : ∀ o ∈ openOrders, ∃ level, o.limitPrice = some level ∧ o.groupId = some (gridGroup level)

variable {openOrders : List Order}

theorem OnLevels.sublist {kept : List Order} (h : OnLevels openOrders)
    (hkept : kept.Sublist openOrders) : OnLevels kept :=
  ⟨h.nodup.sublist (hkept.map _), fun o ho => h.group o (hkept.subset ho)⟩

variable {added : List Order} {closes : Closes} {intents : List OrderIntent}

theorem limits_of_placed (h : List.Forall₂ (OrderOf closes) intents added) :
    added.map (fun o : Order => o.limitPrice) = intents.map OrderIntent.limitPrice := by
  induction h with
  | nil => rfl
  | cons horder _ ih => rw [map_cons, map_cons, horder.limitPrice, ih]

theorem intent_of_placed (h : List.Forall₂ (OrderOf closes) intents added) {order : Order}
    (horder : order ∈ added) : ∃ i ∈ intents, OrderOf closes i order := by
  induction h with
  | nil => cases horder
  | cons hfirst _ ih =>
    rcases mem_cons.mp horder with rfl | horder
    · exact ⟨_, mem_cons_self, hfirst⟩
    · obtain ⟨i, hi, hof⟩ := ih horder
      exact ⟨i, mem_cons_of_mem _ hi, hof⟩

/-- **The new orders** are at levels without an order. -/
theorem OnLevels.append {context : StrategyContext} (h : OnLevels context.openOrders)
    (hlevels : params.prices.Nodup) (hanswer : Answered params context intents)
    (hadded : List.Forall₂ (OrderOf closes) intents added) :
    OnLevels (context.openOrders ++ added) := by
  have hnew : ∀ o ∈ added, ∃ level, o.limitPrice = some level
      ∧ o.groupId = some (gridGroup level) ∧ gridGroup level ∉ context.existing := fun o ho => by
    obtain ⟨i, hi, hof⟩ := intent_of_placed hadded ho
    rcases hanswer.each i hi with ⟨level, hlevel, quote, -, rfl⟩ | ⟨level, hlevel, base, rfl⟩
    · have hfree := of_decide_eq_true (mem_filter.mp hlevel).2
      exact ⟨level, hof.limitPrice, hof.groupId, hfree.1⟩
    · have hfree := of_decide_eq_true (mem_filter.mp hlevel).2
      exact ⟨level, hof.limitPrice, hof.groupId, hfree.1⟩
  refine ⟨?_, fun o ho => ?_⟩
  · rw [map_append]
    refine h.nodup.append ?_ ?_
    · rw [limits_of_placed hadded]
      exact (hlevels.map (some_injective _)).sublist hanswer.limits
    · intro limit hold hlimit
      obtain ⟨old, hmem, rfl⟩ := mem_map.mp hold
      obtain ⟨new, hnew', heq⟩ := mem_map.mp hlimit
      obtain ⟨level, hprice, hgroup⟩ := h.group old hmem
      obtain ⟨level', hprice', -, hfree⟩ := hnew new hnew'
      have hsame : level' = level := some.inj (hprice'.symm.trans (heq.trans hprice))
      exact hfree (hsame ▸ mem_filterMap.mpr ⟨old, hmem, hgroup⟩)
  · rcases mem_append.mp ho with ho | ho
    · exact h.group o ho
    · obtain ⟨level, hprice, hgroup, -⟩ := hnew o ho
      exact ⟨level, hprice, hgroup⟩

theorem OnLevels.length_le (h : OnLevels openOrders) (level : ℚ) :
    (openOrders.filter fun o => o.limitPrice = some level).length ≤ 1 := by
  have hcount := nodup_iff_count_le_one.mp h.nodup (some level)
  rw [List.count, countP_map] at hcount
  rw [← countP_eq_length_filter]
  refine le_of_eq_of_le (countP_congr fun o _ => ?_) hcount
  simp

theorem answered_of_decided {bar : Bar} {r prepared : Run Unit} {d : Decision Unit}
    (h : Decided (gridRebalance params) spec bundle () n bar r prepared closes d) :
    d.context.close = bar.close ∧ Answered params d.context d.intents := by
  have hlast : d.context.bars.getLast? = some bar := by
    rw [h.context_eq]
    exact contextAt_last h.bar_eq
  have hclose : d.context.close = bar.close := by
    unfold StrategyContext.close
    rw [hlast]
    rfl
  have hanswer : gridOnBar params d.before d.context = .ok (d.after, d.intents) := h.answer
  refine ⟨hclose, ?_⟩
  unfold gridOnBar at hanswer
  rw [hlast] at hanswer
  dsimp only at hanswer
  rw [if_neg (not_le.mpr h.prepare_eq.close_pos)] at hanswer
  obtain ⟨intents, hintents, hout⟩ := of_bind hanswer
  obtain ⟨-, rfl⟩ := Prod.mk.inj (ok.inj hout)
  unfold Answered
  rw [hclose]
  exact gridIntents_eq_ok hintents

/-- **One order for each level**, after every bar. -/
theorem onLevels_of_runBars (hlevels : params.prices.Nodup)
    (h : runBars (gridRebalance params) spec bundle () n = .ok r) : OnLevels r.openOrders := by
  induction n generalizing r with
  | zero =>
    obtain ⟨-, portfolio, -, rfl⟩ := runBars_zero h
    exact ⟨nodup_nil, fun _ ho => (nomatch ho)⟩
  | succ n ih =>
    cases hbar : bundle.primary[n]? with
    | none => exact ih ((runBars_succ_of_none hbar).symm.trans h)
    | some bar =>
      obtain ⟨before, prepared, closes, hbefore, hprepared, hnext⟩ := runBars_succ_eq_ok hbar h
      have hkept : OnLevels prepared.openOrders := (ih hbefore).sublist hprepared.openOrders_sublist
      rcases hnext with ⟨-, rfl⟩ | ⟨d, hd, hdecided, -, hplaced⟩
      · exact hkept
      · obtain ⟨added, hadded, hof⟩ := hplaced.openOrders
        have hcontext : d.context.openOrders = prepared.openOrders := by
          rw [hdecided.context_eq]
          rfl
        rw [hadded]
        have hall := OnLevels.append (hcontext.symm ▸ hkept) hlevels
          (answered_of_decided hdecided).2 hof
        rwa [hcontext] at hall

/-- **The grid stays bounded**, over every run of `GridRebalance` whose levels are apart and at
whose decisions the older orders leave room for the new ones: after each bar the open buys are worth
cash at most, and with the inventory the cap of its weight, the open sells are of the position at
most, and no level has two orders. -/
theorem grid_bounded {params : GridParams} {spec : BacktestSpec} {bundle : MarketBundle} {bars : ℕ}
    (hlevels : params.prices.Nodup)
    (hroom : ∀ n < bars, ∀ d, decisionAt (gridRebalance params) spec bundle () n = some d →
      GridRoom params d.context) :
    ∀ n < bars, ∀ bar, bundle.primary[n]? = some bar →
      ∀ r, runBars (gridRebalance params) spec bundle () (n + 1) = .ok r →
        GridBounded params bar r.portfolio r.openOrders := by
  intro n hn bar hbar r hrun
  have honLevels := onLevels_of_runBars hlevels hrun
  obtain ⟨before, prepared, closes, hbefore, hprepared, hnext⟩ := runBars_succ_eq_ok hbar hrun
  obtain ⟨hwarm, -⟩ | ⟨d, hd, hdecided, -, hplaced⟩ := hnext
  · exact absurd hwarm (Nat.not_lt_zero _)
  obtain ⟨hclose, hanswer⟩ := answered_of_decided hdecided
  have hfits := hroom n hn d hd
  obtain ⟨added, hadded, hof⟩ := hplaced.openOrders
  have hportfolio : r.portfolio = prepared.portfolio := hplaced.portfolio
  -- what the decision is shown is the portfolio and the orders of the run
  have hopen : d.context.openOrders = prepared.openOrders := by
    rw [hdecided.context_eq]
    rfl
  have hcash : d.context.portfolio.cash = prepared.portfolio.cash := by
    rw [hdecided.context_eq]
    rfl
  have hequity : d.context.portfolio.equity = prepared.portfolio.equity := by
    rw [hdecided.context_eq]
    rfl
  have hquantity : d.context.quantity .spot = prepared.portfolio.spot.quantity := by
    rw [hdecided.context_eq]
    rfl
  have hspot : closes.spot = d.context.close :=
    (closesOf_spot hprepared.closes_eq).trans hclose.symm
  have hpos : 0 < d.context.close := hclose.symm ▸ hprepared.close_pos
  obtain ⟨hbuys, hsells⟩ := hanswer.openBuyValue_le hof hspot hpos
  have hposition := hanswer.sells_le hfits hpos (hquantity.symm ▸ hprepared.spot_nonneg)
  have hcash' := hfits.cash
  have hinventory := hfits.inventory
  rw [hopen, hcash] at hcash'
  rw [hopen, hquantity, hclose, hequity] at hinventory
  rw [hopen, hquantity, ← hsells] at hposition
  have hall : r.openOrders = prepared.openOrders ++ added := hadded
  refine ⟨?_, ?_, ?_, honLevels.length_le⟩
  · rw [hall, openBuyValue_append, hportfolio]
    linarith
  · rw [hall, openBuyValue_append, hportfolio]
    linarith
  · rw [hall, openSellQuantity_append, hportfolio]
    exact hposition

end Runs

/-! ## A second bar -/

theorem sampleGrid_pos : (0 : ℚ) < 80 ∧ (0 : ℚ) < 120 ∧ (80 : ℚ) < 120 := by norm_num

theorem sampleGrid_levels : 2 ≤ 5 ∧ 5 ≤ 100 := by norm_num

theorem sampleGrid_weight : (0 : ℚ) < 1 ∧ (1 : ℚ) ≤ 1 := by norm_num

def fiveLevels (quotePerLevel : ℚ) (hpos : 0 < quotePerLevel) : GridParams :=
  ⟨80, 120, 5, quotePerLevel, 1, sampleGrid_pos.1, sampleGrid_pos.2.1, sampleGrid_levels, hpos,
    sampleGrid_weight, sampleGrid_pos.2.2⟩

theorem hundred_pos : (0 : ℚ) < 100 := by norm_num

theorem sixThousand_pos : (0 : ℚ) < 6000 := by norm_num

def twoBars : MarketBundle := ⟨[flatBar 0 105, flatBar hour 105], []⟩

theorem nodup_fiveLevels : (fiveLevels 100 hundred_pos).prices.Nodup := by decide +kernel

theorem room_fiveLevels : ∀ n < 2, (decisionAt (gridRebalance (fiveLevels 100 hundred_pos))
    sampleSpec twoBars () n).all (fun d => decide (
      openBuyValue d.context.openOrders + (fiveLevels 100 hundred_pos).newBuys d.context
        ≤ d.context.portfolio.cash
      ∧ d.context.quantity .spot * d.context.close + openBuyValue d.context.openOrders
          + (fiveLevels 100 hundred_pos).newBuys d.context
        ≤ d.context.portfolio.equity * (fiveLevels 100 hundred_pos).maxInventoryWeight
      ∧ openSellQuantity d.context.openOrders = 0 ∧ OnGrid 28 (d.context.quantity .spot)
      ∧ d.context.quantity .spot < 10 ^ 28 / 10 ^ 28
      ∧ ∀ level ∈ (fiveLevels 100 hundred_pos).above d.context,
        OnGrid 28 (ctx ((fiveLevels 100 hundred_pos).quotePerLevel / level)))) = true := by
  decide +kernel

theorem grid_bounded_twoBars : (fiveLevels 100 hundred_pos).prices.Nodup
    ∧ ∀ n < 2, ∀ bar, twoBars.primary[n]? = some bar →
      ∀ r, runBars (gridRebalance (fiveLevels 100 hundred_pos)) sampleSpec twoBars () (n + 1)
        = .ok r → GridBounded (fiveLevels 100 hundred_pos) bar r.portfolio r.openOrders := by
  refine ⟨nodup_fiveLevels, grid_bounded nodup_fiveLevels fun n hn d hd => ?_⟩
  have hall := room_fiveLevels n hn
  rw [hd, all_some] at hall
  obtain ⟨hcash, hinventory, hnone, hgrid, hsmall, hlevels⟩ := of_decide_eq_true hall
  exact ⟨hcash, hinventory, .inr ⟨hnone, 28, hgrid, hsmall, hlevels⟩⟩

/-- After the second bar 6000 are to be bought for at 80 and at 100, and 4000 at 90. -/
theorem sixThousand_second : (runBars (gridRebalance (fiveLevels 6000 sixThousand_pos)) sampleSpec
    twoBars () 2).toOption.map (fun r => decide (openBuyValue r.openOrders ≤ r.portfolio.cash))
    = some false := by
  decide +kernel

/-- **A grid that is not bounded**: the budget of the second bar is the whole cash again, as if the
orders of the first took none of it. -/
theorem grid_overspends : ¬ ∀ (params : GridParams) (spec : BacktestSpec) (bundle : MarketBundle)
    (n : ℕ) (bar : Bar) (r : Run Unit), bundle.primary[n]? = some bar →
    runBars (gridRebalance params) spec bundle () (n + 1) = .ok r →
      GridBounded params bar r.portfolio r.openOrders := by
  intro h
  obtain ⟨r, hr, hvalue⟩ := map_eq_some_iff.mp sixThousand_second
  exact of_decide_eq_false hvalue (h _ _ _ 1 _ r rfl (toOption_eq_some.mp hr)).cash

end Engine

end Qt.Backtest
