import QuantTrading.FreqtradeRouter

/-!
# Decisions of the port

`FreqtradeResearchPort.decide` of `qt.strategy_ports.freqtrade`: an entry where there is no open
trade and nothing blocks it, else an exit or a higher stop.

The router keeps a trade that was closed as its trade. `decide` lets it enter again, but where it
does not enter it goes on with the closed trade as with an open one, and orders exits and stops over
a quantity of zero; and the first fill of the next entry keeps the time of opening, the fees and
the active stop of the closed trade. `closed_trade_iff` says when none of this shows.

The row of the last candle, which the formulas of a strategy compute, is a parameter.
-/

namespace Qt.Nautilus.Freqtrade.Decisions

open Except Option

/-! ## The port -/

/-- The strategies that the port tells apart. -/
inductive Strategy
  | catalog | fearVolume | donchian | lowFreqTrend | multisourceRegime | sota
deriving DecidableEq

/-- What is read of the last row of an evaluated frame. A value that is no finite number is none. -/
structure Row where
  enterLong : Bool
  exitLong : Bool
  enterTag : String
  exitTag : String
  close : Option ℚ
  atr : Option ℚ
  realizedVol : Option ℚ

/-- What a decision needs of the port: `_risk_parameters` may raise. -/
structure Port where
  cfg : Setup
  strategy : Strategy
  minimalRoi : ℚ
  riskParameters : Except Exc (ℚ × ℚ)
  targetAnnualVol : ℚ

def finitePositive (value : Option ℚ) (name : String) : Except Exc ℚ :=
  match value with
  | some x =>
    if 0 < x then .ok x else .error (.valueError (name ++ " is missing or non-positive"))
  | none => .error (.valueError (name ++ " is missing or non-positive"))

def calculateAtrStop (entryPrice atr atrMultiple : ℚ) : Except Exc ℚ := do
  raiseIf (entryPrice ≤ 0) (.valueError "entry_price must be positive")
  raiseIf (atr ≤ 0) (.valueError "atr must be positive")
  raiseIf (atrMultiple ≤ 0) (.valueError "atr_multiple must be positive")
  return max 0 (entryPrice - atr * atrMultiple)

/-- The stake of `calculate_position_size`. -/
def calculatePositionSize (equity entryPrice stopPrice riskFraction maxPositionValue
    minPositionValue : ℚ) : Except Exc ℚ := do
  raiseIf (equity ≤ 0) (.valueError "equity must be positive")
  raiseIf (entryPrice ≤ 0) (.valueError "entry_price must be positive")
  raiseIf (¬ (0 < stopPrice ∧ stopPrice < entryPrice))
    (.valueError "stop_price must be between zero and entry_price")
  raiseIf (¬ (0 < riskFraction ∧ riskFraction < 1))
    (.valueError "risk_fraction must be between zero and one")
  raiseIf (maxPositionValue ≤ 0) (.valueError "max_position_value must be positive")
  raiseIf (minPositionValue < 0) (.valueError "min_position_value cannot be negative")
  let rawStake := equity * riskFraction / ((entryPrice - stopPrice) / entryPrice)
  let stake := min rawStake maxPositionValue
  return if stake < minPositionValue then 0 else stake

/-- The amounts that `decide` is called with. -/
structure Amounts where
  equity : ℚ
  maxStake : ℚ
  minStake : ℚ
  proposedStake : Option ℚ

variable (port : Port) (row : Row)

/-- The stake of the strategies that size by risk. -/
def sizedStake (amounts : Amounts) (close stop riskFraction : ℚ) : Except Exc ℚ := do
  let size ← calculatePositionSize amounts.equity close stop riskFraction amounts.maxStake
    amounts.minStake
  if port.strategy = .sota then
    let realizedVol ← finitePositive row.realizedVol "realized_vol"
    let volatilityCap := amounts.equity * port.targetAnnualVol / realizedVol
    let size := max 0 (min (min size volatilityCap) amounts.maxStake)
    return if size < amounts.minStake then 0 else size
  else return size

def stakeAndStop (amounts : Amounts) : Except Exc (ℚ × ℚ) := do
  let close ← finitePositive row.close "close"
  let atr ← finitePositive row.atr "atr"
  let (riskFraction, atrMultiple) ← port.riskParameters
  let stop ← calculateAtrStop close atr atrMultiple
  if port.strategy = .lowFreqTrend then
    match amounts.proposedStake with
    | none => .error (.valueError ("btc_low_freq_trend has no source custom stake callback; "
        ++ "native proposed_stake is required"))
    | some proposed =>
      if amounts.maxStake < proposed then
        .error (.valueError "native proposed_stake exceeds max_stake")
      else return (proposed, stop)
  else
    let size ← sizedStake port row amounts close stop riskFraction
    return (size, stop)

def hardStop (cfg : Setup) (entryPrice : ℚ) : ℚ := entryPrice * (1 + cfg.hardStoploss)

/-- `roi_exit_reached`, at a rate that is positive. -/
def RoiExitReached (t : TradeState) (currentRate : ℚ) : Prop :=
  port.minimalRoi ≤ currentRate / t.entryPrice - 1
deriving Decidable

/-- The stop that the source formula puts. -/
def sourceStop (t : TradeState) (close : ℚ) : Except Exc ℚ :=
  if port.strategy = .sota then .ok t.initialStop
  else do
    let atr ← finitePositive row.atr "atr"
    let (_, atrMultiple) ← port.riskParameters
    return max (close - atr * atrMultiple) (t.entryPrice - atr * atrMultiple)

def stopForOpenTrade (t : TradeState) : Except Exc (Option ℚ) := do
  let close ← finitePositive row.close "close"
  let source ← sourceStop port row t close
  let candidate := max (max source (hardStop port.cfg t.entryPrice)) t.activeStop
  return if candidate ≤ t.activeStop ∨ close ≤ candidate then none else some candidate

def entryBlockReason (state : ProtectionState) (timestamp : ℕ) : Option String :=
  if ∃ t ∈ state.cooldownUntil, timestamp < t then some "cooldown"
  else if ∃ t ∈ state.drawdownUntil, timestamp < t then some "max_drawdown"
  else none

/-- `FreqtradeDecision`: what it tells apart from others of the port. -/
structure Decision where
  timestamp : ℕ
  orders : List FreqtradeOrder
  protectionState : ProtectionState

variable (decisionAt : ℕ)

def entryOrders (amounts : Amounts) : Except Exc (List FreqtradeOrder) := do
  let (stake, stop) ← stakeAndStop port row amounts
  if 0 < stake then
    let close ← finitePositive row.close "close"
    return [⟨.enterLong, stake / close, some stop, row.enterTag, some (close - stop),
      orderId port.cfg decisionAt .enterLong 0⟩]
  else return []

/-- The order that a trade gets where nothing is entered. -/
def tradeOrders (t : TradeState) : Except Exc (List FreqtradeOrder) := do
  let close ← finitePositive row.close "close"
  if RoiExitReached port t close then
    return [⟨.exitLong, t.remainingQuantity, none, "minimal_roi", none,
      orderId port.cfg decisionAt .exitLong 0⟩]
  else if row.exitLong then
    return [⟨.exitLong, t.remainingQuantity, none, row.exitTag, none,
      orderId port.cfg decisionAt .exitLong 0⟩]
  else
    let updatedStop ← stopForOpenTrade port row t
    return (updatedStop.map fun stop => ⟨.replaceStop, t.remainingQuantity, some stop, "atr_stop",
      none, orderId port.cfg decisionAt .replaceStop 0⟩).toList

/-- An entry is looked for. -/
def Entering (protections : ProtectionState) (trade : Option TradeState) : Prop :=
  (∀ t ∈ trade, t.IsClosed) ∧ entryBlockReason protections decisionAt = none ∧ row.enterLong = true

instance (row : Row) (decisionAt : ℕ) (protections : ProtectionState)
    (trade : Option TradeState) : Decidable (Entering row decisionAt protections trade) :=
  inferInstanceAs (Decidable (_ ∧ _))

def decideOrders (amounts : Amounts) (trade : Option TradeState) (protections : ProtectionState) :
    Except Exc (List FreqtradeOrder) :=
  if Entering row decisionAt protections trade then entryOrders port row decisionAt amounts
  else match trade with
  | none => .ok []
  | some t => tradeOrders port row decisionAt t

private theorem no_points_ordered :
    ([] : List EquityPoint).Pairwise fun p q => p.closedAt ≤ q.closedAt := .nil

/-- **`decide`**, where evaluating the frame gives its last row. -/
def decide (evaluated : Except Exc Row) (decisionAt : ℕ) (amounts : Amounts)
    (trade : Option TradeState) (protectionState : Option ProtectionState) :
    Except Exc Decision := do
  raiseIf (¬ (0 < amounts.equity ∧ 0 < amounts.maxStake))
    (.valueError "equity and max_stake must be finite and positive")
  raiseIf (amounts.minStake < 0) (.valueError "min_stake must be finite and non-negative")
  raiseIf (∃ stake ∈ amounts.proposedStake, stake ≤ 0)
    (.valueError "proposed_stake must be finite and positive when supplied")
  let last ← evaluated
  let protections := protectionState.getD ⟨none, none, [], no_points_ordered⟩
  let orders ← decideOrders port last decisionAt amounts trade protections
  return ⟨decisionAt, orders, protections⟩

/-! ## Decisions with a closed trade -/

section Closed

variable {port : Port} {row : Row} {t : TradeState}

theorem finitePositive_eq_ok {value : Option ℚ} {name : String} {x : ℚ} :
    finitePositive value name = .ok x ↔ value = some x ∧ 0 < x := by
  unfold finitePositive
  cases value with
  | none => simp
  | some y =>
    show (if 0 < y then Except.ok y else .error _) = .ok x ↔ _
    by_cases hy : 0 < y
    · rw [if_pos hy]
      constructor
      · intro h
        obtain rfl := ok.inj h
        exact ⟨rfl, hy⟩
      · intro h
        exact congrArg Except.ok (some.inj h.1)
    · rw [if_neg hy]
      constructor
      · exact fun h => absurd h (by simp)
      · intro h
        exact absurd (some.inj h.1 ▸ h.2) hy

variable {amounts : Amounts} {decisionAt : ℕ}

/-- **What is entered is positive.** -/
theorem entryOrders_pos {orders : List FreqtradeOrder}
    (h : entryOrders port row decisionAt amounts = .ok orders) : ∀ o ∈ orders, 0 < o.quantity := by
  obtain ⟨⟨stake, stop⟩, -, h⟩ := of_bind h
  by_cases hstake : 0 < stake
  · simp only [if_pos hstake] at h
    obtain ⟨close, hclose, h⟩ := of_bind h
    obtain rfl := ok.inj h
    intro o ho
    obtain rfl := List.mem_singleton.mp ho
    exact div_pos hstake (finitePositive_eq_ok.mp hclose).2
  · simp only [if_neg hstake] at h
    obtain rfl := ok.inj h
    simp

/-- The stop of the trade stays where it is. -/
def StopStays (port : Port) (row : Row) (t : TradeState) (close : ℚ) : Prop :=
  ∃ source, sourceStop port row t close = .ok source
    ∧ (max source (hardStop port.cfg t.entryPrice) ≤ t.activeStop
      ∨ close ≤ max (max source (hardStop port.cfg t.entryPrice)) t.activeStop)

/-- **Nothing is ordered for the trade**: the close is a positive number, no exit is due, and the
stop stays where it is. -/
def Idle (port : Port) (row : Row) (t : TradeState) : Prop :=
  ∃ close, row.close = some close ∧ 0 < close ∧ ¬ RoiExitReached port t close
    ∧ row.exitLong = false ∧ StopStays port row t close

theorem stopForOpenTrade_eq_none_iff {close : ℚ} (hclose : row.close = some close)
    (hpos : 0 < close) : stopForOpenTrade port row t = .ok none ↔ StopStays port row t close := by
  unfold stopForOpenTrade
  rw [finitePositive_eq_ok.mpr ⟨hclose, hpos⟩, ok_bind]
  unfold StopStays
  rw [bind_eq_ok]
  refine exists_congr fun source => and_congr_right fun _ => ?_
  set highest := max source (hardStop port.cfg t.entryPrice)
  have hle : max highest t.activeStop ≤ t.activeStop ↔ highest ≤ t.activeStop := by
    rw [max_le_iff]
    exact and_iff_left le_rfl
  rw [← hle]
  show Except.ok (if _ then none else some _) = Except.ok none ↔ _
  split_ifs with hstay
  · exact iff_of_true rfl hstay
  · exact iff_of_false (fun h => some_ne_none _ (ok.inj h)) hstay

/-- **A closed trade that is looked at as a trade** gets no order exactly when it is idle; an order
that it gets is over nothing. -/
theorem tradeOrders_eq_nil_iff (decisionAt : ℕ) :
    tradeOrders port row decisionAt t = .ok [] ↔ Idle port row t := by
  unfold tradeOrders Idle
  constructor
  · intro h
    obtain ⟨close, hclose, h⟩ := of_bind h
    obtain ⟨hsome, hpos⟩ := finitePositive_eq_ok.mp hclose
    by_cases hroi : RoiExitReached port t close
    · rw [if_pos hroi] at h
      exact absurd (ok.inj h) (by simp)
    · rw [if_neg hroi] at h
      by_cases hexit : row.exitLong = true
      · rw [if_pos hexit] at h
        exact absurd (ok.inj h) (by simp)
      · rw [if_neg hexit] at h
        obtain ⟨stop, hstop, h⟩ := of_bind h
        have hnone : stop = none := by
          cases stop with
          | none => rfl
          | some stop => exact absurd (ok.inj h) (by simp)
        exact ⟨close, hsome, hpos, hroi, by simpa using hexit,
          (stopForOpenTrade_eq_none_iff hsome hpos).mp (hnone ▸ hstop)⟩
  · intro h
    obtain ⟨close, hsome, hpos, hroi, hexit, hstays⟩ := h
    rw [finitePositive_eq_ok.mpr ⟨hsome, hpos⟩, ok_bind, if_neg hroi, hexit,
      if_neg Bool.false_ne_true, (stopForOpenTrade_eq_none_iff hsome hpos).mpr hstays]
    rfl

/-- The arguments of a decision are valid. -/
def Amounts.Valid (amounts : Amounts) : Prop :=
  (0 < amounts.equity ∧ 0 < amounts.maxStake) ∧ 0 ≤ amounts.minStake
    ∧ ∀ stake ∈ amounts.proposedStake, 0 < stake
deriving Decidable

/-- The protections that a decision goes by. -/
def active (protectionState : Option ProtectionState) : ProtectionState :=
  protectionState.getD ⟨none, none, [], no_points_ordered⟩

/-- **A decision is that of its orders** where its arguments are valid. -/
theorem decide_of_valid (hvalid : amounts.Valid) (trade : Option TradeState)
    (protectionState : Option ProtectionState) :
    decide port (.ok row) decisionAt amounts trade protectionState
      = decideOrders port row decisionAt amounts trade (active protectionState) >>= fun orders =>
        .ok ⟨decisionAt, orders, active protectionState⟩ := by
  have hproposed : ¬ ∃ stake ∈ amounts.proposedStake, stake ≤ 0 := by
    rintro ⟨stake, hstake, hle⟩
    exact absurd (hvalid.2.2 stake hstake) (not_lt.mpr hle)
  unfold decide
  rw [raiseIf_bind_of_not (not_not.mpr hvalid.1), raiseIf_bind_of_not (not_lt.mpr hvalid.2.1),
    raiseIf_bind_of_not hproposed, ok_bind]
  rfl

/-- What is not valid, or has no last row, raises whatever the trade. -/
theorem decide_of_not_valid {evaluated : Except Exc Row}
    (h : ¬ (amounts.Valid ∧ ∃ row, evaluated = .ok row)) (trade trade' : Option TradeState)
    (protectionState : Option ProtectionState) :
    (∀ decision, decide port evaluated decisionAt amounts trade protectionState ≠ .ok decision)
      ∧ decide port evaluated decisionAt amounts trade protectionState
        = decide port evaluated decisionAt amounts trade' protectionState := by
  unfold decide
  by_cases hequity : 0 < amounts.equity ∧ 0 < amounts.maxStake
  · rw [raiseIf_bind_of_not (not_not.mpr hequity), raiseIf_bind_of_not (not_not.mpr hequity)]
    by_cases hmin : amounts.minStake < 0
    · rw [raiseIf_bind_of hmin, raiseIf_bind_of hmin]
      simp
    · rw [raiseIf_bind_of_not hmin, raiseIf_bind_of_not hmin]
      by_cases hproposed : ∃ stake ∈ amounts.proposedStake, stake ≤ 0
      · rw [raiseIf_bind_of hproposed, raiseIf_bind_of hproposed]
        simp
      · rw [raiseIf_bind_of_not hproposed, raiseIf_bind_of_not hproposed]
        have hvalid : amounts.Valid := ⟨hequity, not_lt.mp hmin, fun stake hstake =>
          not_le.mp fun hle => hproposed ⟨stake, hstake, hle⟩⟩
        cases hrow : evaluated with
        | error e => simp
        | ok row => exact absurd ⟨hvalid, row, hrow⟩ h
  · rw [raiseIf_bind_of hequity, raiseIf_bind_of hequity]
    simp

/-- The decision with a closed trade is right: it enters, or the trade is idle. -/
def DecidesAsNone (port : Port) (evaluated : Except Exc Row) (decisionAt : ℕ) (amounts : Amounts)
    (protectionState : Option ProtectionState) (t : TradeState) : Prop :=
  ∀ row, evaluated = .ok row → amounts.Valid →
    Entering row decisionAt (active protectionState) none ∨ Idle port row t

theorem entering_closed {protections : ProtectionState} (hclosed : t.IsClosed) :
    Entering row decisionAt protections (some t) ↔ Entering row decisionAt protections none :=
  and_congr_left fun _ => iff_of_true (fun t' ht' => mem_some_iff.mp ht' ▸ hclosed) (by simp)

/-- **The decision with a closed trade is that without a trade, and over positive quantities,**
exactly when it enters or the trade is idle. -/
theorem decide_closed_iff (evaluated : Except Exc Row) (decisionAt : ℕ) (amounts : Amounts)
    (protectionState : Option ProtectionState) (hclosed : t.IsClosed) :
    (decide port evaluated decisionAt amounts (some t) protectionState
        = decide port evaluated decisionAt amounts none protectionState
      ∧ ∀ decision,
        decide port evaluated decisionAt amounts (some t) protectionState = .ok decision →
        ∀ o ∈ decision.orders, 0 < o.quantity)
      ↔ DecidesAsNone port evaluated decisionAt amounts protectionState t := by
  by_cases hvalid : amounts.Valid ∧ ∃ row, evaluated = .ok row
  · obtain ⟨hvalid, row, rfl⟩ := hvalid
    have hiff : DecidesAsNone port (.ok row) decisionAt amounts protectionState t
        ↔ Entering row decisionAt (active protectionState) none ∨ Idle port row t :=
      ⟨fun h => h row rfl hvalid, fun h row' hrow' _ => ok.inj hrow' ▸ h⟩
    rw [hiff, decide_of_valid hvalid, decide_of_valid hvalid]
    unfold decideOrders
    by_cases hentering : Entering row decisionAt (active protectionState) none
    · rw [if_pos ((entering_closed hclosed).mpr hentering), if_pos hentering]
      refine iff_of_true ⟨rfl, fun decision hdecision => ?_⟩ (.inl hentering)
      obtain ⟨orders, horders, hdecision⟩ := of_bind hdecision
      obtain rfl := ok.inj hdecision
      exact entryOrders_pos horders
    · rw [if_neg fun h => hentering ((entering_closed hclosed).mp h), if_neg hentering,
        or_iff_right hentering, ← tradeOrders_eq_nil_iff decisionAt]
      show (tradeOrders port row decisionAt t >>= _) = .ok _ ∧ _ ↔ _
      constructor
      · intro h
        obtain ⟨orders, horders, hdecision⟩ := of_bind h.1
        have hnil : orders = [] := congrArg Decision.orders (ok.inj hdecision)
        rw [horders, hnil]
      · intro h
        rw [h]
        refine ⟨rfl, fun decision hdecision => ?_⟩
        obtain ⟨orders, horders, hdecision⟩ := of_bind hdecision
        obtain rfl : [] = orders := ok.inj (h.symm.trans horders)
        obtain rfl := ok.inj hdecision
        simp
  · refine iff_of_true ⟨?_, fun decision hdecision => ?_⟩ fun row hrow hv => ?_
    · exact (decide_of_not_valid hvalid (some t) none protectionState).2
    · exact absurd hdecision ((decide_of_not_valid hvalid (some t) none protectionState).1 decision)
    · exact absurd ⟨hv, row, hrow⟩ hvalid

/-! ## The first fill after a closed trade -/

/-- What an entry fill is looked at for: the prices, the quantity, the time of opening and the
fees. -/
structure Entry where
  entryPrice : ℚ
  initialStop : ℚ
  activeStop : ℚ
  remainingQuantity : ℚ
  openedAt : ℕ
  totalFees : ℚ
deriving DecidableEq

def entryOf (t : TradeState) : Entry :=
  ⟨t.entryPrice, t.initialStop, t.activeStop, t.remainingQuantity, t.openedAt, t.totalFees⟩

structure EntryFill where
  order : FreqtradeOrder
  price : ℚ
  qty : ℚ
  filledAt : ℕ
  fees : ℚ
  action_eq : order.action = .enterLong

/-- What `on_fill` makes of a fill of an entry. -/
def EntryFill.apply (cfg : Setup) (fill : EntryFill) (trade : Option TradeState) :
    Except Exc Entry :=
  (onFill cfg fill.order fill.price fill.qty fill.filledAt fill.fees trade).map entryOf

/-- The fill is refused without a trade. -/
def EntryFill.Refused (fill : EntryFill) : Prop :=
  fill.order.orderId = "" ∨ fill.price ≤ 0 ∨ fill.qty ≤ 0 ∨ fill.fees < 0
    ∨ fill.order.quantity + tolerance < fill.qty

/-- **A closed trade leaves no trace**: where the fill is taken, it has not filled the order, and
where there is room for a stop, it was opened with the fill, has no fees, and has no higher stop. -/
def EntryFill.FillsAsNone (cfg : Setup) (fill : EntryFill) (t : TradeState) : Prop :=
  ¬ fill.Refused → t.filledQuantities fill.order.orderId + fill.qty
      ≤ fill.order.quantity + tolerance
    ∧ ∀ d, fill.order.stopDistance = some d → t.openedAt ≤ fill.filledAt
      ∧ (0 < d → d < fill.price → t.openedAt = fill.filledAt ∧ t.totalFees = 0
        ∧ t.activeStop ≤ max (fill.price - d) (hardStop cfg fill.price))

structure ClosedTrade (t : TradeState) : Prop where
  formed : t.WellFormed
  closed : t.IsClosed
  fills : ∀ id, 0 ≤ t.filledQuantities id

section Fill

variable {cfg : Setup} {fill : EntryFill}

/-- The entry that a fill alone makes. -/
def EntryFill.alone (cfg : Setup) (fill : EntryFill) (d : ℚ) : Entry where
  entryPrice := fill.price
  initialStop := fill.price - d
  activeStop := max (fill.price - d) (hardStop cfg fill.price)
  remainingQuantity := fill.qty
  openedAt := fill.filledAt
  totalFees := fill.fees

/-- **What `_apply_entry_fill` makes of a fill**, with a trade of which nothing is left or without
one. -/
theorem applyEntryFill_eq {trade : Option TradeState} (hprice : 0 < fill.price)
    (hqty : 0 < fill.qty) (hfees : 0 ≤ fill.fees) (htrade : ∀ t ∈ trade, ClosedTrade t) :
    (applyEntryFill cfg fill.order fill.price fill.qty fill.filledAt fill.fees trade).map entryOf
      = match fill.order.stopDistance with
        | none => .error (.valueError "entry order requires a source-calculated ATR stop distance")
        | some d =>
          if ∃ t ∈ trade, fill.filledAt < t.openedAt then
            .error (.valueError "entry fill timestamp precedes the existing position")
          else if d ≤ 0 ∨ fill.price ≤ d then
            .error (.valueError "entry fill cannot produce a valid source ATR stop")
          else .ok { fill.alone cfg d with
            activeStop := max (fill.alone cfg d).activeStop
              ((trade.map TradeState.activeStop).getD 0)
            openedAt := (trade.map TradeState.openedAt).getD fill.filledAt
            totalFees := fill.fees + (trade.map TradeState.totalFees).getD 0 } := by
  have hremaining : remainingOf trade = 0 := by
    cases trade with
    | none => rfl
    | some t => exact (htrade t rfl).closed
  have hstake : stakeOf trade = 0 := by
    cases trade with
    | none => rfl
    | some t => exact (htrade t rfl).formed.flat.mp (htrade t rfl).closed
  have htotal : 0 ≤ fill.fees + (trade.map TradeState.totalFees).getD 0 := by
    cases trade with
    | none => simpa using hfees
    | some t => exact add_nonneg hfees (htrade t rfl).formed.totalFees
  have hentry : fill.price * fill.qty / fill.qty = fill.price := mul_div_cancel_right₀ _ hqty.ne'
  unfold applyEntryFill
  cases fill.order.stopDistance with
  | none => rfl
  | some d =>
    dsimp only
    rw [hremaining, hstake, zero_add, zero_add, hentry]
    by_cases hlate : ∃ t ∈ trade, fill.filledAt < t.openedAt
    · rw [raiseIf_bind_of hlate, if_pos hlate]
      rfl
    · rw [raiseIf_bind_of_not hlate, if_neg hlate]
      have hroom : fill.price - d ≤ 0 ∨ fill.price ≤ fill.price - d ↔ d ≤ 0 ∨ fill.price ≤ d := by
        constructor <;> rintro (h | h)
        · exact .inr (by linarith)
        · exact .inl (by linarith)
        · exact .inr (by linarith)
        · exact .inl (by linarith)
      by_cases hinvalid : d ≤ 0 ∨ fill.price ≤ d
      · rw [raiseIf_bind_of (hroom.mpr hinvalid), if_pos hinvalid]
        rfl
      · rw [raiseIf_bind_of_not fun h => hinvalid (hroom.mp h), if_neg hinvalid]
        obtain ⟨hd, hlt⟩ := not_or.mp hinvalid
        have hstop : 0 < fill.price - d := by linarith
        rw [TradeState.postInit_eq_ok_iff.mpr ⟨rfl, ?_⟩]
        · rfl
        · exact ⟨hprice, (mul_pos hprice hqty).le, hqty.le,
            iff_of_false hqty.ne' (mul_pos hprice hqty).ne', ⟨hstop, by dsimp only; linarith⟩,
            hstop.trans_le ((le_max_left _ _).trans (le_max_left _ _)), htotal⟩

/-- What is refused without a trade is refused with a closed one. -/
theorem apply_of_refused {t : TradeState} (ht : ClosedTrade t) (h : fill.Refused) :
    fill.apply cfg (some t) = fill.apply cfg none := by
  unfold EntryFill.apply onFill
  by_cases hid : fill.order.orderId = ""
  · rw [raiseIf_bind_of hid, raiseIf_bind_of hid]
  · rw [raiseIf_bind_of_not hid, raiseIf_bind_of_not hid]
    by_cases hprice : fill.price ≤ 0
    · rw [raiseIf_bind_of hprice, raiseIf_bind_of hprice]
    · rw [raiseIf_bind_of_not hprice, raiseIf_bind_of_not hprice]
      by_cases hqty : fill.qty ≤ 0
      · rw [raiseIf_bind_of hqty, raiseIf_bind_of hqty]
      · rw [raiseIf_bind_of_not hqty, raiseIf_bind_of_not hqty]
        by_cases hfees : fill.fees < 0
        · rw [raiseIf_bind_of hfees, raiseIf_bind_of hfees]
        · rw [raiseIf_bind_of_not hfees, raiseIf_bind_of_not hfees]
          have hexceeds : fill.order.quantity + tolerance < fill.qty :=
            (((h.resolve_left hid).resolve_left hprice).resolve_left hqty).resolve_left hfees
          have hprior : 0 ≤ priorFill fill.order.orderId (some t) := ht.fills _
          have hnone : priorFill fill.order.orderId none = 0 := rfl
          rw [raiseIf_bind_of (by linarith), raiseIf_bind_of (by linarith)]

theorem apply_of_not_refused (h : ¬ fill.Refused) (trade : Option TradeState) : fill.apply cfg trade
      = if fill.order.quantity + tolerance < priorFill fill.order.orderId trade + fill.qty then
          .error (.valueError "fills exceed submitted order quantity")
        else (applyEntryFill cfg fill.order fill.price fill.qty fill.filledAt fill.fees trade).map
          entryOf := by
  obtain ⟨hid, h⟩ := not_or.mp h
  obtain ⟨hprice, h⟩ := not_or.mp h
  obtain ⟨hqty, h⟩ := not_or.mp h
  obtain ⟨hfees, -⟩ := not_or.mp h
  unfold EntryFill.apply onFill
  rw [raiseIf_bind_of_not hid, raiseIf_bind_of_not hprice, raiseIf_bind_of_not hqty,
    raiseIf_bind_of_not hfees, fill.action_eq]
  split_ifs with hexceeds
  · rw [raiseIf_bind_of hexceeds]
    rfl
  · rw [raiseIf_bind_of_not hexceeds]

/-- Two entries of one fill are the same when the second keeps nothing of a closed trade. -/
theorem alone_eq_iff {t : TradeState} {d : ℚ} (hstop : 0 < fill.price - d) :
    ({ fill.alone cfg d with
        activeStop := max (fill.alone cfg d).activeStop t.activeStop
        openedAt := t.openedAt
        totalFees := fill.fees + t.totalFees } : Entry)
      = { fill.alone cfg d with
        activeStop := max (fill.alone cfg d).activeStop 0
        openedAt := fill.filledAt
        totalFees := fill.fees + 0 }
      ↔ t.openedAt = fill.filledAt ∧ t.totalFees = 0
        ∧ t.activeStop ≤ max (fill.price - d) (hardStop cfg fill.price) := by
  have hzero : max (fill.alone cfg d).activeStop 0 = (fill.alone cfg d).activeStop :=
    max_eq_left (hstop.le.trans (le_max_left _ _))
  rw [hzero, Entry.mk.injEq]
  have hfees : fill.fees + t.totalFees = fill.fees + 0 ↔ t.totalFees = 0 := add_right_inj _
  rw [hfees, max_eq_left_iff]
  show _ ∧ _ ∧ t.activeStop ≤ max (fill.price - d) (hardStop cfg fill.price) ∧ _ ∧ _ ∧ _ ↔ _
  tauto

/-- **A fill of an entry with a closed trade is that without a trade** exactly when the closed trade
leaves no trace. -/
theorem fill_closed_iff {t : TradeState} (ht : ClosedTrade t) :
    fill.apply cfg (some t) = fill.apply cfg none ↔ fill.FillsAsNone cfg t := by
  by_cases hrefused : fill.Refused
  · exact iff_of_true (apply_of_refused ht hrefused) fun h => absurd hrefused h
  · have hiff : fill.FillsAsNone cfg t ↔ _ := forall_prop_of_true hrefused
    rw [hiff, apply_of_not_refused hrefused, apply_of_not_refused hrefused]
    obtain ⟨-, h⟩ := not_or.mp hrefused
    obtain ⟨hprice, h⟩ := not_or.mp h
    obtain ⟨hqty, h⟩ := not_or.mp h
    obtain ⟨hfees, hroom⟩ := not_or.mp h
    have hnone : ¬ fill.order.quantity + tolerance
        < priorFill fill.order.orderId none + fill.qty := by
      show ¬ _ < (0 : ℚ) + fill.qty
      rwa [zero_add]
    rw [if_neg hnone, applyEntryFill_eq (not_le.mp hprice) (not_le.mp hqty) (not_lt.mp hfees)
      (fun t' ht' => mem_some_iff.mp ht' ▸ ht),
      applyEntryFill_eq (not_le.mp hprice) (not_le.mp hqty) (not_lt.mp hfees)
      (fun t' ht' => absurd ht' (by simp))]
    by_cases hexceeds : fill.order.quantity + tolerance
        < priorFill fill.order.orderId (some t) + fill.qty
    · rw [if_pos hexceeds]
      refine iff_of_false ?_ fun h => absurd hexceeds (not_lt.mpr h.1)
      cases fill.order.stopDistance with
      | none => simp
      | some d =>
        dsimp only
        split_ifs <;> simp_all
    · rw [if_neg hexceeds]
      refine Iff.trans ?_ (and_iff_right (not_lt.mp hexceeds)).symm
      cases fill.order.stopDistance with
      | none => simp
      | some d =>
        have hlate : (∃ t' ∈ some t, fill.filledAt < t'.openedAt) ↔ fill.filledAt < t.openedAt := by
          simp
        have hnever : ¬ ∃ t' ∈ (none : Option TradeState), fill.filledAt < t'.openedAt := by simp
        simp only [Option.some.injEq, forall_eq']
        rw [if_neg hnever]
        by_cases hearly : fill.filledAt < t.openedAt
        · rw [if_pos (hlate.mpr hearly)]
          refine iff_of_false ?_ fun h => absurd hearly (not_lt.mpr h.1)
          split_ifs <;> simp
        · rw [if_neg fun h => hearly (hlate.mp h), and_iff_right (not_lt.mp hearly)]
          by_cases hinvalid : d ≤ 0 ∨ fill.price ≤ d
          · rw [if_pos hinvalid, if_pos hinvalid]
            refine iff_of_true rfl fun hd hlt => ?_
            rcases hinvalid with h | h <;> linarith
          · rw [if_neg hinvalid, if_neg hinvalid]
            obtain ⟨hd, hlt⟩ := not_or.mp hinvalid
            rw [Except.ok.injEq]
            refine (alone_eq_iff (by linarith)).trans ⟨fun h _ _ => h, fun h => ?_⟩
            exact h (not_le.mp hd) (not_le.mp hlt)

end Fill

end Closed

/-- **A closed trade behaves as no trade**: the decision is the same and over positive quantities,
and so is the entry that a fill makes. -/
structure BehavesAsNone (port : Port) (evaluated : Except Exc Row) (decisionAt : ℕ)
    (amounts : Amounts) (protectionState : Option ProtectionState) (fill : EntryFill)
    (t : TradeState) : Prop where
  decision : decide port evaluated decisionAt amounts (some t) protectionState
    = decide port evaluated decisionAt amounts none protectionState
  positive : ∀ decision,
    decide port evaluated decisionAt amounts (some t) protectionState = .ok decision →
    ∀ o ∈ decision.orders, 0 < o.quantity
  fill : fill.apply port.cfg (some t) = fill.apply port.cfg none

/-- **A closed trade behaves as no trade exactly when** the decision enters or the trade is idle,
and the closed trade leaves no trace in the fill. -/
theorem closed_trade_iff (port : Port) (evaluated : Except Exc Row) (decisionAt : ℕ)
    (amounts : Amounts) (protectionState : Option ProtectionState) (fill : EntryFill)
    (t : TradeState) (ht : ClosedTrade t) :
    BehavesAsNone port evaluated decisionAt amounts protectionState fill t
      ↔ DecidesAsNone port evaluated decisionAt amounts protectionState t
        ∧ fill.FillsAsNone port.cfg t := by
  rw [← decide_closed_iff evaluated decisionAt amounts protectionState ht.closed,
    ← fill_closed_iff ht]
  exact ⟨fun h => ⟨⟨h.decision, h.positive⟩, h.fill⟩, fun h => ⟨h.1.1, h.1.2, h.2⟩⟩

section Sample

def samplePort : Port where
  cfg :=
    { strategyName := "btc_quant_catalog", makeQty := id, makePrice := id, baseCurrency := "BTC"
      quoteCurrency := "USDT", cached := true, isoformat := fun _ => "2024-01-01T00:00:00+00:00"
      fingerprint := "fingerprint", hardStoploss := -1 / 4, cooldown := 1, lookback := 180
      tradeLimit := 1, stopDuration := 6, maxAllowedDrawdown := 1 / 10, fromTimestamp := id }
  strategy := .catalog
  minimalRoi := 100
  riskParameters := .ok (1 / 200, 5 / 2)
  targetAnnualVol := 0

/-- A last row with an entry, or with an exit. -/
def sampleRow (enter : Bool) : Row :=
  ⟨enter, ! enter, "enter", "exit", some 100, some 2, none⟩

/-- A trade that was opened and closed at a time, with fees. -/
def sampleTrade (openedAt : ℕ) (fees : ℚ) : TradeState where
  entryPrice := 100
  stakeAmount := 0
  initialStop := 90
  activeStop := 90
  remainingQuantity := 0
  openedAt := openedAt
  totalFees := fees
  filledQuantities := fun _ => 0

theorem sampleTrade_closed (openedAt : ℕ) {fees : ℚ} (hfees : 0 ≤ fees) :
    ClosedTrade (sampleTrade openedAt fees) where
  formed := ⟨by norm_num [sampleTrade], le_rfl, le_rfl, Iff.rfl, by norm_num [sampleTrade],
    by norm_num [sampleTrade], hfees⟩
  closed := rfl
  fills _ := le_rfl

def sampleFill : EntryFill where
  order := ⟨.enterLong, 1, some 95, "enter", some 5, "entry"⟩
  price := 100
  qty := 1
  filledAt := 20
  fees := 1
  action_eq := rfl

/-- An entry after a trade that was opened with its fill and cost nothing. -/
theorem enters_as_none : BehavesAsNone samplePort (.ok (sampleRow true)) 20 ⟨1000, 100, 0, none⟩
    none sampleFill (sampleTrade 20 0) := by
  refine (closed_trade_iff _ _ _ _ _ _ _ (sampleTrade_closed 20 le_rfl)).mpr
    ⟨fun row hrow _ => .inl ?_, fun _ => ⟨?_, fun d hd => ⟨le_rfl, fun _ _ => ⟨rfl, rfl, ?_⟩⟩⟩⟩
  · obtain rfl := ok.inj hrow
    exact ⟨by simp, rfl, rfl⟩
  · norm_num [sampleTrade, sampleFill, tolerance]
  · obtain rfl := some.inj hd
    norm_num [sampleTrade, sampleFill, samplePort, hardStop]

/-- An exit over nothing is ordered for a closed trade. -/
theorem exits_closed_trade : ¬ ∀ (port : Port) (evaluated : Except Exc Row) (decisionAt : ℕ)
    (amounts : Amounts) (protectionState : Option ProtectionState) (fill : EntryFill)
    (t : TradeState), ClosedTrade t →
    BehavesAsNone port evaluated decisionAt amounts protectionState fill t := by
  intro h
  have hsame := (h samplePort (.ok (sampleRow false)) 20 ⟨1000, 100, 0, none⟩ none sampleFill
    (sampleTrade 10 1) (sampleTrade_closed 10 zero_le_one)).decision
  have horders := congrArg (fun d => d.toOption.map fun d => d.orders.map (·.quantity)) hsame
  have hexit : (decide samplePort (.ok (sampleRow false)) 20 ⟨1000, 100, 0, none⟩
      (some (sampleTrade 10 1)) none).toOption.map (fun d => d.orders.map (·.quantity))
      = some [0] := by decide +kernel
  have hnone : (decide samplePort (.ok (sampleRow false)) 20 ⟨1000, 100, 0, none⟩
      none none).toOption.map (fun d => d.orders.map (·.quantity)) = some [] := by decide +kernel
  rw [hexit, hnone] at horders
  exact absurd horders (by simp)

end Sample

end Qt.Nautilus.Freqtrade.Decisions
