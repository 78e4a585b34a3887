import QuantTrading.Lib.DecimalText
import QuantTrading.Lib.Trace
import QuantTrading.Persistence

/-!
# Event-driven reference strategies

`_ReferenceStrategy` of `qt.strategies.event_driven` and its three rules: closed bars come in as
events, signals go out, and the state between two events can be written down as a `StrategyState`
and read by another instance.

A price is a decimal with its representation, since the state holds the text of it. What was read of
a text of at most 128 characters can have a longer text of its own – `.5` is written as `0.5` – and
that text is refused when the state is read: `Legible` says when it is not.

The digits of a text are those of ASCII. The hashes are parameters.
-/

namespace Qt.Strategies

open Except SigDigits Option

/-! ## Values -/

inductive Field
  | null
  | bool (b : Bool)
  | int (n : ℤ)
  | float (x : ℚ)
  | str (text : String)
  | arr (items : List Field)
  | obj (fields : List (String × Field))

/-- A JSON object. -/
abbrev Values := List (String × Field)

/-- What `_decimal` admits of a number: the exponent, the digits left of the point, and
`NUMERIC(38,18)`. -/
def Accepted (d : Decimal) : Prop :=
  |d.exponent| ≤ 1000 ∧ d.leftDigits ≤ 20 ∧ Fits d.value
deriving Decidable

/-- **`_decimal`** of `qt.contracts.base`, of a JSON value: texts of at most 128 characters only. -/
def readDecimal : Field → Option Decimal
  | .str text =>
    if text.length ≤ 128 then (Decimal.parse text).filter fun d => Accepted d else none
  | _ => none

/-- `PositiveDecimal`, with its representation. -/
structure Price where
  amount : Decimal
  accepted : Accepted amount
  pos : 0 < amount.value
deriving DecidableEq

/-- `NonNegativeDecimal`, with its representation. -/
structure Quantity where
  amount : Decimal
  accepted : Accepted amount
  nonneg : 0 ≤ amount.value
deriving DecidableEq

/-- A number that `_decimal` admits, as a price. -/
def Price.ofDecimal (d : Decimal) : Option Price :=
  if h : Accepted d ∧ 0 < d.value then some ⟨d, h.1, h.2⟩ else none

/-- A number that `_decimal` admits, as a quantity. -/
def Quantity.ofDecimal (d : Decimal) : Option Quantity :=
  if h : Accepted d ∧ 0 ≤ d.value then some ⟨d, h.1, h.2⟩ else none

/-- **`_positive`.** -/
def Price.read (value : Field) : Option Price := (readDecimal value).bind Price.ofDecimal

/-- **`_nonnegative`.** -/
def Quantity.read (value : Field) : Option Quantity := (readDecimal value).bind Quantity.ofDecimal

/-- The text of a number that was admitted is read, when it is not too long. -/
theorem readDecimal_str {d : Decimal} (h : Accepted d) :
    readDecimal (.str d.str) = if d.str.length ≤ 128 then some d else none := by
  rw [readDecimal, Decimal.parse_str]
  simp [Option.filter, h]

theorem Price.read_str (p : Price) :
    Price.read (.str p.amount.str) = if p.amount.str.length ≤ 128 then some p else none := by
  rw [Price.read, readDecimal_str p.accepted]
  split
  · exact dif_pos ⟨p.accepted, p.pos⟩
  · rfl

theorem Quantity.read_str (q : Quantity) :
    Quantity.read (.str q.amount.str) = if q.amount.str.length ≤ 128 then some q else none := by
  rw [Quantity.read, readDecimal_str q.accepted]
  split
  · exact dif_pos ⟨q.accepted, q.nonneg⟩
  · rfl

/-! ## Events and bars -/

/-- The greatest timestamp. -/
def maxTimestamp : ℕ := 2 ^ 63 - 1

/-- `TimestampNS`. -/
def readTimestamp : Field → Option ℕ
  | .int n => if 0 ≤ n ∧ n ≤ maxTimestamp then some n.toNat else none
  | _ => none

/-- `MarketEvent`; `others` are the fields that are hashed and not read. -/
structure MarketEvent where
  venue : String
  instrument : String
  eventType : String
  exchangeTsNs : ℕ
  receivedTsNs : ℕ
  payload : Values
  qualityFlags : List String := []
  availableAtNs : Option ℕ := none
  others : Values := []
  received_le : receivedTsNs ≤ maxTimestamp
  available_le : ∀ t ∈ availableAtNs, t ≤ receivedTsNs

structure ClosedBar where
  openTsNs : ℕ
  closeTsNs : ℕ
  availableAtNs : ℕ
  receivedAtNs : ℕ
  openPrice : Price
  high : Price
  low : Price
  close : Price
  volume : Quantity
  open_lt_close : openTsNs < closeTsNs
  close_le_available : closeTsNs ≤ availableAtNs
  available_le_received : availableAtNs ≤ receivedAtNs
  low_le : low.amount.value ≤ min openPrice.amount.value close.amount.value
  le_high : max openPrice.amount.value close.amount.value ≤ high.amount.value

/-- What the contracts of `pydantic` raise. -/
def validationError : Exc := .valueError "validation error"

/-- `ClosedBar.model_validate`. -/
def ClosedBar.validate (openTsNs closeTsNs openPrice high low close volume : Field)
    (availableAtNs : Option ℕ) (receivedAtNs : ℕ) : Except Exc ClosedBar :=
  match readTimestamp openTsNs, readTimestamp closeTsNs, Price.read openPrice, Price.read high,
      Price.read low, Price.read close, Quantity.read volume with
  | some openTsNs, some closeTsNs, some openPrice, some high, some low, some close, some volume =>
    let availableAtNs := availableAtNs.getD closeTsNs
    if h : openTsNs < closeTsNs ∧ closeTsNs ≤ availableAtNs ∧ availableAtNs ≤ receivedAtNs ∧
        low.amount.value ≤ min openPrice.amount.value close.amount.value ∧
        max openPrice.amount.value close.amount.value ≤ high.amount.value then
      .ok
        { openTsNs, closeTsNs, availableAtNs, receivedAtNs, openPrice, high, low, close, volume
          open_lt_close := h.1
          close_le_available := h.2.1
          available_le_received := h.2.2.1
          low_le := h.2.2.2.1
          le_high := h.2.2.2.2 }
    else .error validationError
  | _, _, _, _, _, _, _ => .error validationError

def bar (e : MarketEvent) : Except Exc ClosedBar :=
  let key := fun k => e.payload.lookup k
  match key "open_ts_ns", key "close_ts_ns", key "open", key "high", key "low", key "close",
      key "volume" with
  | some openTsNs, some closeTsNs, some openPrice, some high, some low, some close, some volume =>
    match closeTsNs with
    | .int n =>
      if n > e.exchangeTsNs then .error (.valueError "forming or future bar is not observable")
      else ClosedBar.validate openTsNs closeTsNs openPrice high low close volume e.availableAtNs
        e.receivedTsNs
    | _ => .error (.valueError "forming or future bar is not observable")
  | _, _, _, _, _, _, _ =>
    .error (.valueError "strategy requires an explicit closed OHLCV bar")

/-! ## The strategies -/

structure EventStrategyParameters where
  deploymentId : String
  venue : String
  instrument : String
  positionSize : Price
  lookback : ℕ
  thresholdBps : Price
  signalTtlNs : ℕ
  maximumBarDelayNs : ℕ
  maximumHoldingBars : ℕ
  minimumLowerWickFraction : Quantity
  minimumDepthRecovery : Price
  lookback_mem : 2 ≤ lookback ∧ lookback ≤ 10000
  signalTtlNs_pos : 0 < signalTtlNs
  maximumHoldingBars_pos : 0 < maximumHoldingBars
  minimumLowerWickFraction_le : minimumLowerWickFraction.amount.value ≤ 1

/-- `REFERENCE_STRATEGIES`. -/
inductive Reference
  | momentum | meanReversion | wickOrderflow
deriving DecidableEq

/-- Its `name`. -/
def Reference.name : Reference → String
  | momentum => "momentum"
  | meanReversion => "mean_reversion"
  | wickOrderflow => "wick_orderflow"

/-- The content hashes: of an event, of the parameters, and of what identifies a signal. -/
structure Hashes where
  event : MarketEvent → String
  parameters : EventStrategyParameters → String
  signal : Values → String

structure SignalIntent where
  signalId : String
  deploymentId : String
  eventId : String
  instrument : String
  targetPosition : Decimal
  producedAtNs : ℕ
  validUntilNs : ℕ
  reasonCodes : List String
deriving DecidableEq

/-- **The state of a reference strategy.** -/
structure State where
  closes : List Price
  lastCloseNs : Option ℕ
  target : Decimal
  heldBars : ℕ

/-- `Decimal("0")`. -/
def zero : Decimal := ⟨false, 0, 0⟩

/-- A new instance. -/
def State.fresh : State := { closes := [], lastCloseNs := none, target := zero, heldBars := 0 }

variable (h : Hashes) (p : EventStrategyParameters) (r : Reference)

/-- A result in the context of 38 digits. -/
def ctx (x : ℚ) : ℚ := roundSig 38 x

/-- `(x / y - 1) * 10_000`. -/
def changeBps (x y : ℚ) : ℚ := ctx (ctx (ctx (x / y) - 1) * 10000)

/-- **`_decision`**, of each of the three. -/
def decision (s : State) (b : ClosedBar) (e : MarketEvent) : Except Exc (Decimal × String) :=
  let close := b.close.amount.value
  match r with
  | .momentum =>
    if s.closes.length < p.lookback then .ok (s.target, "warmup")
    else
      let change := changeBps close ((s.closes.head?.map fun c => c.amount.value).getD 0)
      if change ≥ p.thresholdBps.amount.value then .ok (p.positionSize.amount, "positive_momentum")
      else if change ≤ 0 then .ok (zero, "momentum_exit")
      else .ok (s.target, "hold")
  | .meanReversion =>
    if s.closes.length < p.lookback then .ok (s.target, "warmup")
    else
      let sum := s.closes.foldl (fun sum c => ctx (sum + c.amount.value)) 0
      let deviation := changeBps close (ctx (sum / s.closes.length))
      if deviation ≤ -p.thresholdBps.amount.value then
        .ok (p.positionSize.amount, "negative_deviation")
      else if deviation ≥ 0 then .ok (zero, "reversion_exit")
      else .ok (s.target, "hold")
  | .wickOrderflow =>
    if 0 < s.target.value then
      if close < b.openPrice.amount.value then .ok (zero, "rebound_failed")
      else .ok (s.target, "hold")
    else
      match e.payload.lookup "book_valid", e.payload.lookup "buy_volume",
          e.payload.lookup "sell_volume", e.payload.lookup "depth_recovery_ratio",
          e.payload.lookup "features_available_at_ns" with
      | some (.bool true), some buyVolume, some sellVolume, some recovery, some available =>
        match available with
        | .int n =>
          if n > e.receivedTsNs ∨ n < b.closeTsNs then
            .error (.valueError "orderflow features are not causal for the decision")
          else
            match Quantity.read buyVolume, Quantity.read sellVolume, Price.read recovery with
            | some buyVolume, some sellVolume, some recovery =>
              let spread := ctx (b.high.amount.value - b.low.amount.value)
              let wick := ctx (min b.openPrice.amount.value close - b.low.amount.value)
              if spread > 0 ∧ ctx (wick / spread) ≥ p.minimumLowerWickFraction.amount.value ∧
                  close ≥ b.openPrice.amount.value ∧
                  buyVolume.amount.value > sellVolume.amount.value ∧
                  recovery.amount.value ≥ p.minimumDepthRecovery.amount.value then
                .ok (p.positionSize.amount, "wick_flow_depth_confirmed")
              else .ok (zero, "no_confirmation")
            | _, _, _ => .error validationError
        | _ => .error (.valueError "orderflow features are not causal for the decision")
      | _, _, _, _, _ => .ok (zero, "missing_orderflow_confirmation")

/-- The signal of a new target; its validity has to be a timestamp. -/
def signal (b : ClosedBar) (e : MarketEvent) (target : Decimal) (reason : String) :
    Except Exc (List SignalIntent) :=
  if e.receivedTsNs + p.signalTtlNs ≤ maxTimestamp then
    .ok [{ signalId := h.signal [("strategy", .str r.name), ("parameters", .str (h.parameters p)),
              ("close_ns", .int b.closeTsNs), ("target", .str target.str)]
           deploymentId := p.deploymentId
           eventId := h.event e
           instrument := e.instrument
           targetPosition := target
           producedAtNs := e.receivedTsNs
           validUntilNs := e.receivedTsNs + p.signalTtlNs
           reasonCodes := [r.name, reason] }]
  else .error validationError

/-- `deque.append`, with `maxlen=lookback`. -/
def push (closes : List Price) (close : Price) : List Price :=
  if closes.length = p.lookback then closes.tail ++ [close] else closes ++ [close]

variable (s : State)

/-- What is held is held for one more bar. -/
def State.aged : State :=
  if 0 < s.target.value then { s with heldBars := s.heldBars + 1 } else s

/-- What was decided, but for what was held for too long. -/
def chosen (decided : Decimal × String) : Decimal × String :=
  if 0 < s.target.value ∧ p.maximumHoldingBars ≤ s.heldBars then (zero, "maximum_holding_period")
  else decided

/-- The bar enters the window, and a new target is a signal. -/
def accept (b : ClosedBar) (e : MarketEvent) (target : Decimal) (reason : String) :
    State × Except Exc (List SignalIntent) :=
  let taken := { s with closes := push p s.closes b.close, lastCloseNs := some b.closeTsNs }
  if target.value = s.target.value then (taken, .ok [])
  else ({ taken with target, heldBars := 0 }, signal h p r b e target reason)

/-- The bar is the next one. -/
def consume (b : ClosedBar) (e : MarketEvent) : State × Except Exc (List SignalIntent) :=
  match decision p r s.aged b e with
  | .error x => (s.aged, .error x)
  | .ok decided =>
    accept h p r s.aged b e (chosen p s.aged decided).1 (chosen p s.aged decided).2

/-- The flags with which a bar is not looked at. -/
def unusable : List String := ["BOOK_INVALID", "SEQUENCE_GAP", "STALE", "CLOCK_INVALID"]

/-- **`on_event`**, after its state argument is restored. -/
def onEvent (e : MarketEvent) : State × Except Exc (List SignalIntent) :=
  if e.venue ≠ p.venue ∨ e.instrument ≠ p.instrument ∨ e.eventType ≠ "bar" then (s, .ok [])
  else if e.qualityFlags.any (· ∈ unusable) then (s, .ok [])
  else match bar e with
    | .error x => (s, .error x)
    | .ok b =>
      if (e.receivedTsNs : ℤ) - b.closeTsNs > p.maximumBarDelayNs then (s, .ok [])
      else if s.lastCloseNs.any (b.closeTsNs ≤ ·) then (s, .ok [])
      else if s.lastCloseNs.any (b.openTsNs ≠ ·) then
        (s, .error (.valueError "strategy bar sequence has a gap or overlap; resync required"))
      else consume h p r s b e

/-! ## Checkpoints -/

/-- A close time as it is written. -/
def closeField : Option ℕ → Field
  | none => .null
  | some t => .int t

def snapshotState : Values :=
  [("strategy", .str r.name), ("parameters_hash", .str (h.parameters p)),
    ("closes", .arr (s.closes.map fun c => .str c.amount.str)),
    ("last_close_ns", closeField s.lastCloseNs),
    ("target", .str s.target.str), ("held_bars", .int s.heldBars)]

/-- The close time of a snapshot. -/
def readCloseNs : Option Field → Except Exc (Option ℕ)
  | none | some .null => .ok none
  | some (.int n) =>
    if 0 ≤ n then .ok (some n.toNat) else .error (.valueError "invalid strategy close time")
  | some _ => .error (.valueError "invalid strategy close time")

/-- The holding age of a snapshot. -/
def readHeld : Option Field → Except Exc ℕ
  | some (.int n) =>
    if 0 ≤ n then .ok n.toNat else .error (.valueError "invalid holding age")
  | _ => .error (.valueError "invalid holding age")

/-- The target of a snapshot. -/
def readTarget (value : Option Field) : Except Exc Decimal :=
  match value.bind Quantity.read with
  | none => .error validationError
  | some target =>
    if target.amount.value = 0 ∨ target.amount.value = p.positionSize.amount.value then
      .ok target.amount
    else .error (.valueError "invalid strategy target")

/-- The window of a snapshot. -/
def readCloses : Option Field → Except Exc (List Price)
  | some (.arr items) =>
    if p.lookback < items.length then .error (.valueError "invalid strategy window")
    else (items.mapM Price.read).elim (.error validationError) .ok
  | _ => .error (.valueError "invalid strategy window")

/-- **`restore_state`**, into a new instance. -/
def restoreState (values : Values) : Except Exc State :=
  match values.lookup "strategy", values.lookup "parameters_hash" with
  | some (.str name), some (.str hash) =>
    if name ≠ r.name ∨ hash ≠ h.parameters p then
      .error (.valueError "strategy state is bound to different rules or parameters")
    else do
      let closes ← readCloses p (values.lookup "closes")
      let target ← readTarget p (values.lookup "target")
      let lastCloseNs ← readCloseNs (values.lookup "last_close_ns")
      let heldBars ← readHeld (values.lookup "held_bars")
      return { closes, lastCloseNs, target, heldBars }
  | _, _ => .error (.valueError "strategy state is bound to different rules or parameters")

/-- A checkpoint: the state is written down, and a new instance reads it. -/
def reload : Except Exc State := restoreState h p r (snapshotState h p r s)

/-! ### What is written is read -/

/-- The state has texts that are read: the closes of the window and the target are written with
at most 128 characters. -/
def Legible : Prop :=
  (∀ c ∈ s.closes, c.amount.str.length ≤ 128) ∧ s.target.str.length ≤ 128

/-- **The states of a run**: the window is no longer than `lookback`, and the target is zero or the
position size. -/
structure State.Sound (p : EventStrategyParameters) (s : State) : Prop where
  window : s.closes.length ≤ p.lookback
  target : s.target = zero ∨ s.target = p.positionSize.amount

theorem sound_fresh : State.fresh.Sound p := ⟨Nat.zero_le _, .inl rfl⟩

variable {h p r} {e : MarketEvent} {s} {b : ClosedBar}

/-- What is decided is the target as it is, zero, or the position size. -/
theorem decision_target {decided : Decimal × String} (hdecision : decision p r s b e = .ok decided) :
    decided.1 = s.target ∨ decided.1 = zero ∨ decided.1 = p.positionSize.amount := by
  cases r with
  | momentum =>
    simp only [decision] at hdecision
    split_ifs at hdecision <;> cases hdecision <;> simp
  | meanReversion =>
    simp only [decision] at hdecision
    split_ifs at hdecision <;> cases hdecision <;> simp
  | wickOrderflow =>
    simp only [decision] at hdecision
    split at hdecision
    · split_ifs at hdecision <;> cases hdecision <;> simp
    · split at hdecision
      · split at hdecision
        · split_ifs at hdecision
          split at hdecision
          · split_ifs at hdecision <;> cases hdecision <;> simp
          · cases hdecision
        · cases hdecision
      · cases hdecision
        simp

theorem length_push {closes : List Price} (hlen : closes.length ≤ p.lookback) (c : Price) :
    (push p closes c).length ≤ p.lookback := by
  have hpos := p.lookback_mem.1
  unfold push
  split <;> simp <;> omega

theorem State.Sound.aged (hs : s.Sound p) : s.aged.Sound p := by
  unfold State.aged
  split
  · exact ⟨hs.window, hs.target⟩
  · exact hs

theorem State.Sound.consume (hs : s.Sound p) (b : ClosedBar) (e : MarketEvent) :
    (Strategies.consume h p r s b e).1.Sound p := by
  have haged := hs.aged
  unfold Strategies.consume
  cases hdecision : decision p r s.aged b e with
  | error x => exact haged
  | ok decided =>
    have hwindow := length_push haged.window b.close
    have hchosen : (chosen p s.aged decided).1 = zero
        ∨ (chosen p s.aged decided).1 = p.positionSize.amount := by
      unfold chosen
      split
      · exact .inl rfl
      · rcases decision_target hdecision with heq | heq | heq
        · rw [heq]
          exact haged.target
        · exact .inl heq
        · exact .inr heq
    show (accept h p r s.aged b e _ _).1.Sound p
    unfold accept
    dsimp only
    split
    · exact ⟨hwindow, haged.target⟩
    · exact ⟨hwindow, hchosen⟩

/-- **Every event keeps it.** -/
theorem State.Sound.onEvent (hs : s.Sound p) (e : MarketEvent) :
    (Strategies.onEvent h p r s e).1.Sound p := by
  unfold Strategies.onEvent
  split_ifs
  · exact hs
  · exact hs
  · split
    · exact hs
    · split_ifs
      · exact hs
      · exact hs
      · exact hs
      · exact hs.consume _ e

theorem mapM_read (closes : List Price) :
    (closes.map fun c => Field.str c.amount.str).mapM Price.read
      = if ∀ c ∈ closes, c.amount.str.length ≤ 128 then some closes else none := by
  induction closes with
  | nil => simp
  | cons c closes ih =>
    rw [List.map_cons, List.mapM_cons, ih, Price.read_str]
    by_cases hc : c.amount.str.length ≤ 128
    · rw [if_pos hc]
      by_cases hall : ∀ c ∈ closes, c.amount.str.length ≤ 128
      · rw [if_pos hall, if_pos (by simpa using ⟨hc, hall⟩)]
        rfl
      · rw [if_neg hall, if_neg (by simpa [hc] using hall)]
        rfl
    · rw [if_neg hc]
      exact (if_neg (by simp [hc])).symm

section

variable (hs : s.Sound p)
include hs

theorem readCloses_snapshot :
    readCloses p (some (.arr (s.closes.map fun c => .str c.amount.str)))
      = if ∀ c ∈ s.closes, c.amount.str.length ≤ 128 then .ok s.closes
        else .error validationError := by
  rw [readCloses, if_neg (by simpa using hs.window), mapM_read]
  split <;> rfl

theorem State.Sound.quantity : ∃ q : Quantity, q.amount = s.target
      ∧ (q.amount.value = 0 ∨ q.amount.value = p.positionSize.amount.value) := by
  rcases hs.target with htarget | htarget
  · refine ⟨⟨zero, by decide +kernel, by decide +kernel⟩, htarget.symm, .inl ?_⟩
    decide +kernel
  · exact ⟨⟨p.positionSize.amount, p.positionSize.accepted, p.positionSize.pos.le⟩, htarget.symm,
      .inr rfl⟩

theorem readTarget_snapshot : readTarget p (some (.str s.target.str))
      = if s.target.str.length ≤ 128 then .ok s.target else .error validationError := by
  obtain ⟨q, hq, hvalue⟩ := hs.quantity
  rw [readTarget, ← hq, bind_some, Quantity.read_str]
  by_cases hlen : q.amount.str.length ≤ 128
  · rw [if_pos hlen, if_pos hlen]
    exact if_pos hvalue
  · rw [if_neg hlen, if_neg hlen]

/-- **What a checkpoint gives back**: the state as it was, or an error where it is not legible. -/
theorem reload_eq : reload h p r s
    = (if ∀ c ∈ s.closes, c.amount.str.length ≤ 128 then .ok s.closes
        else .error validationError) >>= fun closes =>
      (if s.target.str.length ≤ 128 then .ok s.target else .error validationError) >>= fun target =>
      .ok { closes, lastCloseNs := s.lastCloseNs, target, heldBars := s.heldBars } := by
  have hclose : readCloseNs (some (closeField s.lastCloseNs)) = .ok s.lastCloseNs := by
    cases s.lastCloseNs with
    | none => rfl
    | some t => simp [closeField, readCloseNs]
  have hheld : readHeld (some (.int s.heldBars)) = .ok s.heldBars := by simp [readHeld]
  rw [← readCloses_snapshot hs, ← readTarget_snapshot hs]
  have hbound : restoreState h p r (snapshotState h p r s) = (do
      let closes ← readCloses p (some (.arr (s.closes.map fun c => .str c.amount.str)))
      let target ← readTarget p (some (.str s.target.str))
      let lastCloseNs ← readCloseNs (some (closeField s.lastCloseNs))
      let heldBars ← readHeld (some (.int s.heldBars))
      return { closes, lastCloseNs, target, heldBars }) := by
    show (if _ then _ else _) = _
    rw [if_neg (by simp)]
    rfl
  rw [reload, hbound, hclose, hheld]
  rfl

theorem reload_of_legible (hlegible : Legible s) : reload h p r s = .ok s := by
  rw [reload_eq hs, if_pos hlegible.1, if_pos hlegible.2]
  rfl

theorem reload_of_not_legible (hlegible : ¬ Legible s) :
    ∃ x, reload h p r s = .error x := by
  refine ⟨validationError, ?_⟩
  rw [reload_eq hs]
  by_cases hcloses : ∀ c ∈ s.closes, c.amount.str.length ≤ 128
  · rw [if_pos hcloses, if_neg fun htarget => hlegible ⟨hcloses, htarget⟩]
    rfl
  · rw [if_neg hcloses]
    rfl

/-- **Checkpoints of a reference strategy**: the answers of an interrupted run are those of one
without interruptions exactly when the state is legible at each. -/
theorem resumed_eq_iff (steps : List (Trace.Step MarketEvent)) :
    Trace.resumed (onEvent h p r) (reload h p r) s steps
        = .ok (Trace.answers (onEvent h p r) s (Trace.events steps))
      ↔ Trace.AtRestarts (onEvent h p r) Legible s steps :=
  Trace.resumed_eq_iff (State.Sound p) (fun _ e hs => hs.onEvent e)
    (fun _ hs => reload_of_legible hs) (fun _ hs => reload_of_not_legible hs) hs steps

end

def Next (s : State) (b : ClosedBar) : Prop :=
  ∀ last ∈ s.lastCloseNs, last < b.closeTsNs ∧ b.openTsNs = last

/-- **What is not the next bar changes nothing** and gives no signal. -/
theorem onEvent_of_not_next (hnext : ∀ b, bar e = .ok b → ¬ Next s b) :
    (onEvent h p r s e).1 = s ∧ ∀ signals, (onEvent h p r s e).2 = .ok signals → signals = [] := by
  unfold onEvent
  split_ifs
  · exact ⟨rfl, fun _ heq => (ok.inj heq).symm⟩
  · exact ⟨rfl, fun _ heq => (ok.inj heq).symm⟩
  · cases hbar : bar e with
    | error x => exact ⟨rfl, fun _ heq => nomatch heq⟩
    | ok b =>
      dsimp only
      split_ifs with hlate hold hgap
      · exact ⟨rfl, fun _ heq => (ok.inj heq).symm⟩
      · exact ⟨rfl, fun _ heq => (ok.inj heq).symm⟩
      · exact ⟨rfl, fun _ heq => nomatch heq⟩
      · refine absurd (fun last hlast => ?_) (hnext b hbar)
        rw [mem_def.mp hlast] at hold hgap
        simp only [any_some, decide_eq_true_eq] at hold hgap
        exact ⟨by omega, by simpa using hgap⟩

/-- The bar of an event is looked at: it is the strategy's, its flags are good, and it is not
late. -/
def Usable (p : EventStrategyParameters) (e : MarketEvent) (b : ClosedBar) : Prop :=
  e.venue = p.venue ∧ e.instrument = p.instrument ∧ e.eventType = "bar" ∧
    e.qualityFlags.any (· ∈ unusable) = false ∧
    (e.receivedTsNs : ℤ) - b.closeTsNs ≤ p.maximumBarDelayNs

/-- A bar that is looked at and is not old: the next one is consumed, a gap raises. -/
theorem onEvent_of_usable (hbar : bar e = .ok b) (husable : Usable p e b) {last : ℕ}
    (hlast : s.lastCloseNs = some last) (hlater : last < b.closeTsNs) :
    onEvent h p r s e = if b.openTsNs = last then consume h p r s b e
      else (s, .error (.valueError "strategy bar sequence has a gap or overlap; resync required"))
    := by
  obtain ⟨hvenue, hinstrument, htype, hflags, hdelay⟩ := husable
  unfold onEvent
  rw [if_neg (by simp [hvenue, hinstrument, htype]), if_neg (by simp [hflags]), hbar]
  dsimp only
  rw [if_neg (not_lt.mpr hdelay), hlast, if_neg (by simpa using hlater)]
  by_cases hopen : b.openTsNs = last <;> simp [hopen]

end Qt.Strategies
