import QuantTrading.EventStrategies
import QuantTrading.Lib.Lookup

/-!
# The native strategies behind events

`NativeEventStrategy` of `qt.strategies.native_bridge`: bars become rows, and a registered strategy
of `btc_backtest`, with its sizing, is shown the frame of all rows. Its checkpoint holds the rows
and every attribute of that strategy, encoded.

The strategy and its sizing are a parameter, `Source`: a machine on named attributes, which stay
the attributes of its class, and are decimals, bounded deques, and values of JSON – as those of all
the registered kinds are. The portfolio is not part of a checkpoint: it is set by the caller, on
the new instance as on the old one.
-/

namespace Qt.Strategies

open Except SigDigits

/-! ## Attributes -/

inductive Attr
  | null
  | bool (b : Bool)
  | int (n : ℤ)
  | float (x : ℚ)
  | str (text : String)
  | decimal (d : Decimal)
  | deque (maximum : ℕ) (values : List Attr)

/-- The attributes of an object, by name. -/
abbrev Attrs := List (String × Attr)

/-- A deque has a bound that is decoded, and keeps to it. -/
inductive Attr.Valid : Attr → Prop
  | null : Valid .null
  | bool (b : Bool) : Valid (.bool b)
  | int (n : ℤ) : Valid (.int n)
  | float (x : ℚ) : Valid (.float x)
  | str (text : String) : Valid (.str text)
  | decimal (d : Decimal) : Valid (.decimal d)
  | deque {maximum : ℕ} {values : List Attr} (hpos : 1 ≤ maximum) (hmax : maximum ≤ 10000)
      (hlen : values.length ≤ maximum) (hvalues : ∀ v ∈ values, Valid v) :
      Valid (.deque maximum values)

mutual

def encode : Attr → Field
  | .null => .null
  | .bool b => .bool b
  | .int n => .int n
  | .float x => .float x
  | .str text => .str text
  | .decimal d => .obj [("type", .str "decimal"), ("value", .str d.str)]
  | .deque maximum values =>
    .obj [("type", .str "deque"), ("maximum", .int maximum), ("values", .arr (encodeAll values))]

/-- The items of a deque, encoded. -/
def encodeAll : List Attr → List Field
  | [] => []
  | v :: vs => encode v :: encodeAll vs

end

variable (fields : Values)

/-- The names of an object are these and no others. -/
def hasKeys (keys : List String) : Bool :=
  fields.all (fun f => f.1 ∈ keys) && keys.all fun k => k ∈ fields.map Prod.fst

/-- The decimal of an encoded one. -/
def decodeDecimal : Except Exc Attr :=
  match fields.lookup "value" with
  | some (.str text) =>
    ((Decimal.parse text).map Attr.decimal).elim
      (.error (.valueError "nonfinite_native_strategy_state")) .ok
  | _ => .error (.valueError "nonfinite_native_strategy_state")

/-- The deque of an encoded one, from its decoded items: `deque(…, maxlen=maximum)` keeps the
last ones. -/
def decodeDeque (items : Except Exc (List Attr)) : Except Exc Attr :=
  match fields.lookup "maximum" with
  | some (.int n) =>
    if 1 ≤ n ∧ n ≤ 10000 then
      items.map fun values => .deque n.toNat (values.drop (values.length - n.toNat))
    else .error (.valueError "invalid_native_deque_size")
  | _ => .error (.valueError "invalid_native_deque_size")

mutual

def decode : Field → Except Exc Attr
  | .null => .ok .null
  | .bool b => .ok (.bool b)
  | .int n => .ok (.int n)
  | .float x => .ok (.float x)
  | .str text => .ok (.str text)
  | .arr _ => .error (.valueError "invalid_native_strategy_state_value")
  | .obj fields =>
    let type := match fields.lookup "type" with
      | some (.str text) => text
      | _ => ""
    if type = "decimal" ∧ hasKeys fields ["type", "value"] then decodeDecimal fields
    else if type = "deque" ∧ hasKeys fields ["type", "maximum", "values"] then
      decodeDeque fields (decodeValues fields)
    else .error (.valueError "invalid_native_strategy_state_encoding")

/-- The decoded items of the `values` of an object. -/
def decodeValues : List (String × Field) → Except Exc (List Attr)
  | [] => .error (.keyError "values")
  | (key, value) :: fields => if key = "values" then decodeItems value else decodeValues fields

/-- The decoded items of an array. -/
def decodeItems : Field → Except Exc (List Attr)
  | .arr items => decodeAll items
  | _ => .error (.valueError "invalid_native_strategy_state_value")

/-- Values, decoded one after the other. -/
def decodeAll : List Field → Except Exc (List Attr)
  | [] => .ok []
  | item :: items => do
    let value ← decode item
    let values ← decodeAll items
    return value :: values

end

/-- **An attribute comes back from its code.** -/
theorem decode_encode {a : Attr} (ha : a.Valid) : decode (encode a) = .ok a := by
  induction ha with
  | null => rfl
  | bool b => rfl
  | int n => rfl
  | float x => rfl
  | str text => rfl
  | decimal d =>
    show decodeDecimal [("type", .str "decimal"), ("value", .str d.str)] = _
    show ((Decimal.parse d.str).map Attr.decimal).elim _ _ = _
    rw [Decimal.parse_str]
    rfl
  | @deque maximum values hpos hmax hlen hvalues ih =>
    have hall : ∀ vs : List Attr, (∀ v ∈ vs, decode (encode v) = .ok v) →
        decodeAll (encodeAll vs) = .ok vs := by
      intro vs hvs
      induction vs with
      | nil => rfl
      | cons v vs ihvs =>
        rw [encodeAll, decodeAll, hvs v List.mem_cons_self,
          ihvs fun w hw => hvs w (List.mem_cons_of_mem v hw)]
        rfl
    have hitems : decodeValues [("type", .str "deque"), ("maximum", .int maximum),
        ("values", .arr (encodeAll values))] = .ok values := by
      simp [decodeValues, decodeItems, hall values ih]
    rw [encode, decode, if_neg fun htype => absurd htype.1 (by simp; decide),
      if_pos ⟨by simp, by simp [hasKeys]⟩, hitems]
    show (if 1 ≤ (maximum : ℤ) ∧ (maximum : ℤ) ≤ 10000 then _ else _) = _
    rw [if_pos (by omega)]
    show Except.ok (Attr.deque (maximum : ℤ).toNat (values.drop (values.length - _))) = _
    rw [Int.toNat_natCast, Nat.sub_eq_zero_of_le hlen]
    rfl

/-! ## Numbers in a context -/

/-- A number with at most `prec` digits, half to even. -/
def rounded (prec : ℕ) (d : Decimal) : Decimal :=
  let dropped := d.digits.length - prec
  if dropped = 0 then d
  else
    let kept := (roundHalfEven (d.coefficient / 10 ^ dropped)).toNat
    if kept = 10 ^ prec then
      { d with coefficient := 10 ^ (prec - 1), exponent := d.exponent + dropped + 1 }
    else { d with coefficient := kept, exponent := d.exponent + dropped }

/-- The sum, in a context of `prec` digits. -/
def plus (prec : ℕ) (x y : Decimal) : Decimal :=
  let exponent := min x.exponent y.exponent
  let scaled := fun d : Decimal =>
    (if d.negative then -1 else 1) * (d.coefficient * 10 ^ (d.exponent - exponent).toNat : ℤ)
  let sum := scaled x + scaled y
  rounded prec
    { negative := if sum = 0 then x.negative && y.negative else decide (sum < 0)
      coefficient := sum.natAbs, exponent }

/-- The negation, in a context of `prec` digits; zero has no sign. -/
def minus (prec : ℕ) (x : Decimal) : Decimal :=
  rounded prec { x with negative := !x.negative && decide (x.coefficient ≠ 0) }

/-! ## The strategy behind the bridge -/

/-- `PortfolioSnapshot`, of a spot position. -/
structure PortfolioSnapshot where
  cash : Decimal
  base : Decimal
  equity : ℚ

/-- `OrderIntent` of `btc_backtest`, as sized. -/
structure OrderIntent where
  spot : Bool
  side : Side
  baseQuantity : Option Decimal
  reason : String

/-- The attributes have these names, and values that are supported. -/
def Kept (names : List String) (attributes : Attrs) : Prop :=
  attributes.map Prod.fst = names ∧ ∀ a ∈ attributes, a.2.Valid

/-- **A registered strategy with its sizing.** `onBar` is shown the rows, of which the frame is
made. A call may raise, and leaves what it assigned before. -/
structure Source where
  kind : String
  warmupBars : ℕ
  /-- The attributes of a new instance, but for the constant ones. -/
  fresh : Attrs
  onInitialize : Attrs → ClosedBar → Attrs × Except Exc Unit
  onBar : Attrs → List Values → PortfolioSnapshot → Attrs × Except Exc (List OrderIntent)
  nodup : (fresh.map Prod.fst).Nodup
  kept_fresh : ∀ a ∈ fresh, a.2.Valid
  kept_onInitialize : ∀ attributes first, Kept (fresh.map Prod.fst) attributes →
    Kept (fresh.map Prod.fst) (onInitialize attributes first).1
  kept_onBar : ∀ attributes rows portfolio, Kept (fresh.map Prod.fst) attributes →
    Kept (fresh.map Prod.fst) (onBar attributes rows portfolio).1

/-- An assignment to one of the attributes. -/
def assign (attributes : Attrs) (name : String) (value : Attr) : Attrs :=
  attributes.map fun a => if a.1 = name then (name, value) else a

theorem Kept.assign {names : List String} {attributes : Attrs} (h : Kept names attributes)
    (name : String) {value : Attr} (hvalue : value.Valid) :
    Kept names (Strategies.assign attributes name value) := by
  refine ⟨?_, fun a ha => ?_⟩
  · rw [← h.1, Strategies.assign, List.map_map]
    refine List.map_congr_left fun a _ => ?_
    by_cases heq : a.1 = name <;> simp [heq]
  · obtain ⟨x, hx, rfl⟩ := List.mem_map.mp ha
    split
    · exact hvalue
    · exact h.2 x hx

/-- `TimeSeriesMomentum`, with what its allocation and its sizing make of the rows: `initialize`
assigns the multiplier, and a bar assigns nothing. -/
def timeSeriesMomentum (lookback : ℕ) (tolerance multiplier : Decimal)
    (orders : List Values → PortfolioSnapshot → Except Exc (List OrderIntent)) : Source where
  kind := "time_series_momentum"
  warmupBars := lookback + 1
  fresh := [("rebalance_tolerance", .decimal tolerance),
    ("_execution_multiplier", .decimal ⟨false, 1, 0⟩)]
  onInitialize attributes _ :=
    (assign attributes "_execution_multiplier" (.decimal multiplier), .ok ())
  onBar attributes rows portfolio := (attributes, orders rows portfolio)
  nodup := by simp
  kept_fresh a ha := by
    rcases List.mem_pair.mp ha with rfl | rfl
    · exact .decimal _
    · exact .decimal _
  kept_onInitialize _ _ h := h.assign _ (.decimal _)
  kept_onBar _ _ _ h := h

def timeframes : List ℕ :=
  [60000000000, 300000000000, 900000000000, 3600000000000, 14400000000000, 86400000000000]

/-- **`NativeEventStrategy`**, what it is made of. -/
structure NativeEventStrategy where
  source : Source
  artifactHash : String
  bridgeHash : String
  deploymentId : String
  venue : String
  instrument : String
  signalIntervalNs : ℕ
  signalTtlNs : ℕ
  maximumHistoryBars : ℕ
  capital : Price
  /-- `content_hash`, of an event and of a list. -/
  eventHash : MarketEvent → String
  listHash : List Field → String
  interval_mem : signalIntervalNs ∈ timeframes
  signalTtlNs_pos : 0 < signalTtlNs
  history_mem : 3 ≤ maximumHistoryBars ∧ maximumHistoryBars ≤ 100000

namespace NativeEventStrategy

/-- **Its state.** -/
structure State where
  rows : List Values
  initialized : Bool
  attributes : Attrs
  cash : Decimal
  base : Decimal

variable (n : NativeEventStrategy)

/-- A new instance. -/
def fresh : State :=
  { rows := [], initialized := false, attributes := n.source.fresh, cash := n.capital.amount
    base := zero }

variable (s : State)

def setPortfolio (cash base : Decimal) : Except Exc State :=
  if cash.value < 0 ∨ base.value < 0 then .error (.valueError "native_live_portfolio_invalid")
  else .ok { s with cash, base }

variable (b : ClosedBar)

def row : Values :=
  [("received_at_ns", .int b.receivedAtNs), ("close_ts_ns", .int b.closeTsNs),
    ("open", .str b.openPrice.amount.str), ("high", .str b.high.amount.str),
    ("low", .str b.low.amount.str), ("close", .str b.close.amount.str),
    ("volume", .str b.volume.amount.str)]

variable (e : MarketEvent)

def intentSignal (intent : OrderIntent) : Except Exc SignalIntent :=
  match intent.baseQuantity with
  | none => .error (.valueError "native_live_intent_requires_frozen_spot_quantity")
  | some quantity =>
    if intent.spot then
      let target := plus 80 s.base
        (match intent.side with
          | .buy => quantity
          | .sell => minus 80 quantity)
      if Accepted target ∧ e.receivedTsNs + n.signalTtlNs ≤ maxTimestamp then
        .ok
          { signalId := n.listHash [.str n.deploymentId, .str n.artifactHash, .int b.closeTsNs,
              .str (match intent.side with | .buy => "buy" | .sell => "sell"), .str quantity.str]
            deploymentId := n.deploymentId
            eventId := n.eventHash e
            instrument := n.instrument
            targetPosition := target
            producedAtNs := e.receivedTsNs
            validUntilNs := e.receivedTsNs + n.signalTtlNs
            reasonCodes := [n.source.kind, intent.reason, "shared_native_strategy_and_sizing"] }
      else .error validationError
    else .error (.valueError "native_live_intent_requires_frozen_spot_quantity")

/-- The signals of the intents, of which there is at most one. -/
def intentSignals (intents : List OrderIntent) : Except Exc (List SignalIntent) :=
  if 1 < intents.length then .error (.valueError "native_live_multileg_intent_not_supported")
  else intents.mapM (n.intentSignal s b e)

/-- The strategy is shown all rows, once there are enough. -/
def ask : State × Except Exc (List SignalIntent) :=
  if s.rows.length ≤ n.source.warmupBars then (s, .ok [])
  else
    let portfolio :=
      { cash := s.cash, base := s.base
        equity := ctxAdd s.cash.value (ctxMul s.base.value b.close.amount.value) }
    let answer := n.source.onBar s.attributes s.rows portfolio
    ({ s with attributes := answer.1 }, answer.2 >>= n.intentSignals s b e)

/-- The first row initializes the strategy. -/
def started : State × Except Exc Unit :=
  if s.initialized then (s, .ok ())
  else
    let answer := n.source.onInitialize s.attributes b
    match answer.2 with
    | .ok () => ({ s with attributes := answer.1, initialized := true }, .ok ())
    | .error x => ({ s with attributes := answer.1 }, .error x)

/-- The bar is the next one. -/
def consume : State × Except Exc (List SignalIntent) :=
  let begun := n.started { s with rows := s.rows ++ [row b] } b
  match begun.2 with
  | .ok () => n.ask begun.1 b e
  | .error x => (begun.1, .error x)

/-- What the last row says of the bar: nothing, that it is old, or that it is not the next one. -/
def previous : Except Exc Bool :=
  match s.rows.getLast? with
  | none => .ok true
  | some last =>
    match last.lookup "close_ts_ns" with
    | some (.int closeNs) =>
      if b.closeTsNs ≤ closeNs then .ok false
      else if b.openTsNs ≠ closeNs then .error (.valueError "native_live_bar_gap_requires_resync")
      else .ok true
    | _ => .error (.keyError "close_ts_ns")

/-- **`on_event`**, after its state argument is restored. -/
def onEvent : State × Except Exc (List SignalIntent) :=
  if e.eventType ≠ "bar" ∨ e.venue ≠ n.venue ∨ e.instrument ≠ n.instrument then (s, .ok [])
  else match bar e with
    | .error x => (s, .error x)
    | .ok b =>
      if b.closeTsNs - b.openTsNs ≠ n.signalIntervalNs then
        (s, .error (.valueError "native_live_bar_interval_mismatch"))
      else match previous s b with
        | .error x => (s, .error x)
        | .ok false => (s, .ok [])
        | .ok true =>
          if n.maximumHistoryBars ≤ s.rows.length then
            (s, .error (.valueError "native_live_history_capacity_requires_checkpoint_upgrade"))
          else n.consume s b e

/-- The bar is next for the state: it opens at the close of the last row. -/
def Next : Prop :=
  ∀ last ∈ s.rows.getLast?, last.lookup "close_ts_ns" = some (.int b.openTsNs)

variable {s} {b}

theorem next_of_previous (htrue : previous s b = .ok true) : Next s b := by
  intro last hlast
  rw [previous, Option.mem_def.mp hlast] at htrue
  dsimp only at htrue
  split at htrue
  · rename_i closeNs hclose
    by_cases hold : (b.closeTsNs : ℤ) ≤ closeNs
    · rw [if_pos hold] at htrue
      cases htrue
    · rw [if_neg hold] at htrue
      by_cases hopen : (b.openTsNs : ℤ) = closeNs
      · rw [hclose, hopen]
      · rw [if_pos hopen] at htrue
        cases htrue
  · cases htrue

variable (s)

/-- **What an event does**: nothing, without a signal, unless its bar is next. -/
theorem onEvent_cases :
    ((n.onEvent s e).1 = s ∧ ∀ signals, (n.onEvent s e).2 = .ok signals → signals = [])
      ∨ ∃ b, bar e = .ok b ∧ Next s b ∧ s.rows.length < n.maximumHistoryBars
          ∧ n.onEvent s e = n.consume s b e := by
  unfold onEvent
  by_cases hother : e.eventType ≠ "bar" ∨ e.venue ≠ n.venue ∨ e.instrument ≠ n.instrument
  · rw [if_pos hother]
    exact .inl ⟨rfl, fun _ heq => (ok.inj heq).symm⟩
  · rw [if_neg hother]
    cases hbar : bar e with
    | error x => exact .inl ⟨rfl, fun _ heq => nomatch heq⟩
    | ok b =>
      dsimp only
      by_cases hinterval : b.closeTsNs - b.openTsNs ≠ n.signalIntervalNs
      · rw [if_pos hinterval]
        exact .inl ⟨rfl, fun _ heq => nomatch heq⟩
      · rw [if_neg hinterval]
        cases hprevious : previous s b with
        | error x => exact .inl ⟨rfl, fun _ heq => nomatch heq⟩
        | ok next =>
          cases next with
          | false => exact .inl ⟨rfl, fun _ heq => (ok.inj heq).symm⟩
          | true =>
            dsimp only
            by_cases hcapacity : n.maximumHistoryBars ≤ s.rows.length
            · rw [if_pos hcapacity]
              exact .inl ⟨rfl, fun _ heq => nomatch heq⟩
            · rw [if_neg hcapacity]
              exact .inr ⟨b, rfl, next_of_previous hprevious, not_le.mp hcapacity, rfl⟩

/-! ## Checkpoints -/

def sourceState : Values := s.attributes.map fun a => (a.1, encode a.2)

def snapshotState : Values :=
  [("artifact_hash", .str n.artifactHash), ("bridge_hash", .str n.bridgeHash),
    ("initialized", .bool s.initialized), ("rows", .arr (s.rows.map .obj)),
    ("source_state", .obj (sourceState s))]

/-- `dict(row)`. -/
def readRow : Field → Except Exc Values
  | .obj fields => .ok fields
  | _ => .error (.valueError "cannot convert to a dict")

/-- `setattr` of each name that is decoded. -/
def setAttributes (attributes decoded : Attrs) : Attrs :=
  attributes.map fun a => (a.1, (decoded.lookup a.1).getD a.2)

/-- **`restore_state`**, into an instance that is dropped when it raises. -/
def restoreState (values : Values) : Except Exc State :=
  match values.lookup "artifact_hash", values.lookup "bridge_hash" with
  | some (.str artifactHash), some (.str bridgeHash) =>
    if artifactHash ≠ n.artifactHash ∨ bridgeHash ≠ n.bridgeHash then
      .error (.valueError "native_live_state_version_mismatch")
    else match values.lookup "rows" with
      | some (.arr raw) =>
        if n.maximumHistoryBars < raw.length then
          .error (.valueError "native_live_state_history_invalid")
        else do
          let rows ← raw.mapM readRow
          let initialized := match values.lookup "initialized" with
            | some (.bool initialized) => initialized
            | _ => false
          match values.lookup "source_state" with
          | some (.obj source) =>
            if hasKeys source (s.attributes.map Prod.fst) then
              let decoded ← source.mapM fun a => (decode a.2).map fun value => (a.1, value)
              return { s with rows, initialized, attributes := setAttributes s.attributes decoded }
            else .error (.valueError "native_live_source_state_shape_changed")
          | _ => .error (.valueError "native_live_source_state_shape_changed")
      | _ => .error (.valueError "native_live_state_history_invalid")
  | _, _ => .error (.valueError "native_live_state_version_mismatch")

/-- A checkpoint: the state is written down, and a new instance reads it, with the portfolio that
the old one was given. -/
def reload : Except Exc State := do
  let restored ← n.restoreState n.fresh (n.snapshotState s)
  setPortfolio restored s.cash s.base

/-- What a strategy is called with between two checkpoints. -/
inductive Call
  | setPortfolio (cash base : Decimal)
  | event (e : MarketEvent)

/-- A call, and its answer. -/
def call : Call → State × Except Exc (List SignalIntent)
  | .setPortfolio cash base =>
    match setPortfolio s cash base with
    | .error x => (s, .error x)
    | .ok set => (set, .ok [])
  | .event e => n.onEvent s e

/-! ### What is written is read -/

/-- **The states of a run.** -/
structure Sound (s : State) : Prop where
  rows : s.rows.length ≤ n.maximumHistoryBars
  attributes : Kept (n.source.fresh.map Prod.fst) s.attributes
  portfolio : ¬ (s.cash.value < 0 ∨ s.base.value < 0)

variable {n}

theorem sound_fresh : n.Sound n.fresh where
  rows := Nat.zero_le _
  attributes := ⟨rfl, n.source.kept_fresh⟩
  portfolio := by
    have hbase : zero.value = 0 := by decide +kernel
    have hcash := n.capital.pos
    show ¬ (n.capital.amount.value < 0 ∨ zero.value < 0)
    rw [hbase]
    exact not_or.mpr ⟨not_lt.mpr hcash.le, lt_irrefl 0⟩

variable {s}

section

variable (hs : n.Sound s)
include hs

theorem Sound.started (b : ClosedBar) : n.Sound (n.started s b).1 := by
  have hkept := n.source.kept_onInitialize s.attributes b hs.attributes
  unfold NativeEventStrategy.started
  split
  · exact hs
  · dsimp only
    split
    · exact ⟨hs.rows, hkept, hs.portfolio⟩
    · exact ⟨hs.rows, hkept, hs.portfolio⟩

theorem Sound.ask (b : ClosedBar) (e : MarketEvent) : n.Sound (n.ask s b e).1 := by
  unfold NativeEventStrategy.ask
  split
  · exact hs
  · exact ⟨hs.rows, n.source.kept_onBar _ _ _ hs.attributes, hs.portfolio⟩

theorem Sound.consume (b : ClosedBar) (e : MarketEvent)
    (hcapacity : s.rows.length < n.maximumHistoryBars) : n.Sound (n.consume s b e).1 := by
  have hrow : n.Sound { s with rows := s.rows ++ [row b] } :=
    ⟨by simpa using Nat.succ_le_of_lt hcapacity, hs.attributes, hs.portfolio⟩
  have hbegun := hrow.started b
  unfold NativeEventStrategy.consume
  dsimp only
  split
  · exact hbegun.ask b e
  · exact hbegun

theorem Sound.onEvent (e : MarketEvent) : n.Sound (n.onEvent s e).1 := by
  rcases onEvent_cases n s e with ⟨hsame, -⟩ | ⟨b, -, -, hcapacity, hconsume⟩
  · rw [hsame]
    exact hs
  · rw [hconsume]
    exact hs.consume b e hcapacity

/-- **Every call keeps it.** -/
theorem Sound.call (c : Call) : n.Sound (n.call s c).1 := by
  cases c with
  | event e => exact hs.onEvent e
  | setPortfolio cash base =>
    simp only [NativeEventStrategy.call]
    cases hset : NativeEventStrategy.setPortfolio s cash base with
    | error x => exact hs
    | ok set =>
      unfold NativeEventStrategy.setPortfolio at hset
      split at hset
      · cases hset
      · rename_i hportfolio
        cases hset
        exact ⟨hs.rows, hs.attributes, hportfolio⟩

end

theorem hasKeys_of_map_fst {fields : Values} {keys : List String}
    (h : fields.map Prod.fst = keys) : hasKeys fields keys = true := by
  subst h
  simp only [hasKeys, Bool.and_eq_true, List.all_eq_true, decide_eq_true_eq, List.mem_map]
  exact ⟨fun f hf => ⟨f, hf, rfl⟩, fun k hk => by simpa using hk⟩

/-- Attributes that are set by all names become what was decoded. -/
theorem setAttributes_eq {attributes decoded : Attrs}
    (hnames : attributes.map Prod.fst = decoded.map Prod.fst)
    (hnodup : (decoded.map Prod.fst).Nodup) : setAttributes attributes decoded = decoded := by
  have hold : setAttributes attributes decoded
      = (attributes.map Prod.fst).map fun name => (name, (decoded.lookup name).getD .null) := by
    rw [List.map_map]
    refine List.map_congr_left fun a ha => ?_
    have hmem : a.1 ∈ decoded.map Prod.fst := hnames ▸ List.mem_map_of_mem ha
    obtain ⟨d, hd, hname⟩ := List.mem_map.mp hmem
    rw [Function.comp_apply, ← hname, List.lookup_of_mem hnodup hd]
    rfl
  rw [hold, hnames, List.map_map]
  conv_rhs => rw [← List.map_id decoded]
  refine List.map_congr_left fun d hd => ?_
  rw [Function.comp_apply, List.lookup_of_mem hnodup hd]
  rfl

/-- **A checkpoint gives back the state as it was.** -/
theorem reload_eq (hs : n.Sound s) : n.reload s = .ok s := by
  have hrows : (s.rows.map Field.obj).mapM readRow = .ok s.rows :=
    Except.mapM_map_of_ok fun _ _ => rfl
  have hnames : s.attributes.map Prod.fst = n.source.fresh.map Prod.fst := hs.attributes.1
  have hkeys : hasKeys (sourceState s) (n.fresh.attributes.map Prod.fst) = true := by
    refine hasKeys_of_map_fst ?_
    rw [sourceState, List.map_map]
    exact hnames
  have hdecoded : (sourceState s).mapM (fun a => (decode a.2).map fun value => (a.1, value))
      = .ok s.attributes := by
    refine Except.mapM_map_of_ok fun a ha => ?_
    show (decode (encode a.2)).map _ = _
    rw [decode_encode (hs.attributes.2 a ha)]
    rfl
  have hset : setAttributes n.fresh.attributes s.attributes = s.attributes :=
    setAttributes_eq hnames.symm (hnames ▸ n.source.nodup)
  have hrestored : n.restoreState n.fresh (n.snapshotState s)
      = .ok { s with cash := n.fresh.cash, base := n.fresh.base } := by
    show (if _ then _ else if _ then _ else _) = _
    rw [if_neg (by simp), if_neg (by simpa using hs.rows), hrows]
    show (if hasKeys (sourceState s) _ then _ else _) = _
    rw [if_pos hkeys, hdecoded]
    show Except.ok _ = _
    rw [hset]
    rfl
  rw [reload, hrestored]
  exact if_neg hs.portfolio

/-- **Checkpoints of a native strategy** make no difference to its answers. -/
theorem resumed_eq (calls : List (Trace.Step Call)) : Trace.resumed n.call n.reload n.fresh calls
      = .ok (Trace.answers n.call n.fresh (Trace.events calls)) :=
  (Trace.resumed_eq_iff (C := fun _ => True) n.Sound (fun _ c hs => hs.call c)
    (fun _ hs _ => reload_eq hs) (fun _ _ hfalse => absurd trivial hfalse) sound_fresh calls).mpr
    (Trace.atRestarts_of_forall (fun _ => trivial) _ calls)

/-! ### Bars that are not next -/

variable {e}

/-- **What is not the next bar changes nothing** and gives no signal. -/
theorem onEvent_of_not_next (hnext : ∀ b, bar e = .ok b → ¬ Next s b) :
    (n.onEvent s e).1 = s ∧ ∀ signals, (n.onEvent s e).2 = .ok signals → signals = [] := by
  rcases onEvent_cases n s e with hquiet | ⟨b, hbar, hb, -, -⟩
  · exact hquiet
  · exact absurd hb (hnext b hbar)

/-- A later bar that does not open at the close of the last row raises. -/
theorem onEvent_of_gap {last : Values} {closeNs : ℕ}
    (heligible : e.eventType = "bar" ∧ e.venue = n.venue ∧ e.instrument = n.instrument)
    (hbar : bar e = .ok b) (hinterval : b.closeTsNs - b.openTsNs = n.signalIntervalNs)
    (hlast : s.rows.getLast? = some last) (hclose : last.lookup "close_ts_ns" = some (.int closeNs))
    (hlater : closeNs < b.closeTsNs) (hopen : b.openTsNs ≠ closeNs) :
    n.onEvent s e = (s, .error (.valueError "native_live_bar_gap_requires_resync")) := by
  have hprevious : previous s b = .error (.valueError "native_live_bar_gap_requires_resync") := by
    rw [previous, hlast]
    dsimp only
    rw [hclose]
    dsimp only
    rw [if_neg (by omega), if_pos (by omega)]
  obtain ⟨htype, hvenue, hinstrument⟩ := heligible
  unfold onEvent
  rw [if_neg (by simp [htype, hvenue, hinstrument]), hbar]
  dsimp only
  rw [if_neg (by simp [hinterval]), hprevious]

end NativeEventStrategy

/-- **Checkpoints are transparent**, for a reference strategy where the state can be read, for a
native strategy always; a bar that is not next leaves the state and gives no signal, a gap raises,
and an answer depends on the events up to it. -/
theorem checkpoints_transparent (h : Hashes) (p : EventStrategyParameters) (r : Reference)
    (n : NativeEventStrategy) :
    (∀ steps, Trace.resumed (onEvent h p r) (reload h p r) State.fresh steps
          = .ok (Trace.answers (onEvent h p r) State.fresh (Trace.events steps))
        ↔ Trace.AtRestarts (onEvent h p r) Legible State.fresh steps)
    ∧ (∀ calls, Trace.resumed n.call n.reload n.fresh calls
          = .ok (Trace.answers n.call n.fresh (Trace.events calls)))
    ∧ (∀ s e, (∀ b, bar e = .ok b → ¬ Next s b) → (onEvent h p r s e).1 = s
          ∧ ∀ signals, (onEvent h p r s e).2 = .ok signals → signals = [])
    ∧ (∀ s e, (∀ b, bar e = .ok b → ¬ NativeEventStrategy.Next s b) → (n.onEvent s e).1 = s
          ∧ ∀ signals, (n.onEvent s e).2 = .ok signals → signals = [])
    ∧ (∀ s e b last, bar e = .ok b → Usable p e b → s.lastCloseNs = some last →
          last < b.closeTsNs → b.openTsNs ≠ last → onEvent h p r s e = (s, .error (.valueError
                "strategy bar sequence has a gap or overlap; resync required")))
    ∧ (∀ s e b last (closeNs : ℕ), e.eventType = "bar" ∧ e.venue = n.venue
            ∧ e.instrument = n.instrument → bar e = .ok b →
          b.closeTsNs - b.openTsNs = n.signalIntervalNs → s.rows.getLast? = some last →
          last.lookup "close_ts_ns" = some (.int closeNs) → closeNs < b.closeTsNs →
          b.openTsNs ≠ closeNs →
          n.onEvent s e = (s, .error (.valueError "native_live_bar_gap_requires_resync")))
    ∧ (∀ s es k, (Trace.answers (onEvent h p r) s es).take k
          = Trace.answers (onEvent h p r) s (es.take k))
    ∧ ∀ s calls k, (Trace.answers n.call s calls).take k = Trace.answers n.call s (calls.take k) := by
  refine ⟨resumed_eq_iff (sound_fresh p), NativeEventStrategy.resumed_eq,
    fun _ _ => onEvent_of_not_next, fun _ _ => NativeEventStrategy.onEvent_of_not_next,
    fun s e b last hbar husable hlast hlater hopen => ?_,
    fun s e b last closeNs heligible hbar hinterval hlast hclose hlater hopen =>
      NativeEventStrategy.onEvent_of_gap heligible hbar hinterval hlast hclose hlater hopen,
    Trace.answers_take _, Trace.answers_take _⟩
  rw [onEvent_of_usable hbar husable hlast hlater]
  exact if_neg hopen

section Run

def one : Price := ⟨⟨false, 1, 0⟩, by decide +kernel, by decide +kernel⟩

def nothing : Quantity := ⟨zero, by decide +kernel, by decide +kernel⟩

/-- Hashes that do not matter. -/
def plain : Hashes :=
  { event := fun _ => "event", parameters := fun _ => "parameters", signal := fun _ => "signal" }

/-- Parameters, with the shortest window. -/
def parameters : EventStrategyParameters :=
  { deploymentId := "deployment", venue := "venue", instrument := "BTC-USD", positionSize := one
    lookback := 2, thresholdBps := one, signalTtlNs := 1, maximumBarDelayNs := 60
    maximumHoldingBars := 20, minimumLowerWickFraction := nothing, minimumDepthRecovery := one
    lookback_mem := by decide, signalTtlNs_pos := by decide, maximumHoldingBars_pos := by decide
    minimumLowerWickFraction_le := by decide +kernel }

/-- The bar of the first minute, at one price. -/
def minute (price : String) : MarketEvent :=
  { venue := "venue", instrument := "BTC-USD", eventType := "bar", exchangeTsNs := 60
    receivedTsNs := 60
    payload := [("open_ts_ns", .int 0), ("close_ts_ns", .int 60), ("open", .str price),
      ("high", .str price), ("low", .str price), ("close", .str price), ("volume", .str "0")]
    received_le := by decide +kernel, available_le := by decide }

/-- A price of 128 characters, of which the text has one more. -/
def longPrice : String := "." ++ "5" ++ String.ofList (List.replicate 126 '0')

/-- After a bar at that price, a checkpoint of the strategy is not read. -/
theorem checkpoint_not_read :
    Trace.resumed (onEvent plain parameters .momentum) (reload plain parameters .momentum)
        State.fresh [.event (minute longPrice), .restart]
      ≠ .ok (Trace.answers (onEvent plain parameters .momentum) State.fresh
          (Trace.events [.event (minute longPrice), .restart])) := by
  have hlong : ¬ ∀ c ∈ (onEvent plain parameters .momentum State.fresh (minute longPrice)).1.closes,
      c.amount.str.length ≤ 128 := by decide +kernel
  intro heq
  have hrestarts := (resumed_eq_iff (sound_fresh parameters) _).mp heq
  exact hlong hrestarts.1.1

/-- A native strategy that does not trade. -/
def idle : NativeEventStrategy :=
  { source := timeSeriesMomentum 2 zero one.amount fun _ _ => .ok []
    artifactHash := "artifact", bridgeHash := "bridge", deploymentId := "deployment"
    venue := "venue", instrument := "BTC-USD", signalIntervalNs := 60000000000, signalTtlNs := 1
    maximumHistoryBars := 3, capital := one, eventHash := fun _ => "event"
    listHash := fun _ => "signal", interval_mem := by decide, signalTtlNs_pos := by decide
    history_mem := by decide }

theorem checkpoint_read :
    Trace.resumed (onEvent plain parameters .momentum) (reload plain parameters .momentum)
        State.fresh [.event (minute "1"), .restart]
      = .ok (Trace.answers (onEvent plain parameters .momentum) State.fresh
          (Trace.events [.event (minute "1"), .restart])) := by
  have hshort : ∀ c ∈ (onEvent plain parameters .momentum State.fresh (minute "1")).1.closes,
      c.amount.str.length ≤ 128 := by decide +kernel
  have htarget : (onEvent plain parameters .momentum State.fresh (minute "1")).1.target.str.length
      ≤ 128 := by decide +kernel
  exact ((checkpoints_transparent plain parameters .momentum idle).1 _).mpr
    ⟨⟨hshort, htarget⟩, trivial⟩

end Run

end Qt.Strategies
