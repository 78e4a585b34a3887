import QuantTrading.Lib.Holding
import QuantTrading.Lib.Ranking
import QuantTrading.SignalArchive

/-!
# Causal states of the indicator engine

`BtcqtIndicatorStateBuilder` of `qt.strategy_ports.btcqt`, and the records of other streams that the
native strategy queues on it. The builder holds each event until the first candle by whose close it
was observed and by whose state it is available, and applies it to the engine before that candle.

The events carry their times in whole milliseconds, as candles do; a record is observed and
available at a microsecond. `calls_causal` says what the engine is called with, and why:
`late_record_first` is a run in which two records of one millisecond come to it in the order of
their streams. Times are counted from the epoch, and floats that are finite are rational.
-/

namespace Qt.StrategyPorts.Btcqt

open Except List EStateM

/-! ## Records -/

/-- What the adapters raise. -/
inductive Exc
  | valueError (text : String)
  | missingRequiredData (text : String)
  | keyError (key : String)
  | typeError
deriving DecidableEq, Repr

/-- A value of a record. -/
inductive Value
  | null
  | bool (b : Bool)
  | int (z : ℤ)
  | float (q : ℚ)
  /-- Not a number, or infinite. -/
  | nonfinite
  | text (s : String)
  /-- A list or an object. -/
  | other
deriving DecidableEq

/-- `BtcqtCausalRecord`: the times in microseconds. -/
structure CausalRecord where
  observedAt : ℤ
  availableAt : ℤ
  values : List (String × Value)
  observed_le : observedAt ≤ availableAt

variable (r : CausalRecord)

/-- `values.get(key)`. -/
def CausalRecord.get (key : String) : Option Value := r.values.lookup key

/-- The whole millisecond of the observation: `int` cuts towards zero. -/
def CausalRecord.timestampMs : ℤ := r.observedAt.tdiv 1000

/-- Numbers written in texts: `float(text)` where it is finite, and `int(text)`. -/
structure Numerals where
  float : String → Option ℚ
  int : String → Option ℤ

variable (num : Numerals)

def requiredText (value : Option Value) (field : String) : Except Exc String :=
  match value with
  | some (.text s) =>
    if Backtest.strip Backtest.isSpace s = "" then .error (.valueError (field ++ " is required"))
    else .ok (Backtest.strip Backtest.isSpace s)
  | _ => .error (.valueError (field ++ " is required"))

def finiteFloat (value : Option Value) (field : String) : Except Exc ℚ :=
  match value with
  | some (.int z) => .ok z
  | some (.float q) => .ok q
  | some (.text s) =>
    match num.float s with
    | some q => .ok q
    | none => .error (.valueError (field ++ " must be finite"))
  | _ => .error (.valueError (field ++ " must be finite"))

/-- `int(value)`. -/
def toInt : Option Value → Except Exc ℤ
  | some (.int z) => .ok z
  | some (.bool b) => .ok b.toNat
  | some (.float q) => .ok (q.num.tdiv q.den)
  | some .nonfinite => .error (.valueError "cannot convert float to integer")
  | some (.text s) =>
    match num.int s with
    | some z => .ok z
    | none => .error (.valueError "invalid literal for int() with base 10")
  | _ => .error .typeError

/-! ## Events -/

/-- What the builder hands to the engine beside candles; the times in milliseconds. -/
inductive EngineEvent
  | forceOrder (ts : ℤ) (side : String) (price qty : ℚ)
  | fundingRate (ts : ℤ) (rate : ℚ)
  | oiSnapshot (ts : ℤ) (oi : ℚ)
  | markPrice (ts : ℤ) (mark index fundingRate : ℚ) (nextFundingTs : ℤ)
  | bookTicker (ts : ℤ) (bid ask : ℚ)
  | taker (ts : ℤ) (buyQty sellQty : ℚ)
  | xprice (venue : String) (ts : ℤ) (price : ℚ)
deriving DecidableEq

/-- The observation time of an event. -/
def EngineEvent.ts : EngineEvent → ℤ
  | .forceOrder ts .. | .fundingRate ts .. | .oiSnapshot ts .. | .markPrice ts .. |
    .bookTicker ts .. | .taker ts .. | .xprice _ ts .. => ts

/-- The event of a record of a stream, in `_queue_auxiliary_records`. -/
def CausalRecord.event (num : Numerals) (r : CausalRecord) (stream : String) :
    Except Exc EngineEvent :=
  match stream with
  | "liquidations" => do
    let side ← requiredText (r.get "side") "liquidation side"
    let price ← finiteFloat num (r.get "price") "liquidation price"
    let qty ← finiteFloat num (r.get "qty") "liquidation qty"
    return .forceOrder r.timestampMs side price qty
  | "funding_settlements" => do
    return .fundingRate r.timestampMs (← finiteFloat num (r.get "rate") "funding rate")
  | "open_interest" => do
    return .oiSnapshot r.timestampMs (← finiteFloat num (r.get "oi") "open interest")
  | "mark_prices" => do
    let mark ← finiteFloat num (r.get "mark") "mark price"
    let index ← finiteFloat num (r.get "index") "index price"
    let fundingRate ← finiteFloat num (r.get "funding_rate") "predicted funding rate"
    let nextFundingTs ← toInt num ((r.get "next_funding_ts").or (some (.int 0)))
    return .markPrice r.timestampMs mark index fundingRate nextFundingTs
  | "book_tickers" => do
    let bid ← finiteFloat num (r.get "bid") "bid"
    let ask ← finiteFloat num (r.get "ask") "ask"
    return .bookTicker r.timestampMs bid ask
  | "taker_flow" => do
    let buyQty ← finiteFloat num (r.get "buy_qty") "buy_qty"
    let sellQty ← finiteFloat num (r.get "sell_qty") "sell_qty"
    return .taker r.timestampMs buyQty sellQty
  | "cross_venue_prices" => do
    let venue ← requiredText (r.get "venue") "cross-venue name"
    let price ← finiteFloat num (r.get "price") "cross-venue price"
    return .xprice venue r.timestampMs price
  | _ => .error (.missingRequiredData
      ("unsupported btc-qt causal stream " ++ stream ++ "; no substitute is permitted"))

/-! ## The builder -/

/-- `Candle`: a candle of one minute, which opens at `ts` milliseconds. -/
structure Candle where
  ts : ℤ
  openPrice : ℚ
  high : ℚ
  low : ℚ
  close : ℚ
  volume : ℚ
deriving DecidableEq

def Candle.closeTs (c : Candle) : ℤ := c.ts + 60000

/-- What the builder needs of an engine with the states `σ`: what an event makes of its state, what
it answers to a candle, and the time of such an answer. -/
structure IndicatorEngine (σ M : Type) where
  apply : EngineEvent → σ → σ
  onCandle : Candle → EStateM Exc σ M
  ts : M → ℤ

structure DataVersion where
  datasetId : String
  version : String
  availableAt : ℤ
deriving DecidableEq

/-- `CausalState`: a state of the market with its times in microseconds. -/
structure CausalState (M : Type) where
  state : M
  observedAt : ℤ
  availableAt : ℤ
  inputs : List DataVersion

/-- The checks of `CausalState`. -/
def CausalState.check {M : Type} (s : CausalState M) (stateTs : ℤ) : Except Exc Unit := do
  raiseIf (s.availableAt < s.observedAt)
    (.valueError "state cannot be available before it was observed")
  raiseIf (1000 * stateTs ≠ s.observedAt)
    (.valueError "MarketState.ts must match observed_at exactly")
  raiseIf (¬ (s.inputs.map DataVersion.datasetId).Nodup)
    (.valueError "input dataset identities must be unique")
  raiseIf (∃ item ∈ s.inputs, s.availableAt < item.availableAt)
    (.valueError "state availability precedes one of its input versions")

/-- An event that is queued, numbered in the order of the calls. -/
structure Pending where
  observedMs : ℤ
  sequence : ℕ
  availableAt : ℤ
  apply : EngineEvent
deriving DecidableEq

/-- `BtcqtIndicatorStateBuilder`. -/
structure Builder (σ : Type) where
  engine : σ
  pending : List Pending
  sequence : ℕ
  lastCandleCloseMs : Option ℤ

namespace Builder

variable {σ M : Type} (engine : IndicatorEngine σ M)

/-- A builder whose engine is in the state. -/
def new (s : σ) : Builder σ where
  engine := s
  pending := []
  sequence := 0
  lastCandleCloseMs := none

def queue (event : EngineEvent) (availableAt : ℤ) : EStateM Exc (Builder σ) Unit := fun b =>
  if availableAt < 1000 * event.ts then
    .error (.valueError "event availability cannot precede its observation") b
  else
    .ok () { b with
      sequence := b.sequence + 1
      pending := b.pending ++ [⟨event.ts, b.sequence + 1, availableAt, event⟩] }

/-- The key by which `_flush_eligible` sorts. -/
def flushKey (p : Pending) : ℤ ×ₗ ℕ := toLex (p.observedMs, p.sequence)

/-- One round of `_flush_eligible`: the event is applied or it remains. -/
def flushOne (candleCloseMs stateAvailableAt : ℤ) (acc : σ × List Pending) (p : Pending) :
    σ × List Pending :=
  if p.observedMs ≤ candleCloseMs ∧ p.availableAt ≤ stateAvailableAt then
    (engine.apply p.apply acc.1, acc.2)
  else (acc.1, acc.2 ++ [p])

def flushEligible (candleCloseMs stateAvailableAt : ℤ) (b : Builder σ) : Builder σ :=
  let queued := b.pending.orderBy flushKey
  let flushed := queued.foldl (flushOne engine candleCloseMs stateAvailableAt) (b.engine, [])
  { b with engine := flushed.1, pending := flushed.2 }

/-- The end of `on_candle`, when the events are applied: the engine answers. -/
def answer (c : Candle) (availableAt : ℤ) (inputs : List DataVersion) :
    EStateM Exc (Builder σ) (CausalState M) := fun b =>
  match engine.onCandle c b.engine with
  | .error e s => .error e { b with engine := s }
  | .ok state s =>
    let causal : CausalState M := ⟨state, 1000 * c.closeTs, availableAt, inputs⟩
    match causal.check (engine.ts state) with
    | .error e => .error e { b with engine := s }
    | .ok () => .ok causal { b with engine := s }

def onCandle (c : Candle) (availableAt : ℤ) (inputs : List DataVersion) :
    EStateM Exc (Builder σ) (CausalState M) := fun b =>
  if availableAt < 1000 * c.closeTs then
    .error (.valueError "a candle state cannot be available before candle close") b
  else if ∃ last ∈ b.lastCandleCloseMs, c.closeTs ≤ last then
    .error (.valueError "candle closes must be strictly increasing") b
  else
    answer engine c availableAt inputs
      { flushEligible engine c.closeTs availableAt b with lastCandleCloseMs := some c.closeTs }

end Builder

/-! ## Runs -/

/-- `BtcqtCausalBundle`, with what its `__post_init__` asks and makes of the records. -/
structure CausalBundle where
  versions : List (String × String)
  records : List (String × List CausalRecord)
  named : ∀ v ∈ versions, v.1 ≠ "" ∧ v.2 ≠ ""
  versioned : ∀ s ∈ records, s.1 ∈ versions.map Prod.fst
  sorted : ∀ s ∈ records, s.2.Pairwise fun r q =>
    toLex (r.observedAt, r.availableAt) ≤ toLex (q.observedAt, q.availableAt)

/-- `BtcqtCausalBundle(versions, records)`. -/
def CausalBundle.make (versions : List (String × String))
    (records : List (String × List CausalRecord)) : Except Exc CausalBundle :=
  if hnamed : ∀ v ∈ versions, v.1 ≠ "" ∧ v.2 ≠ "" then
    if hversioned : ∀ s ∈ records, s.1 ∈ versions.map Prod.fst then
      .ok
        { versions
          records := records.map fun s =>
            (s.1, s.2.orderBy fun r => toLex (r.observedAt, r.availableAt))
          named := hnamed
          versioned := fun s hs => by
            obtain ⟨s', hs', rfl⟩ := mem_map.mp hs
            exact hversioned s' hs'
          sorted := fun s hs => by
            obtain ⟨s', -, rfl⟩ := mem_map.mp hs
            exact pairwise_orderBy _ s'.2 }
    else .error (.valueError "causal bundle records require a dataset fingerprint")
  else .error (.valueError "causal bundle dataset IDs and fingerprints must not be empty")

/-- What comes to the builder: a record of a stream, or a candle with the time at which its state
is available and its inputs. -/
inductive Feed
  | record (stream : String) (r : CausalRecord)
  | candle (c : Candle) (availableAt : ℤ) (inputs : List DataVersion)

variable {σ M : Type}

/-- One round of `_queue_auxiliary_records`. -/
def queueAuxiliaryRecord (stream : String) (r : CausalRecord) : EStateM Exc (Builder σ) Unit :=
  fun b =>
    match r.event num stream with
    | .ok event => Builder.queue event r.availableAt b
    | .error e => .error e b

variable (engine : IndicatorEngine σ M)

/-- One call of the builder. -/
def Feed.step : Feed → EStateM Exc (Builder σ) Unit
  | .record stream r => queueAuxiliaryRecord num stream r
  | .candle c availableAt inputs => do
    let _ ← Builder.onCandle engine c availableAt inputs

/-- The calls of the builder one after the other. -/
def run (feed : List Feed) : EStateM Exc (Builder σ) Unit :=
  feed.forM (Feed.step num engine)

variable (bundle : CausalBundle)

def queueAuxiliaryRecords : EStateM Exc (Builder σ) Unit :=
  bundle.records.forM fun (stream, records) => records.forM (queueAuxiliaryRecord num stream)

/-- The records of a bundle in the order in which they are queued. -/
def CausalBundle.feed : List Feed :=
  bundle.records.flatMap fun (stream, records) => records.map (.record stream)

/-- To queue the records of a bundle is a run of the builder. -/
theorem queueAuxiliaryRecords_eq_run :
    queueAuxiliaryRecords num bundle = run num engine bundle.feed := by
  show _ = (bundle.records.flatMap _).forM _
  unfold queueAuxiliaryRecords
  induction bundle.records with
  | nil => rfl
  | cons s records ih =>
    show (s.2.forM _ >>= fun _ => _) = (s.2.map (Feed.record s.1) ++ _).forM _
    rw [ih, forM_eq_forM, forM_eq_forM, forM_append, forM_map]
    rfl

inductive Call
  | apply (event : EngineEvent)
  | onCandle (c : Candle)
deriving DecidableEq

/-- An engine that writes down how it is called. -/
def recorder : IndicatorEngine (List Call) ℤ where
  apply event calls := calls ++ [.apply event]
  onCandle c calls := .ok c.closeTs (calls ++ [.onCandle c])
  ts := id

/-- The state of a builder when its run is over or has raised. -/
def left {α : Type} : EStateM.Result Exc (Builder σ) α → Builder σ
  | .ok _ b => b
  | .error _ b => b

/-- **The calls of the engine in a run.** -/
def calls (feed : List Feed) : List Call :=
  (left (run num recorder feed (Builder.new []))).engine

/-! ## What the builder holds -/

/-- An event that comes to the builder. -/
structure Arrival where
  event : EngineEvent
  availableAt : ℤ

/-- The observation of the event, in whole milliseconds. -/
def Arrival.observedMs (a : Arrival) : ℤ := a.event.ts

/-- A candle with the time at which its state is available. -/
structure StateOf where
  candle : Candle
  availableAt : ℤ

/-- **The event was observed by the close of the candle and is available by its state.** -/
def Eligible (g : StateOf) (a : Arrival) : Prop :=
  a.observedMs ≤ g.candle.closeTs ∧ a.availableAt ≤ g.availableAt
deriving Decidable

/-- What comes to the builder, with the event of a record read. -/
def Feed.read : Feed → Except Exc (Arrival ⊕ StateOf)
  | .record stream r => do
    let event ← r.event num stream
    return .inl ⟨event, r.availableAt⟩
  | .candle c availableAt _ => .ok (.inr ⟨c, availableAt⟩)

/-- The call of the engine for what goes through. -/
def call : Arrival ⊕ StateOf → Call
  | .inl a => .apply a.event
  | .inr g => .onCandle g.candle

/-- The arrival of an event that is queued. -/
def Pending.arrival (p : Pending) : Arrival := ⟨p.apply, p.availableAt⟩

open Holding

/-- The builder has called its engine with what goes through, and has what is held queued. -/
structure Follows (b : Builder (List Call)) (l : List (Arrival ⊕ StateOf)) : Prop where
  calls : b.engine = (passed Eligible Arrival.observedMs l).map call
  pending : ∃ w : List Pending, b.pending.Perm w ∧ w.map Pending.arrival = held Eligible l
    ∧ w.Pairwise (fun p q => p.sequence < q.sequence)
    ∧ ∀ p ∈ w, p.sequence ≤ b.sequence ∧ p.observedMs = p.apply.ts

section Flush

/-- A round of flushing applies the eligible events and leaves the others. -/
theorem foldl_flushOne (engine : IndicatorEngine σ M) (lets : Pending → Bool)
    {candleCloseMs stateAvailableAt : ℤ}
    (hlets : ∀ p, lets p = true ↔ p.observedMs ≤ candleCloseMs ∧ p.availableAt ≤ stateAvailableAt)
    (s : σ) (remaining queued : List Pending) :
    queued.foldl (Builder.flushOne engine candleCloseMs stateAvailableAt) (s, remaining)
      = ((queued.filter lets).foldl (fun s p => engine.apply p.apply s) s,
        remaining ++ queued.filter fun p => !lets p) := by
  induction queued generalizing s remaining with
  | nil => exact congrArg _ (append_nil remaining).symm
  | cons p queued ih =>
    rw [foldl_cons, Builder.flushOne, if_congr (hlets p).symm rfl rfl]
    by_cases h : lets p = true
    · rw [if_pos h, ih, filter_cons_of_pos h, filter_cons_of_neg (by simp [h])]
      rfl
    · rw [if_neg h, ih, filter_cons_of_neg h, filter_cons_of_pos (by simp [h]),
        append_assoc]
      rfl

/-- The recorder writes down the events that are applied. -/
theorem foldl_recorder (s : List Call) (applied : List Pending) :
    applied.foldl (fun s p => recorder.apply p.apply s) s
      = s ++ applied.map fun p => .apply p.apply := by
  induction applied generalizing s with
  | nil => exact (append_nil s).symm
  | cons p applied ih =>
    rw [foldl_cons, ih, map_cons]
    exact append_assoc s [_] _

end Flush

section Follow

variable {b : Builder (List Call)} {l : List (Arrival ⊕ StateOf)}

theorem follows_new : Follows (Builder.new []) [] := ⟨rfl, [], .refl _, rfl, .nil, nofun⟩

variable (h : Follows b l)
include h

theorem Follows.queue (event : EngineEvent) (availableAt : ℤ) : Follows
      { b with
        sequence := b.sequence + 1
        pending := b.pending ++ [⟨event.ts, b.sequence + 1, availableAt, event⟩] }
      (l ++ [.inl ⟨event, availableAt⟩]) := by
  obtain ⟨w, hperm, hheld, hnumbered, hbound⟩ := h.pending
  refine ⟨by rw [passed_concat_inl]; exact h.calls,
    w ++ [⟨event.ts, b.sequence + 1, availableAt, event⟩], hperm.append_right _, ?_, ?_, ?_⟩
  · rw [map_append, hheld, held_concat_inl]
    rfl
  · refine pairwise_append.mpr ⟨hnumbered, pairwise_singleton _ _, fun p hp q hq => ?_⟩
    rw [mem_singleton.mp hq]
    exact Nat.lt_succ_of_le (hbound p hp).1
  · refine forall_mem_append.mpr ⟨fun p hp => ?_, forall_mem_singleton.mpr ⟨le_rfl, rfl⟩⟩
    exact ⟨(hbound p hp).1.trans (Nat.le_succ _), (hbound p hp).2⟩

/-- **A candle lets through what it is eligible for**, and the rest stays queued. -/
theorem Follows.answer (c : Candle) (availableAt : ℤ) (last : Option ℤ) : Follows
      { Builder.flushEligible recorder c.closeTs availableAt b with
        lastCandleCloseMs := last
        engine := (Builder.flushEligible recorder c.closeTs availableAt b).engine ++ [.onCandle c] }
      (l ++ [.inr ⟨c, availableAt⟩]) := by
  obtain ⟨w, hperm, hheld, hnumbered, hbound⟩ := h.pending
  let lets : Pending → Bool := fun p => p.observedMs ≤ c.closeTs ∧ p.availableAt ≤ availableAt
  have hlets : ∀ p ∈ w, lets p = decide (Eligible ⟨c, availableAt⟩ p.arrival) := by
    intro p hp
    show decide (p.observedMs ≤ _ ∧ _) = _
    rw [(hbound p hp).2]
    rfl
  -- the queue in order is the events by observation, those of one millisecond as they came
  have hqueued : b.pending.orderBy Builder.flushKey = w.orderBy Pending.observedMs := by
    have hnodup : (w.map Builder.flushKey).Nodup := pairwise_map.mpr <|
      hnumbered.imp fun hlt heq => hlt.ne (congrArg Prod.snd (toLex.injective heq))
    exact (orderBy_eq_of_perm _ hperm ((hperm.map _).nodup_iff.mpr hnodup)).trans
      (orderBy_eq_orderBy_lex Pending.observedMs hnumbered).symm
  have hrelease : ((w.filter lets).orderBy Pending.observedMs).map Pending.arrival
      = Holding.release Eligible Arrival.observedMs ⟨c, availableAt⟩ (held Eligible l) := by
    rw [Holding.release, ← hheld, filter_map, orderBy_map Pending.observedMs]
    · exact congrArg (List.map _ <| List.orderBy _ ·) (filter_congr hlets)
    · intro p hp
      exact ((hbound p (mem_filter.mp hp).1).2).symm
  have hflush : Builder.flushEligible recorder c.closeTs availableAt b = { b with
          engine := b.engine ++
            ((w.filter lets).orderBy Pending.observedMs).map fun p => .apply p.apply
          pending := (w.orderBy Pending.observedMs).filter fun p => !lets p } := by
    have hfold := foldl_flushOne recorder lets (fun p => decide_eq_true_iff) b.engine []
      (w.orderBy Pending.observedMs)
    rw [filter_orderBy, foldl_recorder, nil_append] at hfold
    rw [Builder.flushEligible, hqueued, hfold]
  rw [hflush]
  refine ⟨?_, w.filter fun p => !lets p, ?_, ?_, hnumbered.filter _,
    fun p hp => hbound p (mem_filter.mp hp).1⟩
  · rw [passed_concat_inr, map_append, map_append, ← h.calls, ← hrelease, map_map,
      map_map, ← append_assoc]
    rfl
  · exact (orderBy_perm _ w).filter _
  · rw [held_concat_inr, keep, ← hheld, filter_map]
    refine congrArg _ (filter_congr fun p hp => ?_)
    rw [hlets p hp]
    exact decide_not.symm

theorem Follows.onCandle (c : Candle) (availableAt : ℤ)
    (inputs : List DataVersion) : match Builder.onCandle recorder c availableAt inputs b with
    | .ok _ b' => Follows b' (l ++ [.inr ⟨c, availableAt⟩])
    | .error _ b' => Follows b' l ∨ Follows b' (l ++ [.inr ⟨c, availableAt⟩]) := by
  unfold Builder.onCandle
  split_ifs
  · exact .inl h
  · exact .inl h
  have hfollows := h.answer c availableAt (some c.closeTs)
  let causal : CausalState ℤ := ⟨c.closeTs, 1000 * c.closeTs, availableAt, inputs⟩
  have hanswer : ∀ b : Builder (List Call), Builder.answer recorder c availableAt inputs b
      = match causal.check c.closeTs with
        | .error e => .error e { b with engine := b.engine ++ [.onCandle c] }
        | .ok () => .ok causal { b with engine := b.engine ++ [.onCandle c] } := fun _ => rfl
  rw [hanswer]
  cases causal.check c.closeTs with
  | error e => exact .inr hfollows
  | ok u => exact hfollows

/-- **One call of the builder**: it follows what comes, unless it raises before it takes that in. -/
theorem Follows.step (x : Feed) : match x.step num recorder b with
    | .ok _ b' => ∃ y, x.read num = .ok y ∧ Follows b' (l ++ [y])
    | .error _ b' => Follows b' l ∨ ∃ y, x.read num = .ok y ∧ Follows b' (l ++ [y]) := by
  cases x with
  | record stream r =>
    show match queueAuxiliaryRecord num stream r b with | .ok .. => _ | .error .. => _
    unfold queueAuxiliaryRecord
    cases hevent : r.event num stream with
    | error e => exact .inl h
    | ok event =>
      show match Builder.queue event r.availableAt b with | .ok .. => _ | .error .. => _
      unfold Builder.queue
      split_ifs
      · exact .inl h
      · exact ⟨_, by rw [Feed.read, hevent]; rfl, h.queue event r.availableAt⟩
  | candle c availableAt inputs =>
    have hcandle := h.onCandle c availableAt inputs
    have hread : (Feed.candle c availableAt inputs).read num = .ok (.inr ⟨c, availableAt⟩) := rfl
    show match (Builder.onCandle recorder c availableAt inputs >>= fun _ => pure ()) b with
      | .ok .. => _ | .error .. => _
    cases hresult : Builder.onCandle recorder c availableAt inputs b with
    | ok state b' =>
      rw [hresult] at hcandle
      rw [bind_of_ok hresult]
      exact ⟨_, hread, hcandle⟩
    | error e b' =>
      rw [hresult] at hcandle
      rw [bind_of_error hresult]
      exact hcandle.imp_right fun hcandle => ⟨_, hread, hcandle⟩

/-- **A run of the builder** follows what it takes in: all that comes before it raises. -/
theorem Follows.run (feed : List Feed) :
    ∃ done l', done <+: feed ∧ done.mapM (Feed.read num) = .ok l'
      ∧ Follows (left (run num recorder feed b)) (l ++ l')
      ∧ ∀ p, p <+: feed → (∃ b', Btcqt.run num recorder p b = .ok () b') → p <+: done := by
  induction feed generalizing b l with
  | nil => exact ⟨[], [], prefix_rfl, rfl, by rw [append_nil]; exact h, fun p hp _ => hp⟩
  | cons x feed ih =>
    have hstep := h.step num x
    have hrun : ∀ feed', Btcqt.run num recorder (x :: feed') b
        = (x.step num recorder >>= fun _ => Btcqt.run num recorder feed') b := fun _ => rfl
    cases hresult : x.step num recorder b with
    | ok u b' =>
      rw [hresult] at hstep
      obtain ⟨y, hread, hfollows⟩ := hstep
      obtain ⟨done, l', hpre, hmap, hleft, hall⟩ := ih hfollows
      refine ⟨x :: done, y :: l', (prefix_cons_inj x).mpr hpre, ?_, ?_, ?_⟩
      · rw [mapM_cons, hread, ok_bind, hmap]
        rfl
      · rw [hrun, bind_of_ok hresult]
        rwa [append_assoc] at hleft
      · intro p hp hreturns
        cases p with
        | nil => exact nil_prefix
        | cons x' p =>
          obtain ⟨rfl, hp'⟩ := cons_prefix_cons.mp hp
          rw [hrun, bind_of_ok hresult] at hreturns
          exact (prefix_cons_inj x').mpr (hall p hp' hreturns)
    | error e b' =>
      rw [hresult] at hstep
      have hnone : ∀ p, p <+: x :: feed →
          (∃ b', Btcqt.run num recorder p b = .ok () b') → ∀ done, p <+: done := by
        rintro (- | ⟨x', p⟩) hp ⟨b'', hb''⟩ done
        · exact nil_prefix
        · obtain ⟨rfl, -⟩ := cons_prefix_cons.mp hp
          rw [hrun, bind_of_error hresult] at hb''
          exact nomatch hb''
      have hleft : left (Btcqt.run num recorder (x :: feed) b) = b' := by
        rw [hrun, bind_of_error hresult]
        rfl
      rw [hleft]
      rcases hstep with hfollows | ⟨y, hread, hfollows⟩
      · exact ⟨[], [], nil_prefix, rfl, by rwa [append_nil],
          fun p hp hreturns => hnone p hp hreturns _⟩
      · refine ⟨[x], [y], (prefix_cons_inj x).mpr nil_prefix, ?_, hfollows,
            fun p hp hreturns => hnone p hp hreturns _⟩
        rw [mapM_cons, hread]
        rfl

end Follow

/-! ## Causality -/

/-- The calls that are due to what comes to the builder. -/
def callsOf (l : List (Arrival ⊕ StateOf)) : List Call :=
  (passed Eligible Arrival.observedMs l).map call

theorem callsOf_prefix (l m : List (Arrival ⊕ StateOf)) : callsOf l <+: callsOf (l ++ m) := by
  rw [callsOf, callsOf, passed_append, map_append]
  exact prefix_append _ _

/-- **The calls of the engine are causal and exact.** A run takes in all that comes before it
raises. Up to each candle the engine is called with what is shown by then: first with the events
held that this candle is eligible for, by milliseconds and then as they came. Every event is applied
once, or is held at the end. -/
theorem calls_causal (feed : List Feed) : ∃ done l, done <+: feed
      ∧ (∀ p, p <+: feed → (∃ b, run num recorder p (Builder.new []) = .ok () b) → p <+: done)
      ∧ done.mapM (Feed.read num) = .ok l
      ∧ calls num feed = callsOf l
      ∧ (arrivals (passed Eligible Arrival.observedMs l) ++ held Eligible l).Perm (arrivals l)
      ∧ ∀ past g rest, l = past ++ .inr g :: rest → callsOf (past ++ [.inr g]) <+: calls num feed
        ∧ (∃ applied : List Arrival, callsOf (past ++ [.inr g])
              = callsOf past ++ (applied.map (fun a => .apply a.event) ++ [.onCandle g.candle])
            ∧ applied.Perm ((held Eligible past).filter (Eligible g ·))
            ∧ applied.Pairwise (fun a a' => a.observedMs ≤ a'.observedMs)
            ∧ ∀ t, applied.filter (·.observedMs = t)
              = ((held Eligible past).filter (Eligible g ·)).filter (·.observedMs = t))
        ∧ ∀ l', seen Eligible l' = seen Eligible (past ++ [.inr g]) →
          callsOf l' = callsOf (past ++ [.inr g]) := by
  obtain ⟨done, l, hpre, hread, hfollows, hall⟩ := follows_new.run num feed
  have hcalls : calls num feed = callsOf l := hfollows.calls
  refine ⟨done, l, hpre, hall, hread, hcalls, arrivals_passed_perm l, ?_⟩
  rintro past g rest rfl
  refine ⟨?_, ⟨Holding.release Eligible Arrival.observedMs g (held Eligible past), ?_, ?_, ?_, ?_⟩,
    ?_⟩
  · rw [hcalls, append_cons past (.inr g) rest]
    exact callsOf_prefix _ rest
  · rw [callsOf, passed_concat_inr, map_append, map_append, map_map]
    rfl
  · exact orderBy_perm _ _
  · exact pairwise_orderBy _ _
  · exact fun t => filter_rank_orderBy _ _ t
  · exact fun l' hseen => congrArg (List.map call) (passed_congr hseen)

section Sample

/-- No text is a number. -/
def noNumerals : Numerals := ⟨fun _ => none, fun _ => none⟩

/-- A liquidation, half a millisecond after the epoch. -/
def liquidation : CausalRecord where
  observedAt := 500
  availableAt := 600
  values := [("side", .text "SELL"), ("price", .int 100), ("qty", .int 1)]
  observed_le := by decide

/-- The open interest of an earlier time in the same millisecond. -/
def openInterest : CausalRecord where
  observedAt := 200
  availableAt := 600
  values := [("oi", .int 5)]
  observed_le := by decide

/-- One record of each of two streams. -/
def twoStreams : CausalBundle where
  versions := [("liquidations", "sha256:a"), ("open_interest", "sha256:b")]
  records := [("liquidations", [liquidation]), ("open_interest", [openInterest])]
  named := by decide
  versioned := by decide
  sorted := by simp

/-- A record of the first minute that is available in the third. -/
def lateInterest : CausalRecord where
  observedAt := 10000000
  availableAt := 150000000
  values := [("oi", .int 5)]
  observed_le := by decide

/-- A candle at one price. -/
def sampleCandle (ts : ℤ) : Candle := ⟨ts, 100, 100, 100, 100, 1⟩

/-- The record observed first is applied second; and a candle whose state is available before that
of the candle before it comes after a record that is not available by its own. -/
theorem late_record_first :
    (calls noNumerals (twoStreams.feed ++ [.candle (sampleCandle 0) 60000000 []])
        = [.apply (.forceOrder 0 "SELL" 100 1), .apply (.oiSnapshot 0 5),
          .onCandle (sampleCandle 0)]
      ∧ openInterest.observedAt < liquidation.observedAt)
    ∧ (calls noNumerals [.record "open_interest" lateInterest,
          .candle (sampleCandle 0) 200000000 [], .candle (sampleCandle 60000) 120000000 []]
        = [.apply (.oiSnapshot 10000 5), .onCandle (sampleCandle 0), .onCandle (sampleCandle 60000)]
      ∧ calls noNumerals [.candle (sampleCandle 0) 200000000 [],
          .candle (sampleCandle 60000) 120000000 []]
        = [.onCandle (sampleCandle 0), .onCandle (sampleCandle 60000)]
      ∧ 120000000 < lateInterest.availableAt) := by
  decide +kernel

end Sample

end Qt.StrategyPorts.Btcqt
