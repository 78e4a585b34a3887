import Mathlib.Data.Rat.Floor
import QuantTrading.Lib.Machine

/-!
# The engine of the monitor

`MonitorEngine` of `qt.btc_monitor.engine`, as far as an anomaly is concerned: market
events are checked for order and loss, trades go into buckets of one second, and every
trade that is accepted is held against the anomaly that is being watched, or may open a
new one.

An anomaly is a sequence of decisions under one event id. `_revise` appends the next one,
and is called while events are ingested, by a snapshot that finds the sources unhealthy or
the anomaly expired, and by a reset.
-/

namespace Qt.BtcMonitor

/-! ## Data -/

/-- The configuration, as far as it is read here. -/
structure MonitorConfig where
  bootId : String
  ringSize : ℕ
  bootstrapCandles : ℕ
  minimumCoverageSeconds : ℚ
  minimumTradeBuckets : ℕ
  tradeStaleSeconds : ℚ
  quoteStaleSeconds : ℚ
  candleStaleSeconds : ℚ
  maxBacklogSeconds : ℚ
  maxFutureSeconds : ℚ
  eventTtlSeconds : ℚ
  anomalyWindowSeconds : ℕ
  wickThresholdBps : ℚ
  wickRecoveryFraction : ℚ
  confirmationSeconds : ℚ

inductive Channel | trade | quote | candle
deriving DecidableEq, Repr

/-- `MarketEvent`, as far as it is read here. -/
structure MarketEvent where
  channel : Channel
  eventTime : Option ℚ
  receivedAt : ℚ
  receivedMono : ℚ
  sequence : ℕ
  price : ℚ
  openTime : Option ℚ
  closeTime : Option ℚ
  historical : Bool

/-- The `state` of an anomaly. -/
inductive AnomalyState | watch | confirmed | invalidated | expired
deriving DecidableEq, Repr

/-- `state in {"WATCH", "CONFIRMED"}`. -/
def AnomalyState.IsLive (state : AnomalyState) : Prop := state = .watch ∨ state = .confirmed
deriving Decidable

inductive Direction | down | up
deriving DecidableEq, Repr

structure AnomalyDecision where
  eventId : String
  revision : ℕ
  state : AnomalyState
  asOf : ℚ
  expiresAt : ℚ
  direction : Direction
  baseline : ℚ
  extreme : ℚ
  recoveryFraction : ℚ
  reason : String

/-- A pending notification of an anomaly, without its text. -/
structure Notification where
  decision : AnomalyDecision
  positive : Bool

/-- A `Bucket`, with what a window reads of it for an anomaly. -/
structure Bucket where
  second : ℤ
  opened : ℚ
  high : ℚ
  low : ℚ

/-- The fields of the engine that are about anomalies. `events` has every decision; the
engine shows the last fifty. -/
structure Anomalies where
  active : Option AnomalyDecision
  events : List AnomalyDecision
  recoveryStart : Option ℚ
  lastShockMono : Option ℚ
  lastExtremeMono : Option ℚ
  pendingNotifications : List Notification

/-- **`MonitorEngine`.** `resets` counts the calls of `reset`. -/
structure MonitorEngine where
  buckets : List Bucket
  channels : Channel → Option MarketEvent
  backlogs : Channel → Option ℚ
  candles : List MarketEvent
  errors : String → ℕ
  coverageStart : Option ℚ
  gapReason : String
  lastProgressAt : Option ℚ
  anomalies : Anomalies
  resets : ℕ

def MonitorEngine.start : MonitorEngine where
  buckets := []
  channels := fun _ => none
  backlogs := fun _ => none
  candles := []
  errors := fun _ => 0
  coverageStart := none
  gapReason := "startup_warmup"
  lastProgressAt := none
  anomalies := ⟨none, [], none, none, none, []⟩
  resets := 0

/-! ## Buckets -/

/-- `int(...)`. -/
def truncate (t : ℚ) : ℤ := if 0 ≤ t then ⌊t⌋ else ⌈t⌉

/-- `deque.append`, with a `maxlen`. -/
def pushBounded {α : Type} (maxlen : ℕ) (x : α) (xs : List α) : List α :=
  (xs ++ [x]).drop (xs.length + 1 - maxlen)

def Bucket.add (price : ℚ) (b : Bucket) : Bucket :=
  { b with high := max b.high price, low := min b.low price }

/-- **`MicroState.add`.** -/
def addTrade (cfg : MonitorConfig) (eventTime price : ℚ) (buckets : List Bucket) : List Bucket :=
  let second := truncate eventTime
  let added :=
    match buckets.getLast? with
    | some last =>
      if last.second = second then buckets.dropLast ++ [last.add price]
      else pushBounded cfg.ringSize ⟨second, price, price, price⟩ buckets
    | none => pushBounded cfg.ringSize ⟨second, price, price, price⟩ buckets
  added.dropWhile fun b => b.second < second - 3600

/-- `WindowMetrics`, with what is read of it for an anomaly. -/
structure WindowMetrics where
  buckets : ℕ
  opened : ℚ
  high : Option ℚ
  low : Option ℚ

/-- **`MicroState.window`**: the buckets of the last seconds up to the cutoff. -/
def window (seconds : ℕ) (cutoff : ℚ) (buckets : List Bucket) : WindowMetrics :=
  let inside := ((buckets.reverse.takeWhile fun b => cutoff - seconds < b.second).filter
    fun b => b.second ≤ cutoff).reverse
  { buckets := inside.length
    opened := (inside.head?.map Bucket.opened).getD 0
    high := (inside.map Bucket.high).max?
    low := (inside.map Bucket.low).min? }

/-! ## Anomalies -/

namespace AnomalyDecision

/-- The price is past the extreme. -/
def Extended (d : AnomalyDecision) (price : ℚ) : Prop :=
  match d.direction with
  | .down => price < d.extreme
  | .up => d.extreme < price

instance (d : AnomalyDecision) (price : ℚ) : Decidable (d.Extended price) := by
  unfold Extended
  cases d.direction <;> infer_instance

/-- **The recovery** of a price, as a fraction of the way back to the baseline. -/
def recovery (d : AnomalyDecision) (price : ℚ) : ℚ :=
  let distance := |d.baseline - d.extreme|
  if distance = 0 then 0
  else
    match d.direction with
    | .down => (price - d.extreme) / distance
    | .up => (d.extreme - price) / distance

/-- The decision after this one. -/
def revised (state : AnomalyState) (now recovery : ℚ) (reason : String) (extreme : Option ℚ)
    (d : AnomalyDecision) : AnomalyDecision :=
  { d with
    revision := d.revision + 1
    state := state
    asOf := now
    recoveryFraction := recovery
    reason := reason
    extreme := extreme.getD d.extreme }

end AnomalyDecision

namespace Anomalies

/-- **`_revise`**, of the decision that is active. -/
def revise (state : AnomalyState) (now recovery : ℚ) (reason : String) (extreme : Option ℚ)
    (d : AnomalyDecision) (a : Anomalies) : Anomalies :=
  let next := d.revised state now recovery reason extreme
  { a with
    active := some next
    events := a.events ++ [next]
    recoveryStart := none
    pendingNotifications :=
      if state = .confirmed ∨ state = .invalidated then
        a.pendingNotifications ++ [⟨next, state = .confirmed⟩]
      else a.pendingNotifications }

/-- An anomaly that is watched or confirmed is invalidated. -/
def invalidate (reason : String) (now : Option ℚ) (a : Anomalies) : Anomalies :=
  match a.active with
  | none => a
  | some d =>
    if d.state.IsLive then
      a.revise .invalidated (now.getD d.asOf) d.recoveryFraction reason none d
    else a

/-- A shock is noted. -/
def shock (impulse : Bool) (mono : ℚ) (a : Anomalies) : Anomalies :=
  if impulse then { a with lastShockMono := some mono } else a

/-- A new extreme is noted. -/
def noteExtreme (mono : ℚ) (a : Anomalies) : Anomalies :=
  { a with lastShockMono := some mono, lastExtremeMono := some mono }

def setRecoveryStart (start : Option ℚ) (a : Anomalies) : Anomalies :=
  { a with recoveryStart := start }

variable (cfg : MonitorConfig)

/-- **A trade against the anomaly** that is watched or confirmed. -/
def follow (price now mono : ℚ) (d : AnomalyDecision) (a : Anomalies) : Anomalies :=
  if d.expiresAt ≤ now then a.revise .expired now d.recoveryFraction "event_expired" none d
  else if d.Extended price then
    if d.state = .confirmed then
      (a.noteExtreme mono).revise .invalidated now 0 "renewed_extreme" (some price) d
    else (a.noteExtreme mono).revise .watch now 0 "extreme_extended" (some price) d
  else if cfg.wickRecoveryFraction ≤ d.recovery price then
    if d.state = .watch ∧ cfg.confirmationSeconds ≤ mono - a.recoveryStart.getD mono then
      (a.setRecoveryStart (some (a.recoveryStart.getD mono))).revise .confirmed now
        (d.recovery price) "observed_recovery" none d
    else a.setRecoveryStart (some (a.recoveryStart.getD mono))
  else if d.state = .confirmed then
    (a.setRecoveryStart none).revise .invalidated now (d.recovery price) "recovery_failed" none d
  else a.setRecoveryStart none

/-- The first decision of an anomaly. -/
def opening (sequence : ℕ) (price now baseline : ℚ) (direction : Direction) : AnomalyDecision :=
  ⟨cfg.bootId ++ "-" ++ toString sequence, 1, .watch, now, now + cfg.eventTtlSeconds, direction,
    baseline, price, 0, "intrasecond_path_impulse"⟩

/-- **A trade while nothing is watched**: an impulse opens an anomaly, if the last one is
over. -/
def detect (sequence : ℕ) (price now mono baseline : ℚ) (direction : Direction) (impulse : Bool)
    (a : Anomalies) : Anomalies :=
  if impulse = true ∧ ¬ ∃ d ∈ a.active, now < d.expiresAt then
    { a with
      active := some (opening cfg sequence price now baseline direction)
      events := a.events ++ [opening cfg sequence price now baseline direction]
      recoveryStart := none
      lastShockMono := some mono
      lastExtremeMono := some mono }
  else a

/-- **`_anomaly`**, after the windows have been read. -/
def trade (sequence : ℕ) (price now mono baseline : ℚ) (direction : Direction) (impulse : Bool)
    (a : Anomalies) : Anomalies :=
  match a.active with
  | some d =>
    if d.state.IsLive then (a.shock impulse mono).follow cfg price now mono d
    else (a.shock impulse mono).detect cfg sequence price now mono baseline direction impulse
  | none => (a.shock impulse mono).detect cfg sequence price now mono baseline direction impulse

end Anomalies

/-! ## The engine -/

namespace MonitorEngine

variable (reason : String)

def error (s : MonitorEngine) : MonitorEngine :=
  { s with errors := Function.update s.errors reason (s.errors reason + 1) }

def reset (now : Option ℚ) (s : MonitorEngine) : MonitorEngine :=
  { s with
    buckets := []
    coverageStart := none
    gapReason := reason
    channels := fun _ => none
    backlogs := fun _ => none
    anomalies := s.anomalies.invalidate reason now
    resets := s.resets + 1 }

/-- An error that resets. -/
def fail (now : ℚ) (s : MonitorEngine) : MonitorEngine :=
  (s.error reason).reset reason (some now)

variable (cfg : MonitorConfig) (event : MarketEvent)

def anomaly (eventTime now mono : ℚ) (s : MonitorEngine) : MonitorEngine :=
  let baseline := (window cfg.anomalyWindowSeconds eventTime s.buckets).opened
  let down := (baseline - event.price) / baseline * 10000
  let up := (event.price - baseline) / baseline * 10000
  let ordinary := window 60 (eventTime - cfg.anomalyWindowSeconds) s.buckets
  let threshold :=
    match ordinary.high, ordinary.low with
    | some high, some low =>
      if 45 ≤ ordinary.buckets ∧ high ≠ 0 ∧ low ≠ 0 then
        max cfg.wickThresholdBps ((high - low) / baseline * 15000)
      else cfg.wickThresholdBps
    | _, _ => cfg.wickThresholdBps
  { s with
    anomalies := s.anomalies.trade cfg event.sequence event.price now mono baseline
      (if up ≤ down then .down else .up) (threshold ≤ max down up) }

/-- A gap between candles resets. -/
def resetCandleGap (now : ℚ) (s : MonitorEngine) : MonitorEngine :=
  if ∃ last ∈ s.candles.getLast?, event.sequence ≠ last.sequence + 60000 then
    { s with candles := [] }.fail "candle_gap" now
  else s

/-- A candle is kept; history is context only. -/
def keepCandle (mono : ℚ) (s : MonitorEngine) : MonitorEngine :=
  let s := { s with candles := pushBounded cfg.bootstrapCandles event s.candles }
  if event.historical then s
  else { s with
    channels := Function.update s.channels .candle (some event)
    backlogs := Function.update s.backlogs .candle (some (max 0 (mono - event.receivedMono))) }

/-- `ingest` of a candle. -/
def ingestCandle (now mono : ℚ) (s : MonitorEngine) : Bool × MonitorEngine :=
  match event.closeTime, event.openTime with
  | some closeTime, some _ =>
    if now ≤ closeTime then (false, s.error "unclosed_candle")
    else if ∃ last ∈ s.candles.getLast?, event.sequence ≤ last.sequence then (false, s)
    else (true, (s.resetCandleGap event now).keepCandle cfg event mono)
  | _, _ => (false, s.error "unclosed_candle")

/-- A trade that is in order: it may still be late. -/
def acceptTrade (now mono : ℚ) (s : MonitorEngine) : Bool × MonitorEngine :=
  match event.eventTime with
  | none => (false, s.fail "delayed_trade" now)
  | some eventTime =>
    if cfg.tradeStaleSeconds < now - eventTime ∨ cfg.tradeStaleSeconds < mono - event.receivedMono
    then (false, s.fail "delayed_trade" now)
    else if cfg.maxBacklogSeconds < max 0 (mono - event.receivedMono) then
      (false, s.fail "consumer_backlog" now)
    else
      let s := { s with
        coverageStart := some (s.coverageStart.getD mono)
        buckets := addTrade cfg eventTime event.price s.buckets }
      (true, { s.anomaly cfg event eventTime now mono with lastProgressAt := some now })

/-- An event of the book or the tape that is in order. -/
def accept (now mono : ℚ) (s : MonitorEngine) : Bool × MonitorEngine :=
  let s := { s with
    channels := Function.update s.channels event.channel (some event)
    backlogs := Function.update s.backlogs event.channel (some (max 0 (mono - event.receivedMono))) }
  if event.channel = .trade then s.acceptTrade cfg event now mono
  else (true, { s with lastProgressAt := some now })

/-- The times of two events are in the wrong order. -/
def TimesBack (previous event : MarketEvent) : Prop :=
  ∃ t ∈ event.eventTime, ∃ t' ∈ previous.eventTime, t < t'
deriving Decidable

/-- The times of two events are too far apart. -/
def TimesGap (previous event : MarketEvent) : Prop :=
  ∃ t ∈ event.eventTime, ∃ t' ∈ previous.eventTime, cfg.tradeStaleSeconds < t - t'
deriving Decidable

/-- `ingest` of a trade or a quote: disorder is rejected, and a gap resets. -/
def ingestLive (now mono : ℚ) (s : MonitorEngine) : Bool × MonitorEngine :=
  match s.channels event.channel with
  | none => s.accept cfg event now mono
  | some previous =>
    if event.sequence = previous.sequence then (false, s.error "duplicate")
    else if event.sequence < previous.sequence ∨ event.receivedMono < previous.receivedMono ∨
        TimesBack previous event then
      (false, s.fail "out_of_order" now)
    else if event.channel = .trade ∧ event.sequence ≠ previous.sequence + 1 then
      (s.fail "trade_sequence_gap" now).accept cfg event now mono
    else if event.channel = .trade ∧ TimesGap cfg previous event then
      (s.fail "trade_time_gap" now).accept cfg event now mono
    else s.accept cfg event now mono

def ingest (now mono : ℚ) (s : MonitorEngine) : Bool × MonitorEngine :=
  if mono + cfg.maxFutureSeconds < event.receivedMono ∨
      now + cfg.maxFutureSeconds < event.receivedAt then
    (false, s.fail "future_receive_time" now)
  else if ∃ t ∈ event.eventTime, now + cfg.maxFutureSeconds < t then
    (false, s.fail "future_event_time" now)
  else if event.historical = true ∧ event.channel ≠ .candle then
    (false, s.error "historical_trade_rejected")
  else if event.channel = .candle then s.ingestCandle cfg event now mono
  else if event.channel = .trade ∧ event.eventTime = none then
    (false, s.fail "missing_trade_source_time" now)
  else s.ingestLive cfg event now mono

/-- A trade or quote channel is ready. -/
def channelReady (channel : Channel) (stale now mono : ℚ) (s : MonitorEngine) : Bool :=
  match s.channels channel, s.backlogs channel with
  | some event, some backlog =>
    0 ≤ mono - event.receivedMono ∧ mono - event.receivedMono ≤ stale ∧
      (∀ t ∈ event.eventTime, -cfg.maxFutureSeconds ≤ now - t ∧ now - t ≤ stale) ∧
      backlog ≤ cfg.maxBacklogSeconds
  | _, _ => false

def candleReady (now : ℚ) (s : MonitorEngine) : Bool :=
  3 ≤ s.candles.length ∧ (∃ last ∈ s.candles.getLast?, ∃ closeTime ∈ last.closeTime,
      0 ≤ now - closeTime ∧ now - closeTime ≤ cfg.candleStaleSeconds) ∧
    ¬ ((s.channels .candle).isSome ∧ cfg.maxBacklogSeconds < (s.backlogs .candle).getD 0)

/-- `all(item.ready for item in channels.values())`. -/
def sourcesReady (now mono : ℚ) (s : MonitorEngine) : Bool :=
  s.channelReady cfg .trade cfg.tradeStaleSeconds now mono &&
    s.channelReady cfg .quote cfg.quoteStaleSeconds now mono && s.candleReady cfg now

/-- The coverage of the last minute is sufficient. -/
def sufficient (now mono : ℚ) (s : MonitorEngine) : Bool :=
  let coverage := (s.coverageStart.map (mono - ·)).getD 0
  let cutoff := ((s.channels .trade).bind MarketEvent.eventTime).getD now
  cfg.minimumCoverageSeconds ≤ coverage ∧
    cfg.minimumTradeBuckets ≤ (window 60 cutoff s.buckets).buckets

/-- What a snapshot does to an anomaly: it expires, or the sources are unhealthy. -/
def review (now : ℚ) (ready : Bool) (a : Anomalies) : Anomalies :=
  match a.active with
  | none => a
  | some d =>
    if d.state.IsLive then
      if d.expiresAt ≤ now then a.revise .expired now d.recoveryFraction "event_expired" none d
      else if ready then a
      else a.revise .invalidated now d.recoveryFraction "source_unhealthy" none d
    else a

/-- **`snapshot`**, without the assessment that it makes. -/
def snapshot (now mono : ℚ) (s : MonitorEngine) : MonitorEngine :=
  let a := review now (s.sourcesReady cfg now mono) s.anomalies
  { s with
    anomalies :=
      if s.sourcesReady cfg now mono && s.sufficient cfg now mono then a
      else { a with pendingNotifications := a.pendingNotifications.filter (!·.positive) }
    lastProgressAt := some now }

end MonitorEngine

/-! ## Steps -/

/-- What the service does with the engine. -/
inductive Op
  | ingest (event : MarketEvent) (now mono : ℚ)
  | snapshot (now mono : ℚ)
  | reset (reason : String) (now : Option ℚ)

def step (cfg : MonitorConfig) (s : MonitorEngine) : Op → MonitorEngine
  | .ingest event now mono => (s.ingest cfg event now mono).2
  | .snapshot now mono => s.snapshot cfg now mono
  | .reset reason now => s.reset reason now

end Qt.BtcMonitor
