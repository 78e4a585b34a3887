import QuantTrading.Lib.Firsts
import QuantTrading.Lib.Raise
import QuantTrading.Lib.Table
import QuantTrading.MonitorEngine

/-!
# The store of the monitor and its outbox

`SnapshotStore` of `qt.btc_monitor.store`, and `AsyncTelegram.run_once` of
`qt.btc_monitor.notifications` as the way its outbox is used. A persist records the
decisions of a snapshot and queues notifications in one transaction, together with the
barrier of the assessment and the retention; a sender fetches what is due, claims it, and
writes down how the send ended.

A worker that raises is dead until the process is started again, and a start takes every
send that was under way for interrupted. What a persist has written before a crash is there
after it, so that a crash at any point is a start after the persist or without it.

Senders may be many, and each step of one is a step here. Every item that a sender of the
running process has fetched can be claimed at any later time, or be written off.
-/

namespace Qt.BtcMonitor.Storage

open Except

/-! ## What is persisted -/

/-- The bounds of the store and of the sender. `upper` is `str.upper`. -/
structure StoreConfig where
  retentionSeconds : ℚ
  maxDecisions : ℕ
  maxOutbox : ℕ
  maxSnapshotBytes : ℕ
  notificationStaleSeconds : Channel → ℚ
  maxFutureSeconds : ℚ
  maxNotificationSnapshotAge : ℚ
  maxAttempts : ℕ
  maxRetryAfter : ℚ
  upper : String → String

/-- A decision or an assessment of a snapshot. `fields` has the others, as they are encoded. -/
structure Decision where
  eventId : Option String
  decisionId : Option String
  assessmentId : Option String
  revision : ℤ
  state : Option String
  status : Option String
  expiresAt : Option ℚ
  fields : String
deriving DecidableEq

structure ChannelHealth where
  ready : Bool
  receiveAgeSeconds : Option ℚ
  eventAgeSeconds : Option ℚ
  sourceTimeKnown : Bool

structure Health where
  dataReady : Bool
  channels : Channel → Option ChannelHealth

/-- A snapshot, with the length of its encoding. -/
structure Snapshot where
  recentEvents : List Decision
  decision : Option Decision
  assessment : Option Decision
  health : Option Health
  publishedAt : Option ℚ
  encodedBytes : ℕ

/-- A notification that is handed over with a snapshot, with the length of its encoding. -/
structure Notification where
  eventId : Option String
  decisionId : Option String
  revision : ℤ
  notificationClass : String
  text : String
  expiresAt : ℚ
  positive : Bool
  encodedBytes : ℕ

/-- A row of `decisions`. -/
structure DecisionRow where
  eventId : String
  revision : ℤ
  createdAt : ℚ
  status : String
  expiresAt : ℚ
  payload : Decision
deriving DecidableEq

def DecisionRow.key (row : DecisionRow) : String × ℤ := (row.eventId, row.revision)

inductive OutboxStatus | pending | sending | accepted | expired | obsolete | failed | unknown
deriving DecidableEq, Repr

/-- A row of `outbox`. -/
structure OutboxRow where
  eventId : String
  revision : ℤ
  notificationClass : String
  createdAt : ℚ
  expiresAt : ℚ
  positive : Bool
  text : String
  status : OutboxStatus
  attempts : ℕ
  nextRetryAt : ℚ
  errorCode : Option String
deriving DecidableEq

/-- The primary key of the outbox. -/
abbrev Key := String × ℤ × String

def OutboxRow.key (row : OutboxRow) : Key := (row.eventId, row.revision, row.notificationClass)

/-- **`SnapshotStore`**: the tables and the two rows of `state`, and what is in memory. Of
the row `latest` only the id of the assessment is read. -/
structure SnapshotStore where
  decisions : Table DecisionRow.key
  outbox : Table OutboxRow.key
  savedAssessmentId : Option String
  savedBarrier : Option (Option String × ℤ)
  latestAssessmentId : Option String
  assessmentBarrierRevision : ℤ
  latestProjection : Option Snapshot
  latestPersistMono : ℚ
  failed : Bool

/-- A new directory. -/
def SnapshotStore.start : SnapshotStore where
  decisions := .empty
  outbox := .empty
  savedAssessmentId := none
  savedBarrier := none
  latestAssessmentId := none
  assessmentBarrierRevision := 0
  latestProjection := none
  latestPersistMono := 0
  failed := false

/-! ## Persist -/

/-- A string that is there and not empty. -/
def truthy (text : Option String) : Option String := text.filter (· ≠ "")

/-- `event_id or decision_id or assessment_id`. -/
def Decision.id? (d : Decision) : Option String :=
  truthy d.eventId <|> truthy d.decisionId <|> truthy d.assessmentId

/-- The decisions of a snapshot: the assessment comes last. -/
def Snapshot.decisions (snapshot : Snapshot) : List Decision :=
  snapshot.recentEvents ++ snapshot.decision.toList ++ snapshot.assessment.toList

def Snapshot.assessmentId (snapshot : Snapshot) : Option String :=
  snapshot.assessment.bind Decision.assessmentId

variable (cfg : StoreConfig)

def Decision.row (eventId : String) (now : ℚ) (d : Decision) : DecisionRow where
  eventId := eventId
  revision := d.revision
  createdAt := now
  status := cfg.upper ((d.state <|> d.status).getD "unknown")
  expiresAt := d.expiresAt.getD now
  payload := d

variable (now : ℚ) (t : Table DecisionRow.key)

/-- A decision is recorded. A revision that is there already has to be the same. -/
def recordDecision (d : Decision) : Except String (Table DecisionRow.key) :=
  match d.id? with
  | none => .ok t
  | some eventId => do
    raiseIf (∃ row ∈ t.find? (eventId, d.revision), row.payload ≠ d) "storage_revision_conflict"
    return t.insertOnce (d.row cfg eventId now)

def Notification.row (eventId : String) (now : ℚ) (n : Notification) : OutboxRow where
  eventId := eventId
  revision := n.revision
  notificationClass := n.notificationClass
  createdAt := now
  expiresAt := n.expiresAt
  positive := n.positive
  text := n.text
  status := .pending
  attempts := 0
  nextRetryAt := 0
  errorCode := none

/-- A notification is queued, unless its key is taken. -/
def queueNotification (t : Table OutboxRow.key) (n : Notification) :
    Except String (Table OutboxRow.key) :=
  match truthy n.eventId <|> n.decisionId with
  | none => .error "decision_id"
  | some eventId => do
    raiseIf (n.text = "" ∨ 4096 < n.text.length ∨ 16384 < n.encodedBytes)
      "storage_notification_too_large"
    return t.insertOnce (n.row eventId now)

/-- Pending rows whose time is over expire. -/
def expirePending (t : Table OutboxRow.key) : Table OutboxRow.key :=
  t.updateWhere (fun row => row.status = .pending ∧ row.expiresAt ≤ now)
    (fun row => { row with status := .expired }) fun _ => rfl

/-- `status NOT IN ('pending','sending')`. -/
def OutboxRow.Settled (row : OutboxRow) : Prop := row.status ≠ .pending ∧ row.status ≠ .sending
deriving Decidable

/-- The oldest settled rows beyond `max_outbox`. -/
def surplus (t : Table OutboxRow.key) : List OutboxRow :=
  ((t.rows.filter fun row => row.Settled).orderBy OutboxRow.createdAt).take
    (t.rows.length - cfg.maxOutbox)

/-- `_retain`, of the outbox before its rows are counted. -/
def dropSettled (t : Table OutboxRow.key) : Table OutboxRow.key :=
  (expirePending now t).deleteWhere fun row =>
    row.Settled ∧ row.createdAt < now - cfg.retentionSeconds

def retainOutbox (t : Table OutboxRow.key) : Except String (Table OutboxRow.key) := do
  let kept := (dropSettled cfg now t).deleteWhere fun row =>
    row ∈ surplus cfg (dropSettled cfg now t)
  raiseIf (cfg.maxOutbox < kept.rows.length) "storage_outbox_capacity"
  return kept

/-- The decisions that are not too old. -/
def dropDecisions : Table DecisionRow.key :=
  t.deleteWhere fun row => row.createdAt < now - cfg.retentionSeconds

/-- `ORDER BY created_at DESC, rowid DESC LIMIT max_decisions`. -/
def newest : List DecisionRow :=
  (t.rows.reverse.orderBy fun row => -row.createdAt).take cfg.maxDecisions

def retainDecisions : Table DecisionRow.key :=
  (dropDecisions cfg now t).deleteWhere fun row => row ∉ newest cfg (dropDecisions cfg now t)

namespace SnapshotStore

/-- `barrier_revision`: a new id has none, and what is no candidate sets it. -/
def barrierRevision (snapshot : Snapshot) (s : SnapshotStore) : ℤ :=
  match snapshot.assessment.filter fun a =>
      (truthy a.assessmentId).isSome ∧ a.state ≠ some "CANDIDATE" with
  | some a => a.revision
  | none =>
    if snapshot.assessmentId = s.latestAssessmentId then s.assessmentBarrierRevision else 0

/-- The worker has raised. -/
def fail (s : SnapshotStore) : SnapshotStore := { s with failed := true }

/-- **The transaction of `_persist`**, and what is set in memory right after it. -/
def commit (cfg : StoreConfig) (snapshot : Snapshot) (notifications : List Notification) (now : ℚ)
    (s : SnapshotStore) : Except String SnapshotStore := do
  raiseIf (cfg.maxSnapshotBytes < snapshot.encodedBytes) "storage_snapshot_too_large"
  let recorded ← snapshot.decisions.foldlM (recordDecision cfg now) s.decisions
  let queued ← notifications.foldlM (queueNotification now) s.outbox
  let kept ← retainOutbox cfg now queued
  return { s with
    decisions := retainDecisions cfg now recorded
    outbox := kept
    savedAssessmentId := snapshot.assessmentId
    savedBarrier := some (snapshot.assessmentId, s.barrierRevision snapshot)
    latestAssessmentId := snapshot.assessmentId
    assessmentBarrierRevision := s.barrierRevision snapshot }

/-- The snapshot has been exported. -/
def project (snapshot : Snapshot) (mono : ℚ) (s : SnapshotStore) : SnapshotStore :=
  { s with latestProjection := some snapshot, latestPersistMono := mono }

end SnapshotStore

/-! ## What is current -/

/-- An age that is known, from the clock of the source. -/
def sourceFresh (name : Channel) (elapsed : ℚ) (channel : ChannelHealth) : Prop :=
  match channel.eventAgeSeconds with
  | none => name = .quote ∧ channel.sourceTimeKnown = false
  | some age =>
    -cfg.maxFutureSeconds ≤ age ∧ age + elapsed ≤ cfg.notificationStaleSeconds name

instance (cfg : StoreConfig) (name : Channel) (elapsed : ℚ) (channel : ChannelHealth) :
    Decidable (sourceFresh cfg name elapsed channel) := by
  unfold sourceFresh
  cases channel.eventAgeSeconds <;> infer_instance

/-- A channel is ready, and fresh after the time that has gone by. -/
def channelFresh (health : Health) (elapsed : ℚ) (name : Channel) : Prop :=
  ∃ channel ∈ health.channels name, channel.ready = true ∧
    (name ≠ .candle → ∃ age ∈ channel.receiveAgeSeconds,
      0 ≤ age ∧ age + elapsed ≤ cfg.notificationStaleSeconds name) ∧
    sourceFresh cfg name elapsed channel
deriving Decidable

/-- The time that has gone by since a snapshot, by the later of the two clocks. -/
def elapsed (now publishedAt mono persistMono : ℚ) : ℚ :=
  max (max 0 (now - publishedAt)) (mono - persistMono)

/-- **A snapshot is fresh**: that much time after it was published and persisted. -/
def Snapshot.Fresh (now mono persistMono : ℚ) (snapshot : Snapshot) : Prop :=
  ∃ health ∈ snapshot.health, ∃ publishedAt ∈ snapshot.publishedAt,
    health.dataReady = true ∧ -cfg.maxFutureSeconds ≤ now - publishedAt ∧
      elapsed now publishedAt mono persistMono ≤ cfg.maxNotificationSnapshotAge ∧
      ∀ name ∈ [Channel.trade, .quote, .candle],
        channelFresh cfg health (elapsed now publishedAt mono persistMono) name
deriving Decidable

/-- The stored decision of an event that has the highest revision. -/
def latestRow (eventId : String) : Option DecisionRow :=
  ((t.rows.filter fun row => row.eventId = eventId).orderBy fun row => -row.revision).head?

namespace SnapshotStore

/-- `_positive_eligible`: nothing is, before the process has persisted a snapshot. -/
def PositiveEligible (cfg : StoreConfig) (now mono : ℚ) (s : SnapshotStore) : Prop :=
  ∃ projection ∈ s.latestProjection, projection.Fresh cfg now mono s.latestPersistMono
deriving Decidable

/-- The latest decision supports a positive item. -/
def Supports (s : SnapshotStore) (item : OutboxRow) (row : DecisionRow) : Prop :=
  if row.status = "CANDIDATE" then
    s.latestAssessmentId = some item.eventId ∧
      s.assessmentBarrierRevision < item.revision ∧ item.revision ≤ row.revision
  else row.status = "CONFIRMED" ∧ row.revision = item.revision
deriving Decidable

def IsCurrent (cfg : StoreConfig) (now mono : ℚ) (item : OutboxRow) (s : SnapshotStore) : Prop :=
  now < item.expiresAt ∧ (item.positive = true → s.PositiveEligible cfg now mono ∧
      ∃ row ∈ latestRow s.decisions item.eventId, now < row.expiresAt ∧ s.Supports item row)
deriving Decidable

/-! ## The outbox -/

/-- The rows that are due: `ORDER BY created_at, rowid LIMIT limit`. -/
def due (cfg : StoreConfig) (limit : ℕ) (now : ℚ) (s : SnapshotStore) : List OutboxRow :=
  (((expirePending now s.outbox).rows.filter fun row =>
    row.status = .pending ∧ row.nextRetryAt ≤ now).orderBy OutboxRow.createdAt).take
      (max 1 (min limit cfg.maxOutbox))

/-- The due rows that are still current. `mono` is the monotonic time when each is checked. -/
def fetched (cfg : StoreConfig) (limit : ℕ) (now : ℚ) (mono : Key → ℚ) (s : SnapshotStore) :
    List OutboxRow :=
  (s.due cfg limit now).filter fun row => s.IsCurrent cfg now (mono row.key) row

/-- **`fetch`**: the due rows that are not current any more become obsolete. -/
def fetch (cfg : StoreConfig) (limit : ℕ) (now : ℚ) (mono : Key → ℚ) (s : SnapshotStore) :
    SnapshotStore :=
  { s with
    outbox := (expirePending now s.outbox).updateWhere
      (fun row => row ∈ s.due cfg limit now ∧ ¬ s.IsCurrent cfg now (mono row.key) row)
      (fun row => { row with status := .obsolete }) fun _ => rfl }

/-- The row of an item can be claimed: it is pending, due, and as the sender has seen it. -/
def Open (item : OutboxRow) (due : ℚ) (s : SnapshotStore) : Prop :=
  ∃ row ∈ s.outbox.find? item.key,
    row.status = .pending ∧ row.nextRetryAt ≤ due ∧ row.attempts = item.attempts
deriving Decidable

/-- **The conditions of `claim`**, which reads its clock twice. -/
def Claims (cfg : StoreConfig) (item : OutboxRow) (now due mono : ℚ) (s : SnapshotStore) : Prop :=
  s.failed = false ∧ s.IsCurrent cfg now mono item ∧ s.Open item due
deriving Decidable

/-- The update of a claim. -/
def claim (item : OutboxRow) (s : SnapshotStore) : SnapshotStore :=
  { s with
    outbox := s.outbox.update item.key
      (fun row => { row with status := .sending, attempts := row.attempts + 1, errorCode := none })
      fun _ => rfl }

def update (key : Key) (status : OutboxStatus) (attempts : ℕ) (nextRetryAt : Option ℚ)
    (errorCode : Option String) (s : SnapshotStore) : SnapshotStore :=
  { s with
    outbox := s.outbox.update key (fun row => { row with
        status := status
        attempts := attempts
        nextRetryAt := nextRetryAt.getD 0
        errorCode := errorCode }) fun _ => rfl }

/-- **`_initialize`**: interrupted sends are never retried, and readiness is not restored. -/
def restart (s : SnapshotStore) : SnapshotStore where
  decisions := s.decisions
  outbox := s.outbox.updateWhere (fun row => row.status = .sending)
    (fun row => { row with status := .unknown, errorCode := some "interrupted_send" }) fun _ => rfl
  savedAssessmentId := s.savedAssessmentId
  savedBarrier := s.savedBarrier
  latestAssessmentId := s.savedAssessmentId
  assessmentBarrierRevision :=
    match s.savedBarrier with
    | some (assessmentId, revision) => if assessmentId = s.savedAssessmentId then revision else 0
    | none => 0
  latestProjection := none
  latestPersistMono := 0
  failed := false

end SnapshotStore

/-! ## The sender -/

/-- What comes of a request: the status code, whether the body says `ok`, and the delay of a
retry; or an exception that is none of a cancellation. -/
inductive Answer
  | exception
  | response (statusCode : ℕ) (bodyOk : Bool) (delay : ℚ)

/-- What a sender writes down: the status, the time of the next try, and the error. -/
structure Report where
  status : OutboxStatus
  nextRetryAt : Option ℚ
  errorCode : Option String

/-- **The outcome of a send.** Only a refusal for the rate is tried again. -/
def Answer.report (item : OutboxRow) (now : ℚ) : Answer → Report
  | exception => ⟨.unknown, none, some "transport_unknown"⟩
  | response statusCode bodyOk delay =>
    if statusCode = 429 then
      if cfg.maxAttempts ≤ item.attempts + 1 then ⟨.failed, none, some "attempt_limit"⟩
      else if cfg.maxRetryAfter < delay then ⟨.failed, none, some "rate_limit_horizon"⟩
      else if item.expiresAt ≤ now + delay then ⟨.expired, none, some "rate_limited"⟩
      else ⟨.pending, some (now + delay), some "rate_limited"⟩
    else if 200 ≤ statusCode ∧ statusCode < 300 ∧ bodyOk = true then ⟨.accepted, none, none⟩
    else if 500 ≤ statusCode ∨ 200 ≤ statusCode ∧ statusCode < 300 then
      ⟨.unknown, none, some "telegram_invalid_response"⟩
    else ⟨.failed, none, some "telegram_rejected"⟩

/-- The outcome is known. -/
def Answer.known : Answer → Bool
  | exception => false
  | response .. => true

/-! ## Steps -/

/-- What happened to the sends of a key. -/
inductive SendEvent
  | claimed (key : Key) (attempt : ℕ)
  | interrupted (key : Key)
deriving DecidableEq

def SendEvent.key : SendEvent → Key
  | claimed key _ => key
  | interrupted key => key

/-- A persist that was committed. -/
structure Persisted where
  snapshot : Snapshot
  now : ℚ
  mono : ℚ

/-- **The service**: the store, the items that senders have fetched, and those that are
being sent. `persisted` and `sends` are what has happened, and `pruned` has the keys of the
rows that the retention has deleted. -/
structure Service where
  store : SnapshotStore
  items : List OutboxRow
  inFlight : List OutboxRow
  persisted : List Persisted
  sends : List SendEvent
  pruned : List Key

def Service.start : Service := ⟨.start, [], [], [], [], []⟩

/-- The disk at a persist. -/
inductive Disk | ready | low | exportFails
deriving DecidableEq, Repr

/-- The steps. A sender has looked whether an item is current before it makes it obsolete;
what it saw may be over, and is left open. -/
inductive Op
  | persist (snapshot : Snapshot) (notifications : List Notification) (disk : Disk) (now mono : ℚ)
  | fetch (limit : ℕ) (now : ℚ) (mono : Key → ℚ)
  | obsolete (item : OutboxRow)
  | attemptLimit (item : OutboxRow)
  | claim (item : OutboxRow) (now due mono : ℚ)
  | answer (item : OutboxRow) (answer : Answer) (now : ℚ)
  | cancelled (item : OutboxRow)
  | restart

namespace Service

def gone (t t' : Table OutboxRow.key) : List Key :=
  (t.rows.map OutboxRow.key).filter fun key => key ∉ t'.rows.map OutboxRow.key

def persist (cfg : StoreConfig) (snapshot : Snapshot) (notifications : List Notification)
    (disk : Disk) (now mono : ℚ) (h : Service) : Service :=
  if disk = .low then { h with store := h.store.fail }
  else
    match h.store.commit cfg snapshot notifications now with
    | .error _ => { h with store := h.store.fail }
    | .ok s =>
      { h with
        store := if disk = .exportFails then s.fail else s.project snapshot mono
        persisted := h.persisted ++ [⟨snapshot, now, mono⟩]
        pruned := h.pruned ++ gone h.store.outbox s.outbox }

/-- A fetch, by any sender. -/
def fetch (cfg : StoreConfig) (limit : ℕ) (now : ℚ) (mono : Key → ℚ) (h : Service) : Service :=
  { h with
    store := h.store.fetch cfg limit now mono
    items := h.items ++ h.store.fetched cfg limit now mono }

variable (item : OutboxRow)

/-- An item is written off without a send. -/
def writeOff (status : OutboxStatus) (errorCode : Option String) (h : Service) : Service :=
  if item ∈ h.items then
    { h with store := h.store.update item.key status item.attempts none errorCode }
  else h

/-- A claim, of an item that was fetched. -/
def claim (cfg : StoreConfig) (item : OutboxRow) (now due mono : ℚ) (h : Service) : Service :=
  if item ∈ h.items ∧ h.store.Claims cfg item now due mono then
    { h with
      store := h.store.claim item
      inFlight := h.inFlight ++ [item]
      sends := h.sends ++ [.claimed item.key (item.attempts + 1)] }
  else h

/-- A send is over without an outcome that is known. -/
def interrupted (known : Bool) : List SendEvent :=
  if known then [] else [.interrupted item.key]

/-- The outcome of a send is written down. -/
def answer (cfg : StoreConfig) (item : OutboxRow) (answer : Answer) (now : ℚ) (h : Service) :
    Service :=
  if item ∈ h.inFlight then
    { h with
      store := h.store.update item.key (answer.report cfg item now).status (item.attempts + 1)
        (answer.report cfg item now).nextRetryAt (answer.report cfg item now).errorCode
      inFlight := h.inFlight.erase item
      sends := h.sends ++ interrupted item answer.known }
  else h

/-- A send is cancelled: its claim is left as it is. -/
def cancelled (h : Service) : Service :=
  if item ∈ h.inFlight then
    { h with
      inFlight := h.inFlight.erase item
      sends := h.sends ++ interrupted item false }
  else h

/-- The process ends at any point, and another one starts. -/
def restart (h : Service) : Service :=
  { h with
    store := h.store.restart
    items := []
    inFlight := []
    sends := h.sends ++ h.inFlight.flatMap fun item => interrupted item false }

/-- A request: after the worker has raised, it raises. -/
def request (f : Service → Service) (h : Service) : Service := if h.store.failed then h else f h

end Service

def step (h : Service) : Op → Service
  | .persist snapshot notifications disk now mono =>
    h.request (·.persist cfg snapshot notifications disk now mono)
  | .fetch limit now mono => h.request (·.fetch cfg limit now mono)
  | .obsolete item => h.request (·.writeOff item .obsolete none)
  | .attemptLimit item =>
    if cfg.maxAttempts ≤ item.attempts then
      h.request (·.writeOff item .failed (some "attempt_limit"))
    else h
  | .claim item now due mono => h.request (·.claim cfg item now due mono)
  | .answer item answer now => h.request (·.answer cfg item answer now)
  | .cancelled item => h.cancelled item
  | .restart => h.restart

/-- The service after a run. -/
def after (ops : List Op) : Service := Machine.run (step cfg) .start ops

end Qt.BtcMonitor.Storage
