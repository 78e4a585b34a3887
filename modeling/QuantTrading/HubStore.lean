import Mathlib.Data.Prod.Lex
import Mathlib.Data.String.Basic
import QuantTrading.Lib.Firsts
import QuantTrading.Lib.Machine
import QuantTrading.Persistence

/-!
# The jobs of the hub

The ledger of `qt.agent_hub.store`: jobs that workers claim under a lease and a
fencing token, schedules that turn into jobs, and the cancellation of runs. Every
method is one `BEGIN IMMEDIATE` transaction, so that an interleaving of workers is
a sequence of calls.

Of the clock only its order is used. The type of times is a parameter with its
arithmetic, and so are payloads and results, of which only the `pipeline_id` of a
payload is read: by Python, as what a key lookup returns, and by SQLite, through
`json_extract` and the binding of a value to a parameter. These do not treat all
JSON values alike, and the two readings are kept apart here.
-/

namespace Qt

namespace Hub

open Except List Table Option

/-! ## Values -/

/-- A value of a payload: a float is of type `T`, a list or an object of type `K`. -/
inductive JsonValue (T K : Type)
  | null
  | bool (b : Bool)
  | integer (n : ℤ)
  | real (x : T)
  | text (s : String)
  | composite (x : K)
deriving DecidableEq, Repr

/-- A value of SQLite. -/
inductive SqlValue (T : Type)
  | null
  | integer (n : ℤ)
  | real (x : T)
  | text (s : String)
deriving DecidableEq, Repr

/-- **What the ledger asks of its surroundings**: the field of a payload, the texts of
values, the arithmetic of floats, and `LIKE`. -/
structure HubCodec (P T K : Type) where
  /-- `json.loads(payload_json).get("pipeline_id")`, if the key is there. -/
  pipelineId : P → Option (JsonValue T K)
  /-- `str` of a float. -/
  realStr : T → String
  /-- SQLite's text of a float. -/
  realText : T → String
  /-- `str` of a list or an object. -/
  compositeStr : K → String
  /-- What `json_extract` returns of a list or an object. -/
  compositeText : K → String
  num : ℕ → T
  plus : T → T → T
  minus : T → T → T
  /-- `math.floor(timestamp / interval)`. -/
  bucketOf : T → T → ℤ
  /-- `bucket * interval`. -/
  times : ℤ → T → T
  /-- `text LIKE pattern`. -/
  like : String → String → Bool

variable {P R T K : Type} (codec : HubCodec P T K)

/-- `str(value)`. -/
def JsonValue.str : JsonValue T K → String
  | .null => "None"
  | .bool true => "True"
  | .bool false => "False"
  | .integer n => toString n
  | .real x => codec.realStr x
  | .text s => s
  | .composite x => codec.compositeStr x

/-- The value as a parameter of a statement. -/
def JsonValue.bind : JsonValue T K → Except Exc (SqlValue T)
  | .null => .ok .null
  | .bool b => .ok (.integer (if b then 1 else 0))
  | .integer n =>
    if -2 ^ 63 ≤ n ∧ n < 2 ^ 63 then .ok (.integer n)
    else .error (.statementError "Python int too large to convert to SQLite INTEGER")
  | .real x => .ok (.real x)
  | .text s => .ok (.text s)
  | .composite _ => .error (.statementError "Error binding parameter: type is not supported")

/-- `json_extract(payload_json, '$.pipeline_id')`. -/
def extract : Option (JsonValue T K) → SqlValue T
  | none | some .null => .null
  | some (.bool b) => .integer (if b then 1 else 0)
  | some (.integer n) => .integer n
  | some (.real x) => .real x
  | some (.text s) => .text s
  | some (.composite x) => .text (codec.compositeText x)

/-- `column = value`, for a column of type `TEXT`: a number is compared by its text. -/
def textColumnEq (column : String) : SqlValue T → Bool
  | .null => false
  | .integer n => column = toString n
  | .real x => column = codec.realText x
  | .text s => column = s

/-! ## Rows -/

inductive HubStatus | queued | running | succeeded | deadletter
deriving DecidableEq, Repr

/-- A row of `hub_jobs`. -/
structure HubJob (P R T : Type) where
  id : String
  tenantId : String
  kind : String
  payloadJson : P
  idempotencyKey : String
  initialNotBefore : Option T
  notBefore : T
  status : HubStatus
  attempts : ℕ
  maxAttempts : ℕ
  workerId : Option String
  leaseToken : ℕ
  leaseUntil : Option T
  resultJson : Option R
  error : Option String
  createdAt : T
  updatedAt : T
  finishedAt : Option T

inductive OverlapPolicy | skip | skipIfRunning | bufferOne | allow
deriving DecidableEq, Repr

/-- A row of `hub_schedules`, with the columns that ticks read. -/
structure HubSchedule (P T : Type) where
  id : String
  tenantId : String
  name : String
  kind : String
  payloadJson : P
  intervalSeconds : T
  enabled : Bool
  nextRunAt : T
  lastRunAt : Option T
  createdAt : T
  updatedAt : T
  overlapPolicy : OverlapPolicy
  catchupWindowS : T

/-- What happened, as far as it concerns fencing: a claim, the end of a claim by its
worker – in success, failure or deferral –, and a job made from a schedule. -/
inductive HubEvent (T : Type)
  | claimed (jobId workerId : String) (leaseToken : ℕ)
  | committed (jobId workerId : String) (leaseToken : ℕ)
  | scheduled (tenantId scheduleId : String) (interval : T) (bucket : ℤ)
deriving DecidableEq, Repr

/-- **The ledger**, with a history of its own. -/
structure HubStore (P R T : Type) where
  jobs : Table (HubJob.id (P := P) (R := R) (T := T))
  schedules : Table (HubSchedule.id (P := P) (T := T))
  cancellations : List (String × String)
  log : List (HubEvent T)

variable [DecidableEq P] [LinearOrder T]

/-! ## Arguments -/

def strip (s : String) : String :=
  String.ofList ((s.toList.dropWhile isSpace).reverse.dropWhile isSpace).reverse

/-- `_text`. -/
def hubText (value name : String) (maximum : ℕ) : Except Exc String := do
  raiseIf (value.toList.all isSpace = true ∨ maximum < value.length ∨ '\x00' ∈ value.toList)
    (.valueError s!"{name} must contain 1 to {maximum} nonblank characters without NUL")
  return strip value

/-- `_number`, of a finite number. -/
def hubNumber (value : T) (name : String) (minimum maximum : ℕ) : Except Exc T := do
  raiseIf (value < codec.num minimum ∨ codec.num maximum < value)
    (.valueError s!"{name} must be a finite number between {minimum} and {maximum}")
  return value

/-- `_integer`. -/
def hubInteger (value : ℕ) (name : String) (minimum maximum : ℕ) : Except Exc ℕ := do
  raiseIf (value < minimum ∨ maximum < value)
    (.valueError s!"{name} must be an integer between {minimum} and {maximum}")
  return value

def maxTimestamp : ℕ := 253402300799

/-- What a worker says that it holds. -/
structure HubRef where
  tenantId : String
  jobId : String
  workerId : String
  leaseToken : ℕ
deriving DecidableEq, Repr

def identity (c : HubRef) : Except Exc HubRef := do
  let tenantId ← hubText c.tenantId "tenant_id" 128
  let jobId ← hubText c.jobId "job_id" 128
  let workerId ← hubText c.workerId "worker_id" 128
  let leaseToken ← hubInteger c.leaseToken "lease_token" 1 (2 ^ 63 - 1)
  return ⟨tenantId, jobId, workerId, leaseToken⟩

/-- An idempotency key that is not for schedules. -/
def clientKey (key : String) : Except Exc String := do
  let key ← hubText key "idempotency_key" 256
  raiseIf ("schedule:".toList.isPrefixOf key.toList = true)
    (.valueError "idempotency_key prefix 'schedule:' is reserved")
  return key

/-! ## Changes of a row -/

namespace HubJob

variable (r : HubJob P R T)

/-- The row after a claim. -/
def claimed (worker : String) (leaseUntil now : T) : HubJob P R T :=
  { r with
    status := .running
    attempts := r.attempts + 1
    workerId := some worker
    leaseToken := r.leaseToken + 1
    leaseUntil := some leaseUntil
    updatedAt := now }

/-- The row after a heartbeat. -/
def renewed (leaseUntil now : T) : HubJob P R T :=
  { r with leaseUntil := r.leaseUntil.map (max · leaseUntil), updatedAt := now }

/-- The row after its completion. -/
def succeeded (r : HubJob P R T) (result : R) (now : T) : HubJob P R T :=
  { r with
    status := .succeeded
    resultJson := some result
    error := none
    leaseUntil := none
    updatedAt := now
    finishedAt := some now }

/-- No attempt is left. -/
def Exhausted : Prop := r.maxAttempts ≤ r.attempts

instance (r : HubJob P R T) : Decidable r.Exhausted := Nat.decLe _ _

/-- The row after a failure. -/
def failed (message : String) (notBefore now : T) : HubJob P R T :=
  { r with
    status := if r.Exhausted then .deadletter else .queued
    error := some message
    workerId := none
    leaseUntil := none
    notBefore := notBefore
    updatedAt := now
    finishedAt := if r.Exhausted then some now else none }

/-- The row after its worker gave it back. -/
def deferred (notBefore now : T) : HubJob P R T :=
  { r with
    status := .queued
    attempts := r.attempts - 1
    workerId := none
    leaseUntil := none
    notBefore := notBefore
    updatedAt := now }

/-- The row after its lease ran out. -/
def expired (r : HubJob P R T) (now : T) : HubJob P R T :=
  { r with
    status := if r.Exhausted then .deadletter else .queued
    workerId := none
    leaseUntil := none
    notBefore := now
    updatedAt := now
    finishedAt := if r.Exhausted then some now else none
    error := some "worker lease expired" }

/-- The row after an operator put it back. -/
def requeued (now : T) : HubJob P R T :=
  { r with
    status := .queued
    attempts := 0
    workerId := none
    leaseUntil := none
    resultJson := none
    error := none
    finishedAt := none
    notBefore := now
    updatedAt := now }

/-- The row after its run was cancelled. -/
def cancelled (now : T) : HubJob P R T :=
  { r with
    status := .deadletter
    error := some "cancelled_by_owner"
    leaseToken := r.leaseToken + 1
    leaseUntil := none
    updatedAt := now
    finishedAt := some now }

/-- The worker holds the job: it is running under the worker's token, and the lease
has not run out. -/
def Held (c : HubRef) (now : T) : Prop :=
  r.tenantId = c.tenantId ∧ r.workerId = some c.workerId ∧ r.leaseToken = c.leaseToken ∧
    r.status = .running ∧ ∃ u ∈ r.leaseUntil, now < u
deriving Decidable

/-- The lease of a running job has run out. -/
def LeaseOver (tenant : String) (now : T) : Prop :=
  r.tenantId = tenant ∧ r.status = .running ∧ ∃ u ∈ r.leaseUntil, u ≤ now
deriving Decidable

end HubJob

namespace HubStore

variable (s : HubStore P R T)

/-- Write the row of a job that is there, and what happened. -/
def put (row : HubJob P R T) (events : List (HubEvent T)) : HubStore P R T :=
  { s with jobs := s.jobs.replace row, log := s.log ++ events }

/-- The job of a worker that holds it. -/
def held (c : HubRef) (now : T) : Option (HubJob P R T) :=
  (s.jobs.find? c.jobId).filter fun r => r.Held c now

/-- The job of a tenant under an idempotency key. -/
def findKey (tenant key : String) : Option (HubJob P R T) :=
  s.jobs.rows.find? fun r => r.tenantId = tenant ∧ r.idempotencyKey = key

def get (tenant jobId : String) : Except Exc (HubJob P R T) :=
  match (s.jobs.find? jobId).filter fun r => r.tenantId = tenant with
  | none => .error (.keyError "job not found")
  | some r => .ok r

end HubStore

/-! ## Enqueueing -/

variable (s : HubStore P R T)

/-- `_check_not_cancelled`, of a job with a payload. -/
def checkNotCancelled (tenant jobId : String) (payload : P) : Except Exc Unit := do
  let runId ← ((codec.pipelineId payload).getD (.text jobId)).bind
  raiseIf (∃ c ∈ s.cancellations, c.1 = tenant ∧ textColumnEq codec c.2 runId = true)
    (.valueError "run_cancelled_start_a_new_run")

/-- What is asked of `_enqueue`. -/
structure JobRequest (P T : Type) where
  tenantId : String
  kind : String
  payloadJson : P
  key : String
  initialNotBefore : Option T
  maxAttempts : ℕ

/-- The row that `_enqueue` inserts. -/
def JobRequest.job (c : JobRequest P T) (jobId : String) (now : T) : HubJob P R T where
  id := jobId
  tenantId := c.tenantId
  kind := c.kind
  payloadJson := c.payloadJson
  idempotencyKey := c.key
  initialNotBefore := c.initialNotBefore
  notBefore := c.initialNotBefore.getD now
  status := .queued
  attempts := 0
  maxAttempts := c.maxAttempts
  workerId := none
  leaseToken := 0
  leaseUntil := none
  resultJson := none
  error := none
  createdAt := now
  updatedAt := now
  finishedAt := none

/-- `_enqueue`, with the id that a new job gets. -/
def enqueueJob (c : JobRequest P T) (newId : String) (now : T) (s : HubStore P R T) :
    Except Exc (HubJob P R T × HubStore P R T) :=
  match s.findKey c.tenantId c.key with
  | some existing => do
    raiseIf (existing.kind ≠ c.kind ∨ existing.payloadJson ≠ c.payloadJson ∨
        existing.initialNotBefore ≠ c.initialNotBefore ∨ existing.maxAttempts ≠ c.maxAttempts)
      (.valueError "idempotency key was already used for a different request")
    return (existing, s)
  | none => do
    checkNotCancelled codec s c.tenantId newId c.payloadJson
    raiseIf (s.jobs.find? newId ≠ none) (.integrityError "hub_jobs.id")
    return (c.job newId now, { s with jobs := s.jobs.insertOnce (c.job newId now) })

/-- The arguments of `enqueue`. -/
structure EnqueueCall (P T : Type) where
  tenantId : String
  kind : String
  payload : P
  idempotencyKey : String
  notBefore : Option T
  maxAttempts : ℕ

def enqueue (c : EnqueueCall P T) (newId : String) (now : T) (s : HubStore P R T) :
    Except Exc (HubJob P R T × HubStore P R T) := do
  let tenantId ← hubText c.tenantId "tenant_id" 128
  let kind ← hubText c.kind "kind" 128
  let key ← clientKey c.idempotencyKey
  let initial ← c.notBefore.mapM fun t => hubNumber codec t "not_before" 0 maxTimestamp
  let attempts ← hubInteger c.maxAttempts "max_attempts" 1 100
  enqueueJob codec ⟨tenantId, kind, c.payload, key, initial, attempts⟩ newId now s

/-! ## The life of a claim -/

variable (tenant : String)

def expire (now : T) (s : HubStore P R T) : HubStore P R T :=
  (s.jobs.rows.filter fun r => r.LeaseOver tenant now).foldl
    (fun s row => s.put (row.expired now) []) s

variable (r : HubJob P R T)

/-- The jobs that a worker may claim. -/
def HubJob.Claimable (r : HubJob P R T) (tenant : String) (kinds : Option (List String)) (now : T) :
    Prop :=
  r.tenantId = tenant ∧ r.status = .queued ∧ r.notBefore ≤ now ∧ r.attempts < r.maxAttempts ∧
    ∀ ks ∈ kinds, r.kind ∈ ks

instance (r : HubJob P R T) (tenant : String) (kinds : Option (List String)) (now : T) :
    Decidable (r.Claimable tenant kinds now) :=
  inferInstanceAs (Decidable (_ ∧ _ ∧ _ ∧ _ ∧ ∀ ks ∈ kinds, r.kind ∈ ks))

/-- The first of the claimable jobs. -/
def HubStore.nextJob (kinds : Option (List String)) (now : T) : Option (HubJob P R T) :=
  ((s.jobs.rows.filter fun r => r.Claimable tenant kinds now).orderBy
    fun r => toLex (r.notBefore, r.createdAt)).head?

/-- The arguments of `claim`. -/
structure ClaimCall (T : Type) where
  tenantId : String
  workerId : String
  leaseSeconds : T
  kinds : Option (List String)

def claimKinds (kinds : List String) : Except Exc (List String) := do
  raiseIf (100 < kinds.length) (.valueError "kinds must be a list of at most 100 kinds")
  kinds.mapM fun kind => hubText kind "kind" 128

/-- `claim`, of a job that was selected. -/
def claimJob (row : HubJob P R T) (worker : String) (leaseUntil now : T) (s : HubStore P R T) :
    HubJob P R T × HubStore P R T :=
  (row.claimed worker leaseUntil now, s.put (row.claimed worker leaseUntil now)
    [.claimed row.id worker (row.leaseToken + 1)])

def claim (c : ClaimCall T) (now : T) (s : HubStore P R T) :
    Except Exc (Option (HubJob P R T) × HubStore P R T) := do
  let tenantId ← hubText c.tenantId "tenant_id" 128
  let workerId ← hubText c.workerId "worker_id" 128
  let lease ← hubNumber codec c.leaseSeconds "lease_seconds" 1 86400
  let kinds ← c.kinds.mapM claimKinds
  let s := expire tenantId now s
  match s.nextJob tenantId kinds now with
  | none => return (none, s)
  | some row =>
    let (job, s) := claimJob row workerId (codec.plus now lease) now s
    return (some job, s)

def heartbeat (c : HubRef) (leaseSeconds now : T) (s : HubStore P R T) :
    Except Exc (Bool × HubStore P R T) := do
  let c ← identity c
  let lease ← hubNumber codec leaseSeconds "lease_seconds" 1 86400
  match s.held c now with
  | none => return (false, s)
  | some r => return (true, s.put (r.renewed (codec.plus now lease) now) [])

/-- The arguments of `complete_and_enqueue`. -/
structure CompleteCall (P R : Type) where
  ref : HubRef
  result : R
  nextKind : Option String
  nextPayload : Option P
  idempotencyKey : Option String

/-- What is to be enqueued after a completion. -/
def CompleteCall.next (c : CompleteCall P R) : Except Exc (Option (JobRequest P T)) :=
  match c.nextKind with
  | none => do
    raiseIf (c.nextPayload.isSome = true ∨ c.idempotencyKey.isSome = true)
      (.valueError "next_payload/idempotency_key require next_kind")
    return none
  | some kind => do
    let kind ← hubText kind "next_kind" 128
    match c.nextPayload, c.idempotencyKey with
    | some payload, some key => do
      let key ← clientKey key
      return some ⟨c.ref.tenantId, kind, payload, key, none, 3⟩
    | _, _ => .error (.valueError "next_kind requires next_payload and idempotency_key")

/-- The follow-up of a job that was just completed. -/
def enqueueNext (jobId : String) (next : JobRequest P T) (newId : String) (now : T)
    (s : HubStore P R T) : Except Exc (Bool × HubStore P R T) := do
  let (followup, s) ← enqueueJob codec next newId now s
  raiseIf (followup.id = jobId)
    (.valueError "follow-up idempotency key must not reference the current job")
  return (true, s)

def completeAndEnqueue (c : CompleteCall P R) (newId : String) (now : T) (s : HubStore P R T) :
    Except Exc (Bool × HubStore P R T) := do
  let ref ← identity c.ref
  let next ← CompleteCall.next { c with ref := ref }
  match s.held ref now with
  | none => return (false, s)
  | some r =>
    let s := s.put (r.succeeded c.result now) [.committed r.id ref.workerId ref.leaseToken]
    match next with
    | none => return (true, s)
    | some next => enqueueNext codec ref.jobId next newId now s

/-- `fail`. -/
def failJob (c : HubRef) (message : String) (retryDelay now : T) (s : HubStore P R T) :
    Except Exc (Bool × HubStore P R T) := do
  let c ← identity c
  let message ← hubText message "error" 8192
  let delay ← hubNumber codec retryDelay "retry_delay" 0 604800
  match s.held c now with
  | none => return (false, s)
  | some r => return (true, s.put (r.failed message (codec.plus now delay) now)
      [.committed r.id c.workerId c.leaseToken])

/-- `defer`, with the jitter that is added to the delay. -/
def deferJob (c : HubRef) (retryDelay jitter : T) (reason : String) (now : T) (s : HubStore P R T) :
    Except Exc (Bool × HubStore P R T) := do
  let c ← identity c
  let delay ← hubNumber codec retryDelay "retry_delay" 1 604800
  let _ ← hubText reason "reason" 128
  match (s.held c now).filter fun r => 0 < r.attempts with
  | none => return (false, s)
  | some r => return (true, s.put (r.deferred (codec.plus now (codec.plus delay jitter)) now)
      [.committed r.id c.workerId c.leaseToken])

def requeueDeadletter (tenantId jobId : String) (now : T) (s : HubStore P R T) :
    Except Exc (HubJob P R T × HubStore P R T) := do
  let tenantId ← hubText tenantId "tenant_id" 128
  let jobId ← hubText jobId "job_id" 128
  let previous ← s.get tenantId jobId
  checkNotCancelled codec s tenantId previous.id previous.payloadJson
  raiseIf (previous.status ≠ .deadletter) (.valueError "only deadletter jobs can be requeued")
  return (previous.requeued now, s.put (previous.requeued now) [])

/-! ## Cancellation -/

def HubJob.runId : String :=
  ((codec.pipelineId r.payloadJson).getD (.text r.id)).str codec

/-- What the statement of `cancel_run` selects. -/
def HubJob.Selected (tenant runId : String) : Prop :=
  r.tenantId = tenant ∧
    (r.id = runId ∨ extract codec (codec.pipelineId r.payloadJson) = .text runId) ∧
    (r.status = .queued ∨ r.status = .running)

instance (codec : HubCodec P T K) (r : HubJob P R T) (tenant runId : String) :
    Decidable (r.Selected codec tenant runId) :=
  inferInstanceAs (Decidable (_ ∧ (_ ∨ _) ∧ _))

/-- `cancel_run`: the id of the run, the number of cancelled jobs, and the ledger. -/
def cancelRun (tenantId jobId : String) (now : T) (s : HubStore P R T) :
    Except Exc ((String × ℕ) × HubStore P R T) := do
  let tenantId ← hubText tenantId "tenant_id" 128
  let jobId ← hubText jobId "job_id" 128
  let selected ← s.get tenantId jobId
  let runId := selected.runId codec
  let s := { s with cancellations := s.cancellations.insert (tenantId, runId) }
  let rows := s.jobs.rows.filter fun r => r.Selected codec tenantId runId
  return ((runId, rows.length), rows.foldl (fun s row => s.put (row.cancelled now) []) s)

/-! ## Schedules -/

/-- The idempotency key of a schedule, an interval and a bucket. -/
def scheduleKey (scheduleId : String) (interval : T) (bucket : ℤ) : String :=
  s!"schedule:{scheduleId}:{codec.realStr interval}:{bucket}"

/-- A job of the schedule is queued or running. -/
def HubStore.scheduleRunning (tenant scheduleId : String) : Bool :=
  s.jobs.rows.any fun r => r.tenantId = tenant ∧ (r.status = .queued ∨ r.status = .running) ∧
    codec.like r.idempotencyKey s!"schedule:{scheduleId}:%"

/-- Why a tick of the schedule is missed, if it is. -/
def missedReason (schedule : HubSchedule P T) (timestamp : T) (running : Bool) : Option String :=
  if schedule.catchupWindowS ≠ codec.num 0 ∧
      schedule.catchupWindowS < codec.minus timestamp schedule.nextRunAt then
    some "catchup_window"
  else if schedule.overlapPolicy = .skipIfRunning ∧ running = true then some "skip_if_running"
  else none

/-- The schedule after a tick. -/
def HubSchedule.ticked (schedule : HubSchedule P T) (timestamp : T) : HubSchedule P T :=
  { schedule with
    nextRunAt := codec.times (codec.bucketOf timestamp schedule.intervalSeconds + 1)
      schedule.intervalSeconds
    lastRunAt := some timestamp
    updatedAt := timestamp }

/-- The job of a bucket, unless it is there or the bucket is missed. -/
def enqueueBucket (timestamp : T) (schedule : HubSchedule P T) (missed : Option String)
    (newId : String) (s : HubStore P R T) : Except Exc (ℕ × HubStore P R T) :=
  let bucket := codec.bucketOf timestamp schedule.intervalSeconds
  let key := scheduleKey codec schedule.id schedule.intervalSeconds bucket
  match missed, s.findKey tenant key with
  | none, none => do
    let (_, s) ← enqueueJob codec
      ⟨tenant, schedule.kind, schedule.payloadJson, key, some timestamp, 3⟩ newId timestamp s
    return (1, { s with
      log := s.log ++ [.scheduled tenant schedule.id schedule.intervalSeconds bucket] })
  | _, _ => return (0, s)

/-- One round of the loop over the schedules that are due. -/
def tickSchedule (timestamp : T) (newId : String → String) (acc : ℕ × HubStore P R T)
    (schedule : HubSchedule P T) : Except Exc (ℕ × HubStore P R T) := do
  let running := acc.2.scheduleRunning codec tenant schedule.id
  let missed := missedReason codec schedule timestamp running
  if missed = none ∧ schedule.overlapPolicy = .bufferOne ∧ running = true then return acc
  let (created, s) ← enqueueBucket codec tenant timestamp schedule missed (newId schedule.id) acc.2
  return (acc.1 + created, { s with
    schedules := s.schedules.replace (schedule.ticked codec timestamp) })

/-- The time of a tick: a given one, or what the clock shows. -/
def tickTime (now : Option T) (clock : T) : Except Exc T :=
  match now with
  | none => hubNumber codec clock "current time" 0 maxTimestamp
  | some now => hubNumber codec now "now" 0 maxTimestamp

def tickSchedules (tenantId : String) (now : Option T) (clock : T) (newId : String → String)
    (s : HubStore P R T) : Except Exc (ℕ × HubStore P R T) := do
  let tenantId ← hubText tenantId "tenant_id" 128
  let timestamp ← tickTime codec now clock
  let schedules := (s.schedules.rows.filter fun r =>
      r.tenantId = tenantId ∧ r.enabled = true ∧ r.nextRunAt ≤ timestamp).orderBy
    fun r => toLex (r.nextRunAt, r.id)
  schedules.foldlM (tickSchedule codec tenantId timestamp newId) (0, s)

/-- The arguments of `put_schedule` that ticks read. -/
structure ScheduleCall (P T : Type) where
  tenantId : String
  name : String
  kind : String
  payload : P
  intervalSeconds : T
  enabled : Bool
  overlapPolicy : OverlapPolicy
  catchupWindowS : T

variable (c : ScheduleCall P T)

/-- The schedule that `put_schedule` inserts. -/
def ScheduleCall.row (tenantId name kind scheduleId : String) (now : T) : HubSchedule P T where
  id := scheduleId
  tenantId := tenantId
  name := name
  kind := kind
  payloadJson := c.payload
  intervalSeconds := c.intervalSeconds
  enabled := c.enabled
  nextRunAt := now
  lastRunAt := none
  createdAt := now
  updatedAt := now
  overlapPolicy := c.overlapPolicy
  catchupWindowS := c.catchupWindowS

/-- The schedule that `put_schedule` leaves of one that is there. -/
def ScheduleCall.edit (kind : String) (row : HubSchedule P T) (now : T) : HubSchedule P T :=
  { row with
    kind := kind
    payloadJson := c.payload
    intervalSeconds := c.intervalSeconds
    enabled := c.enabled
    nextRunAt :=
      if c.intervalSeconds ≠ row.intervalSeconds ∨ (c.enabled = true ∧ row.enabled = false) then now
      else row.nextRunAt
    updatedAt := now
    overlapPolicy := c.overlapPolicy
    catchupWindowS := c.catchupWindowS }

def putSchedule (newId : String) (now : T) (s : HubStore P R T) :
    Except Exc (HubSchedule P T × HubStore P R T) := do
  let tenantId ← hubText c.tenantId "tenant_id" 128
  let name ← hubText c.name "name" 128
  let kind ← hubText c.kind "kind" 128
  let _ ← hubNumber codec c.intervalSeconds "interval_seconds" 1 31536000
  let _ ← hubNumber codec c.catchupWindowS "catchup_window_s" 0 86400
  match s.schedules.rows.find? fun r => r.tenantId = tenantId ∧ r.name = name with
  | none => do
    raiseIf (s.schedules.find? newId ≠ none) (.integrityError "hub_schedules.id")
    let row := c.row tenantId name kind newId now
    return (row, { s with schedules := s.schedules.insertOnce row })
  | some row =>
    let edited := c.edit kind row now
    return (edited, { s with schedules := s.schedules.replace edited })

/-! ## Runs -/

/-- The calls, with the clock and the ids that they get. -/
inductive Label (P R T : Type)
  | enqueue (c : EnqueueCall P T) (newId : String) (now : T)
  | claim (c : ClaimCall T) (now : T)
  | heartbeat (c : HubRef) (leaseSeconds now : T)
  | complete (c : CompleteCall P R) (newId : String) (now : T)
  | fail (c : HubRef) (message : String) (retryDelay now : T)
  | defer (c : HubRef) (retryDelay jitter : T) (reason : String) (now : T)
  | requeue (tenantId jobId : String) (now : T)
  | cancelRun (tenantId jobId : String) (now : T)
  | tick (tenantId : String) (now : Option T) (clock : T) (newId : String → String)
  | putSchedule (c : ScheduleCall P T) (newId : String) (now : T)

namespace HubStore

/-- What a transaction leaves: one that raises is rolled back. -/
def commit {α : Type} (s : HubStore P R T) (result : Except Exc (α × HubStore P R T)) :
    HubStore P R T :=
  match result with
  | .ok (_, s') => s'
  | .error _ => s

/-- **A step of the ledger.** -/
def step (codec : HubCodec P T K) (s : HubStore P R T) : Label P R T → HubStore P R T
  | .enqueue c newId now => s.commit (Hub.enqueue codec c newId now s)
  | .claim c now => s.commit (Hub.claim codec c now s)
  | .heartbeat c leaseSeconds now => s.commit (Hub.heartbeat codec c leaseSeconds now s)
  | .complete c newId now => s.commit (Hub.completeAndEnqueue codec c newId now s)
  | .fail c message retryDelay now => s.commit (Hub.failJob codec c message retryDelay now s)
  | .defer c retryDelay jitter reason now =>
    s.commit (Hub.deferJob codec c retryDelay jitter reason now s)
  | .requeue tenantId jobId now => s.commit (Hub.requeueDeadletter codec tenantId jobId now s)
  | .cancelRun tenantId jobId now => s.commit (Hub.cancelRun codec tenantId jobId now s)
  | .tick tenantId now clock newId =>
    s.commit (Hub.tickSchedules codec tenantId now clock newId s)
  | .putSchedule c newId now => s.commit (Hub.putSchedule codec c newId now s)

/-- The ledger with empty tables. -/
def init : HubStore P R T := ⟨.empty, .empty, [], []⟩

/-- **The ledger after a run** from empty tables. -/
def after (codec : HubCodec P T K) (ls : List (Label P R T)) : HubStore P R T :=
  Machine.run (step codec) init ls

end HubStore

/-! ## What a call can change -/

/-- **What a call can do to a job**, and what happens by it. -/
inductive HubJob.Move (r : HubJob P R T) : HubJob P R T → List (HubEvent T) → Prop
  | claim {worker : String} {leaseUntil now : T} (queued : r.status = .queued)
      (left : r.attempts < r.maxAttempts) :
      r.Move (r.claimed worker leaseUntil now) [.claimed r.id worker (r.leaseToken + 1)]
  | renew {leaseUntil now : T} (running : r.status = .running) :
      r.Move (r.renewed leaseUntil now) []
  | succeed {worker : String} {result : R} {now : T} (running : r.status = .running)
      (owner : r.workerId = some worker) :
      r.Move (r.succeeded result now) [.committed r.id worker r.leaseToken]
  | fail {worker message : String} {notBefore now : T} (running : r.status = .running)
      (owner : r.workerId = some worker) :
      r.Move (r.failed message notBefore now) [.committed r.id worker r.leaseToken]
  | defer {worker : String} {notBefore now : T} (running : r.status = .running)
      (owner : r.workerId = some worker) :
      r.Move (r.deferred notBefore now) [.committed r.id worker r.leaseToken]
  | expire {now : T} (running : r.status = .running) : r.Move (r.expired now) []
  | cancel {now : T} (live : r.status = .queued ∨ r.status = .running) : r.Move (r.cancelled now) []

/-- **What a call does**, one row at a time: it moves a job, puts a dead one back, or
adds one – of a run that is not cancelled –, and it may change the other tables. -/
inductive Change (codec : HubCodec P T K) (s : HubStore P R T) : HubStore P R T → Prop
  | move (r r' : HubJob P R T) (events : List (HubEvent T)) (found : s.jobs.find? r.id = some r)
      (move : r.Move r' events) : Change codec s (s.put r' events)
  | requeue (r : HubJob P R T) (now : T) (found : s.jobs.find? r.id = some r)
      (dead : r.status = .deadletter)
      (free : checkNotCancelled codec s r.tenantId r.id r.payloadJson = .ok ()) :
      Change codec s (s.put (r.requeued now) [])
  | insert (c : JobRequest P T) (jobId : String) (now : T) (events : List (HubEvent T))
      (freshKey : s.findKey c.tenantId c.key = none) (freshId : s.jobs.find? jobId = none)
      (free : checkNotCancelled codec s c.tenantId jobId c.payloadJson = .ok ())
      (scheduled : events = [] ∨ ∃ scheduleId interval bucket,
        events = [.scheduled c.tenantId scheduleId interval bucket] ∧
          c.key = scheduleKey codec scheduleId interval bucket) :
      Change codec s { s with
        jobs := s.jobs.insertOnce (c.job jobId now), log := s.log ++ events }
  | aside (s' : HubStore P R T) (jobs : s'.jobs = s.jobs) (log : s'.log = s.log)
      (cancellations : ∀ c ∈ s.cancellations, c ∈ s'.cancellations) : Change codec s s'

/-- Any number of changes. -/
abbrev Changes : HubStore P R T → HubStore P R T → Prop :=
  Relation.ReflTransGen (Change codec)

section Changes

variable {codec : HubCodec P T K} {s s' : HubStore P R T} {r : HubJob P R T} {r' : HubJob P R T}

omit [DecidableEq P] in
theorem HubJob.Move.id_eq {events : List (HubEvent T)} (h : r.Move r' events) : r'.id = r.id := by
  cases h <;> rfl

variable (f : HubJob P R T → HubJob P R T)

omit [DecidableEq P] in
theorem changes_puts {rows : List (HubJob P R T)} (hnodup : (rows.map HubJob.id).Nodup)
    (hfound : ∀ r ∈ rows, s.jobs.find? r.id = some r) (hmove : ∀ r ∈ rows, r.Move (f r) []) :
    Changes codec s (rows.foldl (fun s row => s.put (f row) []) s) := by
  induction rows generalizing s with
  | nil => exact .refl
  | cons r rows ih =>
    rw [map_cons, nodup_cons] at hnodup
    have hr := hfound r mem_cons_self
    have hm := hmove r mem_cons_self
    refine .head (.move r (f r) [] hr hm) (ih hnodup.2 (fun r' hr' => ?_)
      fun r' hr' => hmove r' (mem_cons_of_mem r hr'))
    have hne : r'.id ≠ (f r).id := by
      rw [hm.id_eq]
      exact fun h => hnodup.1 (h ▸ mem_map_of_mem hr')
    show (s.jobs.replace (f r)).find? r'.id = some r'
    rw [find?_replace (show s.jobs.find? (f r).id = some r from hm.id_eq.symm ▸ hr), if_neg hne]
    exact hfound r' (mem_cons_of_mem r hr')

omit [DecidableEq P] in
theorem changes_filter (p : HubJob P R T → Bool)
    (hmove : ∀ r ∈ s.jobs.rows, p r = true → r.Move (f r) []) :
    Changes codec s ((s.jobs.rows.filter p).foldl (fun s row => s.put (f row) []) s) := by
  refine changes_puts f (s.jobs.nodup.sublist (filter_sublist.map _)) (fun r hr => ?_)
    fun r hr => hmove r (mem_filter.mp hr).1 (mem_filter.mp hr).2
  exact find?_of_mem (mem_filter.mp hr).1

omit [DecidableEq P] in
theorem changes_expire (codec : HubCodec P T K) (s : HubStore P R T) (tenant : String) (now : T) :
    Changes codec s (expire tenant now s) :=
  changes_filter (·.expired now) _ fun _ _ h => .expire (of_decide_eq_true h).2.1

variable {c : HubRef} {now : T}

omit [DecidableEq P] in
theorem held_eq_some : s.held c now = some r ↔ s.jobs.find? c.jobId = some r ∧ r.Held c now := by
  unfold HubStore.held
  rw [filter_eq_some_iff, decide_eq_true_eq]

variable {jobId tenant : String}

omit [DecidableEq P] [LinearOrder T] in
theorem get_eq_ok :
    s.get tenant jobId = .ok r ↔ s.jobs.find? jobId = some r ∧ r.tenantId = tenant := by
  unfold HubStore.get
  cases h : (s.jobs.find? jobId).filter fun r => r.tenantId = tenant with
  | none =>
    refine ⟨nofun, fun ⟨hfind, htenant⟩ => ?_⟩
    rw [hfind, filter_some, if_pos (by simpa using htenant)] at h
    cases h
  | some found =>
    rw [filter_eq_some_iff, decide_eq_true_eq] at h
    rw [Except.ok.injEq]
    exact ⟨fun he => he ▸ h, fun he => some.inj (h.1.symm.trans he.1)⟩

omit [DecidableEq P] [LinearOrder T] in
/-- The job under a key is one of the tenant, with that key. -/
theorem of_findKey {key : String} (h : s.findKey tenant key = some r) :
    r ∈ s.jobs.rows ∧ r.tenantId = tenant ∧ r.idempotencyKey = key := by
  have hkey := find?_some h
  exact ⟨mem_of_find?_eq_some h, of_decide_eq_true hkey⟩

variable {job : HubJob P R T} {newId : String}

/-- **What `_enqueue` returns**: the job that has the key, or a new one. -/
theorem enqueueJob_cases {c : JobRequest P T} (h : enqueueJob codec c newId now s = .ok (job, s')) :
    (s.findKey c.tenantId c.key = some job ∧ job.kind = c.kind ∧ job.payloadJson = c.payloadJson ∧
      job.initialNotBefore = c.initialNotBefore ∧ job.maxAttempts = c.maxAttempts ∧ s' = s) ∨
    (s.findKey c.tenantId c.key = none ∧ s.jobs.find? newId = none ∧
      checkNotCancelled codec s c.tenantId newId c.payloadJson = .ok () ∧ job = c.job newId now ∧
      s' = { s with jobs := s.jobs.insertOnce (c.job newId now) }) := by
  unfold enqueueJob at h
  cases hkey : s.findKey c.tenantId c.key with
  | some existing =>
    rw [hkey] at h
    simp only [raiseIf_bind_eq_ok, not_or, not_not] at h
    obtain ⟨⟨hkind, hpayload, hinitial, hattempts⟩, h⟩ := h
    obtain ⟨rfl, rfl⟩ := Prod.mk.inj (ok.inj h)
    exact .inl ⟨rfl, hkind, hpayload, hinitial, hattempts, rfl⟩
  | none =>
    rw [hkey] at h
    obtain ⟨_, hfree, h⟩ := of_bind h
    obtain ⟨hid, h⟩ := of_raiseIf h
    obtain ⟨rfl, rfl⟩ := Prod.mk.inj (ok.inj h)
    exact .inr ⟨rfl, not_not.mp hid, hfree, rfl, rfl⟩

theorem changes_enqueueJob {c : JobRequest P T}
    (h : enqueueJob codec c newId now s = .ok (job, s')) :
    Changes codec s s' := by
  rcases enqueueJob_cases h with ⟨_, _, _, _, _, rfl⟩ | ⟨hkey, hid, hfree, _, rfl⟩
  · exact .refl
  · have hc : Change codec s { s with
        jobs := s.jobs.insertOnce (c.job newId now), log := s.log ++ [] } :=
      .insert c newId now [] hkey hid hfree (.inl rfl)
    rw [append_nil] at hc
    exact .single hc

theorem changes_enqueue {c : EnqueueCall P T} (h : enqueue codec c newId now s = .ok (job, s')) :
    Changes codec s s' := by
  unfold enqueue at h
  simp only [bind_eq_ok] at h
  obtain ⟨_, _, _, _, _, _, _, _, _, _, h⟩ := h
  exact changes_enqueueJob h

omit [DecidableEq P] in
theorem claimable_of_nextJob {kinds : Option (List String)}
    (h : s.nextJob tenant kinds now = some r) :
    s.jobs.find? r.id = some r ∧ r.Claimable tenant kinds now := by
  have hmem := mem_filter.mp (mem_orderBy.mp (mem_of_head? h))
  exact ⟨find?_of_mem hmem.1, of_decide_eq_true hmem.2⟩

omit [DecidableEq P] in
theorem changes_claim {c : ClaimCall T} {job : Option (HubJob P R T)}
    (h : claim codec c now s = .ok (job, s')) : Changes codec s s' := by
  unfold claim at h
  simp only [bind_eq_ok] at h
  obtain ⟨tenant, _, worker, _, lease, _, kinds, _, h⟩ := h
  refine (changes_expire codec s tenant now).trans ?_
  cases hnext : (expire tenant now s).nextJob tenant kinds now with
  | none =>
    rw [hnext] at h
    obtain ⟨_, rfl⟩ := Prod.mk.inj (ok.inj h)
    exact .refl
  | some row =>
    rw [hnext] at h
    obtain ⟨_, rfl⟩ := Prod.mk.inj (ok.inj h)
    obtain ⟨hfound, _, hqueued, _, hleft, _⟩ := claimable_of_nextJob hnext
    exact .single (.move row _ _ hfound (.claim hqueued hleft))

variable {b : Bool}

omit [DecidableEq P] in
theorem changes_heartbeat {leaseSeconds : T}
    (h : heartbeat codec c leaseSeconds now s = .ok (b, s')) : Changes codec s s' := by
  unfold heartbeat at h
  simp only [bind_eq_ok] at h
  obtain ⟨ref, _, lease, _, h⟩ := h
  cases hheld : s.held ref now with
  | none =>
    rw [hheld] at h
    obtain ⟨_, rfl⟩ := Prod.mk.inj (ok.inj h)
    exact .refl
  | some r =>
    rw [hheld] at h
    obtain ⟨_, rfl⟩ := Prod.mk.inj (ok.inj h)
    obtain ⟨hfind, _, _, _, hrunning, _⟩ := held_eq_some.mp hheld
    exact .single (.move r _ _ (key_of_find? hfind ▸ hfind) (.renew hrunning))

omit [DecidableEq P] in
/-- **A worker that ends its claim** holds the job. -/
theorem change_of_held (h : s.held c now = some r)
    (hmove : r.Move r' [.committed r.id c.workerId r.leaseToken]) :
    Change codec s (s.put r' [.committed r.id c.workerId c.leaseToken]) := by
  obtain ⟨hfind, _, _, htoken, _⟩ := held_eq_some.mp h
  rw [← htoken]
  exact .move r r' _ (key_of_find? hfind ▸ hfind) hmove

/-- **What a completion leaves**: nothing changed; or the job has succeeded; or it has
and its follow-up is there as well. -/
theorem completeAndEnqueue_cases {c : CompleteCall P R}
    (h : completeAndEnqueue codec c newId now s = .ok (b, s')) :
    ∃ ref, identity c.ref = .ok ref ∧ ∃ next, CompleteCall.next { c with ref := ref } = .ok next ∧
      ((b = false ∧ s' = s) ∨ ∃ r s₁, b = true ∧ s.held ref now = some r ∧
        s₁ = s.put (r.succeeded c.result now) [.committed r.id ref.workerId ref.leaseToken] ∧
        ((next = none ∧ s' = s₁) ∨ ∃ request followup, next = some request ∧
          enqueueJob codec request newId now s₁ = .ok (followup, s') ∧ followup.id ≠ ref.jobId)) := by
  unfold completeAndEnqueue at h
  simp only [bind_eq_ok] at h
  obtain ⟨ref, href, next, hnext, h⟩ := h
  refine ⟨ref, href, next, hnext, ?_⟩
  cases hheld : s.held ref now with
  | none =>
    rw [hheld] at h
    obtain ⟨rfl, rfl⟩ := Prod.mk.inj (ok.inj h)
    exact .inl ⟨rfl, rfl⟩
  | some r =>
    rw [hheld] at h
    cases next with
    | none =>
      obtain ⟨rfl, rfl⟩ := Prod.mk.inj (ok.inj h)
      exact .inr ⟨r, _, rfl, rfl, rfl, .inl ⟨rfl, rfl⟩⟩
    | some request =>
      unfold enqueueNext at h
      obtain ⟨⟨followup, s₂⟩, hfollowup, h⟩ := of_bind h
      obtain ⟨hne, h⟩ := of_raiseIf h
      obtain ⟨rfl, rfl⟩ := Prod.mk.inj (ok.inj h)
      exact .inr ⟨r, _, rfl, rfl, rfl, .inr ⟨request, followup, rfl, hfollowup, hne⟩⟩

theorem changes_complete {c : CompleteCall P R}
    (h : completeAndEnqueue codec c newId now s = .ok (b, s')) : Changes codec s s' := by
  obtain ⟨ref, _, next, _, ⟨_, rfl⟩ | ⟨r, s₁, _, hheld, rfl, hcase⟩⟩ := completeAndEnqueue_cases h
  · exact .refl
  · obtain ⟨_, _, howner, _, hrunning, _⟩ := held_eq_some.mp hheld
    have hmove : r.Move (r.succeeded c.result now) [.committed r.id ref.workerId r.leaseToken] :=
      .succeed hrunning howner
    have hdone : Change codec s (s.put (r.succeeded c.result now)
        [.committed r.id ref.workerId ref.leaseToken]) := change_of_held hheld hmove
    rcases hcase with ⟨_, rfl⟩ | ⟨request, followup, _, hfollowup, _⟩
    · exact .single hdone
    · exact .head hdone (changes_enqueueJob hfollowup)

variable {retryDelay : T}

omit [DecidableEq P] in
theorem changes_fail {message : String} (h : failJob codec c message retryDelay now s = .ok (b, s')) :
    Changes codec s s' := by
  unfold failJob at h
  simp only [bind_eq_ok] at h
  obtain ⟨ref, _, text, _, delay, _, h⟩ := h
  cases hheld : s.held ref now with
  | none =>
    rw [hheld] at h
    obtain ⟨_, rfl⟩ := Prod.mk.inj (ok.inj h)
    exact .refl
  | some r =>
    rw [hheld] at h
    obtain ⟨_, rfl⟩ := Prod.mk.inj (ok.inj h)
    obtain ⟨_, _, howner, _, hrunning, _⟩ := held_eq_some.mp hheld
    exact .single (change_of_held hheld (.fail hrunning howner))

omit [DecidableEq P] in
theorem changes_defer {jitter : T} {reason : String}
    (h : deferJob codec c retryDelay jitter reason now s = .ok (b, s')) : Changes codec s s' := by
  unfold deferJob at h
  simp only [bind_eq_ok] at h
  obtain ⟨ref, _, delay, _, text, _, h⟩ := h
  cases hheld : (s.held ref now).filter fun r => 0 < r.attempts with
  | none =>
    rw [hheld] at h
    obtain ⟨_, rfl⟩ := Prod.mk.inj (ok.inj h)
    exact .refl
  | some r =>
    rw [hheld] at h
    obtain ⟨_, rfl⟩ := Prod.mk.inj (ok.inj h)
    have hheld := (filter_eq_some_iff.mp hheld).1
    obtain ⟨_, _, howner, _, hrunning, _⟩ := held_eq_some.mp hheld
    exact .single (change_of_held hheld (.defer hrunning howner))

variable {tenantId : String}

omit [DecidableEq P] in
theorem changes_requeue (h : requeueDeadletter codec tenantId jobId now s = .ok (job, s')) :
    Changes codec s s' := by
  unfold requeueDeadletter at h
  simp only [bind_eq_ok, raiseIf_eq_ok, exists_const, not_not] at h
  obtain ⟨tenant, _, id, _, previous, hget, _, hfree, hdead, h⟩ := h
  obtain ⟨_, rfl⟩ := Prod.mk.inj (ok.inj h)
  obtain ⟨hfind, rfl⟩ := get_eq_ok.mp hget
  exact .single (.requeue previous now (key_of_find? hfind ▸ hfind) hdead hfree)

omit [DecidableEq P] in
theorem changes_cancelRun {x : String × ℕ}
    (h : cancelRun codec tenantId jobId now s = .ok (x, s')) :
    Changes codec s s' := by
  unfold cancelRun at h
  simp only [bind_eq_ok] at h
  obtain ⟨tenant, _, id, _, selected, _, h⟩ := h
  obtain ⟨_, rfl⟩ := Prod.mk.inj (ok.inj h)
  have haside : Change codec s { s with
      cancellations := s.cancellations.insert (tenant, selected.runId codec) } :=
    .aside _ rfl rfl fun c hc => mem_insert_of_mem hc
  refine .head haside (changes_filter (·.cancelled now) _ fun r _ h => ?_)
  exact .cancel (of_decide_eq_true (p := r.Selected codec tenant _) h).2.2

variable {n : ℕ} {schedule : HubSchedule P T} {timestamp : T}

theorem changes_enqueueBucket {missed : Option String}
    (h : enqueueBucket codec tenant timestamp schedule missed newId s = .ok (n, s')) :
    Changes codec s s' := by
  unfold enqueueBucket at h
  dsimp only at h
  split at h
  · rename_i hkey
    obtain ⟨⟨job, s₁⟩, hjob, h⟩ := of_bind h
    obtain ⟨_, rfl⟩ := Prod.mk.inj (ok.inj h)
    rcases enqueueJob_cases hjob with ⟨hold, _⟩ | ⟨hfresh, hid, hfree, _, rfl⟩
    · exact absurd (hkey.symm.trans hold) nofun
    · exact .single (.insert _ newId timestamp _ hfresh hid hfree (.inr ⟨_, _, _, rfl, rfl⟩))
  · obtain ⟨_, rfl⟩ := Prod.mk.inj (ok.inj h)
    exact .refl

theorem changes_tickSchedule {newId : String → String} {acc acc' : ℕ × HubStore P R T}
    (h : tickSchedule codec tenant timestamp newId acc schedule = .ok acc') :
    Changes codec acc.2 acc'.2 := by
  unfold tickSchedule at h
  dsimp only at h
  split_ifs at h
  · obtain rfl := ok.inj h
    exact .refl
  · obtain ⟨⟨n, s₁⟩, hbucket, h⟩ := of_bind h
    obtain rfl := ok.inj h
    exact (changes_enqueueBucket hbucket).tail (.aside _ rfl rfl fun _ hc => hc)

theorem changes_tick {now : Option T} {clock : T} {newId : String → String}
    (h : tickSchedules codec tenantId now clock newId s = .ok (n, s')) : Changes codec s s' := by
  have hloop : ∀ (tenant : String) (timestamp : T) (l : List (HubSchedule P T))
      (acc acc' : ℕ × HubStore P R T),
      l.foldlM (tickSchedule codec tenant timestamp newId) acc = .ok acc' →
        Changes codec acc.2 acc'.2 := by
    intro tenant timestamp l
    induction l with
    | nil =>
      intro acc acc' h
      obtain rfl := ok.inj h
      exact .refl
    | cons schedule l ih =>
      intro acc acc' h
      rw [foldlM_cons] at h
      obtain ⟨acc₁, hfirst, h⟩ := of_bind h
      exact (changes_tickSchedule hfirst).trans (ih acc₁ acc' h)
  unfold tickSchedules at h
  obtain ⟨tenant, _, h⟩ := of_bind h
  obtain ⟨timestamp, _, h⟩ := of_bind h
  exact hloop tenant timestamp _ _ _ h

omit [DecidableEq P] in
theorem changes_putSchedule {c : ScheduleCall P T} {row : HubSchedule P T}
    (h : putSchedule codec c newId now s = .ok (row, s')) : Changes codec s s' := by
  unfold putSchedule at h
  simp only [bind_eq_ok] at h
  obtain ⟨tenant, _, name, _, kind, _, _, _, _, _, h⟩ := h
  split at h
  · obtain ⟨_, h⟩ := of_raiseIf h
    obtain ⟨_, rfl⟩ := Prod.mk.inj (ok.inj h)
    exact .single (.aside _ rfl rfl fun _ hc => hc)
  · obtain ⟨_, rfl⟩ := Prod.mk.inj (ok.inj h)
    exact .single (.aside _ rfl rfl fun _ hc => hc)

omit [DecidableEq P] in
theorem changes_commit {α : Type} {s : HubStore P R T} {x : Except Exc (α × HubStore P R T)}
    (h : ∀ a s', x = .ok (a, s') → Changes codec s s') : Changes codec s (s.commit x) := by
  cases x with
  | error => exact .refl
  | ok r => exact h r.1 r.2 rfl

theorem changes_step (codec : HubCodec P T K) (s : HubStore P R T) (l : Label P R T) :
    Changes codec s (HubStore.step codec s l) := by
  cases l with
  | enqueue c newId now => exact changes_commit fun _ _ => changes_enqueue
  | claim c now => exact changes_commit fun _ _ => changes_claim
  | heartbeat c leaseSeconds now => exact changes_commit fun _ _ => changes_heartbeat
  | complete c newId now => exact changes_commit fun _ _ => changes_complete
  | fail c message retryDelay now => exact changes_commit fun _ _ => changes_fail
  | defer c retryDelay jitter reason now => exact changes_commit fun _ _ => changes_defer
  | requeue tenantId jobId now => exact changes_commit fun _ _ => changes_requeue
  | cancelRun tenantId jobId now => exact changes_commit fun _ _ => changes_cancelRun
  | tick tenantId now clock newId => exact changes_commit fun _ _ => changes_tick
  | putSchedule c newId now => exact changes_commit fun _ _ => changes_putSchedule

end Changes

end Hub

end Qt
