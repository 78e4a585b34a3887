import Mathlib.Data.Prod.Lex
import Mathlib.Data.String.Basic
import QuantTrading.Lib.Firsts
import QuantTrading.Lib.Machine
import QuantTrading.Persistence

/-!
# The queue of research jobs

`qt.research.repository`: the jobs of an API, a worker and a recovery loop, as rows
that every operation changes by one `UPDATE … WHERE`. What a row may become is
therefore a relation between two rows, `ResearchJob.Step`, and a step of the queue
moves rows by it, claims one queued row while none is busy, or inserts a new one
(`Change`). The properties of the queue are read off these three.

A request to cancel reads the status first and writes afterwards, so that its label
carries a status that was read at any time before. A job that was recovered while it
was being cancelled is queued again: it can run once more, but the request stays on
its row and it never completes.
-/

namespace Qt.Research

open Except List Table Option Machine

/-! ## Rows -/

inductive JobStatus | queued | running | cancelling | complete | failed | cancelled | interrupted
deriving DecidableEq, Repr

/-- `status IN ('running', 'cancelling')`. -/
def JobStatus.busy : JobStatus → Bool
  | .running | .cancelling => true
  | _ => false

/-- `ACTIVE_STATUSES`. -/
def JobStatus.active : JobStatus → Bool
  | .queued | .running | .cancelling => true
  | _ => false

/-- A row of `research_jobs`. -/
structure ResearchJob (T : Type) where
  jobId : String
  specJson : String
  status : JobStatus
  stage : String
  progress : ℤ
  resultJson : Option String
  error : Option String
  cancelRequested : Bool
  attempts : ℕ
  claimedBy : Option String
  claimedAt : Option T
  attemptId : Option String
  attemptHeartbeatAt : Option T
  createdAt : T
  updatedAt : T
  completedAt : Option T
deriving DecidableEq

/-- A row of `research_runs`. -/
structure ResearchRun (T : Type) where
  runId : String
  jobId : String
  summaryJson : String
  createdAt : T
deriving DecidableEq

/-- A row of `research_submission_keys`. -/
structure SubmissionKey (T : Type) where
  idempotencyKey : String
  jobId : String
  specJson : String
  createdAt : T
deriving DecidableEq

/-- **`ResearchRepository`**: its tables. -/
structure Repository (T : Type) where
  jobs : Table (ResearchJob.jobId : ResearchJob T → String)
  runs : List (ResearchRun T)
  keys : Table (SubmissionKey.idempotencyKey : SubmissionKey T → String)

/-- The tables of a new file. -/
def Repository.empty {T : Type} : Repository T := ⟨.empty, [], .empty⟩

inductive SpecField
  | text (s : String)
  /-- Any other value, with its `repr`. -/
  | other (repr : String)
deriving DecidableEq

/-- What the repository reads of specifications `P` and results `R`. -/
structure ResearchCodec (P R : Type) where
  /-- `normalized.get("job_type")`, if it is not null. -/
  jobType : P → Option SpecField
  /-- `normalized.get("kind") == "dataset_sync"`. -/
  isDatasetSync : P → Bool
  /-- `normalized["job_type"] = job_type`. -/
  setJobType : String → P → P
  /-- `repr` of a text. -/
  reprText : String → String
  /-- `_json` of a specification, which raises for a number that is not finite. -/
  specJson : P → Except Exc String
  /-- `_json` of a result. -/
  resultJson : R → Except Exc String
  /-- `str(result.get("run_id", "")).strip()`. -/
  runId : R → String

variable {P R T : Type}

/-- `JOB_TYPES`. -/
def jobTypes : List String :=
  ["native_experiment", "lab_optimization", "lab_validation", "data_import", "data_sync"]

def normalizeSpec (codec : ResearchCodec P R) (spec : P) : Except Exc P :=
  match codec.jobType spec with
  | none =>
    .ok (codec.setJobType
      (if codec.isDatasetSync spec then "data_sync" else "native_experiment") spec)
  | some (.text jobType) => do
    raiseIf (jobType ∉ jobTypes) (.valueError ("unknown job_type: " ++ codec.reprText jobType))
    return spec
  | some (.other repr) => .error (.valueError ("unknown job_type: " ++ repr))

/-! ## Operations -/

section Operations

variable [LinearOrder T]

/-- The row that is inserted for a job. -/
def newJob (jobId specJson : String) (now : T) : ResearchJob T where
  jobId
  specJson
  status := .queued
  stage := "queued"
  progress := 0
  resultJson := none
  error := none
  cancelRequested := false
  attempts := 0
  claimedBy := none
  claimedAt := none
  attemptId := none
  attemptHeartbeatAt := none
  createdAt := now
  updatedAt := now
  completedAt := none

variable (s : Repository T)

/-- The number of jobs that count for the limit. -/
def Repository.queued : ℕ := s.jobs.rows.countP (·.status.active)

/-- The insertion of a job, while the queue is not full. -/
def Repository.insertJob (queueLimit : ℕ) (jobId : String) (specJson : Except Exc String) (now : T)
    (s : Repository T) : Except Exc (Repository T) := do
  raiseIf (queueLimit ≤ s.queued)
    (.valueError s!"backtest queue is full: {s.queued} queued/running")
  let specJson ← specJson
  raiseIf ((s.jobs.find? jobId).isSome) (.integrityError "research_jobs.job_id")
  return { s with jobs := s.jobs.insertOnce (newJob jobId specJson now) }

/-- `enqueue`, up to the reading of the row: the id of the job. -/
def enqueue (codec : ResearchCodec P R) (queueLimit : ℕ) (spec : P) (jobId : String) (now : T)
    (s : Repository T) : Except Exc (String × Repository T) := do
  let normalized ← normalizeSpec codec spec
  let s ← s.insertJob queueLimit jobId (codec.specJson normalized) now
  return (jobId, s)

/-- `idempotency_key.strip()`. -/
def stripKey (key : String) : String :=
  String.ofList ((key.toList.dropWhile isSpace).reverse.dropWhile isSpace).reverse

/-- **`enqueue_idempotent`**, up to the reading of the row: the id of the job, and whether
it was created. -/
def enqueueIdempotent (codec : ResearchCodec P R) (queueLimit : ℕ) (spec : P)
    (idempotencyKey jobId : String) (now : T) (s : Repository T) :
    Except Exc ((String × Bool) × Repository T) := do
  let key := stripKey idempotencyKey
  raiseIf (key = "") (.valueError "idempotency key must not be blank")
  let normalized ← normalizeSpec codec spec
  let encoded ← codec.specJson normalized
  match s.keys.find? key with
  | some existing => do
    raiseIf (existing.specJson ≠ encoded)
      (.conflict "idempotency key was already used with a different request")
    return ((existing.jobId, false), s)
  | none => do
    let s ← s.insertJob queueLimit jobId (.ok encoded) now
    return ((jobId, true), { s with keys := s.keys.insertOnce ⟨key, jobId, encoded, now⟩ })

/-- `UPDATE research_jobs SET … WHERE …`. -/
def Repository.updateJobs (p : ResearchJob T → Prop) [DecidablePred p]
    (f : ResearchJob T → ResearchJob T) (hf : ∀ r, (f r).jobId = r.jobId := by intro _; rfl) :
    Repository T :=
  { s with jobs := s.jobs.updateWhere p f hf }

/-- A queued row at its claim. -/
def ResearchJob.claimed (workerId attemptId : String) (now : T) (r : ResearchJob T) :
    ResearchJob T :=
  { r with
    status := .running
    stage := "validation"
    progress := 5
    attempts := r.attempts + 1
    claimedBy := some workerId
    claimedAt := some now
    attemptId := some attemptId
    attemptHeartbeatAt := some now
    updatedAt := now }

/-- The queued jobs, the oldest first. -/
def Repository.waiting : List (ResearchJob T) :=
  (s.jobs.rows.filter (·.status = .queued)).orderBy fun r => toLex (r.createdAt, r.jobId)

/-- **`claim_next`**: the job that was claimed, if any. -/
def claimNext (workerId attemptId : String) (now : T) (s : Repository T) :
    Option String × Repository T :=
  if s.jobs.rows.any (·.status.busy) then (none, s)
  else match s.waiting.head? with
    | none => (none, s)
    | some row =>
      (some row.jobId, s.updateJobs (fun r => r.jobId = row.jobId ∧ r.status = .queued)
        (·.claimed workerId attemptId now))

/-- `? IS NULL OR attempt_id = ?`. -/
def ResearchJob.Attempted (attempt : Option String) (r : ResearchJob T) : Prop :=
  ∀ id ∈ attempt, r.attemptId = some id
deriving Decidable

/-- A running row with its progress. -/
def ResearchJob.progressed (stage : String) (progress : ℤ) (now now' : T) (r : ResearchJob T) :
    ResearchJob T :=
  { r with
    stage := stage
    progress := max 0 (min progress 99)
    updatedAt := now
    attemptHeartbeatAt := some now' }

def updateProgress (jobId stage : String) (progress : ℤ) (attempt : Option String) (now now' : T)
    (s : Repository T) : Repository T :=
  s.updateJobs (fun r => r.jobId = jobId ∧ r.status = .running ∧ r.Attempted attempt)
    (·.progressed stage progress now now')

/-- The row of an attempt that is alive. -/
def ResearchJob.IsAttempt (jobId attemptId : String) (r : ResearchJob T) : Prop :=
  r.jobId = jobId ∧ r.status.busy ∧ r.attemptId = some attemptId
deriving Decidable

/-- A busy row whose lease is renewed. -/
def ResearchJob.renewed (now now' : T) (r : ResearchJob T) : ResearchJob T :=
  { r with attemptHeartbeatAt := some now, updatedAt := now' }

def heartbeatAttempt (jobId attemptId : String) (now now' : T) (s : Repository T) :
    Bool × Repository T :=
  (s.jobs.rows.any (·.IsAttempt jobId attemptId),
    s.updateJobs (·.IsAttempt jobId attemptId) (·.renewed now now'))

/-- The row of a job that may complete. -/
def ResearchJob.CanComplete (jobId : String) (attempt : Option String) (r : ResearchJob T) : Prop :=
  r.jobId = jobId ∧ r.status = .running ∧ r.cancelRequested = false ∧ r.Attempted attempt
deriving Decidable

/-- A row with its result. -/
def ResearchJob.completed (resultJson : String) (now : T) (r : ResearchJob T) : ResearchJob T :=
  { r with
    status := .complete
    stage := "complete"
    progress := 100
    resultJson := some resultJson
    updatedAt := now
    completedAt := some now }

def complete (codec : ResearchCodec P R) (jobId : String) (result : R) (attempt : Option String)
    (now : T) (s : Repository T) : Except Exc (Repository T) := do
  let json ← codec.resultJson result
  raiseIf (¬ s.jobs.rows.any (·.CanComplete jobId attempt))
    (.valueError "research job cannot complete unless it is running without cancellation")
  let s := s.updateJobs (·.CanComplete jobId attempt) (·.completed json now)
  let runId := codec.runId result
  -- `INSERT OR REPLACE`: rows with the run or the job are deleted
  let runs := if runId = "" then s.runs
    else s.runs.filter (fun run => run.runId ≠ runId ∧ run.jobId ≠ jobId)
      ++ [⟨runId, jobId, json, now⟩]
  return { s with runs }

/-- A row whose attempt failed. -/
def ResearchJob.failedWith (error : String) (now now' : T) (r : ResearchJob T) : ResearchJob T :=
  { r with
    status := .failed
    stage := "failed"
    error := some (String.ofList (error.toList.take 4000))
    updatedAt := now
    completedAt := some now' }

def fail (jobId error : String) (attempt : Option String) (now now' : T) (s : Repository T) :
    Repository T :=
  s.updateJobs (fun r => r.jobId = jobId ∧ r.status.busy ∧ r.Attempted attempt)
    (·.failedWith error now now')

/-- A queued row that is cancelled. -/
def ResearchJob.cancelledQueued (now : T) (r : ResearchJob T) : ResearchJob T :=
  { r with
    status := .cancelled
    stage := "cancelled"
    cancelRequested := true
    updatedAt := now
    completedAt := some now }

/-- A running row that is asked to stop. -/
def ResearchJob.askedToStop (now : T) (r : ResearchJob T) : ResearchJob T :=
  { r with
    status := .cancelling
    stage := "cancelling"
    cancelRequested := true
    updatedAt := now }

/-- **`request_cancel`**, where `seen` is the status that was read before. -/
def requestCancel (jobId : String) (seen : JobStatus) (now : T) (s : Repository T) : Repository T :=
  match seen with
  | .queued =>
    s.updateJobs (fun r => r.jobId = jobId ∧ r.status = .queued) (·.cancelledQueued now)
  | .running =>
    s.updateJobs (fun r => r.jobId = jobId ∧ r.status = .running) (·.askedToStop now)
  | _ => s

/-- A busy row whose worker stopped. -/
def ResearchJob.stopped (now : T) (r : ResearchJob T) : ResearchJob T :=
  { r with
    status := .cancelled
    stage := "cancelled"
    progress := 100
    updatedAt := now
    completedAt := some now }

def cancelRunning (jobId : String) (attempt : Option String) (now : T) (s : Repository T) :
    Repository T :=
  s.updateJobs (fun r => r.jobId = jobId ∧ r.status.busy ∧ r.Attempted attempt) (·.stopped now)

/-- A busy row whose last heartbeat is before the cutoff. -/
def ResearchJob.Stale (cutoff : T) (r : ResearchJob T) : Prop :=
  r.status.busy ∧ ∃ t ∈ r.attemptHeartbeatAt, t < cutoff
deriving Decidable

/-- A stale row that is queued again. -/
def ResearchJob.requeued (now : T) (r : ResearchJob T) : ResearchJob T :=
  { r with
    status := .queued
    stage := "queued"
    progress := 0
    claimedBy := none
    claimedAt := none
    attemptId := none
    attemptHeartbeatAt := none
    updatedAt := now }

/-- A stale row that is given up. -/
def ResearchJob.givenUp (now now' : T) (r : ResearchJob T) : ResearchJob T :=
  { r with
    status := .interrupted
    stage := "interrupted"
    error := some "worker interrupted repeatedly"
    updatedAt := now
    completedAt := some now' }

/-- **`recover_stale`**: the number of jobs that were queued again. -/
def recoverStale (cutoff now now' : T) (s : Repository T) : ℕ × Repository T :=
  (s.jobs.rows.countP fun r => r.Stale cutoff ∧ r.attempts < 2,
    (s.updateJobs (fun r => r.Stale cutoff ∧ r.attempts < 2) (·.requeued now)).updateJobs
      (fun r => r.Stale cutoff ∧ 2 ≤ r.attempts) (·.givenUp now now'))

end Operations

/-! ## The system -/

/-- The operations, with what the host answers them: the readings of the clock, and the
ids that `uuid4` draws. -/
inductive Label (P R T : Type)
  | enqueue (spec : P) (jobId : String) (now : T)
  | enqueueIdempotent (spec : P) (idempotencyKey jobId : String) (now : T)
  | claimNext (workerId attemptId : String) (now : T)
  | updateProgress (jobId stage : String) (progress : ℤ) (attempt : Option String) (now now' : T)
  | heartbeatAttempt (jobId attemptId : String) (now now' : T)
  | complete (jobId : String) (result : R) (attempt : Option String) (now : T)
  | fail (jobId message : String) (attempt : Option String) (now now' : T)
  | requestCancel (jobId : String) (seen : JobStatus) (now : T)
  | cancelRunning (jobId : String) (attempt : Option String) (now : T)
  | recoverStale (cutoff now now' : T)

section System

variable [LinearOrder T] (codec : ResearchCodec P R) (queueLimit : ℕ)

/-- What an operation leaves: one that raises changes nothing. -/
def Repository.commit (s : Repository T) (result : Except Exc (Repository T)) : Repository T :=
  match result with
  | .ok s' => s'
  | .error _ => s

def step (s : Repository T) : Label P R T → Repository T
  | .enqueue spec jobId now =>
    s.commit ((Research.enqueue codec queueLimit spec jobId now s).map (·.2))
  | .enqueueIdempotent spec key jobId now =>
    s.commit ((Research.enqueueIdempotent codec queueLimit spec key jobId now s).map (·.2))
  | .claimNext workerId attemptId now => (Research.claimNext workerId attemptId now s).2
  | .updateProgress jobId stage progress attempt now now' =>
    Research.updateProgress jobId stage progress attempt now now' s
  | .heartbeatAttempt jobId attemptId now now' =>
    (Research.heartbeatAttempt jobId attemptId now now' s).2
  | .complete jobId result attempt now =>
    s.commit (Research.complete codec jobId result attempt now s)
  | .fail jobId message attempt now now' => Research.fail jobId message attempt now now' s
  | .requestCancel jobId seen now => Research.requestCancel jobId seen now s
  | .cancelRunning jobId attempt now => Research.cancelRunning jobId attempt now s
  | .recoverStale cutoff now now' => (Research.recoverStale cutoff now now' s).2

/-- The repository after a run from an empty file. -/
def after (ls : List (Label P R T)) : Repository T :=
  Machine.run (step codec queueLimit) .empty ls

end System

/-! ## What a step does -/

/-- The job and the attempt that an operation is for, if it names one. -/
def Label.attempt : Label P R T → Option (String × String)
  | .updateProgress jobId _ _ attempt _ _ | .complete jobId _ attempt _ | .fail jobId _ attempt _ _
  | .cancelRunning jobId attempt _ => attempt.map (jobId, ·)
  | .heartbeatAttempt jobId attemptId _ _ => some (jobId, attemptId)
  | _ => none

/-- The attempt id that a claim draws. -/
def Label.drawn : Label P R T → Option String
  | .claimNext _ attemptId _ => some attemptId
  | _ => none

/-- The step queues the row again. -/
def Label.Requeues [LinearOrder T] (r : ResearchJob T) : Label P R T → Prop
  | .recoverStale cutoff _ _ => r.Stale cutoff ∧ r.attempts < 2
  | _ => False

section Changes

variable [LinearOrder T] {codec : ResearchCodec P R} {queueLimit : ℕ} {l : Label P R T}
  {s s' : Repository T} {r r' : ResearchJob T}

/-- **What an operation does to a row.** -/
inductive ResearchJob.Step (r : ResearchJob T) : ResearchJob T → Prop
  | same : r.Step r
  | claimed {workerId attemptId : String} {now : T} (queued : r.status = .queued) :
    r.Step (r.claimed workerId attemptId now)
  | progressed {stage : String} {progress : ℤ} {now now' : T} (running : r.status = .running) :
    r.Step (r.progressed stage progress now now')
  | renewed {now now' : T} (busy : r.status.busy) : r.Step (r.renewed now now')
  | completed {json : String} {now : T} (running : r.status = .running)
    (free : r.cancelRequested = false) : r.Step (r.completed json now)
  | failed {message : String} {now now' : T} (busy : r.status.busy) :
    r.Step (r.failedWith message now now')
  | cancelledQueued {now : T} (queued : r.status = .queued) : r.Step (r.cancelledQueued now)
  | askedToStop {now : T} (running : r.status = .running) : r.Step (r.askedToStop now)
  | stopped {now : T} (busy : r.status.busy) : r.Step (r.stopped now)
  | requeued {now : T} (busy : r.status.busy) (attempts : r.attempts < 2) : r.Step (r.requeued now)
  | givenUp {now now' : T} (busy : r.status.busy) (attempts : 2 ≤ r.attempts) :
    r.Step (r.givenUp now now')

omit [LinearOrder T] in
theorem ResearchJob.Step.jobId_eq (h : r.Step r') : r'.jobId = r.jobId := by
  cases h <;> rfl

omit [LinearOrder T] in
theorem ResearchJob.Step.busy (h : r.Step r') (hr' : r'.status.busy)
    (hqueued : r.status ≠ .queued) : r.status.busy := by
  cases h with
  | same => exact hr'
  | claimed queued | cancelledQueued queued => exact absurd queued hqueued
  | renewed busy | failed busy | stopped busy | requeued busy | givenUp busy => exact busy
  | progressed running | completed running | askedToStop running => rw [running]; rfl

omit [LinearOrder T] in
theorem ResearchJob.Step.active (h : r.Step r') (hr' : r'.status.active) : r.status.active := by
  have hbusy : r.status.busy → r.status.active := by
    cases r.status <;> simp [JobStatus.busy, JobStatus.active]
  cases h with
  | same => exact hr'
  | claimed queued | cancelledQueued queued => rw [queued]; rfl
  | renewed busy | failed busy | stopped busy | requeued busy | givenUp busy => exact hbusy busy
  | progressed running | completed running | askedToStop running => rw [running]; rfl

/-- **What a step does to the tables**: rows move and none becomes busy, and only a
recovery queues one again; a queued row is claimed while none is busy, under the id that is
drawn; or a row is inserted while there is room. -/
inductive Change (queueLimit : ℕ) (l : Label P R T) (s s' : Repository T) : Prop
  | rows (g : ResearchJob T → ResearchJob T) (rows : s'.jobs.rows = s.jobs.rows.map g)
    (step : ∀ r ∈ s.jobs.rows, r.Step (g r))
    (idle : ∀ r ∈ s.jobs.rows, r.status = .queued → (g r).status.busy = false)
    (out : ∀ r ∈ s.jobs.rows, (g r).status = .queued → r.status = .queued ∨ l.Requeues r)
    (keys : s'.keys = s.keys)
  | claim (row : ResearchJob T) (workerId attemptId : String) (now : T)
    (drawn : l.drawn = some attemptId) (mem : row ∈ s.jobs.rows)
    (queued : row.status = .queued) (free : ∀ r ∈ s.jobs.rows, r.status.busy = false)
    (rows : s'.jobs.rows = s.jobs.rows.map fun r =>
      if r.jobId = row.jobId then r.claimed workerId attemptId now else r)
    (keys : s'.keys = s.keys)
  | insert (jobId specJson : String) (now : T) (fresh : s.jobs.find? jobId = none)
    (room : s.queued < queueLimit) (jobs : s'.jobs = s.jobs.insertOnce (newJob jobId specJson now))
    (keys : s'.keys = s.keys ∨ ∃ key, s.keys.find? key = none ∧
      s'.keys = s.keys.insertOnce ⟨key, jobId, specJson, now⟩)

theorem Change.refl : Change queueLimit l s s :=
  .rows id (List.map_id _).symm (fun r _ => .same) (fun r _ h => by rw [id, h]; rfl)
    (fun _ _ h => .inl h) rfl

theorem Change.of_eq {s'' : Repository T} (h : Change queueLimit l s s')
    (hjobs : s''.jobs = s'.jobs) (hkeys : s''.keys = s'.keys) : Change queueLimit l s s'' := by
  cases h with
  | rows g rows step idle out keys => exact .rows g (hjobs ▸ rows) step idle out (hkeys.trans keys)
  | claim row workerId attemptId now drawn mem queued free rows keys =>
    exact .claim row workerId attemptId now drawn mem queued free (hjobs ▸ rows) (hkeys.trans keys)
  | insert jobId specJson now fresh room jobs keys =>
    exact .insert jobId specJson now fresh room (hjobs.trans jobs) (hkeys ▸ keys)

variable {f : ResearchJob T → ResearchJob T} {jobId : String} {hf : ∀ r, (f r).jobId = r.jobId}
  {p : ResearchJob T → Prop}

/-- An `UPDATE` of rows that are not claimed by it. -/
theorem change_updateJobs [DecidablePred p] (hstep : ∀ r, p r → r.Step (f r))
    (hidle : ∀ r, p r → r.status = .queued → (f r).status.busy = false)
    (hout : ∀ r, p r → (f r).status ≠ .queued) : Change queueLimit l s (s.updateJobs p f hf) := by
  refine .rows (fun r => if p r then f r else r) rfl (fun r _ => ?_) (fun r _ hq => ?_)
    (fun r _ hq => ?_) rfl
  · show r.Step (if p r then f r else r)
    split_ifs with h
    · exact hstep r h
    · exact .same
  · show (if p r then f r else r).status.busy = false
    split_ifs with h
    · exact hidle r h hq
    · rw [hq]
      rfl
  · replace hq : (if p r then f r else r).status = .queued := hq
    split_ifs at hq with h
    · exact absurd hq (hout r h)
    · exact .inl hq

omit [LinearOrder T] in
theorem not_busy_of_queued (h : r.status = .queued) : ¬ r.status.busy := by
  rw [h]
  exact Bool.false_ne_true

/-- The rows that are busy are not queued, so that an `UPDATE` of them claims none. -/
theorem change_busy [DecidablePred p] (hbusy : ∀ r, p r → r.status.busy)
    (hstep : ∀ r, p r → r.Step (f r)) (hout : ∀ r, p r → (f r).status ≠ .queued) :
    Change queueLimit l s (s.updateJobs p f hf) :=
  change_updateJobs hstep (fun r hp hq => absurd (hbusy r hp) (not_busy_of_queued hq)) hout

omit [LinearOrder T] in
theorem busy_of_running (h : r.status = .running) : r.status.busy := by
  rw [h]
  rfl

variable {now : T}

omit [LinearOrder T] in
theorem insertJob_eq_ok {specJson : Except Exc String} :
    s.insertJob queueLimit jobId specJson now = .ok s' ↔ ∃ spec, specJson = .ok spec ∧
      s.queued < queueLimit ∧ s.jobs.find? jobId = none ∧
      s' = { s with jobs := s.jobs.insertOnce (newJob jobId spec now) } := by
  unfold Repository.insertJob
  rw [raiseIf_bind_eq_ok, bind_eq_ok]
  simp only [raiseIf_bind_eq_ok, not_le, Bool.not_eq_true, isSome_eq_false_iff, isNone_iff_eq_none]
  constructor
  · rintro ⟨hroom, spec, hspec, hfresh, h⟩
    exact ⟨spec, hspec, hroom, hfresh, (ok.inj h).symm⟩
  · rintro ⟨spec, hspec, hroom, hfresh, rfl⟩
    exact ⟨hroom, spec, hspec, hfresh, rfl⟩

omit [LinearOrder T] in
/-- **A key gives its job**, or a new one where there is room. -/
theorem enqueueIdempotent_eq_ok {spec : P} {idempotencyKey id : String} {created : Bool}
    (h : enqueueIdempotent codec queueLimit spec idempotencyKey jobId now s =
      .ok ((id, created), s'))
    : (∃ existing, s.keys.find? (stripKey idempotencyKey) = some existing ∧
        id = existing.jobId ∧ created = false ∧ s' = s) ∨
      ∃ encoded, s.keys.find? (stripKey idempotencyKey) = none ∧ id = jobId ∧ created = true ∧
        s.queued < queueLimit ∧ s.jobs.find? jobId = none ∧
        s' = { s with
          jobs := s.jobs.insertOnce (newJob jobId encoded now)
          keys := s.keys.insertOnce ⟨stripKey idempotencyKey, jobId, encoded, now⟩ } := by
  unfold enqueueIdempotent at h
  obtain ⟨_, h⟩ := of_raiseIf h
  obtain ⟨normalized, _, h⟩ := of_bind h
  obtain ⟨encoded, _, h⟩ := of_bind h
  cases hkey : s.keys.find? (stripKey idempotencyKey) with
  | some existing =>
    rw [hkey] at h
    obtain ⟨_, h⟩ := of_raiseIf h
    obtain ⟨hid, rfl⟩ := Prod.mk.inj (ok.inj h)
    obtain ⟨rfl, rfl⟩ := Prod.mk.inj hid
    exact .inl ⟨existing, rfl, rfl, rfl, rfl⟩
  | none =>
    rw [hkey] at h
    obtain ⟨s1, hinsert, h⟩ := of_bind h
    obtain ⟨spec', hspec, hroom, hfresh, rfl⟩ := insertJob_eq_ok.mp hinsert
    obtain rfl := ok.inj hspec
    obtain ⟨hid, rfl⟩ := Prod.mk.inj (ok.inj h)
    obtain ⟨rfl, rfl⟩ := Prod.mk.inj hid
    exact .inr ⟨encoded, rfl, rfl, rfl, hroom, hfresh, rfl⟩

theorem change_claimNext (workerId attemptId : String) (now : T)
    (hdrawn : l.drawn = some attemptId) :
    Change queueLimit l s (claimNext workerId attemptId now s).2 := by
  unfold claimNext
  split_ifs with hany
  · exact .refl
  · cases hwait : s.waiting.head? with
    | none => exact .refl
    | some row =>
      have hmem : row ∈ s.waiting := mem_of_head? hwait
      rw [Repository.waiting, mem_orderBy, mem_filter, decide_eq_true_eq] at hmem
      obtain ⟨hrow, hqueued⟩ := hmem
      refine .claim row workerId attemptId now hdrawn hrow hqueued (fun r hr => ?_) ?_ rfl
      · by_contra hbusy
        exact hany (any_eq_true.mpr ⟨r, hr, Bool.eq_true_of_not_eq_false hbusy⟩)
      · show s.jobs.rows.map _ = _
        refine map_congr_left fun r hr => ?_
        by_cases hid : r.jobId = row.jobId
        · obtain rfl : r = row := some.inj
            ((find?_of_mem hr).symm.trans (hid ▸ find?_of_mem hrow))
          rw [if_pos ⟨rfl, hqueued⟩, if_pos rfl]
        · rw [if_neg fun h => hid h.1, if_neg hid]

theorem change_recoverStale (cutoff now now' : T) :
    Change queueLimit (Label.recoverStale (P := P) (R := R) cutoff now now') s
      (recoverStale cutoff now now' s).2 := by
  refine .rows (fun r => (fun r : ResearchJob T =>
      if r.Stale cutoff ∧ 2 ≤ r.attempts then r.givenUp now now' else r)
      (if r.Stale cutoff ∧ r.attempts < 2 then r.requeued now else r)) ?_ (fun r _ => ?_)
      (fun r _ hq => ?_) (fun r _ hq => ?_) rfl
  · exact map_map
  · show r.Step (if (if _ then _ else r).Stale cutoff ∧ _ then _ else _)
    by_cases h : r.Stale cutoff ∧ r.attempts < 2
    · have hnot : ¬ ((r.requeued now).Stale cutoff ∧ 2 ≤ (r.requeued now).attempts) :=
        fun hstale => absurd hstale.1.1 (not_busy_of_queued rfl)
      rw [if_pos h, if_neg hnot]
      exact .requeued h.1.1 h.2
    · rw [if_neg h]
      split_ifs with h'
      · exact .givenUp h'.1.1 h'.2
      · exact .same
  · have hnot : ¬ r.Stale cutoff := fun h => absurd h.1 (not_busy_of_queued hq)
    have hfirst : (if r.Stale cutoff ∧ r.attempts < 2 then r.requeued now else r) = r :=
      if_neg fun h => hnot h.1
    show (if (if _ then _ else r).Stale cutoff ∧ _ then _ else _ : ResearchJob T).status.busy = _
    rw [hfirst, if_neg fun h => hnot h.1, hq]
    rfl
  · by_cases h : r.Stale cutoff ∧ r.attempts < 2
    · exact .inr h
    · replace hq : (if (if r.Stale cutoff ∧ r.attempts < 2 then r.requeued now else r).Stale cutoff
          ∧ _ then _ else _ : ResearchJob T).status = .queued := hq
      rw [if_neg h] at hq
      split_ifs at hq
      · cases hq
      · exact .inl hq

theorem change_step (codec : ResearchCodec P R) (queueLimit : ℕ) (s : Repository T)
    (l : Label P R T) : Change queueLimit l s (step codec queueLimit s l) := by
  cases l with
  | enqueue spec jobId now =>
    show Change queueLimit _ s
      (s.commit ((Research.enqueue codec queueLimit spec jobId now s).map _))
    cases h : Research.enqueue codec queueLimit spec jobId now s with
    | error => exact .refl
    | ok x =>
      obtain ⟨normalized, _, h⟩ := of_bind h
      obtain ⟨s1, hinsert, h⟩ := of_bind h
      obtain rfl := ok.inj h
      obtain ⟨encoded, _, hroom, hfresh, rfl⟩ := insertJob_eq_ok.mp hinsert
      exact .insert jobId encoded now hfresh hroom rfl (.inl rfl)
  | enqueueIdempotent spec key jobId now =>
    show Change queueLimit _ s
      (s.commit ((Research.enqueueIdempotent codec queueLimit spec key jobId now s).map _))
    cases h : Research.enqueueIdempotent codec queueLimit spec key jobId now s with
    | error => exact .refl
    | ok x =>
      obtain ⟨⟨id, created⟩, s1⟩ := x
      rcases enqueueIdempotent_eq_ok h with ⟨_, _, _, _, rfl⟩ |
        ⟨encoded, hkey, _, _, hroom, hfresh, rfl⟩
      · exact .refl
      · exact .insert jobId encoded now hfresh hroom rfl (.inr ⟨_, hkey, rfl⟩)
  | claimNext workerId attemptId now => exact change_claimNext workerId attemptId now rfl
  | updateProgress jobId stage progress attempt now now' =>
    exact change_busy (fun r h => busy_of_running h.2.1) (fun r h => .progressed h.2.1)
      fun r h hq => not_busy_of_queued hq (busy_of_running h.2.1)
  | heartbeatAttempt jobId attemptId now now' =>
    exact change_busy (fun r h => h.2.1) (fun r h => .renewed h.2.1)
      fun r h hq => not_busy_of_queued (r := r) hq h.2.1
  | complete jobId result attempt now =>
    show Change queueLimit _ s (s.commit (Research.complete codec jobId result attempt now s))
    cases h : Research.complete codec jobId result attempt now s with
    | error => exact .refl
    | ok s1 =>
      obtain ⟨json, _, h⟩ := of_bind h
      obtain ⟨_, h⟩ := of_raiseIf h
      obtain rfl := ok.inj h
      have hchange : Change queueLimit (Label.complete (P := P) jobId result attempt now) s
          (s.updateJobs (·.CanComplete jobId attempt) (·.completed json now)) :=
        change_busy (fun r h => busy_of_running h.2.1) (fun r h => .completed h.2.1 h.2.2.1)
          fun r _ hq => by cases hq
      exact hchange.of_eq rfl rfl
  | fail jobId message attempt now now' =>
    exact change_busy (fun r h => h.2.1) (fun r h => .failed h.2.1) fun r _ hq => by cases hq
  | requestCancel jobId seen now =>
    cases seen with
    | queued =>
      exact change_updateJobs (fun r h => .cancelledQueued h.2) (fun r _ _ => rfl)
        fun r _ hq => by cases hq
    | running =>
      exact change_busy (fun r h => busy_of_running h.2) (fun r h => .askedToStop h.2)
        fun r _ hq => by cases hq
    | cancelling | complete | failed | cancelled | interrupted => exact .refl
  | cancelRunning jobId attempt now =>
    exact change_busy (fun r h => h.2.1) (fun r h => .stopped h.2.1) fun r _ hq => by cases hq
  | recoverStale cutoff now now' => exact change_recoverStale cutoff now now'

end Changes

/-! ## What holds in every state -/

section Invariant

variable [LinearOrder T] {queueLimit : ℕ} {l : Label P R T} {s s' : Repository T}
  {r r' : ResearchJob T} {k : String}

/-- **A row is kept, and moves by a step.** -/
theorem Change.kept (hc : Change queueLimit l s s') (hr : s.jobs.find? k = some r) :
    ∃ r', s'.jobs.find? k = some r' ∧ r.Step r' := by
  have hmem := mem_of_find? hr
  have hmap : ∀ g : ResearchJob T → ResearchJob T, s'.jobs.rows = s.jobs.rows.map g →
      r.Step (g r) → ∃ r', s'.jobs.find? k = some r' ∧ r.Step r' := by
    intro g hrows hstep
    have hkey : (g r).jobId = k := hstep.jobId_eq.trans (key_of_find? hr)
    have hin : g r ∈ s'.jobs.rows := hrows ▸ mem_map_of_mem hmem
    exact ⟨g r, hkey ▸ find?_of_mem hin, hstep⟩
  cases hc with
  | rows g rows step idle out keys => exact hmap g rows (step r hmem)
  | claim row workerId attemptId now drawn mem queued free rows keys =>
    refine hmap _ rows ?_
    show r.Step (if r.jobId = row.jobId then r.claimed workerId attemptId now else r)
    split_ifs with hid
    · obtain rfl : r = row := some.inj
        ((find?_of_mem hmem).symm.trans (hid ▸ find?_of_mem mem))
      exact .claimed queued
    · exact .same
  | insert jobId specJson now fresh room jobs keys =>
    exact ⟨r, jobs ▸ find?_insertOnce_of_find? hr, .same⟩

/-- **A row that is found was there, or is new.** -/
theorem Change.mem (hc : Change queueLimit l s s') (hr' : r' ∈ s'.jobs.rows) :
    (∃ r ∈ s.jobs.rows, r.Step r') ∨ ∃ jobId specJson now, r' = newJob jobId specJson now := by
  cases hr : s.jobs.find? r'.jobId with
  | some r =>
    obtain ⟨r'', hr'', hstep⟩ := hc.kept hr
    obtain rfl : r' = r'' := some.inj ((find?_of_mem hr').symm.trans hr'')
    exact .inl ⟨r, mem_of_find? hr, hstep⟩
  | none =>
    have hmap : ∀ g : ResearchJob T → ResearchJob T, s'.jobs.rows = s.jobs.rows.map g →
        (∀ q ∈ s.jobs.rows, (g q).jobId = q.jobId) → False := by
      intro g hrows hid
      obtain ⟨q, hq, rfl⟩ := mem_map.mp (hrows ▸ hr')
      rw [hid q hq, find?_of_mem hq] at hr
      cases hr
    cases hc with
    | rows g rows step idle out keys => exact (hmap g rows fun q hq => (step q hq).jobId_eq).elim
    | claim row workerId attemptId now drawn mem queued free rows keys =>
      refine (hmap _ rows fun q _ => ?_).elim
      show (if q.jobId = row.jobId then q.claimed workerId attemptId now else q).jobId = q.jobId
      split_ifs <;> rfl
    | insert jobId specJson now fresh room jobs keys =>
      rw [jobs, mem_rows_insertOnce (r := newJob jobId specJson now) fresh] at hr'
      rcases hr' with hold | rfl
      · rw [find?_of_mem hold] at hr
        cases hr
      · exact .inr ⟨jobId, specJson, now, rfl⟩

/-- **What holds of every row.** -/
structure ResearchJob.Sound (r : ResearchJob T) : Prop where
  attempts : r.attempts ≤ 2
  waiting : r.status = .queued → r.attempts ≤ 1
  asked : r.status = .cancelling → r.cancelRequested = true
  kept : r.status = .complete → r.cancelRequested = false

omit [LinearOrder T] in
theorem ResearchJob.Step.sound (h : r.Step r') (hr : r.Sound) : r'.Sound := by
  obtain ⟨hattempts, hwaiting, hasked, hkept⟩ := hr
  cases h with
  | same => exact ⟨hattempts, hwaiting, hasked, hkept⟩
  | claimed queued =>
    exact ⟨Nat.succ_le_succ (hwaiting queued), fun h => (by cases h), fun h => (by cases h),
      fun h => (by cases h)⟩
  | progressed running =>
    exact ⟨hattempts, fun h => hwaiting h, fun h => hasked h, fun h => hkept h⟩
  | renewed busy => exact ⟨hattempts, fun h => hwaiting h, fun h => hasked h, fun h => hkept h⟩
  | completed running free =>
    exact ⟨hattempts, fun h => (by cases h), fun h => (by cases h), fun _ => free⟩
  | failed busy | cancelledQueued queued | stopped busy | givenUp busy attempts =>
    exact ⟨hattempts, fun h => (by cases h), fun h => (by cases h), fun h => (by cases h)⟩
  | askedToStop running =>
    exact ⟨hattempts, fun h => (by cases h), fun _ => rfl, fun h => (by cases h)⟩
  | requeued busy attempts =>
    exact ⟨hattempts, fun _ => Nat.le_of_lt_succ attempts, fun h => (by cases h),
      fun h => (by cases h)⟩

/-- **What holds of the tables**: no two rows are busy, there are no more active rows
than the limit allows, and the job of a key exists. -/
structure Sound (queueLimit : ℕ) (s : Repository T) : Prop where
  rows : ∀ r ∈ s.jobs.rows, r.Sound
  one : ∀ r ∈ s.jobs.rows, ∀ q ∈ s.jobs.rows, r.status.busy → q.status.busy → r = q
  room : s.queued ≤ queueLimit
  keys : ∀ key ∈ s.keys.rows, (s.jobs.find? key.jobId).isSome

omit [LinearOrder T] in
theorem queued_le_of_rows {g : ResearchJob T → ResearchJob T}
    (hrows : s'.jobs.rows = s.jobs.rows.map g)
    (hactive : ∀ r ∈ s.jobs.rows, (g r).status.active → r.status.active) :
    s'.queued ≤ s.queued := by
  unfold Repository.queued
  rw [hrows, countP_map]
  exact countP_mono_left fun r hr => hactive r hr

theorem Change.room (hc : Change queueLimit l s s') (h : s.queued ≤ queueLimit) :
    s'.queued ≤ queueLimit := by
  cases hc with
  | rows g rows step idle out keys =>
    exact (queued_le_of_rows rows fun r hr => (step r hr).active).trans h
  | claim row workerId attemptId now drawn mem queued free rows keys =>
    refine (queued_le_of_rows rows fun r hr hactive => ?_).trans h
    by_cases hid : r.jobId = row.jobId
    · obtain rfl : r = row := some.inj
        ((find?_of_mem hr).symm.trans (hid ▸ find?_of_mem mem))
      rw [queued]
      rfl
    · rwa [if_neg hid] at hactive
  | insert jobId specJson now fresh room jobs keys =>
    unfold Repository.queued at room ⊢
    rw [jobs, rows_insertOnce (r := newJob jobId specJson now) fresh, countP_append]
    exact Nat.succ_le_of_lt room

theorem Change.one (hc : Change queueLimit l s s')
    (h : ∀ r ∈ s.jobs.rows, ∀ q ∈ s.jobs.rows, r.status.busy → q.status.busy → r = q) :
    ∀ r ∈ s'.jobs.rows, ∀ q ∈ s'.jobs.rows, r.status.busy → q.status.busy → r = q := by
  cases hc with
  | rows g rows step idle out keys =>
    have hbusy : ∀ r ∈ s.jobs.rows, (g r).status.busy → r.status.busy := by
      intro r hr hgr
      refine (step r hr).busy hgr fun hq => ?_
      rw [idle r hr hq] at hgr
      cases hgr
    rw [rows]
    intro a ha b hb hba hbb
    obtain ⟨r, hr, rfl⟩ := mem_map.mp ha
    obtain ⟨q, hq, rfl⟩ := mem_map.mp hb
    rw [h r hr q hq (hbusy r hr hba) (hbusy q hq hbb)]
  | claim row workerId attemptId now drawn mem queued free rows keys =>
    have honly : ∀ r ∈ s.jobs.rows,
        (if r.jobId = row.jobId then r.claimed workerId attemptId now else r).status.busy →
          r = row := by
      intro r hr hbusy
      by_cases hid : r.jobId = row.jobId
      · exact some.inj ((find?_of_mem hr).symm.trans (hid ▸ find?_of_mem mem))
      · rw [if_neg hid, free r hr] at hbusy
        cases hbusy
    rw [rows]
    intro a ha b hb hba hbb
    obtain ⟨r, hr, rfl⟩ := mem_map.mp ha
    obtain ⟨q, hq, rfl⟩ := mem_map.mp hb
    rw [honly r hr hba, honly q hq hbb]
  | insert jobId specJson now fresh room jobs keys =>
    intro a ha b hb hba hbb
    have hold : ∀ q ∈ s'.jobs.rows, q.status.busy → q ∈ s.jobs.rows := by
      intro q hq hbusy
      rw [jobs, mem_rows_insertOnce (r := newJob jobId specJson now) fresh] at hq
      refine hq.resolve_right ?_
      rintro rfl
      cases hbusy
    exact h a (hold a ha hba) b (hold b hb hbb) hba hbb

theorem Sound.change (h : Sound queueLimit s) (hc : Change queueLimit l s s') :
    Sound queueLimit s' where
  rows r' hr' := by
    rcases hc.mem hr' with ⟨r, hr, hstep⟩ | ⟨_, _, _, rfl⟩
    · exact hstep.sound (h.rows r hr)
    · exact ⟨Nat.zero_le 2, fun _ => Nat.zero_le 1, fun h => (by cases h), fun h => (by cases h)⟩
  one := hc.one h.one
  room := hc.room h.room
  keys := by
    have hkept : ∀ key ∈ s.keys.rows, (s'.jobs.find? key.jobId).isSome := by
      intro key hkey
      obtain ⟨r, hr⟩ := isSome_iff_exists.mp (h.keys key hkey)
      obtain ⟨r', hr', _⟩ := hc.kept hr
      rw [hr']
      rfl
    cases hc with
    | rows g rows step idle out keys => exact keys ▸ hkept
    | claim row workerId attemptId now drawn mem queued free rows keys => exact keys ▸ hkept
    | insert jobId specJson now fresh room jobs keys =>
      rcases keys with keys | ⟨key, hfree, keys⟩
      · exact keys ▸ hkept
      · rw [keys]
        intro k hk
        rw [mem_rows_insertOnce (r := (⟨key, jobId, specJson, now⟩ : SubmissionKey T)) hfree] at hk
        rcases hk with hk | rfl
        · exact hkept k hk
        · have hfound : s'.jobs.find? jobId = some (newJob jobId specJson now) := by
            rw [jobs]
            exact find?_insertOnce_self (r := newJob jobId specJson now) fresh
          exact isSome_iff_exists.mpr ⟨_, hfound⟩

theorem Change.key (hc : Change queueLimit l s s') {key : SubmissionKey T}
    (h : s.keys.find? k = some key) : s'.keys.find? k = some key := by
  cases hc with
  | rows g rows step idle out keys => exact keys ▸ h
  | claim row workerId attemptId now drawn mem queued free rows keys => exact keys ▸ h
  | insert jobId specJson now fresh room jobs keys =>
    rcases keys with keys | ⟨_, _, keys⟩
    · exact keys ▸ h
    · rw [keys]
      exact find?_insertOnce_of_find? h

end Invariant

/-! ## Runs -/

section Runs

variable [LinearOrder T] {codec : ResearchCodec P R} {queueLimit : ℕ} {s : Repository T}
  {r : ResearchJob T}

theorem sound_after (codec : ResearchCodec P R) (queueLimit : ℕ) (ls : List (Label P R T)) :
    Sound queueLimit (after codec queueLimit ls) :=
  inv_run _ (fun s l h => h.change (change_step codec queueLimit s l))
    ⟨fun _ h => absurd h not_mem_nil, fun _ h => absurd h not_mem_nil, Nat.zero_le _,
      fun _ h => absurd h not_mem_nil⟩ ls

omit [LinearOrder T] in
theorem updateJobs_eq_self {p : ResearchJob T → Prop} [DecidablePred p]
    {f : ResearchJob T → ResearchJob T} {hf : ∀ r, (f r).jobId = r.jobId}
    (h : ∀ r ∈ s.jobs.rows, ¬ p r) : s.updateJobs p f hf = s := by
  have hrows : s.jobs.rows.map (fun r => if p r then f r else r) = s.jobs.rows := by
    conv_rhs => rw [← List.map_id s.jobs.rows]
    exact map_congr_left fun r hr => if_neg (h r hr)
  obtain ⟨⟨rows, nodup⟩, runs, keys⟩ := s
  simp only [Repository.updateJobs, Table.updateWhere, Repository.mk.injEq, Table.mk.injEq,
    and_true]
  exact hrows

/-- **An operation of a stale attempt changes nothing.** -/
theorem step_eq_of_stale {l : Label P R T} {jobId attemptId : String}
    (hl : l.attempt = some (jobId, attemptId))
    (hstale : ∀ r ∈ s.jobs.rows, r.jobId = jobId → r.attemptId ≠ some attemptId) :
    step codec queueLimit s l = s := by
  have hmap : ∀ {id : String} {attempt : Option String},
      attempt.map (id, ·) = some (jobId, attemptId) → id = jobId ∧ attempt = some attemptId := by
    intro id attempt h
    obtain ⟨a, rfl, hpair⟩ := map_eq_some_iff.mp h
    obtain ⟨rfl, rfl⟩ := Prod.mk.inj hpair
    exact ⟨rfl, rfl⟩
  cases l with
  | updateProgress id stage progress attempt now now' =>
    obtain ⟨rfl, rfl⟩ := hmap hl
    exact updateJobs_eq_self fun r hr h => hstale r hr h.1 (h.2.2 _ rfl)
  | heartbeatAttempt id attempt now now' =>
    obtain ⟨rfl, rfl⟩ := Prod.mk.inj (some.inj hl)
    exact updateJobs_eq_self fun r hr h => hstale r hr h.1 h.2.2
  | complete id result attempt now =>
    obtain ⟨rfl, rfl⟩ := hmap hl
    show s.commit (Research.complete codec id result (some attemptId) now s) = s
    cases h : Research.complete codec id result (some attemptId) now s with
    | error => rfl
    | ok s' =>
      obtain ⟨_, _, h⟩ := of_bind h
      obtain ⟨hany, _⟩ := of_raiseIf h
      obtain ⟨r, hr, hcan⟩ := any_eq_true.mp (not_not.mp hany)
      have hcan : r.CanComplete id (some attemptId) := of_decide_eq_true hcan
      exact absurd (hcan.2.2.2 _ rfl) (hstale r hr hcan.1)
  | fail id message attempt now now' =>
    obtain ⟨rfl, rfl⟩ := hmap hl
    exact updateJobs_eq_self fun r hr h => hstale r hr h.1 (h.2.2 _ rfl)
  | cancelRunning id attempt now =>
    obtain ⟨rfl, rfl⟩ := hmap hl
    exact updateJobs_eq_self fun r hr h => hstale r hr h.1 (h.2.2 _ rfl)
  | enqueue | enqueueIdempotent | claimNext | requestCancel | recoverStale => cases hl

/-- **A property of a row that every step keeps, a run keeps**, where its steps meet a
condition. -/
theorem kept_run {C : Repository T → Label P R T → Prop} {I : ResearchJob T → Prop}
    (hI : ∀ (s : Repository T) (l : Label P R T) (k : String) (r r' : ResearchJob T), C s l →
      s.jobs.find? k = some r → (step codec queueLimit s l).jobs.find? k = some r' →
        r.Step r' → I r → I r')
    {ls : List (Label P R T)} (hls : Machine.Meets (step codec queueLimit) C s ls) {k : String}
    (hr : s.jobs.find? k = some r) (h : I r) :
    ∃ r', (Machine.run (step codec queueLimit) s ls).jobs.find? k = some r' ∧ I r' := by
  induction ls generalizing s r with
  | nil => exact ⟨r, hr, h⟩
  | cons l ls ih =>
    obtain ⟨r1, hr1, hstep⟩ := (change_step codec queueLimit s l).kept hr
    exact ih hls.2 hr1 (hI s l k r r1 hls.1 hr hr1 hstep h)

end Runs

/-! ## The queue over a run -/

section Queue

variable [LinearOrder T] {codec : ResearchCodec P R} {queueLimit : ℕ} {l : Label P R T}
  {s s' : Repository T} {r r' : ResearchJob T}

omit [LinearOrder T] in
/-- **A row that is not active does not move.** -/
theorem ResearchJob.Step.eq_of_ended (h : r.Step r') (hr : r.status.active = false) : r' = r := by
  have hbusy : ¬ r.status.busy := by
    intro hb
    cases hs : r.status <;> rw [hs] at hr hb <;> cases hr <;> cases hb
  have hqueued : r.status ≠ .queued := fun hq => by rw [hq] at hr; cases hr
  cases h with
  | same => rfl
  | claimed queued | cancelledQueued queued => exact absurd queued hqueued
  | renewed busy | failed busy | stopped busy | requeued busy | givenUp busy =>
    exact absurd busy hbusy
  | progressed running | completed running | askedToStop running =>
    exact absurd (busy_of_running running) hbusy

omit [LinearOrder T] in
theorem ResearchJob.Step.cancelRequested (h : r.Step r') (hr : r.cancelRequested = true) :
    r'.cancelRequested = true := by
  cases h with
  | askedToStop | cancelledQueued => rfl
  | same | claimed | progressed | renewed | completed | failed | stopped | requeued | givenUp =>
    exact hr

variable {k : String}

/-- **The attempt of a row** is kept, taken away, or the one that a claim draws. -/
theorem Change.attemptId (hc : Change queueLimit l s s') (hr : s.jobs.find? k = some r)
    (hr' : s'.jobs.find? k = some r') : r'.attemptId = r.attemptId ∨ r'.attemptId = none ∨
      ∃ id, l.drawn = some id ∧ r'.attemptId = some id := by
  have hmem := mem_of_find? hr
  have hmem' := mem_of_find? hr'
  have hkey : r'.jobId = r.jobId := (key_of_find? hr').trans (key_of_find? hr).symm
  have hsame : ∀ q ∈ s.jobs.rows, q.jobId = r'.jobId → q = r := fun q hq hid =>
    some.inj ((find?_of_mem hq).symm.trans ((hid.trans hkey) ▸ find?_of_mem hmem))
  cases hc with
  | rows g rows step idle out keys =>
    obtain ⟨q, hq, rfl⟩ := mem_map.mp (rows ▸ hmem')
    obtain rfl := hsame q hq (step q hq).jobId_eq.symm
    have hstep := step q hq
    have hidle := idle q hq
    revert hstep hidle
    generalize g q = r'
    intro hstep hidle
    cases hstep with
    | claimed queued => exact absurd (hidle queued) (by simp [ResearchJob.claimed, JobStatus.busy])
    | requeued => exact .inr (.inl rfl)
    | same | progressed | renewed | completed | failed | cancelledQueued | askedToStop | stopped
      | givenUp => exact .inl rfl
  | claim row workerId attemptId now drawn mem queued free rows keys =>
    obtain ⟨q, hq, rfl⟩ := mem_map.mp (rows ▸ hmem')
    have hid : q.jobId
        = (if q.jobId = row.jobId then q.claimed workerId attemptId now else q).jobId := by
      split_ifs <;> rfl
    obtain rfl := hsame q hq hid
    split_ifs
    · exact .inr (.inr ⟨attemptId, drawn, rfl⟩)
    · exact .inl rfl
  | insert jobId specJson now fresh room jobs keys =>
    rw [jobs, find?_insertOnce_of_find? hr] at hr'
    exact .inl (congrArg _ (some.inj hr').symm)

/-- **Only a recovery queues a row**, and only a queued row comes to run. -/
theorem Change.not_running (hc : Change queueLimit l s s') (hl : ¬ l.Requeues r)
    (hr : s.jobs.find? k = some r) (hr' : s'.jobs.find? k = some r') (hqueued : r.status ≠ .queued)
    (hrunning : r.status ≠ .running) : r'.status ≠ .queued ∧ r'.status ≠ .running := by
  obtain ⟨r'', hr'', hstep⟩ := hc.kept hr
  obtain rfl := some.inj (hr''.symm.trans hr')
  constructor
  · intro hq'
    have hmem := mem_of_find? hr
    have hmem' := mem_of_find? hr'
    cases hc with
    | rows g rows step idle out keys =>
      obtain ⟨q, hq, rfl⟩ := mem_map.mp (rows ▸ hmem')
      have hid : q.jobId = r.jobId := (step q hq).jobId_eq.symm.trans
        ((key_of_find? hr').trans (key_of_find? hr).symm)
      obtain rfl : q = r := some.inj ((find?_of_mem hq).symm.trans (hid ▸ find?_of_mem hmem))
      exact (out q hq hq').elim hqueued hl
    | claim row workerId attemptId now drawn mem queued free rows keys =>
      obtain ⟨q, hq, rfl⟩ := mem_map.mp (rows ▸ hmem')
      split_ifs at hq' hr' hstep with hid
      · cases hq'
      · have hid' : q.jobId = r.jobId := (key_of_find? hr').trans (key_of_find? hr).symm
        obtain rfl : q = r := some.inj
          ((find?_of_mem hq).symm.trans (hid' ▸ find?_of_mem hmem))
        exact hqueued hq'
    | insert jobId specJson now fresh room jobs keys =>
      rw [jobs, find?_insertOnce_of_find? hr] at hr'
      exact hqueued ((some.inj hr') ▸ hq')
  · intro hrun'
    cases hstep with
    | same => exact hrunning hrun'
    | claimed queued => exact hqueued queued
    | progressed running => exact hrunning running
    | renewed => exact hrunning hrun'
    | completed | failed | cancelledQueued | askedToStop | stopped | requeued | givenUp =>
      cases hrun'

theorem key_run {key : SubmissionKey T} (h : s.keys.find? k = some key) (codec : ResearchCodec P R)
    (queueLimit : ℕ) (ls : List (Label P R T)) :
    (Machine.run (step codec queueLimit) s ls).keys.find? k = some key := by
  induction ls generalizing s with
  | nil => exact h
  | cons l ls ih => exact ih ((change_step codec queueLimit s l).key h)

end Queue

section Rows

variable [LinearOrder T] {codec : ResearchCodec P R} {queueLimit : ℕ} {s s' : Repository T}
  {r r' : ResearchJob T} {k : String} {ls : List (Label P R T)}

section

variable (codec : ResearchCodec P R) (queueLimit : ℕ) (ls : List (Label P R T))
  (hr : s.jobs.find? k = some r)
include hr

/-- **A job at its end** stays as it is. -/
theorem ended_run (h : r.status.active = false) :
    (Machine.run (step codec queueLimit) s ls).jobs.find? k = some r := by
  have hkept : ∀ q q' : ResearchJob T, q.Step q' → q = r → q' = r := by
    rintro q q' hstep rfl
    exact hstep.eq_of_ended h
  have hrun : ∃ r', (Machine.run (step codec queueLimit) s ls).jobs.find? k = some r' ∧ r' = r :=
    kept_run (fun _ _ _ q q' _ _ _ hstep hq => hkept q q' hstep hq)
      (meets_of_forall (C := fun _ _ => True) (fun _ _ => trivial) s ls) hr rfl
  obtain ⟨r', hr', heq⟩ := hrun
  rwa [heq] at hr'

theorem cancelRequested_run (h : r.cancelRequested = true) :
    ∃ r', (Machine.run (step codec queueLimit) s ls).jobs.find? k = some r' ∧
      r'.cancelRequested = true :=
  kept_run (fun _ _ _ _ _ _ _ _ hstep h => hstep.cancelRequested h)
    (meets_of_forall (C := fun _ _ => True) (fun _ _ => trivial) s ls) hr h

end

/-- **An attempt that is not the row's** is not so after a run that does not draw its id. -/
theorem attemptId_run {attemptId : String} (hls : ∀ l ∈ ls, l.drawn ≠ some attemptId)
    (hr : s.jobs.find? k = some r) (h : r.attemptId ≠ some attemptId) :
    ∃ r', (Machine.run (step codec queueLimit) s ls).jobs.find? k = some r' ∧
      r'.attemptId ≠ some attemptId := by
  refine kept_run (C := fun _ l => l.drawn ≠ some attemptId) (fun s l k r r' hl hr hr' _ h => ?_)
    (meets_of_forall_mem hls s) hr h
  rcases (change_step codec queueLimit s l).attemptId hr hr' with
    heq | heq | ⟨id, hid, heq⟩
  · rwa [heq]
  · rw [heq]
    exact (some_ne_none attemptId).symm
  · rw [heq, ← hid]
    exact hl

omit [LinearOrder T] in
theorem key_of_enqueueIdempotent {spec : P} {key jobId id : String} {created : Bool} {now : T}
    (h : enqueueIdempotent codec queueLimit spec key jobId now s = .ok ((id, created), s')) :
    ∃ row, s'.keys.find? (stripKey key) = some row ∧ row.jobId = id := by
  rcases enqueueIdempotent_eq_ok h with ⟨row, hrow, rfl, _, rfl⟩ |
    ⟨encoded, hkey, rfl, _, _, _, rfl⟩
  · exact ⟨row, hrow, rfl⟩
  · exact ⟨⟨stripKey key, id, encoded, now⟩, find?_insertOnce_self hkey, rfl⟩

end Rows

/-- The step does not queue the job again. -/
def Spares [LinearOrder T] (jobId : String) (s : Repository T) (l : Label P R T) : Prop :=
  ∀ r ∈ s.jobs.find? jobId, ¬ l.Requeues r

/-- **A row that is not waiting and does not run** does not come to run in a run that does
not queue it again. -/
theorem not_running_run [LinearOrder T] {codec : ResearchCodec P R} {queueLimit : ℕ}
    {s : Repository T} {r r' : ResearchJob T} {jobId : String} {ls : List (Label P R T)}
    (hls : Machine.Meets (step codec queueLimit) (Spares jobId) s ls)
    (hr : s.jobs.find? jobId = some r) (hqueued : r.status ≠ .queued)
    (hrunning : r.status ≠ .running)
    (hr' : (Machine.run (step codec queueLimit) s ls).jobs.find? jobId = some r') :
    r'.status ≠ .running := by
  induction ls generalizing s r with
  | nil =>
    obtain rfl := some.inj (hr.symm.trans hr')
    exact hrunning
  | cons l ls ih =>
    have hc := change_step codec queueLimit s l
    obtain ⟨r1, hr1, _⟩ := hc.kept hr
    obtain ⟨hqueued1, hrunning1⟩ := hc.not_running (hls.1 r hr) hr hr1 hqueued hrunning
    exact ih hls.2 hr1 hqueued1 hrunning1 hr'

/-- **The research queue**, over every run. There are no more active jobs than the limit
allows, at most one is busy, and none has had more than two attempts; a job at its end
stays as it is.

An operation of an attempt that is not the job's changes nothing, and an attempt that
was given up is not the job's again unless its id is drawn a second time. A job whose
cancellation was accepted keeps the request and does not complete, and it does not run
again unless a recovery queued it while it was being cancelled. And one key gives one
job. -/
theorem research_queue [LinearOrder T] (codec : ResearchCodec P R) (queueLimit : ℕ)
    (ls : List (Label P R T)) : (after codec queueLimit ls).queued ≤ queueLimit ∧
      (∀ r ∈ (after codec queueLimit ls).jobs.rows, ∀ q ∈ (after codec queueLimit ls).jobs.rows,
        r.status.busy → q.status.busy → r = q) ∧
      (∀ r ∈ (after codec queueLimit ls).jobs.rows, r.attempts ≤ 2 ∧
        (r.status.active = false → ∀ ls', r ∈ (after codec queueLimit (ls ++ ls')).jobs.rows) ∧
        (r.cancelRequested = true → ∀ ls', ∃ r',
          (after codec queueLimit (ls ++ ls')).jobs.find? r.jobId = some r' ∧
            r'.cancelRequested = true ∧ r'.status ≠ .complete ∧
            (r.status ≠ .queued → r.status ≠ .running →
              Machine.Meets (step codec queueLimit) (Spares r.jobId) (after codec queueLimit ls)
                ls' → r'.status ≠ .running)) ∧
        ∀ attemptId, r.attemptId ≠ some attemptId →
          (∀ l : Label P R T, l.attempt = some (r.jobId, attemptId) →
            step codec queueLimit (after codec queueLimit ls) l = after codec queueLimit ls) ∧
          ∀ ls' : List (Label P R T), (∀ l ∈ ls', l.drawn ≠ some attemptId) → ∃ r',
            (after codec queueLimit (ls ++ ls')).jobs.find? r.jobId = some r' ∧
              r'.attemptId ≠ some attemptId) ∧
      ∀ (spec spec' : P) (key key' jobId jobId' id id' : String) (now now' : T)
        (created created' : Bool) (s s' : Repository T) (ls' : List (Label P R T)),
        stripKey key = stripKey key' →
        enqueueIdempotent codec queueLimit spec key jobId now (after codec queueLimit ls)
          = .ok ((id, created), s) →
        enqueueIdempotent codec queueLimit spec' key' jobId' now'
          (after codec queueLimit (ls ++ .enqueueIdempotent spec key jobId now :: ls'))
          = .ok ((id', created'), s') →
        id' = id ∧ created' = false := by
  have hsound := sound_after codec queueLimit ls
  have hrun : ∀ ls', after codec queueLimit (ls ++ ls')
      = Machine.run (step codec queueLimit) (after codec queueLimit ls) ls' :=
    fun ls' => run_append _ _ _ _
  refine ⟨hsound.room, hsound.one, fun r hr => ⟨(hsound.rows r hr).attempts, fun hended ls' => ?_,
    fun hcancel ls' => ?_, fun attemptId hne => ⟨fun l hl => ?_, fun ls' hls' => ?_⟩⟩, ?_⟩
  · rw [hrun]
    exact mem_of_find? (ended_run codec queueLimit ls' (find?_of_mem hr) hended)
  · obtain ⟨r', hr', hkept⟩ := cancelRequested_run codec queueLimit ls' (find?_of_mem hr) hcancel
    rw [hrun]
    refine ⟨r', hr', hkept, fun hcomplete => ?_, fun hqueued hrunning hspares => ?_⟩
    · have hrow := (sound_after codec queueLimit (ls ++ ls')).rows r' (hrun ls' ▸ mem_of_find? hr')
      exact absurd (hkept.symm.trans (hrow.kept hcomplete)) (by decide)
    · exact not_running_run hspares (find?_of_mem hr) hqueued hrunning hr'
  · refine step_eq_of_stale hl fun q hq hid => ?_
    obtain rfl : q = r := some.inj ((find?_of_mem hq).symm.trans (hid ▸ find?_of_mem hr))
    exact hne
  · rw [hrun]
    exact attemptId_run hls' (find?_of_mem hr) hne
  · intro spec spec' key key' jobId jobId' id id' now now' created created' s s' ls' hkey hfirst
      hsecond
    obtain ⟨row, hrow, hid⟩ := key_of_enqueueIdempotent hfirst
    have hstep : step codec queueLimit (after codec queueLimit ls)
        (.enqueueIdempotent spec key jobId now) = s := by
      show Repository.commit _ (Except.map _ _) = s
      rw [hfirst]
      rfl
    rw [hrun, run_cons, hstep] at hsecond
    have hfound := key_run hrow codec queueLimit ls'
    rcases enqueueIdempotent_eq_ok hsecond with ⟨row', hrow', rfl, hcreated, _⟩ | ⟨_, hnone, _⟩
    · rw [← hkey, hfound] at hrow'
      exact ⟨(congrArg _ (some.inj hrow').symm).trans hid, hcreated⟩
    · rw [← hkey, hfound] at hnone
      cases hnone

/-- A codec of specifications without fields. -/
def bareCodec : ResearchCodec Unit String where
  jobType _ := none
  isDatasetSync _ := false
  setJobType _ spec := spec
  reprText s := s
  specJson _ := .ok ""
  resultJson result := .ok result
  runId _ := ""

/-- A job that is asked to stop, and whose worker is then silent. -/
def stopAndStall : List (Label Unit String ℕ) :=
  [.enqueue () "j" 0, .claimNext "w" "a" 1, .requestCancel "j" .running 2]

/-- **A job that was asked to stop runs again**: it was recovered while it was being
cancelled. -/
theorem cancelling_runs_again : ((after bareCodec 10 stopAndStall).jobs.find? "j").map
        (fun r => (r.status, r.cancelRequested)) = some (.cancelling, true) ∧
      ((after bareCodec 10 (stopAndStall ++ [.recoverStale 5 6 6, .claimNext "w" "b" 7])).jobs.find?
        "j").map (fun r => (r.status, r.cancelRequested)) = some (.running, true) := by
  decide

end Qt.Research
