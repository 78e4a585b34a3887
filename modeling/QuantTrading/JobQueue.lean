import Mathlib.Data.Prod.Lex
import Mathlib.Data.String.Basic
import QuantTrading.Lib.Machine
import QuantTrading.Persistence

/-!
# The fenced job queue

The jobs of `qt.persistence.repository`: rows of one table, which any number
of workers enqueue, claim, keep alive, finish and cancel, each in one
transaction under the locks of the rows it touches. A claim hands out a lease
– a token and a deadline – and whoever comes back has to show the token.

The clocks are in the labels, one for each reading of `time.time_ns()`, and so
are the tokens that `uuid4` draws and the rows that another transaction holds
when `SKIP LOCKED` looks at them. Nothing here assumes that a clock advances,
that a token is new, or that the holder of a lease still lives.
-/

namespace Qt

open Except Table Option Machine

/-! ## Rows -/

inductive JobStatus | queued | running | completed | failed | cancelled | exhausted
deriving DecidableEq, Repr

/-- A job that will not run any more. -/
def JobStatus.terminal : JobStatus → Bool
  | .queued | .running => false
  | .completed | .failed | .cancelled | .exhausted => true

/-- A row of `jobs`, with its payload and its result as they are. -/
structure Job (P R : Type) where
  jobId : Sha256
  tenantId : String
  kind : String
  idempotencyKey : String
  payload : P
  sha256 : Sha256
  status : JobStatus
  createdNs : ℤ
  deadlineNs : ℤ
  leaseUntilNs : ℤ
  leaseToken : Option String
  attempts : ℕ
  cancelRequested : Bool
  result : Option R
deriving DecidableEq

/-- The columns that are written once, when the job is enqueued. -/
structure JobIdentity (P : Type) where
  jobId : Sha256
  tenantId : String
  kind : String
  idempotencyKey : String
  payload : P
  sha256 : Sha256
  createdNs : ℤ
  deadlineNs : ℤ

/-- What of a job never changes. -/
def Job.identity {P R : Type} (r : Job P R) : JobIdentity P :=
  ⟨r.jobId, r.tenantId, r.kind, r.idempotencyKey, r.payload, r.sha256, r.createdNs, r.deadlineNs⟩

/-- The table of jobs. -/
abbrev Jobs (P R : Type) := Table (Job.jobId : Job P R → Sha256)

/-- What the queue takes the checksum of. -/
inductive JobContent (P : Type)
  | identity (tenant kind key : String)
  | payload (payload : P)

variable {P R : Type} (jobs : Jobs P R) (tenant : String)

/-- `WHERE tenant_id = … AND job_id = …`. -/
def Jobs.row (jobId : Sha256) : Option (Job P R) :=
  (jobs.find? jobId).filter (fun r => r.tenantId = tenant)

/-! ## Transactions -/

/-- A job as a worker holds it: the columns of the row it claimed that it shows
again. -/
structure JobRef where
  jobId : Sha256
  tenantId : String
  leaseToken : Option String
deriving DecidableEq

/-- `Repository.assert_job_fence`, with its two readings of the clock. -/
def assertJobFence (fence : Sha256 × String) (now now' : ℤ) : Except Exc Unit :=
  match jobs.row tenant fence.1 with
  | none => .error (.conflict "job_lease_lost")
  | some active =>
    raiseIf (active.leaseToken ≠ some fence.2 ∨ active.status ≠ .running
        ∨ active.cancelRequested = true ∨ active.leaseUntilNs ≤ now ∨ active.deadlineNs ≤ now')
      (.conflict "job_lease_lost")

/-- `fence_job`, where a caller passes one. -/
def assertFence (fence : Option (Sha256 × String)) (now now' : ℤ) : Except Exc Unit :=
  match fence with
  | none => .ok ()
  | some fence => assertJobFence jobs tenant fence now now'

/-- The arguments of `Repository.enqueue`. -/
structure EnqueueCall (P : Type) where
  tenant : String
  kind : String
  payload : P
  key : String
  deadlineNs : Option ℤ
  fenceJob : Option (Sha256 × String)

/-- `deadline_ns or now + 900_000_000_000`: a deadline of zero is none. -/
def EnqueueCall.deadline (c : EnqueueCall P) (now : ℤ) : ℤ :=
  match c.deadlineNs with
  | none => now + 900000000000
  | some deadline => if deadline = 0 then now + 900000000000 else deadline

variable (checksum : JobContent P → Sha256)

/-- The row that `enqueue` inserts. -/
def EnqueueCall.row (c : EnqueueCall P) (now : ℤ) : Job P R where
  jobId := checksum (.identity c.tenant c.kind c.key)
  tenantId := c.tenant
  kind := c.kind
  idempotencyKey := c.key
  payload := c.payload
  sha256 := checksum (.payload c.payload)
  status := .queued
  createdNs := now
  deadlineNs := c.deadline now
  leaseUntilNs := 0
  leaseToken := none
  attempts := 0
  cancelRequested := false
  result := none

/-- `insert_once` of a job: a conflict on the primary key or on
`uq_v4_job_identity` does nothing. -/
def Jobs.insertJob (row : Job P R) : Jobs P R :=
  if ∃ r ∈ jobs.rows, (r.tenantId, r.kind, r.idempotencyKey)
      = (row.tenantId, row.kind, row.idempotencyKey) then jobs
  else jobs.insertOnce row

def enqueue (c : EnqueueCall P) (now fenceNow fenceNow' : ℤ) (jobs : Jobs P R) :
    Except Exc (Job P R × Jobs P R) := do
  raiseIf (c.key = "" ∨ 200 < c.key.length) (.valueError "invalid_idempotency_key")
  assertFence jobs c.tenant c.fenceJob fenceNow fenceNow'
  let row := c.row checksum now
  let jobs := jobs.insertJob row
  match jobs.find? row.jobId with
  | none => .error (.keyError "NoResultFound")
  | some found => do
    raiseIf (found.sha256 ≠ row.sha256) (.conflict "idempotency_key_payload_conflict")
    return (found, jobs)

def Jobs.job (jobId : Sha256) : Except Exc (Job P R) :=
  match jobs.row tenant jobId with
  | none => .error (.keyError "job_not_found")
  | some row => .ok row

/-- The arguments of `Repository.claim`. -/
structure ClaimCall where
  kind : String
  leaseSeconds : ℤ
  tenant : Option String
deriving DecidableEq

variable (c : ClaimCall)

/-- A job of the kind and the tenant asked for that nobody holds. -/
def ClaimCall.unheld (now : ℤ) (r : Job P R) : Prop :=
  r.kind = c.kind ∧ (r.status = .queued ∨ r.status = .running)
    ∧ (∀ tenant ∈ c.tenant, r.tenantId = tenant) ∧ r.leaseUntilNs ≤ now
deriving Decidable

/-- A job that is past its deadline, its attempts or its cancellation. -/
def Job.expired (now : ℤ) (r : Job P R) : Prop :=
  r.deadlineNs ≤ now ∨ 3 ≤ r.attempts ∨ r.cancelRequested = true
deriving Decidable

/-- The row of an expired job at its end. -/
def Job.abandoned (r : Job P R) : Job P R :=
  { r with status := if r.cancelRequested = true then .cancelled else .exhausted }

/-- The row of a job under a new lease. -/
def Job.leased (r : Job P R) (c : ClaimCall) (token : String) (now : ℤ) : Job P R :=
  { r with
    status := .running
    leaseToken := some token
    leaseUntilNs := now + c.leaseSeconds * 1000000000
    attempts := r.attempts + 1 }

/-- The jobs with those ended that expired and that nobody holds. -/
def Jobs.swept (busy : Sha256 → Bool) (now : ℤ) : Jobs P R :=
  jobs.updateWhere (fun r => c.unheld now r ∧ r.expired now ∧ busy r.jobId = false) Job.abandoned
    (fun _ => rfl)

/-- The jobs that can be handed out. -/
def Jobs.open (busy : Sha256 → Bool) (now : ℤ) : List (Job P R) :=
  jobs.rows.filter (fun r => c.unheld now r ∧ ¬ r.expired now ∧ busy r.jobId = false)

/-- The order in which jobs are handed out: the oldest first, and among equals
by their ids. -/
instance jobKeyPreorder : Preorder (ℤ ×ₗ String) :=
  @Prod.Lex.instPreorder ℤ String Int.instLinearOrder.toPreorder String.instLinearOrder.toPreorder

/-- `Repository.claim`. `busy` are the rows that other transactions hold when
the expired jobs are looked for, `busy'` when the job is. -/
def claim (busy busy' : Sha256 → Bool) (token : String) (now : ℤ) (jobs : Jobs P R) :
    Option (Job P R) × Jobs P R :=
  let jobs := jobs.swept c busy now
  match (jobs.open c busy' now).argmin (fun r => toLex (r.createdNs, r.jobId)) with
  | none => (none, jobs)
  | some row => (some (row.leased c token now), jobs.replace (row.leased c token now))

/-- The row of a job whose lease is extended. -/
def Job.kept (leaseSeconds now : ℤ) (r : Job P R) : Job P R :=
  { r with leaseUntilNs := now + leaseSeconds * 1000000000 }

def heartbeat (job : JobRef) (leaseSeconds now : ℤ) (jobs : Jobs P R) : Bool × Jobs P R :=
  match jobs.row job.tenantId job.jobId with
  | none => (false, jobs)
  | some row =>
    if row.leaseToken ≠ job.leaseToken ∨ row.status ≠ .running ∨ row.cancelRequested = true
        ∨ row.leaseUntilNs ≤ now ∨ row.deadlineNs ≤ now then (false, jobs)
    else (true, jobs.update job.jobId (Job.kept leaseSeconds now) (fun _ => rfl))

/-- The row of a job with its result. -/
def Job.finished (result : R) (failed : Bool) (r : Job P R) : Job P R :=
  { r with
    status := if r.cancelRequested = true then .cancelled
      else if failed = true then .failed else .completed
    result := some result
    leaseUntilNs := 0 }

/-- `Repository.finish`, up to the reading of the row that it returns. -/
def finish (job : JobRef) (result : R) (failed : Bool) (now now' : ℤ) (jobs : Jobs P R) :
    Except Exc (Jobs P R) :=
  match jobs.row job.tenantId job.jobId with
  | none => .error (.keyError "NoResultFound")
  | some row => do
    raiseIf (row.leaseToken ≠ job.leaseToken ∨ row.status ≠ .running ∨ row.leaseUntilNs ≤ now
      ∨ row.deadlineNs ≤ now') (.conflict "job_lease_lost")
    return jobs.update job.jobId (Job.finished result failed) (fun _ => rfl)

/-- The row of a job that is asked to stop: one that nobody runs has. -/
def Job.stopped (r : Job P R) : Job P R :=
  { r with
    cancelRequested := true
    status := if r.status = .queued then .cancelled else .running }

/-- `Repository.cancel`, up to the reading of the row that it returns. -/
def cancelJob (jobId : Sha256) (jobs : Jobs P R) : Except Exc (Jobs P R) :=
  match jobs.row tenant jobId with
  | none => .error (.keyError "job_not_found")
  | some row => .ok <|
    if row.status = .queued ∨ row.status = .running then
      jobs.update jobId Job.stopped (fun _ => rfl)
    else jobs

/-! ## The system -/

/-- **The queue**: the jobs, and the leases handed out, the last one first. -/
structure JobQueue (P R : Type) where
  jobs : Jobs P R
  leases : List (Sha256 × String)

namespace JobQueue

/-- The transactions on the queue, with what the host answers them. -/
inductive Label (P R : Type)
  | enqueue (c : EnqueueCall P) (now fenceNow fenceNow' : ℤ)
  | claim (c : ClaimCall) (busy busy' : Sha256 → Bool) (token : String) (now : ℤ)
  | heartbeat (job : JobRef) (leaseSeconds now : ℤ)
  | finish (job : JobRef) (result : R) (failed : Bool) (now now' : ℤ)
  | cancel (tenant : String) (jobId : Sha256)

/-- What a transaction leaves of the jobs: one that raises changes nothing. -/
def commit (jobs : Jobs P R) (result : Except Exc (Jobs P R)) : Jobs P R :=
  match result with
  | .ok jobs => jobs
  | .error _ => jobs

variable (checksum : JobContent P → Sha256)

def step (s : JobQueue P R) : Label P R → JobQueue P R
  | .enqueue c now fenceNow fenceNow' =>
    { s with jobs := commit s.jobs ((Qt.enqueue checksum c now fenceNow fenceNow' s.jobs).map (·.2)) }
  | .claim c busy busy' token now =>
    let (row, jobs) := Qt.claim c busy busy' token now s.jobs
    { s with jobs := jobs, leases := (row.map (fun r => (r.jobId, token))).toList ++ s.leases }
  | .heartbeat job leaseSeconds now => { s with jobs := (Qt.heartbeat job leaseSeconds now s.jobs).2 }
  | .finish job result failed now now' =>
    { s with jobs := commit s.jobs (Qt.finish job result failed now now' s.jobs) }
  | .cancel tenant jobId => { s with jobs := commit s.jobs (cancelJob tenant jobId s.jobs) }

/-- The token of the last lease of a job. -/
def lease (s : JobQueue P R) (jobId : Sha256) : Option String :=
  (s.leases.find? (fun x => x.1 = jobId)).map (·.2)

/-- The queue after a run from an empty table. -/
def after (ls : List (Label P R)) : JobQueue P R :=
  Machine.run (step checksum) ⟨.empty, []⟩ ls

end JobQueue

/-! ## What a step does to a row -/

open JobQueue

/-- **What a step can do to a job.** -/
inductive Job.Step (r : Job P R) : Label P R → Job P R → Prop
  | same {l : Label P R} : r.Step l r
  /-- Found expired, and nobody holds it. -/
  | abandon {c : ClaimCall} {busy busy' : Sha256 → Bool} {token : String} {now : ℤ}
      (unheld : c.unheld now r) (expired : r.expired now) :
      r.Step (.claim c busy busy' token now) r.abandoned
  /-- Handed out to a worker. -/
  | lease {c : ClaimCall} {busy busy' : Sha256 → Bool} {token : String} {now : ℤ}
      (unheld : c.unheld now r) (live : ¬ r.expired now) :
      r.Step (.claim c busy busy' token now) (r.leased c token now)
  /-- Kept by its holder. -/
  | keep {job : JobRef} {leaseSeconds now : ℤ} (token : r.leaseToken = job.leaseToken)
      (running : r.status = .running) :
      r.Step (.heartbeat job leaseSeconds now) (r.kept leaseSeconds now)
  /-- Finished by its holder. -/
  | finish {job : JobRef} {result : R} {failed : Bool} {now now' : ℤ} (id : r.jobId = job.jobId)
      (token : r.leaseToken = job.leaseToken) (running : r.status = .running)
      (lease : now < r.leaseUntilNs) (deadline : now' < r.deadlineNs) :
      r.Step (.finish job result failed now now') (r.finished result failed)
  /-- Cancelled, or asked to stop. -/
  | cancel {tenant : String} {jobId : Sha256} (live : r.status = .queued ∨ r.status = .running) :
      r.Step (.cancel tenant jobId) r.stopped

section Step

variable {checksum : JobContent P → Sha256} {s : JobQueue P R} {r r' : Job P R} {jobs : Jobs P R}

theorem Jobs.row_eq_some {tenant : String} {jobId : Sha256} :
    jobs.row tenant jobId = some r ↔ jobs.find? jobId = some r ∧ r.tenantId = tenant := by
  unfold Jobs.row
  rw [filter_eq_some_iff]
  simp

variable {k : Sha256} {l : Label P R}

/-- An update of one row does to the row found what it does, and nothing to the
others. -/
theorem Jobs.step_update {id : Sha256} {f : Job P R → Job P R}
    (h : ∀ row, jobs.find? id = some row → row.Step l (f row)) (hr : jobs.find? k = some r)
    (hf : ∀ r, (f r).jobId = r.jobId := by intro _; rfl) :
    ∃ r', (jobs.update id f hf).find? k = some r' ∧ r.Step l r' := by
  rw [Table.find?_update]
  by_cases hk : k = id
  · subst hk
    exact ⟨f r, by rw [if_pos rfl, hr]; rfl, h r hr⟩
  · exact ⟨r, by rw [if_neg hk, hr], .same⟩

theorem Jobs.find?_swept (jobs : Jobs P R) (c : ClaimCall) (busy : Sha256 → Bool) (now : ℤ)
    (k : Sha256) : (jobs.swept c busy now).find? k = (jobs.find? k).map (fun r =>
      if c.unheld now r ∧ r.expired now ∧ busy r.jobId = false then r.abandoned else r) :=
  find?_updateWhere _ _ _ _ _

theorem Job.not_unheld_abandoned (c : ClaimCall) (now : ℤ) (r : Job P R) :
    ¬ c.unheld now r.abandoned := by
  rintro ⟨_, hlive, _⟩
  have hstatus : r.abandoned.status = .cancelled ∨ r.abandoned.status = .exhausted := by
    unfold Job.abandoned
    split_ifs
    · exact .inl rfl
    · exact .inr rfl
  rcases hstatus with hs | hs <;> rw [hs] at hlive <;> simp at hlive

/-- **A claim** sweeps, and hands out a job that can be, if there is one. -/
theorem claim_cases (c : ClaimCall) (busy busy' : Sha256 → Bool) (token : String) (now : ℤ)
    (jobs : Jobs P R) : claim c busy busy' token now jobs = (none, jobs.swept c busy now) ∨ ∃ row,
      (jobs.swept c busy now).find? row.jobId = some row ∧ c.unheld now row ∧ ¬ row.expired now
      ∧ claim c busy busy' token now jobs = (some (row.leased c token now),
        (jobs.swept c busy now).replace (row.leased c token now)) := by
  unfold claim
  dsimp only
  cases hfind : ((jobs.swept c busy now).open c busy' now).argmin
      (fun r => toLex (r.createdNs, r.jobId)) with
  | none => exact .inl rfl
  | some row =>
    obtain ⟨hmem, hopen⟩ := List.mem_filter.mp (List.argmin_mem hfind)
    obtain ⟨hunheld, hlive, _⟩ := of_decide_eq_true hopen
    exact .inr ⟨row, find?_of_mem hmem, hunheld, hlive, rfl⟩

variable {row : Job P R}

theorem Jobs.find?_leased (hrow : jobs.find? row.jobId = some row) (c : ClaimCall) (token : String)
    (now : ℤ) (k : Sha256) : (jobs.replace (row.leased c token now)).find? k
      = if k = row.jobId then some (row.leased c token now) else jobs.find? k :=
  find?_replace (show jobs.find? (row.leased c token now).jobId = some row from hrow) k

variable {now : ℤ} {busy busy' : Sha256 → Bool} {c : ClaimCall} {token : String}

/-- **What a claim does to a row.** -/
theorem claim_step (hr : jobs.find? k = some r) :
    ∃ r', (claim c busy busy' token now jobs).2.find? k = some r'
      ∧ r.Step (.claim c busy busy' token now) r' := by
  have hswept := jobs.find?_swept c busy now k
  rw [hr, map_some] at hswept
  have hstep : r.Step (.claim c busy busy' token now)
      (if c.unheld now r ∧ r.expired now ∧ busy r.jobId = false then r.abandoned else r) := by
    split_ifs with h
    · exact .abandon h.1 h.2.1
    · exact .same
  obtain h | ⟨row, hrow, hunheld, hlive, h⟩ := claim_cases c busy busy' token now jobs
  · rw [h]
    exact ⟨_, hswept, hstep⟩
  · rw [h, Jobs.find?_leased hrow]
    by_cases hk : k = row.jobId
    · -- the row that is handed out was not swept
      rw [if_pos hk]
      rw [hk, hrow, Option.some.injEq] at hswept
      split_ifs at hswept with h
      · exact absurd (hswept ▸ hunheld) (r.not_unheld_abandoned c now)
      · subst hswept
        exact ⟨_, rfl, .lease hunheld hlive⟩
    · rw [if_neg hk]
      exact ⟨_, hswept, hstep⟩

theorem claim_find?_none (hnone : jobs.find? k = none) :
    (claim c busy busy' token now jobs).2.find? k = none := by
  have hswept := jobs.find?_swept c busy now k
  rw [hnone, map_none] at hswept
  obtain h | ⟨row, hrow, _, _, h⟩ := claim_cases c busy busy' token now jobs
  · rw [h]
    exact hswept
  · rw [h, Jobs.find?_leased hrow, if_neg, hswept]
    rintro rfl
    rw [hrow] at hswept
    cases hswept

theorem Jobs.find?_insertJob (hr : jobs.find? k = some r) :
    (jobs.insertJob row).find? k = some r := by
  unfold Jobs.insertJob
  split_ifs
  · exact hr
  · exact find?_insertOnce_of_find? hr

/-- A row found after an insertion only is the one inserted. -/
theorem Jobs.eq_of_find?_insertJob (hnone : jobs.find? k = none)
    (hr : (jobs.insertJob row).find? k = some r) : r = row := by
  unfold Jobs.insertJob at hr
  split_ifs at hr
  · rw [hnone] at hr
    cases hr
  · rw [find?_insertOnce] at hr
    split_ifs at hr
    · exact (some.inj hr).symm
    · rw [hnone] at hr
      cases hr

variable {jobs' : Jobs P R}

/-- **What `enqueue` does**, where it returns. -/
theorem enqueue_eq_ok {c : EnqueueCall P} {fenceNow fenceNow' : ℤ} :
    enqueue checksum c now fenceNow fenceNow' jobs = .ok (r, jobs') ↔
      ¬ (c.key = "" ∨ 200 < c.key.length)
      ∧ assertFence jobs c.tenant c.fenceJob fenceNow fenceNow' = .ok ()
      ∧ jobs' = jobs.insertJob (c.row checksum now)
      ∧ jobs'.find? (checksum (.identity c.tenant c.kind c.key)) = some r
      ∧ r.sha256 = checksum (.payload c.payload) := by
  unfold enqueue
  rw [raiseIf_bind_eq_ok, bind_eq_ok]
  refine and_congr_right (fun _ => ⟨fun ⟨_, hfence, h⟩ => ⟨hfence, ?_⟩, ?_⟩)
  · dsimp only at h
    split at h
    · cases h
    · rename_i found hfound
      obtain ⟨hsame, h⟩ := of_raiseIf h
      cases h
      exact ⟨rfl, hfound, not_not.mp hsame⟩
  · rintro ⟨hfence, rfl, hfound, hsame⟩
    refine ⟨(), hfence, ?_⟩
    show (match (jobs.insertJob (c.row checksum now)).find?
      (checksum (.identity c.tenant c.kind c.key)) with | none => _ | some found => _) = _
    rw [hfound]
    exact raiseIf_bind_eq_ok.mpr ⟨not_not.mpr hsame, rfl⟩

/-- What `finish` does, where it returns. -/
theorem finish_eq_ok {job : JobRef} {result : R} {failed : Bool} {now' : ℤ} :
    finish job result failed now now' jobs = .ok jobs' ↔
      ∃ row, jobs.row job.tenantId job.jobId = some row
        ∧ (row.leaseToken = job.leaseToken ∧ row.status = .running ∧ now < row.leaseUntilNs
          ∧ now' < row.deadlineNs)
        ∧ jobs' = jobs.update job.jobId (Job.finished result failed) (fun _ => rfl) := by
  unfold finish
  cases hrow : jobs.row job.tenantId job.jobId with
  | none => simp
  | some row =>
    dsimp only
    rw [raiseIf_bind_eq_ok]
    constructor
    · rintro ⟨hheld, h⟩
      cases h
      simp only [not_or, not_not, not_le] at hheld
      exact ⟨row, rfl, hheld, rfl⟩
    · rintro ⟨_, hrow, hheld, rfl⟩
      cases hrow
      simp only [not_or, not_not, not_le]
      exact ⟨hheld, rfl⟩

variable (checksum s) in
/-- **What a step does to the table**: nothing, an insertion, a change of a row, or a claim. -/
theorem JobQueue.step_jobs (l : Label P R) : (step checksum s l).jobs = s.jobs
    ∨ (∃ c now, (step checksum s l).jobs = s.jobs.insertJob (EnqueueCall.row checksum c now))
    ∨ (∃ id f hf, (step checksum s l).jobs = s.jobs.update id f hf
      ∧ ∀ r, s.jobs.find? id = some r → r.Step l (f r))
    ∨ ∃ c busy busy' token now, l = .claim c busy busy' token now := by
  have hsame : ∀ {tenant jobId row r}, s.jobs.row tenant jobId = some row →
      s.jobs.find? jobId = some r → row = r := fun hrow hr =>
    some.inj ((Jobs.row_eq_some.mp hrow).1.symm.trans hr)
  cases l with
  | enqueue c now fenceNow fenceNow' =>
    unfold step
    dsimp only
    cases henqueue : Qt.enqueue checksum c now fenceNow fenceNow' s.jobs with
    | error => exact .inl rfl
    | ok p => exact .inr (.inl ⟨c, now, (enqueue_eq_ok.mp henqueue).2.2.1⟩)
  | claim c busy busy' token now => exact .inr (.inr (.inr ⟨c, busy, busy', token, now, rfl⟩))
  | heartbeat job leaseSeconds now =>
    unfold step Qt.heartbeat
    dsimp only
    split
    · exact .inl rfl
    · rename_i row hrow
      split_ifs with hlost
      · exact .inl rfl
      · simp only [not_or, not_not] at hlost
        refine .inr (.inr (.inl ⟨_, Job.kept leaseSeconds now, fun _ => rfl, rfl,
          fun r hr => ?_⟩))
        obtain rfl := hsame hrow hr
        exact .keep hlost.1 hlost.2.1
  | finish job result failed now now' =>
    unfold step
    dsimp only
    cases hfinish : Qt.finish job result failed now now' s.jobs with
    | error => exact .inl rfl
    | ok jobs' =>
      obtain ⟨row, hrow, ⟨htoken, hrunning, hlease, hdeadline⟩, rfl⟩ := finish_eq_ok.mp hfinish
      refine .inr (.inr (.inl ⟨_, Job.finished result failed, fun _ => rfl, rfl,
        fun r hr => ?_⟩))
      obtain rfl := hsame hrow hr
      exact .finish (key_of_find? hr) htoken hrunning hlease hdeadline
  | cancel tenant jobId =>
    unfold step cancelJob
    dsimp only
    split
    · exact .inl rfl
    · rename_i row hrow
      by_cases hlive : row.status = .queued ∨ row.status = .running
      · rw [if_pos hlive]
        refine .inr (.inr (.inl ⟨_, Job.stopped, fun _ => rfl, rfl, fun r hr => ?_⟩))
        obtain rfl := hsame hrow hr
        exact .cancel hlive
      · rw [if_neg hlive]
        exact .inl rfl

variable (checksum) in
/-- **A row is kept, and moves by a step.** -/
theorem JobQueue.step_kept (l : Label P R) (hr : s.jobs.find? k = some r) :
    ∃ r', (step checksum s l).jobs.find? k = some r' ∧ r.Step l r' := by
  obtain h | ⟨c, now, h⟩ | ⟨id, f, hf, h, hstep⟩ | ⟨c, busy, busy', token, now, rfl⟩ :=
    step_jobs checksum s l
  · exact ⟨r, h ▸ hr, .same⟩
  · exact ⟨r, h ▸ Jobs.find?_insertJob hr, .same⟩
  · rw [h]
    exact Jobs.step_update hstep hr hf
  · exact claim_step hr

/-- **A new row was enqueued.** -/
theorem JobQueue.step_fresh (hnone : s.jobs.find? k = none)
    (hr : (step checksum s l).jobs.find? k = some r') :
    ∃ c now, r' = EnqueueCall.row checksum c now := by
  obtain h | ⟨c, now, h⟩ | ⟨id, f, hf, h, hstep⟩ | ⟨c, busy, busy', token, now, rfl⟩ :=
    step_jobs checksum s l
  · rw [h, hnone] at hr
    cases hr
  · exact ⟨c, now, Jobs.eq_of_find?_insertJob hnone (h ▸ hr)⟩
  · rw [h, Table.find?_update, hnone] at hr
    split_ifs at hr with hk
    rw [← hk, hnone] at hr
    cases hr
  · have hclaim : (Qt.claim c busy busy' token now s.jobs).2.find? k = some r' := hr
    rw [claim_find?_none hnone] at hclaim
    cases hclaim

end Step

/-! ## Leases -/

section Leases

variable {checksum : JobContent P → Sha256} {s : JobQueue P R} {r r' : Job P R}

/-- A claim gives a new token to the job it returns, and to no other. -/
theorem claim_leaseToken {c : ClaimCall} {busy busy' : Sha256 → Bool} {token : String} {now : ℤ}
    {jobs : Jobs P R} {k : Sha256} :
    ((claim c busy busy' token now jobs).2.find? k).bind (·.leaseToken)
      = if (claim c busy busy' token now jobs).1.map (·.jobId) = some k then some token
        else (jobs.find? k).bind (·.leaseToken) := by
  have hswept : ((jobs.swept c busy now).find? k).bind (·.leaseToken)
      = (jobs.find? k).bind (·.leaseToken) := by
    rw [Jobs.find?_swept]
    cases jobs.find? k with
    | none => rfl
    | some r =>
      show Job.leaseToken (ite _ _ _) = r.leaseToken
      split_ifs <;> rfl
  obtain h | ⟨row, hrow, _, _, h⟩ := claim_cases c busy busy' token now jobs
  · rw [h]
    exact hswept
  · rw [h, Jobs.find?_leased hrow]
    show _ = if some row.jobId = some k then _ else _
    by_cases hk : row.jobId = k
    · rw [if_pos hk.symm, if_pos (congrArg some hk)]
      rfl
    · rw [if_neg (fun h => hk h.symm), if_neg (fun h => hk (some.inj h)), hswept]

/-- **Every row shows the token of its last lease.** -/
def JobQueue.Leased (s : JobQueue P R) : Prop :=
  ∀ k, (s.jobs.find? k).bind (·.leaseToken) = s.lease k

variable {l : Label P R}

theorem Job.Step.leaseToken (h : r.Step l r')
    (hl : ∀ c busy busy' token now, l ≠ .claim c busy busy' token now) :
    r'.leaseToken = r.leaseToken := by
  cases h with
  | same | abandon | keep | finish | cancel => rfl
  | lease => exact absurd rfl (hl _ _ _ _ _)

theorem JobQueue.Leased.kept (h : s.Leased)
    (hl : ∀ c busy busy' token now, l ≠ .claim c busy busy' token now)
    (hleases : (step checksum s l).leases = s.leases) : (step checksum s l).Leased := by
  intro k
  have hlease : (step checksum s l).lease k = s.lease k := by
    unfold JobQueue.lease
    rw [hleases]
  rw [hlease, ← h k]
  cases hr : s.jobs.find? k with
  | some r =>
    obtain ⟨r', hr', hstep⟩ := step_kept checksum l hr
    rw [hr']
    exact hstep.leaseToken hl
  | none =>
    cases hr' : (step checksum s l).jobs.find? k with
    | none => rfl
    | some r' =>
      obtain ⟨c, now, rfl⟩ := step_fresh hr hr'
      rfl

/-- **Tokens are those of the last leases**, after a step. -/
theorem JobQueue.Leased.step (h : s.Leased) (l : Label P R) : (step checksum s l).Leased := by
  cases l with
  | claim c busy busy' token now =>
    intro k
    have htoken : ((Qt.claim c busy busy' token now s.jobs).2.find? k).bind (·.leaseToken)
        = if (Qt.claim c busy busy' token now s.jobs).1.map (·.jobId) = some k then some token
          else s.lease k := by
      rw [claim_leaseToken, h k]
    refine htoken.trans ?_
    unfold JobQueue.lease
    show _ = Option.map _ (List.find? _ (((Qt.claim c busy busy' token now s.jobs).1.map
      (fun r => (r.jobId, token))).toList ++ s.leases))
    cases (Qt.claim c busy busy' token now s.jobs).1 with
    | none => rfl
    | some row =>
      show (if some row.jobId = some k then _ else _) = Option.map _ (List.find? _ ((row.jobId, token)
        :: s.leases))
      by_cases hk : row.jobId = k
      · rw [if_pos (congrArg some hk), List.find?_cons_of_pos (by simpa using hk)]
        rfl
      · rw [if_neg (fun he => hk (some.inj he)), List.find?_cons_of_neg (by simpa using hk)]
  | enqueue | heartbeat | finish | cancel => exact h.kept (fun _ _ _ _ _ => by simp) rfl

end Leases

/-! ## Invariants of a row -/

section Rows

variable {checksum : JobContent P → Sha256} {s : JobQueue P R} {r r' : Job P R}

/-- **What holds of every job**: it has had three attempts at most, its result
is the one of a job at its end, one that runs has a token, and one that was
asked to stop does not complete. -/
structure Job.Sound (r : Job P R) : Prop where
  attempts : r.attempts ≤ 3
  result : r.status.terminal = false → r.result = none
  token : r.status = .running → r.leaseToken ≠ none
  stopped : r.status = .completed → r.cancelRequested = false

theorem ClaimCall.terminal_of_unheld {c : ClaimCall} {now : ℤ} (h : c.unheld now r) :
    r.status.terminal = false := by
  rcases h.2.1 with hs | hs <;> rw [hs] <;> rfl

variable {l : Label P R}

/-- **A job at its end does not move.** -/
theorem Job.Step.eq_of_terminal (h : r.Step l r') (hr : r.status.terminal = true) : r' = r := by
  have hlive : r.status.terminal ≠ false := by simp [hr]
  cases h with
  | same => rfl
  | abandon unheld => exact absurd (ClaimCall.terminal_of_unheld unheld) hlive
  | lease unheld => exact absurd (ClaimCall.terminal_of_unheld unheld) hlive
  | keep _ running => exact absurd (by rw [running]; rfl) hlive
  | finish _ _ running => exact absurd (by rw [running]; rfl) hlive
  | cancel live => rcases live with hs | hs <;> exact absurd (by rw [hs]; rfl) hlive

theorem Job.Step.sound (h : r.Step l r') (hr : r.Sound) : r'.Sound := by
  obtain ⟨hattempts, hresult, htoken, hstopped⟩ := hr
  cases h with
  | same => exact ⟨hattempts, hresult, htoken, hstopped⟩
  | abandon unheld =>
    refine ⟨hattempts, fun _ => hresult (ClaimCall.terminal_of_unheld unheld), ?_, ?_⟩ <;>
    · show (ite _ _ _ : JobStatus) = _ → _
      split_ifs <;> simp
  | lease unheld live =>
    refine ⟨?_, fun _ => hresult (ClaimCall.terminal_of_unheld unheld), fun _ => by simp [leased],
      fun hs => by cases hs⟩
    unfold expired at live
    simp only [not_or, not_le] at live
    exact live.2.1
  | keep => exact ⟨hattempts, hresult, htoken, hstopped⟩
  | finish _ _ running =>
    refine ⟨hattempts, ?_, ?_, ?_⟩
    · show JobStatus.terminal (ite _ _ _) = false → _
      split_ifs <;> simp [JobStatus.terminal]
    · show (ite _ _ _ : JobStatus) = _ → _
      split_ifs <;> simp
    · show (ite _ _ _ : JobStatus) = _ → r.cancelRequested = false
      split_ifs with hc <;> simp [hc]
  | cancel live =>
    have hlive : r.status.terminal = false := by rcases live with hs | hs <;> rw [hs] <;> rfl
    refine ⟨hattempts, fun _ => hresult hlive, ?_, ?_⟩
    · show (ite _ _ _ : JobStatus) = _ → _
      split_ifs with hq
      · simp
      · exact fun _ => htoken (live.resolve_left hq)
    · show (ite _ _ _ : JobStatus) = _ → _
      split_ifs <;> simp

theorem EnqueueCall.row_sound (c : EnqueueCall P) (now : ℤ) :
    Job.Sound (c.row checksum now : Job P R) :=
  ⟨Nat.zero_le 3, fun _ => rfl, fun h => (by cases h), fun h => (by cases h)⟩

/-- How a job can be later on. -/
structure Job.Later (r r' : Job P R) : Prop where
  identity : r'.identity = r.identity
  terminal : r.status.terminal = true → r' = r
  cancelRequested : r.cancelRequested = true → r'.cancelRequested = true

theorem Job.Step.later (h : r.Step l r') : r.Later r' where
  identity := by cases h <;> rfl
  terminal := h.eq_of_terminal
  cancelRequested := by
    intro hc
    cases h with
    | same | abandon | lease | keep | finish => exact hc
    | cancel => rfl

theorem Job.Later.trans {r'' : Job P R} (h : r.Later r') (h' : r'.Later r'') : r.Later r'' where
  identity := h'.identity.trans h.identity
  terminal hr := by
    obtain rfl := h.terminal hr
    exact h'.terminal hr
  cancelRequested hc := h'.cancelRequested (h.cancelRequested hc)

/-- **What holds of the queue** in every reachable state. -/
structure JobQueue.Sound (s : JobQueue P R) : Prop where
  leased : s.Leased
  row : ∀ r ∈ s.jobs.rows, r.Sound

theorem JobQueue.Sound.step (h : s.Sound) (l : Label P R) : (step checksum s l).Sound where
  leased := h.leased.step l
  row := by
    intro r' hr'
    have hfind := find?_of_mem hr'
    cases hr : s.jobs.find? r'.jobId with
    | some r =>
      obtain ⟨_, hkept, hstep⟩ := step_kept checksum l hr
      obtain rfl := some.inj (hfind.symm.trans hkept)
      exact hstep.sound (h.row r (mem_of_find? hr))
    | none =>
      obtain ⟨c, now, rfl⟩ := step_fresh hr hfind
      exact c.row_sound now

variable (checksum)

/-- **Every reachable queue is sound.** -/
theorem JobQueue.sound_after (ls : List (Label P R)) : (after checksum ls).Sound := by
  refine inv_run JobQueue.Sound (fun s l h => h.step l) ⟨fun _ => rfl, ?_⟩ ls
  intro _ h
  cases h

theorem JobQueue.after_append (ls ls' : List (Label P R)) :
    after checksum (ls ++ ls') = Machine.run (step checksum) (after checksum ls) ls' :=
  run_append _ _ _ _

variable {checksum}

variable (checksum) in
/-- **A job stays, and is what it was later on**, over every run. -/
theorem JobQueue.later_run {k : Sha256} (hr : s.jobs.find? k = some r) (ls : List (Label P R)) :
    ∃ r', (Machine.run (step checksum) s ls).jobs.find? k = some r' ∧ r.Later r' := by
  induction ls generalizing s r with
  | nil => exact ⟨r, hr, rfl, fun _ => rfl, id⟩
  | cons l ls ih =>
    obtain ⟨r₁, hr₁, hstep⟩ := step_kept checksum l hr
    obtain ⟨r₂, hr₂, hlater⟩ := ih hr₁
    exact ⟨r₂, hr₂, hstep.later.trans hlater⟩

end Rows

/-! ## The queue over every run -/

section Runs

variable {checksum : JobContent P → Sha256} {s : JobQueue P R} {r r' : Job P R}

/-- The two payloads are one, unless their checksums collide. -/
def JobContent.Distinguishes (checksum : JobContent P → Sha256) (p q : P) : Prop :=
  checksum (.payload p) = checksum (.payload q) → p = q

variable {now : ℤ} {jobId : Sha256} {now' : ℤ} {tenant : String}

/-- **Only the token of the last lease passes the fence.** -/
theorem JobQueue.Sound.lease_of_fence (h : s.Sound) {token : String}
    (hfence : assertJobFence s.jobs tenant (jobId, token) now now' = .ok ()) :
    s.lease jobId = some token := by
  unfold assertJobFence at hfence
  split at hfence
  · cases hfence
  · rename_i active hactive
    rw [raiseIf_eq_ok] at hfence
    simp only [not_or, not_not] at hfence
    rw [← h.leased jobId, (Jobs.row_eq_some.mp hactive).1]
    exact hfence.1

variable {job : JobRef} {jobs' : Jobs P R}

/-- **Who finishes a job holds its live lease**, the last one handed out, and
the job has no result yet. -/
theorem JobQueue.Sound.held_of_finish (h : s.Sound) {result : R} {failed : Bool}
    (hfinish : Qt.finish job result failed now now' s.jobs = .ok jobs') :
    ∃ r token, s.jobs.find? job.jobId = some r ∧ job.leaseToken = some token
      ∧ s.lease job.jobId = some token ∧ now < r.leaseUntilNs ∧ now' < r.deadlineNs
      ∧ r.result = none ∧ jobs'.find? job.jobId = some (r.finished result failed) := by
  obtain ⟨r, hrow, ⟨htoken, hrunning, hlease, hdeadline⟩, rfl⟩ := finish_eq_ok.mp hfinish
  obtain ⟨hr, _⟩ := Jobs.row_eq_some.mp hrow
  have hsound := h.row r (mem_of_find? hr)
  obtain ⟨token, hsome⟩ := ne_none_iff_exists'.mp (hsound.token hrunning)
  refine ⟨r, token, hr, htoken.symm.trans hsome, ?_, hlease, hdeadline,
    hsound.result (by rw [hrunning]; rfl), ?_⟩
  · rw [← h.leased job.jobId, hr]
    exact hsome
  · exact find?_update_self hr

theorem Job.terminal_finished (r : Job P R) (result : R) (failed : Bool) :
    (r.finished result failed).status.terminal = true := by
  show JobStatus.terminal (ite _ _ _) = true
  split_ifs <;> rfl

variable {jobs : Jobs P R}

theorem finish_of_terminal (hr : jobs.find? job.jobId = some r)
    (hterminal : r.status.terminal = true) (result : R) (failed : Bool) (now now' : ℤ)
    (jobs' : Jobs P R) : finish job result failed now now' jobs ≠ .ok jobs' := by
  intro hfinish
  obtain ⟨row, hrow, ⟨_, hrunning, _⟩, _⟩ := finish_eq_ok.mp hfinish
  obtain rfl := some.inj ((Jobs.row_eq_some.mp hrow).1.symm.trans hr)
  rw [hrunning] at hterminal
  cases hterminal

/-- **Only a finish writes a result.** -/
theorem Job.Step.result {l : Label P R} (h : r.Step l r') :
    r'.result = r.result ∨ ∃ job result failed now now', l = .finish job result failed now now'
      ∧ job.jobId = r.jobId ∧ r'.result = some result := by
  cases h with
  | same | abandon | lease | keep | cancel => exact .inl rfl
  | finish id => exact .inr ⟨_, _, _, _, _, rfl, id.symm, rfl⟩

theorem cancelJob_eq_ok (h : cancelJob tenant jobId jobs = .ok jobs') :
    ∃ r', jobs'.find? jobId = some r' ∧ (r'.cancelRequested = true ∨ r'.status.terminal = true) := by
  unfold cancelJob at h
  split at h
  · cases h
  · rename_i row hrow
    obtain ⟨hr, _⟩ := Jobs.row_eq_some.mp hrow
    by_cases hlive : row.status = .queued ∨ row.status = .running
    · rw [if_pos hlive] at h
      cases h
      exact ⟨row.stopped, find?_update_self hr, .inl rfl⟩
    · rw [if_neg hlive] at h
      cases h
      refine ⟨row, hr, .inr ?_⟩
      revert hlive
      cases row.status <;> simp [JobStatus.terminal]

/-- **A key is enqueued once**: on a row that is there, `enqueue` returns the
row for the payload it is of, and refuses any other. -/
theorem enqueue_of_find? {c : EnqueueCall P} {fenceNow fenceNow' : ℤ}
    (hkey : ¬ (c.key = "" ∨ 200 < c.key.length))
    (hfence : assertFence jobs c.tenant c.fenceJob fenceNow fenceNow' = .ok ())
    (hr : jobs.find? (checksum (.identity c.tenant c.kind c.key)) = some r) :
    enqueue checksum c now fenceNow fenceNow' jobs
      = if r.sha256 = checksum (.payload c.payload) then .ok (r, jobs.insertJob (c.row checksum now))
        else .error (.conflict "idempotency_key_payload_conflict") := by
  split_ifs with hsame
  · exact enqueue_eq_ok.mpr ⟨hkey, hfence, rfl, Jobs.find?_insertJob hr, hsame⟩
  · unfold enqueue
    rw [show raiseIf (c.key = "" ∨ 200 < c.key.length) _ = (.ok () : Except Exc Unit) from
      raiseIf_eq_ok.mpr hkey, ok_bind, hfence, ok_bind]
    dsimp only
    have hfound : (jobs.insertJob (c.row checksum now)).find? (c.row checksum now : Job P R).jobId
        = some r := Jobs.find?_insertJob hr
    rw [hfound]
    show (raiseIf (r.sha256 ≠ checksum (.payload c.payload)) _ >>= _) = _
    unfold raiseIf
    rw [if_pos hsame]
    rfl

end Runs

/-- **The queue fences its jobs**, whatever the workers do and the clocks show:
one token passes the fence of a job, that of its last lease; a job is attempted
three times at most, and does not move from its end; a result is written by
the holder of the live lease, and never again; a job that is asked to stop
does not complete; and a key stands for one job of one payload. -/
theorem JobQueue.fenced (checksum : JobContent P → Sha256) (ls : List (Label P R)) :
    (∀ tenant tenant' jobId token token' now now' time time',
      assertJobFence (after checksum ls).jobs tenant (jobId, token) now now' = .ok () →
      assertJobFence (after checksum ls).jobs tenant' (jobId, token') time time' = .ok () →
      token = token' ∧ (after checksum ls).lease jobId = some token)
    ∧ (∀ r ∈ (after checksum ls).jobs.rows, r.attempts ≤ 3)
    ∧ (∀ r ∈ (after checksum ls).jobs.rows, r.status.terminal = true →
      ∀ ls', (after checksum (ls ++ ls')).jobs.find? r.jobId = some r)
    ∧ (∀ r ∈ (after checksum ls).jobs.rows, ∀ l r',
      (after checksum (ls ++ [l])).jobs.find? r.jobId = some r' → r'.result = r.result
        ∨ ∃ job result failed now now', l = .finish job result failed now now'
          ∧ job.jobId = r.jobId ∧ r'.result = some result)
    ∧ (∀ job result failed now now' jobs',
      Qt.finish job result failed now now' (after checksum ls).jobs = .ok jobs' →
      (∃ r token, (after checksum ls).jobs.find? job.jobId = some r ∧ job.leaseToken = some token
        ∧ (after checksum ls).lease job.jobId = some token ∧ now < r.leaseUntilNs
        ∧ now' < r.deadlineNs ∧ r.result = none
        ∧ jobs'.find? job.jobId = some (r.finished result failed))
      ∧ ∀ ls' job' result' failed' time time' jobs'', job'.jobId = job.jobId →
        Qt.finish job' result' failed' time time'
          (after checksum (ls ++ .finish job result failed now now' :: ls')).jobs ≠ .ok jobs'')
    ∧ (∀ tenant jobId jobs', cancelJob tenant jobId (after checksum ls).jobs = .ok jobs' →
      ∃ r', jobs'.find? jobId = some r' ∧ (r'.cancelRequested = true ∨ r'.status.terminal = true))
    ∧ (∀ r ∈ (after checksum ls).jobs.rows, r.cancelRequested = true → ∀ ls' r',
      (after checksum (ls ++ ls')).jobs.find? r.jobId = some r' → r'.status ≠ .completed)
    ∧ ∀ c now fenceNow fenceNow' r jobs',
      Qt.enqueue checksum c now fenceNow fenceNow' (after checksum ls).jobs = .ok (r, jobs') →
      ∀ ls' c' time time' time'', c'.tenant = c.tenant → c'.kind = c.kind → c'.key = c.key →
      assertFence (after checksum (ls ++ .enqueue c now fenceNow fenceNow' :: ls')).jobs c'.tenant
        c'.fenceJob time' time'' = .ok () →
      (c'.payload = c.payload → ∃ r' jobs'', Qt.enqueue checksum c' time time' time''
        (after checksum (ls ++ .enqueue c now fenceNow fenceNow' :: ls')).jobs = .ok (r', jobs'')
        ∧ r'.identity = r.identity)
      ∧ (c'.payload ≠ c.payload → JobContent.Distinguishes checksum c'.payload c.payload →
        Qt.enqueue checksum c' time time' time''
          (after checksum (ls ++ .enqueue c now fenceNow fenceNow' :: ls')).jobs
          = .error (.conflict "idempotency_key_payload_conflict")) := by
  have hsound := sound_after checksum ls
  refine ⟨?_, fun r hr => (hsound.row r hr).attempts, ?_, ?_, ?_, fun _ _ _ => cancelJob_eq_ok, ?_,
    ?_⟩
  · intro tenant tenant' jobId token token' now now' time time' h h'
    have hlease := hsound.lease_of_fence h
    exact ⟨some.inj (hlease.symm.trans (hsound.lease_of_fence h')), hlease⟩
  · intro r hr hterminal ls'
    rw [after_append]
    obtain ⟨r', hr', hlater⟩ := later_run checksum (find?_of_mem hr) ls'
    rw [hr', hlater.terminal hterminal]
  · intro r hr l r' hr'
    rw [after_append] at hr'
    obtain ⟨_, hkept, hstep⟩ := step_kept checksum l (find?_of_mem hr)
    obtain rfl := some.inj (hr'.symm.trans hkept)
    exact hstep.result
  · intro job result failed now now' jobs' hfinish
    obtain ⟨r, token, hheld⟩ := hsound.held_of_finish hfinish
    refine ⟨⟨r, token, hheld⟩, fun ls' job' result' failed' time time' jobs'' hid => ?_⟩
    have hdone : (step checksum (after checksum ls) (.finish job result failed now now')).jobs.find?
        job.jobId = some (r.finished result failed) := by
      show (commit _ (Qt.finish job result failed now now' (after checksum ls).jobs)).find? _ = _
      rw [hfinish]
      exact hheld.2.2.2.2.2.2
    obtain ⟨r', hr', hlater⟩ := later_run checksum hdone ls'
    rw [after_append, run_cons]
    refine finish_of_terminal (hid ▸ hr' : Table.find? _ job'.jobId = some r') ?_ _ _ _ _ _
    rw [hlater.terminal (r.terminal_finished result failed)]
    exact r.terminal_finished result failed
  · intro r hr hcancel ls' r' hr' hcompleted
    rw [after_append] at hr'
    obtain ⟨_, hkept, hlater⟩ := later_run checksum (find?_of_mem hr) ls'
    obtain rfl := some.inj (hr'.symm.trans hkept)
    have hstopped := ((sound_after checksum (ls ++ ls')).row r' (by
      rw [after_append]
      exact mem_of_find? hkept)).stopped hcompleted
    rw [hlater.cancelRequested hcancel] at hstopped
    cases hstopped
  · intro c now fenceNow fenceNow' r jobs' henqueue ls' c' time time' time'' htenant hkind hkey hfence
    obtain ⟨hvalid, _, rfl, hr, hsame⟩ := enqueue_eq_ok.mp henqueue
    have hdone : (step checksum (after checksum ls) (.enqueue c now fenceNow fenceNow')).jobs.find?
        (checksum (.identity c.tenant c.kind c.key)) = some r := by
      show (commit _ ((Qt.enqueue checksum c now fenceNow fenceNow' (after checksum ls).jobs).map
        (·.2))).find? _ = _
      rw [henqueue]
      exact hr
    obtain ⟨r', hr', hlater⟩ := later_run checksum hdone ls'
    rw [after_append, run_cons] at hfence ⊢
    rw [← htenant, ← hkind, ← hkey] at hr'
    rw [enqueue_of_find? (hkey ▸ hvalid) hfence hr']
    have hdigest : r'.sha256 = checksum (.payload c.payload) :=
      (congrArg JobIdentity.sha256 hlater.identity :).trans hsame
    refine ⟨fun hpayload => ⟨r', _, if_pos (by rw [hdigest, hpayload]), hlater.identity⟩,
      fun hpayload hdistinct => if_neg (fun he => hpayload (hdistinct ?_))⟩
    rw [← he, hdigest]

end Qt
