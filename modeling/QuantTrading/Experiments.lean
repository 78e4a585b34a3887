import QuantTrading.JobQueue

/-!
# Campaigns, trials and the holdout grant

The experiment registry of `qt.experiments.registry`. A campaign owns a window
of holdout data of its dataset and may try a limited number of candidates; each
trial ends once, by its worker or because its job in the queue has; and when all
trials have ended, one grant opens the holdout window.

Every operation is one transaction under the lock of the rows it decides on,
and the jobs go on as the queue has them. What JSON values look like is left
open: proposals, protocols and results are parameters, with the digests that
are taken of them.
-/

namespace Qt

open Except List Table Machine

/-! ## Rows -/

structure CampaignPayload (Q : Type) where
  datasetId : String
  holdoutStartNs : ℤ
  holdoutEndNs : ℤ
  protocol : Q
  candidateLimit : ℤ
deriving DecidableEq

/-- A row of `experiment_campaigns`. -/
structure Campaign (Q : Type) where
  tenantId : String
  campaignId : String
  datasetId : String
  holdoutStartNs : ℤ
  holdoutEndNs : ℤ
  candidateLimit : ℤ
  payload : CampaignPayload Q
  sha256 : Sha256
  createdNs : ℤ
deriving DecidableEq

def Campaign.key {Q : Type} (c : Campaign Q) : String × String := (c.tenantId, c.campaignId)

inductive TrialStatus | submitted | completed | failed | aborted | rejected
deriving DecidableEq, Repr

/-- The result of a trial: what its worker hands in, or what the queue knows of
its job. -/
inductive TrialResult (W : Type)
  | worker (result : W)
  | queue (jobId : Sha256) (queueStatus : JobStatus) (attempts : ℕ) (queueResultHash : Sha256)
deriving DecidableEq

/-- A row of `experiment_trials`. -/
structure Trial (V W : Type) where
  tenantId : String
  trialId : String
  campaignId : String
  payload : V
  sha256 : Sha256
  status : TrialStatus
  result : Option (TrialResult W)
  resultSha256 : Option Sha256
  createdNs : ℤ
deriving DecidableEq

def Trial.key {V W : Type} (t : Trial V W) : String × String := (t.tenantId, t.trialId)

/-- A row of `campaign_holdout_grants`. -/
structure HoldoutGrant where
  tenantId : String
  campaignId : String
  grantId : String
  actorId : String
  reason : String
  grantedNs : ℤ
deriving DecidableEq

def HoldoutGrant.key (g : HoldoutGrant) : String × String := (g.tenantId, g.campaignId)

/-- What the registry asks of the JSON values: their digests, whether a proposal
is empty, and which trial a job is of. -/
structure TrialCodec (P R Q V W : Type) where
  jobChecksum : JobContent P → Sha256
  jobResultChecksum : Option R → Sha256
  campaignChecksum : CampaignPayload Q → Sha256
  trialChecksum : String → V → Sha256
  resultChecksum : TrialStatus → TrialResult W → Sha256
  noProposal : V → Bool
  experimentHash : P → Option String

/-- **The registry**: its tables beside the queue, and the grants it has handed
out. -/
structure Experiments (P R Q V W : Type) where
  queue : JobQueue P R
  datasetGuards : Table (id : String × String → String × String)
  campaigns : Table (Campaign.key (Q := Q))
  trials : Table (Trial.key (V := V) (W := W))
  holdoutGrants : Table HoldoutGrant.key
  issued : List HoldoutGrant

variable {P R Q V W : Type}

/-! ## Transactions -/

structure CampaignCall (Q : Type) where
  tenantId : String
  campaignId : String
  payload : CampaignPayload Q

variable (codec : TrialCodec P R Q V W)

/-- The row that `register_campaign` inserts. -/
def CampaignCall.row (c : CampaignCall Q) (now : ℤ) : Campaign Q where
  tenantId := c.tenantId
  campaignId := c.campaignId
  datasetId := c.payload.datasetId
  holdoutStartNs := c.payload.holdoutStartNs
  holdoutEndNs := c.payload.holdoutEndNs
  candidateLimit := c.payload.candidateLimit
  payload := c.payload
  sha256 := codec.campaignChecksum c.payload
  createdNs := now

/-- The windows of two campaigns of one dataset have an instant in common. -/
def Campaign.Overlaps (c d : Campaign Q) : Prop :=
  c.tenantId = d.tenantId ∧ c.datasetId = d.datasetId ∧ c.holdoutStartNs < d.holdoutEndNs ∧
    d.holdoutStartNs < c.holdoutEndNs
deriving Decidable

theorem Campaign.Overlaps.symm {c d : Campaign Q} (h : c.Overlaps d) : d.Overlaps c :=
  ⟨h.1.symm, h.2.1.symm, h.2.2.2, h.2.2.1⟩

def registerCampaign (c : CampaignCall Q) (now : ℤ) (s : Experiments P R Q V W) :
    Except Exc (Campaign Q × Experiments P R Q V W) := do
  raiseIf (c.tenantId = "" ∨ c.campaignId = "" ∨ c.payload.datasetId = "")
    (.valueError "campaign_identity_required")
  raiseIf (¬ (0 ≤ c.payload.holdoutStartNs ∧ c.payload.holdoutStartNs < c.payload.holdoutEndNs)
    ∨ ¬ (1 ≤ c.payload.candidateLimit ∧ c.payload.candidateLimit ≤ 30))
    (.valueError "invalid_campaign_bounds")
  let row := c.row codec now
  let s := { s with datasetGuards := s.datasetGuards.insertOnce (c.tenantId, c.payload.datasetId) }
  match s.campaigns.find? row.key with
  | some existing => do
    raiseIf (existing.sha256 ≠ row.sha256) (.conflict "campaign_identity_conflict")
    return (existing, s)
  | none => do
    raiseIf (∃ other ∈ s.campaigns.rows, other.Overlaps row)
      (.conflict "holdout_window_already_owned_by_campaign")
    return (row, { s with campaigns := s.campaigns.insertOnce row })

structure TrialCall (V : Type) where
  tenantId : String
  campaignId : String
  trialId : String
  proposal : V
  fenceJob : Option (Sha256 × String)

/-- The row that `register_trial` inserts. -/
def TrialCall.row (c : TrialCall V) (now : ℤ) : Trial V W where
  tenantId := c.tenantId
  trialId := c.trialId
  campaignId := c.campaignId
  payload := c.proposal
  sha256 := codec.trialChecksum c.campaignId c.proposal
  status := .submitted
  result := none
  resultSha256 := none
  createdNs := now

variable (s : Experiments P R Q V W)

def Experiments.population (campaign : String × String) : List (Trial V W) :=
  s.trials.rows.filter (fun t => (t.tenantId, t.campaignId) = campaign)

/-- `register_trial`, in its own transaction or in that of a caller. -/
def registerTrial (c : TrialCall V) (now fenceNow fenceNow' : ℤ) (s : Experiments P R Q V W) :
    Except Exc (Trial V W × Experiments P R Q V W) := do
  raiseIf (c.trialId = "" ∨ codec.noProposal c.proposal)
    (.valueError "trial_identity_and_proposal_required")
  assertFence s.queue.jobs c.tenantId c.fenceJob fenceNow fenceNow'
  match s.campaigns.find? (c.tenantId, c.campaignId) with
  | none => .error (.keyError "campaign_not_found")
  | some campaign =>
    let row := c.row codec now
    match s.trials.find? row.key with
    | some existing => do
      raiseIf (existing.sha256 ≠ row.sha256) (.conflict "trial_identity_conflict")
      return (existing, s)
    | none => do
      raiseIf (s.holdoutGrants.find? campaign.key).isSome
        (.conflict "campaign_frozen_after_holdout_unlock")
      raiseIf (campaign.candidateLimit ≤ (s.population campaign.key).length)
        (.conflict "campaign_candidate_limit_exceeded")
      return (row, { s with trials := s.trials.insertOnce row })

structure FinishCall (W : Type) where
  tenantId : String
  trialId : String
  status : TrialStatus
  result : TrialResult W
  fenceJob : Option (Sha256 × String)

/-- The row of a trial with its result. -/
def Trial.finished (status : TrialStatus) (result : TrialResult W) (t : Trial V W) : Trial V W :=
  { t with
    status := status
    result := some result
    resultSha256 := some (codec.resultChecksum status result) }

def finishTrial (c : FinishCall W) (fenceNow fenceNow' : ℤ) (s : Experiments P R Q V W) :
    Except Exc (Trial V W × Experiments P R Q V W) := do
  raiseIf (c.status = .submitted) (.valueError "invalid_terminal_trial_status")
  assertFence s.queue.jobs c.tenantId c.fenceJob fenceNow fenceNow'
  match s.trials.find? (c.tenantId, c.trialId) with
  | none => .error (.keyError "trial_not_found")
  | some row =>
    if row.status ≠ .submitted then do
      raiseIf (row.resultSha256 ≠ some (codec.resultChecksum c.status c.result))
        (.conflict "terminal_trial_result_immutable")
      return (row, s)
    else
      let trials := s.trials.update (c.tenantId, c.trialId) (Trial.finished codec c.status c.result)
        (fun _ => rfl)
      return (row.finished codec c.status c.result, { s with trials := trials })

variable (tenant : String)

/-- A job that ended without finishing its trial, and that no other job of the
same content may still finish. -/
def Experiments.Abandoned (job : Job P R) : Prop :=
  job.tenantId = tenant ∧ job.kind = "experiment" ∧
    (job.status = .cancelled ∨ job.status = .exhausted ∨ job.status = .failed) ∧
    (∃ t ∈ s.trials.rows, t.tenantId = job.tenantId ∧ codec.experimentHash job.payload =
      some t.trialId
      ∧ t.status = .submitted) ∧
    ¬ ∃ other ∈ s.queue.jobs.rows, other.tenantId = job.tenantId ∧ other.kind = "experiment" ∧
      other.sha256 = job.sha256 ∧ (other.status = .queued ∨ other.status = .running)

instance decidableExistsMemOption (o : Option String) (p : String → Prop) [DecidablePred p] :
    Decidable (∃ x ∈ o, p x) := by
  cases o with
  | none => exact isFalse (fun ⟨_, h, _⟩ => nomatch h)
  | some x => exact decidable_of_iff (p x) ⟨fun h => ⟨x, rfl, h⟩, fun ⟨_, h, hp⟩ => Option.some.inj h ▸ hp⟩

instance (codec : TrialCodec P R Q V W) (s : Experiments P R Q V W) (tenant : String)
    (job : Job P R) : Decidable (s.Abandoned codec tenant job) :=
  inferInstanceAs (Decidable (_ ∧ _ ∧ _ ∧ _ ∧ _))

/-- The jobs that `reconcile_terminal_jobs` goes through, without the ones that
another transaction holds. -/
def Experiments.abandonedJobs (limit : ℤ) (busy : Sha256 → Bool) : List (Job P R) :=
  ((s.queue.jobs.rows.filter fun job => s.Abandoned codec tenant job ∧ busy job.jobId = false).mergeSort
    fun a b => toLex (a.createdNs, a.jobId) ≤ toLex (b.createdNs, b.jobId)).take limit.toNat

/-- One job of `reconcile_terminal_jobs`, with the count so far. -/
def reconcileJob (acc : ℕ × Experiments P R Q V W) (job : Job P R) :
    Except Exc (ℕ × Experiments P R Q V W) :=
  if codec.jobChecksum (.payload job.payload) ≠ job.sha256 then .ok acc
  else
    match codec.experimentHash job.payload with
    | none => .error (.keyError "experiment_hash")
    | some trialId =>
      match acc.2.trials.find? (tenant, trialId) with
      | none => .error (.keyError "NoResultFound")
      | some current =>
        if current.status ≠ .submitted then .ok acc
        else do
          let (_, s) ← finishTrial codec
            { tenantId := tenant
              trialId := trialId
              status := if job.status = .failed then .failed else .aborted
              result := .queue job.jobId job.status job.attempts (codec.jobResultChecksum job.result)
              fenceJob := none } 0 0 acc.2
          return (acc.1 + 1, s)

def reconcileTerminalJobs (limit : ℤ) (busy : Sha256 → Bool) (s : Experiments P R Q V W) :
    Except Exc (ℕ × Experiments P R Q V W) := do
  raiseIf (¬ (1 ≤ limit ∧ limit ≤ 100)) (.valueError "terminal_trial_reconciliation_limit_invalid")
  (s.abandonedJobs codec tenant limit busy).foldlM (reconcileJob codec tenant) (0, s)

structure UnlockCall where
  tenantId : String
  campaignId : String
  actorId : String
  permissions : List String
  reason : String

/-- The row that `unlock_holdout` inserts. -/
def UnlockCall.row (c : UnlockCall) (grantId : String) (now : ℤ) : HoldoutGrant where
  tenantId := c.tenantId
  campaignId := c.campaignId
  grantId := grantId
  actorId := c.actorId
  reason := c.reason
  grantedNs := now

/-- Why the holdout is not unlocked, if it is not. -/
def Experiments.denial (c : UnlockCall) : Option String :=
  if "holdout:unlock" ∉ c.permissions ∨ c.actorId = "" ∨ c.reason.toList.all isSpace then
    some "holdout_unlock_permission_or_reason_required"
  else if (s.holdoutGrants.find? (c.tenantId, c.campaignId)).isSome then
    some "holdout_already_unlocked"
  else if s.population (c.tenantId, c.campaignId) = [] ∨
      ∃ t ∈ s.population (c.tenantId, c.campaignId), t.status = .submitted then
    some "campaign_trials_not_terminal"
  else none

/-- `unlock_holdout`: a denial is committed, as an event, before it is
raised. -/
def unlockHoldout (c : UnlockCall) (grantId : String) (now : ℤ) (s : Experiments P R Q V W) :
    Except Exc (Except String HoldoutGrant × Experiments P R Q V W) :=
  match s.campaigns.find? (c.tenantId, c.campaignId) with
  | none => .error (.keyError "campaign_not_found")
  | some _ =>
    match s.denial c with
    | some denied => .ok (.error denied, s)
    | none => do
      raiseIf (∃ g ∈ s.holdoutGrants.rows, g.grantId = grantId) (.integrityError "grant_id")
      let grant := c.row grantId now
      return (.ok grant,
        { s with holdoutGrants := s.holdoutGrants.insertOnce grant, issued := grant :: s.issued })

namespace Experiments

/-- The transactions of the registry and of the queue, with what the host
answers them. -/
inductive Label (P R Q V W : Type)
  | queue (l : JobQueue.Label P R)
  | registerCampaign (c : CampaignCall Q) (now : ℤ)
  | registerTrial (c : TrialCall V) (now fenceNow fenceNow' : ℤ)
  | finishTrial (c : FinishCall W) (fenceNow fenceNow' : ℤ)
  | reconcileTerminalJobs (tenant : String) (limit : ℤ) (busy : Sha256 → Bool)
  | unlockHoldout (c : UnlockCall) (grantId : String) (now : ℤ)

/-- What a transaction leaves: one that raises changes nothing. -/
def commit {α : Type} (s : Experiments P R Q V W)
    (result : Except Exc (α × Experiments P R Q V W)) : Experiments P R Q V W :=
  match result with
  | .ok (_, s') => s'
  | .error _ => s

/-- **A step of the registry.** -/
def step (codec : TrialCodec P R Q V W) (s : Experiments P R Q V W) :
    Label P R Q V W → Experiments P R Q V W
  | .queue l => { s with queue := JobQueue.step codec.jobChecksum s.queue l }
  | .registerCampaign c now => s.commit (Qt.registerCampaign codec c now s)
  | .registerTrial c now fenceNow fenceNow' =>
    s.commit (Qt.registerTrial codec c now fenceNow fenceNow' s)
  | .finishTrial c fenceNow fenceNow' => s.commit (Qt.finishTrial codec c fenceNow fenceNow' s)
  | .reconcileTerminalJobs tenant limit busy =>
    s.commit (Qt.reconcileTerminalJobs codec tenant limit busy s)
  | .unlockHoldout c grantId now => s.commit (Qt.unlockHoldout c grantId now s)

/-- The registry with empty tables. -/
def init : Experiments P R Q V W where
  queue := ⟨.empty, []⟩
  datasetGuards := .empty
  campaigns := .empty
  trials := .empty
  holdoutGrants := .empty
  issued := []

/-- **The registry after a run** from empty tables. -/
def after (codec : TrialCodec P R Q V W) (ls : List (Label P R Q V W)) : Experiments P R Q V W :=
  Machine.run (step codec) init ls

/-! ## What a transaction can change -/

/-- **The changes of the registry**, each with what was checked before it. The
queue and the guards go on beside them. -/
inductive Change (s s' : Experiments P R Q V W) : Prop
  | none (campaigns : s'.campaigns = s.campaigns) (trials : s'.trials = s.trials)
      (grants : s'.holdoutGrants = s.holdoutGrants) (issued : s'.issued = s.issued)
  | campaign (row : Campaign Q) (fresh : s.campaigns.find? row.key = .none)
      (window : row.holdoutStartNs < row.holdoutEndNs) (limit : 1 ≤ row.candidateLimit)
      (free : ∀ other ∈ s.campaigns.rows, ¬ other.Overlaps row)
      (campaigns : s'.campaigns = s.campaigns.insertOnce row) (trials : s'.trials = s.trials)
      (grants : s'.holdoutGrants = s.holdoutGrants) (issued : s'.issued = s.issued)
  | trial (row : Trial V W) (c : Campaign Q) (fresh : s.trials.find? row.key = .none)
      (found : s.campaigns.find? (row.tenantId, row.campaignId) = some c)
      (closed : s.holdoutGrants.find? c.key = .none)
      (room : ((s.population c.key).length : ℤ) < c.candidateLimit)
      (campaigns : s'.campaigns = s.campaigns) (trials : s'.trials = s.trials.insertOnce row)
      (grants : s'.holdoutGrants = s.holdoutGrants) (issued : s'.issued = s.issued)
  | finish (codec : TrialCodec P R Q V W) (k : String × String) (row : Trial V W)
      (status : TrialStatus) (result : TrialResult W) (found : s.trials.find? k = some row)
      (live : row.status = .submitted) (terminal : status ≠ .submitted)
      (campaigns : s'.campaigns = s.campaigns)
      (trials : s'.trials = s.trials.update k (Trial.finished codec status result) (fun _ => rfl))
      (grants : s'.holdoutGrants = s.holdoutGrants) (issued : s'.issued = s.issued)
  | grant (row : HoldoutGrant) (fresh : s.holdoutGrants.find? row.key = .none)
      (ended : ∀ t ∈ s.population row.key, t.status ≠ .submitted)
      (campaigns : s'.campaigns = s.campaigns) (trials : s'.trials = s.trials)
      (grants : s'.holdoutGrants = s.holdoutGrants.insertOnce row)
      (issued : s'.issued = row :: s.issued)

section Changes

variable {codec : TrialCodec P R Q V W} {s s' : Experiments P R Q V W}

theorem Change.same : Change s s := .none rfl rfl rfl rfl

variable {now : ℤ}

theorem change_registerCampaign {c : CampaignCall Q} {row : Campaign Q}
    (h : registerCampaign codec c now s = .ok (row, s')) : Change s s' := by
  unfold registerCampaign at h
  obtain ⟨-, h⟩ := of_raiseIf h
  obtain ⟨hbounds, h⟩ := of_raiseIf h
  rw [not_or, not_not, not_not] at hbounds
  dsimp only at h
  split at h
  next existing _ =>
    obtain ⟨-, h⟩ := of_raiseIf h
    cases h
    exact .none rfl rfl rfl rfl
  next hfresh =>
    obtain ⟨hfree, h⟩ := of_raiseIf h
    cases h
    exact .campaign (c.row codec now) hfresh hbounds.1.2 hbounds.2.1
      (fun other hother hover => hfree ⟨other, hother, hover⟩) rfl rfl rfl rfl

variable {fenceNow fenceNow' : ℤ} {row : Trial V W}

theorem change_registerTrial {c : TrialCall V}
    (h : registerTrial codec c now fenceNow fenceNow' s = .ok (row, s')) : Change s s' := by
  unfold registerTrial at h
  obtain ⟨-, h⟩ := of_raiseIf h
  obtain ⟨_, -, h⟩ := of_bind h
  split at h
  · cases h
  next campaign hcampaign =>
    dsimp only at h
    split at h
    next existing _ =>
      obtain ⟨-, h⟩ := of_raiseIf h
      cases h
      exact .same
    next hfresh =>
      obtain ⟨hclosed, h⟩ := of_raiseIf h
      obtain ⟨hroom, h⟩ := of_raiseIf h
      cases h
      exact .trial (c.row codec now) campaign hfresh hcampaign (by simpa using hclosed)
        (not_le.mp hroom) rfl rfl rfl rfl

theorem change_finishTrial {c : FinishCall W}
    (h : finishTrial codec c fenceNow fenceNow' s = .ok (row, s')) : Change s s' := by
  unfold finishTrial at h
  obtain ⟨hterminal, h⟩ := of_raiseIf h
  obtain ⟨_, -, h⟩ := of_bind h
  split at h
  · cases h
  next found hfound =>
    by_cases hlive : found.status = .submitted
    · rw [if_neg (not_not.mpr hlive)] at h
      cases h
      exact .finish codec _ found c.status c.result hfound hlive hterminal rfl rfl rfl rfl
    · rw [if_pos hlive] at h
      obtain ⟨-, h⟩ := of_raiseIf h
      cases h
      exact .same

variable {n n' : ℕ} {tenant : String}

theorem change_reconcileJob {job : Job P R}
    (h : reconcileJob codec tenant (n, s) job = .ok (n', s')) : Change s s' := by
  unfold reconcileJob at h
  split at h
  · cases h
    exact .same
  · split at h
    · cases h
    · split at h
      · cases h
      · split at h
        · cases h
          exact .same
        · obtain ⟨⟨row, s₁⟩, hfinish, h⟩ := of_bind h
          cases h
          exact change_finishTrial hfinish

/-- **A reconciliation** is a sequence of changes. -/
theorem changes_reconcile {jobs : List (Job P R)}
    (h : jobs.foldlM (reconcileJob codec tenant) (n, s) = .ok (n', s')) :
    Relation.ReflTransGen Change s s' := by
  induction jobs generalizing n s with
  | nil =>
    cases h
    exact .refl
  | cons job jobs ih =>
    obtain ⟨⟨n₁, s₁⟩, hjob, h⟩ := of_bind h
    exact .head (change_reconcileJob hjob) (ih h)

theorem change_unlockHoldout {c : UnlockCall} {grantId : String}
    {grant : Except String HoldoutGrant} (h : unlockHoldout c grantId now s = .ok (grant, s')) :
    Change s s' := by
  unfold unlockHoldout at h
  split at h
  · cases h
  · split at h
    · cases h
      exact .same
    next hallowed =>
      obtain ⟨-, h⟩ := of_raiseIf h
      cases h
      unfold denial at hallowed
      split_ifs at hallowed with hpermission hunlocked hended
      rw [not_or] at hended
      exact .grant (c.row grantId now) (Option.not_isSome_iff_eq_none.mp hunlocked)
        (fun t ht hlive => hended.2 ⟨t, ht, hlive⟩) rfl rfl rfl rfl

/-- **A step of the registry** is a sequence of changes. -/
theorem changes_step (codec : TrialCodec P R Q V W) (s : Experiments P R Q V W)
    (l : Label P R Q V W) : Relation.ReflTransGen Change s (step codec s l) := by
  cases l with
  | queue l => exact .single (.none rfl rfl rfl rfl)
  | registerCampaign c now =>
    show Relation.ReflTransGen Change s (s.commit _)
    cases h : Qt.registerCampaign codec c now s with
    | error e => exact .refl
    | ok r => exact .single (change_registerCampaign h)
  | registerTrial c now fenceNow fenceNow' =>
    show Relation.ReflTransGen Change s (s.commit _)
    cases h : Qt.registerTrial codec c now fenceNow fenceNow' s with
    | error e => exact .refl
    | ok r => exact .single (change_registerTrial h)
  | finishTrial c fenceNow fenceNow' =>
    show Relation.ReflTransGen Change s (s.commit _)
    cases h : Qt.finishTrial codec c fenceNow fenceNow' s with
    | error e => exact .refl
    | ok r => exact .single (change_finishTrial h)
  | reconcileTerminalJobs tenant limit busy =>
    show Relation.ReflTransGen Change s (s.commit _)
    cases h : Qt.reconcileTerminalJobs codec tenant limit busy s with
    | error e => exact .refl
    | ok r => exact changes_reconcile (of_raiseIf h).2
  | unlockHoldout c grantId now =>
    show Relation.ReflTransGen Change s (s.commit _)
    cases h : Qt.unlockHoldout c grantId now s with
    | error e => exact .refl
    | ok r => exact .single (change_unlockHoldout h)

end Changes

/-! ## The population of a campaign -/

section Population

variable {codec : TrialCodec P R Q V W} {s s' : Experiments P R Q V W}

theorem population_congr (h : s'.trials = s.trials) (k : String × String) :
    s'.population k = s.population k := by
  unfold population
  rw [h]

variable {row : Trial V W}

theorem population_insert (hfresh : s.trials.find? row.key = .none)
    (h : s'.trials = s.trials.insertOnce row) (k : String × String) : s'.population k
      = s.population k ++ if (row.tenantId, row.campaignId) = k then [row] else [] := by
  unfold population
  rw [h, rows_insertOnce hfresh, filter_append]
  by_cases hk : (row.tenantId, row.campaignId) = k
  · simp [hk]
  · simp [hk]

variable {k₀ : String × String} {result : TrialResult W} {status : TrialStatus}

/-- A trial that ends stays where it is in the population. -/
theorem population_finish
    (h : s'.trials = s.trials.update k₀ (Trial.finished codec status result) (fun _ => rfl))
    (k : String × String) : s'.population k = (s.population k).map fun t =>
      if t.key = k₀ then t.finished codec status result else t := by
  unfold population
  rw [h]
  show List.filter _ (s.trials.rows.map _) = _
  rw [filter_map]
  congr 1
  refine filter_congr fun t _ => ?_
  by_cases hk : t.key = k₀
  · simp only [Function.comp_apply, if_pos hk]
    rfl
  · simp only [Function.comp_apply, if_neg hk]

/-- **A population that has ended** is left alone by a trial that ends. -/
theorem population_finish_of_ended (hfound : s.trials.find? k₀ = some row)
    (hlive : row.status = .submitted)
    (h : s'.trials = s.trials.update k₀ (Trial.finished codec status result) (fun _ => rfl))
    {k : String × String} (hended : ∀ t ∈ s.population k, t.status ≠ .submitted) :
    s'.population k = s.population k := by
  rw [population_finish h]
  refine (map_congr_left fun t ht => if_neg fun hkey => hended t ht ?_).trans (List.map_id _)
  -- the trial that ends is in no population that has ended
  have hmem : t ∈ s.trials.rows := (mem_filter.mp ht).1
  obtain rfl : t = row := Option.some.inj
    ((find?_of_mem hmem).symm.trans ((congrArg s.trials.find? hkey).trans hfound))
  exact hlive

end Population

/-! ## The invariant -/

/-- **What the registry keeps.** -/
structure Sound (s : Experiments P R Q V W) : Prop where
  window : ∀ c ∈ s.campaigns.rows, c.holdoutStartNs < c.holdoutEndNs
  disjoint : ∀ c ∈ s.campaigns.rows, ∀ d ∈ s.campaigns.rows, c.key ≠ d.key → ¬ c.Overlaps d
  limit : ∀ c ∈ s.campaigns.rows, ((s.population c.key).length : ℤ) ≤ c.candidateLimit
  positive : ∀ c ∈ s.campaigns.rows, 1 ≤ c.candidateLimit
  owned : ∀ t ∈ s.trials.rows, (s.campaigns.find? (t.tenantId, t.campaignId)).isSome
  frozen : ∀ g ∈ s.holdoutGrants.rows, ∀ t ∈ s.population g.key, t.status ≠ .submitted
  issued : s.issued = s.holdoutGrants.rows.reverse

theorem sound_init : Sound (init : Experiments P R Q V W) where
  window := fun _ h => nomatch h
  disjoint := fun _ h => nomatch h
  limit := fun _ h => nomatch h
  positive := fun _ h => nomatch h
  owned := fun _ h => nomatch h
  frozen := fun _ h => nomatch h
  issued := rfl

variable {s : Experiments P R Q V W}

theorem Sound.population_eq_nil (h : s.Sound) {k : String × String}
    (hfresh : s.campaigns.find? k = .none) : s.population k = [] := by
  refine filter_eq_nil_iff.mpr fun t ht htk => ?_
  have howned := h.owned t ht
  rw [of_decide_eq_true htk, hfresh] at howned
  cases howned

variable {s' : Experiments P R Q V W}

/-- **Every change keeps the invariant.** -/
theorem Sound.change (h : s.Sound) (hc : Change s s') : s'.Sound := by
  cases hc with
  | none campaigns trials grants issued =>
    refine ⟨?_, ?_, ?_, ?_, ?_, ?_, ?_⟩
    · exact campaigns ▸ h.window
    · exact campaigns ▸ h.disjoint
    · intro c hcm
      rw [population_congr trials]
      exact h.limit c (campaigns ▸ hcm)
    · exact campaigns ▸ h.positive
    · exact campaigns ▸ trials ▸ h.owned
    · intro g hg
      rw [population_congr trials]
      exact h.frozen g (grants ▸ hg)
    · rw [issued, grants]
      exact h.issued
  | campaign row fresh window limit free campaigns trials grants issued =>
    have hmem : ∀ c, c ∈ s'.campaigns.rows ↔ c ∈ s.campaigns.rows ∨ c = row := by
      intro c
      rw [campaigns]
      exact mem_rows_insertOnce fresh
    refine ⟨?_, ?_, ?_, ?_, ?_, ?_, ?_⟩
    · intro c hcm
      obtain hold | rfl := (hmem c).mp hcm
      · exact h.window c hold
      · exact window
    · intro c hcm d hdm hne
      obtain hc | rfl := (hmem c).mp hcm
      · obtain hd | rfl := (hmem d).mp hdm
        · exact h.disjoint c hc d hd hne
        · exact free c hc
      · obtain hd | rfl := (hmem d).mp hdm
        · exact fun hover => free d hd hover.symm
        · exact absurd rfl hne
    · intro c hcm
      rw [population_congr trials]
      obtain hold | rfl := (hmem c).mp hcm
      · exact h.limit c hold
      · rw [h.population_eq_nil fresh]
        exact le_trans (by simp) limit
    · intro c hcm
      obtain hold | rfl := (hmem c).mp hcm
      · exact h.positive c hold
      · exact limit
    · intro t ht
      obtain ⟨c, hfound⟩ := Option.isSome_iff_exists.mp (h.owned t (trials ▸ ht))
      rw [campaigns, find?_insertOnce_of_find? hfound]
      rfl
    · intro g hg
      rw [population_congr trials]
      exact h.frozen g (grants ▸ hg)
    · rw [issued, grants]
      exact h.issued
  | trial row c fresh found closed room campaigns trials grants issued =>
    have hkey : c.key = (row.tenantId, row.campaignId) := key_of_find? found
    refine ⟨?_, ?_, ?_, ?_, ?_, ?_, ?_⟩
    · exact campaigns ▸ h.window
    · exact campaigns ▸ h.disjoint
    · intro d hd
      rw [population_insert fresh trials]
      have hlimit := h.limit d (campaigns ▸ hd)
      split_ifs with hdk
      · -- the campaign of the new trial has room for it
        obtain rfl : c = d := Option.some.inj <| found.symm.trans <|
          (congrArg s.campaigns.find? hdk).trans (find?_of_mem (campaigns ▸ hd))
        simp only [length_append, length_singleton]
        push_cast
        omega
      · rw [append_nil]
        exact hlimit
    · exact campaigns ▸ h.positive
    · intro t ht
      rw [trials, mem_rows_insertOnce fresh] at ht
      rw [campaigns]
      obtain hold | rfl := ht
      · exact h.owned t hold
      · rw [found]
        rfl
    · intro g hg t ht
      rw [population_insert fresh trials] at ht
      have hg' : g ∈ s.holdoutGrants.rows := grants ▸ hg
      split_ifs at ht with hgk
      · -- a campaign with a grant takes no trial
        have hnone := closed
        rw [hkey, hgk, find?_of_mem hg'] at hnone
        cases hnone
      · rw [append_nil] at ht
        exact h.frozen g hg' t ht
    · rw [issued, grants]
      exact h.issued
  | finish codec k row status result found live terminal campaigns trials grants issued =>
    refine ⟨?_, ?_, ?_, ?_, ?_, ?_, ?_⟩
    · exact campaigns ▸ h.window
    · exact campaigns ▸ h.disjoint
    · intro c hcm
      rw [population_finish trials, length_map]
      exact h.limit c (campaigns ▸ hcm)
    · exact campaigns ▸ h.positive
    · intro t ht
      rw [trials] at ht
      obtain ⟨t₀, ht₀, rfl⟩ := mem_rows_update.mp ht
      rw [campaigns]
      split_ifs
      · exact h.owned t₀ ht₀
      · exact h.owned t₀ ht₀
    · intro g hg
      have hended := h.frozen g (grants ▸ hg)
      rw [population_finish_of_ended found live trials hended]
      exact hended
    · rw [issued, grants]
      exact h.issued
  | grant row fresh ended campaigns trials grants issued =>
    refine ⟨?_, ?_, ?_, ?_, ?_, ?_, ?_⟩
    · exact campaigns ▸ h.window
    · exact campaigns ▸ h.disjoint
    · intro c hcm
      rw [population_congr trials]
      exact h.limit c (campaigns ▸ hcm)
    · exact campaigns ▸ h.positive
    · exact campaigns ▸ trials ▸ h.owned
    · intro g hg
      rw [grants, mem_rows_insertOnce fresh] at hg
      rw [population_congr trials]
      obtain hold | rfl := hg
      · exact h.frozen g hold
      · exact ended
    · rw [issued, grants, rows_insertOnce fresh, reverse_append, h.issued]
      rfl

/-- **What stays from one state to a later one**: the campaigns, the grants,
the trials that have ended, and the population of a campaign with a grant. -/
structure Later (s s' : Experiments P R Q V W) : Prop where
  campaigns : ∀ k c, s.campaigns.find? k = some c → s'.campaigns.find? k = some c
  grants : ∀ k g, s.holdoutGrants.find? k = some g → s'.holdoutGrants.find? k = some g
  ended : ∀ k t, s.trials.find? k = some t → t.status ≠ .submitted → s'.trials.find? k = some t
  frozen : ∀ k g, s.holdoutGrants.find? k = some g → s'.population k = s.population k

theorem Later.refl (s : Experiments P R Q V W) : Later s s :=
  ⟨fun _ _ h => h, fun _ _ h => h, fun _ _ h _ => h, fun _ _ _ => rfl⟩

theorem Later.trans {s'' : Experiments P R Q V W} (h : Later s s') (h' : Later s' s'') :
    Later s s'' where
  campaigns := fun k c hc => h'.campaigns k c (h.campaigns k c hc)
  grants := fun k g hg => h'.grants k g (h.grants k g hg)
  ended := fun k t ht hs => h'.ended k t (h.ended k t ht hs) hs
  frozen := fun k g hg => (h'.frozen k g (h.grants k g hg)).trans (h.frozen k g hg)

/-- **Every change leaves what stays.** -/
theorem Sound.later (h : s.Sound) (hc : Change s s') : Later s s' := by
  cases hc with
  | none campaigns trials grants issued =>
    refine ⟨?_, ?_, ?_, fun k _ _ => population_congr trials k⟩
    · exact fun k c hc => campaigns ▸ hc
    · exact fun k g hg => grants ▸ hg
    · exact fun k t ht _ => trials ▸ ht
  | campaign row fresh window limit free campaigns trials grants issued =>
    refine ⟨?_, ?_, ?_, fun k _ _ => population_congr trials k⟩
    · intro k c hc
      rw [campaigns]
      exact find?_insertOnce_of_find? hc
    · exact fun k g hg => grants ▸ hg
    · exact fun k t ht _ => trials ▸ ht
  | trial row c fresh found closed room campaigns trials grants issued =>
    refine ⟨?_, ?_, ?_, ?_⟩
    · exact fun k c hc => campaigns ▸ hc
    · exact fun k g hg => grants ▸ hg
    · intro k t ht _
      rw [trials]
      exact find?_insertOnce_of_find? ht
    · intro k g hg
      rw [population_insert fresh trials, if_neg, append_nil]
      rintro rfl
      rw [show c.key = _ from key_of_find? found, hg] at closed
      cases closed
  | finish codec k₀ row status result found live terminal campaigns trials grants issued =>
    refine ⟨?_, ?_, ?_, ?_⟩
    · exact fun k c hc => campaigns ▸ hc
    · exact fun k g hg => grants ▸ hg
    · intro k t ht hs
      rw [trials]
      refine (Table.find?_update _ _ _ _ _).trans ?_
      rw [if_neg, ht]
      rintro rfl
      exact hs (Option.some.inj (found.symm.trans ht) ▸ live)
    · intro k g hg
      refine population_finish_of_ended found live trials ?_
      have hkey : g.key = k := key_of_find? hg
      exact hkey ▸ h.frozen g (mem_of_find? hg)
  | grant row fresh ended campaigns trials grants issued =>
    refine ⟨?_, ?_, ?_, fun k _ _ => population_congr trials k⟩
    · exact fun k c hc => campaigns ▸ hc
    · intro k g hg
      rw [grants]
      exact find?_insertOnce_of_find? hg
    · exact fun k t ht _ => trials ▸ ht

/-- A sequence of changes keeps the invariant and leaves what stays. -/
theorem Sound.changes (h : s.Sound) (hc : Relation.ReflTransGen Change s s') :
    s'.Sound ∧ Later s s' := by
  induction hc with
  | refl => exact ⟨h, .refl s⟩
  | tail _ hc ih => exact ⟨ih.1.change hc, ih.2.trans (ih.1.later hc)⟩

theorem sound_after (codec : TrialCodec P R Q V W) (ls : List (Label P R Q V W)) :
    (after codec ls).Sound :=
  inv_run Sound (fun s l h => (h.changes (changes_step codec s l)).1) sound_init ls

/-- **What stays over a run.** -/
theorem later_after (codec : TrialCodec P R Q V W) (ls ls' : List (Label P R Q V W)) :
    Later (after codec ls) (after codec (ls ++ ls')) := by
  rw [show after codec (ls ++ ls') = Machine.run (step codec) (after codec ls) ls' from
    run_append _ _ _ _]
  exact rel_run Sound Later (fun s l h => (h.changes (changes_step codec s l)).1) Later.refl
    (fun _ _ _ => Later.trans) (fun s l h => (h.changes (changes_step codec s l)).2)
    (sound_after codec ls) ls'

/-- **The experiment freeze**, over any interleaving of the operations: the
holdout windows of a dataset are disjoint, a campaign has no more trials than
candidates, one grant at most is ever issued for it, its population and the
results in it are fixed from then on, and a trial that has ended keeps its
result. -/
theorem freeze (codec : TrialCodec P R Q V W) (ls : List (Label P R Q V W)) :
    (∀ c ∈ (after codec ls).campaigns.rows, ∀ d ∈ (after codec ls).campaigns.rows, c ≠ d →
      c.tenantId = d.tenantId → c.datasetId = d.datasetId →
      c.holdoutEndNs ≤ d.holdoutStartNs ∨ d.holdoutEndNs ≤ c.holdoutStartNs)
    ∧ (∀ c ∈ (after codec ls).campaigns.rows,
      (((after codec ls).population c.key).length : ℤ) ≤ c.candidateLimit)
    ∧ (∀ k, ((after codec ls).issued.filter fun g => g.key = k).length ≤ 1)
    ∧ (∀ g ∈ (after codec ls).issued,
      (∀ t ∈ (after codec ls).population g.key, t.status ≠ .submitted)
      ∧ ∀ ls', (after codec (ls ++ ls')).population g.key = (after codec ls).population g.key)
    ∧ ∀ t ∈ (after codec ls).trials.rows, t.status ≠ .submitted →
      ∀ ls', (after codec (ls ++ ls')).trials.find? t.key = some t := by
  have hsound := sound_after codec ls
  have hissued : ∀ g ∈ (after codec ls).issued, g ∈ (after codec ls).holdoutGrants.rows := by
    intro g hg
    rw [hsound.issued] at hg
    exact mem_reverse.mp hg
  refine ⟨?_, hsound.limit, ?_, ?_, ?_⟩
  · intro c hc d hd hne htenant hdataset
    have hkey : c.key ≠ d.key := by
      intro hkey
      exact hne (Option.some.inj ((find?_of_mem hc).symm.trans
        ((congrArg _ hkey).trans (find?_of_mem hd))))
    by_contra hcross
    rw [not_or, not_le, not_le] at hcross
    exact hsound.disjoint c hc d hd hkey ⟨htenant, hdataset, hcross.2, hcross.1⟩
  · intro k
    rw [hsound.issued, filter_reverse, length_reverse]
    exact length_filter_key_le _ k
  · intro g hg
    refine ⟨hsound.frozen g (hissued g hg), fun ls' => ?_⟩
    exact (later_after codec ls ls').frozen _ g (find?_of_mem (hissued g hg))
  · intro t ht hs ls'
    exact (later_after codec ls ls').ended _ t (find?_of_mem ht) hs

end Experiments

end Qt
