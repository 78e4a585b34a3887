import QuantTrading.Oms

/-!
# The deployment registry

`qt.operations.releases`: manifests are signed and immutable, and the head of
an account names the one that may act. Replacing or deactivating a head
requires a flat account without outstanding effects, and a replacement may
not raise a risk limit.
-/

namespace Qt

open Except (raiseIf)

/-- A registry: its constructor arguments. -/
structure DeploymentRegistry where
  signingKey : Option (List UInt8)
  policyHash : Sha256

namespace DeploymentRegistry

/-- A manifest without its signature. -/
def unsigned (manifest : DeploymentManifest) : DeploymentManifest :=
  { manifest with signature := "" }

variable (env : Env) (self : DeploymentRegistry)

/-- `_signature`: the manifest is signed with the key of the registry and, if
it is to be current, in effect and under the policy in force. -/
def signature (manifest : DeploymentManifest) (current : Bool) (time : ℕ) : Except Exc Unit :=
  match self.signingKey with
  | none => .error (.conflict "deployment_signing_key_not_configured")
  | some key => do
    raiseIf (key.length < 32) (.conflict "deployment_signing_key_not_configured")
    raiseIf (manifest.signature ≠ env.manifestHmac key (unsigned manifest))
      (.conflict "deployment_signature_invalid")
    raiseIf (current = true ∧ (¬ (manifest.validFromNs ≤ time ∧ time < manifest.validUntilNs)
        ∨ manifest.riskPolicyHash ≠ self.policyHash))
      (.conflict "deployment_signature_expired_or_policy_changed")

/-- `_stored`: the artifact of a deployment, intact. -/
def stored (db : DB) (tenant deploymentId : String) : Except Exc DeploymentArtifact :=
  match db.deployments.find? (tenant, deploymentId) with
  | none => .error (.keyError "deployment_not_found")
  | some row => do
    raiseIf (env.contentHash (.deployment row.payload) ≠ row.sha256)
      (.conflict "deployment_artifact_integrity_failure")
    return row

/-- An order of the account, or its settlement, is still open. -/
def outstanding (db : DB) (accountId : String) : Prop :=
  ∃ o ∈ db.orders.rows, o.accountId = accountId
    ∧ (o.status.terminal = false ∨ o.settlementStatus.resolved = false)
deriving Decidable

/-- `_flat`: the account, if there is one, with nothing outstanding, reserved
or held. -/
def flat (db : DB) (tenant accountId : String) : Except Exc (Option Account) :=
  match db.accounts.find? accountId with
  | none => .ok none
  | some account => do
    raiseIf (account.tenantId ≠ tenant) (.conflict "deployment_account_is_not_owned_by_tenant")
    raiseIf (outstanding db accountId ∨ account.reservedQuote ≠ 0)
      (.conflict "deployment_change_requires_no_orders_or_unsettled_effects")
    let wallet := db.wallet accountId
    raiseIf (∃ a ∈ wallet.assets, a ≠ account.quoteAsset ∧ wallet.amount a ≠ 0)
      (.conflict "deployment_change_requires_flat_inventory")
    raiseIf (wallet.amount account.quoteAsset < 0)
      (.conflict "deployment_change_requires_reconciled_cash")
    return some account

/-- The limits `_no_escalation` compares. -/
def limits (budget : RiskBudget) : List ℚ :=
  [budget.capital, budget.maximumPositionFraction, budget.maximumOrderFraction,
    budget.plannedLossFraction, budget.maximumDrawdownFraction, budget.maximumDailyLossFraction,
    budget.maximumLeverage]

/-- A budget raises a limit of another one, or is in another currency. -/
def escalates (old new : RiskBudget) : Prop :=
  old.currency ≠ new.currency ∨ ∃ p ∈ (limits old).zip (limits new), p.1 < p.2
deriving Decidable

def noEscalation (previous manifest : DeploymentManifest) : Except Exc Unit :=
  raiseIf (escalates previous.riskBudget manifest.riskBudget)
    (.conflict "deployment_risk_increase_requires_separate_explicit_review")

/-- A reason is given. -/
def checkReason (reason : String) (text : String) : Except Exc Unit :=
  raiseIf (reason.toList.all isSpace = true ∨ 1024 < reason.length) (.valueError text)

/-- The head row an account has before its first activation. -/
def uninitialized (tenant accountId : String) (now : ℕ) : DeploymentHead where
  tenantId := tenant
  accountId := accountId
  deploymentId := none
  status := .inactive
  generation := 0
  updatedNs := now
  reason := "uninitialized"

variable (tenant : String)

/-- The artifact an activation stores. -/
def artifact (manifest : DeploymentManifest) (now : ℕ) : DeploymentArtifact where
  tenantId := tenant
  entityId := manifest.deploymentId
  payload := manifest
  sha256 := env.contentHash (.deployment manifest)
  createdNs := now

/-- What a new manifest is checked against: the manifest the head names, and
the account. -/
def activationAdmissible (manifest : DeploymentManifest) (head : DeploymentHead) (time : ℕ)
    (db : DB) : Except Exc Unit := do
  match head.deploymentId with
  | some previousId =>
    let previous ← stored env db tenant previousId
    signature env self previous.payload false time
    noEscalation previous.payload manifest
  | none => pure ()
  let account ← flat db tenant manifest.accountId
  raiseIf (account = none ∧ manifest.mode ≠ .paper)
    (.conflict "shadow_or_funded_deployment_requires_existing_reconciled_account")
  raiseIf (∃ a ∈ account, a.capital ≠ manifest.riskBudget.capital
      ∨ a.quoteAsset ≠ manifest.riskBudget.currency)
    (.conflict "deployment_capital_or_currency_requires_separate_account_review")

/-- Move the head of an account. -/
def setHead (db : DB) (tenant accountId : String) (f : DeploymentHead → DeploymentHead)
    (hf : ∀ h, (f h).key = h.key := by intro _; rfl) : DB :=
  { db with deploymentHeads := db.deploymentHeads.update (tenant, accountId) f hf }

/-- **`activate`**: make a manifest the head of its account. -/
def activate (manifest : DeploymentManifest) (reason : String) (time : ℕ) (db : DB) :
    Except Exc (DeploymentArtifact × DB) := do
  signature env self manifest true time
  checkReason reason "deployment_activation_reason_required"
  let db := { db with
    deploymentHeads := db.deploymentHeads.insertOnce (uninitialized tenant manifest.accountId time) }
  match db.deploymentHeads.find? (tenant, manifest.accountId) with
  | none => .error (.keyError "no_head_row")
  | some head =>
    match db.deployments.find? (tenant, manifest.deploymentId) with
    | some existing =>
      raiseIf (existing.sha256 ≠ env.contentHash (.deployment manifest))
        (.conflict "immutable_deployment_identity_conflict")
      raiseIf (head.deploymentId ≠ some manifest.deploymentId ∨ head.status ≠ .active)
        (.conflict "deployment_identity_is_historical_use_explicit_rollback")
      return (existing, db)
    | none =>
      activationAdmissible env self tenant manifest head time db
      let deployments := db.deployments.insertOnce (artifact env tenant manifest time)
      let db := setHead { db with deployments := deployments } tenant manifest.accountId
        (fun h => { h with
          deploymentId := some manifest.deploymentId, status := .active
          generation := head.generation + 1, updatedNs := time, reason := reason })
      let row ← stored env db tenant manifest.deploymentId
      return (row, db.event tenant manifest.deploymentId .deploymentActivated time)

/-- **`deactivate`**: end the authority of the current head. -/
def deactivate (tenant deploymentId reason : String) (time : ℕ) (db : DB) : Except Exc DB := do
  checkReason reason "deployment_deactivation_reason_required"
  let row ← stored env db tenant deploymentId
  signature env self row.payload false time
  match db.deploymentHeads.find? (tenant, row.payload.accountId) with
  | none => .error (.conflict "only_the_current_head_can_be_deactivated")
  | some head =>
    raiseIf (head.deploymentId ≠ some deploymentId)
      (.conflict "only_the_current_head_can_be_deactivated")
    if head.status = .inactive then
      return db
    else
      let _ ← flat db tenant row.payload.accountId
      return (setHead db tenant row.payload.accountId (fun h => { h with
          status := .inactive, generation := head.generation + 1
          updatedNs := time, reason := reason })).event tenant deploymentId
        .deploymentDeactivated time

end DeploymentRegistry

end Qt
