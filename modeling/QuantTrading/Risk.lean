import QuantTrading.Persistence

/-!
# Ledger-based risk marks and latched stops

`qt.operations.risk`: the valuation of an account against its limits
(`evaluateLocked`), the transaction that records it (`check`), the gate that
only reads it (`ensureNewRiskLocked`) and the transaction that latches a stop
(`stop`). A mark values the inventory actually held, at the bid.
-/

namespace Qt

open Except (raiseIf)
open SigDigits

/-- `ensure_active_deployment`: where an account has a head, only the
deployment it names, and only while it is active, may act. -/
def ensureActiveDeployment (db : DB) (tenant accountId deploymentId : String) : Except Exc Unit :=
  match db.deploymentHeads.find? (tenant, accountId) with
  | none => .ok ()
  | some head => raiseIf (head.status ≠ .active ∨ head.deploymentId ≠ some deploymentId)
      (.conflict "deployment_is_not_the_active_account_head")

/-- The account row of a tenant, under its lock. -/
def accountOf (db : DB) (tenant accountId : String) : Except Exc Account :=
  match db.accounts.find? accountId with
  | some account => if account.tenantId = tenant then .ok account
      else .error (.keyError "account_not_found")
  | none => .error (.keyError "account_not_found")

/-- `dict.fromkeys`: the list without repetitions, in order of first
occurrence. -/
def fromkeys (reasons : List String) : List String := reasons.eraseDups

/-- A reason, if its condition holds. -/
def reasonIf (c : Prop) [Decidable c] (reason : String) : List String :=
  if c then [reason] else []

namespace RiskGuard

/-- The valuation part of a report. -/
structure Mark where
  equity : ℚ
  dailyLoss : ℚ
  drawdown : ℚ
  dailyLossLimit : ℚ
  drawdownLimit : ℚ
  dayUtc : ℕ
  dayStartEquity : ℚ
  highWaterEquity : ℚ

/-- What `evaluate_locked` returns. Without a mark there is no equity. -/
structure Report where
  safeNewRisk : Bool
  mode : RiskMode
  reasons : List String
  mark : Option Mark
  state : Option RiskState
  observationDiscarded : Bool

variable (env : Env)

/-- `_reasons`: what makes an observation unusable. -/
def unusableReasons (account : Account) (state : Option RiskState) (wallet : Wallet)
    (deployment : DeploymentManifest) (instrument : InstrumentSpec)
    (market : ExecutableMarketSnapshot) (now : ℕ) : List String :=
  reasonIf (market.venue ≠ deployment.venue ∨ market.instrument ≠ instrument.instrument
      ∨ market.instrumentSpecHash ≠ env.contentHash (.instrument instrument)
      ∨ market.feeScheduleHash ∉ deployment.feeScheduleHashes)
    "market_or_instrument_version_mismatch"
  ++ reasonIf (¬ (deployment.validFromNs ≤ now ∧ now < deployment.validUntilNs))
    "deployment_expired_or_not_effective"
  ++ reasonIf (market.bookValid = false ∨ ¬ (market.asofNs ≤ now ∧ now ≤ market.asofNs + 1000000000)
      ∨ now < instrument.effectiveFromNs ∨ ∃ t ∈ instrument.effectiveToNs, t ≤ now)
    "untrusted_or_stale_market"
  ++ reasonIf (account.quoteAsset ≠ instrument.quoteAsset
      ∨ account.capital ≠ deployment.riskBudget.capital
      ∨ deployment.riskBudget.currency ≠ account.quoteAsset)
    "valuation_currency_or_capital_mismatch"
  ++ reasonIf ((∃ a ∈ wallet.assets, (a ≠ instrument.baseAsset ∧ a ≠ instrument.quoteAsset)
      ∧ wallet.amount a ≠ 0) ∨ wallet.anyValue (· < 0))
    "untrusted_multiasset_or_negative_inventory"
  ++ reasonIf (∃ s ∈ state, s.policyHash ≠ deployment.riskPolicyHash)
    "risk_policy_changed_without_review"
  ++ reasonIf (∃ s ∈ state, now < s.lastMarkNs) "risk_mark_time_regression"

/-- The valuation of a usable observation. -/
def markOf (account : Account) (state : Option RiskState) (deployment : DeploymentManifest)
    (equity : ℚ) (now : ℕ) : Mark :=
  let high := max account.capital
    (max ((state.map (·.highWaterEquity)).getD account.capital) equity)
  let dayStart := match state with
    | none => account.capital
    -- a mark straddling UTC midnight puts the boundary gap in the new day
    | some s => if s.dayUtc = dayOf now then s.dayStartEquity else s.lastEquity
  { equity := equity
    dailyLoss := max 0 (dayStart - equity)
    drawdown := max 0 (high - equity)
    dailyLossLimit := ctxMul account.capital
      (min (5 / 1000) deployment.riskBudget.maximumDailyLossFraction)
    drawdownLimit := ctxMul account.capital
      (min (3 / 100) deployment.riskBudget.maximumDrawdownFraction)
    dayUtc := dayOf now
    dayStartEquity := dayStart
    highWaterEquity := high }

variable (db : DB) (accountId : String)

def ordersOf : List Order :=
  db.orders.rows.filter (fun o => o.accountId = accountId)

/-- The notional still to be bought by orders that are not terminal. -/
def pendingExposure : ℚ :=
  ctxSum (((ordersOf db accountId).filter (fun o => o.status.terminal = false ∧ o.side = .buy)).map
    (fun o => ctxMul (o.quantity - o.filledQuantity) o.payload.intent.limitPrice))

/-- An execution is unresolved: unknown, or pending for five seconds. -/
def executionUnresolved (now : ℕ) : Prop :=
  ∃ o ∈ ordersOf db accountId, o.status = .unknown
    ∨ ((o.status = .submitting ∨ o.status = .cancelPending) ∧ o.updatedNs + 5000000000 ≤ now)
deriving Decidable

def settlementUnresolved : Prop :=
  ∃ o ∈ ordersOf db accountId, o.settlementStatus.resolved = false
deriving Decidable

/-- The limits a mark and the account breach, in the order of the code. -/
def breachReasons (account : Account) (wallet : Wallet) (deployment : DeploymentManifest)
    (instrument : InstrumentSpec) (market : ExecutableMarketSnapshot) (mark : Mark) (now : ℕ) :
    List String :=
  reasonIf (mark.dailyLossLimit ≤ mark.dailyLoss) "maximum_daily_loss"
  ++ reasonIf (mark.drawdownLimit ≤ mark.drawdown) "maximum_drawdown"
  ++ reasonIf (ctxMul account.capital (min (30 / 100) deployment.riskBudget.maximumPositionFraction)
      < ctxAdd (ctxMul (wallet.amount instrument.baseAsset) market.bid)
        (pendingExposure db account.accountId))
    "maximum_position_exposure"
  ++ reasonIf (wallet.amount instrument.quoteAsset < account.reservedQuote)
    "cash_reservation_exceeds_actual_wallet"
  ++ reasonIf (executionUnresolved db account.accountId now) "execution_requires_reconciliation"
  ++ reasonIf (settlementUnresolved db account.accountId) "settlement_requires_reconciliation"

/-- The mode a list of breaches asks for. -/
def breachMode (account : Account) (reasons : List String) : RiskMode :=
  if account.mode = .halted then .halted
  else if "execution_requires_reconciliation" ∈ reasons
      ∨ "settlement_requires_reconciliation" ∈ reasons
      ∨ "cash_reservation_exceeds_actual_wallet" ∈ reasons then .halted
  else if reasons ≠ [] then .reduceOnly
  else account.mode

/-- The risk state of an account, as its tenant sees it. -/
def stateOf (account : Account) : Option RiskState :=
  (db.riskState.find? account.accountId).filter (fun s => s.tenantId = account.tenantId)

def evaluateLocked (db : DB) (account : Account) (deployment : DeploymentManifest)
    (instrument : InstrumentSpec) (market : ExecutableMarketSnapshot) (now : ℕ) : Report :=
  let state := stateOf db account
  let wallet := db.wallet account.accountId
  let reasons := unusableReasons env account state wallet deployment instrument market now
  if reasons = [] ∧ ∃ s ∈ state, market.asofNs < s.market.asofNs then
    -- an observer that waited behind a newer mark retries with a current one
    { safeNewRisk := false, mode := account.mode, reasons := ["superseded_market_observation"]
      mark := none, state := state, observationDiscarded := true }
  else if reasons ≠ [] then
    { safeNewRisk := false, mode := .halted, reasons := reasons
      mark := none, state := state, observationDiscarded := false }
  else
    let equity := ctxAdd (wallet.amount instrument.quoteAsset)
      (ctxMul (wallet.amount instrument.baseAsset) market.bid)
    if 10 ^ 20 ≤ |equity| then
      { safeNewRisk := false, mode := .halted, reasons := ["unsupported_valuation_precision"]
        mark := none, state := state, observationDiscarded := false }
    else
      let mark := markOf account state deployment (floorTo 18 equity) now
      let breaches := breachReasons db account wallet deployment instrument market mark now
      { safeNewRisk := breachMode account breaches = .active
        mode := breachMode account breaches
        reasons := breaches
        mark := some mark
        state := state
        observationDiscarded := false }

variable (tenant : String) (deployment : DeploymentManifest) (market : ExecutableMarketSnapshot)

/-- The row a mark writes to `risk_state`. -/
def markedState (mark : Mark) (latched : List String) (now : ℕ) : RiskState where
  accountId := deployment.accountId
  tenantId := tenant
  policyHash := deployment.riskPolicyHash
  dayUtc := mark.dayUtc
  dayStartEquity := mark.dayStartEquity
  highWaterEquity := mark.highWaterEquity
  lastEquity := mark.equity
  lastMarkNs := now
  market := market
  latchedReasons := latched

/-- `UPDATE risk_state SET latched_reasons = …`. -/
def setLatched (latched : List String) : DB :=
  let riskState := db.riskState.update accountId
    (fun s => { s with latchedReasons := latched }) (fun _ => rfl)
  { db with riskState := riskState }

/-- What `check` writes of a report to `risk_state`. -/
def recordReport (report : Report) (latched : List String) (now : ℕ) : DB :=
  match report.mark with
  | some mark =>
    let values := markedState tenant deployment market mark latched now
    let riskState := (db.riskState.insertOnce values).update deployment.accountId
      (fun s => { values with accountId := s.accountId }) (fun _ => rfl)
    { db with riskState := riskState }
  | none =>
    match report.state with
    | some _ => setLatched db deployment.accountId latched
    | none => db

/-- The reasons latched so far, and the new ones. -/
def latch (old : Option RiskState) (reasons : List String) : List String :=
  fromkeys ((old.map (·.latchedReasons)).getD [] ++ reasons)

/-- **`check`**: evaluate under the account lock and record the outcome. A
discarded observation records nothing. -/
def check (instrument : InstrumentSpec) (market : ExecutableMarketSnapshot) (nowNs : Option ℕ)
    (time : ℕ) (db : DB) : Except Exc (Report × DB) := do
  let account ← accountOf db tenant deployment.accountId
  let now := nowOf nowNs time
  ensureActiveDeployment db tenant deployment.accountId deployment.deploymentId
  let report := evaluateLocked env db account deployment instrument market now
  if report.observationDiscarded then
    return (report, db)
  else
    let db := recordReport db tenant deployment market report (latch report.state report.reasons) now
    if report.mode ≠ account.mode then
      return (report, (db.setMode deployment.accountId report.mode).event tenant
        deployment.accountId .riskStop time)
    else
      return (report, db)

def ensureNewRiskLocked (db : DB) (account : Account) (deployment : DeploymentManifest)
    (instrument : InstrumentSpec) (market : ExecutableMarketSnapshot) (now : ℕ) :
    Except Exc Unit := do
  let report := evaluateLocked env db account deployment instrument market now
  raiseIf (report.observationDiscarded = true)
    (.staleMarketObservation "superseded_market_observation")
  raiseIf (report.safeNewRisk = false)
    (.riskBudgetExceeded ("risk_budget_or_health_stop:" ++ ",".intercalate report.reasons))

/-- **`stop`**: latch an observed stop, never below one already in force. -/
def stop (tenant accountId : String) (reasons : List String) (mode : RiskMode)
    (deploymentId : Option String) (time : ℕ) (db : DB) : Except Exc DB := do
  raiseIf ((mode ≠ .halted ∧ mode ≠ .reduceOnly) ∨ reasons = []) (.valueError "invalid_risk_stop")
  let account ← accountOf db tenant accountId
  match deploymentId.map (ensureActiveDeployment db tenant accountId) with
  | some (.error _) => return db
  | _ =>
    let latched := latch (db.riskState.find? accountId) reasons
    let selected := if account.mode = .halted then .halted else mode
    return (setLatched (db.setMode accountId selected) accountId latched).event tenant accountId
      .riskStop time

end RiskGuard

end Qt
