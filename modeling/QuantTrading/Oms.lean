import QuantTrading.Risk

/-!
# The transactions of the OMS

`qt.execution.oms`, one transaction at a time. A call of the OMS is a
sequence of these with adapter calls in between; how calls interleave is the
subject of the next module, and nothing here depends on it.

The order row is the durable outbox. `RESERVED` may be sent once, by the
writer that moves it to `SUBMITTING`; what is `SUBMITTING`, `UNKNOWN` or
`CANCEL_PENDING` may only be queried.

Where a transaction reads the host clock more than once, the model reads it
once. The read of `get_order` in front of a transaction supplies the account
id of the row, which never changes, and is part of the transaction here.
-/

namespace Qt

open Except (raiseIf)
open SigDigits

/-! ## Validation -/

/-- `_ceil`: up to the quantum of money. -/
def ceil (x : ℚ) : ℚ := ceilTo 18 x

/-- `_text`: not blank, and not too long. -/
def checkText (value : String) (maximum : ℕ) : Except Exc Unit :=
  raiseIf (value.toList.all isSpace = true ∨ maximum < value.length) (.valueError "invalid_identity")

/-- `_amount`: a nonnegative – or positive – value that money columns hold. -/
def checkAmount (value : ℚ) (positive : Bool) : Except Exc Unit := do
  raiseIf (value < 0 ∨ (positive = true ∧ value ≤ 0))
    (.valueError "amount_requires_finite_nonnegative_decimal")
  raiseIf (¬ Fits value) (.valueError "amount_exceeds_exact_numeric_precision")

/-- What the OMS reads of an adapter besides calling it. -/
structure Adapter where
  executionMode : Option String
deriving DecidableEq

/-- An instance of the OMS: its constructor arguments. -/
structure OMS where
  fundedGate : Option (DeploymentManifest → Adapter → Bool)
  dailyEntryFraction : ℚ
  fraction_fits : Fits dailyEntryFraction
  fraction_pos : 0 < dailyEntryFraction
  fraction_le_one : dailyEntryFraction ≤ 1

variable (env : Env) (db : DB)

/-- `_order`: the row of an intent, of its tenant and with its content intact. -/
def orderOf (tenant intentId : String) : Except Exc Order :=
  match db.orders.find? intentId with
  | some row =>
    if row.tenantId = tenant then do
      raiseIf (env.contentHash (.envelope row.payload) ≠ row.sha256)
        (.conflict "order_content_integrity_failure")
      return row
    else .error (.keyError "order_not_found")
  | none => .error (.keyError "order_not_found")

variable (account : Account)

/-- `_lease`: the caller holds the execution lease. -/
def checkLease (token : String) (now : ℕ) : Except Exc Unit :=
  raiseIf (account.leaseToken ≠ some token ∨ account.leaseUntilNs ≤ now)
    (.conflict "account_execution_lease_lost")

/-- `_identity_matches`: a venue speaks of the order of the row. -/
def identityMatches (row : Order) (identity : OrderIdentity) : Except Exc Unit :=
  raiseIf (identity.intentId ≠ row.intentId ∨ identity.accountId ≠ row.accountId
      ∨ identity.venue ≠ row.venue
      ∨ (row.venueOrderId ≠ none ∧ identity.venueOrderId ≠ row.venueOrderId))
    (.valueError "adapter_order_identity_mismatch")

/-- A specification is in effect. -/
def outsideInterval (effectiveFromNs : ℕ) (effectiveToNs : Option ℕ) (now : ℕ) : Prop :=
  now < effectiveFromNs ∨ ∃ t ∈ effectiveToNs, t ≤ now
deriving Decidable

/-- `_verify`: the intent, its specifications, its deployment and the market
belong together, and all of them hold now. -/
def verify (intent : OrderIntent) (instrument : InstrumentSpec) (fees : FeeSchedule)
    (deployment : DeploymentManifest) (market : ExecutableMarketSnapshot) (now : ℕ) :
    Except Exc Unit := do
  raiseIf (intent.venue ≠ instrument.venue ∨ intent.instrument ≠ instrument.instrument)
    (.valueError "instrument_identity_mismatch")
  raiseIf (intent.instrumentSpecHash ≠ env.contentHash (.instrument instrument))
    (.valueError "instrument_version_mismatch")
  raiseIf (intent.feeScheduleHash ≠ env.contentHash (.fees fees)
      ∨ intent.feeScheduleHash ∉ deployment.feeScheduleHashes)
    (.valueError "fee_version_mismatch")
  raiseIf (intent.accountId ≠ deployment.accountId ∨ intent.venue ≠ deployment.venue
      ∨ intent.deploymentId ≠ deployment.deploymentId
      ∨ intent.strategyHash ≠ deployment.strategyHash
      ∨ intent.policyHash ≠ deployment.riskPolicyHash)
    (.valueError "deployment_identity_mismatch")
  raiseIf (market.venue ≠ intent.venue ∨ market.instrument ≠ intent.instrument
      ∨ market.feeScheduleHash ≠ intent.feeScheduleHash
      ∨ market.instrumentSpecHash ≠ intent.instrumentSpecHash)
    (.valueError "market_version_mismatch")
  raiseIf (market.bookValid = false ∨ ¬ (market.asofNs ≤ now ∧ now ≤ market.asofNs + 1000000000))
    (.valueError "market_is_not_fresh_and_trusted")
  raiseIf (¬ (intent.createdAtNs ≤ now ∧ now < intent.validUntilNs))
    (.valueError "order_not_current")
  raiseIf (outsideInterval instrument.effectiveFromNs instrument.effectiveToNs now
      ∨ outsideInterval fees.effectiveFromNs fees.effectiveToNs now)
    (.valueError "specification_not_effective")
  raiseIf (¬ (deployment.validFromNs ≤ now ∧ now < deployment.validUntilNs))
    (.valueError "deployment_not_current")
  raiseIf (fees.venue ≠ intent.venue ∨ fees.feeBasis ≠ .notional ∨ fees.fundingRules ≠ [])
    (.valueError "unsupported_fee_rules")
  raiseIf (fees.feeRules ≠ []) (.valueError "fee_rules_require_dedicated_verified_model")
  raiseIf (instrument.instrumentType ≠ .spot ∨ instrument.contractMultiplier.val ≠ 1)
    (.valueError "only_unlevered_spot_is_supported")
  raiseIf (instrument.tradingSessions ≠ ["24x7"]) (.valueError "unsupported_trading_session")
  raiseIf (fees.feeAsset ≠ instrument.baseAsset ∧ fees.feeAsset ≠ instrument.quoteAsset)
    (.valueError "unknown_fee_asset_funding")
  raiseIf (1 ≤ max fees.makerRate.val fees.takerRate.val) (.valueError "invalid_fee_rate")
  raiseIf (decimalMod intent.limitPrice instrument.priceIncrement ≠ 0
      ∨ decimalMod intent.quantity instrument.quantityIncrement ≠ 0)
    (.valueError "order_precision_mismatch")
  raiseIf (intent.quantity.val < instrument.minimumQuantity
      ∨ ctxMul intent.quantity intent.limitPrice < instrument.minimumNotional)
    (.valueError "order_below_venue_minimum")

/-! ## Journal and accounts -/

/-- The total of an asset over the entries of a journal transaction. -/
def journalTotal (entries : List (String × Bucket × ℚ)) (asset : String) : ℚ :=
  ((entries.filter (fun e => e.1 = asset)).map (fun e => e.2.2)).sum

/-- `_journal`: post a balanced transaction, once per source. -/
def journal (kind : JournalKind) (source : String) (entries : List (String × Bucket × ℚ)) (now : ℕ)
    : Except Exc DB := do
  raiseIf (∃ e ∈ entries, journalTotal entries e.1 ≠ 0) (.valueError "unbalanced_asset_journal")
  let transaction := env.contentHash (.ledgerKey account.accountId kind.text source)
  raiseIf (∃ t ∈ db.ledgerTransactions.rows, t.transactionId = transaction
      ∨ t.sourceKey = (account.accountId, kind, source)) (.integrityError "uq_v4_ledger_source")
  raiseIf (∃ e ∈ entries, ¬ Fits e.2.2) (.statementError "money_does_not_fit_numeric_38_18_exactly")
  return { db with
    ledgerTransactions := db.ledgerTransactions.insertOnce
      ⟨transaction, account.accountId, kind, source, now⟩
    ledgerEntries := db.ledgerEntries
      ++ entries.map (fun e => ⟨transaction, account.accountId, e.1, e.2.1, e.2.2⟩) }

/-- The row `create_account` inserts. -/
def newAccount (tenant accountId : String) (capital : ℚ) (quoteAsset : String) (now : ℕ) :
    Account where
  accountId := accountId
  tenantId := tenant
  quoteAsset := quoteAsset
  capital := capital
  mode := .active
  reservedQuote := 0
  dailyNewRisk := 0
  dayUtc := dayOf now
  leaseToken := none
  leaseOwner := none
  leaseUntilNs := 0
  reconciledNs := now

def createAccount (tenant accountId : String) (capital : ℚ) (quoteAsset : String) (time : ℕ)
    (db : DB) : Except Exc DB := do
  checkText tenant 80
  checkText accountId 100
  checkText quoteAsset 32
  checkAmount capital true
  let row := newAccount tenant accountId capital quoteAsset time
  let db := { db with accounts := db.accounts.insertOnce row }
  let account ← accountOf db tenant accountId
  raiseIf (account.capital ≠ capital ∨ account.quoteAsset ≠ quoteAsset)
    (.conflict "account_identity_conflict")
  if ∃ t ∈ db.ledgerTransactions.rows, t.accountId = accountId ∧ t.kind = .funding then
    return db
  else
    let db ← journal env db account .funding accountId
      [(quoteAsset, .wallet, capital), (quoteAsset, .equity, -capital)] time
    return db.event tenant accountId .accountCreated time

/-- **`claim_account`**. `proof` is the token the caller presents or the one
its instance remembers; `fresh` is the new token, should one be needed. -/
def claimAccount (tenant accountId owner : String) (ttlSeconds : ℕ) (leaseToken proof : Option String)
    (fresh : String) (time : ℕ) (db : DB) : Except Exc DB := do
  checkText owner 160
  raiseIf (¬ (1 ≤ ttlSeconds ∧ ttlSeconds ≤ 300)) (.valueError "invalid_lease_ttl")
  let account ← accountOf db tenant accountId
  let proof := if leaseToken ≠ none then leaseToken else proof
  let held := time < account.leaseUntilNs
  raiseIf (held ∧ (account.leaseOwner ≠ some owner ∨ proof ≠ account.leaseToken))
    (.conflict "account_execution_lease_held")
  raiseIf (¬ held ∧ leaseToken ≠ none ∧ leaseToken ≠ account.leaseToken)
    (.conflict "account_execution_lease_lost")
  let token := if held then account.leaseToken else some fresh
  return (db.setAccount accountId (fun a => { a with
      leaseOwner := some owner, leaseToken := token
      leaseUntilNs := time + ttlSeconds * 1000000000 })).event tenant accountId
    .executionLeaseClaimed time

/-! ## Reservation -/

/-- The arguments of `reserve`. -/
structure ReserveCall where
  self : OMS
  tenant : String
  intent : OrderIntent
  instrument : InstrumentSpec
  fees : FeeSchedule
  deployment : DeploymentManifest
  market : ExecutableMarketSnapshot
  nowNs : Option ℕ

variable (c : ReserveCall)

/-- The content an order row is reserved with. -/
def ReserveCall.envelope : Envelope :=
  ⟨c.intent, c.instrument, c.fees, c.deployment⟩

/-- The scheduled rate a reservation allows for: never a rebate. -/
def FeeSchedule.rate (fees : FeeSchedule) : ℚ :=
  max (max 0 fees.makerRate.val) fees.takerRate.val

/-- The factor by which the fee enlarges a reservation in an asset. -/
def FeeSchedule.factor (fees : FeeSchedule) (asset : String) : ℚ :=
  if fees.feeAsset = asset then 1 + fees.rate else 1

/-- The notional of the intent. -/
def ReserveCall.gross : ℚ := ctxMul c.intent.quantity c.intent.limitPrice

/-- The cash a buy reserves. -/
def ReserveCall.reservedQuote : ℚ :=
  if c.intent.side = .buy then ceil (ctxMul c.gross (c.fees.factor c.instrument.quoteAsset)) else 0

/-- The inventory a sale reserves. -/
def ReserveCall.reservedBase : ℚ :=
  if c.intent.side = .sell then
    ceil (ctxMul c.intent.quantity (c.fees.factor c.instrument.baseAsset))
  else 0

/-- The order row `_reserve` inserts. -/
def ReserveCall.row (now : ℕ) : Order where
  intentId := c.intent.intentId
  accountId := c.intent.accountId
  tenantId := c.tenant
  deploymentId := c.intent.deploymentId
  signalId := c.intent.signalId
  legNo := c.intent.legNo
  venue := c.intent.venue
  instrument := c.intent.instrument
  side := c.intent.side
  quantity := c.intent.quantity
  filledQuantity := 0
  reservedQuote := c.reservedQuote
  reservedBase := c.reservedBase
  riskReservationId := c.intent.riskReservationId
  status := .reserved
  settlementStatus := .notRequired
  payload := c.envelope
  sha256 := env.contentHash (.envelope c.envelope)
  venueOrderId := none
  createdNs := now
  updatedNs := now
  lastReconciledNs := 0

/-- An order of the account awaits reconciliation. -/
def hasUncertain (accountId : String) : Prop :=
  ∃ o ∈ db.orders.rows, o.accountId = accountId ∧ o.status.uncertain = true
deriving Decidable

/-- The unique constraints of `orders` besides the primary key. -/
def Order.conflicts (o row : Order) : Prop :=
  o.riskReservationId = row.riskReservationId
    ∨ (o.accountId = row.accountId ∧ o.deploymentId = row.deploymentId
      ∧ o.signalId = row.signalId ∧ o.legNo = row.legNo)
deriving Decidable

/-- `insert_once` on `orders`. -/
def insertOrderOnce (row : Order) : Except Exc DB := do
  raiseIf (¬ row.Valid) (.integrityError "ck_v4_order_quantity")
  if ∃ o ∈ db.orders.rows, o.conflicts row then
    return db
  else
    return { db with orders := db.orders.insertOnce row }

/-- The checks of `_reserve` up to the sizing of the order. -/
def reserveAdmissible (db : DB) (account : Account) (now : ℕ) : Except Exc Unit := do
  verify env c.intent c.instrument c.fees c.deployment c.market now
  if c.intent.side = .buy then
    RiskGuard.ensureNewRiskLocked env db account c.deployment c.instrument c.market now
  raiseIf (c.deployment.mode = .liveCanary ∧ c.self.fundedGate.isNone)
    (.valueError "funded_execution_not_verified")
  raiseIf (account.quoteAsset ≠ c.instrument.quoteAsset
      ∨ c.deployment.riskBudget.currency ≠ account.quoteAsset
      ∨ c.deployment.riskBudget.capital.val ≠ account.capital
      ∨ 1 < c.deployment.riskBudget.maximumLeverage.val)
    (.valueError "account_risk_currency_or_capital_mismatch")
  raiseIf (∃ o ∈ db.orders.rows, o.accountId = c.intent.accountId
      ∧ o.deploymentId = c.intent.deploymentId ∧ o.signalId = c.intent.signalId
      ∧ o.legNo = c.intent.legNo)
    (.conflict "signal_leg_already_reserved")
  raiseIf (∃ o ∈ db.orders.rows, o.riskReservationId = c.intent.riskReservationId)
    (.conflict "risk_reservation_identity_conflict")
  raiseIf (hasUncertain db c.intent.accountId) (.valueError "account_requires_reconciliation")
  raiseIf (account.mode = .halted
      ∨ ((account.mode = .reduceOnly ∨ account.mode = .emergencyExit) ∧ c.intent.side ≠ .sell))
    (.valueError "risk_mode_blocks_new_order")
  raiseIf (c.intent.reduceOnly = true ∧ c.intent.side ≠ .sell)
    (.valueError "spot_reduce_only_requires_owned_inventory_sale")

/-- The inventory orders of the account hold reserved in an asset. -/
def baseReserved (accountId baseAsset : String) : ℚ :=
  db.orders.sumOf (fun o => o.accountId = accountId ∧ o.payload.instrument.baseAsset = baseAsset)
    (·.reservedBase)

/-- The entry risk already taken today. -/
def dailyRisk (now : ℕ) : ℚ :=
  if account.dayUtc = dayOf now then account.dailyNewRisk else 0

/-- The sizing checks of `_reserve` for a buy, and the daily counter. -/
def reserveBuy (db : DB) (account : Account) (now : ℕ) : Except Exc DB := do
  let wallet := db.wallet c.intent.accountId
  raiseIf (wallet.amount account.quoteAsset - account.reservedQuote < c.reservedQuote)
    (.valueError "insufficient_unreserved_cash")
  let exposure := ctxAdd (ctxAdd
      (ctxMul (wallet.amount c.instrument.baseAsset) (max c.market.ask.val c.intent.limitPrice.val))
      (RiskGuard.pendingExposure db c.intent.accountId)) c.gross
  raiseIf (ctxMul account.capital
      (min (30 / 100) c.deployment.riskBudget.maximumPositionFraction) < exposure)
    (.valueError "maximum_position_notional_exceeded")
  let daily := ctxAdd (dailyRisk account now) c.gross
  raiseIf (ctxMul account.capital c.self.dailyEntryFraction < daily)
    (.valueError "daily_entry_budget_exhausted")
  db.setAccountMoney c.intent.accountId
    (fun a => { a with dailyNewRisk := daily, dayUtc := dayOf now })

/-- The sizing check of `_reserve` for a sale. -/
def reserveSell (db : DB) : Except Exc DB := do
  raiseIf ((db.wallet c.intent.accountId).amount c.instrument.baseAsset
      - baseReserved db c.intent.accountId c.instrument.baseAsset < c.reservedBase)
    (.valueError "insufficient_unreserved_owned_inventory")
  return db

/-- The wallet and size checks of `_reserve` common to both sides. -/
def reserveSizable (db : DB) (account : Account) : Except Exc Unit := do
  let wallet := db.wallet c.intent.accountId
  raiseIf (wallet.anyValue (· < 0)) (.valueError "negative_wallet_requires_reconciliation")
  raiseIf (∃ a ∈ wallet.assets, (a ≠ c.instrument.baseAsset ∧ a ≠ c.instrument.quoteAsset)
      ∧ 0 < wallet.amount a)
    (.valueError "multiasset_valuation_is_not_verified")
  raiseIf (ctxMul account.capital
      (min (2 / 100) c.deployment.riskBudget.maximumOrderFraction) < c.gross)
    (.valueError "maximum_order_notional_exceeded")

/-- The part of `_reserve` that takes the reservation. -/
def insertReservation (account : Account) (now time : ℕ) (db : DB) : Except Exc (Order × DB) := do
  let db ← db.setAccountMoney c.intent.accountId
    (fun a => { a with reservedQuote := account.reservedQuote + c.reservedQuote })
  let row := c.row env now
  let db ← insertOrderOnce db row
  raiseIf (∀ o ∈ db.orders.find? c.intent.intentId, o.tenantId ≠ c.tenant
      ∨ o.sha256 ≠ env.contentHash (.envelope c.envelope))
    (.conflict "order_or_reservation_identity_conflict")
  return (row, db.event c.tenant c.intent.intentId .orderReserved time)

/-- **`_reserve`**: the transaction that takes the reservation, or returns the
one already taken for the same intent. -/
def reserveLocked (time : ℕ) (db : DB) : Except Exc (Order × DB) := do
  checkText c.intent.intentId 160
  checkText c.intent.accountId 100
  checkText c.intent.riskReservationId 160
  let account ← accountOf db c.tenant c.intent.accountId
  let now := nowOf c.nowNs time
  ensureActiveDeployment db c.tenant c.intent.accountId c.intent.deploymentId
  match db.orders.find? c.intent.intentId with
  | some existing =>
    raiseIf (existing.tenantId ≠ c.tenant
        ∨ existing.sha256 ≠ env.contentHash (.envelope c.envelope))
      (.conflict "order_identity_conflict")
    return (existing, db)
  | none =>
    reserveAdmissible env c db account now
    reserveSizable c db account
    let db ← if c.intent.side = .buy then reserveBuy c db account now else reserveSell c db
    insertReservation env c account now time db

/-! ## Release, settlement, uncertainty -/

/-- `_release`: end the reservation of an order, with a terminal status. -/
def release (order : Order) (status : OrderStatus) (now : ℕ) : Except Exc DB := do
  let db ← db.setAccountMoney account.accountId
    (fun a => { a with reservedQuote := account.reservedQuote - order.reservedQuote })
  db.setOrderMoney order.intentId
    (fun o => { o with status := status, reservedQuote := 0, reservedBase := 0, updatedNs := now })

/-- A failed or reorganised settlement. -/
def SettlementStatus.broken : SettlementStatus → Bool
  | .failed | .reorged => true
  | _ => false

/-- The settlement status of an order after a report: what `_settlement`
returns. -/
def settlementAfter (current incoming : SettlementStatus) (authoritative : Bool) :
    SettlementStatus :=
  if incoming = .notRequired ∨ (current = .confirmed ∧ incoming = .pending) then current
  else if current.broken = true ∧ incoming.broken = false
      ∧ (authoritative = false ∨ incoming ≠ .confirmed) then current
  else incoming

variable (tenant : String)

/-- `_settlement`: record a settlement report, and halt on a broken one. -/
def settlement (row : Order) (incoming : SettlementStatus) (authoritative : Bool) (now : ℕ) : DB :=
  let status := settlementAfter row.settlementStatus incoming authoritative
  let db := if status ≠ row.settlementStatus then
      (db.setOrder row.intentId (fun o => { o with settlementStatus := status })).event tenant
        row.intentId .settlementObserved now
    else db
  if status = incoming ∧ incoming.broken = true then db.setMode row.accountId .halted else db

/-- **`_uncertain`**: an outcome is unknown. The order keeps its reservation
and the account halts, unless a later event has settled the matter. -/
def uncertain (tenant intentId : String) (expected : Option OrderStatus) (time : ℕ) (db : DB) :
    Except Exc DB := do
  let found ← orderOf env db tenant intentId
  let account ← accountOf db tenant found.accountId
  if found.status.terminal = true
      ∨ (∃ s ∈ expected, found.status ≠ s ∧ found.status ≠ .unknown) then
    return db.event tenant intentId .lateTransportFailureIgnored time
  else
    return ((db.setOrder intentId (fun o => { o with status := .unknown, updatedNs := time })).setMode
      account.accountId .halted).event tenant intentId .executionUncertain time

/-! ## Submission -/

/-- The arguments of `submit`. -/
structure SubmitCall where
  self : OMS
  tenant : String
  intentId : String
  adapter : Adapter
  leaseToken : String
  nowNs : Option ℕ

/-- How the first transaction of `_submit` ends: with a result, or with the
intent claimed. -/
inductive Claim
  | returned (row : Order)
  | claimed (row : Order)

/-- The daily counter after a shadow intent is released. -/
def releaseDaily (row : Order) (now : ℕ) : Except Exc DB :=
  if row.payload.intent.side = .buy ∧ account.dayUtc = dayOf now then
    db.setAccountMoney row.accountId (fun a => { a with
      dailyNewRisk := max 0
        (account.dailyNewRisk - ctxMul row.payload.intent.quantity row.payload.intent.limitPrice) })
  else .ok db

/-- The checks of the claim that precede the dispatch on the deployment mode. -/
def claimAdmissible (c : SubmitCall) (market : Option ExecutableMarketSnapshot) (db : DB)
    (account : Account) (row : Order) (now : ℕ) : Except Exc Unit := do
  raiseIf (account.mode = .halted ∨ (account.mode ≠ .active ∧ row.payload.intent.side ≠ .sell))
    (.valueError "risk_mode_blocks_submission")
  match market with
  | some market =>
    if row.payload.intent.side = .buy then
      RiskGuard.ensureNewRiskLocked env db account row.payload.deployment row.payload.instrument
        market now
  | none => pure ()
  raiseIf (∃ o ∈ db.orders.rows, o.accountId = row.accountId ∧ o.intentId ≠ c.intentId
      ∧ o.status.uncertain = true)
    (.valueError "account_requires_reconciliation")

/-- The adapter is one the deployment may send to. -/
def adapterAdmissible (c : SubmitCall) (deployment : DeploymentManifest) : Except Exc Unit := do
  raiseIf (deployment.mode = .paper ∧ c.adapter.executionMode ≠ some "paper")
    (.valueError "paper_deployment_requires_explicit_paper_adapter")
  raiseIf (deployment.mode = .liveCanary ∧ (c.adapter.executionMode ≠ some "live"
      ∨ ∀ gate ∈ c.self.fundedGate, gate deployment c.adapter = false))
    (.valueError "funded_execution_not_verified")

/-- **The first transaction of `_submit`.** It ends an intent that may not be
sent any more – expired, or of a shadow deployment – and claims one that may,
by the compare-and-swap from `RESERVED` to `SUBMITTING`. -/
def submitClaim (c : SubmitCall) (market : Option ExecutableMarketSnapshot) (time : ℕ) (db : DB) :
    Except Exc (Claim × DB) := do
  let row ← orderOf env db c.tenant c.intentId
  let account ← accountOf db c.tenant row.accountId
  let now := nowOf c.nowNs time
  ensureActiveDeployment db c.tenant row.accountId row.deploymentId
  checkLease account c.leaseToken now
  if row.status ≠ .reserved then
    return (.returned row, db)
  else if row.payload.intent.validUntilNs ≤ now then
    let db ← release db account row .expired now
    return (.returned row, db.event c.tenant c.intentId .orderExpiredUnsent time)
  else
    claimAdmissible env c market db account row now
    if row.payload.deployment.mode = .shadow then
      let db ← release db account row .canceled now
      let db ← releaseDaily db account row now
      return (.returned row, db.event c.tenant c.intentId .shadowIntentEvaluated time)
    else
      adapterAdmissible c row.payload.deployment
      raiseIf (db.orders.rows.countP (fun o => o.intentId = c.intentId ∧ o.status = .reserved) ≠ 1)
        (.conflict "submission_compare_and_swap_failed")
      return (.claimed row, (db.setOrder c.intentId (fun o =>
        if o.status = .reserved then { o with status := .submitting, updatedNs := now } else o)
        (by intro o; split_ifs <;> rfl)).event c.tenant c.intentId .orderSubmitting time)

/-- How the fence in front of the send decides. -/
inductive Fence
  | returned
  | aborted
  | clear

/-- The outcome of re-verifying an intent in front of its send: nothing, or
the reason and the mode to abort with. -/
def presendOutcome (side : Side) (checked : Except Exc Unit) : Option (String × RiskMode) :=
  let blocked := account.mode = .halted ∨ (account.mode ≠ .active ∧ side ≠ .sell)
  let reason (other : String) := if blocked then "risk_mode_changed_before_send" else other
  match checked with
  | .ok _ => if blocked then some ("risk_mode_changed_before_send", account.mode) else none
  | .error (.staleMarketObservation _) =>
    some (reason "superseded_market_observation_before_send", account.mode)
  | .error (.riskBudgetExceeded _) => some (reason "risk_budget_changed_before_send",
      if account.mode = .halted then .halted else .reduceOnly)
  | .error _ => some (reason "market_or_risk_changed_before_send", .halted)

/-- The name under which market health is published. -/
def marketHealthName (row : Order) : String := "market:" ++ row.venue ++ ":" ++ row.instrument

/-- The re-verification itself: on the market published last, or on the one
already checked where none is. -/
def presendCheck (c : SubmitCall) (row : Order) (market : Option ExecutableMarketSnapshot) (db : DB)
    (account : Account) (now : ℕ) : Except Exc Unit := do
  let latest ← match db.runtimeHealth.find? (c.tenant, marketHealthName row) with
    | some health => match health.payload with
      | some m => .ok m
      | none => .error (.valueError "market_payload_invalid")
    | none => match market with
      | some m => .ok m
      | none => .error (.valueError "trusted_market_required_before_send")
  verify env row.payload.intent row.payload.instrument row.payload.fees row.payload.deployment
    latest now
  if row.payload.intent.side = .buy then
    RiskGuard.ensureNewRiskLocked env db account row.payload.deployment row.payload.instrument
      latest now

/-- **The second transaction of `_submit`**: recheck the lease, the head, the
mode and the market immediately before the side effect. `row` is the row as it
was claimed. -/
def submitPresend (c : SubmitCall) (row : Order) (market : Option ExecutableMarketSnapshot)
    (time : ℕ) (db : DB) : Except Exc (Fence × DB) := do
  let account ← accountOf db c.tenant row.accountId
  let current ← orderOf env db c.tenant c.intentId
  let now := nowOf c.nowNs time
  checkLease account c.leaseToken time
  ensureActiveDeployment db c.tenant row.accountId row.deploymentId
  if current.status ≠ .submitting then
    return (.returned, db)
  else
    match presendOutcome account row.payload.intent.side
        (presendCheck env c row market db account now) with
    | none => return (.clear, db)
    | some (_, mode) =>
      -- no network call has started: end the reservation as never sent
      let db ← release db account current .canceled now
      return (.aborted, (db.setMode row.accountId mode).event c.tenant c.intentId
        .orderAbortedBeforeSend time)

/-- **The third transaction of `_submit`**: record the answer of the venue. A
fill may have advanced the order while it was awaited. -/
def submitResult (c : SubmitCall) (row : Order) (result : SubmitResult) (time : ℕ) (db : DB) :
    Except Exc DB := do
  let account ← accountOf db c.tenant row.accountId
  let current ← orderOf env db c.tenant c.intentId
  checkLease account c.leaseToken time
  identityMatches current result.identity
  let db := if result.identity.venueOrderId ≠ none then
      db.setOrder c.intentId (fun o => { o with venueOrderId := result.identity.venueOrderId })
    else db
  let db ← if current.status = .submitting then do
      let db ← if result.status = .rejected then release db account current .rejected time
        else .ok (db.setOrder c.intentId (fun o => { o with
          status := if result.status = .accepted then .acknowledged else .unknown
          venueOrderId := result.identity.venueOrderId, updatedNs := time }))
      if result.status = .unknown then .ok (db.setMode row.accountId .halted) else .ok db
    else .ok db
  return db.event c.tenant c.intentId .submissionResult time

/-! ## Cancellation -/

/-- The arguments of `cancel`. -/
structure CancelCall where
  tenant : String
  intentId : String
  leaseToken : String

/-- How the first transaction of `cancel` ends. -/
inductive CancelClaim
  | returned
  | dispatched (row : Order)

/-- **The first transaction of `cancel`**: an order not sent is canceled here,
one that is open is marked and its cancel dispatched. -/
def cancelClaim (c : CancelCall) (time : ℕ) (db : DB) : Except Exc (CancelClaim × DB) := do
  let row ← orderOf env db c.tenant c.intentId
  let account ← accountOf db c.tenant row.accountId
  checkLease account c.leaseToken time
  if row.status.terminal = true then
    return (.returned, db)
  else if row.status = .reserved then
    let db ← release db account row .canceled time
    return (.returned, db.event c.tenant c.intentId .unsentOrderCanceled time)
  else if row.status.uncertain = true then
    return (.returned, db)
  else
    return (.dispatched row, (db.setOrder c.intentId (fun o => { o with
      status := .cancelPending, updatedNs := time })).event c.tenant c.intentId .cancelPending time)

/-- **The second transaction of `cancel`**: record the answer of the venue. -/
def cancelResult (c : CancelCall) (row : Order) (result : CancelResult) (time : ℕ) (db : DB) :
    Except Exc DB := do
  let account ← accountOf db c.tenant row.accountId
  let current ← orderOf env db c.tenant c.intentId
  checkLease account c.leaseToken time
  let db ← if current.status = .cancelPending ∧ result.status = .confirmed then
      release db account current .canceled time
    else if current.status = .cancelPending ∧ result.status = .rejected then
      .ok (db.setOrder c.intentId (fun o => { o with
        status := if current.filledQuantity ≠ 0 then .partiallyFilled else .acknowledged }))
    else .ok db
  return db.event c.tenant c.intentId .cancelResult time

/-! ## Fills -/

/-- The arguments of `apply_fill`. -/
structure FillReport where
  venueTradeId : String
  quantity : ℚ
  price : ℚ
  fee : ℚ
  feeAsset : String
  baseAsset : String
  quoteAsset : String
  settlementStatus : SettlementStatus
deriving DecidableEq

/-- The cash of a fill: up for a buyer, down for a seller. -/
def fillGross (side : Side) (quantity price : ℚ) : ℚ :=
  match side with
  | .buy => ceilTo 18 (ctxMul quantity price)
  | .sell => floorTo 18 (ctxMul quantity price)

/-- The economic content of a reported fill. -/
def fillPayload (row : Order) (f : FillReport) : FillPayload where
  intentId := row.intentId
  quantity := f.quantity
  price := f.price
  fee := f.fee
  feeAsset := f.feeAsset
  baseAsset := f.baseAsset
  quoteAsset := f.quoteAsset
  cashNotional := fillGross row.side f.quantity f.price

def EventType.neverSent : EventType → Bool
  | .shadowIntentEvaluated | .orderAbortedBeforeSend | .unsentOrderCanceled
  | .orderExpiredUnsent => true
  | _ => false

/-- An intent carries evidence that it was never sent. -/
def provenNeverSent (tenant intentId : String) : Prop :=
  ∃ e ∈ db.events, e.tenantId = tenant ∧ e.entityId = intentId ∧ e.eventType.neverSent = true
deriving Decidable

/-- The journal entries of a fill. -/
def fillEntries (side : Side) (f : FillReport) : List (String × Bucket × ℚ) :=
  let sign : ℚ := match side with
    | .buy => 1
    | .sell => -1
  let gross := fillGross side f.quantity f.price
  [(f.baseAsset, .wallet, f.quantity * sign), (f.baseAsset, .counterparty, -f.quantity * sign),
   (f.quoteAsset, .wallet, -gross * sign), (f.quoteAsset, .counterparty, gross * sign),
   (f.feeAsset, .wallet, -f.fee), (f.feeAsset, .feeExpense, f.fee)]

/-- The cash reservation of an active buy with `filled` of it done. -/
def remainingQuote (row : Order) (filled : ℚ) : ℚ :=
  if row.status.terminal = false ∧ row.side = .buy then
    ceil (ctxMul (ctxMul (row.quantity - filled) row.payload.intent.limitPrice)
      (row.payload.fees.factor row.payload.instrument.quoteAsset))
  else 0

/-- The inventory reservation of an active sale with `filled` of it done. The
fraction that remains is computed first. -/
def remainingBase (row : Order) (filled : ℚ) : ℚ :=
  if row.status.terminal = false ∧ row.side = .sell then
    ceil (ctxMul (ctxMul row.quantity (ctxDiv (row.quantity - filled) row.quantity))
      (row.payload.fees.factor row.payload.instrument.baseAsset))
  else 0

/-- The status of an order after a fill. -/
def filledStatus (row : Order) (filled : ℚ) : OrderStatus :=
  if filled = row.quantity then .filled
  else if row.status.terminal = true ∨ row.status = .cancelPending then row.status
  else .partiallyFilled

/-- The fee the schedule allows on a fill, rounded up. -/
def scheduledFee (row : Order) (f : FillReport) : ℚ :=
  ceil (if f.feeAsset = f.quoteAsset then
      ctxMul (fillGross row.side f.quantity f.price) row.payload.fees.rate
    else ctxMul f.quantity row.payload.fees.rate)

/-- The price is worse than the limit of the order. -/
def worsePrice (row : Order) (price : ℚ) : Prop :=
  match row.side with
  | .buy => row.payload.intent.limitPrice.val < price
  | .sell => price < row.payload.intent.limitPrice.val

instance (row : Order) (price : ℚ) : Decidable (worsePrice row price) := by
  unfold worsePrice
  split <;> infer_instance

/-- A fill breaches the account or the terms of its order. The database is the
one with the fill posted and the reservation adjusted. -/
def fillBreach (row : Order) (f : FillReport) (accountReserved : ℚ) : Prop :=
  (db.wallet row.accountId).anyValue (· < 0)
    ∨ (db.wallet row.accountId).amount f.quoteAsset < accountReserved
    ∨ (db.wallet row.accountId).amount f.baseAsset < baseReserved db row.accountId f.baseAsset
    ∨ f.feeAsset ≠ row.payload.fees.feeAsset
    ∨ scheduledFee row f < f.fee
    ∨ worsePrice row f.price
deriving Decidable

/-- The row a fill inserts. -/
def fillRow (row : Order) (f : FillReport) (now : ℕ) : Fill where
  fillId := env.contentHash (.fillKey row.venue row.accountId f.venueTradeId)
  intentId := row.intentId
  venue := row.venue
  accountId := row.accountId
  venueTradeId := f.venueTradeId
  quantity := f.quantity
  price := f.price
  fee := f.fee
  feeAsset := f.feeAsset
  sha256 := env.contentHash (.fill (fillPayload row f))
  createdNs := now

/-- The validation of a reported fill, before its transaction. -/
def checkFill (f : FillReport) : Except Exc Unit := do
  checkText f.venueTradeId 200
  checkText f.feeAsset 32
  checkText f.baseAsset 32
  checkText f.quoteAsset 32
  checkAmount f.quantity true
  checkAmount f.price true
  checkAmount f.fee false

/-- The part of `apply_fill` that posts a trade not seen before. -/
def postFill (f : FillReport) (account : Account) (row : Order) (now : ℕ) (db : DB) :
    Except Exc (Fill × DB) := do
  raiseIf (row.status = .reserved) (.valueError "fill_for_never_submitted_order")
  raiseIf (provenNeverSent db tenant row.intentId) (.valueError "fill_for_proven_never_sent_order")
  let filled := row.filledQuantity + f.quantity
  raiseIf (row.quantity < filled) (.valueError "fill_exceeds_order_quantity")
  let fill := fillRow env row f now
  raiseIf (∃ g ∈ db.fills.rows, g.fillId = fill.fillId) (.integrityError "fills_pkey")
  let db := { db with fills := db.fills.insertOnce fill }
  let db ← journal env db account .trade fill.fillId (fillEntries row.side f) now
  let newQuote := remainingQuote row filled
  let newBase := remainingBase row filled
  let db := settlement db tenant row f.settlementStatus false now
  let db ← db.setOrderMoney row.intentId (fun o => { o with
    filledQuantity := filled, reservedQuote := newQuote, reservedBase := newBase
    status := filledStatus row filled
    settlementStatus := settlementAfter row.settlementStatus f.settlementStatus false
    updatedNs := now })
  let accountReserved := account.reservedQuote - row.reservedQuote + newQuote
  let db ← db.setAccountMoney row.accountId (fun a => { a with reservedQuote := accountReserved })
  let db := if fillBreach db row f accountReserved ∨ f.settlementStatus.broken = true then
      db.setMode row.accountId .halted
    else db
  return (fill, db.event tenant row.intentId .fillApplied now)

/-- **`apply_fill`**: ingest a reported trade, once. A repeated report moves
the settlement only. -/
def applyFill (tenant intentId : String) (f : FillReport) (time : ℕ) (db : DB) :
    Except Exc (Fill × DB) := do
  checkFill f
  let row ← orderOf env db tenant intentId
  let account ← accountOf db tenant row.accountId
  raiseIf (f.baseAsset ≠ row.payload.instrument.baseAsset
      ∨ f.quoteAsset ≠ row.payload.instrument.quoteAsset)
    (.valueError "fill_asset_identity_mismatch")
  checkAmount (fillGross row.side f.quantity f.price) true
  match db.fills.find? (row.venue, row.accountId, f.venueTradeId) with
  | some existing =>
    raiseIf (existing.sha256 ≠ env.contentHash (.fill (fillPayload row f)))
      (.conflict "venue_trade_identity_conflict")
    return (existing, settlement db tenant row f.settlementStatus false time)
  | none => postFill env tenant f account row time db

/-! ## Snapshots and reconciliation -/

/-- The checks a snapshot passes before it is applied. -/
def snapshotAdmissible (row : Order) (s : OrderSnapshot) (time : ℕ) : Except Exc Unit := do
  identityMatches row s.identity
  raiseIf (row.status = .reserved) (.valueError "snapshot_for_never_submitted_order")
  raiseIf (s.quantity.val ≠ row.quantity ∨ s.filledQuantity.val ≠ row.filledQuantity)
    (.valueError "snapshot_fill_ledger_difference_requires_fill_reconciliation")
  raiseIf (s.asofNs < row.createdNs ∨ time < s.asofNs) (.valueError "snapshot_time_is_not_causal")
  raiseIf (s.status = .created ∨ s.status = .reserved ∨ s.status = .submitting
      ∨ s.status = .unknown)
    (.valueError "snapshot_does_not_resolve_external_execution")
  raiseIf (row.status.terminal = true ∧ s.status ≠ row.status)
    (.valueError "snapshot_cannot_regress_terminal_order")
  raiseIf (s.status = .filled ∧ s.filledQuantity.val ≠ row.quantity)
    (.valueError "filled_snapshot_is_incomplete")
  raiseIf (s.status = .acknowledged ∧ 0 < s.filledQuantity.val)
    (.valueError "acknowledged_snapshot_cannot_erase_partial_fill_state")

/-- The part of `_snapshot` that records an admissible snapshot. -/
def recordSnapshot (row : Order) (s : OrderSnapshot) (time : ℕ) (db : DB) : DB :=
  let db := settlement db tenant row s.settlementStatus true time
  let db := db.setOrder row.intentId (fun o => { o with
    status := s.status, venueOrderId := s.identity.venueOrderId
    settlementStatus := settlementAfter row.settlementStatus s.settlementStatus true
    lastReconciledNs := s.asofNs, updatedNs := time })
  let db := if s.settlementStatus.broken = true then db.setMode row.accountId .halted else db
  db.event tenant row.intentId .orderReconciled time

/-- **`_snapshot`**: apply what the venue says an order is. -/
def applySnapshot (s : OrderSnapshot) (time : ℕ) (db : DB) : Except Exc DB := do
  let row ← orderOf env db tenant s.identity.intentId
  identityMatches row s.identity
  let account ← accountOf db tenant row.accountId
  if s.asofNs < row.lastReconciledNs
      ∨ (s.filledQuantity.val < row.filledQuantity ∧ s.asofNs < row.updatedNs) then
    return db.event tenant row.intentId .staleOrderSnapshotIgnored time
  else
    snapshotAdmissible row s time
    if row.status = .cancelPending ∧ s.status.terminal = false then
      -- an open order does not show that a cancel in flight failed
      return db
    else
      let db ← if s.status.terminal = true then release db account row s.status time else .ok db
      return recordSnapshot tenant row s time db

/-- An order of the account has an open or broken settlement. -/
def hasUnsettled (accountId : String) : Prop :=
  ∃ o ∈ db.orders.rows, o.accountId = accountId ∧ o.settlementStatus.resolved = false
deriving Decidable

def markReconciled (tenant accountId : String) (nowNs : Option ℕ) (time : ℕ) (db : DB) :
    Except Exc DB := do
  let now := nowOf nowNs time
  let _ ← accountOf db tenant accountId
  raiseIf (hasUncertain db accountId) (.valueError "unresolved_execution_states_remain")
  raiseIf (hasUnsettled db accountId) (.valueError "unresolved_settlement_states_remain")
  return (db.setAccount accountId (fun a => { a with reconciledNs := now })).event tenant accountId
    .accountReconciled time

/-- A deployment that is named is the active head. -/
def checkHead (tenant accountId : String) : Option String → Except Exc Unit
  | some deploymentId => ensureActiveDeployment db tenant accountId deploymentId
  | none => .ok ()

/-- **`set_mode`**: the only operation that may relax the mode of an account. -/
def setMode (tenant accountId : String) (mode : RiskMode) (reason : String)
    (deploymentId : Option String) (time : ℕ) (db : DB) : Except Exc DB := do
  raiseIf (reason.toList.all isSpace = true) (.valueError "invalid_risk_mode_or_reason")
  let _ ← accountOf db tenant accountId
  checkHead db tenant accountId deploymentId
  raiseIf (mode = .active ∧ (db.wallet accountId).anyValue (· < 0))
    (.valueError "negative_wallet_prevents_reactivation")
  raiseIf (mode = .active ∧ hasUncertain db accountId)
    (.valueError "uncertain_orders_prevent_reactivation")
  raiseIf (mode = .active ∧ hasUnsettled db accountId)
    (.valueError "unresolved_settlement_prevents_reactivation")
  return (db.setMode accountId mode).event tenant accountId .riskModeChanged time

/-- What `submit` reads before its risk check: the market published last, or
the one marked last. `none` is no market, `some none` one that is invalid. -/
def submissionMarket (row : Order) : Option (Option ExecutableMarketSnapshot) :=
  match db.runtimeHealth.find? (tenant, marketHealthName row) with
  | some health => some health.payload
  | none => (db.riskState.find? row.accountId).map (fun s => some s.market)

/-- `Repository.health`, for a market payload. -/
def publishHealth (tenant name : String) (payload : Option ExecutableMarketSnapshot) (db : DB) :
    DB :=
  let health := (db.runtimeHealth.insertOnce ⟨name, tenant, payload⟩).update (tenant, name)
    (fun h => { h with payload := payload }) (fun _ => rfl)
  { db with runtimeHealth := health }

end Qt
