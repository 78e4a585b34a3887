import QuantTrading.Contracts
import QuantTrading.Lib.Raise
import QuantTrading.Lib.Table

/-!
# The repository

The tables of `qt.persistence.schema` that the execution path reads or
writes, and the statements it runs on them. A transaction is a function from
the database to a result and a new database, or an exception; an exception
rolls everything back, so no new database comes with it.

Row locks and `RLock` make transactions atomic: the model runs each as one
step. A statement fails where the backend fails it – a money column that
does not fit `NUMERIC(38,18)`, a `CHECK` constraint – and what a statement
does not set stays.

A UTC day is its number since the epoch, which its ISO text determines.
-/

namespace Qt

open Except (raiseIf)

/-! ## Exceptions -/

/-- The exceptions of the execution path, with their texts. All but
`keyError`, `statementError` and `integrityError` are `ValueError`s. -/
inductive Exc
  | valueError (message : String)
  | conflict (message : String)
  | riskBudgetExceeded (message : String)
  | staleMarketObservation (message : String)
  | keyError (message : String)
  | statementError (message : String)
  | integrityError (constraint : String)
deriving DecidableEq, Repr

/-- `str.isspace`, for one character. -/
def isSpace (c : Char) : Bool :=
  c.toNat ∈ [0x09, 0x0a, 0x0b, 0x0c, 0x0d, 0x1c, 0x1d, 0x1e, 0x1f, 0x20, 0x85, 0xa0, 0x1680,
    0x2000, 0x2001, 0x2002, 0x2003, 0x2004, 0x2005, 0x2006, 0x2007, 0x2008, 0x2009, 0x200a,
    0x2028, 0x2029, 0x202f, 0x205f, 0x3000]

/-! ## Rows -/

/-- The kinds of audit events of the execution path. -/
inductive EventType
  | accountCreated | orderReserved | executionLeaseClaimed | settlementObserved
  | lateTransportFailureIgnored | executionUncertain | orderExpiredUnsent
  | shadowIntentEvaluated | orderSubmitting | orderAbortedBeforeSend | submissionResult
  | unsentOrderCanceled | cancelPending | cancelResult | fillApplied
  | staleOrderSnapshotIgnored | orderReconciled | accountReconciled | riskModeChanged
  | riskStop | deploymentActivated | deploymentDeactivated
deriving DecidableEq, Repr

/-- A row of `audit_events`. -/
structure Event where
  tenantId : String
  entityId : String
  eventType : EventType
  createdNs : ℕ
deriving DecidableEq

/-- A row of `risk_accounts`. -/
structure Account where
  accountId : String
  tenantId : String
  quoteAsset : String
  capital : ℚ
  mode : RiskMode
  reservedQuote : ℚ
  dailyNewRisk : ℚ
  dayUtc : ℕ
  leaseToken : Option String
  leaseOwner : Option String
  leaseUntilNs : ℕ
  reconciledNs : ℕ
deriving DecidableEq

/-- A row of `orders`. -/
structure Order where
  intentId : String
  accountId : String
  tenantId : String
  deploymentId : String
  signalId : String
  legNo : ℕ
  venue : String
  instrument : String
  side : Side
  quantity : ℚ
  filledQuantity : ℚ
  reservedQuote : ℚ
  reservedBase : ℚ
  riskReservationId : String
  status : OrderStatus
  settlementStatus : SettlementStatus
  payload : Envelope
  sha256 : Sha256
  venueOrderId : Option String
  createdNs : ℕ
  updatedNs : ℕ
  lastReconciledNs : ℕ
deriving DecidableEq

/-- A row of `fills`. -/
structure Fill where
  fillId : Sha256
  intentId : String
  venue : String
  accountId : String
  venueTradeId : String
  quantity : ℚ
  price : ℚ
  fee : ℚ
  feeAsset : String
  sha256 : Sha256
  createdNs : ℕ
deriving DecidableEq

/-- The kinds of journal transactions. -/
inductive JournalKind | funding | trade
deriving DecidableEq, Repr

/-- The text of a journal kind, as the column holds it. -/
def JournalKind.text : JournalKind → String
  | .funding => "funding"
  | .trade => "trade"

/-- A row of `ledger_transactions`. -/
structure LedgerTransaction where
  transactionId : Sha256
  accountId : String
  kind : JournalKind
  sourceId : String
  createdNs : ℕ
deriving DecidableEq

inductive Bucket | wallet | equity | counterparty | feeExpense
deriving DecidableEq, Repr

/-- A row of `ledger_entries`. -/
structure LedgerEntry where
  transactionId : Sha256
  accountId : String
  asset : String
  bucket : Bucket
  amount : ℚ
deriving DecidableEq

/-- A row of `risk_state`. -/
structure RiskState where
  accountId : String
  tenantId : String
  policyHash : Sha256
  dayUtc : ℕ
  dayStartEquity : ℚ
  highWaterEquity : ℚ
  lastEquity : ℚ
  lastMarkNs : ℕ
  market : ExecutableMarketSnapshot
  latchedReasons : List String
deriving DecidableEq

/-- A row of `runtime_health`. Its payload is read as a market snapshot only;
`none` is a payload that does not validate as one. -/
structure Health where
  name : String
  tenantId : String
  payload : Option ExecutableMarketSnapshot
deriving DecidableEq

inductive HeadStatus | active | inactive
deriving DecidableEq, Repr

/-- A row of `deployment_heads`. -/
structure DeploymentHead where
  tenantId : String
  accountId : String
  deploymentId : Option String
  status : HeadStatus
  generation : ℕ
  updatedNs : ℕ
  reason : String
deriving DecidableEq

/-- A row of `artifacts` of kind `deployment`. -/
structure DeploymentArtifact where
  tenantId : String
  entityId : String
  payload : DeploymentManifest
  sha256 : Sha256
  createdNs : ℕ
deriving DecidableEq

/-- The key of `uq_v4_venue_fill`. -/
def Fill.tradeKey (f : Fill) : String × String × String := (f.venue, f.accountId, f.venueTradeId)

/-- The key of `uq_v4_ledger_source`. -/
def LedgerTransaction.sourceKey (t : LedgerTransaction) : String × JournalKind × String :=
  (t.accountId, t.kind, t.sourceId)

def RiskState.key (s : RiskState) : String := s.accountId

def Health.key (h : Health) : String × String := (h.tenantId, h.name)

def DeploymentHead.key (h : DeploymentHead) : String × String := (h.tenantId, h.accountId)

def DeploymentArtifact.key (a : DeploymentArtifact) : String × String := (a.tenantId, a.entityId)

/-- **The database.** -/
structure DB where
  accounts : Table Account.accountId
  orders : Table Order.intentId
  fills : Table Fill.tradeKey
  ledgerTransactions : Table LedgerTransaction.sourceKey
  ledgerEntries : List LedgerEntry
  events : List Event
  riskState : Table RiskState.key
  runtimeHealth : Table Health.key
  deploymentHeads : Table DeploymentHead.key
  deployments : Table DeploymentArtifact.key

/-- A migrated, empty repository. -/
def DB.empty : DB where
  accounts := .empty
  orders := .empty
  fills := .empty
  ledgerTransactions := .empty
  ledgerEntries := []
  events := []
  riskState := .empty
  runtimeHealth := .empty
  deploymentHeads := .empty
  deployments := .empty

/-! ## Constraints -/

/-- What the backend accepts as an account row: `ExactMoney` on the money
columns and `ck_v4_risk_amounts`. -/
def Account.Valid (a : Account) : Prop :=
  Fits a.capital ∧ Fits a.reservedQuote ∧ Fits a.dailyNewRisk ∧ 0 < a.capital ∧ 0 ≤ a.reservedQuote
deriving Decidable

/-- What the backend accepts as an order row: `ExactMoney` on the money
columns and `ck_v4_order_quantity`. -/
def Order.Valid (o : Order) : Prop :=
  Fits o.quantity ∧ Fits o.filledQuantity ∧ Fits o.reservedQuote ∧ Fits o.reservedBase
    ∧ 0 < o.quantity ∧ 0 ≤ o.filledQuantity ∧ o.filledQuantity ≤ o.quantity
deriving Decidable

/-! ## Statements -/

namespace DB

variable (db : DB)

def event (tenant entity : String) (kind : EventType) (now : ℕ) : DB :=
  { db with events := db.events ++ [⟨tenant, entity, kind, now⟩] }

variable (accountId : String)

/-- `UPDATE risk_accounts SET … WHERE account_id = …`, on columns that no
constraint reads. -/
def setAccount (f : Account → Account) (hf : ∀ a, (f a).accountId = a.accountId := by intro _; rfl)
    : DB :=
  { db with accounts := db.accounts.update accountId f hf }

/-- `UPDATE orders SET … WHERE intent_id = …`, on columns that no constraint
reads. -/
def setOrder (intentId : String) (f : Order → Order)
    (hf : ∀ o, (f o).intentId = o.intentId := by intro _; rfl) : DB :=
  { db with orders := db.orders.update intentId f hf }

/-- `UPDATE risk_accounts` on money columns. -/
def setAccountMoney (f : Account → Account)
    (hf : ∀ a, (f a).accountId = a.accountId := by intro _; rfl) : Except Exc DB := do
  raiseIf (∃ a ∈ db.accounts.find? accountId, ¬ (f a).Valid) (.integrityError "ck_v4_risk_amounts")
  return db.setAccount accountId f hf

/-- `UPDATE orders` on money columns. -/
def setOrderMoney (intentId : String) (f : Order → Order)
    (hf : ∀ o, (f o).intentId = o.intentId := by intro _; rfl) : Except Exc DB := do
  raiseIf (∃ o ∈ db.orders.find? intentId, ¬ (f o).Valid) (.integrityError "ck_v4_order_quantity")
  return db.setOrder intentId f hf

/-- `UPDATE risk_accounts SET mode = …`. -/
def setMode (mode : RiskMode) : DB :=
  db.setAccount accountId (fun a => { a with mode := mode })

end DB

/-! ## Wallets -/

/-- A wallet as `_wallet` returns it: the assets with entries, and the amount
of each. -/
structure Wallet where
  assets : List String
  amount : String → ℚ

/-- `wallet.values()` has one that satisfies the condition. -/
def Wallet.anyValue (w : Wallet) (p : ℚ → Prop) : Prop := ∃ a ∈ w.assets, p (w.amount a)

instance (w : Wallet) (p : ℚ → Prop) [DecidablePred p] : Decidable (w.anyValue p) :=
  inferInstanceAs (Decidable (∃ a ∈ w.assets, _))

namespace DB

def walletEntries (db : DB) (accountId : String) : List LedgerEntry :=
  db.ledgerEntries.filter (fun e => e.accountId = accountId ∧ e.bucket = .wallet)

/-- The amount of an asset in the wallet of an account: the sum of its
entries, zero without any. -/
def balance (db : DB) (accountId asset : String) : ℚ :=
  (((db.walletEntries accountId).filter (fun e => e.asset = asset)).map (·.amount)).sum

def wallet (db : DB) (accountId : String) : Wallet where
  assets := ((db.walletEntries accountId).map (·.asset)).eraseDups
  amount := db.balance accountId

end DB

/-! ## Clocks -/

/-- `_now`: an explicit clock, or the one the host shows. -/
def nowOf (nowNs : Option ℕ) (time : ℕ) : ℕ := nowNs.getD time

/-- `_day`: the UTC day of a clock. -/
def dayOf (now : ℕ) : ℕ := now / 1000000000 / 86400

theorem dayOf_mono {m n : ℕ} (h : m ≤ n) : dayOf m ≤ dayOf n :=
  Nat.div_le_div_right (Nat.div_le_div_right h)

end Qt
