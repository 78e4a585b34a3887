import QuantTrading.Interleaving

/-!
# What a transaction commits

Of the many paths through the transactions of the execution path, few differ
in what they write. This module says once what a committed transaction can do
to the repository, guards included: it leaves orders, fills and the books
alone (`Aside`), opens an account, takes a reservation, moves one order along
its lifecycle (`Move`), or posts a fill. Every invariant of the later modules
is a case analysis of `Commit`, and `commit_of_exec` is the theorem that the
transactions of the code do nothing else.
-/

namespace Qt

open Except
open SigDigits

/-! ## The rows before and after -/

variable (o : Order)

/-- The columns of an order that no transaction changes; the others blank. -/
def Order.frozen : Order :=
  { o with
    filledQuantity := 0, reservedQuote := 0, reservedBase := 0, status := .reserved
    settlementStatus := .notRequired, venueOrderId := none, updatedNs := 0, lastReconciledNs := 0 }

variable (a : Account)

/-- The columns of an account that no transaction changes; the others blank. -/
def Account.frozen : Account :=
  { a with
    mode := .active, reservedQuote := 0, dailyNewRisk := 0, dayUtc := 0, leaseToken := none
    leaseOwner := none, leaseUntilNs := 0, reconciledNs := 0 }

/-- The columns of an account that only orders change, and the frozen ones. -/
def Account.books : Account :=
  { a with
    mode := .active, leaseToken := none, leaseOwner := none, leaseUntilNs := 0, reconciledNs := 0 }

/-- How much a mode forbids. `REDUCE_ONLY` and `EMERGENCY_EXIT` forbid the same. -/
def RiskMode.severity : RiskMode → ℕ
  | .active => 0
  | .reduceOnly | .emergencyExit => 1
  | .halted => 2

/-- The account without the cash reservation of an order. -/
def Account.freed (o : Order) : Account :=
  { a with reservedQuote := a.reservedQuote - o.reservedQuote }

/-- The order at its end, without reservations. -/
def Order.ended (status : OrderStatus) (now : ℕ) : Order :=
  { o with status := status, reservedQuote := 0, reservedBase := 0, updatedNs := now }

/-- The account after a settlement report: halted, if the report is broken and
was taken. -/
def Account.settled (status incoming : SettlementStatus) : Account :=
  { a with mode := if status = incoming ∧ incoming.broken = true then .halted else a.mode }

/-- The events about an order. -/
def Order.eventsOf (ks : List EventType) (time : ℕ) : List Event :=
  ks.map (fun k => ⟨o.tenantId, o.intentId, k, time⟩)

/-- The database with an account and an order in the place of what they were. -/
def DB.moved (db : DB) (a : Account) (o : Order) (es : List Event) : DB :=
  { db with
    accounts := db.accounts.replace a, orders := db.orders.replace o, events := db.events ++ es }

/-- The database with an account inserted, unless it is there. -/
def DB.opened (db : DB) (a : Account) : DB := { db with accounts := db.accounts.insertOnce a }

variable (env : Env)

/-- The database with a journal transaction posted. -/
def DB.journaled (db : DB) (accountId : String) (kind : JournalKind) (source : String)
    (entries : List (String × Bucket × ℚ)) (now : ℕ) : DB :=
  { db with
    ledgerTransactions := db.ledgerTransactions.insertOnce
      ⟨env.contentHash (.ledgerKey accountId kind.text source), accountId, kind, source, now⟩
    ledgerEntries := db.ledgerEntries ++ entries.map (fun e =>
      ⟨env.contentHash (.ledgerKey accountId kind.text source), accountId, e.1, e.2.1, e.2.2⟩) }

/-- What `_journal` accepts: balanced entries of a source not posted yet. -/
structure Journalable (env : Env) (db : DB) (accountId : String) (kind : JournalKind)
    (source : String) (entries : List (String × Bucket × ℚ)) : Prop where
  balanced : ∀ e ∈ entries, journalTotal entries e.1 = 0
  unposted : ∀ t ∈ db.ledgerTransactions.rows,
    t.transactionId ≠ env.contentHash (.ledgerKey accountId kind.text source)
      ∧ t.sourceKey ≠ (accountId, kind, source)
  fits : ∀ e ∈ entries, Fits e.2.2

/-! ## The lifecycle of an order -/

/-- The account whose mode a transaction may relax: only `set_mode` has one. -/
def Transaction.setsMode : Transaction → Option String
  | .setMode _ accountId _ _ _ => some accountId
  | _ => none

/-- The transactions that move the head of an account. -/
def Transaction.movesHead : Transaction → Bool
  | .activate .. | .deactivate .. => true
  | _ => false

def Transaction.snapshot : Transaction → Option OrderSnapshot
  | .applySnapshot _ s | .reconcileSnapshot _ _ _ s => some s
  | _ => none

/-- The fill report a transaction ingests, and the intent it is for. -/
def Transaction.fill : Transaction → Option (String × FillReport)
  | .applyFill _ intentId f => some (intentId, f)
  | .reconcileFill _ _ _ item => item.fields.map (fun f => (item.intentId, f))
  | _ => none

/-- The intent of the one order a transaction is about. -/
def Transaction.intentId : Transaction → Option String
  | .reserve c => some c.intent.intentId
  | .submitClaim c _ | .submitPresend c _ _ | .submitResult c _ _ => some c.intentId
  | .cancelClaim c | .cancelResult c _ _ => some c.intentId
  | .uncertain _ intentId _ | .applyFill _ intentId _ => some intentId
  | .reconcileFill _ _ _ item => some item.intentId
  | .applySnapshot _ s | .reconcileSnapshot _ _ _ s => some s.identity.intentId
  | _ => none

/-- A snapshot is older than what is known of the order. -/
def Order.outdates (s : OrderSnapshot) : Prop :=
  s.asofNs < o.lastReconciledNs ∨ (s.filledQuantity.val < o.filledQuantity ∧ s.asofNs < o.updatedNs)
deriving Decidable

/-- **The lifecycle of an order**: the steps an order takes other than by a
fill, with what becomes of its account and what is recorded. -/
inductive Move (time : ℕ) :
    Transaction → Account → Order → Account → Order → List EventType → Prop
  /-- An intent not sent expires. -/
  | expire {c : SubmitCall} {market : Option ExecutableMarketSnapshot} {a : Account} {o : Order}
      (now : ℕ) (unsent : o.status = .reserved) :
      Move time (.submitClaim c market) a o (a.freed o) (o.ended .expired now) [.orderExpiredUnsent]
  /-- An intent not sent is canceled. -/
  | cancelUnsent {c : CancelCall} {a : Account} {o : Order} (unsent : o.status = .reserved) :
      Move time (.cancelClaim c) a o (a.freed o) (o.ended .canceled time) [.unsentOrderCanceled]
  /-- A shadow intent is evaluated and released. -/
  | shadow {c : SubmitCall} {market : Option ExecutableMarketSnapshot} {a : Account} {o : Order}
      {now : ℕ} (daily : ℚ) (hnow : now = nowOf c.nowNs time) (unsent : o.status = .reserved)
      (observes : o.payload.deployment.mode = .shadow)
      (current : now < o.payload.intent.validUntilNs)
      (hdaily : daily = if o.payload.intent.side = .buy ∧ a.dayUtc = dayOf now then
          max 0 (a.dailyNewRisk - ctxMul o.payload.intent.quantity o.payload.intent.limitPrice)
        else a.dailyNewRisk) :
      Move time (.submitClaim c market) a o { a.freed o with dailyNewRisk := daily }
        (o.ended .canceled now) [.shadowIntentEvaluated]
  /-- A sender claims the intent. -/
  | claim {c : SubmitCall} {market : Option ExecutableMarketSnapshot} {a : Account} {o : Order}
      (now : ℕ) (unsent : o.status = .reserved) :
      Move time (.submitClaim c market) a o a { o with status := .submitting, updatedNs := now }
        [.orderSubmitting]
  /-- Its sender gives the intent up before sending it. -/
  | abort {c : SubmitCall} {row : Order} {market : Option ExecutableMarketSnapshot} {a : Account}
      {o : Order} (mode : RiskMode) (now : ℕ) (claimed : o.status = .submitting)
      (hmode : a.mode.severity ≤ mode.severity) :
      Move time (.submitPresend c row market) a o { a.freed o with mode := mode }
        (o.ended .canceled now) [.orderAbortedBeforeSend]
  /-- The venue rejects the order. -/
  | reject {c : SubmitCall} {row : Order} {result : SubmitResult} {a : Account} {o : Order}
      (venueOrderId : Option String) (claimed : o.status = .submitting) :
      Move time (.submitResult c row result) a o (a.freed o)
        { o.ended .rejected time with venueOrderId := venueOrderId } [.submissionResult]
  /-- The venue accepts the order, or does not say. -/
  | answer {c : SubmitCall} {row : Order} {result : SubmitResult} {a : Account} {o : Order}
      (mode : RiskMode) (status : OrderStatus) (venueOrderId : Option String) (updatedNs : ℕ)
      (hmode : a.mode.severity ≤ mode.severity)
      (hstatus : status = o.status ∨ o.status = .submitting
        ∧ (status = .acknowledged ∨ status = .unknown)) :
      Move time (.submitResult c row result) a o { a with mode := mode }
        { o with status := status, venueOrderId := venueOrderId, updatedNs := updatedNs }
        [.submissionResult]
  /-- A cancel is dispatched. -/
  | dispatchCancel {c : CancelCall} {a : Account} {o : Order} (unended : o.status.terminal = false)
      (sent : o.status ≠ .reserved) (certain : o.status.uncertain = false) :
      Move time (.cancelClaim c) a o a { o with status := .cancelPending, updatedNs := time }
        [.cancelPending]
  /-- The venue confirms the cancel. -/
  | confirmCancel {c : CancelCall} {row : Order} {result : CancelResult} {a : Account} {o : Order}
      (pending : o.status = .cancelPending) (confirmed : result.status = .confirmed) :
      Move time (.cancelResult c row result) a o (a.freed o) (o.ended .canceled time)
        [.cancelResult]
  /-- The venue rejects the cancel. -/
  | rejectCancel {c : CancelCall} {row : Order} {result : CancelResult} {a : Account} {o : Order}
      (pending : o.status = .cancelPending) (rejected : result.status = .rejected) :
      Move time (.cancelResult c row result) a o a
        { o with status := if o.filledQuantity ≠ 0 then .partiallyFilled else .acknowledged }
        [.cancelResult]
  /-- An outcome is unknown. -/
  | doubt {tenant intentId : String} {expected : Option OrderStatus} {a : Account} {o : Order}
      (unended : o.status.terminal = false)
      (hexpected : ∀ s ∈ expected, o.status = s ∨ o.status = .unknown) :
      Move time (.uncertain tenant intentId expected) a o { a with mode := .halted }
        { o with status := .unknown, updatedNs := time } [.executionUncertain]
  /-- A known trade is reported again, with its settlement. -/
  | settle {tx : Transaction} {f : FillReport} {a : Account} {o : Order} {status : SettlementStatus}
      (ks : List EventType) (hks : ∀ k ∈ ks, k.neverSent = false)
      (htx : tx.fill = some (o.intentId, f))
      (hstatus : status = settlementAfter o.settlementStatus f.settlementStatus false) :
      Move time tx a o (a.settled status f.settlementStatus) { o with settlementStatus := status }
        ks
  /-- The venue reports the order open. -/
  | observe {tx : Transaction} {s : OrderSnapshot} {a : Account} {o : Order} (mode : RiskMode)
      {settlement : SettlementStatus} (ks : List EventType)
      (hks : ∀ k ∈ ks, k.neverSent = false) (htx : tx.snapshot = some s)
      (fresh : ¬ o.outdates s) (hmode : a.mode.severity ≤ mode.severity)
      (unended : o.status.terminal = false) (sent : o.status ≠ .reserved)
      (uncanceled : o.status ≠ .cancelPending)
      (filled : s.filledQuantity.val = o.filledQuantity)
      (reported : s.status = .acknowledged ∨ s.status = .partiallyFilled
        ∨ s.status = .cancelPending)
      (hsettlement : settlement = settlementAfter o.settlementStatus s.settlementStatus true) :
      Move time tx a o { a with mode := mode }
        { o with
          status := s.status, venueOrderId := s.identity.venueOrderId
          settlementStatus := settlement, lastReconciledNs := s.asofNs, updatedNs := time } ks
  /-- The venue reports the order at its end. -/
  | finish {tx : Transaction} {s : OrderSnapshot} {a : Account} {o : Order} (mode : RiskMode)
      {settlement : SettlementStatus} (ks : List EventType)
      (hks : ∀ k ∈ ks, k.neverSent = false) (htx : tx.snapshot = some s)
      (fresh : ¬ o.outdates s) (hmode : a.mode.severity ≤ mode.severity)
      (sent : o.status ≠ .reserved) (same : o.status.terminal = true → s.status = o.status)
      (filled : s.filledQuantity.val = o.filledQuantity) (reported : s.status.terminal = true)
      (hsettlement : settlement = settlementAfter o.settlementStatus s.settlementStatus true) :
      Move time tx a o { a.freed o with mode := mode }
        { o.ended s.status time with
          venueOrderId := s.identity.venueOrderId, settlementStatus := settlement
          lastReconciledNs := s.asofNs } ks

/-! ## The rest of a commit -/

/-- **A mark or a stop is recorded**: at most one row of `risk_state` is
written, for an account of its tenant, and what that had latched stays
latched. -/
def Recorded (db : DB) (riskState : Table RiskState.key) : Prop :=
  riskState = db.riskState ∨ ∃ (a : Account) (row : RiskState),
    db.accounts.find? row.accountId = some a ∧ riskState = (db.riskState.insertOnce row).replace row
      ∧ (row.tenantId = a.tenantId
        ∨ ∃ old, db.riskState.find? row.accountId = some old ∧ row.tenantId = old.tenantId)
      ∧ ∀ old, db.riskState.find? row.accountId = some old → old.tenantId = a.tenantId →
        old.latchedReasons ⊆ row.latchedReasons

/-- **A transaction off the trading path**: at most an account changes, in
columns that no order moves, and only `set_mode` relaxes its mode. -/
structure Aside (tx : Transaction) (db db' : DB) : Prop where
  unfilled : tx.fill = none
  orders : db'.orders = db.orders
  fills : db'.fills = db.fills
  ledgerTransactions : db'.ledgerTransactions = db.ledgerTransactions
  ledgerEntries : db'.ledgerEntries = db.ledgerEntries
  events : ∃ es : List Event, db'.events = db.events ++ es ∧ ∀ e ∈ es, e.eventType.neverSent = false
  accounts : db'.accounts = db.accounts ∨ ∃ a a' : Account,
    db.accounts.find? a.accountId = some a ∧ db'.accounts = db.accounts.replace a'
      ∧ a'.books = a.books
      ∧ (tx.setsMode ≠ some a.accountId → a.mode.severity ≤ a'.mode.severity)
  riskState : Recorded db db'.riskState
  heads : tx.movesHead = false →
    db'.deploymentHeads = db.deploymentHeads ∧ db'.deployments = db.deployments

/-- The account after a reservation. -/
def Account.reserving (c : ReserveCall) (now : ℕ) : Account :=
  { a with
    reservedQuote := a.reservedQuote + c.reservedQuote
    dailyNewRisk := if c.intent.side = .buy then ctxAdd (dailyRisk a now) c.gross
      else a.dailyNewRisk
    dayUtc := if c.intent.side = .buy then dayOf now else a.dayUtc }

/-- The order after a fill. -/
def Order.filling (f : FillReport) (now : ℕ) : Order :=
  { o with
    filledQuantity := o.filledQuantity + f.quantity
    reservedQuote := remainingQuote o (o.filledQuantity + f.quantity)
    reservedBase := remainingBase o (o.filledQuantity + f.quantity)
    status := filledStatus o (o.filledQuantity + f.quantity)
    settlementStatus := settlementAfter o.settlementStatus f.settlementStatus false
    updatedNs := now }

/-- The account after a fill, but for its mode. -/
def Account.filling (o : Order) (f : FillReport) : Account :=
  { a with
    reservedQuote := a.reservedQuote - o.reservedQuote
      + remainingQuote o (o.filledQuantity + f.quantity) }

/-- The database with a fill and its journal transaction posted. -/
def DB.posted (db : DB) (o : Order) (f : FillReport) (time : ℕ) : DB :=
  let fills := db.fills.insertOnce (fillRow env o f time)
  DB.journaled env { db with fills := fills } o.accountId .trade (fillRow env o f time).fillId
    (fillEntries o.side f) time

/-- The mode of the account after a fill: halted, if the fill breaches it or
its settlement is broken. -/
def fillMode (db : DB) (a : Account) (o : Order) (f : FillReport) (time : ℕ) : RiskMode :=
  let db := db.posted env o f time
  let db := { db with orders := db.orders.replace (o.filling f time) }
  if fillBreach db o f (a.filling o f).reservedQuote ∨ f.settlementStatus.broken = true then .halted
  else a.mode

/-- The database after a fill. -/
def DB.filled (db : DB) (a : Account) (o : Order) (f : FillReport) (ks : List EventType) (time : ℕ)
    : DB :=
  (db.posted env o f time).moved { a.filling o f with mode := fillMode env db a o f time }
    (o.filling f time) (o.eventsOf ks time)

/-- An order is in the database, and so is its account. -/
structure Located (db : DB) (a : Account) (o : Order) : Prop where
  account : db.accounts.find? a.accountId = some a
  order : db.orders.find? o.intentId = some o
  accountId : a.accountId = o.accountId
  tenantId : a.tenantId = o.tenantId

/-- **What a committed transaction can do.** -/
inductive Commit (env : Env) (time : ℕ) (db : DB) : Transaction → DB → Prop
  | aside {tx : Transaction} {db' : DB} (h : Aside tx db db') : Commit env time db tx db'
  /-- An account is opened and funded. -/
  | fund {tenant accountId quoteAsset : String} {capital : ℚ} {account : Account}
      (hpos : 0 < capital) (hfits : Fits capital)
      (hunfunded : ∀ t ∈ db.ledgerTransactions.rows, ¬ (t.accountId = accountId
        ∧ t.kind = .funding))
      (haccount : (db.opened (newAccount tenant accountId capital quoteAsset time)).accounts.find?
        accountId = some account)
      (htenant : account.tenantId = tenant) (hcapital : account.capital = capital)
      (hquote : account.quoteAsset = quoteAsset)
      (hjournal : Journalable env db accountId .funding accountId
        [(quoteAsset, .wallet, capital), (quoteAsset, .equity, -capital)]) :
      Commit env time db (.createAccount tenant accountId capital quoteAsset)
        (((db.opened (newAccount tenant accountId capital quoteAsset time)).journaled env accountId
          .funding accountId [(quoteAsset, .wallet, capital), (quoteAsset, .equity, -capital)]
          time).event tenant accountId .accountCreated time)
  /-- An account that is funded is asked for again. -/
  | reopen {tenant accountId quoteAsset : String} {capital : ℚ}
      (hpos : 0 < capital) (hfits : Fits capital)
      (hfunded : ∃ t ∈ db.ledgerTransactions.rows, t.accountId = accountId ∧ t.kind = .funding) :
      Commit env time db (.createAccount tenant accountId capital quoteAsset)
        (db.opened (newAccount tenant accountId capital quoteAsset time))
  /-- A reservation is taken. -/
  | reserve {c : ReserveCall} {a : Account} {now : ℕ} (hnow : now = nowOf c.nowNs time)
      (ha : db.accounts.find? c.intent.accountId = some a) (htenant : a.tenantId = c.tenant)
      (hfresh : db.orders.find? c.intent.intentId = none)
      (hhead : ensureActiveDeployment db c.tenant c.intent.accountId c.intent.deploymentId = .ok ())
      (hadmissible : reserveAdmissible env c db a now = .ok ())
      (hsizable : reserveSizable c db a = .ok ())
      (hbuy : c.intent.side = .buy → ∃ db₀, reserveBuy c db a now = .ok db₀)
      (hsell : c.intent.side = .sell → ∃ db₀, reserveSell c db = .ok db₀)
      (hdistinct : ∀ o ∈ db.orders.rows, ¬ o.conflicts (c.row env now))
      (ha' : (a.reserving c now).Valid) (ho' : (c.row env now).Valid) :
      Commit env time db (.reserve c)
        { db with
          accounts := db.accounts.replace (a.reserving c now)
          orders := db.orders.insertOnce (c.row env now)
          events := db.events ++ [⟨c.tenant, c.intent.intentId, .orderReserved, time⟩] }
  /-- An order moves along its lifecycle. -/
  | move {tx : Transaction} {a a' : Account} {o o' : Order} {ks : List EventType}
      (located : Located db a o) (hid : tx.intentId = some o.intentId)
      (h : Move time tx a o a' o' ks)
      (hav : a.Valid → a'.Valid) (hov : o.Valid → o'.Valid) :
      Commit env time db tx (db.moved a' o' (o.eventsOf ks time))
  /-- A fill is posted. -/
  | fill {tx : Transaction} {a : Account} {o : Order} {f : FillReport} {ks : List EventType}
      (located : Located db a o) (htx : tx.fill = some (o.intentId, f))
      (hcheck : checkFill f = .ok ())
      (hassets : f.baseAsset = o.payload.instrument.baseAsset
        ∧ f.quoteAsset = o.payload.instrument.quoteAsset)
      (hgross : checkAmount (fillGross o.side f.quantity f.price) true = .ok ())
      (hnew : db.fills.find? (o.venue, o.accountId, f.venueTradeId) = none)
      (hunfilled : ∀ g ∈ db.fills.rows, g.fillId ≠ (fillRow env o f time).fillId)
      (hsent : o.status ≠ .reserved) (hproven : ¬ provenNeverSent db o.tenantId o.intentId)
      (hbound : o.filledQuantity + f.quantity ≤ o.quantity)
      (hjournal : Journalable env db o.accountId .trade (fillRow env o f time).fillId
        (fillEntries o.side f))
      (hks : ∀ k ∈ ks, k.neverSent = false)
      (hav : (a.filling o f).Valid) (hov : (o.filling f time).Valid) :
      Commit env time db tx (db.filled env a o f ks time)

end Qt
