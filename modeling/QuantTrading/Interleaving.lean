import QuantTrading.Lib.Machine
import QuantTrading.Releases

/-!
# Interleaved runs

An operation of the system is a program whose steps are transactions on the
one repository and calls of an adapter. Any number of operations are under
way at once, in any number of processes, and their transactions interleave
freely. A task is what an operation has still to do, with the local
variables it holds; a system is the repository, the tasks, and the log of
what was committed and what was sent.

Everything that is not the program is in the labels of a run: which task
moves, what the host clock shows, what an adapter answers – and that it
raises, times out or is cancelled – and when a process crashes.
-/

namespace Qt

open Except (raiseIf)
open Machine

/-! ## Transactions -/

/-- A fill as a reconciliation page carries it. `none` are fields that
`apply_fill` cannot be called with. -/
structure PageFill where
  intentId : String
  fields : Option FillReport

/-- A page of `adapter.reconcile`. -/
structure ReconcileBatch where
  venue : String
  accountId : String
  fills : List PageFill
  orders : List OrderSnapshot
  complete : Bool

/-- A fill of a page: matched with the account under reconciliation, then
applied. -/
def reconcileFill (env : Env) (tenant accountId venue : String) (item : PageFill) (time : ℕ)
    (db : DB) : Except Exc (Fill × DB) :=
  match item.fields with
  | none => .error (.valueError "reconciled_money_requires_decimal_strings")
  | some f => do
    let order ← orderOf env db tenant item.intentId
    raiseIf (order.accountId ≠ accountId ∨ order.venue ≠ venue)
      (.valueError "reconciled_fill_account_mismatch")
    applyFill env tenant item.intentId f time db

/-- A snapshot of a page: matched with the account under reconciliation, then
applied. -/
def reconcileSnapshot (env : Env) (tenant accountId venue : String) (s : OrderSnapshot)
    (time : ℕ) (db : DB) : Except Exc DB := do
  raiseIf (s.identity.accountId ≠ accountId ∨ s.identity.venue ≠ venue)
    (.valueError "reconciled_order_account_mismatch")
  applySnapshot env tenant s time db

/-- The transactions of the execution path, with their arguments. -/
inductive Transaction
  | readOrder (tenant intentId : String)
  | readMarket (tenant : String) (row : Order)
  | readAccount (tenant accountId : String)
  | createAccount (tenant accountId : String) (capital : ℚ) (quoteAsset : String)
  | claimAccount (tenant accountId owner : String) (ttlSeconds : ℕ)
      (leaseToken proof : Option String) (fresh : String)
  | check (tenant : String) (deployment : DeploymentManifest) (instrument : InstrumentSpec)
      (market : ExecutableMarketSnapshot) (nowNs : Option ℕ)
  | stop (tenant accountId : String) (reasons : List String) (mode : RiskMode)
      (deploymentId : Option String)
  | reserve (c : ReserveCall)
  | submitClaim (c : SubmitCall) (market : Option ExecutableMarketSnapshot)
  | submitPresend (c : SubmitCall) (row : Order) (market : Option ExecutableMarketSnapshot)
  | submitResult (c : SubmitCall) (row : Order) (result : SubmitResult)
  | uncertain (tenant intentId : String) (expected : Option OrderStatus)
  | cancelClaim (c : CancelCall)
  | cancelResult (c : CancelCall) (row : Order) (result : CancelResult)
  | applyFill (tenant intentId : String) (f : FillReport)
  | reconcileFill (tenant accountId venue : String) (item : PageFill)
  | applySnapshot (tenant : String) (s : OrderSnapshot)
  | reconcileSnapshot (tenant accountId venue : String) (s : OrderSnapshot)
  | markReconciled (tenant accountId : String) (nowNs : Option ℕ)
  | setMode (tenant accountId : String) (mode : RiskMode) (reason : String)
      (deploymentId : Option String)
  | activate (self : DeploymentRegistry) (tenant : String) (manifest : DeploymentManifest)
      (reason : String)
  | deactivate (self : DeploymentRegistry) (tenant deploymentId reason : String)
  | publishHealth (tenant name : String) (payload : Option ExecutableMarketSnapshot)

/-- What a transaction hands back to the operation it is part of. -/
inductive Outcome
  | done
  | order (row : Order)
  | market (raw : Option (Option ExecutableMarketSnapshot))
  | report (r : RiskGuard.Report)
  | claim (c : Claim)
  | fence (f : Fence)
  | cancelClaim (c : CancelClaim)

/-- **Run a transaction** at a time of the host clock. -/
def Transaction.exec (env : Env) (time : ℕ) (db : DB) : Transaction → Except Exc (Outcome × DB)
  | .readOrder tenant intentId => do
    let row ← orderOf env db tenant intentId
    return (.order row, db)
  | .readMarket tenant row => .ok (.market (submissionMarket db tenant row), db)
  | .readAccount tenant accountId => do
    let _ ← accountOf db tenant accountId
    return (.done, db)
  | .createAccount tenant accountId capital quoteAsset => do
    return (.done, ← Qt.createAccount env tenant accountId capital quoteAsset time db)
  | .claimAccount tenant accountId owner ttlSeconds leaseToken proof fresh => do
    return (.done, ← Qt.claimAccount tenant accountId owner ttlSeconds leaseToken proof fresh time db)
  | .check tenant deployment instrument market nowNs => do
    let (report, db) ← RiskGuard.check env tenant deployment instrument market nowNs time db
    return (.report report, db)
  | .stop tenant accountId reasons mode deploymentId => do
    return (.done, ← RiskGuard.stop tenant accountId reasons mode deploymentId time db)
  | .reserve c => do
    let (row, db) ← reserveLocked env c time db
    return (.order row, db)
  | .submitClaim c market => do
    let (claim, db) ← Qt.submitClaim env c market time db
    return (.claim claim, db)
  | .submitPresend c row market => do
    let (fence, db) ← Qt.submitPresend env c row market time db
    return (.fence fence, db)
  | .submitResult c row result => do
    return (.done, ← Qt.submitResult env c row result time db)
  | .uncertain tenant intentId expected => do
    return (.done, ← Qt.uncertain env tenant intentId expected time db)
  | .cancelClaim c => do
    let (claim, db) ← Qt.cancelClaim env c time db
    return (.cancelClaim claim, db)
  | .cancelResult c row result => do
    return (.done, ← Qt.cancelResult env c row result time db)
  | .applyFill tenant intentId f => do
    let (_, db) ← Qt.applyFill env tenant intentId f time db
    return (.done, db)
  | .reconcileFill tenant accountId venue item => do
    let (_, db) ← Qt.reconcileFill env tenant accountId venue item time db
    return (.done, db)
  | .applySnapshot tenant s => do
    return (.done, ← Qt.applySnapshot env tenant s time db)
  | .reconcileSnapshot tenant accountId venue s => do
    return (.done, ← Qt.reconcileSnapshot env tenant accountId venue s time db)
  | .markReconciled tenant accountId nowNs => do
    return (.done, ← Qt.markReconciled tenant accountId nowNs time db)
  | .setMode tenant accountId mode reason deploymentId => do
    return (.done, ← Qt.setMode tenant accountId mode reason deploymentId time db)
  | .activate self tenant manifest reason => do
    let (_, db) ← DeploymentRegistry.activate env self tenant manifest reason time db
    return (.done, db)
  | .deactivate self tenant deploymentId reason => do
    return (.done, ← DeploymentRegistry.deactivate env self tenant deploymentId reason time db)
  | .publishHealth tenant name payload => .ok (.done, Qt.publishHealth tenant name payload db)

/-! ## Operations and tasks -/

/-- The operations a caller can start. -/
inductive Operation
  | createAccount (tenant accountId : String) (capital : ℚ) (quoteAsset : String)
  | claimAccount (tenant accountId owner : String) (ttlSeconds : ℕ)
      (leaseToken proof : Option String) (fresh : String)
  | reserve (c : ReserveCall)
  | submit (c : SubmitCall)
  | cancel (c : CancelCall)
  | query (tenant intentId : String)
  | reconcile (tenant accountId venue : String)
  | applyFill (tenant intentId : String) (f : FillReport)
  | markReconciled (tenant accountId : String) (nowNs : Option ℕ)
  | setMode (tenant accountId : String) (mode : RiskMode) (reason : String)
      (deploymentId : Option String)
  | check (tenant : String) (deployment : DeploymentManifest) (instrument : InstrumentSpec)
      (market : ExecutableMarketSnapshot) (nowNs : Option ℕ)
  | stop (tenant accountId : String) (reasons : List String) (mode : RiskMode)
      (deploymentId : Option String)
  | activate (self : DeploymentRegistry) (tenant : String) (manifest : DeploymentManifest)
      (reason : String)
  | deactivate (self : DeploymentRegistry) (tenant deploymentId reason : String)
  | publishHealth (tenant name : String) (payload : Option ExecutableMarketSnapshot)

/-- **A task**: where an operation stands, and what it holds. -/
inductive Task
  | rest
  | single (tx : Transaction)
  | stopping (tenant accountId : String) (reasons : List String) (mode : RiskMode)
  | reserveCheck (c : ReserveCall)
  | reserveLocked (c : ReserveCall)
  | submitRead (c : SubmitCall)
  | submitMarket (c : SubmitCall) (row : Order)
  | submitCheck (c : SubmitCall) (row : Order) (market : ExecutableMarketSnapshot)
  | submitClaim (c : SubmitCall) (row : Order) (market : Option ExecutableMarketSnapshot)
  | submitPresend (c : SubmitCall) (row : Order) (market : Option ExecutableMarketSnapshot)
  | submitSend (c : SubmitCall) (row : Order)
  | submitAwait (c : SubmitCall) (row : Order)
  | submitResult (c : SubmitCall) (row : Order) (result : SubmitResult)
  | uncertain (tenant intentId : String) (expected : Option OrderStatus)
  | cancelClaim (c : CancelCall)
  | cancelAwait (c : CancelCall) (row : Order)
  | cancelResult (c : CancelCall) (row : Order) (result : CancelResult)
  | queryRead (tenant intentId : String)
  | queryAwait (tenant intentId : String)
  | querySnapshot (tenant intentId : String) (s : OrderSnapshot)
  | reconcileRead (tenant accountId venue : String)
  | reconcileAwait (tenant accountId venue : String)
  | reconcileItems (tenant accountId venue : String) (fills : List PageFill)
      (orders : List OrderSnapshot) (complete : Bool)

/-- The first step of an operation. -/
def Operation.start : Operation → Task
  | .createAccount tenant accountId capital quoteAsset =>
    .single (.createAccount tenant accountId capital quoteAsset)
  | .claimAccount tenant accountId owner ttlSeconds leaseToken proof fresh =>
    .single (.claimAccount tenant accountId owner ttlSeconds leaseToken proof fresh)
  | .reserve c => .reserveCheck c
  | .submit c => .submitRead c
  | .cancel c => .cancelClaim c
  | .query tenant intentId => .queryRead tenant intentId
  | .reconcile tenant accountId venue => .reconcileRead tenant accountId venue
  | .applyFill tenant intentId f => .single (.applyFill tenant intentId f)
  | .markReconciled tenant accountId nowNs => .single (.markReconciled tenant accountId nowNs)
  | .setMode tenant accountId mode reason deploymentId =>
    .single (.setMode tenant accountId mode reason deploymentId)
  | .check tenant deployment instrument market nowNs =>
    .single (.check tenant deployment instrument market nowNs)
  | .stop tenant accountId reasons mode deploymentId =>
    .single (.stop tenant accountId reasons mode deploymentId)
  | .activate self tenant manifest reason => .single (.activate self tenant manifest reason)
  | .deactivate self tenant deploymentId reason =>
    .single (.deactivate self tenant deploymentId reason)
  | .publishHealth tenant name payload => .single (.publishHealth tenant name payload)

namespace Task

/-- The transaction a task runs next, if its next step is one. -/
def next : Task → Option Transaction
  | .single tx => some tx
  | .stopping tenant accountId reasons mode => some (.stop tenant accountId reasons mode none)
  | .reserveCheck c => some (.check c.tenant c.deployment c.instrument c.market c.nowNs)
  | .reserveLocked c => some (.reserve c)
  | .submitRead c => some (.readOrder c.tenant c.intentId)
  | .submitMarket c row => some (.readMarket c.tenant row)
  | .submitCheck c row market =>
    some (.check c.tenant row.payload.deployment row.payload.instrument market c.nowNs)
  | .submitClaim c _ market => some (.submitClaim c market)
  | .submitPresend c row market => some (.submitPresend c row market)
  | .submitResult c row result => some (.submitResult c row result)
  | .uncertain tenant intentId expected => some (.uncertain tenant intentId expected)
  | .cancelClaim c => some (.cancelClaim c)
  | .cancelResult c row result => some (.cancelResult c row result)
  | .queryRead tenant intentId => some (.readOrder tenant intentId)
  | .querySnapshot tenant _ s => some (.applySnapshot tenant s)
  | .reconcileRead tenant accountId _ => some (.readAccount tenant accountId)
  | .reconcileItems tenant accountId venue (item :: _) _ _ =>
    some (.reconcileFill tenant accountId venue item)
  | .reconcileItems tenant accountId venue [] (s :: _) _ =>
    some (.reconcileSnapshot tenant accountId venue s)
  | .reconcileItems tenant accountId _ [] [] true => some (.markReconciled tenant accountId none)
  | .reconcileItems _ _ _ [] [] false => none
  | .rest | .submitSend _ _ | .submitAwait _ _ | .cancelAwait _ _ | .queryAwait _ _
  | .reconcileAwait _ _ _ => none

/-- A stop is in force for an order of the side. -/
def blocks (mode : RiskMode) (side : Side) : Prop :=
  mode = .halted ∨ (mode ≠ .active ∧ side = .buy)
deriving Decidable

/-- How a task goes on after its transaction committed. -/
def committed (time : ℕ) : Task → Outcome → Task
  | .reserveCheck c, .report r =>
    if r.observationDiscarded = true ∨ blocks r.mode c.intent.side then .rest else .reserveLocked c
  | .submitRead c, .order row =>
    if row.status = .reserved ∧ nowOf c.nowNs time < row.payload.intent.validUntilNs then
      .submitMarket c row
    else .submitClaim c row none
  | .submitMarket c row, .market none =>
    .stopping c.tenant row.accountId ["submission_has_no_trusted_market"] .halted
  | .submitMarket c row, .market (some none) =>
    .stopping c.tenant row.accountId ["submission_market_invalid"] .halted
  | .submitMarket c row, .market (some (some market)) => .submitCheck c row market
  | .submitCheck c row market, .report r =>
    if r.observationDiscarded = true ∨ blocks r.mode row.side then .rest
    else .submitClaim c row (some market)
  | .submitClaim c _ market, .claim (.claimed row) => .submitPresend c row market
  | .submitPresend c row _, .fence .clear => .submitSend c row
  | .cancelClaim c, .cancelClaim (.dispatched row) => .cancelAwait c row
  | .queryRead tenant intentId, .order _ => .queryAwait tenant intentId
  | .reconcileRead tenant accountId venue, .done => .reconcileAwait tenant accountId venue
  | .reconcileItems tenant accountId venue (_ :: fills) orders complete, _ =>
    .reconcileItems tenant accountId venue fills orders complete
  | .reconcileItems tenant accountId venue [] (_ :: orders) complete, _ =>
    .reconcileItems tenant accountId venue [] orders complete
  | _, _ => .rest

/-- How a task goes on after its transaction raised. -/
def raised : Task → Exc → Task
  | .reserveLocked c, .riskBudgetExceeded message =>
    .stopping c.tenant c.intent.accountId [message] .reduceOnly
  | .submitClaim c row _, .riskBudgetExceeded message =>
    .stopping c.tenant row.accountId [message] .reduceOnly
  | .submitPresend c _ _, _ => .uncertain c.tenant c.intentId (some .submitting)
  | .querySnapshot tenant intentId _, _ => .uncertain tenant intentId none
  | _, _ => .rest

/-- What a step that is no transaction does: an adapter call begins. -/
def advance : Task → Task
  | .submitSend c row => .submitAwait c row
  | .reconcileItems _ _ _ [] [] false => .rest
  | t => t

/-- The intent handed to `adapter.submit` by that step. -/
def sends : Task → Option OrderIntent
  | .submitSend _ row => some row.payload.intent
  | _ => none

end Task

/-- What an adapter call comes back with. `raised` stands for any exception, a
timeout, and a result of another type. -/
inductive Reply
  | submitted (result : SubmitResult)
  | canceled (result : CancelResult)
  | snapshot (s : OrderSnapshot)
  | batch (b : ReconcileBatch)
  | raised
  | cancelled

/-- How a task goes on with the reply to its adapter call. -/
def Task.replied : Task → Reply → Task
  | .submitAwait c row, .submitted result =>
    match identityMatches row result.identity with
    | .ok _ => .submitResult c row result
    | .error _ => .uncertain c.tenant c.intentId (some .submitting)
  | .submitAwait c _, _ => .uncertain c.tenant c.intentId (some .submitting)
  | .cancelAwait c row, .canceled result =>
    match identityMatches row result.identity with
    | .ok _ => .cancelResult c row result
    | .error _ => .uncertain c.tenant c.intentId (some .cancelPending)
  | .cancelAwait c _, _ => .uncertain c.tenant c.intentId (some .cancelPending)
  | .queryAwait tenant intentId, .snapshot s => .querySnapshot tenant intentId s
  | .queryAwait _ _, .cancelled => .rest
  | .queryAwait tenant intentId, _ => .uncertain tenant intentId none
  | .reconcileAwait tenant accountId venue, .batch b =>
    if b.accountId = accountId ∧ b.venue = venue then
      .reconcileItems tenant accountId venue b.fills b.orders b.complete
    else .rest
  | .reconcileAwait _ _ _, _ => .rest
  | t, _ => t

/-! ## The system -/

/-- What the log records: a committed transaction, or the start of a call of
`adapter.submit`. -/
inductive Entry
  | committed (tid : ℕ) (tx : Transaction) (time : ℕ)
  | sent (tid : ℕ) (intent : OrderIntent)

/-- **The system**: the repository, the tasks under way, and the log. -/
structure System where
  db : DB
  tasks : ℕ → Task
  log : List Entry

namespace System

/-- An empty repository and nothing under way. -/
def init : System := ⟨.empty, fun _ => .rest, []⟩

inductive Label
  /-- A caller starts an operation. -/
  | call (tid : ℕ) (op : Operation)
  /-- A task takes its next step, at a time of the host clock. -/
  | run (tid : ℕ) (time : ℕ)
  /-- The adapter call of a task comes back. -/
  | reply (tid : ℕ) (r : Reply)
  /-- The process of a task crashes. -/
  | crash (tid : ℕ)

/-- Give a task its next state. -/
def setTask (s : System) (tid : ℕ) (t : Task) : System :=
  { s with tasks := Function.update s.tasks tid t }

/-- **A step of the system.** A transaction that raises changes nothing. -/
def step (env : Env) (s : System) : Label → System
  | .call tid op =>
    match s.tasks tid with
    | .rest => s.setTask tid op.start
    | _ => s
  | .run tid time =>
    match (s.tasks tid).next with
    | some tx =>
      match tx.exec env time s.db with
      | .ok (outcome, db) =>
        { s.setTask tid ((s.tasks tid).committed time outcome) with
          db := db, log := s.log ++ [.committed tid tx time] }
      | .error e => s.setTask tid ((s.tasks tid).raised e)
    | none =>
      { s.setTask tid (s.tasks tid).advance with
        log := s.log ++ ((s.tasks tid).sends.map (Entry.sent tid)).toList }
  | .reply tid r => s.setTask tid ((s.tasks tid).replied r)
  | .crash tid => s.setTask tid .rest

/-- The system after a run from its start. -/
def after (env : Env) (ls : List Label) : System := Machine.run (step env) init ls

end System

end Qt
