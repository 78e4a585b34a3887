import Mathlib.Data.Finset.Insert
import Mathlib.Data.Fintype.Defs
import Mathlib.Data.List.MinMax
import Mathlib.Data.Rat.Lemmas
import QuantTrading.Lib.Machine
import QuantTrading.Lib.Venue

/-!
# The native router of source intents

`BtcqtNativeIntentRouter` of `qt.nautilus.adapter`: decisions of a strategy become orders
at a venue, and what the venue reports of them goes back to the strategy, whose answer is
the next decision.

The router calls the venue in the middle of its methods, and a venue that answers within
the call runs a handler there. So the code is cut where it calls the venue: what is left
of a method stands on a stack, the step `resume` runs its next piece, and a venue event
can come at any step, with its handler on top of what it interrupted. A method that
raises takes the methods that called it with it.

Each trade of the venue is an entry of `executed`, and each call of `port.on_fill` one of
`handed`. The two are the same as long as no trade is executed for an order the router
has forgotten, and no handler raises; `CANCEL_ALL` makes it forget orders that can still
be filled.
-/

namespace Qt.Nautilus

open Venue

/-! ## Intents -/

inductive Side | buy | sell
deriving DecidableEq, Repr

inductive ProtectionKind | tp | stop
deriving DecidableEq, Repr

instance : Fintype ProtectionKind where
  elems := {ProtectionKind.tp, ProtectionKind.stop}
  complete := fun kind => by cases kind <;> decide

inductive Action
  | marketEnter | limitIocEnter | marketExit | replaceLadder | cancelLadder | cancelEntries
  | cancelAll | placeTp | placeStop
  | other (name : String)
deriving DecidableEq, Repr

def Action.name : Action → String
  | marketEnter => "MARKET_ENTER"
  | limitIocEnter => "LIMIT_IOC_ENTER"
  | marketExit => "MARKET_EXIT"
  | replaceLadder => "REPLACE_LADDER"
  | cancelLadder => "CANCEL_LADDER"
  | cancelEntries => "CANCEL_ENTRIES"
  | cancelAll => "CANCEL_ALL"
  | placeTp => "PLACE_TP"
  | placeStop => "PLACE_STOP"
  | other name => name

/-- `Intent`, as the router reads it. -/
structure Intent where
  action : Action
  side : Option Side
  prices : List ℚ
  qtys : List ℚ
  price : Option ℚ
  qty : Option ℚ
  reason : String

/-- What the router raises, and what the port raises into it. -/
inductive Exc
  | valueError (text : String)
  | keyError (clientOrderId : ℕ)
  | port (text : String)
deriving DecidableEq, Repr

/-- `_btcqt_required_side`. -/
def requiredSide (action : Action) : Option Side → Except Exc Side
  | some side => .ok side
  | none => .error (.valueError (action.name ++ " requires a BUY or SELL side"))

/-- `_btcqt_positive`. -/
def positive (action : Action) : Option ℚ → Except Exc ℚ
  | none => .error (.valueError (action.name ++ " requires a positive price or quantity"))
  | some value =>
    if value ≤ 0 then .error (.valueError (action.name ++ " requires a positive price or quantity"))
    else .ok value

/-- An intent that has passed the checks of its action. -/
inductive Command
  | cancelAll
  | cancelEntries (side : Option Side)
  | replaceLadder (side : Side) (prices qtys : List ℚ)
  | marketEnter (side : Side) (qty : ℚ)
  | limitIocEnter (side : Side) (price qty : ℚ)
  | marketExit (side : Side) (qty : ℚ)
  | place (kind : ProtectionKind) (side : Side) (price qty : ℚ)

/-- **The checks of `submit_decision`**, which come before anything the action does. -/
def Intent.command (i : Intent) : Except Exc Command :=
  match i.action with
  | .cancelAll => .ok .cancelAll
  | .cancelLadder | .cancelEntries => .ok (.cancelEntries i.side)
  | .replaceLadder => do
    let side ← requiredSide i.action i.side
    .ok (.replaceLadder side i.prices i.qtys)
  | .marketEnter => do
    let side ← requiredSide i.action i.side
    .ok (.marketEnter side (← positive i.action i.qty))
  | .limitIocEnter => do
    let side ← requiredSide i.action i.side
    let price ← positive i.action i.price
    .ok (.limitIocEnter side price (← positive i.action i.qty))
  | .marketExit => do
    let side ← requiredSide i.action i.side
    .ok (.marketExit side (← positive i.action i.qty))
  | .placeTp => do
    let side ← requiredSide i.action i.side
    let price ← positive i.action i.price
    .ok (.place .tp side price (← positive i.action i.qty))
  | .placeStop => do
    let side ← requiredSide i.action i.side
    let price ← positive i.action i.price
    .ok (.place .stop side price (← positive i.action i.qty))
  | .other _ => do
    let _ ← requiredSide i.action i.side
    .error (.valueError ("unsupported btc-qt source intent: " ++ i.action.name))

/-! ## The router and what surrounds it -/

/-- `CausalState`: times in microseconds, and the contents `σ`, which are only compared. -/
structure CausalState (σ : Type) where
  observedAt : ℕ
  availableAt : ℕ
  content : σ
deriving DecidableEq

/-- What the router is built with: the port's name, the instrument, and whether the host
strategy has a cache of orders. -/
structure Setup where
  strategyName : String
  makeQty : ℚ → ℚ
  makePrice : ℚ → ℚ
  baseCurrency : String
  quoteCurrency : String
  cached : Bool
  isoformat : ℕ → String

inductive OrderType | market | limit | stopMarket
deriving DecidableEq, Repr

inductive TimeInForce | gtc | ioc
deriving DecidableEq, Repr

/-- An order as the order factory makes it. `protection` is the kind and the number of the
request that a protective order was submitted for, which the venue does not see. -/
structure NativeOrder where
  type : OrderType
  side : Side
  quantity : ℚ
  price : Option ℚ
  triggerPrice : Option ℚ
  timeInForce : Option TimeInForce
  postOnly : Bool
  reduceOnly : Bool
  tags : List String
  protection : Option (ProtectionKind × ℕ)

/-- The `kind` of a submitted order. -/
inductive OrderKind | market | limit | tp | stop
deriving DecidableEq, Repr

/-- `_BtcqtSubmittedOrder`. -/
structure SubmittedOrder (σ : Type) where
  kind : OrderKind
  tag : String
  side : Side
  state : CausalState σ
  fillIds : List String

/-- `_BtcqtPendingProtection`, with the number of the request. -/
structure PendingProtection (σ : Type) where
  kind : ProtectionKind
  state : CausalState σ
  reason : String
  side : Side
  price : ℚ
  quantity : ℚ
  number : ℕ

/-- **`BtcqtNativeIntentRouter`**: its maps, by client order id and by kind. -/
structure Router (σ : Type) where
  submitted : ℕ → Option (SubmittedOrder σ)
  entryIds : List ℕ
  causalStates : List (CausalState σ)
  activeProtection : ProtectionKind → Option ℕ
  pendingProtection : ProtectionKind → Option (PendingProtection σ)

/-- A commission text, split where `_native_fee` splits it. -/
inductive Commission
  | absent
  | unreadable
  | money (amount : ℚ) (currency : String)
deriving DecidableEq, Repr

/-- A fill event of the venue; `tsEvent` is in nanoseconds. -/
structure FillEvent where
  tradeId : String
  tsEvent : ℕ
  orderSide : Side
  lastPx : ℚ
  lastQty : ℚ
  commission : Commission

/-- `Fill`, what `port.on_fill` is called with; `ts` is in milliseconds. -/
structure Fill where
  ts : ℕ
  orderId : ℕ
  strategy : String
  side : Side
  price : ℚ
  qty : ℚ
  fee : ℚ
  kind : OrderKind
  tag : String

/-- What is left of a method after a call of the venue. -/
inductive Task (σ : Type)
  /-- one round of `submit_decision` -/
  | intent (state : CausalState σ) (intent : Intent)
  /-- one round of `_cancel_entries` -/
  | cancelEntry (clientOrderId : ℕ) (side : Option Side)
  /-- one round of `REPLACE_LADDER` -/
  | rung (state : CausalState σ) (reason : String) (side : Side) (index : ℕ) (price qty : ℚ)
  /-- the end of a `zip(..., strict=True)` over lists of two lengths -/
  | unevenLadder (text : String)
  /-- `_cancel_all`, after the call -/
  | clear
  /-- `_submit_protection`, after the call -/
  | activate (kind : ProtectionKind) (clientOrderId : ℕ)
  /-- the other rounds of `on_order_canceled` -/
  | release (kinds : List ProtectionKind)
  /-- `_discard_if_closed` -/
  | discard (clientOrderId : ℕ)

/-- A piece of a method on the stack, of a handler of a venue event or of a decision. -/
structure Frame (σ : Type) where
  inHandler : Bool
  task : Task σ

/-- **The host**: the router, the venue, and what is left to run, the innermost method
first. `raised` is what has left a handler, and `latest` the number of the protection of
each kind that was last requested and not withdrawn since. -/
structure Host (σ : Type) where
  router : Router σ
  book : Book NativeOrder String
  stack : List (Frame σ)
  handed : List (String × Fill)
  executed : List (ℕ × String)
  raised : List Exc
  requests : ℕ
  latest : ProtectionKind → Option ℕ

variable {σ : Type}

def Router.empty : Router σ := ⟨fun _ => none, [], [], fun _ => none, fun _ => none⟩

def Host.start : Host σ := ⟨.empty, .empty, [], [], [], [], 0, fun _ => none⟩

/-! ## Pieces of the methods -/

/-- An exception leaves every method that is running. -/
def Host.raise (inHandler : Bool) (e : Exc) (h : Host σ) : Host σ :=
  { h with stack := [], raised := if inHandler then h.raised ++ [e] else h.raised }

/-- What comes next, in front of what was to come. -/
def Host.push (inHandler : Bool) (tasks : List (Task σ)) (h : Host σ) : Host σ :=
  { h with stack := tasks.map (Frame.mk inHandler) ++ h.stack }

def Host.submit (order : NativeOrder) (kind : OrderKind) (tag : String) (state : CausalState σ)
    (entry : Bool) (h : Host σ) : Host σ :=
  { h with
    router := { h.router with
      submitted := Function.update h.router.submitted h.book.next
        (some ⟨kind, tag, order.side, state, []⟩)
      entryIds := if entry then h.router.entryIds ++ [h.book.next] else h.router.entryIds }
    book := h.book.submit order }

variable (cfg : Setup) (state : CausalState σ) (reason : String)

def Host.submitMarket (side : Side) (qty : ℚ) (reduceOnly entry : Bool) (h : Host σ) : Host σ :=
  h.submit ⟨.market, side, cfg.makeQty qty, none, none, some .gtc, false, reduceOnly,
      [cfg.strategyName, reason, "market"], none⟩
    .market "market" state entry

def Host.submitLimit (action : Action) (reason : String) (side : Side) (price qty : ℚ)
    (postOnly : Bool) (tag : String) (timeInForce : Option TimeInForce) (h : Host σ) : Host σ :=
  h.submit
    ⟨.limit, side, cfg.makeQty qty, some (cfg.makePrice price), none, timeInForce, postOnly, false,
      [cfg.strategyName, reason, action.name, tag], none⟩
    (if tag = "tp" then .tp else .limit) tag state true

/-- The order of `_submit_protection`. -/
def PendingProtection.order (p : PendingProtection σ) : NativeOrder :=
  match p.kind with
  | .tp =>
    ⟨.limit, p.side, cfg.makeQty p.quantity, some (cfg.makePrice p.price), none, none, false, true,
      [cfg.strategyName, p.reason, "PLACE_TP", "tp"], some (.tp, p.number)⟩
  | .stop =>
    ⟨.stopMarket, p.side, cfg.makeQty p.quantity, none, some (cfg.makePrice p.price), none, false,
      true, [cfg.strategyName, p.reason, "stop"], some (.stop, p.number)⟩

def ProtectionKind.orderKind : ProtectionKind → OrderKind
  | tp => .tp
  | stop => .stop

def ProtectionKind.tag : ProtectionKind → String
  | tp => "tp"
  | stop => "stop"

/-- **`_submit_protection`**: the order becomes the active one after the call. -/
def Host.submitProtection (inHandler : Bool) (p : PendingProtection σ) (h : Host σ) : Host σ :=
  (h.push inHandler [.activate p.kind h.book.next]).submit (p.order cfg) p.kind.orderKind p.kind.tag
    p.state false

variable (kind : ProtectionKind)

/-- `self._active_protection.pop(kind, None)`. -/
def Host.deactivate (h : Host σ) : Host σ :=
  { h with router := { h.router with
      activeProtection := Function.update h.router.activeProtection kind none } }

/-- `self._pending_protection[kind] = ...`, or a `pop` of it. -/
def Host.setPending (p : Option (PendingProtection σ)) (h : Host σ) : Host σ :=
  { h with router := { h.router with
      pendingProtection := Function.update h.router.pendingProtection kind p } }

variable (clientOrderId : ℕ)

/-- `strategy.cancel_order`. -/
def Host.askCancel (h : Host σ) : Host σ :=
  { h with book := h.book.amend clientOrderId Order.askCancel }

/-- **`_request_protection`**: replace one source stop or take-profit, never stack it. -/
def Host.requestProtection (inHandler : Bool) (p : PendingProtection σ) (h : Host σ) : Host σ :=
  match h.router.activeProtection p.kind with
  | none => h.submitProtection cfg inHandler p
  | some activeId =>
    match h.router.submitted activeId with
    | none =>
      ((h.deactivate p.kind).setPending p.kind none).submitProtection cfg inHandler p
    | some _ => (h.setPending p.kind (some p)).askCancel activeId

/-- A request gets the next number, and is the latest of its kind. -/
def Host.place (inHandler : Bool) (kind : ProtectionKind) (state : CausalState σ) (reason : String)
    (side : Side) (price qty : ℚ) (h : Host σ) : Host σ :=
  Host.requestProtection cfg inHandler ⟨kind, state, reason, side, price, qty, h.requests⟩
    { h with
      requests := h.requests + 1
      latest := Function.update h.latest kind (some h.requests) }

/-- The loop of `_cancel_entries`. -/
def Host.cancelEntries (side : Option Side) (h : Host σ) : List (Task σ) :=
  h.router.entryIds.map fun clientOrderId => .cancelEntry clientOrderId side

/-- A round of `_cancel_entries`. -/
def Host.cancelEntry (side : Option Side) (h : Host σ) : Host σ :=
  match h.router.submitted clientOrderId with
  | none =>
    { h with router := { h.router with entryIds := h.router.entryIds.erase clientOrderId } }
  | some submitted =>
    if side = none ∨ side = some submitted.side then h.askCancel clientOrderId else h

/-- The loop of `REPLACE_LADDER`. -/
def ladderTasks (side : Side) (prices qtys : List ℚ) : List (Task σ) :=
  (prices.zip qtys).zipIdx.map (fun r => .rung state reason side r.2 r.1.1 r.1.2) ++
    if prices.length = qtys.length then []
    else if qtys.length < prices.length then
      [.unevenLadder "zip() argument 2 is shorter than argument 1"]
    else [.unevenLadder "zip() argument 2 is longer than argument 1"]

/-- `_cancel_all`, up to the call. -/
def Host.cancelAll (inHandler : Bool) (h : Host σ) : Host σ :=
  { h with book := h.book.amendAll Order.askCancel, latest := fun _ => none }.push inHandler
    [.clear]

/-- `_cancel_all`, after the call. -/
def Host.clear (h : Host σ) : Host σ :=
  { h with router := { h.router with
      submitted := fun _ => none
      entryIds := []
      activeProtection := fun _ => none
      pendingProtection := fun _ => none } }

/-- What `submit_decision` does for an intent that has passed its checks. -/
def Host.obey (inHandler : Bool) (state : CausalState σ) (i : Intent) (h : Host σ) :
    Command → Host σ
  | .cancelAll => h.cancelAll inHandler
  | .cancelEntries side => h.push inHandler (h.cancelEntries side)
  | .replaceLadder side prices qtys =>
    h.push inHandler (h.cancelEntries (some side) ++ ladderTasks state i.reason side prices qtys)
  | .marketEnter side qty => h.submitMarket cfg state i.reason side qty false true
  | .limitIocEnter side price qty =>
    h.submitLimit cfg state i.action i.reason side price qty false "ioc" (some .ioc)
  | .marketExit side qty => h.submitMarket cfg state i.reason side qty true false
  | .place kind side price qty => h.place cfg inHandler kind state i.reason side price qty

/-- A round of `REPLACE_LADDER`. -/
def Host.rung (side : Side) (index : ℕ) (price qty : ℚ) (h : Host σ) : Host σ :=
  if 0 < qty then
    h.submitLimit cfg state .replaceLadder reason side price qty true ("ladder:" ++ toString index)
      none
  else h

/-- `self._active_protection[pending.kind] = str(order.client_order_id)`. -/
def Host.activate (clientOrderId : ℕ) (h : Host σ) : Host σ :=
  { h with router := { h.router with
      activeProtection := Function.update h.router.activeProtection kind (some clientOrderId) } }

/-- **The loop of `on_order_canceled`**, up to its first call. -/
def Host.release (cfg : Setup) (inHandler : Bool) : List ProtectionKind → Host σ → Host σ
  | [], h => h
  | kind :: kinds, h =>
    match h.router.pendingProtection kind with
    | none => Host.release cfg inHandler kinds (h.deactivate kind)
    | some p =>
      (((h.deactivate kind).setPending kind none).push inHandler [.release kinds]).submitProtection
        cfg inHandler p

/-- The order leaves `_submitted` and `_entry_ids`. -/
def Host.drop (h : Host σ) : Host σ :=
  { h with router := { h.router with
      submitted := Function.update h.router.submitted clientOrderId none
      entryIds := h.router.entryIds.erase clientOrderId } }

def Host.isClosed (h : Host σ) : Bool :=
  match h.book.order? clientOrderId with
  | none => false
  | some o => ¬ o.status.IsOpen

def Host.discardIfClosed (inHandler : Bool) (clientOrderId : ℕ) (h : Host σ) : Host σ :=
  if cfg.cached then
    match h.router.submitted clientOrderId with
    | none => h.raise inHandler (.keyError clientOrderId)
    | some _ => if h.isClosed clientOrderId then h.drop clientOrderId else h
  else h

/-- **One piece of a method.** -/
def Host.perform (inHandler : Bool) (h : Host σ) : Task σ → Host σ
  | .intent state i =>
    match i.command with
    | .error e => h.raise inHandler e
    | .ok c => h.obey cfg inHandler state i c
  | .cancelEntry clientOrderId side => h.cancelEntry clientOrderId side
  | .rung state reason side index price qty => h.rung cfg state reason side index price qty
  | .unevenLadder text => h.raise inHandler (.valueError text)
  | .clear => h.clear
  | .activate kind clientOrderId => h.activate kind clientOrderId
  | .release kinds => h.release cfg inHandler kinds
  | .discard clientOrderId => h.discardIfClosed cfg inHandler clientOrderId

/-! ## Methods -/

/-- `_remember_causal_state`. -/
def remember [DecidableEq σ] (states : List (CausalState σ)) : Except Exc (List (CausalState σ)) :=
  match states.find? (·.observedAt = state.observedAt) with
  | none => .ok (states ++ [state])
  | some prior =>
    if prior = state then .ok states
    else .error (.valueError ("btc-qt native router received conflicting causal states for " ++
      cfg.isoformat state.observedAt))

/-- The states that were known at a time. -/
def visible (fillAt : ℕ) (states : List (CausalState σ)) : List (CausalState σ) :=
  states.filter fun s => s.observedAt ≤ fillAt ∧ s.availableAt ≤ fillAt

/-- `_state_at`: the last one that was known at the time, which is cut to milliseconds. -/
def stateAt (fillTs : ℕ) (states : List (CausalState σ)) : Except Exc (CausalState σ) :=
  match (visible (fillTs * 1000) states).argmax CausalState.observedAt with
  | none => .error (.valueError ("btc-qt fill has no causal state available at " ++
      cfg.isoformat (fillTs * 1000)))
  | some state => .ok state

def nativeFee (fillPrice : ℚ) : Commission → Except Exc ℚ
  | .absent => .ok 0
  | .unreadable => .error (.valueError "native commission must be a numeric amount and currency")
  | .money amount currency =>
    if amount < 0 ∨ fillPrice ≤ 0 then
      .error (.valueError "native commission and fill price must be positive")
    else if currency = cfg.quoteCurrency then .ok amount
    else if currency = cfg.baseCurrency then .ok (amount * fillPrice)
    else .error (.valueError ("native commission currency requires explicit fill-time FX " ++
      "conversion: " ++ currency ++ ", expected " ++ cfg.quoteCurrency ++ " or " ++
      cfg.baseCurrency))

/-- **`submit_decision`**, up to its first intent. -/
def Host.submitDecision [DecidableEq σ] (inHandler : Bool) (state : CausalState σ)
    (intents : List Intent) (h : Host σ) : Host σ :=
  match remember cfg state h.router.causalStates with
  | .error e => h.raise inHandler e
  | .ok states =>
    { h with router := { h.router with causalStates := states } }.push inHandler
      (intents.map (.intent state))

/-- The trade id is kept, and the order is no longer active. -/
def Host.noteFill (submitted : SubmittedOrder σ) (tradeId : String) (h : Host σ) : Host σ :=
  { h with router := { h.router with
      submitted := Function.update h.router.submitted clientOrderId
        (some { submitted with fillIds := submitted.fillIds ++ [tradeId] })
      activeProtection := fun kind =>
        if h.router.activeProtection kind = some clientOrderId then none
        else h.router.activeProtection kind } }

variable (event : FillEvent)

/-- The time of a fill in milliseconds. -/
def FillEvent.ts : ℕ := event.tsEvent / 1000000

/-- What `port.on_fill` is called with. -/
def FillEvent.convert (submitted : SubmittedOrder σ) (states : List (CausalState σ))
    (event : FillEvent) : Except Exc (Fill × CausalState σ) := do
  let fee ← nativeFee cfg event.lastPx event.commission
  let state ← stateAt cfg event.ts states
  .ok (⟨event.ts, clientOrderId, cfg.strategyName, event.orderSide, event.lastPx, event.lastQty,
    fee,
    submitted.kind, submitted.tag⟩, state)

/-- The call of `port.on_fill`, and the decision that it returns. -/
def Host.handOver [DecidableEq σ] (tradeId : String) (fill : Fill) (state : CausalState σ)
    (answer : Except Exc (List Intent)) (h : Host σ) : Host σ :=
  match answer with
  | .error e => { h with handed := h.handed ++ [(tradeId, fill)] }.raise true e
  | .ok intents =>
    ({ h with handed := h.handed ++ [(tradeId, fill)] }.push true
      [.discard fill.orderId]).submitDecision cfg true state intents

variable (answer : Except Exc (List Intent))

/-- **`on_order_filled`.** `answer` is what `port.on_fill` returns or raises. -/
def Host.onOrderFilled [DecidableEq σ] (h : Host σ) : Host σ :=
  match h.router.submitted clientOrderId with
  | none => h
  | some submitted =>
    if event.tradeId ∈ submitted.fillIds then h
    else
      match event.convert cfg clientOrderId submitted h.router.causalStates with
      | .error e => (h.noteFill clientOrderId submitted event.tradeId).raise true e
      | .ok (fill, state) =>
        (h.noteFill clientOrderId submitted event.tradeId).handOver cfg event.tradeId fill state
          answer

/-- The kinds whose active protection is the order. -/
def Router.kindsOf (r : Router σ) : List ProtectionKind :=
  [.tp, .stop].filter fun kind => r.activeProtection kind = some clientOrderId

/-- **`on_order_canceled`**, and `on_order_rejected`. -/
def Host.onOrderCanceled (h : Host σ) : Host σ :=
  (h.drop clientOrderId).release cfg true (h.router.kindsOf clientOrderId)

/-! ## Steps -/

/-- What can happen next: a decision is submitted, the running method goes on, the venue
accepts, fills, cancels or rejects an order, or reports a trade again. -/
inductive Event (σ : Type)
  | decide (state : CausalState σ) (intents : List Intent)
  | resume
  | accepted (clientOrderId : ℕ)
  | filled (clientOrderId : ℕ) (event : FillEvent) (closes : Bool)
      (answer : Except Exc (List Intent))
  | redelivered (clientOrderId : ℕ) (event : FillEvent) (answer : Except Exc (List Intent))
  | canceled (clientOrderId : ℕ)
  | rejected (clientOrderId : ℕ)

/-- The venue accepts an order; the router has no handler for it. -/
def Host.accepted (h : Host σ) : Host σ :=
  { h with book := h.book.amend clientOrderId Order.accept }

/-- The venue executes a trade. -/
def Host.execute (tradeId : String) (closes : Bool) (h : Host σ) : Host σ :=
  { h with
    book := h.book.amend clientOrderId (Order.trade tradeId closes)
    executed := h.executed ++ [(clientOrderId, tradeId)] }

/-- A trade is executed for an open order, and reported. -/
def Host.filled [DecidableEq σ] (closes : Bool) (answer : Except Exc (List Intent)) (h : Host σ) :
    Host σ :=
  match h.book.order? clientOrderId with
  | none => h
  | some o =>
    if o.status.IsOpen ∧ event.tradeId ∉ o.trades then
      (h.execute clientOrderId event.tradeId closes).onOrderFilled cfg clientOrderId event answer
    else h

/-- A trade is reported again. -/
def Host.redelivered [DecidableEq σ] (h : Host σ) : Host σ :=
  match h.book.order? clientOrderId with
  | none => h
  | some o =>
    if event.tradeId ∈ o.trades then h.onOrderFilled cfg clientOrderId event answer else h

/-- The venue ends an order without a trade. -/
def Host.finish (status : Status) (h : Host σ) : Host σ :=
  { h with book := h.book.amend clientOrderId (Order.finish status) }

/-- The venue ends an open order without a trade, and reports it. -/
def Host.ended (status : Status) (h : Host σ) : Host σ :=
  match h.book.order? clientOrderId with
  | none => h
  | some o =>
    if o.status.IsOpen then
      (h.finish clientOrderId status).onOrderCanceled cfg clientOrderId
    else h

/-- The running method goes on to its next call of the venue. -/
def Host.resume (h : Host σ) : Host σ :=
  match h.stack with
  | [] => h
  | f :: rest => { h with stack := rest }.perform cfg f.inHandler f.task

/-- **A step.** A decision is submitted when no method is running. -/
def step [DecidableEq σ] (h : Host σ) : Event σ → Host σ
  | .decide state intents => if h.stack = [] then h.submitDecision cfg false state intents else h
  | .resume => h.resume cfg
  | .accepted clientOrderId => h.accepted clientOrderId
  | .filled clientOrderId event closes answer => h.filled cfg clientOrderId event closes answer
  | .redelivered clientOrderId event answer => h.redelivered cfg clientOrderId event answer
  | .canceled clientOrderId => h.ended cfg clientOrderId .canceled
  | .rejected clientOrderId => h.ended cfg clientOrderId .rejected

end Qt.Nautilus
