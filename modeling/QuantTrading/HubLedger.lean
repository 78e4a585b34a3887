import QuantTrading.HubTrading

/-!
# The writes to the trading ledger

What the transactions of `qt.agent_hub.trading` do to the rows comes down to six
kinds of writes, each to one order at most (`Write`). What every ledger
satisfies (`TradeLedger.Sound`) is kept by each of them; that cash and holdings
are what was accounted (`TradeLedger.Balanced`) and that the orders to buy of a
day stay within the budget are kept by those that round nothing.
-/

namespace Qt

open Except List Table Option
open SigDigits

/-! ## What the transactions do -/

/-- A result that passes the checks of `_finish`. -/
structure TradeRecord.Checked (record : TradeRecord) (result : TradeResult) (status : TradeStatus) :
    Prop where
  status : result.status = some status
  nonneg : 0 ≤ result.filledQty ∧ 0 ≤ result.quoteQty ∧ 0 ≤ result.feeBase ∧ 0 ≤ result.feeQuote
  quantity : result.filledQty ≤ record.intent.quantity
  limit : record.intent.side = .buy →
    result.quoteQty ≤ defaultMul result.filledQty record.intent.limitPrice

variable (record : TradeRecord) (result : TradeResult)

/-- Cash after an execution. -/
def TradeRecord.cashAfter (cash : ℚ) : ℚ :=
  match record.intent.side with
  | .buy => defaultSub cash (defaultAdd result.quoteQty result.feeQuote)
  | .sell => defaultAdd cash (defaultSub result.quoteQty result.feeQuote)

/-- The quantity that is held after an execution. -/
def TradeRecord.heldAfter (held : ℚ) : ℚ :=
  match record.intent.side with
  | .buy => defaultAdd held (defaultSub result.filledQty result.feeBase)
  | .sell => defaultSub held (defaultAdd result.filledQty result.feeBase)

variable (l : TradeLedger) (venue : TradeVenue)

/-- The quantity of an instrument that is held. -/
def TradeLedger.held (instrument : String) : ℚ :=
  (l.position venue instrument).quantity

structure TradeRecord.Accounted (record : TradeRecord) (status : TradeStatus)
    (result : TradeResult) (l l' : TradeLedger) : Prop where
  orders : l'.orders = l.orders.update record.intent.idempotencyKey
    (fun o => { o with record := record.account status result, reserved := record.spent result })
    (fun _ => rfl)
  cash : ∃ a, l.accounts.find? record.intent.venue = some a ∧ 0 ≤ record.cashAfter result a.cash
    ∧ l'.accounts = l.accounts.replace { a with cash := record.cashAfter result a.cash }
  held : ∀ venue instrument, l'.held venue instrument
    = if (venue, instrument) = (record.intent.venue, record.intent.instrument) then
        record.heldAfter result (l.held venue instrument)
      else l.held venue instrument
  nonneg : 0 ≤ record.heldAfter result (l.held record.intent.venue record.intent.instrument)
  log : l'.log = l.log ++ [.accounted record.intent.idempotencyKey]

section Transactions

variable {record record' : TradeRecord} {result : TradeResult} {status : TradeStatus}
  {l l' : TradeLedger}

theorem tradeDecimal_eq_ok {x y : ℚ} (h : tradeDecimal x = .ok y) : y = x ∧ 0 ≤ x := by
  obtain ⟨hneg, h⟩ := of_raiseIf h
  obtain ⟨_, h⟩ := of_raiseIf h
  exact ⟨(ok.inj h).symm, not_lt.mp hneg⟩

theorem defaultMul_zero_left (x : ℚ) : defaultMul 0 x = 0 := by
  simp [defaultMul]

theorem TradeRecord.check_eq_ok (h : record.check result = .ok status) :
    record.Checked result status ∧ (result.filledQty = 0 →
      result.quoteQty = 0 ∧ result.feeBase = 0 ∧ result.feeQuote = 0) := by
  obtain ⟨_, h⟩ := of_raiseIf h
  cases hstatus : result.status with
  | none =>
    rw [hstatus] at h
    cases h
  | some s =>
    rw [hstatus] at h
    dsimp only at h
    obtain ⟨qty, hqty, h⟩ := of_bind h
    obtain ⟨gross, hgross, h⟩ := of_bind h
    obtain ⟨feeBase, hbase, h⟩ := of_bind h
    obtain ⟨feeQuote, hquote, h⟩ := of_bind h
    obtain ⟨rfl, hqty0⟩ := tradeDecimal_eq_ok hqty
    obtain ⟨rfl, hgross0⟩ := tradeDecimal_eq_ok hgross
    obtain ⟨rfl, hbase0⟩ := tradeDecimal_eq_ok hbase
    obtain ⟨rfl, hquote0⟩ := tradeDecimal_eq_ok hquote
    obtain ⟨hquantities, h⟩ := of_raiseIf h
    obtain ⟨hfees, h⟩ := of_raiseIf h
    obtain ⟨hlimit, h⟩ := of_raiseIf h
    cases h
    simp only [not_or, not_lt, not_not] at hquantities
    simp only [not_or, not_not, not_and] at hfees
    obtain ⟨hle, hzero, -⟩ := hquantities
    refine ⟨⟨hstatus, ⟨hqty0, hgross0, hbase0, hquote0⟩, hle, fun hbuy => ?_⟩,
      fun hq => ⟨hzero.mp hq, hfees.2 hq⟩⟩
    by_cases hq : result.filledQty = 0
    · rw [hq, defaultMul_zero_left, hzero.mp hq]
    · exact not_lt.mp (fun hlt => hlimit ⟨hq, .inl ⟨hbuy, hlt⟩⟩)

theorem TradeRecord.settle_eq_ok {cash cash' : ℚ} {p p' : TradePosition}
    (h : record.settle result cash p = .ok (cash', p')) :
    cash' = record.cashAfter result cash ∧ p'.key = p.key
      ∧ p'.quantity = record.heldAfter result p.quantity := by
  unfold TradeRecord.settle at h
  unfold TradeRecord.cashAfter TradeRecord.heldAfter
  cases hside : record.intent.side with
  | buy =>
    rw [hside] at h
    cases h
    exact ⟨rfl, rfl, rfl⟩
  | sell =>
    rw [hside] at h
    obtain ⟨_, h⟩ := of_raiseIf h
    cases h
    exact ⟨rfl, rfl, rfl⟩

/-- **A lookup after an upsert.** -/
theorem TradeLedger.find?_putPosition (p : TradePosition) (k : TradeVenue × String) :
    (l.putPosition p).positions.find? k = if k = p.key then some p else l.positions.find? k := by
  show ((l.positions.insertOnce p).replace p).find? k = _
  have hsome : ∃ s, (l.positions.insertOnce p).find? p.key = some s := by
    cases hfind : l.positions.find? p.key with
    | none => exact ⟨p, find?_insertOnce_self hfind⟩
    | some s => exact ⟨s, find?_insertOnce_of_find? hfind⟩
  obtain ⟨s, hs⟩ := hsome
  rw [find?_replace hs, find?_insertOnce]
  by_cases hk : k = p.key
  · rw [if_pos hk, if_pos hk]
  · rw [if_neg hk, if_neg hk, if_neg (fun h => hk h.2.symm)]

theorem TradeLedger.position_key (l : TradeLedger) (venue : TradeVenue) (instrument : String) :
    (l.position venue instrument).key = (venue, instrument) := by
  unfold TradeLedger.position
  cases hfind : l.positions.find? (venue, instrument) with
  | none => rfl
  | some p => exact key_of_find? hfind

/-- An execution that is accounted settles its position, and no other. -/
theorem TradeLedger.account_eq_ok (h : l.account record status result = .ok (record', l')) :
    record.Accounted status result l l' ∧ ∃ cash cash' p', record.settle result cash
        (l.position record.intent.venue record.intent.instrument) = .ok (cash', p')
      ∧ 0 ≤ p'.quantity
      ∧ ∀ venue instrument, l'.position venue instrument
        = if (venue, instrument) = (record.intent.venue, record.intent.instrument) then p'
          else l.position venue instrument := by
  unfold TradeLedger.account at h
  cases haccount : l.accounts.find? record.intent.venue with
  | none =>
    rw [haccount] at h
    cases h
  | some a =>
    rw [haccount] at h
    obtain ⟨⟨cash, p⟩, hsettle, h⟩ := of_bind h
    obtain ⟨hdrift, h⟩ := of_raiseIf h
    cases h
    obtain ⟨rfl, hkey, hquantity⟩ := TradeRecord.settle_eq_ok hsettle
    simp only [not_or, not_lt] at hdrift
    rw [TradeLedger.position_key] at hkey
    have hposition : ∀ venue instrument, (l.putPosition p).position venue instrument
        = if (venue, instrument) = (record.intent.venue, record.intent.instrument) then p
          else l.position venue instrument := by
      intro venue instrument
      have hfind := TradeLedger.find?_putPosition (l := l) p (venue, instrument)
      unfold TradeLedger.position
      rw [hfind, hkey]
      split_ifs <;> rfl
    refine ⟨⟨rfl, ⟨a, haccount, hdrift.1, ?_⟩, ?_, hquantity ▸ hdrift.2.1, rfl⟩,
      a.cash, _, p, hsettle, hdrift.2.1, hposition⟩
    · exact update_eq_replace haccount
        (fun b => { b with cash := record.cashAfter result a.cash }) (fun _ => rfl)
    · intro venue instrument
      refine (congrArg TradePosition.quantity (hposition venue instrument)).trans ?_
      split_ifs with hk
      · obtain ⟨rfl, rfl⟩ := Prod.ext_iff.mp hk
        exact hquantity
      · rfl

/-- **What `_finish` does**: nothing to an order that is accounted, and
otherwise it saves an open result, or accounts a terminal one. -/
theorem TradeLedger.finish_eq_ok {o : TradeOrder}
    (ho : l.orders.find? record.intent.idempotencyKey = some o)
    (h : l.finish record result = .ok (record', l')) :
    ∃ status, record.Checked result status ∧ (o.record.accounted = true ∧ l' = l
        ∨ o.record.accounted = false ∧ status.Open
          ∧ l' = l.save { record with status := status, exchangeId := result.exchangeId }
        ∨ o.record.accounted = false ∧ ¬ status.Open ∧ record.Accounted status result l l') := by
  obtain ⟨status, hcheck, h⟩ := of_bind h
  refine ⟨status, (TradeRecord.check_eq_ok hcheck).1, ?_⟩
  rw [ho] at h
  cases haccounted : o.record.accounted with
  | true =>
    rw [filter_some, if_pos haccounted] at h
    cases h
    exact .inl ⟨rfl, rfl⟩
  | false =>
    rw [filter_some, if_neg (by simp [haccounted])] at h
    dsimp only at h
    split_ifs at h with hopen
    · cases h
      exact .inr (.inl ⟨rfl, hopen, rfl⟩)
    · exact .inr (.inr ⟨rfl, hopen, (TradeLedger.account_eq_ok h).1⟩)

end Transactions

/-! ## Writes -/

/-- **A write to the ledger**, which is of one order at most. `A` is what is
known of a result that is accounted, and `B` of a call that reserves. -/
inductive Write (c : TradingService) (A : TradeLedger → TradeRecord → TradeResult → Prop)
    (B : TradeLedger → TradeCall → Prop) (key : String) : TradeLedger → TradeLedger → Prop
  | setRiskMode (l : TradeLedger) (mode : TradeRiskMode) :
      Write c A B key l { l with riskMode := mode }
  | fund (l : TradeLedger) (a : TradeAccount) (hcash : 0 ≤ a.cash) (hstart : a.start = a.cash)
      (hpaper : c.paper = true → a.cash = 1000) :
      Write c A B key l { l with accounts := l.accounts.insertOnce a }
  | reserve (l : TradeLedger) (q : TradeCall) (hkey : q.intent.idempotencyKey = key)
      (hnew : l.orders.find? key = none)
      (hopen : ∀ k o, l.orders.find? k = some o → ¬ o.record.status.Open)
      (hfunded : ∃ a, l.accounts.find? q.intent.venue = some a)
      (hdaily : q.intent.side = .buy →
        defaultAdd (defaultSum (l.bought q.day)) q.intent.reserve ≤ c.maxDailyQuote)
      (hB : B l q) : Write c A B key l { l with orders := l.orders.insertOnce (c.order q) }
  | send (l : TradeLedger) (hnew : .sent key ∉ l.log) (hrow : ∃ o, l.orders.find? key = some o)
      (hopen : ∀ k o, l.orders.find? k = some o → o.record.status.Open → k = key) :
      Write c A B key l { l with log := l.log ++ [.sent key] }
  | save (l : TradeLedger) (record : TradeRecord) (o : TradeOrder)
      (hkey : record.intent.idempotencyKey = key) (ho : l.orders.find? key = some o)
      (hout : o.record.accounted = false) (hintent : record.intent = o.record.intent)
      (hopen : record.status.Open) (hrecord : record.accounted = false) :
      Write c A B key l (l.save record)
  | account (l l' : TradeLedger) (record : TradeRecord) (status : TradeStatus)
      (result : TradeResult) (o : TradeOrder) (hkey : record.intent.idempotencyKey = key)
      (ho : l.orders.find? key = some o) (hout : o.record.accounted = false)
      (hintent : record.intent = o.record.intent) (hchecked : record.Checked result status)
      (hclosed : ¬ status.Open) (haccounted : record.Accounted status result l l')
      (hA : A l record result) : Write c A B key l l'

/-- **What the row of an order says.** -/
structure TradeOrder.Sound (o : TradeOrder) (l : TradeLedger) (key : String) : Prop where
  key : o.record.intent.idempotencyKey = key
  status : o.record.accounted = false ↔ o.record.status.Open
  funded : ∃ a, l.accounts.find? o.record.intent.venue = some a
  reserved : o.record.accounted = false → o.reserved = o.record.intent.reserve

/-- **What every ledger satisfies.** -/
structure TradeLedger.Sound (c : TradingService) (l : TradeLedger) : Prop where
  order : ∀ k o, l.orders.find? k = some o → o.Sound l k
  oneOpen : ∀ k k' o o', l.orders.find? k = some o → l.orders.find? k' = some o' →
    o.record.status.Open → o'.record.status.Open → k = k'
  accounted : ∀ k, l.log.count (.accounted k)
    = (l.orders.find? k).elim 0 (fun o => if o.record.accounted = true then 1 else 0)
  sentOnce : ∀ k, l.log.count (.sent k) ≤ 1
  sentKnown : ∀ k, .sent k ∈ l.log → ∃ o, l.orders.find? k = some o
  cash : ∀ v a, l.accounts.find? v = some a → 0 ≤ a.cash ∧ (c.paper = true → a.start = 1000)
  held : ∀ v i, 0 ≤ l.held v i

section Writes

variable {c : TradingService} {A : TradeLedger → TradeRecord → TradeResult → Prop}
  {B : TradeLedger → TradeCall → Prop} {key : String} {l l' : TradeLedger}

/-- The row of a key is another one. -/
def PutOrder (key : String) (o : TradeOrder) (l l' : TradeLedger) : Prop :=
  ∀ k, l'.orders.find? k = if k = key then some o else l.orders.find? k

theorem putOrder_reserve {q : TradeCall} (hkey : q.intent.idempotencyKey = key)
    (hnew : l.orders.find? key = none) :
    PutOrder key (c.order q) l { l with orders := l.orders.insertOnce (c.order q) } := by
  subst hkey
  intro k
  show (l.orders.insertOnce (c.order q)).find? k = _
  rw [find?_insertOnce]
  by_cases hk : k = q.intent.idempotencyKey
  · rw [if_pos hk, if_pos ⟨hnew, hk.symm⟩]
  · rw [if_neg hk, if_neg (fun h => hk h.2.symm)]

variable {o : TradeOrder}

theorem putOrder_update (ho : l.orders.find? key = some o) (f : TradeOrder → TradeOrder)
    (hf : ∀ r, (f r).idem = r.idem) (hl : l'.orders = l.orders.update key f hf) :
    PutOrder key (f o) l l' := by
  intro k
  rw [hl, Table.find?_update]
  split_ifs with hk
  · rw [ho, map_some]
  · rfl

variable {record : TradeRecord}

theorem putOrder_save (ho : l.orders.find? record.intent.idempotencyKey = some o) :
    PutOrder record.intent.idempotencyKey { o with record := record } l (l.save record) :=
  putOrder_update ho (fun o => { o with record := record }) (fun _ => rfl) rfl

theorem TradeRecord.Accounted.putOrder {status : TradeStatus} {result : TradeResult}
    (h : record.Accounted status result l l')
    (ho : l.orders.find? record.intent.idempotencyKey = some o) :
    PutOrder record.intent.idempotencyKey
      { o with record := record.account status result, reserved := record.spent result } l l' :=
  putOrder_update ho
    (fun o => { o with record := record.account status result, reserved := record.spent result })
    (fun _ => rfl) h.orders

variable (h : Write c A B key l l')
include h

/-- **A write puts the row of its order**, or touches none; and it keeps the
intent. -/
theorem Write.orders : l'.orders = l.orders ∨ ∃ o', PutOrder key o' l l'
      ∧ ∀ o, l.orders.find? key = some o → o'.record.intent = o.record.intent := by
  cases h with
  | setRiskMode mode => exact .inl rfl
  | fund a _ _ _ => exact .inl rfl
  | send _ _ _ => exact .inl rfl
  | reserve q hkey hnew _ _ _ _ =>
    refine .inr ⟨_, putOrder_reserve hkey hnew, fun o ho => ?_⟩
    rw [hnew] at ho
    cases ho
  | save record o hkey ho _ hintent _ _ =>
    subst hkey
    refine .inr ⟨_, putOrder_save ho, fun o' ho' => ?_⟩
    rw [ho] at ho'
    cases ho'
    exact hintent
  | account _ record status result o hkey ho _ hintent _ _ haccounted _ =>
    subst hkey
    refine .inr ⟨_, haccounted.putOrder ho, fun o' ho' => ?_⟩
    rw [ho] at ho'
    cases ho'
    exact hintent

/-- **The rows of other orders are not touched**, and no row is lost. -/
theorem Write.kept {k : String} (ho : l.orders.find? k = some o) :
    ∃ o', l'.orders.find? k = some o' ∧ o'.record.intent = o.record.intent ∧ (k ≠ key → o' = o) := by
  obtain hsame | ⟨o', hput, hintent⟩ := h.orders
  · exact ⟨o, hsame ▸ ho, rfl, fun _ => rfl⟩
  · by_cases hk : k = key
    · subst hk
      exact ⟨o', (hput k).trans (if_pos rfl), hintent o ho, fun hne => absurd rfl hne⟩
    · exact ⟨o, ((hput k).trans (if_neg hk)).trans ho, rfl, fun _ => rfl⟩

/-- **What a write logs** is about its order. -/
theorem Write.log : ∃ es : List TradeEvent, l'.log = l.log ++ es
    ∧ ∀ e ∈ es, e = .sent key ∨ e = .accounted key := by
  have hnone : ∃ es : List TradeEvent, l.log = l.log ++ es
      ∧ ∀ e ∈ es, e = .sent key ∨ e = .accounted key :=
    ⟨[], (append_nil _).symm, fun _ he => by cases he⟩
  cases h with
  | setRiskMode _ => exact hnone
  | fund _ _ _ _ => exact hnone
  | reserve _ _ _ _ _ _ _ => exact hnone
  | save _ _ _ _ _ _ _ _ => exact hnone
  | send _ _ _ => exact ⟨_, rfl, fun e he => .inl (mem_singleton.mp he)⟩
  | account _ record _ _ _ hkey _ _ _ _ _ haccounted _ =>
    subst hkey
    exact ⟨_, haccounted.log, fun e he => .inr (mem_singleton.mp he)⟩

end Writes

section Sound

variable {c : TradingService} {A : TradeLedger → TradeRecord → TradeResult → Prop}
  {B : TradeLedger → TradeCall → Prop} {key : String} {l l' : TradeLedger}

theorem TradeLedger.Sound.order_of_orders_eq (h : l.Sound c) (horders : l'.orders = l.orders)
    (hfunded : ∀ v a, l.accounts.find? v = some a → ∃ a', l'.accounts.find? v = some a') :
    ∀ k o, l'.orders.find? k = some o → o.Sound l' k := by
  intro k o ho
  rw [horders] at ho
  obtain ⟨hkey, hstatus, ⟨a, ha⟩, hreserved⟩ := h.order k o ho
  exact ⟨hkey, hstatus, hfunded _ a ha, hreserved⟩

variable {o' : TradeOrder}

/-- What the rows say survives a write that puts a sound row. -/
theorem TradeLedger.Sound.order_of_put (h : l.Sound c) (hput : PutOrder key o' l l')
    (ho' : o'.Sound l' key)
    (hfunded : ∀ v a, l.accounts.find? v = some a → ∃ a', l'.accounts.find? v = some a') :
    ∀ k o, l'.orders.find? k = some o → o.Sound l' k := by
  intro k o ho
  rw [hput k] at ho
  split_ifs at ho with hk
  · cases ho
    exact hk ▸ ho'
  · obtain ⟨hkey, hstatus, ⟨a, ha⟩, hreserved⟩ := h.order k o ho
    exact ⟨hkey, hstatus, hfunded _ a ha, hreserved⟩

/-- Of the rows after a write that puts one, one is open at most, if no other
was when the new one is. -/
theorem TradeLedger.Sound.oneOpen_of_put (h : l.Sound c) (hput : PutOrder key o' l l')
    (halone : o'.record.status.Open → ∀ k o, l.orders.find? k = some o → o.record.status.Open → k =
      key) :
    ∀ k k' o₁ o₂, l'.orders.find? k = some o₁ → l'.orders.find? k' = some o₂ →
      o₁.record.status.Open → o₂.record.status.Open → k = k' := by
  intro k k' o₁ o₂ h₁ h₂ hopen₁ hopen₂
  rw [hput k] at h₁
  rw [hput k'] at h₂
  split_ifs at h₁ with hk <;> split_ifs at h₂ with hk'
  · exact hk.trans hk'.symm
  · cases h₁
    exact hk.trans (halone hopen₁ k' o₂ h₂ hopen₂).symm
  · cases h₂
    exact (halone hopen₂ k o₁ h₁ hopen₁).trans hk'.symm
  · exact h.oneOpen k k' o₁ o₂ h₁ h₂ hopen₁ hopen₂

/-- The count of what was accounted, after a write that logs nothing of the
kind and puts no accounted row in the place of another. -/
theorem TradeLedger.Sound.accounted_of_put (h : l.Sound c) (hput : PutOrder key o' l l')
    (hlog : l'.log = l.log) (hout : o'.record.accounted = false)
    (hold : ∀ o, l.orders.find? key = some o → o.record.accounted = false) (k : String) :
    l'.log.count (.accounted k)
      = (l'.orders.find? k).elim 0 (fun o => if o.record.accounted = true then 1 else 0) := by
  rw [hlog, h.accounted k, hput k]
  split_ifs with hk
  · subst hk
    cases hfind : l.orders.find? k with
    | none => simp [hout]
    | some o => simp [hout, hold o hfind]
  · rfl

theorem PutOrder.known (hput : PutOrder key o' l l') {k : String}
    (h : ∃ o, l.orders.find? k = some o) : ∃ o, l'.orders.find? k = some o := by
  rw [hput k]
  split_ifs
  · exact ⟨o', rfl⟩
  · exact h

/-- **The row of the account** after an order is accounted. -/
theorem TradeRecord.Accounted.find?_accounts {record : TradeRecord} {status : TradeStatus}
    {result : TradeResult} (h : record.Accounted status result l l') (v : TradeVenue) :
    l'.accounts.find? v = (l.accounts.find? v).map (fun a =>
      if v = record.intent.venue then { a with cash := record.cashAfter result a.cash } else a) := by
  obtain ⟨a, ha, -, haccounts⟩ := h.cash
  have hkey : a.venue = record.intent.venue := key_of_find? ha
  have hfind : l.accounts.find? a.venue = some a := hkey.symm ▸ ha
  rw [haccounts]
  refine (find?_replace
    (s := ({ a with cash := record.cashAfter result a.cash } : TradeAccount)) hfind v).trans ?_
  show (if v = a.venue then _ else _) = _
  by_cases hv : v = record.intent.venue
  · rw [if_pos (hv.trans hkey.symm), hv, ha, map_some, if_pos rfl]
  · rw [if_neg (fun he => hv (he.trans hkey))]
    simp only [if_neg hv, Option.map_id']

/-- **A write keeps what every ledger satisfies.** -/
theorem TradeLedger.Sound.write (h : l.Sound c) (hw : Write c A B key l l') : l'.Sound c := by
  cases hw with
  | setRiskMode mode =>
    exact ⟨h.order_of_orders_eq rfl (fun _ a ha => ⟨a, ha⟩), h.oneOpen, h.accounted, h.sentOnce,
      h.sentKnown, h.cash, h.held⟩
  | fund a hcash hstart hpaper =>
    refine ⟨h.order_of_orders_eq rfl (fun _ b hb => ⟨b, find?_insertOnce_of_find? hb⟩),
      h.oneOpen, h.accounted, h.sentOnce, h.sentKnown, fun v b hb => ?_, h.held⟩
    have hb : (l.accounts.insertOnce a).find? v = some b := hb
    rw [find?_insertOnce] at hb
    split_ifs at hb with hv
    · cases hb
      exact ⟨hcash, fun hp => hstart.trans (hpaper hp)⟩
    · exact h.cash v b hb
  | reserve q hkey hnew hopen hfunded hdaily hB =>
    have hput := putOrder_reserve (c := c) hkey hnew
    refine ⟨h.order_of_put hput ⟨hkey, ?_, hfunded, fun _ => rfl⟩ (fun _ a ha => ⟨a, ha⟩),
      h.oneOpen_of_put hput (fun _ k o ho hk => absurd hk (hopen k o ho)),
      h.accounted_of_put hput rfl rfl (fun o ho => ?_), h.sentOnce,
      fun k hk => hput.known (h.sentKnown k hk), h.cash, h.held⟩
    · exact iff_of_true rfl (show TradeStatus.preparing.Open by decide)
    · rw [hnew] at ho
      cases ho
  | send hnew hrow hopen =>
    refine ⟨h.order_of_orders_eq rfl (fun _ a ha => ⟨a, ha⟩), h.oneOpen, fun k => ?_, fun k => ?_,
      fun k hk => ?_, h.cash, h.held⟩
    · rw [count_append, h.accounted k]
      simp
    · rw [count_append]
      by_cases hk : k = key
      · subst hk
        rw [count_eq_zero_of_not_mem hnew]
        simp
      · simpa [count_singleton, Ne.symm hk] using h.sentOnce k
    · rcases mem_append.mp hk with hk | hk
      · exact h.sentKnown k hk
      · cases mem_singleton.mp hk
        exact hrow
  | save record o hkey ho hout hintent hopen hrecord =>
    subst hkey
    have hput := putOrder_save ho
    obtain ⟨hkey, hstatus, hfunded, hreserved⟩ := h.order _ o ho
    refine ⟨h.order_of_put hput ⟨rfl, iff_of_true hrecord hopen, hintent ▸ hfunded, fun _ => ?_⟩
        (fun _ a ha => ⟨a, ha⟩),
      h.oneOpen_of_put hput (fun _ k o' ho' hk => h.oneOpen _ _ _ _ ho' ho hk (hstatus.mp hout)),
      h.accounted_of_put hput rfl hrecord (fun o' ho' => ?_), h.sentOnce,
      fun k hk => hput.known (h.sentKnown k hk), h.cash, h.held⟩
    · exact (hreserved hout).trans (congrArg TradeIntent.reserve hintent.symm)
    · rw [ho] at ho'
      cases ho'
      exact hout
  | account _ record status result o hkey ho hout hintent hchecked hclosed haccounted hA =>
    subst hkey
    have hput := haccounted.putOrder ho
    have haccounts := haccounted.find?_accounts
    obtain ⟨hkey, hstatus, hfunded, hreserved⟩ := h.order _ o ho
    have hkept : ∀ v a, l.accounts.find? v = some a → ∃ a', l'.accounts.find? v = some a' := by
      intro v a ha
      rw [haccounts v, ha]
      exact ⟨_, rfl⟩
    refine ⟨h.order_of_put hput ⟨rfl, ?_, ?_, fun hf => by cases hf⟩ hkept,
      h.oneOpen_of_put hput (fun hopen => absurd hopen hclosed), fun k => ?_, fun k => ?_,
      fun k hk => ?_, fun v a ha => ?_, fun v i => ?_⟩
    · exact iff_of_false (fun hf => by cases hf) hclosed
    · obtain ⟨a, ha⟩ := hfunded
      exact hkept _ a (hintent ▸ ha)
    · rw [haccounted.log, count_append, h.accounted k, hput k]
      split_ifs with hk
      · rw [hk, ho]
        simp [hout, TradeRecord.account]
      · simp [Ne.symm hk]
    · rw [haccounted.log, count_append]
      simpa using h.sentOnce k
    · rw [haccounted.log] at hk
      refine hput.known (h.sentKnown k ?_)
      simpa using hk
    · rw [haccounts v] at ha
      obtain ⟨b, hb, rfl⟩ := map_eq_some_iff.mp ha
      obtain ⟨hnonneg, hstart⟩ := h.cash v b hb
      split_ifs with hv
      · obtain ⟨b', hb', hafter, -⟩ := haccounted.cash
        rw [← hv, hb] at hb'
        cases hb'
        exact ⟨hafter, hstart⟩
      · exact ⟨hnonneg, hstart⟩
    · rw [haccounted.held v i]
      split_ifs with hk
      · obtain ⟨rfl, rfl⟩ := Prod.ext_iff.mp hk
        exact haccounted.nonneg
      · exact h.held v i

end Sound

/-! ## Sums -/

/-- The sum of an amount over the accounted orders of some intents. -/
def TradeLedger.sumAccounted (p : TradeIntent → Prop) [DecidablePred p] (g : TradeRecord → ℚ) : ℚ :=
  l.orders.sumOf (fun o => o.record.accounted = true ∧ p o.record.intent) (fun o => g o.record)

/-- What the accounted orders to buy cost at a venue. -/
def TradeLedger.paid : ℚ :=
  l.sumAccounted (fun i => i.venue = venue ∧ i.side = .buy) (fun r => r.quoteQty + r.feeQuote)

/-- What the accounted orders to sell brought at a venue. -/
def TradeLedger.received : ℚ :=
  l.sumAccounted (fun i => i.venue = venue ∧ i.side = .sell) (fun r => r.quoteQty - r.feeQuote)

/-- What an order changes the quantity by that is held. -/
def TradeRecord.net (r : TradeRecord) : ℚ :=
  match r.intent.side with
  | .buy => r.filledQty - r.feeBase
  | .sell => -(r.filledQty + r.feeBase)

/-- The net quantity of the accounted orders of an instrument. -/
def TradeLedger.net (instrument : String) : ℚ :=
  l.sumAccounted (fun i => i.venue = venue ∧ i.instrument = instrument) TradeRecord.net

/-- What the orders to buy of a day reserve together. -/
def TradeLedger.boughtOn (day : Date) : ℚ :=
  l.orders.sumOf (fun o => o.day = day ∧ o.record.intent.side = .buy) (·.reserved)

/-- **Cash and holdings are what was accounted.** -/
structure TradeLedger.Balanced (l : TradeLedger) : Prop where
  cash : ∀ v a, l.accounts.find? v = some a → a.cash = a.start - l.paid v + l.received v
  held : ∀ v i, l.held v i = l.net v i

/-- **The result can be accounted without rounding**: the sums that `_finish`
forms of it have few enough digits. -/
def TradeLedger.Exacts (record : TradeRecord) (result : TradeResult) : Prop :=
  let held := l.held record.intent.venue record.intent.instrument
  match record.intent.side with
  | .buy => Exact (result.quoteQty + result.feeQuote) ∧ Exact (result.filledQty - result.feeBase)
    ∧ Exact (result.feeBase * record.intent.limitPrice)
    ∧ (∀ a ∈ l.accounts.find? record.intent.venue,
      Exact (a.cash - (result.quoteQty + result.feeQuote)))
    ∧ Exact (held + (result.filledQty - result.feeBase))
  | .sell => Exact (result.quoteQty - result.feeQuote) ∧ Exact (result.filledQty + result.feeBase)
    ∧ (∀ a ∈ l.accounts.find? record.intent.venue,
      Exact (a.cash + (result.quoteQty - result.feeQuote)))
    ∧ Exact (held - (result.filledQty + result.feeBase))

instance (l : TradeLedger) (record : TradeRecord) (result : TradeResult) :
    Decidable (l.Exacts record result) := by
  unfold TradeLedger.Exacts
  cases record.intent.side <;> infer_instance

/-- The fees of a result, as quote, are within what was estimated. -/
def TradeRecord.Within : Prop :=
  record.intent.side = .buy → result.feeQuote + result.feeBase * record.intent.limitPrice
    ≤ record.intent.venue.fee record.intent.quantity record.intent.limitPrice
deriving Decidable

/-- **The budget of a call can be checked without rounding.** -/
def TradeLedger.ExactDay (q : TradeCall) : Prop :=
  q.intent.side = .buy → ∀ xs ∈ (l.bought q.day ++ [q.intent.reserve]).inits, Exact xs.sum
deriving Decidable

section Sums

variable {c : TradingService} {A : TradeLedger → TradeRecord → TradeResult → Prop}
  {B : TradeLedger → TradeCall → Prop} {key : String} {l l' : TradeLedger}

theorem TradeLedger.sumAccounted_reserve {q : TradeCall} (hkey : q.intent.idempotencyKey = key)
    (hnew : l.orders.find? key = none) (p : TradeIntent → Prop) [DecidablePred p]
    (g : TradeRecord → ℚ) :
    TradeLedger.sumAccounted { l with orders := l.orders.insertOnce (c.order q) } p g
      = l.sumAccounted p g := by
  subst hkey
  unfold TradeLedger.sumAccounted
  refine (sumOf_insertOnce hnew _ _).trans ?_
  rw [if_neg (fun h => nomatch h.1), add_zero]

variable {o : TradeOrder} {record : TradeRecord}

theorem TradeLedger.sumAccounted_save (ho : l.orders.find? record.intent.idempotencyKey = some o)
    (hout : o.record.accounted = false) (hrecord : record.accounted = false)
    (p : TradeIntent → Prop) [DecidablePred p] (g : TradeRecord → ℚ) :
    (l.save record).sumAccounted p g = l.sumAccounted p g := by
  unfold TradeLedger.sumAccounted TradeLedger.save
  refine (sumOf_update ho (fun o => { o with record := record }) (fun _ => rfl) _ _).trans ?_
  rw [if_neg (by simp [hout]), if_neg (by simp [hrecord]), sub_zero, add_zero]

theorem TradeLedger.sumAccounted_account {status : TradeStatus} {result : TradeResult}
    (h : record.Accounted status result l l')
    (ho : l.orders.find? record.intent.idempotencyKey = some o) (hout : o.record.accounted = false)
    (p : TradeIntent → Prop) [DecidablePred p] (g : TradeRecord → ℚ) : l'.sumAccounted p g
      = l.sumAccounted p g + if p record.intent then g (record.account status result) else 0 := by
  unfold TradeLedger.sumAccounted
  rw [h.orders]
  refine (sumOf_update ho (fun o => { o with
    record := record.account status result, reserved := record.spent result }) (fun _ => rfl)
    _ _).trans ?_
  rw [if_neg (by simp [hout]), sub_zero]
  congr 1
  exact if_congr (and_iff_right rfl) rfl rfl

theorem TradeLedger.Sound.sumAccounted_eq_zero (h : l.Sound c) {v : TradeVenue}
    (hnone : l.accounts.find? v = none) {p : TradeIntent → Prop} [DecidablePred p]
    (hp : ∀ i, p i → i.venue = v) (g : TradeRecord → ℚ) : l.sumAccounted p g = 0 := by
  refine sumOf_eq_zero (fun o ho hcounted => ?_) _
  obtain ⟨a, ha⟩ := (h.order _ o (find?_of_mem ho)).funded
  rw [hp _ hcounted.2, hnone] at ha
  cases ha

/-- **A write keeps the balance**, if what it accounts is not rounded. -/
theorem TradeLedger.Balanced.write (hb : l.Balanced) (h : l.Sound c)
    (hw : Write c TradeLedger.Exacts B key l l') : l'.Balanced := by
  cases hw with
  | setRiskMode mode => exact ⟨hb.cash, hb.held⟩
  | send hnew hrow hopen => exact ⟨hb.cash, hb.held⟩
  | fund a hcash hstart hpaper =>
    refine ⟨fun v b hfind => ?_, hb.held⟩
    have hfind : (l.accounts.insertOnce a).find? v = some b := hfind
    rw [find?_insertOnce] at hfind
    split_ifs at hfind with hv
    · cases hfind
      have hnone : l.accounts.find? v = none := hv.2 ▸ hv.1
      show a.cash = a.start - l.paid v + l.received v
      rw [hstart, TradeLedger.paid, TradeLedger.received,
        h.sumAccounted_eq_zero hnone (fun _ hp => hp.1),
        h.sumAccounted_eq_zero hnone (fun _ hp => hp.1), sub_zero, add_zero]
    · exact hb.cash v b hfind
  | reserve q hkey hnew hopen hfunded hdaily hB =>
    refine ⟨fun v a ha => ?_, fun v i => ?_⟩
    · rw [TradeLedger.paid, TradeLedger.received, TradeLedger.sumAccounted_reserve hkey hnew,
        TradeLedger.sumAccounted_reserve hkey hnew]
      exact hb.cash v a ha
    · rw [TradeLedger.net, TradeLedger.sumAccounted_reserve hkey hnew]
      exact hb.held v i
  | save record o hkey ho hout hintent hopen hrecord =>
    subst hkey
    refine ⟨fun v a ha => ?_, fun v i => ?_⟩
    · rw [TradeLedger.paid, TradeLedger.received, TradeLedger.sumAccounted_save ho hout hrecord,
        TradeLedger.sumAccounted_save ho hout hrecord]
      exact hb.cash v a ha
    · rw [TradeLedger.net, TradeLedger.sumAccounted_save ho hout hrecord]
      exact hb.held v i
  | account _ record status result o hkey ho hout hintent hchecked hclosed haccounted hA =>
    subst hkey
    have hsum := fun (p : TradeIntent → Prop) [DecidablePred p] (g : TradeRecord → ℚ) =>
      TradeLedger.sumAccounted_account haccounted ho hout p g
    unfold TradeLedger.Exacts at hA
    dsimp only at hA
    refine ⟨fun v a ha => ?_, fun v i => ?_⟩
    · rw [haccounted.find?_accounts v] at ha
      obtain ⟨b, hfind, rfl⟩ := map_eq_some_iff.mp ha
      have hold := hb.cash v b hfind
      rw [TradeLedger.paid, TradeLedger.received] at hold ⊢
      rw [hsum, hsum]
      by_cases hv : v = record.intent.venue
      · subst hv
        rw [if_pos rfl]
        unfold TradeRecord.cashAfter
        cases hside : record.intent.side with
        | buy =>
          rw [hside] at hA
          obtain ⟨hpaid, -, -, hcash, -⟩ := hA
          have hadd : defaultAdd result.quoteQty result.feeQuote
              = result.quoteQty + result.feeQuote := hpaid
          have hsub : defaultSub b.cash (result.quoteQty + result.feeQuote)
              = b.cash - (result.quoteQty + result.feeQuote) := hcash b hfind
          simp only [hadd, hsub, TradeRecord.account, and_self, reduceCtorEq, and_false, if_true,
            if_false, add_zero]
          rw [hold]
          ring
        | sell =>
          rw [hside] at hA
          obtain ⟨hreceived, -, hcash, -⟩ := hA
          have hsub : defaultSub result.quoteQty result.feeQuote
              = result.quoteQty - result.feeQuote := hreceived
          have hadd : defaultAdd b.cash (result.quoteQty - result.feeQuote)
              = b.cash + (result.quoteQty - result.feeQuote) := hcash b hfind
          simp only [hadd, hsub, TradeRecord.account, and_self, reduceCtorEq, and_false, if_true,
            if_false, add_zero]
          rw [hold]
          ring
      · rw [if_neg hv, if_neg (fun hp => hv hp.1.symm), if_neg (fun hp => hv hp.1.symm), add_zero,
          add_zero]
        exact hold
    · rw [haccounted.held v i, TradeLedger.net, hsum]
      by_cases hk : (v, i) = (record.intent.venue, record.intent.instrument)
      · obtain ⟨rfl, rfl⟩ := Prod.ext_iff.mp hk
        have hold := hb.held record.intent.venue record.intent.instrument
        rw [TradeLedger.net] at hold
        rw [if_pos rfl, if_pos ⟨rfl, rfl⟩, ← hold]
        unfold TradeRecord.heldAfter TradeRecord.net
        cases hside : record.intent.side with
        | buy =>
          rw [hside] at hA
          obtain ⟨-, hnet, -, -, hheld⟩ := hA
          have hsub : defaultSub result.filledQty result.feeBase
              = result.filledQty - result.feeBase := hnet
          simp only [hsub, TradeRecord.account, hside]
          exact hheld
        | sell =>
          rw [hside] at hA
          obtain ⟨-, hnet, -, hheld⟩ := hA
          have hadd : defaultAdd result.filledQty result.feeBase
              = result.filledQty + result.feeBase := hnet
          simp only [hadd, TradeRecord.account, hside]
          exact hheld.trans (sub_eq_add_neg _ _)
      · rw [if_neg hk, if_neg (fun hp => hk (Prod.ext hp.1.symm hp.2.symm)), add_zero]
        exact hb.held v i

end Sums

/-! ## The budget of a day -/

/-- A sum in the default context is the sum, where none on the way is
rounded. -/
theorem defaultSum_eq {xs : List ℚ} (h : ∀ ys ∈ xs.inits, Exact ys.sum) :
    defaultSum xs = xs.sum := by
  induction xs using List.reverseRecOn with
  | nil => rfl
  | append_singleton xs x ih =>
    have hinit : defaultSum xs = xs.sum := by
      refine ih (fun ys hys => h ys ?_)
      rw [mem_inits] at hys ⊢
      exact hys.trans (prefix_append _ _)
    have hall : Exact (xs ++ [x]).sum := h _ ((mem_inits _ _).mpr prefix_rfl)
    rw [sum_append, sum_singleton] at hall ⊢
    unfold defaultSum at hinit ⊢
    rw [foldl_append, foldl_cons, foldl_nil, hinit]
    exact hall

variable {l} {record} {result}

/-- **An order keeps no more reserved than it did**, when its fees are within
the estimate. -/
theorem TradeRecord.Checked.spent_le {status : TradeStatus} (h : record.Checked result status)
    (hexact : l.Exacts record result) (hwithin : record.Within result)
    (hbuy : record.intent.side = .buy) : record.spent result ≤ record.intent.reserve := by
  unfold TradeLedger.Exacts at hexact
  rw [hbuy] at hexact
  obtain ⟨hpaid, -, hbase, -, -⟩ := hexact
  obtain ⟨-, ⟨hqty, hgross, hfeeBase, hfeeQuote⟩, hle, hlimit⟩ := h
  have hprice : 0 < record.intent.limitPrice :=
    lt_of_lt_of_le (by norm_num) record.intent.limitPrice_range.1
  have hadd : defaultAdd result.quoteQty result.feeQuote = result.quoteQty + result.feeQuote := hpaid
  have hmul : defaultMul result.feeBase record.intent.limitPrice
      = result.feeBase * record.intent.limitPrice := hbase
  have hcost : result.quoteQty ≤ defaultMul record.intent.quantity record.intent.limitPrice :=
    (hlimit hbuy).trans (roundSig_mono (by norm_num) (mul_nonneg hqty hprice.le)
      (mul_le_mul_of_nonneg_right hle hprice.le))
  unfold TradeRecord.spent TradeIntent.reserve
  rw [hadd, hmul]
  refine roundSig_mono (by norm_num) ?_ ?_
  · exact add_nonneg (add_nonneg hgross hfeeQuote) (mul_nonneg hfeeBase hprice.le)
  · rw [add_assoc]
    exact add_le_add hcost (hwithin hbuy)

/-- **A write keeps the budget of every day**, if no sum is rounded and the fees
are within the estimate. -/
theorem TradeLedger.boughtOn_write {c : TradingService} {key : String} {l' : TradeLedger}
    (hd : ∀ day, l.boughtOn day ≤ c.maxDailyQuote) (h : l.Sound c)
    (hw :
      Write c (fun l record result => l.Exacts record result ∧
      record.Within result) TradeLedger.ExactDay key l l')
    (day : Date) : l'.boughtOn day ≤ c.maxDailyQuote := by
  cases hw with
  | setRiskMode mode => exact hd day
  | send hnew hrow hopen => exact hd day
  | fund a hcash hstart hpaper => exact hd day
  | reserve q hkey hnew hopen hfunded hdaily hexact =>
    subst hkey
    have hsum : TradeLedger.boughtOn { l with orders := l.orders.insertOnce (c.order q) } day
        = l.boughtOn day + if q.day = day ∧ q.intent.side = .buy then q.intent.reserve else 0 :=
      sumOf_insertOnce hnew _ _
    rw [hsum]
    by_cases hcounted : q.day = day ∧ q.intent.side = .buy
    · obtain ⟨rfl, hbuy⟩ := hcounted
      have hinits := hexact hbuy
      have hbought : defaultSum (l.bought q.day) = l.boughtOn q.day := by
        refine defaultSum_eq (fun ys hys => hinits ys ?_)
        rw [mem_inits] at hys ⊢
        exact hys.trans (prefix_append _ _)
      have hall := hinits _ ((mem_inits _ _).mpr prefix_rfl)
      rw [sum_append, sum_singleton] at hall
      have hadd : defaultAdd (l.boughtOn q.day) q.intent.reserve
          = l.boughtOn q.day + q.intent.reserve := hall
      have hroom := hdaily hbuy
      rw [hbought, hadd] at hroom
      rw [if_pos ⟨rfl, hbuy⟩]
      exact hroom
    · rw [if_neg hcounted, add_zero]
      exact hd day
  | save record o hkey ho hout hintent hopen hrecord =>
    subst hkey
    have hsum : (l.save record).boughtOn day = l.boughtOn day
        - (if o.day = day ∧ o.record.intent.side = .buy then o.reserved else 0)
        + if o.day = day ∧ record.intent.side = .buy then o.reserved else 0 :=
      sumOf_update ho (fun o => { o with record := record }) (fun _ => rfl) _ _
    rw [hsum, hintent, sub_add_cancel]
    exact hd day
  | account _ record status result o hkey ho hout hintent hchecked hclosed haccounted hA =>
    subst hkey
    have hsum : l'.boughtOn day = l.boughtOn day
        - (if o.day = day ∧ o.record.intent.side = .buy then o.reserved else 0)
        + if o.day = day ∧ record.intent.side = .buy then record.spent result else 0 := by
      unfold TradeLedger.boughtOn
      rw [haccounted.orders]
      exact sumOf_update ho (fun o => { o with
        record := record.account status result, reserved := record.spent result })
        (fun _ => rfl) _ _
    rw [hsum, hintent]
    by_cases hcounted : o.day = day ∧ o.record.intent.side = .buy
    · have hreserved := (h.order _ o ho).reserved hout
      have hspent := hchecked.spent_le hA.1 hA.2 (hintent ▸ hcounted.2)
      rw [if_pos hcounted, if_pos hcounted, hreserved, ← hintent]
      linarith [hd day]
    · rw [if_neg hcounted, if_neg hcounted, sub_zero, add_zero]
      exact hd day

end Qt
