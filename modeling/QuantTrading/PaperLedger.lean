import QuantTrading.LiveSpend

/-!
# The paper broker and the portfolio ledger

`qt.execution.paper` and `qt.portfolio.ledger`: a trade is booked twice, by the broker that
fills the order and by the ledger that the trade is recorded in. The broker lives as long as
its process; the ledger is written to a file after each trade, and read from it when a process
starts.

Both use the same arithmetic on cash and on the quantity held (`Agrees.recordTrade`); the average
price differs, since the ledger counts the fee as cost. The file that the trades are appended
to is read by nothing here, so of it only the failure of a write is kept. Numbers are exact
rationals and times are seconds.
-/

namespace Qt.Paper

open Table

open Live (OrderSide OrderType)

abbrev Order : Type := Live.Order

/-! ## Quantities by symbol -/

/-- A dictionary from symbols to numbers. -/
abbrev Amounts : Type := Table (Prod.fst : String × ℚ → String)

namespace Amounts

variable (a : Amounts) (symbol : String)

/-- `amounts.get(symbol, 0.0)`. -/
def get : ℚ := ((a.find? symbol).map Prod.snd).getD 0

/-- `amounts[symbol] = x`. -/
def set (x : ℚ) : Amounts := a.put (symbol, x)

/-- Keep the entries under a condition. -/
def filter (p : String × ℚ → Prop) [DecidablePred p] : Amounts :=
  a.deleteWhere (fun r => ¬ p r)

@[simp] theorem get_empty : get Table.empty symbol = 0 := rfl

@[simp] theorem get_set (symbol other : String) (x : ℚ) :
    (a.set symbol x).get other = if other = symbol then x else a.get other := by
  unfold get set
  rw [find?_put]
  split_ifs <;> rfl

theorem get_filter (p : String × ℚ → Prop) [DecidablePred p] (symbol : String) :
    (a.filter p).get symbol = if p (symbol, a.get symbol) then a.get symbol else 0 := by
  unfold get filter
  cases hrow : a.find? symbol with
  | none =>
    rw [show (Table.deleteWhere a fun r => ¬ p r).find? symbol = none from ?_]
    · simp
    · refine Option.eq_none_iff_forall_not_mem.mpr (fun r hr => ?_)
      rw [(find?_deleteWhere_eq_some_iff.mp hr).1] at hrow
      cases hrow
  | some r =>
    have hkey : r.1 = symbol := key_of_find? hrow
    by_cases hp : p r
    · rw [find?_deleteWhere_eq_some_iff.mpr ⟨hrow, not_not.mpr hp⟩]
      rw [show ((some r).map Prod.snd).getD (0 : ℚ) = r.2 from rfl, ← hkey, if_pos hp]
    · rw [show (Table.deleteWhere a fun r => ¬ p r).find? symbol = none from ?_]
      · rw [show ((some r).map Prod.snd).getD (0 : ℚ) = r.2 from rfl, ← hkey, if_neg hp]
        rfl
      · refine Option.eq_none_iff_forall_not_mem.mpr (fun r' hr' => ?_)
        obtain ⟨hfound, hkeep⟩ := find?_deleteWhere_eq_some_iff.mp hr'
        rw [hrow] at hfound
        exact hkeep (Option.some.inj hfound ▸ hp)

end Amounts

/-! ## Fills -/

structure FillModel where
  feeBps : ℚ := 5
  slippageBps : ℚ := 8
deriving DecidableEq

def FillModel.fillPrice (f : FillModel) (markPrice : ℚ) (side : OrderSide) : ℚ :=
  let slip := f.slippageBps / 10000
  if side = .buy then markPrice * (1 + slip) else markPrice * (1 - slip)

def FillModel.fee (f : FillModel) (notional : ℚ) : ℚ := |notional| * (f.feeBps / 10000)

/-- `Trade`, as the paper broker makes it. -/
structure Trade where
  ts : ℚ
  symbol : String
  side : OrderSide
  qty : ℚ
  price : ℚ
  fee : ℚ
  venue : String
  note : String
deriving DecidableEq

/-! ## The broker -/

structure PaperBroker where
  initialCash : ℚ
  fills : FillModel := {}
  cash : ℚ
  positions : Amounts
  avgPrice : Amounts
  tradeLog : List Trade

namespace PaperBroker

/-- `PaperBroker(initial_cash=…)`. -/
def new (initialCash : ℚ) : PaperBroker where
  initialCash := initialCash
  cash := initialCash
  positions := .empty
  avgPrice := .empty
  tradeLog := []

def positionQty (b : PaperBroker) (symbol : String) : ℚ := b.positions.get symbol

/-- The part of `submit` that books a fill. -/
def book (b : PaperBroker) (symbol : String) (side : OrderSide) (qty fillPx fee : ℚ) :
    PaperBroker :=
  let prevQty := b.positions.get symbol
  let notional := qty * fillPx
  match side with
  | .buy =>
    let newQty := prevQty + qty
    { b with
      cash := b.cash - (notional + fee)
      avgPrice := if 0 < newQty then
          b.avgPrice.set symbol ((b.avgPrice.get symbol * prevQty + fillPx * qty) / newQty)
        else b.avgPrice
      positions := b.positions.set symbol newQty }
  | .sell =>
    let left := prevQty - qty
    { b with
      cash := b.cash + (notional - fee)
      positions := b.positions.set symbol (if left ≤ 1 / 10 ^ 12 then 0 else left)
      avgPrice := if left ≤ 1 / 10 ^ 12 then b.avgPrice.set symbol 0 else b.avgPrice }

/-- **`submit`**, at the time that the clock shows. -/
def submit (b : PaperBroker) (order : Order) (markPrice now : ℚ) :
    Except String (PaperBroker × Trade) :=
  if order.type ≠ .market then
    .error "Paper broker currently only supports MARKET orders"
  else
    let fillPx := b.fills.fillPrice markPrice order.side
    let fee := b.fills.fee (order.qty * fillPx)
    let trade : Trade :=
      { ts := now, symbol := order.symbol, side := order.side, qty := order.qty,
        price := fillPx, fee, venue := "paper", note := order.note }
    let b := b.book order.symbol order.side order.qty fillPx fee
    .ok ({ b with tradeLog := b.tradeLog ++ [trade] }, trade)

end PaperBroker

variable {b : PaperBroker}

/-- **What is true of nothing and of what is not dropped** is true of every quantity after a
fill, if it was before and a purchase makes it so. -/
theorem PaperBroker.forall_book {P : ℚ → Prop} (hzero : P 0) (hlarge : ∀ q, 1 / 10 ^ 12 < q → P q)
    (h : ∀ s, P (b.positionQty s)) {symbol : String} {side : OrderSide} {qty fillPx fee : ℚ}
    (hbuy : side = .buy → P (b.positionQty symbol + qty)) (s : String) :
    P ((b.book symbol side qty fillPx fee).positions.get s) := by
  unfold book
  cases side with
  | buy =>
    show P ((b.positions.set symbol (b.positions.get symbol + qty)).get s)
    rw [Amounts.get_set]
    split_ifs
    · exact hbuy rfl
    · exact h s
  | sell =>
    show P ((b.positions.set symbol (if b.positions.get symbol - qty ≤ 1 / 10 ^ 12 then 0
      else b.positions.get symbol - qty)).get s)
    rw [Amounts.get_set]
    split_ifs with _ hleft
    · exact hzero
    · exact hlarge _ (not_le.mp hleft)
    · exact h s

/-! ## The ledger -/

/-- The state of a `PortfolioLedger`: what it holds in memory, and what it saves. -/
structure PortfolioLedger where
  cash : ℚ
  positions : Amounts
  avgPrice : Amounts
  realizedPnl : ℚ
  equityPeak : ℚ

/-- `state.json`: it may be missing, or be no JSON. -/
inductive StateFile
  | missing
  | unreadable
  | saved (l : PortfolioLedger)

/-- Where the writes of `record_trade` fail: the append to `trades.csv`, the opening of
`state.json`, or the write to it after it is opened – and thereby emptied. -/
inductive RecordFault
  | csv
  | openState
  | writeState
deriving DecidableEq, Repr

namespace PortfolioLedger

def reset : PortfolioLedger where
  cash := 0
  positions := .empty
  avgPrice := .empty
  realizedPnl := 0
  equityPeak := 0

/-- **`_load_or_init`**. -/
def load : StateFile → PortfolioLedger
  | .missing => reset
  | .unreadable => reset
  | .saved l => l

/-- **`_save`**: what the file holds afterwards. -/
def save (l : PortfolioLedger) : StateFile :=
  .saved
    { l with
      positions := l.positions.filter (fun r => 1 / 10 ^ 12 < r.2)
      avgPrice := l.avgPrice.filter (fun r => 1 / 10 ^ 12 < l.positions.get r.1) }

/-- **`set_initial_cash`**, with what the file holds afterwards. -/
def setInitialCash (l : PortfolioLedger) (initial : ℚ) (file : StateFile) :
    PortfolioLedger × StateFile :=
  if l.cash = 0 ∧ l.equityPeak = 0 then
    let l := { l with cash := initial, equityPeak := initial }
    (l, l.save)
  else (l, file)

/-- The quantity held of a symbol. -/
def positionQty (l : PortfolioLedger) (symbol : String) : ℚ := l.positions.get symbol

/-- **`_compute_equity`**, with the marks of a cycle: those of one symbol. -/
def computeEquity (l : PortfolioLedger) (symbol : String) (price : ℚ) : ℚ :=
  l.cash + l.positions.sumOf (fun _ => True) (fun r => r.2 * if r.1 = symbol then price else 0)

/-- What a sale realizes: the proceeds after the fee, less the cost, which has the fees of the
purchase in it. -/
def realized (l : PortfolioLedger) (trade : Trade) : ℚ :=
  (trade.price * trade.qty - trade.fee) - l.avgPrice.get trade.symbol * trade.qty

/-- The part of `record_trade` that books a trade. The cost of a unit is not defined for a
purchase of nothing, which raises after the cash is taken. -/
def book (l : PortfolioLedger) (trade : Trade) : PortfolioLedger × Option String :=
  let symbol := trade.symbol
  let prevQty := l.positions.get symbol
  let prevAvg := l.avgPrice.get symbol
  match trade.side with
  | .buy =>
    let paid := { l with cash := l.cash - (trade.qty * trade.price + trade.fee) }
    if trade.qty = 0 then (paid, some "float division by zero")
    else
      let newQty := prevQty + trade.qty
      let costWithFee := (trade.qty * trade.price + trade.fee) / trade.qty
      ({ paid with
          avgPrice := if 0 < newQty then
              l.avgPrice.set symbol ((prevAvg * prevQty + costWithFee * trade.qty) / newQty)
            else l.avgPrice
          positions := l.positions.set symbol newQty }, none)
  | .sell =>
    let left := prevQty - trade.qty
    ({ l with
        cash := l.cash + (trade.qty * trade.price - trade.fee)
        realizedPnl := l.realizedPnl + l.realized trade
        positions := l.positions.set symbol (if left ≤ 1 / 10 ^ 12 then 0 else left)
        avgPrice := if left ≤ 1 / 10 ^ 12 then l.avgPrice.set symbol 0 else l.avgPrice }, none)

/-- **`record_trade`**: the ledger and the file afterwards, and what it raises. The memory is
written before the files. -/
def recordTrade (l : PortfolioLedger) (trade : Trade) (symbol : String) (price : ℚ)
    (file : StateFile) (fault : Option RecordFault) :
    PortfolioLedger × StateFile × Option String :=
  match l.book trade with
  | (l, some e) => (l, file, some e)
  | (l, none) =>
    let l := { l with equityPeak := max l.equityPeak (l.computeEquity symbol price) }
    match fault with
    | some .csv => (l, file, some "trades.csv")
    | some .openState => (l, file, some "state.json")
    | some .writeState => (l, .unreadable, some "state.json")
    | none => (l, l.save, none)

end PortfolioLedger

/-! ## One trade, booked twice -/

/-- The broker and the ledger hold the same of each symbol. -/
def SameQuantities (b : PaperBroker) (l : PortfolioLedger) : Prop :=
  ∀ symbol, b.positionQty symbol = l.positionQty symbol

/-- **The broker and the ledger agree**: they report the same cash as well. -/
def Agrees (b : PaperBroker) (l : PortfolioLedger) : Prop :=
  b.cash = l.cash ∧ SameQuantities b l

variable {b' : PaperBroker} {markPrice now : ℚ} {order : Order} {trade : Trade}

/-- **What a submitted order leaves behind**: the trade has the order's symbol, side and
quantity, and the broker has booked it. -/
theorem submit_eq_ok (h : b.submit order markPrice now = .ok (b', trade)) :
    trade.symbol = order.symbol ∧ trade.side = order.side ∧ trade.qty = order.qty ∧
      trade.ts = now ∧ trade.price = b.fills.fillPrice markPrice order.side ∧
      trade.fee = b.fills.fee (trade.qty * trade.price) ∧
      b'.fills = b.fills ∧
      b'.cash = (b.book trade.symbol trade.side trade.qty trade.price trade.fee).cash ∧
      b'.positions = (b.book trade.symbol trade.side trade.qty trade.price trade.fee).positions := by
  unfold PaperBroker.submit at h
  split_ifs at h with htype
  simp only [Except.ok.injEq, Prod.mk.injEq] at h
  obtain ⟨rfl, rfl⟩ := h
  refine ⟨rfl, rfl, rfl, rfl, rfl, rfl, ?_, rfl, rfl⟩
  unfold PaperBroker.book
  split <;> rfl

variable {l : PortfolioLedger}

/-- **A trade keeps the quantities the same**: broker and ledger change them by the same amount,
and drop the same remainder. -/
theorem SameQuantities.book (h : SameQuantities b l) (trade : Trade) (symbol : String) :
    (b.book trade.symbol trade.side trade.qty trade.price trade.fee).positions.get symbol =
      (l.book trade).1.positions.get symbol := by
  have hget : ∀ s, b.positions.get s = l.positions.get s := h
  unfold PaperBroker.book PortfolioLedger.book
  cases hside : trade.side with
  | buy =>
    by_cases hzero : trade.qty = 0
    · by_cases hs : symbol = trade.symbol
      · simp [hzero, hs, hget]
      · simp [hzero, hs, hget]
    · by_cases hs : symbol = trade.symbol
      · simp [hzero, hs, hget]
      · simp [hzero, hs, hget]
  | sell =>
    by_cases hs : symbol = trade.symbol
    · simp [hs, hget]
    · simp [hs, hget]

/-- **A trade changes the cash by the same amount.** -/
theorem cash_book (h : b.cash = l.cash) (trade : Trade) :
    (b.book trade.symbol trade.side trade.qty trade.price trade.fee).cash =
      (l.book trade).1.cash := by
  unfold PaperBroker.book PortfolioLedger.book
  cases hside : trade.side with
  | buy => by_cases hzero : trade.qty = 0 <;> simp [hzero, h]
  | sell => simp [h]

/-- The failures of `record_trade` come after the trade is booked. -/
theorem recordTrade_eq (l : PortfolioLedger) (trade : Trade) (symbol : String) (price : ℚ)
    (file : StateFile) (fault : Option RecordFault) :
    (l.recordTrade trade symbol price file fault).1.cash = (l.book trade).1.cash ∧
      (l.recordTrade trade symbol price file fault).1.positions = (l.book trade).1.positions ∧
      (l.recordTrade trade symbol price file fault).1.realizedPnl =
        (l.book trade).1.realizedPnl := by
  unfold PortfolioLedger.recordTrade
  split
  · next heq => rw [heq]; exact ⟨rfl, rfl, rfl⟩
  · next heq =>
    rw [heq]
    split <;> exact ⟨rfl, rfl, rfl⟩

/-- **An order that is filled and recorded keeps the quantities the same**, whichever write
fails. -/
theorem SameQuantities.recordTrade (h : SameQuantities b l)
    (hsubmit : b.submit order markPrice now = .ok (b', trade)) (symbol : String) (price : ℚ)
    (file : StateFile) (fault : Option RecordFault) :
    SameQuantities b' (l.recordTrade trade symbol price file fault).1 := by
  obtain ⟨-, -, -, -, -, -, -, -, hpos⟩ := submit_eq_ok hsubmit
  obtain ⟨-, hpos', -⟩ := recordTrade_eq l trade symbol price file fault
  intro s
  unfold PaperBroker.positionQty PortfolioLedger.positionQty
  rw [hpos, hpos', h.book trade s]

/-- **It keeps the agreement**, likewise. -/
theorem Agrees.recordTrade (h : Agrees b l)
    (hsubmit : b.submit order markPrice now = .ok (b', trade)) (symbol : String) (price : ℚ)
    (file : StateFile) (fault : Option RecordFault) :
    Agrees b' (l.recordTrade trade symbol price file fault).1 := by
  obtain ⟨-, -, -, -, -, -, -, hcash, -⟩ := submit_eq_ok hsubmit
  obtain ⟨hcash', -⟩ := recordTrade_eq l trade symbol price file fault
  refine ⟨hcash.trans ((cash_book h.1 trade).trans hcash'.symm), ?_⟩
  exact h.2.recordTrade hsubmit symbol price file fault

/-- The quantities that the file keeps: nothing, and what is above the remainder. -/
def Kept (q : ℚ) : Prop := q = 0 ∨ 1 / 10 ^ 12 < q

/-- **What is saved is read back**, where every quantity is one that the file keeps. -/
theorem Agrees.load_save (h : Agrees b l) (hkept : ∀ s, Kept (l.positionQty s)) :
    Agrees b (.load l.save) := by
  refine ⟨h.1, fun s => (h.2 s).trans ?_⟩
  show l.positions.get s = (l.positions.filter fun r => 1 / 10 ^ 12 < r.2).get s
  rw [Amounts.get_filter]
  rcases hkept s with hzero | hlarge
  · rw [show l.positions.get s = 0 from hzero, ite_self]
  · exact (if_pos hlarge).symm

/-- **A trade that is recorded without a failure is in the file.** -/
theorem Agrees.recorded (h : Agrees b l) (hsubmit : b.submit order markPrice now = .ok (b', trade))
    (hqty : order.side = .buy → order.qty ≠ 0) (hkept : ∀ s, Kept (b'.positionQty s))
    (symbol : String) (price : ℚ) (file : StateFile) :
    Agrees b' (.load (l.recordTrade trade symbol price file none).2.1) := by
  have hagree := h.recordTrade hsubmit symbol price file none
  obtain ⟨-, hside, hq, -⟩ := submit_eq_ok hsubmit
  rw [← hside, ← hq] at hqty
  have hbook : (l.book trade).2 = none := by
    unfold PortfolioLedger.book
    cases hs : trade.side with
    | buy => simp [hqty hs]
    | sell => rfl
  unfold PortfolioLedger.recordTrade at hagree ⊢
  rw [show l.book trade = ((l.book trade).1, none) from Prod.ext rfl hbook] at hagree ⊢
  exact hagree.load_save (fun s => hagree.2 s ▸ hkept s)

end Qt.Paper
