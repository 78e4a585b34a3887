import Mathlib.Data.List.ReduceOption
import Mathlib.Data.Prod.Lex
import QuantTrading.Lib.Firsts
import QuantTrading.Lib.Ladder
import QuantTrading.Lib.Raise

/-!
# The liquidity of a book

`book_liquidity` of `qt.agent_hub.opportunities`, over exact rationals: the asks of a public order
book, in the order of their prices, are walked until a budget is spent.

`book_liquidity` says what is reported of the budget and of the average price. The prices go up
level by level, so that the average does (`Ladder.bought_mul_le`).
-/

namespace Qt.Hub.Opportunities

open Except List Option

/-- What is raised. -/
inductive Exc
  | valueError (text : String)
  | keyError (key : String)
  | typeError
deriving DecidableEq, Repr

/-- A value of the payload, as far as `float` reads it. -/
inductive PublicValue
  | bool (b : Bool)
  | number (x : ℚ)
  /-- Infinite, or not a number. -/
  | notFinite
  /-- What `float` raises on. -/
  | unreadable (e : Exc)
deriving DecidableEq

/-- `_number`. -/
def number (value : PublicValue) (positive : Bool) : Except Exc ℚ :=
  match value with
  | .bool _ => .error (.valueError "invalid_public_number")
  | .notFinite => .error (.valueError "invalid_public_number")
  | .unreadable e => .error e
  | .number x => do
    raiseIf (x < 0 ∨ positive = true ∧ x = 0) (.valueError "invalid_public_number")
    return x

/-- A row: its price and its quantity, or what is raised when they are read. -/
abbrev Row := Except Exc (PublicValue × PublicValue)

/-- The payload: the rows under `bids` and `asks`, where there are lists. -/
structure BookPayload where
  bids : Option (List Row)
  asks : Option (List Row)
deriving DecidableEq

/-- A row that is a level, or none if nothing is offered. -/
def level (prediction : Bool) (row : Row) : Except Exc (Option (ℚ × ℚ)) := do
  let (price, quantity) ← row
  let price ← number price true
  let quantity ← number quantity false
  raiseIf (prediction = true ∧ 1 ≤ price) (.valueError "invalid_prediction_price")
  return if quantity ≠ 0 then some (price, quantity) else none

/-- The levels of a field, in the order of the rows. -/
def rawLevels (field : Option (List Row)) (prediction : Bool) : Except Exc (List (ℚ × ℚ)) :=
  match field with
  | none => .error (.valueError "invalid_orderbook")
  | some rows => do
    raiseIf (10000 < rows.length) (.valueError "orderbook_too_large")
    let levels ← rows.mapM (level prediction)
    return levels.reduceOption

variable (payload : BookPayload)

/-- `_levels(payload, "asks")`. -/
def asks (prediction : Bool) : Except Exc (List (ℚ × ℚ)) := do
  let levels ← rawLevels payload.asks prediction
  return levels.orderBy fun x => toLex x

/-- `_levels(payload, "bids")`. -/
def bids (prediction : Bool) : Except Exc (List (ℚ × ℚ)) := do
  let levels ← rawLevels payload.bids prediction
  return levels.orderBy fun x => OrderDual.toDual (toLex x)

/-- What `book_liquidity` returns. -/
structure Liquidity where
  bid : ℚ
  ask : ℚ
  spread : ℚ
  spreadBps : ℚ
  bidDepthQuote : ℚ
  askDepthQuote : ℚ
  targetQuote : ℚ
  depthSufficient : Bool
  buyVwap : Option ℚ
  impactBps : Option ℚ
deriving DecidableEq

/-- The tolerance of the budget. -/
def tolerance : ℚ := 1 / 10 ^ 8

/-- The report on a book with two sides. -/
def liquidity (quoteBudget : ℚ) (bids asks : List (ℚ × ℚ)) (bid ask : ℚ) : Liquidity :=
  let s := Ladder.walk tolerance quoteBudget asks (0, 0)
  let complete : Bool := quoteBudget - tolerance ≤ s.1
  { bid := bid
    ask := ask
    spread := ask - bid
    spreadBps := (ask - bid) / ((ask + bid) / 2) * 10000
    bidDepthQuote := (bids.map fun x => x.1 * x.2).sum
    askDepthQuote := (asks.map fun x => x.1 * x.2).sum
    targetQuote := quoteBudget
    depthSufficient := complete
    buyVwap := if complete then some (s.1 / s.2) else none
    impactBps := if complete then some ((s.1 / s.2 / ask - 1) * 10000) else none }

def bookLiquidity (prediction : Bool) (quoteBudget : PublicValue) : Except Exc Liquidity := do
  let quoteBudget ← number quoteBudget true
  raiseIf (1000 < quoteBudget) (.valueError "quote_budget_exceeds_screen_limit")
  let bids ← bids payload prediction
  let asks ← asks payload prediction
  match bids, asks with
  | (bid, _) :: _, (ask, _) :: _ => do
    raiseIf (ask < bid) (.valueError "crossed_orderbook")
    return liquidity quoteBudget bids asks bid ask
  | _, _ => .error (.valueError "orderbook_not_two_sided")

/-! ## Levels -/

section Levels

variable {prediction : Bool} {rows rows' : List Row} {field field' : Option (List Row)}
  {levels : List (ℚ × ℚ)}

theorem number_eq_ok {value : PublicValue} {positive : Bool} {x : ℚ}
    (h : number value positive = .ok x) : 0 ≤ x ∧ (positive = true → 0 < x) := by
  cases value with
  | number y =>
    obtain ⟨hbad, h⟩ := of_raiseIf h
    cases h
    simp only [not_or, not_lt, not_and] at hbad
    exact ⟨hbad.1, fun hpos => lt_of_le_of_ne hbad.1 (Ne.symm (hbad.2 hpos))⟩
  | bool b => cases h
  | notFinite => cases h
  | unreadable e => cases h

theorem level_eq_ok {row : Row} {x : ℚ × ℚ} (h : level prediction row = .ok (some x)) :
    0 < x.1 ∧ 0 < x.2 := by
  obtain ⟨⟨price, quantity⟩, _, h⟩ := of_bind h
  obtain ⟨p, hp, h⟩ := of_bind h
  obtain ⟨q, hq, h⟩ := of_bind h
  obtain ⟨_, h⟩ := of_raiseIf h
  have hlevel : (if q ≠ 0 then some (p, q) else none) = some x := ok.inj h
  split_ifs at hlevel with hzero
  obtain rfl : (p, q) = x := some.inj hlevel
  exact ⟨(number_eq_ok hp).2 rfl, lt_of_le_of_ne (number_eq_ok hq).1 (Ne.symm hzero)⟩

theorem rawLevels_eq_ok (h : rawLevels field prediction = .ok levels) :
    ∃ rows read, field = some rows ∧ rows.length ≤ 10000
      ∧ rows.mapM (level prediction) = .ok read ∧ levels = read.reduceOption := by
  cases field with
  | none => cases h
  | some rows =>
    obtain ⟨hlength, h⟩ := of_raiseIf h
    obtain ⟨read, hread, h⟩ := of_bind h
    exact ⟨rows, read, rfl, not_lt.mp hlength, hread, (ok.inj h).symm⟩

variable {payload : BookPayload}

/-- **The asks go up.** -/
theorem asks_ascending (h : asks payload prediction = .ok levels) : Ladder.Ascending levels := by
  obtain ⟨raw, hraw, h⟩ := of_bind h
  obtain rfl : raw.orderBy (fun x => toLex x) = levels := ok.inj h
  obtain ⟨rows, read, -, -, hread, rfl⟩ := rawLevels_eq_ok hraw
  have hlevel : ∀ x ∈ read.reduceOption.orderBy fun x => toLex x, 0 < x.1 ∧ 0 < x.2 := by
    intro x hx
    have hx : some x ∈ read := reduceOption_mem_iff.mp (mem_orderBy.mp hx)
    obtain ⟨row, -, hrow⟩ := (mem_of_mapM_eq_ok hread).mp hx
    exact level_eq_ok hrow
  refine ⟨?_, fun x hx => (hlevel x hx).1, fun x hx => (hlevel x hx).2⟩
  refine (pairwise_orderBy (fun x => toLex x) read.reduceOption).imp fun {x y} hxy => ?_
  rcases Prod.Lex.le_iff.mp hxy with hlt | ⟨heq, -⟩
  · exact hlt.le
  · exact heq.le

/-- The rows in another order are the same levels, in another order. -/
theorem rawLevels_perm (h : rawLevels (some rows) prediction = .ok levels)
    (hrows : rows.Perm rows') :
    ∃ levels', rawLevels (some rows') prediction = .ok levels' ∧ levels.Perm levels' := by
  obtain ⟨_, read, heq, hlength, hread, rfl⟩ := rawLevels_eq_ok h
  obtain rfl := some.inj heq
  obtain ⟨read', hread', hperm⟩ := mapM_perm hrows hread
  refine ⟨read'.reduceOption, ?_, hperm.filterMap _⟩
  have hlength' : ¬ 10000 < rows'.length := hrows.length_eq ▸ not_lt.mpr hlength
  unfold rawLevels
  dsimp only
  rw [raiseIf_bind_of_not hlength', hread']
  rfl

variable {payload' : BookPayload}

/-- **The order of the rows of a side does not matter.** -/
theorem asks_perm (h : asks payload prediction = .ok levels) (hrows : payload.asks = some rows)
    (hrows' : payload'.asks = some rows') (hperm : rows.Perm rows') :
    asks payload' prediction = .ok levels := by
  obtain ⟨raw, hraw, h⟩ := of_bind h
  obtain rfl : raw.orderBy (fun x => toLex x) = levels := ok.inj h
  rw [hrows] at hraw
  obtain ⟨raw', hraw', hlevels⟩ := rawLevels_perm hraw hperm
  unfold asks
  rw [hrows', hraw', ok_bind, orderBy_eq_of_perm_of_injective _ hlevels toLex.injective]
  rfl

theorem bids_perm (h : bids payload prediction = .ok levels) (hrows : payload.bids = some rows)
    (hrows' : payload'.bids = some rows') (hperm : rows.Perm rows') :
    bids payload' prediction = .ok levels := by
  obtain ⟨raw, hraw, h⟩ := of_bind h
  obtain rfl : raw.orderBy (fun x => OrderDual.toDual (toLex x)) = levels := ok.inj h
  rw [hrows] at hraw
  obtain ⟨raw', hraw', hlevels⟩ := rawLevels_perm hraw hperm
  have horder := orderBy_eq_of_perm_of_injective (fun x => OrderDual.toDual (toLex x)) hlevels
    (OrderDual.toDual.injective.comp toLex.injective)
  unfold bids
  rw [hrows', hraw', ok_bind, horder]
  rfl

end Levels

/-! ## The report -/

section Report

variable {payload payload' : BookPayload} {prediction : Bool} {budget budget' : ℚ}
  {bid ask : ℚ × ℚ} {bidRest askRest levels : List (ℚ × ℚ)}

/-- **A book with two sides, not crossed,** is reported on for any budget up to the limit. -/
theorem bookLiquidity_eq (hbids : bids payload prediction = .ok (bid :: bidRest))
    (hasks : asks payload prediction = .ok (ask :: askRest)) (hcross : bid.1 ≤ ask.1)
    (hpos : 0 < budget) (hlimit : budget ≤ 1000) : bookLiquidity payload prediction (.number budget)
      = .ok (liquidity budget (bid :: bidRest) (ask :: askRest) bid.1 ask.1) := by
  have hnumber : number (.number budget) true = .ok budget := by
    have hgood : ¬ (budget < 0 ∨ true = true ∧ budget = 0) := fun h =>
      h.elim hpos.not_gt fun h => hpos.ne' h.2
    unfold number
    dsimp only
    rw [raiseIf_bind_of_not hgood]
    rfl
  unfold bookLiquidity
  rw [hnumber, ok_bind, raiseIf_bind_of_not (not_lt.mpr hlimit), hbids, ok_bind, hasks, ok_bind]
  dsimp only
  rw [raiseIf_bind_of_not (not_lt.mpr hcross)]
  rfl

theorem tolerance_nonneg : 0 ≤ tolerance := by
  norm_num [tolerance]

/-- What is spent of the budget, and bought. -/
def walked (budget : ℚ) (levels : List (ℚ × ℚ)) : ℚ × ℚ :=
  Ladder.walk tolerance budget levels (0, 0)

theorem depthSufficient_iff (h : Ladder.Ascending levels) (hpos : 0 < budget) (bids : List (ℚ × ℚ))
    (bid ask : ℚ) : (liquidity budget bids levels bid ask).depthSufficient = true
      ↔ budget - tolerance ≤ Ladder.total levels := by
  show decide (budget - tolerance ≤ (walked budget levels).1) = true ↔ _
  rw [decide_eq_true_iff, walked, Ladder.spent_iff h tolerance_nonneg hpos.le, zero_add]

theorem buyVwap_of_sufficient {bids : List (ℚ × ℚ)} {bid ask : ℚ}
    (h : (liquidity budget bids levels bid ask).depthSufficient = true) :
    (liquidity budget bids levels bid ask).buyVwap
      = some ((walked budget levels).1 / (walked budget levels).2) := by
  show (if decide (budget - tolerance ≤ (walked budget levels).1) = true then _ else _) = _
  exact if_pos h

theorem shares_pos (h : Ladder.Ascending (ask :: askRest)) (hpos : 0 < budget) :
    0 < (walked budget (ask :: askRest)).2 := by
  obtain ⟨-, htakes, hne⟩ := Ladder.used_spec (s := (0, 0)) h tolerance_nonneg hpos
  rw [walked, Ladder.walk_eq_used h tolerance_nonneg hpos.le]
  dsimp only
  rw [zero_add]
  refine sum_pos _ (fun take htake => ?_) fun hnil => ?_
  · obtain ⟨x, hx, rfl⟩ := mem_map.mp htake
    exact htakes x hx
  · exact hne (cons_ne_nil ask askRest) (map_eq_nil_iff.mp hnil)

/-- What is bought is what the ladder gives for what is spent. -/
theorem shares_eq (h : Ladder.Ascending levels) (hpos : 0 < budget) :
    (walked budget levels).2 = Ladder.bought levels (walked budget levels).1 := by
  rw [walked, (Ladder.walk_spec (s := (0, 0)) h tolerance_nonneg hpos.le).2.2]
  simp

theorem spent_nonneg (h : Ladder.Ascending levels) (hpos : 0 < budget) :
    0 ≤ (walked budget levels).1 :=
  (Ladder.walk_spec (s := (0, 0)) h tolerance_nonneg hpos.le).1

section

variable (h : Ladder.Ascending (ask :: askRest))
include h

/-- **The average is at least the best ask.** -/
theorem ask_le_vwap (hpos : 0 < budget) :
    ask.1 ≤ (walked budget (ask :: askRest)).1 / (walked budget (ask :: askRest)).2 := by
  rw [le_div_iff₀ (shares_pos h hpos), shares_eq h hpos]
  refine Ladder.mul_bought_le h ?_ (spent_nonneg h hpos)
  rintro y (_ | ⟨_, hy⟩)
  · exact le_rfl
  · exact (pairwise_cons.mp h.ordered).1 y hy

/-- **The average is at most the price of the deepest level used.** -/
theorem vwap_le_last (hpos : 0 < budget) {last : ℚ × ℚ}
    (hlast : (Ladder.used tolerance budget (ask :: askRest) 0).getLast? = some last) :
    (walked budget (ask :: askRest)).1 / (walked budget (ask :: askRest)).2 ≤ last.1 := by
  obtain ⟨hstart, htakes, -⟩ := Ladder.used_spec (s := (0, 0)) h tolerance_nonneg hpos
  have hordered := pairwise_map.mp
    ((pairwise_map (R := (· ≤ ·)).mpr h.ordered).sublist hstart.sublist)
  rw [div_le_iff₀ (shares_pos h hpos), walked, Ladder.walk_eq_used h tolerance_nonneg hpos.le]
  simpa using Ladder.total_le_last hordered htakes hlast

/-- **The average of a greater budget is no less.** -/
theorem vwap_mono (hpos : 0 < budget) (hle : budget ≤ budget') :
    (walked budget (ask :: askRest)).1 / (walked budget (ask :: askRest)).2
      ≤ (walked budget' (ask :: askRest)).1 / (walked budget' (ask :: askRest)).2 := by
  have hpos' := hpos.trans_le hle
  have hspent : (walked budget (ask :: askRest)).1 ≤ (walked budget' (ask :: askRest)).1 :=
    Ladder.walk_mono h tolerance_nonneg hpos.le hle
  rw [div_le_div_iff₀ (shares_pos h hpos) (shares_pos h hpos'), shares_eq h hpos,
    shares_eq h hpos', mul_comm, mul_comm (walked budget' (ask :: askRest)).1]
  exact Ladder.bought_mul_le h (spent_nonneg h hpos) hspent

end

/-- **The liquidity of a book.** A book with two sides, not crossed, is reported sufficient exactly
when all its asks are worth the budget, up to the tolerance. Then the average price is between the
best ask and the deepest level used, and no less than that of a smaller budget. The order of the
rows does not matter for the report. -/
theorem book_liquidity (hbids : bids payload prediction = .ok (bid :: bidRest))
    (hasks : asks payload prediction = .ok (ask :: askRest)) (hcross : bid.1 ≤ ask.1)
    (hpos : 0 < budget) (hlimit : budget ≤ 1000) :
    ∃ r, bookLiquidity payload prediction (.number budget) = .ok r
      ∧ (r.depthSufficient = true ↔ budget - tolerance ≤ Ladder.total (ask :: askRest))
      ∧ (r.depthSufficient = true → ∃ vwap last, r.buyVwap = some vwap
          ∧ (Ladder.used tolerance budget (ask :: askRest) 0).getLast? = some last
          ∧ ask.1 ≤ vwap ∧ vwap ≤ last.1)
      ∧ (∀ bidRows bidRows' askRows askRows',
          payload = ⟨some bidRows, some askRows⟩ → payload' = ⟨some bidRows', some askRows'⟩ →
          bidRows.Perm bidRows' → askRows.Perm askRows' →
          bookLiquidity payload' prediction (.number budget) = .ok r)
      ∧ ∀ budget' ≤ 1000, budget ≤ budget' →
          ∃ r', bookLiquidity payload prediction (.number budget') = .ok r'
            ∧ ∀ vwap vwap', r.buyVwap = some vwap → r'.buyVwap = some vwap' → vwap ≤ vwap' := by
  have hladder := asks_ascending hasks
  refine ⟨_, bookLiquidity_eq hbids hasks hcross hpos hlimit,
    depthSufficient_iff hladder hpos _ _ _, fun hsufficient => ?_, ?_, ?_⟩
  · have hne := (Ladder.used_spec (s := (0, 0)) hladder tolerance_nonneg hpos).2.2
      (cons_ne_nil ask askRest)
    have hlast := getLast?_eq_some_getLast hne
    exact ⟨_, _, buyVwap_of_sufficient hsufficient, hlast, ask_le_vwap hladder hpos,
      vwap_le_last hladder hpos hlast⟩
  · rintro bidRows bidRows' askRows askRows' rfl rfl hbidRows haskRows
    exact bookLiquidity_eq (bids_perm hbids rfl rfl hbidRows) (asks_perm hasks rfl rfl haskRows)
      hcross hpos hlimit
  · intro budget' hlimit' hle
    refine ⟨_, bookLiquidity_eq hbids hasks hcross (hpos.trans_le hle) hlimit', ?_⟩
    intro vwap vwap' hvwap hvwap'
    obtain ⟨-, heq⟩ := Option.ite_none_right_eq_some.mp hvwap
    obtain ⟨-, heq'⟩ := Option.ite_none_right_eq_some.mp hvwap'
    obtain rfl := some.inj heq
    obtain rfl := some.inj heq'
    exact vwap_mono hladder hpos hle

/-- A book whose asks come with the dearer one first. -/
def sampleBook : BookPayload :=
  { bids := some [.ok (.number 1, .number 1)]
    asks := some [.ok (.number 3, .number 2), .ok (.number 2, .number 5)] }

theorem sampleBook_bids : bids sampleBook false = .ok [(1, 1)] := by
  decide +kernel

theorem sampleBook_asks : asks sampleBook false = .ok [(2, 5), (3, 2)] := by
  decide +kernel

/-- Eleven are spent on all of the first level and a third of a unit of the second. -/
theorem book_liquidity_sampleBook : ∃ r, bookLiquidity sampleBook false (.number 11) = .ok r
      ∧ (r.depthSufficient = true ↔ 11 - tolerance ≤ Ladder.total [(2, 5), (3, 2)])
      ∧ (r.depthSufficient = true → ∃ vwap last, r.buyVwap = some vwap
          ∧ (Ladder.used tolerance 11 [(2, 5), (3, 2)] 0).getLast? = some last
          ∧ 2 ≤ vwap ∧ vwap ≤ last.1) :=
  have h := @book_liquidity sampleBook sampleBook false 11 (1, 1) (2, 5) [] [(3, 2)]
    sampleBook_bids sampleBook_asks (by norm_num) (by norm_num) (by norm_num)
  h.imp fun _ hr => ⟨hr.1, hr.2.1, hr.2.2.1⟩

end Report

end Qt.Hub.Opportunities
