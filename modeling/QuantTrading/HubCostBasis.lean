import QuantTrading.HubRuns
import QuantTrading.Lib.RelativeRounding

/-!
# The cost basis of the hub's positions

The cost of a position and its realized profit, over calls of `_finish` of `qt.agent_hub.trading`. A
buy pays its amount into the cost; a sell takes its share out, through a product and a quotient in
the default context, and realizes what it received beyond that share.

Each operation rounds to 28 digits. So the cost is not negative, and nothing at the end, up to
rounding alone: `cost_basis` bounds it by what was paid, and `residue_after_selling_all` is a
position that is sold out and costs less than nothing.
-/

namespace Qt

open Except List
open SigDigits

/-! ## Fills -/

/-- What `_finish` is called with. -/
abbrev TradeFinish := TradeRecord × TradeResult

/-- The ledger after a call of `_finish`: one that raises is rolled back. -/
def TradeLedger.finished (l : TradeLedger) (f : TradeFinish) : TradeLedger :=
  match l.finish f.1 f.2 with
  | .ok (_, l') => l'
  | .error _ => l

/-- **The call accounts the execution.** -/
def TradeLedger.Accounts (l : TradeLedger) (f : TradeFinish) : Prop :=
  (l.orders.find? f.1.intent.idempotencyKey).filter (·.record.accounted) = none
    ∧ ∃ status ∈ (f.1.check f.2).toOption, ¬ status.Open
      ∧ (l.account f.1 status f.2).toOption.isSome
deriving Decidable

variable (f : TradeFinish)

/-- The position that an execution is of. -/
def TradeFinish.key : TradeVenue × String :=
  (f.1.intent.venue, f.1.intent.instrument)

/-- **A ledger, and the executions of a position that it accounted**: nothing is held before the
first, and what else happens writes no position. -/
inductive Filled (key : TradeVenue × String) : List TradeFinish → TradeLedger → Prop
  | start (l : TradeLedger) (h : l.positions.find? key = none) : Filled key [] l
  | accounted {fills : List TradeFinish} {l : TradeLedger} (h : Filled key fills l)
      (f : TradeFinish) (haccounts : l.Accounts f) (hkey : f.key = key) :
      Filled key (fills ++ [f]) (l.finished f)
  | other {fills : List TradeFinish} {l : TradeLedger} (h : Filled key fills l)
      (f : TradeFinish) (hother : ¬ (l.Accounts f ∧ f.key = key)) : Filled key fills (l.finished f)
  | quiet {fills : List TradeFinish} {l : TradeLedger} (h : Filled key fills l) (l' : TradeLedger)
      (hpositions : l'.positions = l.positions) : Filled key fills l'

/-- What is paid for an execution. -/
def TradeFinish.paid : ℚ :=
  match f.1.intent.side with
  | .buy => f.2.quoteQty + f.2.feeQuote
  | .sell => 0

/-- A buy that fills leaves something after its fee. -/
def TradeFinish.KeepsBase : Prop :=
  f.1.intent.side = .buy → f.2.filledQty ≠ 0 → f.2.feeBase < f.2.filledQty

/-- The relative error of the default context: half a unit in the last of 28 digits. -/
def defaultError : ℚ := 5 / 10 ^ 28

theorem rounding_default : Rounding (roundSig 28) defaultError := by
  have h := Rounding.roundSig (p := 28) (by norm_num)
  norm_num at h
  norm_num [defaultError]
  exact h

/-! ## One execution -/

section Settle

variable {l l' : TradeLedger} {f : TradeFinish} {p p' : TradePosition}

/-- **The execution changes the position.** -/
structure Settles (f : TradeFinish) (p p' : TradePosition) : Prop where
  nonneg : 0 ≤ f.2.filledQty ∧ 0 ≤ f.2.quoteQty ∧ 0 ≤ f.2.feeBase ∧ 0 ≤ f.2.feeQuote
  empty : f.2.filledQty = 0 → f.2.quoteQty = 0 ∧ f.2.feeBase = 0 ∧ f.2.feeQuote = 0
  held : 0 ≤ p'.quantity
  settle : ∃ cash cash', f.1.settle f.2 cash p = .ok (cash', p')

/-- **What a call of `_finish` does to a position**: it settles an execution, or nothing. -/
theorem TradeLedger.position_finished (l : TradeLedger) (f : TradeFinish) (venue : TradeVenue)
    (instrument : String) : if l.Accounts f ∧ TradeFinish.key f = (venue, instrument) then
      Settles f (l.position venue instrument) ((l.finished f).position venue instrument)
    else (l.finished f).position venue instrument = l.position venue instrument := by
  cases hcheck : f.1.check f.2 with
  | error e =>
    have hnot : ¬ l.Accounts f := by
      rintro ⟨-, status, hstatus, -⟩
      rw [hcheck] at hstatus
      cases hstatus
    have hrun : l.finish f.1 f.2 = .error e := by
      rw [TradeLedger.finish, hcheck]
      rfl
    have hfinished : l.finished f = l := by rw [TradeLedger.finished, hrun]
    rw [if_neg (fun h => hnot h.1), hfinished]
  | ok status =>
    have hrun : l.finish f.1 f.2 =
        ((l.orders.find? f.1.intent.idempotencyKey).filter (·.record.accounted)).elim
          (if status.Open then
            .ok ({ f.1 with status := status, exchangeId := f.2.exchangeId },
              l.save { f.1 with status := status, exchangeId := f.2.exchangeId })
          else l.account f.1 status f.2) fun current => .ok (current.record, l) := by
      rw [TradeLedger.finish, hcheck]
      cases (l.orders.find? f.1.intent.idempotencyKey).filter (·.record.accounted) <;> rfl
    have hiff : l.Accounts f
        ↔ (l.orders.find? f.1.intent.idempotencyKey).filter (·.record.accounted) = none
          ∧ ¬ status.Open ∧ (l.account f.1 status f.2).toOption.isSome = true := by
      rw [TradeLedger.Accounts, hcheck]
      refine and_congr_right fun _ => ⟨?_, fun h => ⟨_, rfl, h⟩⟩
      rintro ⟨_, hs, h⟩
      exact Option.some.inj hs ▸ h
    cases hfilter : (l.orders.find? f.1.intent.idempotencyKey).filter (·.record.accounted) with
    | some current =>
      rw [hfilter] at hrun hiff
      have hfinished : l.finished f = l := by
        rw [TradeLedger.finished, hrun]
        rfl
      rw [if_neg (fun h => Option.some_ne_none _ (hiff.mp h.1).1), hfinished]
    | none =>
      rw [hfilter] at hrun hiff
      rw [Option.elim_none] at hrun
      by_cases hopen : status.Open
      · rw [if_pos hopen] at hrun
        rw [if_neg (fun h => (hiff.mp h.1).2.1 hopen), TradeLedger.finished, hrun]
        rfl
      rw [if_neg hopen] at hrun
      cases haccount : l.account f.1 status f.2 with
      | error e =>
        rw [haccount] at hrun hiff
        have hfinished : l.finished f = l := by rw [TradeLedger.finished, hrun]
        rw [if_neg (fun h => Bool.false_ne_true (hiff.mp h.1).2.2), hfinished]
      | ok out =>
        obtain ⟨record', l'⟩ := out
        obtain ⟨-, cash, cash', p', hsettle, hheld, hposition⟩ :=
          TradeLedger.account_eq_ok haccount
        rw [haccount] at hrun hiff
        have hfinished : l.finished f = l' := by rw [TradeLedger.finished, hrun]
        rw [hfinished, hposition]
        by_cases hkey : TradeFinish.key f = (venue, instrument)
        · rw [if_pos ⟨hiff.mpr ⟨rfl, hopen, rfl⟩, hkey⟩,
            if_pos (show _ = (f.1.intent.venue, f.1.intent.instrument) from hkey.symm)]
          obtain ⟨rfl, rfl⟩ := Prod.ext_iff.mp hkey
          obtain ⟨hchecked, hempty⟩ := TradeRecord.check_eq_ok hcheck
          exact ⟨hchecked.nonneg, hempty, hheld, cash, cash', hsettle⟩
        · rw [if_neg (fun h => hkey h.2),
            if_neg (show ¬ _ = (f.1.intent.venue, f.1.intent.instrument) from Ne.symm hkey)]

/-- **A sell** takes its basis from the cost and from what it realizes: what it receives is what is
realized and what the cost gets less, up to the errors of four roundings. -/
theorem Settles.sell (h : Settles f p p') (hside : f.1.intent.side = .sell) :
    ∃ basis, p'.cost = defaultSub p.cost basis ∧ p'.realized
        = defaultAdd p.realized (defaultSub (defaultSub f.2.quoteQty f.2.feeQuote) basis)
      ∧ |f.2.quoteQty - f.2.feeQuote - ((p'.realized - p.realized) + (p.cost - p'.cost))|
        ≤ defaultError * (|f.2.quoteQty - f.2.feeQuote|
          + |defaultSub f.2.quoteQty f.2.feeQuote - basis|
          + |p.realized + defaultSub (defaultSub f.2.quoteQty f.2.feeQuote) basis|
          + |p.cost - basis|) := by
  obtain ⟨cash, cash', hsettle⟩ := h.settle
  unfold TradeRecord.settle at hsettle
  rw [hside] at hsettle
  obtain ⟨_, hsettle⟩ := of_raiseIf hsettle
  cases hsettle
  exact ⟨_, rfl, rfl, rounding_default.abs_received_le _ _ _ _⟩

end Settle

/-! ## Sequences of executions -/

section Fills

variable {p p' : TradePosition} {f : TradeFinish} {fills : List TradeFinish}

/-- What is paid for executions. -/
def paidFor (fills : List TradeFinish) : ℚ := (fills.map TradeFinish.paid).sum

/-- The error of the default context after executions. -/
def basisError (fills : List TradeFinish) : ℚ :=
  ((1 + defaultError) ^ (3 * fills.length) - 1) * paidFor fills

/-- **A position after executions.** -/
structure Basis (fills : List TradeFinish) (p : TradePosition) : Prop where
  bounded : Bounded defaultError fills.length (paidFor fills) p.cost
  held : 0 ≤ p.quantity
  flat : (∀ f ∈ fills, f.KeepsBase) → p.quantity = 0 → |p.cost| ≤ basisError fills

theorem paidFor_concat (fills : List TradeFinish) (f : TradeFinish) :
    paidFor (fills ++ [f]) = paidFor fills + f.paid := by
  rw [paidFor, map_append, sum_append, map_singleton, sum_singleton, paidFor]

theorem basis_none (venue : TradeVenue) (instrument : String) :
    Basis [] ⟨venue, instrument, 0, 0, 0⟩ :=
  ⟨Bounded.zero _, le_rfl, fun _ _ => by simp [basisError, paidFor]⟩

theorem Basis.abs_round_le (h : Basis fills p) (hcost : |p.cost| ≤ basisError fills)
    (hpaid : f.paid = 0) : |roundSig 28 (p.cost + 0)| ≤ basisError (fills ++ [f]) := by
  rw [basisError, paidFor_concat, hpaid, add_zero, add_zero, length_append]
  exact (rounding_default.abs_round_le _).trans (h.bounded.small_succ rounding_default hcost)

/-- **A buy keeps the bounds.** -/
theorem Basis.settle_buy (h : Basis fills p) (hf : Settles f p p')
    (hside : f.1.intent.side = .buy) : Basis (fills ++ [f]) p' := by
  have hheld := hf.held
  have hpaid : f.paid = f.2.quoteQty + f.2.feeQuote := by rw [TradeFinish.paid, hside]
  obtain ⟨cash, cash', hsettle⟩ := hf.settle
  unfold TradeRecord.settle at hsettle
  rw [hside] at hsettle
  cases hsettle
  refine ⟨?_, hheld, fun hkeeps hflat => ?_⟩
  · rw [paidFor_concat, hpaid, length_append]
    exact h.bounded.pay rounding_default (add_nonneg hf.nonneg.2.1 hf.nonneg.2.2.2)
  · have hsum := rounding_default.eq_zero_of_round hflat
    by_cases hzero : f.2.filledQty = 0
    · -- an execution of nothing: the position was flat before it
      obtain ⟨hquote, hbase, hfee⟩ := hf.empty hzero
      have hquantity : p.quantity = 0 := by
        have hnone : defaultSub f.2.filledQty f.2.feeBase = 0 := by
          rw [hzero, hbase]
          simp [defaultSub]
        rw [hnone, add_zero] at hsum
        exact hsum
      have hcost := h.flat (fun g hg => hkeeps g (mem_append_left _ hg)) hquantity
      have hnone : defaultAdd f.2.quoteQty f.2.feeQuote = 0 := by
        rw [hquote, hfee]
        simp [defaultAdd]
      show |roundSig 28 (p.cost + defaultAdd f.2.quoteQty f.2.feeQuote)| ≤ _
      rw [hnone]
      exact h.abs_round_le hcost (by rw [hpaid, hquote, hfee, add_zero])
    · -- what is left after the fee is held
      have hleft : 0 < defaultSub f.2.filledQty f.2.feeBase :=
        rounding_default.round_pos (sub_pos.mpr
          (hkeeps f (mem_append_right _ (mem_singleton_self f)) hside hzero))
      have := h.held
      linarith

/-- **A sell keeps the bounds.** -/
theorem Basis.settle_sell (h : Basis fills p) (hf : Settles f p p')
    (hside : f.1.intent.side = .sell) : Basis (fills ++ [f]) p' := by
  have hheld := hf.held
  have hpaid : f.paid = 0 := by rw [TradeFinish.paid, hside]
  obtain ⟨cash, cash', hsettle⟩ := hf.settle
  unfold TradeRecord.settle at hsettle
  rw [hside] at hsettle
  obtain ⟨hdrift, hsettle⟩ := of_raiseIf hsettle
  cases hsettle
  have hremoved : 0 ≤ defaultAdd f.2.filledQty f.2.feeBase :=
    rounding_default.round_nonneg (add_nonneg hf.nonneg.1 hf.nonneg.2.2.1)
  have hle := not_lt.mp hdrift
  by_cases hzero : p.quantity = 0
  · -- nothing is held: no basis is taken
    have hcost : defaultSub p.cost (if p.quantity = 0 then 0
        else defaultDiv (defaultMul p.cost (defaultAdd f.2.filledQty f.2.feeBase)) p.quantity)
        = roundSig 28 (p.cost + 0) := by
      rw [if_pos hzero, defaultSub, sub_zero, add_zero]
    have hbounded := h.bounded.pay rounding_default le_rfl
    rw [roundSig_zero] at hbounded
    refine ⟨?_, hheld, fun hkeeps _ => ?_⟩
    · rw [paidFor_concat, hpaid, length_append]
      exact hcost ▸ hbounded
    · rw [hcost]
      exact h.abs_round_le (h.flat (fun g hg => hkeeps g (mem_append_left _ hg)) hzero) hpaid
  · have hpos : 0 < p.quantity := lt_of_le_of_ne h.held (Ne.symm hzero)
    have hcost : defaultSub p.cost (if p.quantity = 0 then 0
        else defaultDiv (defaultMul p.cost (defaultAdd f.2.filledQty f.2.feeBase)) p.quantity)
        = roundSig 28 (p.cost - roundSig 28
          (roundSig 28 (p.cost * defaultAdd f.2.filledQty f.2.feeBase) / p.quantity)) := by
      rw [if_neg hzero]
      rfl
    refine ⟨?_, hheld, fun _ hflat => ?_⟩
    · rw [paidFor_concat, hpaid, add_zero, length_append]
      exact hcost ▸ h.bounded.takeOut rounding_default hremoved hle hpos
    · have hall : defaultAdd f.2.filledQty f.2.feeBase = p.quantity :=
        (sub_eq_zero.mp (rounding_default.eq_zero_of_round hflat)).symm
      rw [hcost, hall, basisError, paidFor_concat, hpaid, add_zero, length_append]
      exact h.bounded.takeOut_all rounding_default hpos

/-- **One execution keeps the bounds.** -/
theorem Basis.settle (h : Basis fills p) (hf : Settles f p p') : Basis (fills ++ [f]) p' := by
  cases hside : f.1.intent.side with
  | buy => exact h.settle_buy hf hside
  | sell => exact h.settle_sell hf hside

/-- **The bounds hold after every sequence of executions.** -/
theorem Filled.basis {venue : TradeVenue} {instrument : String} {l : TradeLedger}
    (h : Filled (venue, instrument) fills l) : Basis fills (l.position venue instrument) := by
  induction h with
  | start l hnone =>
    have hempty : l.position venue instrument = ⟨venue, instrument, 0, 0, 0⟩ := by
      rw [TradeLedger.position, hnone]
      rfl
    rw [hempty]
    exact basis_none venue instrument
  | @accounted fills l _ f haccounts hkey ih =>
    have hstep := l.position_finished f venue instrument
    rw [if_pos ⟨haccounts, hkey⟩] at hstep
    exact ih.settle hstep
  | @other fills l _ f hother ih =>
    have hstep := l.position_finished f venue instrument
    rw [if_neg hother] at hstep
    rw [hstep]
    exact ih
  | @quiet fills l _ l' hpositions ih =>
    have hsame : l'.position venue instrument = l.position venue instrument := by
      rw [TradeLedger.position, hpositions]
      rfl
    rw [hsame]
    exact ih

end Fills

/-! ## Runs of the service -/

section Runs

variable {c : TradingService} {key : TradeVenue × String} {l l' : TradeLedger} {w : Trading}

/-- The executions of the position go on from one ledger to another. -/
def GoesOn (key : TradeVenue × String) (l l' : TradeLedger) : Prop :=
  ∀ fills, Filled key fills l → ∃ fills', Filled key fills' l'

theorem goesOn_refl (l : TradeLedger) : GoesOn key l l := fun fills h => ⟨fills, h⟩

theorem goesOn_quiet (h : l'.positions = l.positions) : GoesOn key l l' :=
  fun fills hfilled => ⟨fills, hfilled.quiet l' h⟩

variable {record : TradeRecord}

theorem goesOn_finish {record' : TradeRecord} {result : TradeResult}
    (h : l.finish record result = .ok (record', l')) : GoesOn key l l' := by
  have hfinished : l.finished (record, result) = l' := by rw [TradeLedger.finished, h]
  intro fills hfilled
  rw [← hfinished]
  by_cases hfill : l.Accounts (record, result) ∧ TradeFinish.key (record, result) = key
  · exact ⟨_, hfilled.accounted _ hfill.1 hfill.2⟩
  · exact ⟨_, hfilled.other _ hfill⟩

theorem TradingService.positions_openAccount (venue : TradeVenue) :
    (c.openAccount venue l).positions = l.positions := by
  unfold TradingService.openAccount
  split_ifs <;> rfl

variable {out : TradingService.Reservation}

theorem goesOn_reserve {q : TradeCall} (h : c.reserve q l = .ok (out, l')) : GoesOn key l l' := by
  unfold TradingService.reserve at h
  cases hnew : l.orders.find? q.intent.idempotencyKey with
  | some old =>
    rw [hnew] at h
    obtain ⟨_, h⟩ := of_raiseIf h
    cases h
    exact goesOn_refl l
  | none =>
    rw [hnew] at h
    obtain ⟨l₁, hrisk, h⟩ := of_bind h
    obtain ⟨rfl, -⟩ := TradingService.risk_eq_ok hrisk
    dsimp only at h
    split_ifs at h with hpaper
    · obtain ⟨result, _, h⟩ := of_bind h
      obtain ⟨⟨record, l₂⟩, hfinish, h⟩ := of_bind h
      cases h
      intro fills hfilled
      exact goesOn_finish hfinish fills (hfilled.quiet _ (TradingService.positions_openAccount _))
    · cases h
      exact goesOn_quiet (TradingService.positions_openAccount _)

theorem goesOn_confirm (h : c.confirm record l = .ok (out, l')) : GoesOn key l l' := by
  unfold TradingService.confirm at h
  cases hmode : c.checkRiskMode l record.intent.side with
  | error e =>
    rw [hmode] at h
    obtain ⟨⟨record', l₁⟩, hfinish, h⟩ := of_bind h
    cases h
    exact goesOn_finish hfinish
  | ok _ =>
    rw [hmode] at h
    cases h
    exact goesOn_quiet rfl

variable {idem : String}

theorem goesOn_reject (h : l.reject idem = .ok l') : GoesOn key l l' := by
  unfold TradeLedger.reject at h
  split at h
  · cases h
  · split_ifs at h with hclosed
    · cases h
      exact goesOn_refl l
    · obtain ⟨⟨record', l₁⟩, hfinish, h⟩ := of_bind h
      cases h
      exact goesOn_finish hfinish

theorem goesOn_lose (h : l.lose idem = .ok l') : GoesOn key l l' := by
  unfold TradeLedger.lose at h
  split at h
  · cases h
  · split_ifs at h with hclosed
    · cases h
      exact goesOn_refl l
    · cases h
      exact goesOn_quiet rfl

theorem goesOn_reconcile {answer : Option TradeResult} (h : l.reconcile idem answer = .ok l') :
    GoesOn key l l' := by
  unfold TradeLedger.reconcile at h
  split at h
  · cases h
  · split_ifs at h with haccounted
    · cases h
      exact goesOn_refl l
    · split at h
      · cases h
        exact goesOn_quiet rfl
      · split at h
        · rename_i hfinish
          cases h
          exact goesOn_finish hfinish
        · cases h
          exact goesOn_quiet rfl
        · cases h

variable {venue : TradeVenue}

theorem goesOn_bindExecution {funding : ℚ} (h : l.bindExecution c venue funding = .ok l') :
    GoesOn key l l' := by
  obtain ⟨_, h⟩ := of_raiseIf h
  obtain ⟨_, h⟩ := of_raiseIf h
  obtain ⟨_, h⟩ := of_raiseIf h
  cases h
  exact goesOn_quiet rfl

theorem goesOn_commit {x : Except Exc TradeLedger} (h : ∀ l', x = .ok l' → GoesOn key w.ledger l') :
    GoesOn key w.ledger (w.commit x).ledger := by
  cases x with
  | error e => exact goesOn_refl _
  | ok l' => exact h l' rfl

variable (c)

/-- **The executions of a position go on over a step of the service.** -/
theorem goesOn_step (w : Trading) (a : Trading.Label) :
    GoesOn key w.ledger (Trading.step c w a).ledger := by
  have htask : ∀ {idem : String} {phases : List TradePhase} {g : TradeTask → Trading},
      (∀ t, GoesOn key w.ledger (g t).ledger) →
      GoesOn key w.ledger (w.withTask idem phases g).ledger :=
    fun hg => Trading.withTask_rec (fun w' => GoesOn key w.ledger w'.ledger) (goesOn_refl _)
      fun t _ _ => hg t
  cases a with
  | bindExecution venue funding => exact goesOn_commit fun _ => goesOn_bindExecution
  | setRiskMode mode => exact goesOn_quiet rfl
  | reserve q =>
    show GoesOn key w.ledger (w.reserve c q).ledger
    unfold Trading.reserve
    split
    · exact goesOn_refl _
    · rename_i hreserve
      exact goesOn_reserve hreserve
    · rename_i hreserve
      exact goesOn_reserve hreserve
  | confirm idem =>
    refine htask fun t => ?_
    unfold Trading.confirm
    split
    · exact goesOn_refl _
    · rename_i hconfirm
      exact goesOn_confirm hconfirm
    · rename_i hconfirm
      exact goesOn_confirm hconfirm
  | guard idem held =>
    refine htask fun t => ?_
    split
    · exact goesOn_refl _
    · exact goesOn_refl _
  | send idem => exact htask fun t => goesOn_quiet rfl
  | answer idem result =>
    refine htask fun t => ?_
    split
    · rename_i hfinish
      exact goesOn_finish hfinish
    · exact goesOn_refl _
  | fail idem => exact htask fun t => goesOn_refl _
  | recover idem =>
    refine htask fun t => goesOn_commit fun l' h => ?_
    split_ifs at h with hphase
    · exact goesOn_reject h
    · exact goesOn_lose h
  | list => exact goesOn_refl _
  | lookup idem answer =>
    unfold Trading.step
    dsimp only
    split_ifs
    · exact goesOn_refl _
    · exact goesOn_refl _
  | settle idem answer =>
    unfold Trading.step
    dsimp only
    split_ifs
    · exact goesOn_commit (w := { w with answers := w.answers.erase (idem, answer) })
        fun _ => goesOn_reconcile
    · exact goesOn_refl _
  | crash => exact goesOn_refl _

/-- **The ledgers of the service are of this kind.** -/
theorem filled_after (ls : List Trading.Label) (key : TradeVenue × String) :
    ∃ fills, Filled key fills (Trading.after c ls).ledger :=
  Machine.inv_run (fun w => ∃ fills, Filled key fills w.ledger)
    (fun w a ⟨fills, h⟩ => goesOn_step c w a fills h) ⟨[], .start _ rfl⟩ ls

/-- **The cost basis of a position**, after every sequence of executions that the hub accounts. The
cost is not below zero by more than rounding errors and is what was paid at most; once nothing is
held, such an error is what it comes to at most, where no buy went into its fee as a whole. And
what a sell receives is what is realized and what the cost gets less, up to four roundings. -/
theorem cost_basis {instrument : String} {fills : List TradeFinish}
    (h : Filled (venue, instrument) fills l) :
    -(l.position venue instrument).cost ≤ basisError fills
    ∧ (l.position venue instrument).cost ≤ paidFor fills + basisError fills
    ∧ ((∀ f ∈ fills, f.KeepsBase) → (l.position venue instrument).quantity = 0 →
      |(l.position venue instrument).cost| ≤ basisError fills)
    ∧ ∀ f : TradeFinish, l.Accounts f → f.key = (venue, instrument) → f.1.intent.side = .sell →
      ∀ p p', l.position venue instrument = p → (l.finished f).position venue instrument = p' →
        ∃ basis, p'.cost = defaultSub p.cost basis ∧ p'.realized
            = defaultAdd p.realized (defaultSub (defaultSub f.2.quoteQty f.2.feeQuote) basis)
          ∧ |f.2.quoteQty - f.2.feeQuote - ((p'.realized - p.realized) + (p.cost - p'.cost))|
            ≤ defaultError * (|f.2.quoteQty - f.2.feeQuote|
              + |defaultSub f.2.quoteQty f.2.feeQuote - basis|
              + |p.realized + defaultSub (defaultSub f.2.quoteQty f.2.feeQuote) basis|
              + |p.cost - basis|) := by
  have hbasis := h.basis
  refine ⟨hbasis.bounded.neg_cost_le, ?_, hbasis.flat, fun f haccounts hkey hside p p' hp hp' => ?_⟩
  · have habove := (le_abs_self _).trans hbasis.bounded.abs_cost_le
    rw [basisError]
    linarith
  · subst hp hp'
    have hstep := l.position_finished f venue instrument
    rw [if_pos ⟨haccounts, hkey⟩] at hstep
    exact hstep.sell hside

end Runs

namespace Trading

namespace Sample

theorem four_inRange : InRange 4 := by decide +kernel

/-- An order for four tokens, at a price of thirteen digits. -/
def priced (key : String) (side : Side) : Label :=
  .reserve ⟨⟨key, .polymarket, "1", side, 4, 6115169238087 / 10 ^ 13, 1, none, four_inRange,
    by decide +kernel, fun _ => by norm_num⟩,
    ⟨6115169238087 / 10 ^ 13, 6115169238087 / 10 ^ 13, 100, 100⟩, none, ⟨2026, 1, 2⟩⟩

end Sample

theorem cost_basis_soldOut : ∃ fills, Filled (.polymarket, "1") fills
      (after Sample.service [Sample.priced "buy" .buy, Sample.priced "sell" .sell]).ledger
    ∧ -((after Sample.service [Sample.priced "buy" .buy, Sample.priced "sell" .sell]).ledger.position
        .polymarket "1").cost ≤ basisError fills :=
  let ⟨fills, h⟩ := filled_after Sample.service
    [Sample.priced "buy" .buy, Sample.priced "sell" .sell] (.polymarket, "1")
  ⟨fills, h, (cost_basis h).1⟩

/-- **Four tokens are bought and sold**: nothing is held, and the cost is below zero; and what the
sell receives is not what is realized and what the cost gets less. -/
theorem cost_after_selling_all : ¬ (∀ p ∈ (after Sample.service [Sample.priced "buy" .buy,
          Sample.priced "sell" .sell]).ledger.positions.rows,
        0 ≤ p.cost ∧ (p.quantity = 0 → p.cost = 0))
    ∧ ¬ ∀ p ∈ (after Sample.service [Sample.priced "buy" .buy]).ledger.positions.rows,
      ∀ p' ∈ (after Sample.service [Sample.priced "buy" .buy,
          Sample.priced "sell" .sell]).ledger.positions.rows,
        ∀ o ∈ (after Sample.service [Sample.priced "buy" .buy,
            Sample.priced "sell" .sell]).ledger.orders.rows, o.record.intent.side = .sell →
          o.record.quoteQty - o.record.feeQuote
            = (p'.realized - p.realized) + (p.cost - p'.cost) := by
  decide +kernel

end Trading

end Qt
