import QuantTrading.FundingCarry
import QuantTrading.Lib.Lookup
import QuantTrading.Lib.Streak

/-!
# The negative streak of a carry

`FundingBasisCarry` counts negative settlements as it sees them: once per bar, and the latest one
only. The count of the settlements themselves is the streak at the end of the funding frame.

A settlement that no bar looks at is not counted. `carry_counts_iff` says when the two counts agree
at every decision of a run: when each settlement that is looked at for the first time, and is
negative, continues as many negative ones as the one before it was seen to end.
-/

namespace Qt.Backtest

open Except Fills Streak Option

namespace Engine

/-! ## Counting settlements -/

variable (bundle : MarketBundle)

/-- The frame of the settlements. -/
def fundingFrame : Frame :=
  (bundle.auxiliary.lookup "funding").getD ⟨[], []⟩

/-- The rate of a settlement, if it has one. -/
def rateOf (frame : Frame) (row : Row) : Option ℚ :=
  (rateColumn frame).bind fun column => carryDecimal (frame.get row column .notNumeric)

/-- A settlement at a negative rate. -/
def negative (frame : Frame) (row : Row) : Prop := ∃ rate ∈ rateOf frame row, rate < 0
deriving Decidable

/-- How many consecutive negative settlements end at a time. -/
def consecutiveNegative (timestamp : ℤ) : ℕ :=
  streak (negative (fundingFrame bundle)) (upTo Row.timestamp (fundingFrame bundle).rows timestamp)

/-- How many consecutive negative settlements end before a time. -/
def consecutiveNegativeBefore (timestamp : ℤ) : ℕ :=
  streak (negative (fundingFrame bundle))
    (before Row.timestamp (fundingFrame bundle).rows timestamp)

/-- How many consecutive negative settlements end at the one that is recorded, if one is. -/
def recordedNegative (st : CarryState) : ℕ :=
  st.lastFundingTimestamp.elim 0 (consecutiveNegative bundle)

/-! ## Decisions -/

/-- The settlement that a decision finds: no order of the carry is pending, its legs are both closed
or both open, and the latest settlement is valid. -/
structure Found (params : FundingBasisCarryParams) (context : StrategyContext) (timestamp : ℤ)
    (rate : ℚ) : Prop where
  settled : ¬ hasPendingCarryOrder context
  legs : (context.quantity .spot = 0 ∧ context.quantity .perpetual = 0) ∨ pairedIn context
  funding : latestValidFunding params context = some (timestamp, rate)

/-- **The streak is the count**, and a count that reaches the bound forces the exit. -/
def Counted (isoformat : ℤ → String) (params : FundingBasisCarryParams) (bundle : MarketBundle)
    (d : Decision CarryState) : Prop :=
  ∀ timestamp rate, Found params d.context timestamp rate →
    d.after.negativeStreak = consecutiveNegative bundle timestamp
    ∧ (pairedIn d.context → params.negativeIntervals ≤ consecutiveNegative bundle timestamp →
      pairedExit isoformat d.context.timestamp (d.context.quantity .spot)
        (d.context.quantity .perpetual) = .ok d.intents)

/-- **Nothing is missed**: without a price of the perpetual, the settlement that is found ends as
many negative ones as the recorded one; with a price, it is the recorded one, or it is not negative,
or it continues as many negative ones as end at the recorded one. -/
def Caught (params : FundingBasisCarryParams) (bundle : MarketBundle) (d : Decision CarryState) :
    Prop :=
  ∀ timestamp rate, Found params d.context timestamp rate →
    if (currentPerpetualPrice d.context).isSome then
      d.before.lastFundingTimestamp = some timestamp ∨ 0 ≤ rate
        ∨ recordedNegative bundle d.before = consecutiveNegativeBefore bundle timestamp
    else recordedNegative bundle d.before = consecutiveNegative bundle timestamp

section Answers

variable {isoformat : ℤ → String} {params : FundingBasisCarryParams} {st st' : CarryState}
  {context : StrategyContext} {intents : List OrderIntent} {timestamp : ℤ} {rate : ℚ}

/-- **What is answered to a settlement**: without a price the exit, and with one the decision. -/
theorem carryOnBar_of_found (hfound : Found params context timestamp rate)
    (h : carryOnBar isoformat params st context = .ok (st', intents)) :
    currentPerpetualPrice context = none ∧ st' = st ∧ exitIfPaired isoformat context = .ok intents
    ∨ ∃ price isNew, currentPerpetualPrice context = some price ∧ st' = st.looked timestamp rate
      ∧ carryDecision isoformat params context st' price isNew rate = .ok intents := by
  have hlegs : ¬ (¬ (context.quantity .spot = 0 ∧ context.quantity .perpetual = 0)
      ∧ ¬ pairedIn context) := fun h => hfound.legs.elim h.1 h.2
  unfold carryOnBar at h
  dsimp only at h
  rw [if_neg hfound.settled, if_neg hlegs, hfound.funding] at h
  cases hprice : currentPerpetualPrice context with
  | none =>
    rw [hprice] at h
    obtain ⟨out, hout, h⟩ := of_bind h
    cases h
    exact .inl ⟨rfl, rfl, hout⟩
  | some price =>
    rw [hprice] at h
    obtain ⟨out, hout, h⟩ := of_bind h
    cases h
    exact .inr ⟨price, _, rfl, rfl, hout⟩

theorem carryOnBar_of_not_found (hfound : ¬ ∃ timestamp rate, Found params context timestamp rate)
    (h : carryOnBar isoformat params st context = .ok (st', intents)) : st' = st := by
  unfold carryOnBar at h
  dsimp only at h
  split at h
  · cases h
    rfl
  · rename_i hsettled
    split at h
    · obtain ⟨out, -, h⟩ := of_bind h
      cases h
      rfl
    · rename_i hlegs
      split at h
      · rename_i timestamp rate _ hfunding
        refine absurd ⟨timestamp, rate, hsettled, ?_, hfunding⟩ hfound
        by_contra hnone
        exact hlegs (not_or.mp hnone)
      · obtain ⟨out, -, h⟩ := of_bind h
        cases h
        rfl

theorem exit_of_streak (hfound : Found params context timestamp rate)
    (h : carryOnBar isoformat params st context = .ok (st', intents)) (hpaired : pairedIn context)
    (hstreak : params.negativeIntervals ≤ st'.negativeStreak) :
    pairedExit isoformat context.timestamp (context.quantity .spot) (context.quantity .perpetual)
      = .ok intents := by
  have hexit : exitIfPaired isoformat context = pairedExit isoformat context.timestamp
      (context.quantity .spot) (context.quantity .perpetual) := if_pos hpaired
  rw [← hexit]
  rcases carryOnBar_of_found hfound h with ⟨-, -, hout⟩ | ⟨price, isNew, -, -, hout⟩
  · exact hout
  · unfold carryDecision at hout
    split at hout
    · cases hout
    · rw [if_pos hpaired] at hout
      split_ifs at hout with hclose hquiet
      · exact hout
      · exact hout
      · exact absurd (.inr (.inr hstreak)) hquiet

end Answers

section Runs

variable {isoformat : ℤ → String} {params : FundingBasisCarryParams} {spec : BacktestSpec}
  {bundle : MarketBundle} {e : CarryState} {n : ℕ}

theorem funding_ascending (h : validateRunContract bundle = .ok ()) :
    Ascending Row.timestamp (fundingFrame bundle).rows := by
  obtain ⟨-, h⟩ := of_raiseIf h
  obtain ⟨-, h⟩ := of_raiseIf h
  unfold fundingFrame
  cases hlookup : bundle.auxiliary.lookup "funding" with
  | none => exact List.Pairwise.nil
  | some frame =>
    have hall := forM_eq_ok.mp h ("funding", frame) (List.mem_of_lookup hlookup)
    exact List.pairwise_map.mp (not_not.mp (raiseIf_eq_ok.mp hall))

variable {bar : Bar} {openOrders : List Order} {position : ℕ} {snapshot : PortfolioSnapshot}

/-- What is shown of the settlements is what is up to the bar. -/
theorem fundingShown (h : validateRunContract bundle = .ok ()) {frame : Frame}
    (hframe : (contextAt (fundingBasisCarry isoformat params) bundle position bar snapshot
      openOrders).auxiliary.lookup "funding" = some frame) :
    frame.columns = (fundingFrame bundle).columns
      ∧ frame.rows = upTo Row.timestamp (fundingFrame bundle).rows bar.timestamp := by
  have hsorted := funding_ascending h
  change (bundle.auxiliary.map fun entry => _).lookup "funding" = _ at hframe
  rw [List.lookup_map_snd (fun frame => strategyAuxiliaryHistory frame bar.timestamp
    (fundingBasisCarry isoformat params).warmupBars (position + 1)
    (fundingBasisCarry isoformat params).requiresFullHistory)] at hframe
  obtain ⟨whole, hwhole, rfl⟩ := map_eq_some_iff.mp hframe
  have hfunding : fundingFrame bundle = whole := by
    unfold fundingFrame
    rw [hwhole]
    rfl
  rw [hfunding] at hsorted ⊢
  exact ⟨rfl, take_countP hsorted bar.timestamp⟩

variable {rate : ℚ} {timestamp : ℤ}

/-- **The count at the settlement that is found.** -/
theorem consecutiveNegative_of_found (h : validateRunContract bundle = .ok ())
    (hfound :
      latestValidFunding params
    (contextAt (fundingBasisCarry isoformat params) bundle position bar snapshot openOrders) = some
    (timestamp, rate)) :
    consecutiveNegative bundle timestamp
      = if rate < 0 then consecutiveNegativeBefore bundle timestamp + 1 else 0 := by
  unfold latestValidFunding at hfound
  obtain ⟨frame, hframe, hfound⟩ := bind_eq_some_iff.mp hfound
  obtain ⟨last, hlast, hfound⟩ := bind_eq_some_iff.mp hfound
  obtain ⟨perpetual, -, hfound⟩ := bind_eq_some_iff.mp hfound
  obtain ⟨column, hcolumn, hfound⟩ := bind_eq_some_iff.mp hfound
  obtain ⟨hcolumns, hrows⟩ := fundingShown h hframe
  split_ifs at hfound
  obtain ⟨rate', hrate, hfound⟩ := bind_eq_some_iff.mp hfound
  obtain ⟨rfl, rfl⟩ := Prod.mk.inj (some.inj hfound)
  rw [hrows] at hlast
  obtain ⟨hmem, -, -⟩ := upTo_getLast? (funding_ascending h) hlast
  have hnegative : negative (fundingFrame bundle) last ↔ rate' < 0 := by
    have hrateOf : rateOf (fundingFrame bundle) last = some rate' := by
      unfold rateOf
      unfold rateColumn at hcolumn ⊢
      unfold Frame.get at hrate ⊢
      rw [← hcolumns, hcolumn]
      exact hrate
    unfold negative
    rw [hrateOf]
    simp
  unfold consecutiveNegative consecutiveNegativeBefore
  rw [upTo_of_mem (funding_ascending h) hmem, streak_concat]
  exact if_congr hnegative rfl rfl

/-- The streak of the attributes is the count at the settlement that is recorded. -/
def Even (bundle : MarketBundle) (st : CarryState) : Prop :=
  st.negativeStreak = recordedNegative bundle st

theorem Found.unique {context : StrategyContext} {timestamp' : ℤ} {rate' : ℚ}
    (h : Found params context timestamp rate) (h' : Found params context timestamp' rate') :
    timestamp' = timestamp ∧ rate' = rate :=
  Prod.mk.inj (some.inj (h'.funding.symm.trans h.funding))

variable {d : Decision CarryState}

theorem counted_iff (hfound : Found params d.context timestamp rate)
    (hanswer : carryOnBar isoformat params d.before d.context = .ok (d.after, d.intents)) :
    Counted isoformat params bundle d
      ↔ d.after.negativeStreak = consecutiveNegative bundle timestamp := by
  constructor
  · intro h
    exact (h timestamp rate hfound).1
  · intro h timestamp' rate' hfound'
    obtain ⟨rfl, rfl⟩ := hfound.unique hfound'
    exact ⟨h, fun hpaired hcount => exit_of_streak hfound hanswer hpaired (h ▸ hcount)⟩

/-- A settlement that is looked at for the first time continues the streak, or ends it. -/
theorem looked_eq_count {st : CarryState} (heven : Even bundle st)
    (hcount : consecutiveNegative bundle timestamp =
      if rate < 0 then consecutiveNegativeBefore bundle timestamp + 1 else 0) :
    (st.looked timestamp rate).negativeStreak = consecutiveNegative bundle timestamp
      ↔ st.lastFundingTimestamp = some timestamp ∨ 0 ≤ rate
        ∨ recordedNegative bundle st = consecutiveNegativeBefore bundle timestamp := by
  unfold CarryState.looked
  by_cases hlast : st.lastFundingTimestamp = some timestamp
  · have hrecorded : recordedNegative bundle st = consecutiveNegative bundle timestamp := by
      unfold recordedNegative
      rw [hlast]
      rfl
    rw [if_neg (not_not.mpr hlast.symm)]
    exact ⟨fun _ => .inl hlast, fun _ => heven.trans hrecorded⟩
  · rw [if_pos (Ne.symm hlast), hcount]
    dsimp only
    by_cases hrate : rate < 0
    · rw [if_pos hrate, if_pos hrate, Nat.add_right_cancel_iff, heven]
      exact ⟨fun h => .inr (.inr h),
        fun h => (h.resolve_left hlast).resolve_left (not_le.mpr hrate)⟩
    · rw [if_neg hrate, if_neg hrate]
      exact ⟨fun _ => .inr (.inl (not_lt.mp hrate)), fun _ => rfl⟩

/-- **One decision**: from a streak that is even, the decision counts if and only if nothing is
missed at it, and then the streak stays even. -/
theorem counted_iff_caught (heven : Even bundle d.before)
    (hd : decisionAt (fundingBasisCarry isoformat params) spec bundle e n = some d) :
    (Counted isoformat params bundle d ↔ Caught params bundle d)
      ∧ (Counted isoformat params bundle d → Even bundle d.after) := by
  obtain ⟨bar, r, prepared, closes, hdecided⟩ := decisionAt_eq_some hd
  have hvalid : validateRunContract bundle = .ok () := by
    obtain ⟨_, hvalid, -⟩ := of_bind hdecided.run_eq
    exact hvalid
  have hanswer : carryOnBar isoformat params d.before d.context = .ok (d.after, d.intents) :=
    hdecided.answer
  by_cases hex : ∃ timestamp rate, Found params d.context timestamp rate
  · obtain ⟨timestamp, rate, hfound⟩ := hex
    have hcount : consecutiveNegative bundle timestamp
        = if rate < 0 then consecutiveNegativeBefore bundle timestamp + 1 else 0 := by
      have hfunding := hfound.funding
      rw [hdecided.context_eq] at hfunding
      exact consecutiveNegative_of_found hvalid hfunding
    have hcaught : Caught params bundle d ↔
        if (currentPerpetualPrice d.context).isSome then
          d.before.lastFundingTimestamp = some timestamp ∨ 0 ≤ rate
            ∨ recordedNegative bundle d.before = consecutiveNegativeBefore bundle timestamp
        else recordedNegative bundle d.before = consecutiveNegative bundle timestamp := by
      refine ⟨fun h => h timestamp rate hfound, fun h timestamp' rate' hfound' => ?_⟩
      obtain ⟨rfl, rfl⟩ := hfound.unique hfound'
      exact h
    rw [counted_iff hfound hanswer, hcaught]
    rcases carryOnBar_of_found hfound hanswer with ⟨hprice, hafter, -⟩
      | ⟨price, isNew, hprice, hafter, -⟩
    · rw [hprice, hafter, if_neg (by simp)]
      exact ⟨iff_of_eq (congrArg (· = _) heven), fun _ => heven⟩
    · rw [hprice, hafter, if_pos (by simp)]
      refine ⟨looked_eq_count heven hcount, fun h => ?_⟩
      unfold Even
      rw [h]
      have hrecorded : (d.before.looked timestamp rate).lastFundingTimestamp = some timestamp := by
        unfold CarryState.looked
        by_cases hlast : some timestamp = d.before.lastFundingTimestamp
        · rw [if_neg (not_not.mpr hlast), hlast]
        · rw [if_pos hlast]
      unfold recordedNegative
      rw [hrecorded]
      rfl
  · have hafter := carryOnBar_of_not_found hex hanswer
    refine ⟨⟨fun _ t rate hfound => absurd ⟨t, rate, hfound⟩ hex,
      fun _ t rate hfound => absurd ⟨t, rate, hfound⟩ hex⟩, fun _ => hafter ▸ heven⟩

/-- **The streak stays even** as long as decisions count. -/
theorem even_of_counted {r : Run CarryState} (hcounted : ∀ m < n, ∀ d,
      decisionAt (fundingBasisCarry isoformat params) spec bundle e m = some d →
        Counted isoformat params bundle d)
    (h : runBars (fundingBasisCarry isoformat params) spec bundle e n = .ok r) :
    Even bundle r.strategy := by
  induction n generalizing r with
  | zero =>
    obtain ⟨-, portfolio, -, rfl⟩ := runBars_zero h
    rfl
  | succ n ih =>
    cases hbar : bundle.primary[n]? with
    | none =>
      exact ih (fun m hm => hcounted m (hm.trans n.lt_succ_self))
        ((runBars_succ_of_none hbar).symm.trans h)
    | some bar =>
      obtain ⟨r', prepared, closes, hr', hprepared, hnext⟩ := runBars_succ_eq_ok hbar h
      have heven := ih (fun m hm => hcounted m (hm.trans n.lt_succ_self)) hr'
      rcases hnext with ⟨-, rfl⟩ | ⟨d, hd, hdecided, hafter, -⟩
      · exact hprepared.strategy_eq.symm ▸ heven
      · exact hafter ▸ (counted_iff_caught (hdecided.before_eq.symm ▸ heven) hd).2
          (hcounted n n.lt_succ_self d hd)

/-- **The negative streak.** Over any bars, funding interval and settlements, and at every bar of a
run at which the carry finds a valid settlement: the streak is the number of consecutive negative
settlements that end there, and forces the exit, if and only if nothing is missed. -/
theorem carry_counts_iff (isoformat : ℤ → String) (params : FundingBasisCarryParams)
    (spec : BacktestSpec) (bundle : MarketBundle) (e : CarryState) (bars : ℕ) :
    (∀ n < bars, ∀ d, decisionAt (fundingBasisCarry isoformat params) spec bundle e n = some d →
        Counted isoformat params bundle d)
      ↔ ∀ n < bars, ∀ d, decisionAt (fundingBasisCarry isoformat params) spec bundle e n = some d →
        Caught params bundle d := by
  have heven : ∀ n d, (∀ m < n, ∀ d,
      decisionAt (fundingBasisCarry isoformat params) spec bundle e m = some d →
        Counted isoformat params bundle d) →
      decisionAt (fundingBasisCarry isoformat params) spec bundle e n = some d →
      Even bundle d.before := fun n d hcounted hd => by
    obtain ⟨bar, r, prepared, closes, hdecided⟩ := decisionAt_eq_some hd
    rw [hdecided.before_eq]
    exact even_of_counted hcounted hdecided.run_eq
  constructor
  · intro hcounted n hn d hd
    have hbefore := heven n d (fun m hm => hcounted m (hm.trans hn)) hd
    exact (counted_iff_caught hbefore hd).1.mp (hcounted n hn d hd)
  · intro hcaught n hn
    induction n using Nat.strong_induction_on with
    | _ n ih =>
      intro d hd
      have hbefore := heven n d (fun m hm => ih m hm (hm.trans hn)) hd
      exact (counted_iff_caught hbefore hd).1.mpr (hcaught n hn d hd)

end Runs

/-! ## Settlements between two bars -/

/-- Daily bars, with settlements every eight hours: one that pays, and three that cost. -/
def dailyCarryBundle : MarketBundle :=
  carryBundle [0, 24 * hour] [0, 8 * hour, 16 * hour, 24 * hour]
    [rateAt 0 (1 / 1000), rateAt (8 * hour) (-1 / 10000), rateAt (16 * hour) (-1 / 10000),
      rateAt (24 * hour) (-1 / 10000)]

theorem patientCarry_exit : (-10 : ℚ) ≤ -10 ∧ (-10 : ℚ) ≤ 10 := by norm_num

theorem patientCarry_lt : (-10 : ℚ) < 15 / 100 := by norm_num

/-- A carry that ends for three negative settlements, and hardly for their rate. -/
def patientCarryParams : FundingBasisCarryParams :=
  ⟨15 / 100, -10, 4 / 10, 8, 3, 5 / 100, sampleCarry_bounds, patientCarry_exit,
    sampleCarry_weight, sampleCarry_interval, sampleCarry_streak, sampleCarry_basis,
    patientCarry_lt⟩

def secondDay : Option (Decision CarryState) :=
  decisionAt (fundingBasisCarry firstDayIsoformat patientCarryParams) sampleSpec dailyCarryBundle
    ⟨none, 0⟩ 1

/-- The legs are open, nothing is pending, the third negative settlement is found, and the streak
is one: there is no exit. -/
theorem secondDay_eq : secondDay.map (fun d => (decide (¬ hasPendingCarryOrder d.context
      ∧ pairedIn d.context ∧ latestValidFunding patientCarryParams d.context
        = some (24 * hour, -1 / 10000)), d.after.negativeStreak, d.intents.length))
    = some (true, 1, 0) := by
  decide +kernel

theorem consecutiveNegative_daily : consecutiveNegative dailyCarryBundle (24 * hour) = 3 := by
  decide +kernel

/-- **A negative streak that is not the count.** On daily bars only the last of three negative
settlements is counted, and the exit is not forced. -/
theorem carry_streak_misses : ¬ ∀ (isoformat : ℤ → String) (params : FundingBasisCarryParams)
    (spec : BacktestSpec) (bundle : MarketBundle) (e : CarryState) (n : ℕ)
    (d : Decision CarryState),
    decisionAt (fundingBasisCarry isoformat params) spec bundle e n = some d →
      Counted isoformat params bundle d := by
  intro h
  obtain ⟨d, hd, heq⟩ := map_eq_some_iff.mp secondDay_eq
  obtain ⟨hshown, heq⟩ := Prod.mk.inj heq
  obtain ⟨hstreak, -⟩ := Prod.mk.inj heq
  obtain ⟨hpending, hpaired, hfunding⟩ := of_decide_eq_true hshown
  have hfound : Found patientCarryParams d.context (24 * hour) (-1 / 10000) :=
    ⟨hpending, .inr hpaired, hfunding⟩
  have hcounted := (h _ _ _ _ _ _ d hd _ _ hfound).1
  rw [hstreak, consecutiveNegative_daily] at hcounted
  cases hcounted

end Engine

end Qt.Backtest
