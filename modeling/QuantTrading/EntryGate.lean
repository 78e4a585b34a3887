import Mathlib.Tactic.Linarith
import Mathlib.Tactic.Positivity

/-!
# The entry gate

`qt.risk.engine`, with the sizers of `qt.risk.sizing` and the exits of `qt.risk.stops`: a
`RiskEngine` decides on entries from a peak, a latch and the time of the last loss, and
its callers feed it – `evaluate_entry` with the equity of the moment, `record_realized` with
what a closed trade made.

The gate knows of a run what it is fed. What it is there for is said over the *whole* run, as a
log of the opportunities, the entries and the closed trades: `Lawful`. `Minds` relates
the state of the engine to the log, and `evaluate_open` says which part of the law an entry that
the engine opens has by itself. Times are seconds and numbers are exact rationals.
-/

namespace Qt.Paper

open List

/-! ## Sizing -/

def fractionalKelly (edge winRate winLossRatio fraction : ℚ) : ℚ :=
  if winLossRatio ≤ 0 ∨ winRate ≤ 0 ∨ 1 ≤ winRate then 0
  else
    let raw := (winRate * (winLossRatio + 1) - 1) / winLossRatio
    max 0 (min 1 (fraction * edge * raw))

/-- `vol_target_size`; a rational is finite. -/
def volTargetSize (realizedVol targetVol maxLeverage : ℚ) : ℚ :=
  if realizedVol ≤ 0 then 0 else max 0 (min maxLeverage (targetVol / realizedVol))

def combineSizers (scoreAlloc kellyAlloc volAlloc hardCap : ℚ) : ℚ :=
  min (min (min scoreAlloc kellyAlloc) volAlloc) hardCap

theorem fractionalKelly_nonneg (edge winRate winLossRatio fraction : ℚ) :
    0 ≤ fractionalKelly edge winRate winLossRatio fraction := by
  unfold fractionalKelly
  split_ifs
  · exact le_rfl
  · exact le_max_left _ _

theorem volTargetSize_nonneg (realizedVol targetVol maxLeverage : ℚ) :
    0 ≤ volTargetSize realizedVol targetVol maxLeverage := by
  unfold volTargetSize
  split_ifs
  · exact le_rfl
  · exact le_max_left _ _

/-! ## Exits -/

inductive ExitReason | stopLoss | takeProfit | timeStop
deriving DecidableEq, Repr

/-- `should_exit`, of a long position or of a short one. -/
def shouldExit (long : Bool) (markPrice : ℚ) (stopPrice takeProfitPrice : Option ℚ) (now : ℚ)
    (timeStopTs : Option ℚ) : Option ExitReason :=
  let stopped := if long then stopPrice.any (markPrice ≤ ·) else stopPrice.any (· ≤ markPrice)
  let taken :=
    if long then takeProfitPrice.any (· ≤ markPrice) else takeProfitPrice.any (markPrice ≤ ·)
  if stopped then some .stopLoss
  else if taken then some .takeProfit
  else if timeStopTs.any (· ≤ now) then some .timeStop
  else none

/-! ## The engine -/

/-- The limits of `RiskConfig` that the engine reads. -/
structure RiskConfig where
  maxPositionPct : ℚ := 1 / 5
  maxDrawdownPct : ℚ := 1 / 4
  cooldownBars : ℤ := 24
  kellyFraction : ℚ := 1 / 4
  volTargetAnnual : ℚ := 2 / 5
  atrStopMult : ℚ := 5 / 2
  atrTakeProfitMult : ℚ := 4
  timeStopBars : ℤ := 120
deriving DecidableEq

inductive SignalKind | entryLong | exit | reduce | hold
deriving DecidableEq, Repr

structure Signal where
  ts : ℚ
  kind : SignalKind
  score : ℚ
  targetQuoteAlloc : ℚ

structure Position where
  symbol : String
  qty : ℚ := 0
  avgPrice : ℚ := 0
  openedTs : Option ℚ := none
  stopPrice : Option ℚ := none
  takeProfitPrice : Option ℚ := none
  timeStopTs : Option ℚ := none

structure RiskState where
  equityPeak : ℚ := 0
  lastLossTs : Option ℚ := none
  killSwitchArmed : Bool := false
  realizedPnlTotal : ℚ := 0
deriving DecidableEq

inductive DecisionAction | open | close | noop | block
deriving DecidableEq, Repr

/-- The reasons of a decision. -/
inductive Reason
  | none
  | killSwitch
  | maxDrawdown
  | cooldown
  | alreadyLong
  | sizeZero
  /-- `score={signal.score:.2f}`. -/
  | score (x : ℚ)
  | exit (r : ExitReason)
deriving DecidableEq

/-- `RiskDecision`. -/
structure RiskDecision where
  action : DecisionAction
  sizeQuote : ℚ := 0
  stopPrice : Option ℚ := none
  takeProfitPrice : Option ℚ := none
  timeStopTs : Option ℚ := none
  reason : Reason := .none
deriving DecidableEq

structure RiskEngine where
  cfg : RiskConfig
  barSeconds : ℤ := 3600
  state : RiskState := {}

/-- **A fall below a peak** by more than a share of it. A peak that is not positive has none. -/
def Fallen (pct peak equity : ℚ) : Prop := 0 < peak ∧ pct < (peak - equity) / peak
deriving Decidable

namespace RiskEngine

/-- The time that no entry follows a loss in. -/
def cooldown (e : RiskEngine) : ℚ := e.cfg.cooldownBars * e.barSeconds

/-- The engine after it has looked at an equity, while its switch is not armed. -/
def look (e : RiskEngine) (equity : ℚ) : RiskEngine :=
  { e with
    state := { e.state with
      equityPeak := max e.state.equityPeak equity
      killSwitchArmed :=
        decide (Fallen e.cfg.maxDrawdownPct (max e.state.equityPeak equity) equity) } }

/-- The share of the equity that the sizers let an entry take. -/
def targetAlloc (e : RiskEngine) (signal : Signal) (realizedVolAnnual winRate winLoss : ℚ) : ℚ :=
  combineSizers signal.targetQuoteAlloc
    (fractionalKelly signal.score winRate winLoss e.cfg.kellyFraction)
    (volTargetSize realizedVolAnnual e.cfg.volTargetAnnual 1) e.cfg.maxPositionPct

/-- What `evaluate_entry` decides once its drawdown switch has let the signal pass. -/
def decideEntry (e : RiskEngine) (signal : Signal)
    (equity markPrice atrValue realizedVolAnnual : ℚ) (position : Position)
    (winRate winLoss : ℚ) : RiskDecision :=
  if e.state.lastLossTs.any (fun t => signal.ts - t < e.cooldown) then
    { action := .block, reason := .cooldown }
  else if position.qty ≠ 0 ∧ 0 < position.qty then { action := .block, reason := .alreadyLong }
  else
    let sizeQuote := max 0 (equity * e.targetAlloc signal realizedVolAnnual winRate winLoss)
    if sizeQuote ≤ 0 then { action := .block, reason := .sizeZero }
    else
      { action := .open
        sizeQuote
        stopPrice := some (markPrice - e.cfg.atrStopMult * atrValue)
        takeProfitPrice := some (markPrice + e.cfg.atrTakeProfitMult * atrValue)
        timeStopTs := some (signal.ts + e.cfg.timeStopBars * e.barSeconds)
        reason := .score signal.score }

def evaluateEntry (e : RiskEngine) (signal : Signal)
    (equity markPrice atrValue realizedVolAnnual : ℚ) (position : Position)
    (empiricalWinRate : ℚ := 3 / 5) (empiricalWinLoss : ℚ := 3 / 2) :
    RiskEngine × RiskDecision :=
  if signal.kind ≠ .entryLong then (e, { action := .noop })
  else if e.state.killSwitchArmed then (e, { action := .block, reason := .killSwitch })
  else
    let e := e.look equity
    if e.state.killSwitchArmed then (e, { action := .block, reason := .maxDrawdown })
    else
      (e, e.decideEntry signal equity markPrice atrValue realizedVolAnnual position
        empiricalWinRate empiricalWinLoss)

def evaluateExit (_e : RiskEngine) (position : Position) (markPrice now : ℚ) : RiskDecision :=
  if position.qty = 0 then { action := .noop }
  else
    match shouldExit (decide (0 < position.qty)) markPrice position.stopPrice
        position.takeProfitPrice now position.timeStopTs with
    | none => { action := .noop }
    | some r => { action := .close, reason := .exit r }

def recordRealized (e : RiskEngine) (pnl ts : ℚ) : RiskEngine :=
  { e with
    state := { e.state with
      realizedPnlTotal := e.state.realizedPnlTotal + pnl
      lastLossTs := if pnl < 0 then some ts else e.state.lastLossTs } }

/-- A signal is passed on to the cooldown check. -/
def Passes (e : RiskEngine) (equity : ℚ) : Prop :=
  e.state.killSwitchArmed = false ∧
    ¬ Fallen e.cfg.maxDrawdownPct (max e.state.equityPeak equity) equity
deriving Decidable

end RiskEngine

/-! ## The log of a run -/

/-- What the law of the gate is about. -/
inductive GateEvent
  /-- An opportunity, at the equity of the moment. -/
  | opportunity (equity : ℚ)
  /-- An entry order: its quote size, the equity, and what was held of the symbol. -/
  | entry (ts sizeQuote equity held : ℚ)
  /-- A trade closed with this realized profit, and what the engine was told of it. -/
  | closed (ts realized : ℚ) (told : Option ℚ)
deriving DecidableEq

/-- The log of a run, the newest event first. -/
abbrev GateLog : Type := List GateEvent

/-- The equities at the opportunities of a log. -/
def GateLog.marks (log : GateLog) : List ℚ :=
  log.filterMap fun
    | .opportunity equity => some equity
    | _ => none

/-- **The equity had fallen** by more than a share of the highest of the earlier ones, at one of
the times marked. -/
def HasFallen (pct : ℚ) (marks : List ℚ) : Prop :=
  ∃ later equity earlier peak, marks = later ++ equity :: earlier ∧ earlier.max? = some peak ∧
    Fallen pct peak equity

/-- **What is asked of an entry**, given what happened before it: no trade was closed at a loss
less than the cooldown before, at no earlier opportunity had the equity fallen by more than the
drawdown limit, the size is within the limit for a position, and nothing was held. -/
structure EntryLaw (cfg : RiskConfig) (cooldown : ℚ) (before : GateLog)
    (ts sizeQuote equity held : ℚ) : Prop where
  cool : ∀ t realized told, .closed t realized told ∈ before → realized < 0 → cooldown ≤ ts - t
  risen : ¬ HasFallen cfg.maxDrawdownPct before.marks
  sized : sizeQuote ≤ cfg.maxPositionPct * equity
  flat : held = 0

/-- **The law of the gate**: every entry of the log is as asked. -/
def Lawful (cfg : RiskConfig) (cooldown : ℚ) (log : GateLog) : Prop :=
  ∀ after ts sizeQuote equity held before,
    log = after ++ .entry ts sizeQuote equity held :: before →
      EntryLaw cfg cooldown before ts sizeQuote equity held

section Log

variable {cfg : RiskConfig} {cooldown : ℚ} {log : GateLog}

theorem lawful_nil : Lawful cfg cooldown [] := fun after _ _ _ _ _ h => by
  simp at h

/-- **One more event**: the law looks at entries only. -/
theorem lawful_cons {x : GateEvent} : Lawful cfg cooldown (x :: log) ↔ Lawful cfg cooldown log ∧
      ∀ ts sizeQuote equity held, x = .entry ts sizeQuote equity held →
        EntryLaw cfg cooldown log ts sizeQuote equity held := by
  constructor
  · intro h
    refine ⟨fun after ts size eq held before hlog => ?_, fun ts size eq held hx => ?_⟩
    · exact h (x :: after) ts size eq held before (by rw [hlog]; rfl)
    · exact h [] ts size eq held log (by rw [hx]; rfl)
  · rintro ⟨hlog, hx⟩ after ts size eq held before heq
    cases after with
    | nil =>
      obtain ⟨rfl, rfl⟩ := List.cons.inj heq
      exact hx ts size eq held rfl
    | cons y after =>
      obtain ⟨-, rfl⟩ := List.cons.inj heq
      exact hlog after ts size eq held before rfl

variable {equity : ℚ}

theorem lawful_opportunity :
    Lawful cfg cooldown (.opportunity equity :: log) ↔ Lawful cfg cooldown log := by
  simp [lawful_cons]

variable {ts : ℚ}

theorem lawful_closed {realized : ℚ} {told : Option ℚ} :
    Lawful cfg cooldown (.closed ts realized told :: log) ↔ Lawful cfg cooldown log := by
  simp [lawful_cons]

theorem lawful_entry {sizeQuote held : ℚ} :
    Lawful cfg cooldown (.entry ts sizeQuote equity held :: log) ↔ Lawful cfg cooldown log ∧
      EntryLaw cfg cooldown log ts sizeQuote equity held := by
  rw [lawful_cons]
  refine and_congr_right (fun _ => ⟨fun h => h _ _ _ _ rfl, ?_⟩)
  rintro h _ _ _ _ ⟨⟩
  exact h

variable {pct : ℚ}

theorem hasFallen_nil : ¬ HasFallen pct [] := fun ⟨later, _, _, _, h, _⟩ => by
  simp at h

/-- **One more mark.** -/
theorem hasFallen_cons {marks : List ℚ} : HasFallen pct (equity :: marks) ↔
      HasFallen pct marks ∨ ∃ peak, marks.max? = some peak ∧ Fallen pct peak equity := by
  constructor
  · rintro ⟨later, x, earlier, peak, heq, hmax, hfallen⟩
    cases later with
    | nil =>
      obtain ⟨rfl, rfl⟩ := List.cons.inj heq
      exact .inr ⟨peak, hmax, hfallen⟩
    | cons y later =>
      obtain ⟨-, rfl⟩ := List.cons.inj heq
      exact .inl ⟨later, x, earlier, peak, rfl, hmax, hfallen⟩
  · rintro (⟨later, x, earlier, peak, rfl, hmax, hfallen⟩ | ⟨peak, hmax, hfallen⟩)
    · exact ⟨equity :: later, x, earlier, peak, rfl, hmax, hfallen⟩
    · exact ⟨[], equity, marks, peak, rfl, hmax, hfallen⟩

end Log

/-! ## What the engine knows of the log -/

variable {equity : ℚ}

/-- A fall below a peak is one below every higher peak, at an equity that is not negative. -/
theorem Fallen.mono {pct peak peak' : ℚ} (h : Fallen pct peak equity) (hp : peak ≤ peak')
    (he : 0 ≤ equity) : Fallen pct peak' equity := by
  have hpos : 0 < peak' := lt_of_lt_of_le h.1 hp
  refine ⟨hpos, lt_of_lt_of_le h.2 ?_⟩
  rw [div_le_div_iff₀ h.1 hpos]
  nlinarith [mul_le_mul_of_nonneg_left hp he]

variable {e : RiskEngine} {rv : ℚ} {signal : Signal} {winLoss winRate : ℚ}

variable {atr mark : ℚ} {position : Position}

theorem RiskEngine.decideEntry_open
    (hopen : (e.decideEntry signal equity mark atr rv position winRate winLoss).action = .open) :
    (∀ t, e.state.lastLossTs = some t → e.cooldown ≤ signal.ts - t) ∧ position.qty ≤ 0 ∧
      0 < (e.decideEntry signal equity mark atr rv position winRate winLoss).sizeQuote ∧
      (e.decideEntry signal equity mark atr rv position winRate winLoss).sizeQuote =
        equity * e.targetAlloc signal rv winRate winLoss := by
  unfold decideEntry at hopen ⊢
  by_cases hcool : e.state.lastLossTs.any (fun t => signal.ts - t < e.cooldown) = true
  · rw [if_pos hcool] at hopen
    cases hopen
  by_cases hlong : position.qty ≠ 0 ∧ 0 < position.qty
  · rw [if_neg hcool, if_pos hlong] at hopen
    cases hopen
  rw [if_neg hcool, if_neg hlong] at hopen ⊢
  by_cases hsize : max 0 (equity * e.targetAlloc signal rv winRate winLoss) ≤ 0
  · rw [show (_ : RiskDecision) = _ from if_pos hsize] at hopen
    cases hopen
  rw [show (_ : RiskDecision) = _ from if_neg hsize]
  have hs := not_le.mp hsize
  refine ⟨fun t ht => ?_, not_lt.mp (fun hq => hlong ⟨hq.ne', hq⟩), hs, ?_⟩
  · rw [ht] at hcool
    simpa using hcool
  · exact max_eq_right (le_of_lt ((lt_max_iff.mp hs).resolve_left (lt_irrefl _)))

/-- **What an entry that the engine opens has by itself**: the switch was not armed and the
equity not fallen below the engine's peak, the last loss is long enough ago, nothing long is
held, and the size is the share of the sizers. -/
theorem RiskEngine.evaluate_open
    (hopen : (e.evaluateEntry signal equity mark atr rv position winRate winLoss).2.action = .open)
    : signal.kind = .entryLong ∧ e.Passes equity ∧
      (∀ t, e.state.lastLossTs = some t → e.cooldown ≤ signal.ts - t) ∧ position.qty ≤ 0 ∧
      0 < (e.evaluateEntry signal equity mark atr rv position winRate winLoss).2.sizeQuote ∧
      (e.evaluateEntry signal equity mark atr rv position winRate winLoss).2.sizeQuote =
        equity * e.targetAlloc signal rv winRate winLoss := by
  unfold evaluateEntry at hopen ⊢
  by_cases hkind : signal.kind = .entryLong
  swap
  · rw [if_pos hkind] at hopen
    cases hopen
  by_cases harmed : e.state.killSwitchArmed = true
  · rw [if_neg (not_not.mpr hkind), if_pos harmed] at hopen
    cases hopen
  rw [if_neg (not_not.mpr hkind), if_neg harmed] at hopen ⊢
  by_cases hlook : (e.look equity).state.killSwitchArmed = true
  · rw [show (_ : RiskEngine × RiskDecision) = _ from if_pos hlook] at hopen
    cases hopen
  rw [show (_ : RiskEngine × RiskDecision) = _ from if_neg hlook] at hopen ⊢
  obtain ⟨hcool, hlong, hsize, heq⟩ := decideEntry_open hopen
  exact ⟨hkind, ⟨by simpa using harmed, by simpa [look] using hlook⟩, hcool, hlong, hsize, heq⟩

/-- **The state after an evaluation**: a signal that is no entry leaves it, and so does an armed
switch; else the engine has looked at the equity. -/
theorem RiskEngine.evaluateEntry_fst (e : RiskEngine) (signal : Signal)
    (equity mark atr rv winRate winLoss : ℚ) (position : Position) :
    (e.evaluateEntry signal equity mark atr rv position winRate winLoss).1 =
      if signal.kind ≠ .entryLong ∨ e.state.killSwitchArmed = true then e else e.look equity := by
  unfold evaluateEntry
  by_cases hkind : signal.kind ≠ .entryLong
  · rw [if_pos hkind, if_pos (.inl hkind)]
  · by_cases harmed : e.state.killSwitchArmed = true
    · rw [if_neg hkind, if_pos harmed, if_pos (.inr harmed)]
    · rw [if_neg hkind, if_neg harmed, if_neg (not_or.mpr ⟨hkind, harmed⟩)]
      by_cases hlook : (e.look equity).state.killSwitchArmed = true
      · rw [show (_ : RiskEngine × RiskDecision) = _ from if_pos hlook]
      · rw [show (_ : RiskEngine × RiskDecision) = _ from if_neg hlook]

/-- An evaluation leaves the configuration and the last loss. -/
theorem RiskEngine.evaluateEntry_keeps (e : RiskEngine) (signal : Signal)
    (equity mark atr rv winRate winLoss : ℚ) (position : Position) :
    (e.evaluateEntry signal equity mark atr rv position winRate winLoss).1.cfg = e.cfg ∧
      (e.evaluateEntry signal equity mark atr rv position winRate winLoss).1.barSeconds =
        e.barSeconds ∧
      (e.evaluateEntry signal equity mark atr rv position winRate winLoss).1.state.lastLossTs =
        e.state.lastLossTs := by
  rw [evaluateEntry_fst]
  split_ifs <;> exact ⟨rfl, rfl, rfl⟩

section

variable (halloc : 0 ≤ signal.targetQuoteAlloc)
  (hpos : 0 < equity * e.targetAlloc signal rv winRate winLoss)
include halloc hpos

/-- **The size is within the limit for a position**, of either sign of the equity: where the
share is negative, the limit is what makes it so. -/
theorem RiskEngine.sized :
    equity * e.targetAlloc signal rv winRate winLoss ≤ e.cfg.maxPositionPct * equity := by
  have hkelly := fractionalKelly_nonneg signal.score winRate winLoss e.cfg.kellyFraction
  have hvol := volTargetSize_nonneg rv e.cfg.volTargetAnnual 1
  have hothers : 0 ≤ min (min signal.targetQuoteAlloc
      (fractionalKelly signal.score winRate winLoss e.cfg.kellyFraction))
      (volTargetSize rv e.cfg.volTargetAnnual 1) := le_min (le_min halloc hkelly) hvol
  unfold targetAlloc combineSizers at hpos ⊢
  rw [mul_comm e.cfg.maxPositionPct equity]
  by_cases heq : 0 ≤ equity
  · exact mul_le_mul_of_nonneg_left (min_le_right _ _) heq
  · have hneg := neg_of_mul_pos_right hpos (le_of_not_ge heq)
    rw [min_eq_right (le_of_lt (lt_of_lt_of_le ((min_lt_iff.mp hneg).resolve_left
      (not_lt.mpr hothers)) hothers))]

/-- An entry has the sign of the limit for a position: the other sizers are not negative. -/
theorem RiskEngine.equity_of_open :
    0 < e.cfg.maxPositionPct * equity :=
  lt_of_lt_of_le hpos (sized halloc hpos)

end

/-- **The peak is the highest mark**: the engine's peak is the value it started from or an equity
marked, and no mark is above it. -/
structure Peaks (start peak : ℚ) (marks : List ℚ) : Prop where
  above : ∀ m ∈ marks, m ≤ peak
  attained : peak = start ∨ peak ∈ marks
  start_le : start ≤ peak

namespace Peaks

variable {start peak equity : ℚ} {marks : List ℚ}

theorem nil : Peaks start start [] := ⟨by simp, .inl rfl, le_rfl⟩

variable (h : Peaks start peak marks)
include h

theorem look : Peaks start (max peak equity) (equity :: marks) where
  above m hm := by
    rcases mem_cons.mp hm with rfl | hm
    · exact le_max_right _ _
    · exact (h.above m hm).trans (le_max_left _ _)
  attained := by
    rcases max_choice peak equity with hmax | hmax
    · rw [hmax]
      exact h.attained.imp_right (mem_cons_of_mem _)
    · rw [hmax]
      exact .inr mem_cons_self
  start_le := h.start_le.trans (le_max_left _ _)

/-- An equity that the engine is not shown leaves its peak right where it is not above it. -/
theorem unseen (he : equity ≤ peak) :
    Peaks start peak (equity :: marks) where
  above m hm := by
    rcases mem_cons.mp hm with rfl | hm
    · exact he
    · exact h.above m hm
  attained := h.attained.imp_right (mem_cons_of_mem _)
  start_le := h.start_le

/-- **The engine sees what has fallen from the highest mark**, but for a negative equity below a
peak that it started from. -/
theorem fallen {pct top : ℚ} (hmax : marks.max? = some top) (hfallen : Fallen pct top equity) :
    Fallen pct (max peak equity) equity ∨ (equity < 0 ∧ 0 < start) := by
  have htop : top ≤ peak := h.above top (max?_mem hmax)
  by_cases he : 0 ≤ equity
  · exact .inl (hfallen.mono (htop.trans (le_max_left _ _)) he)
  · rcases h.attained with hstart | hmem
    · exact .inr ⟨not_le.mp he, hstart ▸ lt_of_lt_of_le hfallen.1 htop⟩
    · left
      have heq : max peak equity = top := by
        rw [max_eq_left ((le_of_not_ge he).trans (hfallen.1.le.trans htop))]
        exact le_antisymm ((max?_eq_some_iff.mp hmax).2 peak hmem) htop
      rw [heq]
      exact hfallen

end Peaks


/-! ## The engine and its callers -/

/-- The engine was not told that the trade made a loss. -/
def Untold (told : Option ℚ) : Prop := ∀ p, told = some p → 0 ≤ p

namespace RiskEngine

/-- **What an opportunity asks of the feeding so far**, at a time and an equity. Where the engine
is `shown` it and lets it pass to the cooldown, no trade that it was not told of was closed at a
loss less than the cooldown before. Where it is not shown it, and its switch is not armed, there
was nothing to see: the equity is not above the engine's peak, and has not fallen from the highest
of the earlier opportunities. -/
structure Fed (e : RiskEngine) (log : GateLog) (shown : Prop) (now equity : ℚ) : Prop where
  cool : shown → e.Passes equity → ∀ t realized told, .closed t realized told ∈ log →
    realized < 0 → Untold told → e.cooldown ≤ now - t
  unseen : ¬ shown → e.state.killSwitchArmed = false → equity ≤ e.state.equityPeak ∧
    ∀ peak, log.marks.max? = some peak → ¬ Fallen e.cfg.maxDrawdownPct peak equity

/-- **What the engine has of the log**: while its switch is not armed its peak is the highest mark
and no mark had fallen – but for a caller that no entry of is left to come, `ended` – and its last
loss is the last one it was told of. -/
structure Minds (e : RiskEngine) (start : ℚ) (ended : Prop) (log : GateLog) : Prop where
  peaks : e.state.killSwitchArmed = false → Peaks start e.state.equityPeak log.marks
  risen : e.state.killSwitchArmed = false → HasFallen e.cfg.maxDrawdownPct log.marks → ended
  told : ∀ t realized p, .closed t realized (some p) ∈ log → p < 0 →
    ∃ last, e.state.lastLossTs = some last ∧ t ≤ last

namespace Minds

variable {e : RiskEngine} {start equity : ℚ} {ended : Prop} {log : GateLog}

theorem new (cfg : RiskConfig) (barSeconds : ℤ) (start : ℚ) (ended : Prop) :
    ({ cfg, barSeconds, state := { equityPeak := start } } : RiskEngine).Minds start ended [] :=
  ⟨fun _ => .nil, fun _ h => absurd h hasFallen_nil, fun _ _ _ h => by cases h⟩

variable (h : e.Minds start ended log)
include h

theorem mono {ended' : Prop} (hended : ended → ended') :
    e.Minds start ended' log :=
  ⟨h.peaks, fun ha hf => hended (h.risen ha hf), h.told⟩

theorem entry (ts sizeQuote equity held : ℚ) :
    e.Minds start ended (.entry ts sizeQuote equity held :: log) where
  peaks := h.peaks
  risen := h.risen
  told t realized p hmem := h.told t realized p (by simpa using hmem)

theorem closed (ts realized : ℚ) :
    e.Minds start ended (.closed ts realized none :: log) where
  peaks := h.peaks
  risen := h.risen
  told t realized p hmem := h.told t realized p (by simpa using hmem)

/-- **A trade is closed that the engine is told of**, no earlier than the ones before. -/
theorem recordRealized {ts : ℚ}
    (hclock : ∀ t realized told, .closed t realized told ∈ log → t ≤ ts) (realized pnl : ℚ) :
    (e.recordRealized pnl ts).Minds start ended (.closed ts realized (some pnl) :: log) where
  peaks := h.peaks
  risen := h.risen
  told t r p hmem hp := by
    show ∃ last, (if pnl < 0 then some ts else e.state.lastLossTs) = some last ∧ t ≤ last
    rcases mem_cons.mp hmem with heq | hmem
    · cases heq
      exact ⟨ts, if_pos hp, le_rfl⟩
    · by_cases hloss : pnl < 0
      · exact ⟨ts, if_pos hloss, hclock t r _ hmem⟩
      · rw [if_neg hloss]
        exact h.told t r p hmem hp

theorem look (harmed : e.state.killSwitchArmed = false) (hneg : equity < 0 → 0 < start → ended) :
    (e.look equity).Minds start ended (.opportunity equity :: log) where
  peaks _ := (h.peaks harmed).look
  risen hpass hfallen := by
    have hpass' : ¬ Fallen e.cfg.maxDrawdownPct (max e.state.equityPeak equity) equity :=
      of_decide_eq_false hpass
    rcases hasFallen_cons.mp hfallen with hbefore | ⟨peak, hmax, hfall⟩
    · exact h.risen harmed hbefore
    · rcases (h.peaks harmed).fallen hmax hfall with hseen | ⟨hlt, hpos⟩
      · exact absurd hseen hpass'
      · exact hneg hlt hpos
  told t realized p hmem := h.told t realized p (by simpa using hmem)

/-- **An opportunity that the engine is shown.** -/
theorem evaluateEntry {signal : Signal} (hkind : signal.kind = .entryLong)
    (hneg : e.state.killSwitchArmed = false → equity < 0 → 0 < start → ended)
    (mark atr rv winRate winLoss : ℚ) (position : Position) :
    (e.evaluateEntry signal equity mark atr rv position winRate winLoss).1.Minds start ended
      (.opportunity equity :: log) := by
  rw [evaluateEntry_fst]
  by_cases harmed : e.state.killSwitchArmed = true
  · rw [if_pos (.inr harmed)]
    refine ⟨fun hf => ?_, fun hf => ?_, fun t realized p hmem => h.told t realized p (by
      simpa using hmem)⟩
    · rw [harmed] at hf
      cases hf
    · rw [harmed] at hf
      cases hf
  · rw [if_neg (not_or.mpr ⟨not_not.mpr hkind, harmed⟩)]
    have hf : e.state.killSwitchArmed = false := by simpa using harmed
    exact h.look hf (hneg hf)

/-- **An opportunity that the engine is not shown.** -/
theorem unseen (hseen : e.state.killSwitchArmed = false → equity ≤ e.state.equityPeak ∧
      ∀ peak, log.marks.max? = some peak → ¬ Fallen e.cfg.maxDrawdownPct peak equity) :
    e.Minds start ended (.opportunity equity :: log) where
  peaks harmed := (h.peaks harmed).unseen (hseen harmed).1
  risen harmed hfallen := by
    rcases hasFallen_cons.mp hfallen with hbefore | ⟨peak, hmax, hfall⟩
    · exact h.risen harmed hbefore
    · exact absurd hfall ((hseen harmed).2 peak hmax)
  told t realized p hmem := h.told t realized p (by simpa using hmem)

/-- **An entry that the engine opens is as asked**, where its caller feeds it, tells it the time
of the log, and holds nothing. -/
theorem entryLaw {shown : Prop} {now : ℚ}
    (hfed : e.Fed log shown now equity) (hshown : shown) {signal : Signal}
    {mark atr rv winRate winLoss held : ℚ} {position : Position}
    (hopen : (e.evaluateEntry signal equity mark atr rv position winRate winLoss).2.action = .open)
    (hts : ∀ t, e.state.lastLossTs = some t → signal.ts = now)
    (halloc : 0 ≤ signal.targetQuoteAlloc) (hended : 0 < e.cfg.maxPositionPct * equity → ¬ ended)
    (hheld : held = 0) : EntryLaw e.cfg e.cooldown log now
      (e.evaluateEntry signal equity mark atr rv position winRate winLoss).2.sizeQuote equity
      held := by
  obtain ⟨-, hpass, hlast, -, hpos, hsize⟩ := evaluate_open hopen
  rw [hsize] at hpos ⊢
  refine ⟨fun t realized told hmem hloss => ?_, fun hfallen => ?_, sized halloc hpos, hheld⟩
  · by_cases htold : Untold told
    · exact hfed.cool hshown hpass t realized told hmem hloss htold
    · unfold Untold at htold
      push Not at htold
      obtain ⟨p, rfl, hp⟩ := htold
      obtain ⟨last, hlast', hle⟩ := h.told t realized p hmem hp
      rw [← hts last hlast']
      linarith [hlast last hlast']
  · exact hended (equity_of_open halloc hpos) (h.risen hpass.1 hfallen)

end Minds

end RiskEngine

end Qt.Paper
