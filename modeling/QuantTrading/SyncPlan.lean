import Mathlib.Data.Prod.Lex
import QuantTrading.Lib.Firsts
import QuantTrading.Lib.Raise
import QuantTrading.Lib.Sweep

/-!
# The plan of a sync

`_validate_sync_plan` of `qt.workbench.operations`: the items of the plan are for the provider and
the symbol that were requested, and a sweep over their intervals looks for gaps.

The sweep goes on when the requested range is behind it. So a plan that covers the range is refused
when some item starts beyond a gap after the range (`sync_plan_covers_iff`). Times are microseconds,
and an interval ends before its end.
-/

namespace Qt.Workbench

open Except Sweep List

/-- A `datetime`, with a timezone or without. -/
inductive Datetime
  | aware (utc : ℤ)
  | naive
deriving DecidableEq, Repr

structure ProviderPlanItem where
  provider : String
  dataset : String
  symbol : String
  start : Datetime
  stop : Datetime
  params : List (String × String)
deriving DecidableEq

def asUtc : Datetime → Except String ℤ
  | .aware utc => .ok utc
  | .naive => .error "timestamp must include a timezone"

def planInterval (source symbol : String) (item : ProviderPlanItem) : Except String (ℤ × ℤ) := do
  raiseIf (item.provider ≠ source ∨ item.symbol ≠ symbol)
    "provider sync plan identity does not match the request"
  let startUtc ← asUtc item.start
  let endUtc ← asUtc item.stop
  raiseIf (endUtc ≤ startUtc) "provider sync plan contains an invalid time interval"
  return (startUtc, endUtc)

/-- The sweep over one interval. -/
def coverInterval (coveredUntil : ℤ) (x : ℤ × ℤ) : Except String ℤ := do
  raiseIf (coveredUntil < x.1) "provider sync plan leaves a requested time-range gap"
  return if coveredUntil < x.2 then x.2 else coveredUntil

def validateSyncPlan (plan : List ProviderPlanItem) (source symbol : String)
    (fromTime toTime : ℤ) : Except String Unit := do
  let intervals ← plan.mapM (planInterval source symbol)
  let coveredUntil ← (intervals.orderBy fun x => toLex x).foldlM coverInterval fromTime
  raiseIf (coveredUntil < toTime) "provider sync plan does not cover the requested time range"

/-! ## Plans -/

section Plan

variable {source symbol : String} {plan : List ProviderPlanItem} {intervals : List (ℤ × ℤ)}
  {fromTime toTime : ℤ}

/-- **An item of a request**: it is of its provider and its symbol, and starts before its end. -/
structure ProviderPlanItem.For (item : ProviderPlanItem) (source symbol : String)
    (interval : ℤ × ℤ) : Prop where
  provider : item.provider = source
  symbol : item.symbol = symbol
  start : item.start = .aware interval.1
  stop : item.stop = .aware interval.2
  lt : interval.1 < interval.2

theorem planInterval_eq_ok {item : ProviderPlanItem} {interval : ℤ × ℤ}
    (h : item.For source symbol interval) : planInterval source symbol item = .ok interval := by
  obtain ⟨rfl, rfl, hstart, hstop, hlt⟩ := h
  unfold planInterval
  rw [hstart, hstop, raiseIf, if_neg (by simp)]
  show (raiseIf (interval.2 ≤ interval.1) _ >>= fun _ => _) = _
  rw [raiseIf, if_neg (not_le.mpr hlt)]
  rfl

theorem mapM_planInterval
    (h : List.Forall₂ (fun item x => item.For source symbol x) plan intervals) :
    plan.mapM (planInterval source symbol) = .ok intervals := by
  induction h with
  | nil => rfl
  | cons hitem _ ih =>
    rw [mapM_cons, planInterval_eq_ok hitem, ih]
    rfl

theorem foldlM_coverInterval (l : List (ℤ × ℤ)) (cursor : ℤ) : l.foldlM coverInterval cursor
      = (sweep cursor l).elim (.error "provider sync plan leaves a requested time-range gap")
        .ok := by
  induction l generalizing cursor with
  | nil => rfl
  | cons x l ih =>
    rw [foldlM_cons, coverInterval, sweep, raiseIf]
    by_cases hgap : cursor < x.1
    · rw [if_pos hgap, if_pos hgap]
      rfl
    · rw [if_neg hgap, if_neg hgap]
      exact ih _

/-- **What is accepted** of a plan of the request: it covers the range, and what lies before every
start. -/
theorem validateSyncPlan_eq_ok_iff
    (h : List.Forall₂ (fun item x => item.For source symbol x) plan intervals) :
    validateSyncPlan plan source symbol fromTime toTime = .ok ()
      ↔ Covers intervals fromTime toTime ∧ ∀ x ∈ intervals, Covers intervals fromTime x.1 := by
  have hsorted : (intervals.orderBy fun x => toLex x).Pairwise fun x y => x.1 ≤ y.1 :=
    (pairwise_orderBy (fun x : ℤ × ℤ => toLex x) intervals).imp fun hle =>
      Prod.Lex.monotone_fst _ _ hle
  have hcongr : ∀ b, Covers (intervals.orderBy fun x => toLex x) fromTime b
      ↔ Covers intervals fromTime b := fun b => covers_congr fun x => mem_orderBy
  have hsome := sweep_isSome_iff hsorted fromTime
  simp only [hcongr, mem_orderBy] at hsome
  rw [validateSyncPlan, mapM_planInterval h, ok_bind, foldlM_coverInterval]
  cases hsweep : sweep fromTime (intervals.orderBy fun x => toLex x) with
  | none =>
    rw [hsweep] at hsome
    refine ⟨fun hok => (by cases hok), fun hcovers => ?_⟩
    exact absurd (hsome.mpr hcovers.2) (by simp)
  | some c =>
    rw [hsweep] at hsome
    have hrange := (covers_iff_of_sweep (b := toTime) hsweep).symm.trans (hcongr toTime)
    rw [Option.elim_some, ok_bind, raiseIf]
    split_ifs with hshort
    · refine ⟨fun hok => (by cases hok), fun hcovers => ?_⟩
      exact absurd (hrange.mpr hcovers.1) (not_le.mpr hshort)
    · exact ⟨fun _ => ⟨hrange.mp (not_lt.mp hshort), hsome.mp rfl⟩, fun _ => rfl⟩

/-- Behind the range, what lies before a start is covered from the range on. -/
theorem covers_from_iff (hlt : fromTime < toTime) (h : Covers intervals fromTime toTime) (b : ℤ) :
    Covers intervals fromTime b ↔ Covers intervals toTime b := by
  refine ⟨fun hb t ht => hb t (hlt.le.trans ht), fun hb t hfrom htb => ?_⟩
  rcases lt_or_ge t toTime with hin | hout
  · exact h t hfrom hin
  · exact hb t hout htb

/-- **A plan of the request is accepted exactly when it covers the range** where, of a plan that
does, no item starts beyond a gap that lies behind the range. -/
theorem sync_plan_covers_iff
    (h : List.Forall₂ (fun item x => item.For source symbol x) plan intervals)
    (hlt : fromTime < toTime) : (validateSyncPlan plan source symbol fromTime toTime = .ok ()
      ↔ Covers intervals fromTime toTime)
    ↔ (Covers intervals fromTime toTime → ∀ x ∈ intervals, Covers intervals toTime x.1) := by
  rw [validateSyncPlan_eq_ok_iff h]
  constructor
  · intro hiff hrange x hx
    exact (covers_from_iff hlt hrange x.1).mp ((hiff.mpr hrange).2 x hx)
  · intro hbehind
    refine ⟨fun hboth => hboth.1, fun hrange => ⟨hrange, fun x hx => ?_⟩⟩
    exact (covers_from_iff hlt hrange x.1).mpr (hbehind hrange x hx)

end Plan

def tenDays (start : ℤ) : ProviderPlanItem :=
  ⟨"binance", "klines", "BTC/USDT", .aware start, .aware (start + 10), []⟩

theorem tenDays_for (start : ℤ) : (tenDays start).For "binance" "BTC/USDT" (start, start + 10) :=
  ⟨rfl, rfl, rfl, rfl, Int.lt_add_of_pos_right start (by decide)⟩

/-- Two items in the wrong order, one of which reaches over the range. -/
theorem sync_plan_twoItems :
    (validateSyncPlan [tenDays 8, tenDays 0] "binance" "BTC/USDT" 2 15 = .ok ()
      ↔ Covers [((8 : ℤ), (18 : ℤ)), (0, 10)] 2 15)
    ↔ (Covers [((8 : ℤ), (18 : ℤ)), (0, 10)] 2 15 → ∀ x ∈ [((8 : ℤ), (18 : ℤ)), (0, 10)],
      Covers [((8 : ℤ), (18 : ℤ)), (0, 10)] 15 x.1) :=
  sync_plan_covers_iff (.cons (tenDays_for 8) (.cons (tenDays_for 0) .nil)) (by decide)

/-- **An item after the range**: the first one covers the range, and the plan is refused for a gap
that was not requested. -/
theorem covering_plan_refused :
    ¬ (validateSyncPlan [tenDays 0, tenDays 20] "binance" "BTC/USDT" 0 10 = .ok ()
      ↔ Covers [((0 : ℤ), (10 : ℤ)), (20, 30)] 0 10) := by
  have hrefused :
      ¬ validateSyncPlan [tenDays 0, tenDays 20] "binance" "BTC/USDT" 0 10 = .ok () := by
    decide +kernel
  have hcovers : Covers [((0 : ℤ), (10 : ℤ)), (20, 30)] 0 10 :=
    fun t h0 h10 => ⟨(0, 10), mem_cons_self, h0, h10⟩
  exact fun hiff => hrefused (hiff.mpr hcovers)

end Qt.Workbench
