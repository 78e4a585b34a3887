import Mathlib.Data.Prod.Lex
import Mathlib.Data.String.Basic
import QuantTrading.Lib.Firsts
import QuantTrading.Lib.Machine
import QuantTrading.Persistence

/-!
# The forecast ledger of the hub

`ForecastLedger` of `qt.agent_hub.forecast_ledger`: forecasts that never change, and what
became of them in revisions. Of each cohort the scorecard counts the first forecast with a
model probability, by decision time and id.

The decision time is what the caller says, and may lie before that of a forecast which has
been recorded already. The choice is made when the score is asked for, so that such a
forecast takes the place of the first one; `forecast_ledger` says that nothing else does.

The clock is read inside the transaction, and identifiers that `uuid4` supplies come with a
call. Amounts are exact rationals.
-/

namespace Qt.ForecastLedger

open Except List Table Machine

/-! ## Requests -/

/-- `net_edge_reason`, which is not checked. -/
inductive Reason
  | text (s : String)
  | number (q : ℚ)
deriving DecidableEq

/-- A forecast as it is handed in; what is missing is `none`. -/
structure Payload where
  forecastId : Option String
  decisionTime : Option ℚ
  knowledgeTime : Option ℚ
  bestBid : Option ℚ
  bestAsk : Option ℚ
  horizonS : Option ℚ
  horizonSeconds : Option ℚ
  roundStartUnix : Option ℤ
  runId : Option String
  marketId : Option String
  instrument : Option String
  tokenId : Option String
  outcomeToken : Option String
  pModel : Option ℚ
  probability : Option ℚ
  pMarketMid : Option ℚ
  feeAtP : Option ℚ
  evidenceReceipt : Option String
  netEdgeReason : Option Reason
  eventId : Option String
  eventFamilyId : Option String
  outcomeId : Option String
  ruleVersion : Option String
  modelVersion : Option String

/-- A row of `forecasts`. -/
structure Forecast where
  forecastId : String
  tenantId : String
  runId : Option String
  marketId : String
  tokenId : Option String
  roundStartUnix : Option ℤ
  pModel : Option ℚ
  pMarketMid : Option ℚ
  bestBid : Option ℚ
  bestAsk : Option ℚ
  feeAtP : Option ℚ
  horizonS : Option ℚ
  decisionTime : ℚ
  knowledgeTime : Option ℚ
  evidenceReceipt : Option String
  netEdgeReason : Reason
  createdAt : ℚ
  eventId : Option String
  eventFamilyId : Option String
  outcomeId : Option String
  ruleVersion : Option String
  modelVersion : Option String
deriving DecidableEq

inductive ResolutionStatus | pending | resolved | canceled | disputed
deriving DecidableEq, Repr

/-- The fields of a resolution that are compared. -/
structure ResolutionBody where
  forecastId : String
  status : ResolutionStatus
  outcome : Option ℤ
  settleTs : Option ℚ
  settleSource : String
  payout : Option ℚ
  redeemedTs : Option ℚ
  dispute : Bool
deriving DecidableEq

/-- A row of `resolution_events`. -/
structure ResolutionEvent where
  resolutionId : String
  revision : ℕ
  body : ResolutionBody
  recordedAt : ℚ

/-- A resolution as it is handed in. -/
structure Resolution where
  resolutionId : Option String
  status : Option String
  outcome : Option ℤ
  settleTs : Option ℚ
  settleSource : Option String
  payout : Option ℚ
  redeemedTs : Option ℚ
  dispute : Option Bool

/-- **`ForecastLedger`.** -/
structure Ledger where
  forecasts : Table Forecast.forecastId
  resolutions : Table ResolutionEvent.resolutionId

def Ledger.start : Ledger := ⟨.empty, .empty⟩

/-! ## Checks -/

def number (value : Option ℚ) (name : String) (maximum : Option ℚ) (positive : Bool) :
    Except Exc (Option ℚ) := do
  raiseIf (∃ q ∈ value, q < 0 ∨ positive = true ∧ q ≤ 0 ∨ ∃ m ∈ maximum, m < q)
    (.valueError (name ++ "_out_of_range"))
  return value

/-- `_identity`, of a string that is there. -/
def identity (value name : String) : Except Exc String := do
  raiseIf (value.toList.all isSpace = true ∨ 1024 < value.length)
    (.valueError (name ++ "_must_be_a_nonempty_string"))
  return value

/-- `_identity`, of a string that may be missing. -/
def identity? (value : Option String) (name : String) : Except Exc (Option String) := do
  raiseIf (∃ s ∈ value, s.toList.all isSpace = true ∨ 1024 < s.length)
    (.valueError (name ++ "_must_be_a_nonempty_string"))
  return value

/-- The value of a field that has two names. -/
def aliasOf {α : Type} (primary other : Option α) : Option α := primary <|> other

/-- `_alias`, which raises for two values. -/
def checkAlias {α : Type} [DecidableEq α] (primary other : Option α) (name : String) :
    Except Exc Unit :=
  raiseIf (∃ a ∈ primary, ∃ b ∈ other, a ≠ b) (.valueError ("conflicting_" ++ name ++ "_aliases"))

/-- A reason that is there and not empty. -/
def Reason.truthy : Reason → Bool
  | text s => s ≠ ""
  | number q => q ≠ 0

variable (render : ℚ → String)

/-- What the column holds of a reason: its affinity is text. -/
def Reason.stored : Reason → Reason
  | text s => text s
  | number q => text (render q)

namespace Payload

/-- `payload.get("forecast_id", uuid.uuid4().hex)`. -/
def id (p : Payload) (newId : String) : String := p.forecastId.getD newId

/-- `_alias(...) or "BTCUSDT"`. -/
def market (p : Payload) : String :=
  ((aliasOf p.marketId p.instrument).filter (· ≠ "")).getD "BTCUSDT"

/-- The checks of `record_forecast` after that of the decision time. -/
def checkFields (p : Payload) (decision : ℚ) : Except Exc Unit := do
  let _ ← number p.knowledgeTime "knowledge_time" none true
  raiseIf (∃ knowledge ∈ p.knowledgeTime, decision < knowledge)
    (.valueError "knowledge_time_after_decision")
  let _ ← number p.bestBid "best_bid" (some 1) false
  let _ ← number p.bestAsk "best_ask" (some 1) false
  raiseIf (∃ bid ∈ p.bestBid, ∃ ask ∈ p.bestAsk, ask < bid)
    (.valueError "crossed_probability_quote")
  checkAlias p.horizonS p.horizonSeconds "horizon_s"
  let _ ← number (aliasOf p.horizonS p.horizonSeconds) "horizon_s" none true
  raiseIf (∃ start ∈ p.roundStartUnix, start < 0 ∨ decision < start)
    (.valueError "invalid_round_start_unix")
  let _ ← identity? p.runId "run_id"
  checkAlias p.marketId p.instrument "market_id"
  let _ ← identity p.market "market_id"
  checkAlias p.tokenId p.outcomeToken "token_id"
  let _ ← identity? (aliasOf p.tokenId p.outcomeToken) "token_id"
  checkAlias p.pModel p.probability "p_model"
  let _ ← number (aliasOf p.pModel p.probability) "p_model" (some 1) false
  let _ ← number p.pMarketMid "p_market_mid" (some 1) false
  let _ ← number p.feeAtP "fee_at_p" (some 1) false
  let _ ← identity? p.evidenceReceipt "evidence_receipt"
  let _ ← identity? p.eventId "event_id"
  let _ ← identity? p.eventFamilyId "event_family_id"
  let _ ← identity? p.outcomeId "outcome_id"
  let _ ← identity? p.ruleVersion "rule_version"
  let _ ← identity? p.modelVersion "model_version"
  return ()

/-- The checks of `record_forecast`, once the decision time is known. -/
def check (p : Payload) (decision now : ℚ) : Except Exc Unit := do
  let _ ← number (some decision) "decision_time" (some now) true
  p.checkFields decision

def row (p : Payload) (tenantId forecastId : String) (decision createdAt : ℚ) : Forecast where
  forecastId := forecastId
  tenantId := tenantId
  runId := p.runId
  marketId := p.market
  tokenId := aliasOf p.tokenId p.outcomeToken
  roundStartUnix := p.roundStartUnix
  pModel := aliasOf p.pModel p.probability
  pMarketMid := p.pMarketMid
  bestBid := p.bestBid
  bestAsk := p.bestAsk
  feeAtP := p.feeAtP
  horizonS := aliasOf p.horizonS p.horizonSeconds
  decisionTime := decision
  knowledgeTime := p.knowledgeTime
  evidenceReceipt := p.evidenceReceipt
  netEdgeReason :=
    (p.netEdgeReason.filter Reason.truthy).getD (.text "missing_independent_calibrated_probability")
  createdAt := createdAt
  eventId := p.eventId
  eventFamilyId := p.eventFamilyId
  outcomeId := p.outcomeId
  ruleVersion := p.ruleVersion
  modelVersion := p.modelVersion

end Payload

/-! ## Recording -/

/-- The row as the table holds it. -/
def Forecast.stored (f : Forecast) : Forecast :=
  { f with netEdgeReason := f.netEdgeReason.stored render }

/-- A forecast whose id is there. -/
def replay (tenantId : String) (p : Payload) (existing : Forecast) (now : ℚ) (s : Ledger) :
    Except Exc (Forecast × Ledger) := do
  raiseIf (existing.tenantId ≠ tenantId) (.valueError "forecast_id_conflict")
  p.check (p.decisionTime.getD existing.decisionTime) now
  raiseIf (p.row tenantId existing.forecastId (p.decisionTime.getD existing.decisionTime)
    existing.createdAt ≠ existing) (.valueError "forecast_id_conflict")
  return (existing, s)

/-- A forecast whose id is new. -/
def insert (tenantId : String) (p : Payload) (forecastId : String) (now : ℚ) (s : Ledger) :
    Except Exc (Forecast × Ledger) := do
  p.check (p.decisionTime.getD now) now
  let f := p.row tenantId forecastId (p.decisionTime.getD now) now
  return (f, { s with forecasts := s.forecasts.insertOnce (f.stored render) })

/-- **`record_forecast`.** -/
def Ledger.record (tenantId : String) (p : Payload) (newId : String) (now : ℚ) (s : Ledger) :
    Except Exc (Forecast × Ledger) := do
  let _ ← identity tenantId "tenant_id"
  let _ ← identity (p.id newId) "forecast_id"
  match s.forecasts.find? (p.id newId) with
  | some existing => replay tenantId p existing now s
  | none => insert render tenantId p (p.id newId) now s

/-! ## Resolving -/

variable (r : Resolution)

def Resolution.status? : Option ResolutionStatus :=
  match r.status.filter (· ≠ "") with
  | some "pending" => some .pending
  | some "resolved" => some .resolved
  | some "canceled" => some .canceled
  | some "disputed" => some .disputed
  | some _ => none
  | none =>
    some (if r.dispute = some true then .disputed
      else if r.outcome ≠ none ∨ r.payout ≠ none then .resolved else .pending)

/-- The time of the settlement: it has a default if the resolution is final or disputed. -/
def Resolution.settled (status : ResolutionStatus) (previous : Option ResolutionBody) (now : ℚ) :
    Option ℚ :=
  match r.settleTs with
  | some t => some t
  | none =>
    if status = .resolved ∨ status = .disputed then
      some (((previous.bind ResolutionBody.settleTs).filter (· ≠ 0)).getD now)
    else none

variable (f : Forecast)

def Resolution.body (previous : Option ResolutionBody) (now : ℚ) : Except Exc ResolutionBody := do
  raiseIf (∃ o ∈ r.outcome, o ≠ 0 ∧ o ≠ 1) (.valueError "outcome_must_be_binary_or_null")
  let _ ← number r.payout "payout" (some 1) false
  match r.status? with
  | none => .error (.valueError "invalid_resolution_status")
  | some status => do
    raiseIf (r.dispute = some true ∧ status ≠ .disputed)
      (.valueError "resolution_status_dispute_conflict")
    raiseIf (status = .resolved ∧ r.outcome = none ∧ r.payout = none)
      (.valueError "resolution_requires_outcome_or_payout")
    raiseIf (∃ o ∈ r.outcome, ∃ p ∈ r.payout, p ≠ o)
      (.valueError "nonbinary_payout_requires_null_outcome")
    let _ ← number (r.settled status previous now) "settle_ts" (some now) true
    raiseIf (∃ t ∈ r.settled status previous now, t ≤ f.decisionTime)
      (.valueError "resolution_must_follow_forecast")
    let _ ← number r.redeemedTs "redeemed_ts" (some now) true
    raiseIf (∃ redeemed ∈ r.redeemedTs, ∀ t ∈ r.settled status previous now, redeemed < t)
      (.valueError "redemption_must_follow_settlement")
    let source ← identity (r.settleSource.getD "unspecified") "settle_source"
    return ⟨f.forecastId, status, r.outcome, r.settled status previous now, source, r.payout,
      r.redeemedTs, status = .disputed⟩

variable (s : Ledger) (forecastId : String)

def Ledger.revisionsOf : List ResolutionEvent :=
  s.resolutions.rows.filter fun e => e.body.forecastId = forecastId

/-- `ORDER BY revision DESC LIMIT 1`. -/
def Ledger.previous : Option ResolutionEvent :=
  ((s.revisionsOf forecastId).orderBy fun e => -(e.revision : ℤ)).head?

/-- The resolution that a request names. -/
def Ledger.named (r : Resolution) : Option ResolutionEvent :=
  r.resolutionId.bind s.resolutions.find?

/-- A revision is appended, unless its id is taken. -/
def append (resolutionId : String) (body : ResolutionBody) (recordedAt : ℚ) (s : Ledger) :
    Except Exc (ResolutionEvent × Ledger) := do
  let e : ResolutionEvent :=
    ⟨resolutionId, (((s.previous body.forecastId).map ResolutionEvent.revision).getD 0) + 1, body,
      recordedAt⟩
  raiseIf (s.resolutions.find? resolutionId ≠ none)
    (.integrityError "resolution_events.resolution_id")
  return (e, { s with resolutions := s.resolutions.insertOnce e })

/-- A resolution whose body is known: a retry, or a new revision. -/
def settle (body : ResolutionBody) (newId : String) (recordedAt : ℚ) (s : Ledger) :
    Except Exc (ResolutionEvent × Ledger) :=
  match s.named r, s.previous body.forecastId with
  | some existing, _ => do
    raiseIf (body ≠ existing.body) (.valueError "resolution_id_conflict")
    return (existing, s)
  | none, some previous =>
    if r.resolutionId = none ∧ body = previous.body then .ok (previous, s)
    else append (r.resolutionId.getD newId) body recordedAt s
  | none, none => append (r.resolutionId.getD newId) body recordedAt s

def Ledger.resolve (tenantId forecastId : String) (r : Resolution) (newId : String)
    (now recordedAt : ℚ) (s : Ledger) : Except Exc (ResolutionEvent × Ledger) :=
  match (s.forecasts.find? forecastId).filter fun f => f.tenantId = tenantId with
  | none => .error (.keyError "forecast_not_found")
  | some f => do
    let _ ← identity? r.resolutionId "resolution_id"
    let body ← r.body f (((s.named r).orElse fun _ => s.previous forecastId).map
      ResolutionEvent.body) now
    settle r body newId recordedAt s

/-! ## Scoring -/

structure Cohort where
  event : String
  roundStartUnix : Option ℤ
  outcome : Option String
  horizonS : Option ℚ
deriving DecidableEq

/-- `_cohort_key`. -/
def Forecast.cohort : Cohort where
  event := (f.eventId.filter (· ≠ "")).getD f.marketId
  roundStartUnix := f.roundStartUnix
  outcome := (f.outcomeId.filter (· ≠ "")) <|> f.tokenId
  horizonS := f.horizonS

/-- `ORDER BY decision_time, forecast_id`. -/
def Forecast.rank : ℚ ×ₗ String := toLex (f.decisionTime, f.forecastId)

/-- The forecasts of a tenant with a model probability, as the scorecard reads them. -/
def Ledger.candidates (tenantId : String) : List Forecast :=
  ((s.forecasts.rows.filter fun f => f.tenantId = tenantId).orderBy Forecast.rank).filter
    fun f => f.pModel.isSome

/-- **The forecasts that are selected** by `score`: of each cohort the first one. -/
def Ledger.selected (tenantId : String) : List Forecast :=
  (s.candidates tenantId).firsts Forecast.cohort

/-! ## Runs -/

inductive Call
  | record (tenantId : String) (p : Payload) (newId : String) (now : ℚ)
  | resolve (tenantId forecastId : String) (r : Resolution) (newId : String) (now recordedAt : ℚ)

/-- **A step**: an exception rolls the call back. -/
def step (s : Ledger) : Call → Ledger
  | .record tenantId p newId now =>
    match s.record render tenantId p newId now with
    | .ok (_, s') => s'
    | .error _ => s
  | .resolve tenantId forecastId r newId now recordedAt =>
    match s.resolve tenantId forecastId r newId now recordedAt with
    | .ok (_, s') => s'
    | .error _ => s

/-- The ledger after a run. -/
def after (calls : List Call) : Ledger :=
  Machine.run (step render) .start calls

/-! ## What is asked -/

/-- **The call records a new forecast**: its id is free, and it passes the checks. -/
structure Admits (s : Ledger) (tenantId : String) (p : Payload) (newId : String) (now : ℚ) :
    Prop where
  tenant : identity tenantId "tenant_id" = .ok tenantId
  id : identity (p.id newId) "forecast_id" = .ok (p.id newId)
  free : s.forecasts.find? (p.id newId) = none
  check : p.check (p.decisionTime.getD now) now = .ok ()

/-- **A forecast that comes before** `f`, in its cohort and with a model probability: it is
recorded now, but its decision time is earlier, or the same with a smaller id. -/
def Backdates (tenantId : String) (f : Forecast) : Call → Prop
  | .record tenantId' p newId now =>
    tenantId' = tenantId ∧ Admits s tenantId p newId now ∧
      (p.row tenantId (p.id newId) (p.decisionTime.getD now) now).cohort = f.cohort ∧
      (aliasOf p.pModel p.probability).isSome ∧
      toLex (p.decisionTime.getD now, p.id newId) < f.rank
  | .resolve .. => False

/-- The reason is not a number: the column holds it as it is. -/
def Payload.Textual (p : Payload) : Prop :=
  ∀ reason ∈ p.netEdgeReason, reason.truthy = true → ∃ text, reason = .text text

/-- **Recording again.** After a forecast was recorded under an id, the same payload under the
id returns what is stored and changes nothing, exactly if its reason is not a number; and
whatever is accepted under the id is the payload that is stored. -/
structure Idempotent (render : ℚ → String) (s' : Ledger) (tenantId : String) (p : Payload)
    (f : Forecast) : Prop where
  again : ∀ newId now, p.id newId = f.forecastId → f.decisionTime ≤ now →
    (s'.record render tenantId p newId now = .ok (f.stored render, s') ↔ p.Textual)
  accepted : ∀ tenantId' p' newId now g t, p'.id newId = f.forecastId →
    s'.record render tenantId' p' newId now = .ok (g, t) → t = s' ∧ g = f.stored render ∧
      p'.row tenantId' f.forecastId (p'.decisionTime.getD f.decisionTime) f.createdAt =
        f.stored render

/-! ## What a call does -/

theorem identity_eq_ok {value name v : String} (h : identity value name = .ok v) : v = value := by
  obtain ⟨-, h⟩ := of_raiseIf h
  exact (ok.inj h).symm

variable {now : ℚ} {p : Payload}

theorem check_mono {decision now' : ℚ} (h : p.check decision now = .ok ())
    (hnow : decision ≤ now') :
    p.check decision now' = .ok () := by
  obtain ⟨v, hv, h⟩ := of_bind h
  have hrange := (of_raiseIf hv).1
  refine bind_eq_ok.mpr ⟨some decision, raiseIf_bind_eq_ok.mpr ⟨?_, rfl⟩, h⟩
  simp only [Option.mem_def, Option.some.injEq, exists_eq_left', not_or, not_lt] at hrange ⊢
  exact ⟨hrange.1, hrange.2.1, hnow⟩

variable {render}

/-- The row that a call records. -/
def newRow (tenantId : String) (p : Payload) (newId : String) (now : ℚ) : Forecast :=
  p.row tenantId (p.id newId) (p.decisionTime.getD now) now

variable {f} {newId : String} {s} {s' : Ledger} {tenantId : String}

/-- **The ways of a recording.** -/
theorem record_eq_ok : s.record render tenantId p newId now = .ok (f, s') ↔
      Admits s tenantId p newId now ∧ f = newRow tenantId p newId now ∧
          s' = { s with forecasts := s.forecasts.insertOnce (f.stored render) } ∨
        (identity tenantId "tenant_id" = .ok tenantId ∧
          identity (p.id newId) "forecast_id" = .ok (p.id newId)) ∧
          s.forecasts.find? (p.id newId) = some f ∧
          p.check (p.decisionTime.getD f.decisionTime) now = .ok () ∧
          p.row tenantId f.forecastId (p.decisionTime.getD f.decisionTime) f.createdAt = f ∧
          s' = s := by
  constructor
  · intro h
    obtain ⟨t, ht, h⟩ := of_bind h
    obtain ⟨i, hi, h⟩ := of_bind h
    obtain rfl := identity_eq_ok ht
    obtain rfl := identity_eq_ok hi
    split at h
    · rename_i existing hfind
      obtain ⟨-, h⟩ := of_raiseIf h
      obtain ⟨⟨⟩, hcheck, h⟩ := of_bind h
      obtain ⟨hrow, h⟩ := of_raiseIf h
      obtain ⟨rfl, rfl⟩ := Prod.mk.inj (ok.inj h)
      exact .inr ⟨⟨ht, hi⟩, hfind, hcheck, not_ne_iff.mp hrow, rfl⟩
    · rename_i hfind
      obtain ⟨⟨⟩, hcheck, h⟩ := of_bind h
      obtain ⟨rfl, rfl⟩ := Prod.mk.inj (ok.inj h)
      exact .inl ⟨⟨ht, hi, hfind, hcheck⟩, rfl, rfl⟩
  · intro h
    unfold Ledger.record
    obtain ⟨hadmits, rfl, rfl⟩ | ⟨⟨ht, hi⟩, hfind, hpass, hrow, rfl⟩ := h
    · rw [hadmits.tenant, ok_bind, hadmits.id, ok_bind]
      simp only [hadmits.free]
      unfold insert
      rw [hadmits.check, ok_bind]
      rfl
    · rw [ht, ok_bind, hi, ok_bind]
      simp only [hfind]
      unfold replay
      have htenant : f.tenantId = tenantId := by rw [← hrow]; rfl
      rw [raiseIf_bind_of_not (not_not.mpr htenant), hpass, ok_bind,
        raiseIf_bind_of_not (not_not.mpr hrow)]
      rfl

theorem step_record_of_admits (render : ℚ → String) (h : Admits s tenantId p newId now) :
    step render s (.record tenantId p newId now) = { s with
      forecasts := s.forecasts.insertOnce ((newRow tenantId p newId now).stored render) } := by
  simp only [step, record_eq_ok.mpr (.inl ⟨h, rfl, rfl⟩)]

theorem step_record_of_not_admits (h : ¬ Admits s tenantId p newId now) :
    step render s (.record tenantId p newId now) = s := by
  simp only [step]
  split
  · rename_i hrecord
    obtain ⟨hadmits, -⟩ | ⟨-, -, -, -, rfl⟩ := record_eq_ok.mp hrecord
    · exact absurd hadmits h
    · rfl
  · rfl

/-- **The ways of a resolution**: nothing changes, or a revision is appended. -/
inductive Resolves (s : Ledger) : Ledger → Prop
  | same : Resolves s s
  | appended (e : ResolutionEvent) (free : s.resolutions.find? e.resolutionId = none)
      (revision : e.revision =
        ((s.previous e.body.forecastId).map ResolutionEvent.revision).getD 0 + 1) :
      Resolves s { s with resolutions := s.resolutions.insertOnce e }

variable {body : ResolutionBody} {e : ResolutionEvent} {recordedAt : ℚ}

theorem resolves_append {resolutionId : String}
    (h : append resolutionId body recordedAt s = .ok (e, s')) : Resolves s s' := by
  obtain ⟨hfree, h⟩ := of_raiseIf h
  obtain ⟨rfl, rfl⟩ := Prod.mk.inj (ok.inj h)
  exact .appended _ (not_ne_iff.mp hfree) rfl

theorem resolves_settle {r : Resolution} (h : settle r body newId recordedAt s = .ok (e, s')) :
    Resolves s s' := by
  unfold settle at h
  split at h
  · obtain ⟨-, h⟩ := of_raiseIf h
    obtain ⟨rfl, rfl⟩ := Prod.mk.inj (ok.inj h)
    exact .same
  · split_ifs at h
    · obtain ⟨rfl, rfl⟩ := Prod.mk.inj (ok.inj h)
      exact .same
    · exact resolves_append h
  · exact resolves_append h

theorem resolves_step (render : ℚ → String) (s : Ledger) (tenantId forecastId : String)
    (r : Resolution) (newId : String) (now recordedAt : ℚ) :
    Resolves s (step render s (.resolve tenantId forecastId r newId now recordedAt)) := by
  simp only [step]
  split
  · rename_i h
    unfold Ledger.resolve at h
    split at h
    · cases h
    · obtain ⟨-, -, h⟩ := of_bind h
      obtain ⟨body, -, h⟩ := of_bind h
      exact resolves_settle h
  · exact .same

theorem Resolves.forecasts (h : Resolves s s') : s'.forecasts = s.forecasts := by
  cases h <;> rfl

/-! ## What is selected -/

theorem mem_candidates : f ∈ s.candidates tenantId ↔
      f ∈ s.forecasts.rows ∧ f.tenantId = tenantId ∧ f.pModel.isSome = true := by
  simp [Ledger.candidates, and_assoc]

theorem pairwise_candidates (s : Ledger) (tenantId : String) :
    (s.candidates tenantId).Pairwise fun f g => f.rank < g.rank := by
  have hnodup : ((s.forecasts.rows.filter fun f => f.tenantId = tenantId).map
      Forecast.rank).Nodup := by
    refine List.Nodup.of_map (fun rank : ℚ ×ₗ String => (ofLex rank).2) ?_
    rw [map_map]
    exact s.forecasts.nodup.sublist (filter_sublist.map _)
  exact (pairwise_lt_orderBy Forecast.rank hnodup).filter _

/-- **The selected forecasts are the first ones of their cohorts.** -/
theorem mem_selected : f ∈ s.selected tenantId ↔ f ∈ s.candidates tenantId ∧
      ∀ g ∈ s.candidates tenantId, g.cohort = f.cohort → f.rank ≤ g.rank :=
  mem_firsts_iff _ (pairwise_candidates s tenantId)

theorem selected_congr (h : s'.forecasts = s.forecasts) (tenantId : String) :
    s'.selected tenantId = s.selected tenantId := by
  unfold Ledger.selected Ledger.candidates
  rw [h]

theorem candidates_step (call : Call) (hf : f ∈ s.candidates tenantId) :
    f ∈ (step render s call).candidates tenantId := by
  rw [mem_candidates] at hf ⊢
  refine ⟨?_, hf.2⟩
  cases call with
  | record tenantId' p newId now =>
    by_cases hadmits : Admits s tenantId' p newId now
    · rw [step_record_of_admits render hadmits]
      exact (mem_rows_insertOnce hadmits.free).mpr (.inl hf.1)
    · rw [step_record_of_not_admits hadmits]
      exact hf.1
  | resolve tenantId' forecastId r newId now recordedAt =>
    rw [(resolves_step render s tenantId' forecastId r newId now recordedAt).forecasts]
    exact hf.1

/-- **A step keeps a selected forecast** exactly if it does not record one before it. -/
theorem selected_step (hf : f ∈ s.candidates tenantId) (call : Call) :
    f ∈ (step render s call).selected tenantId ↔
      f ∈ s.selected tenantId ∧ ¬ Backdates s tenantId f call := by
  cases call with
  | record tenantId' p newId now =>
    by_cases hadmits : Admits s tenantId' p newId now
    swap
    · rw [step_record_of_not_admits hadmits]
      refine (and_iff_left ?_).symm
      rintro ⟨rfl, hadmits', -⟩
      exact hadmits hadmits'
    have hstep := step_record_of_admits render hadmits
    have hmem : ∀ g, g ∈ (step render s (.record tenantId' p newId now)).candidates tenantId ↔
        g ∈ s.candidates tenantId ∨ g = (newRow tenantId' p newId now).stored render ∧
          tenantId' = tenantId ∧ (aliasOf p.pModel p.probability).isSome = true := by
      intro g
      rw [mem_candidates, mem_candidates, hstep, mem_rows_insertOnce hadmits.free, or_and_right]
      refine or_congr_right (and_congr_right ?_)
      rintro rfl
      rfl
    rw [mem_selected, mem_selected]
    constructor
    · rintro ⟨-, hfirst⟩
      refine ⟨⟨hf, fun g hg => hfirst g ((hmem g).mpr (.inl hg))⟩, ?_⟩
      rintro ⟨rfl, -, hcohort, hprobable, hbefore⟩
      have hle := hfirst _ ((hmem _).mpr (.inr ⟨rfl, rfl, hprobable⟩)) hcohort
      exact absurd hbefore (not_lt.mpr hle)
    · rintro ⟨⟨-, hfirst⟩, hnot⟩
      refine ⟨(hmem f).mpr (.inl hf), fun g hg hcohort => ?_⟩
      obtain hg | ⟨rfl, rfl, hprobable⟩ := (hmem g).mp hg
      · exact hfirst g hg hcohort
      · exact not_lt.mp fun hbefore => hnot ⟨rfl, hadmits, hcohort, hprobable, hbefore⟩
  | resolve tenantId' forecastId r newId now recordedAt =>
    have hways := resolves_step render s tenantId' forecastId r newId now recordedAt
    rw [selected_congr hways.forecasts]
    exact (and_iff_left id).symm

/-! ## Replays -/

theorem find?_run {forecastId : String} (h : s.forecasts.find? forecastId = some f)
    (calls : List Call) :
    (Machine.run (step render) s calls).forecasts.find? forecastId = some f := by
  refine inv_run (fun s : Ledger => s.forecasts.find? forecastId = some f)
    (fun s call hfind => ?_) h calls
  cases call with
  | record tenantId p newId now =>
    by_cases hadmits : Admits s tenantId p newId now
    · rw [step_record_of_admits render hadmits]
      exact find?_insertOnce_of_find? hfind
    · rw [step_record_of_not_admits hadmits]
      exact hfind
  | resolve tenantId forecastId' r newId now recordedAt =>
    rw [(resolves_step render s tenantId forecastId' r newId now recordedAt).forecasts]
    exact hfind

/-- The reason of a row is stored as it is exactly if it is a text. -/
theorem stored_eq_iff (render : ℚ → String) (tenantId : String) (p : Payload) (newId : String)
    (now : ℚ) :
    (newRow tenantId p newId now).stored render = newRow tenantId p newId now ↔ p.Textual := by
  have hreason : (newRow tenantId p newId now).stored render = newRow tenantId p newId now ↔
      (newRow tenantId p newId now).netEdgeReason.stored render =
        (newRow tenantId p newId now).netEdgeReason :=
    ⟨congrArg Forecast.netEdgeReason, fun h => by unfold Forecast.stored; rw [h]⟩
  rw [hreason]
  show (((p.netEdgeReason.filter Reason.truthy).getD (.text _)).stored render =
    (p.netEdgeReason.filter Reason.truthy).getD (.text _)) ↔ _
  unfold Payload.Textual
  cases p.netEdgeReason with
  | none => simp [Reason.stored]
  | some reason =>
    cases htruthy : reason.truthy with
    | false => simp [Option.filter, htruthy, Reason.stored]
    | true => cases reason <;> simp [Option.filter, htruthy, Reason.stored]

theorem idempotent_of_find? (hadmits : Admits s tenantId p newId now)
    (hfind : s'.forecasts.find? (p.id newId) = some ((newRow tenantId p newId now).stored render)) :
    Idempotent render s' tenantId p (newRow tenantId p newId now) where
  again := by
    intro newId' now' hid hnow
    have hid : p.id newId' = p.id newId := hid
    have hdecision : p.decisionTime.getD (newRow tenantId p newId now).decisionTime =
        p.decisionTime.getD now := by
      show p.decisionTime.getD (p.decisionTime.getD now) = _
      cases p.decisionTime <;> rfl
    rw [← stored_eq_iff render tenantId p newId now, record_eq_ok]
    constructor
    · rintro (⟨hadmits', -, -⟩ | ⟨-, -, -, hrow, -⟩)
      · have hfree := hadmits'.free
        rw [hid, hfind] at hfree
        cases hfree
      · refine hrow.symm.trans ?_
        show p.row tenantId (p.id newId)
          (p.decisionTime.getD (newRow tenantId p newId now).decisionTime) now = _
        rw [hdecision]
        rfl
    · intro hstored
      refine .inr ⟨⟨hadmits.tenant, hid ▸ hadmits.id⟩, hid ▸ hfind, ?_, ?_, rfl⟩
      · show p.check (p.decisionTime.getD (newRow tenantId p newId now).decisionTime) now' = _
        rw [hdecision]
        exact check_mono hadmits.check hnow
      · rw [hstored, hdecision]
        rfl
  accepted := by
    intro tenantId' p' newId' now' g t hid h
    have hid : p'.id newId' = p.id newId := hid
    obtain ⟨hadmits', -, -⟩ | ⟨-, hfind', -, hrow, rfl⟩ := record_eq_ok.mp h
    · have hfree := hadmits'.free
      rw [hid, hfind] at hfree
      cases hfree
    · rw [hid, hfind] at hfind'
      obtain rfl := Option.some.inj hfind'
      exact ⟨rfl, rfl, hrow⟩

/-! ## Revisions -/

/-- The revisions of every forecast are contiguous from one. -/
def Contiguous (s : Ledger) : Prop :=
  ∀ forecastId, (s.revisionsOf forecastId).map ResolutionEvent.revision =
    List.range' 1 (s.revisionsOf forecastId).length

theorem Contiguous.previous (hs : Contiguous s) (forecastId : String) :
    ((s.previous forecastId).map ResolutionEvent.revision).getD 0 =
      (s.revisionsOf forecastId).length := by
  unfold Ledger.previous
  cases horder : (s.revisionsOf forecastId).orderBy fun e => -(e.revision : ℤ) with
  | nil =>
    have hlength := length_orderBy (fun e : ResolutionEvent => -(e.revision : ℤ))
      (s.revisionsOf forecastId)
    rw [horder] at hlength
    exact hlength
  | cons e rest =>
    have hmem : ∀ e', e' ∈ e :: rest ↔ e' ∈ s.revisionsOf forecastId := by
      intro e'
      rw [← horder, mem_orderBy]
    have hrevision : ∀ n, n ∈ (s.revisionsOf forecastId).map ResolutionEvent.revision ↔
        1 ≤ n ∧ n < 1 + (s.revisionsOf forecastId).length := by
      intro n
      rw [hs forecastId, mem_range'_1]
    have he := (hrevision e.revision).mp (mem_map_of_mem ((hmem e).mp mem_cons_self))
    obtain ⟨last, hlast, hlength⟩ := mem_map.mp
      ((hrevision (s.revisionsOf forecastId).length).mpr ⟨by omega, by omega⟩)
    have hordered := pairwise_orderBy (fun e : ResolutionEvent => -(e.revision : ℤ))
      (s.revisionsOf forecastId)
    rw [horder] at hordered
    have hle : last.revision ≤ e.revision := by
      obtain rfl | hlast := mem_cons.mp ((hmem last).mpr hlast)
      · exact le_rfl
      · have := (pairwise_cons.mp hordered).1 last hlast
        omega
    show e.revision = _
    omega

theorem contiguous_step (hs : Contiguous s) (call : Call) : Contiguous (step render s call) := by
  cases call with
  | record tenantId p newId now =>
    by_cases hadmits : Admits s tenantId p newId now
    · rw [step_record_of_admits render hadmits]
      exact hs
    · rw [step_record_of_not_admits hadmits]
      exact hs
  | resolve tenantId forecastId r newId now recordedAt =>
    have hways := resolves_step render s tenantId forecastId r newId now recordedAt
    generalize step render s (.resolve tenantId forecastId r newId now recordedAt) = s' at hways ⊢
    cases hways with
    | same => exact hs
    | appended e hfree hrevision =>
      intro id
      have hrows : Ledger.revisionsOf { s with resolutions := s.resolutions.insertOnce e } id =
          s.revisionsOf id ++ if e.body.forecastId = id then [e] else [] := by
        unfold Ledger.revisionsOf
        rw [rows_insertOnce hfree, filter_append]
        congr 1
        by_cases hid : e.body.forecastId = id <;> simp [hid]
      rw [hrows]
      split_ifs with hid
      · subst hid
        rw [map_append, hs, length_append, map_singleton, hrevision, hs.previous,
          length_singleton, range'_concat, Nat.one_mul, Nat.add_comm 1]
      · simpa using hs id

variable (render)

theorem contiguous_after (calls : List Call) : Contiguous (after render calls) :=
  inv_run Contiguous (fun _ call hs => contiguous_step hs call) (fun _ => rfl) calls

/-- **The ledger.** A forecast that is selected stays so exactly as long as no forecast of
its cohort is recorded that comes before it. A payload that was recorded is recorded again
as it is stored, exactly if its reason is not a number. Revisions are contiguous. -/
theorem forecast_ledger (render : ℚ → String) (calls : List Call) :
    (∀ tenantId f later, f ∈ (after render calls).selected tenantId →
      (f ∈ (after render (calls ++ later)).selected tenantId ↔
        Machine.Meets (step render) (fun s call => ¬ Backdates s tenantId f call)
          (after render calls) later)) ∧
    (∀ tenantId p newId now later, Admits (after render calls) tenantId p newId now →
      Idempotent render (after render (calls ++ .record tenantId p newId now :: later)) tenantId p
        (newRow tenantId p newId now)) ∧
    Contiguous (after render calls) := by
  refine ⟨fun tenantId f later hf => ?_, fun tenantId p newId now later hadmits => ?_,
    contiguous_after render calls⟩
  · have hiff : f ∈ (Machine.run (step render) (after render calls) later).selected tenantId ↔
        f ∈ (after render calls).selected tenantId ∧
          Machine.Meets (step render) (fun s call => ¬ Backdates s tenantId f call)
            (after render calls) later :=
      run_iff_meets (P := fun s : Ledger => f ∈ s.selected tenantId)
        (fun s => f ∈ s.candidates tenantId) (fun s call hf => candidates_step call hf)
        (fun s call hf => selected_step hf call) (mem_selected.mp hf).1 later
    rw [after, run_append]
    exact hiff.trans (and_iff_right hf)
  · refine idempotent_of_find? hadmits ?_
    rw [after, run_append, run_cons]
    refine find?_run ?_ later
    rw [show Machine.run (step render) .start calls = after render calls from rfl,
      step_record_of_admits render hadmits]
    exact find?_insertOnce_self hadmits.free

/-! ## A run -/

/-- A forecast of an event, decided at a time. -/
def sampleForecast (decisionTime : ℚ) : Payload :=
  ⟨some forecastId, some decisionTime, none, none, none, some 3600, none, none, none, none, none,
    none, none, some (1 / 2), none, none, none, none, none, none, none, none, none, none⟩

/-- **A forecast that is decided in hindsight** takes the place of the one that was selected. -/
theorem hindsight_selected :
    (after toString [.record "alpha" (sampleForecast "a" 100) "" 100]).selected "alpha" =
        [(sampleForecast "a" 100).row "alpha" "a" 100 100] ∧
      (after toString [.record "alpha" (sampleForecast "a" 100) "" 100,
          .record "alpha" (sampleForecast "b" 50) "" 200]).selected "alpha" =
        [(sampleForecast "b" 50).row "alpha" "b" 50 200] := by
  decide +kernel

end Qt.ForecastLedger
