import Mathlib.Data.Prod.Lex
import Mathlib.Data.String.Basic
import QuantTrading.Lib.Firsts
import QuantTrading.Lib.Machine
import QuantTrading.Persistence

/-!
# Forecasts and how they are scored

The forecast authority of `qt.forecasting.repository`: forecasts are recorded
once and never change, what became of them is appended in revisions by a
permissioned ingestor, and a scorecard is computed from both.

Forecasts of one event, outcome, horizon and mode form a cohort, of which the
scorecard counts one: the first by decision time and id. The point is that the
choice reads the forecasts alone. Resolutions, baselines and the order in which
anything was inserted are not consulted, and so no later forecast of a cohort
can take the place of its first.

The digests, the conversions to floating point and the statistics computed from
the scored rows are parameters. What the code writes into the event log is left
out, since nothing here reads it.
-/

namespace Qt

namespace Forecasting

open Except List Table

/-! ## Forecasts and resolutions -/

inductive PredictionMode | blind | marketConditioned
deriving DecidableEq, Repr

structure ForecastRecord where
  forecastId : String
  eventId : String
  eventClusterId : String
  marketId : String
  outcomeId : String
  probability : Probability
  marketBid : Option Probability
  marketAsk : Option Probability
  marketMid : Option Probability
  marketProbabilityMissingReason : Option String
  decisionAtNs : ℤ
  horizonEndNs : ℤ
  modelProvider : String
  modelId : String
  promptHash : Sha256
  rulesHash : Sha256
  predictionMode : PredictionMode
  evidenceHashes : List Sha256
  /-- The horizon follows the decision. -/
  horizon : decisionAtNs < horizonEndNs
  /-- A missing baseline has a reason. -/
  baseline : marketMid = none → ∃ reason ∈ marketProbabilityMissingReason, reason ≠ ""
  /-- The bid does not exceed the ask. -/
  spread : ∀ bid ∈ marketBid, ∀ ask ∈ marketAsk, bid.val ≤ ask.val
  /-- The midpoint is inside the spread. -/
  midpoint : ∀ bid ∈ marketBid, ∀ ask ∈ marketAsk, ∀ mid ∈ marketMid,
    bid.val ≤ mid.val ∧ mid.val ≤ ask.val

/-- What makes forecasts forecasts of the same thing. -/
structure Cohort where
  eventId : String
  outcomeId : String
  horizonEndNs : ℤ
  predictionMode : PredictionMode
deriving DecidableEq, Repr

/-- What `_cohort` takes the digest of. -/
def ForecastRecord.cohort (f : ForecastRecord) : Cohort where
  eventId := f.eventId
  outcomeId := f.outcomeId
  horizonEndNs := f.horizonEndNs
  predictionMode := f.predictionMode

/-- The place of a forecast: its decision time, then its id. -/
def ForecastRecord.rank (f : ForecastRecord) : ℤ ×ₗ String := toLex (f.decisionAtNs, f.forecastId)

inductive ResolutionStatus | pending | resolved | canceled | disputed
deriving DecidableEq, Repr

/-- The body of a resolution, as `_resolution` returns it. -/
structure ResolutionBody where
  status : ResolutionStatus
  outcome : Option ℤ
  payout : Option ℚ
  resolvedAtNs : Option ℤ
  observedAtNs : ℤ
  source : String
  sourceHash : Sha256
  rulesHash : Sha256
  verified : Bool
  redeemedAtNs : Option ℤ
  note : Option String
  /-- What is resolved was resolved at some time. -/
  settled : status = .resolved → resolvedAtNs.isSome = true
deriving DecidableEq

/-- A `Decimal`: a coefficient and an exponent, or a special value. -/
inductive PyDecimal
  | finite (coefficient exponent : ℤ)
  | special
deriving DecidableEq, Repr

/-- A value of a request. Of the values under `other` no field accepts any. -/
inductive Value
  | none
  | bool (b : Bool)
  | int (n : ℤ)
  | text (s : String)
  | decimal (d : PyDecimal)
  | other
deriving DecidableEq, Repr

/-- The JSON object that asks for a resolution. -/
abbrev Request := List (String × Value)

/-- `request.get(key, default)`. -/
def Request.getD (r : Request) (key : String) (default : Value) : Value :=
  (r.lookup key).getD default

/-- `request.get(key)`. -/
def Request.get (r : Request) (key : String) : Value := r.getD key .none

/-- The exceptions of the repository. -/
inductive ForecastError
  | valueError (message : String)
  | keyError (message : String)
  | conflict (message : String)
  | permissionError (message : String)
  | noResultFound
deriving DecidableEq, Repr

/-- A row of `forecast_records`. -/
structure ForecastRow (D : Type) where
  tenantId : String
  forecastId : String
  eventClusterId : String
  decisionNs : ℤ
  payload : ForecastRecord
  sha256 : D
  createdNs : ℤ

def ForecastRow.key {D : Type} (r : ForecastRow D) : String × String := (r.tenantId, r.forecastId)

/-- A row of `forecast_resolution_events`. -/
structure ResolutionRow (D : Type) where
  tenantId : String
  resolutionId : String
  forecastId : String
  revision : ℕ
  actorId : String
  payload : ResolutionBody
  sha256 : D
  createdNs : ℤ
deriving DecidableEq

def ResolutionRow.key {D : Type} (r : ResolutionRow D) : String × String :=
  (r.tenantId, r.resolutionId)

/-- What is scored of a forecast, in floating point. -/
structure ResolvedForecast (D F : Type) where
  marketId : D
  prediction : F
  marketProbability : Option F
  outcome : ℤ
  predictedAt : F
  resolvedAt : F
deriving DecidableEq

/-- **What the repository asks of its surroundings**: digests, `Decimal(text)`,
the conversions to floating point, and the statistics of the scored rows. -/
structure ForecastCodec (D F R C : Type) where
  forecastHash : ForecastRecord → D
  cohortHash : Cohort → D
  identityHash : String → ResolutionBody → String
  resolutionHash : String → String → ResolutionBody → D
  evidenceHash : List D → List D → D
  decimal : String → Option PyDecimal
  float : ℚ → F
  seconds : ℤ → F
  scoreRows : List (ResolvedForecast D F) → R
  clusterComparison : List (ResolvedForecast D F) → List String → C

/-- **The repository.** -/
structure Forecasts (D : Type) where
  forecastRecords : Table (ForecastRow.key (D := D))
  resolutionEvents : Table (ResolutionRow.key (D := D))

variable {D F R C : Type} [DecidableEq D]

/-! ## Validation -/

def resolutionKeys : List String :=
  ["resolution_id", "status", "outcome", "payout", "resolved_at_ns", "observed_at_ns", "source",
    "source_hash", "rules_hash", "verified", "redeemed_at_ns", "note"]

variable (value : Value)

/-- `_identity`: a text that is not blank and not too long. -/
def identity (maximum : ℕ) : Except ForecastError String :=
  match value with
  | .text s =>
    if s.toList.all isSpace = true ∨ maximum < s.length then
      .error (.valueError "invalid_forecast_identity")
    else .ok s
  | _ => .error (.valueError "invalid_forecast_identity")

/-- A digit of a digest: `[a-f0-9]`. -/
def isHexDigit (c : Char) : Bool := ('a' ≤ c ∧ c ≤ 'f') ∨ ('0' ≤ c ∧ c ≤ '9')

def hash : Except ForecastError Sha256 :=
  match value with
  | .text s =>
    if s.length = 64 ∧ s.toList.all isHexDigit = true then .ok s
    else .error (.valueError "resolution_requires_sha256_evidence")
  | _ => .error (.valueError "resolution_requires_sha256_evidence")

/-- The message of `_timestamp`. -/
def timestampError : ForecastError :=
  .valueError "resolution_timestamp_must_be_observed_integer_nanoseconds"

/-- `_timestamp`: nanoseconds that the clock has seen. -/
def timestamp (now : ℤ) : Except ForecastError ℤ :=
  match value with
  | .int n => if n < 0 ∨ now < n then .error timestampError else .ok n
  | _ => .error timestampError

/-- `_timestamp(…, optional=True)`. -/
def optionalTimestamp (now : ℤ) : Except ForecastError (Option ℤ) :=
  if value = .none then .ok none else some <$> timestamp value now

/-- The time of the resolution, which only what is resolved must have. -/
def settledAt (status : ResolutionStatus) (value : Value) (now : ℤ) :
    Except ForecastError {t : Option ℤ // status = .resolved → t.isSome = true} :=
  if h : status = .resolved then (fun t => ⟨some t, fun _ => rfl⟩) <$> timestamp value now
  else (fun t => ⟨t, fun hs => absurd hs h⟩) <$> optionalTimestamp value now

/-- The range and the precision of a payout: a fraction of one with eighteen
decimal places. -/
def payoutOfDecimal : PyDecimal → Except ForecastError ℚ
  | .special => .error (.valueError "payout_must_be_between_zero_and_one")
  | .finite coefficient exponent => do
    let parsed : ℚ := coefficient * (10 : ℚ) ^ exponent
    raiseIf (parsed < 0 ∨ 1 < parsed) (.valueError "payout_must_be_between_zero_and_one")
    raiseIf (1000 < |exponent| ∨ ¬ SigDigits.OnGrid 18 parsed)
      (.valueError "payout_exceeds_exact_precision")
    return parsed

variable (decimal : String → Option PyDecimal)

def payout : Value → Except ForecastError (Option ℚ)
  | .none => .ok none
  | .decimal d => some <$> payoutOfDecimal d
  | .text s =>
    if 128 < s.length then .error (.valueError "payout_exceeds_exact_precision")
    else match decimal s with
      | none => .error (.valueError "invalid_payout_decimal")
      | some d => some <$> payoutOfDecimal d
  | _ => .error (.valueError "payout_requires_decimal_string")

def resolutionStatus : Except ForecastError ResolutionStatus :=
  if value = .text "pending" then .ok .pending
  else if value = .text "resolved" then .ok .resolved
  else if value = .text "canceled" then .ok .canceled
  else if value = .text "disputed" then .ok .disputed
  else .error (.valueError "invalid_resolution_status")

/-- The outcome of a resolution. -/
def binaryOutcome : Value → Except ForecastError (Option ℤ)
  | .none => .ok none
  | .int n =>
    if n = 0 ∨ n = 1 then .ok (some n) else .error (.valueError "outcome_must_be_binary_or_null")
  | _ => .error (.valueError "outcome_must_be_binary_or_null")

def resolutionNote : Value → Except ForecastError (Option String)
  | .none => .ok none
  | .text s =>
    if 4096 < s.length then .error (.valueError "invalid_resolution_note") else .ok (some s)
  | _ => .error (.valueError "invalid_resolution_note")

/-- What `resolve` reads off the clock, in the order in which it does: for the
time of the resolution, for the default of the observation time, for the
observation time and for the redemption, and for the row. -/
structure ResolutionClock where
  resolved : ℤ
  default : ℤ
  observed : ℤ
  redeemed : ℤ
  created : ℤ
deriving DecidableEq, Repr

/-- The clock of a later call. -/
structure ResolutionClock.Le (clock clock' : ResolutionClock) : Prop where
  resolved : clock.resolved ≤ clock'.resolved
  observed : clock.observed ≤ clock'.observed
  redeemed : clock.redeemed ≤ clock'.redeemed

/-- The observation time of a request that does not name one: that of the
resolution which it repeats, or now. -/
def observedDefault (previous : Option ResolutionBody) (clock : ResolutionClock) : ℤ :=
  match previous with
  | some body => body.observedAtNs
  | none => clock.default

/-- The payout of a binary outcome is the outcome. -/
def PayoutDiffers (payout : Option ℚ) (outcome : Option ℤ) : Prop :=
  ∃ p ∈ payout, ∃ o ∈ outcome, p ≠ (o : ℚ)
deriving Decidable

/-- **`_resolution`**: the body that a request asks for. -/
def resolutionBody (forecast : ForecastRecord) (request : Request)
    (previous : Option ResolutionBody) (clock : ResolutionClock) :
    Except ForecastError ResolutionBody := do
  raiseIf (∃ entry ∈ request, entry.1 ∉ resolutionKeys) (.valueError "unknown_resolution_fields")
  raiseIf (request.get "verified" ≠ .bool true)
    (.valueError "resolution_requires_verified_source_ingestor")
  let rulesHash ← hash (request.get "rules_hash")
  raiseIf (rulesHash ≠ forecast.rulesHash) (.valueError "resolution_rules_version_mismatch")
  let status ← resolutionStatus (request.getD "status" (.text "resolved"))
  let outcome ← binaryOutcome (request.get "outcome")
  let payout ← payout decimal (request.get "payout")
  raiseIf (PayoutDiffers payout outcome) (.valueError "special_payout_requires_null_binary_outcome")
  raiseIf (status = .resolved ∧ outcome = none ∧ payout = none)
    (.valueError "resolved_outcome_or_payout_required")
  let resolved ← settledAt status (request.get "resolved_at_ns") clock.resolved
  let observed ← timestamp
    (request.getD "observed_at_ns" (.int (observedDefault previous clock))) clock.observed
  raiseIf (observed < forecast.decisionAtNs ∨
      ∃ t ∈ resolved.val, ¬ (forecast.decisionAtNs < t ∧ t ≤ observed))
    (.valueError "resolution_time_precedes_decision_or_observation")
  let redeemed ← optionalTimestamp (request.get "redeemed_at_ns") clock.redeemed
  raiseIf (∃ t' ∈ redeemed, resolved.val = none ∨ ∃ t ∈ resolved.val, ¬ (t ≤ t' ∧ t' ≤ observed))
    (.valueError "redemption_must_follow_resolution")
  let note ← resolutionNote (request.get "note")
  let source ← identity (request.get "source") 2048
  let sourceHash ← hash (request.get "source_hash")
  return {
    status := status
    outcome := outcome
    payout := payout
    resolvedAtNs := resolved.val
    observedAtNs := observed
    source := source
    sourceHash := sourceHash
    rulesHash := forecast.rulesHash
    verified := true
    redeemedAtNs := redeemed
    note := note
    settled := resolved.property }

/-! ## Recording and resolving -/

variable (codec : ForecastCodec D F R C) (tenant : String)

/-- The row that `record` inserts. -/
def forecastRow (forecast : ForecastRecord) (created : ℤ) : ForecastRow D where
  tenantId := tenant
  forecastId := forecast.forecastId
  eventClusterId := forecast.eventClusterId
  decisionNs := forecast.decisionAtNs
  payload := forecast
  sha256 := codec.forecastHash forecast
  createdNs := created

def record (forecast : ForecastRecord) (now created : ℤ) (s : Forecasts D) :
    Except ForecastError (ForecastRow D × Forecasts D) := do
  let _ ← identity (.text tenant) 80
  let _ ← identity (.text forecast.forecastId) 160
  let _ ← identity (.text forecast.eventClusterId) 160
  raiseIf (now < forecast.decisionAtNs) (.valueError "forecast_decision_is_in_the_future")
  let forecastRecords := s.forecastRecords.insertOnce (forecastRow codec tenant forecast created)
  match forecastRecords.find? (tenant, forecast.forecastId) with
  | none => .error .noResultFound
  | some row => do
    raiseIf (row.sha256 ≠ codec.forecastHash forecast) (.conflict "forecast_identity_conflict")
    return (row, { s with forecastRecords := forecastRecords })

/-- `_get`: the row of a forecast, with its content intact. -/
def getForecast (tenant forecastId : String) (s : Forecasts D) :
    Except ForecastError (ForecastRow D) :=
  match s.forecastRecords.find? (tenant, forecastId) with
  | none => .error (.keyError "forecast_not_found")
  | some row => do
    raiseIf (codec.forecastHash row.payload ≠ row.sha256) (.conflict "forecast_integrity_failure")
    return row

def verifiedResolution (row : ResolutionRow D) : Except ForecastError Unit :=
  raiseIf (codec.resolutionHash row.forecastId row.actorId row.payload ≠ row.sha256)
    (.conflict "resolution_integrity_failure")

/-- What a caller is permitted: nothing is said, a text, or a collection of names. -/
inductive Permissions
  | none
  | text (s : String)
  | names (l : List String)
deriving DecidableEq, Repr

/-- Whether a caller may resolve. -/
def Permissions.resolves : Permissions → Bool
  | .none | .text _ => false
  | .names l => "forecast:resolve" ∈ l

/-- The arguments of `resolve`. -/
structure ResolveCall where
  tenantId : String
  forecastId : String
  resolution : Request
  actorId : String
  permissions : Permissions
deriving DecidableEq, Repr

/-- The id that a request names, if it names one. -/
def requestIdentity (request : Request) : Except ForecastError (Option String) :=
  let value := request.get "resolution_id"
  if value = .none then .ok none else some <$> identity value 160

variable (s : Forecasts D)

/-- The row of a resolution, by the id that a request names. -/
def Forecasts.findResolution (s : Forecasts D) (tenant : String) (identity : Option String) :
    Option (ResolutionRow D) :=
  identity.bind fun id => s.resolutionEvents.find? (tenant, id)

/-- The resolutions of a forecast, in order of insertion. -/
def Forecasts.resolutionsOf (tenant forecastId : String) : List (ResolutionRow D) :=
  s.resolutionEvents.rows.filter fun r => r.tenantId = tenant ∧ r.forecastId = forecastId

/-- The latest revision of a forecast, or zero. -/
def Forecasts.latestRevision (tenant forecastId : String) : ℕ :=
  (((s.resolutionsOf tenant forecastId).map (·.revision)).max?).getD 0

variable (c : ResolveCall)

/-- The row that `resolve` inserts. -/
def resolutionRow (resolutionId : String) (body : ResolutionBody) (clock : ResolutionClock)
    (s : Forecasts D) : ResolutionRow D where
  tenantId := c.tenantId
  resolutionId := resolutionId
  forecastId := c.forecastId
  revision := s.latestRevision c.tenantId c.forecastId + 1
  actorId := c.actorId
  payload := body
  sha256 := codec.resolutionHash c.forecastId c.actorId body
  createdNs := clock.created

/-- `resolve` of an id that has no row. -/
def appendResolution (resolutionId : String) (body : ResolutionBody) (clock : ResolutionClock)
    (s : Forecasts D) : Except ForecastError (ResolutionRow D × Forecasts D) :=
  let result := resolutionRow codec c resolutionId body clock s
  let resolutionEvents := s.resolutionEvents.insertOnce result
  match resolutionEvents.find? (c.tenantId, resolutionId) with
  | none => .error .noResultFound
  | some actual => do
    raiseIf (actual.sha256 ≠ codec.resolutionHash c.forecastId c.actorId body)
      (.conflict "resolution_identity_conflict")
    return (actual, { s with resolutionEvents := resolutionEvents })

/-- `resolve`, once the body is there. -/
def storeResolution (identity : Option String) (existing : Option (ResolutionRow D))
    (body : ResolutionBody) (clock : ResolutionClock) (s : Forecasts D) :
    Except ForecastError (ResolutionRow D × Forecasts D) :=
  let resolutionId := identity.getD (codec.identityHash c.forecastId body)
  let digest := codec.resolutionHash c.forecastId c.actorId body
  match existing with
  | some existing => do
    verifiedResolution codec existing
    raiseIf (existing.sha256 ≠ digest ∨ existing.forecastId ≠ c.forecastId)
      (.conflict "resolution_identity_conflict")
    return (existing, s)
  | none =>
    match s.resolutionEvents.find? (c.tenantId, resolutionId) with
    | some old => do
      verifiedResolution codec old
      raiseIf (old.sha256 ≠ digest) (.conflict "resolution_identity_conflict")
      return (old, s)
    | none => appendResolution codec c resolutionId body clock s

def resolve (clock : ResolutionClock) (s : Forecasts D) :
    Except ForecastError (ResolutionRow D × Forecasts D) := do
  raiseIf (c.permissions.resolves = false)
    (.permissionError "forecast_source_resolution_permission_required")
  let _ ← identity (.text c.actorId) 160
  let row ← getForecast codec c.tenantId c.forecastId s
  let named ← requestIdentity c.resolution
  let existing := s.findResolution c.tenantId named
  let body ← resolutionBody codec.decimal row.payload c.resolution (existing.map (·.payload)) clock
  storeResolution codec c named existing body clock s

def history (tenant forecastId : String) (s : Forecasts D) :
    Except ForecastError (List (ResolutionRow D)) := do
  let _ ← getForecast codec tenant forecastId s
  let rows := (s.resolutionsOf tenant forecastId).orderBy (·.revision)
  rows.forM (verifiedResolution codec)
  return rows

/-! ## The scorecard -/

/-- The counts of a scorecard. -/
structure ForecastCounts where
  totalForecasts : ℕ
  unresolvedForecasts : ℕ
  canceledForecasts : ℕ
  disputedForecasts : ℕ
  nonBinaryResolutions : ℕ
  duplicateCohortForecasts : ℕ
  invalidObservations : ℕ
deriving DecidableEq, Repr

/-- A resolution that is not of one of the two outcomes. -/
def ResolutionBody.NonBinary (b : ResolutionBody) : Prop :=
  b.outcome ≠ some 0 ∧ b.outcome ≠ some 1 ∨ PayoutDiffers b.payout b.outcome
deriving Decidable

/-- Count a forecast by what became of it. -/
def ForecastCounts.tally (counts : ForecastCounts) : Option ResolutionBody → ForecastCounts
  | none => { counts with unresolvedForecasts := counts.unresolvedForecasts + 1 }
  | some body =>
    match body.status with
    | .pending => { counts with unresolvedForecasts := counts.unresolvedForecasts + 1 }
    | .canceled => { counts with canceledForecasts := counts.canceledForecasts + 1 }
    | .disputed => { counts with disputedForecasts := counts.disputedForecasts + 1 }
    | .resolved =>
      if body.NonBinary then { counts with nonBinaryResolutions := counts.nonBinaryResolutions + 1 }
      else counts

/-- The forecast of a cohort, what became of it, and its cluster. -/
structure Selected (D : Type) where
  key : D
  forecast : ForecastRecord
  body : Option ResolutionBody
  clusterId : String

variable (resolutions : List (ResolutionRow D))

/-- `latest`: of the resolutions in order of revision, the last of each forecast. -/
def latest (forecastId : String) : Option (ResolutionRow D) :=
  (resolutions.filter fun r => r.forecastId = forecastId).getLast?

/-- The entry of a forecast in `cohorts` and `cluster_ids`. -/
def selected (forecast : ForecastRecord) : Selected D where
  key := codec.cohortHash forecast.cohort
  forecast := forecast
  body := (latest resolutions forecast.forecastId).map (·.payload)
  clusterId := forecast.eventClusterId

variable (acc : ForecastCounts × List (Selected D))

/-- One round of the loop over the forecasts. -/
def selectForecast (forecast : ForecastRecord) : ForecastCounts × List (Selected D) :=
  let entry := selected codec resolutions forecast
  let counts := acc.1.tally entry.body
  if entry.key ∈ acc.2.map (·.key) then
    ({ counts with duplicateCohortForecasts := counts.duplicateCohortForecasts + 1 }, acc.2)
  else (counts, acc.2 ++ [entry])

/-- The round, with the check of the row. -/
def selectRow (row : ForecastRow D) :
    Except ForecastError (ForecastCounts × List (Selected D)) := do
  raiseIf (codec.forecastHash row.payload ≠ row.sha256) (.conflict "forecast_integrity_failure")
  return selectForecast codec resolutions acc row.payload

/-- The counts, the rows that are scored and their clusters. -/
structure Observations (D F : Type) where
  counts : ForecastCounts
  rows : List (ResolvedForecast D F)
  clusters : List String

/-- One round of the loop over the cohorts. The times were checked when the
resolution was stored and are not compared again. -/
def scoreCohort (acc : Observations D F) (c : Selected D) : Observations D F :=
  match c.body with
  | none => acc
  | some body =>
    if h : body.status = .resolved then
      if body.NonBinary then acc
      else if body.verified = false ∨ body.rulesHash ≠ c.forecast.rulesHash then
        { acc with
          counts := { acc.counts with invalidObservations := acc.counts.invalidObservations + 1 } }
      else
        { acc with
          rows := acc.rows ++ [{
            marketId := c.key
            prediction := codec.float c.forecast.probability
            marketProbability := c.forecast.marketMid.map fun mid => codec.float mid
            outcome := body.outcome.getD 0
            predictedAt := codec.seconds c.forecast.decisionAtNs
            resolvedAt := codec.seconds (body.resolvedAtNs.get (body.settled h)) }]
          clusters := acc.clusters ++ [c.clusterId] }
    else acc

/-- The scorecard, with the cohorts and the rows that it is computed from. -/
structure Scorecard (D F R C : Type) extends Observations D F where
  cohorts : List (Selected D)
  scores : R
  comparison : C
  scoredObservations : ℕ
  independentEventClusters : ℕ
  selectedCohorts : ℕ
  evidenceSha256 : D

/-- `_score_rows`: up to ten thousand rows go through an evaluator that rejects
two rows of one market. -/
def scoreRows (rows : List (ResolvedForecast D F)) : Except ForecastError R := do
  raiseIf (rows.length ≤ 10000 ∧ ¬ (rows.map (·.marketId)).Nodup)
    (.valueError "duplicate market outcomes would inflate the evaluation sample")
  return codec.scoreRows rows

/-- The forecasts of a tenant, by decision time and id. -/
def Forecasts.forecastsOf (s : Forecasts D) (tenant : String) : List (ForecastRow D) :=
  (s.forecastRecords.rows.filter fun r => r.tenantId = tenant).orderBy
    fun r => toLex (r.decisionNs, r.forecastId)

def Forecasts.resolutionsByRevision (s : Forecasts D) (tenant : String) : List (ResolutionRow D) :=
  (s.resolutionEvents.rows.filter fun r => r.tenantId = tenant).orderBy (·.revision)

/-- The report. -/
def scorecard (records : List (ForecastRow D)) (resolutions : List (ResolutionRow D))
    (cohorts : List (Selected D)) (observations : Observations D F) (scores : R) :
    Scorecard D F R C where
  toObservations := observations
  cohorts := cohorts
  scores := scores
  comparison := codec.clusterComparison observations.rows observations.clusters
  scoredObservations := observations.rows.length
  independentEventClusters := observations.clusters.dedup.length
  selectedCohorts := cohorts.length
  evidenceSha256 := codec.evidenceHash (records.map (·.sha256)) (resolutions.map (·.sha256))

def score : Except ForecastError (Scorecard D F R C) := do
  let records := s.forecastsOf tenant
  let resolutions := s.resolutionsByRevision tenant
  resolutions.forM (verifiedResolution codec)
  let (counts, cohorts) ← records.foldlM (selectRow codec resolutions)
    (⟨records.length, 0, 0, 0, 0, 0, 0⟩, [])
  let observations := cohorts.foldl (scoreCohort codec) ⟨counts, [], []⟩
  let scores ← scoreRows codec observations.rows
  return scorecard codec records resolutions cohorts observations scores

namespace Forecasts

/-! ## Runs -/

/-- The operations that write, with what the clock shows them. -/
inductive Label
  | record (tenant : String) (forecast : ForecastRecord) (now created : ℤ)
  | resolve (c : ResolveCall) (clock : ResolutionClock)

/-- What a transaction leaves: one that raises changes nothing. -/
def commit {α : Type} (s : Forecasts D) (result : Except ForecastError (α × Forecasts D)) :
    Forecasts D :=
  match result with
  | .ok (_, s') => s'
  | .error _ => s

/-- **A step of the repository.** -/
def step (codec : ForecastCodec D F R C) (s : Forecasts D) : Label → Forecasts D
  | .record tenant forecast now created =>
    s.commit (Forecasting.record codec tenant forecast now created s)
  | .resolve c clock => s.commit (Forecasting.resolve codec c clock s)

/-- The repository with empty tables. -/
def init : Forecasts D := ⟨.empty, .empty⟩

/-- **The repository after a run** from empty tables. -/
def after (codec : ForecastCodec D F R C) (ls : List Label) : Forecasts D :=
  Machine.run (step codec) init ls

/-! ## What a transaction returns -/

variable {codec : ForecastCodec D F R C} {created : ℤ} {f : ForecastRecord} {now : ℤ}
  {row : ForecastRow D} {s s' : Forecasts D} {tenant : String}

/-- **`record` returns** the row that is stored under the id, if it has the digest
of the forecast. -/
theorem record_eq_ok : Forecasting.record codec tenant f now created s = .ok (row, s') ↔
      ((∃ a, identity (.text tenant) 80 = .ok a) ∧
        (∃ a, identity (.text f.forecastId) 160 = .ok a) ∧
        (∃ a, identity (.text f.eventClusterId) 160 = .ok a) ∧ f.decisionAtNs ≤ now) ∧
      (s.forecastRecords.insertOnce (forecastRow codec tenant f created)).find?
        (tenant, f.forecastId) = some row ∧
      row.sha256 = codec.forecastHash f ∧
      s' = { s with
        forecastRecords := s.forecastRecords.insertOnce (forecastRow codec tenant f created) } := by
  unfold Forecasting.record
  simp only [bind_eq_ok, raiseIf_eq_ok, exists_const, not_lt]
  cases hfind : (s.forecastRecords.insertOnce (forecastRow codec tenant f created)).find?
      (tenant, f.forecastId) with
  | none =>
    constructor
    · rintro ⟨_, _, _, _, _, _, _, h⟩
      cases h
    · rintro ⟨_, h, _⟩
      cases h
  | some found =>
    simp only [bind_eq_ok, raiseIf_eq_ok, exists_const, not_not, Option.some.injEq]
    constructor
    · rintro ⟨a, ha, b, hb, c, hc, hnow, hsha, h⟩
      obtain ⟨rfl, rfl⟩ := Prod.mk.inj (ok.inj h)
      exact ⟨⟨⟨a, ha⟩, ⟨b, hb⟩, ⟨c, hc⟩, hnow⟩, rfl, hsha, rfl⟩
    · rintro ⟨⟨⟨a, ha⟩, ⟨b, hb⟩, ⟨c, hc⟩, hnow⟩, rfl, hsha, rfl⟩
      exact ⟨a, ha, b, hb, c, hc, hnow, hsha, rfl⟩

variable {id : String}

/-- What `_get` returns. -/
theorem getForecast_eq_ok : getForecast codec tenant id s = .ok row ↔
      s.forecastRecords.find? (tenant, id) = some row ∧
        codec.forecastHash row.payload = row.sha256 := by
  unfold getForecast
  cases s.forecastRecords.find? (tenant, id) with
  | none => exact ⟨nofun, nofun⟩
  | some found =>
    simp only [raiseIf_bind_eq_ok, not_not, Option.some.injEq]
    constructor
    · rintro ⟨hsha, h⟩
      obtain rfl := ok.inj h
      exact ⟨rfl, hsha⟩
    · rintro ⟨rfl, hsha⟩
      exact ⟨hsha, rfl⟩

variable {body : ResolutionBody} {c : ResolveCall} {clock : ResolutionClock}

theorem appendResolution_eq (fresh : s.resolutionEvents.find? (c.tenantId, id) = none) :
    appendResolution codec c id body clock s = .ok (resolutionRow codec c id body clock s, { s with
          resolutionEvents := s.resolutionEvents.insertOnce
            (resolutionRow codec c id body clock s) }) := by
  have hfind : (s.resolutionEvents.insertOnce (resolutionRow codec c id body clock s)).find?
      (c.tenantId, id) = some (resolutionRow codec c id body clock s) :=
    find?_insertOnce_self (r := resolutionRow codec c id body clock s) fresh
  unfold appendResolution
  simp only [hfind]
  exact raiseIf_bind_of_not (not_not.mpr rfl)

variable {named : Option String}

/-- **What `resolve` stores**: the row that has the id, if its digest is that of the
call, or a new row. -/
theorem storeResolution_eq_ok {row : ResolutionRow D} :
    storeResolution codec c named (s.findResolution c.tenantId named) body clock s = .ok (row, s') ↔
      (s.resolutionEvents.find? (c.tenantId, named.getD (codec.identityHash c.forecastId body))
          = some row ∧ codec.resolutionHash row.forecastId row.actorId row.payload = row.sha256 ∧
        row.sha256 = codec.resolutionHash c.forecastId c.actorId body ∧
        (named ≠ none → row.forecastId = c.forecastId) ∧ s' = s) ∨
      (s.resolutionEvents.find? (c.tenantId, named.getD (codec.identityHash c.forecastId body))
          = none ∧
        row = resolutionRow codec c (named.getD (codec.identityHash c.forecastId body)) body clock
          s ∧
        s' = { s with resolutionEvents := s.resolutionEvents.insertOnce row }) := by
  unfold storeResolution
  cases hexisting : s.findResolution c.tenantId named with
  | some existing =>
    -- the request names the id of a row
    obtain ⟨id, rfl, hid⟩ := Option.bind_eq_some_iff.mp hexisting
    simp only [verifiedResolution, bind_eq_ok, raiseIf_eq_ok, exists_const, Option.getD_some, hid,
      not_or, not_not, Option.some.injEq]
    constructor
    · rintro ⟨hverified, ⟨hsha, hforecast⟩, h⟩
      obtain ⟨rfl, rfl⟩ := Prod.mk.inj (ok.inj h)
      exact Or.inl ⟨rfl, hverified, hsha, fun _ => hforecast, rfl⟩
    · rintro (⟨rfl, hverified, hsha, hforecast, rfl⟩ | ⟨h, _⟩)
      · exact ⟨hverified, ⟨hsha, hforecast (Option.some_ne_none id)⟩, rfl⟩
      · cases h
  | none =>
    dsimp only
    cases hold : s.resolutionEvents.find?
        (c.tenantId, named.getD (codec.identityHash c.forecastId body)) with
    | some old =>
      have hnamed : named = none := by
        cases named with
        | none => rfl
        | some id => cases hexisting.symm.trans hold
      simp only [verifiedResolution, bind_eq_ok, raiseIf_eq_ok, exists_const, not_not,
        Option.some.injEq]
      constructor
      · rintro ⟨hverified, hsha, h⟩
        obtain ⟨rfl, rfl⟩ := Prod.mk.inj (ok.inj h)
        exact Or.inl ⟨rfl, hverified, hsha, fun h => absurd hnamed h, rfl⟩
      · rintro (⟨rfl, hverified, hsha, _, rfl⟩ | ⟨h, _⟩)
        · exact ⟨hverified, hsha, rfl⟩
        · cases h
    | none =>
      dsimp only
      rw [appendResolution_eq hold]
      constructor
      · intro h
        obtain ⟨rfl, rfl⟩ := Prod.mk.inj (ok.inj h)
        exact Or.inr ⟨rfl, rfl, rfl⟩
      · rintro (⟨h, _⟩ | ⟨_, rfl, rfl⟩)
        · cases h
        · rfl

/-- **`resolve` returns** when its checks pass, what it stores. -/
theorem resolve_eq_ok {row : ResolutionRow D} :
    Forecasting.resolve codec c clock s = .ok (row, s') ↔
      (c.permissions.resolves ≠ false ∧ ∃ actor, identity (.text c.actorId) 160 = .ok actor) ∧
      ∃ forecast, getForecast codec c.tenantId c.forecastId s = .ok forecast ∧
      ∃ named, requestIdentity c.resolution = .ok named ∧
      ∃ body, resolutionBody codec.decimal forecast.payload c.resolution
          ((s.findResolution c.tenantId named).map (·.payload)) clock = .ok body ∧
        storeResolution codec c named (s.findResolution c.tenantId named) body clock s
          = .ok (row, s') := by
  unfold Forecasting.resolve
  simp only [bind_eq_ok, raiseIf_eq_ok, exists_const]
  constructor
  · rintro ⟨hpermission, actor, hactor, forecast, hforecast, named, hnamed, body, hbody, h⟩
    exact ⟨⟨hpermission, actor, hactor⟩, forecast, hforecast, named, hnamed, body, hbody, h⟩
  · rintro ⟨⟨hpermission, actor, hactor⟩, forecast, hforecast, named, hnamed, body, hbody, h⟩
    exact ⟨hpermission, actor, hactor, forecast, hforecast, named, hnamed, body, hbody, h⟩

/-! ## What a step changes -/

/-- **What a step can change**: it adds a forecast whose id is free, or a resolution
whose id is free, or nothing. -/
inductive Change (codec : ForecastCodec D F R C) (s : Forecasts D) : Forecasts D → Prop
  | none : Change codec s s
  | forecast (tenant : String) (forecast : ForecastRecord) (created : ℤ)
      (fresh : s.forecastRecords.find? (tenant, forecast.forecastId) = .none) :
      Change codec s { s with
        forecastRecords := s.forecastRecords.insertOnce
          (forecastRow codec tenant forecast created) }
  | resolution (c : ResolveCall) (id : String) (body : ResolutionBody) (clock : ResolutionClock)
      (fresh : s.resolutionEvents.find? (c.tenantId, id) = .none) :
      Change codec s { s with
        resolutionEvents := s.resolutionEvents.insertOnce (resolutionRow codec c id body clock s) }

theorem change_record (h : Forecasting.record codec tenant f now created s = .ok (row, s')) :
    Change codec s s' := by
  obtain ⟨_, _, _, rfl⟩ := record_eq_ok.mp h
  cases hfind : s.forecastRecords.find? (forecastRow codec tenant f created).key with
  | some old =>
    rw [insertOnce_of_find? hfind]
    exact .none
  | none => exact .forecast tenant f created hfind

theorem change_resolve {row : ResolutionRow D}
    (h : Forecasting.resolve codec c clock s = .ok (row, s')) : Change codec s s' := by
  obtain ⟨_, _, _, named, _, body, _, hstore⟩ := resolve_eq_ok.mp h
  rcases storeResolution_eq_ok.mp hstore with ⟨_, _, _, _, rfl⟩ | ⟨fresh, rfl, rfl⟩
  · exact .none
  · exact .resolution c _ body clock fresh

theorem change_step (codec : ForecastCodec D F R C) (s : Forecasts D) (l : Label) :
    Change codec s (step codec s l) := by
  cases l with
  | record tenant forecast now created =>
    show Change codec s (s.commit (Forecasting.record codec tenant forecast now created s))
    cases h : Forecasting.record codec tenant forecast now created s with
    | error => exact .none
    | ok r => exact change_record h
  | resolve c clock =>
    show Change codec s (s.commit (Forecasting.resolve codec c clock s))
    cases h : Forecasting.resolve codec c clock s with
    | error => exact .none
    | ok r => exact change_resolve h

/-- **Rows stay**: what is stored in `s` is stored in `s'`. -/
structure Grows (s s' : Forecasts D) : Prop where
  forecast : ∀ k r, s.forecastRecords.find? k = some r → s'.forecastRecords.find? k = some r
  resolution : ∀ k r, s.resolutionEvents.find? k = some r → s'.resolutionEvents.find? k = some r

omit [DecidableEq D] in
theorem Grows.refl (s : Forecasts D) : Grows s s := ⟨fun _ _ h => h, fun _ _ h => h⟩

omit [DecidableEq D] in
theorem Grows.trans {s'' : Forecasts D} (h : Grows s s') (h' : Grows s' s'') : Grows s s'' :=
  ⟨fun k r hr => h'.forecast k r (h.forecast k r hr),
    fun k r hr => h'.resolution k r (h.resolution k r hr)⟩

omit [DecidableEq D] in
theorem Change.grows (h : Change codec s s') : Grows s s' := by
  cases h with
  | none => exact .refl s
  | forecast => exact ⟨fun _ _ hr => find?_insertOnce_of_find? hr, fun _ _ hr => hr⟩
  | resolution => exact ⟨fun _ _ hr => hr, fun _ _ hr => find?_insertOnce_of_find? hr⟩

theorem grows_run (codec : ForecastCodec D F R C) (s : Forecasts D) (ls : List Label) :
    Grows s (Machine.run (step codec) s ls) :=
  Machine.rel_run (fun _ => True) Grows (fun _ _ _ => trivial) Grows.refl (fun _ _ _ => Grows.trans)
    (fun s l _ => (change_step codec s l).grows) trivial ls

/-! ## What holds of every repository -/

/-- **What is stored is as it was written**: columns and digests agree with the
payloads, and the revisions of a forecast count its resolutions. -/
structure Sound (codec : ForecastCodec D F R C) (s : Forecasts D) : Prop where
  forecast : ∀ r ∈ s.forecastRecords.rows, r.forecastId = r.payload.forecastId ∧
    r.decisionNs = r.payload.decisionAtNs ∧ codec.forecastHash r.payload = r.sha256
  resolution : ∀ r ∈ s.resolutionEvents.rows,
    codec.resolutionHash r.forecastId r.actorId r.payload = r.sha256
  revisions : ∀ tenant id, (s.resolutionsOf tenant id).map (·.revision)
    = List.range' 1 (s.resolutionsOf tenant id).length

omit [DecidableEq D] in
theorem sound_init (codec : ForecastCodec D F R C) : Sound codec (init : Forecasts D) where
  forecast r hr := by cases hr
  resolution r hr := by cases hr
  revisions tenant id := rfl

theorem max?_range'_one (n : ℕ) : ((List.range' 1 n).max?).getD 0 = n := by
  cases n with
  | zero => rfl
  | succ n =>
    have hmax : (List.range' 1 (n + 1)).max? = some (n + 1) := by
      rw [max?_eq_some_iff]
      simp only [mem_range'_1]
      exact ⟨by omega, fun b hb => by omega⟩
    rw [hmax]
    rfl

omit [DecidableEq D] in
theorem Sound.latestRevision_eq (h : Sound codec s) (tenant id : String) :
    s.latestRevision tenant id = (s.resolutionsOf tenant id).length := by
  unfold latestRevision
  rw [h.revisions, max?_range'_one]

omit [DecidableEq D] in
theorem Sound.change (h : Sound codec s) (hc : Change codec s s') : Sound codec s' := by
  cases hc with
  | none => exact h
  | forecast tenant forecast created fresh =>
    refine ⟨fun r hr => ?_, h.resolution, h.revisions⟩
    rcases (mem_rows_insertOnce fresh).mp hr with hr | rfl
    · exact h.forecast r hr
    · exact ⟨rfl, rfl, rfl⟩
  | resolution c id body clock fresh =>
    have hrows := rows_insertOnce (r := resolutionRow codec c id body clock s) fresh
    refine ⟨h.forecast, fun r hr => ?_, fun tenant forecastId => ?_⟩
    · rcases (mem_rows_insertOnce fresh).mp hr with hr | rfl
      · exact h.resolution r hr
      · rfl
    · unfold resolutionsOf
      rw [hrows, filter_append, map_append, length_append]
      by_cases hsame : c.tenantId = tenant ∧ c.forecastId = forecastId
      · obtain ⟨rfl, rfl⟩ := hsame
        have hnew : [resolutionRow codec c id body clock s].filter
            (fun r => r.tenantId = c.tenantId ∧ r.forecastId = c.forecastId)
              = [resolutionRow codec c id body clock s] := by
          simp [resolutionRow]
        have hold := h.revisions c.tenantId c.forecastId
        have hlatest := h.latestRevision_eq c.tenantId c.forecastId
        unfold resolutionsOf at hold hlatest
        rw [hnew, hold, map_singleton, length_singleton, range'_1_concat]
        show _ ++ [s.latestRevision c.tenantId c.forecastId + 1] = _
        rw [hlatest, Nat.add_comm]
      · have hnew : [resolutionRow codec c id body clock s].filter
            (fun r => r.tenantId = tenant ∧ r.forecastId = forecastId) = [] := by
          simpa [resolutionRow] using hsame
        rw [hnew, map_nil, append_nil, length_nil, Nat.add_zero]
        exact h.revisions tenant forecastId

theorem sound_after (codec : ForecastCodec D F R C) (ls : List Label) :
    Sound codec (after codec ls) :=
  Machine.inv_run (Sound codec) (fun s l h => h.change (change_step codec s l))
    (sound_init codec) ls

/-! ## Replays -/

variable {value : Value} {t : ℤ}

omit [DecidableEq D] in
theorem timestamp_eq_ok : timestamp value now = .ok t ↔ value = .int t ∧ 0 ≤ t ∧ t ≤ now := by
  cases value with
  | int n =>
    show (if n < 0 ∨ now < n then error timestampError else ok n) = _ ↔ _
    split_ifs with h
    · simp only [Value.int.injEq, false_iff, not_and, not_le]
      rintro rfl h0
      exact h.resolve_left (not_lt.mpr h0)
    · rw [Except.ok.injEq, Value.int.injEq]
      rw [not_or, not_lt, not_lt] at h
      exact ⟨fun he => he ▸ ⟨rfl, h⟩, fun he => he.1⟩
  | none | bool | text | decimal | other => exact ⟨nofun, nofun⟩

variable {now' : ℤ}

theorem timestamp_mono (h : timestamp value now = .ok t) (hle : now ≤ now') :
    timestamp value now' = .ok t := by
  obtain ⟨hvalue, h0, ht⟩ := timestamp_eq_ok.mp h
  exact timestamp_eq_ok.mpr ⟨hvalue, h0, ht.trans hle⟩

theorem optionalTimestamp_mono {t : Option ℤ} (h : optionalTimestamp value now = .ok t)
    (hle : now ≤ now') : optionalTimestamp value now' = .ok t := by
  unfold optionalTimestamp at h ⊢
  split_ifs at h ⊢
  · exact h
  · obtain ⟨a, ha, rfl⟩ := map_eq_ok.mp h
    exact map_eq_ok.mpr ⟨a, timestamp_mono ha hle, rfl⟩

theorem settledAt_mono {status : ResolutionStatus}
    {t : {t : Option ℤ // status = .resolved → t.isSome = true}}
    (h : settledAt status value now = .ok t) (hle : now ≤ now') :
    settledAt status value now' = .ok t := by
  unfold settledAt at h ⊢
  split_ifs at h ⊢
  · obtain ⟨a, ha, rfl⟩ := map_eq_ok.mp h
    exact map_eq_ok.mpr ⟨a, timestamp_mono ha hle, rfl⟩
  · obtain ⟨a, ha, rfl⟩ := map_eq_ok.mp h
    exact map_eq_ok.mpr ⟨a, optionalTimestamp_mono ha hle, rfl⟩

variable {request : Request} {decimal : String → Option PyDecimal} {forecast : ForecastRecord}
  {previous : Option ResolutionBody}

/-- A request that does not name the observation time gets the default. -/
theorem resolutionBody_observed
    (h : resolutionBody decimal forecast request previous clock = .ok body)
    (hnone : request.lookup "observed_at_ns" = none) :
    body.observedAtNs = observedDefault previous clock := by
  unfold resolutionBody at h
  simp only [bind_eq_ok, raiseIf_eq_ok, exists_const] at h
  obtain ⟨_, _, _, _, _, _, _, _, _, _, _, _, _, _, _, observed, hobserved, _, _, _, _, _, _, _, _,
    _, _, h⟩ := h
  obtain rfl := ok.inj h
  unfold Request.getD at hobserved
  rw [hnone, Option.getD_none] at hobserved
  exact (Value.int.inj (timestamp_eq_ok.mp hobserved).1).symm

variable {clock' : ResolutionClock}

/-- **A request that is repeated later** asks for the body that it asked for, if it
names the observation time or gets the same by default. -/
theorem resolutionBody_again {previous' : Option ResolutionBody}
    (h : resolutionBody decimal forecast request previous clock = .ok body) (hle : clock.Le clock')
    (hobs : request.lookup "observed_at_ns" = none → observedDefault previous' clock' =
      body.observedAtNs)
    : resolutionBody decimal forecast request previous' clock' = .ok body := by
  have hdefault : request.getD "observed_at_ns" (.int (observedDefault previous' clock'))
      = request.getD "observed_at_ns" (.int (observedDefault previous clock)) := by
    unfold Request.getD
    cases hlookup : request.lookup "observed_at_ns" with
    | some v => rfl
    | none =>
      rw [hobs hlookup, resolutionBody_observed h hlookup]
  unfold resolutionBody at h ⊢
  rw [hdefault]
  simp only [bind_eq_ok, raiseIf_eq_ok, exists_const] at h ⊢
  obtain ⟨hkeys, hverified, rulesHash, hrulesHash, hrules, status, hstatus, outcome, houtcome,
    payout, hpayout, hdiffers, hmissing, resolved, hresolved, observed, hobserved, htimes, redeemed,
    hredeemed, hredemption, note, hnote, source, hsource, sourceHash, hsourceHash, h⟩ := h
  exact ⟨hkeys, hverified, rulesHash, hrulesHash, hrules, status, hstatus, outcome, houtcome,
    payout, hpayout, hdiffers, hmissing, resolved, settledAt_mono hresolved hle.resolved, observed,
    timestamp_mono hobserved hle.observed, htimes, redeemed,
    optionalTimestamp_mono hredeemed hle.redeemed, hredemption, note, hnote, source, hsource,
    sourceHash, hsourceHash, h⟩

variable {s₁ s₂ : Forecasts D}

/-- **Recording a forecast again** returns the row and changes nothing. -/
theorem record_again {created' : ℤ}
    (h : Forecasting.record codec tenant f now created s = .ok (row, s₁)) (hg : Grows s₁ s₂)
    (hle : now ≤ now') : Forecasting.record codec tenant f now' created' s₂ = .ok (row, s₂) := by
  obtain ⟨⟨htenant, hid, hcluster, hnow⟩, hfind, hsha, rfl⟩ := record_eq_ok.mp h
  have hfind' : s₂.forecastRecords.find? (tenant, f.forecastId) = some row := hg.forecast _ _ hfind
  have hinsert : s₂.forecastRecords.insertOnce (forecastRow codec tenant f created')
      = s₂.forecastRecords := insertOnce_of_find? (s := row) hfind'
  refine record_eq_ok.mpr ⟨⟨htenant, hid, hcluster, hnow.trans hle⟩, ?_, hsha, ?_⟩
  · rw [hinsert]
    exact hfind'
  · rw [hinsert]

omit [DecidableEq D] in
theorem requestIdentity_eq_none :
    requestIdentity request = .ok none ↔ request.get "resolution_id" = .none := by
  unfold requestIdentity
  dsimp only
  split_ifs with h
  · exact ⟨fun _ => h, fun _ => rfl⟩
  · refine ⟨fun hmap => ?_, fun hget => absurd hget h⟩
    obtain ⟨a, _, ha⟩ := map_eq_ok.mp hmap
    cases ha

/-- The row that was returned is the stored one, with the digest of the call. -/
theorem findResolution_of_store {row : ResolutionRow D}
    (h : storeResolution codec c named (s.findResolution c.tenantId named) body clock s =
      .ok (row, s'))
    : s'.resolutionEvents.find? (c.tenantId, named.getD (codec.identityHash c.forecastId body))
        = some row ∧
      codec.resolutionHash row.forecastId row.actorId row.payload = row.sha256 ∧
      row.sha256 = codec.resolutionHash c.forecastId c.actorId body ∧
      (named ≠ none → row.forecastId = c.forecastId) := by
  rcases storeResolution_eq_ok.mp h with
    ⟨hfind, hverified, hsha, hforecast, rfl⟩ | ⟨fresh, rfl, rfl⟩
  · exact ⟨hfind, hverified, hsha, hforecast⟩
  · exact ⟨find?_insertOnce_self (r := resolutionRow codec c _ body clock s) fresh, rfl, rfl,
      fun _ => rfl⟩

/-- **A resolution asked for again** at a later time returns the row and changes
nothing, exactly if the request names its id or its observation time, or the clock
has stood still: otherwise the observation time is read off the clock and is part
of what the id is the digest of. -/
theorem resolve_again_iff {row : ResolutionRow D}
    (hcodec : ∀ id actor, (codec.resolutionHash id actor).Injective)
    (h : Forecasting.resolve codec c clock s = .ok (row, s₁)) (hg : Grows s s₂) (hg₁ : Grows s₁ s₂)
    (hle : clock.Le clock') : Forecasting.resolve codec c clock' s₂ = .ok (row, s₂) ↔
      c.resolution.get "resolution_id" ≠ .none ∨ c.resolution.lookup "observed_at_ns" ≠ none ∨
        clock'.default = clock.default := by
  obtain ⟨hpermitted, forecast, hforecast, named, hnamed, body, hbody, hstore⟩ := resolve_eq_ok.mp h
  obtain ⟨hfind, hverified, hsha, hid⟩ := findResolution_of_store hstore
  constructor
  · intro h'
    obtain ⟨_, forecast', _, named', hnamed', body', hbody', hstore'⟩ := resolve_eq_ok.mp h'
    obtain rfl : named = named' := ok.inj (hnamed.symm.trans hnamed')
    by_contra hnot
    rw [not_or, not_or, not_not, not_not] at hnot
    obtain ⟨hgetid, hlookup, hdefault⟩ := hnot
    obtain rfl : named = none :=
      ok.inj (hnamed.symm.trans (requestIdentity_eq_none.mpr hgetid))
    have hsame : body = body' := hcodec c.forecastId c.actorId
      (hsha.symm.trans (findResolution_of_store hstore').2.2.1)
    have hobserved := resolutionBody_observed hbody hlookup
    have hobserved' := resolutionBody_observed hbody' hlookup
    exact hdefault (hobserved'.symm.trans ((congrArg _ hsame.symm).trans hobserved))
  · intro hwhen
    have hforecast' : getForecast codec c.tenantId c.forecastId s₂ = .ok forecast := by
      rw [getForecast_eq_ok] at hforecast ⊢
      exact ⟨hg.forecast _ _ hforecast.1, hforecast.2⟩
    have hfind' := hg₁.resolution _ _ hfind
    have hagain : resolutionBody codec.decimal forecast.payload c.resolution
        ((s₂.findResolution c.tenantId named).map (·.payload)) clock' = .ok body := by
      refine resolutionBody_again hbody hle fun hlookup => ?_
      cases named with
      | none =>
        rw [resolutionBody_observed hbody hlookup]
        have hgetid := requestIdentity_eq_none.mp hnamed
        exact (hwhen.resolve_left (not_not.mpr hgetid)).resolve_left (not_not.mpr hlookup)
      | some id =>
        -- the row of the id has the observation time of the first call
        rw [show s₂.findResolution c.tenantId (some id) = some row from hfind']
        rcases storeResolution_eq_ok.mp hstore with ⟨hold, _⟩ | ⟨_, rfl, _⟩
        · rw [resolutionBody_observed hbody hlookup,
            show s.findResolution c.tenantId (some id) = some row from hold]
          rfl
        · rfl
    refine resolve_eq_ok.mpr ⟨hpermitted, forecast, hforecast', named, hnamed, body, hagain, ?_⟩
    exact storeResolution_eq_ok.mpr (Or.inl ⟨hfind', hverified, hsha, hid, rfl⟩)

/-! ## What the scorecard reads -/

def Recorded (s : Forecasts D) (tenant : String) (f : ForecastRecord) : Prop :=
  ∃ r ∈ s.forecastRecords.rows, r.tenantId = tenant ∧ r.payload = f

/-- The forecasts of a tenant, in the order in which they are scored. -/
def recorded (s : Forecasts D) (tenant : String) : List ForecastRecord :=
  (s.forecastsOf tenant).map (·.payload)

omit [DecidableEq D] in
theorem mem_recorded : f ∈ s.recorded tenant ↔ s.Recorded tenant f := by
  simp only [recorded, forecastsOf, mem_map, mem_orderBy, mem_filter, decide_eq_true_eq, and_assoc]
  rfl

omit [DecidableEq D] in
theorem Sound.pairwise_recorded (h : Sound codec s) (tenant : String) :
    (s.recorded tenant).Pairwise fun f g => f.rank < g.rank := by
  have hrows : ((s.forecastRecords.rows.filter fun r => r.tenantId = tenant).map
      fun r => toLex (r.decisionNs, r.forecastId)).Nodup := by
    have hkeys := s.forecastRecords.nodup.sublist
      ((filter_sublist (p := fun r => r.tenantId = tenant)).map ForecastRow.key)
    refine pairwise_map.mpr ((pairwise_map.mp hkeys).imp_of_mem ?_)
    intro r r' hr hr' hne heq
    have htenant : r.tenantId = tenant := of_decide_eq_true (mem_filter.mp hr).2
    have htenant' : r'.tenantId = tenant := of_decide_eq_true (mem_filter.mp hr').2
    exact hne (Prod.ext (htenant.trans htenant'.symm) (congrArg (fun x => (ofLex x).2) heq))
  refine pairwise_map.mpr ((pairwise_lt_orderBy _ hrows).imp_of_mem ?_)
  intro r r' hr hr' hlt
  have hr := h.forecast r (mem_filter.mp (mem_orderBy.mp hr)).1
  have hr' := h.forecast r' (mem_filter.mp (mem_orderBy.mp hr')).1
  rw [hr.1, hr.2.1, hr'.1, hr'.2.1] at hlt
  exact hlt

def IsLatest (s : Forecasts D) (tenant forecastId : String) (r : ResolutionRow D) : Prop :=
  r ∈ s.resolutionsOf tenant forecastId ∧
    ∀ r' ∈ s.resolutionsOf tenant forecastId, r'.revision ≤ r.revision

omit [DecidableEq D] in
theorem Sound.pairwise_resolutionsOf (h : Sound codec s) (tenant id : String) :
    (s.resolutionsOf tenant id).Pairwise fun r r' => r.revision < r'.revision := by
  refine pairwise_map.mp ?_
  rw [h.revisions tenant id]
  exact pairwise_lt_range'

omit [DecidableEq D] in
/-- What `score` takes for the latest resolution of a forecast is the latest one. -/
theorem Sound.latest_eq_some_iff (h : Sound codec s) {r : ResolutionRow D} :
    latest (s.resolutionsByRevision tenant) id = some r ↔ s.IsLatest tenant id r := by
  have hselect : (s.resolutionEvents.rows.filter fun r => r.tenantId = tenant).filter
      (fun r => r.forecastId = id) = s.resolutionsOf tenant id := by
    rw [filter_filter]
    unfold resolutionsOf
    simp only [Bool.decide_and, Bool.and_comm]
  have hold := h.pairwise_resolutionsOf tenant id
  have hsame : (s.resolutionsByRevision tenant).filter (fun r => r.forecastId = id)
      = s.resolutionsOf tenant id := by
    rw [← hselect] at hold ⊢
    exact filter_orderBy_of_pairwise _ hold
  unfold latest
  rw [hsame, getLast?_eq_some_iff_of_pairwise _ hold]
  rfl

/-- **What is scored of a forecast** and its resolution: nothing, unless it was
resolved to one of the two outcomes, with evidence and under its own rules. -/
def observation (codec : ForecastCodec D F R C) (forecast : ForecastRecord)
    (body : ResolutionBody) : Option (ResolvedForecast D F) :=
  if h : body.status = .resolved ∧ ¬ body.NonBinary ∧ body.verified = true ∧
      body.rulesHash = forecast.rulesHash then
    some {
      marketId := codec.cohortHash forecast.cohort
      prediction := codec.float forecast.probability
      marketProbability := forecast.marketMid.map fun mid => codec.float mid
      outcome := body.outcome.getD 0
      predictedAt := codec.seconds forecast.decisionAtNs
      resolvedAt := codec.seconds (body.resolvedAtNs.get (body.settled h.1)) }
  else none

/-- What is scored of a forecast, with its cluster, given all resolutions. -/
def scoredRow (codec : ForecastCodec D F R C) (resolutions : List (ResolutionRow D))
    (forecast : ForecastRecord) : Option (ResolvedForecast D F × String) :=
  ((latest resolutions forecast.forecastId).bind fun r => observation codec forecast r.payload).map
    fun row => (row, forecast.eventClusterId)

theorem selectForecast_snd (codec : ForecastCodec D F R C) (resolutions : List (ResolutionRow D))
    (acc : ForecastCounts × List (Selected D)) (f : ForecastRecord) :
    (selectForecast codec resolutions acc f).2
      = if codec.cohortHash f.cohort ∈ acc.2.map (·.key) then acc.2
        else acc.2 ++ [selected codec resolutions f] := by
  show (if codec.cohortHash f.cohort ∈ acc.2.map (·.key) then _ else _ : ForecastCounts × _).2 = _
  split_ifs
  · rfl
  · rfl

theorem select_eq (codec : ForecastCodec D F R C) (resolutions : List (ResolutionRow D))
    (l : List ForecastRecord) (counts : ForecastCounts) :
    (l.foldl (selectForecast codec resolutions) (counts, [])).2
      = (l.firsts fun f => codec.cohortHash f.cohort).map (selected codec resolutions) := by
  induction l using List.reverseRecOn with
  | nil => rfl
  | append_singleton l f ih =>
    have hkeys : ((l.firsts fun f => codec.cohortHash f.cohort).map
        (selected codec resolutions)).map (·.key)
          = (l.firsts fun f => codec.cohortHash f.cohort).map
            fun f => codec.cohortHash f.cohort := by
      rw [map_map]
      rfl
    rw [foldl_append, foldl_cons, foldl_nil, selectForecast_snd, ih, hkeys,
      firsts_concat, List.addFirst, apply_ite (List.map _), map_append,
      map_singleton]

omit [DecidableEq D] in
theorem scoreCohort_selected (codec : ForecastCodec D F R C) (resolutions : List (ResolutionRow D))
    (acc : Observations D F) (f : ForecastRecord) :
    (scoreCohort codec acc (selected codec resolutions f)).rows
        = acc.rows ++ ((scoredRow codec resolutions f).map Prod.fst).toList ∧
      (scoreCohort codec acc (selected codec resolutions f)).clusters
        = acc.clusters ++ ((scoredRow codec resolutions f).map Prod.snd).toList := by
  unfold scoreCohort scoredRow
  cases hlatest : latest resolutions f.forecastId with
  | none => simp [selected, hlatest]
  | some r =>
    have hbody : (selected codec resolutions f).body = some r.payload := by
      simp [selected, hlatest]
    simp only [hbody, Option.bind_some]
    unfold observation
    by_cases hresolved : r.payload.status = .resolved
    · by_cases hbinary : r.payload.NonBinary
      · simp [hbinary]
      · by_cases hevidence : r.payload.verified = false ∨ r.payload.rulesHash ≠ f.rulesHash
        · have hno : ¬ (r.payload.verified = true ∧ r.payload.rulesHash = f.rulesHash) := by
            rintro ⟨hverified, hrules⟩
            exact hevidence.elim (fun h => absurd (h.symm.trans hverified) nofun) fun h => h hrules
          simp [hresolved, hbinary, hno, selected, hevidence]
        · have hyes : r.payload.verified = true ∧ r.payload.rulesHash = f.rulesHash := by
            simpa using hevidence
          simp [hresolved, hbinary, hyes, selected]
    · simp [hresolved]

omit [DecidableEq D] in
/-- **What the second loop leaves**: the scored rows and their clusters, in the
order of the cohorts. -/
theorem score_cohorts_eq (codec : ForecastCodec D F R C) (resolutions : List (ResolutionRow D))
    (l : List ForecastRecord) (acc : Observations D F) :
    ((l.map (selected codec resolutions)).foldl (scoreCohort codec) acc).rows
        = acc.rows ++ (l.filterMap (scoredRow codec resolutions)).map Prod.fst ∧
      ((l.map (selected codec resolutions)).foldl (scoreCohort codec) acc).clusters
        = acc.clusters ++ (l.filterMap (scoredRow codec resolutions)).map Prod.snd := by
  induction l generalizing acc with
  | nil => simp
  | cons f l ih =>
    obtain ⟨hrows, hclusters⟩ := scoreCohort_selected codec resolutions acc f
    obtain ⟨ihrows, ihclusters⟩ := ih (scoreCohort codec acc (selected codec resolutions f))
    rw [map_cons, foldl_cons, ihrows, ihclusters, hrows, hclusters]
    cases hrow : scoredRow codec resolutions f <;> simp [hrow]

omit [DecidableEq D] in
/-- The market of a scored row is the digest of the cohort. -/
theorem marketId_of_scoredRow {resolutions : List (ResolutionRow D)}
    {row : ResolvedForecast D F × String} (h : scoredRow codec resolutions f = some row) :
    row.1.marketId = codec.cohortHash f.cohort := by
  obtain ⟨x, hx, rfl⟩ := Option.map_eq_some_iff.mp h
  obtain ⟨r, _, hr⟩ := Option.bind_eq_some_iff.mp hx
  unfold observation at hr
  split_ifs at hr
  rw [← Option.some.inj hr]

theorem nodup_marketId (codec : ForecastCodec D F R C) (resolutions : List (ResolutionRow D))
    (l : List ForecastRecord) : (((((l.firsts fun f => codec.cohortHash f.cohort).filterMap
      (scoredRow codec resolutions)).map Prod.fst)).map (·.marketId)).Nodup := by
  refine (nodup_map_firsts (fun f => codec.cohortHash f.cohort) l).sublist ?_
  generalize l.firsts (fun f => codec.cohortHash f.cohort) = l
  induction l with
  | nil => exact List.Sublist.refl _
  | cons f l ih =>
    rw [filterMap_cons]
    cases hrow : scoredRow codec resolutions f with
    | none => exact ih.cons _
    | some row =>
      rw [map_cons, map_cons, map_cons, marketId_of_scoredRow hrow]
      exact ih.cons_cons _

theorem scoreRows_of_nodup {rows : List (ResolvedForecast D F)}
    (h : (rows.map (·.marketId)).Nodup) :
    scoreRows codec rows = .ok (codec.scoreRows rows) := by
  unfold scoreRows
  rw [raiseIf_bind_of_not fun hnot => hnot.2 h]
  rfl

/-- The forecasts that are scored, or would be: the first of each cohort. -/
def chosen (codec : ForecastCodec D F R C) (s : Forecasts D) (tenant : String) :
    List ForecastRecord :=
  (s.recorded tenant).firsts fun f => codec.cohortHash f.cohort

/-- **A scorecard is always there**, of the first forecast of each cohort. -/
theorem Sound.score_eq (h : Sound codec s) (tenant : String) :
    ∃ card, score codec tenant s = .ok card ∧
      card.cohorts = (chosen codec s tenant).map (selected codec (s.resolutionsByRevision tenant)) ∧
      card.rows = ((chosen codec s tenant).filterMap
        (scoredRow codec (s.resolutionsByRevision tenant))).map Prod.fst ∧
      card.clusters = ((chosen codec s tenant).filterMap
        (scoredRow codec (s.resolutionsByRevision tenant))).map Prod.snd ∧
      card.scores = codec.scoreRows card.rows ∧
      card.comparison = codec.clusterComparison card.rows card.clusters ∧
      card.scoredObservations = card.rows.length ∧
      card.independentEventClusters = card.clusters.dedup.length := by
  have hverified : (s.resolutionsByRevision tenant).forM (verifiedResolution codec) = .ok () := by
    refine forM_eq_ok.mpr fun r hr => ?_
    have hr := (mem_filter.mp (mem_orderBy.mp hr)).1
    exact raiseIf_eq_ok.mpr (not_not.mpr (h.resolution r hr))
  have hselect : (s.forecastsOf tenant).foldlM (selectRow codec (s.resolutionsByRevision tenant))
      (⟨(s.forecastsOf tenant).length, 0, 0, 0, 0, 0, 0⟩, [])
        = .ok ((s.recorded tenant).foldl (selectForecast codec (s.resolutionsByRevision tenant))
          (⟨(s.forecastsOf tenant).length, 0, 0, 0, 0, 0, 0⟩, [])) := by
    unfold recorded
    rw [foldl_map]
    refine foldlM_of_ok fun r hr acc => ?_
    have hr := (mem_filter.mp (mem_orderBy.mp hr)).1
    exact raiseIf_bind_of_not (not_not.mpr (h.forecast r hr).2.2)
  have hcohorts := select_eq codec (s.resolutionsByRevision tenant) (s.recorded tenant)
    ⟨(s.forecastsOf tenant).length, 0, 0, 0, 0, 0, 0⟩
  rcases hfold : (s.recorded tenant).foldl (selectForecast codec (s.resolutionsByRevision tenant))
    (⟨(s.forecastsOf tenant).length, 0, 0, 0, 0, 0, 0⟩, []) with ⟨counts, cohorts⟩
  rw [hfold] at hselect hcohorts
  obtain rfl : cohorts
      = (chosen codec s tenant).map (selected codec (s.resolutionsByRevision tenant)) := hcohorts
  obtain ⟨hrows, hclusters⟩ := score_cohorts_eq codec (s.resolutionsByRevision tenant)
    (chosen codec s tenant) ⟨counts, [], []⟩
  rw [nil_append] at hrows hclusters
  have hnodup := nodup_marketId codec (s.resolutionsByRevision tenant) (s.recorded tenant)
  refine ⟨scorecard codec (s.forecastsOf tenant) (s.resolutionsByRevision tenant) _ _
    (codec.scoreRows (((chosen codec s tenant).map
      (selected codec (s.resolutionsByRevision tenant))).foldl (scoreCohort codec)
        ⟨counts, [], []⟩).rows), ?_, rfl, hrows, hclusters, rfl, rfl, rfl, rfl⟩
  unfold score
  dsimp only
  rw [hverified, ok_bind, hselect, ok_bind]
  dsimp only
  rw [scoreRows_of_nodup (by rw [hrows]; exact hnodup)]
  rfl

/-! ## The scored forecasts -/

/-- **The first of its cohort**: the recorded forecast of smallest decision time and
id. Nothing but the recorded forecasts is asked. -/
def IsEarliest (s : Forecasts D) (tenant : String) (f : ForecastRecord) : Prop :=
  s.Recorded tenant f ∧ ∀ g, s.Recorded tenant g → g.cohort = f.cohort → f.rank ≤ g.rank

/-- The chosen forecasts are the first ones of their cohorts. -/
theorem Sound.mem_chosen (h : Sound codec s) (hcodec : codec.cohortHash.Injective) :
    f ∈ chosen codec s tenant ↔ s.IsEarliest tenant f := by
  unfold chosen
  rw [mem_firsts_iff _ (h.pairwise_recorded tenant), mem_recorded]
  refine and_congr_right fun _ => forall_congr' fun g => ?_
  rw [mem_recorded]
  exact imp_congr_right fun _ => imp_congr_left hcodec.eq_iff

/-- **What is scored**: for the first forecast of a cohort, its latest resolution. -/
theorem Sound.mem_scored (h : Sound codec s) (hcodec : codec.cohortHash.Injective)
    {row : ResolvedForecast D F} {cluster : String} :
    (row, cluster) ∈ (chosen codec s tenant).filterMap
        (scoredRow codec (s.resolutionsByRevision tenant)) ↔
      ∃ f r, s.IsEarliest tenant f ∧ s.IsLatest tenant f.forecastId r ∧
        observation codec f r.payload = some row ∧ f.eventClusterId = cluster := by
  rw [mem_filterMap]
  constructor
  · rintro ⟨f, hf, hrow⟩
    obtain ⟨x, hx, hpair⟩ := Option.map_eq_some_iff.mp hrow
    obtain ⟨rfl, hcluster⟩ := Prod.mk.inj hpair
    obtain ⟨r, hr, hobs⟩ := Option.bind_eq_some_iff.mp hx
    exact ⟨f, r, (h.mem_chosen hcodec).mp hf, h.latest_eq_some_iff.mp hr, hobs, hcluster⟩
  · rintro ⟨f, r, hf, hr, hobs, rfl⟩
    refine ⟨f, (h.mem_chosen hcodec).mpr hf, Option.map_eq_some_iff.mpr ⟨row, ?_, rfl⟩⟩
    exact Option.bind_eq_some_iff.mpr ⟨r, h.latest_eq_some_iff.mpr hr, hobs⟩

/-- **Later forecasts only**: the second repository has the forecasts of the first and
what became of them, and besides only forecasts that come after one of their cohort.
Row numbers, times of insertion and resolutions of the others are free. -/
structure LaterOnly (s s' : Forecasts D) (tenant : String) : Prop where
  kept : ∀ f, s.Recorded tenant f → s'.Recorded tenant f
  later : ∀ f, s'.Recorded tenant f → ¬ s.Recorded tenant f →
    ∃ g, s.Recorded tenant g ∧ g.cohort = f.cohort ∧ g.rank < f.rank
  resolved : ∀ f, s.Recorded tenant f → ∀ body,
    (∃ r, s'.IsLatest tenant f.forecastId r ∧ r.payload = body) ↔
      ∃ r, s.IsLatest tenant f.forecastId r ∧ r.payload = body

/-- **Later forecasts change nothing that is scored.** -/
theorem Sound.scored_eq (h : Sound codec s) (h' : Sound codec s') (hl : LaterOnly s s' tenant) :
    (chosen codec s' tenant).filterMap (scoredRow codec (s'.resolutionsByRevision tenant))
      = (chosen codec s tenant).filterMap (scoredRow codec (s.resolutionsByRevision tenant)) := by
  have hchosen : chosen codec s' tenant = chosen codec s tenant := by
    refine firsts_eq_of_later _ (h.pairwise_recorded tenant) (h'.pairwise_recorded tenant)
      (fun f hf => mem_recorded.mpr (hl.kept f (mem_recorded.mp hf))) fun f hf hnot => ?_
    obtain ⟨g, hg, hcohort, hlt⟩ :=
      hl.later f (mem_recorded.mp hf) fun hrec => hnot (mem_recorded.mpr hrec)
    exact ⟨g, mem_recorded.mpr hg, congrArg _ hcohort, hlt⟩
  rw [hchosen]
  refine filterMap_congr fun f hf => ?_
  have hf := mem_recorded.mp ((firsts_sublist _ _).subset hf)
  have hbody : (latest (s'.resolutionsByRevision tenant) f.forecastId).map (·.payload)
      = (latest (s.resolutionsByRevision tenant) f.forecastId).map (·.payload) := by
    ext body
    simp only [Option.map_eq_some_iff, h.latest_eq_some_iff, h'.latest_eq_some_iff]
    exact hl.resolved f hf body
  have hbind : ∀ rs : List (ResolutionRow D), scoredRow codec rs f
      = (((latest rs f.forecastId).map (·.payload)).bind (observation codec f)).map
        fun row => (row, f.eventClusterId) := by
    intro rs
    rw [Option.bind_map]
    rfl
  rw [hbind, hbind, hbody]

omit [DecidableEq D] in
theorem LaterOnly.refl (s : Forecasts D) (tenant : String) : LaterOnly s s tenant :=
  ⟨fun _ hf => hf, fun _ hf hnot => absurd hf hnot, fun _ _ _ => Iff.rfl⟩

/-- A forecast that is recorded after one of its cohort is a later one. -/
theorem laterOnly_record (h : Forecasting.record codec tenant f now created s = .ok (row, s'))
    (hlater : ∃ g, s.Recorded tenant g ∧ g.cohort = f.cohort ∧ g.rank < f.rank) :
    LaterOnly s s' tenant := by
  obtain ⟨_, _, _, rfl⟩ := record_eq_ok.mp h
  cases hfind : s.forecastRecords.find? (forecastRow codec tenant f created).key with
  | some old =>
    rw [insertOnce_of_find? hfind]
    exact .refl s tenant
  | none =>
    refine ⟨?_, ?_, fun _ _ _ => Iff.rfl⟩
    · rintro g ⟨r, hr, htenant, rfl⟩
      exact ⟨r, (mem_rows_insertOnce hfind).mpr (Or.inl hr), htenant, rfl⟩
    · rintro g ⟨r, hr, htenant, rfl⟩ hnot
      rcases (mem_rows_insertOnce hfind).mp hr with hr | rfl
      · exact absurd ⟨r, hr, htenant, rfl⟩ hnot
      · exact hlater

/-- **The history of a recorded forecast** is always there. -/
theorem Sound.history_eq (h : Sound codec s)
    (hrow : s.forecastRecords.find? (tenant, id) = some row) :
    history codec tenant id s = .ok (s.resolutionsOf tenant id) := by
  have hget : getForecast codec tenant id s = .ok row :=
    getForecast_eq_ok.mpr ⟨hrow, (h.forecast row (mem_of_find? hrow)).2.2⟩
  have hverified : (s.resolutionsOf tenant id).forM (verifiedResolution codec) = .ok () :=
    forM_eq_ok.mpr fun r hr =>
      raiseIf_eq_ok.mpr (not_not.mpr (h.resolution r (mem_filter.mp hr).1))
  unfold history
  rw [hget, ok_bind]
  dsimp only
  rw [orderBy_of_pairwise _ (h.pairwise_resolutionsOf tenant id), hverified]
  rfl

/-- **Forecast scoring**, in every repository that a run can leave. A scorecard is
there; its cohorts are the forecasts that are first of their cohort by decision time
and id, and what it scores is their latest resolution. Any other run whose repository
has besides only later forecasts of the same cohorts gives the same rows, clusters and
statistics; recording one more such forecast is a case. Revisions are contiguous from
one. Recording again returns the row, and so does resolving again – at any later time
and after anything else – exactly if the request names its id or its observation time,
or the clock has stood still. -/
theorem forecast_scoring (codec : ForecastCodec D F R C) (hcohort : codec.cohortHash.Injective)
    (hresolution : ∀ id actor, (codec.resolutionHash id actor).Injective) (ls : List Label)
    (tenant : String) : (∃ card, score codec tenant (after codec ls) = .ok card ∧
      (∀ f, (∃ e ∈ card.cohorts, e.forecast = f) ↔ (after codec ls).IsEarliest tenant f) ∧
      (∀ row cluster, (row, cluster) ∈ card.rows.zip card.clusters ↔
        ∃ f r, (after codec ls).IsEarliest tenant f ∧
          (after codec ls).IsLatest tenant f.forecastId r ∧
          observation codec f r.payload = some row ∧ f.eventClusterId = cluster) ∧
      ∀ ls', LaterOnly (after codec ls) (after codec ls') tenant →
        ∃ card', score codec tenant (after codec ls') = .ok card' ∧ card'.rows = card.rows ∧
          card'.clusters = card.clusters ∧ card'.scores = card.scores ∧
          card'.comparison = card.comparison ∧
          card'.scoredObservations = card.scoredObservations ∧
          card'.independentEventClusters = card.independentEventClusters) ∧
    (∀ f now created row s',
      Forecasting.record codec tenant f now created (after codec ls) = .ok (row, s') →
      (∃ g, (after codec ls).Recorded tenant g ∧ g.cohort = f.cohort ∧ g.rank < f.rank) →
      LaterOnly (after codec ls) s' tenant) ∧
    (∀ id rows, history codec tenant id (after codec ls) = .ok rows →
      rows.map (·.revision) = List.range' 1 rows.length) ∧
    (∀ f, (after codec ls).Recorded tenant f →
      ∃ rows, history codec tenant f.forecastId (after codec ls) = .ok rows) ∧
    (∀ f now created row s',
      Forecasting.record codec tenant f now created (after codec ls) = .ok (row, s') →
      ∀ ls' now' created', now ≤ now' →
        Forecasting.record codec tenant f now' created' (Machine.run (step codec) s' ls')
          = .ok (row, Machine.run (step codec) s' ls')) ∧
    ∀ c clock row s', Forecasting.resolve codec c clock (after codec ls) = .ok (row, s') →
      ∀ ls' clock', clock.Le clock' →
        (Forecasting.resolve codec c clock' (Machine.run (step codec) s' ls')
            = .ok (row, Machine.run (step codec) s' ls') ↔
          c.resolution.get "resolution_id" ≠ .none ∨
            c.resolution.lookup "observed_at_ns" ≠ none ∨ clock'.default = clock.default) := by
  have hsound := sound_after codec ls
  refine ⟨?_, ?_, ?_, ?_, ?_, ?_⟩
  · obtain ⟨card, hcard, hcohorts, hrows, hclusters, hscores, hcomparison, hcount, hind⟩ :=
      hsound.score_eq tenant
    refine ⟨card, hcard, fun f => ?_, fun row cluster => ?_, fun ls' hl => ?_⟩
    · rw [hcohorts, ← hsound.mem_chosen hcohort]
      constructor
      · rintro ⟨e, he, rfl⟩
        obtain ⟨f, hf, rfl⟩ := mem_map.mp he
        exact hf
      · exact fun hf => ⟨_, mem_map_of_mem hf, rfl⟩
    · rw [hrows, hclusters, zip_map', ← hsound.mem_scored hcohort]
      simp
    · obtain ⟨card', hcard', _, hrows', hclusters', hscores', hcomparison', hcount', hind'⟩ :=
        (sound_after codec ls').score_eq tenant
      have hsame := hsound.scored_eq (sound_after codec ls') hl
      have hr : card'.rows = card.rows := by rw [hrows', hrows, hsame]
      have hc : card'.clusters = card.clusters := by rw [hclusters', hclusters, hsame]
      refine ⟨card', hcard', hr, hc, ?_, ?_, ?_, ?_⟩
      · rw [hscores', hscores, hr]
      · rw [hcomparison', hcomparison, hr, hc]
      · rw [hcount', hcount, hr]
      · rw [hind', hind, hc]
  · exact fun f now created row s' h hlater => laterOnly_record h hlater
  · intro id rows h
    unfold history at h
    obtain ⟨row, hrow, _⟩ := of_bind h
    have heq := hsound.history_eq (getForecast_eq_ok.mp hrow).1
    unfold history at heq
    obtain rfl := ok.inj (h.symm.trans heq)
    exact hsound.revisions tenant id
  · rintro f ⟨r, hr, rfl, rfl⟩
    have hfind : (after codec ls).forecastRecords.find? (r.tenantId, r.payload.forecastId)
        = some r := by
      rw [← (hsound.forecast r hr).1]
      exact find?_of_mem hr
    exact ⟨_, hsound.history_eq hfind⟩
  · intro f now created row s' h ls' now' created' hle
    exact record_again h (grows_run codec s' ls') hle
  · intro c clock row s' h ls' clock' hle
    have hgrows := grows_run codec s' ls'
    exact resolve_again_iff hresolution h ((change_resolve h).grows.trans hgrows) hgrows hle

/-! ## A run -/

theorem fits_zero : Fits 0 := by decide +kernel

/-- A probability of zero. -/
def sampleProbability : Probability := ⟨0, fits_zero, le_refl 0, zero_le_one⟩

/-- The digest of a forecast is its id here, that of anything else what it is of. -/
inductive SampleDigest
  | forecast (id : String)
  | cohort (c : Cohort)
  | resolution (id actor : String) (body : ResolutionBody)
  | evidence (forecasts resolutions : ℕ)
deriving DecidableEq

def sampleCodec : ForecastCodec SampleDigest ℚ ℕ ℕ where
  forecastHash f := .forecast f.forecastId
  cohortHash := .cohort
  identityHash id body := id ++ " " ++ toString body.observedAtNs
  resolutionHash := .resolution
  evidenceHash forecasts resolutions := .evidence forecasts.length resolutions.length
  decimal _ := none
  float x := x
  seconds n := n / 1000000000
  scoreRows rows := rows.length
  clusterComparison _ clusters := clusters.dedup.length

/-- A forecast of an event, made at some time. -/
def sampleForecast (id : String) (decisionAtNs : ℤ) (h : decisionAtNs < 100) : ForecastRecord where
  forecastId := id
  eventId := "event"
  eventClusterId := "cluster"
  marketId := "market"
  outcomeId := "yes"
  probability := sampleProbability
  marketBid := none
  marketAsk := none
  marketMid := none
  marketProbabilityMissingReason := some "not_observed"
  decisionAtNs := decisionAtNs
  horizonEndNs := 100
  modelProvider := "provider"
  modelId := "model"
  promptHash := String.ofList (List.replicate 64 'a')
  rulesHash := String.ofList (List.replicate 64 'a')
  predictionMode := .blind
  evidenceHashes := []
  horizon := h
  baseline _ := ⟨_, rfl, by decide⟩
  spread _ h := by cases h
  midpoint _ h := by cases h

/-- A request that names neither its id nor its observation time. -/
def sampleResolution : ResolveCall where
  tenantId := "owner"
  forecastId := "early"
  resolution := [("outcome", .int 1), ("resolved_at_ns", .int 150), ("source", .text "source"),
    ("source_hash", .text (String.ofList (List.replicate 64 'a'))),
    ("rules_hash", .text (String.ofList (List.replicate 64 'a'))), ("verified", .bool true)]
  actorId := "ingestor"
  permissions := .names ["forecast:resolve"]

/-- The clock at a time. -/
def sampleClock (now : ℤ) : ResolutionClock := ⟨now, now, now, now, now⟩

/-- Two forecasts of one cohort, the later one recorded first, and the outcome. -/
def sampleRun : List Label :=
  [.record "owner" (sampleForecast "late" 20 (by decide)) 50 50,
    .record "owner" (sampleForecast "early" 10 (by decide)) 60 60,
    .resolve sampleResolution (sampleClock 200)]

/-- The scorecard of the run has one row, of the earlier forecast. -/
theorem forecast_scoring_sample :
    (score sampleCodec "owner" (after sampleCodec sampleRun)).map (·.scoredObservations) = .ok 1 ∧
      ∃ card, score sampleCodec "owner" (after sampleCodec sampleRun) = .ok card ∧
        ∀ f, (∃ e ∈ card.cohorts, e.forecast = f) ↔
          (after sampleCodec sampleRun).IsEarliest "owner" f := by
  refine ⟨by decide +kernel, ?_⟩
  obtain ⟨⟨card, hcard, hcohorts, _⟩, _⟩ := forecast_scoring sampleCodec
    (fun _ _ h => SampleDigest.cohort.inj h) (fun _ _ _ _ h => (SampleDigest.resolution.inj h).2.2)
    sampleRun "owner"
  exact ⟨card, hcard, hcohorts⟩

/-- **A request repeated as it was** a little later, without an id and without an
observation time: the first call appends revision 1, the second revision 2. -/
theorem resolution_repeats : ((Forecasting.resolve sampleCodec sampleResolution (sampleClock 200)
        (after sampleCodec (sampleRun.take 2))).map fun first =>
      (first.1.revision, (Forecasting.resolve sampleCodec sampleResolution (sampleClock 300)
        first.2).map fun second => second.1.revision)) = .ok (1, .ok 2) := by
  decide +kernel

end Forecasts

end Forecasting

end Qt
