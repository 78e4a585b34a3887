import QuantTrading.Lib.SigDigits

/-!
# The contracts of the execution path

Every value that crosses a boundary of the trading system is one of the
frozen contracts of `qt.contracts`. They validate at construction, so a
contract that exists is valid: here its validators are fields of the
structure, and the decimal types carry theirs.

A `Decimal` is the rational it denotes. Money columns and contract fields
are `NUMERIC(38,18)`: a multiple of `10 ^ -18` below `10 ^ 20` (`Fits`).
Arithmetic runs in a context of 80 digits. Sums and differences of money
stay far below 80 digits and are exact; products and quotients are rounded
(`ctxMul`, `ctxDiv`).

A digest is the text of a SHA-256 hash of canonical JSON. What is hashed is
a `Content`, and the hash is a parameter of the model.
-/

namespace Qt

open SigDigits

/-! ## Decimals -/

/-- The precision of every money computation. -/
def precision : ℕ := 80

/-- A product in the 80-digit context. -/
def ctxMul (x y : ℚ) : ℚ := roundSig precision (x * y)

/-- A quotient in the 80-digit context. -/
def ctxDiv (x y : ℚ) : ℚ := roundSig precision (x / y)

/-- A sum in the 80-digit context. It is written out where the terms are
products, and so may have more digits than money has. -/
def ctxAdd (x y : ℚ) : ℚ := roundSig precision (x + y)

/-- `sum`, in the 80-digit context. -/
def ctxSum (xs : List ℚ) : ℚ := xs.foldl ctxAdd 0

/-- The remainder of `Decimal`, with the sign of the dividend. -/
def decimalMod (x y : ℚ) : ℚ := x - y * (Int.sign (x / y).num * ⌊|x / y|⌋ : ℤ)

/-- **A value of `NUMERIC(38,18)`**, exactly. -/
def Fits (x : ℚ) : Prop := OnGrid 18 x ∧ |x| < 10 ^ 20
deriving Decidable

variable {x y : ℚ}

theorem ctxMul_nonneg (hx : 0 ≤ x) (hy : 0 ≤ y) : 0 ≤ ctxMul x y :=
  roundSig_nonneg _ (mul_nonneg hx hy)

@[simp] theorem ctxMul_zero_left (y : ℚ) : ctxMul 0 y = 0 := by
  unfold ctxMul
  rw [zero_mul, roundSig_zero]

@[simp] theorem ctxMul_zero_right (x : ℚ) : ctxMul x 0 = 0 := by
  unfold ctxMul
  rw [mul_zero, roundSig_zero]

theorem Fits.roundSig_eq (h : Fits x) : roundSig precision x = x := by
  refine h.1.roundSig_eq (h.2.trans_le ?_)
  norm_num [precision]

/-- A grid point between nothing and a value of money is a value of money. -/
theorem Fits.of_le (hgrid : OnGrid 18 x) (hx : 0 ≤ x) (hxy : x ≤ y) (hy : Fits y) : Fits x := by
  refine ⟨hgrid, ?_⟩
  rw [abs_of_nonneg hx]
  exact (hxy.trans (le_abs_self y)).trans_lt hy.2

theorem Fits.neg (h : Fits x) : Fits (-x) := ⟨h.1.neg, by rw [abs_neg]; exact h.2⟩

theorem Fits.ctxMul_eq (hx : Fits x) (hy : Fits y) : ctxMul x y = x * y := by
  refine (hx.1.mul hy.1).roundSig_eq ?_
  rw [abs_mul]
  calc |x| * |y| ≤ 10 ^ 20 * 10 ^ 20 :=
        mul_le_mul hx.2.le hy.2.le (abs_nonneg y) (by norm_num)
    _ < 10 ^ precision / 10 ^ (18 + 18) := by norm_num [precision]

/-- The sum of a value of money and a product of two is exact. -/
theorem Fits.ctxAdd_mul_eq {z : ℚ} (hx : Fits x) (hy : Fits y) (hz : Fits z) :
    ctxAdd x (y * z) = x + y * z := by
  have hgrid : OnGrid (18 + 18) x := by
    rw [show x = x * 1 from (mul_one x).symm]
    exact hx.1.mul (by decide +kernel)
  refine (hgrid.add (hy.1.mul hz.1)).roundSig_eq ((abs_add_le x (y * z)).trans_lt ?_)
  rw [abs_mul]
  have hprod : |y| * |z| ≤ 10 ^ 20 * 10 ^ 20 :=
    mul_le_mul hy.2.le hz.2.le (abs_nonneg z) (by norm_num)
  calc |x| + |y| * |z| ≤ 10 ^ 20 + 10 ^ 20 * 10 ^ 20 := add_le_add hx.2.le hprod
    _ < 10 ^ precision / 10 ^ (18 + 18) := by norm_num [precision]

/-- `DecimalString`: a financial value. -/
structure DecimalString where
  val : ℚ
  fits : Fits val
deriving DecidableEq

structure PositiveDecimal where
  val : ℚ
  fits : Fits val
  pos : 0 < val
deriving DecidableEq

structure NonNegativeDecimal where
  val : ℚ
  fits : Fits val
  nonneg : 0 ≤ val
deriving DecidableEq

/-- `Probability`: a fraction of one. -/
structure Probability where
  val : ℚ
  fits : Fits val
  nonneg : 0 ≤ val
  le_one : val ≤ 1
deriving DecidableEq

instance : Coe DecimalString ℚ := ⟨DecimalString.val⟩
instance : Coe PositiveDecimal ℚ := ⟨PositiveDecimal.val⟩
instance : Coe NonNegativeDecimal ℚ := ⟨NonNegativeDecimal.val⟩
instance : Coe Probability ℚ := ⟨Probability.val⟩

/-! ## Literals -/

inductive Side | buy | sell
deriving DecidableEq, Repr

inductive TimeInForce | gtc | ioc | fok | gtd
deriving DecidableEq, Repr

inductive FeeBasis | notional | shares | priceCurve
deriving DecidableEq, Repr

inductive InstrumentType | spot | perpetual | future | prediction
deriving DecidableEq, Repr

inductive DeploymentMode | paper | shadow | liveCanary
deriving DecidableEq, Repr

inductive RiskMode | active | reduceOnly | halted | emergencyExit
deriving DecidableEq, Repr

inductive OrderStatus
  | created | reserved | submitting | acknowledged | partiallyFilled | filled
  | rejected | cancelPending | canceled | expired | unknown
deriving DecidableEq, Repr

inductive SettlementStatus | notRequired | pending | confirmed | failed | reorged
deriving DecidableEq, Repr

def OrderStatus.terminal : OrderStatus → Bool
  | .filled | .rejected | .canceled | .expired => true
  | _ => false

def OrderStatus.uncertain : OrderStatus → Bool
  | .submitting | .unknown | .cancelPending => true
  | _ => false

/-- The settlement of the order is not, or no longer, open. -/
def SettlementStatus.resolved : SettlementStatus → Bool
  | .notRequired | .confirmed => true
  | _ => false

/-! ## Contracts -/

/-- A digest, as the text the columns hold. -/
abbrev Sha256 := String

/-- A JSON object that is carried and hashed but not read, key by key. -/
abbrev FrozenDict := List (String × String)

structure InstrumentSpec where
  venue : String
  instrument : String
  baseAsset : String
  quoteAsset : String
  settlementAsset : String
  priceIncrement : PositiveDecimal
  quantityIncrement : PositiveDecimal
  minimumQuantity : PositiveDecimal
  minimumNotional : NonNegativeDecimal
  contractMultiplier : PositiveDecimal
  instrumentType : InstrumentType
  tradingSessions : List String
  effectiveFromNs : ℕ
  effectiveToNs : Option ℕ
  nativeIdentifiers : FrozenDict
  source : String
  valid_interval : ∀ t ∈ effectiveToNs, effectiveFromNs < t
deriving DecidableEq

structure FeeSchedule where
  venue : String
  accountTier : String
  makerRate : DecimalString
  takerRate : DecimalString
  feeBasis : FeeBasis
  feeAsset : String
  fundingRules : FrozenDict
  feeRules : FrozenDict
  effectiveFromNs : ℕ
  effectiveToNs : Option ℕ
  source : String
  sourceHash : Sha256
  valid_interval : ∀ t ∈ effectiveToNs, effectiveFromNs < t
deriving DecidableEq

structure RiskBudget where
  capital : PositiveDecimal
  currency : String
  maximumPositionFraction : Probability
  maximumOrderFraction : Probability
  plannedLossFraction : Probability
  maximumDrawdownFraction : Probability
  maximumDailyLossFraction : Probability
  maximumLeverage : PositiveDecimal
deriving DecidableEq

structure DeploymentManifest where
  deploymentId : String
  strategyHash : Sha256
  provider : String
  modelId : String
  promptHash : Sha256
  toolsHash : Sha256
  riskPolicyHash : Sha256
  feeScheduleHashes : List Sha256
  validationReportHash : Sha256
  venue : String
  accountId : String
  mode : DeploymentMode
  riskBudget : RiskBudget
  validFromNs : ℕ
  validUntilNs : ℕ
  signature : String
  valid_interval : validFromNs < validUntilNs
deriving DecidableEq

structure OrderIntent where
  intentId : String
  accountId : String
  deploymentId : String
  signalId : String
  legNo : ℕ
  venue : String
  instrument : String
  side : Side
  quantity : PositiveDecimal
  limitPrice : PositiveDecimal
  timeInForce : TimeInForce
  strategyHash : Sha256
  policyHash : Sha256
  feeScheduleHash : Sha256
  instrumentSpecHash : Sha256
  riskReservationId : String
  createdAtNs : ℕ
  validUntilNs : ℕ
  reduceOnly : Bool
  valid_interval : createdAtNs < validUntilNs
deriving DecidableEq

structure OrderIdentity where
  venue : String
  accountId : String
  intentId : String
  venueOrderId : Option String
deriving DecidableEq

inductive SubmitStatus | accepted | rejected | unknown
deriving DecidableEq, Repr

structure SubmitResult where
  status : SubmitStatus
  identity : OrderIdentity
deriving DecidableEq

inductive CancelStatus | confirmed | rejected | unknown
deriving DecidableEq, Repr

structure CancelResult where
  status : CancelStatus
  identity : OrderIdentity
deriving DecidableEq

structure OrderSnapshot where
  identity : OrderIdentity
  status : OrderStatus
  settlementStatus : SettlementStatus
  quantity : PositiveDecimal
  filledQuantity : NonNegativeDecimal
  asofNs : ℕ
  /-- `bounded_fill`. -/
  filled_le : filledQuantity.val ≤ quantity.val
  filled_complete : status = .filled → filledQuantity.val = quantity.val
  incomplete_of_partiallyFilled : status = .partiallyFilled →
    0 < filledQuantity.val ∧ filledQuantity.val < quantity.val

structure ExecutableMarketSnapshot where
  venue : String
  instrument : String
  bid : PositiveDecimal
  ask : PositiveDecimal
  asofNs : ℕ
  bookValid : Bool
  instrumentSpecHash : Sha256
  feeScheduleHash : Sha256
  valid_spread : bid.val < ask.val
deriving DecidableEq

/-- The immutable content of an order row: the intent and the specifications
it was reserved under. -/
structure Envelope where
  intent : OrderIntent
  instrument : InstrumentSpec
  fees : FeeSchedule
  deployment : DeploymentManifest
deriving DecidableEq

/-- The economic content of a fill, over which its digest is taken. The
settlement status is not part of it. -/
structure FillPayload where
  intentId : String
  quantity : ℚ
  price : ℚ
  fee : ℚ
  feeAsset : String
  baseAsset : String
  quoteAsset : String
  cashNotional : ℚ
deriving DecidableEq

/-! ## Digests -/

/-- What the execution path takes digests of. -/
inductive Content
  | instrument (spec : InstrumentSpec)
  | fees (schedule : FeeSchedule)
  | deployment (manifest : DeploymentManifest)
  | envelope (payload : Envelope)
  | fill (payload : FillPayload)
  | fillKey (venue accountId venueTradeId : String)
  | ledgerKey (accountId kind sourceId : String)

/-- **The functions outside the repository** that the code calls: the digest
of canonical JSON, and the HMAC of an unsigned manifest under a key. -/
structure Env where
  contentHash : Content → Sha256
  manifestHmac : List UInt8 → DeploymentManifest → String

end Qt
