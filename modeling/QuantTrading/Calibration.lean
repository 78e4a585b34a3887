import QuantTrading.Lib.SigDigits
import QuantTrading.SignalArchive

/-!
# Reliability calibration

`btc_backtest.signals.calibration`: from window to window the outcomes that a window lists for a
provider are added to its two counts, and the ratio of these weighs it in a later evaluation.

An update asks that the window starts after the last one and that the outcomes are closed at its
end. Nothing asks whether an outcome was listed before: what is listed twice counts twice. And the
fingerprint sorts the outcomes by a key in which `correct` is missing.

A count is a decimal, and adding to it rounds to 28 digits. The hash of a payload is a parameter.
-/

namespace Qt.Backtest.Calibration

open Except List SigDigits

/-- A count: a decimal that is positive. -/
structure Count where
  coefficient : ℕ
  exponent : ℤ
  pos : 0 < coefficient
deriving DecidableEq

namespace Count

variable (a : Count)

def toDecimal : Decimal := ⟨false, a.coefficient, a.exponent⟩

def value : ℚ := a.coefficient * (10 : ℚ) ^ a.exponent

variable (n : ℕ)

/-- The coefficient of the exact sum. -/
def sum : ℕ := a.coefficient * 10 ^ a.exponent.toNat + n * 10 ^ (-a.exponent).toNat

theorem sum_pos : 0 < a.sum n := Nat.add_pos_left (Nat.mul_pos a.pos (by positivity)) _

/-- The digits of a coefficient beyond 28. -/
def excess (c : ℕ) : ℕ := Nat.log 10 c - 27

/-- A coefficient without `excess` digits. -/
def rounded (c : ℕ) : ℕ := (roundHalfEven (c / 10 ^ excess c)).toNat

theorem rounded_pos {c : ℕ} (hc : 0 < c) : 0 < rounded c := by
  have hpow : 10 ^ excess c ≤ c :=
    (Nat.pow_le_pow_right (by decide) (Nat.sub_le _ _)).trans (Nat.pow_log_le_self 10 hc.ne')
  have hone : (1 : ℚ) ≤ c / 10 ^ excess c := by
    rw [le_div_iff₀ (by positivity), one_mul]
    exact_mod_cast hpow
  have hfloor : 1 ≤ ⌊(c / 10 ^ excess c : ℚ)⌋ := Int.le_floor.mpr (by exact_mod_cast hone)
  exact Int.lt_toNat.mpr (Int.lt_of_lt_of_le Int.one_pos (hfloor.trans (floor_le_roundHalfEven _)))

/-- **`Decimal.__add__`** with a whole number, in the default context. -/
def plus : Count :=
  if rounded (a.sum n) = 10 ^ 28 then
    ⟨10 ^ 27, min a.exponent 0 + excess (a.sum n) + 1, by positivity⟩
  else ⟨rounded (a.sum n), min a.exponent 0 + excess (a.sum n), rounded_pos (a.sum_pos n)⟩

/-- The sum has at most 28 digits. -/
def Fits : Prop := a.sum n < 10 ^ 28

variable {a} {n}

theorem plus_of_fits (h : a.Fits n) : a.plus n = ⟨a.sum n, min a.exponent 0, a.sum_pos n⟩ := by
  have hexcess : excess (a.sum n) = 0 :=
    Nat.sub_eq_zero_of_le (Nat.le_of_lt_succ (Nat.log_lt_of_lt_pow (a.sum_pos n).ne' h))
  have hrounded : rounded (a.sum n) = a.sum n := by
    rw [rounded, hexcess, pow_zero, div_one]
    exact congrArg Int.toNat (roundHalfEven_intCast (a.sum n))
  simp only [plus, hrounded, hexcess, if_neg h.ne, Nat.cast_zero, add_zero]

theorem value_plus (h : a.Fits n) : (a.plus n).value = a.value + n := by
  rw [plus_of_fits h, value, value]
  rcases le_total 0 a.exponent with he | he
  · obtain ⟨e, heq⟩ := Int.eq_ofNat_of_zero_le he
    simp [sum, heq]
  · obtain ⟨e, heq⟩ := Int.eq_ofNat_of_zero_le (neg_nonneg.mpr he)
    have heq : a.exponent = -e := by rw [← heq, neg_neg]
    simp [sum, add_mul, heq]

theorem sum_plus {m : ℕ} (h : a.Fits m) : (a.plus m).sum n = a.sum (m + n) := by
  have hzero : (min a.exponent 0).toNat = 0 := by omega
  have hneg : (-min a.exponent 0).toNat = (-a.exponent).toNat := by omega
  rw [plus_of_fits h]
  simp only [sum, hzero, hneg]
  ring

/-- **Counting is exact**, as long as it fits. -/
theorem value_foldl {ns : List ℕ} (h : a.Fits ns.sum) :
    (ns.foldl plus a).value = a.value + ns.sum := by
  induction ns generalizing a with
  | nil => simp
  | cons n ns ih =>
    rw [List.sum_cons] at h ⊢
    have hle : n * 10 ^ (-a.exponent).toNat ≤ (n + ns.sum) * 10 ^ (-a.exponent).toNat :=
      Nat.mul_le_mul_right _ (Nat.le_add_right _ _)
    have hfirst : a.Fits n := (Nat.add_le_add_left hle _).trans_lt h
    rw [foldl_cons, ih ((sum_plus hfirst).trans_lt h), value_plus hfirst, Nat.cast_add, add_assoc]

end Count

/-! ## Calibration -/

structure ProviderOutcome (T : Type) where
  provider : String
  observationId : String
  horizonClosesAt : T
  correct : Bool
  payloadSha256 : Digest
  identifier : IsIdentifier provider
  id_ne : observationId ≠ ""
deriving DecidableEq

structure CalibrationWindow (T : Type) [LT T] where
  start : T
  stop : T
  outcomes : List (ProviderOutcome T)
  sourceFingerprint : Digest
  start_lt : start < stop

structure ReliabilitySnapshot (T : Type) where
  provider : String
  alpha : Count
  beta : Count
  through : T
  sampleCount : ℕ
  sourceFingerprint : Digest
deriving DecidableEq

def ReliabilitySnapshot.reliability {T : Type} (s : ReliabilitySnapshot T) : ℚ :=
  roundSig 28 (s.alpha.value / roundSig 28 (s.alpha.value + s.beta.value))

/-- What is hashed: the last snapshot with the texts of its counts, the window without its outcomes,
and the outcomes of the provider. -/
structure Payload (T : Type) where
  provider : String
  alpha : String
  beta : String
  through : T
  sampleCount : ℕ
  previousFingerprint : Digest
  start : T
  stop : T
  windowFingerprint : Digest
  outcomes : List (ProviderOutcome T)

/-- `ReliabilityCalibrator`. -/
structure ReliabilityCalibrator where
  alpha0 : Count
  beta0 : Count
  fallbackPrior : ℚ
  fallback_mem : 1 / 10 ≤ fallbackPrior ∧ fallbackPrior ≤ 9 / 10

section Calibrate

variable {T : Type} [LinearOrder T]

/-- The key that outcomes are sorted by. -/
def sortKey (o : ProviderOutcome T) : String ×ₗ String ×ₗ T ×ₗ String :=
  toLex (o.provider, toLex (o.observationId, toLex (o.horizonClosesAt, o.payloadSha256.text)))

variable (hash : Payload T → Digest) (c : ReliabilityCalibrator) (previous : ReliabilitySnapshot T)
  (window : CalibrationWindow T) (outcomes : List (ProviderOutcome T))

/-- `_fingerprint_snapshot`. -/
def fingerprintSnapshot : Digest :=
  hash
    { provider := previous.provider
      alpha := previous.alpha.toDecimal.str
      beta := previous.beta.toDecimal.str
      through := previous.through
      sampleCount := previous.sampleCount
      previousFingerprint := previous.sourceFingerprint
      start := window.start
      stop := window.stop
      windowFingerprint := window.sourceFingerprint
      outcomes := outcomes.orderBy sortKey }

def initialSnapshot (provider : String) (through : T) (sourceFingerprint : Digest) :
    ReliabilitySnapshot T := ⟨provider, c.alpha0, c.beta0, through, 0, sourceFingerprint⟩

/-- The outcomes that a window lists for a provider. -/
def outcomesOf (provider : String) (window : CalibrationWindow T) : List (ProviderOutcome T) :=
  window.outcomes.filter (·.provider = provider)

def wins : ℕ := outcomes.countP (·.correct)

def losses : ℕ := outcomes.length - wins outcomes

/-- The snapshot after some outcomes. -/
def counted : ReliabilitySnapshot T where
  provider := previous.provider
  alpha := previous.alpha.plus (wins outcomes)
  beta := previous.beta.plus (losses outcomes)
  through := window.stop
  sampleCount := previous.sampleCount + outcomes.length
  sourceFingerprint := fingerprintSnapshot hash previous window outcomes

/-- **`update`.** -/
def update : Except String (ReliabilitySnapshot T) :=
  if window.start ≤ previous.through then
    .error "calibration snapshot must be completed before window start"
  else if ∃ o ∈ outcomesOf previous.provider window, window.stop < o.horizonClosesAt then
    .error "calibration outcome horizon closes after completed window"
  else .ok (counted hash previous window (outcomesOf previous.provider window))

/-- A chain of updates. -/
def updates (s : ReliabilitySnapshot T) (windows : List (CalibrationWindow T)) :
    Except String (ReliabilitySnapshot T) :=
  windows.foldlM (update hash) s

/-- **`weights_for`**: what was set last for a provider is found first. -/
def weightsFor (snapshots : List (ReliabilitySnapshot T)) (windowStart : T)
    (providers : List String) : Except String (List (String × ℚ)) :=
  if ∃ s ∈ snapshots, windowStart ≤ s.through then
    .error "calibration snapshot must be completed before evaluation window start"
  else
    .ok ((snapshots.map fun s => (s.provider, s.reliability)).reverse ++
      providers.map (·, c.fallbackPrior))

/-- A window with the same outcomes in another order. -/
structure Reordered (w w' : CalibrationWindow T) : Prop where
  start : w'.start = w.start
  stop : w'.stop = w.stop
  fingerprint : w'.sourceFingerprint = w.sourceFingerprint
  outcomes : w'.outcomes ~ w.outcomes

/-- The key tells the outcomes of a window apart. -/
def KeysTell (w : CalibrationWindow T) : Prop :=
  ∀ o ∈ w.outcomes, ∀ o' ∈ w.outcomes, sortKey o = sortKey o' → o = o'

variable {hash c} {previous} {s : ReliabilitySnapshot T} {w w' : CalibrationWindow T}
  {ws ws' : List (CalibrationWindow T)}

theorem update_eq_ok (h : update hash previous w = .ok s) :
    previous.through < w.start ∧
      (∀ o ∈ outcomesOf previous.provider w, o.horizonClosesAt ≤ w.stop) ∧
      s = counted hash previous w (outcomesOf previous.provider w) := by
  unfold update at h
  split_ifs at h with hstart hopen
  refine ⟨not_le.mp hstart, fun o ho => not_lt.mp fun hlt => hopen ⟨o, ho, hlt⟩, ?_⟩
  exact (ok.inj h).symm

/-- **What a chain of updates counts**: every outcome as often as the windows list it. -/
structure Counts (previous : ReliabilitySnapshot T) (ws : List (CalibrationWindow T))
    (s : ReliabilitySnapshot T) : Prop where
  alpha : s.alpha =
    (ws.map fun w => wins (outcomesOf previous.provider w)).foldl Count.plus previous.alpha
  beta : s.beta =
    (ws.map fun w => losses (outcomesOf previous.provider w)).foldl Count.plus previous.beta
  sampleCount : s.sampleCount =
    previous.sampleCount + (ws.map fun w => (outcomesOf previous.provider w).length).sum
  le_through : previous.through ≤ s.through
  closed : ∀ w ∈ ws, ∀ o ∈ outcomesOf previous.provider w, o.horizonClosesAt ≤ s.through

theorem counts_of_updates (h : updates hash previous ws = .ok s) : Counts previous ws s := by
  induction ws generalizing previous with
  | nil =>
    cases h
    exact ⟨rfl, rfl, rfl, le_rfl, fun _ hw => absurd hw not_mem_nil⟩
  | cons w ws ih =>
    obtain ⟨next, hupdate, h⟩ := of_bind (foldlM_cons.symm.trans h)
    obtain ⟨hstart, hclosed, rfl⟩ := update_eq_ok hupdate
    have hrest := ih h
    refine ⟨hrest.alpha, hrest.beta, hrest.sampleCount.trans (Nat.add_assoc _ _ _),
      hstart.le.trans (w.start_lt.le.trans hrest.le_through), ?_⟩
    rintro v hv o ho
    rcases mem_cons.mp hv with rfl | hv
    · exact (hclosed o ho).trans hrest.le_through
    · exact hrest.closed v hv o ho

/-- **The order of the outcomes does not matter** where the key tells them apart. -/
theorem update_of_reordered (h : Reordered w w') (hkeys : KeysTell w) :
    update hash previous w' = update hash previous w := by
  have hperm : outcomesOf previous.provider w' ~ outcomesOf previous.provider w :=
    h.outcomes.filter _
  have hwins : wins (outcomesOf previous.provider w') = wins (outcomesOf previous.provider w) :=
    hperm.countP_eq _
  have horder : (outcomesOf previous.provider w').orderBy sortKey =
      (outcomesOf previous.provider w).orderBy sortKey := by
    refine Perm.eq_of_pairwise (fun o o' ho ho' hle hge => ?_) (pairwise_orderBy _ _)
      (pairwise_orderBy _ _)
      ((orderBy_perm _ _).trans (hperm.trans (orderBy_perm _ _).symm))
    have hmem := h.outcomes.mem_iff.mp (mem_filter.mp (mem_orderBy.mp ho)).1
    exact hkeys o hmem o' (mem_filter.mp (mem_orderBy.mp ho')).1 (le_antisymm hle hge)
  have hcounted : counted hash previous w' (outcomesOf previous.provider w') =
      counted hash previous w (outcomesOf previous.provider w) := by
    simp only [counted, losses, fingerprintSnapshot, hwins, hperm.length_eq, horder, h.start,
      h.stop, h.fingerprint]
  simp only [update, hcounted, h.start, h.stop, hperm.mem_iff]

theorem updates_of_reordered (h : Forall₂ Reordered ws ws') (hkeys : ∀ w ∈ ws, KeysTell w) :
    updates hash previous ws' = updates hash previous ws := by
  induction h generalizing previous with
  | nil => rfl
  | cons hw _ ih =>
    show (update hash previous _ >>= fun s => updates hash s _) =
      (update hash previous _ >>= fun s => updates hash s _)
    rw [update_of_reordered hw (hkeys _ mem_cons_self)]
    exact congrArg _ (funext fun s => ih fun w hw => hkeys w (mem_cons_of_mem _ hw))

/-- **Reliability calibration.** From an initial snapshot every outcome of the provider is counted
as often as the windows list it, exactly as long as the sums have at most 28 digits; the order in a
window does not matter where the key tells its outcomes apart; and weights use no outcome that
closes at the start of the evaluation or after it. -/
theorem calibration_counts (hash : Payload T → Digest) (c : ReliabilityCalibrator)
    (provider : String) (through : T) (sourceFingerprint : Digest) (ws : List (CalibrationWindow T))
    (s : ReliabilitySnapshot T)
    (h : updates hash (initialSnapshot c provider through sourceFingerprint) ws = .ok s) :
    Counts (initialSnapshot c provider through sourceFingerprint) ws s ∧
      (c.alpha0.Fits (ws.map fun w => wins (outcomesOf provider w)).sum →
        s.alpha.value - c.alpha0.value = (ws.map fun w => wins (outcomesOf provider w)).sum) ∧
      (c.beta0.Fits (ws.map fun w => losses (outcomesOf provider w)).sum →
        s.beta.value - c.beta0.value = (ws.map fun w => losses (outcomesOf provider w)).sum) ∧
      (∀ ws', Forall₂ Reordered ws ws' → (∀ w ∈ ws, KeysTell w) →
        updates hash (initialSnapshot c provider through sourceFingerprint) ws' = .ok s) ∧
      ∀ (c' : ReliabilityCalibrator) snapshots windowStart providers weights,
        weightsFor c' snapshots windowStart providers = .ok weights → s ∈ snapshots →
          ∀ w ∈ ws, ∀ o ∈ outcomesOf provider w, o.horizonClosesAt < windowStart := by
  have hcounts := counts_of_updates h
  refine ⟨hcounts, fun hfits => ?_, fun hfits => ?_, fun ws' hreordered hkeys => ?_, ?_⟩
  · rw [hcounts.alpha]
    exact sub_eq_of_eq_add' (Count.value_foldl hfits)
  · rw [hcounts.beta]
    exact sub_eq_of_eq_add' (Count.value_foldl hfits)
  · rw [updates_of_reordered hreordered hkeys, h]
  · intro c' snapshots windowStart providers weights hweights hs w hw o ho
    unfold weightsFor at hweights
    split_ifs at hweights with hlate
    have hthrough := not_le.mp fun hle => hlate ⟨s, hs, hle⟩
    exact (hcounts.closed w hw o ho).trans_lt hthrough

end Calibrate

namespace Sample

def digest : Digest := ⟨String.ofList (replicate 64 '0'), by decide⟩

/-- Two and two. -/
def halves : ReliabilityCalibrator := ⟨⟨2, 0, by decide⟩, ⟨2, 0, by decide⟩, 1 / 2, by norm_num⟩

def outcome : ProviderOutcome ℤ := ⟨"oracle", "a", 1, true, digest, by decide, by decide⟩

/-- A window that lists an outcome `n` times. -/
def listing (n : ℕ) : CalibrationWindow ℤ := ⟨1, 2, replicate n outcome, digest, by decide⟩

def after (n : ℕ) : ReliabilitySnapshot ℤ :=
  counted (fun _ => digest) (initialSnapshot halves "oracle" 0 digest) (listing n)
    (outcomesOf "oracle" (listing n))

end Sample

theorem calibration_counts_once :
    Counts (initialSnapshot Sample.halves "oracle" 0 Sample.digest) [Sample.listing 1]
      (Sample.after 1) :=
  (calibration_counts (fun _ => Sample.digest) Sample.halves "oracle" 0 Sample.digest
    [Sample.listing 1] (Sample.after 1) (by decide +kernel)).1

/-- **An outcome that is listed twice is counted twice.** -/
theorem outcome_counted_twice : ¬ ∀ (hash : Payload ℤ → Digest) c provider through fingerprint ws s,
    updates hash (initialSnapshot c provider through fingerprint) ws = .ok s →
      s.sampleCount = ((ws.flatMap (outcomesOf provider)).map
        fun o => (o.provider, o.observationId)).dedup.length := by
  intro h
  have hcount := h (fun _ => Sample.digest) Sample.halves "oracle" 0 Sample.digest
    [Sample.listing 2] (Sample.after 2) (by decide +kernel)
  exact absurd hcount (by decide +kernel)

end Qt.Backtest.Calibration
