import Mathlib.Data.Int.Log
import Mathlib.Data.Rat.Floor
import Mathlib.Tactic.Positivity

/-!
# Decimal arithmetic to a number of significant digits

A decimal floating-point context rounds the exact result of every
operation to `p` significant digits, half to even. The exact result is a
rational, and so is the rounded one, so the arithmetic of such a context
is the rational arithmetic followed by one function, `roundSig p`.

Two facts carry most uses. A result that already has at most `p` digits is
not changed (`roundSig_eq_self`), and rounding is monotone
(`roundSig_mono`), so whatever was ordered before the rounding still is.

Quantizing to `d` decimal places is the other rounding of such a library.
It is directed, up (`ceilTo`) or down (`floorTo`), and its fixed points are
the multiples of `10 ^ -d`, the *grid* `OnGrid d`.
-/

namespace SigDigits

open Int

/-! ## Half to even -/

/-- The nearest integer, and the even one of two equally near. -/
def roundHalfEven (x : ℚ) : ℤ :=
  if x - ⌊x⌋ < 1 / 2 then ⌊x⌋
  else if 1 / 2 < x - ⌊x⌋ then ⌊x⌋ + 1
  else ⌊x⌋ + ⌊x⌋ % 2

/-- An integer is its own rounding. -/
@[simp] theorem roundHalfEven_intCast (n : ℤ) : roundHalfEven (n : ℚ) = n := by
  simp [roundHalfEven]

/-- The rounding is one of the two neighbouring integers. -/
theorem floor_le_roundHalfEven (x : ℚ) : ⌊x⌋ ≤ roundHalfEven x := by
  unfold roundHalfEven
  have := emod_nonneg ⌊x⌋ (by decide : (2 : ℤ) ≠ 0)
  split_ifs <;> omega

/-- The rounding is one of the two neighbouring integers. -/
theorem roundHalfEven_le_floor_add_one (x : ℚ) : roundHalfEven x ≤ ⌊x⌋ + 1 := by
  unfold roundHalfEven
  have := emod_lt_of_pos ⌊x⌋ (by decide : (0 : ℤ) < 2)
  split_ifs <;> omega

variable {x y : ℚ}

/-- **Rounding half to even is monotone.** Only two points of the same unit
interval need an argument, and there the fractional part decides. -/
theorem roundHalfEven_mono (h : x ≤ y) : roundHalfEven x ≤ roundHalfEven y := by
  rcases lt_or_eq_of_le (floor_le_floor h) with hlt | heq
  · have hx := roundHalfEven_le_floor_add_one x
    have hy := floor_le_roundHalfEven y
    omega
  · unfold roundHalfEven
    rw [heq]
    have h0 := emod_nonneg ⌊y⌋ (by decide : (2 : ℤ) ≠ 0)
    have h1 := emod_lt_of_pos ⌊y⌋ (by decide : (0 : ℤ) < 2)
    split_ifs <;> first | omega | (exfalso; linarith)

/-- A rounding differs from its argument by at most a half. -/
theorem abs_roundHalfEven_sub_le (x : ℚ) : |(roundHalfEven x : ℚ) - x| ≤ 1 / 2 := by
  have hlo := floor_le x
  have hhi := lt_floor_add_one x
  unfold roundHalfEven
  split_ifs with h₁ h₂
  · rw [abs_le]
    constructor <;> linarith
  · push_cast
    rw [abs_le]
    constructor <;> linarith
  · have hhalf : x - ⌊x⌋ = 1 / 2 := le_antisymm (not_lt.mp h₂) (not_lt.mp h₁)
    rcases emod_two_eq ⌊x⌋ with h | h <;> rw [h] <;> push_cast <;> rw [abs_le] <;>
      constructor <;> linarith

/-! ## Significant digits -/

variable (p : ℕ)

/-- The decimal exponent of the last of `p` significant digits of `x`. -/
def ulpExp (x : ℚ) : ℤ := Int.log 10 |x| - p + 1

/-- **Rounding to `p` significant digits**, half to even. -/
def roundSig (x : ℚ) : ℚ :=
  (roundHalfEven (x / (10 : ℚ) ^ ulpExp p x) : ℚ) * (10 : ℚ) ^ ulpExp p x

/-- Powers of ten are positive, in the form the proofs below use. -/
theorem ten_zpow_pos (e : ℤ) : (0 : ℚ) < (10 : ℚ) ^ e := zpow_pos (by norm_num) e

@[simp] theorem roundSig_zero : roundSig p 0 = 0 := by
  have h : roundHalfEven (0 : ℚ) = 0 := by exact_mod_cast roundHalfEven_intCast 0
  simp [roundSig, h]

theorem zpow_log_le (hx : 0 < x) : (10 : ℚ) ^ Int.log 10 x ≤ x := by
  exact_mod_cast zpow_log_le_self (b := 10) (by norm_num) hx

/-- A rational lies below the power of ten after its leading one. -/
theorem lt_zpow_log_add_one (x : ℚ) : x < (10 : ℚ) ^ (Int.log 10 x + 1) := by
  exact_mod_cast lt_zpow_succ_log_self (b := 10) (by norm_num) x

variable {p}

/-- **What has at most `p` digits is not rounded**: an integer below
`10 ^ p`, at any power of ten. -/
theorem roundSig_eq_self {m e : ℤ} (hx : x = m * (10 : ℚ) ^ e) (hm : |m| < 10 ^ p) :
    roundSig p x = x := by
  by_cases h0 : x = 0
  · rw [h0, roundSig_zero]
  have habs : 0 < |x| := abs_pos.mpr h0
  have hle : ulpExp p x ≤ e := by
    -- the leading power of ten of `x` is below `10 ^ (p + e)`
    have hlt : |x| < (10 : ℚ) ^ ((p : ℤ) + e) := by
      rw [hx, abs_mul, abs_of_pos (ten_zpow_pos e), zpow_add₀ (by norm_num), zpow_natCast]
      have : (|m| : ℚ) < 10 ^ p := by exact_mod_cast hm
      exact mul_lt_mul_of_pos_right this (ten_zpow_pos e)
    have := (zpow_lt_zpow_iff_right₀ (by norm_num : (1 : ℚ) < 10)).mp
      (lt_of_le_of_lt (zpow_log_le habs) hlt)
    unfold ulpExp
    omega
  obtain ⟨k, hk⟩ := eq_ofNat_of_zero_le (sub_nonneg.mpr hle)
  have hdiv : x / (10 : ℚ) ^ ulpExp p x = ((m * 10 ^ k : ℤ) : ℚ) := by
    rw [div_eq_iff (ten_zpow_pos _).ne']
    push_cast
    rw [mul_assoc, ← zpow_natCast, ← zpow_add₀ (by norm_num), ← hk, sub_add_cancel]
    exact hx
  rw [roundSig, hdiv, roundHalfEven_intCast, ← hdiv, div_mul_cancel₀ _ (ten_zpow_pos _).ne']

theorem roundSig_zpow (hp : 0 < p) (e : ℤ) : roundSig p ((10 : ℚ) ^ e) = (10 : ℚ) ^ e :=
  roundSig_eq_self (m := 1) (e := e) (by simp)
    (by simpa using one_lt_pow₀ (by norm_num : (1 : ℤ) < 10) hp.ne')

theorem abs_roundHalfEven_le (p : ℕ) (x : ℚ) :
    |roundHalfEven (x / (10 : ℚ) ^ ulpExp p x)| ≤ 10 ^ p := by
  by_cases h0 : x = 0
  · rw [h0, zero_div]
    have hzero : roundHalfEven (0 : ℚ) = 0 := by exact_mod_cast roundHalfEven_intCast 0
    rw [hzero, abs_zero]
    positivity
  have hlt : |x / (10 : ℚ) ^ ulpExp p x| < ((10 ^ p : ℤ) : ℚ) := by
    rw [abs_div, abs_of_pos (ten_zpow_pos _), div_lt_iff₀ (ten_zpow_pos _)]
    have hlog := lt_zpow_log_add_one |x|
    have hexponent : (10 : ℚ) ^ (Int.log 10 |x| + 1) = ((10 ^ p : ℤ) : ℚ) * 10 ^ ulpExp p x := by
      push_cast
      rw [← zpow_natCast, ← zpow_add₀ (by norm_num)]
      congr 1
      unfold ulpExp
      ring
    rwa [hexponent] at hlog
  obtain ⟨hlow, hhigh⟩ := abs_lt.mp hlt
  have hfloor := floor_le_roundHalfEven (x / (10 : ℚ) ^ ulpExp p x)
  have hceil := roundHalfEven_le_floor_add_one (x / (10 : ℚ) ^ ulpExp p x)
  have hbelow : -(10 ^ p : ℤ) ≤ ⌊x / (10 : ℚ) ^ ulpExp p x⌋ := by
    rw [le_floor]
    exact_mod_cast hlow.le
  have habove : ⌊x / (10 : ℚ) ^ ulpExp p x⌋ < (10 ^ p : ℤ) := floor_lt.mpr hhigh
  rw [abs_le]
  omega

/-- **What was rounded is not rounded again.** -/
theorem roundSig_roundSig (hp : 0 < p) (x : ℚ) : roundSig p (roundSig p x) = roundSig p x := by
  rcases (abs_roundHalfEven_le p x).lt_or_eq with hlt | heq
  · exact roundSig_eq_self rfl hlt
  · have hone : |(1 : ℤ)| < 10 ^ p := by
      rw [abs_one]
      exact one_lt_pow₀ (by norm_num) hp.ne'
    have hten : ((10 ^ p : ℤ) : ℚ) * (10 : ℚ) ^ ulpExp p x = (10 : ℚ) ^ (p + ulpExp p x) := by
      push_cast
      rw [← zpow_natCast, ← zpow_add₀ (by norm_num)]
    rcases (abs_eq (by positivity)).mp heq with hpos | hneg
    · refine roundSig_eq_self (m := 1) (e := p + ulpExp p x) ?_ hone
      rw [roundSig, hpos, hten]
      simp
    · refine roundSig_eq_self (m := -1) (e := p + ulpExp p x) ?_ (by rwa [abs_neg])
      rw [roundSig, hneg, cast_neg, neg_mul, hten]
      simp

theorem roundSig_nonneg (p : ℕ) (hx : 0 ≤ x) : 0 ≤ roundSig p x := by
  have h : (0 : ℤ) ≤ roundHalfEven (x / (10 : ℚ) ^ ulpExp p x) := by
    rw [← roundHalfEven_intCast 0]
    exact roundHalfEven_mono (by simpa using div_nonneg hx (ten_zpow_pos _).le)
  exact mul_nonneg (by exact_mod_cast h) (ten_zpow_pos _).le

/-- Two positive numbers with the same leading power of ten are rounded at
the same digit, so in order. -/
theorem roundSig_mono_of_log_eq (hx : 0 < x) (h : x ≤ y) (hlog : Int.log 10 x = Int.log 10 y) :
    roundSig p x ≤ roundSig p y := by
  have he : ulpExp p x = ulpExp p y := by
    rw [ulpExp, ulpExp, abs_of_pos hx, abs_of_pos (hx.trans_le h), hlog]
  rw [roundSig, roundSig, he]
  refine mul_le_mul_of_nonneg_right ?_ (ten_zpow_pos _).le
  exact_mod_cast roundHalfEven_mono (div_le_div_of_nonneg_right h (ten_zpow_pos _).le)

/-- **Rounding to significant digits is monotone** on the nonnegative
rationals. Numbers with different leading powers of ten are separated by a
power of ten, and that one is not rounded. -/
theorem roundSig_mono (hp : 0 < p) (hx : 0 ≤ x) (h : x ≤ y) : roundSig p x ≤ roundSig p y := by
  rcases hx.eq_or_lt with rfl | hx
  · rw [roundSig_zero]
    exact roundSig_nonneg p h
  have hy : 0 < y := hx.trans_le h
  rcases (log_mono_right (b := 10) hx h).eq_or_lt with hlog | hlog
  · exact roundSig_mono_of_log_eq hx h hlog
  set q : ℚ := (10 : ℚ) ^ Int.log 10 y with hq
  have hlogq : Int.log 10 q = Int.log 10 y := by
    exact_mod_cast log_zpow (R := ℚ) (b := 10) (by norm_num) (Int.log 10 y)
  have hxq : roundSig p x ≤ q := by
    -- on the way up to `10 ^ (log x + 1)`, one digit more is still exact
    have hexp : ulpExp p x = Int.log 10 x - p + 1 := by rw [ulpExp, abs_of_pos hx]
    have hle : x / (10 : ℚ) ^ ulpExp p x ≤ ((10 ^ p : ℤ) : ℚ) := by
      rw [div_le_iff₀ (ten_zpow_pos _), hexp]
      push_cast
      rw [← zpow_natCast, ← zpow_add₀ (by norm_num)]
      have := lt_zpow_log_add_one x
      rw [show (p : ℤ) + (Int.log 10 x - p + 1) = Int.log 10 x + 1 by ring]
      exact this.le
    have hround := roundHalfEven_mono hle
    rw [roundHalfEven_intCast] at hround
    calc roundSig p x
        ≤ ((10 ^ p : ℤ) : ℚ) * (10 : ℚ) ^ ulpExp p x :=
          mul_le_mul_of_nonneg_right (by exact_mod_cast hround) (ten_zpow_pos _).le
      _ = (10 : ℚ) ^ (Int.log 10 x + 1) := by
          push_cast
          rw [hexp, ← zpow_natCast, ← zpow_add₀ (by norm_num)]
          congr 1
          ring
      _ ≤ q := zpow_le_zpow_right₀ (by norm_num) hlog
  calc roundSig p x ≤ q := hxq
    _ = roundSig p q := (roundSig_zpow hp _).symm
    _ ≤ roundSig p y := roundSig_mono_of_log_eq (ten_zpow_pos _) (zpow_log_le hy) hlogq

variable (p)

/-- The rounding error is at most half a unit in the last digit. -/
theorem abs_roundSig_sub_le (x : ℚ) : |roundSig p x - x| ≤ (10 : ℚ) ^ ulpExp p x / 2 := by
  have h := abs_roundHalfEven_sub_le (x / (10 : ℚ) ^ ulpExp p x)
  have hpos := ten_zpow_pos (ulpExp p x)
  have heq : roundSig p x - x
      = ((roundHalfEven (x / (10 : ℚ) ^ ulpExp p x) : ℚ) - x / (10 : ℚ) ^ ulpExp p x)
        * (10 : ℚ) ^ ulpExp p x := by
    rw [sub_mul, div_mul_cancel₀ _ hpos.ne', roundSig]
  rw [heq, abs_mul, abs_of_pos hpos]
  calc _ ≤ 1 / 2 * (10 : ℚ) ^ ulpExp p x := mul_le_mul_of_nonneg_right h hpos.le
    _ = _ := by ring

/-- **The relative rounding error** is at most half a unit in the last of `p`
digits. -/
theorem abs_roundSig_sub_le_mul (x : ℚ) :
    |roundSig p x - x| ≤ |x| * ((10 : ℚ) ^ (1 - (p : ℤ)) / 2) := by
  by_cases hx : x = 0
  · simp [hx]
  have habs : 0 < |x| := abs_pos.mpr hx
  calc |roundSig p x - x| ≤ (10 : ℚ) ^ ulpExp p x / 2 := abs_roundSig_sub_le p x
    _ = (10 : ℚ) ^ Int.log 10 |x| * ((10 : ℚ) ^ (1 - (p : ℤ)) / 2) := by
        rw [ulpExp, show Int.log 10 |x| - p + 1 = Int.log 10 |x| + (1 - (p : ℤ)) by ring,
          zpow_add₀ (by norm_num)]
        ring
    _ ≤ |x| * ((10 : ℚ) ^ (1 - (p : ℤ)) / 2) :=
        mul_le_mul_of_nonneg_right (zpow_log_le habs) (div_pos (ten_zpow_pos _) two_pos).le

/-- A nonnegative number and its rounding, each within a factor of the other. -/
theorem roundSig_between (hx : 0 ≤ x) : x * (1 - (10 : ℚ) ^ (1 - (p : ℤ)) / 2) ≤ roundSig p x
      ∧ roundSig p x ≤ x * (1 + (10 : ℚ) ^ (1 - (p : ℤ)) / 2) := by
  have h := abs_le.mp (abs_roundSig_sub_le_mul p x)
  rw [abs_of_nonneg hx] at h
  constructor
  · rw [mul_sub, mul_one]
    linarith [h.1]
  · rw [mul_add, mul_one]
    linarith [h.2]

/-! ## Quantizing to decimal places -/

/-- The multiples of `10 ^ -d`. -/
def OnGrid (d : ℕ) (x : ℚ) : Prop := (x * 10 ^ d).den = 1
deriving Decidable

variable {d : ℕ}

theorem onGrid_iff : OnGrid d x ↔ ∃ n : ℤ, x = n / 10 ^ d := by
  constructor
  · intro h
    refine ⟨(x * 10 ^ d).num, ?_⟩
    rw [eq_div_iff (by positivity)]
    exact ((Rat.den_eq_one_iff _).mp h).symm
  · rintro ⟨n, rfl⟩
    rw [OnGrid, div_mul_cancel₀ _ (by positivity)]
    exact Rat.den_intCast n

variable (d)

/-- Round up to `d` decimal places. -/
def ceilTo (x : ℚ) : ℚ := (⌈x * 10 ^ d⌉ : ℚ) / 10 ^ d

/-- Round down to `d` decimal places. -/
def floorTo (x : ℚ) : ℚ := (⌊x * 10 ^ d⌋ : ℚ) / 10 ^ d

theorem onGrid_ceilTo (x : ℚ) : OnGrid d (ceilTo d x) :=
  onGrid_iff.mpr ⟨_, rfl⟩

theorem le_ceilTo (x : ℚ) : x ≤ ceilTo d x := by
  rw [ceilTo, le_div_iff₀ (by positivity)]
  exact le_ceil _

variable {d}

theorem ceilTo_le_iff (hy : OnGrid d y) : ceilTo d x ≤ y ↔ x ≤ y := by
  refine ⟨(le_ceilTo d x).trans, fun h => ?_⟩
  obtain ⟨n, rfl⟩ := onGrid_iff.mp hy
  refine div_le_div_of_nonneg_right ?_ (by positivity)
  have : ⌈x * 10 ^ d⌉ ≤ n := by
    rw [ceil_le]
    rwa [← le_div_iff₀ (by positivity)]
  exact_mod_cast this

theorem ceilTo_eq_self (hx : OnGrid d x) : ceilTo d x = x :=
  le_antisymm ((ceilTo_le_iff hx).mpr le_rfl) (le_ceilTo d x)

variable (d)

theorem ceilTo_mono (h : x ≤ y) : ceilTo d x ≤ ceilTo d y :=
  (ceilTo_le_iff (onGrid_ceilTo d y)).mpr (h.trans (le_ceilTo d y))

theorem ceilTo_nonneg (h : 0 ≤ x) : 0 ≤ ceilTo d x :=
  h.trans (le_ceilTo d x)

@[simp] theorem ceilTo_zero : ceilTo d 0 = 0 := by simp [ceilTo]

/-- A grid has no points strictly between two neighbours. -/
theorem ceilTo_lt_add (x : ℚ) : ceilTo d x < x + 1 / 10 ^ d := by
  rw [ceilTo, div_lt_iff₀ (by positivity), add_mul, div_mul_cancel₀ _ (by positivity)]
  exact ceil_lt_add_one _

section Grid

variable {d e : ℕ} {x y : ℚ}

theorem OnGrid.add (hx : OnGrid d x) (hy : OnGrid d y) : OnGrid d (x + y) := by
  obtain ⟨m, rfl⟩ := onGrid_iff.mp hx
  obtain ⟨n, rfl⟩ := onGrid_iff.mp hy
  exact onGrid_iff.mpr ⟨m + n, by push_cast; ring⟩

theorem OnGrid.neg (hx : OnGrid d x) : OnGrid d (-x) := by
  obtain ⟨m, rfl⟩ := onGrid_iff.mp hx
  exact onGrid_iff.mpr ⟨-m, by push_cast; ring⟩

theorem OnGrid.sub (hx : OnGrid d x) (hy : OnGrid d y) : OnGrid d (x - y) := by
  rw [sub_eq_add_neg]
  exact hx.add hy.neg

/-- The product of two grid points lies on the product of the grids. -/
theorem OnGrid.mul (hx : OnGrid d x) (hy : OnGrid e y) : OnGrid (d + e) (x * y) := by
  obtain ⟨m, rfl⟩ := onGrid_iff.mp hx
  obtain ⟨n, rfl⟩ := onGrid_iff.mp hy
  exact onGrid_iff.mpr ⟨m * n, by push_cast; rw [pow_add]; field_simp⟩

theorem OnGrid.mono (h : OnGrid d x) (hde : d ≤ e) : OnGrid e x := by
  obtain ⟨k, rfl⟩ := Nat.exists_eq_add_of_le hde
  have hone : OnGrid k 1 := onGrid_iff.mpr ⟨10 ^ k, by push_cast; rw [div_self (by positivity)]⟩
  rw [show x = x * 1 from (mul_one x).symm]
  exact h.mul hone

theorem OnGrid.add_unit_le (hx : OnGrid d x) (hy : OnGrid d y) (h : x < y) :
    x + 1 / 10 ^ d ≤ y := by
  obtain ⟨m, rfl⟩ := onGrid_iff.mp hx
  obtain ⟨n, rfl⟩ := onGrid_iff.mp hy
  have hpos : (0 : ℚ) < 10 ^ d := by positivity
  rw [div_lt_div_iff_of_pos_right hpos] at h
  rw [← add_div, div_le_div_iff_of_pos_right hpos]
  have hmn : m < n := by exact_mod_cast h
  exact_mod_cast hmn

/-- **Rounding up what is close to a point of a finer grid** gives what rounding
up the point does – except above a point of the coarse grid itself, where there
is nothing to round to but the next. -/
theorem ceilTo_eq_iff_of_close (hde : d ≤ e) (hx : OnGrid e x) (hclose : |y - x| < 1 / 10 ^ e) :
    ceilTo d y = ceilTo d x ↔ (OnGrid d x → y ≤ x) := by
  obtain ⟨hlow, hhigh⟩ := abs_lt.mp hclose
  have hceil : OnGrid e (ceilTo d x) := (onGrid_ceilTo d x).mono hde
  constructor
  · intro h hgrid
    rw [ceilTo_eq_self hgrid] at h
    exact h ▸ le_ceilTo d y
  · intro h
    refine le_antisymm ((ceilTo_le_iff (onGrid_ceilTo d x)).mpr ?_) ?_
    · by_cases hgrid : OnGrid d x
      · exact (h hgrid).trans (le_ceilTo d x)
      · -- the ceiling is another point of the fine grid, so a unit of it above
        have hlt : x < ceilTo d x :=
          lt_of_le_of_ne (le_ceilTo d x) (fun he => hgrid (he ▸ onGrid_ceilTo d x))
        linarith [hx.add_unit_le hceil hlt]
    · by_contra hlt
      have hcoarse := (onGrid_ceilTo d y).add_unit_le (onGrid_ceilTo d x) (not_le.mp hlt)
      have hbelow : ceilTo d y < x := by linarith [ceilTo_lt_add d x]
      linarith [((onGrid_ceilTo d y).mono hde).add_unit_le hx hbelow, le_ceilTo d y]

/-- A grid point that is small enough has few enough digits to be kept. -/
theorem OnGrid.roundSig_eq {p : ℕ} (hx : OnGrid d x) (hlt : |x| < 10 ^ p / 10 ^ d) :
    roundSig p x = x := by
  obtain ⟨m, rfl⟩ := onGrid_iff.mp hx
  refine roundSig_eq_self (m := m) (e := -(d : ℤ)) ?_ ?_
  · rw [zpow_neg, zpow_natCast, div_eq_mul_inv]
  · rw [abs_div, abs_of_pos (by positivity : (0 : ℚ) < 10 ^ d),
      div_lt_div_iff_of_pos_right (by positivity)] at hlt
    exact_mod_cast hlt

end Grid

/-- The digits of `9 / 70`, to five places. -/
example : roundSig 5 (9 / 70) = 12857 / 100000 := by decide +kernel

end SigDigits
