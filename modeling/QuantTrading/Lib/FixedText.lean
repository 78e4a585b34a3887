import Mathlib.Algebra.Order.Field.Power
import Mathlib.Data.List.DropRight
import Mathlib.Data.Nat.Log
import Mathlib.Tactic.FieldSimp
import Mathlib.Tactic.Ring
import Mathlib.Tactic.Positivity
import QuantTrading.Lib.DecimalText

/-!
# Fixed-point texts

`fixed` writes a decimal number without an exponent, as the format `f` does, and `plain` leaves out
the zeros at the end of its fraction. The first shows the representation, the second only the
number: two decimals that are not zero have one `plain` text exactly when they are one number
(`plain_eq_iff`), and `parse` reads the number back (`parse_plain`).
-/

namespace Decimal

open List

variable (d : Decimal)

/-- The digits left of the point. -/
def whole : List Char :=
  if d.leftDigits ≤ 0 then ['0']
  else d.digits.take d.leftDigits.toNat ++ List.replicate (d.leftDigits - d.digits.length).toNat '0'

/-- The digits right of the point. -/
def right : List Char :=
  List.replicate (-d.leftDigits).toNat '0' ++ d.digits.drop d.leftDigits.toNat

/-- The sign, in front of what is negative. -/
def sign : List Char := if d.negative then ['-'] else []

/-- **The text without an exponent.** -/
def fixed : List Char := d.sign ++ d.whole ++ fraction d.right

/-- The fraction without the zeros at its end. -/
def kept : List Char := d.right.rdropWhile (· == '0')

/-- **The text without an exponent and without zeros at the end of a fraction.** -/
def plain : List Char := d.sign ++ d.whole ++ fraction d.kept

/-! ### Characters -/

variable {d} {d' : Decimal} {c : Char}

theorem isDigit_of_mem_whole (h : c ∈ d.whole) : c.isDigit = true := by
  unfold whole at h
  split at h
  · obtain rfl := mem_singleton.mp h
    rfl
  · rcases mem_append.mp h with h | h
    · exact isDigit_of_mem_digits (mem_of_mem_take h)
    · obtain rfl := eq_of_mem_replicate h
      rfl

theorem isDigit_of_mem_right (h : c ∈ d.right) : c.isDigit = true := by
  rcases mem_append.mp h with h | h
  · obtain rfl := eq_of_mem_replicate h
    rfl
  · exact isDigit_of_mem_digits (mem_of_mem_drop h)

theorem isDigit_of_mem_kept (h : c ∈ d.kept) : c.isDigit = true :=
  isDigit_of_mem_right (( rdropWhile_prefix _ _).subset h)

theorem whole_ne_nil (d : Decimal) : d.whole ≠ [] := by
  unfold whole
  split
  · simp
  · rename_i hleft
    simp only [ne_eq, append_eq_nil_iff, take_eq_nil_iff, digits_ne_nil, or_false, not_and]
    omega

theorem char_of_mem_plain (h : c ∈ d.plain) : c = '-' ∨ c = '.' ∨ c.isDigit = true := by
  rcases mem_append.mp h with h | h
  · rcases mem_append.mp h with h | h
    · unfold sign at h
      split at h
      · exact .inl (mem_singleton.mp h)
      · cases h
    · exact .inr (.inr (isDigit_of_mem_whole h))
  · unfold fraction at h
    split at h
    · cases h
    · rcases mem_cons.mp h with h | h
      · exact .inr (.inl h)
      · exact .inr (.inr (isDigit_of_mem_kept h))

theorem head_plain (d : Decimal) : d.plain.head? = some '-' ↔ d.negative = true := by
  cases hneg : d.negative with
  | true => simp [plain, sign, hneg]
  | false =>
    obtain ⟨c, cs, hwhole⟩ := exists_cons_of_ne_nil d.whole_ne_nil
    have hdigit : c.isDigit = true := isDigit_of_mem_whole (d := d) (hwhole ▸ mem_cons_self)
    simp only [plain, sign, hneg, hwhole]
    simp only [Bool.false_eq_true, if_false, nil_append, cons_append, head?_cons,
      Option.some.injEq, iff_false]
    rintro rfl
    exact absurd hdigit (by decide)

/-! ### Zeros at the end -/

theorem rdropWhile_point (left frac : List Char) :
    (left ++ '.' :: frac).rdropWhile (· == '0') = left ++ '.' :: frac.rdropWhile (· == '0') := by
  induction frac using List.reverseRecOn with
  | nil =>
    rw [rdropWhile_nil]
    exact rdropWhile_concat_neg _ _ _ (by decide)
  | append_singleton frac c ih =>
    rw [← cons_append, ← append_assoc]
    by_cases hc : c = '0'
    · subst hc
      rw [rdropWhile_concat_pos _ _ _ (by decide), rdropWhile_concat_pos _ _ _ (by decide)]
      exact ih
    · rw [rdropWhile_concat_neg _ _ _ (by simpa using hc),
        rdropWhile_concat_neg _ _ _ (by simpa using hc)]
      simp

variable {cs : List Char}

theorem rdropWhile_of_not_mem (h : '.' ∉ cs) : cs.rdropWhile (· == '.') = cs := by
  rw [rdropWhile_eq_self_iff]
  intro hne hlast
  exact h (eq_of_beq hlast ▸ getLast_mem hne)

theorem point_not_mem (h : ∀ c ∈ cs, c.isDigit = true) : '.' ∉ cs :=
  fun hmem => absurd (h '.' hmem) (by decide)

theorem rdropWhile_fraction {left frac : List Char} (hleft : '.' ∉ left) (hfrac : '.' ∉ frac) :
    (left ++ '.' :: frac).rdropWhile (· == '.') = left ++ fraction frac := by
  unfold fraction
  split
  · rename_i hnil
    rw [hnil, rdropWhile_concat_pos _ _ _ (by decide), rdropWhile_of_not_mem hleft,
      append_nil]
  · rename_i hne
    obtain ⟨init, last, rfl⟩ : ∃ init last, frac = init ++ [last] :=
      ⟨_, _, (dropLast_append_getLast hne).symm⟩
    rw [← cons_append, ← append_assoc, rdropWhile_concat_neg]
    intro hlast
    exact hfrac (by simp [eq_of_beq hlast])

/-- **Leaving out the zeros of a fraction** from the text leaves `plain`. -/
theorem strip_fixed (d : Decimal) :
    (if '.' ∈ d.fixed then (d.fixed.rdropWhile (· == '0')).rdropWhile (· == '.') else d.fixed)
      = d.plain := by
  have hleft : '.' ∉ d.sign ++ d.whole := by
    rw [mem_append]
    rintro (h | h)
    · unfold sign at h
      split at h <;> simp at h
    · exact absurd (isDigit_of_mem_whole h) (by decide)
  unfold fixed plain
  by_cases hright : d.right = []
  · have hkept : d.kept = [] := by rw [kept, hright, rdropWhile_nil]
    rw [hright, hkept, fraction, if_pos rfl, append_nil]
    exact if_neg hleft
  · have hfixed : fraction d.right = '.' :: d.right := if_neg hright
    rw [hfixed, if_pos (by simp), rdropWhile_point, rdropWhile_fraction hleft]
    · rfl
    · exact point_not_mem fun c hc => isDigit_of_mem_kept hc

/-! ### One text for one number -/

section MulTen

variable {s : Bool} {c : ℕ} (hc : 0 < c) (e : ℤ)

include hc

theorem digits_mul_ten : digits ⟨s, c * 10, e - 1⟩ = digits ⟨s, c, e⟩ ++ ['0'] := by
  have happend := Nat.toDigits_append_toDigits (b := 10) (d := 0) (by decide) hc (by decide)
  rw [Nat.toDigits_zero, add_zero, mul_comm] at happend
  exact happend.symm

theorem leftDigits_mul_ten : leftDigits ⟨s, c * 10, e - 1⟩ = leftDigits ⟨s, c, e⟩ := by
  rw [leftDigits, digits_mul_ten hc, leftDigits, length_append, length_singleton]
  show e - 1 + _ = e + _
  push_cast
  ring

theorem whole_mul_ten : whole ⟨s, c * 10, e - 1⟩ = whole ⟨s, c, e⟩ := by
  rw [whole, leftDigits_mul_ten hc, digits_mul_ten hc, whole]
  split
  · rfl
  · rename_i hleft
    generalize leftDigits ⟨s, c, e⟩ = place at hleft ⊢
    generalize digits ⟨s, c, e⟩ = ds
    rw [length_append, length_singleton]
    by_cases hle : place.toNat ≤ ds.length
    · have hnone : (place - (ds.length + 1 : ℕ)).toNat = 0 := by omega
      have hnone' : (place - ds.length).toNat = 0 := by omega
      rw [take_append_of_le_length hle, hnone, hnone']
    · have hzeros : (place - ds.length).toNat = (place - (ds.length + 1 : ℕ)).toNat + 1 := by omega
      rw [take_of_length_le (by simp; omega), take_of_length_le (by omega), hzeros,
        replicate_succ, append_assoc, singleton_append]

theorem kept_mul_ten : kept ⟨s, c * 10, e - 1⟩ = kept ⟨s, c, e⟩ := by
  rw [kept, right, leftDigits_mul_ten hc, digits_mul_ten hc, kept, right]
  generalize leftDigits ⟨s, c, e⟩ = place
  generalize digits ⟨s, c, e⟩ = ds
  by_cases hle : place.toNat ≤ ds.length
  · rw [drop_append_of_le_length hle, ← append_assoc, rdropWhile_concat_pos _ _ _ (by decide)]
  · rw [drop_eq_nil_of_le (by simp; omega), drop_eq_nil_of_le (by omega)]

/-- Ten times the coefficient, with one digit more after the point, has the same text. -/
theorem plain_mul_ten : plain ⟨s, c * 10, e - 1⟩ = plain ⟨s, c, e⟩ := by
  rw [plain, whole_mul_ten hc, kept_mul_ten hc]
  rfl

/-- What one digit more after the point does not change, more of them do not. -/
theorem eq_mul_pow {α : Type} {f : Decimal → α}
    (hf : ∀ c e, 0 < c → f ⟨s, c * 10, e - 1⟩ = f ⟨s, c, e⟩) (k : ℕ) :
    f ⟨s, c * 10 ^ k, e - k⟩ = f ⟨s, c, e⟩ := by
  induction k with
  | zero => simp
  | succ k ih =>
    have hpos : 0 < c * 10 ^ k := by positivity
    have hexponent : e - (k + 1 : ℕ) = e - k - 1 := by
      push_cast
      ring
    rw [pow_succ, ← mul_assoc, hexponent, hf _ _ hpos, ih]

theorem plain_mul_pow (k : ℕ) : plain ⟨s, c * 10 ^ k, e - k⟩ = plain ⟨s, c, e⟩ :=
  eq_mul_pow hc e (fun _ e hc => plain_mul_ten hc e) k

theorem leftDigits_mul_pow (k : ℕ) : leftDigits ⟨s, c * 10 ^ k, e - k⟩ = leftDigits ⟨s, c, e⟩ :=
  eq_mul_pow hc e (fun _ e hc => leftDigits_mul_ten hc e) k

end MulTen

/-! ### One number for one text -/

theorem value_eq (d : Decimal) :
    d.value = (if d.negative then -1 else 1) * (d.coefficient * (10 : ℚ) ^ d.exponent) :=
  mul_assoc _ _ _

theorem abs_value (d : Decimal) : |d.value| = d.coefficient * (10 : ℚ) ^ d.exponent := by
  have hpos : (0 : ℚ) ≤ d.coefficient * (10 : ℚ) ^ d.exponent := by positivity
  rw [value_eq, abs_mul, abs_of_nonneg hpos]
  split <;> simp

@[simp] theorem value_eq_zero : d.value = 0 ↔ d.coefficient = 0 := by
  rw [← abs_eq_zero, abs_value, mul_eq_zero]
  have hten : (10 : ℚ) ^ d.exponent ≠ 0 := by positivity
  simp [hten]

theorem value_neg_iff (h : d.coefficient ≠ 0) : d.value < 0 ↔ d.negative = true := by
  have hpos : (0 : ℚ) < d.coefficient * (10 : ℚ) ^ d.exponent := by
    have : (0 : ℚ) < d.coefficient := by exact_mod_cast Nat.pos_of_ne_zero h
    positivity
  rw [value_eq]
  split
  · simp [*]
  · simp only [one_mul, Bool.not_eq_true] at *
    simp [*, hpos.le]

/-- Of two decimals that are one number, the one with the lower exponent has so many digits more
after the point. -/
theorem eq_scaled_of_exponent_le (hd : d'.coefficient ≠ 0) (h : d.value = d'.value)
    (hle : d.exponent ≤ d'.exponent) :
    ∃ k : ℕ, d = ⟨d'.negative, d'.coefficient * 10 ^ k, d'.exponent - k⟩ := by
  have hne : d.coefficient ≠ 0 := by
    rw [Ne, ← value_eq_zero, h, value_eq_zero]
    exact hd
  have hsign : d.negative = d'.negative := by
    rw [Bool.eq_iff_iff, ← value_neg_iff hne, ← value_neg_iff hd, h]
  have habs : (d.coefficient : ℚ) * (10 : ℚ) ^ d.exponent
      = d'.coefficient * (10 : ℚ) ^ d'.exponent := by
    rw [← abs_value, ← abs_value, h]
  obtain ⟨k, hk⟩ := Int.le.dest hle
  have hcoefficient : d.coefficient = d'.coefficient * 10 ^ k := by
    have hten : (10 : ℚ) ^ d.exponent ≠ 0 := by positivity
    rw [← hk, zpow_add₀ (by norm_num), mul_comm ((10 : ℚ) ^ d.exponent), ← mul_assoc] at habs
    exact_mod_cast mul_right_cancel₀ hten habs
  have hexponent : d.exponent = d'.exponent - k := by omega
  refine ⟨k, ?_⟩
  rw [← hsign, ← hcoefficient, ← hexponent]

/-- What extra digits after the point do not change is the same for one number. -/
theorem eq_of_value_eq {α : Type} {f : Decimal → α}
    (hf : ∀ s c e (k : ℕ), 0 < c → f ⟨s, c * 10 ^ k, e - k⟩ = f ⟨s, c, e⟩)
    (hd : d.coefficient ≠ 0) (h : d.value = d'.value) : f d = f d' := by
  have hd' : d'.coefficient ≠ 0 := by
    rw [Ne, ← value_eq_zero, ← h, value_eq_zero]
    exact hd
  rcases le_total d.exponent d'.exponent with hle | hle
  · obtain ⟨k, hk⟩ := eq_scaled_of_exponent_le hd' h hle
    rw [hk, hf _ _ _ _ (Nat.pos_of_ne_zero hd')]
  · obtain ⟨k, hk⟩ := eq_scaled_of_exponent_le hd h.symm hle
    rw [hk, hf _ _ _ _ (Nat.pos_of_ne_zero hd)]

/-- **One number has one text.** -/
theorem plain_eq_of_value_eq (hd : d.coefficient ≠ 0) (h : d.value = d'.value) :
    d.plain = d'.plain :=
  eq_of_value_eq (fun _ _ e k hc => plain_mul_pow hc e k) hd h

/-- The place of the first digit is that of the number. -/
theorem leftDigits_eq_of_value_eq (hd : d.coefficient ≠ 0) (h : d.value = d'.value) :
    d.leftDigits = d'.leftDigits :=
  eq_of_value_eq (fun _ _ e k hc => leftDigits_mul_pow hc e k) hd h

variable (d)

/-- The digits on both sides of the point are those of the coefficient, with zeros around. -/
theorem ofDigitChars_right :
    (Nat.ofDigitChars 10 (d.whole ++ d.right) 0 : ℚ) * (10 : ℚ) ^ (-(d.right.length : ℤ))
      = d.coefficient * (10 : ℚ) ^ d.exponent := by
  have hleft : d.leftDigits = d.exponent + d.digits.length := rfl
  unfold whole right
  by_cases hnone : d.leftDigits ≤ 0
  · have hdrop : d.leftDigits.toNat = 0 := by omega
    have hvalue : Nat.ofDigitChars 10
        (['0'] ++ (List.replicate (-d.leftDigits).toNat '0' ++ d.digits)) 0 = d.coefficient := by
      rw [Nat.ofDigitChars_append, Nat.ofDigitChars_append, Nat.ofDigitChars_replicate_zero]
      show Nat.ofDigitChars 10 d.digits (10 ^ _ * 0) = _
      rw [Nat.mul_zero, value_digits]
    rw [if_pos hnone, hdrop, drop_zero, hvalue, length_append, length_replicate]
    congr 2
    omega
  · have hzeros : (-d.leftDigits).toNat = 0 := by omega
    rw [if_neg hnone, hzeros, replicate_zero, nil_append, length_drop]
    by_cases hle : d.leftDigits.toNat ≤ d.digits.length
    · have hzeros' : (d.leftDigits - d.digits.length).toNat = 0 := by omega
      rw [hzeros', replicate_zero, append_nil, take_append_drop, value_digits]
      congr 2
      omega
    · obtain ⟨k, hk⟩ : ∃ k : ℕ, d.exponent = k := ⟨d.exponent.toNat, by omega⟩
      have hzeros' : (d.leftDigits - d.digits.length).toNat = k := by omega
      have hright : d.digits.length - d.leftDigits.toNat = 0 := by omega
      rw [hzeros', hright, take_of_length_le (by omega), drop_eq_nil_of_le (by omega),
        append_nil, Nat.ofDigitChars_append, value_digits, Nat.ofDigitChars_replicate_zero, hk]
      push_cast
      simp [mul_comm]

theorem right_eq : ∃ m : ℕ, d.right = d.kept ++ List.replicate m '0' := by
  refine ⟨(d.right.rtakeWhile (· == '0')).length, ?_⟩
  have hzeros : d.right.rtakeWhile (· == '0')
      = List.replicate (d.right.rtakeWhile (· == '0')).length '0' :=
    eq_replicate_iff.mpr ⟨rfl, fun c hc => by
      simpa using mem_rtakeWhile_imp hc⟩
  rw [← hzeros]
  exact rdropWhile_append_rtakeWhile.symm

/-- **The number is read** from its text. -/
theorem parse_plain : ∃ d', parse (String.ofList d.plain) = some d'
    ∧ d'.value = d.value ∧ d'.exponent = -(d.kept.length : ℤ) := by
  have hdigits : ∀ c ∈ d.whole ++ d.kept, c.isDigit = true := fun c hc =>
    (mem_append.mp hc).elim isDigit_of_mem_whole isDigit_of_mem_kept
  have hparse := parse_parts d.negative d.whole_ne_nil hdigits (show readScale [] = some 0 from rfl)
  rw [append_nil, ← append_assoc] at hparse
  refine ⟨_, hparse, ?_, by simp⟩
  obtain ⟨m, hm⟩ := d.right_eq
  have hright := d.ofDigitChars_right
  rw [hm, ← append_assoc, Nat.ofDigitChars_append, Nat.ofDigitChars_replicate_zero,
    length_append, length_replicate] at hright
  have hzeros : ((10 ^ m * Nat.ofDigitChars 10 (d.whole ++ d.kept) 0 : ℕ) : ℚ)
      * (10 : ℚ) ^ (-((d.kept.length + m : ℕ) : ℤ))
      = Nat.ofDigitChars 10 (d.whole ++ d.kept) 0 * (10 : ℚ) ^ (0 - (d.kept.length : ℤ)) := by
    rw [zero_sub, Nat.cast_add, neg_add, zpow_add₀ (by norm_num), Nat.cast_mul, Nat.cast_pow,
      zpow_neg _ (m : ℤ), zpow_natCast]
    push_cast
    field_simp
  rw [value_eq, value_eq, ← hright, hzeros]

/-! ### How many digits -/

theorem length_kept_le : d.kept.length ≤ d.right.length :=
  ( rdropWhile_prefix _ _).length_le

theorem length_right_le : (d.right.length : ℤ) ≤ max 0 (-d.exponent) := by
  have hleft : d.leftDigits = d.exponent + d.digits.length := rfl
  rw [right, length_append, length_replicate, length_drop]
  omega

theorem length_whole_le : (d.whole.length : ℤ) ≤ max 1 d.leftDigits := by
  unfold whole
  split
  · simp
  · rw [length_append, length_replicate, length_take]
    omega

example : [(⟨false, 1500, -3⟩ : Decimal), ⟨true, 25, 2⟩, ⟨false, 5, -9⟩].map (String.ofList ∘ plain)
    = ["1.5", "-2500", "0.000000005"] := by
  decide +kernel

end Decimal
