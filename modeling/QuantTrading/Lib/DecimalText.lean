import Mathlib.Data.List.Basic
import Mathlib.Tactic.Linarith

/-!
# Decimal numbers and their texts

A decimal number is a sign, a coefficient and a power of ten, so that `1.0` and
`1.00` are two of them. `str` writes one as the General Decimal Arithmetic
specification says (to-scientific-string), and `parse` reads a text of its
numeric-string grammar. What the module is for is `parse_str`: a decimal comes back
from its text exactly, trailing zeros and the sign of zero included, and so two
decimals with one text are the same (`str_injective`).
-/

/-- **A finite decimal number**, with its representation. -/
structure Decimal where
  negative : Bool
  coefficient : ℕ
  exponent : ℤ
  deriving DecidableEq

namespace Decimal

open Nat

open List

variable (d : Decimal)

/-- The number. -/
def value : ℚ :=
  (if d.negative then -1 else 1) * d.coefficient * (10 : ℚ) ^ d.exponent

/-! ## Writing -/

/-- The digits of the coefficient. -/
def digits : List Char := Nat.toDigits 10 d.coefficient

/-- The number of digits left of the point, without an exponent. -/
def leftDigits : ℤ := d.exponent + d.digits.length

/-- The number of digits left of the point as written: with an exponent, it is one. -/
def dotPlace : ℤ :=
  if d.exponent ≤ 0 ∧ -6 < d.leftDigits then d.leftDigits else 1

/-- The digits as written, with the point. -/
def mantissa : List Char :=
  if d.dotPlace ≤ 0 then
    '0' :: '.' :: (List.replicate (-d.dotPlace).toNat '0' ++ d.digits)
  else if d.digits.length ≤ d.dotPlace then
    d.digits ++ List.replicate (d.dotPlace - d.digits.length).toNat '0'
  else
    d.digits.take d.dotPlace.toNat ++ '.' :: d.digits.drop d.dotPlace.toNat

/-- A whole number with its sign. -/
def signed (z : ℤ) : List Char := (if z < 0 then '-' else '+') :: Nat.toDigits 10 z.natAbs

/-- The exponent as written. -/
def scale : List Char :=
  if d.leftDigits = d.dotPlace then [] else 'E' :: signed (d.leftDigits - d.dotPlace)

/-- **The text of a decimal.** -/
def str : String :=
  String.ofList ((if d.negative then ['-'] else []) ++ d.mantissa ++ d.scale)

/-! ## Reading -/

def readSign : List Char → Bool × List Char
  | '-' :: cs => (true, cs)
  | '+' :: cs => (false, cs)
  | cs => (false, cs)

/-- The digits after a point, if there is one. -/
def readFraction : List Char → List Char × List Char
  | '.' :: cs => (cs.takeWhile Char.isDigit, cs.dropWhile Char.isDigit)
  | cs => ([], cs)

/-- A whole number and nothing else. -/
def readInt (cs : List Char) : Option ℤ :=
  let ds := (readSign cs).2
  if ds ≠ [] ∧ ds.all Char.isDigit then
    some (if (readSign cs).1 then -(Nat.ofDigitChars 10 ds 0 : ℤ) else Nat.ofDigitChars 10 ds 0)
  else none

/-- An exponent, if there is one. -/
def readScale : List Char → Option ℤ
  | [] => some 0
  | 'E' :: cs => readInt cs
  | 'e' :: cs => readInt cs
  | _ => none

/-- **The decimal of a text.** -/
def parse (s : String) : Option Decimal :=
  let signed := readSign s.toList
  let int := signed.2.takeWhile Char.isDigit
  let fraction := readFraction (signed.2.dropWhile Char.isDigit)
  if int = [] ∧ fraction.1 = [] then none
  else (readScale fraction.2).map fun e =>
    ⟨signed.1, Nat.ofDigitChars 10 (int ++ fraction.1) 0, e - fraction.1.length⟩

/-! ## Reading what was written -/

theorem isDigit_of_mem_digits {d : Decimal} {c : Char} (h : c ∈ d.digits) : c.isDigit = true :=
  isDigit_of_mem_toDigits (by decide) (by decide) h

theorem digits_ne_nil : d.digits ≠ [] := toDigits_ne_nil

theorem length_digits_pos : 0 < d.digits.length :=
  length_pos_iff.mpr d.digits_ne_nil

@[simp] theorem value_digits : Nat.ofDigitChars 10 d.digits 0 = d.coefficient :=
  ofDigitChars_ten_toDigits

/-- Digits after a point, which is left out without any. -/
def fraction (frac : List Char) : List Char := if frac = [] then [] else '.' :: frac

/-- **The digits as written are those of the coefficient**, with so many after the point
as the exponent that is written is more than the exponent. -/
theorem mantissa_eq : ∃ int frac, d.mantissa = int ++ fraction frac ∧ int ≠ [] ∧
    (∀ c ∈ int ++ frac, c.isDigit = true) ∧
    Nat.ofDigitChars 10 (int ++ frac) 0 = d.coefficient ∧
    d.leftDigits - d.dotPlace - frac.length = d.exponent := by
  have hpos := d.length_digits_pos
  have hleft : d.leftDigits = d.exponent + d.digits.length := rfl
  unfold mantissa
  split_ifs with hsmall hwhole
  · -- the point is left of all digits, which happens only without an exponent
    have hplain : d.dotPlace = d.leftDigits := by
      unfold dotPlace at hsmall ⊢
      split_ifs at hsmall ⊢
      · rfl
      · omega
    refine ⟨['0'], List.replicate (-d.dotPlace).toNat '0' ++ d.digits, ?_, by simp, ?_, ?_, ?_⟩
    · rw [fraction, if_neg (by simp [digits_ne_nil])]
      rfl
    · intro c hc
      simp only [mem_append, mem_singleton, mem_replicate] at hc
      obtain rfl | ⟨_, rfl⟩ | hc := hc
      · decide
      · decide
      · exact isDigit_of_mem_digits hc
    · rw [ofDigitChars_append, ofDigitChars_append, ofDigitChars_replicate_zero]
      show Nat.ofDigitChars 10 d.digits (10 ^ _ * 0) = _
      rw [mul_zero, value_digits]
    · rw [length_append, length_replicate]
      omega
  · -- no digit is right of the point, and none is added left of it
    have hexact : d.dotPlace = d.digits.length := by
      unfold dotPlace at hwhole ⊢
      split_ifs at hwhole ⊢ <;> omega
    refine ⟨d.digits, [], ?_, d.digits_ne_nil, ?_, ?_, ?_⟩
    · rw [hexact, sub_self]
      rfl
    · intro c hc
      rw [append_nil] at hc
      exact isDigit_of_mem_digits hc
    · rw [append_nil, value_digits]
    · show d.leftDigits - d.dotPlace - ((0 : ℕ) : ℤ) = _
      omega
  · refine ⟨d.digits.take d.dotPlace.toNat, d.digits.drop d.dotPlace.toNat, ?_, ?_, ?_, ?_, ?_⟩
    · rw [fraction, if_neg]
      rw [drop_eq_nil_iff]
      omega
    · rw [Ne, take_eq_nil_iff]
      simp [digits_ne_nil]
      omega
    · intro c hc
      rw [take_append_drop] at hc
      exact isDigit_of_mem_digits hc
    · rw [take_append_drop, value_digits]
    · rw [length_drop]
      omega

/-- No digit comes first. -/
def Stops (cs : List Char) : Prop := ∀ c ∈ cs.head?, c.isDigit = false

variable {cs : List Char}

theorem takeWhile_digits {ds : List Char} (hds : ∀ c ∈ ds, c.isDigit = true) (hcs : Stops cs) :
    (ds ++ cs).takeWhile Char.isDigit = ds ∧ (ds ++ cs).dropWhile Char.isDigit = cs := by
  rw [takeWhile_append_of_pos hds, dropWhile_append_of_pos hds]
  cases cs with
  | nil => simp
  | cons c cs =>
    have hc : ¬ c.isDigit = true := by simp [hcs c rfl]
    rw [takeWhile_cons_of_neg hc, dropWhile_cons_of_neg hc]
    simp

theorem readInt_signed (z : ℤ) : readInt (signed z) = some z := by
  have hread : readSign (signed z) = (decide (z < 0), Nat.toDigits 10 z.natAbs) := by
    unfold signed
    split_ifs with h <;> simp [readSign, h]
  have hdigits : (Nat.toDigits 10 z.natAbs).all Char.isDigit = true := by
    rw [all_eq_true]
    exact fun c hc => isDigit_of_mem_toDigits (by decide) (by decide) hc
  simp only [readInt, hread]
  rw [if_pos ⟨toDigits_ne_nil, hdigits⟩, ofDigitChars_ten_toDigits]
  simp only [decide_eq_true_eq, Option.some.injEq]
  split_ifs <;> omega

theorem readScale_scale : readScale d.scale = some (d.leftDigits - d.dotPlace) := by
  unfold scale
  split_ifs with h
  · rw [h, sub_self]
    rfl
  · exact readInt_signed _

theorem readSign_of_digit (h : ∀ c ∈ cs.head?, c.isDigit = true) : readSign cs = (false, cs) := by
  unfold readSign
  split
  · exact absurd (h '-' rfl) (by decide)
  · exact absurd (h '+' rfl) (by decide)
  · rfl

variable {e : ℤ}

/-- What is read as an exponent begins with no digit and no point. -/
theorem stops_of_readScale (h : readScale cs = some e) : Stops cs ∧ readFraction cs = ([], cs) := by
  unfold readScale at h
  split at h
  · exact ⟨by simp [Stops], rfl⟩
  · exact ⟨by simp [Stops], rfl⟩
  · exact ⟨by simp [Stops], rfl⟩
  · cases h

/-- **A text is read by its parts**: a sign, digits, a fraction and an exponent. -/
theorem parse_parts (negative : Bool) {int frac scale : List Char} (hne : int ≠ [])
    (hdigits : ∀ c ∈ int ++ frac, c.isDigit = true) (hscale : readScale scale = some e) :
    parse (String.ofList ((if negative then ['-'] else []) ++ (int ++ fraction frac) ++ scale))
      = some ⟨negative, Nat.ofDigitChars 10 (int ++ frac) 0, e - frac.length⟩ := by
  have hint : ∀ c ∈ int, c.isDigit = true := fun c hc => hdigits c (mem_append_left _ hc)
  have hfrac : ∀ c ∈ frac, c.isDigit = true := fun c hc => hdigits c (mem_append_right _ hc)
  obtain ⟨hstop, hnone⟩ := stops_of_readScale hscale
  have hsign : readSign ((if negative then ['-'] else []) ++ (int ++ fraction frac) ++ scale)
      = (negative, int ++ fraction frac ++ scale) := by
    cases negative with
    | true => rfl
    | false =>
      refine readSign_of_digit fun c hc => hint c ?_
      obtain ⟨i, is, rfl⟩ := exists_cons_of_ne_nil hne
      obtain rfl : i = c := by simpa using hc
      exact mem_cons_self
  have hstops : Stops (fraction frac ++ scale) := by
    unfold fraction
    split_ifs
    · exact hstop
    · intro c hc
      obtain rfl : '.' = c := by simpa using hc
      rfl
  have hfraction : readFraction (fraction frac ++ scale) = (frac, scale) := by
    unfold fraction
    split_ifs with h
    · rw [h]
      exact hnone
    · obtain ⟨htake, hdrop⟩ := takeWhile_digits hfrac hstop
      show ((frac ++ scale).takeWhile Char.isDigit, (frac ++ scale).dropWhile Char.isDigit) = _
      rw [htake, hdrop]
  obtain ⟨htake, hdrop⟩ := takeWhile_digits hint hstops
  rw [← append_assoc] at htake hdrop
  simp only [parse, String.toList_ofList, hsign, hdrop, hfraction, htake]
  rw [if_neg fun h => hne h.1, hscale, Option.map_some]

/-- **A decimal comes back from its text.** -/
theorem parse_str : parse d.str = some d := by
  obtain ⟨int, frac, hmantissa, hne, hdigits, hvalue, hexponent⟩ := d.mantissa_eq
  rw [str, hmantissa, parse_parts d.negative hne hdigits d.readScale_scale, hvalue, hexponent]

/-- **Decimals with one text are the same.** -/
theorem str_injective : Function.Injective str := by
  intro d d' h
  have hparse := congrArg parse h
  rwa [parse_str, parse_str, Option.some.injEq] at hparse

example : [(⟨false, 80, -2⟩ : Decimal), ⟨true, 0, 0⟩, ⟨false, 5, -9⟩, ⟨false, 12, 3⟩].map str =
    ["0.80", "-0", "5E-9", "1.2E+4"] := by
  decide +kernel

end Decimal
