import QuantTrading.Lib.Firsts
import QuantTrading.Lib.FixedText
import QuantTrading.Lib.JsonText
import QuantTrading.Persistence

/-!
# Canonical decimals and content hashes

`qt.contracts.base`: the one text of a number that every hash is made of, the decimals of a
contract, and contracts as what they are made of – fields with their kinds and defaults, and a
validator over all of them.

A number is spelled in many ways and has one canonical text, so that a contract has one hash however
its numbers were spelled, and still has it after it is dumped and validated again. Texts given as
texts are no numbers: what is frozen as JSON keeps them as they are.

The hash is a parameter, and so is how a float is written. The digits of a text are those of ASCII.
-/

namespace Qt.Canonical

open Except List

/-! ## The text of a number -/

def decimalString (d : Decimal) : Except Exc String :=
  if d.value = 0 then .ok "0"
  else if 1000 < |d.exponent| ∨ 1000 < d.leftDigits - 1 then
    .error (.valueError "decimal text exceeds the canonical expansion bound")
  else
    .ok (String.ofList
      (if '.' ∈ d.fixed then (d.fixed.rdropWhile (· == '0')).rdropWhile (· == '.') else d.fixed))

/-- The numbers that have a canonical text. -/
def InRange (d : Decimal) : Prop :=
  d.value = 0 ∨ |d.exponent| ≤ 1000 ∧ d.leftDigits - 1 ≤ 1000

variable {d d' : Decimal}

/-- The text of a number in range. -/
def text (d : Decimal) : String := if d.value = 0 then "0" else String.ofList d.plain

theorem decimalString_eq (h : InRange d) : decimalString d = .ok (text d) := by
  unfold decimalString text
  split
  · rfl
  · rename_i hne
    obtain ⟨hexponent, hleft⟩ := h.resolve_left hne
    rw [if_neg (by omega), Decimal.strip_fixed]

theorem inRange_of_decimalString {t : String} (h : decimalString d = .ok t) : InRange d := by
  unfold decimalString at h
  split at h
  · exact .inl ‹_›
  · split at h
    · cases h
    · exact .inr (by omega)

/-- **The number is read from its canonical text**, as one that is in range again. -/
theorem parse_text (h : InRange d) :
    ∃ d', Decimal.parse (text d) = some d' ∧ d'.value = d.value ∧ InRange d' := by
  unfold text
  split
  · rename_i hzero
    refine ⟨⟨false, 0, 0⟩, by decide +kernel, ?_, .inl ?_⟩
    · rw [hzero]
      decide +kernel
    · decide +kernel
  · rename_i hne
    obtain ⟨hexponent, hleft⟩ := h.resolve_left hne
    obtain ⟨d', hparse, hvalue, hkept⟩ := d.parse_plain
    have hcoefficient : d'.coefficient ≠ 0 := by
      rw [Ne, ← Decimal.value_eq_zero, hvalue]
      exact hne
    have hplaces := d.length_kept_le
    have hright := d.length_right_le
    refine ⟨d', hparse, hvalue, .inr ⟨?_, ?_⟩⟩
    · rw [abs_le] at hexponent ⊢
      omega
    · rw [Decimal.leftDigits_eq_of_value_eq hcoefficient hvalue]
      exact hleft

/-- **Two numbers in range have one text exactly when they are the same.** -/
theorem text_eq_iff (h : InRange d) (h' : InRange d') : text d = text d' ↔ d.value = d'.value := by
  constructor
  · intro heq
    obtain ⟨x, hx, hvalue, -⟩ := parse_text h
    obtain ⟨y, hy, hvalue', -⟩ := parse_text h'
    rw [heq, hy] at hx
    rw [← hvalue, ← hvalue', Option.some.inj hx]
  · intro heq
    unfold text
    rw [← heq]
    split
    · rfl
    · rename_i hne
      rw [Decimal.plain_eq_of_value_eq (mt Decimal.value_eq_zero.mpr hne) heq]

/-- No exponent, and a sign only in front of what is negative. -/
theorem char_of_mem_text {c : Char} (h : c ∈ (text d).toList) :
    c = '-' ∨ c = '.' ∨ c.isDigit = true := by
  unfold text at h
  split at h
  · obtain rfl : c = '0' := by simpa using h
    exact .inr (.inr rfl)
  · rw [String.toList_ofList] at h
    exact Decimal.char_of_mem_plain h

theorem head_text (d : Decimal) : (text d).toList.head? = some '-' ↔ d.value < 0 := by
  unfold text
  split
  · rename_i hzero
    rw [hzero]
    decide
  · rename_i hne
    rw [String.toList_ofList, Decimal.head_plain,
      Decimal.value_neg_iff (mt Decimal.value_eq_zero.mpr hne)]

/-! ## Values -/

/-- A value of a contract: JSON, and decimals. -/
inductive Value
  | null
  | bool (b : Bool)
  | int (n : ℤ)
  | float (x : ℚ)
  | str (s : String)
  | decimal (d : Decimal)
  | tuple (items : List Value)
  | dict (fields : List (String × Value))

/-- The fields of a value. -/
abbrev Fields := List (String × Value)

/-- What `_decimal` takes for a number. -/
def parsed : Value → Except Exc Decimal
  | .decimal d => .ok d
  | .str s =>
    match Decimal.parse s with
    | some d =>
      if s.length ≤ 128 then .ok d
      else .error (.valueError "financial values require decimal strings or Decimal, not numbers")
    | none => .error (.valueError
        "financial values require decimal strings or Decimal, not numbers")
  | _ => .error (.valueError "financial values require decimal strings or Decimal, not numbers")

/-- The text up to the point and after it, `lstrip("-")` and `partition(".")`. -/
def parts (s : String) : List Char × List Char :=
  let digits := s.toList.dropWhile (· == '-')
  (digits.takeWhile (· != '.'), (digits.dropWhile (· != '.')).tail)

/-- What is raised of a number with too many digits. -/
def notNumeric : Exc :=
  .valueError "financial values must fit NUMERIC(38,18) without rounding"

def decimal (value : Value) : Except Exc Decimal := do
  let parsed ← parsed value
  raiseIf (1000 < |parsed.exponent|)
    (.valueError "financial values must be finite with a bounded exponent")
  raiseIf (19 < parsed.leftDigits - 1) notNumeric
  let s ← decimalString parsed
  raiseIf (20 < ((parts s).1.dropWhile (· == '0')).length ∨ 18 < (parts s).2.length) notNumeric
  return parsed

/-- What `_decimal` checks of a number. -/
def Admitted (d : Decimal) : Prop :=
  |d.exponent| ≤ 1000 ∧ d.leftDigits ≤ 20 ∧
    ((parts (text d)).1.dropWhile (· == '0')).length ≤ 20 ∧ (parts (text d)).2.length ≤ 18

theorem Admitted.inRange (h : Admitted d) : InRange d := .inr ⟨h.1, by have := h.2.1; omega⟩

theorem decimal_eq_ok {v : Value} : decimal v = .ok d ↔ parsed v = .ok d ∧ Admitted d := by
  unfold decimal
  rw [bind_eq_ok]
  constructor
  · rintro ⟨x, hx, h⟩
    obtain ⟨hexponent, h⟩ := of_raiseIf h
    obtain ⟨hleft, h⟩ := of_raiseIf h
    obtain ⟨s, hs, h⟩ := of_bind h
    obtain ⟨hparts, h⟩ := of_raiseIf h
    obtain rfl : x = d := ok.inj h
    have htext : s = text x :=
      ok.inj (hs.symm.trans (decimalString_eq (inRange_of_decimalString hs)))
    subst htext
    exact ⟨hx, by omega, by omega, by omega, by omega⟩
  · rintro ⟨hx, h⟩
    have hexponent := h.1
    have hleft := h.2.1
    have hparts := h.2.2
    refine ⟨d, hx, ?_⟩
    rw [raiseIf_bind_of_not (by omega), raiseIf_bind_of_not (by omega),
      decimalString_eq h.inRange, ok_bind, raiseIf_bind_of_not (by omega)]
    rfl

theorem parts_text (hne : d.value ≠ 0) : parts (text d) = (d.whole, d.kept) := by
  have hwhole : ∀ c ∈ d.whole, (c != '.') = true := fun c hc => by
    rw [bne_iff_ne]
    rintro rfl
    exact absurd (Decimal.isDigit_of_mem_whole hc) (by decide)
  obtain ⟨c, cs, hcs⟩ := exists_cons_of_ne_nil d.whole_ne_nil
  have hdash : ¬ (c == '-') = true := fun heq => by
    have hdigit : c.isDigit = true := Decimal.isDigit_of_mem_whole (d := d) (hcs ▸ mem_cons_self)
    rw [eq_of_beq heq] at hdigit
    exact absurd hdigit (by decide)
  have hdigits : (text d).toList.dropWhile (· == '-') = d.whole ++ Decimal.fraction d.kept := by
    rw [text, if_neg hne, String.toList_ofList, Decimal.plain, append_assoc, hcs]
    unfold Decimal.sign
    split
    · rw [singleton_append, dropWhile_cons_of_pos (by decide), cons_append,
        dropWhile_cons_of_neg (p := (· == '-')) hdash]
    · rw [nil_append, cons_append, dropWhile_cons_of_neg (p := (· == '-')) hdash]
  unfold parts
  rw [hdigits]
  dsimp only
  rw [takeWhile_append_of_pos hwhole, dropWhile_append_of_pos hwhole]
  unfold Decimal.fraction
  split
  · rename_i hnil
    simp [hnil]
  · simp

/-- The text of a number that was admitted is short enough to be read. -/
theorem length_text_le (h : Admitted d) : (text d).length ≤ 128 := by
  by_cases hzero : d.value = 0
  · rw [text, if_pos hzero]
    decide
  · have hparts := h.2.2.2
    have hleft := h.2.1
    have hwhole := d.length_whole_le
    rw [parts_text hzero] at hparts
    rw [text, if_neg hzero, String.length_ofList, Decimal.plain, length_append, length_append]
    have hsign : d.sign.length ≤ 1 := by
      unfold Decimal.sign
      split <;> simp
    have hfraction : (Decimal.fraction d.kept).length ≤ d.kept.length + 1 := by
      unfold Decimal.fraction
      split <;> simp
    dsimp only at hparts
    omega

/-- **A number that was admitted is read again from its canonical text**, and admitted again. -/
theorem decimal_text (h : Admitted d) :
    ∃ d', decimal (.str (text d)) = .ok d' ∧ d'.value = d.value ∧ Admitted d' := by
  obtain ⟨d', hparse, hvalue, hrange⟩ := parse_text h.inRange
  have htext : text d' = text d := (text_eq_iff hrange h.inRange).mpr hvalue
  have hadmitted : Admitted d' := by
    by_cases hzero : d.value = 0
    · obtain rfl : d' = ⟨false, 0, 0⟩ := by
        rw [text, if_pos hzero] at hparse
        exact (Option.some.inj (hparse.symm.trans (by decide +kernel)))
      exact ⟨by decide, by decide, by decide +kernel, by decide +kernel⟩
    · have hcoefficient : d'.coefficient ≠ 0 := by
        rw [Ne, ← Decimal.value_eq_zero, hvalue]
        exact hzero
      have hexponent := (hrange.resolve_left (hvalue ▸ hzero)).1
      have hleft := Decimal.leftDigits_eq_of_value_eq hcoefficient hvalue
      exact ⟨hexponent, hleft ▸ h.2.1, htext ▸ h.2.2.1, htext ▸ h.2.2.2⟩
  refine ⟨d', decimal_eq_ok.mpr ⟨?_, hadmitted⟩, hvalue, hadmitted⟩
  rw [parsed, hparse]
  exact if_pos (length_text_le h)


end Qt.Canonical
