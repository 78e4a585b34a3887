import Mathlib.Algebra.Order.BigOperators.Group.List
import QuantTrading.Lib.JsonText

/-!
# JSON texts that keep their characters

What `json.dumps` writes with `ensure_ascii=False`: only quotes, backslashes and control
characters are escaped. Arrays and objects are put together from the texts of their parts, so
that a part can be a number, or a text that is already there. How long an array is follows from
how long its items are (`length_array`).
-/

namespace Json

open List

/-- A character within quotes (`ensure_ascii=False`). -/
def escapePlain (c : Char) : List Char :=
  match shortEscape c with
  | some e => ['\\', e]
  | none => if c.toNat < 0x20 then '\\' :: 'u' :: hex c.toNat else [c]

def quotePlain (s : String) : List Char := '"' :: (s.toList.flatMap escapePlain ++ ['"'])

/-- Parts with commas between them. -/
def commas : List (List Char) → List Char
  | [] => []
  | [part] => part
  | part :: parts => part ++ ',' :: ' ' :: commas parts

def array (items : List (List Char)) : List Char := '[' :: (commas items ++ [']'])

/-- A field of an object. -/
def field (f : String × List Char) : List Char := quotePlain f.1 ++ ':' :: ' ' :: f.2

def object (fields : List (String × List Char)) : List Char :=
  '{' :: (commas (fields.map field) ++ ['}'])

theorem length_commas (parts : List (List Char)) :
    (commas parts).length = (parts.map List.length).sum + 2 * (parts.length - 1) := by
  induction parts with
  | nil => rfl
  | cons part parts ih =>
    cases parts with
    | nil => rfl
    | cons next parts =>
      show (part ++ ',' :: ' ' :: commas (next :: parts)).length = _
      rw [length_append, length_cons, length_cons, ih, map_cons (a := part), sum_cons]
      simp only [length_cons, Nat.add_sub_cancel]
      omega

theorem length_array (items : List (List Char)) :
    (array items).length = (items.map List.length).sum + 2 * (items.length - 1) + 2 := by
  show (commas items ++ [']']).length + 1 = _
  rw [length_append, length_commas]
  rfl

/-- **More items** do not make an array shorter. -/
theorem length_array_le {items items' : List (List Char)} (h : items.Sublist items') :
    (array items).length ≤ (array items').length := by
  have hsum : (items.map List.length).sum ≤ (items'.map List.length).sum :=
    (h.map List.length).sum_le_sum fun _ _ => Nat.zero_le _
  have hlength := h.length_le
  rw [length_array, length_array]
  omega

end Json
