import Mathlib.Data.List.Basic
import Mathlib.Tactic.NormNum

/-!
# JSON texts

Values of strings, arrays and objects, the texts that are written for them in ASCII,
and a reader. A character outside of ASCII is written as one UTF-16 unit or as a pair
of surrogates, so that the reader first reads units and then joins them. What is
written is read back (`loads_dumps`), with or without blanks after the separators;
so values with one text are the same (`dumps_injective`).
-/

/-- **A JSON value** without numbers. -/
inductive Json where
  | null
  | str (s : String)
  | arr (items : List Json)
  | obj (fields : List (String × Json))

namespace Json

open Option

open List

/-! ## Strings -/

/-- The UTF-16 units of a character. -/
def units (c : Char) : List ℕ :=
  if c.toNat < 0x10000 then [c.toNat]
  else [0xD800 + (c.toNat - 0x10000) / 0x400, 0xDC00 + (c.toNat - 0x10000) % 0x400]

/-- Four hexadecimal digits. -/
def hex (n : ℕ) : List Char :=
  [(n / 4096 % 16).digitChar, (n / 256 % 16).digitChar, (n / 16 % 16).digitChar, (n % 16).digitChar]

/-- The characters that have an escape of their own. -/
def shortEscape : Char → Option Char
  | '"' => some '"'
  | '\\' => some '\\'
  | '\n' => some 'n'
  | '\r' => some 'r'
  | '\t' => some 't'
  | '\x0c' => some 'f'
  | '\x08' => some 'b'
  | _ => none

/-- A character within quotes (`ensure_ascii`). -/
def escape (c : Char) : List Char :=
  match shortEscape c with
  | some e => ['\\', e]
  | none =>
    if 0x20 ≤ c.toNat ∧ c.toNat ≤ 0x7e then [c]
    else (units c).flatMap fun u => '\\' :: 'u' :: hex u

def quote (s : String) : List Char := '"' :: (s.toList.flatMap escape ++ ['"'])

/-- The value of a hexadecimal digit. -/
def hexDigit (c : Char) : Option ℕ :=
  if c.isDigit then some (c.toNat - '0'.toNat)
  else if 'a' ≤ c ∧ c ≤ 'f' then some (c.toNat - 'a'.toNat + 10)
  else if 'A' ≤ c ∧ c ≤ 'F' then some (c.toNat - 'A'.toNat + 10)
  else none

/-- The value of four hexadecimal digits. -/
def hexValue (a b c d : Char) : Option ℕ := do
  let a ← hexDigit a
  let b ← hexDigit b
  let c ← hexDigit c
  let d ← hexDigit d
  some (a * 4096 + b * 256 + c * 16 + d)

/-- The unit of a short escape. -/
def unescape : Char → Option ℕ
  | '"' => some '"'.toNat
  | '\\' => some '\\'.toNat
  | '/' => some '/'.toNat
  | 'n' => some '\n'.toNat
  | 'r' => some '\r'.toNat
  | 't' => some '\t'.toNat
  | 'f' => some 0x0c
  | 'b' => some 0x08
  | _ => none

/-- One more unit before those that were read. -/
def pushUnit (u : Option ℕ) (rest : Option (List ℕ × List Char)) : Option (List ℕ × List Char) :=
  u.bind fun u => rest.map fun r => (u :: r.1, r.2)

/-- The units up to the closing quote, and what is after it. -/
def readUnits : List Char → Option (List ℕ × List Char)
  | [] => none
  | '"' :: cs => some ([], cs)
  | '\\' :: 'u' :: a :: b :: c :: d :: cs => pushUnit (hexValue a b c d) (readUnits cs)
  | '\\' :: e :: cs => pushUnit (unescape e) (readUnits cs)
  | c :: cs => pushUnit (if c.toNat < 0x20 then none else some c.toNat) (readUnits cs)

/-- The unit is the first, the second of a pair of surrogates. -/
def IsHigh (u : ℕ) : Prop := 0xD800 ≤ u ∧ u < 0xDC00
deriving Decidable

/-- The unit is the second of a pair of surrogates. -/
def IsLow (u : ℕ) : Prop := 0xDC00 ≤ u ∧ u < 0xE000
deriving Decidable

/-- The characters of units; none for a surrogate that is alone. -/
def join : List ℕ → Option (List Char)
  | [] => some []
  | [u] => if IsHigh u ∨ IsLow u then none else some [Char.ofNat u]
  | u :: v :: us =>
    if IsHigh u then
      if IsLow v then
        (join us).map (Char.ofNat (0x10000 + (u - 0xD800) * 0x400 + (v - 0xDC00)) :: ·)
      else none
    else if IsLow u then none
    else (join (v :: us)).map (Char.ofNat u :: ·)

/-- The string up to the closing quote, and what is after it. -/
def readString (cs : List Char) : Option (String × List Char) :=
  (readUnits cs).bind fun r => (join r.1).map fun chars => (String.ofList chars, r.2)

/-! ### Reading a string back -/

theorem hexDigit_digitChar : ∀ n < 16, hexDigit n.digitChar = some n := by decide

theorem hexValue_hex {n : ℕ} (h : n < 0x10000) :
    hexValue (n / 4096 % 16).digitChar (n / 256 % 16).digitChar (n / 16 % 16).digitChar
      (n % 16).digitChar = some n := by
  unfold hexValue
  rw [hexDigit_digitChar _ (Nat.mod_lt _ (by decide)),
    hexDigit_digitChar _ (Nat.mod_lt _ (by decide)),
    hexDigit_digitChar _ (Nat.mod_lt _ (by decide)),
    hexDigit_digitChar _ (Nat.mod_lt _ (by decide))]
  show some _ = _
  congr 1
  omega

variable {c : Char}

variable {u : ℕ}

theorem units_lt (h : u ∈ units c) : u < 0x10000 := by
  have hc : c.toNat < 0x110000 := by
    have := c.valid
    rcases this with h | ⟨_, h⟩
    · exact h.trans (by decide)
    · exact h
  unfold units at h
  split_ifs at h with hsmall
  · obtain rfl := mem_singleton.mp h
    exact hsmall
  · simp only [mem_cons, not_mem_nil, or_false] at h
    omega

theorem readUnits_hex {us : List ℕ} (h : ∀ u ∈ us, u < 0x10000) (cs : List Char) :
    readUnits ((us.flatMap fun u => '\\' :: 'u' :: hex u) ++ cs)
      = (readUnits cs).map fun r => (us ++ r.1, r.2) := by
  induction us with
  | nil => simp
  | cons u us ih =>
    have hu : u < 0x10000 := h u mem_cons_self
    show readUnits ('\\' :: 'u' :: _ :: _ :: _ :: _ ::
      ((us.flatMap fun u => '\\' :: 'u' :: hex u) ++ cs)) = _
    rw [readUnits, hexValue_hex hu, ih fun v hv => h v (mem_cons_of_mem u hv)]
    simp [pushUnit, Function.comp_def]

theorem readUnits_short {e : Char} (h : e ≠ 'u') (cs : List Char) :
    readUnits ('\\' :: e :: cs) = pushUnit (unescape e) (readUnits cs) := by
  rw [readUnits]
  rintro a b c d cs' rfl
  exact absurd rfl h

theorem readUnits_plain (hquote : c ≠ '"') (hback : c ≠ '\\') (cs : List Char) : readUnits (c :: cs)
      = pushUnit (if c.toNat < 0x20 then none else some c.toNat) (readUnits cs) := by
  rw [readUnits]
  · exact hquote
  · rintro _ _ _ _ _ rfl
    exact absurd rfl hback
  · rintro _ _ rfl
    exact absurd rfl hback

theorem units_of_lt (h : c.toNat < 0x10000) : units c = [c.toNat] := if_pos h

/-- **A character is read back** as its units. -/
theorem readUnits_escape (c : Char) (cs : List Char) :
    readUnits (escape c ++ cs) = (readUnits cs).map fun r => (units c ++ r.1, r.2) := by
  unfold escape
  cases hshort : shortEscape c with
  | some e =>
    have hunescape : unescape e = some c.toNat ∧ e ≠ 'u' ∧ c.toNat < 0x10000 := by
      unfold shortEscape at hshort
      split at hshort
      all_goals first | cases hshort; done | obtain rfl := some.inj hshort; decide
    obtain ⟨hunescape, hne, hlt⟩ := hunescape
    show readUnits ('\\' :: e :: cs) = _
    rw [readUnits_short hne, hunescape, units_of_lt hlt]
    rfl
  | none =>
    show readUnits ((if _ then _ else _) ++ cs) = _
    split_ifs with hascii
    · have hquote : c ≠ '"' := by rintro rfl; simp [shortEscape] at hshort
      have hback : c ≠ '\\' := by rintro rfl; simp [shortEscape] at hshort
      show readUnits (c :: cs) = _
      rw [readUnits_plain hquote hback, if_neg (by omega), units_of_lt (by omega)]
      rfl
    · exact readUnits_hex (fun u hu => units_lt hu) cs

theorem join_plain (hhigh : ¬ IsHigh u) (hlow : ¬ IsLow u) (us : List ℕ) :
    join (u :: us) = (join us).map (Char.ofNat u :: ·) := by
  cases us with
  | nil => simp [join, hhigh, hlow]
  | cons v us => simp [join, hhigh, hlow]

theorem join_units (c : Char) (us : List ℕ) : join (units c ++ us) = (join us).map (c :: ·) := by
  have hc : c.toNat < 0xD800 ∨ (0xDFFF < c.toNat ∧ c.toNat < 0x110000) := c.valid
  unfold units
  split_ifs with hsmall
  · rw [singleton_append, join_plain (by unfold IsHigh; omega) (by unfold IsLow; omega),
      Char.ofNat_toNat]
  · have hhigh : IsHigh (0xD800 + (c.toNat - 0x10000) / 0x400) := by
      constructor <;> omega
    have hlow : IsLow (0xDC00 + (c.toNat - 0x10000) % 0x400) := by
      constructor <;> omega
    have hjoin : 0x10000 + (0xD800 + (c.toNat - 0x10000) / 0x400 - 0xD800) * 0x400
        + (0xDC00 + (c.toNat - 0x10000) % 0x400 - 0xDC00) = c.toNat := by
      omega
    show join (_ :: _ :: us) = _
    rw [join, if_pos hhigh, if_pos hlow, hjoin, Char.ofNat_toNat]

theorem readUnits_escaped (chars rest : List Char) :
    readUnits (chars.flatMap escape ++ '"' :: rest) = some (chars.flatMap units, rest) := by
  induction chars with
  | nil => rfl
  | cons c chars ih =>
    rw [flatMap_cons, append_assoc, readUnits_escape, ih]
    rfl

theorem join_flatMap_units (chars : List Char) : join (chars.flatMap units) = some chars := by
  induction chars with
  | nil => rfl
  | cons c chars ih =>
    rw [flatMap_cons, join_units, ih]
    rfl

/-- **A string is read back from its quotes.** -/
theorem readString_quote (s : String) (rest : List Char) :
    readString (s.toList.flatMap escape ++ '"' :: rest) = some (s, rest) := by
  rw [readString, readUnits_escaped, bind_some, join_flatMap_units, map_some, String.ofList_toList]

/-! ## Values -/

/-- Blanks between the tokens. -/
def IsSpace (c : Char) : Bool := c == ' ' || c == '\t' || c == '\n' || c == '\r'

/-- What comes after blanks. -/
def skipSpace (cs : List Char) : List Char := cs.dropWhile IsSpace

section Text

variable (gap : List Char)

mutual

/-- **The text of a value**, with a gap after each separator. -/
def text : Json → List Char
  | .null => ['n', 'u', 'l', 'l']
  | .str s => quote s
  | .arr [] => ['[', ']']
  | .arr (item :: items) => '[' :: (text item ++ itemsText items)
  | .obj [] => ['{', '}']
  | .obj ((key, value) :: fields) =>
    '{' :: (quote key ++ ':' :: (gap ++ (text value ++ fieldsText fields)))

/-- The further items, up to the end of the array. -/
def itemsText : List Json → List Char
  | [] => [']']
  | item :: items => ',' :: (gap ++ (text item ++ itemsText items))

/-- The further fields, up to the end of the object. -/
def fieldsText : List (String × Json) → List Char
  | [] => ['}']
  | (key, value) :: fields =>
    ',' :: (gap ++ (quote key ++ ':' :: (gap ++ (text value ++ fieldsText fields))))

end

def dumps (value : Json) : String := String.ofList (text gap value)

end Text

/-- A key and its value, read by `read`, and what is after them. -/
def readField (read : List Char → Option (Json × List Char)) (cs : List Char) :
    Option ((String × Json) × List Char) :=
  match skipSpace cs with
  | '"' :: cs =>
    (readString cs).bind fun key =>
      match skipSpace key.2 with
      | ':' :: cs => (read cs).map fun value => ((key.1, value.1), value.2)
      | _ => none
  | _ => none

mutual

/-- A value at the beginning of the text, and what is after it. -/
def readValue : ℕ → List Char → Option (Json × List Char)
  | 0, _ => none
  | fuel + 1, cs =>
    match skipSpace cs with
    | 'n' :: 'u' :: 'l' :: 'l' :: cs => some (.null, cs)
    | '"' :: cs => (readString cs).map fun r => (.str r.1, r.2)
    | '[' :: cs =>
      match skipSpace cs with
      | ']' :: cs => some (.arr [], cs)
      | _ =>
        (readValue fuel cs).bind fun item =>
          (readItems fuel item.2).map fun r => (.arr (item.1 :: r.1), r.2)
    | '{' :: cs =>
      match skipSpace cs with
      | '}' :: cs => some (.obj [], cs)
      | _ =>
        (readField (readValue fuel) cs).bind fun field =>
          (readFields fuel field.2).map fun r => (.obj (field.1 :: r.1), r.2)
    | _ => none

/-- The further items, up to the end of the array. -/
def readItems : ℕ → List Char → Option (List Json × List Char)
  | 0, _ => none
  | fuel + 1, cs =>
    match skipSpace cs with
    | ']' :: cs => some ([], cs)
    | ',' :: cs =>
      (readValue fuel cs).bind fun item =>
        (readItems fuel item.2).map fun r => (item.1 :: r.1, r.2)
    | _ => none

/-- The further fields, up to the end of the object. -/
def readFields : ℕ → List Char → Option (List (String × Json) × List Char)
  | 0, _ => none
  | fuel + 1, cs =>
    match skipSpace cs with
    | '}' :: cs => some ([], cs)
    | ',' :: cs =>
      (readField (readValue fuel) cs).bind fun field =>
        (readFields fuel field.2).map fun r => (field.1 :: r.1, r.2)
    | _ => none

end

/-- `json.loads`. Every call reads a character, so that the length of the text is
fuel enough. -/
def loads (s : String) : Option Json :=
  (readValue s.toList.length s.toList).bind fun r =>
    if skipSpace r.2 = [] then some r.1 else none

/-! ### Reading a value back -/

theorem skipSpace_cons (h : IsSpace c = false) (cs : List Char) : skipSpace (c :: cs) = c :: cs :=
  dropWhile_cons_of_neg (by rw [h]; exact Bool.false_ne_true)

section Text

variable {gap : List Char} (hgap : ∀ c ∈ gap, IsSpace c = true)

include hgap in
theorem skipSpace_gap (cs : List Char) : skipSpace (gap ++ cs) = skipSpace cs :=
  dropWhile_append_of_pos hgap

include hgap in
theorem readValue_gap (n : ℕ) (cs : List Char) : readValue n (gap ++ cs) = readValue n cs := by
  cases n with
  | zero => rfl
  | succ n => simp only [readValue, skipSpace_gap hgap]

include hgap in
theorem readField_gap (read : List Char → Option (Json × List Char)) (cs : List Char) :
    readField read (gap ++ cs) = readField read cs := by
  simp only [readField, skipSpace_gap hgap]

/-- A value begins with no blank, and with no end of an array. -/
theorem text_head (gap : List Char) (j : Json) :
    ∃ c cs, text gap j = c :: cs ∧ IsSpace c = false ∧ c ≠ ']' := by
  cases j with
  | null => exact ⟨_, _, rfl, rfl, by decide⟩
  | str s => exact ⟨_, _, rfl, rfl, by decide⟩
  | arr items => cases items <;> exact ⟨_, _, rfl, rfl, by decide⟩
  | obj fields => cases fields <;> exact ⟨_, _, rfl, rfl, by decide⟩

theorem readField_text {read : List Char → Option (Json × List Char)} (key : String) {value : Json}
    {cs : List Char} (hread : read (gap ++ (text gap value ++ cs)) = some (value, cs)) :
    readField read (quote key ++ ':' :: (gap ++ (text gap value ++ cs)))
      = some ((key, value), cs) := by
  have hquote : quote key ++ ':' :: (gap ++ (text gap value ++ cs))
      = '"' :: (key.toList.flatMap escape ++ '"' :: ':' :: (gap ++ (text gap value ++ cs))) := by
    simp [quote]
  have hcolon := skipSpace_cons (c := ':') rfl (gap ++ (text gap value ++ cs))
  rw [readField, hquote, skipSpace_cons rfl]
  simp only [readString_quote, bind_some, hcolon, hread, map_some]

mutual

/-- **A value is read back from its text**, whatever comes after it. -/
theorem readValue_text (hgap : ∀ c ∈ gap, IsSpace c = true) : ∀ (value : Json) {n : ℕ}
    (rest : List Char), (text gap value).length ≤ n →
      readValue n (text gap value ++ rest) = some (value, rest)
  | value, 0, rest, h => by
    obtain ⟨c, cs, hc, _⟩ := text_head gap value
    simp [hc] at h
  | .null, n + 1, rest, h => by
    rw [readValue, text, cons_append, skipSpace_cons rfl]
    rfl
  | .str s, n + 1, rest, h => by
    rw [readValue, text, quote, cons_append, skipSpace_cons rfl, append_assoc]
    show (readString _).map _ = _
    rw [singleton_append, readString_quote]
    rfl
  | .arr [], n + 1, rest, h => by
    rw [readValue, text, cons_append, skipSpace_cons rfl]
    rfl
  | .arr (item :: items), n + 1, rest, h => by
    simp only [text, length_cons, length_append] at h
    have hitem := readValue_text hgap item (itemsText gap items ++ rest) (n := n) (by omega)
    have hitems := readItems_text hgap items rest (n := n) (by omega)
    obtain ⟨c, cs, hc, hspace, hne⟩ := text_head gap item
    rw [readValue, text, cons_append, skipSpace_cons rfl, append_assoc]
    simp only [hitem, hitems, bind_some, map_some]
    rw [hc, cons_append, skipSpace_cons hspace]
    split
    · rename_i heq
      exact absurd (List.cons.inj heq).1 hne
    · rfl
  | .obj [], n + 1, rest, h => by
    rw [readValue, text, cons_append, skipSpace_cons rfl]
    rfl
  | .obj ((key, value) :: fields), n + 1, rest, h => by
    simp only [text, length_cons, length_append] at h
    have hvalue := readValue_text hgap value (fieldsText gap fields ++ rest) (n := n) (by omega)
    have hfields := readFields_text hgap fields rest (n := n) (by omega)
    have hfield := readField_text key ((readValue_gap hgap n _).trans hvalue)
    rw [readValue, text, cons_append, skipSpace_cons rfl]
    simp only [append_assoc, cons_append] at hfield ⊢
    simp only [hfield, hfields, bind_some, map_some]
    rfl

theorem readItems_text (hgap : ∀ c ∈ gap, IsSpace c = true) : ∀ (items : List Json) {n : ℕ}
    (rest : List Char), (itemsText gap items).length ≤ n →
      readItems n (itemsText gap items ++ rest) = some (items, rest)
  | [], n + 1, rest, h => by
    rw [readItems, itemsText, cons_append, skipSpace_cons rfl]
    rfl
  | item :: items, n + 1, rest, h => by
    simp only [itemsText, length_cons, length_append] at h
    rw [readItems, itemsText, cons_append, skipSpace_cons rfl]
    show (readValue n _).bind _ = _
    rw [append_assoc, readValue_gap hgap, append_assoc,
      readValue_text hgap item _ (by omega), bind_some,
      readItems_text hgap items _ (by omega)]
    rfl
  | [], 0, rest, h => by simp [itemsText] at h
  | item :: items, 0, rest, h => by simp [itemsText] at h

theorem readFields_text (hgap : ∀ c ∈ gap, IsSpace c = true) : ∀ (fields : List (String × Json))
    {n : ℕ} (rest : List Char), (fieldsText gap fields).length ≤ n →
      readFields n (fieldsText gap fields ++ rest) = some (fields, rest)
  | [], n + 1, rest, h => by
    rw [readFields, fieldsText, cons_append, skipSpace_cons rfl]
    rfl
  | (key, value) :: fields, n + 1, rest, h => by
    simp only [fieldsText, length_cons, length_append] at h
    have hvalue := readValue_text hgap value (fieldsText gap fields ++ rest) (n := n) (by omega)
    have hfields := readFields_text hgap fields rest (n := n) (by omega)
    have hfield := readField_text key ((readValue_gap hgap n _).trans hvalue)
    rw [readFields, fieldsText, cons_append, skipSpace_cons rfl]
    simp only [append_assoc, cons_append, readField_gap hgap] at hfield ⊢
    simp only [hfield, hfields, bind_some, map_some]
  | [], 0, rest, h => by simp [fieldsText] at h
  | (key, value) :: fields, 0, rest, h => by simp [fieldsText] at h

end

/-- **What is written is read back.** -/
theorem loads_dumps (hgap : ∀ c ∈ gap, IsSpace c = true) (value : Json) :
    loads (dumps gap value) = some value := by
  have hread := readValue_text hgap value [] le_rfl
  rw [append_nil] at hread
  rw [loads, dumps, String.toList_ofList, hread]
  rfl

/-- **Values with one text are the same.** -/
theorem dumps_injective (hgap : ∀ c ∈ gap, IsSpace c = true) : Function.Injective (dumps gap) := by
  intro value value' h
  have hloads := congrArg loads h
  rwa [loads_dumps hgap, loads_dumps hgap, Option.some.injEq] at hloads

end Text

end Json
